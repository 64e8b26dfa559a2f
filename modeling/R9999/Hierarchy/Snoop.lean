import R9999.Hierarchy.Completion
import R9999.Hierarchy.Traffic

/-!
# Writebacks in flight

A writeback of the L1D can wait for the L2 while the L2 serves a snoop of its line, or evicts
the line.  The L2 then probes for the line, and the reply carries the data of the writeback.
`Covered` says so: a writeback in flight is of a line that the L2 still has a record of, or its
value has reached the L2 with a probe.

Hence, with cacheable traffic and without operations that discard lines, DRAM has the newest
value of every line that the L2 does not have (`dram_newest`): a snoop that is done has left
nothing behind in the request registers of the L1D.
-/

namespace R9999

namespace L2View

open L2

variable {g : Geometry} {v v' : L2View} {i : Input}

/-- A request that is looked up and not owed an answer is a writeback. -/
theorem sw_of_owes (hc : Ctl g v) (hl : looking v.regs.state = true) (ho : owes v.regs = false)
    (hn : v.regs.opcode ≠ .snoopInvl) : v.regs.opcode = .sw ∧ v.regs.isUncache = false := by
  have hm := hc.mode
  unfold Mode Filling at hm
  unfold owes at ho
  cases hs : v.regs.state <;> simp_all [looking]

/-- An uncached access comes from `IDLE`. -/
theorem cached_step (h : Step g v i v') (hs : v.regs.state ≠ .idle)
    (hu : v.regs.isUncache = false) : v'.regs.isUncache = false := by
  cases h
  all_goals simp_all

/-- A recorded line is not taken away, unless it has been probed, by a request that does not
come from the L1D. -/
theorem not_takes {x : LineAddr} {c : Nat} (hr : Recorded g v x c) (hx : x = curAddr g v)
    (hi : v.regs.idx < g.l2Lines) (hpr : v.regs.probed = false) (hu : v.regs.isUncache = false)
    (hf : v.regs.fromD = false ∨ v.regs.opcode = .snoopInvl)
    (ho : v.regs.fromD = false → v.regs.opcode = .lw ∨ v.regs.opcode = .snoopInvl) :
    ¬ takes v.regs v.cur := by
  have hidx : g.l2Idx x = v.regs.idx := by rw [hx, curAddr, g.l2Idx_l2Line _ hi]
  have hpd := (hr.cur_of_idx hidx).2.2
  rintro ⟨hh, h | ⟨hn, hlw⟩⟩
  · exact absurd h (by simp [hu])
  · by_cases hop : v.regs.opcode = .snoopInvl
    · simp [needsProbe, hpr, hu, hop, hh, hpd] at hn
    · have hfd : v.regs.fromD = false := hf.resolve_right hop
      have hl : v.regs.opcode = .lw := (ho hfd).resolve_right hop
      exact absurd (hlw hl) (by simp [hfd])

end L2View

namespace Hier

open L2View (accepts acceptsSnoop discards looking takes Recorded curAddr Evicting owes)

variable {g : Geometry} {s : Hier} {i : Stim}

/-- No operation that the L2 accepts in this cycle discards a line. -/
def Keeps (g : Geometry) (s : Hier) (i : Stim) : Prop :=
  (accepts s.l2.regs (s.l2Pins g i) = true → (s.l2Req g).opcode ≠ .pgdrop) ∧
    (acceptsSnoop s.l2.regs (s.l2Pins g i) = true → i.snoopReqWbinv = true)

instance (g : Geometry) (s : Hier) (i : Stim) : Decidable (Keeps g s i) :=
  inferInstanceAs (Decidable ((_ → ¬ _) ∧ (_ → _)))

/-- The L2 has a record of the line, and is not done with probing for it. -/
def Tracked (g : Geometry) (s : Hier) (x : LineAddr) : Prop :=
  (∃ c, Recorded g s.l2.view x c) ∧ (Evicting s.l2.regs → curAddr g s.l2.view ≠ x)

/-- A writeback in flight is of a line that the L2 tracks, or its value has reached the L2. -/
structure Covered (g : Geometry) (s : Hier) (m : Seen) : Prop where
  kept : ∀ x, ¬ Condemned s x
  plain : s.l2.regs.isUncache = false
  /-- The line of a request of the L1D that is looked up is not also in flight. -/
  own : looking s.l2.regs.state = true → s.l2.regs.fromD = true →
    s.l2.regs.opcode ≠ .snoopInvl → ¬ Flight s s.l2.regs.saveaddr
  flight : ∀ x, Flight s x → m.cpu x = m.below x ∨ Tracked g s x

theorem Phase.drained_of_walk (h : Phase s)
    (hw : s.l2.regs.state = .init ∨ L2View.walks s.l2.regs.state = true) : Drained s := by
  have key : ∀ {w d}, L2At s w false d → s.l2.regs.state ≠ .init → False := by
    intro w d h₂ hi
    rcases hw with h | h
    · exact hi h
    · exact absurd (h₂.walks h) (by simp [h₂.req])
  cases h with
  | boot _ _ hc => exact .inl hc.state
  | wholeDone hc _ _ h₁ => exact .inr ⟨hc.state, .inl h₁.done⟩
  | walk hc | walkDone hc => exact .inr ⟨hc.state, .inr hc.l1d⟩
  | active _ _ h₂ hi | line _ _ _ _ h₂ hi | wholePulse _ _ h₂ hi | wholePend _ _ h₂ hi
  | wholeWork _ _ _ _ h₂ hi => exact (key h₂ hi).elim

section Next

variable (hs : Sound g s) (hp : Present g s)

include hs hp

theorem own_next (ho : looking s.l2.regs.state = true → s.l2.regs.fromD = true →
      s.l2.regs.opcode ≠ .snoopInvl → ¬ Flight s s.l2.regs.saveaddr)
    (hl : looking (s.next g i).l2.regs.state = true) (hf : (s.next g i).l2.regs.fromD = true)
    (hn : (s.next g i).l2.regs.opcode ≠ .snoopInvl) :
    ¬ Flight (s.next g i) (s.next g i).l2.regs.saveaddr := by
  intro hfl
  have hstep := hs.l2Step (i := i)
  by_cases hi : s.l2.view.regs.state = .idle
  · -- the request has just been accepted
    have ha : accepts s.l2.regs (s.l2Pins g i) = true := L2View.looking_of_idle hstep hi hl hf
    have hfd : (s.l2Req g).fromD = true := (L2View.accepted_step hstep ha).fromD.symm.trans hf
    have hsv := hfl.2.1
    rw [servesD_next hs, ha, hfd, Bool.and_self, Bool.or_true] at hsv
    cases hsv
  · have hsame := L2View.sameReq_step hstep hi
    obtain ⟨hl0, -⟩ := L2View.looking_step hstep hi hl
    have hf0 : s.l2.regs.fromD = true := hsame.fromD.symm.trans hf
    have hn0 : s.l2.regs.opcode ≠ .snoopInvl := fun h => hn (hsame.opcode.trans h)
    have hx0 : (s.next g i).l2.regs.saveaddr = s.l2.regs.saveaddr := hsame.saveaddr
    rw [hx0] at hfl
    rcases flight_next hs hfl with ⟨hfl, -⟩ | ⟨hv, hq, hx⟩
    · exact ho hl0 hf0 hn0 hfl
    · -- the line is not in the L1D to be sent again
      have hout : s.l1dOut = false :=
        (L1d.out_step (hs.l1dStep (i := i)) hs.wf.pipe hs.wf.expects).2 hv
      have hsv : s.served = false := by
        cases hsv : s.served
        · rfl
        · exact absurd (hs.out_of_served hsv hf0) (by simp [hout])
      rw [served, Bool.or_eq_false_iff] at hsv
      obtain ⟨hop, hun⟩ := L2View.sw_of_owes hs.wf.ctl hl0 hsv.1 hn0
      obtain ⟨j, hj⟩ := (turn (i := i) hs s.dram s.dram).held hv hq
      rw [hx] at hj
      exact (hp.away hl0 hf0 hsv.2).line hun (.inl hop) j hj

omit hp in
/-- A tracked line stays tracked until its probe is acknowledged. -/
theorem tracked_next {x : LineAddr} (ht : Tracked g s x)
    (hw : ¬ (s.l2.regs.state = .init ∨ L2View.walks s.l2.regs.state = true))
    (hn : s.l2.regs.state = .checkValidAndTag → x = curAddr g s.l2.view →
      ¬ takes s.l2.regs s.l2.view.cur) :
    Tracked g (s.next g i) x ∨ s.l1d.regs.prbAck = true ∧ s.l2.regs.probeAddr = x := by
  obtain ⟨⟨c, hr⟩, he⟩ := ht
  have hstep := hs.l2Step (i := i)
  have hr' : Recorded g (s.next g i).l2.view x c := by
    rcases L2View.recorded_step hstep hr with h | h | h | ⟨hx, ⟨hc, htk⟩ | hc⟩
    · exact h
    · exact absurd (.inl h) hw
    · exact absurd (.inr h) hw
    · exact absurd htk (hn hc hx)
    · exact absurd hx.symm (he (.inr (.inr (.inl hc))))
  by_cases ha : s.l1d.regs.prbAck = true ∧ s.l2.regs.probeAddr = x
  · exact .inr ha
  refine .inl ⟨⟨c, hr'⟩, fun he' hx => ?_⟩
  obtain ⟨-, ⟨hcur, hidx, hcase⟩ | hz⟩ := L2View.evicting_step hstep he'
  · have hx0 : curAddr g s.l2.view = x := by
      rw [curAddr, hcur, hidx] at hx
      exact hx
    rcases hcase with h | ⟨hc, ⟨hpr, hpa, -⟩ | ⟨hp, hun, ho, hh⟩⟩
    · exact he h hx0
    · -- the probe of the line is acknowledged
      obtain ⟨-, -, hpx, -⟩ := hs.wf.pulses.probe hpr
      exact ha ⟨hpa, hpx.trans hx0⟩
    · have hi : g.l2Idx x = s.l2.view.regs.idx := by
        rw [← hx0, curAddr, g.l2Idx_l2Line _ hs.wf.ctl.idx_lt]
      obtain ⟨hv, -, hpd⟩ := hr.cur_of_idx hi
      cases hpr : s.l2.view.regs.probed with
      | true => exact he (.inr (.inr (.inr (.inr ⟨hpr, .inr hc⟩)))) hx0
      | false => simp [L2View.needsProbe, hpr, hun, ho, hh, hv, hpd] at hp
  · -- a line that has just come is not recorded
    have hlt : (s.next g i).l2.view.regs.idx < g.l2Lines := (wf_next hs.wf).ctl.idx_lt
    have hi : g.l2Idx x = (s.next g i).l2.view.regs.idx := by
      rw [← hx, curAddr, g.l2Idx_l2Line _ hlt]
    have hpd := (hr'.cur_of_idx hi).2.2
    rw [hz] at hpd
    cases hpd

/-- A line that the L1D holds is tracked. -/
theorem tracked_of_holds {x : LineAddr} {j : Nat} (hj : L1d.Holds g s.l1d.arr x j) :
    Tracked g s x := by
  have hr := hp.incl x j hj
  refine ⟨⟨_, hr⟩, fun he hx => ?_⟩
  have hi : g.l2Idx x = s.l2.view.regs.idx := by
    rw [← hx, curAddr, g.l2Idx_l2Line _ hs.wf.ctl.idx_lt]
  have habs := hp.gone he (hr.cur_of_idx hi).1
  rw [hx] at habs
  exact habs j hj

omit hp in
/-- A line in flight that is in both memories already stays so. -/
theorem level_next {m : Seen} (hn : Newest g s m) (hnc : s.nocache = false) (hk : Keeps g s i)
    {x : LineAddr} (hf : Flight s x) (hf' : Flight (s.next g i) x) (hx : m.cpu x = m.below x) :
    (seenNext g s i m).cpu x = (seenNext g s i m).below x := by
  have ht := turn (i := i) hs m.below m.cpu
  have hV := ht.frame_of_out hf.1 x
  have hv := serve (i := i) hs hnc m.below ((l1dChange g s i m.below).apply m.cpu)
  have hno : accepts s.l2.regs (s.l2Pins g i) = true → (s.l2Req g).fromD = true → False := by
    intro ha hfd
    have hsv := hf'.2.1
    rw [servesD_next hs, ha, hfd, Bool.and_self, Bool.or_true] at hsv
    cases hsv
  change (l2Change g s i).apply ((l1dChange g s i m.below).apply m.cpu) x =
    (L2View.access g s.l2.view (s.l2Pins g i) s.dram).apply m.below x
  generalize (l2Change g s i).apply _ = V' at hv ⊢
  generalize (L2View.access g s.l2.view (s.l2Pins g i) s.dram).apply m.below = M' at hv ⊢
  cases hv with
  | store ha hfd | write ha hfd | drop ha hfd => exact (hno ha hfd).elim
  | discard ha hw => exact absurd ((hk.2 ha).symm.trans hw) (by decide)
  | land hr =>
    by_cases hxp : x = s.l2.regs.probeAddr
    · subst hxp
      rw [Function.update_self, hV]
      exact (hn.reply _ hr).symm
    · rw [Function.update_of_ne hxp, hV]
      exact hx
  | _ => exact hV.trans hx

omit hp in
/-- The reply to the probe of a line in flight brings its value. -/
theorem level_of_ack {m : Seen} (hn : Newest g s m) (hnc : s.nocache = false)
    (hc : ∀ x, ¬ Condemned s x) (hd : s.l1d.regs.prbDirty = true)
    (hf : Flight s s.l2.regs.probeAddr) (ha : s.l1d.regs.prbAck = true) :
    (seenNext g s i m).cpu s.l2.regs.probeAddr = (seenNext g s i m).below s.l2.regs.probeAddr := by
  have ht := turn (i := i) hs m.below m.cpu
  have hV := ht.frame_of_out hf.1 s.l2.regs.probeAddr
  have hv := serve (i := i) hs hnc m.below ((l1dChange g s i m.below).apply m.cpu)
  have hdis : discards s.l2.regs = false := by
    cases hdis : discards s.l2.regs
    · rfl
    · exact absurd (condemned_of_probe hs (hs.wf.probing.ack ha).1 hdis) (hc _)
  have hr : Reply s s.l2.regs.probeAddr := ⟨ha, hd, hdis, rfl⟩
  have hi := not_idle_of_ack hs ha
  change (l2Change g s i).apply ((l1dChange g s i m.below).apply m.cpu) s.l2.regs.probeAddr =
    (L2View.access g s.l2.view (s.l2Pins g i) s.dram).apply m.below s.l2.regs.probeAddr
  generalize (l2Change g s i).apply _ = V' at hv ⊢
  generalize (L2View.access g s.l2.view (s.l2Pins g i) s.dram).apply m.below = M' at hv ⊢
  cases hv with
  | store ha' | write ha' | drop ha' | ask ha' => exact absurd (idle_of_accepts ha') hi
  | discard ha' | clean ha' => exact absurd (idle_of_snoop ha') hi
  | land _ =>
    rw [Function.update_self, hV]
    exact (hn.reply _ hr).symm
  | rest _ _ hr' => exact absurd hr (hr' _)

/-- The L2 does not take a line away that is in flight and has not been probed. -/
theorem not_takes_of_flight {m : Seen} (hc : Covered g s m) {x : LineAddr} (hf : Flight s x)
    (ht : Tracked g s x) (hst : s.l2.regs.state = .checkValidAndTag)
    (hx : x = curAddr g s.l2.view) : ¬ takes s.l2.regs s.l2.view.cur := by
  intro htk
  obtain ⟨⟨c, hr⟩, he⟩ := ht
  have hm := hs.wf.ctl.mode
  rw [L2View.Mode, show s.l2.view.regs.state = .checkValidAndTag from hst] at hm
  have hxs : x = s.l2.regs.saveaddr := hx.trans (L2View.l2Line_of_hit hm.1 htk.1)
  have hpr : s.l2.view.regs.probed = false := by
    cases hpr : s.l2.view.regs.probed
    · rfl
    · exact absurd hx.symm (he (.inr (.inr (.inr (.inr ⟨hpr, .inr hst⟩)))))
  have hl : looking s.l2.regs.state = true := by
    rw [hst]
    rfl
  refine L2View.not_takes hr hx hs.wf.ctl.idx_lt hpr hc.plain ?_ (hp.fromI hl) htk
  by_cases hfd : s.l2.regs.fromD = true
  · by_cases hop : s.l2.regs.opcode = .snoopInvl
    · exact .inr hop
    · rw [hxs] at hf
      exact absurd hf (hc.own hl hfd hop)
  · have hfd' : s.l2.regs.fromD = false := by simpa using hfd
    exact .inl hfd'

theorem covered_next {m : Seen} (hn : Newest g s m) (hf : Finished g s) (ht : Traffic s)
    (hc : Covered g s m) (hk : Keeps g s i) : Covered g (s.next g i) (seenNext g s i m) := by
  have hstep := hs.l2Step (i := i)
  refine ⟨fun x hx => ?_, ?_, own_next hs hp hc.own, fun x hfl => ?_⟩
  · rcases condemned_next hs hx with h | ⟨ha, ho, -⟩ | ⟨ha, hw, -⟩
    · exact hc.kept x h
    · exact hk.1 ha ho
    · exact absurd ((hk.2 ha).symm.trans hw) (by decide)
  · by_cases hi : s.l2.view.regs.state = .idle
    · cases hu : (s.next g i).l2.regs.isUncache with
      | false => rfl
      | true =>
        have ha : accepts s.l2.regs (s.l2Pins g i) = true :=
          L2View.uncached_of_idle hstep hi hc.plain hu
        have hnew : (s.next g i).l2.regs.isUncache = !L2.l2Cacheable (s.l2Pins g i) :=
          (L2View.accepted_step hstep ha).isUncache
        rw [hu, l2Cacheable_eq ht.nocache, ht.cacheable hs ha] at hnew
        cases hnew
    · exact L2View.cached_step hstep hi hc.plain
  · have hwk : ¬ (s.l2.regs.state = .init ∨ L2View.walks s.l2.regs.state = true) ∨
        ∀ y, ¬ Flight s y := by
      by_cases hw : s.l2.regs.state = .init ∨ L2View.walks s.l2.regs.state = true
      · exact .inr (hf.still (hs.phase.drained_of_walk hw))
      · exact .inl hw
    rcases flight_next hs hfl with ⟨hfl0, -⟩ | ⟨hv, hq, hx⟩
    · rcases hc.flight x hfl0 with h | h
      · exact .inl (level_next hs hn ht.nocache hk hfl0 hfl h)
      rcases tracked_next hs h (hwk.resolve_right fun hno => hno x hfl0)
        (not_takes_of_flight hs hp hc hfl0 h) with h' | ⟨ha, hpx⟩
      · exact .inr h'
      · subst hpx
        refine .inl (level_of_ack hs hn ht.nocache hc.kept ?_ hfl0 ha)
        cases hd : s.l1d.regs.prbDirty
        · exact absurd hfl0 (hf.clean ha hd)
        · rfl
    · -- it was in the L1D until now
      obtain ⟨j, hj⟩ := (turn (i := i) hs s.dram s.dram).held hv hq
      rw [hx] at hj
      have hnt : s.l2.regs.state = .checkValidAndTag → x = curAddr g s.l2.view →
          ¬ takes s.l2.regs s.l2.view.cur := by
        intro hst hxc htk
        have hm := hs.wf.ctl.mode
        rw [L2View.Mode, show s.l2.view.regs.state = .checkValidAndTag from hst] at hm
        have hxs : x = s.l2.regs.saveaddr := hxc.trans (L2View.l2Line_of_hit hm.1 htk.1)
        have habs := hp.absent_of_takes hs hst htk
        rw [← hxs] at habs
        exact habs j hj
      rcases tracked_next hs (tracked_of_holds hs hp hj)
        (fun hw => hs.absent_of_walk hw x j hj) hnt with h' | ⟨ha, hpx⟩
      · exact .inr h'
      · have habs := hp.absent_of_ack hs ha
        rw [hpx] at habs
        exact absurd hj (habs j)

end Next

theorem covered_reset (c : Contents) : Covered g (reset c false) ⟨c.dram, c.dram⟩ where
  kept _ h := absurd h.1 Bool.false_ne_true
  plain := rfl
  own h := absurd h Bool.false_ne_true
  flight _ h := absurd h.1 Bool.false_ne_true

/-- What holds along a run of cacheable traffic that discards no line. -/
structure Absorbs (g : Geometry) (s : Hier) (m : Seen) : Prop where
  sound : Sound g s
  present : Present g s
  newest : Newest g s m
  finished : Finished g s
  traffic : Traffic s
  covered : Covered g s m

theorem absorbs_run {m : Seen} {is : List Stim} (h : Absorbs g s m)
    (hr : Hw.RunOk (next g) (fun s i => Cacheable g s i ∧ Keeps g s i) s is) :
    Absorbs g (s.run g is) (seenRun g s m is) := by
  induction is generalizing s m with
  | nil => exact h
  | cons i is ih =>
    have hsafe : Safe g s i := h.traffic.safe h.sound
    refine ih ?_ hr.2
    exact
      { sound := sound_next h.sound
        present := present_next h.sound h.present hsafe.1
        newest := newest_next h.sound h.present h.newest hsafe
        finished := finished_next h.sound h.present h.finished hsafe.1
        traffic := traffic_next h.sound h.traffic hr.1.1
        covered := covered_next h.sound h.present h.newest h.finished h.traffic h.covered hr.1.2 }

/-- **Snoops absorb writebacks.**  In a run of cacheable traffic that discards no line: whenever
the L2 is in `IDLE`, DRAM has the newest value of every line that the L2 does not have, even of
a line whose writeback the L1D has sent and the L2 has not accepted; and when a snoop is done,
its line is such a line. -/
theorem dram_newest (g : Geometry) (c : Contents) (is : List Stim)
    (h : Hw.RunOk (next g) (fun s i => Cacheable g s i ∧ Keeps g s i) (reset c false) is) :
    let s := (reset c false).run g is
    let m := seenRun g (reset c false) ⟨c.dram, c.dram⟩ is
    (s.l2.regs.state = .idle → ∀ x, ¬ s.l2.Has g x → s.dram x = m.cpu x) ∧
    (s.l2.regs.snoopDone = true →
      s.l2.regs.state = .idle ∧ ¬ s.l2.Has g s.l2.regs.saveaddr) := by
  intro s m
  have ha : Absorbs g s m := absorbs_run
    ⟨sound_reset c false, present_reset c, newest_reset c, finished_reset c, traffic_reset c,
      covered_reset c⟩ h
  refine ⟨fun hi x hx => ?_, fun hd => ?_⟩
  · have hx' : ¬ L2View.Has g s.l2.view x := fun hh => hx ((has_view hi x).mp hh)
    rcases cpu_of_not_has ha.sound ha.present ha.newest hi hx' with h | hf
    · exact h
    rcases ha.covered.flight x hf with hb | ⟨⟨c, hr⟩, -⟩
    · exact (dram_of_not_has ha.newest hi hx').symm.trans hb.symm
    · exact absurd ⟨hr.1, hr.2.1⟩ hx'
  · have hi : s.l2.regs.state = .idle := ha.sound.wf.pulses.snoop hd
    exact ⟨hi, fun hh => ha.finished.snoop hd ((has_view hi _).mpr hh)⟩

theorem dram_newest_snoop :
    let s := (reset blank false).run oneLine (snoopRun 8)
    let m := seenRun oneLine (reset blank false) ⟨blank.dram, blank.dram⟩ (snoopRun 8)
    s.l2.regs.snoopDone = true ∧ s.dram s.l2.regs.saveaddr = m.cpu s.l2.regs.saveaddr := by
  intro s m
  have hd : s.l2.regs.snoopDone = true := by decide +kernel
  obtain ⟨hn, hs⟩ := dram_newest oneLine blank (snoopRun 8) (by decide +kernel)
  exact ⟨hd, hn (hs hd).1 _ (hs hd).2⟩

end Hier

end R9999
