import R9999.Hierarchy.Phases

/-!
# The caches of the hierarchy in every reachable state

`Sound` collects what holds of the L1D, the wires and the flush operations whatever the
core, the snoops, the DMA engine and the memory do: the handshakes (`Wf`), the meaning of
the L1D's request registers (`L1d.Sent`), the phase of the core's flush operation
(`Phase`), and that the address of an operation is held while the L1D works on it
(`Aim`).  `sound_run` says that every run from reset is sound.
-/

namespace R9999

namespace Hier

variable {g : Geometry} {s : Hier} {i : Stim}

/-- A busy DMA port has its request in one place. -/
def DmaOk (s : Hier) : Prop :=
  s.dma.busy.toNat = s.dma.req.toNat + s.l1d.regs.pend.dma.toNat + s.l1d.regs.clIsDma.toNat +
    s.l1d.regs.dmaInvalAck.toNat

/-- The L1D's line and page operations read the set of the line they are asked for. -/
structure Aim (g : Geometry) (s : Hier) : Prop where
  cl : s.l1d.regs.state = .flushCl → s.l1d.regs.cacheIdx =
    g.l1Idx (if s.l1d.regs.clIsDma then s.dma.addr else s.core.flushClAddr)
  pg : s.l1d.regs.state = .flushPg → s.l1d.regs.cacheIdx =
    g.l1Idx (s.core.flushClAddr / g.pgLines * g.pgLines + s.l1d.regs.pgOff)

/-- What holds of the caches in every reachable state. -/
structure Sound (g : Geometry) (s : Hier) : Prop where
  wf : Wf g s
  sane : L1d.Sane g s.l1d.arr
  sent : L1d.Sent g s.l1d.regs.proto s.l1d.arr
  marks : L1d.Marks s.l1d.regs.proto
  walked : L1d.Walked g s.l1d.regs.proto s.l1d.arr
  phase : Phase s
  dma : DmaOk s
  aim : Aim g s

namespace Sound

theorem aimed (h : Sound g s) : L1d.Aimed g s.l1d (s.l1dPins i) := ⟨h.aim.cl, h.aim.pg⟩

theorem l1dStep (h : Sound g s) :
    L1d.Step g s.l1d (s.l1dPins i) (s.next g i).l1d.regs.proto (s.next g i).l1d.arr :=
  l1d_step h.wf

/-- What a clock edge does to the L1D's lines and requests. -/
theorem act (h : Sound g s) :
    L1d.Act g s.l1d (s.l1dPins i) (s.next g i).l1d.regs.proto (s.next g i).l1d.arr :=
  L1d.act_step h.l1dStep h.wf.pipe h.sane h.sent h.aimed

theorem l2Step (h : Sound g s) :
    L2View.Step g s.l2.view (s.l2Pins g i) (s.next g i).l2.view :=
  l2_step h.wf.settled

end Sound

/-- The core waits for the operation the L1D works on. -/
theorem Phase.lineFlush (h : Phase s)
    (hl : s.l1d.regs.pend.cl = true ∨ s.l1d.regs.pend.pg = true ∨
      s.l1d.regs.proto.job = .line) : s.core.state = .lineFlush := by
  have key : ∀ {c d j}, L1dAt s c false false j d → j ≠ .line → False := by
    intro c d j h₁ hj
    rcases hl with hl | hl | hl
    · exact absurd hl (by simp [h₁.cl])
    · exact absurd hl (by simp [h₁.pg])
    · exact hj (h₁.job.symm.trans hl)
  cases h with
  | boot _ _ _ _ h₁ =>
    rcases h₁ with ⟨h₁, -⟩ | ⟨h₁, -⟩ | ⟨h₁, -⟩ <;> exact (key h₁ nofun).elim
  | line _ _ hc => exact hc.state
  | active _ h₁ | wholePulse _ h₁ | wholePend _ h₁ | wholeWork _ _ _ h₁ | wholeDone _ _ _ h₁
  | walk _ _ _ h₁ | walkDone _ _ _ h₁ => exact (key h₁ nofun).elim

/-- The address of a line or page operation is held. -/
theorem flushClAddr_next (hs : s.core.state = .lineFlush) :
    (s.next g i).core.flushClAddr = s.core.flushClAddr := by
  simp only [next, CorePort.next, hs]
  split <;> rfl

theorem dma_next (hd : DmaOk s) (hm : L1d.Marks s.l1d.regs.proto) (h : Wf g s) :
    DmaOk (s.next g i) := by
  have hstep : (s.next g i).l1d.regs.pend.dma.toNat + (s.next g i).l1d.regs.clIsDma.toNat +
      (s.next g i).l1d.regs.dmaInvalAck.toNat =
      (s.l1d.regs.pend.dma || s.dma.req).toNat + s.l1d.regs.clIsDma.toNat :=
    L1d.dma_step (l1d_step h (i := i)) hm
  have hnext : (s.next g i).dma = s.dma.next i.dmaInvalReq i.dmaInvalAddr s.l1d.regs.dmaInvalAck :=
    rfl
  unfold DmaOk at hd ⊢
  rw [hnext]
  revert hd hstep
  unfold DmaPort.next
  cases s.dma.busy <;> cases s.dma.req <;> cases s.l1d.regs.pend.dma <;>
    cases s.l1d.regs.clIsDma <;> cases s.l1d.regs.dmaInvalAck <;> cases i.dmaInvalReq <;>
    intro hd hstep <;>
    simp only [Bool.toNat_true, Bool.toNat_false, Bool.or_true, Bool.or_false, Bool.not_true,
      Bool.not_false, Bool.false_eq_true, if_true, if_false] at hd hstep ⊢ <;>
    omega

/-- A waiting invalidate keeps its address. -/
theorem dmaAddr_next (hd : DmaOk s) (hp : s.l1d.regs.pend.dma = true) :
    (s.next g i).dma.addr = s.dma.addr := by
  have hb : s.dma.busy = true := by
    unfold DmaOk at hd
    rw [hp] at hd
    cases hb : s.dma.busy
    · rw [hb, Bool.toNat_true, Bool.toNat_false] at hd
      omega
    · rfl
  simp only [next, DmaPort.next, hb, if_true]

theorem aim_next (h : Sound g s) : Aim g (s.next g i) := by
  obtain ⟨h1, h2⟩ := L1d.aimed_step (h.l1dStep (i := i)) h.wf.pipe
  refine ⟨fun hs => ?_, fun hs => ?_⟩
  · rcases h1 hs with ⟨hc, hp, hx⟩ | ⟨hc, hp, hx⟩
    · have hc' : (s.next g i).l1d.regs.clIsDma = false := hc
      rw [hc', flushClAddr_next (h.phase.lineFlush (.inl hp))]
      exact hx
    · have hc' : (s.next g i).l1d.regs.clIsDma = true := hc
      rw [hc', dmaAddr_next h.dma hp]
      exact hx
  · obtain ⟨hl, hx⟩ := h2 hs
    rw [flushClAddr_next (h.phase.lineFlush (.inr hl))]
    exact hx

/-- Every clock edge keeps the caches sound. -/
theorem sound_next (h : Sound g s) : Sound g (s.next g i) where
  wf := wf_next h.wf
  sane := L1d.sane_step h.act h.sane h.sent
  sent := L1d.sent_step h.l1dStep h.wf.pipe h.sane h.sent h.aimed
  marks := L1d.marks_step h.marks h.l1dStep h.wf.pipe
  walked := (L1d.walked_step h.l1dStep h.wf.pipe h.walked).1
  phase := phase_next h.wf h.marks h.sane h.sent h.aimed h.walked h.phase
  dma := dma_next h.dma h.marks h.wf
  aim := aim_next h

theorem sound_reset (c : Contents) (nocache : Bool) : Sound g (reset c nocache) where
  wf := wf_reset c nocache
  sane _ := ⟨nofun, nofun⟩
  sent _ := ⟨rfl, rfl⟩
  marks := ⟨nofun, nofun⟩
  walked := trivial
  phase := phase_reset c nocache
  dma := rfl
  aim := ⟨nofun, nofun⟩

/-- The caches are sound in every reachable state. -/
theorem sound_run (c : Contents) (nocache : Bool) (is : List Stim) :
    Sound g ((reset c nocache).run g is) :=
  Hw.run_invariant (fun _ _ h => sound_next h) (sound_reset c nocache) is

end Hier

end R9999
