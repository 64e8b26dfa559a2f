import R9999.L2.View
import R9999.L2.Control
import R9999.Hw.DirectMapped
import R9999.L2.Memory
import R9999.L2.Refinement
import R9999.L1d.Lanes
import R9999.L1d.Loads
import R9999.L1d.Model
import R9999.Hierarchy.Model
import R9999.L1d.Pipe
import R9999.L1d.Step
import R9999.L1d.Order
import R9999.L2.Handshake
import R9999.L1d.Request
import R9999.Hierarchy.Bus
import R9999.Hierarchy.Requests
import R9999.L1d.Jobs
import R9999.Hierarchy.Phases
import R9999.Hierarchy.Sound
import R9999.Core.Model
import R9999.Core.Step
import R9999.Core.Fcsr
import R9999.Core.Serial
import R9999.Core.Flush
import R9999.Core.Nullify
import R9999.Core.Decode
import R9999.Core.Window
import R9999.Core.Cp0
import R9999.Core.Cp0Order
import R9999.Hw.Rename
import R9999.Core.Rename
import R9999.Core.RenameLaw
import R9999.Hierarchy.Flush
import R9999.Iss.State
import R9999.Iss.Translate
import R9999.Iss.MicroTlb
import R9999.Iss.Insn
import R9999.Iss.Integer
import R9999.Iss.Coproc
import R9999.Iss.Exec
import R9999.Iss.DelaySlot
import R9999.Mmu.Match
import R9999.Mmu.Segment
import R9999.Mmu.Fault
import R9999.Mmu.Registers
import R9999.Mmu.Lookup
import R9999.Mmu.Agree
import R9999.Hw.Arith
import R9999.Exec.Decode
import R9999.Exec.Divider
import R9999.Exec.Datapath
import R9999.Exec.Retire
import R9999.Exec.Units
import R9999.Exec.Ops
import R9999.Exec.Plain
import R9999.Exec.Golden
import R9999.Exec.PlainAgree
import R9999.Exec.GoldenStep
import R9999.Exec.Jumps
import R9999.Exec.Slot
import R9999.Exec.Agree
import R9999.Exec.NuDivider
import R9999.Mmu.Itlb
import R9999.Mmu.MicroItlb
import R9999.L1d.Reset
import R9999.L1d.Uncached
import R9999.L1d.Forward
import R9999.Hw.Rounding
import R9999.Fpu.Format
import R9999.Fpu.Round
import R9999.Fpu.Mul
import R9999.Fpu.Add
import R9999.Fpu.AddLaw
import R9999.Fpu.Divider
import R9999.Fpu.DivLaw
import R9999.Cp0.Timer
import R9999.Hw.Ring
import R9999.Hw.LowestBit
import R9999.Hw.AgeMatrix
import R9999.Issue.Scheduler
import R9999.Issue.SchedulerLaw
import R9999.Fpu.Convert
import R9999.Fpu.ConvertLaw
import R9999.Fpu.Compare
import R9999.Fpu.Unit
import R9999.Exec.UniDivider
import R9999.Exec.DividerLaw
import R9999.Hw.Reserve
import R9999.Issue.Ports
import R9999.Issue.Slots
import R9999.Issue.PortsLaw
import R9999.Issue.Conditions
import R9999.Mmu.Dtlb
import R9999.Mmu.Translation
import R9999.Core.AddrError
import R9999.Mmu.Contain
import R9999.L1d.AddrError
import R9999.Mmu.Delivery
import R9999.Mmu.TlbUnit
import R9999.Core.Tlb
import R9999.Core.TlbOrder
import R9999.Core.TlbRefine
import R9999.Core.TlbLaw
import R9999.Hw.History
import R9999.Frontend.Control
import R9999.Frontend.Group
import R9999.Frontend.Model
import R9999.Frontend.Links
import R9999.Frontend.Sync
import R9999.Frontend.Stages
import R9999.Frontend.StageNext
import R9999.Frontend.HistLaw
import R9999.Frontend.Steer
import R9999.Frontend.Stream
import R9999.Frontend.Restart
import R9999.Hierarchy.Presence
import R9999.Hierarchy.Memory
import R9999.Hierarchy.Coherence
import R9999.Hierarchy.Traffic
import R9999.Hierarchy.Completion
import R9999.Hierarchy.Snoop
import R9999.Core.Rob
import R9999.Issue.Lsu
import R9999.Issue.LsuLaw
import R9999.Issue.LsuAnswers
