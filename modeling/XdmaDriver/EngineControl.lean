import XdmaDriver.Contexts
import XdmaDriver.HeadService

/-!
What the calls of the driver do to the part of an engine that runs it: its `running` flag,
its shutdown word and its registers.
-/

namespace XdmaDriver

namespace Drv

structure SameControl (s s' : Drv) : Prop where
  running : s'.eng.running = s.eng.running
  shutdown : s'.eng.shutdown = s.eng.shutdown
  regs : s'.eng.regs = s.eng.regs
  starts : s'.eng.starts = s.eng.starts

theorem SameControl.refl (s : Drv) : SameControl s s := ⟨rfl, rfl, rfl, rfl⟩

theorem SameControl.trans {s t u : Drv} (h : SameControl s t) (h' : SameControl t u) : SameControl s u :=
  ⟨h'.running.trans h.running, h'.shutdown.trans h.shutdown, h'.regs.trans h.regs, h'.starts.trans h.starts⟩

structure StopKept (p : Params) (P : Drv → Prop) : Prop where
  same : ∀ {s s' : Drv}, SameControl s s' → P s → P s'
  stop : ∀ {s : Drv}, P s → P (s.xdmaEngineStop p)

structure ControlKept (p : Params) (P : Drv → Prop) : Prop extends StopKept p P where
  start : ∀ {s : Drv} (w : U32), P s → P (s.engineStart p w).1
  idle : ∀ {s : Drv}, P s →
    P { s with eng := { s.eng with shutdown := { s.eng.shutdown with idle := true } } }

theorem engineStatusRead_sameControl (s : Drv) (w : U32) : SameControl s (s.engineStatusRead w) :=
  ⟨rfl, rfl, rfl, rfl⟩

theorem PerfOnly.sameControl {s s' : Drv} (h : PerfOnly s s') : SameControl s s' := by
  constructor <;> rw [h.eng]

theorem ListServiced.sameControl {s s' : Drv} {c c' : ℕ} {pre : List XferRef}
    (h : ListServiced s c s' c' pre) : SameControl s s' := by
  constructor <;> rw [h.eng]

section

variable {p : Params} {P : Drv → Prop} (hP : ControlKept p P)

include hP

theorem engineServiceEntry_keeps (wb : U32) (r : ServiceRegs) {s : Drv} (h : P s) :
    P (s.engineServiceEntry p wb r) := by
  unfold engineServiceEntry
  have hread : P (if wbCount wb = 0 ∨ wbErr wb then s.engineStatusRead r.statusRc else s) := by
    split_ifs
    · exact hP.same (engineStatusRead_sameControl s _) h
    · exact h
  dsimp only
  split_ifs at hread ⊢
  · exact hP.stop hread
  · exact hread
  · exact hP.stop hread
  · exact hread

theorem finalTransferState_keeps (t : XferRef) (c : ℕ) {s : Drv} (h : P s) :
    P (s.finalTransferState p t c).1 := by
  have hsame {s s' : Drv} (h : P s) (heng : SameControl s s') : P s' := hP.same heng h
  unfold finalTransferState
  dsimp only
  split_ifs
  · exact hP.stop (hsame h ⟨rfl, rfl, rfl, rfl⟩)
  · have hmarked (f : XdmaTransfer → XdmaTransfer) : P (s.modify t f) := hsame h ⟨rfl, rfl, rfl, rfl⟩
    exact hsame (hP.stop (hmarked _)) ⟨rfl, rfl, rfl, rfl⟩
  · exact hsame h ⟨rfl, rfl, rfl, rfl⟩
  · exact hsame h ⟨rfl, rfl, rfl, rfl⟩
  · exact hsame h ⟨rfl, rfl, rfl, rfl⟩

theorem engineServiceFinalTransfer_keeps (transfer : Option XferRef) (c : ℕ) {s : Drv} (h : P s) :
    P (s.engineServiceFinalTransfer p transfer c) := by
  cases transfer with
  | none => exact h
  | some t =>
    have hfinal := finalTransferState_keeps hP t c h
    simp only [engineServiceFinalTransfer]
    generalize s.finalTransferState p t c = r at hfinal
    have hleft : SameControl r.1 (r.1.listDelHead.engineTransferCompletion t) := ⟨rfl, rfl, rfl, rfl⟩
    split_ifs
    · exact hP.same hleft hfinal
    · exact hfinal

theorem engineServiceResume_keeps (w : U32) {s : Drv} (h : P s) : P (s.engineServiceResume p w) := by
  unfold engineServiceResume
  split_ifs
  · exact hP.start w h
  · exact hP.idle h
  · exact h
  · exact hP.stop h
  · exact h

theorem engineServiceQueue_keeps (w : U32) (count : ℕ) {s : Drv} (h : P s) :
    P (s.engineServiceQueue p w count) := by
  obtain ⟨s₁, s₂, c, pre, hperf, hs, hrun⟩ := engineServiceQueue_run p w count s
  rw [hrun]
  have hlist : P s₂ := hP.same (hperf.sameControl.trans hs.sameControl) h
  exact engineServiceResume_keeps hP w (engineServiceFinalTransfer_keeps hP _ c hlist)

theorem engineService_keeps (wb : U32) (r : ServiceRegs) {s : Drv} (h : P s) :
    P (s.engineService p wb r).1 := by
  have hentry := engineServiceEntry_keeps hP wb r h
  unfold engineService
  by_cases hrun : s.eng.running = false
  · rw [if_pos hrun]
    exact hP.same (engineStatusRead_sameControl s _) h
  · rw [if_neg hrun]
    dsimp only
    split_ifs
    · exact hentry
    · exact engineServiceQueue_keeps hP r.status _ hentry

theorem transferQueue_keeps (t : XferRef) (w : U32) {s : Drv} (h : P s) : P (s.transferQueue p t w).1 := by
  have hsame : SameControl s (s.enqueue t) := ⟨rfl, rfl, rfl, rfl⟩
  have henq : P (s.enqueue t) := hP.same hsame h
  unfold transferQueue
  dsimp only
  split_ifs
  · exact h
  · exact h
  · exact h
  · exact hP.start w henq
  · exact henq

end

theorem transferAbort_sameControl (s : Drv) (t : XferRef) : SameControl s (s.transferAbort t).1 := by
  by_cases hn : (s.tfer t).descNum = 0
  · simp only [transferAbort, hn, ↓reduceIte]
    exact .refl s
  · have h := (transferAbort_aborted hn).1.list
    constructor <;> rw [h]

theorem transferInit_sameControl (s : Drv) (req : XdmaRequestCb) (t : XferRef) :
    SameControl s (s.transferInit req t).1 := by
  constructor <;> rw [transferInit_eng]

theorem buildChain_sameControl (s : Drv) (req : XdmaRequestCb) (t : XferRef) (u last : Bool)
    (cb : Option IoCb) : SameControl s (s.buildChain req t u last cb).1 := by
  have h := transferInit_sameControl s req t
  constructor <;> rw [buildChain_eng]
  exacts [h.running, h.shutdown, h.regs, h.starts]

theorem engineStatusReadDump_sameControl (s : Drv) (r : DumpRegs) :
    SameControl s (s.engineStatusReadDump r.identifier r.status).1 := by
  unfold engineStatusReadDump
  dsimp only
  split_ifs
  · exact .refl s
  · exact engineStatusRead_sameControl s r.status

theorem waitEnd_keeps {p : Params} {P : Drv → Prop} (hP : StopKept p P) (t : XferRef) (r : DumpRegs)
    {s : Drv} (h : P s) : P (s.waitEnd p t r).1 := by
  by_cases hu : s.Unfinished t
  · by_cases hr : r.Ok
    · have hread := engineStatusRead_sameControl s r.status
      have habort : P ((s.engineStatusRead r.status).transferAbort t).1 :=
        hP.same (hread.trans (transferAbort_sameControl _ t)) h
      rw [waitEnd_dumpOk hu hr]
      split_ifs
      · exact hP.stop habort
      · exact habort
    · rw [waitEnd_dumpFailed hu hr]
      exact h
  · rw [waitEnd_finished hu]
    exact h

end Drv

end XdmaDriver
