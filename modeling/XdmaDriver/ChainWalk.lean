import XdmaDriver.HeadService
import XdmaDriver.Queue
import Mathlib.Logic.Relation

/-!
The way of the hardware through the descriptor ring: from the descriptor it was
started with along the next pointers, up to one with the STOPPED bit.
-/

namespace XdmaDriver

open Relation

namespace XdmaDesc

def nextAddr (d : XdmaDesc) : U64 := dmaAddr d.nextHi d.nextLo

def Stops (d : XdmaDesc) : Prop := d.control &&& xdmaDescStopped ≠ 0

theorem stops_iff {d : XdmaDesc} : d.Stops ↔ d.control.getLsbD 0 = true := by
  have hone : xdmaDescStopped = 1#32 := rfl
  unfold Stops
  rw [hone, BitVec.and_one_eq_setWidth_ofBool_getLsbD]
  cases d.control.getLsbD 0 <;> decide

end XdmaDesc

@[simp] theorem xdmaDescControlSet_nextAddr (d : XdmaDesc) (c : U32) :
    (xdmaDescControlSet d c).nextAddr = d.nextAddr := by
  unfold xdmaDescControlSet
  split <;> rfl

@[simp] theorem xdmaDescAdjacent_nextAddr (d : XdmaDesc) (c : U32) :
    (xdmaDescAdjacent d c).nextAddr = d.nextAddr := rfl

@[simp] theorem xdmaDescSet_nextAddr (d : XdmaDesc) (rc ep : U64) (len : U32) (dir : DmaDir) :
    (xdmaDescSet d rc ep len dir).nextAddr = d.nextAddr := by
  cases dir <;> rfl

theorem xdmaDescControlSet_stops (d : XdmaDesc) :
    (xdmaDescControlSet d (xdmaDescStopped ||| xdmaDescEop ||| xdmaDescCompleted)).Stops := by
  rw [XdmaDesc.stops_iff]
  unfold xdmaDescControlSet
  rw [if_neg (by decide)]
  rw [BitVec.getLsbD_or, Bool.or_eq_true]
  exact .inr (by decide)

theorem xdmaDescAdjacent_stops {d : XdmaDesc} (c : U32) (h : d.Stops) : (xdmaDescAdjacent d c).Stops := by
  rw [XdmaDesc.stops_iff] at h ⊢
  unfold xdmaDescAdjacent
  rw [BitVec.getLsbD_or, BitVec.getLsbD_and, h]
  rfl

theorem transferBuildStep_nextAddr (dir : DmaDir) (i j : ℕ) (sd : SwDesc) (ep : U64) (e : XdmaEngine) :
    ((transferBuildStep dir i sd ep e).desc j).nextAddr = (e.desc j).nextAddr := by
  by_cases hj : j = i
  · subst hj
    unfold transferBuildStep
    dsimp only
    split
    · simp only [Function.update_self]
      exact xdmaDescSet_nextAddr _ _ _ _ _
    · simp only [Function.update_self]
      exact xdmaDescSet_nextAddr _ _ _ _ _
  · rw [(transferBuildStep_of_ne dir sd ep e hj).1]

theorem transferBuild_nextAddr (dir : DmaDir) (sds : List SwDesc) : ∀ (i j : ℕ) (e : XdmaEngine)
    (ep : U64) (len : U32), ((transferBuild dir sds i e ep len).1.desc j).nextAddr = (e.desc j).nextAddr := by
  induction sds with
  | nil => exact fun _ _ _ _ _ => rfl
  | cons sd sds ih =>
    intro i j e ep len
    exact (ih _ _ _ _ _).trans (transferBuildStep_nextAddr dir i j sd ep e)

theorem updateSlots_nextAddr (desc : ℕ → XdmaDesc) (i n j : ℕ) {f : ℕ → XdmaDesc → XdmaDesc}
    (hf : ∀ j d, (f j d).nextAddr = d.nextAddr) :
      (updateSlots desc i n f j).nextAddr = (desc j).nextAddr := by
  unfold updateSlots
  split
  · exact hf _ _
  · rfl

theorem transferFinishDesc_nextAddr (eopFlush : Bool) (desc : ℕ → XdmaDesc) (i n j : ℕ) :
    (transferFinishDesc eopFlush desc i n j).nextAddr = (desc j).nextAddr := by
  unfold transferFinishDesc
  generalize hc : xdmaDescStopped ||| xdmaDescEop ||| xdmaDescCompleted = c
  generalize hl : updateSlots desc (i + (n - 1)) 1 (fun _ d => xdmaDescControlSet d c) = l
  have hlast : (l j).nextAddr = (desc j).nextAddr := by
    subst hl
    apply updateSlots_nextAddr
    intro _ d
    exact xdmaDescControlSet_nextAddr d c
  cases eopFlush with
  | false =>
    rw [← hlast]
    apply updateSlots_nextAddr
    intro _ d
    exact xdmaDescAdjacent_nextAddr d _
  | true =>
    have hothers : (updateSlots l i (n - 1) (fun _ d => xdmaDescControlSet d xdmaDescCompleted) j).nextAddr =
        (l j).nextAddr := by
      apply updateSlots_nextAddr
      intro _ d
      exact xdmaDescControlSet_nextAddr d _
    rw [← hlast, ← hothers]
    apply updateSlots_nextAddr
    intro _ d
    exact xdmaDescAdjacent_nextAddr d _

theorem transferFinishDesc_stops (eopFlush : Bool) (desc : ℕ → XdmaDesc) {i n : ℕ} (hn : 0 < n) :
    (transferFinishDesc eopFlush desc i n (i + (n - 1))).Stops := by
  unfold transferFinishDesc
  rw [updateSlots_of_mem (by omega)]
  apply xdmaDescAdjacent_stops
  have hlast : (updateSlots desc (i + (n - 1)) 1 (fun _ d =>
      xdmaDescControlSet d (xdmaDescStopped ||| xdmaDescEop ||| xdmaDescCompleted)) (i + (n - 1))).Stops := by
    rw [updateSlots_of_mem (by omega)]
    exact xdmaDescControlSet_stops _
  cases eopFlush with
  | false => exact hlast
  | true =>
    simp only [↓reduceIte]
    rw [updateSlots_of_not_mem (by omega)]
    exact hlast

structure Terminated (e : XdmaEngine) (a n : ℕ) : Prop where
  inside : a + n ≤ e.descMax
  next : ∀ i, a ≤ i → i + 1 < a + n → (e.desc i).nextAddr = e.descBusAt (i + 1)
  stops : (e.desc (a + (n - 1))).Stops

theorem Terminated.congr {e e' : XdmaEngine} {a n : ℕ} (h : Terminated e a n) (hn : 0 < n)
    (hmax : e'.descMax = e.descMax) (hbus : e'.descBus = e.descBus)
    (hdesc : ∀ i, a ≤ i → i < a + n → e'.desc i = e.desc i) : Terminated e' a n := by
  refine ⟨by rw [hmax]; exact h.inside, fun i hi hlt => ?_, ?_⟩
  · rw [hdesc i hi (by omega), h.next i hi hlt]
    unfold XdmaEngine.descBusAt
    rw [hbus]
  · rw [hdesc _ (by omega) (by omega)]
    exact h.stops

namespace Drv

theorem transferInit_desc_frame {s : Drv} {req : XdmaRequestCb} (t : XferRef) {j : ℕ}
    (hpos : 0 < chainLen s.eng req) (hj : ¬ (s.eng.descIdx ≤ j ∧ j < s.eng.descIdx + chainLen s.eng req)) :
    (s.transferInit req t).1.eng.desc j = s.eng.desc j := by
  have hlen : (chainSdesc s.eng req).length ≤ chainLen s.eng req := List.length_take_le _ _
  unfold transferInit
  dsimp only
  rw [transferFinishDesc_frame hpos hj, (transferBuild_frame _ _ _ _ _ _ _ (by omega)).1]
  change transferDescInit s.eng s.eng.descIdx (chainLen s.eng req) j = _
  exact updateSlots_of_not_mem hj

theorem transferInit_terminated {s : Drv} (req : XdmaRequestCb) (t : XferRef) (hpos : 0 < chainLen s.eng req)
    (hidx : s.eng.descIdx < s.eng.descMax) :
    Terminated (s.transferInit req t).1.eng s.eng.descIdx (chainLen s.eng req) := by
  have heng := transferInit_eng s req t
  refine ⟨?_, fun i hi hlt => ?_, ?_⟩
  · rw [heng]
    exact chainLen_inside req hidx
  · have hbus : (s.transferInit req t).1.eng.descBusAt (i + 1) = s.eng.descBusAt (i + 1) := by
      rw [heng]
      rfl
    rw [hbus]
    unfold transferInit
    dsimp only
    rw [transferFinishDesc_nextAddr, transferBuild_nextAddr]
    unfold transferDescInit
    dsimp only
    rw [updateSlots_of_mem (by omega), if_pos hlt]
    exact dmaAddr_split _
  · unfold transferInit
    exact transferFinishDesc_stops _ _ hpos

end Drv

def Fetches (e : XdmaEngine) (i j : ℕ) : Prop :=
  ¬ (e.desc i).Stops ∧ j < e.descMax ∧ e.descBusAt j = (e.desc i).nextAddr

def firstDesc (e : XdmaEngine) : U64 := dmaAddr e.regs.firstDescHi e.regs.firstDescLo

def Walks (e : XdmaEngine) (j : ℕ) : Prop :=
  ∃ i < e.descMax, e.descBusAt i = firstDesc e ∧ ReflTransGen (Fetches e) i j

theorem descBusAt_inj {e : XdmaEngine} {i j : ℕ} (hmax : e.descMax ≤ xdmaEngineXferMaxDesc)
    (hi : i < e.descMax)
    (hj : j < e.descMax) (h : e.descBusAt i = e.descBusAt j) : i = j := by
  have hle : xdmaEngineXferMaxDesc = 2048 := rfl
  have heq := congrArg BitVec.toNat ((BitVec.add_right_inj e.descBus).mp h)
  simp only [BitVec.toNat_ofNat] at heq
  omega

theorem Terminated.walks {e : XdmaEngine} {a n j : ℕ} (h : Terminated e a n) (hn : 0 < n)
    (hmax : e.descMax ≤ xdmaEngineXferMaxDesc)
    (hfirst : firstDesc e = e.descBusAt a) (hw : Walks e j) :
    a ≤ j ∧ j < a + n := by
  have hinside := h.inside
  obtain ⟨i, hi, hbus, hw⟩ := hw
  obtain rfl : i = a := descBusAt_inj hmax hi (by omega) (hbus.trans hfirst)
  induction hw with
  | refl => omega
  | tail _ hstep ih =>
    obtain ⟨hstop, hlt, hnext⟩ := hstep
    rename_i j k _
    have hne : j ≠ i + (n - 1) := fun he => hstop (he ▸ h.stops)
    have hk := descBusAt_inj hmax hlt (by omega) (hnext.trans (h.next j ih.1 (by omega)))
    omega

namespace Drv

variable {p : Params}

def Programmed (s : Drv) : Prop :=
  s.eng.running = true → ∀ t, s.eng.started = some t → t ∈ s.eng.transferList →
    firstDesc s.eng = s.eng.descBusAt (s.tfer t).descIndex

structure SameProgram (s s' : Drv) : Prop where
  first : firstDesc s'.eng = firstDesc s.eng
  started : s'.eng.started = s.eng.started
  running : s'.eng.running = true → s.eng.running = true
  bus : s'.eng.descBus = s.eng.descBus
  list : ∀ t ∈ s'.eng.transferList, t ∈ s.eng.transferList
  index : ∀ t ∈ s'.eng.transferList, (s'.tfer t).descIndex = (s.tfer t).descIndex

theorem SameProgram.refl (s : Drv) : SameProgram s s := ⟨rfl, rfl, id, rfl, fun _ => id, fun _ _ => rfl⟩

theorem SameProgram.trans {s t u : Drv} (h : SameProgram s t) (h' : SameProgram t u) : SameProgram s u :=
  ⟨h'.first.trans h.first, h'.started.trans h.started, fun hr => h.running (h'.running hr),
    h'.bus.trans h.bus,
    fun x hx => h.list x (h'.list x hx), fun x hx => (h'.index x hx).trans (h.index x (h'.list x hx))⟩

theorem Programmed.congr {s s' : Drv} (hs : s.Programmed) (h : SameProgram s s') : s'.Programmed := by
  intro hr t ht hl
  rw [h.first, h.index t hl]
  unfold XdmaEngine.descBusAt
  rw [h.bus]
  exact hs (h.running hr) t (h.started ▸ ht) (h.list t hl)

theorem xdmaEngineStop_sameProgram (s : Drv) : SameProgram s (s.xdmaEngineStop p) :=
  ⟨rfl, rfl, by simp, rfl, fun _ => id, fun _ _ => rfl⟩

theorem engineServiceEntry_sameProgram (wb : U32) (r : ServiceRegs) (s : Drv) :
    SameProgram s (s.engineServiceEntry p wb r) := by
  have hread : SameProgram s (if wbCount wb = 0 ∨ wbErr wb then s.engineStatusRead r.statusRc else s) := by
    split <;> exact ⟨rfl, rfl, id, rfl, fun _ => id, fun _ _ => rfl⟩
  unfold engineServiceEntry engineServiceShutdown
  generalize (if wbCount wb = 0 ∨ wbErr wb then s.engineStatusRead r.statusRc else s) = s₁ at hread
  dsimp only
  split
  · exact hread.trans (xdmaEngineStop_sameProgram _)
  · exact hread

theorem finalTransferState_sameProgram (s : Drv) (t : XferRef) (c : ℕ) :
    SameProgram s (s.finalTransferState p t c).1 := by
  have hspec := finalTransferState_spec p s t c
  have hprog : firstDesc (s.finalTransferState p t c).1.eng = firstDesc s.eng ∧
      (s.finalTransferState p t c).1.eng.started = s.eng.started ∧
      ((s.finalTransferState p t c).1.eng.running = true → s.eng.running = true) := by
    unfold finalTransferState
    by_cases herr : statusError s.eng.dir s.eng.status
    · simp only [herr, ↓reduceIte, engineErrHandle, xdmaEngineStop_running, Bool.false_eq_true,
        false_implies, and_true]
      exact ⟨rfl, rfl⟩
    by_cases hlt : c < (s.tfer t).descNum
    · by_cases heop : s.eng.eopFlush = true
      · simp only [herr, hlt, heop, ↓reduceIte]
        cases (s.tfer t).eopRcved || eopSeen s.eng (s.tfer t) c
        · exact ⟨rfl, rfl, id⟩
        · refine ⟨rfl, rfl, fun hr => ?_⟩
          cases hr
      · simp only [herr, hlt, heop, Bool.false_eq_true, ↓reduceIte]
        exact ⟨rfl, rfl, id⟩
    · simp only [herr, hlt, ↓reduceIte]
      exact ⟨rfl, rfl, id⟩
  obtain ⟨-, -, -, -, -, -, hbus, -⟩ := hspec.ring
  refine ⟨hprog.1, hprog.2.1, hprog.2.2, hbus, ?_, fun u _ => ?_⟩
  · rw [hspec.list]
    exact fun _ => id
  · by_cases hu : u = t
    · subst hu
      exact hspec.same.2.1
    · rw [hspec.other u hu]

theorem engineServiceFinalTransfer_sameProgram (s : Drv) (t : Option XferRef) (c : ℕ) :
    SameProgram s (s.engineServiceFinalTransfer p t c) := by
  cases t with
  | none => exact .refl s
  | some t =>
    have h := finalTransferState_sameProgram (p := p) s t c
    unfold engineServiceFinalTransfer
    dsimp only
    split
    · exact h.trans ⟨rfl, rfl, id, rfl, fun _ => List.mem_of_mem_tail, fun _ _ => rfl⟩
    · exact h

def Restarts (p : Params) (w : U32) (s s' : Drv) : Prop :=
  ∃ s₁, SameProgram s s₁ ∧ (s' = s₁ ∨ s₁.eng.running = false ∧ s' = (s₁.engineStart p w).1)

theorem engineServiceResume_restarts {w : U32} {s s₁ : Drv} (h : SameProgram s s₁) :
    Restarts p w s (s₁.engineServiceResume p w) := by
  unfold engineServiceResume engineServiceShutdown
  split_ifs with hr
  · exact ⟨s₁, h, .inr ⟨hr, rfl⟩⟩
  · refine ⟨_, ?_, .inl rfl⟩
    exact h.trans ⟨rfl, rfl, id, rfl, fun _ => id, fun _ _ => rfl⟩
  · exact ⟨s₁, h, .inl rfl⟩
  · exact ⟨_, h.trans (xdmaEngineStop_sameProgram s₁), .inl rfl⟩
  · exact ⟨s₁, h, .inl rfl⟩

theorem engineServiceQueue_restarts (w : U32) (n : ℕ) (s : Drv) :
    Restarts p w s (s.engineServiceQueue p w n) := by
  obtain ⟨s₁, s₂, c, pre, hperf, hs, hrun⟩ := engineServiceQueue_run p w n s
  have hperf : SameProgram s s₁ := by
    refine ⟨?_, ?_, ?_, ?_, ?_, fun t _ => by rw [hperf.tfer]⟩
    all_goals rw [hperf.eng]
    · rfl
    · exact id
    · exact fun _ => id
  have hlist : SameProgram s₁ s₂ := by
    refine ⟨?_, ?_, ?_, ?_, ?_, fun t _ => ?_⟩
    · rw [hs.eng]
      rfl
    · rw [hs.eng]
    · rw [hs.eng]
      exact id
    · rw [hs.eng]
    · rw [hs.list]
      exact fun t => List.mem_append_right _
    · rw [hs.tfer]
      split <;> rfl
  rw [hrun]
  apply engineServiceResume_restarts
  exact (hperf.trans hlist).trans (engineServiceFinalTransfer_sameProgram _ _ _)

theorem engineService_restarts (wb : U32) (r : ServiceRegs) (s : Drv) :
    Restarts p r.status s (s.engineService p wb r).1 := by
  have hentry := engineServiceEntry_sameProgram (p := p) wb r s
  by_cases hrun : s.eng.running = true
  swap
  · rw [engineService_stopped (by simpa using hrun)]
    refine ⟨_, ?_, .inl rfl⟩
    exact ⟨rfl, rfl, id, rfl, fun _ => id, fun _ _ => rfl⟩
  by_cases hc : serviceCount wb r = 0
  · rw [engineService_zero hrun hc]
    exact ⟨_, hentry, .inl rfl⟩
  · rw [engineService_count hrun hc]
    obtain ⟨s₁, h₁, hs₁⟩ := engineServiceQueue_restarts (p := p) r.status (serviceCount wb r)
      (s.engineServiceEntry p wb r)
    exact ⟨s₁, hentry.trans h₁, hs₁⟩

theorem engineStart_programmed {w : U32} {s : Drv} (hr : s.eng.running = false) :
    (s.engineStart p w).1.Programmed := by
  unfold engineStart
  simp only [hr, Bool.false_eq_true, ↓reduceIte]
  cases hl : s.eng.transferList with
  | nil => exact fun h => absurd (hr.symm.trans h) (by simp)
  | cons t ts =>
    intro _ u hu _
    obtain rfl := Option.some.inj hu
    exact dmaAddr_split _

theorem Restarts.programmed {w : U32} {s s' : Drv} (hs : s.Programmed) (h : Restarts p w s s') :
    s'.Programmed := by
  obtain ⟨s₁, hsame, rfl | ⟨hr, rfl⟩⟩ := h
  · exact hs.congr hsame
  · exact engineStart_programmed hr

theorem Restarts.started {w : U32} {s s' : Drv} (h : Restarts p w s s') {t : XferRef}
    (ht : s'.eng.started = some t) : s.eng.started = some t ∨ t ∈ s.eng.transferList := by
  obtain ⟨s₁, hsame, rfl | ⟨hr, rfl⟩⟩ := h
  · exact .inl (hsame.started ▸ ht)
  · cases hl : s₁.eng.transferList with
    | nil =>
      rw [engineStart_of_nil p s₁ w hl] at ht
      exact .inl (hsame.started ▸ ht)
    | cons u us =>
      rw [(engineStart_cons hr hl).2.started] at ht
      obtain rfl := Option.some.inj ht
      exact .inr (hsame.list u (hl ▸ List.mem_cons_self))

theorem transferQueue_programmed {w : U32} {s : Drv} {t : XferRef} (h : s.Programmed)
    (ht : s.eng.started ≠ some t) :
    (s.transferQueue p t w).1.Programmed := by
  by_cases hacc : s.Accepts t
  swap
  · rw [(transferQueue_refused hacc).1]
    exact h
  by_cases hrun : s.eng.running = true
  · have hq := (transferQueue_accepted (p := p) (w := w) hacc).1
    intro _ u hu hm
    rw [hq.busy hrun] at hu ⊢
    rw [hq.list, List.mem_append, List.mem_singleton] at hm
    have hne : u ≠ t := fun he => ht (he ▸ hu)
    rw [hq.other hne]
    exact h hrun u hu (hm.resolve_right hne)
  · obtain ⟨hn, ho, hr⟩ := hacc
    have hrun : s.eng.running = false := by simpa using hrun
    have hidle : (s.enqueue t).eng.running = false := hrun
    unfold transferQueue
    simp only [hn, ho, hr, hidle, Bool.false_eq_true, ↓reduceIte]
    exact engineStart_programmed hidle

end Drv

end XdmaDriver
