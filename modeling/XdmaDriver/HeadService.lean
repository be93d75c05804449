import XdmaDriver.ServiceEffect

/-!
A service call whose count does not go past the list head: the loop over
completed transfers stops at once, and only the head can leave the list.
-/

namespace XdmaDriver

namespace Drv

variable {p : Params}

theorem engineServiceTransferList_stop {fuel c : ℕ} {s : Drv} {t : XferRef}
    (hc : c ≤ (s.tfer t).descNum) :
    engineServiceTransferList fuel s (some t) c = (s, some t, c) := by
  cases fuel with
  | zero => rfl
  | succ fuel => simp [engineServiceTransferList, not_lt.mpr hc]

theorem engineServiceQueue_head {s : Drv} {w : U32} {n : ℕ} {h : XferRef} {tl : List XferRef}
    (hl : s.eng.transferList = h :: tl)
    (hc : u32Sub n s.eng.descDequeued ≤ (s.tfer h).descNum) :
    ∃ s₁, PerfOnly s s₁ ∧ s.engineServiceQueue p w n =
      engineServiceResume p w
        (s₁.engineServiceFinalTransfer p (some h) (u32Sub n s.eng.descDequeued)) := by
  have hperf := engineServicePerf_perfOnly s n
  refine ⟨s.engineServicePerf n, hperf, ?_⟩
  have hl₁ : (s.engineServicePerf n).eng.transferList = h :: tl := by rw [hperf.eng, hl]
  have hd₁ : (s.engineServicePerf n).eng.descDequeued = s.eng.descDequeued := by rw [hperf.eng]
  unfold engineServiceQueue
  simp only [hl, ne_eq, reduceCtorEq, not_false_eq_true, ↓reduceIte, List.head?_cons, hd₁, hl₁]
  rw [engineServiceTransferList_stop (by rw [hperf.tfer]; exact hc)]

structure HeadLeft (s s' : Drv) (h : XferRef) (st : TransferState) : Prop where
  list : s'.eng.transferList = s.eng.transferList.tail
  state : (s'.tfer h).state = st
  other : ∀ u, u ≠ h → s'.tfer u = s.tfer u
  same : (s.tfer h).SameRequest (s'.tfer h)
  log : s'.log = s.log ++ (s.tfer h).completionEvents h
  offline : s'.offline = s.offline
  ring : s.eng.SameRing s'.eng

theorem HeadLeft.congr_left {s s₁ s' : Drv} {h : XferRef} {st : TransferState} (hp : PerfOnly s s₁)
    (hh : HeadLeft s₁ s' h st) : HeadLeft s s' h st := by
  have hring : s.eng.SameRing s₁.eng := by
    rw [hp.eng]
    simp [XdmaEngine.SameRing]
  have hlist : s₁.eng.transferList = s.eng.transferList := by rw [hp.eng]
  exact ⟨by rw [hh.list, hlist], hh.state, fun u hu => by rw [hh.other u hu, hp.tfer],
    by rw [← hp.tfer]; exact hh.same, by rw [hh.log, hp.log, hp.tfer], by rw [hh.offline, hp.offline],
    hring.trans hh.ring⟩

theorem HeadLeft.trans_sameQueue {s s₁ s' : Drv} {h : XferRef} {st : TransferState}
    (hh : HeadLeft s s₁ h st) (hq : SameQueue s₁ s') : HeadLeft s s' h st :=
  ⟨hq.list.trans hh.list, by rw [hq.tfer]; exact hh.state, by rw [hq.tfer]; exact hh.other,
    by rw [hq.tfer]; exact hh.same, hq.log.trans hh.log, hq.offline.trans hh.offline,
    hh.ring.trans hq.ring⟩

theorem SameQueue.trans_headLeft {s s₁ s' : Drv} {h : XferRef} {st : TransferState}
    (hq : SameQueue s s₁) (hh : HeadLeft s₁ s' h st) : HeadLeft s s' h st :=
  ⟨by rw [hh.list, hq.list], hh.state, fun u hu => by rw [hh.other u hu, hq.tfer],
    by rw [← hq.tfer]; exact hh.same, by rw [hh.log, hq.log, hq.tfer], hh.offline.trans hq.offline,
    hq.ring.trans hh.ring⟩

def finalState (s : Drv) (h : XferRef) (c : ℕ) : TransferState :=
  if statusError s.eng.dir s.eng.status then .failed
  else if c < (s.tfer h).descNum then .failed
  else .completed

structure SameStarts (e e' : XdmaEngine) : Prop where
  started : e'.started = e.started
  starts : e'.starts = e.starts

theorem SameStarts.trans {e f g : XdmaEngine} (h : SameStarts e f) (h' : SameStarts f g) : SameStarts e g :=
  ⟨h'.started.trans h.started, h'.starts.trans h.starts⟩

theorem finalTransfer_headLeft {s : Drv} {h : XferRef} {c : ℕ}
    (hleave : statusError s.eng.dir s.eng.status ∨ s.eng.eopFlush = false ∨ (s.tfer h).descNum ≤ c) :
    HeadLeft s (s.engineServiceFinalTransfer p (some h) c) h (s.finalState h c) ∧
      (s.engineServiceFinalTransfer p (some h) c).eng.running =
        (if statusError s.eng.dir s.eng.status then false else s.eng.running) ∧
      SameStarts s.eng (s.engineServiceFinalTransfer p (some h) c).eng := by
  have hspec := finalTransferState_spec p s h c
  have hlate (herr : ¬ statusError s.eng.dir s.eng.status) (hc : c < (s.tfer h).descNum) :
      s.eng.eopFlush = false := (hleave.resolve_left herr).resolve_right (not_le.mpr hc)
  have hdel : (s.finalTransferState p h c).2 = true := by
    unfold finalTransferState
    by_cases herr : statusError s.eng.dir s.eng.status
    · simp [herr]
    · by_cases hc : c < (s.tfer h).descNum
      · simp [herr, hlate herr hc, hc]
      · simp [herr, hc]
  have hstate : ((s.finalTransferState p h c).1.tfer h).state = s.finalState h c := by
    unfold finalTransferState finalState
    by_cases herr : statusError s.eng.dir s.eng.status
    · simp [herr, engineErrHandle]
    · by_cases hc : c < (s.tfer h).descNum
      · simp [herr, hlate herr hc, hc]
      · simp [herr, hc]
  have hrun : (s.finalTransferState p h c).1.eng.running =
      (if statusError s.eng.dir s.eng.status then false else s.eng.running) ∧
      SameStarts s.eng (s.finalTransferState p h c).1.eng := by
    unfold finalTransferState
    by_cases herr : statusError s.eng.dir s.eng.status
    · simp only [herr, ↓reduceIte]
      exact ⟨rfl, rfl, rfl⟩
    · by_cases hc : c < (s.tfer h).descNum
      · simp only [herr, hc, hlate herr hc, Bool.false_eq_true, ↓reduceIte]
        exact ⟨rfl, rfl, rfl⟩
      · simp only [herr, hc, ↓reduceIte]
        exact ⟨rfl, rfl, rfl⟩
  simp only [engineServiceFinalTransfer]
  generalize s.finalTransferState p h c = r at *
  obtain ⟨s', del⟩ := r
  dsimp only at *
  subst hdel
  simp only [↓reduceIte]
  refine ⟨⟨?_, hstate, hspec.other, hspec.same, ?_, hspec.offline, hspec.ring⟩, hrun.1,
    hrun.2.started, hrun.2.starts⟩
  · simp [listDelHead, hspec.list]
  · simp [engineTransferCompletion, hspec.log, hspec.same.completionEvents]

theorem engineServiceResume_iff (p : Params) (w : U32) (s : Drv) :
    (s.engineServiceResume p w).eng.running = true ↔ s.eng.transferList ≠ [] := by
  constructor
  · intro hr hl
    unfold engineServiceResume engineServiceShutdown at hr
    by_cases hrun : s.eng.running = false
    · by_cases hreq : s.eng.shutdown.request = true <;> simp [hrun, hl, hreq] at hr
    · simp [hrun, hl] at hr
  · exact engineServiceResume_running p w s

theorem engineServiceQueue_iff (p : Params) (w : U32) (n : ℕ) (s : Drv) :
    (s.engineServiceQueue p w n).eng.running = true ↔
      (s.engineServiceQueue p w n).eng.transferList ≠ [] := by
  obtain ⟨s₁, h⟩ : ∃ s₁, s.engineServiceQueue p w n = engineServiceResume p w s₁ := ⟨_, rfl⟩
  rw [h, (engineServiceResume_sameQueue p w s₁).list]
  exact engineServiceResume_iff p w s₁

theorem engineServiceResume_started {w : U32} {s : Drv} {t : XferRef} {ts : List XferRef}
    (hr : s.eng.running = false) (hl : s.eng.transferList = t :: ts) :
    Started s (s.engineServiceResume p w) t w := by
  unfold engineServiceResume
  simp only [hr, hl, ne_eq, reduceCtorEq, not_false_eq_true, ↓reduceIte]
  exact (engineStart_cons hr hl).2

theorem engineServiceResume_sameStarts {w : U32} {s : Drv}
    (h : s.eng.running = true ∨ s.eng.transferList = []) :
      SameStarts s.eng (s.engineServiceResume p w).eng := by
  unfold engineServiceResume engineServiceShutdown
  split_ifs with hr hl
  · rcases h with h | h
    · simp [h] at hr
    · exact absurd h hl
  all_goals exact ⟨rfl, rfl⟩

def usedStatus (s : Drv) (wb : U32) (r : ServiceRegs) : U32 :=
  if wbCount wb = 0 ∨ wbErr wb then r.statusRc else s.eng.status

def StopsFirst (s : Drv) (wb : U32) (r : ServiceRegs) : Prop :=
  ¬ statusBusy (s.usedStatus wb r) ∨ (s.eng.eopFlush = false ∧ wbCount wb ≠ 0)

instance (s : Drv) (wb : U32) (r : ServiceRegs) : Decidable (s.StopsFirst wb r) :=
  inferInstanceAs (Decidable (_ ∨ _))

theorem engineServiceEntry_eng (p : Params) (wb : U32) (r : ServiceRegs) (s : Drv) :
    (s.engineServiceEntry p wb r).eng.status = s.usedStatus wb r ∧
      (s.engineServiceEntry p wb r).eng.dir = s.eng.dir ∧
      (s.engineServiceEntry p wb r).eng.eopFlush = s.eng.eopFlush ∧
      (s.engineServiceEntry p wb r).eng.descDequeued = s.eng.descDequeued ∧
      (s.engineServiceEntry p wb r).eng.started = s.eng.started ∧
      (s.engineServiceEntry p wb r).eng.starts = s.eng.starts ∧
      (s.engineServiceEntry p wb r).eng.shutdown = s.eng.shutdown ∧
      (s.engineServiceEntry p wb r).eng.running =
        (if s.StopsFirst wb r then false else s.eng.running) := by
  unfold engineServiceEntry engineServiceShutdown StopsFirst usedStatus
  by_cases hread : wbCount wb = 0 ∨ wbErr wb
  · simp only [hread, ↓reduceIte, engineStatusRead]
    split_ifs <;> simp
  · simp only [hread, ↓reduceIte]
    split_ifs <;> simp

theorem engineService_stopped {wb : U32} {r : ServiceRegs} {s : Drv} (h : s.eng.running = false) :
    (s.engineService p wb r).1 = s.engineStatusRead r.statusRc := by
  simp [engineService, h]

theorem engineService_zero {wb : U32} {r : ServiceRegs} {s : Drv} (h : s.eng.running = true)
    (hc : serviceCount wb r = 0) : (s.engineService p wb r).1 = s.engineServiceEntry p wb r := by
  simp [engineService, h, hc]

theorem engineService_count {wb : U32} {r : ServiceRegs} {s : Drv} (h : s.eng.running = true)
    (hc : serviceCount wb r ≠ 0) : (s.engineService p wb r).1 =
      (s.engineServiceEntry p wb r).engineServiceQueue p r.status (serviceCount wb r) := by
  simp [engineService, h, hc]

theorem engineService_headLeft {wb : U32} {r : ServiceRegs} {s : Drv} {h : XferRef}
    {tl : List XferRef} (hrun : s.eng.running = true) (hl : s.eng.transferList = h :: tl)
    (hc : serviceCount wb r ≠ 0)
    (hle : u32Sub (serviceCount wb r) s.eng.descDequeued ≤ (s.tfer h).descNum)
    (hleave : statusError s.eng.dir (s.usedStatus wb r) ∨ s.eng.eopFlush = false ∨
      (s.tfer h).descNum ≤ u32Sub (serviceCount wb r) s.eng.descDequeued) :
    ∃ s₁, (s.engineService p wb r).1 = engineServiceResume p r.status s₁ ∧
      HeadLeft s s₁ h (if statusError s.eng.dir (s.usedStatus wb r) then .failed
        else if u32Sub (serviceCount wb r) s.eng.descDequeued < (s.tfer h).descNum then .failed
        else .completed) ∧
      s₁.eng.running = (if statusError s.eng.dir (s.usedStatus wb r) ∨ s.StopsFirst wb r then false
        else true) ∧
      SameStarts s.eng s₁.eng := by
  have hentry := engineServiceEntry_sameQueue p wb r s
  obtain ⟨hst, hdir, heop, hdeq, hsd, hss, -, hrn⟩ := engineServiceEntry_eng p wb r s
  rw [engineService_count hrun hc]
  generalize s.engineServiceEntry p wb r = s₀ at *
  obtain ⟨s₁, hperf, hq⟩ := engineServiceQueue_head (p := p) (w := r.status) (s := s₀)
    (n := serviceCount wb r) (hentry.list.trans hl) (by rw [hdeq, hentry.tfer]; exact hle)
  obtain ⟨hleft, hrunning, hstarts⟩ := finalTransfer_headLeft (p := p) (s := s₁) (h := h)
    (c := u32Sub (serviceCount wb r) s₀.eng.descDequeued)
    (by rw [hperf.eng, hperf.tfer, hentry.tfer, hdeq]; simpa only [hdir, hst, heop] using hleave)
  refine ⟨_, hq, ?_, ?_, ?_⟩
  · have := hentry.trans_headLeft (HeadLeft.congr_left hperf hleft)
    simp only [finalState] at this
    rw [hperf.eng, hperf.tfer, hentry.tfer] at this
    simpa only [hdir, hst, hdeq] using this
  · rw [hrunning, hperf.eng]
    simp only [hdir, hst, hrn, hrun]
    split_ifs <;> simp_all
  · have hsame : SameStarts s₀.eng s₁.eng := by
      rw [hperf.eng]
      exact ⟨rfl, rfl⟩
    exact (SameStarts.trans ⟨hsd, hss⟩ hsame).trans hstarts

theorem engineServiceFinalTransfer_starts (s : Drv) (t : Option XferRef) (c : ℕ) :
    (s.engineServiceFinalTransfer p t c).eng.starts = s.eng.starts := by
  have hstate (t : XferRef) : (s.finalTransferState p t c).1.eng.starts = s.eng.starts := by
    unfold finalTransferState
    dsimp only
    split_ifs <;> rfl
  cases t with
  | none => rfl
  | some t =>
    simp only [engineServiceFinalTransfer]
    split
    · exact hstate t
    · exact hstate t

theorem engineServiceResume_starts (w : U32) (s : Drv) :
    s.eng.starts ≤ (s.engineServiceResume p w).eng.starts := by
  by_cases hkeep : s.eng.running = true ∨ s.eng.transferList = []
  · exact (engineServiceResume_sameStarts hkeep).starts.ge
  · rw [not_or] at hkeep
    obtain ⟨t, ts, hl⟩ := List.exists_cons_of_ne_nil hkeep.2
    rw [(engineServiceResume_started (by simpa using hkeep.1) hl).starts]
    exact Nat.le_succ _

theorem engineService_starts (wb : U32) (r : ServiceRegs) (s : Drv) :
    s.eng.starts ≤ (s.engineService p wb r).1.eng.starts := by
  by_cases hrun : s.eng.running = true
  swap
  · rw [engineService_stopped (by simpa using hrun)]
    exact le_refl _
  obtain ⟨-, -, -, -, -, hentry, -, -⟩ := engineServiceEntry_eng p wb r s
  by_cases hc : serviceCount wb r = 0
  · rw [engineService_zero hrun hc]
    exact hentry.ge
  rw [engineService_count hrun hc]
  obtain ⟨s₁, s₂, c, pre, hperf, hs, heq⟩ :=
    engineServiceQueue_run p r.status (serviceCount wb r) (s.engineServiceEntry p wb r)
  have hperf' : s₁.eng.starts = s.eng.starts := by rw [hperf.eng, ← hentry]
  have hloop : s₂.eng.starts = s₁.eng.starts := by rw [hs.eng]
  rw [heq, ← hperf', ← hloop, ← engineServiceFinalTransfer_starts (p := p) s₂ s₂.eng.transferList.head? c]
  exact engineServiceResume_starts r.status _

end Drv

end XdmaDriver
