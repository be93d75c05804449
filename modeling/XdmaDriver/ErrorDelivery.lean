import XdmaDriver.HeadService

/-!
When a service call that reads an error fails the transfer at the list head.
-/

namespace XdmaDriver

namespace Drv

variable {p : Params}

def ErrorRead (s : Drv) (wb : U32) (r : ServiceRegs) : Prop :=
  (wbCount wb = 0 ∨ wbErr wb = true) ∧ statusError s.eng.dir r.statusRc ∧ ¬ statusBusy r.statusRc

instance (s : Drv) (wb : U32) (r : ServiceRegs) : Decidable (s.ErrorRead wb r) :=
  inferInstanceAs (Decidable ((_ ∨ _) ∧ _))

structure ErrorReported (s s' : Drv) (h : XferRef) : Prop where
  gone : h ∉ s'.eng.transferList
  failed : (s'.tfer h).state = .failed
  woken : .wake h ∈ s'.log.drop s.log.length
  called : ∀ cb ∈ (s.tfer h).cb, (s.tfer h).lastInRequest = true →
    ∃ e, .ioDone cb e ∈ s'.log.drop s.log.length

theorem ErrorRead.usedStatus {s : Drv} {wb : U32} {r : ServiceRegs} (h : s.ErrorRead wb r) :
    s.usedStatus wb r = r.statusRc := if_pos h.1

theorem HeadLeft.errorReported {s s' : Drv} {h : XferRef} {tl : List XferRef}
    (hh : HeadLeft s s' h .failed) (hl : s.eng.transferList = h :: tl) (hnd : h ∉ tl) :
    ErrorReported s s' h := by
  have hlog : s'.log.drop s.log.length = (s.tfer h).completionEvents h := by rw [hh.log, List.drop_left]
  refine ⟨?_, hh.state, ?_, fun cb hcb hlast => ⟨0, ?_⟩⟩
  · rw [hh.list, hl]
    exact hnd
  · rw [hlog]
    simp [XdmaTransfer.completionEvents]
  · rw [hlog]
    simp [XdmaTransfer.completionEvents, Option.mem_def.mp hcb, hlast]

theorem engineServiceQueue_beyond {s : Drv} {w : U32} {n : ℕ} {h : XferRef} {tl : List XferRef}
    (hl : s.eng.transferList = h :: tl) (hnd : (h :: tl).Nodup) (hcyc : (s.tfer h).cyclic = false)
    (hc : (s.tfer h).descNum < u32Sub n s.eng.descDequeued) :
    ((s.engineServiceQueue p w n).tfer h).state = .completed := by
  obtain ⟨s₁, s', c', pre, hperf, hs, hrun⟩ := engineServiceQueue_run p w n s
  have hl₁ := hperf.sameQueue.list.trans hl
  have hmem : h ∈ pre := by
    cases hpre : pre with
    | nil =>
      have hstop := hs.stop h (by rw [← List.nil_append s'.eng.transferList, ← hpre, ← hs.list, hl₁]; simp)
      have hcount := hs.count
      rw [hperf.tfer] at hstop
      simp only [hcyc, Bool.false_eq_true, false_or] at hstop
      simp only [hpre, descSum, List.map_nil, List.sum_nil, add_zero] at hcount
      omega
    | cons u us =>
      have hlist := hs.list
      rw [hl₁, hpre, List.cons_append, List.cons.injEq] at hlist
      simp [hlist.1]
  have hnot : h ∉ s'.eng.transferList := by
    have hlist := hs.list
    rw [hl₁] at hlist
    rw [hlist] at hnd
    exact fun hm => (List.nodup_append.mp hnd).2.2 h hmem h hm rfl
  have hstate : (s'.tfer h).state = .completed := by simp [hs.tfer h, hmem]
  obtain ⟨out, hfin⟩ := engineServiceFinalTransfer_effect p s' c'
  rw [hrun, (engineServiceResume_sameQueue p w _).tfer, hfin.frame h hnot, hstate]

theorem error_reported_iff {s : Drv} {wb : U32} {r : ServiceRegs} {h : XferRef} {tl : List XferRef}
    (hrun : s.eng.running = true) (hl : s.eng.transferList = h :: tl) (hnd : s.eng.transferList.Nodup)
    (hcyc : ∀ t ∈ s.eng.transferList, (s.tfer t).cyclic = false) (herr : s.ErrorRead wb r) :
    ErrorReported s (s.engineService p wb r).1 h ↔
      serviceCount wb r ≠ 0 ∧ u32Sub (serviceCount wb r) s.eng.descDequeued ≤ (s.tfer h).descNum := by
  rw [hl] at hnd
  have hentry := engineServiceEntry_sameQueue p wb r s
  constructor
  · intro hrep
    have hc : serviceCount wb r ≠ 0 := fun hc => hrep.gone (by
      rw [engineService_zero hrun hc, hentry.list, hl]
      exact List.mem_cons_self)
    refine ⟨hc, not_lt.mp fun hlt => ?_⟩
    obtain ⟨-, -, -, hdeq, -⟩ := engineServiceEntry_eng p wb r s
    have hbeyond := engineServiceQueue_beyond (p := p) (w := r.status) (s := s.engineServiceEntry p wb r)
      (n := serviceCount wb r) (hentry.list.trans hl) hnd
      (by rw [hentry.tfer]; exact hcyc h (by simp [hl])) (by rw [hentry.tfer, hdeq]; exact hlt)
    have hfailed := hrep.failed
    rw [engineService_count hrun hc, hbeyond] at hfailed
    cases hfailed
  · rintro ⟨hc, hle⟩
    have hst : statusError s.eng.dir (s.usedStatus wb r) := herr.usedStatus ▸ herr.2.1
    obtain ⟨s₁, hsvc, hleft, -, -⟩ := engineService_headLeft (p := p) hrun hl hc hle (.inl hst)
    rw [if_pos hst] at hleft
    have hfin := hleft.trans_sameQueue (engineServiceResume_sameQueue p r.status s₁)
    rw [← hsvc] at hfin
    exact hfin.errorReported hl (List.nodup_cons.mp hnd).1

def oneRunning : Drv :=
  { eng := { running := true, transferList := [⟨0, 0⟩], started := some ⟨0, 0⟩, starts := 1 }
    tfer := fun _ => { descNum := 2, state := .submitted } }

theorem error_reported_oneRunning :
    ErrorReported oneRunning (oneRunning.engineService {} 0 ⟨0x200, 1, 0⟩).1 ⟨0, 0⟩ :=
  (error_reported_iff rfl rfl (by decide) (by decide) (by decide)).mpr (by decide)

/-- The same error before the first descriptor is done is dropped. -/
theorem error_dropped_oneRunning : ¬ ∀ (p : Params) (s : Drv) (wb : U32) (r : ServiceRegs) (h : XferRef)
    (tl : List XferRef), s.eng.running = true → s.eng.transferList = h :: tl →
      s.eng.transferList.Nodup → (∀ t ∈ s.eng.transferList, (s.tfer t).cyclic = false) →
      s.eng.started = some h → serviceCount wb r ≤ (s.tfer h).descNum →
      s.ErrorRead wb r → ErrorReported s (s.engineService p wb r).1 h := by
  intro hall
  have hrep := hall {} oneRunning 0 ⟨0x200, 0, 0⟩ ⟨0, 0⟩ [] rfl rfl (by decide) (by decide) rfl
    (by decide) (by decide)
  have hlist : (oneRunning.engineService {} 0 ⟨0x200, 0, 0⟩).1.eng.transferList = [⟨0, 0⟩] := by decide
  exact hrep.gone (by rw [hlist]; exact List.mem_cons_self)

end Drv

end XdmaDriver
