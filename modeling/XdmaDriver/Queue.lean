import XdmaDriver.ServiceEffect
import XdmaDriver.Transfer

/-!
The calls of the submitters on the engine queue: `transfer_queue`,
`transfer_abort`, `transfer_destroy`, and the end of a wait.
-/

namespace XdmaDriver

namespace Drv

variable (p : Params)

/-- Mark the transfer submitted and append it to `engine->transfer_list`. -/
def enqueue (s : Drv) (t : XferRef) : Drv :=
  let s := s.modify t fun x => { x with state := .submitted }
  { s with eng := { s.eng with transferList := s.eng.transferList ++ [t] } }

/-- `transfer_queue`; `w` is what the status register holds after a start. -/
def transferQueue (s : Drv) (t : XferRef) (w : U32) : Drv × ℤ :=
  if (s.tfer t).descNum = 0 then (s, err .inval)
  else if s.offline then (s, err .busy)
  else if s.eng.shutdown.request then (s, err .busy)
  else
    let s := s.enqueue t
    if s.eng.running = false then ((s.engineStart p w).1, 0) else (s, 0)

def transferAbort (s : Drv) (t : XferRef) : Drv × ℤ :=
  if (s.tfer t).descNum = 0 then (s, err .inval)
  else
    let s := if s.eng.transferList.head? = some t then s.listDelHead else s
    (if (s.tfer t).state = .submitted then s.modify t fun x => { x with state := .aborted } else s, 0)

/-- The ring part of `transfer_destroy`, after `engine->desc_used -= xfer->desc_num`. -/
def transferDestroy (s : Drv) (t : XferRef) : Drv :=
  let x := s.tfer t
  { s with eng := { s.eng with
      descUsed := s.eng.descUsed - x.descNum
      desc := xdmaDescDone s.eng.desc x.descIndex x.descNum } }

structure DumpRegs where
  identifier : U32
  status : U32
  deriving DecidableEq, Repr

/-- The `switch (xfer->state)` that `xdma_xfer_submit` and `xdma_xfer_aperture`
run when the wait has ended. -/
def waitEnd (s : Drv) (t : XferRef) (r : DumpRegs) : Drv × ℤ :=
  match (s.tfer t).state with
  | .completed => (s, 0)
  | .failed => (s, err .io)
  | _ =>
    let (s, rv) := s.engineStatusReadDump r.identifier r.status
    if rv = 0 then
      let (s, rv) := s.transferAbort t
      (if rv = 0 then s.xdmaEngineStop p else s, err .timedOut)
    else (s, err .timedOut)

structure Queued (s s' : Drv) (t : XferRef) : Prop where
  list : s'.eng.transferList = s.eng.transferList ++ [t]
  running : s'.eng.running = true
  tfer : s'.tfer = Function.update s.tfer t { s.tfer t with state := .submitted }
  log : s'.log = s.log
  offline : s'.offline = s.offline
  ring : s.eng.SameRing s'.eng
  busy : s.eng.running = true → s'.eng = { s.eng with transferList := s.eng.transferList ++ [t] }
  idle : s.eng.running = false → ∃ w, Started (s.enqueue t) s'
    ((s.eng.transferList ++ [t]).head (by simp)) w

variable {p}

theorem Queued.state {s s' : Drv} {t : XferRef} (h : Queued s s' t) :
    (s'.tfer t).state = .submitted := by simp [h.tfer]

theorem Queued.other {s s' : Drv} {t u : XferRef} (h : Queued s s' t) (hu : u ≠ t) :
    s'.tfer u = s.tfer u := by simp [h.tfer, hu]

theorem Queued.same {s s' : Drv} {t : XferRef} (h : Queued s s' t) (u : XferRef) :
    (s.tfer u).SameRequest (s'.tfer u) := by
  by_cases hu : u = t
  · subst hu
    simp [h.tfer, XdmaTransfer.SameRequest]
  · rw [h.other hu]
    exact .refl _

theorem Queued.nodup {s s' : Drv} {t : XferRef} (h : Queued s s' t) (ht : t ∉ s.eng.transferList)
    (hnd : s.eng.transferList.Nodup) : s'.eng.transferList.Nodup := by
  rw [h.list]
  exact List.nodup_append_comm.mp (by simpa using ⟨ht, hnd⟩)

theorem Queued.request {s s' : Drv} {t : XferRef} (h : Queued s s' t)
    (hr : s.eng.shutdown.request = false) : s'.eng.shutdown.request = false := by
  by_cases hrun : s.eng.running = true
  · rw [h.busy hrun]
    exact hr
  · obtain ⟨w, hs⟩ := h.idle (by simpa using hrun)
    rw [hs.shutdown]

theorem enqueue_sameRing (s : Drv) (t : XferRef) : s.eng.SameRing (s.enqueue t).eng := by
  simp [enqueue, XdmaEngine.SameRing]

def Accepts (s : Drv) (t : XferRef) : Prop :=
  (s.tfer t).descNum ≠ 0 ∧ s.offline = false ∧ s.eng.shutdown.request = false

instance (s : Drv) (t : XferRef) : Decidable (s.Accepts t) := inferInstanceAs (Decidable (_ ∧ _))

theorem transferQueue_refused {s : Drv} {t : XferRef} {w : U32} (h : ¬ s.Accepts t) :
    (s.transferQueue p t w).1 = s ∧ (s.transferQueue p t w).2 < 0 := by
  unfold transferQueue
  by_cases hn : (s.tfer t).descNum = 0
  · simp [hn]
  by_cases ho : s.offline = true
  · simp [hn, ho]
  by_cases hr : s.eng.shutdown.request = true
  · simp [hn, ho, hr]
  · exact absurd ⟨hn, by simpa using ho, by simpa using hr⟩ h

theorem transferQueue_error {s : Drv} {t : XferRef} {w : U32} (h : (s.transferQueue p t w).2 < 0) :
    (s.transferQueue p t w).2 = err .inval ∨ (s.transferQueue p t w).2 = err .busy := by
  unfold transferQueue at h ⊢
  by_cases hn : (s.tfer t).descNum = 0
  · simp [hn]
  by_cases ho : s.offline = true
  · simp [hn, ho]
  by_cases hr : s.eng.shutdown.request = true
  · simp [hn, ho, hr]
  · by_cases hrun : (s.enqueue t).eng.running = false <;> simp [hn, ho, hr, hrun] at h

theorem transferQueue_accepted {s : Drv} {t : XferRef} {w : U32} (h : s.Accepts t) :
    Queued s (s.transferQueue p t w).1 t ∧ (s.transferQueue p t w).2 = 0 := by
  obtain ⟨hn, ho, hr⟩ := h
  by_cases hrun : s.eng.running = false
  · have hq : s.transferQueue p t w = (((s.enqueue t).engineStart p w).1, 0) := by
      simp [transferQueue, hn, ho, hr, hrun, enqueue]
    obtain ⟨u, us, hl⟩ := List.exists_cons_of_ne_nil (show s.eng.transferList ++ [t] ≠ [] by simp)
    have hs := (engineStart_cons (p := p) (s := s.enqueue t) (w := w) hrun hl).2
    rw [hq]
    refine ⟨⟨hs.transferList, hs.running, hs.tfer, hs.log, hs.offline,
      (enqueue_sameRing s t).trans hs.ring, by simp [hrun], fun _ => ⟨w, ?_⟩⟩, rfl⟩
    simp only [hl, List.head_cons]
    exact hs
  · have hq : s.transferQueue p t w = (s.enqueue t, 0) := by
      simp [transferQueue, hn, ho, hr, hrun, enqueue]
    rw [hq]
    exact ⟨⟨rfl, by simpa [enqueue] using hrun, rfl, rfl, rfl, enqueue_sameRing s t, fun _ => rfl,
      fun hf => absurd hf hrun⟩, rfl⟩

theorem transferQueue_nonneg {s : Drv} {t : XferRef} {w : U32} :
    0 ≤ (s.transferQueue p t w).2 ↔ s.Accepts t := by
  by_cases h : s.Accepts t
  · simp [(transferQueue_accepted (p := p) (w := w) h).2, h]
  · have := (transferQueue_refused (p := p) (w := w) h).2
    simp only [h, iff_false, not_le]
    exact this

structure Aborted (s s' : Drv) (t : XferRef) : Prop where
  list : s'.eng = { s.eng with transferList :=
    if s.eng.transferList.head? = some t then s.eng.transferList.tail else s.eng.transferList }
  tfer : s'.tfer = Function.update s.tfer t
    { s.tfer t with state := if (s.tfer t).state = .submitted then .aborted else (s.tfer t).state }
  log : s'.log = s.log
  offline : s'.offline = s.offline

theorem transferAbort_aborted {s : Drv} {t : XferRef} (h : (s.tfer t).descNum ≠ 0) :
    Aborted s (s.transferAbort t).1 t ∧ (s.transferAbort t).2 = 0 := by
  unfold transferAbort
  by_cases hh : s.eng.transferList.head? = some t
  all_goals
    by_cases hst : (s.tfer t).state = .submitted
    all_goals
      simp only [h, hh, hst, ↓reduceIte, listDelHead_tfer, and_true]
      exact ⟨by simp [listDelHead, hh], by simp [hst, modify, listDelHead], rfl, rfl⟩

def Unfinished (s : Drv) (t : XferRef) : Prop :=
  (s.tfer t).state ≠ .completed ∧ (s.tfer t).state ≠ .failed

instance (s : Drv) (t : XferRef) : Decidable (s.Unfinished t) := inferInstanceAs (Decidable (_ ∧ _))

def DumpRegs.Ok (r : DumpRegs) : Prop := r.identifier &&& blockIdMask = blockIdHead

instance (r : DumpRegs) : Decidable r.Ok := inferInstanceAs (Decidable (_ = _))

theorem engineStatusReadDump_ok {s : Drv} {r : DumpRegs} (h : r.Ok) :
    s.engineStatusReadDump r.identifier r.status = (s.engineStatusRead r.status, 0) := by
  have h : r.identifier &&& blockIdMask = blockIdHead := h
  simp [engineStatusReadDump, engineRegDump, h]

theorem engineStatusReadDump_not_ok {s : Drv} {r : DumpRegs} (h : ¬ r.Ok) :
    s.engineStatusReadDump r.identifier r.status = (s, err .inval) := by
  have h : r.identifier &&& blockIdMask ≠ blockIdHead := h
  simp [engineStatusReadDump, engineRegDump, h]

theorem waitEnd_finished {s : Drv} {t : XferRef} {r : DumpRegs} (h : ¬ s.Unfinished t) :
    (s.waitEnd p t r).1 = s := by
  have h : (s.tfer t).state = .completed ∨ (s.tfer t).state = .failed := by
    by_contra hc
    exact h (not_or.mp hc)
  rcases h with h | h <;> simp [waitEnd, h]

theorem waitEnd_nonneg {s : Drv} {t : XferRef} {r : DumpRegs} :
    0 ≤ (s.waitEnd p t r).2 ↔ (s.tfer t).state = .completed := by
  unfold waitEnd
  cases (s.tfer t).state <;> simp <;> split <;> simp

theorem waitEnd_dumpFailed {s : Drv} {t : XferRef} {r : DumpRegs} (h : s.Unfinished t)
    (hr : ¬ r.Ok) : s.waitEnd p t r = (s, err .timedOut) := by
  obtain ⟨hc, hf⟩ := h
  have hdump := engineStatusReadDump_not_ok (s := s) hr
  unfold waitEnd
  cases hst : (s.tfer t).state
  · simp [hdump, err, Errno.val]
  · simp [hdump, err, Errno.val]
  · exact absurd hst hc
  · exact absurd hst hf
  · simp [hdump, err, Errno.val]

theorem waitEnd_dumpOk {s : Drv} {t : XferRef} {r : DumpRegs} (h : s.Unfinished t) (hr : r.Ok) :
    (s.waitEnd p t r).1 =
      if ((s.engineStatusRead r.status).transferAbort t).2 = 0 then
        ((s.engineStatusRead r.status).transferAbort t).1.xdmaEngineStop p
      else ((s.engineStatusRead r.status).transferAbort t).1 := by
  obtain ⟨hc, hf⟩ := h
  have hdump := engineStatusReadDump_ok (s := s) hr
  unfold waitEnd
  cases hst : (s.tfer t).state
  · simp [hdump]
  · simp [hdump]
  · exact absurd hst hc
  · exact absurd hst hf
  · simp [hdump]

theorem waitEnd_unfinished {s : Drv} {t : XferRef} {r : DumpRegs} (h : s.Unfinished t) (hr : r.Ok)
    (hn : (s.tfer t).descNum ≠ 0) :
    (s.waitEnd p t r).1.eng.transferList =
        (if s.eng.transferList.head? = some t then s.eng.transferList.tail else s.eng.transferList) ∧
      (s.waitEnd p t r).1.eng.running = false := by
  obtain ⟨ha, hrv⟩ := transferAbort_aborted (s := s.engineStatusRead r.status) (t := t) hn
  rw [waitEnd_dumpOk h hr, if_pos hrv]
  exact ⟨by rw [xdmaEngineStop_transferList, ha.list]; rfl, rfl⟩

theorem transferAbort_sameConfig (s : Drv) (t : XferRef) :
    s.eng.SameConfig (s.transferAbort t).1.eng ∧ (s.transferAbort t).1.eng.descIdx = s.eng.descIdx := by
  by_cases hn : (s.tfer t).descNum = 0
  · simp [transferAbort, hn, XdmaEngine.SameConfig.refl]
  · rw [(transferAbort_aborted hn).1.list]
    exact ⟨⟨rfl, rfl, rfl, rfl, rfl⟩, rfl⟩

theorem transferDestroy_sameConfig (s : Drv) (t : XferRef) :
    s.eng.SameConfig (s.transferDestroy t).eng ∧ (s.transferDestroy t).eng.descIdx = s.eng.descIdx :=
  ⟨⟨rfl, rfl, rfl, rfl, rfl⟩, rfl⟩

theorem waitEnd_sameConfig (p : Params) (s : Drv) (t : XferRef) (r : DumpRegs) :
    s.eng.SameConfig (s.waitEnd p t r).1.eng ∧ (s.waitEnd p t r).1.eng.descIdx = s.eng.descIdx := by
  by_cases hu : s.Unfinished t
  swap
  · rw [waitEnd_finished hu]
    exact ⟨.refl _, rfl⟩
  by_cases hr : r.Ok
  swap
  · rw [waitEnd_dumpFailed hu hr]
    exact ⟨.refl _, rfl⟩
  obtain ⟨hc, hi⟩ := transferAbort_sameConfig (s.engineStatusRead r.status) t
  have hread := engineStatusRead_sameQueue s r.status
  have habort : s.eng.SameConfig ((s.engineStatusRead r.status).transferAbort t).1.eng :=
    hread.ring.config.trans hc
  have hstop := xdmaEngineStop_sameRing p ((s.engineStatusRead r.status).transferAbort t).1
  rw [waitEnd_dumpOk hu hr]
  split
  · exact ⟨habort.trans hstop.config, hstop.descIdx.trans hi⟩
  · exact ⟨habort, hi⟩

end Drv

end XdmaDriver
