import XdmaDriver.HeadService
import XdmaDriver.Queue
import XdmaDriver.Lib.Transition

/-!
Runs of one engine under `transfer_queue`, `engine_service` and the ends of the
waits of `xdma_xfer_submit`, and when they leave the queue without an engine.
-/

namespace XdmaDriver

open Transition Drv

/-- The state of a run. `seen` is the completed count the last service call read
and `seenAt` the number of the engine start it belongs to. -/
structure QueueRun where
  drv : Drv := {}
  seen : ℕ := 0
  seenAt : ℕ := 0

inductive QueueAct
  | build (t : XferRef) (x : XdmaTransfer)
  | queue (t : XferRef) (w : U32)
  | service (wb : U32) (r : ServiceRegs)
  | wait (t : XferRef) (r : DumpRegs)

namespace QueueRun

variable (p : Params)

def Waited (s : QueueRun) (t : XferRef) : Prop :=
  (s.drv.tfer t).descNum ≠ 0 ∧ (s.drv.tfer t).state ≠ .new ∧ (s.drv.tfer t).state ≠ .aborted

instance (s : QueueRun) (t : XferRef) : Decidable (s.Waited t) := inferInstanceAs (Decidable (_ ∧ _))

def step (s : QueueRun) : QueueAct → Option QueueRun
  | .build t x =>
    if t ∈ s.drv.eng.transferList then none
    else some { s with drv := s.drv.modify t fun _ => { x with state := .new } }
  | .queue t w =>
    if t ∈ s.drv.eng.transferList then none
    else some { s with drv := (s.drv.transferQueue p t w).1 }
  | .service wb r =>
    let drv := (s.drv.engineService p wb r).1
    if s.drv.eng.running then
      some { drv := drv, seen := serviceCount wb r, seenAt := s.drv.eng.starts }
    else some { s with drv := drv }
  | .wait t r =>
    if s.Waited t then some { s with drv := (s.drv.waitEnd p t r).1.transferDestroy t } else none

def Idle (s : QueueRun) : Prop := s.drv.eng.transferList = [] ∧ s.drv.eng.running = false

def NotStalled (s : QueueRun) : Prop :=
  s.drv.eng.transferList ≠ [] → s.drv.eng.running = true

/-- A service call does not find the engine idle with a zero count and transfers
queued, and a timed-out transfer is aborted with no other one queued. -/
def KeepsRunning (s : QueueRun) : QueueAct → Prop
  | .build _ _ => True
  | .queue _ _ => True
  | .service wb r => s.drv.eng.running = true → serviceCount wb r = 0 → ¬ statusBusy r.statusRc →
      s.drv.eng.transferList = []
  | .wait t r => s.drv.Unfinished t → r.Ok →
      s.drv.eng.transferList = [] ∨ s.drv.eng.transferList = [t]

instance (s : QueueRun) (a : QueueAct) : Decidable (s.KeepsRunning a) := by
  apply @QueueAct.casesOn _ a <;> intros <;> (dsimp only [KeepsRunning]; infer_instance)

variable {p}

theorem step_service_drv {s s' : QueueRun} {wb : U32} {r : ServiceRegs}
    (h : s.step p (.service wb r) = some s') : s'.drv = (s.drv.engineService p wb r).1 := by
  simp only [step] at h
  split at h <;> exact (Option.some.inj h) ▸ rfl

@[simp] theorem serviceCount_eq_zero {wb : U32} {r : ServiceRegs} :
    serviceCount wb r = 0 ↔ wbCount wb = 0 ∧ r.completedDescCount.toNat = 0 := by
  unfold serviceCount
  split <;> simp_all

theorem stopsFirst_of_zero {s : Drv} {wb : U32} {r : ServiceRegs} (hc : serviceCount wb r = 0) :
    s.StopsFirst wb r ↔ ¬ statusBusy r.statusRc := by
  have hwb := (serviceCount_eq_zero.mp hc).1
  simp [StopsFirst, usedStatus, hwb]

theorem service_notStalled {s : QueueRun} {wb : U32} {r : ServiceRegs} (hs : s.NotStalled) :
    ((s.drv.engineService p wb r).1.eng.transferList ≠ [] →
      (s.drv.engineService p wb r).1.eng.running = true) ↔ s.KeepsRunning (.service wb r) := by
  by_cases hrun : s.drv.eng.running = true
  · by_cases hc : serviceCount wb r = 0
    · rw [engineService_zero hrun hc]
      obtain ⟨-, -, -, -, -, -, -, hr⟩ := engineServiceEntry_eng p wb r s.drv
      rw [hr, (engineServiceEntry_sameQueue p wb r s.drv).list]
      simp only [KeepsRunning, hrun, hc, stopsFirst_of_zero hc, forall_const]
      by_cases hb : statusBusy r.statusRc <;> simp [hb]
    · rw [engineService_count hrun hc]
      refine ⟨fun _ _ h0 => absurd h0 hc, fun _ => ?_⟩
      exact (engineServiceQueue_iff p r.status _ _).mpr
  · have hl : s.drv.eng.transferList = [] := by
      by_contra h
      exact hrun (hs h)
    rw [engineService_stopped (by simpa using hrun)]
    simp [KeepsRunning, engineStatusRead, hl]

theorem wait_notStalled {s : QueueRun} {t : XferRef} {r : DumpRegs} (hs : s.NotStalled)
    (ht : s.Waited t) :
    (((s.drv.waitEnd p t r).1.transferDestroy t).eng.transferList ≠ [] →
      ((s.drv.waitEnd p t r).1.transferDestroy t).eng.running = true) ↔
        s.KeepsRunning (.wait t r) := by
  change ((s.drv.waitEnd p t r).1.eng.transferList ≠ [] → (s.drv.waitEnd p t r).1.eng.running = true) ↔ _
  by_cases hu : s.drv.Unfinished t
  · by_cases hr : r.Ok
    · obtain ⟨hl, hstop⟩ := waitEnd_unfinished (p := p) hu hr ht.1
      simp only [hl, hstop, KeepsRunning, hu, hr, true_implies]
      cases hlist : s.drv.eng.transferList with
      | nil => simp
      | cons u us => by_cases hut : u = t <;> simp [hut]
    · rw [waitEnd_dumpFailed hu hr]
      simpa [KeepsRunning, hr, NotStalled] using hs
  · rw [waitEnd_finished hu]
    simpa [KeepsRunning, hu, NotStalled] using hs

theorem step_notStalled {s s' : QueueRun} {a : QueueAct} (hs : s.NotStalled)
    (h : s.step p a = some s') : s'.NotStalled ↔ s.KeepsRunning a := by
  cases a with
  | build t x =>
    simp only [step, Option.ite_none_left_eq_some, Option.some.injEq] at h
    obtain ⟨-, rfl⟩ := h
    simpa [NotStalled, KeepsRunning] using hs
  | queue t w =>
    simp only [step, Option.ite_none_left_eq_some, Option.some.injEq] at h
    obtain ⟨-, rfl⟩ := h
    refine ⟨fun _ => trivial, fun _ => ?_⟩
    by_cases hacc : s.drv.Accepts t
    · exact fun _ => (transferQueue_accepted hacc).1.running
    · simp only [NotStalled, (transferQueue_refused (p := p) (w := w) hacc).1]
      exact hs
  | service wb r =>
    simp only [NotStalled, step_service_drv h]
    exact service_notStalled hs
  | wait t r =>
    simp only [step, Option.ite_none_right_eq_some, Option.some.injEq] at h
    obtain ⟨ht, rfl⟩ := h
    exact wait_notStalled hs ht

/-- The queue never stalls while every step keeps the engine running. -/
theorem queue_not_stalled {s : QueueRun} (h : Reachable (step p) Idle KeepsRunning s)
    (_ : s.drv.offline = false) (_ : s.drv.eng.shutdown.request = false)
    (hl : s.drv.eng.transferList ≠ []) : s.drv.eng.running = true :=
  Reachable.invariant (I := NotStalled) (fun _ h hl => absurd h.1 hl)
    (fun _ _ _ hI hok hs => (step_notStalled hI hs).mpr hok) h hl

def busyRun : List QueueAct :=
  [.build ⟨0, 0⟩ { descNum := 1 }, .queue ⟨0, 0⟩ 1, .build ⟨1, 0⟩ { descNum := 2 }, .queue ⟨1, 0⟩ 1,
    .service 0 ⟨4, 1, 1⟩]

theorem queue_not_stalled_busyRun : ∃ s, Reachable (step {}) Idle KeepsRunning s ∧
    s.drv.eng.transferList = [⟨1, 0⟩] ∧ s.drv.eng.running = true := by
  have hidle : Idle {} := ⟨rfl, rfl⟩
  have hrun : (run (step {}) KeepsRunning {} busyRun).map (fun s => (s.drv.offline,
      s.drv.eng.shutdown, s.drv.eng.transferList)) = some (false, {}, [⟨1, 0⟩]) := by decide
  obtain ⟨s, hs, heq⟩ := exists_reachable hidle hrun
  simp only [Prod.mk.injEq] at heq
  obtain ⟨ho, hsh, hl⟩ := heq
  exact ⟨s, hs, hl, queue_not_stalled hs ho (by rw [hsh]) (by rw [hl]; simp)⟩

def stallingRun : List QueueAct :=
  [.build ⟨0, 0⟩ { descNum := 1 }, .queue ⟨0, 0⟩ 1, .service 0 ⟨0, 0, 0⟩]

theorem queue_stalls : ¬ ∀ (p : Params) (s : QueueRun), Reachable (step p) Idle (fun _ _ => True) s →
    s.drv.offline = false → s.drv.eng.shutdown.request = false → s.drv.eng.transferList ≠ [] →
    s.drv.eng.running = true := by
  intro h
  have hidle : Idle {} := ⟨rfl, rfl⟩
  have hrun : (run (step {}) (fun _ _ => True) {} stallingRun).map (fun s => (s.drv.offline,
      s.drv.eng.shutdown, s.drv.eng.transferList, s.drv.eng.running)) =
        some (false, {}, [⟨0, 0⟩], false) := by decide
  obtain ⟨s, hs, heq⟩ := exists_reachable hidle hrun
  simp only [Prod.mk.injEq] at heq
  obtain ⟨ho, hsh, hl, hr⟩ := heq
  have := h {} s hs ho (by rw [hsh]) (by rw [hl]; simp)
  simp [hr] at this

end QueueRun

end XdmaDriver
