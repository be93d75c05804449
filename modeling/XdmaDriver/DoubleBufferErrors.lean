import XdmaDriver.DoubleBufferSlots

/-!
The slots that are marked filled against the states in which their transfers left
the engine queue.
-/

namespace XdmaDriver

open Transition Drv

def FailsNone (error eopFlush : Prop) : ℕ → List ℕ → Prop
  | _, [] => True
  | c, n :: ns => if n < c then FailsNone error eopFlush (c - n) ns else ¬ error ∧ (eopFlush ∨ c = n)

instance (error eopFlush : Prop) [Decidable error] [Decidable eopFlush] :
    ∀ c ns, Decidable (FailsNone error eopFlush c ns)
  | _, [] => inferInstanceAs (Decidable True)
  | c, n :: ns =>
    have := instDecidableFailsNone error eopFlush (c - n) ns
    inferInstanceAs (Decidable (if n < c then _ else _))

theorem FailsNone.drop {error eopFlush : Prop} {c : ℕ} (ns ms : List ℕ) (hpos : ns ≠ [] → 0 < c)
    (h : FailsNone error eopFlush (c + ns.sum) (ns ++ ms)) : FailsNone error eopFlush c ms := by
  induction ns with
  | nil => simpa using h
  | cons n ns ih =>
    have hc := hpos (by simp)
    refine ih (fun _ => hc) ?_
    simp only [List.cons_append, FailsNone, List.sum_cons] at h
    rw [if_pos (by omega)] at h
    have hsub : c + (n + ns.sum) - n = c + ns.sum := by omega
    rwa [hsub] at h

namespace Drv

variable {p : Params}

/-- The condition on the status and the count under which a service call fails no
transfer. -/
def ServiceFailsNone (s : Drv) (wb : U32) (r : ServiceRegs) : Prop :=
  s.eng.running = true → serviceCount wb r ≠ 0 →
    FailsNone (statusError s.eng.dir (s.usedStatus wb r)) (s.eng.eopFlush = true)
      (u32Sub (serviceCount wb r) s.eng.descDequeued) (s.eng.transferList.map fun t => (s.tfer t).descNum)

instance (s : Drv) (wb : U32) (r : ServiceRegs) : Decidable (s.ServiceFailsNone wb r) :=
  inferInstanceAs (Decidable (_ → _ → _))

theorem finalTransfer_not_failed {s : Drv} {c : ℕ} (hok : ∀ t ∈ s.eng.transferList.head?,
    ¬ statusError s.eng.dir s.eng.status ∧ (s.eng.eopFlush = true ∨ (s.tfer t).descNum ≤ c)) {u : XferRef}
    (hu : ((s.engineServiceFinalTransfer p s.eng.transferList.head? c).tfer u).state = .failed) :
    (s.tfer u).state = .failed := by
  cases hl : s.eng.transferList with
  | nil =>
    rw [hl] at hu
    exact hu
  | cons t ts =>
    obtain ⟨hne, hc⟩ := hok t (by simp [hl])
    have hspec := finalTransferState_spec p s t c
    have hstate : ((s.finalTransferState p t c).1.tfer t).state = .failed → (s.tfer t).state = .failed := by
      unfold finalTransferState
      simp only [hne, ↓reduceIte]
      by_cases hlt : c < (s.tfer t).descNum
      · have heop := hc.resolve_right (not_le.mpr hlt)
        simp only [hlt, heop, ↓reduceIte]
        split <;> simp
      · simp [hlt]
    have hfinal : ((s.finalTransferState p t c).1.tfer u).state = .failed := by
      rw [hl] at hu
      simp only [List.head?_cons, engineServiceFinalTransfer] at hu
      split at hu <;> exact hu
    by_cases hut : u = t
    · subst hut
      exact hstate hfinal
    · rwa [hspec.other u hut] at hfinal

theorem engineService_not_failed {s : Drv} {wb : U32} {r : ServiceRegs} (hok : s.ServiceFailsNone wb r)
    (hcyc : ∀ t ∈ s.eng.transferList, (s.tfer t).cyclic = false) {u : XferRef}
    (hu : ((s.engineService p wb r).1.tfer u).state = .failed) : (s.tfer u).state = .failed := by
  by_cases hrun : s.eng.running = true
  swap
  · rwa [engineService_stopped (by simpa using hrun)] at hu
  have hentry := engineServiceEntry_sameQueue p wb r s
  by_cases hc : serviceCount wb r = 0
  · rwa [engineService_zero hrun hc, hentry.tfer] at hu
  have hok := hok hrun hc
  obtain ⟨hst, hdir, heop, hdeq, -⟩ := engineServiceEntry_eng p wb r s
  rw [engineService_count hrun hc] at hu
  rw [← hst, ← hdir, ← heop, ← hdeq, ← hentry.list, ← hentry.tfer] at hok
  rw [← hentry.list, ← hentry.tfer] at hcyc
  rw [← hentry.tfer]
  generalize s.engineServiceEntry p wb r = s₀ at *
  obtain ⟨s₁, s₂, c', pre, hperf, hs, hloop⟩ := engineServiceQueue_run p r.status (serviceCount wb r) s₀
  have hlist₁ := hperf.sameQueue.list
  rw [hloop, (engineServiceResume_sameQueue p r.status _).tfer] at hu
  rw [hs.count, ← hlist₁, hs.list, ← hperf.tfer, List.map_append] at hok
  rw [← hlist₁, hs.list, ← hperf.tfer] at hcyc
  -- what the loop leaves at the head is not failed
  have hrest := FailsNone.drop _ _ (fun hn => hs.pos (by simpa using hn)) hok
  have hhead : ∀ t ∈ s₂.eng.transferList.head?, ¬ statusError s₂.eng.dir s₂.eng.status ∧
      (s₂.eng.eopFlush = true ∨ (s₂.tfer t).descNum ≤ c') := by
    intro t ht
    obtain ⟨ts, hl₂⟩ : ∃ ts, s₂.eng.transferList = t :: ts := by
      cases hl₂ : s₂.eng.transferList with
      | nil => simp [hl₂] at ht
      | cons v vs =>
        rw [hl₂] at ht
        exact ⟨vs, by rw [Option.some.inj ht]⟩
    have hle : c' ≤ (s₁.tfer t).descNum :=
      (hs.stop t ht).resolve_left (by simp [hcyc t (by simp [hl₂])])
    have hnum : (s₂.tfer t).descNum = (s₁.tfer t).descNum := by
      rw [hs.tfer t]
      split <;> rfl
    rw [hl₂, List.map_cons, FailsNone, if_neg (not_lt.mpr hle)] at hrest
    rw [hnum, hs.eng, hperf.eng]
    exact ⟨hrest.1, hrest.2.imp_right ge_of_eq⟩
  have hu₂ := finalTransfer_not_failed (p := p) hhead hu
  rw [hs.tfer u, hperf.tfer] at hu₂
  split at hu₂
  · cases hu₂
  · exact hu₂

end Drv

namespace DbufRun

variable {p : Params} {s s' : DbufRun}

/-- While the mode is active no service call fails a transfer, and the mode is started
with no transfer of an earlier one linked. -/
def NoFailure (s : DbufRun) : DbufAct → Prop
  | .start fault io alloc => (s.cdev.ioctlDoDbufStart fault io alloc).2 = none → s.Drained
  | .service wb r => s.cdev.dbufActive = true → s.cdev.drv.ServiceFailsNone wb r
  | _ => True

instance (s : DbufRun) (a : DbufAct) : Decidable (s.NoFailure a) := by
  apply @DbufAct.casesOn _ a <;> intros <;> (dsimp only [NoFailure]; infer_instance)

theorem NoFailure.startsDrained {a : DbufAct} (h : s.NoFailure a) : s.StartsDrained a := by
  cases a with
  | start fault io alloc => exact h
  | _ => trivial

theorem NoFailure.leavesCompleted {a : DbufAct} (h : s.NoFailure a)
    (hl : ∀ t ∈ s.cdev.drv.eng.transferList,
      (s.cdev.drv.tfer t).state = .submitted ∧ (s.cdev.drv.tfer t).cyclic = false) :
    s.LeavesDone p (· = .completed) a := by
  cases a with
  | service wb r =>
    intro ha t ht hst
    obtain ⟨out, he⟩ := engineService_effect p wb r s.cdev.drv
    have hto : t ∈ out := by
      by_contra hto
      exact hst ((he.kept t hto).trans (hl t ht).1)
    refine (he.left t hto).resolve_right fun hfail => ?_
    have hfail := engineService_not_failed (h ha) (fun v hv => (hl v hv).2) hfail
    simp [(hl t ht).1] at hfail
  | _ => trivial

theorem SlotsTracked.step_noFailure {a : DbufAct} (h : s.SlotsTracked (· = .completed)) (hok : s.NoFailure a)
    (hs : s.step p a = some s') : s'.SlotsTracked (· = .completed) :=
  step_tracked h (by simp) hok.startsDrained (hok.leavesCompleted h.linked) hs

/-- A slot is filled only with what its completed transfers brought, and a failure
reaches the reader. -/
structure FailuresReported (p : Params) (s : DbufRun) : Prop where
  filled : ∀ i, (s.cdev.dbuf i).filled = true → ∀ t ∈ s.cur i,
    t ∉ s.cdev.drv.eng.transferList ∧ (s.cdev.drv.tfer t).state = .completed
  failed : ∀ i, ∀ t ∈ s.cur i, (s.cdev.drv.tfer t).state = .failed → (s.cdev.dbuf i).filled = false ∧
    ∀ count, s.pc = .readWait count → ∀ fault, ∃ s', s.step p (.wake fault) = some s' ∧
      s'.pc = .idle ∧ s'.ret = err .io

theorem SlotsTracked.failuresReported (h : s.SlotsTracked (· = .completed)) : s.FailuresReported p := by
  refine ⟨fun i hi t ht => ?_, fun i t ht hst => ⟨?_, fun count hpc fault => ?_⟩⟩
  · have hc := h.filled i hi t ht
    exact ⟨fun hl => by simp [(h.linked t hl).1] at hc, hc⟩
  · rw [← Bool.not_eq_true]
    intro hf
    simp [h.filled i hf t ht] at hst
  · have hact : s.cdev.dbufActive = false := by
      rw [← Bool.not_eq_true]
      intro ha
      rcases (h.slots ha).left i (by simp [hpc, DbufPc.Owes]) t ht with hl | hc | hn
      · simp [(h.linked t hl).1] at hst
      · simp [hc] at hst
      · simp [hn] at hst
    exact ⟨{ s with pc := .idle, ret := err .io }, by simp [DbufRun.step, hpc, hact, readWoken], rfl, rfl⟩

/-- With no transfer failed while the mode is active, what a run delivers was
transferred without an error. -/
theorem failures_reported (h : Reachable (step p) Begins NoFailure s) : s.FailuresReported p :=
  (h.invariant (I := SlotsTracked (· = .completed)) (fun _ h => slotsTracked_of_begins h)
    fun _ _ _ hI hok hs => hI.step_noFailure hok hs).failuresReported

theorem failures_reported_firstFill : ∃ s : DbufRun, ((s.cdev.dbuf 0).filled, s.cur 0) = (true, [⟨0, 0⟩]) ∧
    s.FailuresReported {} := by
  have hbegins : Begins {} := ⟨⟨rfl, rfl, rfl, rfl, fun _ => rfl⟩, fun _ => rfl⟩
  have hrun : (run (step {}) NoFailure {} (startedRun ++ [.service 0 ⟨xdmaStatDescCompleted, 1, 1⟩])).map
      (fun s => ((s.cdev.dbuf 0).filled, s.cur 0)) = some (true, [⟨0, 0⟩]) := by decide
  obtain ⟨s, hs, hl⟩ := exists_reachable hbegins hrun
  exact ⟨s, hl, failures_reported hs⟩

/-- A read error of the engine on the first slot: its transfer fails, and the slot is filled. -/
theorem failures_delivered : ¬ ∀ (p : Params) (s : DbufRun), Reachable (step p) Begins (fun _ _ => True) s →
    s.FailuresReported p := by
  intro h
  have hbegins : Begins {} := ⟨⟨rfl, rfl, rfl, rfl, fun _ => rfl⟩, fun _ => rfl⟩
  have hrun : (run (step {}) (fun _ _ => True) {} (startedRun ++ [.service 0 ⟨1 <<< 9, 1, 1⟩])).map
      (fun s => ((s.cdev.dbuf 0).filled, s.cur 0, (s.cdev.drv.tfer ⟨0, 0⟩).state)) =
    some (true, [⟨0, 0⟩], .failed) := by decide
  obtain ⟨s, hs, heq⟩ := exists_reachable hbegins hrun
  simp only [Prod.mk.injEq] at heq
  obtain ⟨hf, hcur, hst⟩ := heq
  have := ((h {} s hs).failed 0 ⟨0, 0⟩ (by simp [hcur]) hst).1
  simp [hf] at this

end DbufRun

end XdmaDriver
