import XdmaDriver.Aio

/-!
What the counters of `cdev_async_io` do over a run: when `ki_complete` is called, and what
is freed.
-/

namespace XdmaDriver

namespace AioRun

variable {c : AioCall} {s s' : AioRun}

def LeftEarly (c : AioCall) (s : AioRun) : Prop := s.outcome.isSome = true ∧ s.i < c.io.length

instance (c : AioCall) (s : AioRun) : Decidable (s.LeftEarly c) := inferInstanceAs (Decidable (_ ∧ _))

def Finished (c : AioCall) (s : AioRun) : Prop := s.i = c.io.length ∧ ∀ j ∈ s.queued, j ∈ s.completed

instance (c : AioCall) (s : AioRun) : Decidable (s.Finished c) := inferInstanceAs (Decidable (_ ∧ _))

structure Counted (c : AioCall) (s : AioRun) : Prop where
  reqCnt : s.aio.caio.reqCnt = c.io.length
  free : s.aio.caio.lock = false ∧ s.aio.caio.cancel = false
  noError : s.aio.caio.res2 = 0 ∧ s.aio.caio.errCnt = 0
  cmplCnt : s.aio.caio.cmplCnt = s.completed.length
  inside : s.i ≤ c.io.length
  queued : s.queued.Sublist (List.range s.i)
  completed : s.completed.Nodup ∧ s.completed ⊆ s.queued
  counting : s.completed.length < c.io.length →
    s.aio.kiComplete = [] ∧ s.aio.cbFreed = [] ∧ (s.aio.caioFreed = 0 ∨ s.LeftEarly c)
  last : s.completed ≠ [] → s.completed.length = c.io.length →
    s.aio.kiComplete.length = 1 ∧ s.aio.caioFreed = 1 ∧ s.aio.cbFreed = s.completed.getLast?.toList

theorem start_counted : (start c).Counted c := by
  constructor
  · rfl
  · exact ⟨rfl, rfl⟩
  · exact ⟨rfl, rfl⟩
  · rfl
  · exact Nat.zero_le _
  · exact List.nil_sublist _
  · exact ⟨List.nodup_nil, List.nil_subset _⟩
  · exact fun _ => ⟨rfl, rfl, .inl rfl⟩
  · exact fun h => absurd rfl h

namespace Counted

theorem length_le (h : s.Counted c) : s.completed.length ≤ s.queued.length :=
  (List.Nodup.subperm h.completed.1 h.completed.2).length_le

theorem queued_le (h : s.Counted c) : s.queued.length ≤ s.i := by
  simpa using h.queued.length_le

theorem of_same (h : s.Counted c) (hcaio : s'.aio.caio = s.aio.caio)
    (hki : s'.aio.kiComplete = s.aio.kiComplete)
    (hcb : s'.aio.cbFreed = s.aio.cbFreed) (hdone : s'.completed = s.completed) (hi : s'.i ≤ c.io.length)
    (hq : s'.queued.Sublist (List.range s'.i)) (hsub : s.queued ⊆ s'.queued)
    (hfree : s'.aio.caioFreed = s.aio.caioFreed ∧ (s.LeftEarly c → s'.LeftEarly c) ∨
      s.completed.length < c.io.length ∧ s'.LeftEarly c) : s'.Counted c := by
  constructor
  · rw [hcaio]
    exact h.reqCnt
  · rw [hcaio]
    exact h.free
  · rw [hcaio]
    exact h.noError
  · rw [hcaio, hdone]
    exact h.cmplCnt
  · exact hi
  · exact hq
  · rw [hdone]
    exact ⟨h.completed.1, fun j hj => hsub (h.completed.2 hj)⟩
  · intro hlt
    rw [hdone] at hlt
    obtain ⟨hk, hc, hf⟩ := h.counting hlt
    refine ⟨hki.trans hk, hcb.trans hc, ?_⟩
    rcases hfree with ⟨he, hleft⟩ | ⟨-, hleft⟩
    · exact hf.imp he.trans hleft
    · exact .inr hleft
  · intro hne hlen
    rw [hdone] at hne hlen ⊢
    obtain ⟨hk, hf, hc⟩ := h.last hne hlen
    rcases hfree with ⟨he, -⟩ | ⟨hlt, -⟩
    · exact ⟨by rw [hki, hk], by rw [he, hf], by rw [hcb, hc]⟩
    · exact absurd hlen hlt.ne

theorem complete (h : s.Counted c) {j : ℕ} (hq : j ∈ s.queued) (hnew : j ∉ s.completed) (n : ℤ) :
    ({ s with aio := s.aio.asyncIoHandler j 0 n, completed := s.completed ++ [j] } : AioRun).Counted c := by
  have hnodup : (s.completed ++ [j]).Nodup := by
    rw [List.nodup_append_comm]
    exact List.nodup_cons.mpr ⟨hnew, h.completed.1⟩
  have hsubset : s.completed ++ [j] ⊆ s.queued :=
    List.append_subset.mpr ⟨h.completed.2, List.cons_subset.mpr ⟨hq, List.nil_subset _⟩⟩
  have hle := (List.Nodup.subperm hnodup hsubset).length_le
  have hlen := h.queued_le
  have hin := h.inside
  rw [List.length_append, List.length_singleton] at hle
  obtain ⟨hk, hc, hf⟩ := h.counting (by omega)
  have hh := Aio.asyncIoHandler_handled h.free.1 h.free.2 h.noError.1 h.noError.2 j n
  have hcaio := hh.caio
  have hcounting := hh.counting
  have hlast := hh.last
  rw [h.cmplCnt, h.reqCnt] at hcounting hlast
  constructor
  · simp only [hcaio, h.reqCnt]
  · simp only [hcaio, h.free, and_self]
  · simp only [hcaio, h.noError, and_self]
  · simp only [hcaio, h.cmplCnt, List.length_append, List.length_singleton]
  · exact hin
  · exact h.queued
  · exact ⟨hnodup, hsubset⟩
  · intro hlt
    rw [List.length_append, List.length_singleton] at hlt
    obtain ⟨hk', hf', hc'⟩ := hcounting hlt.ne
    exact ⟨hk'.trans hk, hc'.trans hc, hf.imp_left hf'.trans⟩
  · intro _ hend
    rw [List.length_append, List.length_singleton] at hend
    obtain ⟨hk', hf', hc'⟩ := hlast hend
    have hfree : s.aio.caioFreed = 0 := hf.resolve_right fun hleft => by
      have := hleft.2
      omega
    dsimp only
    rw [hk', hf', hc', hk, hc, hfree]
    simp

theorem step (h : s.Counted c) {a : AioStep} (hs : s.step c a = some s') : s'.Counted c := by
  cases a with
  | segment env rv =>
    simp only [AioRun.step] at hs
    by_cases hret : s.outcome.isSome = true
    · simp [hret] at hs
    simp only [hret, Bool.false_eq_true, ↓reduceIte] at hs
    cases hio : c.io[s.i]? with
    | none => simp [hio] at hs
    | some io =>
      have hlt : s.i < c.io.length := (List.getElem?_eq_some_iff.mp hio).1
      have hcount := h.length_le.trans h.queued_le
      simp only [hio] at hs
      generalize c.segment io env = r at hs
      obtain ⟨cb, check⟩ := r
      cases check with
      | misaligned rv' =>
        obtain rfl := Option.some.inj hs
        exact h.of_same rfl rfl rfl rfl h.inside h.queued (List.Subset.refl _) (.inr ⟨by omega, rfl, hlt⟩)
      | unmapped rv' =>
        obtain rfl := Option.some.inj hs
        exact h.of_same rfl rfl rfl rfl h.inside h.queued (List.Subset.refl _) (.inr ⟨by omega, rfl, hlt⟩)
      | ready =>
        obtain rfl := Option.some.inj hs
        refine h.of_same rfl rfl rfl rfl (Nat.succ_le_of_lt hlt) ?_ ?_
          (.inl ⟨rfl, fun hleft => absurd hleft.1 hret⟩)
        · dsimp only
          rw [List.range_succ]
          split_ifs
          · exact h.queued.append (List.Sublist.refl _)
          · exact h.queued.trans (List.sublist_append_left _ _)
        · dsimp only
          split_ifs
          · exact List.subset_append_left _ _
          · exact List.Subset.refl _
  | leave =>
    simp only [AioRun.step] at hs
    split_ifs at hs with hend
    obtain rfl := Option.some.inj hs
    refine h.of_same rfl rfl rfl rfl h.inside h.queued (List.Subset.refl _) (.inl ⟨rfl, fun hleft => ?_⟩)
    rw [LeftEarly, hend.1] at hleft
    simp at hleft
  | complete j n =>
    simp only [AioRun.step] at hs
    split_ifs at hs with hend
    obtain rfl := Option.some.inj hs
    exact h.complete hend.1 hend.2 n

end Counted

theorem Reachable.counted (h : Reachable c s) : s.Counted c :=
  Transition.Reachable.invariant (I := fun s => s.Counted c) (by rintro s rfl; exact start_counted)
    (fun _ _ _ hs _ hstep => hs.step hstep) h

theorem Counted.finished (h : s.Counted c) (hfin : s.Finished c) :
    (∀ j < c.io.length, j ∈ s.queued) ↔ s.completed.length = c.io.length := by
  have hlen := h.length_le
  have hle := h.queued_le
  have hperm : s.queued.length ≤ s.completed.length :=
    (List.Nodup.subperm (h.queued.nodup List.nodup_range) hfin.2).length_le
  constructor
  · intro hall
    have hrange : (List.range c.io.length).length ≤ s.queued.length :=
      (List.Nodup.subperm List.nodup_range fun j hj => hall j (List.mem_range.mp hj)).length_le
    have hi := hfin.1
    rw [List.length_range] at hrange
    omega
  · intro hcount j hj
    have hi := hfin.1
    have heq : s.queued = List.range s.i := h.queued.eq_of_length (by rw [List.length_range]; omega)
    rw [heq, List.mem_range, hi]
    exact hj

def pageEnv : MapEnv := { pinned := .ok [1] }

theorem reachable_of_run {as : List AioStep}
    (hrun : (Transition.run (step c) (fun _ _ => True) (start c) as) = some s) :
    Reachable c s :=
  .of_run (.init rfl) hrun

/-- What a failed call should leave: no queued segment whose callback leads to a freed
`caio`, and nothing of what the call has allocated. -/
def NothingLeft (s : AioRun) : Prop :=
  (s.aio.caioFreed ≠ 0 → ∀ j ∈ s.queued, j ∈ s.completed) ∧ s.aio.caioFreed = 1 ∧ s.aio.cbFreed = [0] ∧
    ∀ j, (s.aio.cb j).HoldsNothing

/-- A call that a failed check ends early never frees its array, whatever completes
later. -/
theorem failed_aio_leaks (h : Reachable c s) (hf : s.LeftEarly c) : s.aio.cbFreed = [] ∧ ¬ s.NothingLeft := by
  have hc := h.counted
  have hlen := hc.length_le
  have hle := hc.queued_le
  have hi := hf.2
  obtain ⟨-, hcb, -⟩ := hc.counting (by omega)
  refine ⟨hcb, fun hno => ?_⟩
  rw [NothingLeft, hcb] at hno
  simp at hno

def misalignedAio : AioCall := { write := true, align := ⟨4, 1⟩, io := [⟨0x1000, 4⟩, ⟨0x2002, 4⟩] }

theorem misalignedAio_run : ∃ s, Reachable misalignedAio s ∧ s.LeftEarly misalignedAio ∧ s.aio.caioFreed = 1 ∧
    0 ∈ s.queued ∧ 0 ∉ s.completed := by
  obtain ⟨s, hs⟩ : ∃ s, Transition.run (step misalignedAio) (fun _ _ => True) (start misalignedAio)
      [.segment pageEnv (err .iocbQueued), .segment pageEnv (err .iocbQueued)] = some s := ⟨_, rfl⟩
  refine ⟨s, reachable_of_run hs, ?_⟩
  obtain rfl := Option.some.inj hs
  decide

theorem failed_aio_leaks_misaligned : ∃ s, Reachable misalignedAio s ∧ s.aio.cbFreed = [] ∧
    ¬ s.NothingLeft := by
  obtain ⟨s, hreach, hf, -⟩ := misalignedAio_run
  exact ⟨s, hreach, failed_aio_leaks hreach hf⟩

/-- The callback of the segment in flight refers to the freed `caio`. -/
theorem failed_aio_keeps_callback : ¬ ∀ (c : AioCall) (s : AioRun), Reachable c s → s.LeftEarly c →
    s.NothingLeft := by
  intro h
  obtain ⟨s, hreach, hf, hfreed, hqueued, hnew⟩ := misalignedAio_run
  exact hnew ((h _ s hreach hf).1 (by rw [hfreed]; decide) 0 hqueued)

end AioRun

end XdmaDriver
