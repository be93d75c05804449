import XdmaDriver.CompletionThreads

/-!
The assignment of engines to completion threads by `xdma_thread_add_work` and
`xdma_thread_remove_work`.
-/

namespace XdmaDriver

open Transition

namespace ThreadPool

/-- The loop of `xdma_thread_add_work` over the threads from `i` on. `v` is the load of the
first thread, and `idx` is `thread_cnt` until it is read. -/
def pickLoop (threadCnt : ℕ) : List XdmaKthread → ℕ → ℕ → ℕ → ℕ
  | [], _, _, idx => idx
  | thp :: rest, i, v, idx =>
    if idx = threadCnt then pickLoop threadCnt rest (i + 1) thp.workCnt i
    else if thp.workCnt = 0 then i
    else if thp.workCnt < v then pickLoop threadCnt rest (i + 1) v i
    else pickLoop threadCnt rest (i + 1) v idx

def pick (s : ThreadPool) : ℕ := pickLoop s.threadCnt s.threads 0 0 s.threadCnt

/-- `xdma_thread_add_work`; `none` where there is no thread to add to. -/
def xdmaThreadAddWork (s : ThreadPool) (engine : ℕ) : Option ThreadPool :=
  s.threads[s.pick]?.map fun thp =>
    { s with
      threads := s.threads.set s.pick { thp with workList := thp.workList ++ [engine], workCnt := thp.workCnt + 1 }
      intrWorkCpu := Function.update s.intrWorkCpu engine s.pick
      cmplthp := Function.update s.cmplthp engine (some s.pick) }

def xdmaThreadRemoveWork (s : ThreadPool) (engine : ℕ) : ThreadPool :=
  let pool := { s with cmplthp := Function.update s.cmplthp engine none }
  match s.cmplthp engine with
  | none => pool
  | some idx =>
    match s.threads[idx]? with
    | none => pool
    | some thp =>
      { pool with
        threads := s.threads.set idx { thp with workList := thp.workList.erase engine, workCnt := thp.workCnt - 1 } }

/-- `engine_init` and `engine_destroy`, which call these functions: an engine is cleared when it
is destroyed, and is initialised only when it is clear. -/
inductive WorkAct
  | add (engine : ℕ)
  | remove (engine : ℕ)
  deriving DecidableEq

def workStep (s : ThreadPool) : WorkAct → Option ThreadPool
  | .add engine => if s.cmplthp engine = none then s.xdmaThreadAddWork engine else none
  | .remove engine => some (s.xdmaThreadRemoveWork engine)

def Unassigned (s : ThreadPool) : Prop :=
  (∀ thp ∈ s.threads, thp.workCnt = 0 ∧ thp.workList = []) ∧ ∀ e, s.cmplthp e = none

def Least (s : ThreadPool) (idx : ℕ) : Prop := ∃ thp ∈ s.threads[idx]?, ∀ u ∈ s.threads,
    thp.workCnt ≤ u.workCnt

instance (s : ThreadPool) (idx : ℕ) : Decidable (s.Least idx) :=
  inferInstanceAs (Decidable (∃ thp ∈ s.threads[idx]?, ∀ u ∈ s.threads, thp.workCnt ≤ u.workCnt))

def lighter (loads : List ℕ) : List ℕ := loads.filter fun w => w < loads.headD 0

/-- Some thread is idle, or the last one with less work than the first has the least of all. -/
def LastIsLeast (s : ThreadPool) : Prop :=
  let loads := s.threads.map XdmaKthread.workCnt
  0 ∈ loads ∨ ∀ w ∈ (lighter loads).getLast?, ∀ u ∈ loads, w ≤ u

instance (s : ThreadPool) : Decidable s.LastIsLeast := inferInstanceAs (Decidable (_ ∨ _))

def Picked (v : ℕ) (rest : List XdmaKthread) (i r : ℕ) : Prop :=
  ∃ pre thp post, rest = pre ++ thp :: post ∧ r = i + pre.length ∧
    (thp.workCnt = 0 ∨ thp.workCnt < v ∧ (∀ u ∈ rest, u.workCnt ≠ 0) ∧ ∀ u ∈ post, v ≤ u.workCnt)

theorem Picked.cons {v i r : ℕ} {thp : XdmaKthread} {rest : List XdmaKthread} (h : Picked v rest (i + 1) r)
    (hbusy : thp.workCnt ≠ 0) : Picked v (thp :: rest) i r := by
  obtain ⟨pre, u, post, rfl, rfl, hu⟩ := h
  refine ⟨thp :: pre, u, post, rfl, ?_, hu.imp id ?_⟩
  · rw [List.length_cons]
    omega
  · rintro ⟨hv, hall, hpost⟩
    refine ⟨hv, ?_, hpost⟩
    intro x hx
    rcases List.mem_cons.mp hx with rfl | hx
    · exact hbusy
    · exact hall x hx

theorem pickLoop_rest {threadCnt v : ℕ} (rest : List XdmaKthread) : ∀ {i idx : ℕ}, idx < i →
    i + rest.length = threadCnt →
    (pickLoop threadCnt rest i v idx = idx ∧ ∀ u ∈ rest, u.workCnt ≠ 0 ∧ v ≤ u.workCnt) ∨
      Picked v rest i (pickLoop threadCnt rest i v idx) := by
  induction rest with
  | nil => exact fun _ _ => .inl ⟨rfl, by simp⟩
  | cons thp rest ih =>
    intro i idx hlt hlen
    rw [List.length_cons] at hlen
    have hidx : idx ≠ threadCnt := by omega
    rw [pickLoop, if_neg hidx]
    by_cases hidle : thp.workCnt = 0
    · rw [if_pos hidle]
      exact .inr ⟨[], thp, rest, rfl, rfl, .inl hidle⟩
    have hbusy : ∀ P : XdmaKthread → Prop, (∀ u ∈ rest, u.workCnt ≠ 0 ∧ P u) →
      ∀ u ∈ thp :: rest, u.workCnt ≠ 0 := by
      intro P hrest u hu
      rcases List.mem_cons.mp hu with rfl | hu
      · exact hidle
      · exact (hrest u hu).1
    rw [if_neg hidle]
    by_cases hless : thp.workCnt < v
    · rw [if_pos hless]
      rcases @ih (i + 1) i (Nat.lt_succ_self i) (by omega) with ⟨heq, hrest⟩ | hpicked
      · exact .inr ⟨[], thp, rest, rfl, heq, .inr ⟨hless, hbusy _ hrest, fun u hu => (hrest u hu).2⟩⟩
      · exact .inr (hpicked.cons hidle)
    · rw [if_neg hless]
      rcases @ih (i + 1) idx (by omega) (by omega) with ⟨heq, hrest⟩ | hpicked
      · refine .inl ⟨heq, ?_⟩
        intro u hu
        rcases List.mem_cons.mp hu with rfl | hu
        · exact ⟨hidle, not_lt.mp hless⟩
        · exact hrest u hu
      · exact .inr (hpicked.cons hidle)

theorem pick_spec {s : ThreadPool} (hne : s.threads ≠ []) : ∃ thp, s.threads[s.pick]? = some thp ∧
    (thp.workCnt = 0 ∨ lighter (s.threads.map XdmaKthread.workCnt) = [] ∧
      (∀ u ∈ s.threads, thp.workCnt ≤ u.workCnt) ∨
      (∀ u ∈ s.threads, u.workCnt ≠ 0) ∧
        (lighter (s.threads.map XdmaKthread.workCnt)).getLast? = some thp.workCnt) := by
  obtain ⟨first, rest, hthreads⟩ := List.exists_cons_of_ne_nil hne
  have hcnt : s.threadCnt = 1 + rest.length := by
    rw [threadCnt, hthreads, List.length_cons]
    omega
  have hpick : s.pick = pickLoop s.threadCnt rest 1 first.workCnt 0 := by
    rw [pick, hthreads, pickLoop, if_pos rfl]
  rw [hpick, hthreads, List.map_cons, lighter, List.headD_cons, List.filter_cons, if_neg (by simp)]
  rcases pickLoop_rest rest (Nat.one_pos) hcnt.symm with ⟨heq, hrest⟩ | ⟨pre, thp, post, hsplit, heq, hthp⟩
  · rw [heq]
    refine ⟨first, rfl, .inr (.inl ⟨?_, ?_⟩)⟩
    · rw [List.filter_eq_nil_iff]
      intro w hw
      obtain ⟨u, hu, rfl⟩ := List.mem_map.mp hw
      have := (hrest u hu).2
      simpa using this
    · intro u hu
      rcases List.mem_cons.mp hu with rfl | hu
      · exact le_refl _
      · exact (hrest u hu).2
  · rw [heq, Nat.add_comm, List.getElem?_cons_succ, hsplit]
    refine ⟨thp, by simp, hthp.imp id fun h => .inr ?_⟩
    obtain ⟨hless, hbusy, hpost⟩ := h
    have hlast : (post.map XdmaKthread.workCnt).filter (fun w => decide (w < first.workCnt)) = [] := by
      rw [List.filter_eq_nil_iff]
      intro w hw
      obtain ⟨u, hu, rfl⟩ := List.mem_map.mp hw
      simpa using hpost u hu
    refine ⟨?_, ?_⟩
    · intro u hu
      rcases List.mem_cons.mp hu with rfl | hu
      · omega
      · rw [hsplit] at hbusy
        exact hbusy u hu
    · rw [List.map_append, List.map_cons, List.filter_append, List.filter_cons,
        if_pos (by simpa using hless), hlast]
      simp

theorem least_pick_iff {s : ThreadPool} (hne : s.threads ≠ []) : s.Least s.pick ↔ s.LastIsLeast := by
  obtain ⟨thp, hget, hthp⟩ := pick_spec hne
  have hleast : s.Least s.pick ↔ ∀ u ∈ s.threads, thp.workCnt ≤ u.workCnt := by
    rw [Least, hget]
    simp
  have hloads : ∀ w, (∀ u ∈ s.threads.map XdmaKthread.workCnt, w ≤ u) ↔ ∀ u ∈ s.threads, w ≤
    u.workCnt := by simp
  rw [hleast, LastIsLeast]
  rcases hthp with hidle | ⟨hnone, hall⟩ | ⟨hbusy, hlast⟩
  · rw [hidle]
    refine iff_of_true (fun u _ => Nat.zero_le _) (.inl ?_)
    rw [← hidle]
    exact List.mem_map_of_mem (List.mem_of_getElem? hget)
  · refine iff_of_true hall (.inr ?_)
    rw [hnone]
    simp
  · have hzero : 0 ∉ s.threads.map XdmaKthread.workCnt := by
      intro h
      obtain ⟨u, hu, hidle⟩ := List.mem_map.mp h
      exact hbusy u hu hidle
    rw [or_iff_right hzero, hlast]
    simp only [Option.mem_def, Option.some.injEq, forall_eq', hloads]

structure Assigned (s : ThreadPool) : Prop where
  counts : ∀ thp ∈ s.threads, thp.workCnt = thp.workList.length
  nodup : ∀ thp ∈ s.threads, thp.workList.Nodup
  mem : ∀ i thp, s.threads[i]? = some thp → ∀ e, e ∈ thp.workList ↔ s.cmplthp e = some i

theorem Unassigned.assigned {s : ThreadPool} (h : s.Unassigned) : Assigned s where
  counts thp hthp := by rw [(h.1 thp hthp).1, (h.1 thp hthp).2, List.length_nil]
  nodup thp hthp := by
    rw [(h.1 thp hthp).2]
    exact List.nodup_nil
  mem i thp hthp e := by
    rw [(h.1 thp (List.mem_of_getElem? hthp)).2, h.2 e]
    simp

theorem Assigned.update {s : ThreadPool} (h : Assigned s) {idx : ℕ} {thp thp' : XdmaKthread}
    {e : ℕ} {now : Option ℕ}
    (hget : s.threads[idx]? = some thp) (hcnt : thp'.workCnt = thp'.workList.length)
      (hnd : thp'.workList.Nodup)
    (hmem : ∀ x, x ∈ thp'.workList ↔ Function.update s.cmplthp e now x = some idx)
    (hothers : ∀ i ≠ idx, s.cmplthp e ≠ some i ∧ now ≠ some i) :
    Assigned { s with threads := s.threads.set idx thp', cmplthp := Function.update s.cmplthp e now } where
  counts u hu := by
    rcases List.mem_or_eq_of_mem_set hu with hu | rfl
    · exact h.counts u hu
    · exact hcnt
  nodup u hu := by
    rcases List.mem_or_eq_of_mem_set hu with hu | rfl
    · exact h.nodup u hu
    · exact hnd
  mem i u hu x := by
    change (s.threads.set idx thp')[i]? = some u at hu
    by_cases hi : i = idx
    · subst hi
      obtain ⟨hlt, -⟩ := List.getElem?_eq_some_iff.mp hget
      rw [List.getElem?_set_self hlt] at hu
      obtain rfl := Option.some.inj hu
      exact hmem x
    · rw [List.getElem?_set_ne (Ne.symm hi)] at hu
      refine (h.mem i u hu x).trans ?_
      change s.cmplthp x = some i ↔ Function.update s.cmplthp e now x = some i
      by_cases hx : x = e
      · subst hx
        rw [Function.update_self]
        exact iff_of_false (hothers i hi).1 (hothers i hi).2
      · rw [Function.update_of_ne hx]

theorem Assigned.add {s s' : ThreadPool} {e : ℕ} (h : Assigned s) (hclear : s.cmplthp e = none)
    (hadd : s.xdmaThreadAddWork e = some s') : Assigned s' := by
  obtain ⟨thp, hget, rfl⟩ := Option.map_eq_some_iff.mp hadd
  have hthp := List.mem_of_getElem? hget
  have hnew : e ∉ thp.workList := by
    rw [h.mem _ _ hget, hclear]
    simp
  have hupd := @Assigned.update s h s.pick thp
    { thp with workList := thp.workList ++ [e], workCnt := thp.workCnt + 1 } e (some s.pick) hget ?_ ?_ ?_ ?_
  · exact ⟨hupd.counts, hupd.nodup, hupd.mem⟩
  · rw [List.length_append, List.length_singleton, h.counts thp hthp]
  · rw [List.nodup_append]
    refine ⟨h.nodup thp hthp, List.nodup_singleton e, ?_⟩
    rintro x hx y hy rfl
    exact hnew (List.mem_singleton.mp hy ▸ hx)
  · intro x
    by_cases hx : x = e
    · subst hx
      simp
    · rw [Function.update_of_ne hx, List.mem_append, List.mem_singleton, or_iff_left hx]
      exact h.mem _ _ hget x
  · intro i hi
    rw [hclear]
    simp [Ne.symm hi]

theorem Assigned.remove {s : ThreadPool} (h : Assigned s) (e : ℕ) : Assigned (s.xdmaThreadRemoveWork e) := by
  unfold xdmaThreadRemoveWork
  cases hidx : s.cmplthp e with
  | none =>
    dsimp only
    rw [← hidx, Function.update_eq_self]
    exact h
  | some idx =>
    dsimp only
    cases hget : s.threads[idx]? with
    | none =>
      refine ⟨h.counts, h.nodup, ?_⟩
      intro i thp hthp x
      refine (h.mem i thp hthp x).trans ?_
      change s.cmplthp x = some i ↔ Function.update s.cmplthp e none x = some i
      by_cases hx : x = e
      · subst hx
        rw [Function.update_self, hidx, Option.some.injEq]
        refine iff_of_false ?_ (by simp)
        rintro rfl
        rw [hget] at hthp
        cases hthp
      · rw [Function.update_of_ne hx]
    | some thp =>
      have hthp := List.mem_of_getElem? hget
      have hmem : e ∈ thp.workList := (h.mem _ _ hget e).mpr hidx
      apply h.update hget
      · rw [List.length_erase_of_mem hmem, h.counts thp hthp]
      · exact (h.nodup thp hthp).erase e
      · intro x
        by_cases hx : x = e
        · subst hx
          rw [Function.update_self]
          exact iff_of_false (h.nodup thp hthp).not_mem_erase (by simp)
        · rw [Function.update_of_ne hx, List.mem_erase_of_ne hx]
          exact h.mem _ _ hget x
      · intro i hi
        rw [hidx]
        simp [Ne.symm hi]

theorem Assigned.reachable {s : ThreadPool} (h : Reachable workStep Unassigned (fun _ _ => True) s) : Assigned s := by
  refine h.invariant (fun s hs => hs.assigned) ?_
  intro s a s' hs _ hstep
  cases a with
  | add e =>
    obtain ⟨hclear, hadd⟩ := Option.ite_none_right_eq_some.mp hstep
    exact hs.add hclear hadd
  | remove e =>
    obtain rfl := Option.some.inj hstep
    exact hs.remove e

/-- In every state that adding and removing engines leads to, the counts are the lengths of the
lists, and an engine goes to a least loaded thread exactly if an idle one or the last with less
work than the first is one. -/
theorem thread_loads_iff {s : ThreadPool} (h : Reachable workStep Unassigned (fun _ _ => True) s) :
    (∀ thp ∈ s.threads, thp.workCnt = thp.workList.length) ∧
      ∀ e s', s.workStep (.add e) = some s' → ∃ idx thp, s'.threads[idx]? = some thp ∧ e ∈ thp.workList ∧
        s'.cmplthp e = some idx ∧ (s.Least idx ↔ s.LastIsLeast) := by
  have hs := Assigned.reachable h
  refine ⟨hs.counts, ?_⟩
  intro e s' hstep
  obtain ⟨hclear, hadd⟩ := Option.ite_none_right_eq_some.mp hstep
  have hs' := hs.add hclear hadd
  obtain ⟨thp, hget, rfl⟩ := Option.map_eq_some_iff.mp hadd
  obtain ⟨hlt, -⟩ := List.getElem?_eq_some_iff.mp hget
  have hnew := List.getElem?_set_self
    (a := { thp with workList := thp.workList ++ [e], workCnt := thp.workCnt + 1 }) hlt
  refine ⟨s.pick, _, hnew, by simp, Function.update_self .., least_pick_iff ?_⟩
  exact List.ne_nil_of_length_pos (Nat.zero_lt_of_lt hlt)

def unevenLoads : List WorkAct :=
  [.add 0, .add 1, .add 2, .add 3, .add 4, .add 5, .add 6, .remove 0]

def threeThreads : ThreadPool := { threads := List.replicate 3 {} }

theorem threeThreads_unassigned : threeThreads.Unassigned := by
  refine ⟨?_, fun _ => rfl⟩
  intro thp hthp
  rw [List.eq_of_mem_replicate hthp]
  exact ⟨rfl, rfl⟩

theorem thread_loads_iff_uneven : ∃ s s' idx, Reachable workStep Unassigned (fun _ _ => True) s ∧
    s.threads.map XdmaKthread.workCnt = [2, 1, 1] ∧ s.workStep (.add 7) = some s' ∧ s'.cmplthp 7 = some idx ∧
      s.Least idx := by
  have hrun : (run workStep (fun _ _ => True) threeThreads [.add 0, .add 1, .add 2, .add 3]).map
      (fun s => (s.threads.map XdmaKthread.workCnt, (s.workStep (.add 7)).isSome, decide s.LastIsLeast)) =
        some ([2, 1, 1], true, true) := by decide
  obtain ⟨s, hreach, hs⟩ := exists_reachable threeThreads_unassigned hrun
  rw [Prod.mk.injEq, Prod.mk.injEq] at hs
  obtain ⟨hloads, hadd, hlast⟩ := hs
  obtain ⟨s', hs'⟩ := Option.isSome_iff_exists.mp hadd
  obtain ⟨idx, -, -, -, hidx, hiff⟩ := (thread_loads_iff hreach).2 7 s' hs'
  exact ⟨s, s', idx, hreach, hloads, hs', hidx, hiff.mpr (of_decide_eq_true hlast)⟩

theorem add_not_least : ¬ ∀ s : ThreadPool, Reachable workStep Unassigned (fun _ _ => True) s →
    ∀ e s', s.workStep (.add e) = some s' → ∃ idx, s'.cmplthp e = some idx ∧ s.Least idx := by
  intro h
  have hrun : (run workStep (fun _ _ => True) threeThreads unevenLoads).map
      (fun s => ((s.workStep (.add 7)).map fun s' => s'.cmplthp 7, decide (s.Least 2))) =
        some (some (some 2), false) := by decide
  obtain ⟨s, hreach, hs⟩ := exists_reachable threeThreads_unassigned hrun
  rw [Prod.mk.injEq] at hs
  obtain ⟨s', hs', hidx⟩ := Option.map_eq_some_iff.mp hs.1
  obtain ⟨idx, hthread, hmin⟩ := h s hreach 7 s' hs'
  rw [hidx] at hthread
  obtain rfl := Option.some.inj hthread
  exact of_decide_eq_false hs.2 hmin

end ThreadPool

end XdmaDriver
