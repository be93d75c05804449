import XdmaDriver.Types
import XdmaDriver.Lib.Transition
import Mathlib.Data.List.Nodup
import Mathlib.Data.Finset.Attr
import Mathlib.Logic.Function.Basic

/-!
The completion threads of polled mode: how `xdma_threads_create` starts them and
`xdma_threads_destroy` stops them, and the engines assigned to them.
-/

namespace XdmaDriver

open Transition

/-- `struct xdma_kthread`. An engine on the work list stands for itself. -/
structure XdmaKthread where
  cpu : ℕ := 0
  id : ℕ := 0
  timeout : ℕ := 0
  task : Bool := false
  schedule : Bool := false
  workCnt : ℕ := 0
  workList : List ℕ := []
  fproc : Bool := false
  fpending : Bool := false
  deriving DecidableEq, Repr

structure KthreadTask where
  array : ℕ
  index : ℕ
  deriving DecidableEq, Repr

/-- The array `cs_threads` and its first `thread_cnt` structures, the arrays allocated and not
freed, the tasks that run, and for each engine `cmplthp` and `intr_work_cpu`. -/
structure ThreadPool where
  csThreads : Option ℕ := none
  threads : List XdmaKthread := []
  live : List ℕ := []
  next : ℕ := 0
  tasks : List KthreadTask := []
  cmplthp : ℕ → Option ℕ := fun _ => none
  intrWorkCpu : ℕ → ℕ := fun _ => 0

/-- How far `xdma_kthread_start` comes: an error of `snprintf`, or of the creation of the task. -/
inductive KthreadStart
  | started
  | name
  | create
  deriving DecidableEq, Repr

def xdmaKthreadStart (thp : XdmaKthread) (id : ℕ) (r : KthreadStart) : XdmaKthread × ℤ :=
  if thp.task then (thp, err .inval)
  else
    match r with
    | .name => (thp, err .inval)
    | .create => ({ thp with id := id, workList := [], task := false }, err .fault)
    | .started => ({ thp with id := id, workList := [], task := true }, 0)

namespace ThreadPool

def threadCnt (s : ThreadPool) : ℕ := s.threads.length

def cleanup (s : ThreadPool) (array : ℕ) : ThreadPool :=
  { s with csThreads := none, threads := [], live := s.live.erase array }

def addThread (s : ThreadPool) (array : ℕ) (thp : XdmaKthread) : ThreadPool :=
  { s with threads := s.threads ++ [thp], tasks := s.tasks ++ [⟨array, s.threadCnt⟩] }

def createLoop (numThreads : ℕ) (start : ℕ → KthreadStart) (array : ℕ) : List ℕ → ThreadPool → ThreadPool × ℤ
  | [], s => (s, 0)
  | cpu :: cpus, s =>
    let thp : XdmaKthread := { cpu := cpu, timeout := 0, fproc := true, fpending := true }
    let (thp, rv) := xdmaKthreadStart thp s.threadCnt (start s.threadCnt)
    if rv < 0 then (s.cleanup array, rv)
    else
      let s := s.addThread array thp
      if s.threadCnt = numThreads then (s, 0) else createLoop numThreads start array cpus s

/-- `xdma_threads_create`, with the result of `kzalloc` and of each start. Its caller asks for two
threads at least; for none the block would have no element, and the array here has no bound. -/
def xdmaThreadsCreate (numThreads : ℕ) (cpus : List ℕ) (alloc : Bool) (start : ℕ → KthreadStart)
    (s : ThreadPool) :
    ThreadPool × ℤ :=
  if s.threadCnt ≠ 0 then (s, 0)
  else if alloc = false then ({ s with csThreads := none }, err .noMem)
  else
    createLoop numThreads start s.next cpus
      { s with csThreads := some s.next, live := s.next :: s.live, next := s.next + 1 }

/-- `xdma_kthread_stop` on the structure `i`, with the result of `kthread_stop`, which waits
for the end of the task. -/
def xdmaKthreadStop (array i : ℕ) (rv : ℤ) (s : ThreadPool) : ThreadPool :=
  match s.threads[i]? with
  | none => s
  | some thp =>
    if thp.task = false then s
    else
      { s with
        threads := s.threads.set i { thp with schedule := true, task := decide (rv < 0) }
        tasks := s.tasks.erase ⟨array, i⟩ }

def destroyLoop (array : ℕ) (rv : ℕ → ℤ) (s : ThreadPool) (i : ℕ) : ThreadPool :=
  if (s.threads.getD i {}).fproc then s.xdmaKthreadStop array i (rv i) else s

/-- `xdma_threads_destroy`, with the results of `kthread_stop`. -/
def xdmaThreadsDestroy (rv : ℕ → ℤ) (s : ThreadPool) : ThreadPool :=
  match s.csThreads with
  | none => s
  | some array =>
    if s.threadCnt = 0 then s else ((List.range s.threadCnt).foldl (destroyLoop array rv) s).cleanup array

/-- What a pool in use is: every task runs on a structure of the array, and every structure
has its task. -/
structure Sound (s : ThreadPool) : Prop where
  fresh : ∀ a ∈ s.live, a < s.next
  live : ∀ a ∈ s.csThreads, a ∈ s.live
  tasks : ∀ a ∈ s.csThreads, s.tasks = (List.range s.threadCnt).map (KthreadTask.mk a)
  closed : s.csThreads = none → s.threads = [] ∧ s.tasks = []
  started : ∀ thp ∈ s.threads, thp.fproc = true ∧ thp.task = true

def AllOrNothing (s : ThreadPool) : Prop := (∀ t ∈ s.tasks, t.array ∈ s.live) ∧
    s.csThreads = none ∧ s.threads = []

def Reached (numThreads : ℕ) (cpus : List ℕ) (i : ℕ) : Prop := i < cpus.length ∧
    (numThreads = 0 ∨ i < numThreads)

section

variable {numThreads : ℕ} {start : ℕ → KthreadStart} {array cpu : ℕ} {cpus : List ℕ} {s : ThreadPool}

theorem createLoop_failed (numThreads array cpu : ℕ) (cpus : List ℕ) (h : start s.threadCnt ≠ .started) :
    (createLoop numThreads start array (cpu :: cpus) s).1 = s.cleanup array ∧
      (createLoop numThreads start array (cpu :: cpus) s).2 < 0 := by
  rw [createLoop]
  cases hr : start s.threadCnt with
  | started => exact absurd hr h
  | name => exact ⟨rfl, err_neg _⟩
  | create => exact ⟨rfl, err_neg _⟩

theorem createLoop_started (numThreads array cpu : ℕ) (cpus : List ℕ) (h : start s.threadCnt = .started) :
    ∃ thp : XdmaKthread, thp.fproc = true ∧ thp.task = true ∧ thp.workCnt = 0 ∧ thp.workList = [] ∧
      createLoop numThreads start array (cpu :: cpus) s =
        if (s.addThread array thp).threadCnt = numThreads then (s.addThread array thp, 0)
        else createLoop numThreads start array cpus (s.addThread array thp) := by
  rw [createLoop, h]
  exact ⟨_, rfl, rfl, rfl, rfl, rfl⟩

theorem threadCnt_addThread (thp : XdmaKthread) : (s.addThread array thp).threadCnt = s.threadCnt + 1 := by
  rw [threadCnt, addThread, List.length_append, List.length_singleton]
  rfl

theorem Sound.addThread (h : Sound s) (harray : s.csThreads = some array) {thp : XdmaKthread}
    (hproc : thp.fproc = true) (htask : thp.task = true) : Sound (s.addThread array thp) where
  fresh := h.fresh
  live := h.live
  tasks a ha := by
    obtain rfl : array = a := Option.some.inj (harray.symm.trans ha)
    rw [threadCnt_addThread, List.range_succ, List.map_append, ← h.tasks array harray]
    rfl
  closed hnone := by
    cases harray.symm.trans hnone
  started u hu := by
    rcases List.mem_append.mp hu with hu | hu
    · exact h.started u hu
    · rw [List.mem_singleton.mp hu]
      exact ⟨hproc, htask⟩

theorem createLoop_sound (cpus : List ℕ) : ∀ {s : ThreadPool}, Sound s → s.csThreads = some array →
    (∀ j < cpus.length, numThreads = 0 ∨ s.threadCnt + j < numThreads → start (s.threadCnt + j) = .started) →
    (numThreads = 0 ∨ s.threadCnt < numThreads) →
      (createLoop numThreads start array cpus s).2 = 0 ∧
        Sound (createLoop numThreads start array cpus s).1 := by
  induction cpus with
  | nil => exact fun h _ _ _ => ⟨rfl, h⟩
  | cons cpu cpus ih =>
    intro s h harray hall hroom
    obtain ⟨thp, hproc, htask, -, -, heq⟩ := createLoop_started numThreads array cpu cpus
      (hall 0 (Nat.succ_pos _) hroom)
    have hnext := h.addThread harray hproc htask
    rw [heq]
    split_ifs with hlast
    · exact ⟨rfl, hnext⟩
    · rw [threadCnt_addThread] at hlast
      apply ih hnext harray
      · intro j hj hlt
        rw [threadCnt_addThread] at hlt ⊢
        rw [Nat.add_right_comm, Nat.add_assoc] at hlt ⊢
        exact hall (j + 1) (Nat.succ_lt_succ hj) hlt
      · rw [threadCnt_addThread]
        omega

theorem createLoop_cleanup (cpus : List ℕ) : ∀ {s : ThreadPool}, (numThreads = 0 ∨ s.threadCnt < numThreads) →
    (∃ j < cpus.length, (numThreads = 0 ∨ s.threadCnt + j < numThreads) ∧
      start (s.threadCnt + j) ≠ .started) →
      (createLoop numThreads start array cpus s).2 < 0 ∧
        (createLoop numThreads start array cpus s).1.live = s.live.erase array ∧
        ∀ t ∈ s.tasks, t ∈ (createLoop numThreads start array cpus s).1.tasks := by
  induction cpus with
  | nil =>
    rintro s - ⟨j, hj, -⟩
    exact absurd hj (Nat.not_lt_zero j)
  | cons cpu cpus ih =>
    rintro s hroom ⟨j, hj, hlt, hfail⟩
    by_cases hs : start s.threadCnt = .started
    · obtain ⟨thp, -, -, -, -, heq⟩ := createLoop_started numThreads array cpu cpus hs
      obtain ⟨k, rfl⟩ : ∃ k, j = k + 1 := by
        cases j with
        | zero => exact absurd hs hfail
        | succ k => exact ⟨k, rfl⟩
      rw [List.length_cons] at hj
      have hcnt : (s.addThread array thp).threadCnt = s.threadCnt + 1 := threadCnt_addThread thp
      have hmore : (s.addThread array thp).threadCnt ≠ numThreads := by omega
      have hlater : ∃ j < cpus.length, (numThreads = 0 ∨ (s.addThread array thp).threadCnt + j < numThreads) ∧
          start ((s.addThread array thp).threadCnt + j) ≠ .started := by
        refine ⟨k, by omega, by omega, ?_⟩
        rwa [hcnt, show s.threadCnt + 1 + k = s.threadCnt + (k + 1) by omega]
      obtain ⟨hrv, hlive, htasks⟩ := ih (by omega) hlater
      rw [heq, if_neg hmore]
      refine ⟨hrv, hlive, ?_⟩
      intro t ht
      exact htasks t (List.mem_append_left _ ht)
    · obtain ⟨heq, hrv⟩ := createLoop_failed numThreads array cpu cpus hs
      rw [heq]
      exact ⟨hrv, rfl, fun t ht => ht⟩

theorem Sound.no_tasks (h : Sound s) (hcnt : s.threadCnt = 0) : s.tasks = [] := by
  cases harray : s.csThreads with
  | none => exact (h.closed harray).2
  | some a => rw [h.tasks a harray, hcnt, List.range_zero, List.map_nil]

theorem Sound.alloc (h : Sound s) (hcnt : s.threadCnt = 0) :
    Sound { s with csThreads := some s.next, live := s.next :: s.live, next := s.next + 1 } where
  fresh a ha := by
    rcases List.mem_cons.mp ha with rfl | ha
    · exact Nat.lt_succ_self _
    · exact (h.fresh a ha).trans (Nat.lt_succ_self _)
  live a ha := by
    obtain rfl := Option.some.inj ha
    exact List.mem_cons_self
  tasks a _ := by
    change s.tasks = (List.range s.threadCnt).map (KthreadTask.mk a)
    rw [h.no_tasks hcnt, hcnt, List.range_zero, List.map_nil]
  closed hnone := by cases hnone
  started thp hthp := h.started thp hthp

theorem Sound.cleanup (h : Sound s) (htasks : s.tasks = []) (array : ℕ) : Sound (s.cleanup array) where
  fresh a ha := h.fresh a (List.mem_of_mem_erase ha)
  live a ha := by cases ha
  tasks a ha := by cases ha
  closed _ := ⟨rfl, htasks⟩
  started thp hthp := by cases hthp

end

theorem foldl_destroyLoop (array : ℕ) (rv : ℕ → ℤ) (m : ℕ) : ∀ {i : ℕ} {s : ThreadPool},
    (∀ k, i ≤ k → k < i + m → ∃ thp, s.threads[k]? = some thp ∧ thp.fproc = true ∧ thp.task = true) →
    s.tasks = (List.range' i m).map (KthreadTask.mk array) →
      ((List.range' i m).foldl (destroyLoop array rv) s).tasks = [] ∧
        ((List.range' i m).foldl (destroyLoop array rv) s).live = s.live ∧
        ((List.range' i m).foldl (destroyLoop array rv) s).next = s.next := by
  induction m with
  | zero => exact fun _ htasks => ⟨htasks, rfl, rfl⟩
  | succ m ih =>
    intro i s hrun htasks
    obtain ⟨thp, hthp, hproc, htask⟩ := hrun i (le_refl i) (by omega)
    have hget : (s.threads.getD i {}).fproc = true := by
      rw [List.getD_eq_getElem?_getD, hthp]
      exact hproc
    have hstop : destroyLoop array rv s i =
        { s with
          threads := s.threads.set i { thp with schedule := true, task := decide (rv i < 0) }
          tasks := s.tasks.erase ⟨array, i⟩ } := by
      rw [destroyLoop, if_pos hget, xdmaKthreadStop, hthp]
      simp [htask]
    rw [List.range'_succ, List.map_cons] at htasks
    rw [List.range'_succ, List.foldl_cons, hstop]
    apply ih
    · intro k hk hlt
      obtain ⟨u, hu, hused⟩ := hrun k (by omega) (by omega)
      refine ⟨u, ?_, hused⟩
      change (s.threads.set i _)[k]? = some u
      rwa [List.getElem?_set_ne (by omega)]
    · change s.tasks.erase ⟨array, i⟩ = _
      rw [htasks, List.erase_cons_head]

theorem Sound.destroy {s : ThreadPool} (h : Sound s) (rv : ℕ → ℤ) : Sound (s.xdmaThreadsDestroy rv) := by
  unfold xdmaThreadsDestroy
  cases harray : s.csThreads with
  | none => exact h
  | some array =>
    dsimp only
    split_ifs with hcnt
    · exact h
    · have hrun : ∀ k, 0 ≤ k → k < 0 + s.threadCnt →
          ∃ thp, s.threads[k]? = some thp ∧ thp.fproc = true ∧ thp.task = true := by
        intro k _ hk
        rw [Nat.zero_add] at hk
        exact ⟨s.threads[k], List.getElem?_eq_getElem hk, h.started _ (List.getElem_mem hk)⟩
      have htasks := h.tasks array harray
      rw [List.range_eq_range'] at htasks ⊢
      obtain ⟨hnone, hlive, hnext⟩ := foldl_destroyLoop array rv s.threadCnt hrun htasks
      constructor
      · intro a ha
        change a < ((List.range' 0 s.threadCnt).foldl (destroyLoop array rv) s).next
        rw [hnext]
        change a ∈ (((List.range' 0 s.threadCnt).foldl (destroyLoop array rv) s).live).erase array at ha
        rw [hlive] at ha
        exact h.fresh a (List.mem_of_mem_erase ha)
      · intro a ha
        cases ha
      · intro a ha
        cases ha
      · exact fun _ => ⟨rfl, hnone⟩
      · intro thp hthp
        cases hthp

inductive PoolAct
  | create (numThreads : ℕ) (cpus : List ℕ) (alloc : Bool) (start : ℕ → KthreadStart)
  | destroy (rv : ℕ → ℤ)

def step (s : ThreadPool) : PoolAct → Option ThreadPool
  | .create numThreads cpus alloc start => some (s.xdmaThreadsCreate numThreads cpus alloc start).1
  | .destroy rv => some (s.xdmaThreadsDestroy rv)

/-- No start is the first to fail after another one has succeeded. -/
def StartsTogether (s : ThreadPool) : PoolAct → Prop
  | .create numThreads cpus alloc start => s.threadCnt ≠ 0 ∨ alloc = false ∨
      ((∃ i, Reached numThreads cpus i ∧ start i ≠ .started) → start 0 ≠ .started)
  | .destroy _ => True

section

variable {numThreads : ℕ} {cpus : List ℕ} {alloc : Bool} {start : ℕ → KthreadStart} {s : ThreadPool}

theorem Sound.create (h : Sound s) (hok : s.StartsTogether (.create numThreads cpus alloc start)) :
    Sound (s.xdmaThreadsCreate numThreads cpus alloc start).1 ∧
      ((s.xdmaThreadsCreate numThreads cpus alloc start).2 < 0 →
        AllOrNothing (s.xdmaThreadsCreate numThreads cpus alloc start).1) := by
  unfold xdmaThreadsCreate
  split_ifs with hcnt halloc
  · exact ⟨h, fun hrv => absurd hrv (lt_irrefl 0)⟩
  · rw [not_not] at hcnt
    have hthreads : s.threads = [] := List.eq_nil_of_length_eq_zero hcnt
    have hnone := h.no_tasks hcnt
    refine ⟨⟨h.fresh, ?_, ?_, fun _ => ⟨hthreads, hnone⟩, h.started⟩, fun _ => ⟨?_, rfl, hthreads⟩⟩
    · intro a ha
      cases ha
    · intro a ha
      cases ha
    · intro t ht
      rw [hnone] at ht
      cases ht
  · rw [not_not] at hcnt
    have hstarts := (hok.resolve_left (not_not.mpr hcnt)).resolve_left halloc
    have hsound := h.alloc hcnt
    have htasks := h.no_tasks hcnt
    generalize hs :
      ({ s with csThreads := some s.next, live := s.next :: s.live, next := s.next + 1 } : ThreadPool) = s₀
      at *
    have hcnt₀ : s₀.threadCnt = 0 := by
      rw [← hs]
      exact hcnt
    have htasks₀ : s₀.tasks = [] := by
      rw [← hs]
      exact htasks
    by_cases hall : ∃ i, Reached numThreads cpus i ∧ start i ≠ .started
    · -- then the first one fails, before any task runs
      have hstart := hstarts hall
      obtain ⟨i, ⟨hi, -⟩, -⟩ := hall
      have hfirst : start s₀.threadCnt ≠ .started := by
        rwa [hcnt₀]
      obtain ⟨cpu, rest, rfl⟩ := List.exists_cons_of_length_pos (Nat.zero_lt_of_lt hi)
      obtain ⟨heq, -⟩ := createLoop_failed numThreads s.next cpu rest hfirst
      rw [heq]
      refine ⟨hsound.cleanup htasks₀ s.next, fun _ => ⟨?_, rfl, rfl⟩⟩
      intro t ht
      change t ∈ s₀.tasks at ht
      rw [htasks₀] at ht
      cases ht
    · have hloop := @createLoop_sound numThreads start s.next cpus s₀ hsound
        (by rw [← hs]) (fun j hj hlt => ?_) (by rw [hcnt₀]; omega)
      · rw [hloop.1]
        exact ⟨hloop.2, fun hrv => absurd hrv (lt_irrefl 0)⟩
      · by_contra hfail
        rw [hcnt₀, Nat.zero_add] at hlt hfail
        exact hall ⟨j, ⟨hj, hlt⟩, hfail⟩

theorem Sound.not_allOrNothing (h : Sound s) (hok : ¬ s.StartsTogether (.create numThreads cpus alloc start)) :
    (s.xdmaThreadsCreate numThreads cpus alloc start).2 < 0 ∧
      ¬ AllOrNothing (s.xdmaThreadsCreate numThreads cpus alloc start).1 := by
  simp only [StartsTogether, not_or, not_not, Classical.not_imp] at hok
  obtain ⟨hcnt, halloc, ⟨i, ⟨hi, hlt⟩, hfail⟩, hfirst⟩ := hok
  unfold xdmaThreadsCreate
  rw [if_neg (not_not.mpr hcnt), if_neg halloc]
  have hfresh : s.next ∉ s.live := fun hmem => lt_irrefl _ (h.fresh _ hmem)
  have hlive : (s.next :: s.live).erase s.next = s.live := List.erase_cons_head ..
  generalize hs : ({ s with csThreads := some s.next, live := s.next :: s.live, next := s.next + 1 } : ThreadPool) = s₀
  have hcnt₀ : s₀.threadCnt = 0 := by
    rw [← hs]
    exact hcnt
  have hlive₀ : s₀.live = s.next :: s.live := by rw [← hs]
  obtain ⟨cpu, rest, rfl⟩ := List.exists_cons_of_length_pos (Nat.zero_lt_of_lt hi)
  obtain ⟨thp, -, -, -, -, heq⟩ := createLoop_started numThreads s.next cpu rest
    (show start s₀.threadCnt = .started by rw [hcnt₀]; exact hfirst)
  obtain ⟨k, rfl⟩ : ∃ k, i = k + 1 := by
    cases i with
    | zero => exact absurd hfirst hfail
    | succ k => exact ⟨k, rfl⟩
  have hone : (s₀.addThread s.next thp).threadCnt = 1 := by rw [threadCnt_addThread, hcnt₀]
  have hmore : (s₀.addThread s.next thp).threadCnt ≠ numThreads := by omega
  rw [List.length_cons] at hi
  have hlater : ∃ j < rest.length, (numThreads = 0 ∨ (s₀.addThread s.next thp).threadCnt + j < numThreads) ∧
      start ((s₀.addThread s.next thp).threadCnt + j) ≠ .started := by
    refine ⟨k, by omega, by omega, ?_⟩
    rwa [hone, Nat.add_comm]
  obtain ⟨hrv, hlive', htasks⟩ :=
    @createLoop_cleanup numThreads start s.next rest (s₀.addThread s.next thp) (by omega) hlater
  rw [heq, if_neg hmore]
  refine ⟨hrv, fun hall => hfresh ?_⟩
  have hmem := hall.1 ⟨s.next, 0⟩ (htasks _ (by simp [ThreadPool.addThread, hcnt₀]))
  rw [hlive', ThreadPool.addThread, hlive₀, hlive] at hmem
  exact hmem

end

theorem Sound.reachable {s : ThreadPool} (h : Reachable step (· = {}) StartsTogether s) : Sound s := by
  refine h.invariant ?_ ?_
  · rintro s rfl
    exact ⟨by simp, by simp, by simp, fun _ => ⟨rfl, rfl⟩, by simp⟩
  · intro s a s' hs hok hstep
    cases a with
    | create numThreads cpus alloc start =>
      obtain rfl := Option.some.inj hstep
      exact (hs.create hok).1
    | destroy rv =>
      obtain rfl := Option.some.inj hstep
      exact hs.destroy rv

/-- A create that fails leaves nothing behind exactly if it fails before a thread runs: at the
allocation or at the first start. -/
theorem create_allOrNothing_iff {s : ThreadPool}
    (h : Reachable step (· = {}) StartsTogether s) (numThreads : ℕ)
    (cpus : List ℕ) (alloc : Bool) (start : ℕ → KthreadStart) :
    ((s.xdmaThreadsCreate numThreads cpus alloc start).2 < 0 →
      AllOrNothing (s.xdmaThreadsCreate numThreads cpus alloc start).1) ↔
        s.StartsTogether (.create numThreads cpus alloc start) := by
  have hs := Sound.reachable h
  constructor
  · intro hall
    by_contra hok
    obtain ⟨hrv, hnot⟩ := hs.not_allOrNothing hok
    exact hnot (hall hrv)
  · exact fun hok => (hs.create hok).2

theorem create_allOrNothing_first :
    AllOrNothing (({} : ThreadPool).xdmaThreadsCreate 2 [0, 1] true fun _ => .create).1 :=
  (create_allOrNothing_iff (.init rfl) 2 [0, 1] true fun _ => .create).mpr
    (.inr (.inr fun _ => by decide)) (by decide)

/-- The second of two threads does not start. -/
theorem create_leaves_task : ¬ ∀ s : ThreadPool, Reachable step (· = {}) (fun _ _ => True) s →
    ∀ (numThreads : ℕ) (cpus : List ℕ) (alloc : Bool) (start : ℕ → KthreadStart),
      (s.xdmaThreadsCreate numThreads cpus alloc start).2 < 0 →
        AllOrNothing (s.xdmaThreadsCreate numThreads cpus alloc start).1 := by
  intro h
  have hbad := h {} (.init rfl) 2 [0, 1] true (fun i => if i = 0 then .started else .create) (by decide)
  exact absurd hbad.1 (by decide)

end ThreadPool

end XdmaDriver
