import XdmaDriver.CharDevices
import XdmaDriver.CompletionThreads
import XdmaDriver.IrqLines
import Mathlib.Data.List.TakeWhile

/-!
The devices on `xdev_list`, the completion threads they share in polled mode, and the names and
numbers of their character devices.
-/

namespace XdmaDriver

open Transition

def intDigits : ℤ → List Char
  | .ofNat n => Nat.toDigits 10 n
  | .negSucc n => '-' :: Nat.toDigits 10 (n + 1)

/-- `printf` with `%d` as its only conversion. -/
def printfDec : List Char → List ℤ → List Char
  | '%' :: 'd' :: fmt, a :: args => intDigits a ++ printfDec fmt args
  | c :: fmt, args => c :: printfDec fmt args
  | [], _ => []

def devnodeNames : CdevType → String
  | .user => "xdma%d_user"
  | .ctrl => "xdma%d_control"
  | .xvc => "xdma%d_xvc"
  | .events => "xdma%d_events_%d"
  | .xdmaH2c => "xdma%d_h2c_%d"
  | .xdmaC2h => "xdma%d_c2h_%d"
  | .bypassH2c => "xdma%d_bypass_h2c_%d"
  | .bypassC2h => "xdma%d_bypass_c2h_%d"
  | .bypass => "xdma%d_bypass"

namespace CdevNode

/-- The name of a character device, of the device with the index `idx`. -/
def name (idx : U32) (n : CdevNode) : List Char := printfDec (devnodeNames n.type).toList [idx.toInt, n.param]

def minor (n : CdevNode) : ℕ :=
  match n.type with
  | .user => 0
  | .ctrl => 1
  | .xvc => 2
  | .xdmaH2c => 32 + n.param
  | .xdmaC2h => 36 + n.param
  | .events => 10 + n.param
  | .bypassH2c => 64 + n.param
  | .bypassC2h => 68 + n.param
  | .bypass => 100

end CdevNode

def CdevNode.rest (n : CdevNode) : List Char :=
  match n.type with
  | .user => "user".toList
  | .ctrl => "control".toList
  | .xvc => "xvc".toList
  | .events => "events_".toList ++ Nat.toDigits 10 n.param
  | .xdmaH2c => "h2c_".toList ++ Nat.toDigits 10 n.param
  | .xdmaC2h => "c2h_".toList ++ Nat.toDigits 10 n.param
  | .bypassH2c => "bypass_h2c_".toList ++ Nat.toDigits 10 n.param
  | .bypassC2h => "bypass_c2h_".toList ++ Nat.toDigits 10 n.param
  | .bypass => "bypass".toList

theorem name_eq (idx : U32) (n : CdevNode) :
    n.name idx = "xdma".toList ++ (intDigits idx.toInt ++ '_' :: n.rest) := by
  obtain ⟨type, param⟩ := n
  cases type <;> simp [CdevNode.name, CdevNode.rest, devnodeNames, printfDec, intDigits]

theorem toDigits_injective {a b : ℕ} (h : Nat.toDigits 10 a = Nat.toDigits 10 b) : a = b := by
  have hnum := congrArg (fun cs => Nat.ofDigitChars 10 cs 0) h
  simpa using hnum

theorem isDigit_of_mem_toDigits {n : ℕ} {c : Char} (h : c ∈ Nat.toDigits 10 n) : c.isDigit = true :=
  Nat.isDigit_of_mem_toDigits (by decide) (by decide) h

theorem intDigits_injective {a b : ℤ} (h : intDigits a = intDigits b) : a = b := by
  have hsign (n m : ℕ) : Nat.toDigits 10 n ≠ '-' :: Nat.toDigits 10 m := by
    intro heq
    have hdigit : '-' ∈ Nat.toDigits 10 n := by
      rw [heq]
      exact List.mem_cons_self
    exact absurd (isDigit_of_mem_toDigits hdigit) (by decide)
  cases a with
  | ofNat n =>
    cases b with
    | ofNat m => exact congrArg Int.ofNat (toDigits_injective h)
    | negSucc m => exact absurd h (hsign n (m + 1))
  | negSucc n =>
    cases b with
    | ofNat m => exact absurd h.symm (hsign m (n + 1))
    | negSucc m =>
      have hsucc := toDigits_injective (List.cons.inj h).2
      rw [Nat.succ_injective hsucc]

theorem intDigits_split {a b : ℤ} {xs ys : List Char}
    (h : intDigits a ++ '_' :: xs = intDigits b ++ '_' :: ys) :
    a = b ∧ xs = ys := by
  have hnot (n : ℤ) (c : Char) (hc : c ∈ intDigits n) : (c != '_') = true := by
    have hdigit (hd : c.isDigit = true) : (c != '_') = true := by
      rw [bne_iff_ne]
      rintro rfl
      exact absurd hd (by decide)
    cases n with
    | ofNat n => exact hdigit (isDigit_of_mem_toDigits hc)
    | negSucc n =>
      rcases List.mem_cons.mp hc with rfl | hc
      · decide
      · exact hdigit (isDigit_of_mem_toDigits hc)
  have hdigits (n : ℤ) (zs : List Char) : (intDigits n ++ '_' :: zs).takeWhile (· != '_') = intDigits n := by
    rw [List.takeWhile_append_of_pos (hnot n), List.takeWhile_cons_of_neg (by decide), List.append_nil]
  have hab : intDigits a = intDigits b := by rw [← hdigits a xs, h, hdigits b ys]
  rw [hab] at h
  exact ⟨intDigits_injective hab, (List.cons.inj (List.append_cancel_left h)).2⟩

theorem rest_injective {n m : CdevNode} (h : n.rest = m.rest) :
    n.type = m.type ∧ (n.type ∈ [CdevType.user, .ctrl, .xvc, .bypass] ∨ n.param = m.param) := by
  obtain ⟨type, param⟩ := n
  obtain ⟨type', param'⟩ := m
  cases type <;> cases type' <;> simp [CdevNode.rest] at h ⊢ <;> exact toDigits_injective h

/-- `struct xdma_dev` on the list; its address is the handle of the device. -/
structure ListedDev where
  hndl : ℕ
  pdev : ℕ
  idx : U32
  deriving DecidableEq

structure XdevList where
  devs : List ListedDev := []
  pool : ThreadPool := {}

namespace XdevList

variable (p : Params)

structure ThreadsCreate where
  numThreads : ℕ
  cpus : List ℕ
  alloc : Bool
  start : ℕ → KthreadStart

def xdevListAdd (l : XdevList) (hndl pdev : ℕ) (t : ThreadsCreate) : XdevList × ℤ :=
  match l.devs.getLast? with
  | none =>
    if p.pollMode then
      let (pool, rv) := l.pool.xdmaThreadsCreate t.numThreads t.cpus t.alloc t.start
      if rv < 0 then ({ l with pool := pool }, rv)
        else ({ devs := l.devs ++ [⟨hndl, pdev, 0⟩], pool := pool }, 0)
    else ({ l with devs := l.devs ++ [⟨hndl, pdev, 0⟩] }, 0)
  | some last => ({ l with devs := l.devs ++ [⟨hndl, pdev, last.idx + 1⟩] }, 0)

def xdevListRemove (l : XdevList) (hndl : ℕ) (stop : ℕ → ℤ) : XdevList :=
  let l := { l with devs := l.devs.eraseP (·.hndl = hndl) }
  if p.pollMode && l.devs.isEmpty then { l with pool := l.pool.xdmaThreadsDestroy stop } else l

def xdevFindByPdev (l : XdevList) (pdev : ℕ) : Option ListedDev := l.devs.find? (·.pdev = pdev)

def debugCheckDevHndl (l : XdevList) (pdev hndl : ℕ) : ℤ :=
  match l.xdevFindByPdev pdev with
  | none => err .inval
  | some d => if d.hndl ≠ hndl then err .inval else 0

inductive ListAct
  | add (hndl pdev : ℕ) (t : ThreadsCreate)
  | remove (hndl : ℕ) (stop : ℕ → ℤ)

/-- A new structure is no other one's, and a PCI device that has a driver is not probed. -/
def step (l : XdevList) : ListAct → Option XdevList
  | .add hndl pdev t =>
    if ∃ d ∈ l.devs, d.hndl = hndl ∨ d.pdev = pdev then none else some (l.xdevListAdd p hndl pdev t).1
  | .remove hndl stop => if ∃ d ∈ l.devs, d.hndl = hndl then some (l.xdevListRemove p hndl stop) else none

/-- A CPU is online, the starts of the threads fail from the first one on or not at all, and the
index, an `int` that is counted up while devices are listed, has not come round. -/
def ThreadsStart (l : XdevList) : ListAct → Prop
  | .add _ _ t =>
    t.cpus ≠ [] ∧ l.pool.StartsTogether (.create t.numThreads t.cpus t.alloc t.start) ∧
      ∀ d ∈ l.devs.getLast?, d.idx ≠ BitVec.allOnes 32
  | .remove _ _ => True

end XdevList

namespace ThreadPool

theorem createLoop_grows {numThreads array : ℕ} {start : ℕ → KthreadStart} (cpus : List ℕ) :
    ∀ {s : ThreadPool},
    ¬(createLoop numThreads start array cpus s).2 < 0 →
      (createLoop numThreads start array cpus s).1.csThreads = s.csThreads ∧
        s.threadCnt ≤ (createLoop numThreads start array cpus s).1.threadCnt ∧
        (cpus ≠ [] → 0 < (createLoop numThreads start array cpus s).1.threadCnt) := by
  induction cpus with
  | nil => exact fun _ => ⟨rfl, le_refl _, fun h => absurd rfl h⟩
  | cons cpu cpus ih =>
    intro s hrv
    by_cases hs : start s.threadCnt = .started
    · obtain ⟨thp, -, -, -, -, heq⟩ := createLoop_started numThreads array cpu cpus hs
      have hcnt : (s.addThread array thp).threadCnt = s.threadCnt + 1 := threadCnt_addThread thp
      rw [heq] at hrv ⊢
      split
      · exact ⟨rfl, by rw [hcnt]; omega, fun _ => by rw [hcnt]; omega⟩
      · rename_i hmore
        rw [if_neg hmore] at hrv
        obtain ⟨hkeep, hle, -⟩ := ih hrv
        exact ⟨hkeep, by omega, fun _ => by omega⟩
    · exact absurd (createLoop_failed numThreads array cpu cpus hs).2 hrv

theorem create_starts {s : ThreadPool} {numThreads : ℕ} {cpus : List ℕ} {alloc : Bool}
    {start : ℕ → KthreadStart}
    (hcnt : s.threadCnt = 0) (hcpus : cpus ≠ [])
      (hrv : ¬(s.xdmaThreadsCreate numThreads cpus alloc start).2 < 0) :
    0 < (s.xdmaThreadsCreate numThreads cpus alloc start).1.threadCnt := by
  unfold xdmaThreadsCreate at hrv ⊢
  rw [if_neg (not_not.mpr hcnt)] at hrv ⊢
  split
  · rename_i halloc
    rw [if_pos halloc] at hrv
    exact absurd (err_neg .noMem) hrv
  · rename_i halloc
    rw [if_neg halloc] at hrv
    exact (createLoop_grows cpus hrv).2.2 hcpus

theorem Sound.destroyed {s : ThreadPool} (h : Sound s) (hcnt : 0 < s.threadCnt) (rv : ℕ → ℤ) :
    (s.xdmaThreadsDestroy rv).csThreads = none := by
  cases harray : s.csThreads with
  | none =>
    rw [threadCnt, (h.closed harray).1] at hcnt
    exact absurd hcnt (lt_irrefl 0)
  | some array =>
    rw [xdmaThreadsDestroy, harray]
    exact congrArg csThreads (if_neg (Nat.ne_of_gt hcnt))

end ThreadPool

namespace XdevList

variable {p : Params}

/-- The index grows along the list, and in polled mode the threads are there while it is not empty. -/
structure Sound (p : Params) (l : XdevList) : Prop where
  idx : l.devs.Pairwise (·.idx < ·.idx)
  hndl : (l.devs.map ListedDev.hndl).Nodup
  pdev : (l.devs.map ListedDev.pdev).Nodup
  pool : l.pool.Sound
  idle : l.devs = [] ∨ p.pollMode = false → l.pool.csThreads = none
  busy : l.devs ≠ [] → p.pollMode = true → 0 < l.pool.threadCnt

theorem Sound.append {l : XdevList} (h : Sound p l) {d : ListedDev} (hidx : ∀ e ∈ l.devs, e.idx < d.idx)
    (hnew : ¬∃ e ∈ l.devs, e.hndl = d.hndl ∨ e.pdev = d.pdev) {pool : ThreadPool} (hpool : pool.Sound)
    (hidle : p.pollMode = false → pool.csThreads = none) (hbusy : p.pollMode = true → 0 < pool.threadCnt) :
    Sound p { devs := l.devs ++ [d], pool := pool } where
  idx := List.pairwise_append.mpr ⟨h.idx, List.pairwise_singleton _ _, fun e he e' he' => by
    rw [List.mem_singleton.mp he']
    exact hidx e he⟩
  hndl := by
    rw [List.map_append]
    refine List.nodup_append.mpr ⟨h.hndl, List.nodup_singleton _, ?_⟩
    rintro a ha b hb rfl
    obtain ⟨e, he, rfl⟩ := List.mem_map.mp ha
    exact hnew ⟨e, he, .inl (List.mem_singleton.mp hb)⟩
  pdev := by
    rw [List.map_append]
    refine List.nodup_append.mpr ⟨h.pdev, List.nodup_singleton _, ?_⟩
    rintro a ha b hb rfl
    obtain ⟨e, he, rfl⟩ := List.mem_map.mp ha
    exact hnew ⟨e, he, .inr (List.mem_singleton.mp hb)⟩
  pool := hpool
  idle := by
    rintro (hnil | hp)
    · exact absurd hnil (by simp)
    · exact hidle hp
  busy := fun _ => hbusy

theorem Sound.add {l : XdevList} (h : Sound p l) {hndl pdev : ℕ} {t : ThreadsCreate}
    (hnew : ¬∃ d ∈ l.devs, d.hndl = hndl ∨ d.pdev = pdev) (hok : l.ThreadsStart (.add hndl pdev t)) :
    Sound p (l.xdevListAdd p hndl pdev t).1 := by
  unfold xdevListAdd
  cases hlast : l.devs.getLast? with
  | none =>
    have hnil : l.devs = [] := List.getLast?_eq_none_iff.mp hlast
    have hnone := h.idle (.inl hnil)
    have hcnt : l.pool.threadCnt = 0 := by
      rw [ThreadPool.threadCnt, (h.pool.closed hnone).1]
      rfl
    have hidx : ∀ e ∈ l.devs, e.idx < 0 := by simp [hnil]
    dsimp only
    cases hp : p.pollMode with
    | false => exact h.append (d := ⟨hndl, pdev, 0⟩) hidx hnew h.pool (fun _ => hnone) (by simp [hp])
    | true =>
      simp only [↓reduceIte]
      obtain ⟨hsound, hfailed⟩ := h.pool.create hok.2.1
      split
      · rename_i hrv
        refine ⟨h.idx, h.hndl, h.pdev, hsound, fun _ => (hfailed hrv).2.1, fun hne => absurd hnil hne⟩
      · rename_i hrv
        exact h.append (d := ⟨hndl, pdev, 0⟩) hidx hnew hsound (by simp [hp])
          fun _ => ThreadPool.create_starts hcnt hok.1 hrv
  | some last =>
    have hne : l.devs ≠ [] := by
      rintro hnil
      rw [hnil] at hlast
      cases hlast
    have hsucc : last.idx < last.idx + 1 := by
      have hround := hok.2.2 last hlast
      have hlt := last.idx.isLt
      have hne : last.idx.toNat ≠ 2 ^ 32 - 1 := fun h => hround (BitVec.eq_of_toNat_eq h)
      have hone : (1 : U32).toNat = 1 := rfl
      rw [BitVec.lt_def, BitVec.toNat_add, hone]
      omega
    have hmem : ∀ e ∈ l.devs, e.idx < last.idx + 1 := by
      obtain ⟨front, hfront⟩ := List.getLast?_eq_some_iff.mp hlast
      intro e he
      rw [hfront] at he
      have hidx := h.idx
      rw [hfront] at hidx
      rcases List.mem_append.mp he with he | he
      · exact BitVec.lt_trans ((List.pairwise_append.mp hidx).2.2 e he last
          (List.mem_singleton_self last)) hsucc
      · rw [List.mem_singleton.mp he]
        exact hsucc
    exact h.append (d := ⟨hndl, pdev, last.idx + 1⟩) hmem hnew h.pool (fun hp => h.idle (.inr hp))
      (h.busy hne)

theorem Sound.remove {l : XdevList} (h : Sound p l) {hndl : ℕ} (hmem : ∃ d ∈ l.devs,
    d.hndl = hndl) (stop : ℕ → ℤ) :
    Sound p (l.xdevListRemove p hndl stop) := by
  have hsub : (l.devs.eraseP (·.hndl = hndl)).Sublist l.devs := List.eraseP_sublist
  have hne : l.devs ≠ [] := List.ne_nil_of_mem hmem.choose_spec.1
  unfold xdevListRemove
  dsimp only
  cases hp : p.pollMode with
  | false =>
    refine ⟨h.idx.sublist hsub, h.hndl.sublist (hsub.map _), h.pdev.sublist (hsub.map _),
      h.pool, fun _ => ?_, ?_⟩
    · exact h.idle (.inr hp)
    · simp [hp]
  | true =>
    rw [Bool.true_and]
    split
    · rename_i hempty
      refine ⟨h.idx.sublist hsub, h.hndl.sublist (hsub.map _), h.pdev.sublist (hsub.map _),
        h.pool.destroy stop,
        fun _ => h.pool.destroyed (h.busy hne hp) stop, fun hne' => ?_⟩
      exact absurd (List.isEmpty_iff.mp hempty) hne'
    · rename_i hempty
      refine ⟨h.idx.sublist hsub, h.hndl.sublist (hsub.map _), h.pdev.sublist (hsub.map _), h.pool, ?_,
        fun _ => h.busy hne⟩
      rintro (hnil | hfalse)
      · exact absurd (List.isEmpty_iff.mpr hnil) hempty
      · rw [hp] at hfalse
        cases hfalse

theorem Sound.reachable {l : XdevList} (h : Reachable (step p) (· = {}) ThreadsStart l) : Sound p l := by
  refine h.invariant ?_ ?_
  · rintro l rfl
    refine ⟨.nil, .nil, .nil, ⟨?_, ?_, ?_, ?_, ?_⟩, fun _ => rfl, fun hne => absurd rfl hne⟩ <;> simp
  · intro l a l' hl hok hstep
    cases a with
    | add hndl pdev t =>
      obtain ⟨hnew, heq⟩ := Option.ite_none_left_eq_some.mp hstep
      obtain rfl := Option.some.inj heq
      exact hl.add hnew hok
    | remove hndl stop =>
      obtain ⟨hmem, heq⟩ := Option.ite_none_right_eq_some.mp hstep
      obtain rfl := Option.some.inj heq
      exact hl.remove hmem stop

theorem Sound.tasks_iff {l : XdevList} (h : Sound p l) :
    (l.devs ≠ [] ∧ p.pollMode = true ↔ l.pool.tasks ≠ []) ∧
      ∀ t ∈ l.pool.tasks, l.pool.csThreads = some t.array ∧ t.array ∈ l.pool.live := by
  cases harray : l.pool.csThreads with
  | none =>
    have htasks : l.pool.tasks = [] := (h.pool.closed harray).2
    refine ⟨iff_of_false ?_ (not_not.mpr htasks), by simp [htasks]⟩
    rintro ⟨hne, hp⟩
    have hcnt := h.busy hne hp
    rw [ThreadPool.threadCnt, (h.pool.closed harray).1] at hcnt
    exact lt_irrefl 0 hcnt
  | some array =>
    have htasks := h.pool.tasks array harray
    have hbusy : l.devs ≠ [] ∧ p.pollMode = true := by
      by_contra hidle
      rw [not_and_or, not_not, Bool.not_eq_true] at hidle
      rw [h.idle hidle] at harray
      cases harray
    constructor
    · refine iff_of_true hbusy ?_
      have hcnt := h.busy hbusy.1 hbusy.2
      rw [htasks, ne_eq, List.map_eq_nil_iff, List.range_eq_nil]
      exact Nat.ne_of_gt hcnt
    · intro t ht
      rw [htasks] at ht
      obtain ⟨i, -, rfl⟩ := List.mem_map.mp ht
      exact ⟨rfl, h.pool.live array harray⟩

theorem Sound.debugCheck_iff {l : XdevList} (h : Sound p l) (pdev hndl : ℕ) :
    l.debugCheckDevHndl pdev hndl = 0 ↔ ∃ d ∈ l.devs, d.pdev = pdev ∧ d.hndl = hndl := by
  unfold debugCheckDevHndl xdevFindByPdev
  cases hfind : l.devs.find? (·.pdev = pdev) with
  | none =>
    refine iff_of_false (err_neg .inval).ne ?_
    rintro ⟨d, hd, hpdev, -⟩
    exact absurd hpdev (by simpa using List.find?_eq_none.mp hfind d hd)
  | some d =>
    have hd : d ∈ l.devs := List.mem_of_find?_eq_some hfind
    have hpdev : d.pdev = pdev := by simpa using List.find?_some hfind
    dsimp only
    split
    · rename_i hne
      refine iff_of_false (err_neg .inval).ne ?_
      rintro ⟨e, he, hepdev, hehndl⟩
      have hde : e = d := List.inj_on_of_nodup_map h.pdev he hd (hepdev.trans hpdev.symm)
      exact hne (hde ▸ hehndl)
    · rename_i heq
      exact iff_of_true rfl ⟨d, hd, hpdev, not_not.mp heq⟩

theorem Sound.idx_injective {l : XdevList} (h : Sound p l) {d e : ListedDev}
    (hd : d ∈ l.devs) (he : e ∈ l.devs)
    (hidx : d.idx = e.idx) : d = e := by
  have hnd : (l.devs.map ListedDev.idx).Nodup := by
    rw [List.Nodup, List.pairwise_map]
    refine h.idx.imp fun {d e} hlt heq => ?_
    rw [heq] at hlt
    exact absurd hlt (BitVec.lt_irrefl _)
  exact List.inj_on_of_nodup_map hnd hd he hidx

end XdevList

namespace XpdevConf

variable {c : XpdevConf}

structure Within (c : XpdevConf) : Prop where
  userMax : c.userMax ≤ maxUserIrq
  h2cChannelMax : c.h2cChannelMax ≤ xdmaChannelNumMax
  c2hChannelMax : c.c2hChannelMax ≤ xdmaChannelNumMax

theorem mem_channels {h2c c2h : CdevType} {n : CdevNode} (h : n ∈ c.channels h2c c2h) :
    n.type = h2c ∧ n.param < c.h2cChannelMax ∨ n.type = c2h ∧ n.param < c.c2hChannelMax := by
  rcases List.mem_append.mp h with h | h
  all_goals
    obtain ⟨i, hi, rfl⟩ := List.mem_map.mp h
    simp [List.mem_range.mp hi]

theorem param_of_mem_nodes {n : CdevNode} (h : n ∈ c.nodes) :
    match n.type with
    | .events => n.param < c.userMax
    | .xdmaH2c | .bypassH2c => n.param < c.h2cChannelMax
    | .xdmaC2h | .bypassC2h => n.param < c.c2hChannelMax
    | _ => n.param = 0 := by
  obtain ⟨f, -, hn⟩ := List.mem_flatMap.mp h
  have hgroup := mem_groupNodes hn
  cases f with
  | user =>
    obtain rfl := List.mem_singleton.mp hgroup
    rfl
  | ctrl =>
    obtain rfl := List.mem_singleton.mp hgroup
    rfl
  | xvc =>
    obtain rfl := List.mem_singleton.mp hgroup
    rfl
  | event =>
    obtain ⟨i, hi, rfl⟩ := List.mem_map.mp hgroup
    exact List.mem_range.mp hi
  | sg => rcases mem_channels hgroup with ⟨ht, hlt⟩ | ⟨ht, hlt⟩ <;> simpa [ht] using hlt
  | bypass =>
    rcases List.mem_append.mp hgroup with hgroup | hgroup
    · rcases mem_channels hgroup with ⟨ht, hlt⟩ | ⟨ht, hlt⟩ <;> simpa [ht] using hlt
    · obtain rfl := List.mem_singleton.mp hgroup
      rfl

theorem node_ext {c c' : XpdevConf} {n m : CdevNode} (hn : n ∈ c.nodes) (hm : m ∈ c'.nodes)
    (htype : n.type = m.type)
    (hparam : n.type ∈ [CdevType.user, .ctrl, .xvc, .bypass] ∨ n.param = m.param) : n = m := by
  have hn' := param_of_mem_nodes hn
  have hm' := param_of_mem_nodes hm
  obtain ⟨type, param⟩ := n
  obtain ⟨type', param'⟩ := m
  obtain rfl : type = type' := htype
  rcases hparam with hplain | hparam
  · cases type <;> simp_all
  · exact congrArg _ hparam

theorem minor_injective (hc : c.Within) {n m : CdevNode} (hn : n ∈ c.nodes) (hm : m ∈ c.nodes)
    (h : n.minor = m.minor) : n = m := by
  obtain ⟨hu, hh, hch⟩ := hc
  unfold maxUserIrq at hu
  unfold xdmaChannelNumMax at hh hch
  have hn' := param_of_mem_nodes hn
  have hm' := param_of_mem_nodes hm
  have htype : n.type = m.type := by
    obtain ⟨type, param⟩ := n
    obtain ⟨type', param'⟩ := m
    cases type <;> cases type' <;> first | rfl | (simp only [CdevNode.minor] at *; omega)
  refine node_ext hn hm htype ?_
  obtain ⟨type, param⟩ := n
  obtain ⟨type', param'⟩ := m
  obtain rfl : type = type' := htype
  cases type <;> simp [CdevNode.minor] at h ⊢ <;> exact h

end XpdevConf

namespace XdevList

variable {p : Params}

/-- In every run the handle checks accept exactly the handles of listed devices, threads run
exactly while devices are listed in polled mode, and no two character devices share a name or,
of one device, a number. -/
theorem listed_devices {l : XdevList} (h : Reachable (step p) (· = {}) ThreadsStart l) :
    (∀ pdev hndl, l.debugCheckDevHndl pdev hndl = 0 ↔ ∃ d ∈ l.devs, d.pdev = pdev ∧ d.hndl = hndl) ∧
      ((l.devs ≠ [] ∧ p.pollMode = true ↔ l.pool.tasks ≠ []) ∧
        ∀ t ∈ l.pool.tasks, l.pool.csThreads = some t.array ∧ t.array ∈ l.pool.live) ∧
      ∀ d ∈ l.devs, ∀ e ∈ l.devs, ∀ c c' : XpdevConf, ∀ n ∈ c.nodes, ∀ m ∈ c'.nodes,
        (n.name d.idx = m.name e.idx → d = e ∧ n = m) ∧ (c = c' → c.Within → n.minor = m.minor → n = m) := by
  have hs := Sound.reachable h
  refine ⟨hs.debugCheck_iff, hs.tasks_iff, ?_⟩
  intro d hd e he c c' n hn m hm
  constructor
  · intro hname
    rw [name_eq, name_eq] at hname
    obtain ⟨hidx, hrest⟩ := intDigits_split (List.append_cancel_left hname)
    obtain ⟨htype, hparam⟩ := rest_injective hrest
    exact ⟨hs.idx_injective hd he (BitVec.toInt_inj.mp hidx), XpdevConf.node_ext hn hm htype hparam⟩
  · rintro rfl hc hminor
    exact XpdevConf.minor_injective hc hn hm hminor

def twoThreads : ThreadsCreate := ⟨8, [0, 1], true, fun _ => .started⟩

theorem twoThreads_start {l : XdevList} (hndl pdev : ℕ) (hidx : ∀ d ∈ l.devs.getLast?,
    d.idx ≠ BitVec.allOnes 32) :
    l.ThreadsStart (.add hndl pdev twoThreads) := by
  refine ⟨by decide, .inr (.inr ?_), hidx⟩
  rintro ⟨i, -, hi⟩
  exact absurd rfl hi

def oneListed : XdevList := (({} : XdevList).xdevListAdd { pollMode := true } 7 70 twoThreads).1

def twoListed : XdevList := (oneListed.xdevListAdd { pollMode := true } 8 80 twoThreads).1

theorem twoListed_reachable : Reachable (step { pollMode := true }) (· = {}) ThreadsStart twoListed := by
  have hfirst : step { pollMode := true } {} (.add 7 70 twoThreads) = some oneListed := by
    rw [step, if_neg (by simp)]
    rfl
  have hsecond : step { pollMode := true } oneListed (.add 8 80 twoThreads) = some twoListed := by
    have hnew : ¬∃ d ∈ oneListed.devs, d.hndl = 8 ∨ d.pdev = 80 := by decide
    rw [step, if_neg hnew]
    rfl
  exact .step (.step (.init rfl) (twoThreads_start 7 70 (by simp)) hfirst)
    (twoThreads_start 8 80 (by decide)) hsecond

theorem listed_devices_two : twoListed.pool.tasks ≠ [] ∧ twoListed.debugCheckDevHndl 80 8 = 0 ∧
    twoListed.debugCheckDevHndl 80 7 ≠ 0 := by
  obtain ⟨hcheck, htasks, -⟩ := listed_devices twoListed_reachable
  refine ⟨htasks.1.mp (by decide), (hcheck 80 8).mpr (by decide), fun h => ?_⟩
  exact absurd ((hcheck 80 7).mp h) (by decide)

end XdevList

end XdmaDriver
