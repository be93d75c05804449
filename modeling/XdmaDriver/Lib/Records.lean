import Mathlib.Data.List.Basic
import Mathlib.Data.List.Flatten
import Mathlib.Tactic.Ring

/-!
Lists cut into records of one length, and loops over the neighbours in a list.
-/

namespace Records

variable {α σ : Type*}

def records (n : ℕ) (xs : List α) : List (List α) :=
  (List.range' 0 (xs.length / n) n).map fun offset => (xs.drop offset).take n

def remainder (n : ℕ) (xs : List α) : List α := xs.drop (n * (xs.length / n))

@[simp] theorem length_records (n : ℕ) (xs : List α) :
    (records n xs).length = xs.length / n := by simp [records]

@[simp] theorem length_remainder (n : ℕ) (xs : List α) : (remainder n xs).length = xs.length % n := by
  rw [remainder, List.length_drop]
  have hsplit := Nat.div_add_mod xs.length n
  omega

theorem length_of_mem_records {n : ℕ} {xs r : List α} (h : r ∈ records n xs) : r.length = n := by
  obtain ⟨offset, hoffset, rfl⟩ := List.mem_map.mp h
  obtain ⟨k, hk, rfl⟩ := List.mem_range'.mp hoffset
  have hle : n * (k + 1) ≤ xs.length :=
    (Nat.mul_le_mul_left n hk).trans (Nat.mul_div_le xs.length n)
  rw [List.length_take, List.length_drop]
  rw [Nat.mul_add, Nat.mul_one] at hle
  omega

theorem flatten_take (n : ℕ) (xs : List α) (k : ℕ) :
    ((List.range' 0 k n).map fun offset => (xs.drop offset).take n).flatten = xs.take (n * k) := by
  induction k with
  | zero => simp
  | succ k ih =>
    rw [List.range'_concat, List.map_append, List.flatten_append, ih, Nat.mul_add, Nat.mul_one, List.take_add]
    simp

theorem records_append_remainder (n : ℕ) (xs : List α) : (records n xs).flatten ++ remainder n xs = xs := by
  rw [records, flatten_take, remainder, List.take_append_drop]

theorem getElem_records {n i : ℕ} {xs : List α} (h : i < (records n xs).length) :
    (records n xs)[i] = (xs.drop (n * i)).take n := by
  simp [records]

theorem take_drop_flatten {n a b : ℕ} (hab : a + b ≤ n) {xss : List (List α)}
    (h : ∀ xs ∈ xss, xs.length = n) :
    ∀ {k : ℕ} {xs : List α}, xss[k]? = some xs → (xss.flatten.drop (n * k + a)).take b =
      (xs.drop a).take b := by
  induction xss with
  | nil =>
    intro k xs hk
    cases hk
  | cons ys xss ih =>
    intro k xs hk
    have hys : ys.length = n := h ys List.mem_cons_self
    rw [List.flatten_cons]
    cases k with
    | zero =>
      obtain rfl := Option.some.inj hk
      rw [Nat.mul_zero, Nat.zero_add, List.drop_append_of_le_length (by omega), List.take_append_of_le_length]
      rw [List.length_drop]
      omega
    | succ k =>
      have hskip : n * (k + 1) + a = ys.length + (n * k + a) := by
        rw [hys, Nat.mul_succ]
        omega
      rw [hskip, List.drop_length_add_append]
      exact ih (fun xs hxs => h xs (List.mem_cons_of_mem _ hxs)) hk

theorem length_flatten_eq {n : ℕ} {xss : List (List α)} (h : ∀ xs ∈ xss, xs.length = n) :
    xss.flatten.length = n * xss.length := by
  induction xss with
  | nil => rfl
  | cons xs xss ih =>
    rw [List.flatten_cons, List.length_append, h xs List.mem_cons_self,
      ih fun xs hxs => h xs (List.mem_cons_of_mem _ hxs), List.length_cons, Nat.mul_succ, Nat.add_comm]

section

variable {m : ℕ} (Q : ℕ → Prop) [DecidablePred Q]

theorem filter_range_inner (n : ℕ) : (List.range (m * n + (m - 1))).filter (fun j =>
    (j + 1) % m = 0 ∧ Q (j / m)) =
    (List.range (m * n)).filter fun j => (j + 1) % m = 0 ∧ Q (j / m) := by
  have hinner : ((List.range (m - 1)).map (m * n + ·)).filter (fun j => (j + 1) % m = 0 ∧
    Q (j / m)) = [] := by
    apply List.filter_eq_nil_iff.mpr
    intro j hj
    obtain ⟨x, hx, rfl⟩ := List.mem_map.mp hj
    have hlt := List.mem_range.mp hx
    have hmod : (m * n + x + 1) % m = x + 1 := by
      rw [Nat.add_assoc, Nat.mul_add_mod]
      exact Nat.mod_eq_of_lt (by omega)
    simp [hmod]
  rw [List.range_add, List.filter_append, hinner, List.append_nil]

theorem filter_range_blocks (hm : 0 < m) (n : ℕ) :
    (List.range (m * n)).filter (fun j => (j + 1) % m = 0 ∧ Q (j / m)) =
      ((List.range n).filter Q).map fun k => m * (k + 1) - 1 := by
  induction n with
  | zero => simp
  | succ n ih =>
    have hsplit : m * (n + 1) = m * n + (m - 1) + 1 := by
      rw [Nat.mul_succ]
      omega
    have hlast : (m * n + (m - 1) + 1) % m = 0 := by rw [← hsplit, Nat.mul_mod_right]
    have hdiv : (m * n + (m - 1)) / m = n := by
      rw [Nat.mul_add_div hm, Nat.div_eq_of_lt (by omega), Nat.add_zero]
    rw [hsplit, List.range_succ, List.filter_append, filter_range_inner, ih, List.range_succ,
      List.filter_append,
      List.map_append, List.filter_singleton, List.filter_singleton, hdiv]
    congr 1
    by_cases hq : Q n
    · simp [hq, hlast, hsplit]
    · simp [hq]

theorem filter_range_ends (hm : 0 < m) (n : ℕ) :
    (List.range (m * n - 1)).filter (fun j => (j + 1) % m = 0 ∧ Q (j / m)) =
      ((List.range (n - 1)).filter Q).map fun k => m * (k + 1) - 1 := by
  cases n with
  | zero => simp
  | succ n =>
    have hsplit : m * (n + 1) - 1 = m * n + (m - 1) := by
      rw [Nat.mul_succ]
      omega
    rw [hsplit, filter_range_inner, filter_range_blocks Q hm, Nat.add_sub_cancel]

end

/-- How many elements are in the relation `bad` to the one after them. -/
def breaks (bad : α → α → Prop) [∀ x y, Decidable (bad x y)] : List α → ℕ
  | x :: y :: rest => (if bad x y then 1 else 0) + breaks bad (y :: rest)
  | _ => 0

def walk (step : σ → ℕ → α → α → σ) (i : ℕ) (s : σ) : List α → σ
  | x :: y :: rest => walk step (i + 1) (step s i x y) (y :: rest)
  | _ => s

theorem foldl_range' (step : σ → ℕ → α → α → σ) (d : α) (pre xs : List α) : ∀ s : σ,
    (List.range' pre.length (xs.length - 1)).foldl
      (fun s i => step s i ((pre ++ xs).getD i d) ((pre ++ xs).getD (i + 1) d)) s =
        walk step pre.length s xs := by
  induction xs generalizing pre with
  | nil => exact fun _ => rfl
  | cons x xs ih =>
    cases xs with
    | nil => exact fun _ => rfl
    | cons y rest =>
      intro s
      have hnext := ih (pre ++ [x])
      rw [List.length_append, List.length_singleton, List.append_assoc, List.singleton_append] at hnext
      have hx : (pre ++ x :: y :: rest).getD pre.length d = x := by simp
      have hy : (pre ++ x :: y :: rest).getD (pre.length + 1) d = y := by
        rw [List.getD_eq_getElem?_getD, List.getElem?_append_right (Nat.le_succ _)]
        simp
      rw [walk, ← hnext]
      simp only [List.length_cons, Nat.add_sub_cancel, List.range'_succ, List.foldl_cons, hx, hy]

theorem foldl_range (step : σ → ℕ → α → α → σ) (d : α) (xs : List α) (s : σ) :
    (List.range (xs.length - 1)).foldl (fun s i => step s i (xs.getD i d) (xs.getD (i + 1) d)) s =
      walk step 0 s xs := by
  rw [List.range_eq_range']
  exact foldl_range' step d [] xs s

theorem walk_breaks (bad : α → α → Prop) [∀ x y, Decidable (bad x y)] (step : σ → ℕ → α → α → σ)
    (I : σ → ℕ → Prop) (hstep : ∀ s i x y k, I s k → I (step s i x y) (k + if bad x y then 1 else 0))
      (xs : List α) :
    ∀ {s : σ} {i k : ℕ}, I s k → I (walk step i s xs) (k + breaks bad xs) := by
  induction xs with
  | nil => exact fun h => h
  | cons x xs ih =>
    cases xs with
    | nil => exact fun h => h
    | cons y rest =>
      intro s i k h
      rw [walk, breaks, ← Nat.add_assoc]
      exact ih (hstep s i x y k h)

end Records
