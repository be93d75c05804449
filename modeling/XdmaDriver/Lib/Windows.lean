import XdmaDriver.Lib.Spans
import XdmaDriver.Lib.Tiling

/-!
Extents of addresses cut into pieces of a bounded length, none of which crosses the end
of a window of `a` positions.
-/

namespace Windows

open Spans Tiling

variable {A B : Type*}

def total (xs : List (A × ℕ)) : ℕ := (xs.map Prod.snd).sum

@[simp] theorem total_nil : total ([] : List (A × ℕ)) = 0 := rfl

@[simp] theorem total_cons (x : A × ℕ) (xs : List (A × ℕ)) : total (x :: xs) = x.2 + total xs := rfl

theorem total_append (xs ys : List (A × ℕ)) : total (xs ++ ys) = total xs + total ys := by
  simp [total]

variable [AddMonoidWithOne A] [AddMonoidWithOne B]

def cutLen (m a k n : ℕ) : ℕ := min (min n m) (a - k % a)

/-- The first `f` pieces of the `n` addresses from `x` on, at position `k`. -/
def pieces (m a : ℕ) : ℕ → ℕ → A → ℕ → List (A × ℕ)
  | 0, _, _, _ => []
  | f + 1, k, x, n =>
    if n = 0 then []
    else
      let l := cutLen m a k n
      (x, l) :: pieces m a f (k + l) (x + (l : A)) (n - l)

def allPieces (m a : ℕ) : ℕ → List (A × ℕ) → List (A × ℕ)
  | _, [] => []
  | k, (x, n) :: xs => pieces m a n k x n ++ allPieces m a (k + n) xs

def windowed (a : ℕ) (base : B) (k n : ℕ) : List B :=
  (List.range n).map fun j => base + (((k + j) % a : ℕ) : B)

def windowPairs (a : ℕ) (base : B) : ℕ → List (A × ℕ) → List (A × B)
  | _, [] => []
  | k, (x, n) :: xs => pairs x (base + ((k % a : ℕ) : B)) n ++ windowPairs a base (k + n) xs

theorem windowed_add (a : ℕ) (base : B) (k m n : ℕ) :
    windowed a base k (m + n) = windowed a base k m ++ windowed a base (k + m) n := by
  rw [windowed, List.range_add, List.map_append, List.map_map]
  congr 1
  apply List.map_congr_left
  intro j _
  simp only [Function.comp_apply, Nat.add_assoc]

@[simp] theorem length_windowed (a : ℕ) (base : B) (k n : ℕ) : (windowed a base k n).length = n := by
  simp [windowed]

theorem windowed_inside {a k n : ℕ} (base : B) (h : k % a + n ≤ a) :
    windowed a base k n = span (base + ((k % a : ℕ) : B)) n := by
  apply List.map_congr_left
  intro j hj
  have hj := List.mem_range.mp hj
  rw [(round_add (d := a) (by omega)).2, Nat.cast_add, add_assoc]

theorem windowPairs_append (a : ℕ) (base : B) (xs ys : List (A × ℕ)) : ∀ k : ℕ,
    windowPairs a base k (xs ++ ys) = windowPairs a base k xs ++ windowPairs a base (k + total xs) ys := by
  induction xs with
  | nil => exact fun _ => rfl
  | cons x xs ih =>
    intro k
    change pairs x.1 _ x.2 ++ windowPairs a base (k + x.2) (xs ++ ys) = _
    rw [ih, total_cons, ← Nat.add_assoc, ← List.append_assoc]
    rfl

@[simp] theorem length_windowPairs (a : ℕ) (base : B) (xs : List (A × ℕ)) : ∀ k : ℕ,
    (windowPairs a base k xs).length = total xs := by
  induction xs with
  | nil => exact fun _ => rfl
  | cons x xs ih =>
    intro k
    change (pairs x.1 _ x.2 ++ windowPairs a base (k + x.2) xs).length = _
    rw [List.length_append, ih, pairs, List.length_zip, length_span, length_span, min_self, total_cons]

section

variable {m a : ℕ} (hm : 1 ≤ m) (ha : 1 ≤ a)

include hm ha

theorem cutLen_pos {k n : ℕ} (hn : n ≠ 0) : 0 < cutLen m a k n := by
  have := Nat.mod_lt k ha
  unfold cutLen
  omega

omit hm in
theorem cutLen_inside (k n : ℕ) : k % a + cutLen m a k n ≤ a := by
  have := Nat.mod_lt k ha
  unfold cutLen
  omega

omit hm ha in
theorem cutLen_le (k n : ℕ) : cutLen m a k n ≤ n := by
  unfold cutLen
  omega

omit hm ha in
theorem pieces_cons {f k n : ℕ} (x : A) (hn : n ≠ 0) : pieces m a (f + 1) k x n =
    (x, cutLen m a k n) :: pieces m a f (k + cutLen m a k n) (x + (cutLen m a k n : A))
      (n - cutLen m a k n) := by
  simp [pieces, hn]

omit hm ha in
@[simp] theorem pieces_empty (f k : ℕ) (x : A) : pieces m a f k x 0 = [] := by
  cases f <;> rfl

theorem pieces_enough (f : ℕ) : ∀ {g k n : ℕ} {x : A}, n ≤ f → n ≤ g → pieces m a f k x n =
    pieces m a g k x n := by
  induction f with
  | zero =>
    intro g k n x hf _
    obtain rfl : n = 0 := by omega
    simp
  | succ f ih =>
    intro g k n x hf hg
    by_cases hn : n = 0
    · subst hn
      simp
    · obtain ⟨g, rfl⟩ := Nat.exists_eq_add_one_of_ne_zero (show g ≠ 0 by omega)
      have hpos := cutLen_pos hm ha (k := k) hn
      rw [pieces_cons x hn, pieces_cons x hn]
      congr 1
      apply ih
      · omega
      · omega

theorem pieces_rest (f : ℕ) : ∀ {k n : ℕ} {x : A}, total (pieces m a f k x n) ≤ n ∧
    pieces m a n k x n = pieces m a f k x n ++ pieces m a (n - total (pieces m a f k x n))
      (k + total (pieces m a f k x n)) (x + (total (pieces m a f k x n) : A))
        (n - total (pieces m a f k x n)) := by
  induction f with
  | zero =>
    intro k n x
    simp [pieces]
  | succ f ih =>
    intro k n x
    by_cases hn : n = 0
    · subst hn
      simp
    · have hpos := cutLen_pos hm ha (k := k) hn
      have hle := cutLen_le (m := m) (a := a) k n
      rw [pieces_cons x hn, total_cons]
      dsimp only
      obtain ⟨htotal, hrest⟩ := ih (k := k + cutLen m a k n) (n := n - cutLen m a k n)
        (x := x + (cutLen m a k n : A))
      generalize hps : pieces m a f (k + cutLen m a k n) (x + (cutLen m a k n : A))
        (n - cutLen m a k n) = ps at *
      refine ⟨by omega, ?_⟩
      obtain ⟨n', hn'⟩ := Nat.exists_eq_add_one_of_ne_zero hn
      have hsplit : pieces m a n k x n = (x, cutLen m a k n) ::
          pieces m a (n - cutLen m a k n) (k + cutLen m a k n) (x + (cutLen m a k n : A))
          (n - cutLen m a k n) := by
        rw [pieces_enough hm ha n (g := n' + 1) (le_refl n) (by omega), pieces_cons x hn]
        congr 1
        apply pieces_enough hm ha
        · omega
        · exact le_refl _
      rw [hsplit, hrest, List.cons_append, Nat.sub_sub, Nat.cast_add, Nat.add_assoc, add_assoc]

omit hm ha in
theorem length_pieces (f : ℕ) : ∀ {k n : ℕ} {x : A}, (pieces m a f k x n).length ≤ f ∧
    (total (pieces m a f k x n) = n ∨ (pieces m a f k x n).length = f) := by
  induction f with
  | zero =>
    intro k n x
    exact ⟨le_refl _, .inr rfl⟩
  | succ f ih =>
    intro k n x
    by_cases hn : n = 0
    · subst hn
      simp
    · have hle := cutLen_le (m := m) (a := a) k n
      obtain ⟨hlen, hend⟩ := ih (k := k + cutLen m a k n) (n := n - cutLen m a k n)
        (x := x + (cutLen m a k n : A))
      rw [pieces_cons x hn, List.length_cons, total_cons]
      refine ⟨by omega, hend.imp ?_ ?_⟩
      · intro h
        rw [h]
        dsimp only
        omega
      · exact fun h => by omega

theorem covered_pieces (f : ℕ) : ∀ {k n : ℕ} {x : A}, n ≤ f → covered (pieces m a f k x n) = span x n := by
  induction f with
  | zero =>
    intro k n x hn
    obtain rfl : n = 0 := by omega
    simp
  | succ f ih =>
    intro k n x hf
    by_cases hn : n = 0
    · subst hn
      simp
    · have hpos := cutLen_pos hm ha (k := k) hn
      rw [pieces_cons x hn, covered_cons, ih (by omega), ← span_add, Nat.add_sub_cancel' (cutLen_le k n)]

theorem covered_allPieces (xs : List (A × ℕ)) : ∀ k : ℕ, covered (allPieces m a k xs) = covered xs := by
  induction xs with
  | nil => exact fun _ => rfl
  | cons x xs ih =>
    intro k
    change covered (pieces m a x.2 k x.1 x.2 ++ allPieces m a (k + x.2) xs) = _
    rw [covered_append, covered_pieces hm ha _ (le_refl _), ih, covered_cons]

theorem total_allPieces (xs : List (A × ℕ)) (k : ℕ) : total (allPieces m a k xs) = total xs := by
  have h := congrArg List.length (covered_allPieces hm ha xs k)
  rw [length_covered, length_covered] at h
  exact h

theorem mem_pieces (f : ℕ) : ∀ {k n : ℕ} {x : A}, ∀ y ∈ pieces m a f k x n, 1 ≤ y.2 ∧ y.2 ≤ m := by
  induction f with
  | zero => simp [pieces]
  | succ f ih =>
    intro k n x y hy
    by_cases hn : n = 0
    · subst hn
      simp at hy
    · have hpos := cutLen_pos hm ha (k := k) hn
      rw [pieces_cons x hn] at hy
      rcases List.mem_cons.mp hy with rfl | hy
      · refine ⟨hpos, ?_⟩
        unfold cutLen
        omega
      · exact ih y hy

theorem mem_allPieces (xs : List (A × ℕ)) : ∀ {k : ℕ}, ∀ y ∈ allPieces m a k xs, 1 ≤ y.2 ∧ y.2 ≤ m := by
  induction xs with
  | nil => simp [allPieces]
  | cons x xs ih =>
    intro k y hy
    rcases List.mem_append.mp hy with hy | hy
    · exact mem_pieces hm ha _ y hy
    · exact ih y hy

theorem windowPairs_pieces (f : ℕ) (base : B) : ∀ {k n : ℕ} {x : A}, n ≤ f →
    windowPairs a base k (pieces m a f k x n) = (span x n).zip (windowed a base k n) := by
  induction f with
  | zero =>
    intro k n x hn
    obtain rfl : n = 0 := by omega
    simp [windowPairs]
  | succ f ih =>
    intro k n x hf
    by_cases hn : n = 0
    · subst hn
      simp [windowPairs]
    · have hpos := cutLen_pos hm ha (k := k) hn
      have hle := cutLen_le (m := m) (a := a) k n
      have hin := cutLen_inside (m := m) ha k n
      rw [pieces_cons x hn]
      generalize cutLen m a k n = l at *
      obtain ⟨r, rfl⟩ := Nat.exists_eq_add_of_le hle
      rw [span_add, windowed_add, List.zip_append (by simp), windowed_inside base hin]
      change pairs x _ l ++ windowPairs a base (k + l) _ = _
      rw [ih (by omega), Nat.add_sub_cancel_left]
      rfl

theorem windowPairs_allPieces (base : B) (xs : List (A × ℕ)) : ∀ k : ℕ,
    windowPairs a base k (allPieces m a k xs) = (covered xs).zip (windowed a base k (total xs)) := by
  induction xs with
  | nil => exact fun _ => rfl
  | cons x xs ih =>
    intro k
    have htotal : total (pieces m a x.2 k x.1 x.2) = x.2 := by
      have h := length_covered (pieces m a x.2 k x.1 x.2)
      rw [covered_pieces hm ha _ (le_refl _), length_span] at h
      exact h.symm
    change windowPairs a base k (pieces m a x.2 k x.1 x.2 ++ allPieces m a (k + x.2) xs) = _
    rw [windowPairs_append, windowPairs_pieces hm ha _ base (le_refl _), htotal, ih, covered_cons, total_cons,
      windowed_add, List.zip_append (by simp)]

end

end Windows
