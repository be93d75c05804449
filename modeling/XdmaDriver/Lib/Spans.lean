import Mathlib.Algebra.BigOperators.Group.List.Basic
import Mathlib.Algebra.Ring.Nat
import Mathlib.Data.Nat.Cast.Defs
import Mathlib.Data.List.Basic
import Mathlib.Data.List.Nodup

namespace Spans

variable {A B : Type*} [AddMonoidWithOne A] [AddMonoidWithOne B]

def span (a : A) (n : ℕ) : List A := (List.range n).map fun k : ℕ => a + (k : A)

@[simp] theorem span_zero (a : A) : span a 0 = [] := rfl

@[simp] theorem length_span (a : A) (n : ℕ) : (span a n).length = n := by simp [span]

theorem mem_span {a x : A} {n : ℕ} : x ∈ span a n ↔ ∃ k < n, a + (k : A) = x := by
  simp [span]

theorem span_add (a : A) (m n : ℕ) : span a (m + n) = span a m ++ span (a + (m : A)) n := by
  rw [span, List.range_add, List.map_append, List.map_map]
  congr 1
  apply List.map_congr_left
  intro k _
  simp only [Function.comp_apply, Nat.cast_add, add_assoc]

theorem take_span (a : A) {m n : ℕ} (h : m ≤ n) : (span a n).take m = span a m := by
  rw [← Nat.add_sub_cancel' h, span_add, List.take_left' (length_span a m)]

def pairs (a : A) (b : B) (n : ℕ) : List (A × B) := (span a n).zip (span b n)

theorem getElem?_pairs (a : A) (b : B) {n k : ℕ} (hk : k < n) :
    (pairs a b n)[k]? = some (a + (k : A), b + (k : B)) := by
  simp [pairs, span, hk]

theorem head?_pairs (a : A) (b : B) (n : ℕ) : (pairs a b (n + 1)).head? = some (a, b) := by
  rw [List.head?_eq_getElem?, getElem?_pairs a b (Nat.succ_pos n), Nat.cast_zero, Nat.cast_zero,
    add_zero, add_zero]

@[simp] theorem length_pairs (a : A) (b : B) (n : ℕ) : (pairs a b n).length = n := by simp [pairs]

theorem pairs_add (a : A) (b : B) (m n : ℕ) :
    pairs a b (m + n) = pairs a b m ++ pairs (a + (m : A)) (b + (m : B)) n := by
  rw [pairs, span_add, span_add, List.zip_append (by simp)]
  rfl

theorem pairs_left_inj {a a' : A} {b : B} {n : ℕ} (h : n ≠ 0) : pairs a b n = pairs a' b n ↔ a = a' := by
  obtain ⟨m, rfl⟩ := Nat.exists_eq_add_one_of_ne_zero h
  refine ⟨fun heq => ?_, fun heq => by rw [heq]⟩
  have hhead := congrArg List.head? heq
  rw [head?_pairs, head?_pairs] at hhead
  exact congrArg Prod.fst (Option.some.inj hhead)

def covered (ps : List (A × ℕ)) : List A := ps.flatMap fun p => span p.1 p.2

@[simp] theorem covered_nil : covered ([] : List (A × ℕ)) = [] := rfl

@[simp] theorem covered_cons (p : A × ℕ) (ps : List (A × ℕ)) :
    covered (p :: ps) = span p.1 p.2 ++ covered ps := rfl

theorem covered_append (ps qs : List (A × ℕ)) : covered (ps ++ qs) = covered ps ++ covered qs := by
  simp [covered]

theorem length_covered (ps : List (A × ℕ)) : (covered ps).length = (ps.map Prod.snd).sum := by
  induction ps with
  | nil => rfl
  | cons p ps ih => simp [ih]

end Spans
