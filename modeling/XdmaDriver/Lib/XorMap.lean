import Mathlib.Data.Nat.GCD.Basic
import Mathlib.Dynamics.PeriodicPts.Defs

/-!
Maps on words that respect the exclusive or, given by their columns: the images of the
words with one bit. Powers of such a map by repeated squaring, and its periodic points.
-/

namespace XorMap

open Function

variable {w : ℕ} {f g : BitVec w → BitVec w} {cols : List (BitVec w)}

def XorAdditive (f : BitVec w → BitVec w) : Prop := ∀ x y, f (x ^^^ y) = f x ^^^ f y

theorem XorAdditive.zero (h : XorAdditive f) : f 0 = 0 := by
  have hself := h 0 0
  rwa [BitVec.xor_self, BitVec.xor_self] at hself

theorem XorAdditive.comp (hf : XorAdditive f) (hg : XorAdditive g) : XorAdditive (f ∘ g) := by
  intro x y
  rw [comp_apply, hg, hf]
  rfl

theorem XorAdditive.iterate (h : XorAdditive f) (n : ℕ) : XorAdditive f^[n] := by
  induction n with
  | zero => exact fun _ _ => rfl
  | succ n ih => exact ih.comp h

def combine : List (BitVec w) → BitVec w → ℕ → BitVec w
  | [], _, _ => 0
  | c :: cs, x, i => bif x.getLsbD i then c ^^^ combine cs x (i + 1) else combine cs x (i + 1)

structure Represents (cols : List (BitVec w)) (f : BitVec w → BitVec w) : Prop where
  length : cols.length = w
  column : ∀ i < w, cols[i]? = some (f (BitVec.twoPow w i))

theorem high_bits (x : BitVec w) {i : ℕ} (hi : i < w) :
    x >>> i <<< i = (bif x.getLsbD i then BitVec.twoPow w i else 0) ^^^ x >>> (i + 1) <<< (i + 1) := by
  apply BitVec.eq_of_getLsbD_eq
  intro j hj
  rcases lt_trichotomy j i with hlt | rfl | hgt
  · have hne : ¬ i = j := by omega
    have hlt' : j < i + 1 := by omega
    cases x.getLsbD i <;> simp [hlt, hlt', hne]
  · cases hx : x.getLsbD j
    · rw [BitVec.getLsbD_eq_getElem hj] at hx
      simp [hx, hj]
    · simp [hx, hj]
  · have hne : ¬ j = i := by omega
    have hge : ¬ j < i := by omega
    have hge' : ¬ j < i + 1 := by omega
    have heq : i + 1 + (j - (i + 1)) = i + (j - i) := by omega
    cases x.getLsbD i <;> simp [hj, hne, hge, hge', heq]

theorem Represents.combine_from (h : Represents cols f) (hf : XorAdditive f) (x : BitVec w) (n : ℕ) :
    ∀ i, i + n = w → combine (cols.drop i) x i = f (x >>> i <<< i) := by
  induction n with
  | zero =>
    intro i hi
    have hlen := h.length
    have hdrop : cols.drop i = [] := List.drop_eq_nil_of_le (by omega)
    have hshift : x >>> i <<< i = 0 := by
      apply BitVec.eq_of_getLsbD_eq
      intro j hj
      have hlt : j < i := by omega
      simp [hlt]
    rw [hdrop, hshift, hf.zero]
    rfl
  | succ n ih =>
    intro i hi
    have hlt : i < w := by omega
    have hcol := h.column i hlt
    rw [List.getElem?_eq_some_iff] at hcol
    obtain ⟨hlen, hc⟩ := hcol
    rw [List.drop_eq_getElem_cons hlen, combine, hc, ih (i + 1) (by omega), high_bits x hlt, hf]
    cases x.getLsbD i
    · rw [cond_false, cond_false, hf.zero]
      exact BitVec.zero_xor.symm
    · rfl

theorem Represents.combine_eq (h : Represents cols f) (hf : XorAdditive f) (x : BitVec w) :
    combine cols x 0 = f x := by
  have hall := h.combine_from hf x w 0 (Nat.zero_add w)
  simpa using hall

theorem Represents.unique (hf : XorAdditive f) (hg : XorAdditive g) (h : Represents cols f)
    (h' : Represents cols g) : f = g := by
  funext x
  rw [← h.combine_eq hf, h'.combine_eq hg]

def columns (f : BitVec w → BitVec w) : List (BitVec w) := (List.range w).map fun i => f (BitVec.twoPow w i)

theorem represents_columns (f : BitVec w → BitVec w) : Represents (columns f) f := by
  constructor
  · simp [columns]
  · intro i hi
    simp [columns, hi]

def square (cols : List (BitVec w)) : List (BitVec w) := cols.map fun c => combine cols c 0

theorem Represents.square (h : Represents cols f) (hf : XorAdditive f) :
    Represents (square cols) (f ∘ f) := by
  constructor
  · simp [XorMap.square, h.length]
  · intro i hi
    rw [XorMap.square, List.getElem?_map, h.column i hi, Option.map_some, h.combine_eq hf]
    rfl

def power : ℕ → List (BitVec w) → List (BitVec w)
  | 0, cols => cols
  | n + 1, cols => power n (square cols)

theorem Represents.power (n : ℕ) : ∀ {f : BitVec w → BitVec w} {cols : List (BitVec w)},
    Represents cols f → XorAdditive f → Represents (power n cols) f^[2 ^ n] := by
  induction n with
  | zero => exact fun h _ => h
  | succ n ih =>
    intro f cols h hf
    have hsquare := ih (h.square hf) (hf.comp hf)
    rwa [pow_succ', iterate_mul]

theorem iterate_eq_of_power (hf : XorAdditive f) {n : ℕ} (h : power n (columns f) = columns f) :
    f^[2 ^ n] = f := by
  have hpow := (represents_columns f).power n hf
  rw [h] at hpow
  exact hpow.unique (hf.iterate _) hf (represents_columns f)

theorem returns_of_iterate {α : Type*} {f : α → α} (hf : Injective f) {m : ℕ} (h : f^[m + 1] = f) (x : α) :
    f^[m] x = x := by
  apply hf
  exact (iterate_succ_apply' f m x).symm.trans (congrFun h x)

theorem fixed_of_coprime {α : Type*} {f : α → α} {m k : ℕ} {x : α} (hm : f^[m] x = x) (hk : f^[k] x = x)
    (hcop : Nat.Coprime k m) : f x = x := by
  have hgcd := IsPeriodicPt.gcd (f := f) (x := x) hk hm
  rw [hcop] at hgcd
  exact hgcd

end XorMap
