import Mathlib.Data.BitVec
import Mathlib.Data.List.Basic

/-!
Words made of bytes, the first byte in the low bits, and strings of positions cut into words.
-/

namespace BitWords

variable {w : ℕ} {α : Type*}

/-- The word of the first `n` bytes of `f`. -/
def ofBytes (w : ℕ) (f : ℕ → BitVec 8) : ℕ → BitVec w
  | 0 => 0
  | n + 1 => ofBytes w f n ||| ((f n).setWidth w <<< (8 * n))

theorem ofBytes_congr {f g : ℕ → BitVec 8} (n : ℕ) (h : ∀ i < n, f i = g i) :
    ofBytes w f n = ofBytes w g n := by
  induction n with
  | zero => rfl
  | succ n ih => rw [ofBytes, ofBytes, ih fun i hi => h i (by omega), h n (by omega)]

def byteAt (x : BitVec w) (i : ℕ) : BitVec 8 := (x >>> (8 * i)).setWidth 8

def bitAt (f : ℕ → BitVec 8) (b : ℕ) : Bool := (f (b / 8)).getLsbD (b % 8)

theorem getLsbD_ofBytes (f : ℕ → BitVec 8) (n : ℕ) {i : ℕ} (hi : i < w) :
    (ofBytes w f n).getLsbD i = (decide (i < 8 * n) && bitAt f i) := by
  induction n with
  | zero => simp [ofBytes]
  | succ n ih =>
    rw [ofBytes, BitVec.getLsbD_or, ih, BitVec.getLsbD_shiftLeft, BitVec.getLsbD_setWidth]
    by_cases hlow : i < 8 * n
    · simp [hlow, show i < 8 * (n + 1) by omega]
    · by_cases hin : i < 8 * (n + 1)
      · have hdiv : i / 8 = n := by omega
        have hmod : i - 8 * n = i % 8 := by omega
        simp [hlow, hin, hi, hmod, bitAt, hdiv, show i % 8 < w by omega]
      · have hout : (f n).getLsbD (i - 8 * n) = false := BitVec.getLsbD_of_ge _ _ (by omega)
        simp [hlow, hin, hout]

theorem getLsbD_byteAt (x : BitVec w) (i : ℕ) {j : ℕ} (hj : j < 8) :
    (byteAt x i).getLsbD j = x.getLsbD (8 * i + j) := by
  simp [byteAt, hj]

theorem bitAt_add (f : ℕ → BitVec 8) (k b : ℕ) : bitAt (fun i => f (k + i)) b = bitAt f (8 * k + b) := by
  rw [bitAt, bitAt, Nat.mul_add_div (by decide), Nat.mul_add_mod]

theorem flatMap_words (f : ℕ → α) (w n k : ℕ) :
    ((List.range k).flatMap fun j => (List.range (min w (n - w * j))).map fun i => f (w * j + i)) =
      (List.range (min n (w * k))).map f := by
  induction k with
  | zero => simp
  | succ k ih =>
    have hsplit : min n (w * (k + 1)) = min n (w * k) + min w (n - w * k) := by
      rw [Nat.mul_add]
      omega
    rw [List.range_succ, List.flatMap_append, ih, hsplit, List.range_add, List.map_append, List.map_map,
      List.flatMap_singleton]
    congr 1
    apply List.map_congr_left
    intro i hi
    have hi := List.mem_range.mp hi
    rw [Function.comp_apply, show min n (w * k) = w * k by omega]

end BitWords
