import Mathlib.Data.Nat.Init
import Mathlib.Data.List.Basic
import Mathlib.Tactic.Linarith

/-!
Runs of positions that follow each other without a gap, and rounds of a fixed
number of positions.
-/

namespace Tiling

variable {ι : Type*} {len len' : ι → ℕ} {P P' : ι → ℕ → Prop}

/-- The runs `l` tile the positions from `a` up to `b`; `P` holds of each run at
its first position. -/
def Tiles (len : ι → ℕ) (P : ι → ℕ → Prop) : ℕ → List ι → ℕ → Prop
  | a, [], b => a = b
  | a, t :: ts, b => P t a ∧ Tiles len P (a + len t) ts b

theorem Tiles.le {l : List ι} : ∀ {a b : ℕ}, Tiles len P a l b → a ≤ b := by
  induction l with
  | nil => exact fun h => Nat.le_of_eq h
  | cons t ts ih => exact fun h => (Nat.le_add_right _ _).trans (ih h.2)

theorem Tiles.append_singleton {t : ι} {l : List ι} : ∀ {a b : ℕ}, Tiles len P a l b → P t b →
    Tiles len P a (l ++ [t]) (b + len t) := by
  induction l with
  | nil =>
    rintro a b rfl ht
    exact ⟨ht, rfl⟩
  | cons u us ih => exact fun h ht => ⟨h.1, ih h.2 ht⟩

theorem Tiles.of_mem {t : ι} {l : List ι} : ∀ {a b : ℕ}, Tiles len P a l b → t ∈ l →
    ∃ c, a ≤ c ∧ c + len t ≤ b ∧ P t c := by
  induction l with
  | nil => simp
  | cons u us ih =>
    intro a b h ht
    rcases List.mem_cons.mp ht with rfl | ht
    · exact ⟨a, le_refl _, h.2.le, h.1⟩
    · obtain ⟨c, hac, hcb, hc⟩ := ih h.2 ht
      exact ⟨c, (Nat.le_add_right _ _).trans hac, hcb, hc⟩

theorem Tiles.congr {l : List ι} : ∀ {a b : ℕ}, Tiles len P a l b →
    (∀ t ∈ l, len' t = len t ∧ ∀ c, P t c → P' t c) → Tiles len' P' a l b := by
  induction l with
  | nil => exact fun h _ => h
  | cons t ts ih =>
    intro a b h hs
    obtain ⟨hlen, hP⟩ := hs t List.mem_cons_self
    refine ⟨hP _ h.1, ?_⟩
    rw [hlen]
    exact ih h.2 fun u hu => hs u (List.mem_cons_of_mem _ hu)

theorem Tiles.mono {l : List ι} : ∀ {a b : ℕ}, Tiles len P a l b → (∀ t c, a ≤ c → P t c → P' t c) →
    Tiles len P' a l b := by
  induction l with
  | nil => exact fun h _ => h
  | cons t ts ih =>
    intro a b h hP
    refine ⟨hP t a (le_refl a) h.1, ih h.2 ?_⟩
    exact fun u c hc => hP u c ((Nat.le_add_right _ _).trans hc)

theorem Tiles.flatMap {β : Type*} {f : ι → List β} {g : ℕ → β} {l : List ι} : ∀ {a b : ℕ}, Tiles len P a l b →
    (∀ t c, P t c → f t = (List.range' c (len t)).map g) → l.flatMap f = (List.range' a (b - a)).map g := by
  induction l with
  | nil =>
    rintro a b rfl _
    rw [Nat.sub_self]
    rfl
  | cons t ts ih =>
    intro a b h hf
    have hle := h.2.le
    have hsplit : b - a = len t + (b - (a + len t)) := by omega
    rw [List.flatMap_cons, hf t a h.1, ih h.2 hf, ← List.map_append, List.range'_append_1, ← hsplit]

section

variable {d a n : ℕ}

theorem round_add (h : a % d + n < d) : (a + n) / d = a / d ∧ (a + n) % d = a % d + n := by
  have hd : 0 < d := by omega
  have hsplit : d * (a / d) + (a % d + n) = a + n := by
    have := Nat.div_add_mod a d
    omega
  rw [← hsplit]
  exact ⟨by rw [Nat.mul_add_div hd, Nat.div_eq_of_lt h, Nat.add_zero],
    by rw [Nat.mul_add_mod, Nat.mod_eq_of_lt h]⟩

theorem round_end (hd : 0 < d) (h : a % d + n = d) : (a + n) / d = a / d + 1 ∧ (a + n) % d = 0 := by
  have hsplit : d * (a / d + 1) = a + n := by
    have := Nat.div_add_mod a d
    rw [Nat.mul_add]
    omega
  rw [← hsplit]
  exact ⟨Nat.mul_div_cancel_left _ hd, Nat.mul_mod_right _ _⟩

theorem round_eq {m j : ℕ} (h : j < d) : (m * d + j) / d = m ∧ (m * d + j) % d = j := by
  have hd : 0 < d := by omega
  rw [Nat.mul_comm]
  exact ⟨by rw [Nat.mul_add_div hd, Nat.div_eq_of_lt h, Nat.add_zero],
    by rw [Nat.mul_add_mod, Nat.mod_eq_of_lt h]⟩

/-- Of the `n` positions from `a` on, those after `a` that lie in the round of `a`. -/
def leftInRound (d a n : ℕ) : ℕ := min (d - 1 - a % d) (n - 1)

theorem leftInRound_lt (hn : 0 < n) : leftInRound d a n < n := by
  unfold leftInRound
  omega

theorem leftInRound_inside (hd : 0 < d) : (a + leftInRound d a n) / d = a / d := by
  have hmod := Nat.mod_lt a hd
  apply (round_add _).1
  unfold leftInRound
  omega

theorem leftInRound_succ (hd : 0 < d) (hn : 1 < n) (h : (a + 1) / d = a / d) :
    leftInRound d a n = leftInRound d (a + 1) (n - 1) + 1 := by
  have hmod := Nat.mod_lt a hd
  have hin : a % d + 1 < d := by
    by_contra hend
    have := (round_end (a := a) (n := 1) hd (by omega)).1
    omega
  have hnext := (round_add hin).2
  unfold leftInRound
  omega

theorem leftInRound_eq_zero (hd : 0 < d) (hn : 0 < n) :
    leftInRound d a n = 0 ↔ n = 1 ∨ (a + 1) / d ≠ a / d := by
  have hmod := Nat.mod_lt a hd
  by_cases hin : a % d + 1 < d
  · have hnext := (round_add hin).1
    unfold leftInRound
    omega
  · have hnext := (round_end (a := a) (n := 1) hd (by omega)).1
    unfold leftInRound
    omega

end

end Tiling
