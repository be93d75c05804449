import Mathlib.Data.Nat.ModEq
import Mathlib.Tactic.Linarith

/-!
Circular allocation: positions are handed out by a counter that never wraps,
and a position `p` stands for slot `p % n` of a ring of `n` slots.
-/

namespace Circular

def Within (i k x : ℕ) : Prop := i ≤ x ∧ x < i + k

instance (i k x : ℕ) : Decidable (Within i k x) := inferInstanceAs (Decidable (_ ∧ _))

def Disjoint (i k j l : ℕ) : Prop := i + k ≤ j ∨ j + l ≤ i

instance (i k j l : ℕ) : Decidable (Disjoint i k j l) := inferInstanceAs (Decidable (_ ∨ _))

theorem Disjoint.symm {i k j l : ℕ} (h : Disjoint i k j l) : Disjoint j l i k := Or.symm h

theorem disjoint_iff {i k j l : ℕ} (hk : 0 < k) (hl : 0 < l) :
    Disjoint i k j l ↔ ∀ x, ¬ (Within i k x ∧ Within j l x) := by
  constructor
  · rintro h x ⟨⟨_, _⟩, _, _⟩
    rcases h with h | h <;> omega
  · intro h
    by_contra hd
    simp only [Disjoint, not_or, not_le] at hd
    refine h (max i j) ⟨⟨le_max_left _ _, ?_⟩, le_max_right _ _, ?_⟩
    all_goals simp only [max_lt_iff]; omega

theorem Disjoint.not_within {i k j l x : ℕ} (h : Disjoint i k j l) (hx : Within i k x) :
    ¬ Within j l x := by
  rintro ⟨_, _⟩
  obtain ⟨_, _⟩ := hx
  rcases h with h | h <;> omega

theorem mod_ne {n p q : ℕ} (hpq : p < q) (hqn : q < p + n) : p % n ≠ q % n := by
  intro h
  have hd : n ∣ q - p := (Nat.modEq_iff_dvd' hpq.le).mp h
  have := Nat.le_of_dvd (by omega) hd
  omega

theorem disjoint_of_window {n p k q l : ℕ} (hk : 0 < k) (hl : 0 < l)
    (hp : p % n + k ≤ n) (hq : q % n + l ≤ n) (hpq : p + k ≤ q) (hw : q + l ≤ p + n) :
    Disjoint (p % n) k (q % n) l := by
  rw [disjoint_iff hk hl]
  rintro x ⟨⟨hpx, hxp⟩, hqx, hxq⟩
  have hslot : ∀ a i, a % n + i < n → (a + i) % n = a % n + i := by
    intro a i h
    rw [Nat.add_mod, Nat.mod_eq_of_lt (a := i) (by omega), Nat.mod_eq_of_lt h]
  have hxp' := hslot p (x - p % n) (by omega)
  have hxq' := hslot q (x - q % n) (by omega)
  refine mod_ne (n := n) (p := p + (x - p % n)) (q := q + (x - q % n)) (by omega) (by omega) ?_
  rw [hxp', hxq']
  omega

theorem within_of_overrun {n p q l : ℕ} (hq : q % n + l ≤ n) (hle : q ≤ p + n)
    (hover : p + n < q + l) : Within (q % n) l (p % n) := by
  have hn : 0 < n := by
    rcases Nat.eq_zero_or_pos n with h | h
    · subst h
      omega
    · exact h
  obtain ⟨d, hd⟩ := Nat.le.dest hle
  have hmod : (q % n + d) % n = p % n := by
    rw [Nat.add_mod, Nat.mod_mod, ← Nat.add_mod, hd, Nat.add_mod_right]
  rw [Nat.mod_eq_of_lt (by omega)] at hmod
  constructor <;> omega

section

variable {ι : Type*} {n top : ℕ} {pos len : ι → ℕ} {S : Set ι}

structure Placed (n top : ℕ) (pos len : ι → ℕ) (S : Set ι) : Prop where
  nonempty : ∀ u ∈ S, 0 < len u
  inside : ∀ u ∈ S, pos u % n + len u ≤ n
  below : ∀ u ∈ S, pos u + len u ≤ top
  turn : ∀ u ∈ S, top ≤ pos u + n
  apart : ∀ u ∈ S, ∀ v ∈ S, u ≠ v → pos u + len u ≤ pos v ∨ pos v + len v ≤ pos u

theorem Placed.mono {S' : Set ι} (h : Placed n top pos len S) (hS : S' ⊆ S) :
    Placed n top pos len S' :=
  ⟨fun u hu => h.nonempty u (hS hu), fun u hu => h.inside u (hS hu), fun u hu => h.below u (hS hu),
    fun u hu => h.turn u (hS hu), fun u hu v hv => h.apart u (hS hu) v (hS hv)⟩

theorem Placed.congr {pos' len' : ι → ℕ} (h : Placed n top pos len S)
    (he : ∀ u ∈ S, pos' u = pos u ∧ len' u = len u) : Placed n top pos' len' S := by
  refine ⟨fun u hu => ?_, fun u hu => ?_, fun u hu => ?_, fun u hu => ?_, fun u hu v hv huv => ?_⟩
  · rw [(he u hu).2]
    exact h.nonempty u hu
  · rw [(he u hu).1, (he u hu).2]
    exact h.inside u hu
  · rw [(he u hu).1, (he u hu).2]
    exact h.below u hu
  · rw [(he u hu).1]
    exact h.turn u hu
  · rw [(he u hu).1, (he u hu).2, (he v hv).1, (he v hv).2]
    exact h.apart u hu v hv huv

theorem Placed.insert {t : ι} {d : ℕ} (h : Placed n top pos len S) (hpos : pos t = top)
    (hlen : len t = d) (hd : 0 < d) (hcut : top % n + d ≤ n)
    (hroom : ∀ u ∈ S, top + d ≤ pos u + n) : Placed n (top + d) pos len (Insert.insert t S) := by
  have hsplit {P : ι → Prop} (ht : P t) (hS : ∀ u ∈ S, P u) : ∀ u ∈ Insert.insert t S, P u := by
    rintro u (rfl | hu)
    · exact ht
    · exact hS u hu
  have hmod := Nat.mod_le top n
  refine ⟨hsplit (hlen ▸ hd) h.nonempty, hsplit (by rw [hpos, hlen]; exact hcut) h.inside,
    hsplit (by omega) fun u hu => (h.below u hu).trans (by omega), hsplit (by omega) hroom, ?_⟩
  rintro u (rfl | hu) v (rfl | hv) huv
  · exact absurd rfl huv
  · exact .inr ((h.below v hv).trans hpos.ge)
  · exact .inl ((h.below u hu).trans hpos.ge)
  · exact h.apart u hu v hv huv

theorem Placed.disjoint {u v : ι} (h : Placed n top pos len S) (hu : u ∈ S) (hv : v ∈ S)
    (huv : u ≠ v) : Disjoint (pos u % n) (len u) (pos v % n) (len v) := by
  have hub := h.below u hu
  have hvb := h.below v hv
  have hut := h.turn u hu
  have hvt := h.turn v hv
  rcases h.apart u hu v hv huv with hle | hle
  · exact disjoint_of_window (h.nonempty u hu) (h.nonempty v hv) (h.inside u hu) (h.inside v hv) hle
      (by omega)
  · exact (disjoint_of_window (h.nonempty v hv) (h.nonempty u hu) (h.inside v hv) (h.inside u hu) hle
      (by omega)).symm

theorem Placed.not_disjoint {u : ι} {d : ℕ} (h : Placed n top pos len S) (hu : u ∈ S)
    (hcut : top % n + d ≤ n) (hover : pos u + n < top + d) :
    ¬ Disjoint (pos u % n) (len u) (top % n) d := by
  have hmeet := within_of_overrun hcut (h.turn u hu) hover
  have hpos := h.nonempty u hu
  exact fun hdis => hdis.not_within ⟨le_refl _, by omega⟩ hmeet

end

end Circular
