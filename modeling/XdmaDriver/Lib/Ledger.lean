import Mathlib.Data.List.Basic
import Mathlib.Data.List.Nodup
import Mathlib.Data.List.Perm.Basic

/-!
Resources that are acquired and released one by one, and runs of such operations in
which nothing is acquired while it is held or released while it is not.
-/

namespace Ledger

variable {α κ : Type*}

inductive Op (α : Type*)
  | acquire (a : α)
  | release (a : α)
  deriving DecidableEq

variable [DecidableEq α] [DecidableEq κ] (key : α → κ)

/-- What is held after an operation. Two resources of one key are not held at a time. -/
def Op.apply (held : List α) : Op α → Option (List α)
  | .acquire a => if key a ∈ held.map key then none else some (held ++ [a])
  | .release a => if a ∈ held then some (held.erase a) else none

def replay : List α → List (Op α) → Option (List α)
  | held, [] => some held
  | held, op :: ops => (op.apply key held).bind fun held => replay held ops

variable {key}

@[simp] theorem replay_nil (held : List α) : replay key held [] = some held := rfl

theorem replay_cons (held : List α) (op : Op α) (ops : List (Op α)) :
    replay key held (op :: ops) = (op.apply key held).bind fun held => replay key held ops := rfl

theorem replay_append (held : List α) (xs ys : List (Op α)) :
    replay key held (xs ++ ys) = (replay key held xs).bind fun held => replay key held ys := by
  induction xs generalizing held with
  | nil => rfl
  | cons x xs ih =>
    rw [List.cons_append, replay_cons, replay_cons, Option.bind_assoc]
    congr 1
    funext held'
    exact ih held'

theorem replay_acquires {held xs : List α} (h : ((held ++ xs).map key).Nodup) :
    replay key held (xs.map .acquire) = some (held ++ xs) := by
  induction xs generalizing held with
  | nil => simp
  | cons x xs ih =>
    have hfree : key x ∉ held.map key := by
      rw [List.map_append, List.map_cons] at h
      intro hx
      exact List.disjoint_of_nodup_append h hx (List.mem_cons_self ..)
    rw [List.append_cons] at h ⊢
    rw [List.map_cons, replay_cons, Op.apply, if_neg hfree, Option.bind_some, ih h]

theorem replay_releases (xs rest : List α) :
    replay key (xs ++ rest) (xs.map .release) = some rest := by
  induction xs with
  | nil => rfl
  | cons x xs ih =>
    rw [List.map_cons, replay_cons, Op.apply, if_pos (by simp), Option.bind_some, List.cons_append,
      List.erase_cons_head, ih]

theorem replay_releases_perm {held xs : List α} (h : held.Perm xs) :
    replay key held (xs.map .release) = some [] := by
  induction xs generalizing held with
  | nil => rw [List.perm_nil.mp h, List.map_nil, replay_nil]
  | cons x xs ih =>
    have hx : x ∈ held := h.mem_iff.mpr List.mem_cons_self
    have hrest : (held.erase x).Perm xs := by simpa using h.erase x
    rw [List.map_cons, replay_cons, Op.apply, if_pos hx, Option.bind_some, ih hrest]

theorem replay_acquires_releases {xs ys : List α} (h : (xs.map key).Nodup) (hperm : xs.Perm ys) :
    replay key [] (xs.map .acquire ++ ys.map .release) = some [] := by
  have hxs : replay key [] (xs.map .acquire) = some ([] ++ xs) := replay_acquires h
  rw [replay_append, hxs, Option.bind_some, List.nil_append]
  exact replay_releases_perm hperm

theorem replay_acquire_held {held : List α} {x : α} (h : key x ∈ held.map key) (ops : List (Op α)) :
    replay key held (.acquire x :: ops) = none := by
  rw [replay_cons, Op.apply, if_pos h, Option.bind_none]

theorem replay_release_missing {held : List α} {x : α} (h : x ∉ held) (ops : List (Op α)) :
    replay key held (.release x :: ops) = none := by
  rw [replay_cons, Op.apply, if_neg h, Option.bind_none]

theorem replay_count (ops : List (Op α)) : ∀ {held held' : List α}, replay key held ops = some held' → ∀ r,
    held'.count r + ops.count (.release r) = held.count r + ops.count (.acquire r) := by
  induction ops with
  | nil =>
    rintro held held' ⟨rfl⟩ r
    rfl
  | cons op ops ih =>
    intro held held' h r
    rw [replay_cons] at h
    obtain ⟨next, hop, hrest⟩ := Option.bind_eq_some_iff.mp h
    have hcount := ih hrest r
    cases op with
    | acquire a =>
      rw [Op.apply] at hop
      split at hop
      · cases hop
      · obtain ⟨rfl⟩ := hop
        by_cases har : a = r
        · subst har
          simp at hcount ⊢
          omega
        · simpa [har] using hcount
    | release a =>
      rw [Op.apply] at hop
      split at hop
      · rename_i hmem
        obtain ⟨rfl⟩ := hop
        by_cases har : a = r
        · subst har
          have hpos := List.count_pos_iff.mpr hmem
          simp at hcount ⊢
          omega
        · simpa [har, List.count_erase_of_ne (Ne.symm har)] using hcount
      · cases hop

/-- The operations leave held, once each, exactly the resources with `P`. -/
def Leaves (ops : List (Op α)) (P : α → Prop) : Prop :=
  ∃ held, replay id [] ops = some held ∧ held.Nodup ∧ ∀ x, x ∈ held ↔ P x

section

variable {ops : List (Op α)} {P P' : α → Prop} {r : α}

theorem Leaves.nil : Leaves ([] : List (Op α)) fun _ => False := ⟨[], rfl, List.nodup_nil, by simp⟩

theorem Leaves.congr (h : Leaves ops P) (hP : ∀ x, P' x ↔ P x) : Leaves ops P' := by
  obtain ⟨held, hr, hnd, hmem⟩ := h
  exact ⟨held, hr, hnd, fun x => (hmem x).trans (hP x).symm⟩

theorem Leaves.acquire (h : Leaves ops P) (hr : ¬P r) (hP : ∀ x, P' x ↔ x = r ∨ P x) :
    Leaves (ops ++ [.acquire r]) P' := by
  obtain ⟨held, hrun, hnd, hmem⟩ := h
  have hfree : r ∉ held := fun hin => hr ((hmem r).mp hin)
  refine ⟨held ++ [r], ?_, ?_, ?_⟩
  · rw [replay_append, hrun, Option.bind_some, replay_cons, Op.apply, if_neg (by simpa using hfree)]
    rfl
  · exact List.nodup_append.mpr ⟨hnd, List.nodup_singleton r, by
      rintro x hx y hy rfl
      exact hfree (List.mem_singleton.mp hy ▸ hx)⟩
  · intro x
    rw [List.mem_append, List.mem_singleton, hmem, hP, or_comm]

theorem Leaves.release (h : Leaves ops P) (hr : P r) (hP : ∀ x, P' x ↔ x ≠ r ∧ P x) :
    Leaves (ops ++ [.release r]) P' := by
  obtain ⟨held, hrun, hnd, hmem⟩ := h
  refine ⟨held.erase r, ?_, hnd.erase r, ?_⟩
  · rw [replay_append, hrun, Option.bind_some, replay_cons, Op.apply, if_pos ((hmem r).mpr hr)]
    rfl
  · intro x
    rw [hnd.mem_erase_iff, hmem, hP]

theorem Leaves.acquires {xs : List α} (h : Leaves ops P) (hnd : xs.Nodup) (hx : ∀ x ∈ xs, ¬P x) :
    Leaves (ops ++ xs.map .acquire) fun x => x ∈ xs ∨ P x := by
  induction xs generalizing ops P with
  | nil => simpa using h
  | cons x xs ih =>
    obtain ⟨hfresh, hnd⟩ := List.nodup_cons.mp hnd
    have hone : Leaves (ops ++ [.acquire x]) fun y => y = x ∨ P y :=
      h.acquire (hx x List.mem_cons_self) fun _ => Iff.rfl
    have hrest := ih hone hnd fun y hy => by
      rintro (rfl | hp)
      · exact hfresh hy
      · exact hx y (List.mem_cons_of_mem x hy) hp
    rw [List.map_cons, List.append_cons]
    exact hrest.congr fun y => by rw [List.mem_cons, or_assoc, or_left_comm]

theorem Leaves.releases {xs : List α} (h : Leaves ops P) (hnd : xs.Nodup) (hx : ∀ x ∈ xs, P x) :
    Leaves (ops ++ xs.map .release) fun x => x ∉ xs ∧ P x := by
  induction xs generalizing ops P with
  | nil => simpa using h
  | cons x xs ih =>
    obtain ⟨hfresh, hnd⟩ := List.nodup_cons.mp hnd
    have hone : Leaves (ops ++ [.release x]) fun y => y ≠ x ∧ P y :=
      h.release (hx x List.mem_cons_self) fun _ => Iff.rfl
    have hrest := ih hone hnd fun y hy =>
      ⟨fun hyx => hfresh (hyx ▸ hy), hx y (List.mem_cons_of_mem x hy)⟩
    rw [List.map_cons, List.append_cons]
    exact hrest.congr fun y => by rw [List.mem_cons, not_or, and_assoc, and_left_comm]

theorem Leaves.count (h : Leaves ops P) (hr : ¬P r) : ops.count (.release r) = ops.count (.acquire r) := by
  obtain ⟨held, hrun, -, hmem⟩ := h
  have hcount := replay_count ops hrun r
  have hnone : held.count r = 0 := List.count_eq_zero.mpr fun hin => hr ((hmem r).mp hin)
  simpa [hnone] using hcount

theorem Leaves.not_releases {xs : List α} (h : Leaves ops P) {x : α} (hx : x ∈ xs) (hP : ¬P x)
    (more : List (Op α)) :
    ∀ P', ¬Leaves (ops ++ (xs.map .release ++ more)) P' := by
  rintro P' ⟨held, hrun, -, -⟩
  rw [← List.append_assoc, replay_append] at hrun
  obtain ⟨kept, hkept, -⟩ := Option.bind_eq_some_iff.mp hrun
  have hbefore := h.count hP
  have hafter := replay_count _ hkept x
  have hpos : 0 < (xs.map Op.release).count (Op.release x) :=
    List.count_pos_iff.mpr (List.mem_map_of_mem hx)
  have hnone : (xs.map Op.release).count (Op.acquire x) = 0 := by
    apply List.count_eq_zero.mpr
    simp
  rw [List.count_append, List.count_append, hnone, hbefore] at hafter
  simp at hafter
  omega

end

def block (xs : List α) : Bool → List (Op α)
  | true => xs.map .acquire
  | false => xs.map .release

def bundle (xs : List α) : Bool → List α
  | true => xs
  | false => []

theorem replay_block {xs : List α} (hx : xs ≠ []) (hkey : (xs.map key).Nodup) (up b : Bool) :
    replay key (bundle xs up) (block xs b) = if b = up then none else some (bundle xs b) := by
  obtain ⟨x, rest, rfl⟩ := List.exists_cons_of_ne_nil hx
  cases up with
  | false =>
    cases b with
    | false => exact replay_release_missing (List.not_mem_nil) _
    | true =>
      change replay key [] _ = some ([] ++ x :: rest)
      exact replay_acquires hkey
  | true =>
    cases b with
    | false => exact (congrArg (replay key · _) (List.append_nil _).symm).trans (replay_releases (x :: rest) [])
    | true => exact replay_acquire_held (List.mem_cons_self ..) _

def Alternates : Bool → List Bool → Prop
  | up, [] => up = false
  | up, b :: bs => b ≠ up ∧ Alternates b bs

instance Alternates.decidable : ∀ (up : Bool) (bs : List Bool), Decidable (Alternates up bs)
  | up, [] => inferInstanceAs (Decidable (up = false))
  | _, b :: bs => @instDecidableAnd _ _ _ (Alternates.decidable b bs)

theorem replay_blocks_iff {xs : List α} (hx : xs ≠ []) (hkey : (xs.map key).Nodup) (bs : List Bool)
    (up : Bool) : replay key (bundle xs up) (bs.flatMap (block xs)) = some [] ↔ Alternates up bs := by
  induction bs generalizing up with
  | nil => cases up <;> simp [bundle, Alternates, hx]
  | cons b bs ih =>
    rw [List.flatMap_cons, replay_append, replay_block hx hkey, Alternates, ← ih b]
    by_cases hb : b = up <;> simp [hb]

end Ledger
