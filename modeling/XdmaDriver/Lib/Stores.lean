import Mathlib.Data.List.Nodup
import Mathlib.Logic.Function.Basic

/-!
Stores into a memory, one after another, and what is left of their order when their places differ.
-/

namespace Stores

variable {κ ν : Type*} [DecidableEq κ]

def storeAll (mem : κ → ν) (ops : List (κ × ν)) : κ → ν :=
  ops.foldl (fun mem op => Function.update mem op.1 op.2) mem

theorem storeAll_cons (mem : κ → ν) (op : κ × ν) (ops : List (κ × ν)) :
    storeAll mem (op :: ops) = storeAll (Function.update mem op.1 op.2) ops := rfl

theorem storeAll_elsewhere {ops : List (κ × ν)} {k : κ} (h : k ∉ ops.map Prod.fst) (mem : κ → ν) :
    storeAll mem ops k = mem k := by
  induction ops generalizing mem with
  | nil => rfl
  | cons op ops ih =>
    rw [List.map_cons, List.mem_cons, not_or] at h
    rw [storeAll_cons, ih h.2, Function.update_of_ne h.1]

theorem storeAll_at {ops : List (κ × ν)} (hnd : (ops.map Prod.fst).Nodup) {k : κ} {v : ν} (h : (k, v) ∈ ops)
    (mem : κ → ν) : storeAll mem ops k = v := by
  induction ops generalizing mem with
  | nil => exact absurd h List.not_mem_nil
  | cons op ops ih =>
    rw [List.map_cons, List.nodup_cons] at hnd
    rw [storeAll_cons]
    rcases List.mem_cons.mp h with rfl | h
    · rw [storeAll_elsewhere hnd.1, Function.update_self]
    · exact ih hnd.2 h _

theorem storeAll_perm {ops ops' : List (κ × ν)} (hp : ops.Perm ops') (hnd : (ops'.map Prod.fst).Nodup)
    (mem : κ → ν) : storeAll mem ops = storeAll mem ops' := by
  have hkeys : (ops.map Prod.fst).Perm (ops'.map Prod.fst) := hp.map Prod.fst
  funext k
  by_cases hk : k ∈ ops'.map Prod.fst
  · obtain ⟨⟨k, v⟩, hv, rfl⟩ := List.mem_map.mp hk
    rw [storeAll_at hnd hv, storeAll_at (hkeys.nodup_iff.mpr hnd) (hp.mem_iff.mpr hv)]
  · rw [storeAll_elsewhere hk, storeAll_elsewhere fun h => hk (hkeys.mem_iff.mp h)]

theorem storeAll_flatMap {ι : Type*} {ts : List ι} {stores : ι → List (κ × ν)} {places : ι → List κ}
    (hplaces : ∀ t ∈ ts, (stores t).map Prod.fst = places t) (hnd : (ts.flatMap places).Nodup)
    {ops : List (κ × ν)} (hops : ops.Perm (ts.flatMap stores)) (mem : κ → ν) :
    (∀ t ∈ ts, ∀ x ∈ stores t, storeAll mem ops x.1 = x.2) ∧ ∀ k ∉ ts.flatMap places,
      storeAll mem ops k = mem k := by
  have hkeys : (ts.flatMap stores).map Prod.fst = ts.flatMap places := by
    rw [List.map_flatMap]
    exact List.flatMap_congr hplaces
  rw [← hkeys] at hnd ⊢
  rw [storeAll_perm hops hnd]
  exact ⟨fun t ht x hx => storeAll_at hnd (List.mem_flatMap.mpr ⟨t, ht, hx⟩) mem,
    fun k hk => storeAll_elsewhere hk mem⟩

end Stores
