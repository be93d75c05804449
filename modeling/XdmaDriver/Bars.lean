import XdmaDriver.BarAccess
import XdmaDriver.Lib.Ledger
import Mathlib.Data.List.GetD

/-!
The mapping of the BARs of a device, and the roles the driver gives them.
-/

namespace XdmaDriver

open Ledger

def xdmaBarNum : ℕ := 6
def xdmaBarSize : ℤ := 0x8000
def irqBlockId : U32 := 0x1fc20000
def configBlockId : U32 := 0x1fc30000

/-- A BAR of the device, what `pci_iomap` answers for it, and the identifier registers at
`XDMA_OFS_INT_CTRL` and `XDMA_OFS_CONFIG` in it. -/
structure PciResource where
  bar : PciBar
  pciIomap : U64 → U64
  irqId : U32
  cfgId : U32

namespace PciResource

/-- `is_config_bar`, which compares the identifiers without their version numbers. -/
def isConfigBar (r : PciResource) : Bool :=
  r.irqId &&& 0xffff0000 = irqBlockId && r.cfgId &&& 0xffff0000 = configBlockId

def Identified (r : PciResource) : Bool :=
  xdmaBarSize ≤ (mapSingleBar r.bar r.pciIomap).2 && r.isConfigBar

end PciResource

/-- The BAR fields of `struct xdma_dev`, the locals of `map_bars`, and what was mapped and
unmapped so far. -/
structure BarMap where
  bar : ℕ → U64 := fun _ => 0
  configBarIdx : ℤ := -1
  userBarIdx : ℤ := -1
  bypassBarIdx : ℤ := -1
  barIdList : List ℕ := []
  configBarPos : ℕ := 0
  log : List (Op ℕ) := []

namespace BarMap

/-- `map_single_bar`. -/
def mapOne (m : BarMap) (r : PciResource) (i : ℕ) : BarMap × ℤ :=
  let (bar, len) := mapSingleBar r.bar r.pciIomap
  ({ m with
      bar := Function.update m.bar i bar
      log := if bar ≠ 0 then m.log ++ [.acquire i] else m.log }, len)

def mapLoop (rs : ℕ → PciResource) : List ℕ → BarMap → BarMap × ℤ
  | [], m => (m, 0)
  | i :: is, m =>
    let (m, barLen) := m.mapOne (rs i) i
    if barLen = 0 then mapLoop rs is m
    else if barLen < 0 then (m, err .inval)
    else
      let m := if xdmaBarSize ≤ barLen ∧ m.configBarIdx < 0 ∧ (rs i).isConfigBar then
          { m with configBarIdx := i, configBarPos := m.barIdList.length }
        else m
      mapLoop rs is { m with barIdList := m.barIdList ++ [i] }

def unmapLoop : List ℕ → BarMap → BarMap
  | [], m => m
  | i :: is, m =>
    unmapLoop is (if m.bar i ≠ 0 then
      { m with bar := Function.update m.bar i 0, log := m.log ++ [.release i] } else m)

def unmapBars (m : BarMap) : BarMap := unmapLoop (List.range xdmaBarNum) m

/-- `identify_bars`, by the number of BARs and the position of the config BAR among them. -/
def identifyBars (m : BarMap) : BarMap :=
  match m.barIdList.length with
  | 1 => m
  | 2 =>
    if m.configBarPos = 0 then { m with bypassBarIdx := m.barIdList.getD 1 0 }
    else if m.configBarPos = 1 then { m with userBarIdx := m.barIdList.getD 0 0 }
    else m
  | 3 | 4 =>
    if m.configBarPos = 1 ∨ m.configBarPos = 2 then
      { m with
        userBarIdx := m.barIdList.getD 0 0
        bypassBarIdx := m.barIdList.getD (m.barIdList.length - 1) 0 }
    else m
  | _ => m

end BarMap

open BarMap in
def mapBars (rs : ℕ → PciResource) : BarMap × ℤ :=
  let (m, rv) := mapLoop rs (List.range xdmaBarNum) {}
  if rv < 0 then (m.unmapBars, rv)
  else if m.configBarIdx < 0 then (m.unmapBars, err .inval)
  else (m.identifyBars, 0)

namespace PciResource

def Present (r : PciResource) : Prop := r.bar.len ≠ 0

instance (r : PciResource) : Decidable r.Present := inferInstanceAs (Decidable (_ ≠ _))

def Mappable (r : PciResource) : Prop := r.pciIomap r.bar.mapLen ≠ 0

instance (r : PciResource) : Decidable r.Mappable := inferInstanceAs (Decidable (_ ≠ _))

theorem mapLen_pos {r : PciResource} (h : r.Present) : 0 < (r.bar.mapLen.setWidth 32).toInt := by
  have hpos : 0 < r.bar.len.toNat := Nat.pos_of_ne_zero fun hz => h (BitVec.eq_of_toNat_eq hz)
  have hle : 0 < r.bar.mapLen.toNat ∧ r.bar.mapLen.toNat ≤ 0x7fffffff := by
    unfold PciBar.mapLen
    split
    · decide
    · rename_i hlt
      exact ⟨hpos, Nat.le_of_not_lt hlt⟩
  rw [BitVec.toInt_eq_toNat_of_lt]
  · rw [BitVec.toNat_setWidth, Nat.mod_eq_of_lt (by omega)]
    exact_mod_cast hle.1
  · rw [BitVec.toNat_setWidth, Nat.mod_eq_of_lt (by omega)]
    omega

theorem mapSingleBar_absent {r : PciResource} (h : ¬r.Present) : mapSingleBar r.bar r.pciIomap = (0, 0) :=
  if_pos (not_not.mp h)

theorem mapSingleBar_refused {r : PciResource} (h : r.Present) (hm : ¬r.Mappable) :
    mapSingleBar r.bar r.pciIomap = (0, -1) := by
  rw [mapSingleBar, if_neg h]
  exact if_pos (not_not.mp hm)

theorem mapSingleBar_mapped {r : PciResource} (h : r.Present) (hm : r.Mappable) :
    mapSingleBar r.bar r.pciIomap =
    (r.pciIomap r.bar.mapLen, (r.bar.mapLen.setWidth 32).toInt) := by
  rw [mapSingleBar, if_neg h]
  exact if_neg hm

end PciResource

namespace BarMap

variable (rs : ℕ → PciResource)

def present : List ℕ := (List.range xdmaBarNum).filter fun i => (rs i).Present

def configOf (ids : List ℕ) : ℤ × ℕ :=
  match ids.findIdx? fun i => (rs i).Identified with
  | none => (-1, 0)
  | some k => (ids.getD k 0, k)

structure Mapped (ids : List ℕ) (m : BarMap) : Prop where
  list : m.barIdList = ids
  bar : ∀ i, m.bar i ≠ 0 ↔ i ∈ ids
  holds : Leaves m.log (· ∈ ids)
  config : (m.configBarIdx, m.configBarPos) = configOf rs ids
  user : m.userBarIdx = -1
  bypass : m.bypassBarIdx = -1

theorem Mapped.empty : Mapped rs [] {} where
  list := rfl
  bar := by simp
  holds := Leaves.nil.congr (by simp)
  config := rfl
  user := rfl
  bypass := rfl

variable {rs}

theorem configOf_append (ids : List ℕ) (i : ℕ) : configOf rs (ids ++ [i]) =
    if (configOf rs ids).1 < 0 ∧ (rs i).Identified then ((i : ℤ), ids.length) else configOf rs ids := by
  unfold configOf
  rw [List.findIdx?_append]
  cases hids : ids.findIdx? fun i => (rs i).Identified with
  | none =>
    cases hi : (rs i).Identified <;> simp [hi]
  | some k =>
    have hk : k < ids.length := (List.findIdx?_eq_some_iff_findIdx_eq.mp hids).1
    have hget : (ids ++ [i]).getD k 0 = ids.getD k 0 := by simp [List.getElem?_append_left hk]
    simp only [Option.some_or]
    rw [hget, if_neg (by rintro ⟨hlt, -⟩; exact absurd hlt (by simp))]

theorem Mapped.skip {ids : List ℕ} {m : BarMap} (h : Mapped rs ids m) {i : ℕ} (hi : i ∉ ids) :
    Mapped rs ids { m with bar := Function.update m.bar i 0 } where
  list := h.list
  bar := by
    intro j
    by_cases hj : j = i
    · subst hj
      simp [hi]
    · simpa [hj] using h.bar j
  holds := h.holds
  config := h.config
  user := h.user
  bypass := h.bypass

theorem Mapped.map {ids : List ℕ} {m : BarMap} (h : Mapped rs ids m) {i : ℕ} (hnd : (i :: ids).Nodup)
    {bar : U64} (hbar : bar ≠ 0) {idx : ℤ} {pos : ℕ}
    (hconfig : (idx, pos) = if m.configBarIdx < 0 ∧ (rs i).Identified then ((i : ℤ), ids.length)
      else (m.configBarIdx, m.configBarPos)) :
    Mapped rs (ids ++ [i])
      { m with
        bar := Function.update m.bar i bar
        log := m.log ++ [.acquire i]
        configBarIdx := idx
        configBarPos := pos
        barIdList := m.barIdList ++ [i] } where
  list := by rw [h.list]
  bar := by
    intro j
    by_cases hj : j = i
    · subst hj
      refine iff_of_true ?_ (by simp)
      change Function.update m.bar j bar j ≠ 0
      rwa [Function.update_self]
    · simpa [hj] using h.bar j
  holds := h.holds.acquire (List.nodup_cons.mp hnd).1 (by simp [or_comm])
  config := by
    have hc := h.config
    rw [configOf_append, ← hc]
    exact hconfig
  user := h.user
  bypass := h.bypass

theorem mapLoop_mapped (m : BarMap) {i : ℕ} (is : List ℕ) (hp : (rs i).Present) (hm : (rs i).Mappable) :
    ∃ idx pos, (idx, pos) = (if m.configBarIdx < 0 ∧ (rs i).Identified then ((i : ℤ), m.barIdList.length)
        else (m.configBarIdx, m.configBarPos)) ∧
      mapLoop rs (i :: is) m = mapLoop rs is
        { m with
          bar := Function.update m.bar i ((rs i).pciIomap (rs i).bar.mapLen)
          log := m.log ++ [.acquire i]
          configBarIdx := idx
          configBarPos := pos
          barIdList := m.barIdList ++ [i] } := by
  have hpos := PciResource.mapLen_pos hp
  have hsingle := PciResource.mapSingleBar_mapped hp hm
  have hne : (rs i).pciIomap (rs i).bar.mapLen ≠ 0 := hm
  rw [mapLoop, mapOne, hsingle]
  simp only [if_neg hpos.ne', if_neg hpos.not_gt, if_pos hne]
  by_cases hid : m.configBarIdx < 0 ∧ (rs i).Identified
  · refine ⟨i, m.barIdList.length, (if_pos hid).symm, ?_⟩
    have hboth : xdmaBarSize ≤ ((rs i).bar.mapLen.setWidth 32).toInt ∧ (rs i).isConfigBar := by
      simpa [PciResource.Identified, hsingle] using hid.2
    rw [if_pos ⟨hboth.1, hid.1, hboth.2⟩]
  · refine ⟨m.configBarIdx, m.configBarPos, (if_neg hid).symm, ?_⟩
    rw [if_neg]
    rintro ⟨hsize, hlt, hconfig⟩
    refine hid ⟨hlt, ?_⟩
    rw [PciResource.Identified, hsingle, hconfig, Bool.and_true]
    exact decide_eq_true hsize

theorem mapLoop_spec (is : List ℕ) : ∀ {ids : List ℕ} {m : BarMap}, Mapped rs ids m → (ids ++ is).Nodup →
    ∃ ids', Mapped rs ids' (mapLoop rs is m).1 ∧ ids' ⊆ ids ++ is ∧
      ((mapLoop rs is m).2 = 0 ∧ (∀ i ∈ is, (rs i).Present → (rs i).Mappable) ∧
          ids' = (ids ++ is.filter fun i => (rs i).Present) ∨
        (mapLoop rs is m).2 = err .inval ∧ ∃ i ∈ is, (rs i).Present ∧ ¬(rs i).Mappable) := by
  induction is with
  | nil =>
    intro ids m h hnd
    exact ⟨ids, h, by simp, .inl ⟨rfl, by simp, by simp⟩⟩
  | cons i is ih =>
    intro ids m h hnd
    have hi : i ∉ ids := fun hmem => (List.nodup_append.mp hnd).2.2 i hmem i List.mem_cons_self rfl
    have hids : ids.Nodup := (List.nodup_append.mp hnd).1
    by_cases hp : (rs i).Present
    · by_cases hm : (rs i).Mappable
      · obtain ⟨idx, pos, hconfig, hloop⟩ := mapLoop_mapped m is hp hm
        rw [h.list] at hconfig
        obtain ⟨ids', hmap, hsub, hcases⟩ :=
          ih (h.map (List.nodup_cons.mpr ⟨hi, hids⟩) hm hconfig) (by simpa using hnd)
        rw [hloop]
        refine ⟨ids', hmap, by simpa using hsub, ?_⟩
        rcases hcases with ⟨hrv, hall, rfl⟩ | ⟨hrv, j, hj, hbad⟩
        · exact .inl ⟨hrv, by simpa [hm] using hall, by simp [hp]⟩
        · exact .inr ⟨hrv, j, List.mem_cons_of_mem i hj, hbad⟩
      · have hsingle := PciResource.mapSingleBar_refused hp hm
        have hloop : mapLoop rs (i :: is) m = ({ m with bar := Function.update m.bar i 0 }, err .inval) := by
          simp [mapLoop, mapOne, hsingle]
        rw [hloop]
        exact ⟨ids, h.skip hi, by simp, .inr ⟨rfl, i, List.mem_cons_self, hp, hm⟩⟩
    · have hsingle := PciResource.mapSingleBar_absent hp
      have hloop : mapLoop rs (i :: is) m = mapLoop rs is { m with bar := Function.update m.bar i 0 } := by
        simp [mapLoop, mapOne, hsingle]
      have hrest : (ids ++ is).Nodup := hnd.sublist ((List.sublist_cons_self i is).append_left ids)
      obtain ⟨ids', hmap, hsub, hcases⟩ := ih (h.skip hi) hrest
      rw [hloop]
      refine ⟨ids', hmap, List.Subset.trans hsub (by simp), ?_⟩
      rcases hcases with ⟨hrv, hall, rfl⟩ | ⟨hrv, j, hj, hbad⟩
      · exact .inl ⟨hrv, by simpa [hp] using hall, by simp [hp]⟩
      · exact .inr ⟨hrv, j, List.mem_cons_of_mem i hj, hbad⟩

theorem unmapLoop_eq (is : List ℕ) : ∀ {m : BarMap}, is.Nodup → unmapLoop is m =
    { m with
      bar := fun i => if i ∈ is then 0 else m.bar i
      log := m.log ++ (is.filter (m.bar · ≠ 0)).map .release } := by
  induction is with
  | nil => intro m _; simp [unmapLoop]
  | cons i is ih =>
    intro m hnd
    obtain ⟨hi, hnd⟩ := List.nodup_cons.mp hnd
    rw [unmapLoop, ih hnd]
    by_cases hbar : m.bar i = 0
    · rw [if_neg (not_not.mpr hbar)]
      congr 1
      · funext j
        by_cases hj : j = i
        · subst hj
          simp [hbar]
        · simp [hj]
      · simp [hbar]
    · rw [if_pos hbar]
      congr 1
      · funext j
        by_cases hj : j = i
        · subst hj
          simp
        · simp [hj]
      · have hfilter : (is.filter (Function.update m.bar i 0 · ≠ 0)) = is.filter (m.bar · ≠ 0) := by
          apply List.filter_congr
          intro j hj
          have hne : j ≠ i := fun hji => hi (hji ▸ hj)
          simp [hne]
        have hcons : (i :: is).filter (m.bar · ≠ 0) = i :: is.filter (m.bar · ≠ 0) :=
          List.filter_cons_of_pos (decide_eq_true hbar)
        rw [hfilter, hcons, List.map_cons, List.append_assoc]
        rfl

theorem unmapBars_leaves {ids : List ℕ} {m : BarMap} (hbar : ∀ i, m.bar i ≠ 0 ↔ i ∈ ids)
    (hlog : Leaves m.log (· ∈ ids)) (hsub : ids ⊆ List.range xdmaBarNum) :
    (∀ i, m.unmapBars.bar i = 0) ∧ Leaves m.unmapBars.log fun _ => False := by
  have hrange : (List.range xdmaBarNum).Nodup := List.nodup_range
  have hmem : ∀ i, i ∈ (List.range xdmaBarNum).filter (m.bar · ≠ 0) ↔ i ∈ ids := by
    intro i
    rw [List.mem_filter, decide_eq_true_iff, hbar]
    exact ⟨fun h => h.2, fun h => ⟨hsub h, h⟩⟩
  rw [BarMap.unmapBars, unmapLoop_eq _ hrange]
  constructor
  · intro i
    by_cases hi : i ∈ List.range xdmaBarNum
    · exact if_pos hi
    · have hz : m.bar i = 0 := not_not.mp fun hne => hi (hsub ((hbar i).mp hne))
      exact (if_neg hi).trans hz
  · apply (hlog.releases (hrange.filter _) fun i hi => (hmem i).mp hi).congr
    intro i
    rw [hmem]
    exact ⟨False.elim, fun h => h.1 h.2⟩

theorem configOf_some {ids : List ℕ} {k : ℕ} (h : (ids.findIdx? fun i => (rs i).Identified) = some k) :
    configOf rs ids = ((ids.getD k 0 : ℤ), k) := by
  rw [configOf, h]

theorem configOf_none {ids : List ℕ} (h : (ids.findIdx? fun i => (rs i).Identified) = none) :
    configOf rs ids = (-1, 0) := by
  rw [configOf, h]

@[simp] theorem identifyBars_bar (m : BarMap) : m.identifyBars.bar = m.bar := by
  unfold identifyBars
  split <;> first | rfl | (split <;> first | rfl | (split <;> rfl))

@[simp] theorem identifyBars_log (m : BarMap) : m.identifyBars.log = m.log := by
  unfold identifyBars
  split <;> first | rfl | (split <;> first | rfl | (split <;> rfl))

@[simp] theorem identifyBars_configBarIdx (m : BarMap) : m.identifyBars.configBarIdx = m.configBarIdx := by
  unfold identifyBars
  split <;> first | rfl | (split <;> first | rfl | (split <;> rfl))

structure Roles (ids : List ℕ) (k : ℕ) (m : BarMap) : Prop where
  config : m.configBarIdx = ids.getD k 0
  user : m.userBarIdx = -1 ∨ m.userBarIdx = ids.getD 0 0 ∧ 0 < k
  bypass : m.bypassBarIdx = -1 ∨ m.bypassBarIdx = ids.getD (ids.length - 1) 0 ∧
    (k < ids.length - 1 ∨ ids.length = 3 ∧ k = 2)
  shared : ids.length = 3 ∧ k = 2 → m.bypassBarIdx = ids.getD (ids.length - 1) 0

theorem Mapped.roles {ids : List ℕ} {m : BarMap} (h : Mapped rs ids m) {k : ℕ}
    (hk : (ids.findIdx? fun i => (rs i).Identified) = some k) : Roles ids k m.identifyBars := by
  have hc := h.config
  rw [configOf_some hk, Prod.mk.injEq] at hc
  have hlt : k < ids.length := (List.findIdx?_eq_some_iff_findIdx_eq.mp hk).1
  have hconfig : m.identifyBars.configBarIdx = ids.getD k 0 := by rw [identifyBars_configBarIdx, hc.1]
  unfold BarMap.identifyBars at hconfig ⊢
  rw [h.list, hc.2] at hconfig ⊢
  split at hconfig
  · rename_i hlen
    exact ⟨hconfig, .inl h.user, .inl h.bypass, by omega⟩
  · rename_i hlen
    rw [hlen] at hlt
    obtain rfl | rfl : k = 0 ∨ k = 1 := by omega
    · refine ⟨hconfig, .inl h.user, .inr ⟨?_, .inl (by omega)⟩, by omega⟩
      rw [hlen]
      rfl
    · exact ⟨hconfig, .inr ⟨rfl, by omega⟩, .inl h.bypass, by omega⟩
  · rename_i hlen
    split at hconfig
    · rename_i hpos
      rw [if_pos hpos]
      refine ⟨hconfig, .inr ⟨rfl, by omega⟩, .inr ⟨by rw [hlen], ?_⟩, fun _ => by rw [hlen]⟩
      obtain rfl | rfl := hpos
      · exact .inl (by omega)
      · exact .inr ⟨hlen, rfl⟩
    · rename_i hpos
      rw [if_neg hpos]
      exact ⟨hconfig, .inl h.user, .inl h.bypass, by omega⟩
  · rename_i hlen
    split at hconfig
    · rename_i hpos
      rw [if_pos hpos]
      exact ⟨hconfig, .inr ⟨rfl, by omega⟩, .inr ⟨by rw [hlen], .inl (by omega)⟩, by omega⟩
    · rename_i hpos
      rw [if_neg hpos]
      exact ⟨hconfig, .inl h.user, .inl h.bypass, by omega⟩
  · rename_i hne1 hne2 hne3 hne4
    exact ⟨hconfig, .inl h.user, .inl h.bypass, fun h3 => absurd h3.1 hne3⟩

theorem present_sorted (rs : ℕ → PciResource) : (present rs).Pairwise (· < ·) :=
  List.Pairwise.filter _ List.pairwise_lt_range

theorem getD_lt {ids : List ℕ} (hs : ids.Pairwise (· < ·)) {i j : ℕ} (hij : i < j) (hj : j < ids.length) :
    ids.getD i 0 < ids.getD j 0 := by
  rw [List.getD_eq_getElem _ _ (by omega), List.getD_eq_getElem _ _ hj]
  exact List.pairwise_iff_getElem.mp hs i j (by omega) hj hij

theorem getD_mem {ids : List ℕ} {i : ℕ} (hi : i < ids.length) : ids.getD i 0 ∈ ids := by
  rw [List.getD_eq_getElem _ _ hi]
  exact List.getElem_mem hi

/-- What `map_bars` has found: the BARs that are there are mapped, the config BAR is the first
that identifies itself, a user BAR comes before it and a bypass BAR after it; of three BARs
with the config BAR last, that BAR is taken for the bypass BAR as well. -/
structure Found (rs : ℕ → PciResource) (m : BarMap) (c : ℕ) : Prop where
  bar : ∀ i, m.bar i ≠ 0 ↔ i ∈ present rs
  config : m.configBarIdx = c ∧ c ∈ present rs ∧ (rs c).Identified
  first : ∀ i ∈ present rs, i < c → (rs i).Identified = false
  user : m.userBarIdx = -1 ∨ ∃ u ∈ present rs, m.userBarIdx = u ∧ u < c
  bypass : m.bypassBarIdx = -1 ∨ ∃ b ∈ present rs, m.bypassBarIdx = b ∧ c ≤ b
  shared : m.bypassBarIdx = c ↔ (present rs).length = 3 ∧ ∀ i ∈ present rs, i ≤ c

theorem Mapped.found {rs : ℕ → PciResource} {m : BarMap} (h : Mapped rs (present rs) m) {k : ℕ}
    (hk : ((present rs).findIdx? fun i => (rs i).Identified) = some k) :
    Found rs m.identifyBars ((present rs).getD k 0) := by
  have hr := h.roles hk
  have hs := present_sorted rs
  obtain ⟨hlt, hid, hbefore⟩ := List.findIdx?_eq_some_iff_getElem.mp hk
  have hgetk : (present rs).getD k 0 = (present rs)[k] := List.getD_eq_getElem _ _ hlt
  constructor
  · intro i
    rw [identifyBars_bar]
    exact h.bar i
  · exact ⟨hr.config, getD_mem hlt, by rw [hgetk]; exact hid⟩
  · intro i hi hic
    obtain ⟨j, hj, rfl⟩ := List.getElem_of_mem hi
    have hjk : j < k := by
      by_contra hkj
      rcases Nat.eq_or_lt_of_not_lt hkj with rfl | hkj
      · rw [hgetk] at hic
        exact absurd hic (lt_irrefl _)
      · have := getD_lt hs hkj hj
        rw [List.getD_eq_getElem _ _ hj] at this
        omega
    simpa using hbefore j hjk
  · refine hr.user.imp_right fun hu => ⟨_, getD_mem (by omega), hu.1, getD_lt hs hu.2 hlt⟩
  · refine hr.bypass.imp_right fun hb => ⟨_, getD_mem (by omega), hb.1, ?_⟩
    rcases hb.2 with hlast | ⟨hlen, rfl⟩
    · exact (getD_lt hs hlast (by omega)).le
    · rw [hlen]
  · constructor
    · intro hshared
      rcases hr.bypass with hnone | ⟨hb, hlast | ⟨hlen, rfl⟩⟩
      · rw [hnone] at hshared
        exact absurd hshared (by omega)
      · rw [hb] at hshared
        have := getD_lt hs hlast (by omega)
        exact absurd hshared (by omega)
      · refine ⟨hlen, fun i hi => ?_⟩
        obtain ⟨j, hj, rfl⟩ := List.getElem_of_mem hi
        rw [← List.getD_eq_getElem _ 0 hj]
        rcases Nat.lt_or_ge j 2 with hj2 | hj2
        · exact (getD_lt hs hj2 hlt).le
        · obtain rfl : j = 2 := by omega
          exact le_refl _
    · rintro ⟨hlen, hmax⟩
      have hk2 : k = 2 := by
        by_contra hne
        have := getD_lt hs (show k < 2 by omega) (by omega)
        have := hmax _ (getD_mem (show 2 < (present rs).length by omega))
        omega
      rw [hr.shared ⟨hlen, hk2⟩, hlen, hk2]

theorem mapBars_eq (rs : ℕ → PciResource) {m : BarMap} {rv : ℤ}
    (h : mapLoop rs (List.range xdmaBarNum) {} = (m, rv)) :
    mapBars rs = if rv < 0 then (m.unmapBars, rv) else if m.configBarIdx < 0 then (m.unmapBars, err .inval)
      else (m.identifyBars, 0) := by
  rw [mapBars, h]

theorem mapBars_cases (rs : ℕ → PciResource) :
    ((mapBars rs).2 = 0 ∧ ((∀ i ∈ present rs, (rs i).Mappable) ∧ ∃ i ∈ present rs, (rs i).Identified) ∧
        Leaves (mapBars rs).1.log (· ∈ present rs) ∧ ∃ c, Found rs (mapBars rs).1 c) ∨
      ((mapBars rs).2 ≠ 0 ∧ ¬ ((∀ i ∈ present rs, (rs i).Mappable) ∧ ∃ i ∈ present rs, (rs i).Identified) ∧
        (∀ i, (mapBars rs).1.bar i = 0) ∧ Leaves (mapBars rs).1.log fun _ => False) := by
  obtain ⟨ids, hmap, hsub, hcases⟩ := mapLoop_spec (List.range xdmaBarNum) (Mapped.empty rs)
    (by simpa using List.nodup_range)
  cases hloop : mapLoop rs (List.range xdmaBarNum) {} with
  | mk m rv =>
    rw [hloop] at hmap hcases
    dsimp only at hmap hcases
    have heq := mapBars_eq rs hloop
    have hunmap := unmapBars_leaves hmap.bar hmap.holds (by simpa using hsub)
    have hinval : err .inval ≠ 0 := (err_neg .inval).ne
    rcases hcases with ⟨hrv, hall, rfl⟩ | ⟨hrv, i, hi, hp, hm⟩
    · obtain rfl : rv = 0 := hrv
      have hall : ∀ i ∈ present rs, (rs i).Mappable := by
        intro i hi
        obtain ⟨hi, hp⟩ := List.mem_filter.mp hi
        exact hall i hi (of_decide_eq_true hp)
      rw [List.nil_append] at hmap
      change Mapped rs (present rs) m at hmap
      have hc := hmap.config
      cases hk : (present rs).findIdx? fun i => (rs i).Identified with
      | none =>
        rw [configOf_none hk, Prod.mk.injEq] at hc
        rw [if_neg (lt_irrefl _), hc.1, if_pos (by omega)] at heq
        have hnone := List.findIdx?_eq_none_iff.mp hk
        rw [heq]
        dsimp only
        refine .inr ⟨hinval, ?_, hunmap⟩
        rintro ⟨-, i, hi, hid⟩
        exact absurd hid (by simpa using hnone i hi)
      | some k =>
        rw [configOf_some hk, Prod.mk.injEq] at hc
        rw [if_neg (lt_irrefl _), hc.1, if_neg (by omega)] at heq
        obtain ⟨hlt, hid, -⟩ := List.findIdx?_eq_some_iff_getElem.mp hk
        rw [heq]
        dsimp only
        refine .inl ⟨rfl, ⟨hall, _, List.getElem_mem hlt, hid⟩, ?_, _, hmap.found hk⟩
        rw [identifyBars_log]
        exact hmap.holds
    · obtain rfl : rv = err .inval := hrv
      rw [if_pos (err_neg .inval)] at heq
      rw [heq]
      dsimp only
      refine .inr ⟨hinval, ?_, hunmap⟩
      rintro ⟨hall, -⟩
      exact absurd (hall i (List.mem_filter.mpr ⟨hi, decide_eq_true hp⟩)) hm

theorem mapBars_mapped {rs : ℕ → PciResource} (h : (mapBars rs).2 = 0) :
    Leaves (mapBars rs).1.log (· ∈ present rs) ∧ ∃ c, Found rs (mapBars rs).1 c := by
  rcases mapBars_cases rs with ⟨-, -, hmapped⟩ | ⟨hrv, -, -⟩
  · exact hmapped
  · exact absurd h hrv

theorem mapBars_failed {rs : ℕ → PciResource} (h : (mapBars rs).2 ≠ 0) :
    (∀ i, (mapBars rs).1.bar i = 0) ∧ Leaves (mapBars rs).1.log fun _ => False := by
  rcases mapBars_cases rs with ⟨hrv, -, -⟩ | ⟨-, -, hfailed⟩
  · exact absurd hrv h
  · exact hfailed

theorem mapBars_spec (rs : ℕ → PciResource) :
    ((mapBars rs).2 = 0 ↔ (∀ i ∈ present rs, (rs i).Mappable) ∧ ∃ i ∈ present rs, (rs i).Identified) ∧
      ((mapBars rs).2 = 0 → Leaves (mapBars rs).1.log (· ∈ present rs) ∧ ∃ c, Found rs (mapBars rs).1 c) ∧
      ((mapBars rs).2 ≠ 0 → (∀ i, (mapBars rs).1.bar i = 0) ∧ Leaves (mapBars rs).1.log fun _ => False) := by
  refine ⟨?_, mapBars_mapped, mapBars_failed⟩
  rcases mapBars_cases rs with ⟨hrv, hfits, -⟩ | ⟨hrv, hfits, -⟩
  · exact iff_of_true hrv hfits
  · exact iff_of_false hrv hfits

end BarMap

end XdmaDriver
