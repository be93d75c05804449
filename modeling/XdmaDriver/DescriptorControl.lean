import XdmaDriver.Lib.BitFields
import XdmaDriver.Perf

/-!
The control word of a descriptor under the functions that set its fields.
-/

namespace XdmaDriver

open BitFields

namespace XdmaDesc

def magic (d : XdmaDesc) : BitVec 16 := d.control.extractLsb' 16 16

def controlByte (d : XdmaDesc) : BitVec 8 := d.control.extractLsb' 0 8

def adjacentCount (d : XdmaDesc) : BitVec 6 := d.control.extractLsb' 8 6

end XdmaDesc

inductive DescSetter
  | control (controlField : BitVec 8)
  | adjacent (nextAdjacent : BitVec 6)
  | link (second : Option U64)
  deriving DecidableEq, Repr

namespace DescSetter

def apply (d : XdmaDesc) : DescSetter → XdmaDesc
  | control c => xdmaDescControlSet d (c.setWidth 32)
  | adjacent n => xdmaDescAdjacent d (n.setWidth 32)
  | link second => xdmaDescLink d second

def setControl (c : BitVec 8) : DescSetter → BitVec 8
  | control c' => c'
  | adjacent _ => c
  | link _ => c

def setAdjacent (n : BitVec 6) : DescSetter → BitVec 6
  | control _ => n
  | adjacent n' => n'
  | link _ => 0

def keptBits : BitVec 6 := 0x30

def holdAdjacent (n : BitVec 6) : DescSetter → BitVec 6
  | control _ => n
  | adjacent n' => n &&& keptBits ||| n'
  | link _ => 0

def countsSince (l : List (BitVec 6)) : DescSetter → List (BitVec 6)
  | control _ => l
  | adjacent n => n :: l
  | link _ => [0]

end DescSetter

theorem controlField_valid (c : BitVec 8) : c.setWidth 32 &&& ~~~lsByteMask = 0 := by
  revert c
  decide

theorem xdmaDescControlSet_control (d : XdmaDesc) (c : BitVec 8) :
    (xdmaDescControlSet d (c.setWidth 32)).control = d.control &&& ~~~lsByteMask ||| c.setWidth 32 := by
  rw [xdmaDescControlSet, if_neg (not_not.mpr (controlField_valid c))]

theorem xdmaDescAdjacent_control (d : XdmaDesc) (n : U32) :
    (xdmaDescAdjacent d n).control = d.control &&& (0x0000f0ff : U32) |||
      ((0xAD4B0000 : U32) ||| n <<< 8) := rfl

theorem xdmaDescLink_control (d : XdmaDesc) (second : Option U64) :
    (xdmaDescLink d second).control = d.control &&& 0x00FFC0ff ||| descMagic := rfl

theorem controlField_fields (c : BitVec 8) : (c.setWidth 32).extractLsb' 16 16 = 0#16 ∧
    (c.setWidth 32).extractLsb' 0 8 = c ∧ (c.setWidth 32).extractLsb' 8 6 = 0#6 := by
  revert c
  decide

theorem nextAdjacent_fields (n : BitVec 6) :
    ((0xAD4B0000 : U32) ||| n.setWidth 32 <<< 8).extractLsb' 16 16 = 0xAD4B#16 ∧
      ((0xAD4B0000 : U32) ||| n.setWidth 32 <<< 8).extractLsb' 0 8 = 0#8 ∧
      ((0xAD4B0000 : U32) ||| n.setWidth 32 <<< 8).extractLsb' 8 6 = n := by
  revert n
  decide

namespace DescSetter

section

variable (d : XdmaDesc) (op : DescSetter)

theorem apply_magic (h : d.magic = 0xAD4B) : (apply d op).magic = 0xAD4B := by
  rw [XdmaDesc.magic] at h ⊢
  cases op with
  | control c =>
    rw [apply, xdmaDescControlSet_control, field_or_zero (controlField_fields c).1, field_kept (by decide), h]
  | adjacent n =>
    rw [apply, xdmaDescAdjacent_control, BitVec.extractLsb'_or, field_cleared (by decide), BitVec.zero_or,
      (nextAdjacent_fields n).1]
    rfl
  | link second =>
    rw [apply, xdmaDescLink_control, BitVec.extractLsb'_or, BitVec.extractLsb'_and, h]
    decide

theorem apply_controlByte : (apply d op).controlByte = op.setControl d.controlByte := by
  rw [XdmaDesc.controlByte, XdmaDesc.controlByte]
  cases op with
  | control c =>
    rw [apply, xdmaDescControlSet_control, BitVec.extractLsb'_or, field_cleared (by decide), BitVec.zero_or]
    exact (controlField_fields c).2.1
  | adjacent n =>
    rw [apply, xdmaDescAdjacent_control, field_or_zero (nextAdjacent_fields n).2.1, field_kept (by decide)]
    rfl
  | link second =>
    rw [apply, xdmaDescLink_control, field_or_zero (by decide), field_kept (by decide)]
    rfl

theorem apply_adjacentCount : (apply d op).adjacentCount = op.holdAdjacent d.adjacentCount := by
  rw [XdmaDesc.adjacentCount, XdmaDesc.adjacentCount]
  cases op with
  | control c =>
    rw [apply, xdmaDescControlSet_control, field_or_zero (controlField_fields c).2.2, field_kept (by decide)]
    rfl
  | adjacent n =>
    rw [apply, xdmaDescAdjacent_control, BitVec.extractLsb'_or, BitVec.extractLsb'_and,
      (nextAdjacent_fields n).2.2]
    rfl
  | link second =>
    rw [apply, xdmaDescLink_control, field_or_zero (by decide), field_cleared (by decide)]
    rfl

end

end DescSetter

/-- What the field holds after the counts of `l`, the last one first. -/
def heldCount : List (BitVec 6) → BitVec 6
  | [] => 0#6
  | n :: l => heldCount l &&& DescSetter.keptBits ||| n

theorem heldCount_countsSince (l : List (BitVec 6)) (op : DescSetter) :
    heldCount (op.countsSince l) = op.holdAdjacent (heldCount l) := by
  cases op with
  | control c => rfl
  | adjacent n => rfl
  | link second => rfl

theorem heldCount_foldl (ops : List DescSetter) (l : List (BitVec 6)) :
    heldCount (ops.foldl DescSetter.countsSince l) = ops.foldl DescSetter.holdAdjacent (heldCount l) := by
  induction ops generalizing l with
  | nil => rfl
  | cons op ops ih => rw [List.foldl_cons, List.foldl_cons, ih, heldCount_countsSince]

theorem countsSince_foldl (ops : List DescSetter) (n : BitVec 6) (l : List (BitVec 6)) :
    ∃ l', ops.foldl DescSetter.countsSince (n :: l) = ops.foldl DescSetter.setAdjacent n :: l' := by
  induction ops generalizing n l with
  | nil => exact ⟨l, rfl⟩
  | cons op ops ih =>
    cases op with
    | control c => exact ih n l
    | adjacent n' => exact ih n' (n :: l)
    | link second => exact ih 0 []

theorem heldCount_within_iff (l : List (BitVec 6)) (n : BitVec 6) :
    heldCount l &&& DescSetter.keptBits ||| n = n ↔ ∀ m ∈ l, m &&& DescSetter.keptBits &&& ~~~n = 0 := by
  induction l with
  | nil =>
    refine iff_of_true ?_ fun m hm => absurd hm List.not_mem_nil
    rw [heldCount, BitVec.zero_and, BitVec.zero_or]
  | cons m l ih =>
    rw [heldCount, BitVec.and_or_distrib_right, BitVec.and_assoc, BitVec.and_self, or_or_eq_right_iff, ih,
      or_eq_right_iff_and_not, List.forall_mem_cons]
    exact and_comm

/-- No count in force before the last one has a bit that `xdma_desc_adjacent` does not clear and
the last one does not set. -/
def AdjacentFits (n : BitVec 6) (ops : List DescSetter) : Prop :=
  ∀ m ∈ ops.foldl DescSetter.countsSince [n], m &&& DescSetter.keptBits &&&
    ~~~(ops.foldl DescSetter.setAdjacent n) = 0

instance (n : BitVec 6) (ops : List DescSetter) : Decidable (AdjacentFits n ops) :=
  inferInstanceAs (Decidable (∀ m ∈ _, _))

section

variable {d : XdmaDesc} (ops : List DescSetter)

theorem setters_magic (h : d.magic = 0xAD4B) : (ops.foldl DescSetter.apply d).magic = 0xAD4B := by
  induction ops generalizing d with
  | nil => exact h
  | cons op ops ih => exact ih (op.apply_magic d h)

theorem setters_controlByte :
    (ops.foldl DescSetter.apply d).controlByte = ops.foldl DescSetter.setControl d.controlByte := by
  induction ops generalizing d with
  | nil => rfl
  | cons op ops ih => rw [List.foldl_cons, List.foldl_cons, ih, DescSetter.apply_controlByte]

theorem setters_adjacentCount :
    (ops.foldl DescSetter.apply d).adjacentCount = ops.foldl DescSetter.holdAdjacent d.adjacentCount := by
  induction ops generalizing d with
  | nil => rfl
  | cons op ops ih => rw [List.foldl_cons, List.foldl_cons, ih, DescSetter.apply_adjacentCount]

theorem holdAdjacent_foldl_iff (n : BitVec 6) :
    ops.foldl DescSetter.holdAdjacent n = ops.foldl DescSetter.setAdjacent n ↔ AdjacentFits n ops := by
  obtain ⟨l, hl⟩ := countsSince_foldl ops n []
  have hone : heldCount [n] = n := by rw [heldCount, heldCount, BitVec.zero_and, BitVec.zero_or]
  have hheld := heldCount_foldl ops [n]
  rw [hone, hl, heldCount] at hheld
  rw [← hheld, heldCount_within_iff, AdjacentFits, hl, List.forall_mem_cons]
  refine (and_iff_right ?_).symm
  rw [BitVec.and_assoc, BitVec.and_comm DescSetter.keptBits, ← BitVec.and_assoc, BitVec.and_not_self]
  exact BitVec.zero_and

end

/-- Each field holds what was set last, apart from what is left of an earlier count. -/
theorem setters_independent_iff (d : XdmaDesc) (ops : List DescSetter) (h : d.magic = 0xAD4B) :
    ((ops.foldl DescSetter.apply d).magic = 0xAD4B ∧
        (ops.foldl DescSetter.apply d).controlByte = ops.foldl DescSetter.setControl d.controlByte ∧
        (ops.foldl DescSetter.apply d).adjacentCount = ops.foldl DescSetter.setAdjacent d.adjacentCount) ↔
      AdjacentFits d.adjacentCount ops := by
  rw [and_iff_right (setters_magic ops h), and_iff_right (setters_controlByte ops), setters_adjacentCount]
  exact holdAdjacent_foldl_iff ops d.adjacentCount

def initDesc : XdmaDesc := ⟨descMagic, 0, 0, 0, 0, 0, 0, 0⟩

theorem setters_relinked :
    ([.adjacent 32, .control 3, .link none, .adjacent 1].foldl DescSetter.apply initDesc).magic = 0xAD4B ∧
      ([.adjacent 32, .control 3, .link none, .adjacent 1].foldl DescSetter.apply initDesc).controlByte = 3 ∧
      ([.adjacent 32, .control 3, .link none,
        .adjacent 1].foldl DescSetter.apply initDesc).adjacentCount = 1 :=
  (setters_independent_iff initDesc [.adjacent 32, .control 3, .link none,
    .adjacent 1] (by decide)).mpr (by decide)

/-- A count of one after a count of 32 leaves 33. -/
theorem adjacent_kept : ¬ ∀ (d : XdmaDesc) (ops : List DescSetter), d.magic = 0xAD4B →
    (ops.foldl DescSetter.apply d).magic = 0xAD4B ∧
      (ops.foldl DescSetter.apply d).controlByte = ops.foldl DescSetter.setControl d.controlByte ∧
      (ops.foldl DescSetter.apply d).adjacentCount = ops.foldl DescSetter.setAdjacent d.adjacentCount := by
  intro h
  have hcount := (h initDesc [.adjacent 32, .adjacent 1] (by decide)).2.2
  exact absurd hcount (by decide)

end XdmaDriver
