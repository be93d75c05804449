import XdmaDriver.Types

namespace XdmaDriver

def pciDmaL (addr : U64) : U32 := addr.setWidth 32

def pciDmaH (addr : U64) : U32 := ((addr >>> 16) >>> 16).setWidth 32

def dmaAddr (hi lo : U32) : U64 := hi ++ lo

@[simp] theorem dmaAddr_split (addr : U64) : dmaAddr (pciDmaH addr) (pciDmaL addr) = addr := by
  apply BitVec.eq_of_toNat_eq
  simp only [dmaAddr, pciDmaH, pciDmaL, BitVec.toNat_append, BitVec.toNat_setWidth,
    BitVec.toNat_ushiftRight, Nat.shiftLeft_eq, Nat.shiftRight_eq_div_pow]
  rw [← Nat.shiftLeft_eq, ← Nat.shiftLeft_add_eq_or_of_lt (Nat.mod_lt _ (by norm_num)),
    Nat.shiftLeft_eq]
  have := addr.isLt
  omega

namespace XdmaDesc

def srcAddr (d : XdmaDesc) : U64 := dmaAddr d.srcAddrHi d.srcAddrLo

def dstAddr (d : XdmaDesc) : U64 := dmaAddr d.dstAddrHi d.dstAddrLo

def hostAddr (dir : DmaDir) (d : XdmaDesc) : U64 :=
  match dir with
  | .toDevice => d.srcAddr
  | .fromDevice => d.dstAddr

def devAddr (dir : DmaDir) (d : XdmaDesc) : U64 :=
  match dir with
  | .toDevice => d.dstAddr
  | .fromDevice => d.srcAddr

end XdmaDesc

def xdmaDescControlSet (d : XdmaDesc) (controlField : U32) : XdmaDesc :=
  if controlField &&& ~~~lsByteMask ≠ 0 then d
  else { d with control := (d.control &&& ~~~lsByteMask) ||| controlField }

def xdmaDescAdjacent (d : XdmaDesc) (nextAdjacent : U32) : XdmaDesc :=
  { d with control := (d.control &&& 0x0000f0ff) ||| (0xAD4B0000 ||| (nextAdjacent <<< 8)) }

def xdmaDescSet (d : XdmaDesc) (rcBusAddr epAddr : U64) (len : U32) (dir : DmaDir) : XdmaDesc :=
  match dir with
  | .toDevice =>
    { d with
      bytes := len
      srcAddrLo := pciDmaL rcBusAddr, srcAddrHi := pciDmaH rcBusAddr
      dstAddrLo := pciDmaL epAddr, dstAddrHi := pciDmaH epAddr }
  | .fromDevice =>
    { d with
      bytes := len
      srcAddrLo := pciDmaL epAddr, srcAddrHi := pciDmaH epAddr
      dstAddrLo := pciDmaL rcBusAddr, dstAddrHi := pciDmaH rcBusAddr }

def xdmaGetNextAdj (remaining : ℕ) (nextLo : U32) : ℕ :=
  if remaining ≤ 1 then 0
  else
    let nextIndex := ((nextLo.toNat % xdmaPageSize) / 2 ^ 5) % xdmaMaxAdjBlockSize
    min (xdmaMaxAdjBlockSize - nextIndex - 1) (remaining - 1)

namespace XdmaEngine

def descBusAt (e : XdmaEngine) (i : ℕ) : U64 := e.descBus + BitVec.ofNat 64 (32 * i)

def resBusAt (e : XdmaEngine) (i : ℕ) : U64 := e.cyclicResultBus + BitVec.ofNat 64 (32 * i)

end XdmaEngine

def updateSlots (desc : ℕ → XdmaDesc) (i n : ℕ) (f : ℕ → XdmaDesc → XdmaDesc) : ℕ → XdmaDesc :=
  fun j => if i ≤ j ∧ j < i + n then f j (desc j) else desc j

theorem updateSlots_of_mem {desc : ℕ → XdmaDesc} {i n j : ℕ} {f : ℕ → XdmaDesc → XdmaDesc}
    (h : i ≤ j ∧ j < i + n) : updateSlots desc i n f j = f j (desc j) := if_pos h

theorem updateSlots_of_not_mem {desc : ℕ → XdmaDesc} {i n j : ℕ} {f : ℕ → XdmaDesc → XdmaDesc}
    (h : ¬ (i ≤ j ∧ j < i + n)) : updateSlots desc i n f j = desc j := if_neg h

/-- Chain the slots `i, ..., i + count - 1` and terminate the last one. -/
def transferDescInit (e : XdmaEngine) (i count : ℕ) : ℕ → XdmaDesc :=
  updateSlots e.desc i count fun j d =>
    let next := if j + 1 < i + count then e.descBusAt (j + 1) else 0
    { d with nextLo := pciDmaL next, nextHi := pciDmaH next, bytes := 0, control := descMagic }

/-- `xdma_desc_done`: a `memset` to zero. -/
def xdmaDescDone (desc : ℕ → XdmaDesc) (i count : ℕ) : ℕ → XdmaDesc :=
  updateSlots desc i count fun _ _ => ⟨0, 0, 0, 0, 0, 0, 0, 0⟩

section

variable (d : XdmaDesc) (c : U32) (dir : DmaDir)

@[simp] theorem xdmaDescControlSet_bytes : (xdmaDescControlSet d c).bytes = d.bytes := by
  unfold xdmaDescControlSet
  split <;> rfl

@[simp] theorem xdmaDescControlSet_hostAddr :
    (xdmaDescControlSet d c).hostAddr dir = d.hostAddr dir := by
  unfold xdmaDescControlSet
  split <;> cases dir <;> rfl

@[simp] theorem xdmaDescControlSet_devAddr :
    (xdmaDescControlSet d c).devAddr dir = d.devAddr dir := by
  unfold xdmaDescControlSet
  split <;> cases dir <;> rfl

@[simp] theorem xdmaDescAdjacent_bytes : (xdmaDescAdjacent d c).bytes = d.bytes := rfl

@[simp] theorem xdmaDescAdjacent_hostAddr :
    (xdmaDescAdjacent d c).hostAddr dir = d.hostAddr dir := by cases dir <;> rfl

@[simp] theorem xdmaDescAdjacent_devAddr :
    (xdmaDescAdjacent d c).devAddr dir = d.devAddr dir := by cases dir <;> rfl

variable (rc ep : U64) (len : U32)

@[simp] theorem xdmaDescSet_bytes : (xdmaDescSet d rc ep len dir).bytes = len := by
  cases dir <;> rfl

@[simp] theorem xdmaDescSet_hostAddr : (xdmaDescSet d rc ep len dir).hostAddr dir = rc := by
  cases dir <;> simp [xdmaDescSet, XdmaDesc.hostAddr, XdmaDesc.srcAddr, XdmaDesc.dstAddr]

@[simp] theorem xdmaDescSet_devAddr : (xdmaDescSet d rc ep len dir).devAddr dir = ep := by
  cases dir <;> simp [xdmaDescSet, XdmaDesc.devAddr, XdmaDesc.srcAddr, XdmaDesc.dstAddr]

end

end XdmaDriver
