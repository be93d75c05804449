import Mathlib.Data.BitVec
import Mathlib.Tactic.Common
import Mathlib.Tactic.NormNum
import Mathlib.Tactic.Linarith

namespace XdmaDriver

abbrev U8 := BitVec 8
abbrev U32 := BitVec 32
abbrev U64 := BitVec 64

-- The numerals of `Fin 2`, which number the slots of the double buffer, all use this one.
instance (priority := 2000) neZeroTwo : NeZero 2 := ⟨by decide⟩

/-- Linux error numbers; a call returns them negated. -/
inductive Errno
  | io | noMem | busy | fault | inval | timedOut | restartSys | iocbQueued
  deriving DecidableEq, Repr

def Errno.val : Errno → ℤ
  | .io => 5
  | .noMem => 12
  | .fault => 14
  | .busy => 16
  | .inval => 22
  | .timedOut => 110
  | .restartSys => 512
  | .iocbQueued => 529

def err (e : Errno) : ℤ := -e.val

@[simp] theorem err_neg (e : Errno) : err e < 0 := by cases e <;> decide

def xdmaMaxAdjBlockSize : ℕ := 0x40
def xdmaPageSize : ℕ := 0x1000
def rxStatusEop : U32 := 1
def xdmaEngineXferMaxDesc : ℕ := 0x800
def xdmaEngineCreditXferMaxDesc : ℕ := 0x3FF
def xdmaDescBlenMax : ℕ := 2 ^ 28 - 1

def xdmaCtrlRunStop : U32 := 1 <<< 0
def xdmaCtrlIeDescStopped : U32 := 1 <<< 1
def xdmaCtrlIeDescCompleted : U32 := 1 <<< 2
def xdmaCtrlIeDescAlignMismatch : U32 := 1 <<< 3
def xdmaCtrlIeMagicStopped : U32 := 1 <<< 4
def xdmaCtrlIeIdleStopped : U32 := 1 <<< 6
def xdmaCtrlIeReadError : U32 := 0x1F <<< 9
def xdmaCtrlIeDescError : U32 := 0x1F <<< 19
def xdmaCtrlNonIncrAddr : U32 := 1 <<< 25
def xdmaCtrlPollModeWb : U32 := 1 <<< 26

def xdmaStatBusy : U32 := 1 <<< 0
def xdmaStatDescStopped : U32 := 1 <<< 1
def xdmaStatDescCompleted : U32 := 1 <<< 2
def xdmaStatAlignMismatch : U32 := 1 <<< 3
def xdmaStatMagicStopped : U32 := 1 <<< 4
def xdmaStatInvalidLen : U32 := 1 <<< 5

def xdmaStatCommonErrMask : U32 :=
  xdmaStatAlignMismatch ||| xdmaStatMagicStopped ||| xdmaStatInvalidLen

/-- `DESC_UNSUPP_REQ` to `DESC_UNEXP_COMPL`, bits 19 to 23. -/
def xdmaStatDescErrMask : U32 :=
  1 <<< 19 ||| 1 <<< 20 ||| 1 <<< 21 ||| 1 <<< 22 ||| 1 <<< 23

/-- `H2C_R_UNSUPP_REQ` to `H2C_R_UNEXP_COMPL`, bits 9 to 13. -/
def xdmaStatH2cRErrMask : U32 :=
  1 <<< 9 ||| 1 <<< 10 ||| 1 <<< 11 ||| 1 <<< 12 ||| 1 <<< 13

def xdmaStatH2cWErrMask : U32 := 1 <<< 14 ||| 1 <<< 15

def xdmaStatC2hRErrMask : U32 := 1 <<< 9 ||| 1 <<< 10

def xdmaStatH2cErrMask : U32 :=
  xdmaStatCommonErrMask ||| xdmaStatDescErrMask ||| xdmaStatH2cRErrMask ||| xdmaStatH2cWErrMask

def xdmaStatC2hErrMask : U32 :=
  xdmaStatCommonErrMask ||| xdmaStatDescErrMask ||| xdmaStatC2hRErrMask

def xdmaDescStopped : U32 := 1 <<< 0
def xdmaDescCompleted : U32 := 1 <<< 1
def xdmaDescEop : U32 := 1 <<< 4

def wbCountMask : U32 := 0x00ffffff
def wbErrMask : U32 := 1 <<< 31
def descMagic : U32 := 0xAD4B0000
def lsByteMask : U32 := 0xFF
def blockIdMask : U32 := 0xFFF00000
def blockIdHead : U32 := 0x1FC00000

/-- Module parameters `desc_blen_max`, `poll_mode` and `enable_st_c2h_credit`, and
`sizeof(struct xdma_request_cb)`, which depends on the configuration of the kernel. -/
structure Params where
  descBlenMax : ℕ := xdmaDescBlenMax
  pollMode : Bool := false
  enableStC2hCredit : Bool := false
  requestCbBytes : ℕ := 336

inductive DmaDir
  | toDevice | fromDevice
  deriving DecidableEq, Repr

inductive TransferState
  | new | submitted | completed | failed | aborted
  deriving DecidableEq, Repr

/-- The two bits of `enum shutdown_state`. -/
structure ShutdownState where
  request : Bool := false
  idle : Bool := false
  deriving DecidableEq, Repr

structure XdmaDesc where
  control : U32
  bytes : U32
  srcAddrLo : U32
  srcAddrHi : U32
  dstAddrLo : U32
  dstAddrHi : U32
  nextLo : U32
  nextHi : U32
  deriving DecidableEq, Repr

structure XdmaResult where
  status : U32
  length : U32
  deriving DecidableEq, Repr

/-- The address of an embedded `struct xdma_transfer`: `&req->tfer[idx]`. -/
structure XferRef where
  req : ℕ
  idx : ℕ
  deriving DecidableEq, Repr

/-- The address of a `struct xdma_io_cb`: that of a double-buffer slot of the
character device, or the `i`-th one of a `cdev_async_io`. The `io_done` field is
`dbuf_io_done` for the first kind and `async_io_handler` for the second. -/
inductive IoCb
  | dbuf (slot : Fin 2)
  | aio (caio i : ℕ)
  deriving DecidableEq, Repr

/-- `desc_virt`, `desc_bus`, `res_virt` and `res_bus` are the ring bases of the
engine plus `descIndex` entries, so only the index is kept. -/
structure XdmaTransfer where
  descAdjacent : ℕ := 0
  descNum : ℕ := 0
  descIndex : ℕ := 0
  descCmpl : ℕ := 0
  descCmplTh : ℕ := 0
  dir : DmaDir := .toDevice
  state : TransferState := .new
  needUnmap : Bool := false
  eopRcved : Bool := false
  cyclic : Bool := false
  lastInRequest : Bool := false
  len : U32 := 0
  cb : Option IoCb := none
  deriving DecidableEq, Repr

structure SgEntry where
  dmaAddress : U64
  dmaLen : U32
  deriving DecidableEq, Repr

structure SwDesc where
  addr : U64
  len : ℕ
  deriving DecidableEq, Repr

/-- `struct xdma_request_cb` without its `tfer` array, which lives in the
transfer store under `XferRef`. -/
structure XdmaRequestCb where
  epAddr : U64 := 0
  aperture : U32 := 0
  totalLen : U32 := 0
  offset : U32 := 0
  sgIdx : ℕ := 0
  sgOffset : U32 := 0
  cb : Option IoCb := none
  swDescIdx : ℕ := 0
  swDescCnt : ℕ := 0
  sdesc : List SwDesc := []
  deriving DecidableEq, Repr

structure EngineRegs where
  control : U32 := 0
  interruptEnableMask : U32 := 0
  firstDescLo : U32 := 0
  firstDescHi : U32 := 0
  firstDescAdjacent : U32 := 0
  credits : U32 := 0
  deriving DecidableEq, Repr

/-- The fields of `struct xdma_performance_ioctl` that the service path writes. -/
structure XdmaPerf where
  iterations : U32 := 0
  stopped : Bool := false
  deriving DecidableEq, Repr

/-- `struct xdma_engine`. The last two fields are ghosts: the transfer whose
first descriptor `engine_start` programmed last, and how often it did. -/
structure XdmaEngine where
  dir : DmaDir := .fromDevice
  streaming : Bool := false
  nonIncrAddr : Bool := false
  eopFlush : Bool := false
  running : Bool := false
  shutdown : ShutdownState := {}
  descDequeued : ℕ := 0
  descMax : ℕ := xdmaEngineXferMaxDesc
  status : U32 := 0
  transferList : List XferRef := []
  descBus : U64 := 0
  desc : ℕ → XdmaDesc := fun _ => ⟨0, 0, 0, 0, 0, 0, 0, 0⟩
  cyclicResultBus : U64 := 0
  cyclicResult : ℕ → XdmaResult := fun _ => ⟨0, 0⟩
  descIdx : ℕ := 0
  descUsed : ℤ := 0
  xdmaPerf : Option XdmaPerf := none
  regs : EngineRegs := {}
  started : Option XferRef := none
  starts : ℕ := 0

/-- What another context can see of a completion: the wake-up of the wait queue
of a transfer, and the call of `io_done`. -/
inductive Event
  | wake (t : XferRef)
  | ioDone (cb : IoCb) (err : ℤ)
  deriving DecidableEq, Repr

/-- The state one engine works on: the engine, the memory of all transfers, the
`XDEV_FLAG_OFFLINE` flag of the device, and the notifications sent so far. -/
structure Drv where
  eng : XdmaEngine := {}
  tfer : XferRef → XdmaTransfer := fun _ => {}
  offline : Bool := false
  log : List Event := []

namespace Drv

def modify (s : Drv) (t : XferRef) (f : XdmaTransfer → XdmaTransfer) : Drv :=
  { s with tfer := Function.update s.tfer t (f (s.tfer t)) }

def listDelHead (s : Drv) : Drv :=
  { s with eng := { s.eng with transferList := s.eng.transferList.tail } }

section

variable (s : Drv) (t u : XferRef) (f : XdmaTransfer → XdmaTransfer)

@[simp] theorem modify_eng : (s.modify t f).eng = s.eng := rfl
@[simp] theorem modify_log : (s.modify t f).log = s.log := rfl
@[simp] theorem modify_offline : (s.modify t f).offline = s.offline := rfl
@[simp] theorem modify_self : (s.modify t f).tfer t = f (s.tfer t) := by simp [modify]
theorem modify_tfer : (s.modify t f).tfer u = if u = t then f (s.tfer u) else s.tfer u := by
  by_cases h : u = t
  · subst h
    simp
  · simp [modify, h]
theorem modify_of_ne (h : u ≠ t) : (s.modify t f).tfer u = s.tfer u := by
  simp [modify_tfer, h]
@[simp] theorem listDelHead_tfer : s.listDelHead.tfer = s.tfer := rfl
@[simp] theorem listDelHead_log : s.listDelHead.log = s.log := rfl
@[simp] theorem listDelHead_offline : s.listDelHead.offline = s.offline := rfl

end

end Drv

def u32Sub (a b : ℕ) : ℕ := (a + (2 ^ 32 - b % 2 ^ 32)) % 2 ^ 32

theorem u32Sub_of_le {a b : ℕ} (h : b ≤ a) (ha : a < 2 ^ 32) : u32Sub a b = a - b := by
  unfold u32Sub
  omega

@[simp] theorem u32Sub_zero {a : ℕ} (ha : a < 2 ^ 32) : u32Sub a 0 = a := u32Sub_of_le (Nat.zero_le _) ha

end XdmaDriver
