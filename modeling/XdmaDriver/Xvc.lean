import XdmaDriver.Types
import XdmaDriver.Lib.BitWords

/-!
The JTAG bridge of the `xvc` node: `xvc_shift_bits` and `xvc_ioctl`.
-/

namespace XdmaDriver

open BitWords

def completionLoopMax : ℕ := 100

def enoioctlcmd : ℤ := 515

structure XvcRegs where
  length : U32 := 0
  tms : U32 := 0
  tdi : U32 := 0
  deriving DecidableEq, Repr

/-- What the hardware answers to one shift: `control i` is the `i`-th read of the control
register after the shift was enabled, and `tdo` is then the word shifted out. -/
structure XvcAnswer where
  control : ℕ → U32 := fun _ => 0
  tdo : U32 := 0

/-- The loop that polls for completion; `false` when `count` runs out. -/
def pollCompletion (control : ℕ → U32) : ℕ → ℕ → Bool
  | 0, _ => false
  | count + 1, i => if control i &&& 0x01 = 0 then true else pollCompletion control count (i + 1)

def XvcAnswer.TimesOut (a : XvcAnswer) : Prop := pollCompletion a.control completionLoopMax 0 = false

instance (a : XvcAnswer) : Decidable a.TimesOut := inferInstanceAs (Decidable (_ = _))

def xvcShiftBits (a : XvcAnswer) (regs : XvcRegs) (tmsBits tdiBits : U32) : XvcRegs × Except Errno U32 :=
  let regs := { regs with tms := tmsBits, tdi := tdiBits }
  if a.TimesOut then (regs, .error .timedOut) else (regs, .ok a.tdo)

/-- The three areas of the buffer, `total_bytes` each. -/
inductive XvcArea
  | tms | tdi | tdo
  deriving DecidableEq, Repr

def XvcArea.start (totalBytes : U32) : XvcArea → ℕ
  | .tms => 0
  | .tdi => totalBytes.toNat
  | .tdo => totalBytes.toNat + totalBytes.toNat

structure XvcCopy where
  area : XvcArea
  off : ℕ
  len : ℕ
  deriving DecidableEq, Repr

def storeWord (buf : ℕ → U8) (off len : ℕ) (x : U32) : ℕ → U8 := fun p =>
  if off ≤ p ∧ p < off + len then byteAt x (p - off) else buf p

/-- The variables of the shift loop, the registers and the memory from `buffer` on. The last
two fields are ghosts: what the registers held at each shift, and the copies so far. -/
structure XvcLoop where
  bits : U32 := 0
  bitsLeft : U32
  rv : ℤ := 0
  regs : XvcRegs
  buf : ℕ → U8
  shifts : List XvcRegs := []
  copies : List XvcCopy := []

def XvcLoop.Running (totalBits : U32) (s : XvcLoop) : Prop := 0 ≤ s.rv ∧ s.bits < totalBits

instance (totalBits : U32) (s : XvcLoop) : Decidable (s.Running totalBits) :=
    inferInstanceAs (Decidable (_ ∧ _))

/-- One round of the shift loop, up to its increments; `dev k` answers the `k`-th shift. -/
def xvcRound (totalBytes : U32) (dev : ℕ → XvcAnswer) (s : XvcLoop) : XvcLoop :=
  let bytes := (s.bits >>> 3).toNat
  let regs := if s.bitsLeft < 32 then { s.regs with length := s.bitsLeft } else s.regs
  let shiftBytes := if s.bitsLeft < 32 then ((s.bitsLeft + 7) >>> 3).toNat else 4
  let tmsStore := ofBytes 32 (fun i => s.buf (XvcArea.tms.start totalBytes + (bytes + i))) shiftBytes
  let tdiStore := ofBytes 32 (fun i => s.buf (XvcArea.tdi.start totalBytes + (bytes + i))) shiftBytes
  let (regs, tdo) := xvcShiftBits (dev s.shifts.length) regs tmsStore tdiStore
  let s := { s with
    regs := regs
    shifts := s.shifts ++ [regs]
    copies := s.copies ++ [XvcCopy.mk .tms bytes shiftBytes, XvcCopy.mk .tdi bytes shiftBytes] }
  match tdo with
  | .error e => { s with rv := err e }
  | .ok tdoStore =>
    { s with
      rv := 0
      buf := storeWord s.buf (XvcArea.tdo.start totalBytes + bytes) shiftBytes tdoStore
      copies := s.copies ++ [XvcCopy.mk .tdo bytes shiftBytes]
      bits := s.bits + 32
      bitsLeft := s.bitsLeft - 32 }

def xvcLoop (totalBits totalBytes : U32) (dev : ℕ → XvcAnswer) : ℕ → XvcLoop → XvcLoop
  | 0, s => s
  | k + 1, s =>
    if s.Running totalBits then xvcLoop totalBits totalBytes dev k (xvcRound totalBytes dev s) else s

def xvcTotalBytes (totalBits : U32) : U32 := (totalBits + 7) >>> 3

def xvcStart (totalBits : U32) (regs : XvcRegs) (buf : ℕ → U8) : XvcLoop :=
  { bitsLeft := totalBits
    regs := if 32 ≤ totalBits then { regs with length := 0x20 } else regs
    buf := buf }

/-- `struct xvc_ioc`, with the bytes that the user buffers hold. -/
structure XvcIoc where
  opcode : U32
  length : U32
  tmsBuf : ℕ → U8
  tdiBuf : ℕ → U8

/-- What one call of `xvc_ioctl` meets: the results of `xcdev_check` and of the comparison
of the command, the bytes that each copy leaves uncopied, the allocation and what it
returns, the registers as they are and the answers of the hardware. -/
structure XvcEnv where
  xcdevCheck : ℤ := 0
  isXvcCmd : Bool := true
  copyIoc : ℕ := 0
  copyTms : ℕ := 0
  copyTdi : ℕ := 0
  copyTdo : ℕ := 0
  kmalloc : Bool := true
  fresh : ℕ → U8 := fun _ => 0
  regs : XvcRegs := {}
  dev : ℕ → XvcAnswer

structure XvcResult where
  rv : ℤ
  shifts : List XvcRegs := []
  copies : List XvcCopy := []
  userTdo : Option (List U8) := none
  deriving DecidableEq, Repr

def xvcBuffer (ioc : XvcIoc) (fresh : ℕ → U8) : ℕ → U8 :=
  let n := (xvcTotalBytes ioc.length).toNat
  fun p => if p < n then ioc.tmsBuf p else if p < n + n then ioc.tdiBuf (p - n) else fresh p

/-- `xvc_ioctl`; `none` when the shift loop has not ended after `fuel` rounds. -/
def xvcIoctl (fuel : ℕ) (env : XvcEnv) (ioc : XvcIoc) : Option XvcResult :=
  if env.xcdevCheck < 0 then some { rv := env.xcdevCheck }
  else if env.isXvcCmd = false then some { rv := -enoioctlcmd }
  else if env.copyIoc ≠ 0 then some { rv := env.copyIoc }
  else if ioc.opcode ≠ 0x01 ∧ ioc.opcode ≠ 0x02 then some { rv := err .inval }
  else if env.kmalloc = false then some { rv := err .noMem }
  else if env.copyTms ≠ 0 then some { rv := env.copyTms }
  else if env.copyTdi ≠ 0 then some { rv := env.copyTdi }
  else
    let totalBytes := xvcTotalBytes ioc.length
    let s := xvcLoop ioc.length totalBytes env.dev fuel
      (xvcStart ioc.length env.regs (xvcBuffer ioc env.fresh))
    if s.Running ioc.length then none
    else if s.rv < 0 then some { rv := s.rv, shifts := s.shifts, copies := s.copies }
    else
      -- the test of the bar access returns the TDI bytes
      let area : XvcArea := if ioc.opcode = 0x02 then .tdi else .tdo
      some {
        rv := env.copyTdo
        shifts := s.shifts
        copies := s.copies
        userTdo := some ((List.range (totalBytes.toNat - env.copyTdo)).map fun i =>
          s.buf (area.start totalBytes + i)) }

end XdmaDriver
