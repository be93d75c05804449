import XdmaDriver.Bars
import XdmaDriver.DeviceList
import Mathlib.Data.List.TakeWhile

/-!
What `xdma_device_open` acquires, what it gives back at each of its failures, and what
`xdma_device_close` gives back.
-/

namespace XdmaDriver

open Ledger

inductive EngineBuf
  | desc | pollModeAddr | cyclicResult
  deriving DecidableEq, Repr

def EngineBuf.bytes (descMax : ℕ) : EngineBuf → ℕ
  | .desc => descMax * 32
  | .pollModeAddr => 32
  | .cyclicResult => descMax * 32

inductive DevRes
  | xdev
  | listed
  | enabled
  | regions
  | vectors
  | msi
  | coherent (buf : EngineBuf) (dir : DmaDir) (channel bytes : ℕ)
  | work (dir : DmaDir) (channel : ℕ)
  deriving DecidableEq

def xdmaEngIrqNum : ℕ := 1

/-- The `irq_bitmask` of an engine that finds `n` engines there. -/
def engineIrqBitmask (n : ℕ) : U32 := ((1 : U32) <<< xdmaEngIrqNum - 1) <<< (n * xdmaEngIrqNum)

/-- The identifier register of an engine, and which of its buffers can be allocated. -/
structure EngineProbe where
  identifier : U32
  alloc : EngineBuf → Bool

/-- The fields of `struct xdma_engine` that the probing sets and the removal reads; `irqBit` is
the bit of `irq_bitmask`. -/
structure SgEngine where
  magic : Bool := false
  irqBit : ℕ := 0
  streaming : Bool := false
  descMax : ℕ := 0
  buf : EngineBuf → Bool := fun _ => false
  cmplthp : Bool := false

/-- What the kernel and the device answer while the device is opened. -/
structure OpenEnv where
  kzalloc : Bool
  list : XdevList
  hndl : ℕ
  pci : ℕ
  threads : XdevList.ThreadsCreate
  pciEnableDevice : ℤ
  pciRequestRegions : ℤ
  bars : ℕ → PciResource
  dmaMask64 : Bool
  dmaMask32 : Bool
  engine : DmaDir → ℕ → EngineProbe
  interruptMode : ℕ
  pdev : PciDev
  userMax : ℕ
  h2cChannelMax : ℕ
  c2hChannelMax : ℕ

/-- `struct xdma_dev`, and what was acquired and released for it so far; `maskIrq` is
`mask_irq_h2c` and `mask_irq_c2h`. -/
structure OpenDev where
  irq : XdmaDev
  bars : BarMap := {}
  engine : DmaDir → ℕ → SgEngine := fun _ _ => {}
  enginesNum : ℕ := 0
  maskIrq : DmaDir → U32 := fun _ => 0
  gotRegions : Bool := false
  regionsInUse : Bool := false
  log : List (Op DevRes) := []

inductive OpenFailure
  | alloc | list | enable | regions | bars | dmaMask | msi | irq
  deriving DecidableEq

namespace OpenDev

variable (p : Params)

def acquire (d : OpenDev) (r : DevRes) : OpenDev := { d with log := d.log ++ [.acquire r] }

def release (d : OpenDev) (r : DevRes) : OpenDev := { d with log := d.log ++ [.release r] }

def setEngine (d : OpenDev) (dir : DmaDir) (ch : ℕ) (e : SgEngine) : OpenDev :=
  { d with engine := Function.update d.engine dir (Function.update (d.engine dir) ch e) }

def setBuf (d : OpenDev) (dir : DmaDir) (ch : ℕ) (buf : EngineBuf) (b : Bool) : OpenDev :=
  d.setEngine dir ch { d.engine dir ch with buf := Function.update (d.engine dir ch).buf buf b }

def channelMax (d : OpenDev) : DmaDir → ℕ
  | .toDevice => d.irq.h2cChannelMax
  | .fromDevice => d.irq.c2hChannelMax

def allocBuf (d : OpenDev) (probe : EngineProbe) (dir : DmaDir) (ch : ℕ) (buf : EngineBuf) : OpenDev × Bool :=
  if probe.alloc buf then
    ((d.setBuf dir ch buf true).acquire (.coherent buf dir ch (buf.bytes (d.engine dir ch).descMax)), true)
  else (d.setBuf dir ch buf false, false)

def freeBuf (d : OpenDev) (dir : DmaDir) (ch : ℕ) (buf : EngineBuf) : OpenDev :=
  if (d.engine dir ch).buf buf then
    (d.setBuf dir ch buf false).release (.coherent buf dir ch (buf.bytes (d.engine dir ch).descMax))
  else d

def engineFreeResource (d : OpenDev) (dir : DmaDir) (ch : ℕ) : OpenDev :=
  ((d.freeBuf dir ch .pollModeAddr).freeBuf dir ch .desc).freeBuf dir ch .cyclicResult

def engineAllocResource (d : OpenDev) (probe : EngineProbe) (dir : DmaDir) (ch : ℕ) : OpenDev × ℤ :=
  let (d, ok) := d.allocBuf probe dir ch .desc
  if !ok then (d.engineFreeResource dir ch, err .noMem)
  else
    let (d, ok) := if p.pollMode then d.allocBuf probe dir ch .pollModeAddr else (d, true)
    if !ok then (d.engineFreeResource dir ch, err .noMem)
    else
      let (d, ok) :=
        if (d.engine dir ch).streaming ∧ dir = .fromDevice then d.allocBuf probe dir ch .cyclicResult
        else (d, true)
      if !ok then (d.engineFreeResource dir ch, err .noMem) else (d, 0)

def addWork (d : OpenDev) (dir : DmaDir) (ch : ℕ) : OpenDev :=
  (d.setEngine dir ch { d.engine dir ch with cmplthp := true }).acquire (.work dir ch)

def removeWork (d : OpenDev) (dir : DmaDir) (ch : ℕ) : OpenDev :=
  if (d.engine dir ch).cmplthp then
    (d.setEngine dir ch { d.engine dir ch with cmplthp := false }).release (.work dir ch)
  else d

def initFields (e : SgEngine) (probe : EngineProbe) (dir : DmaDir) (enginesNum : ℕ) : SgEngine :=
  let streaming := e.streaming || probe.identifier &&& 0x8000 ≠ 0
  { e with
    magic := true
    irqBit := enginesNum
    streaming := streaming
    descMax :=
      if p.enableStC2hCredit ∧ streaming ∧ dir = .fromDevice then xdmaEngineCreditXferMaxDesc
      else xdmaEngineXferMaxDesc }

/-- The first half of `engine_init`. -/
def initEngine (d : OpenDev) (probe : EngineProbe) (dir : DmaDir) (ch : ℕ) : OpenDev :=
  { d.setEngine dir ch (initFields p (d.engine dir ch) probe dir d.enginesNum) with
    maskIrq := Function.update d.maskIrq dir (d.maskIrq dir ||| engineIrqBitmask d.enginesNum)
    enginesNum := d.enginesNum + 1 }

/-- `engine_init`; `engine_init_regs` does not fail. -/
def engineInit (d : OpenDev) (probe : EngineProbe) (dir : DmaDir) (ch : ℕ) : OpenDev × ℤ :=
  let (d, rv) := (d.initEngine p probe dir ch).engineAllocResource p probe dir ch
  if rv ≠ 0 then (d, rv)
  else (if p.pollMode then d.addWork dir ch else d, 0)

def engineIdExpected : DmaDir → U32
  | .toDevice => 0x1fc0
  | .fromDevice => 0x1fc1

def probeForEngine (d : OpenDev) (probe : EngineProbe) (dir : DmaDir) (ch : ℕ) : OpenDev × ℤ :=
  if (probe.identifier &&& 0xffff0000) >>> 16 ≠ engineIdExpected dir ∨
      ((probe.identifier &&& 0xf00) >>> 8).toNat ≠ ch then (d, err .inval)
  else d.engineInit p probe dir ch

/-- A loop of `probe_engines` with `n` channels left; it ends at the first one that fails, and
returns the number of those before. -/
def probeChannels (probe : ℕ → EngineProbe) (dir : DmaDir) : ℕ → ℕ → OpenDev → OpenDev × ℕ
  | 0, i, d => (d, i)
  | n + 1, i, d =>
    let (d, rv) := d.probeForEngine p (probe i) dir i
    if rv ≠ 0 then (d, i) else probeChannels probe dir n (i + 1) d

def probeEngines (d : OpenDev) (probe : DmaDir → ℕ → EngineProbe) : OpenDev :=
  let (d, i) := probeChannels p (probe .toDevice) .toDevice d.irq.h2cChannelMax 0 d
  let d := { d with irq := { d.irq with h2cChannelMax := i } }
  let (d, i) := probeChannels p (probe .fromDevice) .fromDevice d.irq.c2hChannelMax 0 d
  { d with irq := { d.irq with c2hChannelMax := i } }

/-- `engine_destroy`; in the end the engine is zeroed. -/
def engineDestroy (d : OpenDev) (dir : DmaDir) (ch : ℕ) : OpenDev :=
  let d := if p.pollMode then d.removeWork dir ch else d
  let d := d.engineFreeResource dir ch
  { d.setEngine dir ch {} with enginesNum := d.enginesNum - 1 }

def removeChannels (dir : DmaDir) : List ℕ → OpenDev → OpenDev
  | [], d => d
  | ch :: chs, d => removeChannels dir chs (if (d.engine dir ch).magic then d.engineDestroy p dir ch else d)

def removeEngines (d : OpenDev) : OpenDev :=
  let d := removeChannels p .toDevice (List.range d.irq.h2cChannelMax) d
  removeChannels p .fromDevice (List.range d.irq.c2hChannelMax) d

/-- `enable_msi_msix`: vectors are there when it does not fail. -/
def enableMsiMsix (env : OpenEnv) (d : OpenDev) : OpenDev × ℤ :=
  let (irq, rv) := d.irq.enableMsiMsix env.interruptMode env.pdev
  let d := { d with irq := irq }
  if rv < 0 then (d, rv)
  else if irq.msixEnabled then (d.acquire .vectors, rv)
  else if irq.msiEnabled then (d.acquire .msi, rv)
  else (d, rv)

def disableMsiMsix (d : OpenDev) : OpenDev :=
  let released := if d.irq.msixEnabled then d.release .vectors
    else if d.irq.msiEnabled then d.release .msi else d
  { released with irq := d.irq.disableMsiMsix }

def unmapBars (d : OpenDev) : OpenDev := { d with bars := d.bars.unmapBars }

def freeXdev (d : OpenDev) : OpenDev := d.release .xdev

def errEnable (d : OpenDev) : OpenDev := (d.release .listed).freeXdev

def errRegions (d : OpenDev) : OpenDev := errEnable (if d.regionsInUse then d else d.release .enabled)

def errMap (d : OpenDev) : OpenDev := errRegions (if d.gotRegions then d.release .regions else d)

def errMask (d : OpenDev) : OpenDev := d.unmapBars.errMap

def errEngines (d : OpenDev) : OpenDev := (d.removeEngines p).errMask

def errMsix (d : OpenDev) : OpenDev := d.disableMsiMsix.errEngines p

end OpenDev

namespace OpenEnv

variable (p : Params) (env : OpenEnv)

def setDmaMask : ℤ := if env.dmaMask64 then 0 else if env.dmaMask32 then 0 else err .inval

/-- The device after `alloc_dev_instance` and the clamping of its limits. -/
def allocDevInstance : OpenDev :=
  { irq :=
      { userMax := XdmaDev.clampMax env.userMax maxUserIrq
        h2cChannelMax := XdmaDev.clampMax env.h2cChannelMax xdmaChannelNumMax
        c2hChannelMax := XdmaDev.clampMax env.c2hChannelMax xdmaChannelNumMax }
    log := [.acquire .xdev] }

/-- What `xdev_list_add` answers; it asks for a thread for each channel there may be. -/
def xdevListAdd : ℤ :=
  let d := env.allocDevInstance.irq
  (env.list.xdevListAdd p env.hndl env.pci { env.threads with numThreads := d.h2cChannelMax +
    d.c2hChannelMax }).2

/-- The last part of `xdma_device_open`, with the BARs mapped. -/
def openEngines (d : OpenDev) : OpenDev × Option OpenFailure :=
  if env.setDmaMask ≠ 0 then (d.errMask, some .dmaMask)
  else
    let (d, rv) := (d.probeEngines p env.engine).enableMsiMsix env
    if rv < 0 then (d.errEngines p, some .msi)
    else
      let (irq, rv) := d.irq.irqSetup env.pdev
      let d := { d with irq := irq }
      if rv < 0 then (d.errMsix p, some .irq) else (d, none)

/-- `xdma_device_open`, and where it failed if it did. -/
def xdmaDeviceOpen : OpenDev × Option OpenFailure :=
  let d := env.allocDevInstance
  if !env.kzalloc then ({ d with log := [] }, some .alloc)
  else if env.xdevListAdd p < 0 then (d.freeXdev, some .list)
  else
    let d := d.acquire .listed
    if env.pciEnableDevice ≠ 0 then (d.errEnable, some .enable)
    else
      let d := d.acquire .enabled
      if env.pciRequestRegions ≠ 0 then (OpenDev.errRegions { d with regionsInUse := true }, some .regions)
      else
        let d := { d.acquire .regions with gotRegions := true }
        let (bars, rv) := mapBars env.bars
        let d := { d with bars := bars }
        if rv ≠ 0 then (d.errMap, some .bars) else env.openEngines p d

end OpenEnv

namespace OpenDev

/-- `xdma_device_close` of a device that was opened. -/
def xdmaDeviceClose (p : Params) (env : OpenEnv) (d : OpenDev) : OpenDev :=
  ({ d with irq := d.irq.irqTeardown env.pdev }).errMsix p

def Owned (d : OpenDev) (base : List DevRes) : DevRes → Prop
  | .coherent buf dir ch bytes => (d.engine dir ch).buf buf = true ∧
      bytes = buf.bytes (d.engine dir ch).descMax
  | .work dir ch => (d.engine dir ch).cmplthp = true
  | r => r ∈ base

def Clean (e : SgEngine) : Prop := (∀ buf, e.buf buf = false) ∧ e.cmplthp = false

theorem engine_setEngine (d : OpenDev) (dir dir' : DmaDir) (ch ch' : ℕ) (e : SgEngine) :
    (d.setEngine dir ch e).engine dir' ch' = if dir' = dir ∧ ch' = ch then e else d.engine dir' ch' := by
  by_cases hd : dir' = dir
  · subst hd
    by_cases hc : ch' = ch
    · subst hc
      simp [setEngine]
    · simp [setEngine, hc]
  · simp [setEngine, hd]

theorem owned_congr {d d' : OpenDev} {base : List DevRes}
    (hbuf : ∀ dir ch buf, (d'.engine dir ch).buf buf = (d.engine dir ch).buf buf)
    (hmax : ∀ dir ch, (∃ buf, (d.engine dir ch).buf buf = true) →
      (d'.engine dir ch).descMax = (d.engine dir ch).descMax)
    (hwork : ∀ dir ch, (d'.engine dir ch).cmplthp = (d.engine dir ch).cmplthp) (r : DevRes) :
    d'.Owned base r ↔ d.Owned base r := by
  cases r with
  | coherent buf dir ch bytes =>
    simp only [Owned, hbuf]
    exact and_congr_right fun hb => by rw [hmax dir ch ⟨buf, hb⟩]
  | work dir ch => simp only [Owned, hwork]
  | _ => exact Iff.rfl

def IsBase : DevRes → Prop
  | .coherent _ _ _ _ | .work _ _ => False
  | _ => True

theorem owned_base {d : OpenDev} {base : List DevRes} {r : DevRes} (h : IsBase r) :
    d.Owned base r ↔ r ∈ base := by
  cases r <;> first | exact Iff.rfl | exact h.elim

theorem owned_cons {d : OpenDev} {base : List DevRes} {r : DevRes} (h : IsBase r) (x : DevRes) :
    d.Owned (r :: base) x ↔ x = r ∨ d.Owned base x := by
  by_cases hx : IsBase x
  · rw [owned_base hx, owned_base hx, List.mem_cons]
  · have hne : x ≠ r := fun hxr => hx (hxr ▸ h)
    rw [or_iff_right hne]
    cases x <;> first | exact Iff.rfl | exact absurd trivial hx

structure Sound (p : Params) (d : OpenDev) (base : List DevRes) : Prop where
  log : Leaves d.log (d.Owned base)
  polled : ∀ dir ch, (d.engine dir ch).cmplthp = true → p.pollMode = true

variable {p} {d : OpenDev} {base : List DevRes}

theorem Sound.acquire (h : Sound p d base) {r : DevRes} (hb : IsBase r) (hr : r ∉ base) :
    Sound p (d.acquire r) (r :: base) where
  log := h.log.acquire (by rwa [owned_base hb]) (owned_cons hb)
  polled := h.polled

theorem Sound.release {r : DevRes} (h : Sound p d (r :: base)) (hb : IsBase r) (hr : r ∉ base) :
    Sound p (d.release r) base where
  log := h.log.release ((owned_base hb).mpr List.mem_cons_self) (by
    intro x
    rw [owned_cons hb]
    refine ⟨fun hx => ⟨?_, .inr hx⟩, fun hx => hx.2.resolve_left hx.1⟩
    rintro rfl
    exact hr ((owned_base hb).mp hx))
  polled := h.polled

structure Frame (d d' : OpenDev) (dir : DmaDir) (ch : ℕ) : Prop where
  irq : d'.irq = d.irq
  bars : d'.bars = d.bars
  gotRegions : d'.gotRegions = d.gotRegions
  regionsInUse : d'.regionsInUse = d.regionsInUse
  other : ∀ dir' ch', ¬(dir' = dir ∧ ch' = ch) → d'.engine dir' ch' = d.engine dir' ch'

theorem Frame.refl (d : OpenDev) (dir : DmaDir) (ch : ℕ) :
    d.Frame d dir ch := ⟨rfl, rfl, rfl, rfl, fun _ _ _ => rfl⟩

theorem Frame.trans {d' d'' : OpenDev} {dir : DmaDir} {ch : ℕ} (h : d.Frame d' dir ch)
    (h' : d'.Frame d'' dir ch) :
    d.Frame d'' dir ch :=
  ⟨h'.irq.trans h.irq, h'.bars.trans h.bars, h'.gotRegions.trans h.gotRegions,
    h'.regionsInUse.trans h.regionsInUse, fun dir' ch' hne =>
    (h'.other dir' ch' hne).trans (h.other dir' ch' hne)⟩

theorem setEngine_frame (d : OpenDev) (dir : DmaDir) (ch : ℕ) (e : SgEngine) :
    d.Frame (d.setEngine dir ch e) dir ch :=
  ⟨rfl, rfl, rfl, rfl, fun dir' ch' hne => by rw [engine_setEngine, if_neg hne]⟩

theorem Frame.acquire {d' : OpenDev} {dir : DmaDir} {ch : ℕ} (h : d.Frame d' dir ch) (r : DevRes) :
    d.Frame (d'.acquire r) dir ch := ⟨h.irq, h.bars, h.gotRegions, h.regionsInUse, h.other⟩

theorem Frame.release {d' : OpenDev} {dir : DmaDir} {ch : ℕ} (h : d.Frame d' dir ch) (r : DevRes) :
    d.Frame (d'.release r) dir ch := ⟨h.irq, h.bars, h.gotRegions, h.regionsInUse, h.other⟩

section Buffers

variable (d) (dir : DmaDir) (ch : ℕ) (buf : EngineBuf)

theorem engine_setBuf (b : Bool) : (d.setBuf dir ch buf b).engine dir ch =
    { d.engine dir ch with buf := Function.update (d.engine dir ch).buf buf b } := by
  rw [setBuf, engine_setEngine, if_pos ⟨rfl, rfl⟩]

theorem setBuf_magic (b : Bool) : ((d.setBuf dir ch buf b).engine dir ch).magic =
    (d.engine dir ch).magic := by
  rw [engine_setBuf]

theorem setBuf_irqBit (b : Bool) : ((d.setBuf dir ch buf b).engine dir ch).irqBit =
    (d.engine dir ch).irqBit := by
  rw [engine_setBuf]

theorem setBuf_cmplthp (b : Bool) : ((d.setBuf dir ch buf b).engine dir ch).cmplthp =
    (d.engine dir ch).cmplthp := by
  rw [engine_setBuf]

theorem setBuf_buf (b : Bool) (buf' : EngineBuf) : ((d.setBuf dir ch buf b).engine dir ch).buf buf' =
    if buf' = buf then b else (d.engine dir ch).buf buf' := by
  rw [engine_setBuf]
  exact Function.update_apply _ _ _ _

theorem engine_setBuf_of_ne {dir' : DmaDir} {ch' : ℕ} (h : ¬(dir' = dir ∧ ch' = ch)) (b : Bool) :
    (d.setBuf dir ch buf b).engine dir' ch' = d.engine dir' ch' := by
  rw [setBuf, engine_setEngine, if_neg h]

theorem owned_setBuf_true (h : (d.engine dir ch).buf buf = false) (x : DevRes) :
    (d.setBuf dir ch buf true).Owned base x ↔
      x = .coherent buf dir ch (buf.bytes (d.engine dir ch).descMax) ∨ d.Owned base x := by
  cases x with
  | coherent buf' dir' ch' bytes =>
    by_cases hdc : dir' = dir ∧ ch' = ch
    · obtain ⟨rfl, rfl⟩ := hdc
      by_cases hb : buf' = buf
      · subst hb
        simp [Owned, engine_setBuf, h]
      · simp [Owned, engine_setBuf, hb]
    · have hne : DevRes.coherent buf' dir' ch' bytes ≠
        .coherent buf dir ch (buf.bytes (d.engine dir ch).descMax) := by
        intro heq
        simp only [DevRes.coherent.injEq] at heq
        exact hdc ⟨heq.2.1, heq.2.2.1⟩
      rw [or_iff_right hne]
      simp only [Owned, engine_setBuf_of_ne d dir ch buf hdc]
  | work dir' ch' =>
    by_cases hdc : dir' = dir ∧ ch' = ch
    · obtain ⟨rfl, rfl⟩ := hdc
      simp [Owned, engine_setBuf]
    · simp [Owned, engine_setBuf_of_ne d dir ch buf hdc]
  | _ => simp [Owned]

theorem owned_setBuf_false (x : DevRes) : (d.setBuf dir ch buf false).Owned base x ↔
    x ≠ .coherent buf dir ch (buf.bytes (d.engine dir ch).descMax) ∧ d.Owned base x := by
  cases x with
  | coherent buf' dir' ch' bytes =>
    by_cases hdc : dir' = dir ∧ ch' = ch
    · obtain ⟨rfl, rfl⟩ := hdc
      by_cases hb : buf' = buf
      · subst hb
        simp only [Owned, engine_setBuf, Function.update_self, Bool.false_eq_true, false_and, false_iff]
        rintro ⟨hne, -, rfl⟩
        exact hne rfl
      · simp [Owned, engine_setBuf, hb]
    · have hne : DevRes.coherent buf' dir' ch' bytes ≠
        .coherent buf dir ch (buf.bytes (d.engine dir ch).descMax) := by
        intro heq
        simp only [DevRes.coherent.injEq] at heq
        exact hdc ⟨heq.2.1, heq.2.2.1⟩
      rw [and_iff_right hne]
      simp only [Owned, engine_setBuf_of_ne d dir ch buf hdc]
  | work dir' ch' =>
    by_cases hdc : dir' = dir ∧ ch' = ch
    · obtain ⟨rfl, rfl⟩ := hdc
      simp [Owned, engine_setBuf]
    · simp [Owned, engine_setBuf_of_ne d dir ch buf hdc]
  | _ => simp [Owned]

structure Step (d d' : OpenDev) (dir : DmaDir) (ch : ℕ) (base : List DevRes) (p : Params) : Prop where
  sound : Sound p d' base
  frame : d.Frame d' dir ch
  magic : (d'.engine dir ch).magic = (d.engine dir ch).magic
  irqBit : (d'.engine dir ch).irqBit = (d.engine dir ch).irqBit
  cmplthp : (d'.engine dir ch).cmplthp = (d.engine dir ch).cmplthp

theorem setBuf_polled (h : Sound p d base) (b : Bool) (dir' : DmaDir) (ch' : ℕ)
    (hw : ((d.setBuf dir ch buf b).engine dir' ch').cmplthp = true) : p.pollMode = true := by
  by_cases hdc : dir' = dir ∧ ch' = ch
  · obtain ⟨rfl, rfl⟩ := hdc
    rw [engine_setBuf] at hw
    exact h.polled dir' ch' hw
  · rw [engine_setBuf_of_ne d dir ch buf hdc] at hw
    exact h.polled dir' ch' hw

theorem freeBuf_step (h : Sound p d base) : d.Step (d.freeBuf dir ch buf) dir ch base p ∧
    (∀ b, ((d.freeBuf dir ch buf).engine dir ch).buf b = if b = buf then false
      else (d.engine dir ch).buf b) := by
  unfold freeBuf
  split
  · rename_i hbuf
    refine ⟨⟨⟨?_, setBuf_polled d dir ch buf h false⟩, ?_, ?_, ?_, ?_⟩, fun b => ?_⟩
    · exact h.log.release ⟨hbuf, rfl⟩ (owned_setBuf_false d dir ch buf)
    · exact (setEngine_frame d dir ch _).release _
    · exact setBuf_magic d dir ch buf false
    · exact setBuf_irqBit d dir ch buf false
    · exact setBuf_cmplthp d dir ch buf false
    · exact setBuf_buf d dir ch buf false b
  · rename_i hbuf
    refine ⟨⟨h, .refl d dir ch, rfl, rfl, rfl⟩, fun b => ?_⟩
    split
    · rename_i hb
      rw [hb]
      simpa using hbuf
    · rfl

theorem allocBuf_step (h : Sound p d base) (probe : EngineProbe) (hfree : (d.engine dir ch).buf buf = false) :
    d.Step (d.allocBuf probe dir ch buf).1 dir ch base p ∧
      (∀ b, ((d.allocBuf probe dir ch buf).1.engine dir ch).buf b =
        if b = buf then (d.allocBuf probe dir ch buf).2 else (d.engine dir ch).buf b) := by
  unfold allocBuf
  split
  · refine ⟨⟨⟨?_, setBuf_polled d dir ch buf h true⟩, ?_, ?_, ?_, ?_⟩, fun b => ?_⟩
    · apply h.log.acquire (fun hown => ?_) (owned_setBuf_true d dir ch buf hfree)
      exact absurd hown.1 (by simp [hfree])
    · exact (setEngine_frame d dir ch _).acquire _
    · exact setBuf_magic d dir ch buf true
    · exact setBuf_irqBit d dir ch buf true
    · exact setBuf_cmplthp d dir ch buf true
    · exact setBuf_buf d dir ch buf true b
  · refine ⟨⟨⟨?_, setBuf_polled d dir ch buf h false⟩, ?_, ?_, ?_, ?_⟩, fun b => ?_⟩
    · refine h.log.congr fun x => (owned_setBuf_false d dir ch buf x).trans (and_iff_right_of_imp ?_)
      rintro hown rfl
      exact absurd hown.1 (by simp [hfree])
    · exact setEngine_frame d dir ch _
    · exact setBuf_magic d dir ch buf false
    · exact setBuf_irqBit d dir ch buf false
    · exact setBuf_cmplthp d dir ch buf false
    · exact setBuf_buf d dir ch buf false b

end Buffers

theorem Step.trans {d d' d'' : OpenDev} {dir : DmaDir} {ch : ℕ} (h : d.Step d' dir ch base p)
    (h' : d'.Step d'' dir ch base p) : d.Step d'' dir ch base p :=
  ⟨h'.sound, h.frame.trans h'.frame, h'.magic.trans h.magic, h'.irqBit.trans h.irqBit,
    h'.cmplthp.trans h.cmplthp⟩

theorem engineFreeResource_step (h : Sound p d base) (dir : DmaDir) (ch : ℕ) :
    d.Step (d.engineFreeResource dir ch) dir ch base p ∧
      ∀ b, ((d.engineFreeResource dir ch).engine dir ch).buf b = false := by
  obtain ⟨h₁, hb₁⟩ := freeBuf_step d dir ch .pollModeAddr h
  obtain ⟨h₂, hb₂⟩ := freeBuf_step _ dir ch .desc h₁.sound
  obtain ⟨h₃, hb₃⟩ := freeBuf_step _ dir ch .cyclicResult h₂.sound
  refine ⟨(h₁.trans h₂).trans h₃, fun b => ?_⟩
  cases b <;> simp [engineFreeResource, hb₃, hb₂, hb₁]

theorem engineAllocResource_step (h : Sound p d base) (probe : EngineProbe) (dir : DmaDir) (ch : ℕ)
    (hfree : ∀ b, (d.engine dir ch).buf b = false) :
    d.Step (d.engineAllocResource p probe dir ch).1 dir ch base p ∧
      ((d.engineAllocResource p probe dir ch).2 ≠ 0 →
        ∀ b, ((d.engineAllocResource p probe dir ch).1.engine dir ch).buf b = false) := by
  have hback {d' : OpenDev} (h' : d.Step d' dir ch base p) :
    d.Step (d'.engineFreeResource dir ch) dir ch base p ∧
      (err .noMem ≠ 0 → ∀ b, ((d'.engineFreeResource dir ch).engine dir ch).buf b = false) := by
    obtain ⟨hs, hb⟩ := engineFreeResource_step h'.sound dir ch
    exact ⟨h'.trans hs, fun _ => hb⟩
  unfold engineAllocResource
  obtain ⟨h₁, hb₁⟩ := allocBuf_step d dir ch .desc h probe (hfree .desc)
  cases hok₁ : d.allocBuf probe dir ch .desc with
  | mk d₁ ok₁ =>
    rw [hok₁] at h₁ hb₁
    dsimp only at h₁ hb₁
    cases ok₁ with
    | false => exact hback h₁
    | true =>
      have hpoll : d₁.Step (if p.pollMode = true then d₁.allocBuf probe dir ch .pollModeAddr
        else (d₁, true)).1 dir ch
          base p ∧ ((if p.pollMode = true then d₁.allocBuf probe dir ch .pollModeAddr
          else (d₁, true)).1.engine dir
            ch).buf .cyclicResult = false := by
        split
        · obtain ⟨h₂, hb₂⟩ := allocBuf_step d₁ dir ch .pollModeAddr h₁.sound probe (by simp [hb₁, hfree])
          exact ⟨h₂, by simp [hb₂, hb₁, hfree]⟩
        · exact ⟨⟨h₁.sound, .refl _ dir ch, rfl, rfl, rfl⟩, by simp [hb₁, hfree]⟩
      simp only [Bool.not_true, Bool.false_eq_true, ↓reduceIte]
      cases hok₂ : (if p.pollMode = true then d₁.allocBuf probe dir ch .pollModeAddr else (d₁, true)) with
      | mk d₂ ok₂ =>
        rw [hok₂] at hpoll
        dsimp only at hpoll
        have h₂ := h₁.trans hpoll.1
        cases ok₂ with
        | false => exact hback h₂
        | true =>
          simp only [Bool.not_true, Bool.false_eq_true, ↓reduceIte]
          split
          · obtain ⟨h₃, -⟩ := allocBuf_step d₂ dir ch .cyclicResult h₂.sound probe hpoll.2
            cases hok₃ : d₂.allocBuf probe dir ch .cyclicResult with
            | mk d₃ ok₃ =>
              rw [hok₃] at h₃
              cases ok₃ with
              | false => exact hback (h₂.trans h₃)
              | true => exact ⟨h₂.trans h₃, fun hne => absurd rfl hne⟩
          · exact ⟨h₂, fun hne => absurd rfl hne⟩

theorem Sound.addWork (h : Sound p d base) (hp : p.pollMode = true) {dir : DmaDir} {ch : ℕ}
    (hw : (d.engine dir ch).cmplthp = false) : Sound p (d.addWork dir ch) base where
  log := by
    apply h.log.acquire (by simp [Owned, hw])
    intro x
    cases x with
    | coherent buf dir' ch' bytes =>
      by_cases hdc : dir' = dir ∧ ch' = ch <;> simp [Owned, OpenDev.addWork, OpenDev.acquire,
        engine_setEngine, hdc]
    | work dir' ch' =>
      by_cases hdc : dir' = dir ∧ ch' = ch <;> simp [Owned, OpenDev.addWork, OpenDev.acquire,
        engine_setEngine, hdc]
    | _ => simp [Owned]
  polled := fun _ _ _ => hp

theorem Sound.removeWork (h : Sound p d base) (dir : DmaDir) (ch : ℕ) :
    Sound p (d.removeWork dir ch) base := by
  unfold OpenDev.removeWork
  split
  · rename_i hw
    constructor
    · apply h.log.release (show d.Owned base (.work dir ch) from hw)
      intro x
      cases x with
      | coherent buf dir' ch' bytes =>
        by_cases hdc : dir' = dir ∧ ch' = ch <;> simp [Owned, OpenDev.release, engine_setEngine, hdc]
      | work dir' ch' =>
        by_cases hdc : dir' = dir ∧ ch' = ch <;> simp [Owned, OpenDev.release, engine_setEngine, hdc]
      | _ => simp [Owned]
    · intro dir' ch' hw'
      by_cases hdc : dir' = dir ∧ ch' = ch
      · simp [OpenDev.release, engine_setEngine, hdc] at hw'
      · exact h.polled dir' ch' (by simpa [OpenDev.release, engine_setEngine, hdc] using hw')
  · exact h

theorem removeWork_frame (d : OpenDev) (dir : DmaDir) (ch : ℕ) : d.Frame (d.removeWork dir ch) dir ch ∧
    ((d.removeWork dir ch).engine dir ch).cmplthp = false := by
  unfold removeWork
  split
  · exact ⟨(setEngine_frame d dir ch _).release _, by simp [release, engine_setEngine]⟩
  · rename_i hw
    exact ⟨.refl d dir ch, by simpa using hw⟩

theorem Sound.setEngine (h : Sound p d base) {dir : DmaDir} {ch : ℕ}
    (hclean : Clean (d.engine dir ch)) {e : SgEngine}
    (he : Clean e) : Sound p (d.setEngine dir ch e) base where
  log := by
    refine h.log.congr (owned_congr ?_ ?_ ?_)
    · intro dir' ch' buf
      by_cases hdc : dir' = dir ∧ ch' = ch <;> simp [engine_setEngine, hdc, he.1, hclean.1]
    · rintro dir' ch' ⟨buf, hbuf⟩
      by_cases hdc : dir' = dir ∧ ch' = ch
      · rw [hdc.1, hdc.2, hclean.1] at hbuf
        cases hbuf
      · rw [engine_setEngine, if_neg hdc]
    · intro dir' ch'
      by_cases hdc : dir' = dir ∧ ch' = ch <;> simp [engine_setEngine, hdc, he.2, hclean.2]
  polled := by
    intro dir' ch' hw
    by_cases hdc : dir' = dir ∧ ch' = ch
    · rw [engine_setEngine, if_pos hdc, he.2] at hw
      cases hw
    · rw [engine_setEngine, if_neg hdc] at hw
      exact h.polled dir' ch' hw

theorem Sound.withEngines (h : Sound p d base) (n : ℕ) :
    Sound p { d with enginesNum := n } base := ⟨h.log, h.polled⟩

theorem initEngine_engine (d : OpenDev) (probe : EngineProbe) (dir : DmaDir) (ch : ℕ) :
    (d.initEngine p probe dir ch).engine dir ch = initFields p (d.engine dir ch) probe dir d.enginesNum :=
  (engine_setEngine d dir dir ch ch _).trans (if_pos ⟨rfl, rfl⟩)

theorem Sound.initEngine (h : Sound p d base) (probe : EngineProbe) (dir : DmaDir) (ch : ℕ)
    (hclean : Clean (d.engine dir ch)) : Sound p (d.initEngine p probe dir ch) base := by
  have hinit : Clean (initFields p (d.engine dir ch) probe dir d.enginesNum) := hclean
  have hs := h.setEngine hclean hinit
  exact ⟨hs.log, hs.polled⟩

theorem engineInit_eq (d : OpenDev) (probe : EngineProbe) (dir : DmaDir) (ch : ℕ) :
    d.engineInit p probe dir ch =
    if ((d.initEngine p probe dir ch).engineAllocResource p probe dir ch).2 ≠ 0 then
      (d.initEngine p probe dir ch).engineAllocResource p probe dir ch
    else (if p.pollMode then ((d.initEngine p probe dir ch).engineAllocResource p probe dir
      ch).1.addWork dir ch
      else ((d.initEngine p probe dir ch).engineAllocResource p probe dir ch).1, 0) := rfl

theorem engineInit_spec (h : Sound p d base) (probe : EngineProbe) (dir : DmaDir) (ch : ℕ)
    (hclean : Clean (d.engine dir ch)) : Sound p (d.engineInit p probe dir ch).1 base ∧
      d.Frame (d.engineInit p probe dir ch).1 dir ch ∧
      ((d.engineInit p probe dir ch).2 = 0 → ((d.engineInit p probe dir ch).1.engine dir ch).magic = true) ∧
      ((d.engineInit p probe dir ch).2 ≠ 0 → Clean ((d.engineInit p probe dir ch).1.engine dir ch)) := by
  have hf₁ : d.Frame (d.initEngine p probe dir ch) dir ch := by
    have hf := setEngine_frame d dir ch (initFields p (d.engine dir ch) probe dir d.enginesNum)
    exact ⟨rfl, rfl, rfl, rfl, hf.other⟩
  have he₁ := initEngine_engine (p := p) d probe dir ch
  obtain ⟨hs, hb⟩ := engineAllocResource_step (h.initEngine probe dir ch hclean) probe dir ch fun b => by
    rw [he₁]
    exact hclean.1 b
  have hwork : (((d.initEngine p probe dir ch).engineAllocResource p probe dir ch).1.engine dir ch).cmplthp =
      false := by
    rw [hs.cmplthp, he₁]
    exact hclean.2
  have hmagic : (((d.initEngine p probe dir ch).engineAllocResource p probe dir ch).1.engine dir
    ch).magic = true := by
    rw [hs.magic, he₁]
    rfl
  rw [engineInit_eq]
  split
  · rename_i hrv
    exact ⟨hs.sound, hf₁.trans hs.frame, fun h0 => absurd h0 hrv, fun _ => ⟨hb hrv, hwork⟩⟩
  · dsimp only
    split
    · rename_i hp
      refine ⟨hs.sound.addWork hp hwork, (hf₁.trans hs.frame).trans
        ((setEngine_frame _ dir ch _).acquire _), ?_, ?_⟩
      · simp [OpenDev.addWork, OpenDev.acquire, engine_setEngine, hmagic]
      · exact fun h0 => absurd rfl h0
    · exact ⟨hs.sound, hf₁.trans hs.frame, fun _ => hmagic, fun h0 => absurd rfl h0⟩

theorem probeForEngine_spec (h : Sound p d base) (probe : EngineProbe) (dir : DmaDir) (ch : ℕ)
    (hclean : Clean (d.engine dir ch)) : Sound p (d.probeForEngine p probe dir ch).1 base ∧
      d.Frame (d.probeForEngine p probe dir ch).1 dir ch ∧
      ((d.probeForEngine p probe dir ch).2 = 0 →
        ((d.probeForEngine p probe dir ch).1.engine dir ch).magic = true) ∧
      ((d.probeForEngine p probe dir ch).2 ≠ 0 →
        Clean ((d.probeForEngine p probe dir ch).1.engine dir ch)) := by
  unfold probeForEngine
  split
  · exact ⟨h, .refl d dir ch, fun h0 => absurd h0 (err_neg .inval).ne, fun _ => hclean⟩
  · exact engineInit_spec h probe dir ch hclean

def Reached (d : OpenDev) (dir : DmaDir) (n : ℕ) : Prop :=
  (∀ ch, n ≤ ch → Clean (d.engine dir ch)) ∧ ∀ ch < n, (d.engine dir ch).magic = true

structure Apart (d d' : OpenDev) (dir : DmaDir) : Prop where
  irq : d'.irq = d.irq
  bars : d'.bars = d.bars
  gotRegions : d'.gotRegions = d.gotRegions
  regionsInUse : d'.regionsInUse = d.regionsInUse
  other : ∀ dir', dir' ≠ dir → d'.engine dir' = d.engine dir'

theorem Apart.refl (d : OpenDev) (dir : DmaDir) : d.Apart d dir := ⟨rfl, rfl, rfl, rfl, fun _ _ => rfl⟩

theorem Frame.apart {d d' d'' : OpenDev} {dir : DmaDir} {ch : ℕ} (h : d.Frame d' dir ch)
    (h' : d'.Apart d'' dir) :
    d.Apart d'' dir where
  irq := h'.irq.trans h.irq
  bars := h'.bars.trans h.bars
  gotRegions := h'.gotRegions.trans h.gotRegions
  regionsInUse := h'.regionsInUse.trans h.regionsInUse
  other := by
    intro dir' hne
    rw [h'.other dir' hne]
    funext ch'
    exact h.other dir' ch' fun hdc => hne hdc.1

theorem Reached.probed {d d' : OpenDev} {dir : DmaDir} {i : ℕ} (hr : d.Reached dir i) (hf : d.Frame d' dir i)
    (hmagic : (d'.engine dir i).magic = true) : d'.Reached dir (i + 1) := by
  have hother : ∀ ch, ch ≠ i → d'.engine dir ch = d.engine dir ch :=
    fun ch hne => hf.other dir ch fun hdc => hne hdc.2
  constructor
  · intro ch hle
    rw [hother ch (by omega)]
    exact hr.1 ch (by omega)
  · intro ch hlt
    rcases Nat.eq_or_lt_of_le (Nat.le_of_lt_succ hlt) with rfl | hlt
    · exact hmagic
    · rw [hother ch (by omega)]
      exact hr.2 ch hlt

theorem probeChannels_spec (probe : ℕ → EngineProbe) (dir : DmaDir) (n : ℕ) : ∀ {i : ℕ} {d : OpenDev},
    Sound p d base → d.Reached dir i → Sound p (probeChannels p probe dir n i d).1 base ∧
      d.Apart (probeChannels p probe dir n i d).1 dir ∧
      (probeChannels p probe dir n i d).1.Reached dir (probeChannels p probe dir n i d).2 := by
  induction n with
  | zero =>
    intro i d h hr
    exact ⟨h, .refl d dir, hr⟩
  | succ n ih =>
    intro i d h hr
    obtain ⟨hs, hf, hok, hbad⟩ := probeForEngine_spec h (probe i) dir i (hr.1 i (le_refl i))
    rw [probeChannels]
    cases hprobe : d.probeForEngine p (probe i) dir i with
    | mk d' rv =>
      rw [hprobe] at hs hf hok hbad
      dsimp only at hs hf hok hbad ⊢
      have hother : ∀ ch, ch ≠ i → d'.engine dir ch = d.engine dir ch :=
        fun ch hne => hf.other dir ch fun hdc => hne hdc.2
      split
      · rename_i hrv
        refine ⟨hs, hf.apart (.refl d' dir), ?_, ?_⟩
        · intro ch hle
          rcases Nat.eq_or_lt_of_le hle with rfl | hlt
          · exact hbad hrv
          · rw [hother ch (by omega)]
            exact hr.1 ch hle
        · intro ch hlt
          rw [hother ch (by omega)]
          exact hr.2 ch hlt
      · rename_i hrv
        have hr' : d'.Reached dir (i + 1) := hr.probed hf (hok (not_not.mp hrv))
        obtain ⟨hs', ha, hreach⟩ := ih hs hr'
        exact ⟨hs', hf.apart ha, hreach⟩

theorem Apart.reached {d' : OpenDev} (h : d.Apart d' .toDevice)
    (hr : d.Reached .fromDevice 0) (irq : XdmaDev) :
    Reached { d' with irq := irq } .fromDevice 0 := by
  unfold Reached
  rw [h.other .fromDevice (by decide)]
  exact hr

theorem probeChannels_le (p : Params) (probe : ℕ → EngineProbe) (dir : DmaDir) (n : ℕ) :
    ∀ (i : ℕ) (d : OpenDev),
    (probeChannels p probe dir n i d).2 ≤ i + n := by
  induction n with
  | zero => exact fun i d => le_refl i
  | succ n ih =>
    intro i d
    rw [probeChannels]
    dsimp only
    split
    · dsimp only
      omega
    · exact (ih _ _).trans (by omega)

theorem Sound.withIrq (h : Sound p d base) (irq : XdmaDev) :
    Sound p { d with irq := irq } base := ⟨h.log, h.polled⟩

def Visited (d : OpenDev) : Prop := ∀ dir, d.Reached dir (d.channelMax dir)

theorem probeEngines_spec (h : Sound p d base) (hnew : ∀ dir, d.Reached dir 0)
    (probe : DmaDir → ℕ → EngineProbe) :
    Sound p (d.probeEngines p probe) base ∧ (d.probeEngines p probe).Visited ∧
      (d.probeEngines p probe).bars = d.bars ∧ (d.probeEngines p probe).gotRegions = d.gotRegions ∧
      (d.probeEngines p probe).regionsInUse = d.regionsInUse ∧
      ∃ i ≤ d.irq.h2cChannelMax, ∃ j ≤ d.irq.c2hChannelMax,
        (d.probeEngines p probe).irq = { d.irq with h2cChannelMax := i, c2hChannelMax := j } := by
  have hle₁ := probeChannels_le p (probe .toDevice) .toDevice d.irq.h2cChannelMax 0 d
  obtain ⟨h₁, ha₁, hr₁⟩ := probeChannels_spec (probe .toDevice) .toDevice d.irq.h2cChannelMax h (hnew _)
  rw [probeEngines]
  cases heq₁ : probeChannels p (probe .toDevice) .toDevice d.irq.h2cChannelMax 0 d with
  | mk d₁ i =>
    rw [heq₁] at h₁ ha₁ hr₁ hle₁
    dsimp only at h₁ ha₁ hr₁ hle₁ ⊢
    have hle₂ := probeChannels_le p (probe .fromDevice) .fromDevice d₁.irq.c2hChannelMax 0
      { d₁ with irq := { d₁.irq with h2cChannelMax := i } }
    have hnew₁ := ha₁.reached (hnew .fromDevice) { d₁.irq with h2cChannelMax := i }
    obtain ⟨h₂, ha₂, hr₂⟩ := probeChannels_spec (probe .fromDevice) .fromDevice d₁.irq.c2hChannelMax
      (h₁.withIrq { d₁.irq with h2cChannelMax := i }) hnew₁
    cases heq₂ : probeChannels p (probe .fromDevice) .fromDevice d₁.irq.c2hChannelMax 0
        { d₁ with irq := { d₁.irq with h2cChannelMax := i } } with
    | mk d₂ j =>
      rw [heq₂] at h₂ ha₂ hr₂ hle₂
      dsimp only at h₂ ha₂ hr₂ hle₂ ⊢
      refine ⟨h₂.withIrq _, ?_, ha₂.bars.trans ha₁.bars, ha₂.gotRegions.trans ha₁.gotRegions,
        ha₂.regionsInUse.trans ha₁.regionsInUse, i, by omega, j, ?_, ?_⟩
      · intro dir
        cases dir with
        | fromDevice => exact hr₂
        | toDevice =>
          unfold Reached channelMax
          dsimp only
          rw [ha₂.other .toDevice (by decide), ha₂.irq]
          exact hr₁
      · rw [ha₁.irq] at hle₂
        omega
      · rw [ha₂.irq, ha₁.irq]

theorem clean_empty : Clean {} := ⟨fun _ => rfl, rfl⟩

theorem engineDestroy_spec (h : Sound p d base) (dir : DmaDir) (ch : ℕ) :
    Sound p (d.engineDestroy p dir ch) base ∧
    d.Frame (d.engineDestroy p dir ch) dir ch ∧ Clean ((d.engineDestroy p dir ch).engine dir ch) := by
  let d₁ := if p.pollMode then d.removeWork dir ch else d
  have h₁ : Sound p d₁ base ∧ d.Frame d₁ dir ch ∧ (d₁.engine dir ch).cmplthp = false := by
    cases hp : p.pollMode with
    | true =>
      have hd : d₁ = d.removeWork dir ch := by simp only [d₁, hp, ↓reduceIte]
      rw [hd]
      exact ⟨h.removeWork dir ch, removeWork_frame d dir ch⟩
    | false =>
      have hd : d₁ = d := by simp only [d₁, hp, Bool.false_eq_true, ↓reduceIte]
      rw [hd]
      refine ⟨h, .refl d dir ch, Bool.eq_false_iff.mpr fun hw => ?_⟩
      exact absurd (h.polled dir ch hw) (by simp [hp])
  obtain ⟨hs, hb⟩ := engineFreeResource_step h₁.1 dir ch
  have hclean : Clean ((d₁.engineFreeResource dir ch).engine dir ch) := ⟨hb, hs.cmplthp.trans h₁.2.2⟩
  have hf := setEngine_frame (d₁.engineFreeResource dir ch) dir ch {}
  have hall := (h₁.2.1.trans hs.frame).trans hf
  refine ⟨(hs.sound.setEngine hclean clean_empty).withEngines _, ?_, ?_⟩
  · exact ⟨hall.irq, hall.bars, hall.gotRegions, hall.regionsInUse, hall.other⟩
  · have he : ((d₁.engineFreeResource dir ch).setEngine dir ch {}).engine dir ch = {} :=
      (engine_setEngine _ dir dir ch ch _).trans (if_pos ⟨rfl, rfl⟩)
    change Clean (((d₁.engineFreeResource dir ch).setEngine dir ch {}).engine dir ch)
    rw [he]
    exact clean_empty

theorem removeChannels_spec (dir : DmaDir) (chs : List ℕ) : ∀ {d : OpenDev}, Sound p d base →
    (∀ ch ∈ chs, (d.engine dir ch).magic = true ∨ Clean (d.engine dir ch)) →
    Sound p (removeChannels p dir chs d) base ∧ d.Apart (removeChannels p dir chs d) dir ∧
      ∀ ch, ch ∈ chs ∨ Clean (d.engine dir ch) → Clean ((removeChannels p dir chs d).engine dir ch) := by
  induction chs with
  | nil =>
    intro d h _
    exact ⟨h, .refl d dir, fun ch hch => hch.resolve_left List.not_mem_nil⟩
  | cons c chs ih =>
    intro d h hmagic
    rw [removeChannels]
    let d' := if (d.engine dir c).magic then d.engineDestroy p dir c else d
    have h' : Sound p d' base ∧ d.Frame d' dir c ∧ Clean (d'.engine dir c) := by
      cases hm : (d.engine dir c).magic with
      | true =>
        have hd : d' = d.engineDestroy p dir c := by simp only [d', hm, ↓reduceIte]
        rw [hd]
        exact engineDestroy_spec h dir c
      | false =>
        have hd : d' = d := by simp only [d', hm, Bool.false_eq_true, ↓reduceIte]
        rw [hd]
        refine ⟨h, .refl d dir c, (hmagic c List.mem_cons_self).resolve_left ?_⟩
        simp [hm]
    obtain ⟨hs, hf, hclean⟩ := h'
    have hkeep : ∀ ch, Clean (d.engine dir ch) → Clean (d'.engine dir ch) := by
      intro ch hch
      by_cases hc : ch = c
      · exact hc ▸ hclean
      · rw [hf.other dir ch fun hdc => hc hdc.2]
        exact hch
    obtain ⟨hs', ha, hall⟩ := ih hs fun ch hch => by
      rcases hmagic ch (List.mem_cons_of_mem c hch) with hm | hc
      · by_cases hcc : ch = c
        · exact .inr (hcc ▸ hclean)
        · rw [hf.other dir ch fun hdc => hcc hdc.2]
          exact .inl hm
      · exact .inr (hkeep ch hc)
    refine ⟨hs', hf.apart ha, fun ch hch => hall ch ?_⟩
    rcases hch with hmem | hc
    · rcases List.mem_cons.mp hmem with rfl | hmem
      · exact .inr hclean
      · exact .inl hmem
    · exact .inr (hkeep ch hc)

def Empty (d : OpenDev) : Prop := ∀ dir ch, Clean (d.engine dir ch)

theorem removeEngines_spec (h : Sound p d base) (hv : d.Visited) : Sound p (d.removeEngines p) base ∧
    (d.removeEngines p).Empty ∧ (d.removeEngines p).irq = d.irq ∧ (d.removeEngines p).bars = d.bars ∧
      (d.removeEngines p).gotRegions = d.gotRegions ∧ (d.removeEngines p).regionsInUse = d.regionsInUse := by
  have hall (dir : DmaDir) (ch : ℕ) : ch ∈ List.range (d.channelMax dir) ∨ Clean (d.engine dir ch) := by
    rcases Nat.lt_or_ge ch (d.channelMax dir) with hlt | hge
    · exact .inl (List.mem_range.mpr hlt)
    · exact .inr ((hv dir).1 ch hge)
  obtain ⟨h₁, ha₁, hc₁⟩ := removeChannels_spec .toDevice (List.range d.irq.h2cChannelMax) h
    fun ch hch => .inl ((hv .toDevice).2 ch (List.mem_range.mp hch))
  have hirq : (removeChannels p .toDevice (List.range d.irq.h2cChannelMax) d).irq.c2hChannelMax =
    d.irq.c2hChannelMax :=
    congrArg XdmaDev.c2hChannelMax ha₁.irq
  obtain ⟨h₂, ha₂, hc₂⟩ := removeChannels_spec .fromDevice (List.range d.irq.c2hChannelMax)
    h₁ fun ch hch => by
    rw [ha₁.other .fromDevice (by decide)]
    exact .inl ((hv .fromDevice).2 ch (List.mem_range.mp hch))
  rw [removeEngines]
  simp only [hirq]
  refine ⟨h₂, ?_, ha₂.irq.trans ha₁.irq, ha₂.bars.trans ha₁.bars, ha₂.gotRegions.trans ha₁.gotRegions,
    ha₂.regionsInUse.trans ha₁.regionsInUse⟩
  intro dir ch
  cases dir with
  | toDevice =>
    rw [ha₂.other .toDevice (by decide)]
    exact hc₁ ch (hall .toDevice ch)
  | fromDevice =>
    apply hc₂
    rw [ha₁.other .fromDevice (by decide)]
    exact hall .fromDevice ch

end OpenDev

def PciDev.Grants (pdev : PciDev) (irq : Irq) : Bool := pdev.requestIrq irq.line = 0

namespace XdmaDev

variable {pdev : PciDev}

theorem requestIrq_granted {irq : Irq} (h : pdev.Grants irq = true) (d : XdmaDev) :
    d.requestIrq pdev irq = (d.logged [.acquire irq], 0) := if_pos (of_decide_eq_true h)

theorem requestIrq_refused (hneg : ∀ line, pdev.requestIrq line ≤ 0) {irq : Irq} (h : pdev.Grants irq = false)
    (d : XdmaDev) : ∃ rv < 0, d.requestIrq pdev irq = (d, rv) := by
  have hne : pdev.requestIrq irq.line ≠ 0 := of_decide_eq_false h
  exact ⟨pdev.requestIrq irq.line, lt_of_le_of_ne (hneg irq.line) hne, if_neg hne⟩

theorem requestChannels_granted (dir : DmaDir) (j : ℕ) (is : List ℕ) (d : XdmaDev)
    (h : ∀ irq ∈ is.map (channelIrq pdev dir j), pdev.Grants irq = true) : requestChannels pdev dir j is d =
      ((d.withLines (withChannels pdev dir j is d.msixIrqLine)).logged
        (block (is.map (channelIrq pdev dir j)) true), 0) := by
  induction is generalizing d with
  | nil => simp [requestChannels, block, logged_nil, withLines]
  | cons i is ih =>
    have heq := requestIrq_granted (h _ List.mem_cons_self) d
    unfold channelIrq at heq
    rw [requestChannels]
    simp only [heq, ne_eq, not_true_eq_false, ↓reduceIte]
    rw [ih _ fun irq hirq => h irq (List.mem_cons_of_mem _ hirq), withChannels_cons]
    exact congrArg (·, (0 : ℤ)) (logged_logged (d.withLines _) [.acquire (channelIrq pdev dir j i)] _)

theorem requestChannels_refused (hneg : ∀ line, pdev.requestIrq line ≤ 0) (dir : DmaDir) (j : ℕ) (is : List ℕ)
    (d : XdmaDev) (h : ¬∀ irq ∈ is.map (channelIrq pdev dir j), pdev.Grants irq = true) :
    ∃ line, ∃ rv < 0, requestChannels pdev dir j is d =
      ((d.withLines line).logged (block ((is.map (channelIrq pdev dir j)).takeWhile pdev.Grants) true),
        rv) := by
  induction is generalizing d with
  | nil => simp at h
  | cons i is ih =>
    rw [requestChannels, List.map_cons]
    cases hi : pdev.Grants (channelIrq pdev dir j i) with
    | false =>
      obtain ⟨rv, hrv, heq⟩ := requestIrq_refused hneg hi d
      unfold channelIrq at heq
      refine ⟨d.msixIrqLine, rv, hrv, ?_⟩
      simp only [heq, if_pos hrv.ne]
      rw [List.takeWhile_cons_of_neg (by simp [hi])]
      exact congrArg (·, rv) (logged_nil d).symm
    | true =>
      have heq := requestIrq_granted hi d
      unfold channelIrq at heq
      simp only [heq, ne_eq, not_true_eq_false, ↓reduceIte]
      obtain ⟨line, rv, hrv, hrest⟩ := ih ((d.logged
        [.acquire (channelIrq pdev dir j i)]).setMsixIrqLine dir i
        (pdev.pciIrqVector (j + i))) fun hall => h (by simpa [hi] using hall)
      refine ⟨line, rv, hrv, hrest.trans ?_⟩
      rw [List.takeWhile_cons_of_pos hi]
      exact congrArg (·, rv) (logged_logged (d.withLines line) [.acquire (channelIrq pdev dir j i)] _)

theorem requestUsers_granted (done is : List ℕ) (d : XdmaDev)
    (h : ∀ irq ∈ is.map (d.userIrq pdev), pdev.Grants irq = true) :
    requestUsers pdev done is d = (d.logged (block (is.map (d.userIrq pdev)) true), 0) := by
  induction is generalizing done d with
  | nil => simp [requestUsers, block, logged_nil]
  | cons i is ih =>
    have heq := requestIrq_granted (h _ List.mem_cons_self) d
    rw [requestUsers]
    simp only [heq, ne_eq, not_true_eq_false, ↓reduceIte]
    refine (ih _ (d.logged [.acquire (d.userIrq pdev i)]) fun irq hirq =>
      h irq (List.mem_cons_of_mem _ hirq)).trans ?_
    exact congrArg (·, (0 : ℤ)) (logged_logged d [.acquire (d.userIrq pdev i)] _)

theorem requestUsers_refused (hneg : ∀ line, pdev.requestIrq line ≤ 0) (is : List ℕ) :
    ∀ (done : List ℕ) (d : XdmaDev),
    (¬∀ irq ∈ is.map (d.userIrq pdev), pdev.Grants irq = true) →
    ∃ got, got <+: is ∧ ∃ rv < 0, requestUsers pdev done is d =
      (d.logged (block (got.map (d.userIrq pdev)) true ++
        block ((got.reverse ++ done).map (d.userIrq pdev)) false),
        rv) := by
  induction is with
  | nil =>
    intro done d h
    simp at h
  | cons i is ih =>
    intro done d h
    rw [requestUsers]
    cases hi : pdev.Grants (d.userIrq pdev i) with
    | false =>
      obtain ⟨rv, hrv, heq⟩ := requestIrq_refused hneg hi d
      refine ⟨[], List.nil_prefix, rv, hrv, ?_⟩
      simp only [heq, if_pos hrv.ne, freeUsers_eq]
      rfl
    | true =>
      have heq := requestIrq_granted hi d
      simp only [heq, ne_eq, not_true_eq_false, ↓reduceIte]
      obtain ⟨got, hgot, rv, hrv, hrest⟩ := ih (i :: done) (d.logged [.acquire (d.userIrq pdev i)])
        fun hall => h (by
          intro irq hirq
          rcases List.mem_cons.mp hirq with rfl | hirq
          · exact hi
          · exact hall irq hirq)
      refine ⟨i :: got, (List.cons_prefix_cons).mpr ⟨rfl, hgot⟩, rv, hrv, hrest.trans ?_⟩
      rw [logged_logged]
      simp [block]
      rfl

theorem takeWhile_append_refused {α : Type*} {q : α → Bool} {xs ys : List α} (h : ¬∀ x ∈ xs, q x = true) :
    (xs ++ ys).takeWhile q = xs.takeWhile q := by
  induction xs with
  | nil => simp at h
  | cons x xs ih =>
    rw [List.cons_append, List.takeWhile_cons, List.takeWhile_cons]
    cases hx : q x with
    | false => rfl
    | true =>
      have hrest : ¬∀ y ∈ xs, q y = true := fun hall => h (by simpa [hx] using hall)
      rw [ih hrest]

def channelLines (pdev : PciDev) (d : XdmaDev) : List Irq :=
  (List.range d.h2cChannelMax).map (channelIrq pdev .toDevice 0) ++
    (List.range d.c2hChannelMax).map (channelIrq pdev .fromDevice d.h2cChannelMax)

theorem lines_msix {d : XdmaDev} (hx : d.msixEnabled = true) :
    d.lines pdev = d.channelLines pdev ++ (List.range d.userMax).map (d.userIrq pdev) := if_pos hx

theorem irqMsixChannelSetup_granted {d : XdmaDev} (hx : d.msixEnabled = true)
    (h : ∀ irq ∈ d.channelLines pdev, pdev.Grants irq = true) : d.irqMsixChannelSetup pdev =
      ((d.withLines (setupLines pdev d)).logged (block (d.channelLines pdev) true), 0) := by
  have h₁ := requestChannels_granted .toDevice 0 (List.range d.h2cChannelMax) d
    fun irq hirq => h irq (List.mem_append_left _ hirq)
  have h₂ := requestChannels_granted .fromDevice d.h2cChannelMax (List.range d.c2hChannelMax)
    ((d.withLines (withChannels pdev .toDevice 0 (List.range d.h2cChannelMax) d.msixIrqLine)).logged
      (block ((List.range d.h2cChannelMax).map (channelIrq pdev .toDevice 0)) true))
    fun irq hirq => h irq (List.mem_append_right _ hirq)
  rw [irqMsixChannelSetup, hx]
  simp only [Bool.not_true, Bool.false_eq_true, ↓reduceIte, h₁, ne_eq, not_true_eq_false]
  refine h₂.trans (congrArg (·, (0 : ℤ)) ?_)
  rw [channelLines, block_append]
  exact logged_logged (d.withLines (setupLines pdev d)) _ _

theorem irqMsixChannelSetup_refused (hneg : ∀ line, pdev.requestIrq line ≤ 0) {d : XdmaDev}
    (hx : d.msixEnabled = true) (h : ¬∀ irq ∈ d.channelLines pdev, pdev.Grants irq = true) :
    ∃ line, ∃ rv < 0, d.irqMsixChannelSetup pdev =
      ((d.withLines line).logged (block ((d.channelLines pdev).takeWhile pdev.Grants) true), rv) := by
  rw [irqMsixChannelSetup, hx]
  simp only [Bool.not_true, Bool.false_eq_true, ↓reduceIte]
  by_cases h₁ : ∀ irq ∈ (List.range d.h2cChannelMax).map (channelIrq pdev .toDevice 0), pdev.Grants irq = true
  · rw [requestChannels_granted .toDevice 0 _ d h₁]
    have h₂ : ¬∀ irq ∈ (List.range d.c2hChannelMax).map (channelIrq pdev .fromDevice d.h2cChannelMax),
        pdev.Grants irq = true := fun h₂ => h fun irq hirq => (List.mem_append.mp hirq).elim (h₁ irq) (h₂ irq)
    obtain ⟨line, rv, hrv, heq⟩ := requestChannels_refused hneg .fromDevice d.h2cChannelMax
      (List.range d.c2hChannelMax)
      ((d.withLines (withChannels pdev .toDevice 0 (List.range d.h2cChannelMax) d.msixIrqLine)).logged
        (block ((List.range d.h2cChannelMax).map (channelIrq pdev .toDevice 0)) true)) h₂
    refine ⟨line, rv, hrv, heq.trans (congrArg (·, rv) ?_)⟩
    rw [channelLines, List.takeWhile_append_of_pos h₁, block_append]
    exact logged_logged (d.withLines line) _ _
  · obtain ⟨line, rv, hrv, heq⟩ := requestChannels_refused hneg .toDevice 0 (List.range d.h2cChannelMax) d h₁
    refine ⟨line, rv, hrv, ?_⟩
    rw [heq]
    simp only [if_pos hrv.ne]
    rw [channelLines, takeWhile_append_refused h₁]

theorem irqSetup_of_channels {d d' : XdmaDev} {rv : ℤ} (hx : d.msixEnabled = true)
    (h : d.irqMsixChannelSetup pdev = (d', rv)) : irqSetup pdev d = if rv ≠ 0 then (d', rv) else
      if (d'.irqMsixUserSetup pdev).2 ≠ 0 then d'.irqMsixUserSetup pdev
      else ((d'.irqMsixUserSetup pdev).1, 0) := by
  rw [irqSetup, if_pos hx, h]

theorem irqSetup_msix_granted {d : XdmaDev} (h : ∀ irq ∈ d.lines pdev, pdev.Grants irq = true)
    (hx : d.msixEnabled = true) :
    irqSetup pdev d = ((d.withLines (setupLines pdev d)).logged (block (d.lines pdev) true), 0) := by
  rw [lines_msix hx] at h ⊢
  have hchannels := irqMsixChannelSetup_granted hx fun irq hirq => h irq (List.mem_append_left _ hirq)
  have husers := requestUsers_granted [] (List.range d.userMax)
    ((d.withLines (setupLines pdev d)).logged (block (d.channelLines pdev) true))
    fun irq hirq => h irq (List.mem_append_right _ hirq)
  have husers' : irqMsixUserSetup pdev
      ((d.withLines (setupLines pdev d)).logged (block (d.channelLines pdev) true)) = _ :=
    husers
  rw [irqSetup_of_channels hx hchannels, husers', block_append]
  exact congrArg (·, (0 : ℤ)) (logged_logged _ _ _)

theorem irqSetup_msix_refused (hneg : ∀ line, pdev.requestIrq line ≤ 0) {d : XdmaDev}
    (hx : d.msixEnabled = true)
    (h : ¬∀ irq ∈ d.lines pdev, pdev.Grants irq = true) :
    ∃ line, ∃ users : List ℕ, users.Nodup ∧ ∃ rv < 0, irqSetup pdev d =
      ((d.withLines line).logged (block ((d.channelLines pdev).takeWhile pdev.Grants) true ++
        (block (users.map (d.userIrq pdev)) true ++ block (users.reverse.map (d.userIrq pdev)) false)),
          rv) := by
  by_cases hc : ∀ irq ∈ d.channelLines pdev, pdev.Grants irq = true
  · have hu : ¬∀ irq ∈ (List.range d.userMax).map (d.userIrq pdev), pdev.Grants irq = true := by
      intro hu
      rw [lines_msix hx] at h
      exact h fun irq hirq => (List.mem_append.mp hirq).elim (hc irq) (hu irq)
    obtain ⟨users, hpre, rv, hrv, heq⟩ := requestUsers_refused hneg (List.range d.userMax) []
      ((d.withLines (setupLines pdev d)).logged (block (d.channelLines pdev) true)) hu
    have heq' : irqMsixUserSetup pdev
        ((d.withLines (setupLines pdev d)).logged (block (d.channelLines pdev) true)) = _ :=
      heq
    refine ⟨setupLines pdev d, users, hpre.sublist.nodup List.nodup_range, rv, hrv, ?_⟩
    have htake : (d.channelLines pdev).takeWhile pdev.Grants = d.channelLines pdev :=
      List.takeWhile_eq_self_iff.mpr hc
    rw [irqSetup_of_channels hx (irqMsixChannelSetup_granted hx hc), if_neg (not_not.mpr rfl),
      heq', if_pos hrv.ne,
      htake, List.append_nil]
    exact congrArg (·, rv) (logged_logged _ _ _)
  · obtain ⟨line, rv, hrv, heq⟩ := irqMsixChannelSetup_refused hneg hx hc
    refine ⟨line, [], List.nodup_nil, rv, hrv, ?_⟩
    rw [irqSetup_of_channels hx heq, if_pos hrv.ne]
    exact congrArg (fun ops => ((d.withLines line).logged ops, rv)) (List.append_nil _).symm

theorem irqSetup_granted {d : XdmaDev} (h : ∀ irq ∈ d.lines pdev, pdev.Grants irq = true)
    (hpin : d.msixEnabled = false → d.msiEnabled = false → pdev.interruptPin ≠ 0) :
    (irqSetup pdev d).2 = 0 ∧ LinesKnown pdev (irqSetup pdev d).1 ∧
      Logged d (irqSetup pdev d).1 (block (d.lines pdev) true) := by
  cases hx : d.msixEnabled with
  | true =>
    rw [irqSetup_msix_granted h hx]
    refine ⟨rfl, ⟨?_, ?_, ?_⟩, (withLines_spec d _).trans (logged_spec _ _)⟩
    · exact fun _ i hi => setupLines_toDevice d hi
    · exact fun _ i hi => setupLines_fromDevice d hi
    · simp [hx]
  | false =>
    have hlines : d.lines pdev = [⟨pdev.irq, .xdev⟩] := if_neg (by simp [hx])
    have hgrant : pdev.Grants ⟨pdev.irq, .xdev⟩ = true := h _ (hlines ▸ List.mem_cons_self)
    have hknown : ∀ d' : XdmaDev, d'.msixEnabled = false → d'.irqLine = pdev.irq → LinesKnown pdev d' :=
      fun d' hx' hirq => ⟨by simp [hx'], by simp [hx'], fun _ => hirq⟩
    rw [irqSetup, if_neg (by simp [hx])]
    cases hm : d.msiEnabled with
    | true =>
      simp only [↓reduceIte, irqMsiSetup, requestIrq_granted hgrant, hlines, true_and]
      exact ⟨hknown _ hx rfl, rfl, rfl, rfl, rfl, rfl, rfl⟩
    | false =>
      simp only [Bool.false_eq_true, ↓reduceIte, irqLegacySetup, hpin hx hm,
        requestIrq_granted hgrant, hlines,
        true_and]
      exact ⟨hknown _ hx rfl, rfl, rfl, rfl, rfl, rfl, rfl⟩

def leftover (pdev : PciDev) (d : XdmaDev) : List Irq := (d.channelLines pdev).takeWhile pdev.Grants

theorem leftover_disable {d d' : XdmaDev} {ops : List (Op Irq)} (h : Logged d d' ops) :
    d'.disableMsiMsix.leftover pdev = d.leftover pdev := by
  have hmax : d'.disableMsiMsix.h2cChannelMax = d'.h2cChannelMax ∧
      d'.disableMsiMsix.c2hChannelMax = d'.c2hChannelMax := by
    unfold disableMsiMsix
    split
    · exact ⟨rfl, rfl⟩
    · split <;> exact ⟨rfl, rfl⟩
  rw [leftover, leftover, channelLines, channelLines, hmax.1, hmax.2, h.h2cChannelMax, h.c2hChannelMax]

theorem disableMsiMsix_log (d : XdmaDev) : d.disableMsiMsix.log = d.log := by
  unfold disableMsiMsix
  split
  · rfl
  · split <;> rfl

theorem channelLines_nodup (pdev : PciDev) (d : XdmaDev) : (d.channelLines pdev).Nodup := by
  have hinj (dir : DmaDir) (j : ℕ) : Function.Injective (channelIrq pdev dir j) := by
    intro i i' h
    simpa [channelIrq] using congrArg Irq.devId h
  refine List.nodup_append.mpr ⟨List.nodup_range.map (hinj _ _), List.nodup_range.map (hinj _ _), ?_⟩
  rintro x hx y hy rfl
  obtain ⟨i, -, rfl⟩ := List.mem_map.mp hx
  obtain ⟨i', -, h⟩ := List.mem_map.mp hy
  simpa [channelIrq] using congrArg Irq.devId h

theorem userIrq_injective (pdev : PciDev) (d : XdmaDev) : Function.Injective (d.userIrq pdev) := by
  intro i i' h
  simpa [userIrq] using congrArg Irq.devId h

theorem userIrq_not_channel (pdev : PciDev) (d : XdmaDev) (i : ℕ) :
    d.userIrq pdev i ∉ d.channelLines pdev := by
  intro h
  rcases List.mem_append.mp h with h | h <;> obtain ⟨i', -, h⟩ := List.mem_map.mp h <;>
    simpa [channelIrq, userIrq] using congrArg Irq.devId h

theorem irqSetup_succeeds (hneg : ∀ line, pdev.requestIrq line ≤ 0) {d : XdmaDev}
    (h : ¬(irqSetup pdev d).2 < 0) :
    (∀ irq ∈ d.lines pdev, pdev.Grants irq = true) ∧
      (d.msixEnabled = false → d.msiEnabled = false → pdev.interruptPin ≠ 0) := by
  cases hx : d.msixEnabled with
  | true =>
    refine ⟨by_contra fun hg => ?_, by simp⟩
    obtain ⟨line, users, -, rv, hrv, heq⟩ := irqSetup_msix_refused hneg hx hg
    rw [heq] at h
    exact h hrv
  | false =>
    rw [irqSetup, if_neg (by simp [hx])] at h
    have hone (d' : XdmaDev) (hr : ¬(d'.requestIrq pdev ⟨pdev.irq, .xdev⟩).2 < 0) :
        ∀ irq ∈ d.lines pdev, pdev.Grants irq = true := by
      rw [lines, if_neg (by simp [hx])]
      intro irq hirq
      obtain rfl := List.mem_singleton.mp hirq
      by_contra hg
      obtain ⟨rv, hrv, heq⟩ := requestIrq_refused hneg (Bool.eq_false_iff.mpr hg) d'
      rw [heq] at hr
      exact hr hrv
    cases hm : d.msiEnabled with
    | true =>
      rw [hm, if_pos rfl] at h
      exact ⟨hone _ h, by simp⟩
    | false =>
      rw [hm, if_neg (by simp), irqLegacySetup] at h
      by_cases hpin : pdev.interruptPin = 0
      · rw [if_pos hpin] at h
        exact absurd (err_neg .inval) h
      · rw [if_neg hpin] at h
        exact ⟨hone _ h, fun _ _ => hpin⟩

theorem irqSetup_fails (hneg : ∀ line, pdev.requestIrq line ≤ 0) {d : XdmaDev}
    (hnone : Leaves d.log fun _ => False)
    (h : (irqSetup pdev d).2 < 0) :
    Leaves (irqSetup pdev d).1.log (· ∈ if d.msixEnabled then d.leftover pdev else []) := by
  cases hx : d.msixEnabled with
  | true =>
    have hg : ¬∀ irq ∈ d.lines pdev, pdev.Grants irq = true := by
      intro hg
      rw [irqSetup_msix_granted hg hx] at h
      exact lt_irrefl _ h
    obtain ⟨line, users, hnd, rv, -, heq⟩ := irqSetup_msix_refused hneg hx hg
    have hsub : d.leftover pdev <+: d.channelLines pdev := List.takeWhile_prefix _
    have hfresh : ∀ irq ∈ users.map (d.userIrq pdev), ¬(irq ∈ d.leftover pdev ∨ False) := by
      rintro irq hirq (hmem | hmem)
      · obtain ⟨i, -, rfl⟩ := List.mem_map.mp hirq
        exact userIrq_not_channel pdev d i (hsub.subset hmem)
      · exact hmem
    have husers : (users.map (d.userIrq pdev)).Nodup := hnd.map (userIrq_injective pdev d)
    have hl := (hnone.acquires (hsub.sublist.nodup (channelLines_nodup pdev d)) (by simp)).acquires
      husers hfresh
    have hback : (users.reverse.map (d.userIrq pdev)).Nodup :=
      (List.nodup_reverse.mpr hnd).map (userIrq_injective pdev d)
    have hr := hl.releases hback fun irq hirq => .inl (by simpa using hirq)
    rw [List.append_assoc, List.append_assoc] at hr
    rw [heq, if_pos rfl]
    refine hr.congr fun irq => ?_
    rw [List.map_reverse, List.mem_reverse, or_false]
    constructor
    · exact fun hmem => ⟨fun hu => hfresh irq hu (.inl hmem), .inr hmem⟩
    · exact fun h' => h'.2.resolve_left h'.1
  | false =>
    have hsame : (irqSetup pdev d).1.log = d.log := by
      have hone (d' : XdmaDev) (hd : d'.log = d.log) (hr : (d'.requestIrq pdev ⟨pdev.irq, .xdev⟩).2 < 0) :
          (d'.requestIrq pdev ⟨pdev.irq, .xdev⟩).1.log = d.log := by
        cases hg : pdev.Grants ⟨pdev.irq, .xdev⟩ with
        | true =>
          rw [requestIrq_granted hg] at hr
          exact absurd hr (lt_irrefl _)
        | false =>
          obtain ⟨rv, -, heq⟩ := requestIrq_refused hneg hg d'
          rw [heq, hd]
      rw [irqSetup, if_neg (by simp [hx])] at h ⊢
      cases hm : d.msiEnabled with
      | true =>
        rw [hm, if_pos rfl] at h
        exact hone _ rfl h
      | false =>
        rw [hm, if_neg (by simp), irqLegacySetup] at h
        rw [if_neg (by simp), irqLegacySetup]
        split at h
        · rename_i hpin
          rw [if_pos hpin]
        · rename_i hpin
          rw [if_neg hpin]
          exact hone _ rfl h
    rw [hsame]
    exact hnone.congr (by simp)

theorem requestIrq_logged (pdev : PciDev) (irq : Irq) (d : XdmaDev) :
    ∃ ops, Logged d (d.requestIrq pdev irq).1 ops := by
  unfold requestIrq
  split
  · exact ⟨_, logged_spec d [.acquire irq]⟩
  · exact ⟨[], .refl d⟩

theorem requestChannels_logged (pdev : PciDev) (dir : DmaDir) (j : ℕ) (is : List ℕ) (d : XdmaDev) :
    ∃ ops, Logged d (requestChannels pdev dir j is d).1 ops := by
  induction is generalizing d with
  | nil => exact ⟨[], .refl d⟩
  | cons i is ih =>
    obtain ⟨ops, h⟩ := requestIrq_logged pdev ⟨pdev.pciIrqVector (j + i), .engine dir i⟩ d
    rw [requestChannels]
    dsimp only
    split
    · exact ⟨ops, h⟩
    · obtain ⟨ops', h'⟩ := ih (setMsixIrqLine (d.requestIrq pdev ⟨pdev.pciIrqVector (j + i),
        .engine dir i⟩).1 dir i
        (pdev.pciIrqVector (j + i)))
      exact ⟨_, (h.trans (withLines_spec _ _)).trans h'⟩

theorem requestUsers_logged (pdev : PciDev) (done is : List ℕ) (d : XdmaDev) :
    ∃ ops, Logged d (requestUsers pdev done is d).1 ops := by
  induction is generalizing done d with
  | nil => exact ⟨[], .refl d⟩
  | cons i is ih =>
    obtain ⟨ops, h⟩ := requestIrq_logged pdev (d.userIrq pdev i) d
    rw [requestUsers]
    dsimp only
    split
    · rw [freeUsers_eq]
      exact ⟨_, h.trans (logged_spec _ _)⟩
    · obtain ⟨ops', h'⟩ := ih (i :: done) (d.requestIrq pdev (d.userIrq pdev i)).1
      exact ⟨_, h.trans h'⟩

theorem irqMsixChannelSetup_logged (pdev : PciDev) (d : XdmaDev) :
    ∃ ops, Logged d (d.irqMsixChannelSetup pdev).1 ops := by
  obtain ⟨ops, h⟩ := requestChannels_logged pdev .toDevice 0 (List.range d.h2cChannelMax) d
  unfold irqMsixChannelSetup
  dsimp only
  split
  · exact ⟨[], .refl d⟩
  · split
    · exact ⟨ops, h⟩
    · obtain ⟨ops', h'⟩ := requestChannels_logged pdev .fromDevice _ _
        (requestChannels pdev .toDevice 0 (List.range d.h2cChannelMax) d).1
      exact ⟨_, h.trans h'⟩

theorem irqSetup_logged (pdev : PciDev) (d : XdmaDev) : ∃ ops, Logged d (irqSetup pdev d).1 ops := by
  have hone : ∃ ops, Logged d (requestIrq pdev { d with irqLine := pdev.irq } ⟨pdev.irq, .xdev⟩).1 ops := by
    obtain ⟨ops, h⟩ := requestIrq_logged pdev ⟨pdev.irq, .xdev⟩ { d with irqLine := pdev.irq }
    exact ⟨ops, h.userMax, h.h2cChannelMax, h.c2hChannelMax, h.msiEnabled, h.msixEnabled, h.log⟩
  obtain ⟨ops, h⟩ := irqMsixChannelSetup_logged pdev d
  obtain ⟨ops', h'⟩ := requestUsers_logged pdev [] (List.range (d.irqMsixChannelSetup pdev).1.userMax)
    (d.irqMsixChannelSetup pdev).1
  unfold irqSetup
  dsimp only
  split
  · split
    · exact ⟨ops, h⟩
    · split <;> exact ⟨_, h.trans h'⟩
  · split
    · exact hone
    · unfold irqLegacySetup
      split
      · exact ⟨[], .refl d⟩
      · exact hone

def granting (pdev : PciDev) : PciDev := { pdev with requestIrq := fun _ => 0 }

theorem irqTeardown_granting (d : XdmaDev) : d.irqTeardown (granting pdev) = d.irqTeardown pdev := by
  have husers (d' : XdmaDev) : d'.irqMsixUserTeardown (granting pdev) = d'.irqMsixUserTeardown pdev := by
    rw [irqMsixUserTeardown, irqMsixUserTeardown, freeUsers_eq, freeUsers_eq]
    rfl
  rw [irqTeardown, irqTeardown, husers]

theorem lines_nodup_of_ids (pdev : PciDev) (d : XdmaDev) : (d.lines pdev).Nodup := by
  cases hx : d.msixEnabled with
  | true =>
    rw [lines_msix hx]
    refine List.nodup_append.mpr ⟨channelLines_nodup pdev d,
      List.nodup_range.map (userIrq_injective pdev d), ?_⟩
    rintro x hx' y hy rfl
    obtain ⟨i, -, rfl⟩ := List.mem_map.mp hy
    exact userIrq_not_channel pdev d i hx'
  | false =>
    rw [lines, if_neg (by simp [hx])]
    exact List.nodup_singleton _

/-- What a setup that succeeds requests, the teardown gives back. -/
theorem irqTeardown_of_setup (hneg : ∀ line, pdev.requestIrq line ≤ 0) {d : XdmaDev} (hlog : d.log = [])
    (hv : LinesValid (granting pdev) d) (h : ¬(irqSetup pdev d).2 < 0) :
    (∃ ops, Logged d ((irqSetup pdev d).1.irqTeardown pdev) ops) ∧
      Leaves ((irqSetup pdev d).1.irqTeardown pdev).log fun _ => False := by
  obtain ⟨hg, hpin⟩ := irqSetup_succeeds hneg h
  obtain ⟨-, hknown, hops⟩ := irqSetup_granted hg hpin
  have hk : LinesKnown (granting pdev) (irqSetup pdev d).1 := ⟨hknown.h2c, hknown.c2h, hknown.irqLine⟩
  have hlines : (irqSetup pdev d).1.lines (granting pdev) = d.lines pdev := hops.lines
  rw [← irqTeardown_granting, irqTeardown_eq hk (hops.valid hv), hlines]
  have hall := hops.trans (logged_spec (irqSetup pdev d).1 (block (d.lines pdev) false))
  refine ⟨⟨_, hall⟩, ?_⟩
  have hnd := lines_nodup_of_ids pdev d
  have hl := (Leaves.nil.acquires hnd (by simp)).releases hnd fun irq hirq => .inl hirq
  rw [hall.log, hlog, List.nil_append]
  exact hl.congr fun irq => by simp

end XdmaDev

namespace OpenDev

variable {p : Params} {d : OpenDev} {base : List DevRes}

theorem Sound.perm (h : Sound p d base) {base' : List DevRes} (hb : base'.Perm base) : Sound p d base' := by
  refine ⟨h.log.congr fun r => ?_, h.polled⟩
  cases r <;> first | exact Iff.rfl | exact hb.mem_iff

theorem Sound.leaves (h : Sound p d base) (he : d.Empty) (hbase : ∀ r ∈ base, IsBase r) :
    Leaves d.log (· ∈ base) := by
  refine h.log.congr fun r => ?_
  cases r with
  | coherent buf dir ch bytes =>
    refine iff_of_false (fun hr => (hbase _ hr).elim) fun hr => ?_
    exact absurd hr.1 (by simp [(he dir ch).1 buf])
  | work dir ch =>
    refine iff_of_false (fun hr => (hbase _ hr).elim) fun hr => ?_
    exact absurd (show (d.engine dir ch).cmplthp = true from hr) (by simp [(he dir ch).2])
  | _ => exact Iff.rfl

theorem errEnable_leaves (base : List DevRes) (h : Sound p d (base ++ [.listed, .xdev])) (he : d.Empty)
    (hbase : ∀ r ∈ base, IsBase r)
    (hl : .listed ∉ base) (hx : .xdev ∉ base) : Leaves d.errEnable.log (· ∈ base) := by
  have h₁ : Sound p d (.listed :: .xdev :: base) := h.perm (by
    rw [show DevRes.listed :: .xdev :: base = [.listed, .xdev] ++ base from rfl]
    exact List.perm_append_comm)
  have h₂ := h₁.release trivial (by simp [hl])
  exact (h₂.release trivial hx).leaves he hbase

theorem errRegions_leaves (h : Sound p d [.enabled, .listed, .xdev]) (he : d.Empty) :
    Leaves d.errRegions.log fun r => d.regionsInUse = true ∧ r = .enabled := by
  unfold errRegions
  split
  · rename_i hu
    refine (errEnable_leaves [.enabled] h he (by simp [IsBase]) (by decide) (by decide)).congr fun r => ?_
    simp [hu]
  · rename_i hu
    have h' : Sound p (d.release .enabled) [.listed, .xdev] := h.release trivial (by decide)
    refine (errEnable_leaves [] h' he (by simp) (by simp) (by simp)).congr fun r => ?_
    simp [hu]

theorem errMap_leaves (h : Sound p d [.regions, .enabled, .listed, .xdev]) (he : d.Empty)
    (hg : d.gotRegions = true)
    (hu : d.regionsInUse = false) : Leaves d.errMap.log fun _ => False := by
  have h' : Sound p (d.release .regions) [.enabled, .listed, .xdev] := h.release trivial (by decide)
  rw [errMap, if_pos hg]
  exact (errRegions_leaves h' he).congr fun r => by simp [release, hu]

section UnmapBars

-- By rewriting: the unifier would compare the BARs first, and unmap them.
variable (d : OpenDev)

@[simp] theorem unmapBars_engine : d.unmapBars.engine = d.engine := by simp only [unmapBars]
@[simp] theorem unmapBars_log : d.unmapBars.log = d.log := by simp only [unmapBars]
@[simp] theorem unmapBars_gotRegions : d.unmapBars.gotRegions = d.gotRegions := by simp only [unmapBars]
@[simp] theorem unmapBars_regionsInUse : d.unmapBars.regionsInUse = d.regionsInUse := by simp only [unmapBars]

end UnmapBars

theorem errMask_leaves (h : Sound p d [.regions, .enabled, .listed, .xdev]) (he : d.Empty)
    (hg : d.gotRegions = true)
    (hu : d.regionsInUse = false) : Leaves d.errMask.log fun _ => False := by
  have hlog : Leaves d.unmapBars.log (d.unmapBars.Owned [.regions, .enabled, .listed, .xdev]) := by
    rw [unmapBars_log]
    apply h.log.congr
    apply owned_congr <;> simp
  have hpolled : ∀ dir ch, (d.unmapBars.engine dir ch).cmplthp = true → p.pollMode = true := by
    rw [unmapBars_engine]
    exact h.polled
  have hempty : d.unmapBars.Empty := by
    unfold Empty
    rw [unmapBars_engine]
    exact he
  rw [errMask]
  exact errMap_leaves ⟨hlog, hpolled⟩ hempty (by rw [unmapBars_gotRegions, hg])
    (by rw [unmapBars_regionsInUse, hu])

section Unwound

variable (d : OpenDev)

theorem errRegions_bars : d.errRegions.bars = d.bars ∧ d.errRegions.irq = d.irq := by
  unfold errRegions
  split <;> exact ⟨rfl, rfl⟩

theorem errMap_bars : d.errMap.bars = d.bars ∧ d.errMap.irq = d.irq := by
  unfold errMap
  split <;> exact errRegions_bars _

theorem errMask_bars : d.errMask.bars = d.bars.unmapBars ∧ d.errMask.irq = d.irq := by
  rw [errMask, (errMap_bars _).1, (errMap_bars _).2]
  simp only [unmapBars, true_and]

end Unwound

structure Probed (p : Params) (d : OpenDev) (base : List DevRes) : Prop where
  sound : Sound p d (base ++ [.regions, .enabled, .listed, .xdev])
  visited : d.Visited
  gotRegions : d.gotRegions = true
  regionsInUse : d.regionsInUse = false

theorem Probed.withIrq (h : Probed p d base) {irq : XdmaDev} (hh : irq.h2cChannelMax = d.irq.h2cChannelMax)
    (hc : irq.c2hChannelMax = d.irq.c2hChannelMax) : Probed p { d with irq := irq } base := by
  refine ⟨h.sound.withIrq irq, fun dir => ?_, h.gotRegions, h.regionsInUse⟩
  have hmax : channelMax { d with irq := irq } dir = d.channelMax dir := by
    cases dir with
    | toDevice => exact hh
    | fromDevice => exact hc
  unfold Reached
  rw [hmax]
  exact h.visited dir

theorem errEngines_leaves (h : Probed p d []) : (Leaves (d.errEngines p).log fun _ => False) ∧
    (d.errEngines p).bars = d.bars.unmapBars ∧ (d.errEngines p).irq = d.irq := by
  obtain ⟨hs, he, hirq, hbars, hg, hu⟩ := removeEngines_spec h.sound h.visited
  rw [errEngines, (errMask_bars _).1, (errMask_bars _).2, hbars, hirq]
  exact ⟨errMask_leaves hs he (hg.trans h.gotRegions) (hu.trans h.regionsInUse), rfl, rfl⟩

def vectorRes (d : OpenDev) : List DevRes :=
  if d.irq.msixEnabled then [.vectors] else if d.irq.msiEnabled then [.msi] else []

theorem disableMsiMsix_probed (h : Probed p d d.vectorRes) : Probed p d.disableMsiMsix [] := by
  have hreleased : Probed p (if d.irq.msixEnabled then d.release .vectors
      else if d.irq.msiEnabled then d.release .msi else d) [] := by
    unfold vectorRes at h
    split
    · rename_i hx
      rw [if_pos hx] at h
      exact ⟨h.sound.release trivial (by decide), h.visited, h.gotRegions, h.regionsInUse⟩
    · rename_i hx
      rw [if_neg hx] at h
      split
      · rename_i hm
        rw [if_pos hm] at h
        exact ⟨h.sound.release trivial (by decide), h.visited, h.gotRegions, h.regionsInUse⟩
      · rename_i hm
        rwa [if_neg hm] at h
  have hirq : (if d.irq.msixEnabled then d.release .vectors
      else if d.irq.msiEnabled then d.release .msi else d).irq = d.irq := by
    split
    · rfl
    · split <;> rfl
  apply hreleased.withIrq
  all_goals
    rw [hirq, XdmaDev.disableMsiMsix]
    split
    · rfl
    · split <;> rfl

theorem errMsix_leaves (h : Probed p d d.vectorRes) : (Leaves (d.errMsix p).log fun _ => False) ∧
    (d.errMsix p).bars = d.bars.unmapBars ∧ (d.errMsix p).irq = d.irq.disableMsiMsix := by
  have hbars : d.disableMsiMsix.bars = d.bars := by
    unfold disableMsiMsix
    split
    · rfl
    · split <;> rfl
  obtain ⟨hl, hb, hirq⟩ := errEngines_leaves (disableMsiMsix_probed h)
  rw [errMsix, hb, hirq, hbars]
  exact ⟨hl, rfl, by rw [disableMsiMsix]⟩

structure Mapped (p : Params) (d : OpenDev) (rs : ℕ → PciResource) : Prop where
  sound : Sound p d [.regions, .enabled, .listed, .xdev]
  gotRegions : d.gotRegions = true
  regionsInUse : d.regionsInUse = false
  bar : ∀ i, d.bars.bar i ≠ 0 ↔ i ∈ BarMap.present rs
  mapped : Leaves d.bars.log (· ∈ BarMap.present rs)

theorem Mapped.unmapped {rs : ℕ → PciResource} (h : Mapped p d rs) :
    Leaves d.bars.unmapBars.log fun _ => False :=
  (BarMap.unmapBars_leaves h.bar h.mapped (List.filter_sublist.subset)).2

end OpenDev

namespace OpenEnv

variable {p : Params} {env : OpenEnv}

/-- What the driver relies on: a request of a line is granted or answered with a negative
error, and the vectors are lines of their own, none of them line 0. -/
structure KernelAnswers (pdev : PciDev) : Prop where
  refused : ∀ line, pdev.requestIrq line ≤ 0
  distinct : Set.InjOn pdev.pciIrqVector {i | i < 2 * xdmaChannelNumMax + maxUserIrq}
  valid : ∀ i < 2 * xdmaChannelNumMax + maxUserIrq, pdev.pciIrqVector i ≠ 0
  irq : pdev.irq ≠ -1

def UsesMsix (env : OpenEnv) : Prop := (env.interruptMode = 3 ∨ env.interruptMode = 0) ∧ env.pdev.msixCapable

instance (env : OpenEnv) : Decidable env.UsesMsix := inferInstanceAs (Decidable (_ ∧ _))

/-- What is left after an open, or after an open and a close: of the device, of its BARs and of
its lines. -/
structure LeavesOnly (d : OpenDev) (res : DevRes → Prop) (lines : List Irq) : Prop where
  device : Leaves d.log res
  bars : Leaves d.bars.log fun _ => False
  lines : Leaves d.irq.log (· ∈ lines)

theorem enableMsiMsix_spec (env : OpenEnv) {d : OpenDev} (h : OpenDev.Sound p d [.regions, .enabled, .listed, .xdev])
    (hx : d.irq.msixEnabled = false) (hm : d.irq.msiEnabled = false) : (∃ log, ∃ a b : Bool, (a = true ↔ env.UsesMsix) ∧
      (d.enableMsiMsix env).1 = { d with log := log, irq := { d.irq with msixEnabled := a, msiEnabled := b } }) ∧
      OpenDev.Sound p (d.enableMsiMsix env).1 ((if (d.enableMsiMsix env).2 < 0 then []
        else (d.enableMsiMsix env).1.vectorRes) ++ [.regions, .enabled, .listed, .xdev]) := by
  have heq (irq : XdmaDev) (rv : ℤ) (hirq : d.irq.enableMsiMsix env.interruptMode env.pdev = (irq, rv)) :
      d.enableMsiMsix env = if rv < 0 then ({ d with irq := irq }, rv)
        else if irq.msixEnabled then (OpenDev.acquire { d with irq := irq } .vectors, rv)
        else if irq.msiEnabled then (OpenDev.acquire { d with irq := irq } .msi, rv)
        else ({ d with irq := irq }, rv) := by
    rw [OpenDev.enableMsiMsix, hirq]
  by_cases hux : env.UsesMsix
  · rw [heq { d.irq with msixEnabled := true } env.pdev.pciAllocIrqVectors (if_pos hux)]
    by_cases hrv : env.pdev.pciAllocIrqVectors < 0
    · rw [if_pos hrv]
      dsimp only
      rw [if_pos hrv]
      exact ⟨⟨d.log, true, d.irq.msiEnabled, by simp [hux], rfl⟩, h.withIrq _⟩
    · rw [if_neg hrv, if_pos rfl]
      dsimp only
      rw [if_neg hrv]
      exact ⟨⟨_, true, d.irq.msiEnabled, by simp [hux], rfl⟩,
        (h.withIrq _).acquire (r := .vectors) trivial (by decide)⟩
  · by_cases hum : (env.interruptMode = 1 ∨ env.interruptMode = 0) ∧ env.pdev.msiCapable = true
    · rw [heq { d.irq with msiEnabled := true } env.pdev.pciEnableMsi ((if_neg hux).trans (if_pos hum))]
      by_cases hrv : env.pdev.pciEnableMsi < 0
      · rw [if_pos hrv]
        dsimp only
        rw [if_pos hrv]
        exact ⟨⟨d.log, false, true, by simp [hux], by rw [← hx]⟩, h.withIrq _⟩
      · rw [if_neg hrv, if_neg (by simp [hx]), if_pos rfl]
        dsimp only
        rw [if_neg hrv, OpenDev.vectorRes, if_neg (by simp [OpenDev.acquire, hx]), if_pos (by simp [OpenDev.acquire])]
        exact ⟨⟨d.log ++ [.acquire .msi], false, true, by simp [hux], by rw [← hx]; rfl⟩,
          (h.withIrq _).acquire (r := .msi) trivial (by decide)⟩
    · rw [heq d.irq 0 ((if_neg hux).trans (if_neg hum)), if_neg (lt_irrefl 0), if_neg (by simp [hx]),
        if_neg (by simp [hm])]
      dsimp only
      rw [if_neg (lt_irrefl 0), OpenDev.vectorRes, if_neg (by simp [hx]), if_neg (by simp [hm])]
      have hsame : { d.irq with msixEnabled := false, msiEnabled := false } = d.irq := by
        cases hi : d.irq
        simp_all
      exact ⟨⟨d.log, false, false, by simp [hux], by rw [hsame]⟩, h⟩

theorem enableMsiMsix_probed (env : OpenEnv) {d : OpenDev} (h : OpenDev.Probed p d []) (hx : d.irq.msixEnabled = false)
    (hm : d.irq.msiEnabled = false) : (∃ a b : Bool, (a = true ↔ env.UsesMsix) ∧
      (d.enableMsiMsix env).1.irq = { d.irq with msixEnabled := a, msiEnabled := b }) ∧
      (d.enableMsiMsix env).1.bars = d.bars ∧ OpenDev.Probed p (d.enableMsiMsix env).1
        (if (d.enableMsiMsix env).2 < 0 then [] else (d.enableMsiMsix env).1.vectorRes) := by
  obtain ⟨⟨log, a, b, hab, heq⟩, hs⟩ := enableMsiMsix_spec env h.sound hx hm
  have hmax : ∀ dir, (d.enableMsiMsix env).1.Reached dir ((d.enableMsiMsix env).1.channelMax dir) := by
    intro dir
    rw [heq]
    have hv := h.visited dir
    cases dir <;> exact hv
  refine ⟨⟨a, b, hab, by rw [heq]⟩, by rw [heq], hs, hmax, ?_, ?_⟩
  · rw [heq]
    exact h.gotRegions
  · rw [heq]
    exact h.regionsInUse

theorem linesValid_of_answers (hk : KernelAnswers env.pdev) {i j : ℕ} (hi : i ≤ env.allocDevInstance.irq.h2cChannelMax)
    (hj : j ≤ env.allocDevInstance.irq.c2hChannelMax) (a b : Bool) :
    XdmaDev.LinesValid (XdmaDev.granting env.pdev)
      { env.allocDevInstance.irq with h2cChannelMax := i, c2hChannelMax := j, msixEnabled := a, msiEnabled := b } := by
  have hh : env.allocDevInstance.irq.h2cChannelMax ≤ xdmaChannelNumMax := XdmaDev.clampMax_le _ _
  have hc : env.allocDevInstance.irq.c2hChannelMax ≤ xdmaChannelNumMax := XdmaDev.clampMax_le _ _
  have hu : env.allocDevInstance.irq.userMax ≤ maxUserIrq := XdmaDev.clampMax_le _ _
  constructor
  · exact fun _ => rfl
  · apply hk.distinct.mono
    intro k hlt
    simp only [Set.mem_ofPred_eq] at hlt ⊢
    omega
  · intro k hlt
    dsimp only at hlt
    exact hk.valid k (by omega)
  · exact hk.irq

theorem openEngines_spec (hk : KernelAnswers env.pdev) {d : OpenDev} (h : OpenDev.Mapped p d env.bars)
    (hnew : ∀ dir, d.Reached dir 0) (hirq : d.irq = env.allocDevInstance.irq) :
    (∀ f, (env.openEngines p d).2 = some f → f ≠ .regions ∧
      LeavesOnly (env.openEngines p d).1 (fun _ => False)
        (if f = .irq ∧ env.UsesMsix then (env.openEngines p d).1.irq.leftover env.pdev else [])) ∧
      ((env.openEngines p d).2 = none → LeavesOnly ((env.openEngines p d).1.xdmaDeviceClose p env)
        (fun _ => False) []) := by
  have hlog : d.irq.log = [] := hirq ▸ rfl
  have hnone : Leaves d.irq.log (· ∈ ([] : List Irq)) := by
    rw [hlog]
    exact Leaves.nil.congr (by simp)
  unfold openEngines
  split
  · refine ⟨?_, by simp⟩
    rintro f ⟨rfl⟩
    refine ⟨by decide, ?_⟩
    rw [if_neg (by simp)]
    have hempty : d.Empty := fun dir ch => (hnew dir).1 ch (Nat.zero_le ch)
    refine ⟨OpenDev.errMask_leaves h.sound hempty h.gotRegions h.regionsInUse, ?_, ?_⟩
    · rw [(OpenDev.errMask_bars d).1]
      exact h.unmapped
    · rw [(OpenDev.errMask_bars d).2]
      exact hnone
  · obtain ⟨hs₁, hv₁, hbars₁, hg₁, hu₁, i, hi, j, hj, hirq₁⟩ :=
      OpenDev.probeEngines_spec h.sound hnew env.engine
    rw [hirq] at hi hj hirq₁
    have hp₁ : OpenDev.Probed p (d.probeEngines p env.engine) [] :=
      ⟨hs₁, hv₁, hg₁.trans h.gotRegions, hu₁.trans h.regionsInUse⟩
    obtain ⟨⟨a, b, hab, hirq₂⟩, hbars₂, hp₂⟩ := enableMsiMsix_probed env hp₁ (by rw [hirq₁]; rfl)
      (by rw [hirq₁]; rfl)
    rw [hirq₁] at hirq₂
    rw [hbars₁] at hbars₂
    cases hpair : (d.probeEngines p env.engine).enableMsiMsix env with
    | mk d₂ rv =>
      rw [hpair] at hirq₂ hbars₂ hp₂
      dsimp only at hirq₂ hbars₂ hp₂ ⊢
      have hunmapped : Leaves d₂.bars.unmapBars.log fun _ => False := by
        rw [hbars₂]
        exact h.unmapped
      have hlog₂ : d₂.irq.log = [] := by
        rw [hirq₂]
        rfl
      split
      · rename_i hrv
        rw [if_pos hrv] at hp₂
        obtain ⟨hl, hb, hi'⟩ := OpenDev.errEngines_leaves hp₂
        refine ⟨?_, by simp⟩
        rintro f ⟨rfl⟩
        rw [if_neg (by simp)]
        refine ⟨by decide, hl, ?_, ?_⟩
        · rw [hb]
          exact hunmapped
        · rw [hi', hlog₂]
          exact Leaves.nil.congr (by simp)
      · rename_i hrv
        rw [if_neg hrv] at hp₂
        have hv : XdmaDev.LinesValid (XdmaDev.granting env.pdev) d₂.irq := by
          rw [hirq₂]
          exact linesValid_of_answers hk hi hj a b
        have hteardown := XdmaDev.irqTeardown_of_setup hk.refused hlog₂ hv
        have hfails := XdmaDev.irqSetup_fails hk.refused (hlog₂ ▸ Leaves.nil)
        obtain ⟨ops, hops⟩ := XdmaDev.irqSetup_logged env.pdev d₂.irq
        have hres {irq : XdmaDev} {ops : List (Op Irq)} (hl : XdmaDev.Logged d₂.irq irq ops) :
            OpenDev.Probed p { d₂ with irq := irq } (OpenDev.vectorRes { d₂ with irq := irq }) := by
          have hvec : OpenDev.vectorRes { d₂ with irq := irq } = d₂.vectorRes := by
            rw [OpenDev.vectorRes, OpenDev.vectorRes, hl.msixEnabled, hl.msiEnabled]
          rw [hvec]
          exact hp₂.withIrq hl.h2cChannelMax hl.c2hChannelMax
        cases hset : d₂.irq.irqSetup env.pdev with
        | mk irq rv₃ =>
          rw [hset] at hteardown hfails hops
          dsimp only at hteardown hfails hops ⊢
          split
          · rename_i hrv₃
            obtain ⟨hl, hb, hi'⟩ := OpenDev.errMsix_leaves (hres hops)
            dsimp only at hb hi'
            refine ⟨?_, by simp⟩
            rintro f ⟨rfl⟩
            refine ⟨by decide, hl, ?_, ?_⟩
            · rw [hb]
              exact hunmapped
            · dsimp only
              rw [hi', XdmaDev.disableMsiMsix_log, XdmaDev.leftover_disable hops]
              refine (hfails hrv₃).congr fun line => ?_
              have hmsix : d₂.irq.msixEnabled = true ↔ env.UsesMsix := by
                rw [hirq₂]
                exact hab
              simp only [true_and, hmsix]
          · rename_i hrv₃
            obtain ⟨⟨ops', hops'⟩, hlines⟩ := hteardown hrv₃
            refine ⟨by simp, fun _ => ?_⟩
            obtain ⟨hl, hb, hi'⟩ := OpenDev.errMsix_leaves (hres hops')
            refine ⟨hl, ?_, ?_⟩
            · rw [OpenDev.xdmaDeviceClose, hb]
              exact hunmapped
            · rw [OpenDev.xdmaDeviceClose, hi', XdmaDev.disableMsiMsix_log]
              exact hlines.congr (by simp)

theorem allocDevInstance_sound (p : Params) (env : OpenEnv) :
    OpenDev.Sound p env.allocDevInstance [.xdev] where
  log := by
    have h : Leaves ([] ++ [Op.acquire DevRes.xdev]) (· = DevRes.xdev) :=
      Leaves.nil.acquire (by simp) (by simp)
    refine h.congr fun r => ?_
    cases r <;> simp [OpenDev.Owned, allocDevInstance]
  polled := by simp [allocDevInstance]

def mappedDev (env : OpenEnv) : OpenDev :=
  { ((env.allocDevInstance.acquire .listed).acquire .enabled).acquire .regions with
    bars := (mapBars env.bars).1, gotRegions := true }

theorem mappedDev_fresh (env : OpenEnv) (dir : DmaDir) : env.mappedDev.Reached dir 0 :=
  ⟨fun _ _ => OpenDev.clean_empty, by simp⟩

theorem mappedDev_mapped (p : Params) {env : OpenEnv} (h : (mapBars env.bars).2 = 0) :
    OpenDev.Mapped p env.mappedDev env.bars := by
  obtain ⟨hleaves, c, hfound⟩ := BarMap.mapBars_mapped h
  have hlisted : OpenDev.Sound p (env.allocDevInstance.acquire .listed) [.listed, .xdev] :=
    (allocDevInstance_sound p env).acquire trivial (by decide)
  have hregions := (hlisted.acquire (r := .enabled) trivial (by decide)).acquire (r := .regions)
    trivial (by decide)
  exact ⟨⟨hregions.log, hregions.polled⟩, rfl, rfl, hfound.bar, hleaves⟩

/-- A device that could not be opened holds nothing, but for two cases: with its regions in
use it stays enabled, and the lines of the channels requested before a refused one stay
requested. One that was opened and is closed holds nothing. -/
theorem xdmaDeviceOpen_unwinds (hk : KernelAnswers env.pdev) :
    (∀ f, (env.xdmaDeviceOpen p).2 = some f →
      LeavesOnly (env.xdmaDeviceOpen p).1 (fun r => f = .regions ∧ r = .enabled)
        (if f = .irq ∧ env.UsesMsix then (env.xdmaDeviceOpen p).1.irq.leftover env.pdev else [])) ∧
      ((env.xdmaDeviceOpen p).2 = none →
        LeavesOnly ((env.xdmaDeviceOpen p).1.xdmaDeviceClose p env) (fun _ => False) []) := by
  have hnil {α : Type} [DecidableEq α] {P : α → Prop} (hP : ∀ x, ¬P x) : Leaves ([] : List (Op α)) P :=
    Leaves.nil.congr fun x => by simp [hP x]
  have hstop {d : OpenDev} {f : OpenFailure} (hf : f ≠ .irq)
      (hdev : Leaves d.log fun r => f = .regions ∧ r = .enabled) (hbars : Leaves d.bars.log fun _ => False)
      (hirq : d.irq.log = []) :
      (∀ f', (d, some f).2 = some f' → LeavesOnly (d, some f).1 (fun r => f' = .regions ∧ r = .enabled)
        (if f' = .irq ∧ env.UsesMsix then (d, some f).1.irq.leftover env.pdev else [])) ∧
      ((d, some f).2 = none → LeavesOnly ((d, some f).1.xdmaDeviceClose p env) (fun _ => False) []) := by
    refine ⟨?_, by simp⟩
    rintro f' ⟨rfl⟩
    rw [if_neg fun h => hf h.1]
    refine ⟨hdev, hbars, ?_⟩
    rw [show (d, some f).1.irq.log = [] from hirq]
    exact hnil (by simp)
  have hxdev := allocDevInstance_sound p env
  have hempty : env.allocDevInstance.Empty := fun _ _ => OpenDev.clean_empty
  unfold xdmaDeviceOpen
  dsimp only
  split
  · exact hstop (by decide) (hnil (by simp)) (hnil (by simp)) rfl
  split
  · refine hstop (by decide) ?_ (hnil (by simp)) rfl
    exact ((hxdev.release trivial (by simp)).leaves hempty (by simp)).congr fun r => by simp
  have hlisted : OpenDev.Sound p (env.allocDevInstance.acquire .listed) [.listed, .xdev] :=
    hxdev.acquire trivial (by decide)
  split
  · refine hstop (by decide) ?_ (hnil (by simp)) rfl
    exact (OpenDev.errEnable_leaves [] hlisted hempty (by simp) (by simp) (by simp)).congr fun r => by simp
  have henabled := hlisted.acquire (r := .enabled) trivial (by decide)
  split
  · have hinuse : OpenDev.Sound p
        { (env.allocDevInstance.acquire .listed).acquire .enabled with regionsInUse := true }
        [.enabled, .listed, .xdev] := ⟨henabled.log, henabled.polled⟩
    refine hstop (by decide) ?_ ?_ ?_
    · exact (OpenDev.errRegions_leaves hinuse hempty).congr fun r => by simp
    · rw [(OpenDev.errRegions_bars _).1]
      exact hnil (by simp)
    · rw [(OpenDev.errRegions_bars _).2]
      rfl
  have hregions := henabled.acquire (r := .regions) trivial (by decide)
  have hfailed := @BarMap.mapBars_failed env.bars
  cases hbars : mapBars env.bars with
  | mk bars rv =>
    rw [hbars] at hfailed
    dsimp only at hfailed ⊢
    split
    · rename_i hrv
      refine hstop (by decide) ?_ ?_ ?_
      · have hs : OpenDev.Sound p
            { ((env.allocDevInstance.acquire .listed).acquire .enabled).acquire .regions with
              bars := bars, gotRegions := true } [.regions, .enabled, .listed, .xdev] :=
                ⟨hregions.log, hregions.polled⟩
        exact (OpenDev.errMap_leaves hs hempty rfl rfl).congr fun r => by simp
      · rw [(OpenDev.errMap_bars _).1]
        exact (hfailed hrv).2
      · rw [(OpenDev.errMap_bars _).2]
        rfl
    · rename_i hrv
      have hrv' : (mapBars env.bars).2 = 0 := by
        rw [hbars]
        exact not_not.mp hrv
      have hdev : { ((env.allocDevInstance.acquire .listed).acquire .enabled).acquire .regions with
          bars := bars, gotRegions := true } = env.mappedDev := by rw [mappedDev, hbars]
      change (∀ f, (env.openEngines p _).2 = some f → _) ∧ _
      rw [hdev]
      obtain ⟨hfails, hopens⟩ := openEngines_spec hk (mappedDev_mapped p hrv') (mappedDev_fresh env) rfl
      refine ⟨fun f hf => ?_, hopens⟩
      obtain ⟨hne, hl⟩ := hfails f hf
      exact ⟨hl.device.congr fun r => by simp [hne], hl.bars, hl.lines⟩

theorem configBar_natural : (0x10000 : U64) ≠ 0 →
    (∃ k, (0x10000 : U64).toNat = 2 ^ k) ∧ (0x10000 : U64).toNat ∣ (0xf0000000 : U64).toNat :=
  fun _ => ⟨⟨16, rfl⟩, ⟨0xf000, rfl⟩⟩

def configBar : PciResource where
  bar := ⟨0xf0000000, 0x10000, configBar_natural⟩
  pciIomap := fun _ => 0xffffc90000000000
  irqId := 0x1fc20006
  cfgId := 0x1fc30006

def absentBar : PciResource where
  bar := ⟨0, 0, fun h => absurd rfl h⟩
  pciIomap := fun _ => 0
  irqId := 0
  cfgId := 0

def busyLine : OpenEnv where
  kzalloc := true
  list := {}
  hndl := 1
  pci := 7
  threads := { numThreads := 2, cpus := [0], alloc := true, start := fun _ => .started }
  pciEnableDevice := 0
  pciRequestRegions := 0
  bars := fun i => if i = 0 then configBar else absentBar
  dmaMask64 := true
  dmaMask32 := true
  engine := fun dir _ => ⟨if dir = .toDevice then 0x1fc00006 else 0x1fc10006, fun _ => true⟩
  interruptMode := 0
  pdev := { XdmaDev.msixDevice with requestIrq := fun line => if line = 41 then -16 else 0 }
  userMax := 1
  h2cChannelMax := 1
  c2hChannelMax := 1

theorem busyLine_answers : KernelAnswers busyLine.pdev := by
  have hv : XdmaDev.LinesValid XdmaDev.msixDevice { userMax := 16, h2cChannelMax := 4, c2hChannelMax := 4 } :=
    XdmaDev.msixDevice_valid (by decide)
  refine ⟨fun line => ?_, hv.distinct, hv.valid, hv.irq⟩
  change (if line = 41 then (-16 : ℤ) else 0) ≤ 0
  split <;> decide

theorem xdmaDeviceOpen_unwinds_busyLine : (busyLine.xdmaDeviceOpen {}).2 = some .irq ∧
    (busyLine.xdmaDeviceOpen {}).1.irq.leftover busyLine.pdev = [⟨40, .engine .toDevice 0⟩] ∧
    LeavesOnly (busyLine.xdmaDeviceOpen {}).1 (fun r => OpenFailure.irq = .regions ∧ r = .enabled)
      (if OpenFailure.irq = .irq ∧ busyLine.UsesMsix then (busyLine.xdmaDeviceOpen {}).1.irq.leftover
        busyLine.pdev
        else []) := by
  have hfails : (busyLine.xdmaDeviceOpen {}).2 = some .irq := by decide
  exact ⟨hfails, by decide, (xdmaDeviceOpen_unwinds busyLine_answers).1 .irq hfails⟩

end OpenEnv

end XdmaDriver
