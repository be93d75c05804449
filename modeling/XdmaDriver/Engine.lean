import XdmaDriver.Descriptor

namespace XdmaDriver

/-- The result of `engine_reg_dump`, which fails when the identifier register
does not hold an engine id. -/
def engineRegDump (identifier : U32) : ℤ :=
  if identifier &&& blockIdMask ≠ blockIdHead then err .inval else 0

namespace Drv

variable (p : Params) (s : Drv)

/-- `engine_status_read` without a dump; `w` is what the status register holds. -/
def engineStatusRead (w : U32) : Drv := { s with eng := { s.eng with status := w } }

/-- `engine_status_read(engine, 0, 1)`. -/
def engineStatusReadDump (identifier w : U32) : Drv × ℤ :=
  let rv := engineRegDump identifier
  if rv < 0 then (s, rv) else (s.engineStatusRead w, rv)

def creditMode : Bool := p.enableStC2hCredit && s.eng.streaming && s.eng.dir == .fromDevice

def xdmaEngineStop : Drv :=
  let w := xdmaCtrlIeDescAlignMismatch ||| xdmaCtrlIeMagicStopped ||| xdmaCtrlIeReadError |||
    xdmaCtrlIeDescError
  let w := if p.pollMode then w ||| xdmaCtrlPollModeWb
    else w ||| xdmaCtrlIeDescStopped ||| xdmaCtrlIeDescCompleted
  let credits := if creditMode p s then 0 else s.eng.regs.credits
  { s with eng := { s.eng with
      regs := { s.eng.regs with credits := credits, control := w }
      running := false } }

def engineStartModeConfig (e : XdmaEngine) : EngineRegs :=
  let mask := if e.xdmaPerf.isSome then
      xdmaCtrlIeDescStopped ||| xdmaCtrlIeDescCompleted ||| xdmaCtrlIeDescAlignMismatch |||
        xdmaCtrlIeMagicStopped ||| xdmaCtrlIeIdleStopped ||| xdmaCtrlIeReadError |||
        xdmaCtrlIeDescError
    else e.regs.interruptEnableMask
  let w := xdmaCtrlRunStop ||| xdmaCtrlIeReadError ||| xdmaCtrlIeDescError |||
    xdmaCtrlIeDescAlignMismatch ||| xdmaCtrlIeMagicStopped
  let w := if p.pollMode then w ||| xdmaCtrlPollModeWb
    else w ||| xdmaCtrlIeDescStopped ||| xdmaCtrlIeDescCompleted
  let w := if e.nonIncrAddr then w ||| xdmaCtrlNonIncrAddr else w
  { e.regs with interruptEnableMask := mask, control := w }

/-- `engine_start`; `w` is what the status register holds after the start. -/
def engineStart (w : U32) : Drv × Option XferRef :=
  if s.eng.running then (s, none)
  else
    match s.eng.transferList with
    | [] => (s, none)
    | t :: _ =>
      let xfer := s.tfer t
      let bus := s.eng.descBusAt xfer.descIndex
      let credits := if creditMode p s then BitVec.ofInt 32 s.eng.descUsed else s.eng.regs.credits
      let regs := { s.eng.regs with
        credits := credits
        firstDescLo := pciDmaL bus
        firstDescHi := pciDmaH bus
        firstDescAdjacent := BitVec.ofNat 32 (xdmaGetNextAdj xfer.descAdjacent (pciDmaL bus)) }
      let e := { s.eng with shutdown := {}, descDequeued := 0, regs := regs }
      ({ s with eng := { e with
          regs := engineStartModeConfig p e
          status := w
          running := true
          started := some t
          starts := s.eng.starts + 1 } }, some t)

section

variable (w : U32)

@[simp] theorem xdmaEngineStop_tfer : (s.xdmaEngineStop p).tfer = s.tfer := rfl
@[simp] theorem xdmaEngineStop_log : (s.xdmaEngineStop p).log = s.log := rfl
@[simp] theorem xdmaEngineStop_offline : (s.xdmaEngineStop p).offline = s.offline := rfl
@[simp] theorem xdmaEngineStop_running : (s.xdmaEngineStop p).eng.running = false := rfl
@[simp] theorem xdmaEngineStop_transferList :
    (s.xdmaEngineStop p).eng.transferList = s.eng.transferList := rfl
@[simp] theorem xdmaEngineStop_status : (s.xdmaEngineStop p).eng.status = s.eng.status := rfl
@[simp] theorem xdmaEngineStop_dir : (s.xdmaEngineStop p).eng.dir = s.eng.dir := rfl
@[simp] theorem xdmaEngineStop_eopFlush : (s.xdmaEngineStop p).eng.eopFlush = s.eng.eopFlush := rfl
@[simp] theorem xdmaEngineStop_descDequeued :
    (s.xdmaEngineStop p).eng.descDequeued = s.eng.descDequeued := rfl
@[simp] theorem xdmaEngineStop_started : (s.xdmaEngineStop p).eng.started = s.eng.started := rfl
@[simp] theorem xdmaEngineStop_starts : (s.xdmaEngineStop p).eng.starts = s.eng.starts := rfl
@[simp] theorem xdmaEngineStop_shutdown : (s.xdmaEngineStop p).eng.shutdown = s.eng.shutdown := rfl
@[simp] theorem engineStatusRead_tfer : (s.engineStatusRead w).tfer = s.tfer := rfl
@[simp] theorem engineStatusRead_log : (s.engineStatusRead w).log = s.log := rfl
@[simp] theorem engineStatusRead_offline : (s.engineStatusRead w).offline = s.offline := rfl

theorem engineStart_of_running (h : s.eng.running = true) : s.engineStart p w = (s, none) := by
  simp [engineStart, h]

theorem engineStart_of_nil (h : s.eng.transferList = []) : s.engineStart p w = (s, none) := by
  simp [engineStart, h]

end

end Drv

structure XdmaEngine.SameConfig (e e' : XdmaEngine) : Prop where
  dir : e'.dir = e.dir
  streaming : e'.streaming = e.streaming
  nonIncrAddr : e'.nonIncrAddr = e.nonIncrAddr
  eopFlush : e'.eopFlush = e.eopFlush
  descMax : e'.descMax = e.descMax

theorem XdmaEngine.SameConfig.refl (e : XdmaEngine) : e.SameConfig e := ⟨rfl, rfl, rfl, rfl, rfl⟩

theorem XdmaEngine.SameConfig.symm {e e' : XdmaEngine} (h : e.SameConfig e') : e'.SameConfig e :=
  ⟨h.dir.symm, h.streaming.symm, h.nonIncrAddr.symm, h.eopFlush.symm, h.descMax.symm⟩

theorem XdmaEngine.SameConfig.trans {e f g : XdmaEngine} (h : e.SameConfig f) (h' : f.SameConfig g) :
    e.SameConfig g :=
  ⟨h'.dir.trans h.dir, h'.streaming.trans h.streaming, h'.nonIncrAddr.trans h.nonIncrAddr,
    h'.eopFlush.trans h.eopFlush, h'.descMax.trans h.descMax⟩

def XdmaEngine.SameRing (e e' : XdmaEngine) : Prop :=
  e'.dir = e.dir ∧ e'.streaming = e.streaming ∧ e'.nonIncrAddr = e.nonIncrAddr ∧
    e'.eopFlush = e.eopFlush ∧ e'.descMax = e.descMax ∧ e'.desc = e.desc ∧ e'.descBus = e.descBus ∧
    e'.cyclicResult = e.cyclicResult ∧ e'.cyclicResultBus = e.cyclicResultBus ∧
    e'.descIdx = e.descIdx ∧ e'.descUsed = e.descUsed

theorem XdmaEngine.SameRing.refl (e : XdmaEngine) : e.SameRing e := by simp [SameRing]

theorem XdmaEngine.SameRing.trans {e f g : XdmaEngine} (h : e.SameRing f) (h' : f.SameRing g) :
    e.SameRing g := by
  simp only [SameRing] at *
  grind

theorem XdmaEngine.SameRing.config {e e' : XdmaEngine} (h : e.SameRing e') : e.SameConfig e' :=
  ⟨h.1, h.2.1, h.2.2.1, h.2.2.2.1, h.2.2.2.2.1⟩

theorem XdmaEngine.SameRing.descIdx {e e' : XdmaEngine} (h : e.SameRing e') : e'.descIdx = e.descIdx :=
  h.2.2.2.2.2.2.2.2.2.1

namespace Drv

theorem xdmaEngineStop_sameRing (p : Params) (s : Drv) :
    s.eng.SameRing (s.xdmaEngineStop p).eng := by
  simp [xdmaEngineStop, XdmaEngine.SameRing]

structure Started (s s' : Drv) (t : XferRef) (w : U32) : Prop where
  running : s'.eng.running = true
  started : s'.eng.started = some t
  starts : s'.eng.starts = s.eng.starts + 1
  dequeued : s'.eng.descDequeued = 0
  status : s'.eng.status = w
  shutdown : s'.eng.shutdown = {}
  transferList : s'.eng.transferList = s.eng.transferList
  tfer : s'.tfer = s.tfer
  log : s'.log = s.log
  offline : s'.offline = s.offline
  ring : s.eng.SameRing s'.eng

theorem engineStart_cons {p : Params} {s : Drv} {w : U32} {t : XferRef} {ts : List XferRef}
    (hr : s.eng.running = false) (hl : s.eng.transferList = t :: ts) :
    (s.engineStart p w).2 = some t ∧ Started s (s.engineStart p w).1 t w := by
  simp only [engineStart, hr, hl, Bool.false_eq_true, ↓reduceIte, true_and]
  constructor <;> simp [XdmaEngine.SameRing, hl]

end Drv

end XdmaDriver
