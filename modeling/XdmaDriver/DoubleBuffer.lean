import XdmaDriver.Nowait
import XdmaDriver.Lib.Transition

/-!
The double-buffer mode of the character device: two slots that are submitted in
turn without waiting, filled by the completions of the engine and emptied by one
reader. The calls of the device file come one after the other; service calls and
the engine itself run in between, and a waiting read does not hold up a stop.
-/

namespace XdmaDriver

open Drv Spans

/-- `struct xdma_dbuf_slot`; `virt` says that the pointer is not null. -/
structure DbufSlot where
  virt : Bool := false
  bus : U64 := 0
  size : U32 := 0
  sgt : SgTable := ⟨[], 0, 0⟩
  filled : Bool := false

/-- The double-buffer fields of `struct xdma_cdev`, with its engine. -/
structure XdmaCdev where
  drv : Drv := {}
  dbuf : Fin 2 → DbufSlot := fun _ => {}
  dbufSize : U32 := 0
  dbufEpAddr : U64 := 0
  dbufReadIdx : Fin 2 := 0
  dbufActive : Bool := false

structure XdmaDbufIoctl where
  version : U32 := 1
  bufSize : U32
  epAddr : U64 := 0
  deriving DecidableEq, Repr

/-- What the allocations for one slot return: `dma_alloc_coherent` a bus address or
nothing, `sg_alloc_table` success or not. -/
structure DbufAlloc where
  bus : Option U64
  sgTable : Bool := true
  deriving DecidableEq, Repr

def xdmaDbufV1 : U32 := 1

namespace XdmaCdev

def setSlot (s : XdmaCdev) (i : Fin 2) (f : DbufSlot → DbufSlot) : XdmaCdev :=
  { s with dbuf := Function.update s.dbuf i (f (s.dbuf i)) }

def dbufIoDone (s : XdmaCdev) (i : Fin 2) (err : ℤ) : XdmaCdev :=
  if s.dbufActive = false then s
  else if err ≠ 0 then { s with dbufActive := false }
  else s.setSlot i fun slot => { slot with filled := true }

def notify (s : XdmaCdev) : Event → XdmaCdev
  | .ioDone (.dbuf i) err => s.dbufIoDone i err
  | _ => s

def service (p : Params) (wb : U32) (r : ServiceRegs) (s : XdmaCdev) : XdmaCdev :=
  let drv := (s.drv.engineService p wb r).1
  (drv.log.drop s.drv.log.length).foldl notify { s with drv := drv }

def dbufSlotInitSgt (slot : DbufSlot) : DbufSlot :=
  { slot with sgt := ⟨[⟨slot.bus, slot.size⟩], 1, 1⟩ }

/-- The allocations of `ioctl_do_dbuf_start` for slot `i`. -/
def dbufAllocSlot (a : DbufAlloc) (i : Fin 2) (s : XdmaCdev) : XdmaCdev × ℤ :=
  match a.bus with
  | none => (s.setSlot i fun slot => { slot with size := s.dbufSize, virt := false }, err .noMem)
  | some bus =>
    let s := s.setSlot i fun slot => { slot with size := s.dbufSize, virt := true, bus := bus }
    if a.sgTable then (s.setSlot i dbufSlotInitSgt, 0)
    else (s.setSlot i fun slot => { slot with virt := false }, err .noMem)

/-- The label `err_free`, and the frees of `ioctl_do_dbuf_stop`. -/
def dbufFree (s : XdmaCdev) : XdmaCdev :=
  { s with dbuf := fun i => { s.dbuf i with virt := false } }

def dbufFreeSgt (s : XdmaCdev) : XdmaCdev :=
  { s with dbuf := fun i => { s.dbuf i with sgt := { (s.dbuf i).sgt with sgl := [], origNents := 0 } } }

/-- `ioctl_do_dbuf_start` up to the submissions, which it leaves to the caller when
it returns no value. -/
def ioctlDoDbufStart (fault : Bool) (io : XdmaDbufIoctl) (alloc : Fin 2 → DbufAlloc) (s : XdmaCdev) :
    XdmaCdev × Option ℤ :=
  if s.drv.eng.dir ≠ .fromDevice then (s, some (err .inval))
  else if s.dbufActive then (s, some (err .busy))
  else if fault then (s, some (err .fault))
  else if io.version ≠ xdmaDbufV1 then (s, some (err .inval))
  else if io.bufSize = 0 ∨ io.bufSize &&& BitVec.ofNat 32 (xdmaPageSize - 1) ≠ 0 then (s, some (err .inval))
  else
    let s := { s with dbufSize := io.bufSize, dbufEpAddr := io.epAddr, dbufReadIdx := 0 }
    let (s, rv) := s.dbufAllocSlot (alloc 0) 0
    if rv < 0 then (s.dbufFree, some rv)
    else
      let (s, rv) := s.dbufAllocSlot (alloc 1) 1
      if rv < 0 then (s.dbufFree, some rv) else ({ s with dbufActive := true }, none)

def ioctlDoDbufStop (s : XdmaCdev) : XdmaCdev :=
  if s.dbufActive = false then s else { s with dbufActive := false }.dbufFreeSgt.dbufFree

def charSgdmaClose (s : XdmaCdev) : XdmaCdev := if s.dbufActive then s.ioctlDoDbufStop else s

/-- `dbuf_submit_slot` and `xdma_xfer_submit_nowait` up to the loop over the chains. -/
def slotRequest (p : Params) (oom : Bool) (i : Fin 2) (s : XdmaCdev) : Except ℤ XdmaRequestCb :=
  let sgt := (s.dbuf i).sgt
  if s.drv.offline then .error (err .busy)
  else if s.drv.eng.dir ≠ .fromDevice then .error (err .inval)
  else if sgt.nents = 0 then .error (err .io)
  else
    match xdmaInitRequest p oom sgt.entries s.dbufEpAddr with
    | none => .error (err .noMem)
    | some req => .ok { req with cb := some (.dbuf i) }

end XdmaCdev

/-- Who submits a slot: `ioctl_do_dbuf_start`, or `char_sgdma_read` for `count` bytes. -/
inductive DbufCaller
  | start
  | read (count : ℕ)
  deriving DecidableEq, Repr

/-- A submission of slot `i` as the request `own`: the locals of the loop of
`xdma_xfer_submit_nowait`. -/
structure DbufSubmit where
  caller : DbufCaller
  i : Fin 2
  own : ℕ
  req : XdmaRequestCb
  nents : ℕ
  tferIdx : ℕ
  deriving DecidableEq, Repr

def DbufSubmit.ref (c : DbufSubmit) : XferRef := ⟨c.own, c.tferIdx⟩

/-- Where the call on the device file is: nowhere, waiting in `char_sgdma_read`, at
`dbuf_submit_slot`, at the head of its loop, before `transfer_queue`, or at the
label `err_free_sgt`. -/
inductive DbufPc
  | idle
  | readWait (count : ℕ)
  | submit (caller : DbufCaller) (i : Fin 2)
  | chain (c : DbufSubmit)
  | queue (c : DbufSubmit)
  | unwind (rv : ℤ)
  deriving DecidableEq, Repr

/-- The state of a run: the device, the call in progress and the value the last one
returned, the bus memory, and how many descriptors of the chain the engine was
started with last it has executed (`exec`, in the start numbered `execAt`).
The other fields are ghosts: the number of requests so far, the transfers of the
current request of a slot, the software descriptors a transfer was built from, what the
read in progress has copied, and since the last start the bytes of the fill going on,
the fills, and the counts and the bytes that the successful reads returned. -/
structure DbufRun where
  cdev : XdmaCdev := {}
  pc : DbufPc := .idle
  ret : ℤ := 0
  mem : U64 → U8 := fun _ => 0
  exec : ℕ := 0
  execAt : ℕ := 0
  nextReq : ℕ := 0
  cur : Fin 2 → List XferRef := fun _ => []
  target : XferRef → List SwDesc := fun _ => []
  acc : List U8 := []
  fills : List (List U8) := []
  copied : List U8 := []
  reads : List (ℕ × List U8) := []

inductive DbufAct
  | start (fault : Bool) (io : XdmaDbufIoctl) (alloc : Fin 2 → DbufAlloc)
  | submit (oom : Bool)
  | build
  | queue (w : U32)
  | submitted
  | unwind
  | read (count : ℕ)
  | wake (fault : Bool)
  | signal
  | stop
  | close
  | service (wb : U32) (r : ServiceRegs)
  | dma (data : ℕ → U8)
  | result (i : ℕ) (r : XdmaResult)
  | setOffline (offline : Bool)

def writeMem (mem : U64 → U8) (a : U64) (n : ℕ) (data : ℕ → U8) : U64 → U8 :=
  fun x => if (x - a).toNat < n then data (x - a).toNat else mem x

namespace DbufRun

variable (p : Params) (s : DbufRun)

def withDrv (drv : Drv) : DbufRun := { s with cdev := { s.cdev with drv := drv } }

def submitFailed (caller : DbufCaller) (rv : ℤ) : DbufRun :=
  match caller with
  | .start => { s with cdev := { s.cdev with dbufActive := false }, pc := .unwind rv }
  | .read _ => { s with pc := .idle, ret := rv }

def submitDone (caller : DbufCaller) (i : Fin 2) : DbufRun :=
  match caller with
  | .start => if i = 0 then { s with pc := .submit .start 1 } else { s with pc := .idle, ret := 0 }
  | .read count =>
    { s with
      cdev := { s.cdev with dbufReadIdx := 1 - s.cdev.dbufReadIdx }
      pc := .idle
      ret := count
      reads := s.reads ++ [(count, s.copied)] }

def clearSlot (i : Fin 2) : DbufRun :=
  { s with
    cdev := s.cdev.setSlot i fun slot => { slot with filled := false }
    cur := Function.update s.cur i [] }

def submitSlot (oom : Bool) (caller : DbufCaller) (i : Fin 2) : DbufRun :=
  let s := s.clearSlot i
  match s.cdev.slotRequest p oom i with
  | .error rv => s.submitFailed caller rv
  | .ok req =>
    { s with pc := .chain ⟨caller, i, s.nextReq, req, req.swDescCnt, 0⟩, nextReq := s.nextReq + 1 }

/-- `transfer_init` for the next chain and the assignments that follow it. -/
def buildNext (c : DbufSubmit) : DbufRun :=
  let n := chainLen s.cdev.drv.eng c.req
  let (drv, req) := s.cdev.drv.buildChain c.req c.ref false (c.nents = n) (some (.dbuf c.i))
  { s.withDrv drv with
    pc := .queue { c with req := req, nents := c.nents - n }
    cur := Function.update s.cur c.i (s.cur c.i ++ [c.ref])
    target := Function.update s.target c.ref (chainSdesc s.cdev.drv.eng c.req) }

def queueNext (w : U32) (c : DbufSubmit) : DbufRun :=
  let (drv, rv) := s.cdev.drv.transferQueue p c.ref w
  if rv < 0 then (s.withDrv drv).submitFailed c.caller rv
  else { s.withDrv drv with pc := .chain { c with tferIdx := c.tferIdx + 1 } }

/-- The end of the wait of `char_sgdma_read`, and its copy to the user. -/
def readWoken (fault : Bool) (count : ℕ) : DbufRun :=
  let i := s.cdev.dbufReadIdx
  if s.cdev.dbufActive = false then { s with pc := .idle, ret := err .io }
  else if fault then { s with pc := .idle, ret := err .fault }
  else { s with pc := .submit (.read count) i, copied := (span (s.cdev.dbuf i).bus count).map s.mem }

def executed : ℕ := if s.execAt = s.cdev.drv.eng.starts then s.exec else 0

/-- The engine executes the next descriptor of the chain it was started with, the
ring slots of the transfer in order. The last one of a request ends a fill. -/
def execDesc (data : ℕ → U8) (t : XferRef) : DbufRun :=
  let x := s.cdev.drv.tfer t
  let d := s.cdev.drv.eng.desc (x.descIndex + s.executed)
  let acc := s.acc ++ (List.range d.bytes.toNat).map data
  let s := { s with
    mem := writeMem s.mem (d.hostAddr .fromDevice) d.bytes.toNat data
    exec := s.executed + 1
    execAt := s.cdev.drv.eng.starts }
  if x.lastInRequest ∧ s.exec = x.descNum then { s with acc := [], fills := s.fills ++ [acc] }
  else { s with acc := acc }

/-- The calls of the device file do not overlap, but for a stop while a read waits. -/
def step (s : DbufRun) : DbufAct → Option DbufRun
  | .start fault io alloc =>
    if s.pc = .idle then
      match s.cdev.ioctlDoDbufStart fault io alloc with
      | (cdev, some rv) => some { s with cdev := cdev, ret := rv }
      | (cdev, none) =>
        some { s with cdev := cdev, pc := .submit .start 0, acc := [], fills := [], reads := [] }
    else none
  | .submit oom =>
    match s.pc with
    | .submit caller i => some (s.submitSlot p oom caller i)
    | _ => none
  | .build =>
    match s.pc with
    | .chain c => if c.nents = 0 ∨ tferMax ≤ c.tferIdx then none else some (s.buildNext c)
    | _ => none
  | .queue w =>
    match s.pc with
    | .queue c => some (s.queueNext p w c)
    | _ => none
  | .submitted =>
    match s.pc with
    | .chain c => if c.nents = 0 then some (s.submitDone c.caller c.i) else none
    | _ => none
  | .unwind =>
    match s.pc with
    | .unwind rv => some { s with cdev := s.cdev.dbufFreeSgt.dbufFree, pc := .idle, ret := rv }
    | _ => none
  | .read count =>
    if s.pc = .idle ∧ s.cdev.dbufActive = true then
      some (if s.cdev.dbufSize.toNat < count then { s with ret := err .inval }
      else { s with pc := .readWait count })
    else none
  | .wake fault =>
    match s.pc with
    | .readWait count =>
      if (s.cdev.dbuf s.cdev.dbufReadIdx).filled = true ∨ s.cdev.dbufActive = false then
        some (s.readWoken fault count)
      else none
    | _ => none
  | .signal =>
    match s.pc with
    | .readWait _ => some { s with pc := .idle, ret := err .restartSys }
    | _ => none
  | .stop =>
    match s.pc with
    | .idle | .readWait _ => some { s with cdev := s.cdev.ioctlDoDbufStop }
    | _ => none
  | .close =>
    match s.pc with
    | .idle => some { s with cdev := s.cdev.charSgdmaClose }
    | _ => none
  | .service wb r => some { s with cdev := s.cdev.service p wb r }
  | .dma data =>
    match s.cdev.drv.eng.started with
    | some t =>
      if s.cdev.drv.eng.running = true ∧ s.executed <
      (s.cdev.drv.tfer t).descNum then some (s.execDesc data t)
      else none
    | none => none
  | .result i r =>
    some (s.withDrv { s.cdev.drv with eng := { s.cdev.drv.eng with
      cyclicResult := Function.update s.cdev.drv.eng.cyclicResult i r } })
  | .setOffline offline => some (s.withDrv { s.cdev.drv with offline := offline })

structure Fresh : Prop where
  pc : s.pc = .idle
  active : s.cdev.dbufActive = false
  list : s.cdev.drv.eng.transferList = []
  running : s.cdev.drv.eng.running = false
  virt : ∀ i, (s.cdev.dbuf i).virt = false

end DbufRun

namespace XdmaCdev

variable {p : Params}

@[simp] theorem setSlot_self (s : XdmaCdev) (i : Fin 2) (f : DbufSlot → DbufSlot) :
    (s.setSlot i f).dbuf i = f (s.dbuf i) := by simp [setSlot]

theorem setSlot_of_ne {s : XdmaCdev} {i j : Fin 2} {f : DbufSlot → DbufSlot} (h : j ≠ i) :
    (s.setSlot i f).dbuf j = s.dbuf j := by simp [setSlot, h]

def FillsSlot (s : Drv) (out : List XferRef) (i : Fin 2) : Prop :=
  ∃ t ∈ out, (s.tfer t).cb = some (.dbuf i) ∧ (s.tfer t).lastInRequest = true

theorem mem_outEvents {s : Drv} {out : List XferRef} {cb : IoCb} {e : ℤ} :
    Event.ioDone cb e ∈ s.outEvents out ↔
      e = 0 ∧ ∃ t ∈ out, (s.tfer t).cb = some cb ∧ (s.tfer t).lastInRequest = true := by
  simp only [outEvents, List.mem_flatMap, XdmaTransfer.completionEvents]
  constructor
  · rintro ⟨t, ht, he⟩
    cases hc : (s.tfer t).cb with
    | none => simp [hc] at he
    | some cb' =>
      by_cases hl : (s.tfer t).lastInRequest = true
      · simp only [hc, hl, ↓reduceIte, List.mem_cons, reduceCtorEq, Event.ioDone.injEq, List.not_mem_nil,
          or_false, false_or] at he
        obtain ⟨rfl, rfl⟩ := he
        exact ⟨rfl, t, ht, hc, hl⟩
      · simp [hc, hl] at he
  · rintro ⟨rfl, t, ht, hc, hl⟩
    exact ⟨t, ht, by simp [hc, hl]⟩

theorem notify_spec (evs : List Event) : ∀ (s : XdmaCdev), (∀ cb e, Event.ioDone cb e ∈ evs → e = 0) →
    (evs.foldl notify s) = { s with dbuf := fun i => { s.dbuf i with
      filled := (s.dbuf i).filled || (s.dbufActive && decide (Event.ioDone (.dbuf i) 0 ∈ evs)) } } := by
  induction evs with
  | nil =>
    intro s _
    simp
  | cons ev evs ih =>
    intro s h
    rw [List.foldl_cons, ih _ fun cb e he => h cb e (List.mem_cons_of_mem _ he)]
    have hother (hn : ∀ i, Event.ioDone (.dbuf i) 0 ≠ ev) (hs : s.notify ev = s) : _ = _ :=
      (show ({ s.notify ev with dbuf := fun i => { (s.notify ev).dbuf i with
          filled := ((s.notify ev).dbuf i).filled ||
            ((s.notify ev).dbufActive && decide (Event.ioDone (.dbuf i) 0 ∈ evs)) } } : XdmaCdev) =
        { s with dbuf := fun i => { s.dbuf i with
          filled := (s.dbuf i).filled || (s.dbufActive && decide (Event.ioDone (.dbuf i) 0 ∈ ev :: evs))
            } } by
        simp only [hs, List.mem_cons, hn, false_or])
    cases ev with
    | wake t => exact hother (by simp) rfl
    | ioDone cb e =>
      obtain rfl := h cb e List.mem_cons_self
      cases cb with
      | aio caio i => exact hother (by simp) rfl
      | dbuf i =>
        by_cases ha : s.dbufActive = true
        · have hn : s.notify (.ioDone (.dbuf i) 0) = s.setSlot i fun slot =>
            { slot with filled := true } := by
            simp [notify, dbufIoDone, ha]
          rw [hn]
          simp only [setSlot, ha, Bool.true_and, XdmaCdev.mk.injEq, true_and, and_true]
          funext j
          by_cases hj : j = i
          · subst hj
            simp
          · simp [hj]
        · have hn : s.notify (.ioDone (.dbuf i) 0) = s := by
            simp [notify, dbufIoDone, ha]
          simp [hn, ha]

structure Serviced (s s' : XdmaCdev) (out : List XferRef) : Prop where
  effect : ServiceEffect s.drv s'.drv out
  frame : s' = { s with drv := s'.drv, dbuf := s'.dbuf }
  slot : ∀ i, s'.dbuf i = { s.dbuf i with filled := (s'.dbuf i).filled }
  filled : ∀ i, (s'.dbuf i).filled = true ↔
    (s.dbuf i).filled = true ∨ s.dbufActive = true ∧ FillsSlot s.drv out i

theorem service_drv (p : Params) (wb : U32) (r : ServiceRegs) (s : XdmaCdev) :
    (s.service p wb r).drv = (s.drv.engineService p wb r).1 := by
  obtain ⟨out, h⟩ := engineService_effect p wb r s.drv
  have herr : ∀ cb e, Event.ioDone cb e ∈ s.drv.outEvents out → e = 0 := fun _ _ he => (mem_outEvents.mp he).1
  unfold service
  dsimp only
  rw [h.log, List.drop_left, notify_spec _ _ herr]

theorem service_spec {wb : U32} {r : ServiceRegs} {s : XdmaCdev} {out : List XferRef}
    (h : ServiceEffect s.drv (s.drv.engineService p wb r).1 out) : Serviced s (s.service p wb r) out := by
  have herr : ∀ cb e, Event.ioDone cb e ∈ s.drv.outEvents out → e = 0 := fun _ _ he => (mem_outEvents.mp he).1
  refine ⟨by rw [service_drv]; exact h, ?_, fun i => ?_, fun i => ?_⟩
  all_goals
    unfold service
    dsimp only
    rw [h.log, List.drop_left, notify_spec _ _ herr]
  · simp [mem_outEvents, FillsSlot]

end XdmaCdev

end XdmaDriver
