import XdmaDriver.Engine

namespace XdmaDriver

/-- Register values one service call reads: `status_rc`, `completed_desc_count`,
and `status` after a restart. -/
structure ServiceRegs where
  statusRc : U32
  completedDescCount : U32
  status : U32 := 0
  deriving DecidableEq, Repr

def dirErrMask : DmaDir → U32
  | .fromDevice => xdmaStatC2hErrMask
  | .toDevice => xdmaStatH2cErrMask

def statusError (dir : DmaDir) (w : U32) : Prop := w &&& dirErrMask dir ≠ 0

def statusBusy (w : U32) : Prop := w &&& xdmaStatBusy ≠ 0

instance (dir : DmaDir) (w : U32) : Decidable (statusError dir w) :=
  inferInstanceAs (Decidable (_ ≠ _))

instance (w : U32) : Decidable (statusBusy w) := inferInstanceAs (Decidable (_ ≠ _))

def XdmaTransfer.completionEvents (x : XdmaTransfer) (t : XferRef) : List Event :=
  .wake t :: match x.cb with
    | some cb => if x.lastInRequest then [.ioDone cb 0] else []
    | none => []

namespace Drv

variable (p : Params)

def engineTransferCompletion (s : Drv) (t : XferRef) : Drv :=
  { s with log := s.log ++ (s.tfer t).completionEvents t }

def engineServiceShutdown (s : Drv) : Drv := s.xdmaEngineStop p

def addDequeued (s : Drv) (n : ℕ) : Drv :=
  { s with eng := { s.eng with descDequeued := s.eng.descDequeued + n } }

/-- The loop of `engine_service_transfer_list`. The entry popped is the list
head, the transfer marked is the one the local pointer names. The fuel is the
length of the list, which every round shortens. -/
def engineServiceTransferList : ℕ → Drv → Option XferRef → ℕ → Drv × Option XferRef × ℕ
  | 0, s, transfer, pdescCompleted => (s, transfer, pdescCompleted)
  | _ + 1, s, none, pdescCompleted => (s, none, pdescCompleted)
  | fuel + 1, s, some t, pdescCompleted =>
    if (s.tfer t).cyclic = false ∧ (s.tfer t).descNum < pdescCompleted then
      let n := (s.tfer t).descNum
      let s := s.listDelHead.addDequeued n
      let s := s.modify t fun x => { x with state := .completed }
      let s := s.engineTransferCompletion t
      engineServiceTransferList fuel s s.eng.transferList.head? (pdescCompleted - n)
    else (s, some t, pdescCompleted)

/-- `engine_err_handle`; the second read of the status register is only logged. -/
def engineErrHandle (s : Drv) (t : XferRef) : Drv :=
  (s.modify t fun x => { x with state := .failed }).xdmaEngineStop p

def eopSeen (e : XdmaEngine) (x : XdmaTransfer) (n : ℕ) : Bool :=
  (List.range n).any fun i => (e.cyclicResult (x.descIndex + i)).status &&& rxStatusEop ≠ 0

/-- `engine_service_final_transfer` up to the label `transfer_del`; `none` stands
for the early `return NULL` that leaves the transfer queued. -/
def finalTransferState (s : Drv) (t : XferRef) (c : ℕ) : Drv × Bool :=
  if statusError s.eng.dir s.eng.status then (s.engineErrHandle p t, true)
  else if c < (s.tfer t).descNum then
    if s.eng.eopFlush then
      let eop := (s.tfer t).eopRcved || eopSeen s.eng (s.tfer t) c
      let s := s.modify t fun x => { x with eopRcved := eop, descCmpl := c }
      if eop then
        let s := s.engineServiceShutdown p
        ((s.modify t fun x => { x with state := .completed }).addDequeued c, true)
      else (s, false)
    else
      ((s.addDequeued (s.tfer t).descNum).modify t
        fun x => { x with state := .failed, descCmpl := c }, true)
  else
    ((s.addDequeued (s.tfer t).descNum).modify t
      fun x => { x with state := .completed, descCmpl := x.descNum }, true)

def engineServiceFinalTransfer (s : Drv) (transfer : Option XferRef) (c : ℕ) : Drv :=
  match transfer with
  | none => s
  | some t =>
    let (s, del) := s.finalTransferState p t c
    if del then s.listDelHead.engineTransferCompletion t else s

def engineServicePerf (s : Drv) (descCompleted : ℕ) : Drv :=
  match s.eng.xdmaPerf with
  | none => s
  | some perf =>
    let perf := if s.eng.status &&& xdmaStatDescCompleted ≠ 0 then
      { perf with iterations := BitVec.ofNat 32 descCompleted } else perf
    let perf := if s.eng.status &&& xdmaStatDescStopped ≠ 0 then
      { perf with stopped := true } else perf
    { s with eng := { s.eng with xdmaPerf := some perf } }

def engineServiceResume (w : U32) (s : Drv) : Drv :=
  if s.eng.running = false then
    if s.eng.transferList ≠ [] then (s.engineStart p w).1
    else if s.eng.shutdown.request then
      { s with eng := { s.eng with shutdown := { s.eng.shutdown with idle := true } } }
    else s
  else if s.eng.transferList = [] then s.engineServiceShutdown p
  else s

def wbCount (wb : U32) : ℕ := (wb &&& wbCountMask).toNat

def wbErr (wb : U32) : Bool := wb &&& wbErrMask ≠ 0

/-- The first half of `engine_service` on a running engine: the status read and
the shutdown. -/
def engineServiceEntry (wb : U32) (r : ServiceRegs) (s : Drv) : Drv :=
  let s := if wbCount wb = 0 ∨ wbErr wb then s.engineStatusRead r.statusRc else s
  if ¬ statusBusy s.eng.status ∨ (s.eng.eopFlush = false ∧ wbCount wb ≠ 0) then
    s.engineServiceShutdown p
  else s

def serviceCount (wb : U32) (r : ServiceRegs) : ℕ :=
  if wbCount wb = 0 then r.completedDescCount.toNat else wbCount wb

/-- The second half of `engine_service`, taken for a nonzero count. -/
def engineServiceQueue (w : U32) (count : ℕ) (s : Drv) : Drv :=
  let transfer := s.eng.transferList.head?
  let s := if s.eng.transferList ≠ [] then s.engineServicePerf count else s
  let c := u32Sub count s.eng.descDequeued
  let (s, transfer, c) :=
    engineServiceTransferList s.eng.transferList.length s transfer c
  engineServiceResume p w (s.engineServiceFinalTransfer p transfer c)

def engineService (wb : U32) (r : ServiceRegs) (s : Drv) : Drv × ℤ :=
  if s.eng.running = false then (s.engineStatusRead r.statusRc, 0)
  else
    let s := s.engineServiceEntry p wb r
    let s := if serviceCount wb r = 0 then s
      else s.engineServiceQueue p r.status (serviceCount wb r)
    (s, if wbErr wb then -1 else 0)

theorem serviceCount_lt (wb : U32) (r : ServiceRegs) : serviceCount wb r < 2 ^ 32 := by
  unfold serviceCount wbCount
  split <;> exact BitVec.isLt _

section

variable (s : Drv) (n : ℕ) (t : XferRef)

@[simp] theorem addDequeued_tfer : (s.addDequeued n).tfer = s.tfer := rfl
@[simp] theorem addDequeued_log : (s.addDequeued n).log = s.log := rfl
@[simp] theorem addDequeued_offline : (s.addDequeued n).offline = s.offline := rfl
@[simp] theorem addDequeued_transferList :
    (s.addDequeued n).eng.transferList = s.eng.transferList := rfl
@[simp] theorem addDequeued_running : (s.addDequeued n).eng.running = s.eng.running := rfl
@[simp] theorem engineTransferCompletion_eng : (s.engineTransferCompletion t).eng = s.eng := rfl
@[simp] theorem engineTransferCompletion_tfer : (s.engineTransferCompletion t).tfer = s.tfer := rfl
@[simp] theorem engineTransferCompletion_offline :
    (s.engineTransferCompletion t).offline = s.offline := rfl

end

end Drv

end XdmaDriver
