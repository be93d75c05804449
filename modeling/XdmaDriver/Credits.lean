import XdmaDriver.RequestLifetime
import XdmaDriver.Lib.Transition

/-!
Runs of one engine under the requests of all its callers, in the steps that the locks of the
driver keep apart, and the descriptors that `engine->desc_used` counts.
-/

namespace XdmaDriver

open Transition Drv

/-- The function a request belongs to, with what only that function is passed. -/
inductive XferKind
  | submit
  | aperture (window : U32)
  | nowait (cb : IoCb)
  deriving DecidableEq, Repr

/-- Where the call is: it goes on with its next chain, has built it, or waits for it; or it
has returned and the chains are left to the callback. -/
inductive RequestPhase
  | build | queue | wait | queued
  deriving DecidableEq, Repr

/-- An allocated request, with the locals of its call. -/
structure LiveRequest where
  kind : XferKind
  req : XdmaRequestCb
  sgt : SgTable
  nents : ℕ
  dmaMapped : Bool
  tferIdx : ℕ := 0
  phase : RequestPhase := .build

def XferKind.cb : XferKind → Option IoCb
  | .nowait cb => some cb
  | _ => none

def XferKind.suits (e : XdmaEngine) : XferKind → Bool
  | .aperture _ => !e.streaming
  | _ => true

def XferKind.request (p : Params) (epAddr : U64) (sgt : SgTable) (oom : Bool) :
    XferKind → Option XdmaRequestCb
  | .submit => xdmaInitRequest p oom sgt.entries epAddr
  | .aperture window =>
    if oom then none
    else some { epAddr := epAddr, aperture := window, totalLen := (sgt.entries.map SgEntry.dmaLen).sum }
  | .nowait cb => (xdmaInitRequest p oom sgt.entries epAddr).map fun req => { req with cb := some cb }

namespace XferCall

def endWait (p : Params) (own : ℕ) (account : XferCall → XdmaTransfer → XferCall)
    (r : DumpRegs) (c : XferCall) :
    XferCall × ℤ :=
  let x := c.drv.tfer ⟨own, 0⟩
  let c := account c x
  let (drv, rv) := c.drv.waitEnd p ⟨own, 0⟩ r
  ({ c with drv := drv.transferDestroy ⟨own, 0⟩ }.unmapLast x, rv)

end XferCall

namespace LiveRequest

variable (p : Params) (own : ℕ) (c : LiveRequest)

def toCall (drv : Drv) : XferCall := { drv := drv, req := c.req, nents := c.nents, sgt := c.sgt }

def more : Bool :=
  match c.kind with
  | .aperture _ => c.req.offset < c.req.totalLen
  | _ => c.nents ≠ 0

/-- Build the next chain; `none` where the code writes outside `req->tfer` or the ring. -/
def buildNext (drv : Drv) : Option (Drv × LiveRequest) :=
  match c.kind with
  | .aperture _ =>
    ((c.toCall drv).apertureChain p own c.dmaMapped ⟨0, 0⟩).map fun (call, _) =>
      (call.drv, { c with req := call.req, phase := .queue })
  | kind =>
    if tferMax ≤ c.tferIdx then none
    else
      let n := chainLen drv.eng c.req
      let (drv, req) := drv.buildChain c.req ⟨own, c.tferIdx⟩ (!c.dmaMapped) (c.nents = n) kind.cb
      some (drv, { c with req := req, nents := c.nents - n, phase := .queue })

def accepted : LiveRequest :=
  match c.kind with
  | .nowait _ => { c with tferIdx := c.tferIdx + 1, phase := .build }
  | _ => { c with phase := .wait }

def account : XferCall → XdmaTransfer → XferCall :=
  match c.kind with
  | .aperture _ => XferCall.apertureDone
  | _ => XferCall.submitDone

def built : ℕ :=
  match c.phase with
  | .queue | .wait => c.tferIdx + 1
  | _ => c.tferIdx

end LiveRequest

/-- The state of a run. `next` is the next request to be allocated, and `reqs` are those that
are. The last three fields are ghosts: the transfers that are built and not yet passed to
`transfer_queue`, those that have left the queue and are not yet reported to their submitter,
and those whose callback is due. -/
structure CreditRun where
  drv : Drv := {}
  next : ℕ := 0
  reqs : ℕ → Option LiveRequest := fun _ => none
  pending : List XferRef := []
  unreported : List XferRef := []
  due : List XferRef := []

inductive CreditAct
  | start (kind : XferKind) (epAddr : U64) (sgt : SgTable) (dmaMapped oom : Bool)
  | build (own : ℕ)
  | queue (own : ℕ) (w : U32)
  | finish (own : ℕ) (r : DumpRegs)
  | leave (own : ℕ)
  | service (wb : U32) (r : ServiceRegs)
  | callback (t : XferRef) (dump : ℕ → DumpRegs)
  | result (i : ℕ) (r : XdmaResult)
  | setOffline (offline : Bool)
  | shutdownRequest
  | shutdownClear

def IoCb.isAio : IoCb → Bool
  | .aio _ _ => true
  | .dbuf _ => false

namespace CreditRun

variable (p : Params)

def setReq (s : CreditRun) (own : ℕ) (c : Option LiveRequest) : CreditRun :=
  { s with reqs := Function.update s.reqs own c }

def dropped (s drv : Drv) : List XferRef :=
  s.eng.transferList.take (s.eng.transferList.length - drv.eng.transferList.length)

def reported (s : CreditRun) (t : XferRef) : CreditRun :=
  { s with unreported := s.unreported.filter (·.req ≠ t.req), due := s.due.erase t }

def step (s : CreditRun) : CreditAct → Option CreditRun
  | .start kind epAddr sgt dmaMapped oom =>
    if s.drv.offline = false ∧ kind.suits s.drv.eng = true ∧ sgt.nents ≠ 0 then
      (kind.request p epAddr sgt oom).map fun req =>
        { s with
          next := s.next + 1
          reqs := Function.update s.reqs s.next
            (some { kind := kind, req := req, sgt := sgt, nents := req.swDescCnt, dmaMapped := dmaMapped }) }
    else none
  | .build own =>
    (s.reqs own).bind fun c =>
      if c.phase = .build ∧ c.more = true then
        (c.buildNext p own s.drv).map fun (drv, c) =>
          { s.setReq own (some c) with drv := drv, pending := ⟨own, c.tferIdx⟩ :: s.pending }
      else none
  | .queue own w =>
    (s.reqs own).bind fun c =>
      if c.phase = .queue then
        let (drv, rv) := s.drv.transferQueue p ⟨own, c.tferIdx⟩ w
        let s := { s with drv := drv, pending := s.pending.erase ⟨own, c.tferIdx⟩ }
        some (s.setReq own (if rv < 0 then none else some c.accepted))
      else none
  | .finish own r =>
    (s.reqs own).bind fun c =>
      if c.phase = .wait then
        let (call, rv) := (c.toCall s.drv).endWait p own c.account r
        let s := { s with drv := call.drv, unreported := s.unreported.erase ⟨own, 0⟩ }
        some (s.setReq own (if rv < 0 then none
          else some { c with req := call.req, nents := call.nents, sgt := call.sgt, phase := .build }))
      else none
  | .leave own =>
    (s.reqs own).bind fun c =>
      if c.phase = .build ∧ c.more = false then
        some (s.setReq own (c.kind.cb.map fun _ => { c with phase := .queued }))
      else none
  | .service wb r =>
    let drv := (s.drv.engineService p wb r).1
    let out := dropped s.drv drv
    some { s with
      drv := drv
      unreported := s.unreported ++ out
      due := s.due ++ out.filter fun t => (s.drv.tfer t).cb.isSome && (s.drv.tfer t).lastInRequest }
  | .callback t dump =>
    if t ∈ s.due then
      if (s.drv.tfer t).cb.any IoCb.isAio then
        (s.reqs t.req).bind fun c =>
          match xdmaXferCompletion p t.req c.req dump s.drv with
          | (done, .returned _) => some ({ s with drv := done.drv }.setReq t.req none |>.reported t)
          | _ => none
      -- `dbuf_io_done` does not look at the transfer, and its request is never freed
      else some (s.reported t)
    else none
  | .result i r =>
    some { s with drv := { s.drv with eng := { s.drv.eng with
      cyclicResult := Function.update s.drv.eng.cyclicResult i r } } }
  | .setOffline offline => some { s with drv := { s.drv with offline := offline } }
  | .shutdownRequest =>
    some { s with drv := ({ s.drv with eng := { s.drv.eng with
      shutdown := { s.drv.eng.shutdown with request := true } } } : Drv).xdmaEngineStop p }
  | .shutdownClear =>
    some { s with drv := { s.drv with eng := { s.drv.eng with
      shutdown := { s.drv.eng.shutdown with request := false } } } }

def Begins (s : CreditRun) : Prop :=
  s.drv.eng.transferList = [] ∧ s.drv.eng.descUsed = 0 ∧ (∀ own, s.reqs own = none) ∧
    s.pending = [] ∧ s.unreported = [] ∧ s.due = []

def tracked (s : CreditRun) : List XferRef := s.drv.eng.transferList ++ s.pending ++ s.unreported

def Quiet (s : CreditRun) : Prop :=
  (∀ own, ∀ c ∈ s.reqs own, c.phase = .queued) ∧ s.due = []

/-- Every chain that is built is taken by `transfer_queue`; a wait that ends unfinished takes
its transfer off the queue; and every callback is that of an `aio` request, whose chains before
the last one have all completed. -/
def Paired (s : CreditRun) : CreditAct → Prop
  | .queue own _ => ∀ c ∈ s.reqs own, s.drv.Accepts ⟨own, c.tferIdx⟩
  | .finish own r => s.drv.Unfinished ⟨own, 0⟩ → s.drv.eng.transferList.head? = some ⟨own, 0⟩ ∧ r.Ok
  | .callback t _ => (s.drv.tfer t).cb.any IoCb.isAio = true ∧
      ∀ i < t.idx, (s.drv.tfer ⟨t.req, i⟩).state ≠ .failed
  | _ => True

instance (s : CreditRun) (a : CreditAct) : Decidable (s.Paired a) := by
  apply @CreditAct.casesOn _ a <;> intros <;> (dsimp only [Paired]; infer_instance)

variable {p} {s s' : CreditRun} {own : ℕ} {c : LiveRequest}

def Fresh (s : CreditRun) : Prop := ∀ own ≥ s.next, s.reqs own = none

theorem Fresh.setReq (h : s.Fresh) (hc : s.reqs own = some c) (c' : Option LiveRequest) :
    (s.setReq own c').Fresh := by
  intro o ho
  have hne : o ≠ own := by
    rintro rfl
    rw [h o ho] at hc
    cases hc
  exact (Function.update_of_ne hne _ _).trans (h o ho)

theorem step_fresh {a : CreditAct} (h : s.Fresh) (hs : s.step p a = some s') : s'.Fresh := by
  cases a with
  | start kind epAddr sgt dmaMapped oom =>
    obtain ⟨-, hs⟩ := Option.ite_none_right_eq_some.mp hs
    obtain ⟨req, -, rfl⟩ := Option.map_eq_some_iff.mp hs
    intro o ho
    have ho : s.next + 1 ≤ o := ho
    exact (Function.update_of_ne (by omega) _ _).trans (h o (by omega))
  | build own =>
    obtain ⟨c, hc, hs⟩ := Option.bind_eq_some_iff.mp hs
    obtain ⟨-, hs⟩ := Option.ite_none_right_eq_some.mp hs
    obtain ⟨⟨drv', c'⟩, -, rfl⟩ := Option.map_eq_some_iff.mp hs
    exact h.setReq hc (some c')
  | queue own w =>
    obtain ⟨c, hc, hs⟩ := Option.bind_eq_some_iff.mp hs
    obtain ⟨-, hs⟩ := Option.ite_none_right_eq_some.mp hs
    obtain rfl := Option.some.inj hs
    exact h.setReq hc _
  | finish own r =>
    obtain ⟨c, hc, hs⟩ := Option.bind_eq_some_iff.mp hs
    obtain ⟨-, hs⟩ := Option.ite_none_right_eq_some.mp hs
    obtain rfl := Option.some.inj hs
    exact h.setReq hc _
  | leave own =>
    obtain ⟨c, hc, hs⟩ := Option.bind_eq_some_iff.mp hs
    obtain ⟨-, hs⟩ := Option.ite_none_right_eq_some.mp hs
    obtain rfl := Option.some.inj hs
    exact h.setReq hc _
  | callback t dump =>
    obtain ⟨-, hs⟩ := Option.ite_none_right_eq_some.mp hs
    by_cases haio : (s.drv.tfer t).cb.any IoCb.isAio = true
    swap
    · rw [if_neg haio] at hs
      obtain rfl := Option.some.inj hs
      exact h
    rw [if_pos haio] at hs
    obtain ⟨c, hc, hs⟩ := Option.bind_eq_some_iff.mp hs
    split at hs
    · obtain rfl := Option.some.inj hs
      exact h.setReq hc none
    · cases hs
  | service wb r =>
    obtain rfl := Option.some.inj hs
    exact h
  | result i r =>
    obtain rfl := Option.some.inj hs
    exact h
  | setOffline offline =>
    obtain rfl := Option.some.inj hs
    exact h
  | shutdownRequest =>
    obtain rfl := Option.some.inj hs
    exact h
  | shutdownClear =>
    obtain rfl := Option.some.inj hs
    exact h

theorem reachable_fresh {ok : CreditRun → CreditAct → Prop} (h : Reachable (step p) Begins ok s) : s.Fresh :=
  h.invariant (fun _ hb own _ => hb.2.2.1 own) fun _ _ _ hI _ hs => step_fresh hI hs

theorem Fresh.quiet (h : s.Fresh) (hq : ∀ own < s.next, ∀ c ∈ s.reqs own, c.phase = .queued)
    (hdue : s.due = []) :
    s.Quiet := by
  refine ⟨fun own c hc => ?_, hdue⟩
  by_cases hown : own < s.next
  · exact hq own hown c hc
  · rw [h own (not_lt.mp hown)] at hc
    cases hc

end CreditRun

end XdmaDriver
