import XdmaDriver.Submit

/-!
`xdma_xfer_submit_nowait` queues all chains of a request at once, in the two
elements of `req->tfer`; `xdma_xfer_completion` walks over them later.
-/

namespace XdmaDriver

open Drv

/-- What happens around one chain of `xdma_xfer_submit_nowait`: the status register
after a start of the engine, and the steps of other contexts before the next
chain is built. -/
structure NowaitEnv where
  startStatus : U32 := 1
  after : List EngineStep := []

structure NowaitTrace where
  before : Drv
  built : Drv
  accepted : Bool

def tferMax : ℕ := 2

structure NowaitResult where
  drv : Drv
  outcome : CallEnd
  freed : Bool := false
  req : Option XdmaRequestCb := none
  unmaps : List ℕ := []
  chains : List NowaitTrace := []

structure NowaitCall where
  drv : Drv
  req : XdmaRequestCb
  nents : ℕ
  chains : List NowaitTrace := []

namespace NowaitCall

variable (p : Params) (own : ℕ)

def chain (dmaMapped : Bool) (cb : IoCb) (i : ℕ) (env : NowaitEnv) (c : NowaitCall) : NowaitCall × ℤ :=
  let n := chainLen c.drv.eng c.req
  let (built, req) := c.drv.buildChain c.req ⟨own, i⟩ (!dmaMapped) (c.nents = n) (some cb)
  let (drv, rv) := built.transferQueue p ⟨own, i⟩ env.startStatus
  let tr : NowaitTrace := { before := c.drv, built := built, accepted := 0 ≤ rv }
  ({ drv := if rv < 0 then drv else drv.engineSteps p own env.after
     req := req
     nents := c.nents - n
     chains := c.chains ++ [tr] }, rv)

def loop (dmaMapped : Bool) (cb : IoCb) : List NowaitEnv → ℕ → NowaitCall → NowaitCall × CallEnd
  | [], i, c =>
    (c, if c.nents = 0 then .returned (err .iocbQueued)
      else if tferMax ≤ i then .overrun else .waiting)
  | env :: envs, i, c =>
    if c.nents = 0 then (c, .returned (err .iocbQueued))
    else if tferMax ≤ i then (c, .overrun)
    else
      let (c, rv) := c.chain p own dmaMapped cb i env
      if rv < 0 then (c, .returned rv) else loop dmaMapped cb envs (i + 1) c

theorem chain_built (p : Params) (own : ℕ) (dmaMapped : Bool) (cb : IoCb) (i : ℕ) (env : NowaitEnv)
    (c : NowaitCall) :
    ∃ built req, ChainBuilt c.drv c.req ⟨own, i⟩ (!dmaMapped) (c.nents = chainLen c.drv.eng c.req)
      (some cb) built req ∧
      c.chain p own dmaMapped cb i env =
        ({ drv := if (built.transferQueue p ⟨own, i⟩ env.startStatus).2 < 0 then
             (built.transferQueue p ⟨own, i⟩ env.startStatus).1
           else (built.transferQueue p ⟨own, i⟩ env.startStatus).1.engineSteps p own env.after
           req := req
           nents := c.nents - chainLen c.drv.eng c.req
           chains := c.chains ++ [{
             before := c.drv
             built := built
             accepted := 0 ≤ (built.transferQueue p ⟨own, i⟩ env.startStatus).2 }] },
         (built.transferQueue p ⟨own, i⟩ env.startStatus).2) :=
  ⟨_, _, buildChain_built _ _ _ _ _ _, rfl⟩

end NowaitCall

open NowaitCall in
/-- `xdma_xfer_submit_nowait` on the engine `s`, with the request allocated as
`own`. It frees the request unless all its chains are queued. -/
def xdmaXferSubmitNowait (p : Params) (own : ℕ) (cb : IoCb) (write : Bool) (epAddr : U64)
    (sgt : SgTable) (dmaMapped : Bool) (mapped : List SgEntry) (oom : Bool) (envs : List NowaitEnv)
    (s : Drv) : NowaitResult :=
  if s.offline then { drv := s, outcome := .returned (err .busy) }
  else if s.eng.dir ≠ (if write then .toDevice else .fromDevice) then
    { drv := s, outcome := .returned (err .inval) }
  else
    let sgt := XferCall.mapSgt sgt dmaMapped mapped
    let unmaps := if dmaMapped then [] else [sgt.origNents]
    if sgt.nents = 0 then { drv := s, outcome := .returned (err .io) }
    else
      match xdmaInitRequest p oom sgt.entries epAddr with
      | none => { drv := s, outcome := .returned (err .noMem), unmaps := unmaps }
      | some req =>
        let req := { req with cb := some cb }
        let (c, outcome) := loop p own dmaMapped cb envs 0 { drv := s, req := req, nents := req.swDescCnt }
        have failed := match outcome with
          | .returned rv => decide (rv ≠ err .iocbQueued)
          | _ => false
        { drv := c.drv
          outcome := outcome
          freed := failed
          req := some c.req
          unmaps := if failed then unmaps else []
          chains := c.chains }

structure Completion where
  drv : Drv
  nents : ℤ
  done : ℤ := 0

namespace Completion

variable (p : Params)

def chain (t : XferRef) (r : DumpRegs) (c : Completion) : Completion × ℤ :=
  let x := c.drv.tfer t
  let nents := c.nents - x.descNum
  match x.state with
  | .completed =>
    let bytes := if c.drv.eng.streamingC2h then resultBytes c.drv.eng x x.descNum else x.len.toNat
    ({ drv := c.drv.transferDestroy t, nents := nents, done := c.done + bytes }, 0)
  | .failed => ({ c with drv := c.drv.transferDestroy t, nents := nents }, err .io)
  | _ =>
    let drv := (c.drv.engineStatusReadDump r.identifier r.status).1
    let drv := (drv.transferAbort t).1.xdmaEngineStop p
    ({ c with drv := drv.transferDestroy t, nents := nents }, err .timedOut)

def loop (own : ℕ) (dump : ℕ → DumpRegs) : ℕ → ℕ → Completion → Completion × CallEnd
  | 0, _, c => (c, if c.nents = 0 then .returned c.done else .overrun)
  | left + 1, i, c =>
    if c.nents = 0 then (c, .returned c.done)
    else
      let (c, rv) := c.chain p ⟨own, i⟩ (dump i)
      if rv < 0 then (c, .returned c.done) else loop own dump left (i + 1) c

end Completion

/-- `xdma_xfer_completion` for the request `req`, allocated as `own`; `dump i` is
what a status dump for its `i`-th chain reads. -/
def xdmaXferCompletion (p : Params) (own : ℕ) (req : XdmaRequestCb) (dump : ℕ → DumpRegs) (s : Drv) :
    Completion × CallEnd :=
  Completion.loop p own dump tferMax 0 { drv := s, nents := req.swDescCnt }

end XdmaDriver
