import XdmaDriver.Aio
import XdmaDriver.NowaitMapping

/-!
Vectored I/O on the engine: every segment of a call is a request of its own, queued
without waiting. The synchronous calls move one buffer with one request.
-/

namespace XdmaDriver

open Drv Spans

structure Kiocb where
  kiPos : U64

structure IovIter where
  iov : List Iovec
  iovOffset : U64 := 0

/-- `cdev_aio_write` and `cdev_aio_read` up to their loop. -/
def cdevAio (write : Bool) (e : XdmaEngine) (align : EngineAlign) (io : List Iovec) (pos : U64) :
    Except ℤ AioCall :=
  if e.dir ≠ (if write then .toDevice else .fromDevice) then .error (err .inval)
  else .ok { write := write, nonIncrAddr := e.nonIncrAddr, align := align, io := io, pos := pos }

theorem cdevAio_pos {write : Bool} {e : XdmaEngine} {align : EngineAlign} {io : List Iovec}
    {pos : U64} {c : AioCall}
    (h : cdevAio write e align io pos = .ok c) : c.pos = pos := by
  unfold cdevAio at h
  by_cases hdir : e.dir ≠ (if write then .toDevice else .fromDevice)
  · rw [if_pos hdir] at h
    cases h
  · rw [if_neg hdir] at h
    cases h
    rfl

def cdevAioWrite : XdmaEngine → EngineAlign → List Iovec → U64 → Except ℤ AioCall := cdevAio true

def cdevAioRead : XdmaEngine → EngineAlign → List Iovec → U64 → Except ℤ AioCall := cdevAio false

/-- The file position of the `kiocb` is not read. -/
def cdevWriteIter (e : XdmaEngine) (align : EngineAlign) (_iocb : Kiocb) (io : IovIter) : Except ℤ AioCall :=
  cdevAioWrite e align io.iov io.iovOffset

def cdevReadIter (e : XdmaEngine) (align : EngineAlign) (_iocb : Kiocb) (io : IovIter) : Except ℤ AioCall :=
  cdevAioRead e align io.iov io.iovOffset

/-- What one segment meets: its mapping, what `dma_map_sg` returns, the allocation of its
request, and what happens around its chains. -/
structure SegmentEnv where
  map : MapEnv
  mapped : List SgEntry
  oom : Bool := false
  env : NowaitEnv := {}
  envs : List NowaitEnv := []

/-- The record of a call of `xdma_xfer_submit_nowait` for the segment `i`. -/
structure SegmentTrace where
  i : ℕ
  env : SegmentEnv
  before : Drv
  result : NowaitResult

/-- A vectored call under way on an engine. `lost` says that a submission did not come
back. -/
structure VectoredRun where
  run : AioRun
  drv : Drv
  traces : List SegmentTrace := []
  lost : Bool := false

inductive VectoredStep
  | segment (env : SegmentEnv)
  | leave
  | complete (i : ℕ) (dump : ℕ → DumpRegs)
  | engine (st : EngineStep)

def EngineStep.request : EngineStep → Option ℕ
  | .build _ t _ _ => some t.req
  | .queue t _ => some t.req
  | .destroy t => some t.req
  | _ => none

namespace VectoredRun

variable (p : Params) (base caio : ℕ) (c : AioCall)

def sgTable (cb : XdmaIoCb) : SgTable := ⟨[], 0, cb.pagesNr⟩

def submit (i : ℕ) (cb : XdmaIoCb) (env : SegmentEnv) (s : Drv) : NowaitResult :=
  xdmaXferSubmitNowait p (base + i) (.aio caio i) c.write cb.epAddr (sgTable cb) false env.mapped env.oom
    (env.env :: env.envs) s

def reqOf (d : VectoredRun) (i : ℕ) : Option XdmaRequestCb :=
  (d.traces.find? fun tr => tr.i = i).bind fun tr => tr.result.req

def step (d : VectoredRun) : VectoredStep → Option VectoredRun
  | .segment env =>
    match c.io[d.run.i]? with
    | none => none
    | some io =>
      match c.segment io env.map with
      | (cb, .ready) =>
        if d.run.outcome.isSome ∨ d.lost then none
        else
          let r := submit p base caio c d.run.i cb env d.drv
          let traces := d.traces ++ [⟨d.run.i, env, d.drv, r⟩]
          match r.outcome with
          | .returned rv => (d.run.step c (.segment env.map rv)).map fun run => ⟨run, r.drv, traces, false⟩
          | _ => some ⟨d.run, r.drv, traces, true⟩
      | _ => if d.lost then none else (d.run.step c (.segment env.map 0)).map fun run => { d with run := run }
  | .leave => (d.run.step c .leave).map fun run => { d with run := run }
  | .complete i dump =>
    match d.reqOf i with
    | none => none
    | some req =>
      match xdmaXferCompletion p (base + i) req dump d.drv with
      | (done, .returned n) => (d.run.step c (.complete i n)).map fun run =>
          { d with run := run, drv := done.drv }
      | _ => none
  | .engine st =>
    if ∀ r ∈ st.request, r < base ∨ base + c.io.length ≤
    r then some { d with drv := d.drv.engineStep p base st }
    else none

def Reachable (s : Drv) : VectoredRun → Prop :=
  Transition.Reachable (step p base caio c) (· = ⟨.start c, s, [], false⟩) fun _ _ => True

variable {p base caio c}

end VectoredRun

/-- `char_sgdma_read_write`; `env` is what the mapping of the buffer meets, and `mapped`
what `dma_map_sg` returns for it. -/
def charSgdmaReadWrite (p : Params) (own : ℕ) (align : EngineAlign) (write : Bool) (buf count pos : U64)
    (env : MapEnv) (mapped : List SgEntry) (oom : Bool) (envs : List ChainEnv) (s : Drv) : XferResult :=
  if s.eng.dir ≠ (if write then .toDevice else .fromDevice) then { drv := s, outcome := .returned (err .inval) }
  else
    let rv := checkTransferAlign s.eng.nonIncrAddr align buf count pos true
    if rv ≠ 0 then { drv := s, outcome := .returned rv }
    else
      let (cb, rv) := charSgdmaMapUserBufToSgl env { buf := buf, len := count, epAddr := pos, write := write }
      if rv < 0 then { drv := s, outcome := .returned rv }
      else
        let r := xdmaXferSubmit p own write pos (VectoredRun.sgTable cb) false mapped oom envs s
        match r.outcome with
        | .returned res => { r with outcome := .returned (if count.toNat < res then count.toNat else res) }
        | _ => r

theorem charSgdmaReadWrite_chains (p : Params) (own : ℕ) (align : EngineAlign) (write : Bool)
    (buf count pos : U64)
    (env : MapEnv) (mapped : List SgEntry) (oom : Bool) (envs : List ChainEnv) (s : Drv) :
    (charSgdmaReadWrite p own align write buf count pos env mapped oom envs s).chains = [] ∨
      ∃ cb : XdmaIoCb, (charSgdmaReadWrite p own align write buf count pos env mapped oom envs s).chains =
        (xdmaXferSubmit p own write pos (VectoredRun.sgTable cb) false mapped oom envs s).chains := by
  unfold charSgdmaReadWrite
  by_cases hdir : s.eng.dir ≠ (if write then .toDevice else .fromDevice)
  · rw [if_pos hdir]
    exact .inl rfl
  rw [if_neg hdir]
  dsimp only
  generalize charSgdmaMapUserBufToSgl env { buf := buf, len := count, epAddr := pos, write := write } = r
  split_ifs
  · exact .inl rfl
  · exact .inl rfl
  · refine .inr ⟨r.1, ?_⟩
    cases (xdmaXferSubmit p own write pos (VectoredRun.sgTable r.1) false mapped oom envs s).outcome <;> rfl

def charSgdmaWrite (p : Params) (own : ℕ) (align : EngineAlign) := charSgdmaReadWrite p own align true

/-- `char_sgdma_read` without the double buffer. -/
def charSgdmaRead (p : Params) (own : ℕ) (align : EngineAlign) := charSgdmaReadWrite p own align false

end XdmaDriver
