import XdmaDriver.UserBuffer
import XdmaDriver.Lib.Transition

/-!
Asynchronous I/O of the character device: `cdev_aio_read` and `cdev_aio_write` submit
the segments of a call one by one, and `async_io_handler` counts their completions.
Both directions run the same code with their own value of `write`.
-/

namespace XdmaDriver

structure Iovec where
  iovBase : U64
  iovLen : U64
  deriving DecidableEq, Repr

/-- `struct cdev_async_io`; `lock` says that `caio->lock` is held. -/
structure CdevAsyncIo where
  cancel : Bool := false
  cmplCnt : ℕ := 0
  reqCnt : ℕ
  lock : Bool := false
  res : ℤ := 0
  res2 : U64 := 0
  errCnt : ℕ := 0
  deriving DecidableEq, Repr

/-- The objects of one call, with what has been done to them: the values passed to
`ki_complete`, how often `caio` was freed, and the elements of `caio->cb` whose
addresses were passed to `kfree`. -/
structure Aio where
  caio : CdevAsyncIo
  cb : ℕ → XdmaIoCb := fun _ => {}
  kiComplete : List ℤ := []
  caioFreed : ℕ := 0
  cbFreed : List ℕ := []

namespace Aio

def setCb (a : Aio) (i : ℕ) (cb : XdmaIoCb) : Aio := { a with cb := Function.update a.cb i cb }

/-- `async_io_handler` for `&caio->cb[i]`; `numbytes` is what `xdma_xfer_completion`
returns. -/
def asyncIoHandler (a : Aio) (i : ℕ) (err : ℤ) (numbytes : ℤ) : Aio :=
  if a.caio.lock then
    { a with kiComplete := a.kiComplete ++ [XdmaDriver.err .busy], caioFreed := a.caioFreed + 1 }
  else if a.caio.cancel then { a with caioFreed := a.caioFreed + 1, cbFreed := a.cbFreed ++ [i] }
  else
    let numbytes := if err = 0 then numbytes else 0
    let a := a.setCb i (charSgdmaUnmapUserBuf (a.cb i))
    let res2 := a.caio.res2 ||| (if err < 0 then BitVec.ofInt 64 err else 0)
    let caio : CdevAsyncIo := { a.caio with
      res2 := res2
      errCnt := if res2 ≠ 0 then a.caio.errCnt + 1 else a.caio.errCnt
      cmplCnt := a.caio.cmplCnt + 1
      res := a.caio.res + numbytes }
    if caio.cmplCnt = caio.reqCnt then
      { a with
        caio := caio
        kiComplete := a.kiComplete ++ [if caio.errCnt ≠ 0 then caio.res2.toInt else caio.res]
        caioFreed := a.caioFreed + 1
        cbFreed := a.cbFreed ++ [i] }
    else { a with caio := caio }

@[simp] theorem setCb_caio (a : Aio) (i : ℕ) (cb : XdmaIoCb) : (a.setCb i cb).caio = a.caio := rfl
@[simp] theorem setCb_kiComplete (a : Aio) (i : ℕ) (cb : XdmaIoCb) :
    (a.setCb i cb).kiComplete = a.kiComplete := rfl
@[simp] theorem setCb_caioFreed (a : Aio) (i : ℕ) (cb : XdmaIoCb) :
    (a.setCb i cb).caioFreed = a.caioFreed := rfl
@[simp] theorem setCb_cbFreed (a : Aio) (i : ℕ) (cb : XdmaIoCb) : (a.setCb i cb).cbFreed = a.cbFreed := rfl

structure Handled (a : Aio) (i : ℕ) (numbytes : ℤ) (a' : Aio) : Prop where
  cb : a'.cb = Function.update a.cb i (charSgdmaUnmapUserBuf (a.cb i))
  caio : a'.caio = { a.caio with cmplCnt := a.caio.cmplCnt + 1, res := a.caio.res + numbytes }
  counting : a.caio.cmplCnt + 1 ≠ a.caio.reqCnt →
    a'.kiComplete = a.kiComplete ∧ a'.caioFreed = a.caioFreed ∧ a'.cbFreed = a.cbFreed
  last : a.caio.cmplCnt + 1 = a.caio.reqCnt → a'.kiComplete = a.kiComplete ++ [a.caio.res + numbytes] ∧
    a'.caioFreed = a.caioFreed + 1 ∧ a'.cbFreed = a.cbFreed ++ [i]

theorem asyncIoHandler_handled {a : Aio} (hlock : a.caio.lock = false) (hcancel : a.caio.cancel = false)
    (hres : a.caio.res2 = 0) (herr : a.caio.errCnt = 0) (i : ℕ) (numbytes : ℤ) :
    Handled a i numbytes (a.asyncIoHandler i 0 numbytes) := by
  unfold asyncIoHandler
  simp only [hlock, hcancel, hres, herr, setCb_caio, lt_irrefl, Bool.false_eq_true, ↓reduceIte]
  by_cases hlast : a.caio.cmplCnt + 1 = a.caio.reqCnt
  · rw [if_pos hlast]
    constructor
    · rfl
    · simp [hres, herr, hlock, hcancel]
    · exact fun h => absurd hlast h
    · exact fun _ => ⟨rfl, rfl, rfl⟩
  · rw [if_neg hlast]
    constructor
    · rfl
    · simp [hres, herr, hlock, hcancel]
    · exact fun _ => ⟨rfl, rfl, rfl⟩
    · exact fun h => absurd h hlast

end Aio

structure AioCall where
  write : Bool
  nonIncrAddr : Bool := false
  align : EngineAlign := {}
  io : List Iovec
  pos : U64 := 0

inductive SegmentCheck
  | misaligned (rv : ℤ)
  | unmapped (rv : ℤ)
  | ready
  deriving DecidableEq, Repr

namespace AioCall

def segment (c : AioCall) (io : Iovec) (env : MapEnv) : XdmaIoCb × SegmentCheck :=
  let cb : XdmaIoCb := { buf := io.iovBase, len := io.iovLen, epAddr := c.pos, write := c.write }
  let rv := checkTransferAlign c.nonIncrAddr c.align cb.buf cb.len c.pos true
  if rv ≠ 0 then (cb, .misaligned rv)
  else
    let (cb, rv) := charSgdmaMapUserBufToSgl env cb
    if rv < 0 then (cb, .unmapped rv) else (cb, .ready)

end AioCall

/-- A call under way: the loop is at the segment `i`, and `outcome` is what the call has
returned. The last two fields are ghosts: the segments that are queued, and those whose
handler has run, in that order. -/
structure AioRun where
  aio : Aio
  i : ℕ := 0
  outcome : Option ℤ := none
  queued : List ℕ := []
  completed : List ℕ := []

/-- A pass of the loop, whose submission returns `rv`; the return behind the loop; and the
handler of a segment. -/
inductive AioStep
  | segment (env : MapEnv) (rv : ℤ)
  | leave
  | complete (i : ℕ) (numbytes : ℤ)

namespace AioRun

def start (c : AioCall) : AioRun := { aio := { caio := { reqCnt := c.io.length } } }

def step (c : AioCall) (s : AioRun) : AioStep → Option AioRun
  | .segment env rv =>
    if s.outcome.isSome then none
    else
      match c.io[s.i]? with
      | none => none
      | some io =>
        let (cb, check) := c.segment io env
        let a := s.aio.setCb s.i cb
        match check with
        | .misaligned rv => some { s with aio := { a with caioFreed := a.caioFreed + 1 }, outcome := some rv }
        | .unmapped rv => some { s with aio := a, outcome := some rv }
        | .ready =>
          -- the result of the submission goes nowhere
          some { s with
            aio := a
            i := s.i + 1
            queued := if rv = err .iocbQueued then s.queued ++ [s.i] else s.queued }
  | .leave =>
    if s.outcome = none ∧ s.i = c.io.length then some { s with outcome := some (err .iocbQueued) } else none
  | .complete i numbytes =>
    if i ∈ s.queued ∧ i ∉ s.completed then
      some { s with aio := s.aio.asyncIoHandler i 0 numbytes, completed := s.completed ++ [i] }
    else none

def Reachable (c : AioCall) : AioRun → Prop :=
  Transition.Reachable (step c) (· = start c) fun _ _ => True

end AioRun

end XdmaDriver
