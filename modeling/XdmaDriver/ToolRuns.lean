import XdmaDriver.ToolTransfers

/-!
`test_dma` of `dma_to_device` and of `dma_from_device`: what the value returned says of the
transfers.
-/

namespace XdmaDriver

/-- A call moves no more than it was asked, and the buffer of a process ends below the upper
half of the addresses. -/
def Bounded (rw : ℕ → ℕ → U64 → U64) : Prop :=
  ∀ k buf bytes, ¬ (rw k buf bytes).slt 0 → rw k buf bytes ≤ bytes ∧ buf + (rw k buf bytes).toNat < 2 ^ 63

section

variable (lseek : ℕ → U64 → U64) (rw : ℕ → ℕ → U64 → U64) (size base : U64)

def roundOffset (k : ℕ) : U64 := base + BitVec.ofNat 64 (rwMaxSize.toNat * k)

def roundBytes (k : ℕ) : U64 := chunk (size - BitVec.ofNat 64 (rwMaxSize.toNat * k))

def roundRc (k : ℕ) : U64 := rw k (rwMaxSize.toNat * k) (roundBytes size k)

def Seeks (k : ℕ) : Prop := roundOffset base k = 0 ∨ lseek k (roundOffset base k) = roundOffset base k

instance (k : ℕ) : Decidable (Seeks lseek base k) := inferInstanceAs (Decidable (_ ∨ _))

def FullRound (k : ℕ) : Prop := Seeks lseek base k ∧ roundRc rw size k = roundBytes size k

instance (k : ℕ) : Decidable (FullRound lseek rw size base k) := inferInstanceAs (Decidable (_ ∧ _))

def roundsOutcome (ks : List ℕ) : Option ℕ :=
  match ks.find? fun k => ¬ FullRound lseek rw size base k with
  | none => some size.toNat
  | some k =>
    if Seeks lseek base k ∧ ¬ (roundRc rw size k).slt 0 then some (rwMaxSize.toNat * k +
    (roundRc rw size k).toNat)
    else none

def ioOutcome : Option ℕ := roundsOutcome lseek rw size base (List.range (rounds size))

end

structure IoLoop.At (s : IoLoop) (size base : U64) (k : ℕ) : Prop where
  count : s.count.toNat = min (rwMaxSize.toNat * k) size.toNat
  buf : s.buf = s.count.toNat
  moved : moved s.pieces = s.count.toNat
  low : s.count.toNat < 2 ^ 63
  offset : k < rounds size → s.offset = roundOffset base k

theorem lt_rounds_iff {size : U64} {k : ℕ} : k < rounds size ↔ rwMaxSize.toNat * k < size.toNat := by
  have hmax : rwMaxSize.toNat = 0x7ffff000 := rfl
  rw [rounds, hmax, Nat.lt_div_iff_mul_lt (by omega)]
  omega

theorem moved_append (ps : List Piece) (p : Piece) : moved (ps ++ [p]) = moved ps + p.bytes.toNat := by
  rw [moved, List.map_append, List.sum_append]
  rfl

section

variable {lseek : ℕ → U64 → U64} {rw : ℕ → ℕ → U64 → U64} {moves : Bool} {size base : U64}
    {k : ℕ} {s : IoLoop}

def IoResult.Meets (r : IoResult) (size : U64) : Option ℕ → Prop
  | none => r.rc = eio ∧ moved r.pieces < size.toNat
  | some m => r.rc = BitVec.ofNat 64 m ∧ moved r.pieces = m ∧ m ≤ size.toNat ∧ m < 2 ^ 63

theorem roundsOutcome_cons_full {ks : List ℕ} (h : FullRound lseek rw size base k) :
    roundsOutcome lseek rw size base (k :: ks) = roundsOutcome lseek rw size base ks := by
  rw [roundsOutcome, List.find?_cons_of_neg (by simp [h])]
  rfl

theorem roundsOutcome_cons_last {ks : List ℕ} (h : ¬ FullRound lseek rw size base k) :
    roundsOutcome lseek rw size base (k :: ks) =
      if Seeks lseek base k ∧ ¬ (roundRc rw size k).slt 0 then some (rwMaxSize.toNat * k +
      (roundRc rw size k).toNat)
      else none := by
  rw [roundsOutcome, List.find?_cons_of_pos (by simp [h])]

theorem IoLoop.At.count_eq (hs : s.At size base k) (hlt : rwMaxSize.toNat * k < size.toNat) :
    s.count.toNat = rwMaxSize.toNat * k := hs.count.trans (min_eq_left (Nat.le_of_lt hlt))

theorem ioRound_at (hs : s.At size base k) (hlt : rwMaxSize.toNat * k < size.toNat) :
    ioRound lseek rw moves size k s =
      if ¬ Seeks lseek base k then .leave (s.result eio)
      else if (roundRc rw size k).slt 0 then .leave (IoLoop.result { s with pos := s.place } eio)
      else if roundRc rw size k ≠ roundBytes size k then
        .leave ((s.took moves (roundRc rw size k)).result (s.count + roundRc rw size k))
      else .again ((s.took moves (roundRc rw size k)).ahead (roundBytes size k)) := by
  have hcount : s.count = BitVec.ofNat 64 (rwMaxSize.toNat * k) := by
    rw [← hs.count_eq hlt, BitVec.ofNat_toNat, BitVec.setWidth_eq]
  have hbytes : chunk (size - s.count) = roundBytes size k := by rw [roundBytes, hcount]
  have hrc : rw k s.buf (roundBytes size k) = roundRc rw size k := by rw [roundRc, hs.buf, hs.count_eq hlt]
  have hseeks : (s.offset ≠ 0 ∧ lseek k s.offset ≠ s.offset) ↔ ¬ Seeks lseek base k := by
    rw [Seeks, hs.offset (lt_rounds_iff.mpr hlt), not_or]
  unfold ioRound
  simp only [hbytes, hrc, hseeks]

theorem toNat_roundBytes (hlt : rwMaxSize.toNat * k < size.toNat) :
    (roundBytes size k).toNat = min (size.toNat - rwMaxSize.toNat * k) rwMaxSize.toNat := by
  have hsize := size.isLt
  have hk : (BitVec.ofNat 64 (rwMaxSize.toNat * k)).toNat = rwMaxSize.toNat * k := by
    rw [BitVec.toNat_ofNat]
    exact Nat.mod_eq_of_lt (hlt.trans hsize)
  rw [roundBytes, toNat_chunk, BitVec.toNat_sub_of_le, hk]
  rw [BitVec.le_def, hk]
  exact Nat.le_of_lt hlt

theorem IoLoop.At.next (hrw : Bounded rw) (hs : s.At size base k) (hlt : rwMaxSize.toNat * k < size.toNat)
    (hfull : roundRc rw size k = roundBytes size k) :
    ((s.took moves (roundRc rw size k)).ahead (roundBytes size k)).At size base (k + 1) := by
  have hcount := hs.count_eq hlt
  have hbytes := toNat_roundBytes hlt
  have hsize := size.isLt
  have hmax : rwMaxSize.toNat = 0x7ffff000 := rfl
  have hadd : (s.count + roundBytes size k).toNat = s.count.toNat + (roundBytes size k).toNat := by
    rw [BitVec.toNat_add]
    exact Nat.mod_eq_of_lt (by omega)
  have hnonneg : ¬ (roundRc rw size k).slt 0 := by
    rw [hfull]
    exact chunk_nonneg _
  have hlow := (hrw k _ _ hnonneg).2
  change rwMaxSize.toNat * k + (roundRc rw size k).toNat < 2 ^ 63 at hlow
  rw [hfull] at hlow ⊢
  generalize roundBytes size k = bytes at *
  constructor
  · change (s.count + bytes).toNat = _
    rw [hadd, Nat.mul_succ]
    omega
  · change s.buf + (bytes).toNat = (s.count + bytes).toNat
    rw [hadd, hs.buf]
  · change XdmaDriver.moved (s.pieces ++ [⟨s.place, s.buf, bytes⟩]) = (s.count + bytes).toNat
    rw [moved_append, hadd, hs.moved]
  · change (s.count + bytes).toNat < 2 ^ 63
    rw [hadd]
    omega
  · intro hnext
    have hnext := lt_rounds_iff.mp hnext
    rw [Nat.mul_succ] at hnext
    have hwhole : bytes = rwMaxSize := by
      rw [← BitVec.toNat_inj]
      omega
    change s.offset + bytes = _
    rw [hs.offset (lt_rounds_iff.mpr hlt), hwhole, roundOffset, roundOffset, Nat.mul_succ,
      BitVec.ofNat_add, add_assoc,
      BitVec.ofNat_toNat, BitVec.setWidth_eq]

theorem bufferLoop_outcome (hrw : Bounded rw) (n : ℕ) : ∀ {k : ℕ} {s : IoLoop}, k + n = rounds size →
    s.At size base k →
    (bufferLoop lseek rw moves size n k s).Meets size
      (roundsOutcome lseek rw size base (List.range' k n)) := by
  induction n with
  | zero =>
    intro k s hk hs
    have hend : ¬ rwMaxSize.toNat * k < size.toNat := fun h => by
      have := lt_rounds_iff.mpr h
      omega
    have hcount : s.count.toNat = size.toNat := hs.count.trans (min_eq_right (Nat.le_of_not_lt hend))
    refine ⟨?_, hs.moved.trans hcount, le_refl _, hcount ▸ hs.low⟩
    rw [BitVec.ofNat_toNat, BitVec.setWidth_eq]
    exact BitVec.toNat_inj.mp hcount
  | succ n ih =>
    intro k s hk hs
    have hlt := lt_rounds_iff.mp (show k < rounds size by omega)
    have hcount := hs.count_eq hlt
    have hless : s.count < size := by
      rw [BitVec.lt_def]
      omega
    have hmoved : moved s.pieces < size.toNat := by
      rw [hs.moved]
      omega
    rw [bufferLoop, if_pos hless, ioRound_at hs hlt, List.range'_succ]
    by_cases hseeks : Seeks lseek base k
    · rw [if_neg (not_not.mpr hseeks)]
      by_cases hneg : (roundRc rw size k).slt 0
      · have hfull : ¬ FullRound lseek rw size base k := by
          rintro ⟨-, hfull⟩
          rw [hfull] at hneg
          exact chunk_nonneg _ hneg
        rw [if_pos hneg, roundsOutcome_cons_last hfull, if_neg fun h => h.2 hneg]
        exact ⟨rfl, hmoved⟩
      · rw [if_neg hneg]
        by_cases hall : roundRc rw size k = roundBytes size k
        · rw [if_neg (not_not.mpr hall), roundsOutcome_cons_full ⟨hseeks, hall⟩]
          exact ih (by omega) (hs.next hrw hlt hall)
        · obtain ⟨hle, hlow⟩ := hrw k _ _ hneg
          change rwMaxSize.toNat * k + (roundRc rw size k).toNat < 2 ^ 63 at hlow
          have hle := BitVec.le_def.mp hle
          rw [if_pos hall, roundsOutcome_cons_last fun h => hall h.2, if_pos ⟨hseeks, hneg⟩]
          refine ⟨?_, ?_, ?_, hlow⟩
          · change s.count + roundRc rw size k = _
            rw [← hcount, BitVec.ofNat_add, BitVec.ofNat_toNat, BitVec.ofNat_toNat, BitVec.setWidth_eq,
              BitVec.setWidth_eq]
          · change moved (s.pieces ++ [⟨s.place, s.buf, roundRc rw size k⟩]) = _
            rw [moved_append, hs.moved, hcount]
          · have := toNat_roundBytes hlt
            change (roundRc rw size k).toNat ≤ (roundBytes size k).toNat at hle
            omega
    · rw [if_pos hseeks, roundsOutcome_cons_last fun h => hseeks h.1, if_neg fun h => hseeks h.1]
      exact ⟨rfl, hmoved⟩

end

theorem start_at (size base pos : U64) : IoLoop.At { offset := base, pos := pos } size base 0 := by
  refine ⟨?_, rfl, rfl, Nat.two_pow_pos 63, fun _ => ?_⟩
  · rw [Nat.mul_zero, Nat.zero_min]
    rfl
  · rw [roundOffset, Nat.mul_zero]
    exact (BitVec.add_zero base).symm

theorem readToBuffer_outcome {sys : IoCalls} (h : Bounded sys.read) (fd : Fd) (size base : U64) :
    (readToBuffer sys fd size base).Meets size (ioOutcome sys.lseek sys.read size base) := by
  rw [ioOutcome, List.range_eq_range']
  exact bufferLoop_outcome h _ (Nat.zero_add _) (start_at size base fd.pos)

theorem writeFromBuffer_outcome {sys : IoCalls} (h : Bounded sys.write) (fd : Fd) (size base : U64) :
    (writeFromBuffer sys fd size base).Meets size (ioOutcome sys.lseek sys.write size base) := by
  rw [ioOutcome, List.range_eq_range']
  exact bufferLoop_outcome h _ (Nat.zero_add _) (start_at size base fd.pos)

/-- What the tool sets in `struct xdma_aperture_ioctl`, besides the address of the buffer. -/
structure ApertureIoctl where
  epAddr : U64
  aperture : U32
  len : U64
  done : U64 := 0
  deriving DecidableEq, Repr

/-- The value `ioctl` returns and what it leaves in the structure. -/
structure ApertureReply where
  rc : U32
  error : U32
  done : U64
  deriving DecidableEq, Repr

/-- The results of the calls that one transfer makes: the second `clock_gettime`, the `ioctl`,
and the calls on the device and on the output file. -/
structure TransferEnv where
  clockEnd : U32 := 0
  ioctl : ApertureIoctl → ApertureReply
  device : IoCalls
  out : IoCalls
  bounded : Bounded device.read ∧ Bounded device.write ∧ Bounded out.write

/-- What a run of a tool meets: what `rc` holds before it is set, whether the calls of `open` and
the allocation succeed, and the results of the other calls. -/
structure ToolEnv where
  rc : U64 := 0
  fpgaOpen : Bool := true
  infileOpen : Bool := true
  outfileOpen : Bool := true
  allocated : Bool := true
  infile : IoCalls
  transfer : ℕ → TransferEnv
  bounded : Bounded infile.read

structure ToolArgs where
  addr : U64 := 0
  aperture : U64 := 0
  size : U64 := 32
  count : U64 := 1
  infname : Bool := false
  ofname : Bool := false
  deriving DecidableEq, Repr

inductive DmaMove
  | aperture (reply : ApertureReply)
  | buffer (r : IoResult)

def ApertureReply.Fails (reply : ApertureReply) : Prop := reply.rc.slt 0 ∨ reply.error ≠ 0

instance (reply : ApertureReply) : Decidable reply.Fails := inferInstanceAs (Decidable (_ ∨ _))

namespace DmaMove

def rc : DmaMove → U64
  | aperture reply => reply.rc.signExtend 64
  | buffer r => r.rc

def bytesDone : DmaMove → U64
  | aperture reply => reply.done
  | buffer r => r.rc

def Fails : DmaMove → Prop
  | aperture reply => reply.Fails
  | buffer r => r.rc.slt 0

instance : ∀ m : DmaMove, Decidable m.Fails
  | aperture reply => inferInstanceAs (Decidable reply.Fails)
  | buffer r => inferInstanceAs (Decidable (r.rc.slt 0 = true))

def InFull (size : U64) : DmaMove → Prop
  | aperture reply => ¬ reply.Fails ∧ size ≤ reply.done
  | buffer r => moved r.pieces = size.toNat

end DmaMove

structure Done where
  dma : DmaMove
  out : Option IoResult := none

def Done.Written (d : Done) : Prop := ∃ w ∈ d.out, moved w.pieces = d.dma.bytesDone.toNat

structure ToolState where
  rc : U64
  outOffset : U64 := 0
  underflow : Bool := false
  fpga : Fd := { moves := false }
  outfile : Fd := { moves := true }
  log : List Done := []

inductive ToolRound
  | out (s : ToolState)
  | next (s : ToolState)

section

variable (dir : DmaDir) (a : ToolArgs)

def apertureRequest : ApertureIoctl := { epAddr := a.addr, aperture := a.aperture.setWidth 32, len := a.size }

def dmaMove (env : TransferEnv) (fd : Fd) : DmaMove × Fd :=
  if a.aperture ≠ 0 then (.aperture (env.ioctl (apertureRequest a)), fd)
  else
    let r :=
      match dir with
      | .toDevice => writeFromBuffer env.device fd a.size a.addr
      | .fromDevice => readToBuffer env.device fd a.size a.addr
    (.buffer r, { fd with pos := r.pos })

def afterSave (s : ToolState) (m : DmaMove) (fpga : Fd) (w : IoResult) : ToolRound :=
  let s := { s with
    rc := w.rc
    underflow := s.underflow || m.bytesDone < a.size
    fpga := fpga
    outfile := { s.outfile with pos := w.pos }
    log := s.log ++ [⟨m, some w⟩] }
  if w.rc.slt 0 ∨ w.rc < m.bytesDone then .out s
  else .next { s with outOffset := s.outOffset + m.bytesDone }

/-- The rest of the body of the loop, after the transfer. `dma_to_device` keeps the result of
`clock_gettime` in `rc`. -/
def afterMove (env : TransferEnv) (s : ToolState) (m : DmaMove) (fpga : Fd) : ToolRound :=
  if m.Fails then .out { s with rc := m.rc, fpga := fpga, log := s.log ++ [⟨m, none⟩] }
  else if a.ofname then afterSave a s m fpga (writeFromBuffer env.out s.outfile m.bytesDone s.outOffset)
  else
    let rc :=
      match dir with
      | .toDevice => env.clockEnd.signExtend 64
      | .fromDevice => m.rc
    .next { s with
      rc := rc
      underflow := s.underflow || m.bytesDone < a.size
      fpga := fpga
      log := s.log ++ [⟨m, none⟩] }

def testDmaRound (env : TransferEnv) (s : ToolState) : ToolRound :=
  afterMove dir a env s (dmaMove dir a env s.fpga).1 (dmaMove dir a env s.fpga).2

/-- The loop, from transfer `i` on, and whether it came to its end. -/
def testDmaLoop (env : ℕ → TransferEnv) : ℕ → ℕ → ToolState → Bool × ToolState
  | 0, _, s => (true, s)
  | n + 1, i, s =>
    match testDmaRound dir a (env i) s with
    | .out s => (false, s)
    | .next s => testDmaLoop env n (i + 1) s

end

def exitToDevice (s : ToolState) : U32 :=
  if s.rc.slt 0 then s.rc.setWidth 32
  else if s.underflow then BitVec.ofInt 32 (err .io)
  else 0

/-- `test_dma` of `dma_to_device`, with the transfers it made. -/
def testDmaToDevice (a : ToolArgs) (env : ToolEnv) : U32 × List Done :=
  let exit (rc : ℤ) : U32 × List Done := (exitToDevice { rc := BitVec.ofInt 64 rc }, [])
  if env.fpgaOpen = false then (BitVec.ofInt 32 (err .inval), [])
  else if a.infname ∧ env.infileOpen = false then exit (err .inval)
  else if a.ofname ∧ env.outfileOpen = false then exit (err .inval)
  else if env.allocated = false then exit (err .noMem)
  else
    let rc := if a.infname then (readToBuffer env.infile { moves := true } a.size 0).rc else env.rc
    if a.infname ∧ (rc.slt 0 ∨ rc < a.size) then (exitToDevice { rc := rc }, [])
    else
      let (_, s) := testDmaLoop .toDevice a env.transfer a.count.toNat 0 { rc := rc }
      (exitToDevice s, s.log)

def exitFromDevice (eopFlush finished : Bool) (s : ToolState) : U32 :=
  if finished then (if s.underflow = false ∨ eopFlush then 0 else BitVec.ofInt 32 (err .io))
  else s.rc.setWidth 32

/-- `test_dma` of `dma_from_device`, with the transfers it made. -/
def testDmaFromDevice (a : ToolArgs) (eopFlush : Bool) (env : ToolEnv) : U32 × List Done :=
  if env.fpgaOpen = false then (BitVec.ofInt 32 (err .inval), [])
  else if a.ofname ∧ env.outfileOpen = false then (BitVec.ofInt 32 (err .inval), [])
  else if env.allocated = false then (BitVec.ofInt 32 (err .noMem), [])
  else
    let (finished, s) := testDmaLoop .fromDevice a env.transfer a.count.toNat 0 { rc := 0 }
    (exitFromDevice eopFlush finished s, s.log)

section

variable (dir : DmaDir) (a : ToolArgs)

def deviceOutcome (env : TransferEnv) : Option U64 :=
  if a.aperture ≠ 0 then
    if (env.ioctl (apertureRequest a)).Fails then none else some (env.ioctl (apertureRequest a)).done
  else
    match dir with
    | .toDevice => (ioOutcome env.device.lseek env.device.write a.size a.addr).map (BitVec.ofNat 64)
    | .fromDevice => (ioOutcome env.device.lseek env.device.read a.size a.addr).map (BitVec.ofNat 64)

def outOutcome (env : TransferEnv) (bytes offset : U64) : Option ℕ :=
  ioOutcome env.out.lseek env.out.write bytes offset

variable (env : ℕ → TransferEnv)

def outOffsetAt (i : ℕ) : U64 := ((List.range i).map fun j => (deviceOutcome dir a (env j)).getD 0).sum

def Passes (i : ℕ) : Prop := ∃ b, deviceOutcome dir a (env i) = some b ∧
  (a.ofname → outOutcome (env i) b (outOffsetAt dir a env i) = some b.toNat)

def FullAt (i : ℕ) : Prop := ∃ b, deviceOutcome dir a (env i) = some b ∧ a.size ≤ b

/-- The `ioctl` returns no error but sets one in the structure, or what the transfer moved in
full is written short to the output file and there are transfers to come. -/
def ToDeviceStops (i : ℕ) : Prop :=
  (a.aperture ≠ 0 ∧ ¬ ((env i).ioctl (apertureRequest a)).rc.slt 0 ∧
    ((env i).ioctl (apertureRequest a)).error ≠ 0) ∨
    a.ofname ∧ i + 1 < a.count.toNat ∧ ∃ b, deviceOutcome .toDevice a (env i) = some b ∧ a.size ≤ b ∧
      ∃ n < b.toNat, outOutcome (env i) b (outOffsetAt .toDevice a env i) = some n

/-- The `ioctl` returns zero but sets an error in the structure, or the output file takes less
than it is given, and of that a multiple of `2 ^ 32` bytes. -/
def FromDeviceStops (i : ℕ) : Prop :=
  (a.aperture ≠ 0 ∧ ((env i).ioctl (apertureRequest a)).rc = 0 ∧
    ((env i).ioctl (apertureRequest a)).error ≠ 0) ∨
    a.ofname ∧ ∃ b, deviceOutcome .fromDevice a (env i) = some b ∧
      ∃ n < b.toNat, outOutcome (env i) b (outOffsetAt .fromDevice a env i) = some n ∧ n % 2 ^ 32 = 0

end

def ToolEnv.ToDeviceReady (env : ToolEnv) (a : ToolArgs) : Prop :=
  env.fpgaOpen ∧ (a.infname → env.infileOpen) ∧ (a.ofname → env.outfileOpen) ∧ env.allocated

def ToolEnv.FromDeviceReady (env : ToolEnv) (a : ToolArgs) : Prop :=
  env.fpgaOpen ∧ (a.ofname → env.outfileOpen) ∧ env.allocated

/-- The input file is read short, or a transfer stops the run with all before it in full. -/
def ToDeviceSilent (a : ToolArgs) (env : ToolEnv) : Prop :=
  a.count ≠ 0 ∧ env.ToDeviceReady a ∧
    ((a.infname ∧ ∃ n < a.size.toNat, ioOutcome env.infile.lseek env.infile.read a.size 0 = some n) ∨
      (a.infname → ioOutcome env.infile.lseek env.infile.read a.size 0 = some a.size.toNat) ∧
        ∃ i < a.count.toNat, (∀ j < i, Passes .toDevice a env.transfer j ∧
          FullAt .toDevice a env.transfer j) ∧
          ToDeviceStops a env.transfer i)

def FromDeviceSilent (a : ToolArgs) (env : ToolEnv) : Prop :=
  env.FromDeviceReady a ∧
    ∃ i < a.count.toNat, (∀ j < i, Passes .fromDevice a env.transfer j) ∧ FromDeviceStops a env.transfer i

def AllMoved (a : ToolArgs) (log : List Done) : Prop :=
  log.length = a.count.toNat ∧ ∀ d ∈ log, d.dma.InFull a.size

theorem nonneg_ofNat {n : ℕ} (h : n < 2 ^ 63) : ¬ (BitVec.ofNat 64 n).slt 0 := by
  have hn : (BitVec.ofNat 64 n).toNat = n := by
    rw [BitVec.toNat_ofNat]
    omega
  rw [BitVec.slt_iff_toInt_lt, BitVec.toInt_eq_toNat_of_lt (by omega)]
  exact Int.not_lt.mpr (Int.natCast_nonneg _)

def RcOk (rc : U64) : Prop := rc.slt 0 → rc.setWidth 32 ≠ 0

theorem setWidth_signExtend (rc : U32) : (rc.signExtend 64).setWidth 32 = rc := by
  apply BitVec.eq_of_getLsbD_eq
  intro i hi
  have hi' : i < 64 := by omega
  simp only [BitVec.getLsbD_setWidth, BitVec.getLsbD_signExtend, hi, hi', decide_true, Bool.true_and, if_true]

theorem slt_signExtend (rc : U32) : (rc.signExtend 64).slt 0 = rc.slt 0 := by
  rw [BitVec.slt_eq_decide, BitVec.slt_eq_decide, BitVec.toInt_signExtend_of_le (by decide)]
  rfl

theorem rcOk_signExtend (rc : U32) : RcOk (rc.signExtend 64) := by
  intro hneg h0
  rw [slt_signExtend] at hneg
  rw [setWidth_signExtend] at h0
  rw [h0] at hneg
  exact absurd hneg (by decide)

theorem rcOk_eio : RcOk eio := fun _ => by decide

theorem rcOk_meets {r : IoResult} {size : U64} {o : Option ℕ} (h : r.Meets size o) : RcOk r.rc := by
  cases o with
  | none =>
    rw [h.1]
    exact rcOk_eio
  | some m =>
    intro hneg
    rw [h.1] at hneg
    exact absurd hneg (nonneg_ofNat h.2.2.2)

theorem IoResult.Meets.short {r : IoResult} {size : U64} {o : Option ℕ} (h : r.Meets size o)
    (ho : o ≠ some size.toNat) :
    o = none ∧ r.rc.slt 0 ∨ ∃ n < size.toNat, o = some n ∧ r.rc = BitVec.ofNat 64 n ∧ ¬ r.rc.slt 0 := by
  cases o with
  | none =>
    refine .inl ⟨rfl, ?_⟩
    rw [h.1]
    decide
  | some n =>
    obtain ⟨hrc, -, hle, hlow⟩ := h
    refine .inr ⟨n, lt_of_le_of_ne hle fun heq => ho (heq ▸ rfl), rfl, hrc, ?_⟩
    rw [hrc]
    exact nonneg_ofNat hlow

structure ToolState.Logs (s s' : ToolState) (rc : U64) (underflow : Bool) (d : Done) : Prop where
  rc : s'.rc = rc
  underflow : s'.underflow = underflow
  log : s'.log = s.log ++ [d]

structure DmaMove.Refused (m : DmaMove) (a : ToolArgs) (env : TransferEnv) : Prop where
  fails : m.Fails
  short : ¬ m.InFull a.size
  rcOk : RcOk m.rc
  aperture : a.aperture ≠ 0 → m.rc = (env.ioctl (apertureRequest a)).rc.signExtend 64 ∧
    (env.ioctl (apertureRequest a)).Fails
  buffer : a.aperture = 0 → m.rc = eio

structure DmaMove.Moves (m : DmaMove) (a : ToolArgs) (b : U64) : Prop where
  ok : ¬ m.Fails
  bytes : m.bytesDone = b
  inFull : m.InFull a.size ↔ a.size ≤ b

section

variable {dir : DmaDir} {a : ToolArgs} {env : TransferEnv} {s : ToolState} {b : U64}

theorem refused_of_meets {r : IoResult} (h : r.Meets a.size none) (hap : a.aperture = 0) :
    (DmaMove.buffer r).Refused a env := by
  obtain ⟨hrc, hmoved⟩ := h
  refine ⟨?_, fun hfull => absurd hfull hmoved.ne, ?_, fun hne => absurd hap hne, fun _ => hrc⟩
  · change r.rc.slt 0 = true
    rw [hrc]
    decide
  · change RcOk r.rc
    rw [hrc]
    exact rcOk_eio

theorem moves_of_meets {r : IoResult} {n : ℕ} (h : r.Meets a.size (some n)) :
    (DmaMove.buffer r).Moves a (BitVec.ofNat 64 n) := by
  obtain ⟨hrc, hmoved, hle, hlow⟩ := h
  refine ⟨?_, hrc, ?_⟩
  · change ¬ r.rc.slt 0 = true
    rw [hrc]
    exact nonneg_ofNat hlow
  · change moved r.pieces = a.size.toNat ↔ _
    rw [hmoved, BitVec.le_def, BitVec.toNat_ofNat, Nat.mod_eq_of_lt (by omega)]
    omega

theorem dmaMove_refused (h : deviceOutcome dir a env = none) (fd : Fd) :
    (dmaMove dir a env fd).1.Refused a env := by
  unfold deviceOutcome at h
  unfold dmaMove
  by_cases hap : a.aperture ≠ 0
  · rw [if_pos hap] at h ⊢
    have hfails : (env.ioctl (apertureRequest a)).Fails := by
      by_contra hok
      rw [if_neg hok] at h
      exact Option.some_ne_none _ h
    exact ⟨hfails, fun hfull => hfull.1 hfails, rcOk_signExtend _, fun _ => ⟨rfl, hfails⟩,
      fun h0 => absurd h0 hap⟩
  · rw [if_neg hap] at h ⊢
    cases dir with
    | toDevice =>
      apply refused_of_meets _ (not_not.mp hap)
      rw [← Option.map_eq_none_iff.mp h]
      exact writeFromBuffer_outcome env.bounded.2.1 fd a.size a.addr
    | fromDevice =>
      apply refused_of_meets _ (not_not.mp hap)
      rw [← Option.map_eq_none_iff.mp h]
      exact readToBuffer_outcome env.bounded.1 fd a.size a.addr

theorem dmaMove_moves (h : deviceOutcome dir a env = some b) (fd : Fd) :
    (dmaMove dir a env fd).1.Moves a b := by
  unfold deviceOutcome at h
  unfold dmaMove
  by_cases hap : a.aperture ≠ 0
  · rw [if_pos hap] at h ⊢
    obtain ⟨hok, hdone⟩ := Option.ite_none_left_eq_some.mp h
    obtain rfl := Option.some.inj hdone
    exact ⟨hok, rfl, and_iff_right hok⟩
  · rw [if_neg hap] at h ⊢
    cases dir with
    | toDevice =>
      obtain ⟨n, hn, rfl⟩ := Option.map_eq_some_iff.mp h
      apply moves_of_meets
      rw [← hn]
      exact writeFromBuffer_outcome env.bounded.2.1 fd a.size a.addr
    | fromDevice =>
      obtain ⟨n, hn, rfl⟩ := Option.map_eq_some_iff.mp h
      apply moves_of_meets
      rw [← hn]
      exact readToBuffer_outcome env.bounded.1 fd a.size a.addr

theorem afterMove_refused (dir : DmaDir) (a : ToolArgs) (env : TransferEnv) (s : ToolState)
    {m : DmaMove} (hm : m.Fails)
    (fpga : Fd) :
    ∃ s', afterMove dir a env s m fpga = .out s' ∧ s.Logs s' m.rc s.underflow ⟨m, none⟩ := by
  unfold afterMove
  rw [if_pos hm]
  exact ⟨_, rfl, rfl, rfl, rfl⟩

theorem afterMove_kept (dir : DmaDir) (env : TransferEnv) (s : ToolState) {m : DmaMove} (hm : ¬ m.Fails)
    (hof : ¬ a.ofname = true) (fpga : Fd) :
    ∃ s', afterMove dir a env s m fpga = .next s' ∧
      s.Logs s' s'.rc (s.underflow || decide (m.bytesDone < a.size)) ⟨m, none⟩ ∧
      (dir = .toDevice → RcOk s'.rc) := by
  unfold afterMove
  rw [if_neg hm, if_neg hof]
  refine ⟨_, rfl, ⟨rfl, rfl, rfl⟩, ?_⟩
  rintro rfl
  exact rcOk_signExtend _

theorem afterMove_saved (dir : DmaDir) (env : TransferEnv) (s : ToolState) {m : DmaMove} (hm : ¬ m.Fails)
    (hof : a.ofname = true) (fpga : Fd) :
    afterMove dir a env s m fpga =
      afterSave a s m fpga (writeFromBuffer env.out s.outfile m.bytesDone s.outOffset) := by
  unfold afterMove
  rw [if_neg hm, if_pos hof]

theorem afterSave_logs (m : DmaMove) (fpga : Fd) (w : IoResult) :
    ∃ s', s.Logs s' w.rc (s.underflow || decide (m.bytesDone < a.size)) ⟨m, some w⟩ ∧
      afterSave a s m fpga w =
        if w.rc.slt 0 ∨ w.rc < m.bytesDone then .out s'
        else .next { s' with outOffset := s.outOffset + m.bytesDone } :=
  ⟨_, ⟨rfl, rfl, rfl⟩, rfl⟩

theorem round_refused (h : deviceOutcome dir a env = none) : ∃ m s', testDmaRound dir a env s = .out s' ∧
    s.Logs s' m.rc s.underflow ⟨m, none⟩ ∧ m.Refused a env := by
  have hm := dmaMove_refused h s.fpga
  obtain ⟨s', hround, hlogs⟩ := afterMove_refused dir a env s hm.fails
    (dmaMove dir a env s.fpga).2
  exact ⟨_, s', hround, hlogs, hm⟩

theorem round_kept (h : deviceOutcome dir a env = some b) (hof : ¬ a.ofname = true) :
    ∃ m s', testDmaRound dir a env s = .next s' ∧
      s.Logs s' s'.rc (s.underflow || decide (b < a.size)) ⟨m, none⟩ ∧ m.Moves a b ∧
        (dir = .toDevice → RcOk s'.rc) := by
  have hm := dmaMove_moves h s.fpga
  obtain ⟨s', hround, hlogs, hrc⟩ := afterMove_kept dir env s hm.ok hof
    (dmaMove dir a env s.fpga).2
  rw [hm.bytes] at hlogs
  exact ⟨_, s', hround, hlogs, hm, hrc⟩

theorem round_saved (h : deviceOutcome dir a env = some b) (hof : a.ofname = true) :
    ∃ m w s', w.Meets b (outOutcome env b s.outOffset) ∧
      s.Logs s' w.rc (s.underflow || decide (b < a.size)) ⟨m, some w⟩ ∧ m.Moves a b ∧
      testDmaRound dir a env s =
        if w.rc.slt 0 ∨ w.rc < b then .out s' else .next { s' with outOffset := s.outOffset + b } := by
  have hm := dmaMove_moves h s.fpga
  have hw : (writeFromBuffer env.out s.outfile b s.outOffset).Meets b (outOutcome env b s.outOffset) :=
    writeFromBuffer_outcome env.bounded.2.2 s.outfile b s.outOffset
  obtain ⟨s', hlogs, hsave⟩ := afterSave_logs (a := a) (s := s) (dmaMove dir a env s.fpga).1
    (dmaMove dir a env s.fpga).2 (writeFromBuffer env.out s.outfile b s.outOffset)
  have hround := afterMove_saved dir env s hm.ok hof (dmaMove dir a env s.fpga).2
  rw [hm.bytes] at hlogs hsave hround
  exact ⟨_, _, s', hw, hlogs, hm, hround.trans hsave⟩

theorem saved_next_iff {w : IoResult} {o : Option ℕ} (h : w.Meets b o) :
    ¬ (w.rc.slt 0 ∨ w.rc < b) ↔ o = some b.toNat := by
  cases o with
  | none =>
    refine iff_of_false (not_not.mpr (.inl ?_)) (Option.some_ne_none _).symm
    rw [h.1]
    decide
  | some n =>
    obtain ⟨hrc, -, hle, hlow⟩ := h
    have hneg := nonneg_ofNat hlow
    rw [hrc, or_iff_right hneg, BitVec.lt_def, BitVec.toNat_ofNat,
      Nat.mod_eq_of_lt (by omega), Option.some_inj]
    omega

end

def StopsFrom (passes stops : ℕ → Prop) (n i : ℕ) : Prop :=
  ∃ k < n, i ≤ k ∧ (∀ j, i ≤ j → j < k → passes j) ∧ stops k

section

variable {passes stops : ℕ → Prop} {n i : ℕ}

theorem stopsFrom_iff (h : i < n) :
    StopsFrom passes stops n i ↔ stops i ∨ passes i ∧ StopsFrom passes stops n (i + 1) := by
  constructor
  · rintro ⟨k, hk, hik, hpass, hstop⟩
    rcases Nat.eq_or_lt_of_le hik with rfl | hlt
    · exact .inl hstop
    · refine .inr ⟨hpass i (le_refl i) hlt, k, hk, hlt, ?_, hstop⟩
      exact fun j hj => hpass j (Nat.le_of_succ_le hj)
  · rintro (hstop | ⟨hi, k, hk, hik, hpass, hstop⟩)
    · exact ⟨i, h, le_refl i, fun j hj hlt => absurd hj (not_le.mpr hlt), hstop⟩
    · refine ⟨k, hk, Nat.le_of_succ_le hik, fun j hj hlt => ?_, hstop⟩
      rcases Nat.eq_or_lt_of_le hj with rfl | hij
      · exact hi
      · exact hpass j hij hlt

theorem not_stopsFrom_end : ¬ StopsFrom passes stops n n := by
  rintro ⟨k, hk, hnk, -⟩
  exact absurd hnk (not_le.mpr hk)

theorem stopsFrom_zero : StopsFrom passes stops n 0 ↔ ∃ k < n, (∀ j < k, passes j) ∧ stops k := by
  simp only [StopsFrom, Nat.zero_le, true_and, forall_const]

end

section

variable {a : ToolArgs} {env : ℕ → TransferEnv} {s : ToolState}

theorem outOffsetAt_succ {dir : DmaDir} {i : ℕ} {b : U64} (h : deviceOutcome dir a (env i) = some b) :
    outOffsetAt dir a env (i + 1) = outOffsetAt dir a env i + b := by
  rw [outOffsetAt, List.range_succ, List.map_append, List.sum_append, List.map_singleton,
    List.sum_singleton, h]
  rfl

theorem exitToDevice_eq_zero (hrc : RcOk s.rc) : exitToDevice s = 0 ↔ ¬ s.rc.slt 0 ∧ s.underflow = false := by
  unfold exitToDevice
  by_cases hneg : s.rc.slt 0
  · rw [if_pos hneg]
    exact iff_of_false (hrc hneg) fun h => h.1 hneg
  · rw [if_neg hneg, and_iff_right hneg]
    cases s.underflow with
    | true => exact iff_of_false (by decide) (by decide)
    | false => exact iff_of_true rfl rfl

theorem exitToDevice_short (hrc : RcOk s.rc) (hu : s.underflow = true) : exitToDevice s ≠ 0 := by
  intro h0
  have := ((exitToDevice_eq_zero hrc).mp h0).2
  rw [hu] at this
  exact absurd this (by decide)

theorem exitToDevice_of_short {w : IoResult} {b : U64} {o : Option ℕ} (hw : w.Meets b o)
    (ho : o ≠ some b.toNat)
    (hrc : s.rc = w.rc) (hu : s.underflow = false) : exitToDevice s = 0 ↔ ∃ n < b.toNat, o = some n := by
  rw [exitToDevice_eq_zero (hrc ▸ rcOk_meets hw), hrc, and_iff_left hu]
  rcases hw.short ho with ⟨rfl, hneg⟩ | ⟨n, hn, rfl, -, hpos⟩
  · exact iff_of_false (not_not.mpr hneg) fun ⟨n, _, hn⟩ => Option.some_ne_none n hn.symm
  · exact iff_of_true hpos ⟨n, hn, rfl⟩

theorem short_exit (n : ℕ) : ∀ {i : ℕ} {s : ToolState}, RcOk s.rc → s.underflow = true →
    exitToDevice (testDmaLoop .toDevice a env n i s).2 ≠ 0 := by
  induction n with
  | zero => exact fun hrc hu => exitToDevice_short hrc hu
  | succ n ih =>
    intro i s hrc hu
    rw [testDmaLoop]
    cases hdev : deviceOutcome .toDevice a (env i) with
    | none =>
      obtain ⟨m, s', hround, hlogs, hm⟩ := round_refused (s := s) hdev
      rw [hround]
      exact exitToDevice_short (hlogs.rc ▸ hm.rcOk) (hlogs.underflow.trans hu)
    | some b =>
      by_cases hof : a.ofname = true
      · obtain ⟨m, w, s', hw, hlogs, -, hround⟩ := round_saved (s := s) hdev hof
        have hu' : s'.underflow = true := by rw [hlogs.underflow, hu, Bool.true_or]
        have hrc' : RcOk s'.rc := hlogs.rc ▸ rcOk_meets hw
        rw [hround]
        split_ifs with hstop
        · exact exitToDevice_short hrc' hu'
        · exact ih hrc' hu'
      · obtain ⟨m, s', hround, hlogs, -, hrc'⟩ := round_kept (s := s) hdev hof
        rw [hround]
        exact ih (hrc' rfl) (by rw [hlogs.underflow, hu, Bool.true_or])

theorem not_passes_none {dir : DmaDir} {i : ℕ} (h : deviceOutcome dir a (env i) = none) :
    ¬ Passes dir a env i := by
  rintro ⟨b, hb, -⟩
  exact Option.some_ne_none b (hb.symm.trans h)

theorem passes_some_iff {dir : DmaDir} {i : ℕ} {b : U64} (h : deviceOutcome dir a (env i) = some b) :
    Passes dir a env i ↔ (a.ofname → outOutcome (env i) b (outOffsetAt dir a env i) = some b.toNat) := by
  constructor
  · rintro ⟨c, hc, hout⟩
    obtain rfl := Option.some.inj (h.symm.trans hc)
    exact hout
  · exact fun hout => ⟨b, h, hout⟩

theorem fullAt_some_iff {dir : DmaDir} {i : ℕ} {b : U64} (h : deviceOutcome dir a (env i) = some b) :
    FullAt dir a env i ↔ a.size ≤ b := by
  constructor
  · rintro ⟨c, hc, hsize⟩
    obtain rfl := Option.some.inj (h.symm.trans hc)
    exact hsize
  · exact fun hsize => ⟨b, h, hsize⟩

theorem error_eq_zero {dir : DmaDir} {i : ℕ} {b : U64} (h : deviceOutcome dir a (env i) = some b)
    (hap : a.aperture ≠ 0) : ((env i).ioctl (apertureRequest a)).error = 0 := by
  by_contra hne
  have hfails : ((env i).ioctl (apertureRequest a)).Fails := .inr hne
  unfold deviceOutcome at h
  rw [if_pos hap, if_pos hfails] at h
  exact Option.some_ne_none b h.symm

theorem toDeviceStops_some_iff {i : ℕ} {b : U64} (h : deviceOutcome .toDevice a (env i) = some b) :
    ToDeviceStops a env i ↔ a.ofname ∧ i + 1 < a.count.toNat ∧ a.size ≤ b ∧
      ∃ n < b.toNat, outOutcome (env i) b (outOffsetAt .toDevice a env i) = some n := by
  constructor
  · rintro (⟨hap, -, hne⟩ | ⟨hof, hlast, c, hc, hsize, hshort⟩)
    · exact absurd (error_eq_zero h hap) hne
    · obtain rfl := Option.some.inj (h.symm.trans hc)
      exact ⟨hof, hlast, hsize, hshort⟩
  · rintro ⟨hof, hlast, hsize, hshort⟩
    exact .inr ⟨hof, hlast, b, h, hsize, hshort⟩

theorem fromDeviceStops_some_iff {i : ℕ} {b : U64} (h : deviceOutcome .fromDevice a (env i) = some b) :
    FromDeviceStops a env i ↔ a.ofname ∧
      ∃ n < b.toNat, outOutcome (env i) b (outOffsetAt .fromDevice a env i) = some n ∧ n % 2 ^ 32 = 0 := by
  constructor
  · rintro (⟨hap, -, hne⟩ | ⟨hof, c, hc, hshort⟩)
    · exact absurd (error_eq_zero h hap) hne
    · obtain rfl := Option.some.inj (h.symm.trans hc)
      exact ⟨hof, hshort⟩
  · rintro ⟨hof, hshort⟩
    exact .inr ⟨hof, b, h, hshort⟩

theorem DmaMove.Refused.stops_iff {m : DmaMove} {i : ℕ} (hm : m.Refused a (env i))
    (h : deviceOutcome .toDevice a (env i) = none) : ToDeviceStops a env i ↔ ¬ m.rc.slt 0 := by
  constructor
  · rintro (⟨hap, hneg, -⟩ | ⟨-, -, c, hc, -⟩)
    · rw [(hm.aperture hap).1, slt_signExtend]
      exact hneg
    · exact absurd (hc.symm.trans h) (Option.some_ne_none c)
  · intro hneg
    by_cases hap : a.aperture = 0
    · rw [hm.buffer hap] at hneg
      exact absurd (by decide) hneg
    · obtain ⟨hrc, hfails⟩ := hm.aperture hap
      rw [hrc, slt_signExtend] at hneg
      exact .inl ⟨hap, hneg, hfails.resolve_left hneg⟩

theorem DmaMove.Refused.rc_eq_zero_iff {m : DmaMove} {i : ℕ} (hm : m.Refused a (env i))
    (h : deviceOutcome .fromDevice a (env i) = none) : FromDeviceStops a env i ↔ m.rc.setWidth 32 = 0 := by
  constructor
  · rintro (⟨hap, hzero, -⟩ | ⟨-, c, hc, -⟩)
    · rw [(hm.aperture hap).1, setWidth_signExtend]
      exact hzero
    · exact absurd (hc.symm.trans h) (Option.some_ne_none c)
  · intro hzero
    by_cases hap : a.aperture = 0
    · rw [hm.buffer hap] at hzero
      exact absurd hzero (by decide)
    · obtain ⟨hrc, hfails⟩ := hm.aperture hap
      rw [hrc, setWidth_signExtend] at hzero
      refine .inl ⟨hap, hzero, hfails.resolve_left ?_⟩
      rw [hzero]
      decide

theorem round_short_exit {i : ℕ} {b : U64} (h : deviceOutcome .toDevice a (env i) = some b)
    (hshort : b < a.size)
    (n : ℕ) : exitToDevice (testDmaLoop .toDevice a env (n + 1) i s).2 ≠ 0 := by
  have hu : (s.underflow || decide (b < a.size)) = true := by rw [decide_eq_true hshort, Bool.or_true]
  rw [testDmaLoop]
  by_cases hof : a.ofname = true
  · obtain ⟨m, w, s', hw, hlogs, -, hround⟩ := round_saved (s := s) h hof
    have hrc : RcOk s'.rc := hlogs.rc ▸ rcOk_meets hw
    have hu' := hlogs.underflow.trans hu
    rw [hround]
    split_ifs with hstop
    · exact exitToDevice_short hrc hu'
    · exact short_exit n hrc hu'
  · obtain ⟨m, s', hround, hlogs, -, hrc⟩ := round_kept (s := s) h hof
    rw [hround]
    exact short_exit n (hrc rfl) (hlogs.underflow.trans hu)

structure ToolState.FullTo (s : ToolState) (a : ToolArgs) (env : ℕ → TransferEnv) (i : ℕ) : Prop where
  offset : a.ofname = true → s.outOffset = outOffsetAt .toDevice a env i
  underflow : s.underflow = false
  length : s.log.length = i
  full : ∀ d ∈ s.log, d.dma.InFull a.size

theorem ToolState.FullTo.next {s' : ToolState} {i : ℕ} {b rc : U64} {d : Done} (hs : s.FullTo a env i)
    (h : deviceOutcome .toDevice a (env i) = some b) (hsize : a.size ≤ b)
    (hlogs : s.Logs s' rc (s.underflow || decide (b < a.size)) d) (hd : d.dma.InFull a.size)
    (hoff : a.ofname = true → s'.outOffset = s.outOffset + b) : s'.FullTo a env (i + 1) where
  offset hof := by rw [hoff hof, hs.offset hof, outOffsetAt_succ h]
  underflow := by rw [hlogs.underflow, hs.underflow, Bool.false_or, decide_eq_false (BitVec.not_lt.mpr hsize)]
  length := by rw [hlogs.log, List.length_append, hs.length, List.length_singleton]
  full e he := by
    rcases List.mem_append.mp (hlogs.log ▸ he) with he | he
    · exact hs.full e he
    · rw [List.mem_singleton.mp he]
      exact hd

theorem ToolState.FullTo.out {s' : ToolState} {i : ℕ} {b : U64} {d : Done} {w : IoResult} {o : Option ℕ}
    (hs : s.FullTo a env i) (hsize : a.size ≤ b)
      (hlogs : s.Logs s' w.rc (s.underflow || decide (b < a.size)) d)
    (hd : d.dma.InFull a.size) (hw : w.Meets b o) (ho : o ≠ some b.toNat) (hi : i < a.count.toNat) :
    (exitToDevice s' = 0 → AllMoved a s'.log) ↔ ¬ (i + 1 < a.count.toNat ∧ ∃ n < b.toNat, o = some n) := by
  have hu : s'.underflow = false := by
    rw [hlogs.underflow, hs.underflow, Bool.false_or, decide_eq_false (BitVec.not_lt.mpr hsize)]
  have hlength : s'.log.length = i + 1 := by rw [hlogs.log, List.length_append, hs.length,
    List.length_singleton]
  rw [exitToDevice_of_short hw ho hlogs.rc hu]
  constructor
  · rintro h ⟨hlt, hshort⟩
    have := (h hshort).1
    omega
  · intro hlast hshort
    have hend : ¬ i + 1 < a.count.toNat := fun hlt => hlast ⟨hlt, hshort⟩
    refine ⟨by omega, fun e he => ?_⟩
    rcases List.mem_append.mp (hlogs.log ▸ he) with he | he
    · exact hs.full e he
    · rw [List.mem_singleton.mp he]
      exact hd

theorem toDevice_loop (n : ℕ) : ∀ {i : ℕ} {s : ToolState}, i + n = a.count.toNat → s.FullTo a env i →
    ((exitToDevice (testDmaLoop .toDevice a env n i s).2 = 0 →
        AllMoved a (testDmaLoop .toDevice a env n i s).2.log) ↔
      ¬ StopsFrom (fun j => Passes .toDevice a env j ∧ FullAt .toDevice a env j) (ToDeviceStops a env)
        a.count.toNat i) := by
  induction n with
  | zero =>
    intro i s hi hs
    rw [← hi]
    refine iff_of_true (fun _ => ⟨hs.length.trans hi, hs.full⟩) ?_
    exact not_stopsFrom_end
  | succ n ih =>
    intro i s hi hs
    rw [stopsFrom_iff (show i < a.count.toNat by omega)]
    cases hdev : deviceOutcome .toDevice a (env i) with
    | none =>
      obtain ⟨m, s', hround, hlogs, hm⟩ := round_refused (s := s) hdev
      have hmoved : ¬ AllMoved a s'.log := fun h =>
        hm.short (h.2 _ (by rw [hlogs.log]; exact List.mem_concat_self))
      have hexit : exitToDevice s' = 0 ↔ ¬ m.rc.slt 0 := by
        rw [exitToDevice_eq_zero (hlogs.rc ▸ hm.rcOk), hlogs.rc, hlogs.underflow]
        exact and_iff_left hs.underflow
      rw [testDmaLoop, hround, hm.stops_iff hdev]
      change (exitToDevice s' = 0 → AllMoved a s'.log) ↔ _
      rw [hexit, or_iff_left fun h => not_passes_none hdev h.1.1]
      exact ⟨fun h hneg => hmoved (h hneg), fun h hneg => absurd hneg h⟩
    | some b =>
      rw [toDeviceStops_some_iff hdev, passes_some_iff hdev, fullAt_some_iff hdev]
      by_cases hsize : a.size ≤ b
      · by_cases hof : a.ofname = true
        · obtain ⟨m, w, s', hw, hlogs, hm, hround⟩ := round_saved (s := s) hdev hof
          have hd : (⟨m, some w⟩ : Done).dma.InFull a.size := hm.inFull.mpr hsize
          rw [hs.offset hof] at hw
          rw [testDmaLoop, hround]
          by_cases hfull : outOutcome (env i) b (outOffsetAt .toDevice a env i) = some b.toNat
          · have hs' : ({ s' with outOffset := s.outOffset + b } : ToolState).FullTo a env (i + 1) :=
              hs.next hdev hsize
              ⟨hlogs.rc, hlogs.underflow, hlogs.log⟩ hd fun _ => rfl
            rw [if_neg ((saved_next_iff hw).mpr hfull)]
            refine (ih (by omega) hs').trans (not_congr ?_)
            constructor
            · exact fun h => .inr ⟨⟨fun _ => hfull, hsize⟩, h⟩
            · rintro (⟨-, -, -, k, hk, hshort⟩ | ⟨-, h⟩)
              · exact absurd (Option.some.inj (hshort.symm.trans hfull)) hk.ne
              · exact h
          · rw [if_pos (not_not.mp fun h => hfull ((saved_next_iff hw).mp h))]
            refine (hs.out hsize hlogs hd hw hfull (by omega)).trans (not_congr ?_)
            constructor
            · exact fun ⟨hlt, h⟩ => .inl ⟨hof, hlt, hsize, h⟩
            · rintro (⟨-, hlt, -, h⟩ | ⟨⟨h, -⟩, -⟩)
              · exact ⟨hlt, h⟩
              · exact absurd (h hof) hfull
        · obtain ⟨m, s', hround, hlogs, hm, -⟩ := round_kept (s := s) hdev hof
          have hs' := hs.next hdev hsize hlogs (hm.inFull.mpr hsize) fun h => absurd h hof
          rw [testDmaLoop, hround]
          refine (ih (by omega) hs').trans (not_congr ?_)
          constructor
          · exact fun h => .inr ⟨⟨fun h => absurd h hof, hsize⟩, h⟩
          · rintro (⟨h, -⟩ | ⟨-, h⟩)
            · exact absurd h hof
            · exact h
      · refine iff_of_true (fun h => absurd h (round_short_exit hdev (BitVec.not_le.mp hsize) n)) ?_
        rintro (⟨-, -, h, -⟩ | ⟨⟨-, h⟩, -⟩)
        · exact hsize h
        · exact hsize h

structure ToolState.ReadTo (s : ToolState) (a : ToolArgs) (env : ℕ → TransferEnv) (i : ℕ) : Prop where
  offset : a.ofname = true → s.outOffset = outOffsetAt .fromDevice a env i
  underflow : s.underflow = false ↔ ∀ d ∈ s.log, d.dma.InFull a.size
  length : s.log.length = i
  written : a.ofname = true → ∀ d ∈ s.log, d.Written

theorem ToolState.ReadTo.next {s' : ToolState} {i : ℕ} {b rc : U64} {d : Done} (hs : s.ReadTo a env i)
    (h : deviceOutcome .fromDevice a (env i) = some b)
    (hlogs : s.Logs s' rc (s.underflow || decide (b < a.size)) d) (hd : d.dma.Moves a b)
    (hoff : a.ofname = true → s'.outOffset = s.outOffset + b) (hout : a.ofname = true → d.Written) :
    s'.ReadTo a env (i + 1) where
  offset hof := by rw [hoff hof, hs.offset hof, outOffsetAt_succ h]
  underflow := by
    rw [hlogs.underflow, hlogs.log, Bool.or_eq_false_iff, decide_eq_false_iff_not,
      BitVec.not_lt, hs.underflow]
    rw [List.forall_mem_append, List.forall_mem_singleton, hd.inFull]
  length := by rw [hlogs.log, List.length_append, hs.length, List.length_singleton]
  written hof := by
    rw [hlogs.log, List.forall_mem_append, List.forall_mem_singleton]
    exact ⟨hs.written hof, hout hof⟩

theorem saved_exit_iff {w : IoResult} {b : U64} {o : Option ℕ} (hw : w.Meets b o) (ho : o ≠ some b.toNat) :
    w.rc.setWidth 32 = 0 ↔ ∃ n < b.toNat, o = some n ∧ n % 2 ^ 32 = 0 := by
  rcases hw.short ho with ⟨rfl, hneg⟩ | ⟨n, hn, rfl, hrc, -⟩
  · exact iff_of_false (rcOk_meets hw hneg) fun ⟨n, _, hn, _⟩ => Option.some_ne_none n hn.symm
  · have hmod : n % 2 ^ 64 % 2 ^ 32 = n % 2 ^ 32 := by omega
    rw [hrc, ← BitVec.toNat_inj, BitVec.toNat_setWidth, BitVec.toNat_ofNat, hmod]
    constructor
    · exact fun h => ⟨n, hn, rfl, h⟩
    · rintro ⟨k, -, hk, h⟩
      rw [Option.some.inj hk]
      exact h

theorem not_written_of_short {m : DmaMove} {w : IoResult} {b : U64} {o : Option ℕ} (hm : m.Moves a b)
    (hw : w.Meets b o) (ho : o ≠ some b.toNat) : ¬ (⟨m, some w⟩ : Done).Written := by
  rintro ⟨w', hw', hmoved⟩
  obtain rfl := Option.some.inj hw'
  change moved w.pieces = m.bytesDone.toNat at hmoved
  rw [hm.bytes] at hmoved
  cases o with
  | none => exact absurd hmoved hw.2.ne
  | some n => exact ho (congrArg some (hw.2.1.symm.trans hmoved))

def AllRead (a : ToolArgs) (log : List Done) : Prop := AllMoved a log ∧ (a.ofname → ∀ d ∈ log, d.Written)

theorem fromDevice_loop (n : ℕ) : ∀ {i : ℕ} {s : ToolState}, i + n = a.count.toNat → s.ReadTo a env i →
    ((exitFromDevice false (testDmaLoop .fromDevice a env n i s).1
      (testDmaLoop .fromDevice a env n i s).2 = 0 →
        AllRead a (testDmaLoop .fromDevice a env n i s).2.log) ↔
      ¬ StopsFrom (Passes .fromDevice a env) (FromDeviceStops a env) a.count.toNat i) := by
  induction n with
  | zero =>
    intro i s hi hs
    rw [← hi]
    refine iff_of_true (fun h0 => ?_) not_stopsFrom_end
    have hu : s.underflow = false := by
      by_contra hne
      rw [testDmaLoop, exitFromDevice, if_pos rfl, if_neg (not_or.mpr ⟨hne, Bool.false_ne_true⟩)] at h0
      exact absurd h0 (by decide)
    exact ⟨⟨hs.length.trans hi, hs.underflow.mp hu⟩, hs.written⟩
  | succ n ih =>
    intro i s hi hs
    rw [stopsFrom_iff (show i < a.count.toNat by omega)]
    cases hdev : deviceOutcome .fromDevice a (env i) with
    | none =>
      obtain ⟨m, s', hround, hlogs, hm⟩ := round_refused (s := s) hdev
      have hmoved : ¬ AllRead a s'.log := fun h =>
        hm.short (h.1.2 _ (by rw [hlogs.log]; exact List.mem_concat_self))
      rw [testDmaLoop, hround, hm.rc_eq_zero_iff hdev, ← hlogs.rc,
        or_iff_left fun h => not_passes_none hdev h.1]
      exact ⟨fun h h0 => hmoved (h h0), fun h h0 => absurd h0 h⟩
    | some b =>
      rw [fromDeviceStops_some_iff hdev, passes_some_iff hdev]
      by_cases hof : a.ofname = true
      · obtain ⟨m, w, s', hw, hlogs, hm, hround⟩ := round_saved (s := s) hdev hof
        rw [hs.offset hof] at hw
        rw [testDmaLoop, hround]
        by_cases hfull : outOutcome (env i) b (outOffsetAt .fromDevice a env i) = some b.toNat
        · have hwritten : (⟨m, some w⟩ : Done).Written := by
            rw [hfull] at hw
            refine ⟨w, rfl, hw.2.1.trans ?_⟩
            change b.toNat = m.bytesDone.toNat
            rw [hm.bytes]
          have hs' : ({ s' with outOffset := s.outOffset + b } : ToolState).ReadTo a env (i + 1) :=
            hs.next hdev
            ⟨hlogs.rc, hlogs.underflow, hlogs.log⟩ hm (fun _ => rfl) fun _ => hwritten
          rw [if_neg ((saved_next_iff hw).mpr hfull)]
          refine (ih (by omega) hs').trans (not_congr ?_)
          constructor
          · exact fun h => .inr ⟨fun _ => hfull, h⟩
          · rintro (⟨-, k, hk, hshort, -⟩ | ⟨-, h⟩)
            · exact absurd (Option.some.inj (hshort.symm.trans hfull)) hk.ne
            · exact h
        · have hmoved : ¬ AllRead a s'.log := fun h =>
            not_written_of_short hm hw hfull (h.2 hof _ (by rw [hlogs.log]; exact List.mem_concat_self))
          rw [if_pos (not_not.mp fun h => hfull ((saved_next_iff hw).mp h)),
            ← saved_exit_iff hw hfull, ← hlogs.rc,
            and_iff_right hof, or_iff_left fun h => hfull (h.1 hof)]
          exact ⟨fun h h0 => hmoved (h h0), fun h h0 => absurd h0 h⟩
      · obtain ⟨m, s', hround, hlogs, hm, -⟩ := round_kept (s := s) hdev hof
        have hs' := hs.next hdev hlogs hm (fun h => absurd h hof) fun h => absurd h hof
        rw [testDmaLoop, hround]
        refine (ih (by omega) hs').trans (not_congr ?_)
        constructor
        · exact fun h => .inr ⟨fun h => absurd h hof, h⟩
        · rintro (⟨h, -⟩ | ⟨-, h⟩)
          · exact absurd h hof
          · exact h

end

section

variable {a : ToolArgs} {env : ToolEnv}

theorem toDevice_start (rc : U64) : ({ rc := rc } : ToolState).FullTo a env.transfer 0 :=
  ⟨fun _ => rfl, rfl, rfl, fun _ hd => absurd hd List.not_mem_nil⟩

theorem fromDevice_start (rc : U64) : ({ rc := rc } : ToolState).ReadTo a env.transfer 0 :=
  ⟨fun _ => rfl, iff_of_true rfl fun _ hd => absurd hd List.not_mem_nil, rfl,
    fun _ _ hd => absurd hd List.not_mem_nil⟩

theorem toDevice_not_ready (h : ¬ env.ToDeviceReady a) : (testDmaToDevice a env).1 ≠ 0 := by
  have hinval : exitToDevice { rc := BitVec.ofInt 64 (err .inval) } ≠ 0 := by decide
  have hnoMem : exitToDevice { rc := BitVec.ofInt 64 (err .noMem) } ≠ 0 := by decide
  unfold testDmaToDevice
  split_ifs with hfpga hinfile houtfile halloc
  · decide
  · exact hinval
  · exact hinval
  · exact hnoMem
  all_goals
    refine absurd ⟨?_, fun hin => ?_, fun hout => ?_, ?_⟩ h
    · exact Bool.eq_true_of_not_eq_false hfpga
    · exact Bool.eq_true_of_not_eq_false fun hno => hinfile ⟨hin, hno⟩
    · exact Bool.eq_true_of_not_eq_false fun hno => houtfile ⟨hout, hno⟩
    · exact Bool.eq_true_of_not_eq_false halloc

theorem toDevice_ready (h : env.ToDeviceReady a) {rc : U64}
    (hrc : (if a.infname then (readToBuffer env.infile { moves := true } a.size 0).rc else env.rc) = rc) :
    testDmaToDevice a env =
      if a.infname ∧ (rc.slt 0 ∨ rc < a.size) then (exitToDevice { rc := rc }, [])
      else
        let (_, s) := testDmaLoop .toDevice a env.transfer a.count.toNat 0 { rc := rc }
        (exitToDevice s, s.log) := by
  obtain ⟨hfpga, hinfile, houtfile, halloc⟩ := h
  unfold testDmaToDevice
  rw [if_neg (by simp [hfpga]), if_neg fun h => by simp [hinfile h.1] at h,
    if_neg fun h => by simp [houtfile h.1] at h,
    if_neg (by simp [halloc]), hrc]

theorem toDevice_run (h : env.ToDeviceReady a)
    (hin : a.infname → ioOutcome env.infile.lseek env.infile.read a.size 0 = some a.size.toNat) (rc : U64) :
    (exitToDevice (testDmaLoop .toDevice a env.transfer a.count.toNat 0 { rc := rc }).2 = 0 →
      AllMoved a (testDmaLoop .toDevice a env.transfer a.count.toNat 0 { rc := rc }).2.log) ↔
        ¬ ToDeviceSilent a env := by
  rw [toDevice_loop a.count.toNat (Nat.zero_add _) (toDevice_start rc), stopsFrom_zero]
  refine not_congr ⟨fun hstops => ?_, ?_⟩
  · have hcount : a.count ≠ 0 := by
      rintro h0
      obtain ⟨k, hk, -⟩ := hstops
      rw [h0] at hk
      exact absurd hk (Nat.not_lt_zero k)
    exact ⟨hcount, h, .inr ⟨hin, hstops⟩⟩
  · rintro ⟨-, -, ⟨hof, n, hn, hshort⟩ | ⟨-, hstops⟩⟩
    · exact absurd (Option.some.inj (hshort.symm.trans (hin hof))) hn.ne
    · exact hstops

theorem toDevice_unread {r : IoResult} {o : Option ℕ} (hr : r.Meets a.size o) (ho : o ≠ some a.size.toNat) :
    exitToDevice { rc := r.rc } = 0 ↔ ∃ n < a.size.toNat, o = some n :=
  exitToDevice_of_short hr ho rfl rfl

theorem toDevice_zero_iff (a : ToolArgs) (env : ToolEnv) :
    ((testDmaToDevice a env).1 = 0 → AllMoved a (testDmaToDevice a env).2) ↔ ¬ ToDeviceSilent a env := by
  by_cases hready : env.ToDeviceReady a
  · by_cases hin : a.infname = true
    · have hr := readToBuffer_outcome env.bounded { moves := true } a.size 0
      rw [toDevice_ready hready (if_pos hin)]
      generalize readToBuffer env.infile { moves := true } a.size 0 = r at hr ⊢
      by_cases hread : ioOutcome env.infile.lseek env.infile.read a.size 0 = some a.size.toNat
      · rw [if_neg fun h => (saved_next_iff hr).mpr hread h.2]
        exact toDevice_run hready (fun _ => hread) r.rc
      · rw [if_pos ⟨hin, not_not.mp fun h => hread ((saved_next_iff hr).mp h)⟩]
        change (exitToDevice { rc := r.rc } = 0 → AllMoved a []) ↔ _
        rw [toDevice_unread hr hread]
        constructor
        · rintro h ⟨hcount, -, ⟨-, hshort⟩ | ⟨hfull, -⟩⟩
          · refine hcount (BitVec.toNat_inj.mp ?_)
            exact (h hshort).1.symm
          · exact hread (hfull hin)
        · intro h hshort
          refine ⟨?_, fun d hd => absurd hd List.not_mem_nil⟩
          by_contra hne
          refine h ⟨fun h0 => hne ?_, hready, .inl ⟨hin, hshort⟩⟩
          rw [h0]
          rfl
    · rw [toDevice_ready hready (if_neg hin), if_neg fun h => hin h.1]
      exact toDevice_run hready (fun h => absurd h hin) _
  · exact iff_of_true (fun h => absurd h (toDevice_not_ready hready)) fun h => hready h.2.1

theorem fromDevice_not_ready {eopFlush : Bool} (h : ¬ env.FromDeviceReady a) :
    (testDmaFromDevice a eopFlush env).1 ≠ 0 := by
  unfold testDmaFromDevice
  split_ifs with hfpga houtfile halloc
  · decide
  · decide
  · decide
  · refine absurd ⟨?_, fun hout => ?_, ?_⟩ h
    · exact Bool.eq_true_of_not_eq_false hfpga
    · exact Bool.eq_true_of_not_eq_false fun hno => houtfile ⟨hout, hno⟩
    · exact Bool.eq_true_of_not_eq_false halloc

theorem fromDevice_ready {eopFlush : Bool} (h : env.FromDeviceReady a) :
    testDmaFromDevice a eopFlush env =
      let (finished, s) := testDmaLoop .fromDevice a env.transfer a.count.toNat 0 { rc := 0 }
      (exitFromDevice eopFlush finished s, s.log) := by
  obtain ⟨hfpga, houtfile, halloc⟩ := h
  unfold testDmaFromDevice
  rw [if_neg (by simp [hfpga]), if_neg fun h => by simp [houtfile h.1] at h, if_neg (by simp [halloc])]

theorem fromDevice_zero_iff (a : ToolArgs) (env : ToolEnv) :
    ((testDmaFromDevice a false env).1 = 0 → AllRead a (testDmaFromDevice a false env).2) ↔
      ¬ FromDeviceSilent a env := by
  by_cases hready : env.FromDeviceReady a
  · rw [fromDevice_ready hready]
    refine (fromDevice_loop a.count.toNat (Nat.zero_add _) (fromDevice_start 0)).trans (not_congr ?_)
    rw [stopsFrom_zero]
    exact (and_iff_right hready).symm
  · exact iff_of_true (fun h => absurd h (fromDevice_not_ready hready)) fun h => hready h.1

end

/-- What zero says of both tools. -/
theorem testDma_zero_iff (a : ToolArgs) (env : ToolEnv) :
    (((testDmaToDevice a env).1 = 0 → AllMoved a (testDmaToDevice a env).2) ↔ ¬ ToDeviceSilent a env) ∧
      (((testDmaFromDevice a false env).1 = 0 → AllRead a (testDmaFromDevice a false env).2) ↔
        ¬ FromDeviceSilent a env) :=
  ⟨toDevice_zero_iff a env, fromDevice_zero_iff a env⟩

def emptyFile : IoCalls where
  lseek _ offset := offset
  read _ buf _ := if buf < 2 ^ 63 then 0 else eio
  write _ buf _ := if buf < 2 ^ 63 then 0 else eio

theorem emptyFile_bounded : Bounded emptyFile.read ∧ Bounded emptyFile.write := by
  have h : Bounded fun _ buf _ => if buf < 2 ^ 63 then 0 else eio := by
    intro k buf bytes hneg
    dsimp only at hneg ⊢
    split_ifs at hneg ⊢ with hbuf
    · exact ⟨Nat.zero_le _, hbuf⟩
    · exact absurd (by decide) hneg
  exact ⟨h, h⟩

def emptyFileEnv : ToolEnv where
  infile := emptyFile
  transfer _ :=
    { ioctl := fun _ => ⟨0, 0, 0⟩
      device := emptyFile
      out := emptyFile
      bounded := ⟨emptyFile_bounded.1, emptyFile_bounded.2, emptyFile_bounded.2⟩ }
  bounded := emptyFile_bounded.1

/-- `dma_to_device` returns zero for an empty input file, and nothing is written to the device. -/
theorem empty_input_succeeds : ¬ ∀ (a : ToolArgs) (env : ToolEnv),
    ((testDmaToDevice a env).1 = 0 → AllMoved a (testDmaToDevice a env).2) ∧
      ((testDmaFromDevice a false env).1 = 0 → AllRead a (testDmaFromDevice a false env).2) := by
  intro h
  have hmoved := (h { infname := true } emptyFileEnv).1
  rw [toDevice_zero_iff] at hmoved
  exact hmoved ⟨by decide, ⟨rfl, fun _ => rfl, fun _ => rfl, rfl⟩, .inl ⟨rfl, 0, by decide, by decide⟩⟩

end XdmaDriver
