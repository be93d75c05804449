import XdmaDriver.Types
import XdmaDriver.Lib.Spans

/-!
The chunked reads and writes of the tools: `read_to_buffer` and `write_from_buffer`.
-/

namespace XdmaDriver

open Spans

def rwMaxSize : U64 := 0x7ffff000

def eio : U64 := BitVec.ofInt 64 (err .io)

/-- An open descriptor. A read or write moves the position of a file, not that of a device. -/
structure Fd where
  pos : U64 := 0
  moves : Bool
  deriving DecidableEq, Repr

/-- What one call moved: from where on, to or from which offset in the buffer. -/
structure Piece where
  pos : U64
  buf : ℕ
  bytes : U64
  deriving DecidableEq, Repr

def transferred (ps : List Piece) : List (U64 × ℕ) := ps.flatMap fun p => pairs p.pos p.buf p.bytes.toNat

def moved (ps : List Piece) : ℕ := (ps.map fun p => p.bytes.toNat).sum

/-- The results of the system calls, by round of the loop. A `read` or `write` gets the offset in
the buffer and the number of bytes. -/
structure IoCalls where
  lseek : ℕ → U64 → U64
  read : ℕ → ℕ → U64 → U64
  write : ℕ → ℕ → U64 → U64

structure IoResult where
  rc : U64
  pos : U64
  pieces : List Piece
  deriving DecidableEq, Repr

structure IoLoop where
  count : U64 := 0
  buf : ℕ := 0
  offset : U64
  pos : U64
  pieces : List Piece := []

namespace IoLoop

def result (s : IoLoop) (rc : U64) : IoResult := ⟨rc, s.pos, s.pieces⟩

/-- Where the next call starts. There is no seek to offset zero. -/
def place (s : IoLoop) : U64 := if s.offset ≠ 0 then s.offset else s.pos

def took (s : IoLoop) (moves : Bool) (rc : U64) : IoLoop :=
  { s with
    count := s.count + rc
    pos := if moves then s.place + rc else s.place
    pieces := s.pieces ++ [⟨s.place, s.buf, rc⟩] }

def ahead (s : IoLoop) (bytes : U64) : IoLoop := { s with buf := s.buf + bytes.toNat, offset := s.offset + bytes }

end IoLoop

inductive IoRound
  | leave (r : IoResult)
  | again (s : IoLoop)

def chunk (rest : U64) : U64 := if rwMaxSize < rest then rwMaxSize else rest

section

variable (lseek : ℕ → U64 → U64) (rw : ℕ → ℕ → U64 → U64) (moves : Bool) (size : U64)

def ioRound (k : ℕ) (s : IoLoop) : IoRound :=
  let bytes := chunk (size - s.count)
  let rc := rw k s.buf bytes
  if s.offset ≠ 0 ∧ lseek k s.offset ≠ s.offset then .leave (s.result eio)
  else if rc.slt 0 then .leave (IoLoop.result { s with pos := s.place } eio)
  else if rc ≠ bytes then .leave ((s.took moves rc).result (s.count + rc))
  else .again ((s.took moves rc).ahead bytes)

/-- The loop, for at most the given number of rounds, from round `k` on. -/
def bufferLoop : ℕ → ℕ → IoLoop → IoResult
  | 0, _, s => s.result s.count
  | n + 1, k, s =>
    if s.count < size then
      match ioRound lseek rw moves size k s with
      | .leave r => r
      | .again s' => bufferLoop n (k + 1) s'
    else s.result s.count

end

def rounds (size : U64) : ℕ := (size.toNat + (rwMaxSize.toNat - 1)) / rwMaxSize.toNat

def readToBuffer (sys : IoCalls) (fd : Fd) (size base : U64) : IoResult :=
  bufferLoop sys.lseek sys.read fd.moves size (rounds size) 0 { offset := base, pos := fd.pos }

def writeFromBuffer (sys : IoCalls) (fd : Fd) (size base : U64) : IoResult :=
  bufferLoop sys.lseek sys.write fd.moves size (rounds size) 0 { offset := base, pos := fd.pos }

theorem toNat_chunk (rest : U64) : (chunk rest).toNat = min rest.toNat rwMaxSize.toNat := by
  rw [chunk]
  split_ifs with h
  · exact (min_eq_right (Nat.le_of_lt h)).symm
  · exact (min_eq_left (Nat.le_of_not_lt h)).symm

theorem chunk_nonneg (rest : U64) : ¬ (chunk rest).slt 0 := by
  have hle : (chunk rest).toNat ≤ 0x7ffff000 := by
    rw [toNat_chunk]
    exact min_le_right _ _
  rw [BitVec.slt_iff_toInt_lt, BitVec.toInt_eq_toNat_of_lt (by omega)]
  exact Int.not_lt.mpr (Int.natCast_nonneg _)

section

variable {lseek : ℕ → U64 → U64} {rw : ℕ → ℕ → U64 → U64} {moves : Bool} {size : U64} {n k : ℕ} {s : IoLoop}

theorem bufferLoop_done (h : size.toNat ≤ s.count.toNat) :
    bufferLoop lseek rw moves size n k s = s.result s.count := by
  cases n with
  | zero => rfl
  | succ n => exact if_neg (Nat.not_lt.mpr h)

theorem ioRound_again {s' : IoLoop} (h : ioRound lseek rw moves size k s = .again s') :
    s' = (s.took moves (chunk (size - s.count))).ahead (chunk (size - s.count)) := by
  unfold ioRound at h
  dsimp only at h
  split_ifs at h with hseek hneg hshort
  rw [not_not.mp hshort] at h
  exact (IoRound.again.inj h).symm

theorem toNat_next (h : s.count < size) : (s.count + chunk (size - s.count)).toNat =
    s.count.toNat + min (size.toNat - s.count.toNat) rwMaxSize.toNat := by
  have hlt := BitVec.lt_def.mp h
  have hsize := size.isLt
  rw [BitVec.toNat_add, toNat_chunk, BitVec.toNat_sub_of_le (BitVec.le_of_lt h)]
  apply Nat.mod_eq_of_lt
  omega

theorem bufferLoop_enough (n : ℕ) : ∀ {k : ℕ} {s : IoLoop}, size.toNat - s.count.toNat ≤ n * rwMaxSize.toNat →
    bufferLoop lseek rw moves size (n + 1) k s = bufferLoop lseek rw moves size n k s := by
  induction n with
  | zero =>
    intro k s hle
    rw [bufferLoop_done (by omega), bufferLoop_done (by omega)]
  | succ n ih =>
    intro k s hle
    by_cases hlt : s.count < size
    · rw [bufferLoop, if_pos hlt]
      conv_rhs => rw [bufferLoop, if_pos hlt]
      cases hround : ioRound lseek rw moves size k s with
      | leave r => rfl
      | again s' =>
        apply ih
        rw [ioRound_again hround]
        change size.toNat - (s.count + chunk (size - s.count)).toNat ≤ _
        rw [toNat_next hlt]
        rw [Nat.succ_mul] at hle
        omega
    · have hle := Nat.le_of_not_lt hlt
      rw [bufferLoop_done hle, bufferLoop_done hle]

end

def fullCalls : IoCalls where
  lseek _ offset := offset
  read _ _ bytes := bytes
  write _ _ bytes := bytes

/-- A chunk other than the first starts where the addresses wrap. -/
def ChunkAtWrap (offset : U64) (rest : ℕ) : Prop :=
  2 ^ 64 - offset.toNat < rest ∧ rwMaxSize.toNat ∣ 2 ^ 64 - offset.toNat

instance (offset : U64) (rest : ℕ) : Decidable (ChunkAtWrap offset rest) :=
    inferInstanceAs (Decidable (_ ∧ _))

theorem not_chunkAtWrap {offset : U64} {rest : ℕ} (h : rest ≤ rwMaxSize.toNat) :
    ¬ ChunkAtWrap offset rest := by
  rintro ⟨hlt, hdvd⟩
  have := Nat.le_of_dvd (Nat.sub_pos_of_lt offset.isLt) hdvd
  omega

theorem chunkAtWrap_next {offset : U64} {rest : ℕ} (hrest : rest < 2 ^ 64) (h : rwMaxSize.toNat < rest) :
    ChunkAtWrap offset rest ↔ offset + rwMaxSize = 0 ∨ ChunkAtWrap (offset + rwMaxSize)
    (rest - rwMaxSize.toNat) := by
  have hlt := offset.isLt
  have hmax : rwMaxSize.toNat = 0x7ffff000 := rfl
  have hzero : offset + rwMaxSize = 0 ↔ (offset.toNat + 0x7ffff000) % 2 ^ 64 = 0 := by
    rw [← BitVec.toNat_inj, BitVec.toNat_add]
    rfl
  rw [hzero]
  unfold ChunkAtWrap
  rw [BitVec.toNat_add, hmax] at *
  generalize offset.toNat = o at *
  rcases lt_trichotomy (o + 0x7ffff000) (2 ^ 64) with hin | hend | hout
  · rw [Nat.mod_eq_of_lt hin, ← Nat.sub_sub, Nat.dvd_sub_self_right]
    omega
  · rw [hend, Nat.mod_self]
    have hwhole : 2 ^ 64 - o = 0x7ffff000 := by omega
    rw [hwhole]
    exact iff_of_true ⟨h, dvd_refl _⟩ (.inl rfl)
  · have hmod : (o + 0x7ffff000) % 2 ^ 64 = o + 0x7ffff000 - 2 ^ 64 := by omega
    rw [hmod]
    refine iff_of_false ?_ ?_
    · rintro ⟨-, hdvd⟩
      have := Nat.le_of_dvd (by omega) hdvd
      omega
    · omega

section

variable {moves : Bool} {size : U64}

/-- What is left goes to its place if a seek or the position brings the next call there, and the
position of a device is not left behind at the wrap. -/
def IoLoop.Placed (moves : Bool) (s : IoLoop) (rest : ℕ) : Prop :=
  rest = 0 ∨ (s.offset ≠ 0 ∨ s.pos = 0) ∧ (moves ∨ ¬ ChunkAtWrap s.offset rest)

theorem place_eq_iff (s : IoLoop) : s.place = s.offset ↔ s.offset ≠ 0 ∨ s.pos = 0 := by
  unfold IoLoop.place
  split_ifs with h
  · exact iff_of_true rfl (.inl h)
  · rw [or_iff_right h, not_not.mp h]

theorem placed_next {s : IoLoop} {bytes : U64} {rest : ℕ} (hrest : rest < 2 ^ 64) (hpos : rest ≠ 0)
    (hbytes : bytes.toNat = min rest rwMaxSize.toNat) : s.Placed moves rest ↔
      s.place = s.offset ∧ ((s.took moves bytes).ahead bytes).Placed moves (rest - bytes.toNat) := by
  rw [place_eq_iff, IoLoop.Placed, or_iff_right hpos]
  refine and_congr_right fun hplace => ?_
  have hat := (place_eq_iff s).mpr hplace
  change _ ↔ rest - bytes.toNat = 0 ∨ (s.offset + bytes ≠ 0 ∨ (if moves then s.place + bytes else s.place) = 0) ∧
    (moves = true ∨ ¬ ChunkAtWrap (s.offset + bytes) (rest - bytes.toNat))
  rw [hat]
  cases moves with
  | true =>
    simp only [true_or, if_true, and_true, true_iff]
    exact .inr (ne_or_eq _ _)
  | false =>
    simp only [Bool.false_eq_true, false_or, if_false]
    by_cases hle : rest ≤ rwMaxSize.toNat
    · refine iff_of_true (not_chunkAtWrap hle) (.inl ?_)
      omega
    · have hmax : bytes = rwMaxSize := by
        rw [← BitVec.toNat_inj]
        omega
      have hmore : ¬ rest - rwMaxSize.toNat = 0 := by omega
      have hzero : s.offset + rwMaxSize = 0 → s.offset ≠ 0 := by
        intro hsum h0
        rw [h0] at hsum
        exact absurd hsum (by decide)
      rw [hmax, chunkAtWrap_next hrest (by omega), or_iff_right hmore, not_or]
      exact and_congr_left fun _ => ⟨.inl, fun h hsum => h.elim (fun hne => hne hsum) (hzero hsum)⟩

theorem ioRound_full (k : ℕ) (s : IoLoop) : ioRound fullCalls.lseek fullCalls.read moves size k s =
    .again ((s.took moves (chunk (size - s.count))).ahead (chunk (size - s.count))) := by
  have hseek : ¬ (s.offset ≠ 0 ∧ fullCalls.lseek k s.offset ≠ s.offset) := fun h => h.2 rfl
  have hall : ¬ fullCalls.read k s.buf (chunk (size - s.count)) ≠ chunk (size - s.count) := fun h => h rfl
  unfold ioRound
  dsimp only
  rw [if_neg hseek, if_neg hall]
  exact if_neg (chunk_nonneg _)

theorem transferred_cons (p : Piece) (ps : List Piece) :
    transferred (p :: ps) = pairs p.pos p.buf p.bytes.toNat ++ transferred ps := rfl

theorem transferred_cons_iff {x offset bytes : U64} {buf rest : ℕ} {ps : List Piece}
    (hle : bytes.toNat ≤ rest)
    (hpos : bytes.toNat ≠ 0) : transferred (⟨x, buf, bytes⟩ :: ps) = pairs offset buf rest ↔
      x = offset ∧ transferred ps = pairs (offset + bytes) (buf + bytes.toNat) (rest - bytes.toNat) := by
  obtain ⟨r, rfl⟩ := Nat.exists_eq_add_of_le hle
  rw [transferred_cons, pairs_add, Nat.add_sub_cancel_left]
  have hcast : ((bytes.toNat : ℕ) : U64) = bytes := by
    rw [BitVec.natCast_eq_ofNat, BitVec.ofNat_toNat, BitVec.setWidth_eq]
  rw [hcast, Nat.cast_id]
  constructor
  · intro h
    obtain ⟨hfirst, hrest⟩ := List.append_inj h (by rw [length_pairs, length_pairs])
    exact ⟨(pairs_left_inj hpos).mp hfirst, hrest⟩
  · rintro ⟨rfl, hrest⟩
    rw [hrest]

theorem bufferLoop_full (n : ℕ) : ∀ {k : ℕ} {s : IoLoop}, s.count ≤ size →
    size.toNat - s.count.toNat ≤ n * rwMaxSize.toNat →
    ∃ ps, (bufferLoop fullCalls.lseek fullCalls.read moves size n k s).rc = size ∧
      (bufferLoop fullCalls.lseek fullCalls.read moves size n k s).pieces = s.pieces ++ ps ∧
      (transferred ps = pairs s.offset s.buf (size.toNat - s.count.toNat) ↔
        s.Placed moves (size.toNat - s.count.toNat)) := by
  have hend : ∀ {n k : ℕ} {s : IoLoop}, s.count ≤ size → size.toNat ≤ s.count.toNat →
      ∃ ps, (bufferLoop fullCalls.lseek fullCalls.read moves size n k s).rc = size ∧
        (bufferLoop fullCalls.lseek fullCalls.read moves size n k s).pieces = s.pieces ++ ps ∧
        (transferred ps = pairs s.offset s.buf (size.toNat - s.count.toNat) ↔
          s.Placed moves (size.toNat - s.count.toNat)) := by
    intro n k s hcount hle
    have heq : s.count = size := BitVec.le_antisymm hcount hle
    rw [bufferLoop_done hle, Nat.sub_eq_zero_of_le hle]
    exact ⟨[], heq, (List.append_nil _).symm, iff_of_true rfl (.inl rfl)⟩
  induction n with
  | zero =>
    intro k s hcount hle
    exact hend hcount (by omega)
  | succ n ih =>
    intro k s hcount hle
    by_cases hlt : s.count < size
    · have hnext := toNat_next hlt
      have hbytes := toNat_chunk (size - s.count)
      rw [BitVec.toNat_sub_of_le hcount] at hbytes
      rw [bufferLoop, if_pos hlt, ioRound_full]
      have hless := BitVec.lt_def.mp hlt
      have hsize := size.isLt
      generalize chunk (size - s.count) = bytes at *
      have hmax : rwMaxSize.toNat = 0x7ffff000 := rfl
      have hcount' : s.count + bytes ≤ size := by
        rw [BitVec.le_def, hnext]
        omega
      obtain ⟨ps, hrc, hpieces, hplaced⟩ := @ih (k + 1) ((s.took moves bytes).ahead bytes) hcount' (by
        change size.toNat - (s.count + bytes).toNat ≤ _
        rw [Nat.succ_mul] at hle
        omega)
      refine ⟨⟨s.place, s.buf, bytes⟩ :: ps, hrc, ?_, ?_⟩
      · rw [List.append_cons]
        exact hpieces
      · have hrest : size.toNat - (s.count + bytes).toNat = size.toNat - s.count.toNat - bytes.toNat := by omega
        rw [transferred_cons_iff (by omega) (by omega), placed_next (by omega) (by omega) hbytes, ← hrest]
        exact and_congr_right fun _ => hplaced
    · exact hend hcount (Nat.le_of_not_lt hlt)

theorem le_rounds (size : U64) : size.toNat ≤ rounds size * rwMaxSize.toNat := by
  have hmax : rwMaxSize.toNat = 0x7ffff000 := rfl
  rw [rounds, hmax]
  omega

end

def IoResult.Hits (r : IoResult) (size base : U64) : Prop :=
  r.rc = size ∧ transferred r.pieces = pairs base 0 size.toNat

/-- The first chunk is sought, or starts at zero with the position there; no later chunk of a
device starts at the wrap of the addresses. -/
def Fd.Reaches (fd : Fd) (size base : U64) : Prop :=
  size = 0 ∨ (base ≠ 0 ∨ fd.pos = 0) ∧ (fd.moves ∨ ¬ ChunkAtWrap base size.toNat)

instance (fd : Fd) (size base : U64) : Decidable (fd.Reaches size base) :=
    inferInstanceAs (Decidable (_ ∨ _ ∧ _))

theorem readToBuffer_hits_iff (fd : Fd) (size base : U64) :
    (readToBuffer fullCalls fd size base).Hits size base ↔ fd.Reaches size base := by
  obtain ⟨ps, hrc, hpieces, hplaced⟩ := @bufferLoop_full fd.moves size (rounds size) 0
    { offset := base, pos := fd.pos } (Nat.zero_le _) (le_rounds size)
  have hps : (readToBuffer fullCalls fd size base).pieces = ps := hpieces
  have hzero : size = 0 ↔ size.toNat - (0 : U64).toNat = 0 := by
    rw [← BitVec.toNat_inj]
    rfl
  rw [Fd.Reaches, hzero, IoResult.Hits, hps]
  exact (and_iff_right hrc).trans hplaced

theorem writeFromBuffer_hits_iff (fd : Fd) (size base : U64) :
    (writeFromBuffer fullCalls fd size base).Hits size base ↔ fd.Reaches size base := readToBuffer_hits_iff fd size base

/-- With system calls that transfer all that is asked, a range is hit exactly if it is reached. -/
theorem fullCalls_hits_iff (fd : Fd) (size base : U64) :
    ((readToBuffer fullCalls fd size base).Hits size base ↔ fd.Reaches size base) ∧
      ((writeFromBuffer fullCalls fd size base).Hits size base ↔ fd.Reaches size base) :=
  ⟨readToBuffer_hits_iff fd size base, writeFromBuffer_hits_iff fd size base⟩

def usedFd : Fd := ⟨(writeFromBuffer fullCalls { moves := false } 0x7ffff001 0).pos, false⟩

/-- The same range is written once more. -/
theorem repeated_base_missed : ¬ ∀ (fd : Fd) (size base : U64), (readToBuffer fullCalls fd size base).Hits size base ∧
    (writeFromBuffer fullCalls fd size base).Hits size base := by
  intro h
  have hwrite := (h usedFd 0x7ffff001 0).2
  rw [writeFromBuffer_hits_iff] at hwrite
  exact absurd hwrite (by decide)

end XdmaDriver
