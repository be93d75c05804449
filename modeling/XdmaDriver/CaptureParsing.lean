import XdmaDriver.SkipReport
import XdmaDriver.Lib.Records

/-!
The two parsers of a capture: `parse_bytes`, and `hexdump_file` of `plotsincos.py`.
-/

namespace XdmaDriver

open Records

structure SampleLists where
  lfsr : List (BitVec 32) := []
  sin : List ℤ := []
  cos : List ℤ := []
  counter : List (BitVec 16) := []
  deriving DecidableEq, Repr

namespace SampleLists

def append (lists : SampleLists) (s : Sample) : SampleLists where
  lfsr := lists.lfsr ++ [s.lfsr]
  sin := lists.sin ++ [s.sin]
  cos := lists.cos ++ [s.cos]
  counter := lists.counter ++ [s.counter]

def ofSamples (samples : List Sample) : SampleLists where
  lfsr := samples.map Sample.lfsr
  sin := samples.map Sample.sin
  cos := samples.map Sample.cos
  counter := samples.map Sample.counter

theorem ofSamples_concat (samples : List Sample) (s : Sample) :
    (ofSamples samples).append s = ofSamples (samples ++ [s]) := by
  simp [ofSamples, append]

theorem foldl_append (samples more : List Sample) :
    more.foldl append (ofSamples samples) = ofSamples (samples ++ more) := by
  induction more generalizing samples with
  | nil => rw [List.foldl_nil, List.append_nil]
  | cons s more ih => rw [List.foldl_cons, ofSamples_concat, ih, List.append_assoc, List.singleton_append]

theorem ofSamples_injective {samples more : List Sample} (h : ofSamples samples = ofSamples more) :
    samples.length = more.length := by
  have hlen := congrArg (fun lists : SampleLists => lists.lfsr.length) h
  simpa [ofSamples] using hlen

end SampleLists

structure ParsedBytes where
  lists : SampleLists
  incomplete : Option (ℕ × ℕ)
  deriving DecidableEq, Repr

def parseBytes (data : List (BitVec 8)) : ParsedBytes :=
  let usableLen := data.length - data.length % wordSize
  { lists := (List.range' 0 (usableLen / wordSize) wordSize).foldl
      (fun lists offset => lists.append (decodeSample ((data.drop offset).take wordSize))) {}
    incomplete := if usableLen ≠ data.length then some (usableLen, data.length - usableLen) else none }

/-- `struct.unpack` of a bytes object that is not as long as its format. -/
inductive StructError
  | length
  deriving DecidableEq, Repr

def structUnpackU32 (bytes : List (BitVec 8)) : Except StructError (BitVec 32) :=
  if bytes.length = 4 then .ok (unpackU32 bytes 0) else .error .length

def structUnpackU16 (bytes : List (BitVec 8)) : Except StructError (BitVec 16) :=
  if bytes.length = 2 then .ok (unpackU16 bytes 0) else .error .length

def slice (chunk : List (BitVec 8)) (i j : ℕ) : List (BitVec 8) := (chunk.drop i).take (j - i)

namespace Hexdump

def record (chunk : List (BitVec 8)) : Except StructError Sample := do
  let sin ← structUnpackU32 (slice chunk 16 20)
  let cos ← structUnpackU32 (slice chunk 20 24)
  let counter ← structUnpackU16 (slice chunk 14 16)
  let lfsr ← structUnpackU32 (slice chunk 0 4)
  return { lfsr := lfsr, counter := counter, sin := u32ToSigned sin, cos := u32ToSigned cos }

def loop : List (List (BitVec 8)) → SampleLists → Except StructError SampleLists
  | [], lists => .ok lists
  | chunk :: chunks, lists =>
    if chunk.length < 8 then .ok lists
    else do
      let s ← record chunk
      loop chunks (lists.append s)

end Hexdump

/-- `hexdump_file` on a file with these bytes, for the default of `bytes_per_line`. -/
def hexdumpFile (bytes : List (BitVec 8)) : Except StructError SampleLists := Hexdump.loop (reads bytes) {}

theorem reads_records (bytes : List (BitVec 8)) : reads bytes =
    records wordSize bytes ++ if remainder wordSize bytes = [] then [] else [remainder wordSize bytes] := by
  have hrest : (remainder wordSize bytes).length < wordSize := by
    rw [length_remainder]
    exact Nat.mod_lt _ (by decide)
  have hreads := reads_flatten (fun r => @length_of_mem_records _ wordSize bytes r) hrest
  rwa [records_append_remainder] at hreads

theorem parseBytes_lists (data : List (BitVec 8)) :
    (parseBytes data).lists = SampleLists.ofSamples ((records wordSize data).map decodeSample) := by
  have husable : (data.length - data.length % wordSize) / wordSize = data.length / wordSize := by
    simp only [wordSize]
    omega
  have hfold := SampleLists.foldl_append [] ((records wordSize data).map decodeSample)
  rw [List.nil_append] at hfold
  rw [← hfold, parseBytes, husable, records, List.map_map, List.foldl_map]
  rfl

theorem slice_getD {chunk : List (BitVec 8)} (i : ℕ) {j k : ℕ} (hk : i + k < j) :
    (slice chunk i j).getD k 0 = chunk.getD (i + k) 0 := by
  have hlt : k < j - i := by omega
  simp [slice, List.getD_eq_getElem?_getD, hlt]

theorem length_slice (chunk : List (BitVec 8)) (i j : ℕ) :
    (slice chunk i j).length = min (j - i) (chunk.length - i) := by
  rw [slice, List.length_take, List.length_drop]

theorem structUnpackU32_slice {chunk : List (BitVec 8)} (i : ℕ) (h : i + 4 ≤ chunk.length) :
    structUnpackU32 (slice chunk i (i + 4)) = .ok (unpackU32 chunk i) := by
  have hlen : (slice chunk i (i + 4)).length = 4 := by
    rw [length_slice]
    omega
  rw [structUnpackU32, if_pos hlen, unpackU32, slice_getD i (by omega), slice_getD i (by omega),
    slice_getD i (by omega), slice_getD i (by omega)]
  rfl

theorem structUnpackU16_slice {chunk : List (BitVec 8)} (i : ℕ) (h : i + 2 ≤ chunk.length) :
    structUnpackU16 (slice chunk i (i + 2)) = .ok (unpackU16 chunk i) := by
  have hlen : (slice chunk i (i + 2)).length = 2 := by
    rw [length_slice]
    omega
  rw [structUnpackU16, if_pos hlen, unpackU16, slice_getD i (by omega), slice_getD i (by omega)]
  rfl

namespace Hexdump

theorem record_eq {chunk : List (BitVec 8)} (h : 24 ≤ chunk.length) :
    record chunk = .ok (decodeSample chunk) := by
  have hsin := @structUnpackU32_slice chunk 16 (by omega)
  have hcos := @structUnpackU32_slice chunk 20 (by omega)
  have hcounter := @structUnpackU16_slice chunk 14 (by omega)
  have hlfsr := @structUnpackU32_slice chunk 0 (by omega)
  rw [record, hsin, hcos, hcounter, hlfsr]
  rfl

theorem record_short {chunk : List (BitVec 8)} (h : chunk.length < 24) : record chunk = .error .length := by
  by_cases hsin : chunk.length < 20
  · have hlen : (slice chunk 16 20).length ≠ 4 := by
      rw [length_slice]
      omega
    rw [record, structUnpackU32, if_neg hlen]
    rfl
  · have hsin' := @structUnpackU32_slice chunk 16 (by omega)
    have hlen : (slice chunk 20 24).length ≠ 4 := by
      rw [length_slice]
      omega
    rw [record, hsin', structUnpackU32, if_neg hlen]
    rfl

theorem loop_records {chunks : List (List (BitVec 8))} (hlen : ∀ r ∈ chunks, r.length = wordSize)
    (last : List (List (BitVec 8))) : ∀ samples : List Sample,
    loop (chunks ++ last) (SampleLists.ofSamples samples) =
      loop last (SampleLists.ofSamples (samples ++ chunks.map decodeSample)) := by
  induction chunks with
  | nil =>
    intro samples
    rw [List.map_nil, List.append_nil, List.nil_append]
  | cons chunk chunks ih =>
    intro samples
    have hchunk : chunk.length = 32 := hlen chunk List.mem_cons_self
    have hrest := ih (fun r hr => hlen r (List.mem_cons_of_mem _ hr)) (samples ++ [decodeSample chunk])
    rw [List.cons_append, loop, if_neg (by omega), record_eq (by omega)]
    change loop (chunks ++ last) ((SampleLists.ofSamples samples).append (decodeSample chunk)) = _
    rw [SampleLists.ofSamples_concat, hrest, List.map_cons, List.append_assoc, List.singleton_append]

end Hexdump

/-- The parsers agree exactly on the lengths at which `hexdump_file` drops the incomplete
record: from 8 bytes on it reads the fields of one, and from 24 on it finds them all. -/
theorem hexdumpFile_agrees_iff (bytes : List (BitVec 8)) :
    hexdumpFile bytes = .ok (parseBytes bytes).lists ↔ bytes.length % 32 < 8 := by
  have hlen : (remainder wordSize bytes).length = bytes.length % 32 := length_remainder wordSize bytes
  have hloop := Hexdump.loop_records (fun r => @length_of_mem_records _ wordSize bytes r)
    (if remainder wordSize bytes = [] then [] else [remainder wordSize bytes]) []
  rw [hexdumpFile, reads_records, parseBytes_lists]
  refine Iff.trans (Eq.congr_left hloop) ?_
  rw [List.nil_append]
  generalize remainder wordSize bytes = rest at *
  generalize (records wordSize bytes).map decodeSample = samples
  split_ifs with hnil
  · subst hnil
    refine iff_of_true rfl ?_
    rw [← hlen]
    decide
  · rw [Hexdump.loop]
    split_ifs with hshort
    · exact iff_of_true rfl (by omega)
    · refine iff_of_false ?_ (by omega)
      by_cases hfields : rest.length < 24
      · rw [Hexdump.record_short hfields]
        intro h
        cases h
      · rw [Hexdump.record_eq (by omega)]
        intro h
        have heq := SampleLists.ofSamples_injective
          ((SampleLists.ofSamples_concat samples _).symm.trans (Except.ok.inj h))
        rw [List.length_append, List.length_singleton] at heq
        omega

/-- A record and a quarter. -/
theorem hexdumpFile_disagrees : ¬ ∀ bytes : List (BitVec 8), hexdumpFile bytes =
    .ok (parseBytes bytes).lists := by
  intro h
  exact absurd (h (List.replicate 40 0)) (by decide)

end XdmaDriver
