import XdmaDriver.CaptureParsing

/-!
The LFSR errors of a capture, as counted over the parsed values by `verify_lfsr` and
`check_buffer_boundaries` and over the file by `write_skip_report`.
-/

namespace XdmaDriver

open Records

structure LfsrError where
  index : ℕ
  current : BitVec 32
  expected : BitVec 32
  got : BitVec 32
  deriving DecidableEq, Repr

structure LfsrCheck where
  errors : ℕ := 0
  printed : List LfsrError := []
  deriving DecidableEq, Repr

def maxPrint : ℕ := 20

def LfsrCheck.step (baseIndex : ℕ) (check : LfsrCheck) (i : ℕ) (current next : BitVec 32) : LfsrCheck :=
  let expected := lfsrNext current
  if next ≠ expected then
    { errors := check.errors + 1
      printed := if check.errors < maxPrint then check.printed ++ [⟨baseIndex + i, current, expected, next⟩]
        else check.printed }
  else check

def verifyLfsr (values : List (BitVec 32)) (baseIndex : ℕ) : LfsrCheck :=
  if values.length < 2 then {}
  else (List.range (values.length - 1)).foldl
    (fun check i => check.step baseIndex i (values.getD i 0) (values.getD (i + 1) 0)) {}

structure BoundaryCheck where
  boundaryErrors : ℕ := 0
  innerErrors : ℕ := 0
  deriving DecidableEq, Repr

/-- A round of `check_buffer_boundaries`; `none` is the exception of a modulo by zero. -/
def BoundaryCheck.step (samplesPerBuf : ℕ) (check : Option BoundaryCheck) (i : ℕ) (current next : BitVec 32) :
    Option BoundaryCheck :=
  check.bind fun check =>
    if next ≠ lfsrNext current then
      if samplesPerBuf = 0 then none
      else if (i + 1) % samplesPerBuf = 0 then some { check with boundaryErrors := check.boundaryErrors + 1 }
      else some { check with innerErrors := check.innerErrors + 1 }
    else some check

def checkBufferBoundaries (values : List (BitVec 32)) (bufSize : ℕ) : Option BoundaryCheck :=
  let samplesPerBuf := bufSize / wordSize
  (List.range (values.length - 1)).foldl
    (fun check i => BoundaryCheck.step samplesPerBuf check i (values.getD i 0) (values.getD (i + 1) 0))
      (some {})

abbrev LfsrBreak (current next : BitVec 32) : Prop := next ≠ lfsrNext current

theorem verifyLfsr_errors (values : List (BitVec 32)) (baseIndex : ℕ) :
    (verifyLfsr values baseIndex).errors = breaks LfsrBreak values := by
  have hwalk := walk_breaks LfsrBreak (LfsrCheck.step baseIndex)
    (fun check k => check.errors = k) (fun check i x y k h => ?_) values (s := {}) (i := 0) (k := 0) rfl
  · rw [Nat.zero_add, ← foldl_range _ 0] at hwalk
    unfold verifyLfsr
    split_ifs with hfew
    · -- one value has no next one
      have hrange : List.range (values.length - 1) = [] := by
        rw [List.range_eq_nil]
        omega
      rw [hrange] at hwalk
      exact hwalk
    · exact hwalk
  · subst h
    by_cases hbreak : y ≠ lfsrNext x
    · rw [if_pos hbreak, LfsrCheck.step, if_pos hbreak]
    · rw [if_neg hbreak, LfsrCheck.step, if_neg hbreak, Nat.add_zero]

theorem checkBufferBoundaries_errors (values : List (BitVec 32)) {bufSize : ℕ} (h : wordSize ≤ bufSize) :
    ∃ check, checkBufferBoundaries values bufSize = some check ∧
      check.boundaryErrors + check.innerErrors = breaks LfsrBreak values := by
  have hsamples : bufSize / wordSize ≠ 0 := by
    have := Nat.div_pos h (by decide)
    omega
  have hwalk := walk_breaks LfsrBreak (BoundaryCheck.step (bufSize / wordSize))
    (fun check k => ∃ c, check = some c ∧ c.boundaryErrors + c.innerErrors = k)
      (fun check i x y k h => ?_) values
    (s := some {}) (i := 0) (k := 0) ⟨{}, rfl, rfl⟩
  · rw [Nat.zero_add, ← foldl_range _ 0] at hwalk
    exact hwalk
  · obtain ⟨c, rfl, rfl⟩ := h
    rw [BoundaryCheck.step, Option.bind_some]
    by_cases hbreak : y ≠ lfsrNext x
    · rw [if_pos hbreak, if_pos hbreak, if_neg hsamples]
      split_ifs
      · exact ⟨_, rfl, Nat.add_right_comm ..⟩
      · exact ⟨_, rfl, rfl⟩
    · rw [if_neg hbreak, if_neg hbreak]
      exact ⟨c, rfl, rfl⟩

namespace SkipReport

theorem transition_lfsrErrorCount (previous current : Sample) (report : SkipReport) :
    (report.transition previous current).lfsrErrorCount =
      report.lfsrErrorCount + if LfsrBreak previous.lfsr current.lfsr then 1 else 0 := by
  unfold transition LfsrBreak
  dsimp only
  by_cases hlfsr : current.lfsr ≠ lfsrNext previous.lfsr
  · simp [hlfsr]
  · simp only [hlfsr, or_false, ↓reduceIte, Nat.add_zero]
    split_ifs <;> rfl

theorem loop_lfsrErrorCount {last : List (List (BitVec 8))} (hlast : ∀ r ∈ last, r.length ≠ wordSize)
    {chunks : List (List (BitVec 8))} (hlen : ∀ r ∈ chunks, r.length = wordSize) :
    ∀ (previous : Sample) (report : SkipReport), (loop (chunks ++ last) previous report).lfsrErrorCount =
      report.lfsrErrorCount + breaks LfsrBreak (previous.lfsr :: chunks.map fun r =>
      (decodeSample r).lfsr) := by
  induction chunks with
  | nil =>
    intro previous report
    cases last with
    | nil => rfl
    | cons r last =>
      rw [List.nil_append, loop, if_pos (hlast r List.mem_cons_self)]
      rfl
  | cons chunk chunks ih =>
    intro previous report
    have hchunk : chunk.length = wordSize := hlen chunk List.mem_cons_self
    have hrest := ih (fun r hr => hlen r (List.mem_cons_of_mem _ hr)) (decodeSample chunk)
      (report.transition previous (decodeSample chunk))
    rw [List.cons_append, loop, if_neg (not_not.mpr hchunk)]
    refine hrest.trans ?_
    rw [transition_lfsrErrorCount, List.map_cons, breaks, Nat.add_assoc]

end SkipReport

theorem writeSkipReport_lfsrErrorCount (bytes : List (BitVec 8)) : (writeSkipReport bytes).lfsrErrorCount =
    breaks LfsrBreak ((records wordSize bytes).map fun r => (decodeSample r).lfsr) := by
  have hrest : (remainder wordSize bytes).length < wordSize := by
    rw [length_remainder]
    exact Nat.mod_lt _ (by decide)
  have hlast : ∀ r ∈ (if remainder wordSize bytes = [] then [] else [remainder wordSize bytes]),
      r.length ≠ wordSize := by
    intro r hr
    split_ifs at hr
    · cases hr
    · rw [List.mem_singleton.mp hr]
      exact hrest.ne
  have hlen : ∀ r ∈ records wordSize bytes, r.length = wordSize := fun r => length_of_mem_records
  rw [writeSkipReport, reads_records]
  generalize (if remainder wordSize bytes = [] then [] else [remainder wordSize bytes]) = last at *
  cases hrecords : records wordSize bytes with
  | nil =>
    cases last with
    | nil => rfl
    | cons r last =>
      dsimp only [List.nil_append]
      rw [if_pos (hlast r List.mem_cons_self)]
      rfl
  | cons chunk chunks =>
    rw [hrecords] at hlen
    have hloop := SkipReport.loop_lfsrErrorCount hlast (fun r hr => hlen r (List.mem_cons_of_mem _ hr))
      (decodeSample chunk) { sampleCount := 1 }
    dsimp only [List.cons_append]
    rw [if_neg (not_not.mpr (hlen chunk List.mem_cons_self)), hloop, Nat.zero_add, List.map_cons]

/-- The analyses of one capture agree, whatever its length and whatever is in it. -/
theorem lfsr_errors_agree (bytes : List (BitVec 8)) {bufSize : ℕ} (hpos : 0 < bufSize)
    (hdvd : wordSize ∣ bufSize) :
    (parseBytes bytes).lists.lfsr.length = bytes.length / wordSize ∧
      (verifyLfsr (parseBytes bytes).lists.lfsr 0).errors = (writeSkipReport bytes).lfsrErrorCount ∧
      ∃ check, checkBufferBoundaries (parseBytes bytes).lists.lfsr bufSize = some check ∧
        check.boundaryErrors + check.innerErrors = (writeSkipReport bytes).lfsrErrorCount := by
  have hlfsr : (parseBytes bytes).lists.lfsr = (records wordSize bytes).map fun r =>
    (decodeSample r).lfsr := by
    rw [parseBytes_lists, SampleLists.ofSamples, List.map_map]
    rfl
  rw [writeSkipReport_lfsrErrorCount, hlfsr]
  refine ⟨?_, verifyLfsr_errors _ 0, checkBufferBoundaries_errors _ (Nat.le_of_dvd hpos hdvd)⟩
  rw [List.length_map, length_records]

theorem lfsr_errors_agree_page :
    (parseBytes (record 1 0 ++ record 7 2 ++ [0xff])).lists.lfsr.length = 2 ∧
      (verifyLfsr (parseBytes (record 1 0 ++ record 7 2 ++ [0xff])).lists.lfsr 0).errors = 1 := by
  obtain ⟨hlen, herrors, -⟩ := @lfsr_errors_agree (record 1 0 ++ record 7 2 ++ [0xff]) 4096 (by decide)
    (by decide)
  refine ⟨hlen.trans (by decide), herrors.trans (by decide)⟩

end XdmaDriver
