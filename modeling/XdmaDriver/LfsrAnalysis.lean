import XdmaDriver.Lib.XorMap
import Mathlib.Tactic.Ring

/-!
The shift register of the captured stream, and `write_skip_report`, which looks for lost
samples in a capture of it.
-/

namespace XdmaDriver

open Function XorMap

def wordSize : ℕ := 32

def lfsrOffset : ℕ := 0

def counterOffset : ℕ := 14

def sinOffset : ℕ := 16

def cosOffset : ℕ := 20

def tapPositions : List ℕ := [32, 31, 29, 28, 27, 26, 25, 24, 1]

def lfsrReportSearchSteps : ℕ := 64

def u32ToSigned (value : BitVec 32) : ℤ :=
  if value.toNat = 2 ^ 30 then value.toNat
  else if 2 ^ 30 < value.toNat then value.toNat - 2 ^ 32
  else value.toNat

def unpackU32 (chunk : List (BitVec 8)) (offset : ℕ) : BitVec 32 :=
  chunk.getD (offset + 3) 0 ++ chunk.getD (offset + 2) 0 ++ chunk.getD (offset + 1) 0 ++ chunk.getD offset 0

def unpackU16 (chunk : List (BitVec 8)) (offset : ℕ) : BitVec 16 :=
  chunk.getD (offset + 1) 0 ++ chunk.getD offset 0

structure Sample where
  lfsr : BitVec 32
  counter : BitVec 16
  sin : ℤ
  cos : ℤ
  deriving DecidableEq, Repr

/-- `decode_sample`, for a chunk of `WORD_SIZE` bytes. -/
def decodeSample (chunk : List (BitVec 8)) : Sample where
  lfsr := unpackU32 chunk lfsrOffset
  counter := unpackU16 chunk counterOffset
  sin := u32ToSigned (unpackU32 chunk sinOffset)
  cos := u32ToSigned (unpackU32 chunk cosOffset)

def feedback (lfsr : BitVec 32) (taps : List ℕ) (fb : BitVec 32) : BitVec 32 :=
  taps.foldl (fun fb tap => fb ^^^ ((lfsr >>> (tap - 1)) &&& 1)) fb

def lfsrNext (lfsr : BitVec 32) : BitVec 32 := (lfsr <<< 1) ||| feedback lfsr tapPositions 0

def findFrom (received : BitVec 32) : ℕ → ℕ → BitVec 32 → Option ℕ
  | 0, _, _ => none
  | left + 1, steps, value =>
    let value := lfsrNext value
    if value = received then some steps else findFrom received left (steps + 1) value

def findLfsrSteps (current received : BitVec 32) :
    Option ℕ := findFrom received lfsrReportSearchSteps 1 current

/-- A row of the report. `none` stands for the texts `unknown/reset`, `>64` and `unknown`. -/
structure SkipRow where
  errorNumber : ℕ
  currentIndex : ℕ
  nextIndex : ℕ
  currentByteOffset : ℕ
  nextByteOffset : ℕ
  counterCurrent : BitVec 16
  counterNext : BitVec 16
  counterDelta : ℕ
  counterMissingSamples : Option ℕ
  lfsrCurrent : BitVec 32
  lfsrExpectedNext : BitVec 32
  lfsrReceived : BitVec 32
  lfsrStepsToReceived : Option ℕ
  lfsrMissingSamples : Option ℕ
  nextSampleAt4096Boundary : Bool
  deriving DecidableEq, Repr

structure SkipReport where
  rows : List SkipRow := []
  errorCount : ℕ := 0
  counterErrorCount : ℕ := 0
  lfsrErrorCount : ℕ := 0
  matchingLossCount : ℕ := 0
  sampleCount : ℕ := 0
  incomplete : Option ℕ := none
  deriving DecidableEq, Repr

/-- What `source.read(WORD_SIZE)` returns, up to the end of the file. -/
def readsFrom : ℕ → List (BitVec 8) → List (List (BitVec 8))
  | 0, _ => []
  | fuel + 1, bytes => if bytes = [] then [] else bytes.take wordSize :: readsFrom fuel (bytes.drop wordSize)

def reads (bytes : List (BitVec 8)) : List (List (BitVec 8)) := readsFrom bytes.length bytes

namespace SkipReport

def transition (previous current : Sample) (report : SkipReport) : SkipReport :=
  let expected := lfsrNext previous.lfsr
  let delta := (current.counter - previous.counter).toNat
  let counterError := delta ≠ 1
  let lfsrError := current.lfsr ≠ expected
  let report :=
    if counterError ∨ lfsrError then
      let steps := findLfsrSteps previous.lfsr current.lfsr
      let counterMissing := if 1 < delta ∧ delta < 0x8000 then some (delta - 1) else none
      let lfsrMissing := steps.map (· - 1)
      let nextOffset := report.sampleCount * wordSize
      let row : SkipRow :=
        { errorNumber := report.errorCount + 1
          currentIndex := report.sampleCount - 1
          nextIndex := report.sampleCount
          currentByteOffset := nextOffset - wordSize
          nextByteOffset := nextOffset
          counterCurrent := previous.counter
          counterNext := current.counter
          counterDelta := delta
          counterMissingSamples := counterMissing
          lfsrCurrent := previous.lfsr
          lfsrExpectedNext := expected
          lfsrReceived := current.lfsr
          lfsrStepsToReceived := steps
          lfsrMissingSamples := lfsrMissing
          nextSampleAt4096Boundary := nextOffset % 4096 = 0 }
      { report with
        rows := report.rows ++ [row]
        errorCount := report.errorCount + 1
        counterErrorCount := report.counterErrorCount + if counterError then 1 else 0
        lfsrErrorCount := report.lfsrErrorCount + if lfsrError then 1 else 0
        matchingLossCount := report.matchingLossCount +
          if counterMissing.isSome ∧ lfsrMissing.isSome ∧ counterMissing = lfsrMissing then 1 else 0 }
    else report
  { report with sampleCount := report.sampleCount + 1 }

def loop : List (List (BitVec 8)) → Sample → SkipReport → SkipReport
  | [], _, report => report
  | chunk :: chunks, previous, report =>
    if chunk.length ≠ wordSize then { report with incomplete := some (report.sampleCount * wordSize) }
    else
      let current := decodeSample chunk
      loop chunks current (report.transition previous current)

end SkipReport

/-- `write_skip_report` on a file with these bytes. -/
def writeSkipReport (bytes : List (BitVec 8)) : SkipReport :=
  match reads bytes with
  | [] => {}
  | chunk :: chunks =>
    if chunk.length ≠ wordSize then {}
    else SkipReport.loop chunks (decodeSample chunk) { sampleCount := 1 }

theorem feedback_xor (x y : BitVec 32) (taps : List ℕ) : ∀ a b : BitVec 32,
    feedback (x ^^^ y) taps (a ^^^ b) = feedback x taps a ^^^ feedback y taps b := by
  induction taps with
  | nil => exact fun _ _ => rfl
  | cons tap taps ih =>
    intro a b
    have hstep : a ^^^ b ^^^ ((x ^^^ y) >>> (tap - 1) &&& 1) =
        (a ^^^ (x >>> (tap - 1) &&& 1)) ^^^ (b ^^^ (y >>> (tap - 1) &&& 1)) := by
      apply BitVec.eq_of_getLsbD_eq
      intro i hi
      simp only [BitVec.getLsbD_xor, BitVec.getLsbD_and, BitVec.getLsbD_ushiftRight]
      cases a.getLsbD i <;> cases b.getLsbD i <;> cases x.getLsbD (tap - 1 + i)
        <;> cases y.getLsbD (tap - 1 + i) <;>
        cases (1 : BitVec 32).getLsbD i <;> rfl
    calc feedback (x ^^^ y) (tap :: taps) (a ^^^ b)
        = feedback (x ^^^ y) taps ((a ^^^ (x >>> (tap - 1) &&& 1)) ^^^ (b ^^^ (y >>> (tap - 1) &&& 1))) :=
          congrArg (feedback (x ^^^ y) taps) hstep
      _ = feedback x (tap :: taps) a ^^^ feedback y (tap :: taps) b := ih _ _

theorem feedback_getLsbD_succ (x : BitVec 32) (taps : List ℕ) (j : ℕ) : ∀ fb : BitVec 32,
    (feedback x taps fb).getLsbD (j + 1) = fb.getLsbD (j + 1) := by
  induction taps with
  | nil => exact fun _ => rfl
  | cons tap taps ih =>
    intro fb
    refine (ih _).trans ?_
    simp

theorem lfsrNext_getLsbD_succ (x : BitVec 32) {j : ℕ} (hj : j + 1 < 32) :
    (lfsrNext x).getLsbD (j + 1) = x.getLsbD j := by
  have hfb := feedback_getLsbD_succ x tapPositions j 0
  rw [lfsrNext, BitVec.getLsbD_or, hfb]
  simp only [BitVec.getLsbD_shiftLeft, hj]
  simp

theorem lfsrNext_additive : XorAdditive lfsrNext := by
  intro x y
  have hfb := feedback_xor x y tapPositions 0 0
  rw [BitVec.xor_self] at hfb
  apply BitVec.eq_of_getLsbD_eq
  intro j hj
  cases j with
  | zero => simp [lfsrNext, hfb]
  | succ j =>
    rw [BitVec.getLsbD_xor, lfsrNext_getLsbD_succ _ hj, lfsrNext_getLsbD_succ _ hj,
      lfsrNext_getLsbD_succ _ hj,
      BitVec.getLsbD_xor]

theorem lfsrNext_injective : Injective lfsrNext := by
  intro x y h
  have hzero : lfsrNext (x ^^^ y) = 0 := by
    rw [lfsrNext_additive, h]
    exact BitVec.xor_self
  have hlow : ∀ j, j + 1 < 32 → (x ^^^ y).getLsbD j = false := fun j hj => by
    rw [← lfsrNext_getLsbD_succ _ hj, hzero]
    simp
  have hword : x ^^^ y = bif (x ^^^ y).getLsbD 31 then BitVec.twoPow 32 31 else 0 := by
    apply BitVec.eq_of_getLsbD_eq
    intro j hj
    by_cases hlast : j = 31
    · subst hlast
      cases (x ^^^ y).getLsbD 31 <;> rfl
    · rw [hlow j (by omega)]
      have hne : ¬ 31 = j := fun he => hlast he.symm
      cases (x ^^^ y).getLsbD 31 <;> simp [hne]
  cases hbit : (x ^^^ y).getLsbD 31 with
  | false =>
    rw [hbit, cond_false] at hword
    exact BitVec.xor_eq_zero_iff.mp hword
  | true =>
    rw [hbit, cond_true] at hword
    rw [hword] at hzero
    exact absurd hzero (by decide)

theorem fixed_of_lfsrNext {x : BitVec 32} (h : lfsrNext x = x) : x = 0 ∨ x = BitVec.allOnes 32 := by
  have hbits : ∀ j < 32, x.getLsbD j = x.getLsbD 0 := by
    intro j
    induction j with
    | zero => exact fun _ => rfl
    | succ j ih =>
      intro hj
      rw [← ih (by omega), ← lfsrNext_getLsbD_succ x hj, h]
  cases h0 : x.getLsbD 0 with
  | false =>
    apply Or.inl
    apply BitVec.eq_of_getLsbD_eq
    intro j hj
    rw [hbits j hj, h0]
    simp
  | true =>
    apply Or.inr
    apply BitVec.eq_of_getLsbD_eq
    intro j hj
    rw [hbits j hj, h0, BitVec.getLsbD_allOnes, decide_eq_true hj]

theorem lfsrNext_power : power 31 (columns lfsrNext) = columns lfsrNext := by decide +kernel

theorem lfsrNext_returns (x : BitVec 32) : lfsrNext^[2 ^ 31 - 1] x = x := by
  have hpow := iterate_eq_of_power lfsrNext_additive lfsrNext_power
  rw [← Nat.sub_add_cancel (Nat.one_le_two_pow (n := 31))] at hpow
  exact returns_of_iterate lfsrNext_injective hpow x

theorem lfsrNext_ne {x : BitVec 32} (h0 : x ≠ 0) (h1 : x ≠ BitVec.allOnes 32) {k : ℕ}
    (hk : 0 < k) (hlt : k < 64) :
    lfsrNext^[k] x ≠ x := by
  intro hkx
  have hcop : ∀ k < 64, 0 < k → Nat.Coprime k (2 ^ 31 - 1) := by decide
  have hfix := fixed_of_coprime (lfsrNext_returns x) hkx (hcop k hlt hk)
  exact (fixed_of_lfsrNext hfix).elim h0 h1

end XdmaDriver
