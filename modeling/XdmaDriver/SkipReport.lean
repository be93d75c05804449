import XdmaDriver.LfsrAnalysis

/-!
The rows of `write_skip_report` against the samples that a capture has lost.
-/

namespace XdmaDriver

open Function

theorem readsFrom_flatten (tail : List (BitVec 8)) (htail : tail.length < wordSize)
    (recs : List (List (BitVec 8))) :
    ∀ fuel, recs.flatten.length + tail.length ≤ fuel → (∀ r ∈ recs, r.length = wordSize) →
      readsFrom fuel (recs.flatten ++ tail) = recs ++ if tail = [] then [] else [tail] := by
  induction recs with
  | nil =>
    intro fuel hfuel _
    rw [List.flatten_nil, List.nil_append, List.nil_append]
    cases fuel with
    | zero =>
      have hnil : tail = [] := List.eq_nil_of_length_eq_zero (by simpa using hfuel)
      rw [if_pos hnil]
      rfl
    | succ fuel =>
      unfold readsFrom
      split_ifs with hnil
      · rfl
      · rw [List.take_of_length_le htail.le, List.drop_of_length_le htail.le]
        cases fuel <;> simp [readsFrom]
  | cons r recs ih =>
    intro fuel hfuel hlen
    have hr : r.length = wordSize := hlen r List.mem_cons_self
    rw [List.flatten_cons, List.length_append, hr] at hfuel
    cases fuel with
    | zero =>
      have : 0 < wordSize := by decide
      omega
    | succ fuel =>
      have hne : ¬ (r :: recs).flatten ++ tail = [] := fun he => by
        have := congrArg List.length he
        rw [List.flatten_cons, List.length_append, List.length_append, hr] at this
        exact absurd this (by simp [wordSize])
      have hrest := ih fuel (by simp only [wordSize] at hfuel; omega) fun r' hr' =>
        hlen r' (List.mem_cons_of_mem _ hr')
      rw [readsFrom, if_neg hne, List.flatten_cons, List.append_assoc, List.take_left' hr,
        List.drop_left' hr, hrest]
      rfl

theorem reads_flatten {recs : List (List (BitVec 8))} {tail : List (BitVec 8)} (hrecs : ∀ r ∈ recs,
    r.length = wordSize)
    (htail : tail.length < wordSize) : reads (recs.flatten ++ tail) = recs ++
      if tail = [] then [] else [tail] := by
  apply readsFrom_flatten tail htail recs _ _ hrecs
  rw [List.length_append]

theorem findFrom_eq {received : BitVec 32} {k : ℕ} : ∀ {left steps : ℕ} {value : BitVec 32}, k < left →
    lfsrNext^[k + 1] value = received → (∀ j < k, lfsrNext^[j + 1] value ≠ received) →
      findFrom received left steps value = some (steps + k) := by
  induction k with
  | zero =>
    intro left steps value hleft hk _
    obtain ⟨left, rfl⟩ := Nat.exists_eq_add_of_lt hleft
    rw [Nat.zero_add, iterate_one] at hk
    rw [Nat.zero_add, findFrom, if_pos hk, Nat.add_zero]
  | succ k ih =>
    intro left steps value hleft hk hno
    cases left with
    | zero => omega
    | succ left =>
      have hfirst : lfsrNext value ≠ received := hno 0 (Nat.succ_pos k)
      rw [findFrom, if_neg hfirst, ih (by omega) hk fun j hj => hno (j + 1) (by omega)]
      congr 1
      omega

theorem findLfsrSteps_iterate {x : BitVec 32} (h0 : x ≠ 0) (h1 : x ≠ BitVec.allOnes 32) {d : ℕ} (hd : 1 ≤ d)
    (hle : d ≤ 64) : findLfsrSteps x (lfsrNext^[d] x) = some d := by
  obtain ⟨k, rfl⟩ : ∃ k, d = k + 1 := ⟨d - 1, by omega⟩
  rw [findLfsrSteps, findFrom_eq (k := k) (by simp only [lfsrReportSearchSteps]; omega) rfl, Nat.add_comm]
  intro j hj heq
  -- a match before would repeat a word within the search
  have hsplit : k + 1 = (j + 1) + (k - j) := by omega
  rw [hsplit, iterate_add_apply lfsrNext (j + 1)] at heq
  exact lfsrNext_ne h0 h1 (by omega) (by omega) (lfsrNext_injective.iterate (j + 1) heq).symm

theorem iterate_ne {seed : BitVec 32} (h0 : seed ≠ 0) (h1 : seed ≠ BitVec.allOnes 32) (t : ℕ) :
    lfsrNext^[t] seed ≠ 0 ∧ lfsrNext^[t] seed ≠ BitVec.allOnes 32 := by
  have hz : lfsrNext^[t] 0 = 0 := iterate_fixed (by decide) t
  have ho : lfsrNext^[t] (BitVec.allOnes 32) = BitVec.allOnes 32 := iterate_fixed (by decide) t
  have hinj := lfsrNext_injective.iterate t
  exact ⟨fun he => h0 (hinj (he.trans hz.symm)), fun he => h1 (hinj (he.trans ho.symm))⟩

structure Sample.At (seed : BitVec 32) (c t : ℕ) (s : Sample) : Prop where
  lfsr : s.lfsr = lfsrNext^[t] seed
  counter : s.counter.toNat = (c + t) % 65536

def SkipRow.missing (row : SkipRow) : ℕ × Option ℕ × Option ℕ :=
  (row.currentIndex, row.counterMissingSamples, row.lfsrMissingSamples)

def lost (t : ℕ → ℕ) (k n : ℕ) : List (ℕ × Option ℕ × Option ℕ) :=
  ((List.range n).filter fun j => 1 < t (k + j + 1) - t (k + j)).map fun j =>
    (k + j, some (t (k + j + 1) - t (k + j) - 1), some (t (k + j + 1) - t (k + j) - 1))

theorem lost_succ (t : ℕ → ℕ) (k n : ℕ) : lost t k (n + 1) = (if 1 < t (k + 1) - t k then
    [(k, some (t (k + 1) - t k - 1), some (t (k + 1) - t k - 1))] else []) ++ lost t (k + 1) n := by
  have hshift : lost t (k + 1) n = (((List.range n).map Nat.succ).filter fun j =>
    1 < t (k + j + 1) - t (k + j)).map
      fun j => (k + j, some (t (k + j + 1) - t (k + j) - 1), some (t (k + j + 1) - t (k + j) - 1)) := by
    rw [List.filter_map, List.map_map, lost]
    congr 1
    · funext j
      simp [Nat.add_comm, Nat.add_left_comm]
    · congr 1
      funext j
      simp [Nat.add_comm, Nat.add_left_comm]
  rw [hshift, lost, List.range_succ_eq_map, List.filter_cons]
  split_ifs with h₁ h₂ h₂
  · rfl
  · simp [h₂] at h₁
  · simp [h₂] at h₁
  · rfl

namespace SkipReport

variable {seed : BitVec 32} {c : ℕ}

section

variable (h0 : seed ≠ 0) (h1 : seed ≠ BitVec.allOnes 32)

include h0 h1

theorem transition_rows {previous current : Sample} {t t' k : ℕ} (hp : previous.At seed c t)
    (hc : current.At seed c t') (hlt : t < t') (hle : t' ≤ t + 64) {report : SkipReport}
    (hk : report.sampleCount = k + 1) :
    (report.transition previous current).sampleCount = k + 2 ∧
      (report.transition previous current).rows.map SkipRow.missing = report.rows.map SkipRow.missing ++
        if 1 < t' - t then [(k, some (t' - t - 1), some (t' - t - 1))] else [] := by
  have hdelta : (current.counter - previous.counter).toNat = t' - t := by
    have hp' := hp.counter
    have hc' := hc.counter
    rw [BitVec.toNat_sub]
    omega
  have hstate : current.lfsr = lfsrNext^[t' - t] previous.lfsr := by
    rw [hp.lfsr, hc.lfsr, ← iterate_add_apply, Nat.sub_add_cancel hlt.le]
  obtain ⟨hne0, hne1⟩ := iterate_ne h0 h1 t
  rw [← hp.lfsr] at hne0 hne1
  have hsteps : findLfsrSteps previous.lfsr current.lfsr = some (t' - t) := by
    rw [hstate]
    exact findLfsrSteps_iterate hne0 hne1 (by omega) (by omega)
  unfold transition
  simp only [hdelta, hsteps, hk]
  by_cases hloss : 1 < t' - t
  · have hcounter : t' - t ≠ 1 := by omega
    have hsmall : t' - t < 0x8000 := by omega
    simp [hcounter, hloss, hsmall, SkipRow.missing]
  · have hone : t' - t = 1 := by omega
    have hlfsr : current.lfsr = lfsrNext previous.lfsr := by rw [hstate, hone, iterate_one]
    simp [hone, hlfsr, hk]

theorem loop_rows {t : ℕ → ℕ} {last : List (List (BitVec 8))} (hlast : ∀ r ∈ last, r.length ≠ wordSize)
    (chunks : List (List (BitVec 8))) : ∀ (k : ℕ) {previous : Sample} (report : SkipReport),
      report.sampleCount = k + 1 → previous.At seed c (t k) →
      (∀ j (hj : j < chunks.length), chunks[j].length = wordSize ∧
        (decodeSample chunks[j]).At seed c (t (k + j + 1))) →
      (∀ j < chunks.length, t (k + j) < t (k + j + 1) ∧ t (k + j + 1) ≤ t (k + j) + 64) →
      (loop (chunks ++ last) previous report).rows.map SkipRow.missing =
        report.rows.map SkipRow.missing ++ lost t k chunks.length := by
  induction chunks with
  | nil =>
    intro k previous report _ _ _ _
    have hrows : (loop last previous report).rows = report.rows := by
      cases last with
      | nil => rfl
      | cons r last => rw [loop, if_pos (hlast r List.mem_cons_self)]
    rw [List.nil_append, hrows]
    exact (List.append_nil _).symm
  | cons chunk chunks ih =>
    intro k previous report hk hp hchunks ht
    obtain ⟨hlen, hcur⟩ : chunk.length = wordSize ∧ (decodeSample chunk).At seed c (t (k + 1)) :=
      hchunks 0 (Nat.succ_pos _)
    obtain ⟨hlt, hle⟩ := ht 0 (Nat.succ_pos _)
    obtain ⟨hcount, hrows⟩ := transition_rows h0 h1 hp hcur hlt hle hk
    have hnext := ih (k + 0 + 1) _ hcount hcur (fun j hj => ?_) fun j hj => ?_
    · rw [List.cons_append, loop, if_neg (not_not.mpr hlen)]
      refine hnext.trans ?_
      rw [hrows, List.length_cons, lost_succ, List.append_assoc]
    · have := hchunks (j + 1) (Nat.succ_lt_succ hj)
      rw [List.getElem_cons_succ] at this
      rwa [show k + 0 + 1 + j + 1 = k + (j + 1) + 1 by omega]
    · have := ht (j + 1) (Nat.succ_lt_succ hj)
      rwa [show k + 0 + 1 + j = k + (j + 1) by omega]

end

end SkipReport

/-- A capture of the samples at the times `t 0, t 1, ..`, with the start of another one. -/
structure Capture (seed : BitVec 32) (c : ℕ) (t : ℕ → ℕ) (recs : List (List (BitVec 8)))
    (tail : List (BitVec 8)) : Prop where
  record : ∀ i (h : i < recs.length), recs[i].length = wordSize ∧ (decodeSample recs[i]).At seed c (t i)
  tail : tail.length < wordSize
  times : ∀ i, i + 1 < recs.length → t i < t (i + 1) ∧ t (i + 1) ≤ t i + 64

/-- The report has a row for each transition that has lost samples and for no other, and
both columns have their number, for every seed that `lfsr_next` moves. -/
theorem skip_report_exact {seed : BitVec 32} (h0 : seed ≠ 0) (h1 : seed ≠ BitVec.allOnes 32)
    {c : ℕ} {t : ℕ → ℕ}
    {recs : List (List (BitVec 8))} {tail : List (BitVec 8)} (h : Capture seed c t recs tail) :
    (writeSkipReport (recs.flatten ++ tail)).rows.map SkipRow.missing = lost t 0 (recs.length - 1) := by
  have hlen : ∀ r ∈ recs, r.length = wordSize := by
    intro r hr
    obtain ⟨i, hi, rfl⟩ := List.getElem_of_mem hr
    exact (h.record i hi).1
  have htail : ∀ r ∈ (if tail = [] then [] else [tail]), r.length ≠ wordSize := by
    intro r hr
    split_ifs at hr
    · cases hr
    · rw [List.mem_singleton.mp hr]
      exact h.tail.ne
  rw [writeSkipReport, reads_flatten hlen h.tail]
  cases recs with
  | nil =>
    rw [List.nil_append]
    split_ifs
    · rfl
    · dsimp only
      rw [if_pos h.tail.ne]
      rfl
  | cons r recs =>
    have hfirst := (h.record 0 (Nat.succ_pos _)).2
    have hloop := SkipReport.loop_rows h0 h1 htail recs 0 { sampleCount := 1 } rfl hfirst
      (fun j hj => ?_) fun j hj => ?_
    · rw [List.cons_append]
      dsimp only
      rw [if_neg (not_not.mpr (hlen r List.mem_cons_self))]
      refine hloop.trans ?_
      rw [List.length_cons]
      rfl
    · have := h.record (j + 1) (Nat.succ_lt_succ hj)
      rw [List.getElem_cons_succ] at this
      rwa [Nat.zero_add]
    · rw [Nat.zero_add]
      exact h.times j (Nat.succ_lt_succ hj)

def record (lfsr : BitVec 32) (counter : BitVec 16) : List (BitVec 8) :=
  [lfsr.extractLsb' 0 8, lfsr.extractLsb' 8 8, lfsr.extractLsb' 16 8, lfsr.extractLsb' 24 8] ++
    List.replicate 10 0 ++
    [counter.extractLsb' 0 8, counter.extractLsb' 8 8] ++ List.replicate 16 0

theorem capture_two (seed : BitVec 32) (h : ∀ i < 2,
    (decodeSample (record (lfsrNext^[2 * i] seed) (2 * i))).lfsr =
    lfsrNext^[2 * i] seed ∧ (decodeSample (record (lfsrNext^[2 * i] seed) (2 * i))).counter.toNat = 2 * i) :
    Capture seed 0 (2 * ·) [record seed 0, record (lfsrNext^[2] seed) 2] [] := by
  constructor
  · intro i hi
    match i, hi with
    | 0, _ => exact ⟨rfl, (h 0 (by decide)).1, (h 0 (by decide)).2⟩
    | 1, _ => exact ⟨rfl, (h 1 (by decide)).1, (h 1 (by decide)).2⟩
  · decide
  · intro i _
    omega

theorem skip_report_exact_two :
    (writeSkipReport (record 1 0 ++ record (lfsrNext^[2] 1) 2)).rows.map SkipRow.missing =
      [(0, some 1, some 1)] := by
  have h := skip_report_exact (by decide) (by decide) (capture_two 1 (by decide))
  simpa [lost] using h

/-- The word of ones is the only other one that `lfsr_next` leaves: the search then ends at
the first step. -/
theorem skip_report_misses_loss : ¬ ∀ (seed : BitVec 32), seed ≠ 0 →
    ∀ (c : ℕ) (t : ℕ → ℕ) (recs : List (List (BitVec 8)))
      (tail : List (BitVec 8)), Capture seed c t recs tail →
        (writeSkipReport (recs.flatten ++ tail)).rows.map SkipRow.missing = lost t 0 (recs.length - 1) := by
  intro h
  have hrows := h (BitVec.allOnes 32) (by decide) 0 (2 * ·) _ _ (capture_two _ (by decide))
  have hreport :
      (writeSkipReport (record (BitVec.allOnes 32) 0 ++ record (lfsrNext^[2] (BitVec.allOnes 32)) 2)).rows.map
        SkipRow.missing = [(0, some 1, some 0)] := by decide
  rw [List.flatten_cons, List.flatten_cons, List.flatten_nil, List.append_nil,
    List.append_nil, hreport] at hrows
  exact absurd hrows (by decide)

end XdmaDriver
