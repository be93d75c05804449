import XdmaDriver.Xvc

/-!
The shift loop of `xvc_ioctl`: when it ends, where its copies go, and what it shifts.
-/

namespace XdmaDriver

open BitWords

def shiftsFor (n : U32) : ℕ := (n.toNat + 31) / 32

section

variable {totalBits totalBytes : U32} {dev : ℕ → XvcAnswer} {s : XvcLoop}

theorem xvcLoop_of_ended (k : ℕ) (h : ¬ s.Running totalBits) : xvcLoop totalBits totalBytes dev k s = s := by
  cases k with
  | zero => rfl
  | succ k => exact if_neg h

theorem xvcLoop_add (k : ℕ) : ∀ (l : ℕ) (s : XvcLoop), xvcLoop totalBits totalBytes dev (k + l) s =
    xvcLoop totalBits totalBytes dev l (xvcLoop totalBits totalBytes dev k s) := by
  induction k with
  | zero =>
    intro l s
    rw [Nat.zero_add]
    rfl
  | succ k ih =>
    intro l s
    by_cases hrun : s.Running totalBits
    · rw [Nat.add_right_comm, xvcLoop, if_pos hrun, xvcLoop, if_pos hrun, ih]
    · rw [xvcLoop_of_ended _ hrun, xvcLoop_of_ended _ hrun, xvcLoop_of_ended _ hrun]

theorem xvcLoop_succ {k : ℕ} (h : (xvcLoop totalBits totalBytes dev k s).Running totalBits) :
    xvcLoop totalBits totalBytes dev (k + 1) s =
    xvcRound totalBytes dev (xvcLoop totalBits totalBytes dev k s) := by
  rw [xvcLoop_add, xvcLoop, if_pos h]
  rfl

theorem xvcLoop_rule {P : XvcLoop → Prop}
    (hround : ∀ s, s.Running totalBits → P s → P (xvcRound totalBytes dev s)) (k : ℕ) :
    ∀ s, P s → P (xvcLoop totalBits totalBytes dev k s) := by
  induction k with
  | zero => exact fun _ h => h
  | succ k ih =>
    intro s h
    by_cases hrun : s.Running totalBits
    · rw [xvcLoop, if_pos hrun]
      exact ih _ (hround s hrun h)
    · rw [xvcLoop_of_ended _ hrun]
      exact h

def roundCopy (s : XvcLoop) (area : XvcArea) : XvcCopy :=
  { area := area
    off := (s.bits >>> 3).toNat
    len := if s.bitsLeft < 32 then ((s.bitsLeft + 7) >>> 3).toNat else 4 }

def roundWord (totalBytes : U32) (s : XvcLoop) (area : XvcArea) : U32 :=
  ofBytes 32 (fun i => s.buf (area.start totalBytes + ((roundCopy s area).off + i))) (roundCopy s area).len

def roundRegs (totalBytes : U32) (s : XvcLoop) : XvcRegs :=
  { length := if s.bitsLeft < 32 then s.bitsLeft else s.regs.length
    tms := roundWord totalBytes s .tms
    tdi := roundWord totalBytes s .tdi }

theorem xvcRound_timesOut (h : (dev s.shifts.length).TimesOut) : xvcRound totalBytes dev s = { s with
    rv := err .timedOut
    regs := roundRegs totalBytes s
    shifts := s.shifts ++ [roundRegs totalBytes s]
    copies := s.copies ++ [roundCopy s .tms, roundCopy s .tdi] } := by
  unfold xvcRound xvcShiftBits roundRegs roundWord roundCopy
  simp only [h, ↓reduceIte]
  split_ifs <;> rfl

theorem xvcRound_answered (h : ¬ (dev s.shifts.length).TimesOut) : xvcRound totalBytes dev s = {
    bits := s.bits + 32
    bitsLeft := s.bitsLeft - 32
    rv := 0
    regs := roundRegs totalBytes s
    buf := storeWord s.buf (XvcArea.tdo.start totalBytes + (roundCopy s .tdo).off) (roundCopy s .tdo).len
      (dev s.shifts.length).tdo
    shifts := s.shifts ++ [roundRegs totalBytes s]
    copies := s.copies ++ [roundCopy s .tms, roundCopy s .tdi] ++
      [roundCopy s .tdo] } := by
  unfold xvcRound xvcShiftBits roundRegs roundWord roundCopy
  simp only [h, ↓reduceIte]
  split_ifs <;> rfl

end

structure AtRound (n : U32) (k : ℕ) (s : XvcLoop) : Prop where
  bits : s.bits = BitVec.ofNat 32 (32 * k)
  bitsLeft : s.bitsLeft = n - s.bits
  rv : s.rv = 0
  shifts : s.shifts.length = k

section

variable {n : U32} {k : ℕ} {dev : ℕ → XvcAnswer} {s : XvcLoop} {totalBytes : U32}

theorem AtRound.start (n : U32) (regs : XvcRegs) (buf : ℕ → U8) : AtRound n 0 (xvcStart n regs buf) := by
  constructor
  · rfl
  · simp [xvcStart]
  · rfl
  · rfl

theorem AtRound.running_iff (h : AtRound n k s) : s.Running n ↔ 32 * k % 2 ^ 32 < n.toNat := by
  rw [XvcLoop.Running, h.rv, h.bits, BitVec.lt_def, BitVec.toNat_ofNat]
  simp

variable (totalBytes) in
theorem AtRound.round (h : AtRound n k s) (hdev : ¬ (dev k).TimesOut) :
    AtRound n (k + 1) (xvcRound totalBytes dev s) := by
  rw [xvcRound_answered (by rwa [h.shifts])]
  constructor
  · dsimp only
    rw [h.bits, Nat.mul_add, BitVec.ofNat_add]
    rfl
  · dsimp only
    rw [h.bitsLeft, BitVec.sub_sub]
  · rfl
  · rw [List.length_append, h.shifts]
    rfl

variable (totalBytes) in
theorem xvcLoop_atRound (regs : XvcRegs) (buf : ℕ → U8) (k : ℕ)
    (h : ∀ j < k, ¬ (dev j).TimesOut ∧ 32 * j % 2 ^ 32 < n.toNat) :
    AtRound n k (xvcLoop n totalBytes dev k (xvcStart n regs buf)) := by
  induction k with
  | zero => exact .start n regs buf
  | succ k ih =>
    have hat := ih fun j hj => h j (by omega)
    rw [xvcLoop_succ (hat.running_iff.mpr (h k (by omega)).2)]
    exact hat.round totalBytes (h k (by omega)).1

theorem xvcTotalBytes_toNat (h : n.toNat ≤ 2 ^ 32 - 8) : (xvcTotalBytes n).toNat = (n.toNat + 7) / 8 := by
  have hseven : (7 : U32).toNat = 7 := rfl
  rw [xvcTotalBytes, BitVec.toNat_ushiftRight, Nat.shiftRight_eq_div_pow, BitVec.toNat_add, hseven,
    Nat.mod_eq_of_lt (by omega)]

theorem xvcTotalBytes_of_wrap (h : 2 ^ 32 - 8 < n.toNat) : xvcTotalBytes n = 0 := by
  have hseven : (7 : U32).toNat = 7 := rfl
  have hlt := n.isLt
  apply BitVec.eq_of_toNat_eq
  rw [xvcTotalBytes, BitVec.toNat_ushiftRight, Nat.shiftRight_eq_div_pow, BitVec.toNat_add, hseven]
  change _ = 0
  omega

theorem roundCopy_off (s : XvcLoop) (area : XvcArea) : (roundCopy s area).off = s.bits.toNat / 8 := by
  rw [roundCopy, BitVec.toNat_ushiftRight, Nat.shiftRight_eq_div_pow]

theorem roundCopy_len (s : XvcLoop) (area : XvcArea) :
    (roundCopy s area).len = min 4 ((s.bitsLeft.toNat + 7) / 8) := by
  have hseven : (7 : U32).toNat = 7 := rfl
  have hword : (32 : U32).toNat = 32 := rfl
  unfold roundCopy
  dsimp only
  split_ifs with hlast
  · rw [BitVec.lt_def, hword] at hlast
    rw [BitVec.toNat_ushiftRight, Nat.shiftRight_eq_div_pow, BitVec.toNat_add, hseven]
    omega
  · rw [BitVec.lt_def, hword] at hlast
    omega

theorem roundCopy_inside (area : XvcArea) (hn : n.toNat ≤ 2 ^ 32 - 8) (hrun : s.bits < n)
    (hleft : s.bitsLeft = n - s.bits) :
    (roundCopy s area).off + (roundCopy s area).len ≤ (xvcTotalBytes n).toNat := by
  rw [BitVec.lt_def] at hrun
  have hnat : s.bitsLeft.toNat = n.toNat - s.bits.toNat := by
    rw [hleft, BitVec.toNat_sub_of_le (BitVec.le_def.mpr hrun.le)]
  rw [roundCopy_off, roundCopy_len, xvcTotalBytes_toNat hn, hnat]
  omega

end

/-- Shifting `n` bits ends after one shift for each word, or with the first one that times out,
and the copies stay inside the areas of the buffer. -/
structure ShiftsBounded (n : U32) (dev : ℕ → XvcAnswer) (regs : XvcRegs) (buf : ℕ → U8) : Prop where
  ends : ∃ k ≤ shiftsFor n,
    ¬ (xvcLoop n (xvcTotalBytes n) dev k (xvcStart n regs buf)).Running n ∧
      (xvcLoop n (xvcTotalBytes n) dev k (xvcStart n regs buf)).shifts.length = k ∧
      ((∀ j < k, ¬ (dev j).TimesOut) → k = shiftsFor n)
  inside : ∀ k, ∀ c ∈ (xvcLoop n (xvcTotalBytes n) dev k (xvcStart n regs buf)).copies,
    c.off + c.len ≤ (xvcTotalBytes n).toNat
  alloc : (xvcTotalBytes n * 3).toNat = 3 * (xvcTotalBytes n).toNat

section

variable {n : U32} {dev : ℕ → XvcAnswer}

theorem xvcLoop_ends (regs : XvcRegs) (buf : ℕ → U8)
    (h : n.toNat ≤ 2 ^ 32 - 32 ∨ ∃ j < 2 ^ 27, (dev j).TimesOut) : ∃ k ≤ shiftsFor n,
    ¬ (xvcLoop n (xvcTotalBytes n) dev k (xvcStart n regs buf)).Running n ∧
      (xvcLoop n (xvcTotalBytes n) dev k (xvcStart n regs buf)).shifts.length = k ∧
      ((∀ j < k, ¬ (dev j).TimesOut) → k = shiftsFor n) := by
  have hlt := n.isLt
  have hinside : ∀ j < shiftsFor n, 32 * j % 2 ^ 32 < n.toNat := by
    intro j hj
    unfold shiftsFor at hj
    omega
  by_cases hlate : ∃ j, j < shiftsFor n ∧ (dev j).TimesOut
  · -- the first shift that times out ends the loop
    obtain ⟨hj, hout⟩ := Nat.find_spec hlate
    have hfirst : ∀ i < Nat.find hlate, ¬ (dev i).TimesOut := fun i hi hbad =>
      Nat.find_min hlate hi ⟨by omega, hbad⟩
    generalize Nat.find hlate = j at *
    have hat := xvcLoop_atRound (xvcTotalBytes n) regs buf j
      fun i hi => ⟨hfirst i hi, hinside i (by omega)⟩
    refine ⟨j + 1, hj, ?_⟩
    rw [xvcLoop_succ (hat.running_iff.mpr (hinside j hj)), xvcRound_timesOut (by rwa [hat.shifts])]
    refine ⟨?_, ?_, ?_⟩
    · exact fun hrun => absurd hrun.1 (not_le.mpr (err_neg _))
    · rw [List.length_append, hat.shifts]
      rfl
    · exact fun hnone => absurd hout (hnone j (by omega))
  · have hnone : ∀ j < shiftsFor n, ¬ (dev j).TimesOut := fun j hj hout => hlate ⟨j, hj, hout⟩
    have hn : n.toNat ≤ 2 ^ 32 - 32 := by
      rcases h with h | ⟨j, hj, hout⟩
      · exact h
      · have : ¬ j < shiftsFor n := fun hlt => hnone j hlt hout
        unfold shiftsFor at this
        omega
    have hat := xvcLoop_atRound (xvcTotalBytes n) regs buf (shiftsFor n)
      fun i hi => ⟨hnone i hi, hinside i hi⟩
    refine ⟨shiftsFor n, le_refl _, ?_, hat.shifts, fun _ => rfl⟩
    rw [hat.running_iff]
    unfold shiftsFor
    omega

theorem xvcLoop_inside (regs : XvcRegs) (buf : ℕ → U8) (hn : n.toNat ≤ 2 ^ 32 - 8) (k : ℕ) :
    ∀ c ∈ (xvcLoop n (xvcTotalBytes n) dev k (xvcStart n regs buf)).copies,
      c.off + c.len ≤ (xvcTotalBytes n).toNat := by
  refine (xvcLoop_rule (P := fun s => s.bitsLeft = n - s.bits ∧
    ∀ c ∈ s.copies, c.off + c.len ≤ (xvcTotalBytes n).toNat) ?_ k (xvcStart n regs buf) ?_).2
  swap
  · exact ⟨by simp [xvcStart], by simp [xvcStart]⟩
  · rintro s hrun ⟨hleft, hcopies⟩
    have hin (area : XvcArea) := roundCopy_inside area hn hrun.2 hleft
    by_cases hout : (dev s.shifts.length).TimesOut
    · rw [xvcRound_timesOut hout]
      refine ⟨hleft, ?_⟩
      simp only [List.mem_append, List.mem_cons, List.not_mem_nil, or_false]
      rintro c (hc | rfl | rfl)
      · exact hcopies c hc
      · exact hin .tms
      · exact hin .tdi
    · rw [xvcRound_answered hout]
      refine ⟨?_, ?_⟩
      · dsimp only
        rw [hleft, BitVec.sub_sub]
      · simp only [List.mem_append, List.mem_cons, List.not_mem_nil, or_false]
        rintro c ((hc | rfl | rfl) | rfl)
        · exact hcopies c hc
        · exact hin .tms
        · exact hin .tdi
        · exact hin .tdo

theorem xvcTotalBytes_alloc (n : U32) : (xvcTotalBytes n * 3).toNat = 3 * (xvcTotalBytes n).toNat := by
  have hthree : (3 : U32).toNat = 3 := rfl
  have hsmall : (xvcTotalBytes n).toNat < 2 ^ 29 := by
    have hlt := (n + 7).isLt
    rw [xvcTotalBytes, BitVec.toNat_ushiftRight, Nat.shiftRight_eq_div_pow]
    omega
  rw [BitVec.toNat_mul, hthree]
  omega

theorem not_shiftsBounded_of_noBytes (regs : XvcRegs) (buf : ℕ → U8) (hn : 2 ^ 32 - 8 < n.toNat) :
    ¬ ShiftsBounded n dev regs buf := by
  intro h
  have hat : AtRound n 0 (xvcStart n regs buf) := .start n regs buf
  have hrun : (xvcStart n regs buf).Running n := by
    rw [hat.running_iff]
    omega
  have hin := h.inside 1 (roundCopy (xvcStart n regs buf) .tms) ?_
  · rw [xvcTotalBytes_of_wrap hn, roundCopy_len] at hin
    change _ + min 4 ((n.toNat + 7) / 8) ≤ 0 at hin
    omega
  · rw [xvcLoop, if_pos hrun]
    change _ ∈ (xvcRound _ _ _).copies
    by_cases hout : (dev (xvcStart n regs buf).shifts.length).TimesOut
    · rw [xvcRound_timesOut hout]
      simp
    · rw [xvcRound_answered hout]
      simp

theorem not_shiftsBounded_of_endless (regs : XvcRegs) (buf : ℕ → U8) (hn : 2 ^ 32 - 32 < n.toNat)
    (hdev : ∀ j < 2 ^ 27, ¬ (dev j).TimesOut) : ¬ ShiftsBounded n dev regs buf := by
  intro h
  have hlt := n.isLt
  obtain ⟨k, hk, hended, -, -⟩ := h.ends
  have hk : k ≤ 2 ^ 27 := by
    unfold shiftsFor at hk
    omega
  have hat := xvcLoop_atRound (n := n) (xvcTotalBytes n) regs buf k
    fun j hj => ⟨hdev j (by omega), by omega⟩
  rw [hat.running_iff] at hended
  omega

theorem shiftsBounded_iff (n : U32) (dev : ℕ → XvcAnswer) (regs : XvcRegs) (buf : ℕ → U8) :
    ShiftsBounded n dev regs buf ↔
      n.toNat ≤ 2 ^ 32 - 32 ∨ n.toNat ≤ 2 ^ 32 - 8 ∧ ∃ j < 2 ^ 27, (dev j).TimesOut := by
  constructor
  · intro h
    by_contra hcond
    rw [not_or, not_and_or, not_le, not_le] at hcond
    rcases hcond.2 with hwrap | hnone
    · exact not_shiftsBounded_of_noBytes regs buf hwrap h
    · have hdev : ∀ j < 2 ^ 27, ¬ (dev j).TimesOut := fun j hj hout => hnone ⟨j, hj, hout⟩
      exact not_shiftsBounded_of_endless regs buf hcond.1 hdev h
  · intro h
    refine ⟨xvcLoop_ends regs buf (h.imp_right And.right), ?_, xvcTotalBytes_alloc n⟩
    apply xvcLoop_inside
    omega

theorem shiftsBounded_max : ¬ ∀ (n : U32) (dev : ℕ → XvcAnswer) (regs : XvcRegs) (buf : ℕ → U8),
    ShiftsBounded n dev regs buf := fun h =>
  @not_shiftsBounded_of_endless 0xffffffe1 (fun _ => {}) {} (fun _ => 0) (by decide)
    (fun _ _ => by decide) (h _ _ _ _)

end

def shiftOf (n : U32) (buf : ℕ → U8) (k : ℕ) : XvcRegs :=
  let word (area : XvcArea) : U32 :=
    ofBytes 32 (fun i => buf (area.start (xvcTotalBytes n) + (4 * k + i)))
    (min 4 ((n.toNat - 32 * k + 7) / 8))
  { length := BitVec.ofNat 32 (min 32 (n.toNat - 32 * k)), tms := word .tms, tdi := word .tdi }

structure Shifted (n : U32) (dev : ℕ → XvcAnswer) (buf : ℕ → U8) (k : ℕ) (s : XvcLoop) : Prop where
  round : AtRound n k s
  length : 32 * (k + 1) ≤ n.toNat → s.regs.length = 32
  kept : ∀ p < XvcArea.tdo.start (xvcTotalBytes n), s.buf p = buf p
  shifts : s.shifts = (List.range k).map (shiftOf n buf)
  tdo : ∀ b < min n.toNat (32 * k),
    bitAt (fun i => s.buf (XvcArea.tdo.start (xvcTotalBytes n) + i)) b = (dev (b / 32)).tdo.getLsbD (b % 32)

section

variable {n : U32} {dev : ℕ → XvcAnswer} {regs : XvcRegs} {buf : ℕ → U8} {k : ℕ} {s : XvcLoop}

theorem Shifted.start : Shifted n dev buf 0 (xvcStart n regs buf) := by
  refine ⟨.start n regs buf, ?_, fun _ _ => rfl, rfl, by simp⟩
  intro hn
  have hword : (32 : U32) ≤ n := by
    rw [BitVec.le_def]
    exact hn
  rw [xvcStart, if_pos hword]

theorem AtRound.bitsLeft_toNat (h : AtRound n k s) (hk : 32 * k < n.toNat) :
    s.bitsLeft.toNat = n.toNat - 32 * k := by
  have hlt := n.isLt
  have hbits : s.bits.toNat = 32 * k := by
    rw [h.bits, BitVec.toNat_ofNat]
    omega
  rw [h.bitsLeft, BitVec.toNat_sub_of_le (by rw [BitVec.le_def]; omega), hbits]

theorem AtRound.copy (h : AtRound n k s) (hk : 32 * k < n.toNat) (area : XvcArea) :
    (roundCopy s area).off = 4 * k ∧ (roundCopy s area).len = min 4 ((n.toNat - 32 * k + 7) / 8) := by
  have hlt := n.isLt
  refine ⟨?_, ?_⟩
  · rw [roundCopy_off, h.bits, BitVec.toNat_ofNat]
    omega
  · rw [roundCopy_len, h.bitsLeft_toNat hk]

theorem Shifted.regs_eq (h : Shifted n dev buf k s) (hn : n.toNat ≤ 2 ^ 32 - 32) (hk : 32 * k < n.toNat) :
    roundRegs (xvcTotalBytes n) s = shiftOf n buf k := by
  have hleft := h.round.bitsLeft_toNat hk
  have hbytes := xvcTotalBytes_toNat (n := n) (by omega)
  have hword (area : XvcArea) (harea : area ≠ .tdo) : roundWord (xvcTotalBytes n) s area =
      ofBytes 32 (fun i => buf (area.start (xvcTotalBytes n) + (4 * k + i)))
        (min 4 ((n.toNat - 32 * k + 7) / 8)) := by
    obtain ⟨hoff, hlen⟩ := h.round.copy hk area
    rw [roundWord, hoff, hlen]
    apply ofBytes_congr
    intro i hi
    apply h.kept
    -- the word ends inside its area
    cases area with
    | tms =>
      simp only [XvcArea.start]
      omega
    | tdi =>
      simp only [XvcArea.start]
      omega
    | tdo => exact absurd rfl harea
  have hlength : (if s.bitsLeft < 32 then s.bitsLeft else s.regs.length) =
      BitVec.ofNat 32 (min 32 (n.toNat - 32 * k)) := by
    have hthirtyTwo : (32 : U32).toNat = 32 := rfl
    split_ifs with hlast
    · rw [BitVec.lt_def, hleft, hthirtyTwo] at hlast
      rw [min_eq_right hlast.le, ← hleft, BitVec.ofNat_toNat, BitVec.setWidth_eq]
    · rw [BitVec.lt_def, hleft, hthirtyTwo] at hlast
      rw [h.length (by omega), min_eq_left (by omega)]
      rfl
  rw [roundRegs, shiftOf, hword .tms (by decide), hword .tdi (by decide), hlength]

theorem storeWord_before {off len p : ℕ} (x : U32) (hp : p < off) : storeWord buf off len x p = buf p :=
  if_neg (by omega)

theorem storeWord_at {off len i : ℕ} (x : U32) (hi : i < len) :
    storeWord buf off len x (off + i) = byteAt x i := by
  rw [storeWord, if_pos (by omega), Nat.add_sub_cancel_left]

theorem Shifted.step (h : Shifted n dev buf k s) (hn : n.toNat ≤ 2 ^ 32 - 32) (hk : 32 * k < n.toNat)
    (hdev : ¬ (dev k).TimesOut) : Shifted n dev buf (k + 1) (xvcRound (xvcTotalBytes n) dev s) := by
  have hregs := h.regs_eq hn hk
  obtain ⟨hoff, hlen⟩ := h.round.copy hk .tdo
  have hround := h.round.round (xvcTotalBytes n) hdev
  rw [xvcRound_answered (by rwa [h.round.shifts])] at hround ⊢
  rw [h.round.shifts, hoff, hlen, hregs] at hround ⊢
  refine ⟨hround, ?_, ?_, ?_, ?_⟩
  · intro hfull
    dsimp only
    rw [shiftOf, min_eq_left (by omega)]
    rfl
  · intro p hp
    dsimp only
    rw [storeWord_before _ (by omega)]
    exact h.kept p hp
  · dsimp only
    rw [h.shifts, List.range_succ, List.map_append]
    rfl
  · intro b hb
    rw [bitAt]
    dsimp only
    by_cases hold : b < 32 * k
    · rw [storeWord_before _ (by omega)]
      exact h.tdo b (by omega)
    · have hbyte : b / 8 = 4 * k + (b / 8 - 4 * k) := by omega
      have hword : b / 32 = k := by omega
      rw [hbyte, ← Nat.add_assoc, storeWord_at _ (by omega),
        getLsbD_byteAt _ _ (Nat.mod_lt b (by decide)), hword]
      congr 1
      omega

theorem xvcLoop_shifted (hn : n.toNat ≤ 2 ^ 32 - 32) (k : ℕ)
    (h : ∀ j < k, ¬ (dev j).TimesOut ∧ 32 * j < n.toNat) :
    Shifted n dev buf k (xvcLoop n (xvcTotalBytes n) dev k (xvcStart n regs buf)) := by
  induction k with
  | zero => exact .start
  | succ k ih =>
    have hat := ih fun j hj => h j (by omega)
    obtain ⟨hout, hk⟩ := h k (by omega)
    rw [xvcLoop_succ]
    · exact hat.step hn hk hout
    · rw [hat.round.running_iff]
      omega

variable (regs buf) in
theorem xvcLoop_all (hn : n.toNat ≤ 2 ^ 32 - 32) (hdev : ∀ j < shiftsFor n, ¬ (dev j).TimesOut) {fuel : ℕ}
    (hfuel : shiftsFor n ≤ fuel) :
    Shifted n dev buf (shiftsFor n) (xvcLoop n (xvcTotalBytes n) dev fuel (xvcStart n regs buf)) ∧
      ¬ (xvcLoop n (xvcTotalBytes n) dev fuel (xvcStart n regs buf)).Running n := by
  have hcount : shiftsFor n = (n.toNat + 31) / 32 := rfl
  have hshifted : Shifted n dev buf (shiftsFor n) (xvcLoop n (xvcTotalBytes n) dev (shiftsFor n)
      (xvcStart n regs buf)) := xvcLoop_shifted hn (shiftsFor n) fun j hj => ⟨hdev j hj, by omega⟩
  have hended : ¬ (xvcLoop n (xvcTotalBytes n) dev (shiftsFor n) (xvcStart n regs buf)).Running n := by
    rw [hshifted.round.running_iff]
    omega
  rw [← Nat.add_sub_cancel' hfuel, xvcLoop_add, xvcLoop_of_ended _ hended]
  exact ⟨hshifted, hended⟩

theorem shiftOf_bits {area : XvcArea} (hk : 32 * k < n.toNat) {i : ℕ} (hi : i < min 32 (n.toNat - 32 * k)) :
    (ofBytes 32 (fun i => buf (area.start (xvcTotalBytes n) + (4 * k + i)))
      (min 4 ((n.toNat - 32 * k + 7) / 8))).getLsbD i =
      bitAt (fun p => buf (area.start (xvcTotalBytes n) + p)) (32 * k + i) := by
  rw [getLsbD_ofBytes _ _ (by omega), bitAt_add (fun p => buf (area.start (xvcTotalBytes n) + p)) (4 * k) i]
  simp only [← Nat.mul_assoc, Nat.reduceMul, Bool.and_eq_right_iff_imp, decide_eq_true_eq]
  omega

end

def presented (line : XvcRegs → U32) (shifts : List XvcRegs) : List Bool :=
  shifts.flatMap fun x => (List.range x.length.toNat).map (line x).getLsbD

theorem presented_shiftOf (area : XvcArea) {n : U32} {buf : ℕ → U8} {line : XvcRegs → U32} {bits : ℕ → U8}
    (hline : ∀ k, line (shiftOf n buf k) = ofBytes 32 (fun i =>
      buf (area.start (xvcTotalBytes n) + (4 * k + i)))
      (min 4 ((n.toNat - 32 * k + 7) / 8)))
    (harea : ∀ p < (n.toNat + 7) / 8, buf (area.start (xvcTotalBytes n) + p) = bits p) :
    presented line ((List.range (shiftsFor n)).map (shiftOf n buf)) =
      (List.range n.toNat).map (bitAt bits) := by
  have hcount : shiftsFor n = (n.toNat + 31) / 32 := rfl
  have hwords := flatMap_words (bitAt bits) 32 n.toNat (shiftsFor n)
  rw [min_eq_left (by omega)] at hwords
  rw [presented, List.flatMap_map, ← hwords]
  apply List.flatMap_congr
  intro k hk
  have hk := List.mem_range.mp hk
  have hlength : (shiftOf n buf k).length.toNat = min 32 (n.toNat - 32 * k) := by
    rw [shiftOf, BitVec.toNat_ofNat]
    omega
  rw [hlength]
  apply List.map_congr_left
  intro i hi
  have hi := List.mem_range.mp hi
  rw [hline, shiftOf_bits (by omega) hi, bitAt, bitAt, harea _ (by omega)]

/-- The checks, the copies from the user and the allocation of one call succeed. -/
structure XvcEnv.Accepts (env : XvcEnv) (ioc : XvcIoc) : Prop where
  check : 0 ≤ env.xcdevCheck
  cmd : env.isXvcCmd = true
  copyIoc : env.copyIoc = 0
  opcode : ioc.opcode = 0x01 ∨ ioc.opcode = 0x02
  kmalloc : env.kmalloc = true
  copyTms : env.copyTms = 0
  copyTdi : env.copyTdi = 0

theorem XvcEnv.Accepts.run {env : XvcEnv} {ioc : XvcIoc} (h : env.Accepts ioc)
    (hn : ioc.length.toNat ≤ 2 ^ 32 - 32)
    (hdev : ∀ j < shiftsFor ioc.length, ¬ (env.dev j).TimesOut) {fuel : ℕ}
      (hfuel : shiftsFor ioc.length ≤ fuel) :
    ∃ s, Shifted ioc.length env.dev (xvcBuffer ioc env.fresh) (shiftsFor ioc.length) s ∧
      xvcIoctl fuel env ioc = some {
        rv := env.copyTdo
        shifts := s.shifts
        copies := s.copies
        userTdo := some ((List.range ((xvcTotalBytes ioc.length).toNat - env.copyTdo)).map fun i =>
          s.buf ((if ioc.opcode = 0x02 then XvcArea.tdi
          else XvcArea.tdo).start (xvcTotalBytes ioc.length) + i)) } := by
  obtain ⟨hshifted, hended⟩ := xvcLoop_all env.regs (xvcBuffer ioc env.fresh) hn hdev hfuel
  refine ⟨_, hshifted, ?_⟩
  have hop : ¬ (ioc.opcode ≠ 0x01 ∧ ioc.opcode ≠ 0x02) := by
    rw [not_and_or, not_not, not_not]
    exact h.opcode
  have hrv : ¬ (xvcLoop ioc.length (xvcTotalBytes ioc.length) env.dev fuel
      (xvcStart ioc.length env.regs (xvcBuffer ioc env.fresh))).rv < 0 := by
    rw [hshifted.round.rv]
    exact lt_irrefl 0
  unfold xvcIoctl
  rw [if_neg (not_lt.mpr h.check), if_neg (by simp [h.cmd]), if_neg (by simp [h.copyIoc]), if_neg hop,
    if_neg (by simp [h.kmalloc]), if_neg (by simp [h.copyTms]), if_neg (by simp [h.copyTdi])]
  dsimp only
  rw [if_neg hended, if_neg hrv]

theorem xvcIoctl_lossless {fuel : ℕ} {env : XvcEnv} {ioc : XvcIoc} (h : env.Accepts ioc)
    (hn : ioc.length.toNat ≤ 2 ^ 32 - 32)
    (hdev : ∀ j < shiftsFor ioc.length, ¬ (env.dev j).TimesOut) (hfuel : shiftsFor ioc.length ≤ fuel) :
    ∃ r, xvcIoctl fuel env ioc = some r ∧ r.rv = env.copyTdo ∧ r.shifts.length = shiftsFor ioc.length ∧
      (∀ k x, r.shifts[k]? = some x → x.length.toNat = min 32 (ioc.length.toNat - 32 * k)) ∧
      presented XvcRegs.tms r.shifts = (List.range ioc.length.toNat).map (bitAt ioc.tmsBuf) ∧
      presented XvcRegs.tdi r.shifts = (List.range ioc.length.toNat).map (bitAt ioc.tdiBuf) ∧
      (ioc.opcode = 0x01 → ∃ bytes, r.userTdo = some bytes ∧
        bytes.length = (ioc.length.toNat + 7) / 8 - env.copyTdo ∧
        ∀ b < ioc.length.toNat, b / 8 < bytes.length →
          bitAt (fun i => bytes.getD i 0) b = (env.dev (b / 32)).tdo.getLsbD (b % 32)) := by
  obtain ⟨s, hs, hrun⟩ := h.run hn hdev hfuel
  have hbytes := xvcTotalBytes_toNat (n := ioc.length) (by omega)
  have hcount : shiftsFor ioc.length = (ioc.length.toNat + 31) / 32 := rfl
  refine ⟨_, hrun, rfl, ?_, ?_, ?_, ?_, ?_⟩
  · exact hs.round.shifts
  · intro k x hx
    dsimp only at hx
    rw [hs.shifts, List.getElem?_map, Option.map_eq_some_iff] at hx
    obtain ⟨j, hj, rfl⟩ := hx
    obtain ⟨hlt, rfl⟩ := List.getElem?_eq_some_iff.mp hj
    rw [List.getElem_range, shiftOf, BitVec.toNat_ofNat]
    omega
  · dsimp only
    rw [hs.shifts]
    apply presented_shiftOf .tms fun _ => rfl
    intro p hp
    rw [XvcArea.start, Nat.zero_add, xvcBuffer]
    exact if_pos (by omega)
  · dsimp only
    rw [hs.shifts]
    apply presented_shiftOf .tdi fun _ => rfl
    intro p hp
    rw [XvcArea.start, xvcBuffer]
    dsimp only
    rw [if_neg (by omega), if_pos (by omega), Nat.add_sub_cancel_left]
  · intro hop
    have hne : ioc.opcode ≠ 0x02 := by
      rw [hop]
      decide
    refine ⟨_, rfl, ?_, ?_⟩
    · rw [List.length_map, List.length_range, hbytes]
    · intro b hb hin
      rw [List.length_map, List.length_range] at hin
      have htdo := hs.tdo b (by omega)
      rw [← htdo, bitAt, bitAt, List.getD_eq_getElem?_getD, List.getElem?_map,
        List.getElem?_range hin, if_neg hne]
      rfl

theorem xvcIoctl_lossless_two :
    let env : XvcEnv := { dev := fun k => { tdo := if k = 0 then 0x89abcdef else 0x15 } }
    let ioc : XvcIoc := { opcode := 1, length := 37, tmsBuf := fun i => BitVec.ofNat 8 i, tdiBuf := fun _ => 0x5a }
    ∃ r, xvcIoctl 2 env ioc = some r ∧ r.shifts.length = 2 ∧
      presented XvcRegs.tms r.shifts = (List.range 37).map (bitAt ioc.tmsBuf) := by
  intro env ioc
  have haccepts : env.Accepts ioc := ⟨by decide, rfl, rfl, .inl rfl, rfl, rfl, rfl⟩
  obtain ⟨r, hrun, -, hcount, -, htms, -, -⟩ :=
    @xvcIoctl_lossless 2 _ _ haccepts (by decide) (by decide) (by decide)
  exact ⟨r, hrun, hcount.trans (by decide), htms⟩

end XdmaDriver
