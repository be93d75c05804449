import XdmaDriver.ApertureRestarts
import XdmaDriver.ApertureWalk

/-!
What a pass of the loop of `xdma_xfer_aperture` adds to the chain and to the offset, for
any aperture and any window, and which calls make progress in every pass.
-/

namespace XdmaDriver

open Drv

def passWalk (w : ApertureWindow) (aperture : U32) (slots : ℕ) (off : U32) (lens : List U32) : WindowWalk :=
  walkLens w ⟨slots, w.base + (off &&& (aperture - 1)).setWidth 64, off⟩ (leftLens off lens)

def CutsFirst (w : ApertureWindow) (aperture : U32) (slots : ℕ) (off : U32) (lens : List U32) : Prop :=
  (walkEntry w slots (w.base + (off &&& (aperture - 1)).setWidth 64) off (lens.headD 0 - off)).2 ≠ 0

instance (w : ApertureWindow) (aperture : U32) (slots : ℕ) (off : U32) (lens : List U32) :
    Decidable (CutsFirst w aperture slots off lens) :=
  inferInstanceAs (Decidable (_ ≠ _))

/-- With `slots` free at each of the passes, the 32-bit offset ends every one of them higher
than it began, and as long as it is below the sum of the lengths the cut is in the first entry. -/
def KeepsRising (w : ApertureWindow) (aperture : U32) (lens : List U32) : List ℕ → U32 → Prop
  | [], _ => True
  | slots :: rest, off =>
    off < (passWalk w aperture slots off lens).offset ∧
      (rest = [] ∨ lens.sum ≤ (passWalk w aperture slots off lens).offset ∨
        CutsFirst w aperture slots off lens ∧
          KeepsRising w aperture lens rest (passWalk w aperture slots off lens).offset)

instance KeepsRising.decidable (w : ApertureWindow) (aperture : U32) (lens : List U32) :
    ∀ (slots : List ℕ) (off : U32), Decidable (KeepsRising w aperture lens slots off)
  | [], _ => inferInstanceAs (Decidable True)
  | slots :: rest, off =>
    have := KeepsRising.decidable w aperture lens rest (passWalk w aperture slots off lens).offset
    inferInstanceAs (Decidable (_ ∧ (_ ∨ _ ∨ _ ∧ _)))

section

variable {p : Params} {epAddr : U64} {aperture : U32} {w : ApertureWindow}
    (hw : w = apertureWindow p epAddr aperture)
  (hmaxlen : w.maxlen ≠ 0) (hend : epAddr.toNat + aperture.toNat ≤ 2 ^ 64)

include hw hmaxlen hend

theorem windowDesc_len (ep₀ : U64) {tlen : U32} (hlen : tlen ≠ 0) :
    (windowDesc w ep₀ tlen).2 ≠ 0 ∧ (windowDesc w ep₀ tlen).2.toNat ≤ tlen.toNat := by
  obtain ⟨ep, l₀, l, hep, hl₀, hl, heq⟩ :=
    apertureDesc_eq w .toDevice 0 tlen ⟨({} : XdmaEngine).desc, 0, 0, 0, 0, ep₀⟩
  obtain rfl : (windowDesc w ep₀ tlen).2 = l := congrArg Prod.snd heq
  generalize (windowDesc w ep₀ tlen).2 = l at *
  dsimp only at hep
  have hbase : w.base = epAddr := by rw [hw]; rfl
  have hone : (1 : U64).toNat = 1 := rfl
  have hlast : w.last.toNat = (epAddr.toNat + aperture.toNat + (2 ^ 64 - 1)) % 2 ^ 64 := by
    have hlt := aperture.isLt
    rw [hw]
    simp only [apertureWindow, BitVec.toNat_sub, BitVec.toNat_add, BitVec.toNat_setWidth, hone]
    omega
  have hmax : w.maxlen.toNat ≤ aperture.toNat := by
    rw [hw]
    simp only [apertureWindow, BitVec.lt_def]
    split_ifs <;> omega
  have hzero (x : U32) : x ≠ 0 ↔ x.toNat ≠ 0 := by
    rw [ne_eq, ne_eq, ← BitVec.toNat_inj]
    exact Iff.rfl
  have hstart : ep.toNat = epAddr.toNat ∨ ep.toNat ≤ w.last.toNat := by
    rw [hep]
    split_ifs with hgt
    · exact .inl (by rw [hbase])
    · rw [BitVec.lt_def] at hgt
      exact .inr (not_lt.mp hgt)
  rw [hzero] at hlen hmaxlen ⊢
  have := aperture.isLt
  have := epAddr.isLt
  have := ep.isLt
  split_ifs at hl <;> omega

theorem walkEntry_moves (slots : ℕ) : ∀ (ep₀ : U64) (off tlen : U32), ∃ m,
    (walkEntry w slots ep₀ off tlen).1.offset = off + BitVec.ofNat 32 m ∧ m ≤ tlen.toNat ∧
      (slots ≠ 0 → tlen ≠ 0 → m ≠ 0) := by
  induction slots with
  | zero => exact fun _ off _ => ⟨0, (add_zero off).symm, Nat.zero_le _, fun h => absurd rfl h⟩
  | succ slots ih =>
    intro ep₀ off tlen
    unfold walkEntry
    by_cases hz : tlen = 0
    · rw [if_pos hz]
      exact ⟨0, (add_zero off).symm, Nat.zero_le _, fun _ h => absurd hz h⟩
    rw [if_neg hz]
    obtain ⟨hne, hle⟩ := windowDesc_len hw hmaxlen hend ep₀ hz
    dsimp only
    generalize (windowDesc w ep₀ tlen).2 = l at *
    obtain ⟨m, hoff, hm, -⟩ := ih ((windowDesc w ep₀ tlen).1 + l.setWidth 64) (off + l) (tlen - l)
    have hsub : (tlen - l).toNat = tlen.toNat - l.toNat := BitVec.toNat_sub_of_le hle
    refine ⟨l.toNat + m, ?_, by omega, fun _ _ h =>
      hne (BitVec.eq_of_toNat_eq (Nat.eq_zero_of_add_eq_zero h).1)⟩
    rw [hoff, BitVec.ofNat_add, BitVec.ofNat_toNat, BitVec.setWidth_eq, add_assoc]

theorem walkLens_moves (ls : List U32) : ∀ k : WindowWalk, ∃ m,
    (walkLens w k ls).offset = k.offset + BitVec.ofNat 32 m ∧ m ≤ (ls.map BitVec.toNat).sum ∧
      (k.slots ≠ 0 → ls.headD 0 ≠ 0 → m ≠ 0) := by
  induction ls with
  | nil => exact fun k => ⟨0, (add_zero k.offset).symm, Nat.zero_le _, fun _ h => absurd rfl h⟩
  | cons l ls ih =>
    intro k
    unfold walkLens
    rw [List.map_cons, List.sum_cons]
    split_ifs with hs
    · exact ⟨0, (add_zero k.offset).symm, Nat.zero_le _, fun h => absurd hs h⟩
    obtain ⟨m, hoff, hm, hpos⟩ := walkEntry_moves hw hmaxlen hend k.slots k.epAddr k.offset l
    dsimp only
    split_ifs
    · obtain ⟨m', hoff', hm', -⟩ := ih (walkEntry w k.slots k.epAddr k.offset l).1
      refine ⟨m + m', ?_, Nat.add_le_add hm hm', fun hs hl => ?_⟩
      · rw [hoff', hoff, BitVec.ofNat_add, add_assoc]
      · exact fun h => hpos hs hl (Nat.eq_zero_of_add_eq_zero h).1
    · exact ⟨m, hoff, hm.trans (Nat.le_add_right _ _), hpos⟩

theorem passWalk_rises {lens : List U32} (hsmall : (lens.map BitVec.toNat).sum < 2 ^ 32) {slots : ℕ}
    (hslots : slots ≠ 0) {off : U32} (hin : off < lens.headD 0) :
    off < (passWalk w aperture slots off lens).offset := by
  cases lens with
  | nil => exact absurd hin BitVec.not_lt_zero
  | cons l ls =>
    rw [List.headD_cons, BitVec.lt_def] at hin
    obtain ⟨m, hoff, hm, hpos⟩ := walkLens_moves hw hmaxlen hend (leftLens off (l :: ls))
      ⟨slots, w.base + (off &&& (aperture - 1)).setWidth 64, off⟩
    have hsub : (l - off).toNat = l.toNat - off.toNat := BitVec.toNat_sub_of_le (Nat.le_of_lt hin)
    have hm0 := hpos hslots fun h => by
      have hz : (l - off).toNat = 0 := congrArg BitVec.toNat h
      omega
    rw [leftLens, List.map_cons, List.sum_cons, hsub] at hm
    rw [List.map_cons, List.sum_cons] at hsmall
    rw [passWalk, hoff]
    dsimp only
    rw [BitVec.lt_def, BitVec.toNat_add, BitVec.toNat_ofNat]
    omega

end

namespace XferCall

def lensLeft (c : XferCall) : List U32 :=
  leftLens c.req.sgOffset ((c.sgt.entries.take (c.sgt.nents - c.req.sgIdx)).map SgEntry.dmaLen)

def SomeLeft (c : XferCall) : Prop := ∃ l ∈ c.lensLeft, l ≠ 0

instance (c : XferCall) : Decidable c.SomeLeft := List.decidableBEx (· ≠ 0) c.lensLeft

def slotsLeft (c : XferCall) : ℕ := c.drv.eng.descMax - c.drv.eng.descIdx

def walkLeft (p : Params) (c : XferCall) : WindowWalk :=
  walkLens (apertureWindow p c.req.epAddr c.req.aperture) (c.apertureStart.walk c.drv.eng.descMax) c.lensLeft

def chainPasses (more : XferCall → Bool) (pass : ChainEnv → XferCall → Option (XferCall × ℤ)) :
    List ChainEnv → XferCall → List (ChainEnv × XferCall)
  | [], _ => []
  | env :: envs, c =>
    if more c then
      (env, c) :: match pass env c with
        | none => []
        | some (c, rv) => if rv < 0 then [] else chainPasses more pass envs c
    else []

variable (p : Params) (own : ℕ) (dmaMapped : Bool)

def aperturePass (env : ChainEnv) (c : XferCall) : Option (XferCall × ℤ) :=
  (c.apertureChain p own dmaMapped env.dump).map fun (c, tr) => c.queueAndWait p own apertureDone env tr

def aperturePasses (envs : List ChainEnv) (c : XferCall) : List (ChainEnv × XferCall) :=
  chainPasses (fun c => c.req.offset < c.req.totalLen) (aperturePass p own dmaMapped) envs c

def Progresses (env : ChainEnv) (c : XferCall) : Prop :=
  ∃ r tr, aperturePass p own dmaMapped env c = some r ∧ r.1.chains = c.chains ++ [tr] ∧
    (∃ d ∈ tr.descs own, d.bytes ≠ 0) ∧ c.req.offset < r.1.req.offset

section

variable {more : XferCall → Bool} {pass : ChainEnv → XferCall → Option (XferCall × ℤ)} {I : XferCall → Prop}

theorem chainPasses_invariant (hpass : ∀ env c r, I c → more c = true → pass env c = some r → 0 ≤ r.2 → I r.1)
    (envs : List ChainEnv) : ∀ {c : XferCall}, I c → ∀ x ∈ chainPasses more pass envs c, I x.2 ∧
      more x.2 = true := by
  induction envs with
  | nil => simp [chainPasses]
  | cons env envs ih =>
    intro c h x hx
    unfold chainPasses at hx
    split_ifs at hx with hm
    swap
    · exact absurd hx List.not_mem_nil
    rcases List.mem_cons.mp hx with rfl | hx
    · exact ⟨h, hm⟩
    cases hr : pass env c with
    | none =>
      rw [hr] at hx
      exact absurd hx List.not_mem_nil
    | some r =>
      obtain ⟨c', rv⟩ := r
      rw [hr] at hx
      dsimp only at hx
      split_ifs at hx with hneg
      · exact absurd hx List.not_mem_nil
      · exact ih (hpass env c _ h hm hr (not_lt.mp hneg)) x hx

theorem chainLoop_overrun (envs : List ChainEnv) : ∀ c : XferCall,
    (chainLoop more pass envs c).2 = .overrun ↔ ∃ x ∈ chainPasses more pass envs c, pass x.1 x.2 = none := by
  induction envs with
  | nil =>
    intro c
    unfold chainLoop chainPasses
    split_ifs <;> simp
  | cons env envs ih =>
    intro c
    unfold chainLoop chainPasses
    split_ifs with hm
    swap
    · simp
    cases hr : pass env c with
    | none => exact iff_of_true rfl ⟨(env, c), List.mem_cons_self, hr⟩
    | some r =>
      obtain ⟨c', rv⟩ := r
      dsimp only
      split_ifs
      · simp [hr]
      · rw [ih c', List.exists_mem_cons_iff]
        simp [hr]

theorem chainPasses_terminates {P : ChainEnv → XferCall → Prop} (left : XferCall → ℕ)
    (hmore : ∀ c, more c = true → 0 < left c)
    (hpass : ∀ env c r, I c → more c = true → P env c → pass env c = some r → 0 ≤ r.2 → I r.1 ∧
      left r.1 < left c)
    (envs : List ChainEnv) : ∀ {c : XferCall}, I c → (∀ x ∈ chainPasses more pass envs c, P x.1 x.2) →
      left c ≤ envs.length → (chainLoop more pass envs c).2 ≠ .waiting := by
  induction envs with
  | nil =>
    intro c _ _ hl
    unfold chainLoop
    split_ifs with hm
    · exact absurd (hmore c hm) (not_lt.mpr hl)
    · simp
  | cons env envs ih =>
    intro c hI hP hl
    unfold chainLoop
    unfold chainPasses at hP
    split_ifs at hP ⊢ with hm
    swap
    · simp
    cases hr : pass env c with
    | none => simp
    | some r =>
      have hnext := hpass env c r hI hm (hP (env, c) List.mem_cons_self) hr
      obtain ⟨c', rv⟩ := r
      rw [hr] at hP
      dsimp only at hP ⊢
      split_ifs at hP ⊢ with hneg
      · simp
      · obtain ⟨hI', hlt⟩ := hnext (not_lt.mp hneg)
        rw [List.length_cons] at hl
        exact ih hI' (fun x hx => hP x (List.mem_cons_of_mem _ hx)) (by dsimp only at hlt; omega)

end

section

variable {p : Params} {own : ℕ} {epAddr : U64} {aperture : U32}

variable (own) in
theorem queueAndWait_descIdx {account : XferCall → XdmaTransfer → XferCall} (hacc : Bookkeeping account)
    (env : ChainEnv) (hno : ∀ st ∈ env.during, st.isBuild = false) (tr : ChainTrace) (c : XferCall) :
    (c.queueAndWait p own account env tr).1.drv.eng.descIdx = c.drv.eng.descIdx := by
  by_cases ha : c.drv.Accepts ⟨own, 0⟩
  swap
  · obtain ⟨hq, hrv⟩ := transferQueue_refused (p := p) (w := env.startStatus) ha
    simp only [queueAndWait, hrv, ↓reduceIte, hq]
  obtain ⟨hq, hrv⟩ := transferQueue_accepted (p := p) (w := env.startStatus) ha
  have hsteps : ((c.drv.transferQueue p ⟨own, 0⟩ env.startStatus).1.engineSteps p own
    env.during).eng.descIdx = _ :=
    engineSteps_descIdx env.during hno
  simp only [queueAndWait, hrv, lt_self_iff_false, ↓reduceIte]
  generalize (c.drv.transferQueue p ⟨own, 0⟩ env.startStatus).1.engineSteps p own env.during = d at *
  obtain ⟨hdrv, -, -, -⟩ := hacc { c with drv := d, chains := c.chains ++ [{ tr with woken := some d }] }
    (d.tfer ⟨own, 0⟩)
  rw [unmapLast_drv]
  dsimp only
  rw [hdrv, (transferDestroy_sameConfig _ _).2, (waitEnd_sameConfig _ _ _ _).2]
  dsimp only
  rw [hsteps, hq.ring.descIdx]

structure ChainFollows (p : Params) (own : ℕ) (c c' : XferCall) (tr : ChainTrace) : Prop where
  left : c.SomeLeft
  bytes : (c.walkLeft p).offset ≠ c.req.offset → ∃ d ∈ tr.descs own, d.bytes ≠ 0
  req : ∃ sgOffset sgIdx, c'.req = { c.req with offset := (c.walkLeft p).offset, sgOffset := sgOffset, sgIdx := sgIdx }
  sgt : c'.sgt = c.sgt
  last : (c'.drv.tfer ⟨own, 0⟩).lastInRequest = true → c'.req.offset = c'.req.totalLen
  first : c.req.sgIdx = 0 → 0 < c.sgt.nents → ∀ sg ∈ c.sgt.entries.head?,
    (c'.req.sgIdx = 0 ↔ (walkEntry (apertureWindow p c.req.epAddr c.req.aperture) c.slotsLeft
      c.apertureStart.epAddr
      c.req.offset (sg.dmaLen - c.req.sgOffset)).2 ≠ 0) ∧
    (c'.req.sgIdx = 0 → c'.req.sgOffset - c'.req.offset = c.req.sgOffset - c.req.offset)
  later : c.req.sgIdx ≤ c'.req.sgIdx
  ring : c'.drv.eng.descIdx = (c.drv.eng.descMax - (c.walkLeft p).slots) % c.drv.eng.descMax

variable (own) in
theorem apertureChain_follows (c : XferCall) (hidx : c.drv.eng.descIdx < c.drv.eng.descMax) (dmaMapped : Bool)
    (dump : DumpRegs) :
    (c.apertureChain p own dmaMapped dump = none ∧ ¬ c.SomeLeft ∧ (c.walkLeft p).offset = c.req.offset) ∨
      ∃ c' tr, c.apertureChain p own dmaMapped dump = some (c', tr) ∧ ChainFollows p own c c' tr := by
  obtain ⟨w, hw⟩ : ∃ w, w = apertureWindow p c.req.epAddr c.req.aperture := ⟨_, rfl⟩
  obtain ⟨r, hr⟩ : ∃ r, apertureEntries w c.drv.eng.dir c.sgt.nents c.drv.eng.descMax c.sgt.entries c.req.sgIdx
    c.apertureStart = r := ⟨_, rfl⟩
  have hfollow := apertureEntries_walk (w := w) c.drv.eng.descMax c.drv.eng.dir c.sgt.nents c.sgt.entries
    c.req.sgIdx c.apertureStart
  have hlater := le_apertureEntries (w := w) c.drv.eng.descMax c.drv.eng.dir c.sgt.nents c.sgt.entries
    c.req.sgIdx c.apertureStart
  have hwalk : c.walkLeft p = walkLens w (c.apertureStart.walk c.drv.eng.descMax)
    c.lensLeft := by rw [walkLeft, hw]
  change FollowsWalk _ _ _ (walkLens w (c.apertureStart.walk c.drv.eng.descMax) c.lensLeft) at hfollow
  rw [hr, ← hwalk] at hfollow
  rw [hr] at hlater
  obtain ⟨b, i⟩ := r
  obtain ⟨⟨hle, hmax⟩, hcursors, hmoves, -⟩ := hfollow
  dsimp only at hle hmax hcursors hmoves hlater
  have hstart : c.apertureStart.descIdx = c.drv.eng.descIdx := rfl
  rw [hstart] at hle hmax hmoves
  have hmax := hmax hidx.le
  have hslots : (c.walkLeft p).slots = c.drv.eng.descMax - b.descIdx := by rw [hcursors]
  have hoffset : (c.walkLeft p).offset = b.offset := by rw [hcursors]
  have hleft : b.descIdx - c.drv.eng.descIdx ≠ 0 ↔ c.SomeLeft := by
    have htakes := walkLens_takes w c.lensLeft (c.apertureStart.walk c.drv.eng.descMax)
    rw [← hwalk, hslots] at htakes
    have hroom : (c.apertureStart.walk c.drv.eng.descMax).slots = c.drv.eng.descMax - c.drv.eng.descIdx := rfl
    rw [hroom] at htakes
    have hsome : c.drv.eng.descMax - b.descIdx < c.drv.eng.descMax - c.drv.eng.descIdx ↔ c.SomeLeft :=
      htakes.trans (and_iff_right (Nat.sub_ne_zero_of_lt hidx))
    rw [← hsome]
    omega
  rcases apertureChain_laid own (hw ▸ hr) dmaMapped dump with ⟨hz, hnone⟩ | ⟨c', tr, hchain, hlaid⟩
  · refine .inl ⟨hnone, fun h => hleft.mpr h hz, ?_⟩
    rw [hoffset]
    by_contra hne
    obtain ⟨j, hj, hlt, -⟩ := hmoves hne
    omega
  have hnum := (apertureChain_built hchain).2.2.2.1
  rw [hlaid.xfer.2] at hnum
  refine .inr ⟨c', tr, hchain, hleft.mp hnum, fun hne => ?_, ⟨b.sgOffset, i, ?_⟩, hlaid.sgt, fun hl => ?_, ?_, ?_, ?_⟩
  · rw [hoffset] at hne
    obtain ⟨j, hj, hlt, hbytes⟩ := hmoves hne
    rw [ChainTrace.descs, hlaid.trace.2, hlaid.xfer.1, hlaid.xfer.2]
    refine ⟨_, List.mem_map.mpr ⟨j, List.mem_range'_1.mpr (by omega), rfl⟩, ?_⟩
    rwa [hlaid.desc, (apertureLink_same _ _ c.drv.eng.dir _ _ j).1]
  · rw [hlaid.req, hoffset]
  · rw [hlaid.last] at hl
    rw [hlaid.req]
    exact of_decide_eq_true hl
  · intro hsg hnents sg hhead
    obtain ⟨es, hes⟩ : ∃ es, c.sgt.entries = sg :: es := List.head?_eq_some_iff.mp hhead
    have hfirst := apertureEntries_cut (w := w) (b := c.apertureStart) c.drv.eng.descMax c.drv.eng.dir hnents
      sg es hidx
    rw [hes, hsg] at hr
    rw [hr] at hfirst
    rw [hlaid.req, ← hw]
    exact hfirst
  · rw [hlaid.req]
    exact hlater
  · rw [hlaid.ring, hslots, Nat.sub_sub_self hmax, Nat.add_sub_cancel' hle]

structure InLoop (own : ℕ) (epAddr : U64) (aperture : U32) (descMax : ℕ) (sgt : SgTable) (c : XferCall) : Prop
    extends Between own c where
  req : c.req.epAddr = epAddr ∧ c.req.aperture = aperture
  ring : c.drv.eng.descMax = descMax
  total : c.req.totalLen = (sgt.entries.map SgEntry.dmaLen).sum
  mapped : c.req.offset ≠ c.req.totalLen → c.sgt = sgt
  first : c.req.sgIdx = 0 → c.req.sgOffset = c.req.offset

variable {descMax : ℕ} {sgt : SgTable} {w : ApertureWindow} {lens : List U32}

theorem passWalk_cut {slots : ℕ} {off : U32} (hl : lens ≠ []) (h : CutsFirst w aperture slots off lens) :
    (passWalk w aperture slots off lens).slots = 0 := by
  obtain ⟨l, ls, rfl⟩ := List.exists_cons_of_ne_nil hl
  have hleft : (walkEntry w slots (w.base + (off &&& (aperture - 1)).setWidth 64) off (l - off)).2 ≠ 0 := h
  unfold passWalk
  rw [leftLens, walkLens]
  split_ifs with hs
  · exact hs
  · dsimp only
    rw [if_neg hleft]
    exact (walkEntry_slots w _ _ _ _).2 hleft

section

variable {c : XferCall} (h : InLoop own epAddr aperture descMax sgt c) (hmore : c.req.offset < c.req.totalLen)

include h hmore

theorem InLoop.sgt_eq : c.sgt = sgt := h.mapped (BitVec.ne_of_lt hmore)

theorem InLoop.entries : ∃ sg es, sgt.entries = sg :: es ∧ 0 < sgt.nents := by
  cases hes : sgt.entries with
  | nil =>
    rw [h.total, hes] at hmore
    exact absurd hmore BitVec.not_lt_zero
  | cons sg es =>
    refine ⟨sg, es, rfl, Nat.pos_of_ne_zero fun hz => ?_⟩
    rw [SgTable.entries, hz, List.take_zero] at hes
    cases hes

theorem InLoop.walk (hsg : c.req.sgIdx = 0) : c.walkLeft p =
    passWalk (apertureWindow p epAddr aperture) aperture c.slotsLeft c.req.offset
      (sgt.entries.map SgEntry.dmaLen) := by
  have hentries : sgt.entries.take sgt.nents = sgt.entries := List.take_of_length_le (List.length_take_le _ _)
  rw [walkLeft, lensLeft, h.sgt_eq hmore, hsg, Nat.sub_zero, hentries, h.first hsg, h.req.1,
    h.req.2, passWalk,
    ApertureBuild.walk, apertureStart, h.req.1, h.req.2]
  rfl

end

structure PassFollows (p : Params) (own : ℕ) (epAddr : U64) (aperture : U32) (descMax : ℕ) (sgt : SgTable)
    (env : ChainEnv) (c : XferCall) (r : XferCall × ℤ) (tr : ChainTrace) : Prop where
  chains : r.1.chains = c.chains ++ [tr]
  left : c.SomeLeft
  bytes : (c.walkLeft p).offset ≠ c.req.offset → ∃ d ∈ tr.descs own, d.bytes ≠ 0
  offset : r.1.req.offset = (c.walkLeft p).offset
  next : 0 ≤ r.2 → InLoop own epAddr aperture descMax sgt r.1
  first : c.req.sgIdx = 0 → (r.1.req.sgIdx = 0 ↔
    CutsFirst (apertureWindow p epAddr aperture) aperture c.slotsLeft
    c.req.offset (sgt.entries.map SgEntry.dmaLen))
  full : c.req.sgIdx = 0 → (∀ st ∈ env.during, st.isBuild = false) → r.1.req.sgIdx = 0 → r.1.slotsLeft = descMax

theorem aperturePass_follows {c : XferCall} (h : InLoop own epAddr aperture descMax sgt c)
    (hmore : c.req.offset < c.req.totalLen) (dmaMapped : Bool) (env : ChainEnv) :
    (aperturePass p own dmaMapped env c = none ∧ ¬ c.SomeLeft ∧ (c.walkLeft p).offset = c.req.offset) ∨
      ∃ r tr, aperturePass p own dmaMapped env c = some r ∧
        PassFollows p own epAddr aperture descMax sgt env c r tr := by
  rcases apertureChain_follows own c h.descIdx dmaMapped env.dump with ⟨hnone, hleft⟩ | ⟨c', tr, hchain, hf⟩
  · apply Or.inl
    rw [aperturePass, hnone]
    exact ⟨rfl, hleft⟩
  obtain ⟨sgOffset, sgIdx, hreq⟩ := hf.req
  obtain ⟨hlist, hcfg, -, -, -, -, hwoken⟩ := apertureChain_built hchain
  obtain ⟨w, he, hchains, hbetween⟩ := apertureChain_ended (p := p) env h.toBetween hchain
  obtain ⟨_, -, hcases⟩ := queueAndWait_unmaps (p := p) apertureDone_bookkeeping apertureDone_keepsMapping env tr c'
    hwoken (hlist ▸ h.nodup) fun i => by
      rw [hlist]
      exact h.unlinked i
  have hmapped : (c'.queueAndWait p own apertureDone env tr).1.sgt = c'.sgt ∨
      (c'.drv.tfer ⟨own, 0⟩).lastInRequest = true :=
    hcases.elim (fun h => .inr h.1.2.1) fun h => .inl h.2.2
  obtain ⟨sg, es, hes, hnents⟩ := h.entries hmore
  have hsgt := h.sgt_eq hmore
  have hfirst (hsg : c.req.sgIdx = 0) := hf.first hsg (hsgt ▸ hnents) sg (by rw [hsgt, hes]; rfl)
  have hcut (hsg : c.req.sgIdx = 0) : c'.req.sgIdx = 0 ↔ CutsFirst (apertureWindow p epAddr aperture) aperture
      c.slotsLeft c.req.offset (sgt.entries.map SgEntry.dmaLen) := by
    have hiff := (hfirst hsg).1
    rw [h.first hsg, h.req.1, h.req.2, apertureStart, h.req.1, h.req.2] at hiff
    rw [hiff, hes]
    exact Iff.rfl
  have hdescIdx := fun hno => queueAndWait_descIdx (p := p) own apertureDone_bookkeeping env hno tr c'
  refine .inr ⟨_, _, by rw [aperturePass, hchain]; rfl, hchains, hf.left, hf.bytes, ?_, fun hrv => ?_, ?_, ?_⟩
  · rw [he.req, hreq]
  · refine ⟨hbetween hrv, ?_, ?_, ?_, fun hne => ?_, fun hsg => ?_⟩
    · rw [he.req, hreq]
      exact h.req
    · rw [he.config.descMax, hcfg.descMax]
      exact h.ring
    · rw [he.req, hreq]
      exact h.total
    · rw [he.req] at hne
      rcases hmapped with hsame | hlast
      · rw [hsame, hf.sgt, hsgt]
      · exact absurd (hf.last hlast) hne
    · rw [he.req] at hsg ⊢
      have hzero : c.req.sgIdx = 0 := Nat.le_zero.mp (hsg ▸ hf.later)
      have hkeep := (hfirst hzero).2 hsg
      rw [h.first hzero, sub_self] at hkeep
      exact sub_eq_zero.mp hkeep
  · intro hsg
    rw [he.req]
    exact hcut hsg
  · intro hsg hno hzero
    rw [he.req] at hzero
    have hslots := passWalk_cut (by rw [hes]; exact List.cons_ne_nil _ _) ((hcut hsg).mp hzero)
    rw [slotsLeft, hdescIdx hno, he.config.descMax, hcfg.descMax, hf.ring, h.walk hmore hsg, hslots, h.ring,
      Nat.sub_zero, Nat.mod_self, Nat.sub_zero]

theorem aperturePass_progresses {c : XferCall} (h : InLoop own epAddr aperture descMax sgt c)
    (hmore : c.req.offset < c.req.totalLen) (dmaMapped : Bool) (env : ChainEnv) :
    Progresses p own dmaMapped env c ↔ c.req.offset < (c.walkLeft p).offset := by
  rcases aperturePass_follows h hmore dmaMapped env with ⟨hnone, -, hstill⟩ | ⟨r, tr, hr, hf⟩
  · refine iff_of_false ?_ ?_
    · rintro ⟨r, tr, hr, -⟩
      rw [hnone] at hr
      cases hr
    · rw [hstill]
      exact BitVec.lt_irrefl _
  · constructor
    · rintro ⟨r', tr', hr', -, -, hlt⟩
      obtain rfl := Option.some.inj (hr.symm.trans hr')
      rwa [hf.offset] at hlt
    · exact fun hlt => ⟨r, tr, hr, hf.chains, hf.bytes (BitVec.ne_of_lt hlt).symm, by rwa [hf.offset]⟩

theorem aperturePass_none {c : XferCall} (h : InLoop own epAddr aperture descMax sgt c)
    (hmore : c.req.offset < c.req.totalLen) (dmaMapped : Bool) (env : ChainEnv) :
    aperturePass p own dmaMapped env c = none ↔ ¬ c.SomeLeft := by
  rcases aperturePass_follows (p := p) h hmore dmaMapped env with hnone | ⟨r, tr, hr, hf⟩
  · exact iff_of_true hnone.1 hnone.2.1
  · rw [hr]
    exact iff_of_false nofun (not_not.mpr hf.left)

theorem aperturePass_inLoop {dmaMapped : Bool} {env : ChainEnv} {c : XferCall} {r : XferCall × ℤ}
    (h : InLoop own epAddr aperture descMax sgt c) (hmore : c.req.offset < c.req.totalLen)
    (hr : aperturePass p own dmaMapped env c = some r) (hrv : 0 ≤ r.2) :
    InLoop own epAddr aperture descMax sgt r.1 := by
  rcases aperturePass_follows (p := p) h hmore dmaMapped env with hnone | ⟨r', tr, hr', hf⟩
  · rw [hnone.1] at hr
    cases hr
  · obtain rfl := Option.some.inj (hr'.symm.trans hr)
    exact hf.next hrv

theorem aperturePasses_cons (dmaMapped : Bool) (env : ChainEnv) (envs : List ChainEnv) {c : XferCall}
    (h : InLoop own epAddr aperture descMax sgt c) (hmore : c.req.offset < c.req.totalLen) :
    aperturePasses p own dmaMapped (env :: envs) c = [(env, c)] ∨
      ∃ r tr env', PassFollows p own epAddr aperture descMax sgt env c r tr ∧ 0 ≤ r.2 ∧
        r.1.req.offset < r.1.req.totalLen ∧ (env', r.1) ∈ aperturePasses p own dmaMapped envs r.1 ∧
        aperturePasses p own dmaMapped (env :: envs) c = (env, c) ::
          aperturePasses p own dmaMapped envs r.1 := by
  have hmore' : decide (c.req.offset < c.req.totalLen) = true := decide_eq_true hmore
  rcases aperturePass_follows (p := p) h hmore dmaMapped env with ⟨hnone, -⟩ | ⟨r, tr, hr, hf⟩
  · apply Or.inl
    rw [aperturePasses, chainPasses, if_pos hmore', hnone]
  rw [aperturePasses, chainPasses, if_pos hmore', hr]
  obtain ⟨c', rv⟩ := r
  dsimp only
  split_ifs with hneg
  · exact .inl rfl
  by_cases hagain : c'.req.offset < c'.req.totalLen
  swap
  · apply Or.inl
    cases envs <;> simp [chainPasses, hagain]
  cases envs with
  | nil => exact .inl rfl
  | cons env' envs =>
    refine .inr ⟨_, tr, env', hf, not_lt.mp hneg, hagain, ?_, rfl⟩
    rw [aperturePasses, chainPasses, if_pos (decide_eq_true hagain)]
    exact List.mem_cons_self

theorem aperturePasses_rising (dmaMapped : Bool) (envs : List ChainEnv) : ∀ {c : XferCall},
    InLoop own epAddr aperture descMax sgt c → c.req.sgIdx = 0 →
      (KeepsRising (apertureWindow p epAddr aperture) aperture (sgt.entries.map SgEntry.dmaLen)
          ((aperturePasses p own dmaMapped envs c).map fun x => x.2.slotsLeft) c.req.offset ↔
        ∀ x ∈ aperturePasses p own dmaMapped envs c, Progresses p own dmaMapped x.1 x.2 ∧
          x.2.req.sgIdx = 0) := by
  induction envs with
  | nil =>
    intro c _ _
    simp [aperturePasses, chainPasses, KeepsRising]
  | cons env envs ih =>
    intro c h hsg
    by_cases hmore : c.req.offset < c.req.totalLen
    swap
    · simp [aperturePasses, chainPasses, KeepsRising, hmore]
    have hprogress := aperturePass_progresses (p := p) h hmore dmaMapped env
    have hwalk := h.walk (p := p) hmore hsg
    rcases aperturePasses_cons (p := p) dmaMapped env envs h hmore with
      hone | ⟨r, tr, env', hf, hrv, hagain, hmem, hmany⟩
    · rw [hone]
      simp [KeepsRising, ← hwalk, hprogress, hsg]
    have hnext := hf.next hrv
    have htotal : ¬ (sgt.entries.map SgEntry.dmaLen).sum ≤ r.1.req.offset := by
      rw [← hnext.total, BitVec.not_le]
      exact hagain
    have hrest : (aperturePasses p own dmaMapped envs r.1).map (fun x => x.2.slotsLeft) ≠ [] :=
      List.ne_nil_of_mem (List.mem_map_of_mem hmem)
    rw [hmany, List.map_cons, KeepsRising, ← hwalk, ← hf.offset, List.forall_mem_cons, hprogress, ← hf.offset,
      or_iff_right hrest, or_iff_right htotal, ← hf.first hsg, and_iff_left hsg]
    apply and_congr_right
    rintro -
    constructor
    · rintro ⟨hzero, hrising⟩
      exact (ih hnext hzero).mp hrising
    · intro hall
      have hzero := (hall _ hmem).2
      exact ⟨hzero, (ih hnext hzero).mpr hall⟩

theorem aperturePasses_ring (dmaMapped : Bool) (envs : List ChainEnv) : ∀ {c : XferCall},
    (∀ env ∈ envs, ∀ st ∈ env.during, st.isBuild = false) → InLoop own epAddr aperture descMax sgt c →
      c.req.sgIdx = 0 → KeepsRising (apertureWindow p epAddr aperture) aperture
      (sgt.entries.map SgEntry.dmaLen)
        (c.slotsLeft :: List.replicate envs.length descMax) c.req.offset →
      KeepsRising (apertureWindow p epAddr aperture) aperture (sgt.entries.map SgEntry.dmaLen)
        ((aperturePasses p own dmaMapped envs c).map fun x => x.2.slotsLeft) c.req.offset := by
  induction envs with
  | nil =>
    intro c _ _ _ _
    simp [aperturePasses, chainPasses, KeepsRising]
  | cons env envs ih =>
    intro c hno h hsg hrising
    by_cases hmore : c.req.offset < c.req.totalLen
    swap
    · simp [aperturePasses, chainPasses, KeepsRising, hmore]
    have hwalk := h.walk (p := p) hmore hsg
    rw [KeepsRising, ← hwalk] at hrising
    obtain ⟨hlt, hrising⟩ := hrising
    rcases aperturePasses_cons (p := p) dmaMapped env envs h hmore with
      hone | ⟨r, tr, env', hf, hrv, hagain, hmem, hmany⟩
    · rw [hone, List.map_singleton, KeepsRising, ← hwalk]
      exact ⟨hlt, .inl rfl⟩
    have hnext := hf.next hrv
    have htotal : ¬ (sgt.entries.map SgEntry.dmaLen).sum ≤ r.1.req.offset := by
      rw [← hnext.total, BitVec.not_le]
      exact hagain
    have hmoves : List.replicate (env :: envs).length descMax ≠ [] := by simp
    rw [or_iff_right hmoves, ← hf.offset, or_iff_right htotal, ← hf.first hsg] at hrising
    obtain ⟨hzero, hrising⟩ := hrising
    have hfull := hf.full hsg (hno env List.mem_cons_self) hzero
    rw [List.length_cons, List.replicate_succ, ← hfull] at hrising
    rw [hmany, List.map_cons, KeepsRising, ← hwalk, ← hf.offset]
    exact ⟨hf.offset ▸ hlt, .inr (.inr ⟨(hf.first hsg).mp hzero,
      ih (fun e he => hno e (List.mem_cons_of_mem _ he)) hnext hzero (hfull.symm ▸ hrising)⟩)⟩

theorem apertureLoop_ends {c : XferCall} (h : InLoop own epAddr aperture descMax sgt c) (dmaMapped : Bool)
    (envs : List ChainEnv) (hall : ∀ x ∈ aperturePasses p own dmaMapped envs c,
      Progresses p own dmaMapped x.1 x.2)
    (hlen : (sgt.entries.map SgEntry.dmaLen).sum.toNat ≤ envs.length) :
    (c.apertureLoop p own dmaMapped envs).2 ≠ .waiting := by
  have hbound : c.req.totalLen.toNat - c.req.offset.toNat ≤ envs.length := by
    rw [h.total]
    exact (Nat.sub_le _ _).trans hlen
  apply chainPasses_terminates (I := InLoop own epAddr aperture descMax sgt) (P := Progresses p own dmaMapped)
    (fun c => c.req.totalLen.toNat - c.req.offset.toNat) ?_ ?_ envs h hall hbound
  · intro c hm
    have hm := of_decide_eq_true hm
    rw [BitVec.lt_def] at hm
    omega
  · intro env c r hI hm hprogress hr hrv
    have hm := of_decide_eq_true hm
    have hnext := aperturePass_inLoop hI hm hr hrv
    refine ⟨hnext, ?_⟩
    obtain ⟨r', tr, hr', -, -, hlt⟩ := hprogress
    obtain rfl := Option.some.inj (hr'.symm.trans hr)
    rw [BitVec.lt_def] at hm hlt
    rw [hnext.total, hI.total] at *
    omega

theorem leave_overrun (dmaMapped : Bool) (c : XferCall) (outcome : CallEnd) :
    (c.leave dmaMapped outcome).outcome = .overrun ↔ outcome = .overrun := by
  cases outcome <;> simp [leave]

end

end XferCall

section

variable {p : Params} {own : ℕ} {epAddr : U64} {aperture : U32} {s : Drv}

open XferCall

/-- The slots of the ring at each pass are those up to its end: at the first pass from the
index the call finds, at the others, unless somebody else builds chains, the whole ring. -/
theorem xdmaXferAperture_progresses
    (hnd : s.eng.transferList.Nodup) (hfree : Unlinked own s)
      (hidx : s.eng.descIdx < s.eng.descMax) (write : Bool)
    (sgt : SgTable) (dmaMapped : Bool) (mapped : List SgEntry) (oom : Bool) (envs : List ChainEnv)
    {lens : List U32} (hlens : lens = (mapSgt sgt dmaMapped mapped).entries.map SgEntry.dmaLen)
    {w : ApertureWindow} (hw : w = apertureWindow p epAddr aperture)
    {passes : List (ChainEnv × XferCall)} (hpasses : passes =
      aperturePasses p own dmaMapped envs (apertureCall s epAddr aperture (mapSgt sgt dmaMapped mapped)))
    {slots : List ℕ} (hslots : slots = passes.map fun x => x.2.slotsLeft)
    {r : XferResult} (hr : xdmaXferAperture p own write epAddr aperture sgt dmaMapped mapped oom envs s = r) :
    (KeepsRising w aperture lens slots 0 ↔
      ∀ x ∈ passes, Progresses p own dmaMapped x.1 x.2 ∧ x.2.req.sgIdx = 0) ∧
    (KeepsRising w aperture lens slots 0 → r.outcome ≠ .overrun ∧
      (lens.sum.toNat ≤ envs.length → r.outcome ≠ .waiting)) ∧
    ((∀ env ∈ envs, ∀ st ∈ env.during, st.isBuild = false) → KeepsRising w aperture lens
        ((s.eng.descMax - s.eng.descIdx) :: List.replicate envs.length s.eng.descMax) 0 →
      KeepsRising w aperture lens slots 0) ∧
    (w.maxlen ≠ 0 → epAddr.toNat + aperture.toNat ≤ 2 ^ 64 → (lens.map BitVec.toNat).sum < 2 ^ 32 →
      ∀ n off, n ≠ 0 → off < lens.headD 0 → off < (passWalk w aperture n off lens).offset) ∧
    (r.req.isSome → (r.outcome = .overrun ↔ ∃ x ∈ passes, ¬ x.2.SomeLeft)) := by
  obtain ⟨c₀, hc₀⟩ : ∃ c, c = apertureCall s epAddr aperture (mapSgt sgt dmaMapped mapped) := ⟨_, rfl⟩
  have hstart : InLoop own epAddr aperture s.eng.descMax (mapSgt sgt dmaMapped mapped) c₀ := by
    rw [hc₀]
    exact ⟨⟨hnd, hfree, hidx⟩, ⟨rfl, rfl⟩, rfl, rfl, fun _ => rfl, fun _ => rfl⟩
  obtain ⟨hsg, hoff, hfirst⟩ : c₀.req.sgIdx = 0 ∧ c₀.req.offset = 0 ∧
      c₀.slotsLeft = s.eng.descMax - s.eng.descIdx := by
    rw [hc₀]
    exact ⟨rfl, rfl, rfl⟩
  rw [← hc₀] at hpasses
  have hloop : ∀ x ∈ passes, InLoop own epAddr aperture s.eng.descMax (mapSgt sgt dmaMapped mapped) x.2 ∧
      decide (x.2.req.offset < x.2.req.totalLen) = true := by
    intro x hx
    rw [hpasses] at hx
    exact chainPasses_invariant (I := InLoop own epAddr aperture s.eng.descMax (mapSgt sgt dmaMapped mapped))
      (fun env c r hI hm hr hrv => aperturePass_inLoop hI (of_decide_eq_true hm) hr hrv) envs hstart x hx
  have hover : (c₀.apertureLoop p own dmaMapped envs).2 = .overrun ↔ ∃ x ∈ passes, ¬ x.2.SomeLeft := by
    have h : (c₀.apertureLoop p own dmaMapped envs).2 = .overrun ↔
        ∃ x ∈ aperturePasses p own dmaMapped envs c₀, aperturePass p own dmaMapped x.1 x.2 = none :=
      chainLoop_overrun envs c₀
    rw [← hpasses] at h
    apply h.trans
    apply exists_congr
    intro x
    apply and_congr_right
    intro hx
    exact aperturePass_none (hloop x hx).1 (of_decide_eq_true (hloop x hx).2) dmaMapped x.1
  have hiff := aperturePasses_rising (p := p) dmaMapped envs hstart hsg
  have hring := fun hno => aperturePasses_ring (p := p) dmaMapped envs hno hstart hsg
  rw [hoff, ← hpasses, ← hlens, ← hw, ← hslots] at hiff
  rw [hoff, ← hpasses, ← hlens, ← hw, ← hslots, hfirst] at hring
  refine ⟨hiff, fun hrising => ?_, hring, fun hmaxlen hend hsmall n off hn hin =>
    passWalk_rises hw hmaxlen hend hsmall hn hin, ?_⟩
  · have hall := hiff.mp hrising
    rcases xdmaXferAperture_starts p own write epAddr aperture sgt dmaMapped mapped oom envs s
      hr with hno | hrun
    · obtain ⟨-, -, -, rv, hrv⟩ := hno
      rw [hrv]
      exact ⟨nofun, fun _ => nofun⟩
    obtain ⟨c, outcome, hrun, rfl⟩ := hrun
    rw [← hc₀] at hrun
    have hends := apertureLoop_ends (p := p) hstart dmaMapped envs fun x hx => (hall x (hpasses ▸ hx)).1
    rw [hrun] at hover hends
    refine ⟨fun h => ?_, fun hlen h => ?_⟩
    · obtain ⟨x, hx, hleft⟩ := hover.mp ((leave_overrun dmaMapped c outcome).mp h)
      obtain ⟨r, tr, hr, -⟩ := (hall x hx).1
      have hnone :=
        (aperturePass_none (p := p) (hloop x hx).1 (of_decide_eq_true (hloop x hx).2) dmaMapped x.1).mpr hleft
      rw [hnone] at hr
      cases hr
    · exact hends (hlens ▸ hlen) ((leave_spec dmaMapped c outcome).2.2.1 h)
  · rcases xdmaXferAperture_starts p own write epAddr aperture sgt dmaMapped mapped oom envs s
      hr with hno | hrun
    · rw [hno.1]
      exact nofun
    · obtain ⟨c, outcome, hrun, rfl⟩ := hrun
      rw [← hc₀] at hrun
      rw [hrun] at hover
      exact fun _ => (leave_overrun dmaMapped c outcome).trans hover

end

def cutSgt : SgTable := ⟨[⟨0x1000, 20⟩, ⟨0x2000, 12⟩], 2, 2⟩

/-- The last part is about a window that passes the end of the address space. -/
theorem xdmaXferAperture_progresses_cut :
    let envs : List ChainEnv := [completedPair, { during := [.service 0 ⟨4, 3, 3⟩] }]
    let r := xdmaXferAperture {} 1 false 0x20 8 cutSgt true [] false envs twoSlots
    (∀ x ∈ XferCall.aperturePasses {} 1 true envs (apertureCall twoSlots 0x20 8 cutSgt),
      XferCall.Progresses {} 1 true x.1 x.2) ∧ r.outcome = .returned 32 ∧
    KeepsRising (apertureWindow {} 0xFFFFFFFFFFFFFFFF 0x80000000) 0x80000000 [4] [2048] 0 := by
  intro envs r
  obtain ⟨hiff, -, hring, -, -⟩ := @xdmaXferAperture_progresses {} 1 0x20 8 twoSlots List.nodup_nil
    (fun _ => List.not_mem_nil) (by decide) false cutSgt true [] false envs _ rfl _ rfl _ rfl _ rfl r rfl
  have hrising := hring (by decide) (by decide)
  exact ⟨fun x hx => (hiff.mp hrising x hx).1, by decide, by decide⟩

def unevenSgt : SgTable := ⟨[⟨0x1000, 4⟩, ⟨0x2000, 8⟩], 2, 2⟩

/-- Aperture zero moves nothing, and a list cut behind its first entry is walked from that
entry again, of which nothing is left. -/
theorem xdmaXferAperture_stands_still :
    (¬ ∀ (p : Params) (own : ℕ) (epAddr : U64) (aperture : U32) (sgt : SgTable) (dmaMapped : Bool)
      (mapped : List SgEntry) (envs : List ChainEnv) (s : Drv), 1 ≤ p.descBlenMax →
        p.descBlenMax ≤ 2 ^ 28 - 1 →
      s.eng.transferList.Nodup → Unlinked own s → s.eng.descIdx < s.eng.descMax →
      ∀ x ∈ XferCall.aperturePasses p own dmaMapped envs
        (apertureCall s epAddr aperture (XferCall.mapSgt sgt dmaMapped mapped)),
        XferCall.Progresses p own dmaMapped x.1 x.2) ∧
    (xdmaXferAperture {} 1 false 0x20 4 unevenSgt true [] false [completedPair, completedChain]
      twoSlots).outcome = .overrun := by
  refine ⟨fun h => ?_, by decide⟩
  have hpass := h {} 1 0x20 0 smallSgt true [] [completedChain] beforeEnd (by decide)
    (by decide) List.nodup_nil
    (fun _ => List.not_mem_nil) (by decide) (completedChain, apertureCall beforeEnd 0x20 0 smallSgt)
    List.mem_cons_self
  obtain ⟨r, tr, hr, -, -, hlt⟩ := hpass
  have hoffset : (XferCall.aperturePass {} 1 true completedChain (apertureCall beforeEnd 0x20 0 smallSgt)).map
      (fun r => r.1.req.offset) = some 0 := by
    decide
  rw [hr] at hoffset
  have hzero : r.1.req.offset = 0 := Option.some.inj hoffset
  rw [hzero] at hlt
  exact absurd hlt (BitVec.not_lt_zero)

end XdmaDriver
