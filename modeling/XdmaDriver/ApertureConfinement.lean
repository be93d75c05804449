import XdmaDriver.ApertureRestarts

/-!
The device addresses of `xdma_xfer_aperture` stay inside the window, wherever a chain begins.
-/

namespace XdmaDriver

open Drv

/-- A window of `a` device addresses from `lo` on, and descriptors of at most `m` bytes. -/
structure WindowOf (lo a m : ℕ) (w : ApertureWindow) : Prop where
  base : w.base.toNat = lo
  last : w.last.toNat + 1 = lo + a
  maxlen : w.maxlen.toNat ≤ m
  pos : 1 ≤ a
  small : a < 2 ^ 32
  fits : lo + a + 2 ^ 32 < 2 ^ 64

structure DescInside (dir : DmaDir) (lo a m : ℕ) (d : XdmaDesc) : Prop where
  bytes : d.bytes.toNat ≤ m
  first : lo ≤ (d.devAddr dir).toNat
  last : (d.devAddr dir).toNat + d.bytes.toNat ≤ lo + a

structure BuildInside (dir : DmaDir) (lo a m i : ℕ) (b : ApertureBuild) : Prop where
  ep : lo ≤ b.epAddr.toNat ∧ b.epAddr.toNat ≤ lo + a
  descs : ∀ j, i ≤ j → j < b.descIdx → DescInside dir lo a m (b.desc j)

section

variable {w : ApertureWindow} {dir : DmaDir} {lo a m i : ℕ} {b : ApertureBuild}

theorem apertureDesc_inside (hw : WindowOf lo a m w) (addr : U64) (tlen : U32)
    (h : BuildInside dir lo a m i b) : BuildInside dir lo a m i (apertureDesc w dir addr tlen b).1 := by
  have hbase := hw.base
  have hlast := hw.last
  have hmaxlen := hw.maxlen
  have hpos := hw.pos
  have hsmall := hw.small
  have hfits := hw.fits
  obtain ⟨hep, hep'⟩ := h.ep
  obtain ⟨ep, l₀, l, heq, hl₀, hl, hdesc⟩ := apertureDesc_eq w dir addr tlen b
  have hin : lo ≤ ep.toNat ∧ ep.toNat ≤ w.last.toNat := by
    rw [heq]
    split_ifs with hlt
    · omega
    · rw [BitVec.lt_def] at hlt
      omega
  have hl' : l.toNat ≤ m ∧ ep.toNat + l.toNat ≤ lo + a := by
    have hlt₀ := l₀.isLt
    rw [hl]
    split_ifs
    · -- the cut leaves what fits up to the end of the window
      omega
    · omega
  have hnext : (ep + l.setWidth 64).toNat = ep.toNat + l.toNat := by
    have hlt := l.isLt
    rw [BitVec.toNat_add, BitVec.toNat_setWidth]
    omega
  rw [hdesc]
  constructor
  · dsimp only
    omega
  · intro j hj hlt
    dsimp only at hlt ⊢
    by_cases hnew : j = b.descIdx
    · subst hnew
      rw [Function.update_self]
      constructor
      · rw [xdmaDescSet_bytes]
        exact hl'.1
      · rw [xdmaDescSet_devAddr]
        exact hin.1
      · rw [xdmaDescSet_devAddr, xdmaDescSet_bytes]
        exact hl'.2
    · rw [Function.update_of_ne hnew]
      exact h.descs j hj (by omega)

theorem apertureEntry_inside (hw : WindowOf lo a m w) (f : ℕ) :
    ∀ (addr : U64) (tlen : U32) {b : ApertureBuild},
    BuildInside dir lo a m i b → BuildInside dir lo a m i (apertureEntry w dir f addr tlen b).1 ∧
      (apertureEntry w dir f addr tlen b).1.descIdx ≤ b.descIdx + f := by
  induction f with
  | zero => exact fun _ _ _ h => ⟨h, le_refl _⟩
  | succ f ih =>
    intro addr tlen b h
    unfold apertureEntry
    split_ifs with hz
    · exact ⟨h, by dsimp only; omega⟩
    · have hstep := apertureDesc_inside hw addr tlen h
      have hidx := (apertureDesc_frame w dir addr tlen b).1
      generalize apertureDesc w dir addr tlen b = r at *
      obtain ⟨b₁, l⟩ := r
      dsimp only at hstep hidx ⊢
      obtain ⟨hin, hle⟩ := ih (addr + l.setWidth 64) (tlen - l) hstep
      exact ⟨hin, by omega⟩

theorem apertureEntries_inside (hw : WindowOf lo a m w) (sgMax descMax : ℕ) (es : List SgEntry) :
    ∀ (k : ℕ) {b : ApertureBuild}, BuildInside dir lo a m i b →
      BuildInside dir lo a m i (apertureEntries w dir sgMax descMax es k b).1 ∧
        (apertureEntries w dir sgMax descMax es k b).1.descIdx ≤ max b.descIdx descMax := by
  induction es with
  | nil => exact fun _ _ h => ⟨h, le_max_left _ _⟩
  | cons sg es ih =>
    intro k b h
    unfold apertureEntries
    split_ifs with hroom
    swap
    · exact ⟨h, le_max_left _ _⟩
    obtain ⟨hin, hle⟩ := apertureEntry_inside hw (descMax - b.descIdx)
      (sg.dmaAddress + b.sgOffset.setWidth 64)
      (sg.dmaLen - b.sgOffset) h
    generalize apertureEntry _ _ _ _ _ _ = r at *
    obtain ⟨b₁, tlen⟩ := r
    dsimp only at hin hle ⊢
    split_ifs with hz
    · obtain ⟨hin', hle'⟩ := ih (k + 1) (b := { b₁ with sgOffset := 0 }) ⟨hin.ep, hin.descs⟩
      dsimp only at hle'
      exact ⟨hin', by omega⟩
    · refine ⟨hin, ?_⟩
      dsimp only
      omega

end

theorem aperture_start {epAddr : U64} {aperture : U32} (hpos : 1 ≤ aperture.toNat)
    (hfits : epAddr.toNat + aperture.toNat + 2 ^ 32 < 2 ^ 64) (offset : U32) :
    epAddr.toNat ≤ (epAddr + (offset &&& (aperture - 1)).setWidth 64).toNat ∧
      (epAddr + (offset &&& (aperture - 1)).setWidth 64).toNat ≤ epAddr.toNat + aperture.toNat := by
  have hmask : (offset &&& (aperture - 1)).toNat ≤ aperture.toNat - 1 := by
    rw [aperture_mask hpos]
    exact Nat.and_le_right
  rw [BitVec.toNat_add, BitVec.toNat_setWidth]
  omega

def ChainTrace.Inside (own : ℕ) (lo a m : ℕ) (tr : ChainTrace) : Prop :=
  ∀ i < (tr.built.tfer ⟨own, 0⟩).descNum,
    (tr.built.tfer ⟨own, 0⟩).descIndex + i < tr.built.eng.descMax ∧
      DescInside (tr.built.tfer ⟨own, 0⟩).dir lo a m
        (tr.built.eng.desc ((tr.built.tfer ⟨own, 0⟩).descIndex + i))

namespace XferCall

variable {p : Params} {own : ℕ} {epAddr : U64} {aperture : U32}

theorem windowOf_aperture (hblen : p.descBlenMax < 2 ^ 32) (hpos : 1 ≤ aperture.toNat)
    (hfits : epAddr.toNat + aperture.toNat + 2 ^ 32 < 2 ^ 64) :
    WindowOf epAddr.toNat aperture.toNat (apertureMaxlen p aperture) (apertureWindow p epAddr aperture) := by
  constructor
  · rfl
  · rw [apertureWindow_last hpos hfits]
    omega
  · exact (apertureWindow_maxlen hblen).le
  · exact hpos
  · exact aperture.isLt
  · exact hfits

theorem apertureChain_inside (hblen : p.descBlenMax < 2 ^ 32) (hpos : 1 ≤ aperture.toNat)
    (hfits : epAddr.toNat + aperture.toNat + 2 ^ 32 < 2 ^ 64) {dmaMapped : Bool}
      {dump : DumpRegs} {c c' : XferCall}
    {tr : ChainTrace} (hreq : c.req.epAddr = epAddr ∧ c.req.aperture = aperture)
    (h : c.apertureChain p own dmaMapped dump = some (c', tr)) :
    tr.Inside own epAddr.toNat aperture.toNat (apertureMaxlen p aperture) ∧ c'.chains = c.chains ∧
      c'.req.epAddr = epAddr ∧ c'.req.aperture = aperture := by
  obtain ⟨b₀, hb₀⟩ : ∃ b, b = c.apertureStart := ⟨_, rfl⟩
  unfold apertureStart at hb₀
  have hstart : BuildInside c.drv.eng.dir epAddr.toNat aperture.toNat
    (apertureMaxlen p aperture) c.drv.eng.descIdx
      b₀ := by
    constructor
    · rw [hb₀]
      dsimp only
      rw [hreq.1, hreq.2]
      exact aperture_start hpos hfits c.req.offset
    · intro j hj hlt
      rw [hb₀] at hlt
      exact absurd hlt (not_lt.mpr hj)
  obtain ⟨hin, hle⟩ := apertureEntries_inside (windowOf_aperture hblen hpos hfits) c.sgt.nents
    c.drv.eng.descMax c.sgt.entries c.req.sgIdx hstart
  have hfirst : b₀.descIdx = c.drv.eng.descIdx := by rw [hb₀]
  unfold apertureChain at h
  dsimp only at h
  rw [← hb₀, hreq.1, hreq.2] at h
  generalize apertureEntries _ _ _ _ _ _ _ = r at *
  obtain ⟨b, k⟩ := r
  dsimp only at h hin hle
  split_ifs at h with hn
  simp only [Option.some.injEq, Prod.mk.injEq] at h
  obtain ⟨rfl, rfl⟩ := h
  refine ⟨?_, rfl, rfl, rfl⟩
  intro i hi
  simp only [Function.update_self] at hi ⊢
  obtain ⟨hb, -, hd⟩ := apertureLink_same c.drv.eng b.desc c.drv.eng.dir c.drv.eng.descIdx
    (b.descIdx - c.drv.eng.descIdx) (c.drv.eng.descIdx + i)
  refine ⟨by omega, ?_⟩
  have hdesc := hin.descs (c.drv.eng.descIdx + i) (by omega) (by omega)
  constructor
  · rw [hb]
    exact hdesc.bytes
  · rw [hd]
    exact hdesc.first
  · rw [hd, hb]
    exact hdesc.last

variable (own) in
theorem apertureLoop_inside (hblen : p.descBlenMax < 2 ^ 32) (hpos : 1 ≤ aperture.toNat)
    (hfits : epAddr.toNat + aperture.toNat + 2 ^ 32 < 2 ^ 64) (dmaMapped : Bool)
      (envs : List ChainEnv) {c : XferCall}
    (hreq : c.req.epAddr = epAddr ∧ c.req.aperture = aperture)
    (hin : ∀ tr ∈ c.chains, tr.Inside own epAddr.toNat aperture.toNat (apertureMaxlen p aperture)) :
    ∀ tr ∈ (c.apertureLoop p own dmaMapped envs).1.chains,
      tr.Inside own epAddr.toNat aperture.toNat (apertureMaxlen p aperture) := by
  refine chainLoop_invariant
    (I := fun c => (c.req.epAddr = epAddr ∧ c.req.aperture = aperture) ∧
      ∀ tr ∈ c.chains, tr.Inside own epAddr.toNat aperture.toNat (apertureMaxlen p aperture))
    (J := fun c => ∀ tr ∈ c.chains, tr.Inside own epAddr.toNat aperture.toNat (apertureMaxlen p aperture))
    (fun _ h => h.2) ?_ envs ⟨hreq, hin⟩
  rintro env c r ⟨hreq, hin⟩ - hr
  obtain ⟨⟨c', tr⟩, hchain, rfl⟩ := Option.map_eq_some_iff.mp hr
  obtain ⟨htr, hchains, hreq'⟩ := apertureChain_inside hblen hpos hfits hreq hchain
  obtain ⟨w, hall, hkept⟩ := queueAndWait_chains (p := p) own apertureDone_bookkeeping env tr c'
  have hnext : ∀ u ∈ (c'.queueAndWait p own apertureDone env tr).1.chains,
      u.Inside own epAddr.toNat aperture.toNat (apertureMaxlen p aperture) := by
    intro u hu
    rw [hall, hchains, List.mem_append, List.mem_singleton] at hu
    rcases hu with hu | rfl
    · exact hin u hu
    · exact htr
  refine ⟨hnext, fun _ => ⟨?_, hnext⟩⟩
  rw [hkept]
  exact hreq'

end XferCall

/-- A pass with nothing left to walk builds no descriptor and has no chain here: its call ends in
`overrun`. -/
theorem xdmaXferAperture_inside {p : Params} {own : ℕ} {write : Bool} {epAddr : U64}
    {aperture : U32} {sgt : SgTable}
    {dmaMapped : Bool} {mapped : List SgEntry} {oom : Bool} {envs : List ChainEnv} {s : Drv}
    (hblen : p.descBlenMax < 2 ^ 32) (hpos : 1 ≤ aperture.toNat)
    (hfits : epAddr.toNat + aperture.toNat + 2 ^ 32 < 2 ^ 64) :
    ∀ tr ∈ (xdmaXferAperture p own write epAddr aperture sgt dmaMapped mapped oom envs s).chains,
      tr.Inside own epAddr.toNat aperture.toNat (min aperture.toNat p.descBlenMax) := by
  rcases xdmaXferAperture_starts p own write epAddr aperture sgt dmaMapped mapped oom envs s
    rfl with hno | hloop
  · simp [hno.2.1]
  · obtain ⟨c, outcome, hloop, hr⟩ := hloop
    have h := XferCall.apertureLoop_inside (p := p) own hblen hpos hfits dmaMapped envs
      (c := apertureCall s epAddr aperture (XferCall.mapSgt sgt dmaMapped mapped)) ⟨rfl,
        rfl⟩ (by simp [apertureCall])
    rw [hloop] at h
    rw [hr, (XferCall.leave_spec dmaMapped c outcome).2.1]
    exact h

theorem xdmaXferAperture_inside_six :
    (xdmaXferAperture {} 1 false 0x20 6 entrySgt true [] false [completedChain,
      completedChain] beforeEnd).chains.length =
        2 ∧
      ∀ tr ∈ (xdmaXferAperture {} 1 false 0x20 6 entrySgt true [] false [completedChain, completedChain]
        beforeEnd).chains, tr.Inside 1 0x20 6 6 := by
  refine ⟨by decide, ?_⟩
  exact xdmaXferAperture_inside (p := {}) (by decide) (by decide) (by decide)

end XdmaDriver
