import XdmaDriver.DoubleBufferSteps
import XdmaDriver.HeadService
import XdmaDriver.Lib.Circular
import XdmaDriver.Lib.Tiling

/-!
The descriptors of one session of the double-buffer mode, numbered in the order in
which they are built: which buffer each one writes to, and which ring slot it gets.
-/

namespace XdmaDriver

open Drv Spans Tiling

def Apart (a b : U64) (n : ℕ) : Prop := n ≤ (b - a).toNat ∧ n ≤ (a - b).toNat

instance (a b : U64) (n : ℕ) : Decidable (Apart a b n) := inferInstanceAs (Decidable (_ ∧ _))

theorem mem_span_iff {a x : U64} {n : ℕ} (hn : n ≤ 2 ^ 64) : x ∈ span a n ↔ (x - a).toNat < n := by
  rw [mem_span]
  constructor
  · rintro ⟨k, hk, rfl⟩
    have hsub : a + (k : U64) - a = (k : U64) := by simp
    rw [hsub, BitVec.natCast_eq_ofNat, BitVec.toNat_ofNat, Nat.mod_eq_of_lt (by omega)]
    exact hk
  · intro h
    refine ⟨_, h, ?_⟩
    rw [BitVec.natCast_eq_ofNat, BitVec.ofNat_toNat, BitVec.setWidth_eq, add_sub_cancel]

theorem Apart.symm {a b : U64} {n : ℕ} (h : Apart a b n) : Apart b a n := And.symm h

theorem Apart.not_mem {a b x : U64} {n : ℕ} (h : Apart a b n) (hn : n ≤ 2 ^ 32) (ha : x ∈ span a n) :
    x ∉ span b n := by
  rw [mem_span_iff (by omega)] at ha ⊢
  obtain ⟨hab, hba⟩ := h
  have hx := x.isLt
  have ha' := a.isLt
  have hb' := b.isLt
  simp only [BitVec.toNat_sub] at *
  omega

theorem writeMem_of_not_mem {mem : U64 → U8} {a x : U64} {n : ℕ} {data : ℕ → U8} (hn : n ≤ 2 ^ 64)
    (hx : x ∉ span a n) : writeMem mem a n data x = mem x := by
  rw [mem_span_iff hn] at hx
  exact if_neg hx

theorem map_writeMem_span {mem : U64 → U8} {a : U64} {n : ℕ} {data : ℕ → U8} (hn : n ≤ 2 ^ 64) :
    (span a n).map (writeMem mem a n data) = (List.range n).map data := by
  rw [span, List.map_map]
  refine List.map_congr_left fun k hk => ?_
  have hk := List.mem_range.mp hk
  have hsub : (a + (k : U64) - a).toNat = k := by
    rw [show a + (k : U64) - a = (k : U64) by simp, BitVec.natCast_eq_ofNat, BitVec.toNat_ofNat,
      Nat.mod_eq_of_lt (by omega)]
  simp only [Function.comp_apply, writeMem, hsub, hk, ↓reduceIte]

def slotOf (m : ℕ) : Fin 2 := Fin.ofNat 2 m

theorem slotOf_eq_iff {m n : ℕ} : slotOf m = slotOf n ↔ m % 2 = n % 2 := by
  simp [slotOf, Fin.ext_iff]

theorem slotOf_succ (m : ℕ) : 1 - slotOf m = slotOf (m + 1) := by
  rcases Nat.mod_two_eq_zero_or_one m with h | h
  · rw [slotOf_eq_iff.mpr (show m % 2 = 0 % 2 by omega),
      slotOf_eq_iff.mpr (show (m + 1) % 2 = 1 % 2 by omega)]
    rfl
  · rw [slotOf_eq_iff.mpr (show m % 2 = 1 % 2 by omega),
      slotOf_eq_iff.mpr (show (m + 1) % 2 = 0 % 2 by omega)]
    rfl

structure DbufSession (p : Params) where
  bus : Fin 2 → U64
  size : U32
  base : ℕ
  first : ℕ
  blen : p.descBlenMax = xdmaDescBlenMax
  pos : 0 < size.toNat
  small : size.toNat < 2 ^ 31
  apart : Apart (bus 0) (bus 1) size.toNat

namespace DbufSession

variable {p : Params} (σ : DbufSession p)

def sdesc (i : Fin 2) : List SwDesc := entrySdesc p ⟨σ.bus i, σ.size⟩

def perRequest : ℕ := (σ.size.toNat + p.descBlenMax - 1) / p.descBlenMax

def ringSlot (g : ℕ) : ℕ := (σ.base + g) % xdmaEngineXferMaxDesc

theorem length_sdesc (i : Fin 2) : (σ.sdesc i).length = σ.perRequest :=
  sdescSplit_length (by rw [σ.blen]; decide) _ _ _ (le_refl _)

theorem perRequest_pos : 0 < σ.perRequest := by
  have := σ.pos
  unfold perRequest
  rw [σ.blen]
  simp only [xdmaDescBlenMax]
  omega

theorem perRequest_le : σ.perRequest ≤ 9 := by
  have := σ.small
  unfold perRequest
  rw [σ.blen]
  simp only [xdmaDescBlenMax]
  omega

theorem ringSlot_lt (g : ℕ) : σ.ringSlot g < xdmaEngineXferMaxDesc := Nat.mod_lt _ (by decide)

theorem ringSlot_add {g n : ℕ} (h : σ.ringSlot g + n < xdmaEngineXferMaxDesc) :
    σ.ringSlot (g + n) = σ.ringSlot g + n := by
  unfold ringSlot at *
  rw [← Nat.add_assoc, Nat.add_mod, Nat.mod_eq_of_lt (a := n) (by omega), Nat.mod_eq_of_lt h]

theorem sdesc_addr {i : Fin 2} {j : ℕ} {sd : SwDesc} (h : (σ.sdesc i)[j]? = some sd) :
    sd.addr = σ.bus i + (lenSum ((σ.sdesc i).take j) : U64) :=
  sdescSplit_addr _ _ h

theorem lenSum_sdesc (i : Fin 2) : lenSum (σ.sdesc i) = σ.size.toNat :=
  sdescSplit_lenSum (by rw [σ.blen]; decide) _ _

theorem lenSum_take_succ {sds : List SwDesc} {j : ℕ} {sd : SwDesc} (h : sds[j]? = some sd) :
    lenSum (sds.take (j + 1)) = lenSum (sds.take j) + sd.len := by
  rw [List.take_add_one, h]
  simp [lenSum]

theorem lenSum_take_sdesc_le (i : Fin 2) (j : ℕ) : lenSum ((σ.sdesc i).take j) ≤ σ.size.toNat :=
  σ.lenSum_sdesc i ▸ lenSum_take_le _ _

theorem sdesc_len_lt {i : Fin 2} {j : ℕ} {sd : SwDesc} (h : (σ.sdesc i)[j]? = some sd) : sd.len < 2 ^ 32 := by
  have hle := σ.lenSum_take_sdesc_le i (j + 1)
  rw [lenSum_take_succ h] at hle
  have := σ.small
  omega

theorem not_mem_other {i j : Fin 2} (hij : i ≠ j) {x : U64} (hx : x ∈ span (σ.bus i) σ.size.toNat) :
    x ∉ span (σ.bus j) σ.size.toNat := by
  have hsmall := σ.small
  have hall : ∀ i j, i ≠ j → Apart (σ.bus i) (σ.bus j) σ.size.toNat := by
    refine Fin.forall_fin_two.mpr ⟨?_, ?_⟩
    · exact Fin.forall_fin_two.mpr ⟨absurd rfl, fun _ => σ.apart⟩
    · exact Fin.forall_fin_two.mpr ⟨fun _ => σ.apart.symm, absurd rfl⟩
  exact (hall i j hij).not_mem (by omega) hx

def Carries (e : XdmaEngine) (g : ℕ) : Prop :=
  ∀ sd, (σ.sdesc (slotOf (g / σ.perRequest)))[g % σ.perRequest]? = some sd →
    (e.desc (σ.ringSlot g)).bytes = BitVec.ofNat 32 sd.len ∧
      (e.desc (σ.ringSlot g)).hostAddr .fromDevice = sd.addr

structure Chain (s : Drv) (t : XferRef) (a : ℕ) : Prop where
  pos : 0 < (s.tfer t).descNum
  index : (s.tfer t).descIndex = σ.ringSlot a
  inside : σ.ringSlot a + (s.tfer t).descNum ≤ xdmaEngineXferMaxDesc
  within : a % σ.perRequest + (s.tfer t).descNum ≤ σ.perRequest
  cb : (s.tfer t).cb = some (.dbuf (slotOf (a / σ.perRequest)))
  last : (s.tfer t).lastInRequest = true ↔ a % σ.perRequest + (s.tfer t).descNum = σ.perRequest

theorem Chain.congr {s s' : Drv} {t : XferRef} {a : ℕ} (h : σ.Chain s t a)
    (hs : (s.tfer t).SameRequest (s'.tfer t)) : σ.Chain s' t a := by
  obtain ⟨hn, hi, -, -, hl, hc, -⟩ := hs
  refine ⟨?_, ?_, ?_, ?_, ?_, ?_⟩
  · rw [hn]
    exact h.pos
  · rw [hi]
    exact h.index
  · rw [hn]
    exact h.inside
  · rw [hn]
    exact h.within
  · rw [hc]
    exact h.cb
  · rw [hn, hl]
    exact h.last

structure Laid (s : Drv) (a q b : ℕ) : Prop where
  dir : s.eng.dir = .fromDevice
  max : s.eng.descMax = xdmaEngineXferMaxDesc
  idx : s.eng.descIdx = σ.ringSlot b
  tiles : Tiles (fun t => (s.tfer t).descNum) (σ.Chain s) a s.eng.transferList q
  ring : ∀ g, a ≤ g → g < b → σ.Carries s.eng g

variable {σ} {s s' : Drv} {a q b : ℕ}

theorem Laid.congr (h : σ.Laid s a q b) (hring : s.eng.SameRing s'.eng)
    (hlist : s'.eng.transferList = s.eng.transferList)
    (hsame : ∀ t ∈ s.eng.transferList, (s.tfer t).SameRequest (s'.tfer t)) : σ.Laid s' a q b := by
  obtain ⟨hdir, -, -, -, hmax, hdesc, -, -, -, hidx, -⟩ := hring
  refine ⟨hdir.trans h.dir, hmax.trans h.max, hidx.trans h.idx, ?_, fun g hg hg' => ?_⟩
  · rw [hlist]
    exact h.tiles.congr fun t ht => ⟨(hsame t ht).1, fun _ hc => hc.congr σ (hsame t ht)⟩
  · unfold Carries
    rw [hdesc]
    exact h.ring g hg hg'

theorem Laid.serviced {t : XferRef} {ts : List XferRef} (h : σ.Laid s a q b)
    (hl : s.eng.transferList = t :: ts)
    (hring : s.eng.SameRing s'.eng) (hlist : s'.eng.transferList = ts)
    (hsame : ∀ t, (s.tfer t).SameRequest (s'.tfer t)) : σ.Laid s' (a + (s.tfer t).descNum) q b := by
  have htiles := h.tiles
  rw [hl] at htiles
  obtain ⟨hdir, -, -, -, hmax, hdesc, -, -, -, hidx, -⟩ := hring
  refine ⟨hdir.trans h.dir, hmax.trans h.max, hidx.trans h.idx, ?_, fun g hg hg' => ?_⟩
  · rw [hlist]
    exact htiles.2.congr fun u _ => ⟨(hsame u).1, fun _ hc => hc.congr σ (hsame u)⟩
  · unfold Carries
    rw [hdesc]
    exact h.ring g (by omega) hg'

theorem Laid.queued {t : XferRef} (h : σ.Laid s a q b) (hc : σ.Chain s t q) (hq : Queued s s' t) :
    σ.Laid s' a (q + (s.tfer t).descNum) b := by
  obtain ⟨hdir, -, -, -, hmax, hdesc, -, -, -, hidx, -⟩ := hq.ring
  refine ⟨hdir.trans h.dir, hmax.trans h.max, hidx.trans h.idx, ?_, fun g hg hg' => ?_⟩
  · have htiles := h.tiles.append_singleton hc
    rw [hq.list]
    exact htiles.congr fun u _ => ⟨(hq.same u).1, fun _ hc => hc.congr σ (hq.same u)⟩
  · unfold Carries
    rw [hdesc]
    exact h.ring g hg hg'

theorem Laid.built {m : ℕ} {req : XdmaRequestCb} {t : XferRef} {u last : Bool} (h : σ.Laid s a b b)
    (ht : t ∉ s.eng.transferList) (hwf : req.Wf) (hsdesc : req.sdesc = σ.sdesc (slotOf m))
    (hb : m * σ.perRequest + req.swDescIdx = b) (hidx : req.swDescIdx < σ.perRequest)
    (hwin : m * σ.perRequest + σ.perRequest ≤ a + xdmaEngineXferMaxDesc)
    (hlast : last = true ↔ req.swDescIdx + chainLen s.eng req = σ.perRequest) :
    σ.Laid (s.buildChain req t u last (some (.dbuf (slotOf m)))).1 a b (b + chainLen s.eng req) ∧
      σ.Chain (s.buildChain req t u last (some (.dbuf (slotOf m)))).1 t b := by
  have hcnt : req.swDescCnt = σ.perRequest := by rw [hwf.cnt, hsdesc, length_sdesc]
  have hslot := σ.ringSlot_lt b
  have hmax : s.eng.descIdx < s.eng.descMax := by rwa [h.idx, h.max]
  have hn : 0 < chainLen s.eng req := chainLen_pos hmax (by omega)
  have hle := chainLen_le s.eng req
  have hinside := chainLen_inside req hmax
  rw [h.idx, h.max] at hinside
  have hbt := transferInit_built t hwf hn
  have hc := buildChain_built s req t u last (some (.dbuf (slotOf m)))
  have hother := hc.other
  have heng := hc.eng
  have hnum := hc.num
  have hindex := hc.index
  have hcb := hc.callback
  have hl := hc.lastInRequest
  generalize (s.buildChain req t u last (some (.dbuf (slotOf m)))).1 = s' at *
  obtain ⟨hround, hoff⟩ := round_eq (m := m) hidx
  rw [hb] at hround hoff
  have hdir : s'.eng.dir = s.eng.dir := by rw [heng, hbt.eng]
  refine ⟨⟨hdir.trans h.dir, ?_, ?_, ?_, fun g hg hg' => ?_⟩, ?_⟩
  · rw [heng, hbt.eng]
    exact h.max
  · rw [heng, hbt.eng]
    simp only [h.idx, h.max, ringSlot, Nat.mod_add_mod, Nat.add_assoc]
  · rw [heng, hbt.eng]
    refine h.tiles.congr fun v hv => ?_
    have hne : v ≠ t := fun he => ht (he ▸ hv)
    rw [hother v hne]
    exact ⟨rfl, fun _ hc => hc.congr σ (by rw [hother v hne]; exact .refl _)⟩
  · intro sd hsd
    rw [heng]
    by_cases hgb : g < b
    · have hfar : ¬ (s.eng.descIdx ≤ σ.ringSlot g ∧ σ.ringSlot g < s.eng.descIdx + chainLen s.eng req) := by
        rw [h.idx]
        refine (Circular.disjoint_of_window (k := 1) Nat.one_pos hn (σ.ringSlot_lt g) hinside (by omega)
          (by omega)).not_within ⟨le_refl _, Nat.lt_succ_self _⟩
      rw [(hbt.frame _ hfar).1]
      exact h.ring g hg hgb sd hsd
    · obtain ⟨j, rfl⟩ := Nat.exists_eq_add_of_le (not_lt.mp hgb)
      have hj : j < chainLen s.eng req := by omega
      obtain ⟨hq, hr⟩ := round_add (d := σ.perRequest) (a := b) (n := j) (by omega)
      rw [hq, hr, hround, hoff, ← hsdesc] at hsd
      have hget : (chainSdesc s.eng req)[j]? = some sd := by
        rw [chainSdesc, List.getElem?_take_of_lt hj, List.getElem?_drop, hsd]
      have hcarry := Holds.getElem _ hbt.holds hget
      rw [σ.ringSlot_add (by omega), ← h.idx]
      have hdir' : (s.transferInit req t).1.eng.dir = .fromDevice := by
        rw [hbt.eng]
        exact h.dir
      rwa [hdir'] at hcarry
  · refine ⟨hnum ▸ hn, hindex.trans h.idx, hnum ▸ hinside, ?_, hround ▸ hcb, ?_⟩
    · rw [hnum, hoff]
      omega
    · rw [hnum, hoff, hl]
      exact hlast

end DbufSession

end XdmaDriver
