import XdmaDriver.Engine
import XdmaDriver.Request

/-!
Building one descriptor chain in the ring: `transfer_build` and `transfer_init`.
-/

namespace XdmaDriver

open Spans

def XdmaEngine.streamingC2h (e : XdmaEngine) : Bool := e.streaming && e.dir == .fromDevice

def transferBuildStep (dir : DmaDir) (i : ℕ) (sd : SwDesc) (epAddr : U64) (e : XdmaEngine) :
    XdmaEngine :=
  let d := xdmaDescSet (e.desc i) sd.addr epAddr (BitVec.ofNat 32 sd.len) dir
  if e.streamingC2h then
    { e with
      cyclicResult := Function.update e.cyclicResult i ⟨0, 0⟩
      desc := Function.update e.desc i
        { d with srcAddrLo := pciDmaL (e.resBusAt i), srcAddrHi := pciDmaH (e.resBusAt i) } }
  else { e with desc := Function.update e.desc i d }

/-- The loop of `transfer_build` from ring slot `i` on, with `req->ep_addr` and
`xfer->len`. -/
def transferBuild (dir : DmaDir) : List SwDesc → ℕ → XdmaEngine → U64 → U32 → XdmaEngine × U64 × U32
  | [], _, e, epAddr, len => (e, epAddr, len)
  | sd :: sds, i, e, epAddr, len =>
    transferBuild dir sds (i + 1) (transferBuildStep dir i sd epAddr e)
      (if e.nonIncrAddr then epAddr else epAddr + (sd.len : U64)) (len + BitVec.ofNat 32 sd.len)

def chainLen (e : XdmaEngine) (req : XdmaRequestCb) : ℕ :=
  let descMax := min (req.swDescCnt - req.swDescIdx) e.descMax
  if e.descMax ≤ e.descIdx + descMax then e.descMax - e.descIdx else descMax

def chainSdesc (e : XdmaEngine) (req : XdmaRequestCb) : List SwDesc :=
  (req.sdesc.drop req.swDescIdx).take (chainLen e req)

def transferFinishDesc (eopFlush : Bool) (desc : ℕ → XdmaDesc) (i n : ℕ) : ℕ → XdmaDesc :=
  let desc := updateSlots desc (i + (n - 1)) 1 fun _ d =>
    xdmaDescControlSet d (xdmaDescStopped ||| xdmaDescEop ||| xdmaDescCompleted)
  let desc := if eopFlush then
    updateSlots desc i (n - 1) fun _ d => xdmaDescControlSet d xdmaDescCompleted else desc
  updateSlots desc i n fun j d =>
    xdmaDescAdjacent d (BitVec.ofNat 32 (xdmaGetNextAdj (n - (j - i) - 1) d.nextLo))

namespace Drv

def transferInit (s : Drv) (req : XdmaRequestCb) (t : XferRef) : Drv × XdmaRequestCb :=
  let i := s.eng.descIdx
  let n := chainLen s.eng req
  let e := { s.eng with desc := transferDescInit s.eng i n }
  let (e, epAddr, len) := transferBuild s.eng.dir (chainSdesc s.eng req) i e req.epAddr 0
  let xfer : XdmaTransfer :=
    { dir := s.eng.dir
      descIndex := i
      len := len
      descAdjacent := n
      descCmplTh := if s.eng.eopFlush then 1 else n
      descNum := n }
  let e := { e with
    desc := transferFinishDesc s.eng.eopFlush e.desc i n
    descIdx := (i + n) % s.eng.descMax
    descUsed := s.eng.descUsed + n }
  ({ s with eng := e, tfer := Function.update s.tfer t xfer },
    { req with epAddr := epAddr, swDescIdx := req.swDescIdx + n })

end Drv

def epAfter (nonIncr : Bool) (epAddr : U64) (sds : List SwDesc) : U64 :=
  if nonIncr then epAddr else epAddr + (lenSum sds : U64)

@[simp] theorem epAfter_nil (nonIncr : Bool) (epAddr : U64) : epAfter nonIncr epAddr [] = epAddr := by
  cases nonIncr <;> simp [epAfter]

theorem epAfter_cons (nonIncr : Bool) (epAddr : U64) (sd : SwDesc) (sds : List SwDesc) :
    epAfter nonIncr epAddr (sd :: sds) =
      epAfter nonIncr (if nonIncr then epAddr else epAddr + (sd.len : U64)) sds := by
  cases nonIncr <;> simp [epAfter, add_assoc]

theorem epAfter_append (nonIncr : Bool) (epAddr : U64) (sds sds' : List SwDesc) :
    epAfter nonIncr epAddr (sds ++ sds') = epAfter nonIncr (epAfter nonIncr epAddr sds) sds' := by
  cases nonIncr <;> simp [epAfter, lenSum, add_assoc]

def Holds (e : XdmaEngine) : ℕ → U64 → List SwDesc → Prop
  | _, _, [] => True
  | i, epAddr, sd :: sds =>
    ((e.desc i).bytes = BitVec.ofNat 32 sd.len ∧ (e.desc i).hostAddr e.dir = sd.addr ∧
      (e.streamingC2h = false → (e.desc i).devAddr e.dir = epAddr)) ∧
      Holds e (i + 1) (if e.nonIncrAddr then epAddr else epAddr + (sd.len : U64)) sds

theorem Holds.congr {e e' : XdmaEngine} (hdir : e'.dir = e.dir) (hst : e'.streamingC2h = e.streamingC2h)
    (hn : e'.nonIncrAddr = e.nonIncrAddr) (sds : List SwDesc) : ∀ (i : ℕ) (ep : U64),
      (∀ j, i ≤ j → j < i + sds.length → (e'.desc j).bytes = (e.desc j).bytes ∧
        (e'.desc j).hostAddr e.dir = (e.desc j).hostAddr e.dir ∧
        (e'.desc j).devAddr e.dir = (e.desc j).devAddr e.dir) →
      Holds e i ep sds → Holds e' i ep sds := by
  induction sds with
  | nil => exact fun _ _ _ _ => trivial
  | cons sd sds ih =>
    rintro i ep h ⟨⟨hb, hh, hd⟩, hrest⟩
    simp only [List.length_cons] at h
    obtain ⟨hb', hh', hd'⟩ := h i (le_refl _) (by omega)
    refine ⟨⟨hb'.trans hb, ?_, ?_⟩, ?_⟩
    · rw [hdir]
      exact hh'.trans hh
    · rw [hdir, hst]
      exact fun hs => hd'.trans (hd hs)
    · rw [hn]
      exact ih _ _ (fun j hj hj' => h j (by omega) (by omega)) hrest

theorem Holds.getElem {e : XdmaEngine} (sds : List SwDesc) : ∀ {i j : ℕ} {ep : U64} {sd : SwDesc},
    Holds e i ep sds → sds[j]? = some sd →
      (e.desc (i + j)).bytes = BitVec.ofNat 32 sd.len ∧ (e.desc (i + j)).hostAddr e.dir = sd.addr := by
  induction sds with
  | nil => simp
  | cons sd' sds ih =>
    intro i j ep sd h hj
    cases j with
    | zero =>
      obtain rfl := Option.some.inj hj
      exact ⟨h.1.1, h.1.2.1⟩
    | succ j =>
      have hrest := ih h.2 hj
      rwa [Nat.add_assoc, Nat.add_comm 1 j] at hrest

structure RingWrite (e e' : XdmaEngine) : Prop where
  eq : e' = { e with desc := e'.desc, cyclicResult := e'.cyclicResult }

theorem RingWrite.refl (e : XdmaEngine) : RingWrite e e := ⟨rfl⟩

theorem RingWrite.trans {e f g : XdmaEngine} (h : RingWrite e f) (h' : RingWrite f g) :
    RingWrite e g := by
  constructor
  rw [h'.eq, h.eq]

theorem transferBuildStep_ringWrite (dir : DmaDir) (i : ℕ) (sd : SwDesc) (ep : U64) (e : XdmaEngine) :
    RingWrite e (transferBuildStep dir i sd ep e) := by
  unfold transferBuildStep
  dsimp only
  split <;> exact ⟨rfl⟩

theorem transferBuildStep_of_ne (dir : DmaDir) {i j : ℕ} (sd : SwDesc) (ep : U64) (e : XdmaEngine)
    (h : j ≠ i) : (transferBuildStep dir i sd ep e).desc j = e.desc j ∧
      (transferBuildStep dir i sd ep e).cyclicResult j = e.cyclicResult j := by
  unfold transferBuildStep
  dsimp only
  split <;> simp [Function.update_of_ne h]

theorem transferBuildStep_slot (i : ℕ) (sd : SwDesc) (ep : U64) (e : XdmaEngine) :
    ((transferBuildStep e.dir i sd ep e).desc i).bytes = BitVec.ofNat 32 sd.len ∧
      ((transferBuildStep e.dir i sd ep e).desc i).hostAddr e.dir = sd.addr ∧
      (e.streamingC2h = false → ((transferBuildStep e.dir i sd ep e).desc i).devAddr e.dir = ep) := by
  unfold transferBuildStep
  by_cases hs : e.streamingC2h = true
  · have hdir : e.dir = .fromDevice := by
      simp only [XdmaEngine.streamingC2h, Bool.and_eq_true, beq_iff_eq] at hs
      exact hs.2
    have hhost := xdmaDescSet_hostAddr (e.desc i) .fromDevice sd.addr ep (BitVec.ofNat 32 sd.len)
    simp only [hs, hdir, ↓reduceIte, Function.update_self]
    refine ⟨xdmaDescSet_bytes _ _ _ _ _, hhost, by simp⟩
  · simp [hs]

theorem transferBuild_ringWrite (dir : DmaDir) (sds : List SwDesc) : ∀ (i : ℕ) (e : XdmaEngine)
    (ep : U64) (len : U32), RingWrite e (transferBuild dir sds i e ep len).1 := by
  induction sds with
  | nil => exact fun _ e _ _ => .refl e
  | cons sd sds ih => exact fun i e ep len => (transferBuildStep_ringWrite dir i sd ep e).trans (ih _ _ _ _)

theorem transferBuild_frame (dir : DmaDir) (sds : List SwDesc) : ∀ (i j : ℕ) (e : XdmaEngine)
    (ep : U64) (len : U32), ¬ (i ≤ j ∧ j < i + sds.length) →
      (transferBuild dir sds i e ep len).1.desc j = e.desc j ∧
      (transferBuild dir sds i e ep len).1.cyclicResult j = e.cyclicResult j := by
  induction sds with
  | nil => exact fun _ _ _ _ _ _ => ⟨rfl, rfl⟩
  | cons sd sds ih =>
    intro i j e ep len hj
    simp only [List.length_cons] at hj
    obtain ⟨hd, hr⟩ := ih (i + 1) j (transferBuildStep dir i sd ep e)
      (if e.nonIncrAddr then ep else ep + (sd.len : U64)) (len + BitVec.ofNat 32 sd.len) (by omega)
    obtain ⟨hd', hr'⟩ := transferBuildStep_of_ne dir sd ep e (show j ≠ i by omega)
    exact ⟨hd.trans hd', hr.trans hr'⟩

theorem transferBuild_ep (dir : DmaDir) (sds : List SwDesc) : ∀ (i : ℕ) (e : XdmaEngine)
    (ep : U64) (len : U32),
      (transferBuild dir sds i e ep len).2.1 = epAfter e.nonIncrAddr ep sds ∧
      (transferBuild dir sds i e ep len).2.2 = len + BitVec.ofNat 32 (lenSum sds) := by
  induction sds with
  | nil => exact fun _ _ _ _ => ⟨(epAfter_nil _ _).symm, by simp [transferBuild]⟩
  | cons sd sds ih =>
    intro i e ep len
    obtain ⟨he, hl⟩ := ih (i + 1) (transferBuildStep dir i sd ep e)
      (if e.nonIncrAddr then ep else ep + (sd.len : U64)) (len + BitVec.ofNat 32 sd.len)
    have hn : (transferBuildStep dir i sd ep e).nonIncrAddr = e.nonIncrAddr := by
      rw [(transferBuildStep_ringWrite dir i sd ep e).eq]
    rw [hn] at he
    refine ⟨?_, ?_⟩
    · rw [epAfter_cons]
      exact he
    · rw [lenSum_cons, BitVec.ofNat_add, ← BitVec.add_assoc]
      exact hl

theorem transferBuild_holds (sds : List SwDesc) : ∀ (i : ℕ) (e : XdmaEngine) (ep : U64) (len : U32),
    Holds (transferBuild e.dir sds i e ep len).1 i ep sds := by
  induction sds with
  | nil => exact fun _ _ _ _ => trivial
  | cons sd sds ih =>
    intro i e ep len
    let e₁ := transferBuildStep e.dir i sd ep e
    let ep₁ := if e.nonIncrAddr then ep else ep + (sd.len : U64)
    have hw : e₁ = { e with desc := e₁.desc, cyclicResult := e₁.cyclicResult } :=
      (transferBuildStep_ringWrite e.dir i sd ep e).eq
    have hdir : e₁.dir = e.dir := by rw [hw]
    have hfinal := (transferBuild_ringWrite e.dir (sd :: sds) i e ep len).eq
    have hslot := (transferBuild_frame e.dir sds (i + 1) i e₁ ep₁ (len + BitVec.ofNat 32 sd.len)
      (by omega)).1
    have htail := ih (i + 1) e₁ ep₁ (len + BitVec.ofNat 32 sd.len)
    rw [hdir] at htail
    change (transferBuild e.dir (sd :: sds) i e ep len).1.desc i = e₁.desc i at hslot
    change Holds (transferBuild e.dir (sd :: sds) i e ep len).1 (i + 1) ep₁ sds at htail
    generalize (transferBuild e.dir (sd :: sds) i e ep len).1 = e' at *
    have hdir' : e'.dir = e.dir := by rw [hfinal]
    have hst' : e'.streamingC2h = e.streamingC2h := by rw [hfinal]; rfl
    have hn' : e'.nonIncrAddr = e.nonIncrAddr := by rw [hfinal]
    obtain ⟨hb, hh, hd⟩ := transferBuildStep_slot i sd ep e
    refine ⟨?_, ?_⟩
    · rw [hslot, hdir', hst']
      exact ⟨hb, hh, hd⟩
    · rw [hn']
      exact htail

def XdmaDesc.SameData (d d' : XdmaDesc) : Prop :=
  d'.bytes = d.bytes ∧ ∀ dir, d'.hostAddr dir = d.hostAddr dir ∧ d'.devAddr dir = d.devAddr dir

theorem XdmaDesc.SameData.refl (d : XdmaDesc) : d.SameData d := by simp [SameData]

theorem updateSlots_sameData {d : XdmaDesc} {desc : ℕ → XdmaDesc} {i n j : ℕ}
    {f : ℕ → XdmaDesc → XdmaDesc} (h : d.SameData (desc j))
    (hf : (desc j).SameData (f j (desc j))) : d.SameData (updateSlots desc i n f j) := by
  unfold updateSlots
  split
  · exact ⟨hf.1.trans h.1, fun dir => ⟨(hf.2 dir).1.trans (h.2 dir).1, (hf.2 dir).2.trans (h.2 dir).2⟩⟩
  · exact h

theorem transferFinishDesc_sameData (eopFlush : Bool) (desc : ℕ → XdmaDesc) (i n j : ℕ) :
    (desc j).SameData (transferFinishDesc eopFlush desc i n j) := by
  have hset (d : XdmaDesc) (c : U32) : d.SameData (xdmaDescControlSet d c) := by
    simp [XdmaDesc.SameData]
  have hadj (d : XdmaDesc) (c : U32) : d.SameData (xdmaDescAdjacent d c) := by
    simp [XdmaDesc.SameData]
  have hlast := updateSlots_sameData (i := i + (n - 1)) (n := 1) (.refl (desc j))
    (f := fun _ d => xdmaDescControlSet d (xdmaDescStopped ||| xdmaDescEop ||| xdmaDescCompleted))
    (hset _ _)
  have hothers := updateSlots_sameData (i := i) (n := n - 1) hlast
    (f := fun _ d => xdmaDescControlSet d xdmaDescCompleted) (hset _ _)
  unfold transferFinishDesc
  cases eopFlush with
  | false => exact updateSlots_sameData hlast (hadj _ _)
  | true => exact updateSlots_sameData hothers (hadj _ _)

theorem transferFinishDesc_frame {eopFlush : Bool} {desc : ℕ → XdmaDesc} {i n j : ℕ} (hn : 0 < n)
    (hj : ¬ (i ≤ j ∧ j < i + n)) : transferFinishDesc eopFlush desc i n j = desc j := by
  unfold transferFinishDesc
  rw [updateSlots_of_not_mem hj]
  split
  · rw [updateSlots_of_not_mem (by omega), updateSlots_of_not_mem (by omega)]
  · rw [updateSlots_of_not_mem (by omega)]

structure XdmaRequestCb.Wf (req : XdmaRequestCb) : Prop where
  cnt : req.swDescCnt = req.sdesc.length
  idx : req.swDescIdx ≤ req.swDescCnt

theorem chainLen_eq {e : XdmaEngine} (req : XdmaRequestCb) (h : e.descIdx < e.descMax) :
    chainLen e req = min (req.swDescCnt - req.swDescIdx) (e.descMax - e.descIdx) := by
  unfold chainLen
  dsimp only
  split <;> omega

theorem chainLen_le (e : XdmaEngine) (req : XdmaRequestCb) :
    chainLen e req ≤ req.swDescCnt - req.swDescIdx := by
  unfold chainLen
  dsimp only
  split <;> omega

theorem chainLen_inside {e : XdmaEngine} (req : XdmaRequestCb) (h : e.descIdx < e.descMax) :
    e.descIdx + chainLen e req ≤ e.descMax := by
  rw [chainLen_eq req h]
  omega

theorem chainLen_pos {e : XdmaEngine} {req : XdmaRequestCb} (h : e.descIdx < e.descMax)
    (hreq : req.swDescIdx < req.swDescCnt) : 0 < chainLen e req := by
  rw [chainLen_eq req h]
  omega

theorem chainSdesc_length {e : XdmaEngine} {req : XdmaRequestCb} (h : req.Wf) :
    (chainSdesc e req).length = chainLen e req := by
  have := chainLen_le e req
  have := h.cnt
  simp only [chainSdesc, List.length_take, List.length_drop]
  omega

namespace Drv

theorem transferInit_eng (s : Drv) (req : XdmaRequestCb) (t : XferRef) :
    (s.transferInit req t).1.eng = { s.eng with
      desc := (s.transferInit req t).1.eng.desc
      cyclicResult := (s.transferInit req t).1.eng.cyclicResult
      descIdx := (s.eng.descIdx + chainLen s.eng req) % s.eng.descMax
      descUsed := s.eng.descUsed + chainLen s.eng req } := by
  obtain ⟨e₀, he₀⟩ : ∃ e, e = { s.eng with
    desc := transferDescInit s.eng s.eng.descIdx (chainLen s.eng req) } := ⟨_, rfl⟩
  have hw := (transferBuild_ringWrite s.eng.dir (chainSdesc s.eng req) s.eng.descIdx e₀ req.epAddr 0).eq
  unfold transferInit
  dsimp only
  rw [← he₀, hw, he₀]

theorem transferInit_sameConfig (s : Drv) (req : XdmaRequestCb) (t : XferRef) :
    s.eng.SameConfig (s.transferInit req t).1.eng := by
  rw [transferInit_eng]
  exact ⟨rfl, rfl, rfl, rfl, rfl⟩

theorem transferInit_descIdx_lt {s : Drv} (req : XdmaRequestCb) (t : XferRef)
    (h : s.eng.descIdx < s.eng.descMax) :
    (s.transferInit req t).1.eng.descIdx < (s.transferInit req t).1.eng.descMax := by
  rw [transferInit_eng]
  exact Nat.mod_lt _ (by omega)

theorem transferInit_transferList (s : Drv) (req : XdmaRequestCb) (t : XferRef) :
    (s.transferInit req t).1.eng.transferList = s.eng.transferList := by
  rw [transferInit_eng]

theorem transferInit_other (s : Drv) (req : XdmaRequestCb) (t : XferRef) {u : XferRef} (hu : u ≠ t) :
    (s.transferInit req t).1.tfer u = s.tfer u := by
  simp [transferInit, hu]

structure Built (s : Drv) (req : XdmaRequestCb) (t : XferRef) (s' : Drv)
    (req' : XdmaRequestCb) : Prop where
  holds : Holds s'.eng s.eng.descIdx req.epAddr (chainSdesc s.eng req)
  frame : ∀ j, ¬ (s.eng.descIdx ≤ j ∧ j < s.eng.descIdx + chainLen s.eng req) →
    s'.eng.desc j = s.eng.desc j ∧ s'.eng.cyclicResult j = s.eng.cyclicResult j
  eng : s'.eng = { s.eng with
    desc := s'.eng.desc
    cyclicResult := s'.eng.cyclicResult
    descIdx := (s.eng.descIdx + chainLen s.eng req) % s.eng.descMax
    descUsed := s.eng.descUsed + chainLen s.eng req }
  xfer : s'.tfer t =
    { dir := s.eng.dir
      descIndex := s.eng.descIdx
      len := BitVec.ofNat 32 (lenSum (chainSdesc s.eng req))
      descAdjacent := chainLen s.eng req
      descCmplTh := if s.eng.eopFlush then 1 else chainLen s.eng req
      descNum := chainLen s.eng req }
  other : ∀ u, u ≠ t → s'.tfer u = s.tfer u
  log : s'.log = s.log
  offline : s'.offline = s.offline
  req : req' = { req with
    epAddr := epAfter s.eng.nonIncrAddr req.epAddr (chainSdesc s.eng req)
    swDescIdx := req.swDescIdx + chainLen s.eng req }

theorem transferInit_built {s : Drv} {req : XdmaRequestCb} (t : XferRef) (hreq : req.Wf)
    (hpos : 0 < chainLen s.eng req) :
    Built s req t (s.transferInit req t).1 (s.transferInit req t).2 := by
  obtain ⟨e₀, he₀⟩ : ∃ e, e = { s.eng with
    desc := transferDescInit s.eng s.eng.descIdx (chainLen s.eng req) } := ⟨_, rfl⟩
  have hlen := chainSdesc_length (e := s.eng) hreq
  have hw := (transferBuild_ringWrite s.eng.dir (chainSdesc s.eng req) s.eng.descIdx e₀ req.epAddr 0).eq
  have hep := transferBuild_ep s.eng.dir (chainSdesc s.eng req) s.eng.descIdx e₀ req.epAddr 0
  have hholds := transferBuild_holds (chainSdesc s.eng req) s.eng.descIdx e₀ req.epAddr 0
  have hframe := fun j => transferBuild_frame s.eng.dir (chainSdesc s.eng req) s.eng.descIdx j e₀ req.epAddr 0
  have hdir : e₀.dir = s.eng.dir := by rw [he₀]
  rw [hdir] at hholds
  unfold transferInit
  dsimp only
  rw [← he₀]
  generalize transferBuild s.eng.dir (chainSdesc s.eng req) s.eng.descIdx e₀ req.epAddr 0 = r at *
  obtain ⟨e', ep, len⟩ := r
  dsimp only at *
  subst he₀
  refine ⟨?_, ?_, ?_, ?_, ?_, rfl, rfl, ?_⟩
  · have hdata := transferFinishDesc_sameData s.eng.eopFlush e'.desc s.eng.descIdx (chainLen s.eng req)
    refine Holds.congr (e := e') ?_ ?_ ?_ _ _ _ (fun j _ _ => ?_) hholds
    · rfl
    · rfl
    · rfl
    · exact ⟨(hdata j).1, (hdata j).2 _⟩
  · intro j hj
    obtain ⟨hd, hr⟩ := hframe j (by rwa [hlen])
    refine ⟨?_, hr⟩
    change transferFinishDesc s.eng.eopFlush e'.desc s.eng.descIdx (chainLen s.eng req) j = _
    rw [transferFinishDesc_frame hpos hj, hd]
    simp only [transferDescInit, updateSlots_of_not_mem hj]
  · rw [hw]
  · simp [hep.2]
  · exact fun u hu => by simp [hu]
  · rw [hep.1]

end Drv

end XdmaDriver
