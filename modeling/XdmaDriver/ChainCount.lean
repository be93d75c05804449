import XdmaDriver.RequestLifetime

/-!
How many chains a request of `xdma_xfer_submit_nowait` is split into, against the
two elements of `req->tfer`.
-/

namespace XdmaDriver

open Drv

def ringLeft (e : XdmaEngine) : ℕ := e.descMax - e.descIdx

def sgDescCount (p : Params) (sgt : List SgEntry) : ℕ :=
  (sgt.map fun sg => (sg.dmaLen.toNat + p.descBlenMax - 1) / p.descBlenMax).sum

namespace NowaitCall

variable {p : Params} {own : ℕ} {dmaMapped : Bool} {cb : IoCb}

structure Split (own total i : ℕ) (c : NowaitCall) : Prop where
  nodup : c.drv.eng.transferList.Nodup
  free : ∀ j ≥ i, ⟨own, j⟩ ∉ c.drv.eng.transferList
  descIdx : c.drv.eng.descIdx < c.drv.eng.descMax
  wf : c.req.Wf
  nents : c.nents = c.req.swDescCnt - c.req.swDescIdx
  cnt : c.req.swDescCnt = total
  total : c.nents + ((List.range i).map fun j => (c.drv.tfer ⟨own, j⟩).descNum).sum = total

def Open (s : Drv) : Prop := s.offline = false ∧ s.eng.shutdown.request = false

instance (s : Drv) : Decidable (Open s) := inferInstanceAs (Decidable (_ ∧ _))

theorem chain_refused (p : Params) (own : ℕ) (dmaMapped : Bool) (cb : IoCb) (i : ℕ) (env : NowaitEnv)
    {c : NowaitCall} (h : ¬ Open c.drv) :
    (c.chain p own dmaMapped cb i env).2 < 0 := by
  obtain ⟨built, req, hc, hchain⟩ := chain_built p own dmaMapped cb i env c
  rw [hchain]
  refine (transferQueue_refused fun ha => h ⟨?_, ?_⟩).2
  · exact hc.offline.symm.trans ha.2.1
  · exact hc.shutdown ▸ ha.2.2

theorem chain_accepted (p : Params) (dmaMapped : Bool) (cb : IoCb) (env : NowaitEnv) {total i : ℕ}
    {c : NowaitCall} (h : Split own total i c)
    (hn : c.nents ≠ 0) (hopen : Open c.drv) :
    (c.chain p own dmaMapped cb i env).2 = 0 ∧
      Split own total (i + 1) (c.chain p own dmaMapped cb i env).1 ∧
      (c.chain p own dmaMapped cb i env).1.nents = c.nents - ringLeft c.drv.eng := by
  have hlt : c.req.swDescIdx < c.req.swDescCnt := by
    have := h.nents
    omega
  have hlen := chainLen_eq c.req h.descIdx
  have hpos := chainLen_pos h.descIdx hlt
  have hb := transferInit_built ⟨own, i⟩ h.wf hpos
  obtain ⟨built, req, hc, hchain⟩ := chain_built p own dmaMapped cb i env c
  obtain rfl := hc.rest
  have hlist := hc.list
  have hnum := hc.num
  have hother : ∀ j, j ≠ i → built.tfer ⟨own, j⟩ = c.drv.tfer ⟨own, j⟩ := fun j hj =>
    hc.other _ fun he => hj (congrArg XferRef.idx he)
  have hacc : built.Accepts ⟨own, i⟩ := ⟨by omega, hc.offline.trans hopen.1, hc.shutdown ▸ hopen.2⟩
  rw [hchain]
  obtain ⟨hq, hrv⟩ := transferQueue_accepted (p := p) (w := env.startStatus) hacc
  have hnq := hq.nodup (hlist ▸ h.free i (le_refl i)) (hlist ▸ h.nodup)
  have ho := engineSteps_others p own env.after hnq
  have hdesc : ∀ j, (((built.transferQueue p ⟨own, i⟩ env.startStatus).1.engineSteps p own env.after).tfer
      ⟨own, j⟩).descNum = (built.tfer ⟨own, j⟩).descNum := fun j =>
    (ho.same ⟨own, j⟩ rfl).1.trans (hq.same ⟨own, j⟩).1
  have hsum : ((List.range i).map fun j => (((built.transferQueue p ⟨own, i⟩ env.startStatus).1.engineSteps
      p own env.after).tfer ⟨own, j⟩).descNum).sum =
      ((List.range i).map fun j => (c.drv.tfer ⟨own, j⟩).descNum).sum := by
    congr 1
    refine List.map_congr_left fun j hj => ?_
    rw [hdesc, hother j (by have := List.mem_range.mp hj; omega)]
  have hnents := h.nents
  have htotal := h.total
  have hwf := h.wf.idx
  simp only [hrv, lt_self_iff_false, ↓reduceIte, true_and]
  refine ⟨⟨ho.nodup hnq, fun j hj hm => ?_, ?_, ?_, ?_, by rw [hb.req]; exact h.cnt, ?_⟩, ?_⟩
  · have hm := (ho.linked ⟨own, j⟩ rfl hm).1
    rw [hq.list, hlist, List.mem_append, List.mem_singleton] at hm
    rcases hm with hm | hm
    · exact h.free j (by omega) hm
    · have : j = i := congrArg XferRef.idx hm
      omega
  · refine ho.descIdx ?_
    rw [hq.ring.descIdx, hq.ring.config.descMax]
    exact hc.descIdx_lt h.descIdx
  · rw [hb.req]
    exact ⟨h.wf.cnt, by dsimp only; omega⟩
  · rw [hb.req]
    dsimp only
    omega
  · rw [List.range_succ, List.map_append, List.sum_append, hsum]
    simp only [List.map_cons, List.map_nil, List.sum_cons, List.sum_nil, hdesc, hnum]
    omega
  · rw [hlen]
    unfold ringLeft
    omega

theorem chain_error {i : ℕ} {env : NowaitEnv} {c : NowaitCall}
    (h : (c.chain p own dmaMapped cb i env).2 < 0) :
    (c.chain p own dmaMapped cb i env).2 ≠ err .iocbQueued := by
  rcases transferQueue_error h with he | he
  · exact fun hq => absurd (he.symm.trans hq) (by decide)
  · exact fun hq => absurd (he.symm.trans hq) (by decide)

def second (p : Params) (own : ℕ) (dmaMapped : Bool) (cb : IoCb) (env : NowaitEnv) (c : NowaitCall) :
    NowaitCall := (c.chain p own dmaMapped cb 0 env).1

theorem loop_overrun_iff (p : Params) (dmaMapped : Bool) (cb : IoCb) (env env' : NowaitEnv)
    (envs : List NowaitEnv) {total : ℕ} {c : NowaitCall}
    (h : Split own total 0 c) :
    (c.loop p own dmaMapped cb (env :: env' :: envs) 0).2 = .overrun ↔
      Open c.drv ∧ Open (c.second p own dmaMapped cb env).drv ∧
        ringLeft c.drv.eng + ringLeft (c.second p own dmaMapped cb env).drv.eng < c.nents := by
  by_cases hn : c.nents = 0
  · simp [loop, hn]
  by_cases ho : Open c.drv
  swap
  · simp [loop, hn, tferMax, chain_refused p own dmaMapped cb 0 env ho, ho]
  obtain ⟨hrv, h₁, hn₁⟩ := chain_accepted p dmaMapped cb env h hn ho
  rw [loop]
  unfold second
  generalize c.chain p own dmaMapped cb 0 env = r at *
  obtain ⟨c₁, rv⟩ := r
  dsimp only at hrv h₁ hn₁
  subst hrv
  simp only [hn, ↓reduceIte, tferMax, nonpos_iff_eq_zero, OfNat.ofNat_ne_zero, lt_self_iff_false, ho,
    true_and, zero_add]
  by_cases hz : c₁.nents = 0
  · simp only [loop, hz, ↓reduceIte, reduceCtorEq, false_iff, not_and, not_lt]
    omega
  by_cases ho₁ : Open c₁.drv
  swap
  · simp [loop, hz, tferMax, chain_refused p own dmaMapped cb 1 env' ho₁, ho₁]
  obtain ⟨hrv, -, hn₂⟩ := chain_accepted p dmaMapped cb env' h₁ hz ho₁
  rw [loop]
  generalize c₁.chain p own dmaMapped cb 1 env' = r at *
  obtain ⟨c₂, rv⟩ := r
  dsimp only at hrv hn₂
  subst hrv
  have hend : (c₂.loop p own dmaMapped cb envs 2).2 = .overrun ↔ c₂.nents ≠ 0 := by
    cases envs <;> by_cases hz₂ : c₂.nents = 0 <;> simp [loop, hz₂, tferMax]
  simp only [hz, ↓reduceIte, tferMax, Nat.not_ofNat_le_one, lt_self_iff_false, ho₁, true_and,
    Nat.reduceAdd, hend]
  omega

theorem second_ringLeft (p : Params) (dmaMapped : Bool) (cb : IoCb) (env : NowaitEnv) {total : ℕ}
    {c : NowaitCall} (h : Split own total 0 c)
    (ho : Open c.drv) (hn : c.nents ≠ 0) (hcut : ringLeft c.drv.eng ≤ c.nents)
    (hsteps : ∀ st ∈ env.after, st.isBuild = false) :
    ringLeft (c.second p own dmaMapped cb env).drv.eng = c.drv.eng.descMax := by
  have hidx := h.descIdx
  have hlen : chainLen c.drv.eng c.req = c.drv.eng.descMax - c.drv.eng.descIdx := by
    rw [chainLen_eq c.req hidx, ← h.nents]
    exact min_eq_right hcut
  obtain ⟨hrv, h₁, -⟩ := chain_accepted p dmaMapped cb env h hn ho
  have hmax : (c.second p own dmaMapped cb env).drv.eng.descMax = c.drv.eng.descMax ∧
      (c.second p own dmaMapped cb env).drv.eng.descIdx = 0 := by
    obtain ⟨built, req, hc, hchain⟩ := chain_built p own dmaMapped cb 0 env c
    rw [hchain] at hrv
    rw [second, hchain]
    dsimp only at hrv ⊢
    rw [hrv, if_neg (lt_irrefl 0)]
    have hacc := transferQueue_nonneg.mp hrv.ge
    obtain ⟨hq, -⟩ := transferQueue_accepted (p := p) (w := env.startStatus) hacc
    have ho := engineSteps_others p own env.after
      (hq.nodup (hc.list ▸ h.free 0 (le_refl 0)) (hc.list ▸ h.nodup))
    rw [ho.config.descMax, engineSteps_descIdx env.after hsteps, hq.ring.config.descMax, hq.ring.descIdx,
      hc.config.descMax, hc.descIdx, hlen, Nat.add_sub_cancel' hidx.le, Nat.mod_self]
    exact ⟨rfl, rfl⟩
  rw [ringLeft, hmax.1, hmax.2, Nat.sub_zero]

theorem second_open {total : ℕ} {w : U32} {c : NowaitCall} (h : Split own total 0 c) (ho : Open c.drv)
    (hn : c.nents ≠ 0) : Open (c.second p own dmaMapped cb { startStatus := w }).drv := by
  obtain ⟨hrv, -⟩ := chain_accepted p dmaMapped cb { startStatus := w } h hn ho
  unfold second chain at *
  dsimp only at *
  rw [hrv, if_neg (lt_irrefl 0)]
  have hacc := transferQueue_nonneg.mp hrv.ge
  obtain ⟨hq, -⟩ := transferQueue_accepted (p := p) (w := w) hacc
  exact ⟨hq.offline.trans hacc.2.1, hq.request hacc.2.2⟩

theorem loop_queued (p : Params) (dmaMapped : Bool) (cb : IoCb) {total : ℕ}
    (envs : List NowaitEnv) :
    ∀ {i : ℕ} {c : NowaitCall}, i ≤ tferMax →
    Split own total i c → (c.loop p own dmaMapped cb envs i).2 = .returned (err .iocbQueued) →
    ∃ k ≤ tferMax, Split own total k (c.loop p own dmaMapped cb envs i).1 ∧
      (c.loop p own dmaMapped cb envs i).1.nents = 0 := by
  induction envs with
  | nil =>
    intro i c hi h hq
    unfold loop at hq ⊢
    dsimp only at hq ⊢
    split_ifs at hq with hn
    exact ⟨i, hi, h, hn⟩
  | cons env envs ih =>
    intro i c hi h hq
    unfold loop at hq ⊢
    by_cases hn : c.nents = 0
    · simp only [hn, ↓reduceIte, and_true]
      exact ⟨i, hi, h⟩
    by_cases hmax : tferMax ≤ i
    · simp [hn, hmax] at hq
    simp only [hn, hmax, ↓reduceIte] at hq ⊢
    have herr : (c.chain p own dmaMapped cb i env).2 < 0 →
        (c.chain p own dmaMapped cb i env).2 ≠ err .iocbQueued := chain_error
    by_cases ho : Open c.drv
    · obtain ⟨hrv, h₁, -⟩ := chain_accepted p dmaMapped cb env h hn ho
      generalize c.chain p own dmaMapped cb i env = r at *
      obtain ⟨c₁, rv⟩ := r
      dsimp only at hrv h₁
      subst hrv
      simp only [lt_self_iff_false, ↓reduceIte] at hq ⊢
      exact ih (by omega) h₁ hq
    · have hneg := chain_refused p own dmaMapped cb i env ho
      generalize c.chain p own dmaMapped cb i env = r at *
      obtain ⟨c₁, rv⟩ := r
      dsimp only at hneg herr
      simp only [hneg, ↓reduceIte, CallEnd.returned.injEq] at hq
      exact absurd hq (herr hneg)

end NowaitCall

namespace Completion

variable {p : Params} {own : ℕ}

theorem chain_descNum (t u : XferRef) (r : DumpRegs) (c : Completion) :
    ((c.chain p t r).1.drv.tfer u).descNum = (c.drv.tfer u).descNum ∧
      (c.chain p t r).1.nents = c.nents - (c.drv.tfer t).descNum := by
  have habort (s : Drv) : (((s.transferAbort t).1.xdmaEngineStop p).transferDestroy t).tfer u =
      (s.transferAbort t).1.tfer u := rfl
  have hsame (s : Drv) : ((s.transferAbort t).1.tfer u).descNum = (s.tfer u).descNum := by
    by_cases hn : (s.tfer t).descNum = 0
    · simp [transferAbort, hn]
    · rw [(transferAbort_aborted hn).1.tfer]
      by_cases hu : u = t
      · simp [hu]
      · simp [hu]
  have hdump : (c.drv.engineStatusReadDump r.identifier r.status).1.tfer = c.drv.tfer := by
    by_cases hr : r.Ok
    · simp [engineStatusReadDump_ok hr]
    · simp [engineStatusReadDump_not_ok hr]
  unfold chain
  dsimp only
  cases (c.drv.tfer t).state
  · simp only [habort, hsame, hdump, and_self]
  · simp only [habort, hsame, hdump, and_self]
  · exact ⟨rfl, rfl⟩
  · exact ⟨rfl, rfl⟩
  · simp only [habort, hsame, hdump, and_self]

theorem loop_in_bounds {dump : ℕ → DumpRegs} (left : ℕ) : ∀ {i m : ℕ} {c : Completion}, m ≤ left →
    c.nents = ((List.range' i m).map fun j => (c.drv.tfer ⟨own, j⟩).descNum).sum →
    (loop p own dump left i c).2 ≠ .overrun := by
  induction left with
  | zero =>
    intro i m c hm hsum
    obtain rfl : m = 0 := by omega
    simp only [List.range'_zero, List.map_nil, List.sum_nil, Nat.cast_zero] at hsum
    simp [loop, hsum]
  | succ left ih =>
    intro i m c hm hsum
    unfold loop
    by_cases hz : c.nents = 0
    · simp [hz]
    cases m with
    | zero => exact absurd hsum (by simpa using hz)
    | succ m =>
      have hc := fun u => (chain_descNum (p := p) ⟨own, i⟩ u (dump i) c).1
      have hn := (chain_descNum (p := p) ⟨own, i⟩ ⟨own, i⟩ (dump i) c).2
      simp only [hz, ↓reduceIte]
      generalize c.chain p ⟨own, i⟩ (dump i) = r at *
      obtain ⟨c', rv⟩ := r
      dsimp only at hc hn ⊢
      by_cases hneg : rv < 0
      · simp [hneg]
      · simp only [hneg, ↓reduceIte]
        refine ih (by omega : m ≤ left) ?_
        simp only [hc]
        rw [hn, hsum, List.range'_succ, List.map_cons, List.sum_cons, Nat.cast_add]
        omega

end Completion

def NowaitStarts (p : Params) (write : Bool) (epAddr : U64) (sgt : SgTable) (oom : Bool) (s : Drv)
    (req : XdmaRequestCb) : Prop :=
  s.offline = false ∧ s.eng.dir = (if write then .toDevice else .fromDevice) ∧ sgt.nents ≠ 0 ∧
    xdmaInitRequest p oom sgt.entries epAddr = some req

def nowaitCall (s : Drv) (req : XdmaRequestCb) (cb : IoCb) : NowaitCall where
  drv := s
  req := { req with cb := some cb }
  nents := req.swDescCnt

/-- The software descriptors fit in what is left of the ring at the first chain
and at the second, or the queue is closed at one of the two. -/
def FitsTwoChains (p : Params) (own : ℕ) (dmaMapped : Bool) (cb : IoCb) (env : NowaitEnv)
    (sgt : SgTable) (s : Drv) (req : XdmaRequestCb) : Prop :=
  let s₂ := ((nowaitCall s req cb).second p own dmaMapped cb env).drv
  sgDescCount p sgt.entries ≤ ringLeft s.eng + ringLeft s₂.eng ∨ ¬ NowaitCall.Open s ∨
    ¬ NowaitCall.Open s₂

section

variable {p : Params} {own : ℕ} {s : Drv} {cb : IoCb} {write dmaMapped oom : Bool} {epAddr : U64}
  {sgt : SgTable} {mapped : List SgEntry} {env env' : NowaitEnv} {envs : List NowaitEnv}

theorem nowaitCall_split (own : ℕ) (cb : IoCb) {req : XdmaRequestCb} (hnd : s.eng.transferList.Nodup)
    (hfree : Unlinked own s) (hidx : s.eng.descIdx < s.eng.descMax)
    (hreq : xdmaInitRequest p oom sgt.entries epAddr = some req) :
    NowaitCall.Split own req.swDescCnt 0 (nowaitCall s req cb) := by
  have hinit := xdmaInitRequest_initialised hreq
  refine ⟨hnd, fun j _ => hfree j, hidx, ⟨?_, ?_⟩, ?_, rfl, rfl⟩
  · exact hinit.cnt.trans (by simp [nowaitCall, hinit.sdesc])
  · simp [nowaitCall, hinit.idx]
  · simp [nowaitCall, hinit.idx]

theorem nowait_eq_loop (own : ℕ) (cb : IoCb) {req : XdmaRequestCb}
    (h : NowaitStarts p write epAddr (XferCall.mapSgt sgt dmaMapped mapped) oom s req)
    (envs : List NowaitEnv) :
    (xdmaXferSubmitNowait p own cb write epAddr sgt dmaMapped mapped oom envs s).outcome =
        ((nowaitCall s req cb).loop p own dmaMapped cb envs 0).2 ∧
      (xdmaXferSubmitNowait p own cb write epAddr sgt dmaMapped mapped oom envs s).drv =
        ((nowaitCall s req cb).loop p own dmaMapped cb envs 0).1.drv ∧
      (xdmaXferSubmitNowait p own cb write epAddr sgt dmaMapped mapped oom envs s).req =
        some ((nowaitCall s req cb).loop p own dmaMapped cb envs 0).1.req ∧
      (xdmaXferSubmitNowait p own cb write epAddr sgt dmaMapped mapped oom envs s).chains =
        ((nowaitCall s req cb).loop p own dmaMapped cb envs 0).1.chains := by
  obtain ⟨ho, hdir, hz, hreq⟩ := h
  unfold xdmaXferSubmitNowait
  simp only [ho, hdir, hz, hreq, Bool.false_eq_true, ↓reduceIte, ne_eq, not_true_eq_false]
  exact ⟨rfl, rfl, rfl, rfl⟩

theorem nowait_not_started (own : ℕ) (cb : IoCb) (envs : List NowaitEnv)
    (h : ∀ req, ¬ NowaitStarts p write epAddr (XferCall.mapSgt sgt dmaMapped mapped) oom s req) :
    (∃ rv, (xdmaXferSubmitNowait p own cb write epAddr sgt dmaMapped mapped oom envs s).outcome =
      .returned rv ∧
        rv ≠ err .iocbQueued) ∧
      (xdmaXferSubmitNowait p own cb write epAddr sgt dmaMapped mapped oom envs s).drv = s ∧
      (xdmaXferSubmitNowait p own cb write epAddr sgt dmaMapped mapped oom envs s).chains = [] := by
  unfold xdmaXferSubmitNowait
  by_cases ho : s.offline = true
  · exact ⟨⟨err .busy, by simp [ho], by decide⟩, by simp [ho]⟩
  by_cases hdir : s.eng.dir = (if write then .toDevice else .fromDevice)
  swap
  · exact ⟨⟨err .inval, by simp [ho, hdir], by decide⟩, by simp [ho, hdir]⟩
  by_cases hz : (XferCall.mapSgt sgt dmaMapped mapped).nents = 0
  · exact ⟨⟨err .io, by simp [ho, hdir, hz], by decide⟩, by simp [ho, hdir, hz]⟩
  cases hreq : xdmaInitRequest p oom (XferCall.mapSgt sgt dmaMapped mapped).entries epAddr with
  | none => exact ⟨⟨err .noMem, by simp [ho, hdir, hz, hreq], by decide⟩, by simp [ho, hdir, hz, hreq]⟩
  | some req => exact absurd ⟨by simpa using ho, hdir, hz, hreq⟩ (h req)

theorem completion_in_bounds {total k : ℕ} {c : NowaitCall} (h : NowaitCall.Split own total k c)
    (hk : k ≤ tferMax) (hz : c.nents = 0) (steps : List EngineStep)
    (dump : ℕ → DumpRegs) :
    (xdmaXferCompletion p own c.req dump (c.drv.engineSteps p own steps)).2 ≠ .overrun := by
  have ho := engineSteps_others p own steps h.nodup
  refine Completion.loop_in_bounds tferMax hk ?_
  have htotal := h.total
  rw [hz, zero_add, List.range_eq_range'] at htotal
  simp only [fun j => (ho.same ⟨own, j⟩ rfl).1]
  rw [htotal, h.cnt]

theorem nowait_in_bounds_iff (hb : 1 ≤ p.descBlenMax) (hnd : s.eng.transferList.Nodup)
    (hfree : Unlinked own s) (hidx : s.eng.descIdx < s.eng.descMax) :
    ((xdmaXferSubmitNowait p own cb write epAddr sgt dmaMapped mapped oom (env :: env' :: envs) s).outcome ≠
        .overrun ∧
      ((xdmaXferSubmitNowait p own cb write epAddr sgt dmaMapped mapped oom (env :: env' :: envs) s).outcome =
        .returned (err .iocbQueued) →
        ∀ req ∈ (xdmaXferSubmitNowait p own cb write epAddr sgt dmaMapped mapped oom
          (env :: env' :: envs) s).req, ∀ steps dump, (xdmaXferCompletion p own req dump
            ((xdmaXferSubmitNowait p own cb write epAddr sgt dmaMapped mapped oom
              (env :: env' :: envs) s).drv.engineSteps p own steps)).2 ≠ .overrun)) ↔
      ∀ req, NowaitStarts p write epAddr (XferCall.mapSgt sgt dmaMapped mapped) oom s req →
        FitsTwoChains p own dmaMapped cb env (XferCall.mapSgt sgt dmaMapped mapped) s req := by
  by_cases hstart : ∃ req, NowaitStarts p write epAddr (XferCall.mapSgt sgt dmaMapped mapped) oom s req
  swap
  · obtain ⟨⟨rv, hrv, hne⟩, -⟩ := nowait_not_started own cb (env :: env' :: envs) (not_exists.mp hstart)
    simp only [hrv, ne_eq, reduceCtorEq, not_false_eq_true, CallEnd.returned.injEq, hne, false_implies,
      and_self, true_iff]
    exact fun req h => absurd ⟨req, h⟩ hstart
  obtain ⟨req, h⟩ := hstart
  have huniq : ∀ req', NowaitStarts p write epAddr (XferCall.mapSgt sgt dmaMapped mapped) oom s req' →
      req' = req := fun req' h' => Option.some.inj (h'.2.2.2.symm.trans h.2.2.2)
  obtain ⟨hout, hdrv, hr, -⟩ := nowait_eq_loop own cb h (env :: env' :: envs)
  have hsplit := nowaitCall_split own cb hnd hfree hidx h.2.2.2
  have hover := NowaitCall.loop_overrun_iff p dmaMapped cb env env' envs hsplit
  have hcount : (nowaitCall s req cb).nents = sgDescCount p (XferCall.mapSgt sgt dmaMapped mapped).entries :=
    (xdmaInitRequest_initialised h.2.2.2).cnt.trans (requestSdesc_length hb _)
  have hdrv₀ : (nowaitCall s req cb).drv = s := rfl
  rw [hcount, hdrv₀] at hover
  simp only [hout, hdrv, hr, Option.mem_def, Option.some.injEq, forall_eq']
  constructor
  · rintro ⟨hne, -⟩ req' h'
    obtain rfl := huniq req' h'
    rw [ne_eq, hover] at hne
    unfold FitsTwoChains
    dsimp only
    grind
  · intro hfits
    have hfits := hfits req h
    unfold FitsTwoChains at hfits
    dsimp only at hfits
    refine ⟨fun hov => ?_, fun hq => ?_⟩
    · obtain ⟨h₁, h₂, hlt⟩ := hover.mp hov
      rcases hfits with hle | hno | hno
      · omega
      · exact hno h₁
      · exact hno h₂
    · obtain ⟨k, hk, hfinal, hz⟩ := NowaitCall.loop_queued p dmaMapped cb (env :: env' :: envs)
        (by simp) hsplit hq
      exact completion_in_bounds hfinal hk hz

end

theorem nowait_in_bounds_iff_split :
    let r := xdmaXferSubmitNowait splitParams 1 (.dbuf 0) false 0x20 splitSgt true [] false [{}, {}] twoSlots
    r.chains.length = 2 ∧ r.outcome ≠ .overrun ∧ ∀ req ∈ r.req, ∀ steps dump,
      (xdmaXferCompletion splitParams 1 req dump (r.drv.engineSteps splitParams 1 steps)).2 ≠ .overrun := by
  intro r
  have hfits : ∀ req, NowaitStarts splitParams false 0x20 splitSgt false twoSlots req →
      FitsTwoChains splitParams 1 true (.dbuf 0) {} splitSgt twoSlots req := by
    rintro req ⟨-, -, -, hreq⟩
    obtain rfl := Option.some.inj hreq
    exact .inl (by decide)
  obtain ⟨hover, hcompletes⟩ := (@nowait_in_bounds_iff splitParams 1 twoSlots (.dbuf 0) false true
    false 0x20 splitSgt []
    {} {} [] (by decide) List.nodup_nil (fun _ => List.not_mem_nil) (by decide)).mpr hfits
  exact ⟨by decide, hover, hcompletes (by decide)⟩

def repeatSgt (n : ℕ) : SgTable := ⟨List.replicate n ⟨0x1000, 64⟩, n, n⟩

def lastSlot : Drv := { eng := { descIdx := 2047 } }

theorem repeatSgt_request {p : Params} (hb : 64 ≤ p.descBlenMax) (hb' : p.descBlenMax < 2 ^ 32) {n : ℕ}
    (hn : 0 < n) (hmax : n < 2 ^ 31) :
    ∃ req, NowaitStarts p false 0 (repeatSgt n) false lastSlot req ∧ req.swDescCnt = n := by
  have hentries : (repeatSgt n).entries = List.replicate n ⟨0x1000, 64⟩ := by
    simp [repeatSgt, SgTable.entries]
  have hone : (64 + p.descBlenMax - 1) / p.descBlenMax = 1 := by
    have hsplit : 64 + p.descBlenMax - 1 = 63 + p.descBlenMax := by omega
    rw [hsplit, Nat.add_div_right _ (by omega), Nat.div_eq_of_lt (by omega)]
  have hlen : (requestSdesc p (repeatSgt n).entries).length = n := by
    rw [requestSdesc_length (by omega), hentries, List.map_replicate, List.sum_replicate]
    change n * ((64 + p.descBlenMax - 1) / p.descBlenMax) = n
    rw [hone, mul_one]
  have hextra : entryExtra p ⟨0x1000, 64⟩ = 0 := by
    unfold entryExtra
    refine if_neg ?_
    rw [BitVec.lt_def, BitVec.toNat_ofNat, Nat.mod_eq_of_lt hb', not_lt]
    exact hb
  have hsum : requestMax p (repeatSgt n).entries = BitVec.ofNat 32 n := by
    unfold requestMax
    dsimp only
    rw [hentries, List.take_replicate, List.map_replicate, List.sum_replicate, hextra, nsmul_zero,
      List.length_replicate, add_zero]
  have hint : (BitVec.ofNat 32 n).toInt = n := by
    rw [BitVec.toInt_eq_toNat_of_lt] <;> simp only [BitVec.toNat_ofNat] <;> omega
  have hreq : ∃ req, xdmaInitRequest p false (repeatSgt n).entries 0 = some req := by
    unfold xdmaInitRequest xdmaRequestAlloc
    simp only [Bool.false_eq_true, ↓reduceIte, hlen, hsum, hint, lt_self_iff_false]
    exact ⟨_, rfl⟩
  obtain ⟨req, hreq⟩ := hreq
  exact ⟨req, ⟨rfl, rfl, hn.ne', hreq⟩, by rw [(xdmaInitRequest_initialised hreq).cnt, hlen]⟩

/-- One chain of one descriptor, one of 2048, and a third one. -/
theorem nowait_overruns : ¬ ∀ (p : Params) (own : ℕ) (cb : IoCb) (write : Bool) (epAddr : U64) (sgt : SgTable)
    (dmaMapped : Bool) (mapped : List SgEntry) (oom : Bool) (envs : List NowaitEnv) (s : Drv),
      1 ≤ p.descBlenMax → s.eng.transferList.Nodup → Unlinked own s → s.eng.descIdx < s.eng.descMax →
      (xdmaXferSubmitNowait p own cb write epAddr sgt dmaMapped mapped oom envs s).outcome ≠ .overrun := by
  intro h
  have hfree : Unlinked 1 lastSlot := fun i => List.not_mem_nil
  obtain ⟨req, hstart, hcnt⟩ := repeatSgt_request (p := {}) (n := 2050) (by decide) (by decide) (by norm_num)
    (by norm_num)
  have hstart' : NowaitStarts {} false 0 (XferCall.mapSgt (repeatSgt 2050) true []) false
    lastSlot req := hstart
  have hsplit := nowaitCall_split 1 (.dbuf 0) (s := lastSlot) List.nodup_nil hfree
    (by decide) hstart.2.2.2
  have hopen : NowaitCall.Open (nowaitCall lastSlot req (.dbuf 0)).drv := ⟨rfl, rfl⟩
  have hnents : (nowaitCall lastSlot req (.dbuf 0)).nents = 2050 := by
    simp only [nowaitCall, hcnt]
  have hdrv : (nowaitCall lastSlot req (.dbuf 0)).drv = lastSlot := rfl
  have hleft : ringLeft lastSlot.eng = 1 := by decide
  have hsecond := NowaitCall.second_ringLeft {} true (.dbuf 0) {} hsplit
    hopen (by rw [hnents]; norm_num) (by rw [hnents, hdrv, hleft]; norm_num) (by simp)
  refine h {} 1 (.dbuf 0) false 0 (repeatSgt 2050) true [] false [{}, {}] lastSlot (by decide)
    List.nodup_nil hfree (by decide) ?_
  rw [(nowait_eq_loop 1 (.dbuf 0) hstart' _).1,
    NowaitCall.loop_overrun_iff _ _ _ _ _ _ hsplit, hsecond, hnents, hdrv, hleft]
  refine ⟨⟨rfl, rfl⟩, NowaitCall.second_open hsplit hopen (by rw [hnents]; norm_num), ?_⟩
  decide

end XdmaDriver
