import XdmaDriver.ChainCount
import XdmaDriver.DescriptorMapping

/-!
The hardware descriptors of a request that is queued without waiting, against its
scatter list.
-/

namespace XdmaDriver

open Drv Spans

def NowaitTrace.descs (t : XferRef) (tr : NowaitTrace) : List XdmaDesc :=
  (List.range' (tr.built.tfer t).descIndex (tr.built.tfer t).descNum).map tr.built.eng.desc

def queuedDescs (own : ℕ) : ℕ → List NowaitTrace → List XdmaDesc
  | _, [] => []
  | i, tr :: trs => (if tr.accepted then tr.descs ⟨own, i⟩ else []) ++ queuedDescs own (i + 1) trs

theorem queuedDescs_append (own : ℕ) (trs trs' : List NowaitTrace) : ∀ i : ℕ,
    queuedDescs own i (trs ++ trs') = queuedDescs own i trs ++ queuedDescs own (i + trs.length) trs' := by
  induction trs with
  | nil => exact fun _ => rfl
  | cons tr trs ih =>
    intro i
    rw [List.cons_append, queuedDescs, queuedDescs, ih, List.append_assoc, List.length_cons, Nat.add_assoc,
      Nat.add_comm 1]

theorem engineSteps_config (p : Params) (own : ℕ) (steps : List EngineStep) : ∀ {s : Drv},
    s.eng.SameConfig (s.engineSteps p own steps).eng ∧
      (s.eng.descIdx < s.eng.descMax →
        (s.engineSteps p own steps).eng.descIdx < (s.engineSteps p own steps).eng.descMax) := by
  induction steps with
  | nil => exact fun {s} => ⟨.refl _, id⟩
  | cons st steps ih =>
    intro s
    obtain ⟨hc, hi⟩ := (engineStep_move p own s st).config
    obtain ⟨hc', hi'⟩ := ih (s := s.engineStep p own st)
    exact ⟨hc.trans hc', hi' ∘ hi⟩

namespace NowaitCall

variable {p : Params} {own : ℕ} {dmaMapped : Bool} {cb : IoCb} {e : XdmaEngine} {epAddr : U64}
    {sds : List SwDesc}

structure Moved (own : ℕ) (e : XdmaEngine) (epAddr : U64) (sds : List SwDesc) (c : NowaitCall) : Prop where
  config : e.SameConfig c.drv.eng
  descIdx : c.drv.eng.descIdx < c.drv.eng.descMax
  wf : c.req.Wf
  nents : c.nents = c.req.swDescCnt - c.req.swDescIdx
  sdesc : c.req.sdesc = sds
  describes : Describes e epAddr (sds.take c.req.swDescIdx) (queuedDescs own 0 c.chains)
  epAddr : c.req.epAddr = epAfter e.nonIncrAddr epAddr (sds.take c.req.swDescIdx)

theorem chain_moved (p : Params) (dmaMapped : Bool) (cb : IoCb) (env : NowaitEnv) {c : NowaitCall}
    (h : Moved own e epAddr sds c) (hn : c.nents ≠ 0) :
    ((c.chain p own dmaMapped cb c.chains.length env).1.chains.length = c.chains.length + 1) ∧
      (¬ Open c.drv → (c.chain p own dmaMapped cb c.chains.length env).2 < 0 ∧
        queuedDescs own 0 (c.chain p own dmaMapped cb c.chains.length env).1.chains =
        queuedDescs own 0 c.chains) ∧
      (Open c.drv → (c.chain p own dmaMapped cb c.chains.length env).2 = 0 ∧
        Moved own e epAddr sds (c.chain p own dmaMapped cb c.chains.length env).1 ∧
        c.req.swDescIdx < (c.chain p own dmaMapped cb c.chains.length env).1.req.swDescIdx) := by
  generalize hi : c.chains.length = i
  have hlt : c.req.swDescIdx < c.req.swDescCnt := by
    have := h.nents
    omega
  have hpos := chainLen_pos h.descIdx hlt
  have hlen := chainLen_le c.drv.eng c.req
  have hb := transferInit_built ⟨own, i⟩ h.wf hpos
  obtain ⟨built, req, hc, hchain⟩ := chain_built p own dmaMapped cb i env c
  obtain rfl := hc.rest
  have hnum := hc.num
  rw [hchain]
  refine ⟨by simp [hi], fun hno => ?_, fun hopen => ?_⟩
  · have hno' : ¬ built.Accepts ⟨own, i⟩ := by
      rintro ⟨-, ho, hs⟩
      exact hno ⟨hc.offline.symm.trans ho, hc.shutdown ▸ hs⟩
    have hrv := (transferQueue_refused (p := p) (w := env.startStatus) hno').2
    refine ⟨hrv, ?_⟩
    rw [queuedDescs_append]
    simp [queuedDescs, not_le.mpr hrv]
  · have hacc : built.Accepts ⟨own, i⟩ := ⟨by omega, hc.offline.trans hopen.1, hc.shutdown ▸ hopen.2⟩
    obtain ⟨hq, hrv⟩ := transferQueue_accepted (p := p) (w := env.startStatus) hacc
    obtain ⟨hcfg, hidx⟩ := engineSteps_config p own env.after
      (s := (built.transferQueue p ⟨own, i⟩ env.startStatus).1)
    simp only [hrv, lt_self_iff_false, ↓reduceIte, true_and]
    have hslen := chainSdesc_length (e := c.drv.eng) h.wf
    have hslice : chainSdesc c.drv.eng c.req =
      (sds.drop c.req.swDescIdx).take (chainLen c.drv.eng c.req) := by
      rw [chainSdesc, h.sdesc]
    have htake : sds.take (c.req.swDescIdx + chainLen c.drv.eng c.req) =
        sds.take c.req.swDescIdx ++ chainSdesc c.drv.eng c.req := by
      rw [List.take_add, hslice]
    have hback : (c.drv.transferInit c.req ⟨own, i⟩).1.eng.SameConfig e :=
      XdmaEngine.SameConfig.symm (h.config.trans (transferInit_sameConfig c.drv c.req ⟨own, i⟩))
    have hnew : ∀ tr : NowaitTrace, tr.built = built → Describes e
        (epAfter e.nonIncrAddr epAddr (sds.take c.req.swDescIdx)) (chainSdesc c.drv.eng c.req)
        (tr.descs ⟨own, i⟩) := by
      intro tr htr
      rw [← h.epAddr, NowaitTrace.descs, htr, hnum, hc.index, hc.eng, ← hslen]
      exact (hb.holds.describes _).congr hback
    refine ⟨⟨?_, ?_, ?_, ?_, ?_, ?_, ?_⟩, ?_⟩
    · exact ((h.config.trans hc.config).trans hq.ring.config).trans hcfg
    · apply hidx
      rw [hq.ring.descIdx, hq.ring.config.descMax]
      exact hc.descIdx_lt h.descIdx
    · have := h.wf.idx
      rw [hb.req]
      exact ⟨h.wf.cnt, by dsimp only; omega⟩
    · have := h.nents
      rw [hb.req]
      dsimp only
      omega
    · rw [hb.req]
      exact h.sdesc
    · rw [hb.req, queuedDescs_append, hi, Nat.zero_add]
      dsimp only
      rw [htake]
      apply h.describes.append
      simp only [queuedDescs, le_refl, decide_true, ↓reduceIte, List.append_nil]
      exact hnew _ rfl
    · rw [hb.req]
      dsimp only
      rw [htake, epAfter_append, h.epAddr, h.config.nonIncrAddr]
    · rw [hb.req]
      dsimp only
      omega

def Queues (own : ℕ) (e : XdmaEngine) (epAddr : U64) (sds : List SwDesc)
    (chains : List NowaitTrace) (k : ℕ) : Prop :=
  k ≤ sds.length ∧ Describes e epAddr (sds.take k) (queuedDescs own 0 chains)

theorem Moved.queues {c : NowaitCall} (h : Moved own e epAddr sds c) :
    Queues own e epAddr sds c.chains c.req.swDescIdx :=
  ⟨by rw [← h.sdesc, ← h.wf.cnt]; exact h.wf.idx, h.describes⟩

theorem loop_queues (p : Params) (dmaMapped : Bool) (cb : IoCb) (envs : List NowaitEnv) :
    ∀ {i : ℕ} {c : NowaitCall},
    i = c.chains.length → Moved own e epAddr sds c → ∃ k ≥ c.req.swDescIdx,
      Queues own e epAddr sds (c.loop p own dmaMapped cb envs i).1.chains k := by
  induction envs with
  | nil =>
    intro i c _ h
    exact ⟨_, le_refl _, h.queues⟩
  | cons env envs ih =>
    rintro i c rfl h
    unfold loop
    by_cases hn : c.nents = 0
    · simp only [hn, ↓reduceIte]
      exact ⟨_, le_refl _, h.queues⟩
    by_cases hmax : tferMax ≤ c.chains.length
    · simp only [hn, hmax, ↓reduceIte]
      exact ⟨_, le_refl _, h.queues⟩
    simp only [hn, hmax, ↓reduceIte]
    obtain ⟨hlen, hrefused, haccepted⟩ := chain_moved p dmaMapped cb env h hn
    generalize c.chain p own dmaMapped cb c.chains.length env = r at *
    obtain ⟨c', rv⟩ := r
    dsimp only at *
    by_cases hopen : Open c.drv
    · obtain ⟨rfl, hm, hlt⟩ := haccepted hopen
      obtain ⟨k, hk, hq⟩ := ih (i := c.chains.length + 1) hlen.symm hm
      exact ⟨k, by omega, hq⟩
    · obtain ⟨hneg, hsame⟩ := hrefused hopen
      have hq := h.queues
      rw [Queues, ← hsame] at hq
      simp only [hneg, ↓reduceIte]
      exact ⟨_, le_refl _, hq⟩

theorem loop_queues_first (p : Params) (dmaMapped : Bool) (cb : IoCb) (env : NowaitEnv)
    (envs : List NowaitEnv)
    {c : NowaitCall} (hc : c.chains = []) (h : Moved own e epAddr sds c) :
    ∃ k, Queues own e epAddr sds (c.loop p own dmaMapped cb (env :: envs) 0).1.chains k ∧
      (c.req.swDescIdx < k ↔ c.nents ≠ 0 ∧ Open c.drv) ∧ c.req.swDescIdx ≤ k := by
  have hz : c.chains.length = 0 := by rw [hc]; rfl
  unfold loop
  by_cases hn : c.nents = 0
  · simp only [hn, ↓reduceIte]
    exact ⟨_, h.queues, by simp, le_refl _⟩
  have hmax : ¬ tferMax ≤ 0 := by decide
  simp only [hn, hmax, ↓reduceIte]
  obtain ⟨hlen, hrefused, haccepted⟩ := chain_moved p dmaMapped cb env h hn
  rw [hz] at hlen hrefused haccepted
  generalize c.chain p own dmaMapped cb 0 env = r at *
  obtain ⟨c', rv⟩ := r
  dsimp only at *
  by_cases hopen : Open c.drv
  · obtain ⟨rfl, hm, hlt⟩ := haccepted hopen
    obtain ⟨k, hk, hq⟩ := loop_queues p dmaMapped cb envs (i := 1) hlen.symm hm
    exact ⟨k, hq, by simp [hopen]; omega, by omega⟩
  · obtain ⟨hneg, hsame⟩ := hrefused hopen
    have hq := h.queues
    rw [Queues, ← hsame] at hq
    simp only [hneg, ↓reduceIte]
    exact ⟨_, hq, by simp [hopen], le_refl _⟩

end NowaitCall

def queuedPairs (own : ℕ) (dir : DmaDir) (trs : List NowaitTrace) : List (U64 × U64) :=
  (queuedDescs own 0 trs).flatMap fun d => pairs (d.hostAddr dir) (d.devAddr dir) d.bytes.toNat

def NowaitQueues (p : Params) (write : Bool) (epAddr : U64) (sgt : SgTable) (oom : Bool) (s : Drv) : Prop :=
  ∃ req, NowaitStarts p write epAddr sgt oom s req ∧ req.swDescCnt ≠ 0 ∧ NowaitCall.Open s

section

variable {p : Params} {own : ℕ} {s : Drv}

theorem xdmaXferSubmitNowait_queues (hb : 1 ≤ p.descBlenMax) (hb' : p.descBlenMax < 2 ^ 32)
    (hst : s.eng.streamingC2h = false) (hinc : s.eng.nonIncrAddr = false)
      (hidx : s.eng.descIdx < s.eng.descMax)
    (cb : IoCb) (write : Bool) (epAddr : U64) (sgt : SgTable) (dmaMapped : Bool)
      (mapped : List SgEntry) (oom : Bool)
    (env : NowaitEnv) (envs : List NowaitEnv) {r : NowaitResult}
    (hr : xdmaXferSubmitNowait p own cb write epAddr sgt dmaMapped mapped oom (env :: envs) s = r) :
    queuedPairs own s.eng.dir r.chains <+: (sgBytes (XferCall.mapSgt sgt dmaMapped mapped).entries).zip
        (span epAddr (sgBytes (XferCall.mapSgt sgt dmaMapped mapped).entries).length) ∧
      (queuedPairs own s.eng.dir r.chains ≠ [] ↔
        NowaitQueues p write epAddr (XferCall.mapSgt sgt dmaMapped mapped) oom s) := by
  by_cases hstart : ∃ req, NowaitStarts p write epAddr (XferCall.mapSgt sgt dmaMapped mapped) oom s req
  swap
  · have hchains : r.chains = [] := by
      rw [← hr]
      exact (nowait_not_started own cb (env :: envs) (not_exists.mp hstart)).2.2
    have hnone : ¬ NowaitQueues p write epAddr (XferCall.mapSgt sgt dmaMapped mapped) oom s :=
      fun ⟨req, h, _⟩ => hstart ⟨req, h⟩
    rw [hchains]
    exact ⟨List.nil_prefix, iff_of_false (fun h => h rfl) hnone⟩
  obtain ⟨req, h⟩ := hstart
  have hinit := xdmaInitRequest_initialised h.2.2.2
  have hsdesc : (nowaitCall s req cb).req.sdesc =
    requestSdesc p (XferCall.mapSgt sgt dmaMapped mapped).entries :=
    hinit.sdesc
  have hzero : (nowaitCall s req cb).req.swDescIdx = 0 := hinit.idx
  have hm : NowaitCall.Moved own s.eng epAddr (requestSdesc p (XferCall.mapSgt sgt dmaMapped mapped).entries)
      (nowaitCall s req cb) := by
    have hsplit := nowaitCall_split (p := p) own cb (s := { s with eng := { s.eng with transferList := [] } })
      List.nodup_nil (fun _ => List.not_mem_nil) hidx h.2.2.2
    refine ⟨.refl _, hidx, hsplit.wf, hsplit.nents, hsdesc, ?_, ?_⟩
    · rw [hzero]
      trivial
    · rw [hzero, List.take_zero, epAfter_nil]
      exact hinit.epAddr
  obtain ⟨k, hq, hfirst, -⟩ := NowaitCall.loop_queues_first p dmaMapped cb env envs rfl hm
  have hchains : r.chains = ((nowaitCall s req cb).loop p own dmaMapped cb (env :: envs) 0).1.chains := by
    rw [← hr]
    exact (nowait_eq_loop own cb h (env :: envs)).2.2.2
  rw [← hchains] at hq
  obtain ⟨hk, hd⟩ := hq
  have hmoves := describes_moves hb hb' hst hinc hd
  have hlen := requestSdesc_len hb (XferCall.mapSgt sgt dmaMapped mapped).entries
  generalize requestSdesc p (XferCall.mapSgt sgt dmaMapped mapped).entries = sds at *
  have hpairs : queuedPairs own s.eng.dir r.chains =
      (sdescBytes (sds.take k)).zip (span epAddr (lenSum (sds.take k))) :=
    hd.pairs hb' hst hinc _ fun sd hsd => (hlen sd (List.mem_of_mem_take hsd)).2
  constructor
  · exact hmoves
  · rw [hpairs, NowaitQueues]
    have hreq : (∃ req', NowaitStarts p write epAddr (XferCall.mapSgt sgt dmaMapped mapped) oom s req' ∧
        req'.swDescCnt ≠ 0 ∧ NowaitCall.Open s) ↔ 0 < k := by
      rw [hzero] at hfirst
      rw [hfirst]
      constructor
      · rintro ⟨req', h', hcnt, hopen⟩
        obtain rfl := Option.some.inj (h'.2.2.2.symm.trans h.2.2.2)
        exact ⟨hcnt, hopen⟩
      · exact fun hgo => ⟨req, h, hgo⟩
    rw [hreq, ← List.length_pos_iff, List.length_zip, length_sdescBytes, length_span, min_self]
    cases k with
    | zero => simp
    | succ k =>
      cases sds with
      | nil => simp at hk
      | cons sd sds =>
        have := (hlen sd List.mem_cons_self).1
        rw [List.take_succ_cons, lenSum_cons]
        exact iff_of_true (by omega) (Nat.succ_pos k)

end

end XdmaDriver
