import XdmaDriver.Aperture
import XdmaDriver.Nowait

/-!
Whether a request is still linked in the engine queue when its call frees it.
-/

namespace XdmaDriver

open Drv

def Unlinked (own : ℕ) (s : Drv) : Prop := ∀ i, ⟨own, i⟩ ∉ s.eng.transferList

def ChainTrace.Released (tr : ChainTrace) (t : XferRef) : Prop :=
  ∀ w ∈ tr.woken, w.Unfinished t → w.eng.transferList.head? = some t ∧ tr.dump.Ok

instance (tr : ChainTrace) (t : XferRef) : Decidable (tr.Released t) :=
  inferInstanceAs (Decidable (∀ w ∈ tr.woken, w.Unfinished t → _))

def ChainTrace.Completed (tr : ChainTrace) (t : XferRef) : Prop :=
  ∃ w ∈ tr.woken, (w.tfer t).state = .completed

instance (tr : ChainTrace) (t : XferRef) : Decidable (tr.Completed t) :=
  inferInstanceAs (Decidable (∃ w ∈ tr.woken, _))

namespace XferCall

variable {p : Params} {own : ℕ}

def Bookkeeping (account : XferCall → XdmaTransfer → XferCall) : Prop :=
  ∀ c x, (account c x).drv = c.drv ∧ (account c x).chains = c.chains ∧ (account c x).req = c.req ∧
    ((account c x).nents = c.nents ∨ (account c x).nents = 0 ∧ c.drv.eng.eopFlush = true)

theorem submitDone_bookkeeping : Bookkeeping submitDone := by
  intro c x
  unfold submitDone
  split_ifs with h hs he
  · exact ⟨rfl, rfl, rfl, .inr ⟨rfl, (Bool.and_eq_true_iff.mp he).1⟩⟩
  · exact ⟨rfl, rfl, rfl, .inl rfl⟩
  · exact ⟨rfl, rfl, rfl, .inl rfl⟩
  · exact ⟨rfl, rfl, rfl, .inl rfl⟩

@[simp] theorem unmapLast_drv (c : XferCall) (x : XdmaTransfer) : (c.unmapLast x).drv = c.drv := by
  unfold unmapLast
  split_ifs <;> rfl

@[simp] theorem unmapLast_chains (c : XferCall) (x : XdmaTransfer) :
    (c.unmapLast x).chains = c.chains := by
  unfold unmapLast
  split_ifs <;> rfl

@[simp] theorem unmapLast_req (c : XferCall) (x : XdmaTransfer) : (c.unmapLast x).req = c.req := by
  unfold unmapLast
  split_ifs <;> rfl

@[simp] theorem unmapLast_nents (c : XferCall) (x : XdmaTransfer) : (c.unmapLast x).nents = c.nents := by
  unfold unmapLast
  split_ifs <;> rfl

theorem unmapLast_cases {c : XferCall} {x : XdmaTransfer} {sgt : SgTable} {unmaps : List ℕ}
    (hsgt : c.sgt = sgt)
    (hunmaps : c.unmaps = unmaps) :
    ((x.lastInRequest = true ∧ x.needUnmap = true ∧ sgt.nents ≠ 0) ∧
        (c.unmapLast x).unmaps = unmaps ++ [sgt.nents] ∧ (c.unmapLast x).sgt = { sgt with nents := 0 }) ∨
      (¬ (x.lastInRequest = true ∧ x.needUnmap = true ∧ sgt.nents ≠ 0) ∧
        (c.unmapLast x).unmaps = unmaps ∧ (c.unmapLast x).sgt = sgt) := by
  subst hsgt hunmaps
  unfold unmapLast
  by_cases hu : x.lastInRequest = true ∧ x.needUnmap = true ∧ c.sgt.nents ≠ 0
  · apply Or.inl
    rw [if_pos (by simpa [and_assoc] using hu)]
    exact ⟨hu, rfl, rfl⟩
  · apply Or.inr
    rw [if_neg (by simpa [and_assoc] using hu)]
    exact ⟨hu, rfl, rfl⟩

structure ChainEnded (own : ℕ) (tr : ChainTrace) (c : XferCall) (r : XferCall × ℤ) : Prop where
  chains : r.1.chains = c.chains ++ [tr]
  req : r.1.req = c.req
  nents : r.1.nents = c.nents ∨ r.1.nents = 0 ∧ r.1.drv.eng.eopFlush = true
  config : c.drv.eng.SameConfig r.1.drv.eng
  descIdx : c.drv.eng.descIdx < c.drv.eng.descMax → r.1.drv.eng.descIdx < r.1.drv.eng.descMax
  nodup : r.1.drv.eng.transferList.Nodup
  released : Unlinked own r.1.drv ↔ tr.Released ⟨own, 0⟩
  completed : 0 ≤ r.2 → tr.Released ⟨own, 0⟩
  failed : r.2 < 0 → ¬ tr.Completed ⟨own, 0⟩

theorem waitEnd_unlinked {q d : Drv} {r : DumpRegs} (hs : (q.tfer ⟨own, 0⟩).state = .submitted)
    (hin : ⟨own, 0⟩ ∈ q.eng.transferList) (hout : ∀ i, i ≠ 0 → ⟨own, i⟩ ∉ q.eng.transferList)
    (hn : (q.tfer ⟨own, 0⟩).descNum ≠ 0) (hd : OthersEffect own q d)
    (hnd : d.eng.transferList.Nodup) :
    (d.waitEnd p ⟨own, 0⟩ r).1.eng.transferList.Nodup ∧
      (Unlinked own (d.waitEnd p ⟨own, 0⟩ r).1 ↔
        (d.Unfinished ⟨own, 0⟩ → d.eng.transferList.head? = some ⟨own, 0⟩ ∧ r.Ok)) := by
  have hothers : ∀ i, i ≠ 0 → ⟨own, i⟩ ∉ d.eng.transferList := fun i hi hm =>
    hout i hi (hd.linked ⟨own, i⟩ rfl hm).1
  have hunlinked : ⟨own, 0⟩ ∉ d.eng.transferList → Unlinked own d := fun h i => by
    by_cases hi : i = 0
    · exact hi ▸ h
    · exact hothers i hi
  by_cases hu : d.Unfinished ⟨own, 0⟩
  · have hmem : ⟨own, 0⟩ ∈ d.eng.transferList := by
      by_contra hm
      rcases hd.left _ rfl hin hm with h | h
      · exact hu.1 h
      · exact hu.2 h
    by_cases hr : r.Ok
    · have hn' : (d.tfer ⟨own, 0⟩).descNum ≠ 0 := by
        rw [(hd.same _ rfl).1]
        exact hn
      obtain ⟨hl, -⟩ := waitEnd_unfinished (p := p) hu hr hn'
      simp only [Unlinked, hl, hu, hr, and_true, true_implies]
      cases hlist : d.eng.transferList with
      | nil => simp [hlist] at hmem
      | cons u us =>
        rw [hlist] at hnd hothers
        obtain ⟨hu', hus⟩ := List.nodup_cons.mp hnd
        by_cases hut : u = ⟨own, 0⟩
        · simp only [hut, List.head?_cons, ↓reduceIte, List.tail_cons, iff_true]
          refine ⟨hus, fun i => ?_⟩
          by_cases hi : i = 0
          · rw [hi, ← hut]
            exact hu'
          · exact fun hm => hothers i hi (List.mem_cons_of_mem _ hm)
        · simp only [List.head?_cons, Option.some.injEq, hut, ↓reduceIte, iff_false, not_forall,
            not_not]
          exact ⟨hnd, 0, hlist ▸ hmem⟩
    · rw [waitEnd_dumpFailed hu hr]
      simp only [hu, hr, and_false, true_implies, iff_false]
      exact ⟨hnd, fun h => h 0 hmem⟩
  · rw [waitEnd_finished hu]
    simp only [hu, false_implies, iff_true]
    refine ⟨hnd, hunlinked fun hm => hu ?_⟩
    obtain ⟨-, hst⟩ := hd.linked _ rfl hm
    rw [hs] at hst
    exact ⟨by rw [hst]; simp, by rw [hst]; simp⟩

theorem queueAndWait_ended {account : XferCall → XdmaTransfer → XferCall} (env : ChainEnv)
    (tr : ChainTrace) (c : XferCall) (hacc : Bookkeeping account) (htr : tr.dump = env.dump)
    (hw : tr.woken = none) (hnd : c.drv.eng.transferList.Nodup) (hfree : Unlinked own c.drv)
    (hn : (c.drv.tfer ⟨own, 0⟩).descNum ≠ 0) :
    ∃ w, ChainEnded own { tr with woken := w } c (c.queueAndWait p own account env tr) := by
  by_cases ha : c.drv.Accepts ⟨own, 0⟩
  swap
  · obtain ⟨hq, hrv⟩ := transferQueue_refused (p := p) (w := env.startStatus) ha
    refine ⟨none, ?_⟩
    simp only [queueAndWait, hrv, ↓reduceIte, hq]
    refine ⟨by simp [← hw], rfl, .inl rfl, .refl _, id, hnd, ?_, fun h => absurd h (not_le.mpr hrv),
      fun _ => by simp [ChainTrace.Completed]⟩
    simp only [ChainTrace.Released, Option.mem_def, reduceCtorEq, false_implies, implies_true, iff_true]
    exact hfree
  obtain ⟨hq, hrv⟩ := transferQueue_accepted (p := p) (w := env.startStatus) ha
  generalize hqe : c.drv.transferQueue p ⟨own, 0⟩ env.startStatus = q at hq hrv
  obtain ⟨q, rv⟩ := q
  dsimp only at hq hrv
  subst hrv
  have hnq : q.eng.transferList.Nodup := hq.nodup (hfree 0) hnd
  have hd := engineSteps_others p own env.during hnq
  generalize hde : q.engineSteps p own env.during = d at hd
  obtain ⟨hnd', hun⟩ := waitEnd_unlinked (p := p) (r := env.dump) hq.state
    (by simp [hq.list]) (fun i hi => by simpa [hq.list, hi] using hfree i)
    (by rw [(hq.same _).1]; exact hn) hd (hd.nodup hnq)
  obtain ⟨hdrv, hchains, hreq, hnents⟩ := hacc { c with drv := d, chains := c.chains ++ [{ tr with woken := some d }] }
    (d.tfer ⟨own, 0⟩)
  have hcfg := waitEnd_sameConfig p d ⟨own, 0⟩ env.dump
  have hdst := transferDestroy_sameConfig (d.waitEnd p ⟨own, 0⟩ env.dump).1 ⟨own, 0⟩
  refine ⟨some d, ?_⟩
  simp only [queueAndWait, hqe, lt_self_iff_false, ↓reduceIte, hde, hdrv]
  refine ⟨?_, ?_, ?_, ?_, ?_, ?_, ?_, fun h => ?_, fun h => ?_⟩
  · simp [hchains]
  · simp [hreq]
  · rw [unmapLast_nents, unmapLast_drv]
    exact hnents.imp_right fun h => ⟨h.1, (hcfg.1.trans hdst.1).eopFlush.trans h.2⟩
  · rw [unmapLast_drv]
    exact ((hq.ring.config.trans hd.config).trans hcfg.1).trans hdst.1
  · rw [unmapLast_drv]
    intro hidx
    have := hd.descIdx (by rw [hq.ring.descIdx, hq.ring.config.descMax]; exact hidx)
    rw [hdst.2, hcfg.2, hdst.1.descMax, hcfg.1.descMax]
    exact this
  · rw [unmapLast_drv]
    exact hnd'
  · simp only [unmapLast_drv, ChainTrace.Released, Option.mem_def, Option.some.injEq, forall_eq', htr]
    exact hun
  · have hst := waitEnd_nonneg.mp h
    simp only [ChainTrace.Released, Option.mem_def, Option.some.injEq, forall_eq']
    exact fun hu => absurd hst hu.1
  · rintro ⟨w, hw, hst⟩
    obtain rfl := Option.some.inj hw
    exact absurd (waitEnd_nonneg.mpr hst) (not_le.mpr h)

variable (own) in
theorem queueAndWait_chains {account : XferCall → XdmaTransfer → XferCall}
    (hacc : Bookkeeping account) (env : ChainEnv)
    (tr : ChainTrace) (c : XferCall) : ∃ w,
    (c.queueAndWait p own account env tr).1.chains = c.chains ++ [{ tr with woken := w }] ∧
      (c.queueAndWait p own account env tr).1.req = c.req := by
  unfold queueAndWait
  dsimp only
  split_ifs
  · exact ⟨tr.woken, rfl, rfl⟩
  · generalize (c.drv.transferQueue p ⟨own, 0⟩ env.startStatus).1.engineSteps p own env.during = d
    obtain ⟨-, hchains, hreq, -⟩ := hacc { c with
      drv := d
      chains := c.chains ++ [{ tr with woken := some d }] } (d.tfer ⟨own, 0⟩)
    refine ⟨some d, ?_, ?_⟩
    · rw [unmapLast_chains]
      exact hchains
    · rw [unmapLast_req]
      exact hreq

theorem queueAndWait_length {account : XferCall → XdmaTransfer → XferCall} (env : ChainEnv) (tr : ChainTrace)
    (c : XferCall) (hacc : Bookkeeping account) :
    (c.queueAndWait p own account env tr).1.chains.length = c.chains.length + 1 := by
  obtain ⟨w, hchains, -⟩ := queueAndWait_chains (p := p) own hacc env tr c
  rw [hchains, List.length_append]
  rfl

def KeepsMapping (account : XferCall → XdmaTransfer → XferCall) : Prop :=
  ∀ c x, (account c x).sgt = c.sgt ∧ (account c x).unmaps = c.unmaps

theorem submitDone_keepsMapping : KeepsMapping submitDone := by
  intro c x
  unfold submitDone
  split_ifs <;> exact ⟨rfl, rfl⟩

theorem apertureDone_keepsMapping : KeepsMapping apertureDone := by
  intro c x
  unfold apertureDone
  split_ifs <;> exact ⟨rfl, rfl⟩

def Unmaps (own : ℕ) (c : XferCall) (w : Option Drv) : Prop :=
  w ≠ none ∧ (c.drv.tfer ⟨own, 0⟩).lastInRequest = true ∧ (c.drv.tfer ⟨own, 0⟩).needUnmap =
  true ∧ c.sgt.nents ≠ 0

theorem queueAndWait_unmaps {account : XferCall → XdmaTransfer → XferCall} (hacc : Bookkeeping account)
    (hmap : KeepsMapping account) (env : ChainEnv) (tr : ChainTrace) (c : XferCall) (hw : tr.woken = none)
    (hnd : c.drv.eng.transferList.Nodup) (hfree : Unlinked own c.drv) : ∃ w,
    (c.queueAndWait p own account env tr).1.chains = c.chains ++ [{ tr with woken := w }] ∧
      (Unmaps own c w ∧ (c.queueAndWait p own account env tr).1.unmaps = c.unmaps ++ [c.sgt.nents] ∧
          (c.queueAndWait p own account env tr).1.sgt = { c.sgt with nents := 0 } ∨
        ¬ Unmaps own c w ∧ (c.queueAndWait p own account env tr).1.unmaps = c.unmaps ∧
          (c.queueAndWait p own account env tr).1.sgt = c.sgt) := by
  by_cases ha : c.drv.Accepts ⟨own, 0⟩
  swap
  · obtain ⟨-, hrv⟩ := transferQueue_refused (p := p) (w := env.startStatus) ha
    refine ⟨none, ?_, .inr ⟨fun h => h.1 rfl, ?_⟩⟩
    · simp [queueAndWait, hrv, ← hw]
    · simp [queueAndWait, hrv]
  obtain ⟨hq, hrv⟩ := transferQueue_accepted (p := p) (w := env.startStatus) ha
  have hd := engineSteps_others p own env.during (hq.nodup (hfree 0) hnd)
  have hsame := ((hq.same ⟨own, 0⟩).trans (hd.same ⟨own, 0⟩ rfl))
  simp only [queueAndWait, hrv, lt_self_iff_false, ↓reduceIte]
  generalize (c.drv.transferQueue p ⟨own, 0⟩ env.startStatus).1.engineSteps p own env.during = d at *
  obtain ⟨-, -, -, -, hlast, -, hneed, -⟩ := hsame
  obtain ⟨hdrv, hchains, -, -⟩ := hacc { c with drv := d, chains := c.chains ++ [{ tr with woken := some d }] }
    (d.tfer ⟨own, 0⟩)
  obtain ⟨hsgt, hunmaps⟩ := hmap { c with drv := d, chains := c.chains ++ [{ tr with woken := some d }] }
    (d.tfer ⟨own, 0⟩)
  refine ⟨some d, ?_, ?_⟩
  · rw [unmapLast_chains]
    exact hchains
  · have hiff : Unmaps own c (some d) ↔ (c.drv.tfer ⟨own, 0⟩).lastInRequest = true ∧
        (c.drv.tfer ⟨own, 0⟩).needUnmap = true ∧ c.sgt.nents ≠ 0 := by
      simp [Unmaps]
    rw [hiff, ← hlast, ← hneed]
    exact unmapLast_cases hsgt hunmaps

structure Between (own : ℕ) (c : XferCall) : Prop where
  nodup : c.drv.eng.transferList.Nodup
  unlinked : Unlinked own c.drv
  descIdx : c.drv.eng.descIdx < c.drv.eng.descMax

def ReleasedIff (own : ℕ) (c : XferCall) : Prop :=
  Unlinked own c.drv ↔ ∀ tr ∈ c.chains, tr.Released ⟨own, 0⟩

theorem chainLoop_unlinked {more : XferCall → Bool}
    {pass : ChainEnv → XferCall → Option (XferCall × ℤ)} {I : XferCall → Prop}
    (hI : ∀ c, I c → Between own c)
    (hpass : ∀ env c r, I c → more c = true → pass env c = some r → ∃ tr,
      r.1.chains = c.chains ++ [tr] ∧ (Unlinked own r.1.drv ↔ tr.Released ⟨own, 0⟩) ∧
        (0 ≤ r.2 → tr.Released ⟨own, 0⟩ ∧ I r.1))
    (envs : List ChainEnv) {c : XferCall} (h : I c) (hrel : ∀ tr ∈ c.chains, tr.Released ⟨own, 0⟩) :
    ReleasedIff own (chainLoop more pass envs c).1 := by
  refine chainLoop_invariant (I := fun c => I c ∧ ∀ tr ∈ c.chains, tr.Released ⟨own, 0⟩)
    (fun c hc => ⟨fun _ => hc.2, fun _ => (hI c hc.1).unlinked⟩) ?_ envs ⟨h, hrel⟩
  intro env c r hc hmore hr
  obtain ⟨tr, hchains, hunlinked, hnext⟩ := hpass env c r hc.1 hmore hr
  have hall : (∀ t ∈ r.1.chains, t.Released ⟨own, 0⟩) ↔ tr.Released ⟨own, 0⟩ := by
    simp only [hchains, List.mem_append, List.mem_singleton]
    exact ⟨fun ht => ht tr (.inr rfl), fun ht u hu => hu.elim (hc.2 u) fun he => he ▸ ht⟩
  exact ⟨hunlinked.trans hall.symm, fun hrv => ⟨(hnext hrv).2, hall.mpr (hnext hrv).1⟩⟩

structure SubmitBetween (own : ℕ) (c : XferCall) : Prop extends Between own c where
  wf : c.req.Wf
  nents : c.nents = c.req.swDescCnt - c.req.swDescIdx ∨ c.nents = 0 ∧ c.drv.eng.eopFlush = true

def submitCall (s : Drv) (req : XdmaRequestCb) (sgt : SgTable) : XferCall where
  drv := s
  req := req
  nents := req.swDescCnt
  sgt := sgt

theorem submitCall_between {s : Drv} (hnd : s.eng.transferList.Nodup) (hfree : Unlinked own s)
    (hidx : s.eng.descIdx < s.eng.descMax) {sgt : SgTable} {oom : Bool} {epAddr : U64} {req : XdmaRequestCb}
    (h : xdmaInitRequest p oom sgt.entries epAddr = some req) : SubmitBetween own (submitCall s req sgt) := by
  have hinit := xdmaInitRequest_initialised h
  constructor
  · exact ⟨hnd, hfree, hidx⟩
  · exact ⟨by simp [submitCall, hinit.cnt, hinit.sdesc], by simp [submitCall, hinit.idx]⟩
  · exact .inl (by simp [submitCall, hinit.idx])

theorem SubmitBetween.left {c : XferCall} (h : SubmitBetween own c) (hn : c.nents ≠ 0) :
    c.nents = c.req.swDescCnt - c.req.swDescIdx :=
  h.nents.resolve_right fun h => hn h.1

theorem SubmitBetween.chainLen_pos {c : XferCall} (h : SubmitBetween own c) (hn : c.nents ≠ 0) :
    0 < chainLen c.drv.eng c.req :=
  XdmaDriver.chainLen_pos h.descIdx (by have := h.left hn; omega)

structure Pass (p : Params) (own : ℕ) (c : XferCall) (tr : ChainTrace) (r : XferCall × ℤ) : Prop where
  before : tr.before = c.drv ∧ tr.req = c.req
  built : Built c.drv c.req ⟨own, 0⟩ (c.drv.transferInit c.req ⟨own, 0⟩).1
    (c.drv.transferInit c.req ⟨own, 0⟩).2
  builtEng : tr.built.eng = (c.drv.transferInit c.req ⟨own, 0⟩).1.eng
  builtXfer : (tr.built.tfer ⟨own, 0⟩).descIndex = c.drv.eng.descIdx ∧
    (tr.built.tfer ⟨own, 0⟩).descNum = chainLen c.drv.eng c.req
  chains : r.1.chains = c.chains ++ [tr]
  req : r.1.req = (c.drv.transferInit c.req ⟨own, 0⟩).2
  config : c.drv.eng.SameConfig r.1.drv.eng
  released : Unlinked own r.1.drv ↔ tr.Released ⟨own, 0⟩
  completed : 0 ≤ r.2 → tr.Released ⟨own, 0⟩ ∧ SubmitBetween own r.1
  failed : r.2 < 0 → ¬ tr.Completed ⟨own, 0⟩

theorem submitChain_pass (p : Params) (dmaMapped : Bool) (env : ChainEnv) {c : XferCall}
    (h : SubmitBetween own c)
    (hn : c.nents ≠ 0) : ∃ tr, Pass p own c tr (c.submitChain p own dmaMapped env) := by
  have hpos := h.chainLen_pos hn
  have hb := transferInit_built ⟨own, 0⟩ h.wf hpos
  obtain ⟨drv, req, hc, hchain⟩ := submitChain_built p own dmaMapped env c
  obtain rfl := hc.rest
  rw [hchain]
  obtain ⟨w, he⟩ := queueAndWait_ended (p := p) env
    { before := c.drv, req := c.req, built := drv, dump := env.dump }
    ({ c with
      drv := drv
      req := (c.drv.transferInit c.req ⟨own, 0⟩).2
      nents := c.nents - chainLen c.drv.eng c.req })
    submitDone_bookkeeping rfl rfl (hc.list ▸ h.nodup) (fun i => by rw [hc.list]; exact h.unlinked i)
    (by rw [hc.num]; omega)
  refine ⟨_, ⟨rfl, rfl⟩, hb, hc.eng, ⟨hc.index, hc.num⟩, he.chains, he.req,
    hc.config.trans he.config, he.released,
    fun hrv => ⟨he.completed hrv, ?_⟩, he.failed⟩
  have hlen := chainLen_le c.drv.eng c.req
  refine ⟨⟨he.nodup, he.released.mpr (he.completed hrv), ?_⟩, ?_, he.nents.imp_left fun hnents => ?_⟩
  · exact he.descIdx (hc.descIdx_lt h.descIdx)
  · rw [he.req, hb.req]
    have := h.wf.idx
    exact ⟨h.wf.cnt, by dsimp only; omega⟩
  · rw [hnents, he.req, hb.req, h.left hn]
    dsimp only
    omega

theorem submitLoop_unlinked (dmaMapped : Bool) (envs : List ChainEnv) {c : XferCall}
    (h : SubmitBetween own c) (hrel : ∀ tr ∈ c.chains, tr.Released ⟨own, 0⟩) :
    ReleasedIff own (c.submitLoop p own dmaMapped envs).1 := by
  refine chainLoop_unlinked (I := SubmitBetween own) (fun _ h => h.toBetween) ?_ envs h hrel
  intro env c r h hmore hr
  obtain rfl := Option.some.inj hr
  obtain ⟨tr, hp⟩ := submitChain_pass p dmaMapped env h (by simpa using hmore)
  exact ⟨tr, hp.chains, hp.released, hp.completed⟩

theorem apertureChain_built {dmaMapped : Bool} {dump : DumpRegs} {c c' : XferCall} {tr : ChainTrace}
    (h : c.apertureChain p own dmaMapped dump = some (c', tr)) :
    c'.drv.eng.transferList = c.drv.eng.transferList ∧ c.drv.eng.SameConfig c'.drv.eng ∧
      (c.drv.eng.descIdx < c.drv.eng.descMax → c'.drv.eng.descIdx < c'.drv.eng.descMax) ∧
      (c'.drv.tfer ⟨own, 0⟩).descNum ≠ 0 ∧ c'.chains = c.chains ∧ tr.dump = dump ∧ tr.woken = none := by
  unfold apertureChain at h
  dsimp only at h
  split_ifs at h with hn
  simp only [Option.some.injEq, Prod.mk.injEq] at h
  obtain ⟨rfl, rfl⟩ := h
  refine ⟨rfl, ⟨rfl, rfl, rfl, rfl, rfl⟩, fun h => Nat.mod_lt _ (by omega), ?_, rfl, rfl, rfl⟩
  simpa using hn

theorem apertureDone_bookkeeping : Bookkeeping apertureDone := by
  intro c x
  unfold apertureDone
  split <;> exact ⟨rfl, rfl, rfl, .inl rfl⟩

theorem apertureChain_ended {dmaMapped : Bool} {c c' : XferCall} {tr : ChainTrace} (env : ChainEnv)
    (h : Between own c)
    (hchain : c.apertureChain p own dmaMapped env.dump = some (c', tr)) :
    ∃ w, ChainEnded own { tr with woken := w } c' (c'.queueAndWait p own apertureDone env tr) ∧
      (c'.queueAndWait p own apertureDone env tr).1.chains = c.chains ++ [{ tr with woken := w }] ∧
      (0 ≤ (c'.queueAndWait p own apertureDone env tr).2 →
        Between own (c'.queueAndWait p own apertureDone env tr).1) := by
  obtain ⟨hlist, -, hidx, hn, hchains, hdump, hwoken⟩ := apertureChain_built hchain
  obtain ⟨w, he⟩ := queueAndWait_ended (p := p) env tr c' apertureDone_bookkeeping hdump
    hwoken (hlist ▸ h.nodup) (fun i => by rw [hlist]; exact h.unlinked i) hn
  refine ⟨w, he, ?_, fun hrv => ⟨he.nodup, he.released.mpr (he.completed hrv), he.descIdx (hidx h.descIdx)⟩⟩
  rw [he.chains, hchains]

variable (own) in
theorem apertureLoop_unlinked (dmaMapped : Bool) (envs : List ChainEnv) {c : XferCall}
    (h : Between own c) (hrel : ∀ tr ∈ c.chains, tr.Released ⟨own, 0⟩) :
    ReleasedIff own (c.apertureLoop p own dmaMapped envs).1 := by
  refine chainLoop_unlinked (I := Between own) (fun _ h => h) ?_ envs h hrel
  intro env c r h _ hr
  obtain ⟨⟨c', tr⟩, hc', rfl⟩ := Option.map_eq_some_iff.mp hr
  obtain ⟨w, he, hchains, hnext⟩ := apertureChain_ended env h hc'
  exact ⟨_, hchains, he.released, fun hrv => ⟨he.completed hrv, hnext hrv⟩⟩

theorem leave_spec (dmaMapped : Bool) (c : XferCall) (outcome : CallEnd) :
    (c.leave dmaMapped outcome).req = some c.req ∧ (c.leave dmaMapped outcome).chains = c.chains ∧
      ((c.leave dmaMapped outcome).outcome = .waiting → outcome = .waiting) ∧
      ((c.leave dmaMapped outcome).freed = true → ∃ rv, outcome = .returned rv) := by
  cases outcome <;> simp [leave]

theorem leave_freed {dmaMapped : Bool} {c : XferCall} {outcome : CallEnd}
    (h : (c.leave dmaMapped outcome).freed = true) :
    (c.leave dmaMapped outcome).drv = c.drv ∧ (c.leave dmaMapped outcome).chains = c.chains := by
  cases outcome with
  | returned rv => exact ⟨rfl, rfl⟩
  | waiting => simp [leave] at h
  | overrun => simp [leave] at h

end XferCall

/-- A chain that is refused finds the first chain of its request out of the queue. -/
def NowaitTrace.AloneIfRefused (own : ℕ) (tr : NowaitTrace) : Prop :=
  tr.accepted = false → ⟨own, 0⟩ ∉ tr.built.eng.transferList

namespace NowaitCall

variable {p : Params} {own : ℕ} {dmaMapped : Bool} {cb : IoCb}

theorem chain_unlinked (p : Params) (dmaMapped : Bool) (cb : IoCb) (env : NowaitEnv) {i : ℕ} {c : NowaitCall}
    (hnd : c.drv.eng.transferList.Nodup) (hfree : ∀ j ≥ i, ⟨own, j⟩ ∉ c.drv.eng.transferList) :
    ∃ tr : NowaitTrace, (c.chain p own dmaMapped cb i env).1.chains = c.chains ++ [tr] ∧
      tr.built.eng.transferList = c.drv.eng.transferList ∧
      ((tr.accepted = false ∧ (c.chain p own dmaMapped cb i env).2 < 0 ∧
          (c.chain p own dmaMapped cb i env).1.drv.eng.transferList = c.drv.eng.transferList) ∨
        (tr.accepted = true ∧ (c.chain p own dmaMapped cb i env).2 = 0 ∧
          (c.chain p own dmaMapped cb i env).1.drv.eng.transferList.Nodup ∧
          ∀ j ≥ i + 1, ⟨own, j⟩ ∉ (c.chain p own dmaMapped cb i env).1.drv.eng.transferList)) := by
  obtain ⟨built, req, hc, hchain⟩ := chain_built p own dmaMapped cb i env c
  have hlist := hc.list
  rw [hchain]
  refine ⟨_, rfl, hlist, ?_⟩
  by_cases ha : built.Accepts ⟨own, i⟩
  · obtain ⟨hq, hrv⟩ := transferQueue_accepted (p := p) (w := env.startStatus) ha
    have hnq := hq.nodup (hlist ▸ hfree i (le_refl i)) (hlist ▸ hnd)
    have ho := engineSteps_others p own env.after hnq
    simp only [hrv, le_refl, decide_true, lt_self_iff_false, ↓reduceIte]
    refine .inr ⟨trivial, trivial, ho.nodup hnq, fun j hj hm => ?_⟩
    have hm := (ho.linked ⟨own, j⟩ rfl hm).1
    rw [hq.list, hlist, List.mem_append, List.mem_singleton] at hm
    rcases hm with hm | hm
    · exact hfree j (by omega) hm
    · have : j = i := congrArg XferRef.idx hm
      omega
  · obtain ⟨hq, hrv⟩ := transferQueue_refused (p := p) (w := env.startStatus) ha
    simp only [hrv, not_le.mpr hrv, decide_false, ↓reduceIte, hq, hlist]
    exact .inl ⟨trivial, trivial, trivial⟩

theorem loop_unlinked (envs : List NowaitEnv) : ∀ {i : ℕ} {c : NowaitCall} {rv : ℤ},
    i ≤ tferMax → c.drv.eng.transferList.Nodup → (∀ j ≥ i, ⟨own, j⟩ ∉ c.drv.eng.transferList) →
      (∀ tr ∈ c.chains, tr.AloneIfRefused own) →
      (c.loop p own dmaMapped cb envs i).2 = .returned rv → rv ≠ err .iocbQueued →
      (Unlinked own (c.loop p own dmaMapped cb envs i).1.drv ↔
        ∀ tr ∈ (c.loop p own dmaMapped cb envs i).1.chains, tr.AloneIfRefused own) := by
  induction envs with
  | nil =>
    intro i c rv _ _ _ _ hrv hne
    unfold loop at hrv
    dsimp only at hrv
    split_ifs at hrv
    exact absurd (CallEnd.returned.inj hrv).symm hne
  | cons env envs ih =>
    intro i c rv hi hnd hfree hall hrv hne
    unfold loop at hrv ⊢
    by_cases hn : c.nents = 0
    · simp only [hn, ↓reduceIte, CallEnd.returned.injEq] at hrv
      exact absurd hrv.symm hne
    by_cases hmax : tferMax ≤ i
    · simp [hn, hmax] at hrv
    simp only [hn, hmax, ↓reduceIte] at hrv ⊢
    obtain ⟨tr, hchains, hbuilt, h⟩ := chain_unlinked p dmaMapped cb env hnd hfree
    generalize c.chain p own dmaMapped cb i env = r at *
    obtain ⟨c', rv'⟩ := r
    dsimp only at hchains h hrv ⊢
    have hall' : (∀ t ∈ c'.chains, t.AloneIfRefused own) ↔ tr.AloneIfRefused own := by
      simp only [hchains, List.mem_append, List.mem_singleton]
      exact ⟨fun ht => ht tr (.inr rfl), fun ht u hu => hu.elim (hall u) fun he => he ▸ ht⟩
    rcases h with ⟨hacc, hneg, hlist⟩ | ⟨hacc, hrv', hnd', hfree'⟩
    · simp only [hneg, ↓reduceIte]
      rw [hall']
      simp only [Unlinked, hlist, NowaitTrace.AloneIfRefused, hacc, hbuilt, true_implies]
      refine ⟨fun h => h 0, fun h j => ?_⟩
      by_cases hj : j = 0
      · exact hj ▸ h
      · unfold tferMax at hmax
        exact hfree j (by omega)
    · simp only [hrv', lt_self_iff_false, ↓reduceIte] at hrv ⊢
      exact ih (by omega) hnd' hfree' (hall'.mpr fun h => by simp [hacc] at h) hrv hne

end NowaitCall

section

variable {p : Params} {own : ℕ} {s : Drv}

theorem xdmaXferSubmit_starts (p : Params) (own : ℕ) (write : Bool) (epAddr : U64) (sgt : SgTable)
    (dmaMapped : Bool)
    (mapped : List SgEntry) (oom : Bool) (envs : List ChainEnv) (s : Drv) {r : XferResult}
    (hr : xdmaXferSubmit p own write epAddr sgt dmaMapped mapped oom envs s = r) :
    (r.req = none ∧ r.chains = [] ∧ r.freed = false ∧ r.outcome ≠ .waiting) ∨
      ∃ req c outcome, xdmaInitRequest p oom (XferCall.mapSgt sgt dmaMapped mapped).entries epAddr =
        some req ∧
        (XferCall.submitCall s req (XferCall.mapSgt sgt dmaMapped mapped)).submitLoop p own dmaMapped envs =
          (c, outcome) ∧ r = c.leave dmaMapped outcome := by
  unfold xdmaXferSubmit at hr
  by_cases ho : s.offline = true
  · exact .inl (by simp [← hr, ho])
  by_cases hdir : s.eng.dir ≠ (if write then .toDevice else .fromDevice)
  · exact .inl (by simp [← hr, ho, hdir])
  by_cases hz : (XferCall.mapSgt sgt dmaMapped mapped).nents = 0
  · exact .inl (by simp [← hr, ho, hdir, hz])
  simp only [ho, hdir, hz, Bool.false_eq_true, ↓reduceIte] at hr
  cases hreq : xdmaInitRequest p oom (XferCall.mapSgt sgt dmaMapped mapped).entries epAddr with
  | none =>
    rw [hreq] at hr
    exact .inl (by simp [← hr])
  | some req =>
    rw [hreq] at hr
    exact .inr ⟨req, _, _, rfl, rfl, hr.symm⟩

def apertureCall (s : Drv) (epAddr : U64) (aperture : U32) (sgt : SgTable) : XferCall where
  drv := s
  req := { epAddr := epAddr, aperture := aperture, totalLen := (sgt.entries.map SgEntry.dmaLen).sum }
  sgt := sgt

theorem xdmaXferAperture_starts (p : Params) (own : ℕ) (write : Bool) (epAddr : U64)
    (aperture : U32) (sgt : SgTable)
    (dmaMapped : Bool) (mapped : List SgEntry) (oom : Bool) (envs : List ChainEnv) (s : Drv) {r : XferResult}
    (hr : xdmaXferAperture p own write epAddr aperture sgt dmaMapped mapped oom envs s = r) :
    (r.req = none ∧ r.chains = [] ∧ r.freed = false ∧ ∃ rv, r.outcome = .returned rv) ∨
      ∃ c outcome, (apertureCall s epAddr aperture (XferCall.mapSgt sgt dmaMapped mapped)).apertureLoop
        p own dmaMapped
        envs = (c, outcome) ∧ r = c.leave dmaMapped outcome := by
  unfold xdmaXferAperture at hr
  by_cases ho : s.offline = true
  · exact .inl (by simp [← hr, ho])
  by_cases hdir : s.eng.dir ≠ (if write then .toDevice else .fromDevice)
  · exact .inl (by simp [← hr, ho, hdir])
  by_cases hst : s.eng.streaming = true
  · exact .inl (by simp [← hr, ho, hdir, hst])
  by_cases hz : (XferCall.mapSgt sgt dmaMapped mapped).nents = 0
  · exact .inl (by simp [← hr, ho, hdir, hst, hz])
  by_cases hoom : oom = true
  · exact .inl (by simp [← hr, ho, hdir, hst, hz, hoom])
  simp only [ho, hdir, hst, hz, hoom, Bool.false_eq_true, ↓reduceIte] at hr
  exact .inr ⟨_, _, rfl, hr.symm⟩

theorem xdmaXferSubmit_unlinked (hnd : s.eng.transferList.Nodup) (hfree : Unlinked own s)
    (hidx : s.eng.descIdx < s.eng.descMax) (write : Bool) (epAddr : U64) (sgt : SgTable)
    (dmaMapped : Bool) (mapped : List SgEntry) (oom : Bool) (envs : List ChainEnv)
    (hf : (xdmaXferSubmit p own write epAddr sgt dmaMapped mapped oom envs s).freed = true) :
    Unlinked own (xdmaXferSubmit p own write epAddr sgt dmaMapped mapped oom envs s).drv ↔
      ∀ tr ∈ (xdmaXferSubmit p own write epAddr sgt dmaMapped mapped oom envs s).chains,
        tr.Released ⟨own, 0⟩ := by
  rcases xdmaXferSubmit_starts p own write epAddr sgt dmaMapped mapped oom envs s rfl with hno | hloop
  · rw [hno.2.2.1] at hf
    cases hf
  · obtain ⟨req, c, outcome, hreq, hloop, hr⟩ := hloop
    have h := XferCall.submitLoop_unlinked (p := p) dmaMapped envs
      (XferCall.submitCall_between hnd hfree hidx hreq) (by simp [XferCall.submitCall])
    rw [hloop] at h
    rw [hr] at hf ⊢
    obtain ⟨hdrv, hchains⟩ := XferCall.leave_freed hf
    rw [hdrv, hchains]
    exact h

theorem xdmaXferAperture_unlinked (hnd : s.eng.transferList.Nodup) (hfree : Unlinked own s)
    (hidx : s.eng.descIdx < s.eng.descMax) (write : Bool) (epAddr : U64) (aperture : U32)
    (sgt : SgTable) (dmaMapped : Bool) (mapped : List SgEntry) (oom : Bool) (envs : List ChainEnv)
    (hf : (xdmaXferAperture p own write epAddr aperture sgt dmaMapped mapped oom envs s).freed = true) :
    Unlinked own (xdmaXferAperture p own write epAddr aperture sgt dmaMapped mapped oom envs s).drv ↔
      ∀ tr ∈ (xdmaXferAperture p own write epAddr aperture sgt dmaMapped mapped oom envs s).chains,
        tr.Released ⟨own, 0⟩ := by
  rcases xdmaXferAperture_starts p own write epAddr aperture sgt dmaMapped mapped oom envs s
    rfl with hno | hloop
  · rw [hno.2.2.1] at hf
    cases hf
  · obtain ⟨c, outcome, hloop, hr⟩ := hloop
    have h := XferCall.apertureLoop_unlinked (p := p) own dmaMapped envs
      (c := apertureCall s epAddr aperture (XferCall.mapSgt sgt dmaMapped mapped)) ⟨hnd, hfree, hidx⟩
      (by simp [apertureCall])
    rw [hloop] at h
    rw [hr] at hf ⊢
    obtain ⟨hdrv, hchains⟩ := XferCall.leave_freed hf
    rw [hdrv, hchains]
    exact h

theorem xdmaXferSubmitNowait_unlinked (hnd : s.eng.transferList.Nodup) (hfree : Unlinked own s)
    (cb : IoCb) (write : Bool) (epAddr : U64) (sgt : SgTable) (dmaMapped : Bool)
    (mapped : List SgEntry) (oom : Bool) (envs : List NowaitEnv)
    (hf : (xdmaXferSubmitNowait p own cb write epAddr sgt dmaMapped mapped oom envs s).freed = true) :
    Unlinked own (xdmaXferSubmitNowait p own cb write epAddr sgt dmaMapped mapped oom envs s).drv ↔
      ∀ tr ∈ (xdmaXferSubmitNowait p own cb write epAddr sgt dmaMapped mapped oom envs s).chains,
        tr.AloneIfRefused own := by
  unfold xdmaXferSubmitNowait at hf ⊢
  by_cases ho : s.offline = true
  · simp [ho] at hf
  by_cases hdir : s.eng.dir ≠ (if write then .toDevice else .fromDevice)
  · simp [ho, hdir] at hf
  by_cases hz : (XferCall.mapSgt sgt dmaMapped mapped).nents = 0
  · simp [ho, hdir, hz] at hf
  simp only [ho, hdir, hz, Bool.false_eq_true, ↓reduceIte] at hf ⊢
  cases hreq : xdmaInitRequest p oom (XferCall.mapSgt sgt dmaMapped mapped).entries epAddr with
  | none => simp [hreq] at hf
  | some req =>
    simp only [hreq] at hf ⊢
    cases hout : (NowaitCall.loop p own dmaMapped cb envs 0
        { drv := s, req := { req with cb := some cb }, nents := req.swDescCnt }).2 with
    | returned rv =>
      simp only [hout, decide_eq_true_eq] at hf
      exact NowaitCall.loop_unlinked envs (by simp [tferMax]) hnd (fun j _ => hfree j) (by simp) hout hf
    | waiting => simp [hout] at hf
    | overrun => simp [hout] at hf

/-- When each of the three calls frees its request, none of its transfers is linked
exactly when every chain was released, or for the call that does not wait, when no
chain was refused behind another one. -/
theorem freed_request_unlinked_iff (hnd : s.eng.transferList.Nodup) (hfree : Unlinked own s)
    (hidx : s.eng.descIdx < s.eng.descMax) :
    (∀ write epAddr sgt dmaMapped mapped oom envs,
      (xdmaXferSubmit p own write epAddr sgt dmaMapped mapped oom envs s).freed = true →
      (Unlinked own (xdmaXferSubmit p own write epAddr sgt dmaMapped mapped oom envs s).drv ↔
        ∀ tr ∈ (xdmaXferSubmit p own write epAddr sgt dmaMapped mapped oom envs s).chains,
          tr.Released ⟨own, 0⟩)) ∧
    (∀ write epAddr aperture sgt dmaMapped mapped oom envs,
      (xdmaXferAperture p own write epAddr aperture sgt dmaMapped mapped oom envs s).freed = true →
      (Unlinked own (xdmaXferAperture p own write epAddr aperture sgt dmaMapped mapped oom envs s).drv ↔
        ∀ tr ∈ (xdmaXferAperture p own write epAddr aperture sgt dmaMapped mapped oom envs s).chains,
          tr.Released ⟨own, 0⟩)) ∧
    (∀ cb write epAddr sgt dmaMapped mapped oom envs,
      (xdmaXferSubmitNowait p own cb write epAddr sgt dmaMapped mapped oom envs s).freed = true →
      (Unlinked own (xdmaXferSubmitNowait p own cb write epAddr sgt dmaMapped mapped oom envs s).drv ↔
        ∀ tr ∈ (xdmaXferSubmitNowait p own cb write epAddr sgt dmaMapped mapped oom envs s).chains,
          tr.AloneIfRefused own)) :=
  ⟨xdmaXferSubmit_unlinked hnd hfree hidx, xdmaXferAperture_unlinked hnd hfree hidx,
    xdmaXferSubmitNowait_unlinked hnd hfree⟩

end

def smallSgt : SgTable := ⟨[⟨0x1000, 64⟩], 1, 1⟩

def splitSgt : SgTable := ⟨[⟨0x1000, 32⟩, ⟨0x2000, 100⟩, ⟨0x3000, 16⟩], 3, 3⟩

def splitParams : Params := { descBlenMax := 64 }

def twoSlots : Drv := { eng := { descIdx := 2046 } }

theorem freed_request_unlinked_iff_idle :
    Unlinked 1 (xdmaXferSubmit {} 1 false 0 smallSgt true [] false [{}] {}).drv :=
  ((freed_request_unlinked_iff (p := {}) (s := {}) List.nodup_nil (by simp [Unlinked])
    (by decide)).1 false 0 smallSgt true [] false [{}] (by decide)).mpr (by decide)

def engineInUse : Drv :=
  { eng := { running := true, transferList := [⟨9, 0⟩], started := some ⟨9, 0⟩, starts := 1 }
    tfer := fun _ => { descNum := 1, state := .submitted } }

/-- The wait is interrupted while the other transfer is still ahead. -/
theorem freed_request_stays_linked : ¬ ∀ (p : Params) (own : ℕ) (write : Bool) (epAddr : U64)
    (sgt : SgTable) (dmaMapped : Bool) (mapped : List SgEntry) (oom : Bool) (envs : List ChainEnv)
    (s : Drv), s.eng.transferList.Nodup → Unlinked own s → s.eng.descIdx < s.eng.descMax →
      (xdmaXferSubmit p own write epAddr sgt dmaMapped mapped oom envs s).freed = true →
      Unlinked own (xdmaXferSubmit p own write epAddr sgt dmaMapped mapped oom envs s).drv := by
  intro h
  have hun := h {} 1 false 0 smallSgt true [] false [{}] engineInUse (by decide)
    (by simp [Unlinked, engineInUse])
    (by decide) (by decide) 0
  have hlist : (xdmaXferSubmit {} 1 false 0 smallSgt true [] false [{}] engineInUse).drv.eng.transferList =
      [⟨9, 0⟩, ⟨1, 0⟩] := by decide
  exact hun (by rw [hlist]; simp)

end XdmaDriver
