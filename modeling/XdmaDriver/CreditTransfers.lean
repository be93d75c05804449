import XdmaDriver.Credits

/-!
What the steps of a request do to its transfers and to `engine->desc_used`.
-/

namespace XdmaDriver

open Drv

namespace Drv

theorem descSum_append (s : Drv) (ts us : List XferRef) :
    s.descSum (ts ++ us) = s.descSum ts + s.descSum us := by
  simp [descSum]

theorem descSum_cons (s : Drv) (t : XferRef) (ts : List XferRef) :
    s.descSum (t :: ts) = (s.tfer t).descNum + s.descSum ts := by
  simp [descSum]

theorem descSum_perm (s : Drv) {ts us : List XferRef} (h : ts.Perm us) : s.descSum ts = s.descSum us :=
  (h.map _).sum_eq

theorem descSum_congr {s s' : Drv} {ts : List XferRef}
    (h : ∀ t ∈ ts, (s'.tfer t).descNum = (s.tfer t).descNum) : s'.descSum ts = s.descSum ts :=
  congrArg List.sum (List.map_congr_left h)

end Drv

def chainsFrom (own i k : ℕ) : List XferRef := (List.range' i k).map (XferRef.mk own)

theorem chainsFrom_succ (own i k : ℕ) : chainsFrom own i (k + 1) = ⟨own, i⟩ :: chainsFrom own (i + 1) k := rfl

theorem chainsFrom_concat (own i k : ℕ) : chainsFrom own i (k + 1) = chainsFrom own i k ++
    [⟨own, i + k⟩] := by
  simp [chainsFrom, List.range'_concat]

theorem mem_chainsFrom {own i k : ℕ} {t : XferRef} :
    t ∈ chainsFrom own i k ↔ t.req = own ∧ i ≤ t.idx ∧ t.idx < i + k := by
  cases t with
  | mk req idx =>
    simp only [chainsFrom, List.mem_map, List.mem_range'_1, XferRef.mk.injEq, exists_eq_right_right]
    rw [and_comm, eq_comm]

theorem chainsFrom_nodup (own i k : ℕ) : (chainsFrom own i k).Nodup :=
  List.Nodup.map (fun _ _ h => congrArg XferRef.idx h) List.nodup_range'

namespace Completion

structure Settled (c c' : Completion) (ts : List XferRef) : Prop where
  tfer : c'.drv.tfer = c.drv.tfer
  list : c'.drv.eng.transferList = c.drv.eng.transferList
  used : c'.drv.eng.descUsed = c.drv.eng.descUsed - c.drv.descSum ts

def Ended (s : Drv) (own i k : ℕ) : Prop :=
  ∀ j < k, (s.tfer ⟨own, i + j⟩).descNum ≠ 0 ∧
    ((s.tfer ⟨own, i + j⟩).state = .completed ∨ (s.tfer ⟨own, i + j⟩).state = .failed ∧ j + 1 = k)

theorem loop_settles (p : Params) (own : ℕ) (dump : ℕ → DumpRegs) (k : ℕ) : ∀ {left i : ℕ} {c : Completion},
    k ≤ left → Ended c.drv own i k → c.nents = c.drv.descSum (chainsFrom own i k) →
      (∃ n, (loop p own dump left i c).2 = .returned n) ∧
        Settled c (loop p own dump left i c).1 (chainsFrom own i k) := by
  induction k with
  | zero =>
    intro left i c _ _ hsum
    have hz : c.nents = 0 := hsum
    have hset : Settled c c (chainsFrom own i 0) := ⟨rfl, rfl, (Int.sub_zero _).symm⟩
    cases left with
    | zero =>
      unfold loop
      rw [if_pos hz]
      exact ⟨⟨_, rfl⟩, hset⟩
    | succ left =>
      unfold loop
      rw [if_pos hz]
      exact ⟨⟨_, rfl⟩, hset⟩
  | succ k ih =>
    intro left i c hk hend hsum
    obtain ⟨left, rfl⟩ : ∃ n, left = n + 1 := ⟨left - 1, by omega⟩
    have hhead := hend 0 (Nat.succ_pos k)
    rw [Nat.add_zero] at hhead
    obtain ⟨hpos, hst⟩ := hhead
    rw [chainsFrom_succ, descSum_cons] at hsum
    have hz : c.nents ≠ 0 := by
      intro h0
      rw [h0] at hsum
      omega
    unfold loop
    rw [if_neg hz, chainsFrom_succ]
    rcases hst with hst | ⟨hst, hlast⟩
    · have hchain : (c.chain p ⟨own, i⟩ (dump i)).1.drv = c.drv.transferDestroy ⟨own, i⟩ ∧
          (c.chain p ⟨own, i⟩ (dump i)).1.nents = c.nents - (c.drv.tfer ⟨own, i⟩).descNum ∧
          (c.chain p ⟨own, i⟩ (dump i)).2 = 0 := by
        simp [chain, hst]
      generalize c.chain p ⟨own, i⟩ (dump i) = r at hchain
      obtain ⟨c', rv⟩ := r
      obtain ⟨hdrv, hnents, rfl⟩ := hchain
      dsimp only at hdrv hnents ⊢
      rw [if_neg (lt_irrefl 0)]
      have htfer : c'.drv.tfer = c.drv.tfer := by rw [hdrv]; rfl
      have hcongr : c'.drv.descSum (chainsFrom own (i + 1) k) = c.drv.descSum (chainsFrom own (i + 1) k) :=
        descSum_congr fun t _ => by rw [htfer]
      have hrest : Ended c'.drv own (i + 1) k := by
        intro j hj
        have hnext := hend (j + 1) (by omega)
        rw [htfer, Nat.add_assoc, Nat.add_comm 1 j]
        exact ⟨hnext.1, hnext.2.imp_right fun h => ⟨h.1, Nat.succ.inj h.2⟩⟩
      have hleft : c'.nents = c'.drv.descSum (chainsFrom own (i + 1) k) := by
        rw [hnents, hsum, hcongr, Nat.cast_add, add_sub_cancel_left]
      have hkl : k ≤ left := by omega
      obtain ⟨hret, hset⟩ := ih hkl hrest hleft
      refine ⟨hret, hset.tfer.trans htfer, hset.list.trans (by rw [hdrv]; rfl), ?_⟩
      have hused : c'.drv.eng.descUsed = c.drv.eng.descUsed - (c.drv.tfer ⟨own, i⟩).descNum := by
        rw [hdrv]
        rfl
      rw [hset.used, hused, hcongr, descSum_cons, Nat.cast_add, sub_sub]
    · obtain rfl : k = 0 := by omega
      have hchain : (c.chain p ⟨own, i⟩ (dump i)).1.drv = c.drv.transferDestroy ⟨own, i⟩ ∧
          (c.chain p ⟨own, i⟩ (dump i)).2 = err .io := by
        simp [chain, hst]
      generalize c.chain p ⟨own, i⟩ (dump i) = r at hchain
      obtain ⟨c', rv⟩ := r
      obtain ⟨hdrv, rfl⟩ := hchain
      dsimp only at hdrv ⊢
      rw [if_pos (err_neg .io)]
      refine ⟨⟨_, rfl⟩, by rw [hdrv]; rfl, by rw [hdrv]; rfl, ?_⟩
      rw [hdrv, descSum_cons]
      rfl

end Completion

structure LiveRequest.NextBuilt (own : ℕ) (c : LiveRequest) (drv drv' : Drv) (c' : LiveRequest) : Prop where
  list : drv'.eng.transferList = drv.eng.transferList
  other : ∀ u, u ≠ ⟨own, c.tferIdx⟩ → drv'.tfer u = drv.tfer u
  used : drv'.eng.descUsed = drv.eng.descUsed + (drv'.tfer ⟨own, c.tferIdx⟩).descNum
  cb : (drv'.tfer ⟨own, c.tferIdx⟩).cb = c.kind.cb
  kind : c'.kind = c.kind
  idx : c'.tferIdx = c.tferIdx
  phase : c'.phase = .queue
  array : c.kind.cb ≠ none → c.tferIdx < tferMax
  left : c.kind.cb ≠ none → c.nents = c.req.swDescCnt - c.req.swDescIdx →
    c'.req.swDescCnt = c.req.swDescCnt ∧ c'.nents = c'.req.swDescCnt - c'.req.swDescIdx ∧
      (drv'.tfer ⟨own, c.tferIdx⟩).descNum + c'.nents = c.nents ∧
      ((drv'.tfer ⟨own, c.tferIdx⟩).lastInRequest = true ↔ c'.nents = 0)

theorem LiveRequest.chain_built {own : ℕ} {c : LiveRequest} {drv drv' : Drv} {req' : XdmaRequestCb}
    (hcb : c.kind.cb ≠ none → c.tferIdx < tferMax)
    (hb : ChainBuilt drv c.req ⟨own, c.tferIdx⟩ (!c.dmaMapped) (c.nents = chainLen drv.eng c.req) c.kind.cb drv' req') :
    c.NextBuilt own drv drv' { c with req := req', nents := c.nents - chainLen drv.eng c.req, phase := .queue } := by
  refine ⟨hb.list, hb.other, ?_, hb.callback, rfl, rfl, rfl, hcb, fun _ hleft => ?_⟩
  · rw [hb.num, hb.used]
  · have hle := chainLen_le drv.eng c.req
    have hcnt : req'.swDescCnt = c.req.swDescCnt := by
      rw [hb.rest]
      rfl
    have hidx : req'.swDescIdx = c.req.swDescIdx + chainLen drv.eng c.req := by
      rw [hb.rest]
      rfl
    dsimp only
    rw [hb.num, hcnt, hidx, hb.lastInRequest, decide_eq_true_iff]
    refine ⟨rfl, ?_, ?_, ?_⟩ <;> omega

theorem LiveRequest.buildNext_built {p : Params} {own : ℕ} {c c' : LiveRequest} {drv drv' : Drv}
    (hidx : c.kind.cb = none → c.tferIdx = 0) (h : c.buildNext p own drv = some (drv', c')) :
    c.NextBuilt own drv drv' c' := by
  unfold buildNext at h
  split at h
  · rename_i window hkind
    obtain ⟨⟨call, tr⟩, hcall, heq⟩ := Option.map_eq_some_iff.mp h
    simp only [Prod.mk.injEq] at heq
    obtain ⟨rfl, rfl⟩ := heq
    have hnone : c.kind.cb = none := by rw [hkind]; rfl
    have hzero := hidx hnone
    unfold XferCall.apertureChain at hcall
    dsimp only at hcall
    split_ifs at hcall with hn
    simp only [Option.some.injEq, Prod.mk.injEq] at hcall
    obtain ⟨rfl, -⟩ := hcall
    refine ⟨rfl, fun u hu => ?_, ?_, ?_, rfl, rfl, rfl, fun hc => absurd hnone hc, fun hc => absurd hnone hc⟩
    · rw [hzero] at hu
      exact Function.update_of_ne hu _ _
    · simp [hzero, toCall]
    · simp [hzero, hnone]
  · split_ifs at h with hmax
    simp only [Option.some.injEq, Prod.mk.injEq] at h
    obtain ⟨rfl, rfl⟩ := h
    exact chain_built (fun _ => not_le.mp hmax) (buildChain_built _ _ _ _ _ _)

theorem LiveRequest.accepted_spec {c : LiveRequest} (hphase : c.phase = .queue) :
    c.accepted.built = c.built ∧ c.accepted.phase ≠ .queue ∧
    c.accepted.phase ≠ .queued ∧ c.accepted.kind = c.kind ∧ c.accepted.nents = c.nents ∧
      c.accepted.req = c.req ∧
      (c.kind.cb = none → c.accepted.tferIdx = c.tferIdx) ∧
        (c.kind.cb ≠ none → c.accepted.phase ≠ .wait) := by
  unfold accepted
  cases c.kind <;> simp [built, hphase, XferKind.cb]

structure WaitReleased (s s' : Drv) (t : XferRef) : Prop where
  list : s'.eng.transferList = if s.Unfinished t then s.eng.transferList.tail else s.eng.transferList
  other : ∀ u, u ≠ t → s'.tfer u = s.tfer u
  used : s'.eng.descUsed = s.eng.descUsed - (s.tfer t).descNum

theorem waitEnd_released {p : Params} {s : Drv} {t : XferRef} {r : DumpRegs} (hn : (s.tfer t).descNum ≠ 0)
    (hrel : s.Unfinished t → s.eng.transferList.head? = some t ∧ r.Ok) :
    WaitReleased s ((s.waitEnd p t r).1.transferDestroy t) t := by
  by_cases hu : s.Unfinished t
  · obtain ⟨hhead, hr⟩ := hrel hu
    have hn' : ((s.engineStatusRead r.status).tfer t).descNum ≠ 0 := hn
    obtain ⟨ha, hrv⟩ := transferAbort_aborted hn'
    have heq := waitEnd_dumpOk (p := p) hu hr
    rw [if_pos hrv] at heq
    have hnum : (((s.engineStatusRead r.status).transferAbort t).1.tfer t).descNum = (s.tfer t).descNum := by
      simp [ha.tfer]
    rw [heq]
    refine ⟨?_, fun u hne => ?_, ?_⟩
    · rw [if_pos hu]
      change ((s.engineStatusRead r.status).transferAbort t).1.eng.transferList = _
      rw [ha.list]
      exact if_pos hhead
    · change ((s.engineStatusRead r.status).transferAbort t).1.tfer u = _
      rw [ha.tfer, Function.update_of_ne hne]
      rfl
    · change ((s.engineStatusRead r.status).transferAbort t).1.eng.descUsed -
        (((s.engineStatusRead r.status).transferAbort t).1.tfer t).descNum = _
      rw [hnum, ha.list]
      rfl
  · rw [waitEnd_finished hu]
    exact ⟨(if_neg hu).symm, fun _ _ => rfl, rfl⟩

theorem LiveRequest.account_bookkeeping (c : LiveRequest) : XferCall.Bookkeeping c.account := by
  unfold account
  cases c.kind with
  | aperture window => exact XferCall.apertureDone_bookkeeping
  | submit => exact XferCall.submitDone_bookkeeping
  | nowait cb => exact XferCall.submitDone_bookkeeping

theorem XferCall.endWait_drv (p : Params) (own : ℕ) {account : XferCall → XdmaTransfer → XferCall}
    (hacc : XferCall.Bookkeeping account)
    (r : DumpRegs) (call : XferCall) : (call.endWait p own account r).1.drv =
      (call.drv.waitEnd p ⟨own, 0⟩ r).1.transferDestroy ⟨own, 0⟩ := by
  unfold endWait
  dsimp only
  rw [XferCall.unmapLast_drv, (hacc _ _).1]

theorem CreditRun.dropped_eq {drv drv' : Drv} {out : List XferRef}
    (h : ServiceEffect drv drv' out) : dropped drv drv' = out := by
  rw [dropped, h.list, List.length_append, Nat.add_sub_cancel, List.take_left]

end XdmaDriver
