import XdmaDriver.CreditTransfers

/-!
What `engine->desc_used` counts in the runs whose steps all give back what they took.
-/

namespace XdmaDriver

open Transition Drv

namespace CreditRun

structure Counted (drv : Drv) (own : ℕ) (c : LiveRequest) : Prop where
  phase : c.phase ≠ .wait
  array : c.built ≤ tferMax
  left : c.nents = c.req.swDescCnt - c.req.swDescIdx
  total : drv.descSum (chainsFrom own 0 c.built) + c.nents = c.req.swDescCnt
  last : ∀ i < c.built, (drv.tfer ⟨own, i⟩).lastInRequest = true ↔ c.nents = 0 ∧ i + 1 = c.built

structure Sound (drv : Drv) (own : ℕ) (c : LiveRequest) : Prop where
  sync : c.kind.cb = none → c.tferIdx = 0 ∧ c.phase ≠ .queued
  cb : ∀ i < c.built, (drv.tfer ⟨own, i⟩).cb = c.kind.cb
  async : c.kind.cb ≠ none → Counted drv own c

structure Due (drv : Drv) (unreported : List XferRef) (t : XferRef) : Prop where
  cb : (drv.tfer t).cb ≠ none
  last : (drv.tfer t).lastInRequest = true
  earlier : ∀ i ≤ t.idx, ⟨t.req, i⟩ ∈ unreported

structure Placed (s : CreditRun) (own : ℕ) : Prop where
  tracked : ∀ i, ⟨own, i⟩ ∈ s.tracked ↔ ∃ c ∈ s.reqs own, i < c.built
  pending : ∀ i, ⟨own, i⟩ ∈ s.pending ↔ ∃ c ∈ s.reqs own, c.phase = .queue ∧ i = c.tferIdx
  queued : ∀ i, ⟨own, i⟩ ∈ s.drv.eng.transferList →
    (s.drv.tfer ⟨own, i⟩).state = .submitted ∧ (s.drv.tfer ⟨own, i⟩).descNum ≠ 0
  ended : ∀ i, ⟨own, i⟩ ∈ s.unreported → (s.drv.tfer ⟨own, i⟩).descNum ≠ 0 ∧
    ((s.drv.tfer ⟨own, i⟩).state = .completed ∨ (s.drv.tfer ⟨own, i⟩).state = .failed)
  sound : ∀ c ∈ s.reqs own, Sound s.drv own c
  due : ∀ i, ⟨own, i⟩ ∈ s.due → Due s.drv s.unreported ⟨own, i⟩

def InChainOrder (t u : XferRef) : Prop := t.req = u.req → t.idx < u.idx

structure Balanced (s : CreditRun) : Prop where
  nodup : s.tracked.Nodup
  used : s.drv.eng.descUsed = s.drv.descSum s.tracked
  order : s.drv.eng.transferList.Pairwise InChainOrder
  due : s.due.Nodup
  placed : ∀ own, s.Placed own

structure Agrees (s s' : CreditRun) (own : ℕ) : Prop where
  reqs : s'.reqs own = s.reqs own
  tfer : ∀ i, s'.drv.tfer ⟨own, i⟩ = s.drv.tfer ⟨own, i⟩
  list : ∀ i, ⟨own, i⟩ ∈ s'.drv.eng.transferList ↔ ⟨own, i⟩ ∈ s.drv.eng.transferList
  pending : ∀ i, ⟨own, i⟩ ∈ s'.pending ↔ ⟨own, i⟩ ∈ s.pending
  unreported : ∀ i, ⟨own, i⟩ ∈ s'.unreported ↔ ⟨own, i⟩ ∈ s.unreported
  due : ∀ i, ⟨own, i⟩ ∈ s'.due ↔ ⟨own, i⟩ ∈ s.due

variable {p : Params} {s s' : CreditRun} {own : ℕ} {c : LiveRequest}

theorem mem_tracked {t : XferRef} :
    t ∈ s.tracked ↔ t ∈ s.drv.eng.transferList ∨ t ∈ s.pending ∨ t ∈ s.unreported := by
  simp [tracked]

theorem Sound.congr {drv drv' : Drv} (h : Sound drv own c) (hsame : ∀ i < c.built,
    (drv'.tfer ⟨own, i⟩).descNum = (drv.tfer ⟨own, i⟩).descNum ∧ (drv'.tfer ⟨own, i⟩).cb =
      (drv.tfer ⟨own, i⟩).cb ∧
      (drv'.tfer ⟨own, i⟩).lastInRequest = (drv.tfer ⟨own, i⟩).lastInRequest) : Sound drv' own c := by
  refine ⟨h.sync, fun i hi => ?_, fun hcb => ?_⟩
  · rw [(hsame i hi).2.1]
    exact h.cb i hi
  · have ha := h.async hcb
    refine ⟨ha.phase, ha.array, ha.left, ?_, fun i hi => ?_⟩
    · have hsum : drv'.descSum (chainsFrom own 0 c.built) = drv.descSum (chainsFrom own 0 c.built) := by
        apply descSum_congr
        intro t ht
        obtain ⟨rfl, -, hlt⟩ := mem_chainsFrom.mp ht
        exact (hsame t.idx (by omega)).1
      rw [hsum]
      exact ha.total
    · rw [(hsame i hi).2.2]
      exact ha.last i hi

theorem Placed.congr (h : s.Placed own) (ha : Agrees s s' own) : s'.Placed own := by
  refine ⟨fun i => ?_, fun i => ?_, fun i hi => ?_, fun i hi => ?_, fun c hc => ?_, fun i hi => ?_⟩
  · rw [mem_tracked, ha.list, ha.pending, ha.unreported, ha.reqs, ← mem_tracked]
    exact h.tracked i
  · rw [ha.pending, ha.reqs]
    exact h.pending i
  · rw [ha.tfer]
    exact h.queued i ((ha.list i).mp hi)
  · rw [ha.tfer]
    exact h.ended i ((ha.unreported i).mp hi)
  · rw [ha.reqs] at hc
    exact (h.sound c hc).congr fun i _ => by rw [ha.tfer]; exact ⟨rfl, rfl, rfl⟩
  · have hd := h.due i ((ha.due i).mp hi)
    refine ⟨?_, ?_, fun j hj => (ha.unreported j).mpr (hd.earlier j hj)⟩
    · rw [ha.tfer]
      exact hd.cb
    · rw [ha.tfer]
      exact hd.last

theorem balanced_of_begins (h : s.Begins) : s.Balanced := by
  obtain ⟨hlist, hused, hreqs, hpend, hunr, hdue⟩ := h
  have htr : s.tracked = [] := by simp [tracked, hlist, hpend, hunr]
  refine ⟨by simp [htr], ?_, by simp [hlist], by simp [hdue], fun own => ?_⟩
  · rw [htr, hused]
    rfl
  · constructor <;> simp [htr, hlist, hreqs, hpend, hunr, hdue]

theorem Placed.mem_tracked (h : s.Placed own) (hc : c ∈ s.reqs own) {i : ℕ} :
    ⟨own, i⟩ ∈ s.tracked ↔ i < c.built := by
  rw [h.tracked i]
  refine ⟨?_, fun hi => ⟨c, hc, hi⟩⟩
  rintro ⟨c', hc', hi⟩
  obtain rfl := Option.mem_unique hc hc'
  exact hi

theorem Placed.mem_pending (h : s.Placed own) (hc : c ∈ s.reqs own) {i : ℕ} :
    ⟨own, i⟩ ∈ s.pending ↔ c.phase = .queue ∧ i = c.tferIdx := by
  rw [h.pending i]
  refine ⟨?_, fun hi => ⟨c, hc, hi⟩⟩
  rintro ⟨c', hc', hi⟩
  obtain rfl := Option.mem_unique hc hc'
  exact hi

theorem Placed.of_request (hreq : s.reqs own = some c) (htr : ∀ i, ⟨own, i⟩ ∈ s.tracked ↔ i < c.built)
    (hpend : ∀ i, ⟨own, i⟩ ∈ s.pending ↔ c.phase = .queue ∧ i = c.tferIdx)
    (hqueued : ∀ i, ⟨own, i⟩ ∈ s.drv.eng.transferList →
      (s.drv.tfer ⟨own, i⟩).state = .submitted ∧ (s.drv.tfer ⟨own, i⟩).descNum ≠ 0)
    (hended : ∀ i, ⟨own, i⟩ ∈ s.unreported → (s.drv.tfer ⟨own, i⟩).descNum ≠ 0 ∧
      ((s.drv.tfer ⟨own, i⟩).state = .completed ∨ (s.drv.tfer ⟨own, i⟩).state = .failed))
    (hsound : Sound s.drv own c) (hdue : ∀ i, ⟨own, i⟩ ∈ s.due → Due s.drv s.unreported ⟨own, i⟩) :
      s.Placed own := by
  refine ⟨fun i => ?_, fun i => ?_, hqueued, hended, fun c' hc' => ?_, hdue⟩
  · rw [htr i, hreq]
    simp
  · rw [hpend i, hreq]
    simp
  · rw [hreq] at hc'
    obtain rfl := Option.some.inj hc'
    exact hsound

theorem Placed.of_empty (hno : ∀ i, ⟨own, i⟩ ∉ s.tracked) (hdue : ∀ i, ⟨own, i⟩ ∉ s.due)
    (hreq : ∀ c ∈ s.reqs own, c.built = 0 ∧ c.phase ≠ .queue ∧ Sound s.drv own c) : s.Placed own := by
  refine ⟨fun i => ?_, fun i => ?_, fun i hi => ?_, fun i hi => ?_, fun c hc => (hreq c hc).2.2,
    fun i hi => absurd hi (hdue i)⟩
  · refine iff_of_false (hno i) ?_
    rintro ⟨c, hc, hi⟩
    rw [(hreq c hc).1] at hi
    exact Nat.not_lt_zero i hi
  · refine iff_of_false (fun hi => hno i (CreditRun.mem_tracked.mpr (.inr (.inl hi)))) ?_
    rintro ⟨c, hc, hphase, -⟩
    exact (hreq c hc).2.1 hphase
  · exact absurd (CreditRun.mem_tracked.mpr (.inl hi)) (hno i)
  · exact absurd (CreditRun.mem_tracked.mpr (.inr (.inr hi))) (hno i)

theorem Balanced.disjoint (h : s.Balanced) {t : XferRef} :
    (t ∈ s.drv.eng.transferList → t ∉ s.pending ∧ t ∉ s.unreported) ∧ (t ∈ s.pending → t ∉ s.unreported) := by
  have hnd := h.nodup
  rw [tracked, List.append_assoc] at hnd
  obtain ⟨-, hnd', hdisj⟩ := List.nodup_append.mp hnd
  obtain ⟨-, -, hdisj'⟩ := List.nodup_append.mp hnd'
  refine ⟨fun ht => ⟨fun hp => ?_, fun hu => ?_⟩, fun hp hu => hdisj' t hp t hu rfl⟩
  · exact hdisj t ht t (List.mem_append_left _ hp) rfl
  · exact hdisj t ht t (List.mem_append_right _ hu) rfl

theorem start_balanced {kind : XferKind} {epAddr : U64} {sgt : SgTable}
    {dmaMapped oom : Bool} (h : s.Balanced)
    (hfresh : s.Fresh) (hs : s.step p (.start kind epAddr sgt dmaMapped oom) = some s') : s'.Balanced := by
  obtain ⟨-, hs⟩ := Option.ite_none_right_eq_some.mp hs
  obtain ⟨req, hreq, rfl⟩ := Option.map_eq_some_iff.mp hs
  have hnone := hfresh s.next (le_refl _)
  refine ⟨h.nodup, h.used, h.order, h.due, fun own => ?_⟩
  by_cases hown : own = s.next
  swap
  · exact (h.placed own).congr ⟨Function.update_of_ne hown _ _, fun _ => rfl,
      fun _ => Iff.rfl, fun _ => Iff.rfl,
      fun _ => Iff.rfl, fun _ => Iff.rfl⟩
  subst hown
  have hno : ∀ i, ⟨s.next, i⟩ ∉ s.tracked := by
    intro i hi
    obtain ⟨c, hc, -⟩ := ((h.placed _).tracked i).mp hi
    rw [hnone] at hc
    cases hc
  refine Placed.of_empty hno (fun i hi => hno i
    (mem_tracked.mpr (.inr (.inr (((h.placed _).due i hi).earlier i
    (le_refl i)))))) fun c hc => ?_
  obtain rfl := Option.some.inj ((Function.update_self s.next _ s.reqs).symm.trans hc)
  refine ⟨rfl, nofun, fun _ => ⟨rfl, nofun⟩, fun i hi => absurd hi (Nat.not_lt_zero i), fun hcb => ?_⟩
  have hidx : req.swDescIdx = 0 := by
    cases kind with
    | submit => exact absurd rfl hcb
    | aperture window => exact absurd rfl hcb
    | nowait cb =>
      obtain ⟨r, hr, rfl⟩ := Option.map_eq_some_iff.mp hreq
      exact (xdmaInitRequest_initialised hr).idx
  refine ⟨nofun, Nat.zero_le _, ?_, Nat.zero_add _, fun i hi => absurd hi (Nat.not_lt_zero i)⟩
  dsimp only
  rw [hidx, Nat.sub_zero]

theorem Sound.next {drv drv' : Drv} {c' : LiveRequest} (h : Sound drv own c) (hphase : c.phase = .build)
    (hmore : c.more = true) (hb : c.NextBuilt own drv drv' c') : Sound drv' own c' := by
  have hbuilt : c.built = c.tferIdx := by rw [LiveRequest.built, hphase]
  have hbuilt' : c'.built = c.tferIdx + 1 := by rw [LiveRequest.built, hb.phase, hb.idx]
  have hold : ∀ i < c.tferIdx, drv'.tfer ⟨own, i⟩ = drv.tfer ⟨own, i⟩ := by
    intro i hi
    apply hb.other
    intro heq
    exact absurd (congrArg XferRef.idx heq) hi.ne
  refine ⟨fun hcb => ?_, fun i hi => ?_, fun hcb => ?_⟩
  · rw [hb.kind] at hcb
    rw [hb.idx, hb.phase]
    exact ⟨(h.sync hcb).1, by simp⟩
  · rw [hbuilt'] at hi
    rw [hb.kind]
    by_cases hlt : i < c.tferIdx
    · rw [hold i hlt]
      exact h.cb i (hbuilt ▸ hlt)
    · obtain rfl : i = c.tferIdx := by omega
      exact hb.cb
  · rw [hb.kind] at hcb
    have ha := h.async hcb
    have harray := hb.array hcb
    have hne : c.nents ≠ 0 := by
      intro hz
      unfold LiveRequest.more at hmore
      cases hkind : c.kind with
      | submit => exact hcb (by rw [hkind]; rfl)
      | aperture window => exact hcb (by rw [hkind]; rfl)
      | nowait cb => simp [hkind, hz] at hmore
    obtain ⟨hcnt, hleft, hsum, hlast⟩ := hb.left hcb ha.left
    refine ⟨by simp [hb.phase], by omega, hleft, ?_, fun i hi => ?_⟩
    · have htotal := ha.total
      rw [hbuilt] at htotal
      have hcongr : drv'.descSum (chainsFrom own 0 c.tferIdx) = drv.descSum (chainsFrom own 0 c.tferIdx) := by
        apply descSum_congr
        intro t ht
        obtain ⟨rfl, -, hlt⟩ := mem_chainsFrom.mp ht
        rw [hold t.idx (by omega)]
      have hone : drv'.descSum [⟨own, 0 + c.tferIdx⟩] = (drv'.tfer ⟨own, c.tferIdx⟩).descNum := by
        simp [descSum]
      rw [hbuilt', chainsFrom_concat, descSum_append, hcongr, hone, hcnt]
      omega
    · rw [hbuilt'] at hi ⊢
      by_cases hlt : i < c.tferIdx
      · have := ha.last i (hbuilt ▸ hlt)
        rw [hold i hlt, this]
        exact iff_of_false (fun hz => hne hz.1) (fun hz => by omega)
      · obtain rfl : i = c.tferIdx := by omega
        rw [hlast]
        simp

theorem build_balanced (h : s.Balanced) (hs : s.step p (.build own) = some s') : s'.Balanced := by
  obtain ⟨c, hc, hs⟩ := Option.bind_eq_some_iff.mp hs
  obtain ⟨⟨hphase, hmore⟩, hs⟩ := Option.ite_none_right_eq_some.mp hs
  obtain ⟨⟨drv', c'⟩, hnext, rfl⟩ := Option.map_eq_some_iff.mp hs
  have hp := h.placed own
  have hsound := hp.sound c hc
  have hb := LiveRequest.buildNext_built (fun hcb => (hsound.sync hcb).1) hnext
  have hbuilt : c.built = c.tferIdx := by rw [LiveRequest.built, hphase]
  have hbuilt' : c'.built = c.tferIdx + 1 := by rw [LiveRequest.built, hb.phase, hb.idx]
  have hnew : ⟨own, c.tferIdx⟩ ∉ s.tracked := by
    rw [hp.mem_tracked hc, hbuilt]
    exact lt_irrefl _
  have hother : ∀ t ∈ s.tracked, drv'.tfer t = s.drv.tfer t := fun t ht =>
    hb.other t fun heq => hnew (heq ▸ ht)
  have hperm : (drv'.eng.transferList ++ (⟨own, c'.tferIdx⟩ :: s.pending) ++ s.unreported).Perm
      (⟨own, c.tferIdx⟩ :: s.tracked) := by
    rw [hb.list, hb.idx, List.append_assoc, List.cons_append, tracked, List.append_assoc]
    exact List.perm_middle
  refine ⟨?_, ?_, ?_, h.due, fun o => ?_⟩
  · exact hperm.symm.nodup (List.nodup_cons.mpr ⟨hnew, h.nodup⟩)
  · refine (hb.used.trans ?_).trans (congrArg Nat.cast (drv'.descSum_perm hperm).symm)
    have hsum : drv'.descSum s.tracked = s.drv.descSum s.tracked :=
      descSum_congr fun t ht => by rw [hother t ht]
    rw [descSum_cons, hsum, h.used, Nat.cast_add, add_comm]
  · dsimp only
    rw [hb.list]
    exact h.order
  by_cases ho : o = own
  swap
  · refine (h.placed o).congr ⟨Function.update_of_ne ho _ _, fun i => ?_,
      fun i => by rw [← hb.list], fun i => ?_,
      fun _ => Iff.rfl, fun _ => Iff.rfl⟩
    · exact hb.other _ fun heq => ho (congrArg XferRef.req heq)
    · simp [ho]
  subst ho
  refine Placed.of_request (Function.update_self o _ _) (fun i => ?_) (fun i => ?_)
    (fun i hi => ?_) (fun i hi => ?_)
    (hsound.next hphase hmore hb) (fun i hi => ?_)
  · have hmem := hperm.mem_iff (a := ⟨o, i⟩)
    refine hmem.trans ?_
    rw [List.mem_cons, hp.mem_tracked hc, hbuilt, hbuilt', XferRef.mk.injEq]
    omega
  · dsimp only
    rw [List.mem_cons, hp.mem_pending hc, hphase, hb.idx, hb.phase]
    simp
  · have hi : ⟨o, i⟩ ∈ s.drv.eng.transferList := hb.list ▸ hi
    have := hother _ (CreditRun.mem_tracked.mpr (.inl hi))
    dsimp only
    rw [this]
    exact hp.queued i hi
  · have := hother _ (CreditRun.mem_tracked.mpr (.inr (.inr hi)))
    dsimp only
    rw [this]
    exact hp.ended i hi
  · have hd := hp.due i hi
    have := hother _ (CreditRun.mem_tracked.mpr (.inr (.inr (hd.earlier i (le_refl i)))))
    dsimp only
    exact ⟨by rw [this]; exact hd.cb, by rw [this]; exact hd.last, hd.earlier⟩

theorem Sound.accepted {drv drv' : Drv} (h : Sound drv own c) (hphase : c.phase = .queue)
    (hsame : ∀ u, (drv.tfer u).SameRequest (drv'.tfer u)) : Sound drv' own c.accepted := by
  obtain ⟨hbuilt, -, hqueued, hkind, hnents, hreq, hidx, hwait⟩ := LiveRequest.accepted_spec hphase
  have hs := h.congr fun i _ => ⟨(hsame ⟨own, i⟩).1, (hsame ⟨own, i⟩).2.2.2.2.2.1, (hsame ⟨own, i⟩).2.2.2.2.1⟩
  refine ⟨fun hcb => ?_, fun i hi => ?_, fun hcb => ?_⟩
  · rw [hkind] at hcb
    exact ⟨(hidx hcb).trans (hs.sync hcb).1, hqueued⟩
  · rw [hkind]
    exact hs.cb i (hbuilt ▸ hi)
  · rw [hkind] at hcb
    have ha := hs.async hcb
    refine ⟨hwait hcb, hbuilt ▸ ha.array, ?_, ?_, fun i hi => ?_⟩
    · rw [hnents, hreq]
      exact ha.left
    · rw [hbuilt, hnents, hreq]
      exact ha.total
    · rw [hbuilt, hnents]
      exact ha.last i (hbuilt ▸ hi)

theorem queue_balanced {w : U32} (h : s.Balanced) (hok : s.Paired (.queue own w))
    (hs : s.step p (.queue own w) = some s') : s'.Balanced := by
  obtain ⟨c, hc, hs⟩ := Option.bind_eq_some_iff.mp hs
  obtain ⟨hphase, hs⟩ := Option.ite_none_right_eq_some.mp hs
  obtain ⟨hq, hrv⟩ := transferQueue_accepted (p := p) (w := w) (hok c hc)
  generalize s.drv.transferQueue p ⟨own, c.tferIdx⟩ w = r at hq hrv hs
  obtain ⟨drv', rv⟩ := r
  dsimp only at hq hrv hs
  subst hrv
  rw [if_neg (lt_irrefl 0)] at hs
  obtain rfl := Option.some.inj hs
  have hp := h.placed own
  obtain ⟨hbuilt, hnq, -⟩ := LiveRequest.accepted_spec hphase
  have ht : ⟨own, c.tferIdx⟩ ∈ s.pending := (hp.mem_pending hc).mpr ⟨hphase, rfl⟩
  have htlist : ⟨own, c.tferIdx⟩ ∉ s.drv.eng.transferList := fun hm => (h.disjoint.1 hm).1 ht
  have hpend : s.pending.Nodup := by
    have hnd := h.nodup
    rw [tracked, List.append_assoc] at hnd
    exact (List.nodup_append.mp (List.nodup_append.mp hnd).2.1).1
  have hperm : (drv'.eng.transferList ++ s.pending.erase ⟨own, c.tferIdx⟩ ++
    s.unreported).Perm s.tracked := by
    rw [hq.list, tracked, List.append_assoc s.drv.eng.transferList]
    exact ((List.perm_cons_erase ht).symm.append_left _).append_right _
  refine ⟨hperm.symm.nodup h.nodup, ?_, ?_, h.due, fun o => ?_⟩
  · have hused : drv'.eng.descUsed = s.drv.eng.descUsed := hq.ring.2.2.2.2.2.2.2.2.2.2
    refine (hused.trans ?_).trans (congrArg Nat.cast (drv'.descSum_perm hperm).symm)
    rw [h.used, descSum_congr fun t _ => (hq.same t).1]
  · dsimp only [setReq]
    rw [hq.list, List.pairwise_append]
    refine ⟨h.order, List.pairwise_singleton _ _, ?_⟩
    rintro u hu v hv heq
    obtain rfl := List.mem_singleton.mp hv
    obtain ⟨req, i⟩ := u
    obtain rfl : req = own := heq
    have hlt := (hp.mem_tracked hc).mp (mem_tracked.mpr (.inl hu))
    rw [LiveRequest.built, hphase] at hlt
    have hne : i ≠ c.tferIdx := fun he => htlist (he ▸ hu)
    dsimp only at hlt ⊢
    omega
  by_cases ho : o = own
  swap
  · have hne : ∀ i, (⟨o, i⟩ : XferRef) ≠ ⟨own, c.tferIdx⟩ := fun i heq => ho (congrArg XferRef.req heq)
    refine (h.placed o).congr ⟨Function.update_of_ne ho _ _, fun i => hq.other (hne i), fun i => ?_,
      fun i => List.mem_erase_of_ne (hne i), fun _ => Iff.rfl, fun _ => Iff.rfl⟩
    dsimp only [setReq]
    rw [hq.list, List.mem_append, List.mem_singleton]
    exact or_iff_left (hne i)
  subst ho
  have hother : ∀ i, ⟨o, i⟩ ∈ s.unreported → drv'.tfer ⟨o, i⟩ = s.drv.tfer ⟨o, i⟩ := by
    intro i hi
    apply hq.other
    rintro heq
    exact h.disjoint.2 ht (heq ▸ hi)
  refine Placed.of_request (Function.update_self o _ _) (fun i => ?_) (fun i => ?_)
    (fun i hi => ?_) (fun i hi => ?_)
    ((hp.sound c hc).accepted hphase hq.same) (fun i hi => ?_)
  · rw [hbuilt]
    exact (hperm.mem_iff (a := ⟨o, i⟩)).trans (hp.mem_tracked hc)
  · refine iff_of_false (fun hi => ?_) (fun hi => hnq hi.1)
    obtain ⟨hne, hi⟩ := hpend.mem_erase_iff.mp hi
    exact hne (congrArg (XferRef.mk o) ((hp.mem_pending hc).mp hi).2)
  · dsimp only [setReq] at hi ⊢
    rw [hq.list, List.mem_append, List.mem_singleton] at hi
    rcases hi with hi | hi
    · rw [hq.other fun heq => htlist (heq ▸ hi)]
      exact hp.queued i hi
    · rw [hi, (hq.same _).1]
      exact ⟨hq.state, (hok c hc).1⟩
  · dsimp only [setReq]
    rw [hother i hi]
    exact hp.ended i hi
  · have hd := hp.due i hi
    have := hother i (hd.earlier i (le_refl i))
    dsimp only [setReq]
    exact ⟨by rw [this]; exact hd.cb, by rw [this]; exact hd.last, hd.earlier⟩

theorem Balanced.waited (h : s.Balanced) {t : XferRef} (ht : t ∈ s.tracked)
    (hpend : t ∉ s.pending) {drv' : Drv}
    (hrel : s.drv.Unfinished t → s.drv.eng.transferList.head? = some t) (hw : WaitReleased s.drv drv' t) :
    drv'.eng.transferList = s.drv.eng.transferList.erase t ∧
      s.tracked.Perm (t :: (drv'.eng.transferList ++ s.pending ++ s.unreported.erase t)) := by
  have hp := h.placed t.req
  by_cases hu : s.drv.Unfinished t
  · have hhead := hrel hu
    obtain ⟨rest, hrest⟩ : ∃ rest, s.drv.eng.transferList = t :: rest := by
      cases hl : s.drv.eng.transferList with
      | nil => simp [hl] at hhead
      | cons u us =>
        rw [hl, List.head?_cons, Option.some.injEq] at hhead
        exact ⟨us, by rw [hhead]⟩
    have hlist : drv'.eng.transferList = rest := by
      rw [hw.list, if_pos hu, hrest, List.tail_cons]
    have hunr : t ∉ s.unreported := fun hm => (h.disjoint.1 (by rw [hrest]; exact List.mem_cons_self)).2 hm
    rw [hlist, List.erase_of_not_mem hunr, tracked, hrest, List.erase_cons_head]
    exact ⟨rfl, .refl _⟩
  · have hlist : t ∉ s.drv.eng.transferList := by
      intro hm
      obtain ⟨hst, -⟩ := hp.queued t.idx hm
      exact hu ⟨by rw [hst]; nofun, by rw [hst]; nofun⟩
    have hunr : t ∈ s.unreported := by
      rcases mem_tracked.mp ht with hm | hm | hm
      · exact absurd hm hlist
      · exact absurd hm hpend
      · exact hm
    rw [hw.list, if_neg hu, List.erase_of_not_mem hlist]
    refine ⟨rfl, ?_⟩
    exact ((List.perm_cons_erase hunr).append_left _).trans List.perm_middle

theorem finish_balanced {r : DumpRegs} (h : s.Balanced) (hok : s.Paired (.finish own r))
    (hs : s.step p (.finish own r) = some s') : s'.Balanced := by
  obtain ⟨c, hc, hs⟩ := Option.bind_eq_some_iff.mp hs
  obtain ⟨hphase, hs⟩ := Option.ite_none_right_eq_some.mp hs
  have hp := h.placed own
  have hsound := hp.sound c hc
  have hkind : c.kind.cb = none := by
    by_contra hcb
    exact (hsound.async hcb).phase hphase
  obtain ⟨hidx, -⟩ := hsound.sync hkind
  have hbuilt : c.built = 1 := by rw [LiveRequest.built, hphase, hidx]
  have ht : ⟨own, 0⟩ ∈ s.tracked := by
    rw [hp.mem_tracked hc, hbuilt]
    exact Nat.one_pos
  have hpend : ∀ i, ⟨own, i⟩ ∉ s.pending := fun i hi => by
    have := ((hp.mem_pending hc).mp hi).1
    rw [hphase] at this
    cases this
  have hn : (s.drv.tfer ⟨own, 0⟩).descNum ≠ 0 := by
    rcases mem_tracked.mp ht with hm | hm | hm
    · exact (hp.queued 0 hm).2
    · exact absurd hm (hpend 0)
    · exact (hp.ended 0 hm).1
  have hw := waitEnd_released (p := p) hn hok
  have hdrv := XferCall.endWait_drv p own c.account_bookkeeping r (c.toCall s.drv)
  generalize (c.toCall s.drv).endWait p own c.account r = e at hs hdrv
  obtain ⟨call, rv⟩ := e
  dsimp only at hs hdrv
  obtain rfl := Option.some.inj hs
  have hw : WaitReleased s.drv call.drv ⟨own, 0⟩ := hdrv ▸ hw
  obtain ⟨hlist, hperm⟩ := h.waited ht (hpend 0) (fun hu => (hok hu).1) hw
  have hnd := hperm.nodup h.nodup
  obtain ⟨hnot, hnd'⟩ := List.nodup_cons.mp hnd
  have hdue : ∀ i, ⟨own, i⟩ ∉ s.due := by
    intro i hi
    have hd := hp.due i hi
    have hlt := (hp.mem_tracked hc).mp (mem_tracked.mpr (.inr (.inr (hd.earlier i (le_refl i)))))
    exact hd.cb ((hsound.cb i hlt).trans hkind)
  refine ⟨hnd', ?_, ?_, h.due, fun o => ?_⟩
  · have hsum := s.drv.descSum_perm hperm
    rw [descSum_cons] at hsum
    have hcongr : call.drv.descSum (call.drv.eng.transferList ++ s.pending ++ s.unreported.erase ⟨own, 0⟩) =
        s.drv.descSum (call.drv.eng.transferList ++ s.pending ++ s.unreported.erase ⟨own, 0⟩) := by
      apply descSum_congr
      intro u hu
      rw [hw.other u fun heq => hnot (heq ▸ hu)]
    refine hw.used.trans (Eq.trans ?_ (congrArg Nat.cast hcongr.symm))
    rw [h.used, hsum, Nat.cast_add, add_sub_cancel_left]
  · dsimp only [setReq]
    rw [hlist]
    exact h.order.sublist List.erase_sublist
  by_cases ho : o = own
  swap
  · have hne : ∀ i, (⟨o, i⟩ : XferRef) ≠ ⟨own, 0⟩ := fun i heq => ho (congrArg XferRef.req heq)
    refine (h.placed o).congr ⟨Function.update_of_ne ho _ _, fun i => hw.other _ (hne i),
      fun i => ?_, fun _ => Iff.rfl,
      fun i => List.mem_erase_of_ne (hne i), fun _ => Iff.rfl⟩
    dsimp only [setReq]
    rw [hlist]
    exact List.mem_erase_of_ne (hne i)
  subst ho
  refine Placed.of_empty (fun i hi => ?_) hdue fun c' hc' => ?_
  · have hlt := (hp.mem_tracked hc).mp (hperm.mem_iff.mpr (List.mem_cons_of_mem _ hi))
    obtain rfl : i = 0 := by omega
    exact hnot hi
  · obtain ⟨-, hc'⟩ := Option.ite_none_left_eq_some.mp ((Function.update_self o _ s.reqs).symm.trans hc')
    obtain rfl := Option.some.inj hc'
    exact ⟨hidx, by simp, fun _ => ⟨hidx, by simp⟩, fun i hi => absurd (hidx ▸ hi) (Nat.not_lt_zero i),
      fun hcb => absurd hkind hcb⟩

theorem leave_balanced (h : s.Balanced) (hs : s.step p (.leave own) = some s') : s'.Balanced := by
  obtain ⟨c, hc, hs⟩ := Option.bind_eq_some_iff.mp hs
  obtain ⟨⟨hphase, -⟩, hs⟩ := Option.ite_none_right_eq_some.mp hs
  obtain rfl := Option.some.inj hs
  have hp := h.placed own
  have hsound := hp.sound c hc
  have hbuilt : c.built = c.tferIdx := by rw [LiveRequest.built, hphase]
  refine ⟨h.nodup, h.used, h.order, h.due, fun o => ?_⟩
  by_cases ho : o = own
  swap
  · exact (h.placed o).congr ⟨Function.update_of_ne ho _ _, fun _ => rfl, fun _ => Iff.rfl, fun _ => Iff.rfl,
      fun _ => Iff.rfl, fun _ => Iff.rfl⟩
  subst ho
  cases hcb : c.kind.cb with
  | none =>
    have hno : ∀ i, ⟨o, i⟩ ∉ s.tracked := by
      intro i hi
      have hlt := (hp.mem_tracked hc).mp hi
      rw [hbuilt, (hsound.sync hcb).1] at hlt
      exact Nat.not_lt_zero i hlt
    refine Placed.of_empty hno (fun i hi => hno i (mem_tracked.mpr (.inr (.inr ((hp.due i hi).earlier i
      (le_refl i)))))) fun c' hc' => ?_
    cases (Function.update_self o _ s.reqs).symm.trans hc'
  | some cb =>
    have hsome : c.kind.cb ≠ none := by simp [hcb]
    have ha := hsound.async hsome
    have hbuilt' : ({ c with phase := .queued } : LiveRequest).built = c.built := hbuilt.symm
    refine Placed.of_request (Function.update_self o _ _) (fun i => ?_)
      (fun i => ?_) hp.queued hp.ended ?_ hp.due
    · rw [hbuilt']
      exact hp.mem_tracked hc
    · refine iff_of_false (fun hi => ?_) (by simp)
      have := ((hp.mem_pending hc).mp hi).1
      rw [hphase] at this
      cases this
    · refine ⟨fun hn => absurd hn hsome, fun i hi => hsound.cb i (hbuilt' ▸ hi), fun _ => ?_⟩
      refine ⟨by simp, hbuilt' ▸ ha.array, ha.left, ?_, fun i hi => ?_⟩
      · rw [hbuilt']
        exact ha.total
      · rw [hbuilt']
        exact ha.last i (hbuilt' ▸ hi)

theorem Balanced.left_in_order (h : s.Balanced) {drv' : Drv} {out : List XferRef}
    (he : ServiceEffect s.drv drv' out)
    {i : ℕ} (hi : ⟨own, i⟩ ∈ out) (hcb : (s.drv.tfer ⟨own, i⟩).cb ≠ none)
    (hlast : (s.drv.tfer ⟨own, i⟩).lastInRequest = true) {j : ℕ} (hj : j ≤ i) :
      ⟨own, j⟩ ∈ s.unreported ++ out := by
  have hp := h.placed own
  have hlist : ⟨own, i⟩ ∈ s.drv.eng.transferList := by
    rw [he.list]
    exact List.mem_append_left _ hi
  obtain ⟨c, hc, hlt⟩ := (hp.tracked i).mp (mem_tracked.mpr (.inl hlist))
  have hsound := hp.sound c hc
  rw [hsound.cb i hlt] at hcb
  obtain ⟨-, hbuilt⟩ := ((hsound.async hcb).last i hlt).mp hlast
  rcases mem_tracked.mp ((hp.mem_tracked hc).mpr (show j < c.built by omega)) with hm | hm | hm
  · rw [he.list, List.mem_append] at hm
    rcases hm with hm | hm
    · exact List.mem_append_right _ hm
    · have horder := h.order
      rw [he.list, List.pairwise_append] at horder
      have hlt : i < j := horder.2.2 _ hi _ hm rfl
      omega
  · obtain ⟨hphase, hidx⟩ := (hp.mem_pending hc).mp hm
    rw [LiveRequest.built, hphase] at hbuilt
    have : ⟨own, i⟩ ∈ s.pending := (hp.mem_pending hc).mpr ⟨hphase, Nat.succ.inj hbuilt⟩
    exact absurd this (h.disjoint.1 hlist).1
  · exact List.mem_append_left _ hm

theorem service_balanced {wb : U32} {r : ServiceRegs} (h : s.Balanced)
    (hs : s.step p (.service wb r) = some s') : s'.Balanced := by
  obtain rfl := Option.some.inj hs
  obtain ⟨out, he⟩ := engineService_effect p wb r s.drv
  have hout := dropped_eq he
  generalize (s.drv.engineService p wb r).1 = drv' at he hout
  rw [hout]
  have hperm : (drv'.eng.transferList ++ s.pending ++ (s.unreported ++ out)).Perm s.tracked := by
    rw [tracked, he.list, ← List.append_assoc, List.append_assoc out, List.append_assoc out]
    exact List.perm_append_comm
  have hmem : ∀ t ∈ out, t ∈ s.drv.eng.transferList := fun t ht => by
    rw [he.list]
    exact List.mem_append_left _ ht
  have hlist := h.nodup
  rw [tracked, List.append_assoc] at hlist
  have hlist := (List.nodup_append.mp hlist).1
  rw [he.list] at hlist
  obtain ⟨hout_nodup, -, hdisj⟩ := List.nodup_append.mp hlist
  have hunr : ∀ own i, ⟨own, i⟩ ∈ s.due → ⟨own, i⟩ ∈ s.unreported := fun own i hi =>
    ((h.placed own).due i hi).earlier i (le_refl i)
  refine ⟨hperm.symm.nodup h.nodup, ?_, ?_, ?_, fun own => ?_⟩
  · have hused : drv'.eng.descUsed = s.drv.eng.descUsed := he.ring.2.2.2.2.2.2.2.2.2.2
    refine (hused.trans ?_).trans (congrArg Nat.cast (drv'.descSum_perm hperm).symm)
    rw [h.used, descSum_congr fun t _ => (he.same t).1]
  · have horder := h.order
    rw [he.list, List.pairwise_append] at horder
    exact horder.2.1
  · refine List.nodup_append.mpr ⟨h.due, hout_nodup.filter _, ?_⟩
    rintro t ht u hu rfl
    have hu := (List.mem_filter.mp hu).1
    exact (h.disjoint.1 (hmem t hu)).2 (hunr t.req t.idx ht)
  have hp := h.placed own
  refine ⟨fun i => (hperm.mem_iff (a := ⟨own, i⟩)).trans (hp.tracked i), hp.pending,
    fun i hi => ?_, fun i hi => ?_,
    fun c hc => ?_, fun i hi => ?_⟩
  · have hm : ⟨own, i⟩ ∈ s.drv.eng.transferList := by
      rw [he.list]
      exact List.mem_append_right _ hi
    dsimp only
    rw [he.kept _ fun ho => hdisj _ ho _ hi rfl, (he.same _).1]
    exact hp.queued i hm
  · dsimp only
    rw [(he.same _).1]
    rcases List.mem_append.mp hi with hi | hi
    · rw [he.frame _ fun hm => (h.disjoint.1 hm).2 hi]
      exact hp.ended i hi
    · exact ⟨(hp.queued i (hmem _ hi)).2, he.left _ hi⟩
  · exact (hp.sound c hc).congr fun i _ =>
      ⟨(he.same ⟨own, i⟩).1, (he.same ⟨own, i⟩).2.2.2.2.2.1, (he.same ⟨own, i⟩).2.2.2.2.1⟩
  · rcases List.mem_append.mp hi with hi | hi
    · have hd := hp.due i hi
      refine ⟨?_, ?_, fun j hj => List.mem_append_left _ (hd.earlier j hj)⟩
      · dsimp only
        rw [(he.same _).2.2.2.2.2.1]
        exact hd.cb
      · dsimp only
        rw [(he.same _).2.2.2.2.1]
        exact hd.last
    · obtain ⟨hi, hcb⟩ := List.mem_filter.mp hi
      obtain ⟨hcb, hlast⟩ := Bool.and_eq_true_iff.mp hcb
      have hne : (s.drv.tfer ⟨own, i⟩).cb ≠ none := Option.isSome_iff_ne_none.mp hcb
      refine ⟨?_, ?_, fun j hj => h.left_in_order he hi hne hlast hj⟩
      · dsimp only
        rw [(he.same _).2.2.2.2.2.1]
        exact hne
      · dsimp only
        rw [(he.same _).2.2.2.2.1]
        exact hlast

theorem Balanced.complete (h : s.Balanced) {t : XferRef} (ht : t ∈ s.due) (hc : s.reqs t.req = some c)
    (hst : ∀ i < t.idx, (s.drv.tfer ⟨t.req, i⟩).state ≠ .failed) :
    c.built = t.idx + 1 ∧ c.built ≤ tferMax ∧ Completion.Ended s.drv t.req 0 c.built ∧
      s.drv.descSum (chainsFrom t.req 0 c.built) = c.req.swDescCnt := by
  have hp := h.placed t.req
  have hd := hp.due t.idx ht
  have hsound := hp.sound c hc
  have hlt := (hp.mem_tracked hc).mp (mem_tracked.mpr (.inr (.inr (hd.earlier t.idx (le_refl _)))))
  have hcb := hd.cb
  rw [hsound.cb t.idx hlt] at hcb
  have ha := hsound.async hcb
  obtain ⟨hnents, hbuilt⟩ := (ha.last t.idx hlt).mp hd.last
  have htotal := ha.total
  rw [hnents, Nat.add_zero] at htotal
  refine ⟨hbuilt.symm, ha.array, fun j hj => ?_, htotal⟩
  rw [Nat.zero_add]
  obtain ⟨hnum, hend⟩ := hp.ended j (hd.earlier j (show j ≤ t.idx by omega))
  refine ⟨hnum, ?_⟩
  by_cases hlast : j + 1 = c.built
  · exact hend.imp_right fun hf => ⟨hf, hlast⟩
  · exact .inl (hend.resolve_right (hst j (by omega)))

theorem callback_balanced {t : XferRef} {dump : ℕ → DumpRegs} (h : s.Balanced)
    (hok : s.Paired (.callback t dump))
    (hs : s.step p (.callback t dump) = some s') : s'.Balanced := by
  obtain ⟨ht, hs⟩ := Option.ite_none_right_eq_some.mp hs
  rw [if_pos hok.1] at hs
  obtain ⟨c, hc, hs⟩ := Option.bind_eq_some_iff.mp hs
  have hp := h.placed t.req
  obtain ⟨hbuilt, harray, hended, htotal⟩ := h.complete ht hc hok.2
  have hnents : (c.req.swDescCnt : ℤ) = s.drv.descSum (chainsFrom t.req 0 c.built) :=
    congrArg Nat.cast htotal.symm
  obtain ⟨⟨n, hret⟩, hset⟩ := Completion.loop_settles p t.req dump c.built
    (c := { drv := s.drv, nents := c.req.swDescCnt }) harray hended hnents
  change (xdmaXferCompletion p t.req c.req dump s.drv).2 = _ at hret
  change Completion.Settled _ (xdmaXferCompletion p t.req c.req dump s.drv).1 _ at hset
  generalize xdmaXferCompletion p t.req c.req dump s.drv = e at hs hret hset
  obtain ⟨done, e⟩ := e
  dsimp only at hret hset
  subst hret
  obtain rfl := Option.some.inj hs
  have hmem : ∀ i, ⟨t.req, i⟩ ∈ s.unreported ↔ i < c.built := by
    refine fun i => ⟨fun hi => (hp.mem_tracked hc).mp (mem_tracked.mpr (.inr (.inr hi))), fun hi => ?_⟩
    exact (hp.due t.idx ht).earlier i (show i ≤ t.idx by omega)
  have hunr : (s.unreported.filter fun u => u.req = t.req).Perm (chainsFrom t.req 0 c.built) := by
    have hnd := h.nodup
    rw [tracked] at hnd
    refine (List.perm_ext_iff_of_nodup ((List.nodup_append.mp hnd).2.1.filter _)
      (chainsFrom_nodup _ _ _)).mpr fun u => ?_
    rw [List.mem_filter, mem_chainsFrom, decide_eq_true_iff]
    obtain ⟨req, i⟩ := u
    dsimp only
    refine ⟨?_, ?_⟩
    · rintro ⟨hm, rfl⟩
      exact ⟨rfl, Nat.zero_le _, by rw [Nat.zero_add]; exact (hmem i).mp hm⟩
    · rintro ⟨rfl, -, hi⟩
      exact ⟨(hmem i).mpr (by omega), rfl⟩
  have hperm : s.tracked.Perm (chainsFrom t.req 0 c.built ++
      (done.drv.eng.transferList ++ s.pending ++ s.unreported.filter (·.req ≠ t.req))) := by
    have hsplit := List.filter_append_perm (fun u : XferRef => decide (u.req = t.req)) s.unreported
    simp only [← decide_not] at hsplit
    rw [hset.list, tracked]
    refine (hsplit.symm.append_left _).trans ((List.perm_append_comm_assoc _ _ _).trans ?_)
    exact hunr.append_right _
  have hnd := hperm.nodup h.nodup
  obtain ⟨-, hnd', hdisj⟩ := List.nodup_append.mp hnd
  have hgone : ∀ i, ⟨t.req, i⟩ ∉ done.drv.eng.transferList ++ s.pending ++
    s.unreported.filter (·.req ≠ t.req) := by
    intro i hi
    have hlt := (hp.mem_tracked hc).mp (hperm.mem_iff.mpr (List.mem_append_right _ hi))
    have hm : ⟨t.req, i⟩ ∈ chainsFrom t.req 0 c.built :=
      mem_chainsFrom.mpr ⟨rfl, Nat.zero_le i, (Nat.zero_add c.built).symm ▸ hlt⟩
    exact hdisj _ hm _ hi rfl
  refine ⟨hnd', ?_, ?_, h.due.erase t, fun o => ?_⟩
  · have hsum := s.drv.descSum_perm hperm
    rw [descSum_append] at hsum
    have htfer : done.drv.tfer = s.drv.tfer := hset.tfer
    have hused : done.drv.eng.descUsed = s.drv.eng.descUsed -
      s.drv.descSum (chainsFrom t.req 0 c.built) := hset.used
    change done.drv.eng.descUsed = done.drv.descSum
      (done.drv.eng.transferList ++ s.pending ++ s.unreported.filter (·.req ≠ t.req))
    rw [hused, h.used, hsum, Nat.cast_add, add_sub_cancel_left]
    exact congrArg Nat.cast (descSum_congr fun u _ => by rw [htfer]).symm
  · have horder := h.order
    rw [← hset.list] at horder
    exact horder
  by_cases ho : o = t.req
  · subst ho
    refine Placed.of_empty hgone (fun i hi => ?_) fun c' hc' => ?_
    · obtain ⟨hne, hi⟩ := h.due.mem_erase_iff.mp hi
      have hd := hp.due i hi
      have hlt := (hmem i).mp (hd.earlier i (le_refl i))
      have hsound := hp.sound c hc
      have hcb := hd.cb
      rw [hsound.cb i hlt] at hcb
      obtain ⟨-, hlast⟩ := ((hsound.async hcb).last i hlt).mp hd.last
      exact hne (congrArg (XferRef.mk t.req) (by omega))
    · cases (Function.update_self t.req _ s.reqs).symm.trans hc'
  · have hne : ∀ i, (⟨o, i⟩ : XferRef) ≠ t := fun i heq => ho (congrArg XferRef.req heq)
    refine (h.placed o).congr ⟨Function.update_of_ne ho _ _, fun i => by rw [← hset.tfer]; rfl,
      fun i => by rw [← hset.list]; rfl, fun _ => Iff.rfl, fun i => ?_, fun i => List.mem_erase_of_ne (hne i)⟩
    simp [reported, setReq, ho]

theorem Balanced.of_frame (h : s.Balanced) {drv' : Drv}
    (hlist : drv'.eng.transferList = s.drv.eng.transferList)
    (hused : drv'.eng.descUsed = s.drv.eng.descUsed) (htfer : drv'.tfer = s.drv.tfer) :
    Balanced { s with drv := drv' } := by
  have htr : ({ s with drv := drv' } : CreditRun).tracked = s.tracked := by simp [tracked, hlist]
  refine ⟨by rw [htr]; exact h.nodup, ?_, by rw [hlist]; exact h.order, h.due, fun own => ?_⟩
  · rw [htr]
    refine hused.trans (h.used.trans (congrArg Nat.cast ?_))
    exact (descSum_congr fun t _ => by rw [htfer]).symm
  · exact (h.placed own).congr ⟨rfl, fun i => by rw [htfer], fun i => by rw [hlist], fun _ => Iff.rfl,
      fun _ => Iff.rfl, fun _ => Iff.rfl⟩

theorem step_balanced {a : CreditAct} (h : s.Balanced) (hok : s.Paired a) (hfresh : s.Fresh)
    (hs : s.step p a = some s') : s'.Balanced := by
  cases a with
  | start kind epAddr sgt dmaMapped oom => exact start_balanced h hfresh hs
  | build own => exact build_balanced h hs
  | queue own w => exact queue_balanced h hok hs
  | finish own r => exact finish_balanced h hok hs
  | leave own => exact leave_balanced h hs
  | service wb r => exact service_balanced h hs
  | callback t dump => exact callback_balanced h hok hs
  | result i r =>
    obtain rfl := Option.some.inj hs
    exact h.of_frame rfl rfl rfl
  | setOffline offline =>
    obtain rfl := Option.some.inj hs
    exact h.of_frame rfl rfl rfl
  | shutdownRequest =>
    obtain rfl := Option.some.inj hs
    exact h.of_frame rfl rfl rfl
  | shutdownClear =>
    obtain rfl := Option.some.inj hs
    exact h.of_frame rfl rfl rfl

theorem Balanced.pending_of_quiet (h : s.Balanced) (hq : s.Quiet) : s.pending = [] := by
  refine List.eq_nil_iff_forall_not_mem.mpr fun t ht => ?_
  obtain ⟨c, hc, hphase, -⟩ := ((h.placed t.req).pending t.idx).mp ht
  rw [hq.1 t.req c hc] at hphase
  cases hphase

/-- In the runs whose steps are all paired, `engine->desc_used` counts the descriptors of the
transfers that are queued or not yet reported, whenever no call is in progress. -/
theorem desc_used_balanced (h : Reachable (step p) Begins Paired s) (hq : s.Quiet) :
    s.drv.eng.descUsed = s.drv.descSum (s.drv.eng.transferList ++ s.unreported) := by
  obtain ⟨-, hb⟩ := h.invariant (I := fun s => s.Fresh ∧ s.Balanced)
    (fun _ hb => ⟨fun own _ => hb.2.2.1 own, balanced_of_begins hb⟩)
    fun _ _ _ hI hok hs => ⟨step_fresh hI.1 hs, step_balanced hI.2 hok hI.1 hs⟩
  have hused := hb.used
  rwa [tracked, hb.pending_of_quiet hq, List.append_nil] at hused

def buffers (n : ℕ) : SgTable := ⟨List.replicate n ⟨0x1000, 64⟩, n, n⟩

def nearRingEnd : CreditRun := { drv := { eng := { descIdx := 2047 } } }

def engineDump : DumpRegs := ⟨blockIdHead, 1⟩

def pairedRun : List CreditAct :=
  [.start (.nowait (.aio 0 0)) 0 (buffers 3) true false, .build 0, .queue 0 1, .build 0, .queue 0 1, .leave 0,
    .service 0 ⟨4, 1, 1⟩, .service 0 ⟨4, 2, 0⟩, .callback ⟨0, 1⟩ fun _ => engineDump,
    .start .submit 0 (buffers 2) true false, .build 1, .queue 1 1, .finish 1 engineDump,
    .start (.nowait (.dbuf 0)) 0 (buffers 1) true false, .build 2, .queue 2 1, .leave 2]

def ends (s : CreditRun) : List XferRef × List XferRef × ℤ × List XferRef × Bool :=
  (s.drv.eng.transferList, s.unreported, s.drv.eng.descUsed, s.due,
    decide (∀ own < s.next, ∀ c ∈ s.reqs own, c.phase = .queued))

theorem quiet_of_ends (h : s.Fresh) {list unreported : List XferRef} {used : ℤ}
    (he : s.ends = (list, unreported, used, [], true)) :
    s.Quiet ∧ s.drv.eng.transferList = list ∧ s.unreported = unreported ∧ s.drv.eng.descUsed = used := by
  simp only [ends, Prod.mk.injEq, decide_eq_true_eq] at he
  exact ⟨h.quiet he.2.2.2.2 he.2.2.2.1, he.1, he.2.1, he.2.2.1⟩

theorem desc_used_balanced_pairedRun : ∃ s : CreditRun, s.Quiet ∧ s.drv.eng.transferList = [⟨2, 0⟩] ∧
    s.drv.eng.descUsed = s.drv.descSum (s.drv.eng.transferList ++ s.unreported) := by
  have hbegins : nearRingEnd.Begins := ⟨rfl, rfl, fun _ => rfl, rfl, rfl, rfl⟩
  have hrun : (run (step {}) Paired nearRingEnd pairedRun).map ends = some ([⟨2, 0⟩], [], 1, [],
    true) := by decide
  obtain ⟨s, hs, he⟩ := exists_reachable hbegins hrun
  obtain ⟨hq, hlist, -⟩ := quiet_of_ends (reachable_fresh hs) he
  exact ⟨s, hq, hlist, desc_used_balanced hs hq⟩

def refusedRun : List CreditAct :=
  [.start .submit 0 (buffers 1) true false, .build 0, .setOffline true, .queue 0 1]

/-- A refused chain stays counted although its request is gone. -/
theorem desc_used_leaks : ¬ ∀ (p : Params) (s : CreditRun),
    Reachable (step p) Begins (fun _ _ => True) s → s.Quiet →
    s.drv.eng.descUsed = s.drv.descSum (s.drv.eng.transferList ++ s.unreported) := by
  intro h
  have hbegins : Begins {} := ⟨rfl, rfl, fun _ => rfl, rfl, rfl, rfl⟩
  have hrun : (run (step {}) (fun _ _ => True) {} refusedRun).map ends =
    some ([], [], 1, [], true) := by decide
  obtain ⟨s, hs, he⟩ := exists_reachable hbegins hrun
  obtain ⟨hq, hlist, hunr, hused⟩ := quiet_of_ends (reachable_fresh hs) he
  have hbad := h {} s hs hq
  rw [hlist, hunr, hused] at hbad
  cases hbad

end CreditRun

end XdmaDriver
