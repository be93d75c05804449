import XdmaDriver.DescriptorMapping
import XdmaDriver.ApertureChains

/-!
How often, and with which count, a transfer call undoes its own DMA mapping.
-/

namespace XdmaDriver

open Drv

def ChainTrace.LastTaken (own : ℕ) (tr : ChainTrace) : Prop :=
  tr.woken ≠ none ∧ (tr.built.tfer ⟨own, 0⟩).lastInRequest = true

namespace XferCall

variable {p : Params} {own : ℕ}

structure Mapping (own orig n : ℕ) (c : XferCall) : Prop where
  origNents : c.sgt.origNents = orig
  nents : c.sgt.nents = n ∧ c.unmaps = [] ∧ (∀ tr ∈ c.chains, ¬ tr.LastTaken own) ∨
    c.sgt.nents = 0 ∧ c.unmaps = [n] ∧ ∃ tr ∈ c.chains, tr.LastTaken own

theorem Mapping.queueAndWait {orig n : ℕ} {c : XferCall} (h : Mapping own orig n c) (hn : n ≠ 0)
    {account : XferCall → XdmaTransfer → XferCall} (hacc : Bookkeeping account) (hmap : KeepsMapping account)
    (env : ChainEnv) {tr : ChainTrace} (hbuilt : tr.built.tfer ⟨own, 0⟩ = c.drv.tfer ⟨own, 0⟩)
      (hw : tr.woken = none)
    (hneed : (c.drv.tfer ⟨own, 0⟩).needUnmap = true) (hnd : c.drv.eng.transferList.Nodup)
    (hfree : Unlinked own c.drv) : Mapping own orig n (c.queueAndWait p own account env tr).1 := by
  obtain ⟨w, hchains, hcases⟩ := queueAndWait_unmaps (p := p) hacc hmap env tr c hw hnd hfree
  have hlast : ChainTrace.LastTaken own { tr with woken := w } ↔
      w ≠ none ∧ (c.drv.tfer ⟨own, 0⟩).lastInRequest = true := by
    rw [ChainTrace.LastTaken, hbuilt]
  rcases hcases with ⟨hu, hunmaps, hsgt⟩ | ⟨hu, hunmaps, hsgt⟩
  · constructor
    · rw [hsgt]
      exact h.origNents
    · apply Or.inr
      rcases h.nents with ⟨hnents, hnone, -⟩ | ⟨hnents, -⟩
      · refine ⟨by rw [hsgt], by rw [hunmaps, hnone, hnents]; rfl, { tr with woken := w }, ?_, ?_⟩
        · rw [hchains]
          simp
        · exact hlast.mpr ⟨hu.1, hu.2.1⟩
      · exact absurd hnents hu.2.2.2
  · constructor
    · rw [hsgt]
      exact h.origNents
    · rw [hsgt, hunmaps, hchains]
      refine h.nents.imp ?_ ?_
      · rintro ⟨hnents, hnone, hall⟩
        refine ⟨hnents, hnone, ?_⟩
        intro u hmem
        rw [List.mem_append, List.mem_singleton] at hmem
        rcases hmem with hmem | rfl
        · exact hall u hmem
        · intro hl
          obtain ⟨hwoken, hlast⟩ := hlast.mp hl
          exact hu ⟨hwoken, hlast, hneed, by rw [hnents]; exact hn⟩
      · rintro ⟨hnents, hone, u, hmem, hl⟩
        exact ⟨hnents, hone, u, List.mem_append_left _ hmem, hl⟩

theorem submitLoop_mapping (envs : List ChainEnv) {orig n : ℕ} (hn : n ≠ 0) {c : XferCall} (h : SubmitBetween own c)
    (hm : Mapping own orig n c) : Mapping own orig n (c.submitLoop p own false envs).1 := by
  refine chainLoop_invariant (I := fun c => SubmitBetween own c ∧ Mapping own orig n c) (fun _ h => h.2) ?_ envs ⟨h, hm⟩
  rintro env c r ⟨hb, hm⟩ hmore hr
  obtain rfl := Option.some.inj hr
  obtain ⟨tr, hpass⟩ := submitChain_pass p false env hb (by simpa using hmore)
  have hnext : Mapping own orig n (c.submitChain p own false env).1 := by
    obtain ⟨drv, req, hc, hchain⟩ := submitChain_built p own false env c
    rw [hchain]
    apply Mapping.queueAndWait (c := { c with drv := drv, req := req, nents := c.nents - chainLen c.drv.eng c.req })
      ⟨hm.origNents, hm.nents⟩ hn submitDone_bookkeeping submitDone_keepsMapping
    · rfl
    · rfl
    · rw [hc.xfer]
      rfl
    · rw [hc.list]
      exact hb.nodup
    · intro i
      rw [hc.list]
      exact hb.unlinked i
  exact ⟨hnext, fun hrv => ⟨(hpass.completed hrv).2, hnext⟩⟩

theorem apertureChain_kept {dmaMapped : Bool} {dump : DumpRegs} {c c' : XferCall} {tr : ChainTrace}
    (h : c.apertureChain p own dmaMapped dump = some (c', tr)) :
    c'.sgt = c.sgt ∧ c'.unmaps = c.unmaps ∧ tr.built = c'.drv ∧
      (c'.drv.tfer ⟨own, 0⟩).needUnmap = !dmaMapped := by
  unfold apertureChain at h
  dsimp only at h
  split_ifs at h
  simp only [Option.some.injEq, Prod.mk.injEq] at h
  obtain ⟨rfl, rfl⟩ := h
  exact ⟨rfl, rfl, rfl, by simp⟩

variable (own) in
theorem apertureLoop_mapping (envs : List ChainEnv) {orig n : ℕ} (hn : n ≠ 0) {c : XferCall}
    (h : Between own c)
    (hm : Mapping own orig n c) : Mapping own orig n (c.apertureLoop p own false envs).1 := by
  refine chainLoop_invariant (I := fun c => Between own c ∧ Mapping own orig n c)
    (fun _ h => h.2) ?_ envs ⟨h, hm⟩
  rintro env c r ⟨hb, hm⟩ - hr
  obtain ⟨⟨c', tr⟩, hchain, rfl⟩ := Option.map_eq_some_iff.mp hr
  obtain ⟨w, -, -, hbetween⟩ := apertureChain_ended (p := p) env hb hchain
  obtain ⟨hlist, -, -, -, hchains, -, hwoken⟩ := apertureChain_built hchain
  obtain ⟨hsgt, hunmaps, hbuilt, hneed⟩ := apertureChain_kept hchain
  have hm' : Mapping own orig n c' := by
    constructor
    · rw [hsgt]
      exact hm.origNents
    · rw [hsgt, hunmaps, hchains]
      exact hm.nents
  have hnext : Mapping own orig n (c'.queueAndWait p own apertureDone env tr).1 := by
    apply hm'.queueAndWait hn apertureDone_bookkeeping apertureDone_keepsMapping env
    · rw [hbuilt]
    · exact hwoken
    · exact hneed
    · rw [hlist]
      exact hb.nodup
    · intro i
      rw [hlist]
      exact hb.unlinked i
  exact ⟨hnext, fun hrv => ⟨hbetween hrv, hnext⟩⟩

/-- The call undoes its mapping once, and with the count of the mapping call only where this
is the count it has got back, or where the last chain is never destroyed. -/
theorem Mapping.leave {orig n : ℕ} {c : XferCall} (h : Mapping own orig n c) (hn : n ≠ 0) (rv : ℤ) :
    (c.leave false (.returned rv)).unmaps.length = 1 ∧
      ((c.leave false (.returned rv)).unmaps = [orig] ↔ n = orig ∨ ∀ tr ∈ c.chains, ¬ tr.LastTaken own) := by
  rcases h.nents with ⟨hnents, hunmaps, hnone⟩ | ⟨hnents, hunmaps, tr, hmem, hlast⟩
  · have hleave : (c.leave false (.returned rv)).unmaps = [orig] := by
      simp [XferCall.leave, hnents, hn, hunmaps, h.origNents]
    rw [hleave]
    exact ⟨rfl, iff_of_true rfl (.inr hnone)⟩
  · have hleave : (c.leave false (.returned rv)).unmaps = [n] := by
      simp [XferCall.leave, hnents, hunmaps]
    rw [hleave]
    refine ⟨rfl, ?_⟩
    rw [List.cons.injEq]
    constructor
    · exact fun heq => .inl heq.1
    · rintro (heq | hnone)
      · exact ⟨heq, rfl⟩
      · exact absurd hlast (hnone tr hmem)

end XferCall

section

variable {p : Params} {own : ℕ} {s : Drv}

open XferCall

theorem leave_returned {c : XferCall} {outcome : CallEnd} {rv : ℤ}
    (h : (c.leave false outcome).outcome = .returned rv) : ∃ rv', outcome = .returned rv' := by
  cases outcome with
  | returned rv' => exact ⟨rv', rfl⟩
  | waiting => cases h
  | overrun => cases h

theorem xdmaXferSubmit_unmaps (hnd : s.eng.transferList.Nodup) (hfree : Unlinked own s)
    (hidx : s.eng.descIdx < s.eng.descMax) {write : Bool} (epAddr : U64) (sgt : SgTable)
      {mapped : List SgEntry}
    (oom : Bool) (envs : List ChainEnv) (honline : s.offline = false)
    (hdir : s.eng.dir = if write then .toDevice else .fromDevice) (hmapped : mapped ≠ [])
      {rv : ℤ} {r : XferResult}
    (hr : xdmaXferSubmit p own write epAddr sgt false mapped oom envs s = r)
      (hrv : r.outcome = .returned rv) :
    r.unmaps.length = 1 ∧
      (r.unmaps = [sgt.origNents] ↔ mapped.length = sgt.origNents ∨ ∀ tr ∈ r.chains, ¬ tr.LastTaken own) := by
  have hn : mapped.length ≠ 0 := fun h => hmapped (List.eq_nil_of_length_eq_zero h)
  have hz : (mapSgt sgt false mapped).nents ≠ 0 := hn
  have horig : (mapSgt sgt false mapped).origNents = sgt.origNents := rfl
  have hnents : (mapSgt sgt false mapped).nents = mapped.length := rfl
  unfold xdmaXferSubmit at hr
  simp only [honline, hdir, ne_eq, not_true_eq_false, Bool.false_eq_true, ↓reduceIte, hz] at hr
  generalize mapSgt sgt false mapped = sgt' at *
  cases hreq : xdmaInitRequest p oom sgt'.entries epAddr with
  | none =>
    rw [hreq] at hr
    subst hr
    simp [horig]
  | some req =>
    rw [hreq] at hr
    dsimp only at hr
    have hmapping := submitLoop_mapping (p := p) envs hn (submitCall_between hnd hfree hidx hreq)
      ⟨horig, .inl ⟨hnents, rfl, by simp [submitCall]⟩⟩
    change ((submitCall s req sgt').submitLoop p own false envs).1.leave false
      ((submitCall s req sgt').submitLoop p own false envs).2 = r at hr
    generalize (submitCall s req sgt').submitLoop p own false envs = l at *
    obtain ⟨c, outcome⟩ := l
    subst hr
    obtain ⟨rv', rfl⟩ := leave_returned hrv
    exact hmapping.leave hn rv'

theorem xdmaXferAperture_unmaps (hnd : s.eng.transferList.Nodup) (hfree : Unlinked own s)
    (hidx : s.eng.descIdx < s.eng.descMax) {write : Bool} (epAddr : U64) (aperture : U32) (sgt : SgTable)
    {mapped : List SgEntry} (oom : Bool) (envs : List ChainEnv) (honline : s.offline = false)
    (hdir : s.eng.dir = if write then .toDevice else .fromDevice) (hst : s.eng.streaming = false)
    (hmapped : mapped ≠ []) {rv : ℤ} {r : XferResult}
    (hr : xdmaXferAperture p own write epAddr aperture sgt false mapped oom envs s = r)
    (hrv : r.outcome = .returned rv) : r.unmaps.length = 1 ∧
      (r.unmaps = [sgt.origNents] ↔ mapped.length = sgt.origNents ∨ ∀ tr ∈ r.chains, ¬ tr.LastTaken own) := by
  have hn : mapped.length ≠ 0 := fun h => hmapped (List.eq_nil_of_length_eq_zero h)
  have hz : (mapSgt sgt false mapped).nents ≠ 0 := hn
  have horig : (mapSgt sgt false mapped).origNents = sgt.origNents := rfl
  have hnents : (mapSgt sgt false mapped).nents = mapped.length := rfl
  unfold xdmaXferAperture at hr
  simp only [honline, hdir, hst, ne_eq, not_true_eq_false, Bool.false_eq_true, ↓reduceIte, hz] at hr
  generalize mapSgt sgt false mapped = sgt' at *
  cases oom with
  | true =>
    simp only [↓reduceIte] at hr
    subst hr
    simp [horig]
  | false =>
    simp only [Bool.false_eq_true, ↓reduceIte] at hr
    have hmapping := apertureLoop_mapping (p := p) own envs hn (c := apertureCall s epAddr aperture sgt')
      ⟨hnd, hfree, hidx⟩ ⟨horig, .inl ⟨hnents, rfl, by simp [apertureCall]⟩⟩
    change ((apertureCall s epAddr aperture sgt').apertureLoop p own false envs).1.leave false
      ((apertureCall s epAddr aperture sgt').apertureLoop p own false envs).2 = r at hr
    generalize (apertureCall s epAddr aperture sgt').apertureLoop p own false envs = l at *
    obtain ⟨c, outcome⟩ := l
    subst hr
    obtain ⟨rv', rfl⟩ := leave_returned hrv
    exact hmapping.leave hn rv'

structure MapsItself (s : Drv) (write : Bool) (mapped : List SgEntry) : Prop where
  online : s.offline = false
  dir : s.eng.dir = if write then .toDevice else .fromDevice
  mapped : mapped ≠ []

theorem unmaps_iff (hnd : s.eng.transferList.Nodup) (hfree : Unlinked own s)
    (hidx : s.eng.descIdx < s.eng.descMax)
    {write : Bool} (epAddr : U64) (aperture : U32) (sgt : SgTable) {mapped : List SgEntry} (oom : Bool)
    (envs : List ChainEnv) (hmaps : MapsItself s write mapped) {rv : ℤ} {r : XferResult}
    (hr : r = xdmaXferSubmit p own write epAddr sgt false mapped oom envs s ∨ s.eng.streaming = false ∧
      r = xdmaXferAperture p own write epAddr aperture sgt false mapped oom envs s)
    (hrv : r.outcome = .returned rv) :
    r.unmaps.length = 1 ∧
      (r.unmaps = [sgt.origNents] ↔ mapped.length = sgt.origNents ∨ ∀ tr ∈ r.chains, ¬ tr.LastTaken own) := by
  rcases hr with hr | ⟨hst, hr⟩
  · exact xdmaXferSubmit_unmaps hnd hfree hidx epAddr sgt oom envs hmaps.online hmaps.dir
      hmaps.mapped hr.symm hrv
  · exact xdmaXferAperture_unmaps hnd hfree hidx epAddr aperture sgt oom envs hmaps.online
      hmaps.dir hst hmaps.mapped
      hr.symm hrv

end

def twoEntries : SgTable := ⟨[⟨0x1000, 4096⟩, ⟨0x2000, 4096⟩], 0, 2⟩

theorem unmaps_iff_apart : (xdmaXferSubmit {} 1 false 0x20 twoEntries false [⟨0x1000, 4096⟩,
    ⟨0x8000, 4096⟩] false
    [completedPair] {}).unmaps = [2] := by
  have hiff := @unmaps_iff {} 1 {} (by decide) (by simp [Unlinked]) (by decide) false 0x20 0 twoEntries
    [⟨0x1000, 4096⟩, ⟨0x8000, 4096⟩] false [completedPair] ⟨rfl, rfl, by simp⟩ 8192 _ (.inl rfl) (by decide)
  exact hiff.2.mpr (.inl rfl)

/-- Two pages that lie together are mapped as one entry. -/
theorem xdmaXferSubmit_unmaps_one : ¬ ∀ (p : Params) (own : ℕ) (s : Drv) (write : Bool)
    (epAddr : U64) (sgt : SgTable)
    (mapped : List SgEntry) (oom : Bool) (envs : List ChainEnv) (rv : ℤ), MapsItself s write mapped →
    mapped.length ≤ sgt.origNents →
    (xdmaXferSubmit p own write epAddr sgt false mapped oom envs s).outcome = .returned rv →
      (xdmaXferSubmit p own write epAddr sgt false mapped oom envs s).unmaps = [sgt.origNents] := by
  intro h
  have hbad := h {} 1 {} false 0x20 twoEntries [⟨0x1000, 8192⟩] false [completedChain] 8192
    ⟨rfl, rfl, by simp⟩
    (by decide) (by decide)
  revert hbad
  decide

end XdmaDriver
