import XdmaDriver.Contexts

/-!
`xdma_xfer_submit`: one chain after the other, each waited for. What the rest of
the system does between the start of a chain and the end of its wait is an input.
-/

namespace XdmaDriver

open Drv

/-- The fields of `struct sg_table`; the first `nents` entries are mapped. -/
structure SgTable where
  sgl : List SgEntry
  nents : ℕ
  origNents : ℕ
  deriving DecidableEq, Repr

def SgTable.entries (sgt : SgTable) : List SgEntry := sgt.sgl.take sgt.nents

/-- What happens to one chain: the status register after a start of the engine,
the steps of the other contexts until the wait ends, and the registers a status
dump reads. -/
structure ChainEnv where
  startStatus : U32 := 1
  during : List EngineStep := []
  dump : DumpRegs := ⟨blockIdHead, 0⟩

/-- The record of one chain: the engine and the request when it was built, the
engine after `transfer_init`, and the engine at the end of the wait, if
`transfer_queue` took the chain. -/
structure ChainTrace where
  before : Drv
  req : XdmaRequestCb
  built : Drv
  woken : Option Drv := none
  dump : DumpRegs

/-- The locals of a call that moves a request, and the numbers of entries it has
passed to the unmap function. -/
structure XferCall where
  drv : Drv
  req : XdmaRequestCb
  nents : ℕ := 0
  done : ℤ := 0
  sgt : SgTable
  unmaps : List ℕ := []
  chains : List ChainTrace := []

/-- How far a call gets: it returns, it still waits, or it writes outside its
memory, after which nothing is known. -/
inductive CallEnd
  | returned (rv : ℤ)
  | waiting
  | overrun
  deriving DecidableEq, Repr

structure XferResult where
  drv : Drv
  outcome : CallEnd
  freed : Bool := false
  req : Option XdmaRequestCb := none
  unmaps : List ℕ := []
  chains : List ChainTrace := []

def resultBytes (e : XdmaEngine) (x : XdmaTransfer) (n : ℕ) : ℕ :=
  ((List.range n).map fun i => (e.cyclicResult (x.descIndex + i)).length.toNat).sum

namespace XferCall

variable (p : Params) (own : ℕ)

def mapSgt (sgt : SgTable) (dmaMapped : Bool) (mapped : List SgEntry) : SgTable :=
  if dmaMapped then sgt else { sgt with sgl := mapped, nents := mapped.length }

def unmapLast (c : XferCall) (x : XdmaTransfer) : XferCall :=
  if x.lastInRequest && x.needUnmap && c.sgt.nents ≠ 0 then
    { c with unmaps := c.unmaps ++ [c.sgt.nents], sgt := { c.sgt with nents := 0 } }
  else c

/-- The label `unmap_sgl` and what follows it, for a loop that ended in `outcome`. -/
def leave (dmaMapped : Bool) (c : XferCall) (outcome : CallEnd) : XferResult :=
  match outcome with
  | .returned rv =>
    { drv := c.drv
      outcome := .returned (if c.done ≠ 0 then c.done else rv)
      freed := true
      req := some c.req
      unmaps := if !dmaMapped && c.sgt.nents ≠ 0 then c.unmaps ++ [c.sgt.origNents] else c.unmaps
      chains := c.chains }
  | outcome =>
    { drv := c.drv, outcome := outcome, req := some c.req, unmaps := c.unmaps, chains := c.chains }

/-- The loops of `xdma_xfer_submit` and `xdma_xfer_aperture`: while there is `more`
to move, one pass, left early with its error. A pass that is `none` overruns. -/
def chainLoop (more : XferCall → Bool) (pass : ChainEnv → XferCall → Option (XferCall × ℤ)) :
    List ChainEnv → XferCall → XferCall × CallEnd
  | [], c => (c, if more c then .waiting else .returned 0)
  | env :: envs, c =>
    if more c then
      match pass env c with
      | none => (c, .overrun)
      | some (c, rv) => if rv < 0 then (c, .returned rv) else chainLoop more pass envs c
    else (c, .returned 0)

/-- The `case TRANSFER_STATE_COMPLETED` of `xdma_xfer_submit`. -/
def submitDone (c : XferCall) (x : XdmaTransfer) : XferCall :=
  if x.state = .completed then
    if c.drv.eng.streamingC2h then
      { c with
        done := c.done + resultBytes c.drv.eng x x.descCmpl
        nents := if c.drv.eng.eopFlush && x.eopRcved then 0 else c.nents }
    else { c with done := c.done + x.len.toNat }
  else c

/-- What `xdma_xfer_submit` and `xdma_xfer_aperture` do with a chain they have
built in `&req->tfer[0]`: queue it, wait, and act on its state. -/
def queueAndWait (account : XferCall → XdmaTransfer → XferCall) (env : ChainEnv) (tr : ChainTrace)
    (c : XferCall) : XferCall × ℤ :=
  let (drv, rv) := c.drv.transferQueue p ⟨own, 0⟩ env.startStatus
  if rv < 0 then ({ c with drv := drv, chains := c.chains ++ [tr] }, rv)
  else
    let drv := drv.engineSteps p own env.during
    let x := drv.tfer ⟨own, 0⟩
    let c := { c with drv := drv, chains := c.chains ++ [{ tr with woken := some drv }] }
    let c := account c x
    let (drv, rv) := c.drv.waitEnd p ⟨own, 0⟩ env.dump
    ({ c with drv := drv.transferDestroy ⟨own, 0⟩ }.unmapLast x, rv)

def submitChain (dmaMapped : Bool) (env : ChainEnv) (c : XferCall) : XferCall × ℤ :=
  let n := chainLen c.drv.eng c.req
  let (drv, req) := c.drv.buildChain c.req ⟨own, 0⟩ (!dmaMapped) (c.nents = n) none
  let tr := { before := c.drv, req := c.req, built := drv, dump := env.dump }
  { c with drv := drv, req := req, nents := c.nents - n }.queueAndWait p own submitDone env tr

def submitLoop (dmaMapped : Bool) : List ChainEnv → XferCall → XferCall × CallEnd :=
  chainLoop (fun c => c.nents ≠ 0) fun env c => some (c.submitChain p own dmaMapped env)

theorem submitChain_built (p : Params) (own : ℕ) (dmaMapped : Bool) (env : ChainEnv) (c : XferCall) :
    ∃ drv req, ChainBuilt c.drv c.req ⟨own, 0⟩ (!dmaMapped) (c.nents = chainLen c.drv.eng c.req) none drv req ∧
      c.submitChain p own dmaMapped env =
        XferCall.queueAndWait p own submitDone env { before := c.drv, req := c.req, built := drv, dump := env.dump }
          { c with drv := drv, req := req, nents := c.nents - chainLen c.drv.eng c.req } :=
  ⟨_, _, buildChain_built _ _ _ _ _ _, rfl⟩

end XferCall

open XferCall in
/-- `xdma_xfer_submit` on the engine `s`, with the request allocated as `own`;
`mapped` is what `dma_map_sg` returns. -/
def xdmaXferSubmit (p : Params) (own : ℕ) (write : Bool) (epAddr : U64) (sgt : SgTable)
    (dmaMapped : Bool) (mapped : List SgEntry) (oom : Bool) (envs : List ChainEnv) (s : Drv) :
    XferResult :=
  if s.offline then { drv := s, outcome := .returned (err .busy) }
  else if s.eng.dir ≠ (if write then .toDevice else .fromDevice) then
    { drv := s, outcome := .returned (err .inval) }
  else
    let sgt := mapSgt sgt dmaMapped mapped
    if sgt.nents = 0 then { drv := s, outcome := .returned (err .io) }
    else
      match xdmaInitRequest p oom sgt.entries epAddr with
      | none =>
        { drv := s
          outcome := .returned (err .noMem)
          unmaps := if dmaMapped then [] else [sgt.origNents] }
      | some req =>
        let (c, outcome) := submitLoop p own dmaMapped envs
          { drv := s, req := req, nents := req.swDescCnt, sgt := sgt }
        c.leave dmaMapped outcome

namespace XferCall

section

variable {more : XferCall → Bool} {pass : ChainEnv → XferCall → Option (XferCall × ℤ)}
  {I : XferCall → Prop}

theorem chainLoop_rule {J : XferCall → CallEnd → Prop}
    (hdone : ∀ c, I c → more c ≠ true → J c (.returned 0)) (hwait : ∀ c, I c → more c = true → J c .waiting)
    (hover : ∀ env c, I c → more c = true → pass env c = none → J c .overrun)
    (hpass : ∀ env c r, I c → more c = true → pass env c = some r →
      (r.2 < 0 → J r.1 (.returned r.2)) ∧ (0 ≤ r.2 → I r.1))
    (envs : List ChainEnv) : ∀ {c : XferCall}, I c →
      J (chainLoop more pass envs c).1 (chainLoop more pass envs c).2 := by
  induction envs with
  | nil =>
    intro c h
    unfold chainLoop
    by_cases hmore : more c = true
    · simpa only [hmore, ↓reduceIte] using hwait c h hmore
    · simpa only [hmore, Bool.false_eq_true, ↓reduceIte] using hdone c h hmore
  | cons env envs ih =>
    intro c h
    unfold chainLoop
    by_cases hmore : more c = true
    swap
    · simpa only [hmore, Bool.false_eq_true, ↓reduceIte] using hdone c h hmore
    simp only [hmore, ↓reduceIte]
    cases hr : pass env c with
    | none => exact hover env c h hmore hr
    | some r =>
      obtain ⟨hJ, hI⟩ := hpass env c r h hmore hr
      obtain ⟨c', rv⟩ := r
      by_cases hneg : rv < 0
      · simpa only [hneg, ↓reduceIte] using hJ hneg
      · simpa only [hneg, ↓reduceIte] using ih (hI (not_lt.mp hneg))

theorem chainLoop_invariant {J : XferCall → Prop} (hIJ : ∀ c, I c → J c)
    (hpass : ∀ env c r, I c → more c = true → pass env c = some r → J r.1 ∧ (0 ≤ r.2 → I r.1))
    (envs : List ChainEnv) {c : XferCall} (h : I c) : J (chainLoop more pass envs c).1 :=
  chainLoop_rule (J := fun c _ => J c) (fun c h _ => hIJ c h) (fun c h _ => hIJ c h)
    (fun _ c h _ _ => hIJ c h)
    (fun env c r h hmore hr => ⟨fun _ => (hpass env c r h hmore hr).1, (hpass env c r h hmore hr).2⟩) envs h

theorem chainLoop_prefix (happend : ∀ env c r, pass env c = some r → ∃ tr, r.1.chains = c.chains ++ [tr])
    (envs : List ChainEnv) : ∀ c : XferCall, c.chains <+: (chainLoop more pass envs c).1.chains := by
  induction envs with
  | nil => exact fun c => List.prefix_refl c.chains
  | cons env envs ih =>
    intro c
    unfold chainLoop
    split_ifs with hm
    swap
    · exact List.prefix_refl _
    cases hr : pass env c with
    | none => exact List.prefix_refl _
    | some r =>
      obtain ⟨tr, htr⟩ := happend env c r hr
      have hstep : c.chains <+: r.1.chains := by
        rw [htr]
        exact List.prefix_append _ _
      dsimp only
      split_ifs
      · exact hstep
      · exact hstep.trans (ih r.1)

theorem chainLoop_each {H F : ChainTrace → ChainEnv → Prop}
    (happend : ∀ env c r, pass env c = some r → ∃ tr, r.1.chains = c.chains ++ [tr])
    (hpass : ∀ env c r tr, I c → more c = true → pass env c = some r → r.1.chains = c.chains ++ [tr] →
      H tr env → F tr env ∧ (0 ≤ r.2 → I r.1))
    (envs : List ChainEnv) : ∀ {c : XferCall}, I c →
      (∀ k tr env, (chainLoop more pass envs c).1.chains[c.chains.length + k]? = some tr →
        envs[k]? = some env →
        H tr env) →
      ∀ k tr env, (chainLoop more pass envs c).1.chains[c.chains.length + k]? = some tr →
        envs[k]? = some env →
        F tr env := by
  induction envs with
  | nil => simp
  | cons env envs ih =>
    intro c hI hH
    unfold chainLoop at hH ⊢
    by_cases hm : more c = true
    swap
    · simp [hm]
    simp only [hm, ↓reduceIte] at hH ⊢
    cases hr : pass env c with
    | none => simp
    | some r =>
      obtain ⟨tr, htr⟩ := happend env c r hr
      have hpass' := hpass env c r tr hI hm hr htr
      have hpre : r.1.chains <+: (chainLoop more pass envs r.1).1.chains := chainLoop_prefix happend envs r.1
      obtain ⟨c', rv⟩ := r
      simp only [hr] at hH
      dsimp only at htr hpass' hpre hH ⊢
      have hlen : c'.chains.length = c.chains.length + 1 := by simp [htr]
      by_cases hneg : rv < 0
      · simp only [hneg, ↓reduceIte, htr] at hH ⊢
        have hF := (hpass' (hH 0 tr env (by simp) rfl)).1
        intro k tr' env' hk henv
        cases k with
        | zero =>
          obtain rfl : tr = tr' := by simpa using hk
          obtain rfl : env = env' := by simpa using henv
          exact hF
        | succ k => simp at hk
      · simp only [hneg, ↓reduceIte] at hH ⊢
        obtain ⟨rest, hrest⟩ := hpre
        have hfirst : (chainLoop more pass envs c').1.chains[c.chains.length + 0]? = some tr := by
          rw [← hrest, htr]
          simp
        obtain ⟨hF, hI'⟩ := hpass' (hH 0 tr env hfirst rfl)
        intro k tr' env' hk henv
        cases k with
        | zero =>
          obtain rfl := Option.some.inj (hfirst.symm.trans hk)
          obtain rfl : env = env' := by simpa using henv
          exact hF
        | succ k =>
          refine ih (hI' (not_lt.mp hneg)) (fun k tr env hk henv => hH (k + 1) tr env ?_ henv)
            k tr' env' ?_ henv
          · rw [← hk, hlen]
            congr 1
            omega
          · rw [← hk, hlen]
            congr 1
            omega

theorem chainLoop_waiting (hpass : ∀ env c r, pass env c = some r → r.1.chains.length = c.chains.length + 1)
    (envs : List ChainEnv) : ∀ {c : XferCall}, (chainLoop more pass envs c).2 = .waiting →
      (chainLoop more pass envs c).1.chains.length = c.chains.length + envs.length := by
  induction envs with
  | nil => exact fun _ => rfl
  | cons env envs ih =>
    intro c h
    unfold chainLoop at h ⊢
    by_cases hm : more c = true
    swap
    · simp [hm] at h
    simp only [hm, ↓reduceIte] at h ⊢
    cases hr : pass env c with
    | none => simp [hr] at h
    | some r =>
      have hnext := hpass env c r hr
      obtain ⟨c', rv⟩ := r
      by_cases hneg : rv < 0
      · simp [hr, hneg] at h
      · simp only [hr, hneg, ↓reduceIte] at h ⊢
        rw [ih h, hnext, List.length_cons]
        omega

theorem chainLoop_terminates (left : XferCall → ℕ) (hmore : ∀ c, more c = true → 0 < left c)
    (hpass : ∀ env c r, I c → more c = true → pass env c = some r →
      0 ≤ r.2 → I r.1 ∧ left r.1 < left c)
    (envs : List ChainEnv) : ∀ {c : XferCall}, I c → left c ≤ envs.length →
      (chainLoop more pass envs c).2 ≠ .waiting := by
  induction envs with
  | nil =>
    intro c _ hl
    have : more c ≠ true := fun h => by
      have := hmore c h
      simp only [List.length_nil] at hl
      omega
    simp [chainLoop, this]
  | cons env envs ih =>
    intro c h hl
    unfold chainLoop
    by_cases hm : more c = true
    swap
    · simp [hm]
    simp only [hm, ↓reduceIte]
    cases hr : pass env c with
    | none => simp
    | some r =>
      have hnext := hpass env c r h hm hr
      obtain ⟨c', rv⟩ := r
      by_cases hneg : rv < 0
      · simp [hneg]
      · obtain ⟨hI, hlt⟩ := hnext (not_lt.mp hneg)
        simp only [hneg, ↓reduceIte]
        simp only [List.length_cons] at hl
        exact ih hI (by dsimp only at hlt; omega)

end

end XferCall

end XdmaDriver
