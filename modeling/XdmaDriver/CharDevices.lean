import XdmaDriver.Types
import XdmaDriver.Lib.Ledger
import Mathlib.Data.List.Nodup
import Mathlib.Data.List.Perm.Lattice

/-!
The character devices of a device: how `xpdev_create_interfaces` creates them, and how often
`xpdev_destroy_interfaces` destroys each of them.
-/

namespace XdmaDriver

open Ledger

inductive CdevType
  | user | ctrl | xvc | events | xdmaH2c | xdmaC2h | bypassH2c | bypassC2h | bypass
  deriving DecidableEq, Repr

/-- A character device: its type, and the number of its event or of its channel. -/
structure CdevNode where
  type : CdevType
  param : ℕ := 0
  deriving DecidableEq, Repr

/-- `enum xpdev_flags_bits`. -/
inductive XpdevFlag
  | user | ctrl | xvc | event | sg | bypass
  deriving DecidableEq, Repr

inductive NodeRes
  | cdev (n : CdevNode)
  | sysDevice (n : CdevNode)
  deriving DecidableEq

/-- `sysDevice` says that the pointer is not NULL. -/
structure CdevState where
  magic : Bool := false
  sysDevice : Bool := false

/-- What `device_create` returns. The kernel gives an `ERR_PTR` when it fails, which
`create_sys_device` does not tell from a device: it compares with NULL. -/
inductive SysDevice
  | device | errPtr | null
  deriving DecidableEq, Repr

/-- What the kernel answers while the devices are created. -/
structure CdevEnv where
  allocChrdevRegion : Option Errno
  kobjectSetName : CdevNode → Option Errno
  cdevAdd : CdevNode → Option Errno
  deviceCreate : CdevNode → SysDevice

/-- What was found when the device was opened. -/
structure XpdevConf where
  userMax : ℕ
  h2cChannelMax : ℕ
  c2hChannelMax : ℕ
  engine : DmaDir → ℕ → Bool
  userBarIdx : ℤ
  bypassBarIdx : ℤ

/-- `struct xdma_pci_dev`, the devices that are registered with the class, and what was created and
destroyed so far. -/
structure XdmaPciDev where
  major : Bool := false
  flags : XpdevFlag → Bool := fun _ => false
  cdev : CdevNode → CdevState := fun _ => {}
  devices : CdevNode → Bool := fun _ => false
  log : List (Op NodeRes) := []

namespace XpdevConf

variable (c : XpdevConf)

def channels (h2c c2h : CdevType) : List CdevNode :=
  (List.range c.h2cChannelMax).map (⟨h2c, ·⟩) ++ (List.range c.c2hChannelMax).map (⟨c2h, ·⟩)

def group : XpdevFlag → List CdevNode
  | .user => [⟨.user, 0⟩]
  | .ctrl => [⟨.ctrl, 0⟩]
  | .xvc => [⟨.xvc, 0⟩]
  | .event => (List.range c.userMax).map (⟨.events, ·⟩)
  | .sg => c.channels .xdmaH2c .xdmaC2h
  | .bypass => c.channels .bypassH2c .bypassC2h ++ [⟨.bypass, 0⟩]

def hasEngine (n : CdevNode) : Bool :=
  match n.type with
  | .xdmaH2c | .bypassH2c => c.engine .toDevice n.param
  | .xdmaC2h | .bypassC2h => c.engine .fromDevice n.param
  | _ => true

def groupNodes (f : XpdevFlag) : List CdevNode := (c.group f).filter c.hasEngine

/-- The order of the creation; a bypass BAR of index 0 is left out. -/
def createOrder : List XpdevFlag :=
  [.ctrl, .event, .sg] ++ (if 0 < c.bypassBarIdx then [.bypass] else []) ++
    (if 0 ≤ c.userBarIdx then [.user, .xvc] else [])

def nodes : List CdevNode := c.createOrder.flatMap c.groupNodes

def destroyOrder : List XpdevFlag := [.sg, .event, .ctrl, .user, .xvc, .bypass]

end XpdevConf

namespace XdmaPciDev

variable (c : XpdevConf) (env : CdevEnv)

def acquire (x : XdmaPciDev) (r : NodeRes) : XdmaPciDev := { x with log := x.log ++ [.acquire r] }

def release (x : XdmaPciDev) (r : NodeRes) : XdmaPciDev := { x with log := x.log ++ [.release r] }

def setCdev (x : XdmaPciDev) (n : CdevNode) (cdev : CdevState) : XdmaPciDev :=
  { x with cdev := Function.update x.cdev n cdev }

def createSysDevice (x : XdmaPciDev) (n : CdevNode) : XdmaPciDev × ℤ :=
  match env.deviceCreate n with
  | .device =>
    let x := { x with devices := Function.update x.devices n true }.acquire (.sysDevice n)
    (x.setCdev n { x.cdev n with sysDevice := true }, 0)
  | .errPtr => (x.setCdev n { x.cdev n with sysDevice := true }, 0)
  | .null => (x.setCdev n { x.cdev n with sysDevice := false }, -1)

def createXcdev (x : XdmaPciDev) (n : CdevNode) : XdmaPciDev × ℤ :=
  match if x.major then none else env.allocChrdevRegion with
  | some e => (x, err e)
  | none =>
    let x := ({ x with major := true }).setCdev n { x.cdev n with magic := true }
    match env.kobjectSetName n with
    | some e => (x, err e)
    | none =>
      match env.cdevAdd n with
      | some e => (x, err e)
      | none =>
        let (x, rv) := createSysDevice env (x.acquire (.cdev n)) n
        if rv < 0 then (x.release (.cdev n), rv) else (x, rv)

def deviceDestroy (x : XdmaPciDev) (n : CdevNode) : XdmaPciDev :=
  if x.devices n then { x with devices := Function.update x.devices n false }.release (.sysDevice n) else x

/-- `destroy_xcdev`, which leaves the structure as it is. -/
def destroyXcdev (x : XdmaPciDev) (n : CdevNode) : XdmaPciDev :=
  if (x.cdev n).magic && (x.cdev n).sysDevice then (x.deviceDestroy n).release (.cdev n) else x

def createNodes : List CdevNode → XdmaPciDev → XdmaPciDev × ℤ
  | [], x => (x, 0)
  | n :: ns, x =>
    let (x, rv) := x.createXcdev env n
    if rv < 0 then (x, rv) else createNodes ns x

def flagSet (x : XdmaPciDev) (f : XpdevFlag) :
    XdmaPciDev := { x with flags := Function.update x.flags f true }

def createGroups : List XpdevFlag → XdmaPciDev → XdmaPciDev × ℤ
  | [], x => (x, 0)
  | f :: fs, x =>
    let (x, rv) := createNodes env (c.groupNodes f) x
    if rv < 0 then (x, rv) else createGroups fs (x.flagSet f)

def destroyNodes (x : XdmaPciDev) (ns : List CdevNode) : XdmaPciDev := ns.foldl destroyXcdev x

def xpdevDestroyInterfaces (x : XdmaPciDev) : XdmaPciDev :=
  XpdevConf.destroyOrder.foldl (fun x f => if x.flags f then x.destroyNodes (c.group f) else x) x

def xpdevCreateInterfaces (x : XdmaPciDev) : XdmaPciDev × ℤ :=
  let (x, rv) := createGroups c env c.createOrder x
  if rv < 0 then (x.xpdevDestroyInterfaces c, -1) else (x, 0)

/-- `xpdev_free`, for the character devices. -/
def xpdevFree (x : XdmaPciDev) : XdmaPciDev := x.xpdevDestroyInterfaces c

/-- `probe_one` from the creation of the character devices on. -/
def probeOne : XdmaPciDev × ℤ :=
  let (x, rv) := xpdevCreateInterfaces c env {}
  if rv ≠ 0 then (x.xpdevFree c, rv) else (x, 0)

def probeRemove : XdmaPciDev :=
  let (x, rv) := probeOne c env
  if rv = 0 then x.xpdevFree c else x

end XdmaPciDev

def CdevEnv.fails (env : CdevEnv) (n : CdevNode) : Bool :=
  n.type = .ctrl && env.allocChrdevRegion.isSome || (env.kobjectSetName n).isSome || (env.cdevAdd n).isSome ||
    env.deviceCreate n = .null

def CdevEnv.registers (env : CdevEnv) (n : CdevNode) : Bool := env.deviceCreate n = .device

namespace CdevNode

def flag (n : CdevNode) : XpdevFlag :=
  match n.type with
  | .user => .user
  | .ctrl => .ctrl
  | .xvc => .xvc
  | .events => .event
  | .xdmaH2c | .xdmaC2h => .sg
  | .bypassH2c | .bypassC2h | .bypass => .bypass

/-- What is held for a device that is created; `registered` says of which there is a class device. -/
def resources (registered : CdevNode → Bool) (n : CdevNode) : List NodeRes :=
  .cdev n :: if registered n then [.sysDevice n] else []

def created (registered : CdevNode → Bool) (n : CdevNode) : List (Op NodeRes) :=
  (n.resources registered).map .acquire

def destroyed (registered : CdevNode → Bool) (n : CdevNode) : List (Op NodeRes) :=
  (n.resources registered).reverse.map .release

end CdevNode

namespace XpdevConf

variable {c : XpdevConf}

theorem flag_of_mem_group {f : XpdevFlag} {n : CdevNode} (h : n ∈ c.group f) : n.flag = f := by
  cases f <;> simp only [group, channels, List.mem_singleton, List.mem_map, List.mem_append] at h
  · exact h ▸ rfl
  · exact h ▸ rfl
  · exact h ▸ rfl
  · obtain ⟨i, -, rfl⟩ := h
    rfl
  · rcases h with ⟨i, -, rfl⟩ | ⟨i, -, rfl⟩ <;> rfl
  · rcases h with (⟨i, -, rfl⟩ | ⟨i, -, rfl⟩) | rfl <;> rfl

theorem channels_nodup {h2c c2h : CdevType} (hne : h2c ≠ c2h) : (c.channels h2c c2h).Nodup := by
  have hinj (t : CdevType) : Function.Injective fun i => CdevNode.mk t i := by
    intro i j h
    exact congrArg CdevNode.param h
  refine List.nodup_append.mpr ⟨List.nodup_range.map (hinj _), List.nodup_range.map (hinj _), ?_⟩
  rintro n hn m hm rfl
  obtain ⟨i, -, rfl⟩ := List.mem_map.mp hn
  obtain ⟨j, -, h⟩ := List.mem_map.mp hm
  exact hne (congrArg CdevNode.type h).symm

theorem group_nodup (f : XpdevFlag) : (c.group f).Nodup := by
  cases f with
  | user => exact List.nodup_singleton _
  | ctrl => exact List.nodup_singleton _
  | xvc => exact List.nodup_singleton _
  | event => exact List.nodup_range.map fun i j h => congrArg CdevNode.param h
  | sg => exact channels_nodup (by decide)
  | bypass =>
    refine List.nodup_append.mpr ⟨channels_nodup (by decide), List.nodup_singleton _, ?_⟩
    rintro n hn m hm rfl
    obtain rfl := List.mem_singleton.mp hm
    rcases List.mem_append.mp hn with h | h <;> obtain ⟨i, -, h⟩ := List.mem_map.mp h <;> cases h

theorem flatMap_nodup {fs : List XpdevFlag} (hfs : fs.Nodup) {sel : XpdevFlag → List CdevNode}
    (hsub : ∀ f, (sel f).Sublist (c.group f)) : (fs.flatMap sel).Nodup := by
  refine List.nodup_flatMap.mpr ⟨fun f _ => (hsub f).nodup (group_nodup f), ?_⟩
  refine hfs.imp fun {f f'} hne => ?_
  intro n hn hn'
  exact hne ((flag_of_mem_group ((hsub f).subset hn)).symm.trans (flag_of_mem_group ((hsub f').subset hn')))

theorem createOrder_nodup (c : XpdevConf) : c.createOrder.Nodup := by
  unfold createOrder
  split <;> split <;> decide

theorem nodes_nodup (c : XpdevConf) : c.nodes.Nodup :=
  flatMap_nodup c.createOrder_nodup fun _ => List.filter_sublist

theorem mem_groupNodes {f : XpdevFlag} {n : CdevNode} (h : n ∈ c.groupNodes f) : n ∈ c.group f :=
  List.mem_of_mem_filter h

end XpdevConf

namespace XdmaPciDev

variable {c : XpdevConf} {env : CdevEnv}

variable (env) in
def withNode (x : XdmaPciDev) (n : CdevNode) : XdmaPciDev :=
  { x with
    major := true
    cdev := Function.update x.cdev n ⟨true, true⟩
    devices := if env.registers n then Function.update x.devices n true else x.devices
    log := x.log ++ n.created env.registers }

variable (env) in
def withNodes (x : XdmaPciDev) (ns : List CdevNode) : XdmaPciDev := ns.foldl (withNode env) x

structure Tried (x x' : XdmaPciDev) (n : CdevNode) : Prop where
  flags : x'.flags = x.flags
  devices : x'.devices = x.devices
  other : ∀ m, m ≠ n → x'.cdev m = x.cdev m
  sysDevice : (x'.cdev n).sysDevice = true → (x.cdev n).sysDevice = true
  log : x'.log = x.log ∨ x'.log = x.log ++ [.acquire (.cdev n), .release (.cdev n)]

theorem createXcdev_ok {x : XdmaPciDev} {n : CdevNode} (hx : x.major = true ∨ n.type = .ctrl)
    (h : env.fails n = false) : x.createXcdev env n = (x.withNode env n, 0) := by
  simp only [CdevEnv.fails, Bool.or_eq_false_iff, Bool.and_eq_false_iff, Option.isSome_eq_false_iff,
    Option.isNone_iff_eq_none, decide_eq_false_iff_not] at h
  obtain ⟨⟨⟨hregion, hname⟩, hadd⟩, hcreate⟩ := h
  have hmajor : (if x.major then none else env.allocChrdevRegion) = none := by
    split
    · rfl
    · rename_i hm
      have hctrl := hx.resolve_left hm
      exact hregion.resolve_left (by simp [hctrl])
  have hreg (d : SysDevice) (hd : env.deviceCreate n = d) : env.registers n = decide (d = .device) := by
    rw [CdevEnv.registers, hd]
  cases hc : env.deviceCreate n with
  | null => exact absurd hc hcreate
  | device =>
    simp [createXcdev, createSysDevice, hmajor, hname, hadd, hc, hreg _ hc, withNode, acquire, setCdev,
      CdevNode.created, CdevNode.resources]
  | errPtr =>
    simp [createXcdev, createSysDevice, hmajor, hname, hadd, hc, hreg _ hc, withNode, acquire, setCdev,
      CdevNode.created, CdevNode.resources]

theorem createXcdev_fails {x : XdmaPciDev} {n : CdevNode} (hx : x.major = false ∨ n.type ≠ .ctrl)
    (h : env.fails n = true) : (x.createXcdev env n).2 < 0 ∧ Tried x (x.createXcdev env n).1 n := by
  have hset (d : CdevState) (m : CdevNode) (hm : m ≠ n) : Function.update x.cdev n d m = x.cdev m :=
    Function.update_of_ne hm _ _
  unfold createXcdev
  cases hr : (if x.major then none else env.allocChrdevRegion) with
  | some e => exact ⟨err_neg e, rfl, rfl, fun _ _ => rfl, id, .inl rfl⟩
  | none =>
    dsimp only
    cases hn : env.kobjectSetName n with
    | some e => exact ⟨err_neg e, rfl, rfl, hset _, by simp [setCdev], .inl rfl⟩
    | none =>
      cases ha : env.cdevAdd n with
      | some e => exact ⟨err_neg e, rfl, rfl, hset _, by simp [setCdev], .inl rfl⟩
      | none =>
        by_cases hc : env.deviceCreate n = .null
        · simp only [createSysDevice, hc, Int.reduceNeg, Int.reduceLT, ↓reduceIte]
          refine ⟨trivial, rfl, rfl, fun m hm => ?_, by simp [setCdev, acquire, release], .inr ?_⟩
          · simp [setCdev, acquire, release, hm]
          · simp [setCdev, acquire, release]
        · exfalso
          simp only [CdevEnv.fails, hn, ha, hc, Option.isSome_none, Bool.or_false,
            decide_false, Bool.and_eq_true,
            decide_eq_true_eq] at h
          rcases hx with hx | hx
          · rw [hx] at hr
            simp only [Bool.false_eq_true, ↓reduceIte] at hr
            simp [hr] at h
          · exact hx h.1

@[simp] theorem withNodes_flags (ns : List CdevNode) :
    ∀ x : XdmaPciDev, (x.withNodes env ns).flags = x.flags := by
  induction ns with
  | nil => exact fun x => rfl
  | cons n ns ih => exact fun x => ih (x.withNode env n)

theorem withNodes_log (ns : List CdevNode) : ∀ x : XdmaPciDev,
    (x.withNodes env ns).log = x.log ++ ns.flatMap (CdevNode.created env.registers) := by
  induction ns with
  | nil => exact fun x => (List.append_nil _).symm
  | cons n ns ih =>
    intro x
    rw [withNodes, List.foldl_cons, ← withNodes, ih, List.flatMap_cons]
    exact List.append_assoc _ _ _

variable (env) in
theorem withNodes_cdev (ns : List CdevNode) : ∀ (x : XdmaPciDev) (m : CdevNode),
    (x.withNodes env ns).cdev m = if m ∈ ns then ⟨true, true⟩ else x.cdev m := by
  induction ns with
  | nil => exact fun x m => by simp [withNodes]
  | cons n ns ih =>
    intro x m
    rw [withNodes, List.foldl_cons, ← withNodes, ih]
    by_cases hm : m ∈ ns
    · simp [hm]
    · by_cases hmn : m = n
      · subst hmn
        simp [withNode]
      · simp [hm, hmn, withNode]

variable (env) in
theorem withNodes_devices (ns : List CdevNode) : ∀ (x : XdmaPciDev) (m : CdevNode),
    (x.withNodes env ns).devices m = (decide (m ∈ ns) && env.registers m || x.devices m) := by
  induction ns with
  | nil => exact fun x m => by simp [withNodes]
  | cons n ns ih =>
    intro x m
    rw [withNodes, List.foldl_cons, ← withNodes, ih, withNode]
    by_cases hmn : m = n
    · subst hmn
      cases hr : env.registers m <;> simp
    · cases hr : env.registers n <;> simp [hmn]

theorem withNodes_major {x : XdmaPciDev} (hx : x.major = true) (ns : List CdevNode) :
    (x.withNodes env ns).major = true := by
  induction ns generalizing x with
  | nil => exact hx
  | cons n ns ih => exact ih (x := x.withNode env n) rfl

theorem createNodes_spec (env : CdevEnv) (ns : List CdevNode) :
    ∀ {x : XdmaPciDev}, x.major = true → (∀ n ∈ ns, n.type ≠ .ctrl) →
    ((∀ n ∈ ns, env.fails n = false) ∧ createNodes env ns x = (x.withNodes env ns, 0)) ∨
      ∃ pre n post, ns = pre ++ n :: post ∧ (∀ m ∈ pre, env.fails m = false) ∧ env.fails n = true ∧
        (createNodes env ns x).2 < 0 ∧ Tried (x.withNodes env pre) (createNodes env ns x).1 n := by
  induction ns with
  | nil => exact fun _ _ => .inl ⟨by simp, rfl⟩
  | cons n ns ih =>
    intro x hx hctrl
    rw [createNodes]
    cases hf : env.fails n with
    | true =>
      obtain ⟨hrv, htried⟩ := createXcdev_fails (.inr (hctrl n List.mem_cons_self)) hf (x := x)
      refine .inr ⟨[], n, ns, rfl, by simp, hf, ?_⟩
      dsimp only
      rw [if_pos hrv]
      exact ⟨hrv, htried⟩
    | false =>
      rw [createXcdev_ok (.inl hx) hf]
      simp only [lt_irrefl, ↓reduceIte]
      have hrest := ih (x := x.withNode env n) rfl fun m hm => hctrl m (List.mem_cons_of_mem n hm)
      rcases hrest with ⟨hall, heq⟩ | ⟨pre, m, post, rfl, hpre, hm, hrv, htried⟩
      · exact .inl ⟨by simpa [hf] using hall, heq⟩
      · exact .inr ⟨n :: pre, m, post, rfl, by simpa [hf] using hpre, hm, hrv, htried⟩

variable (c env) in
def withGroups (x : XdmaPciDev) (fs : List XpdevFlag) : XdmaPciDev :=
  fs.foldl (fun x f => (x.withNodes env (c.groupNodes f)).flagSet f) x

theorem withGroups_cons (x : XdmaPciDev) (f : XpdevFlag) (fs : List XpdevFlag) :
    x.withGroups c env (f :: fs) = ((x.withNodes env (c.groupNodes f)).flagSet f).withGroups c env fs := rfl

theorem withGroups_log (fs : List XpdevFlag) : ∀ x : XdmaPciDev,
    (x.withGroups c env fs).log = x.log ++ (fs.flatMap c.groupNodes).flatMap
      (CdevNode.created env.registers) := by
  induction fs with
  | nil => exact fun x => (List.append_nil _).symm
  | cons f fs ih =>
    intro x
    rw [withGroups_cons, ih, List.flatMap_cons, List.flatMap_append, ← List.append_assoc]
    exact congrArg (· ++ _) (withNodes_log (c.groupNodes f) x)

theorem withGroups_flags (fs : List XpdevFlag) : ∀ (x : XdmaPciDev) (f : XpdevFlag),
    (x.withGroups c env fs).flags f = (decide (f ∈ fs) || x.flags f) := by
  induction fs with
  | nil => exact fun x f => rfl
  | cons g fs ih =>
    intro x f
    rw [withGroups_cons, ih, flagSet, withNodes_flags]
    by_cases hfg : f = g
    · subst hfg
      simp
    · simp [hfg]

theorem withGroups_cdev (fs : List XpdevFlag) : ∀ (x : XdmaPciDev) (m : CdevNode),
    (x.withGroups c env fs).cdev m = if m ∈ fs.flatMap c.groupNodes then ⟨true, true⟩ else x.cdev m := by
  induction fs with
  | nil => exact fun x m => by simp [withGroups]
  | cons f fs ih =>
    intro x m
    have hnodes := withNodes_cdev env (c.groupNodes f) x m
    rw [withGroups_cons, ih, List.flatMap_cons]
    change (if m ∈ fs.flatMap c.groupNodes then _ else (x.withNodes env (c.groupNodes f)).cdev m) = _
    rw [hnodes]
    by_cases hm : m ∈ fs.flatMap c.groupNodes <;> by_cases hg : m ∈ c.groupNodes f <;> simp [hm, hg]

structure Stops (c : XpdevConf) (env : CdevEnv) (x x' : XdmaPciDev) (fs done : List XpdevFlag)
    (pre : List CdevNode)
    (n : CdevNode) : Prop where
  split : ∃ f todo post, fs = done ++ f :: todo ∧ c.groupNodes f = pre ++ n :: post
  before : ∀ m ∈ done.flatMap c.groupNodes ++ pre, env.fails m = false
  fails : env.fails n = true
  tried : Tried ((x.withGroups c env done).withNodes env pre) x' n

theorem createGroups_spec (c : XpdevConf) (env : CdevEnv) (fs : List XpdevFlag) :
    ∀ {x : XdmaPciDev}, x.major = true → .ctrl ∉ fs →
    ((∀ n ∈ fs.flatMap c.groupNodes, env.fails n = false) ∧
      createGroups c env fs x = (x.withGroups c env fs, 0)) ∨
      ((createGroups c env fs x).2 < 0 ∧ ∃ done pre n,
        Stops c env x (createGroups c env fs x).1 fs done pre n) := by
  induction fs with
  | nil => exact fun _ _ => .inl ⟨by simp, rfl⟩
  | cons f fs ih =>
    intro x hx hfs
    have hctrl : ∀ n ∈ c.groupNodes f, n.type ≠ .ctrl := by
      intro n hn hnt
      have hflag := XpdevConf.flag_of_mem_group (XpdevConf.mem_groupNodes hn)
      rw [CdevNode.flag, hnt] at hflag
      exact hfs (hflag ▸ List.mem_cons_self)
    rw [createGroups]
    rcases createNodes_spec env (c.groupNodes f) hx hctrl with
      ⟨hall, heq⟩ | ⟨pre, n, post, hsplit, hpre, hn, hrv, htried⟩
    · rw [heq]
      simp only [lt_irrefl, ↓reduceIte]
      have hmajor : ((x.withNodes env (c.groupNodes f)).flagSet f).major = true := withNodes_major hx _
      rcases ih hmajor fun hmem => hfs (List.mem_cons_of_mem f hmem) with ⟨hrest, heq'⟩ | ⟨hrv,
        done, pre, n, hstop⟩
      · refine .inl ⟨fun n hn => ?_, heq'⟩
        rw [List.flatMap_cons] at hn
        exact (List.mem_append.mp hn).elim (hall n) (hrest n)
      · obtain ⟨⟨g, todo, post, rfl, hg⟩, hbefore, hfails, htried⟩ := hstop
        refine .inr ⟨hrv, f :: done, pre, n, ⟨g, todo, post, rfl, hg⟩, fun m hm => ?_, hfails, htried⟩
        rw [List.flatMap_cons, List.append_assoc] at hm
        exact (List.mem_append.mp hm).elim (hall m) (hbefore m)
    · refine .inr ?_
      dsimp only
      rw [if_pos hrv]
      exact ⟨hrv, [], pre, n, ⟨f, fs, post, rfl, hsplit⟩, by simpa using hpre, hn, htried⟩

theorem createOrder_spec (c : XpdevConf) (env : CdevEnv) :
    ((∀ n ∈ c.nodes, env.fails n = false) ∧
        createGroups c env c.createOrder {} = (({} : XdmaPciDev).withGroups c env c.createOrder, 0)) ∨
      ((createGroups c env c.createOrder {}).2 < 0 ∧
        ∃ done pre n, Stops c env {} (createGroups c env c.createOrder {}).1 c.createOrder done pre n) := by
  obtain ⟨rest, hrest, hctrl⟩ : ∃ rest, c.createOrder = .ctrl :: rest ∧ XpdevFlag.ctrl ∉ rest := by
    have hnd := c.createOrder_nodup
    unfold XpdevConf.createOrder at hnd ⊢
    exact ⟨_, rfl, (List.nodup_cons.mp hnd).1⟩
  have hgroup : c.groupNodes .ctrl = [⟨.ctrl, 0⟩] := rfl
  rw [XpdevConf.nodes, hrest, List.flatMap_cons, createGroups, hgroup]
  cases hf : env.fails ⟨.ctrl, 0⟩ with
  | true =>
    obtain ⟨hrv, htried⟩ := createXcdev_fails (x := {}) (.inl rfl) hf
    refine .inr ?_
    rw [createNodes]
    simp only [if_pos hrv]
    exact ⟨hrv, [], [], ⟨.ctrl, 0⟩, ⟨.ctrl, rest, [], rfl, rfl⟩, by simp, hf, htried⟩
  | false =>
    rw [createNodes, createXcdev_ok (.inr rfl) hf]
    simp only [lt_irrefl, ↓reduceIte, createNodes]
    rcases createGroups_spec c env rest (x := (withNode env {} ⟨.ctrl, 0⟩).flagSet .ctrl) rfl hctrl with
      ⟨hall, heq⟩ | ⟨hrv, done, pre, n, hstop⟩
    · exact .inl ⟨by simpa [hf] using hall, heq⟩
    · obtain ⟨⟨g, todo, post, hsplit, hg⟩, hbefore, hfails, htried⟩ := hstop
      refine .inr ⟨hrv, .ctrl :: done, pre, n,
        ⟨g, todo, post, by rw [hsplit, List.cons_append], hg⟩, ?_, hfails,
        htried⟩
      intro m hm
      rw [List.flatMap_cons, hgroup] at hm
      rcases List.mem_cons.mp hm with rfl | hm
      · exact hf
      · exact hbefore m hm

def live (x : XdmaPciDev) (n : CdevNode) : Bool := (x.cdev n).magic && (x.cdev n).sysDevice

def without (x : XdmaPciDev) (ns : List CdevNode) : XdmaPciDev :=
  { x with
    devices := fun n => x.devices n && !decide (n ∈ ns)
    log := x.log ++ ns.flatMap (CdevNode.destroyed x.devices) }

theorem destroyXcdev_live {x : XdmaPciDev} {n : CdevNode} (h : x.live n = true) :
    x.destroyXcdev n = x.without [n] := by
  rw [destroyXcdev, ← live, if_pos h, deviceDestroy]
  have hdevices (m : CdevNode) (hm : m ≠ n) : (x.devices m && !decide (m ∈ [n])) = x.devices m := by
    simp [hm]
  cases hn : x.devices n with
  | true =>
    rw [if_pos rfl, without]
    simp only [release, CdevNode.destroyed, CdevNode.resources, hn, ↓reduceIte, List.flatMap_singleton]
    congr 1
    · funext m
      by_cases hm : m = n
      · subst hm
        simp
      · rw [hdevices m hm, Function.update_of_ne hm]
    · simp
  | false =>
    rw [if_neg Bool.false_ne_true, without]
    simp only [release, CdevNode.destroyed, CdevNode.resources, hn, Bool.false_eq_true, ↓reduceIte,
      List.flatMap_singleton]
    congr 1
    funext m
    by_cases hm : m = n
    · subst hm
      simp [hn]
    · rw [hdevices m hm]

theorem without_append {x : XdmaPciDev} {ns ms : List CdevNode} (h : (ns ++ ms).Nodup) :
    (x.without ns).without ms = x.without (ns ++ ms) := by
  have hsame : ms.flatMap (CdevNode.destroyed (x.without ns).devices) =
    ms.flatMap (CdevNode.destroyed x.devices) := by
    refine List.flatMap_congr fun m hm => ?_
    have hnot : m ∉ ns := fun hn => List.disjoint_of_nodup_append h hn hm
    simp [CdevNode.destroyed, CdevNode.resources, without, hnot]
  rw [without, hsame]
  simp only [without, List.flatMap_append, List.append_assoc]
  congr 1
  funext n
  simp [Bool.and_assoc, Bool.not_or]

theorem destroyNodes_eq (ns : List CdevNode) (x : XdmaPciDev) (h : ns.Nodup) :
    x.destroyNodes ns = x.without (ns.filter x.live) := by
  induction ns generalizing x with
  | nil => simp [destroyNodes, without]
  | cons n ns ih =>
    obtain ⟨hn, hns⟩ := List.nodup_cons.mp h
    rw [destroyNodes, List.foldl_cons, ← destroyNodes, ih _ hns, List.filter_cons]
    cases hlive : x.live n with
    | false =>
      rw [destroyXcdev, ← live, hlive]
      rfl
    | true =>
      rw [destroyXcdev_live hlive, if_pos rfl]
      change (x.without [n]).without (ns.filter x.live) = _
      exact without_append (List.nodup_cons.mpr ⟨fun hm => hn (List.mem_of_mem_filter hm), hns.filter _⟩)

def destroyList (c : XpdevConf) (x : XdmaPciDev) : List CdevNode :=
  ((XpdevConf.destroyOrder.filter x.flags).flatMap c.group).filter x.live

theorem destroyGroups_nodup (c : XpdevConf) (x : XdmaPciDev) :
    ((XpdevConf.destroyOrder.filter x.flags).flatMap c.group).Nodup :=
  XpdevConf.flatMap_nodup (List.Nodup.filter _ (by decide)) fun f => List.Sublist.refl _

theorem destroyList_nodup (c : XpdevConf) (x : XdmaPciDev) : (x.destroyList c).Nodup :=
  (destroyGroups_nodup c x).filter _

theorem destroyNodes_flags (ns : List CdevNode) (x : XdmaPciDev) : (x.destroyNodes ns).flags = x.flags := by
  induction ns generalizing x with
  | nil => rfl
  | cons n ns ih =>
    rw [destroyNodes, List.foldl_cons, ← destroyNodes, ih, destroyXcdev, deviceDestroy]
    split
    · split <;> rfl
    · rfl

theorem xpdevDestroyInterfaces_eq (c : XpdevConf) (x : XdmaPciDev) :
    x.xpdevDestroyInterfaces c = x.without (x.destroyList c) := by
  have hfold (fs : List XpdevFlag) : ∀ y : XdmaPciDev, y.flags = x.flags →
      fs.foldl (fun x f => if x.flags f then x.destroyNodes (c.group f) else x) y =
        y.destroyNodes ((fs.filter x.flags).flatMap c.group) := by
    induction fs with
    | nil => exact fun y _ => rfl
    | cons f fs ih =>
      intro y hflags
      rw [List.foldl_cons, hflags, List.filter_cons]
      cases hf : x.flags f with
      | false => exact ih y hflags
      | true =>
        rw [if_pos rfl, if_pos rfl, ih _ ((destroyNodes_flags _ y).trans hflags), List.flatMap_cons]
        exact (List.foldl_append ..).symm
  rw [destroyList, ← destroyNodes_eq _ x (destroyGroups_nodup c x)]
  exact hfold XpdevConf.destroyOrder x rfl

theorem mem_destroyList {x : XdmaPciDev} {n : CdevNode} {f : XpdevFlag} (hn : n ∈ c.group f) :
    n ∈ x.destroyList c ↔ x.flags f = true ∧ x.live n = true := by
  have hf : f ∈ XpdevConf.destroyOrder := by cases f <;> decide
  simp only [destroyList, List.mem_flatMap, List.mem_filter]
  constructor
  · rintro ⟨⟨g, ⟨-, hg⟩, hng⟩, hlive⟩
    rw [← (XpdevConf.flag_of_mem_group hng).symm.trans (XpdevConf.flag_of_mem_group hn)]
    exact ⟨hg, hlive⟩
  · exact fun h => ⟨⟨f, ⟨hf, h.1⟩, hn⟩, h.2⟩

end XdmaPciDev

namespace CdevNode

variable {registered : CdevNode → Bool}

theorem count_resources (n m : CdevNode) : (n.resources registered).count (.cdev m) =
    if n = m then 1 else 0 := by
  rw [resources]
  by_cases hn : n = m <;> cases registered n <;> simp [hn]

variable (registered) in
theorem count_created (ns : List CdevNode) (m : CdevNode) :
    (ns.flatMap (created registered)).count (.acquire (.cdev m)) = ns.count m ∧
      (ns.flatMap (created registered)).count (.release (.cdev m)) = 0 := by
  have hinj : Function.Injective (Op.acquire : NodeRes → Op NodeRes) := fun r r' h => Op.acquire.inj h
  induction ns with
  | nil => exact ⟨rfl, rfl⟩
  | cons n ns ih =>
    obtain ⟨ha, hr⟩ := ih
    rw [List.flatMap_cons, List.count_append, List.count_append, ha, hr, created]
    refine ⟨?_, List.count_eq_zero.mpr (by simp)⟩
    rw [List.count_map_of_injective _ _ hinj, count_resources, List.count_cons, Nat.add_comm]
    by_cases hn : n = m <;> simp [hn]

variable (registered) in
theorem count_destroyed (ns : List CdevNode) (m : CdevNode) :
    (ns.flatMap (destroyed registered)).count (.release (.cdev m)) = ns.count m ∧
      (ns.flatMap (destroyed registered)).count (.acquire (.cdev m)) = 0 := by
  have hinj : Function.Injective (Op.release : NodeRes → Op NodeRes) := fun r r' h => Op.release.inj h
  induction ns with
  | nil => exact ⟨rfl, rfl⟩
  | cons n ns ih =>
    obtain ⟨hr, ha⟩ := ih
    rw [List.flatMap_cons, List.count_append, List.count_append, hr, ha, destroyed]
    refine ⟨?_, List.count_eq_zero.mpr (by simp)⟩
    rw [List.count_map_of_injective _ _ hinj, List.count_reverse, count_resources,
      List.count_cons, Nat.add_comm]
    by_cases hn : n = m <;> simp [hn]

theorem created_eq (ns : List CdevNode) :
    ns.flatMap (created registered) = (ns.flatMap (resources registered)).map .acquire := by
  rw [List.map_flatMap]
  rfl

theorem destroyed_eq (ns : List CdevNode) :
    ns.flatMap (destroyed registered) = (ns.flatMap fun n =>
    (n.resources registered).reverse).map .release := by
  rw [List.map_flatMap]
  rfl

theorem mem_resources {n : CdevNode} {r : NodeRes} :
    r ∈ n.resources registered ↔ r = .cdev n ∨ r = .sysDevice n ∧ registered n = true := by
  rw [resources]
  cases hreg : registered n <;> simp

variable (registered) in
theorem resources_nodup {ns : List CdevNode} (h : ns.Nodup) : (ns.flatMap (resources registered)).Nodup ∧
    (ns.flatMap fun n => (n.resources registered).reverse).Nodup := by
  have hone (n : CdevNode) : (n.resources registered).Nodup := by
    rw [resources]
    cases hreg : registered n <;> simp
  have hdisj {n m : CdevNode} (hne : n ≠ m) :
    List.Disjoint (n.resources registered) (m.resources registered) := by
    intro r hr hr'
    rw [mem_resources] at hr hr'
    rcases hr with rfl | ⟨rfl, -⟩ <;> rcases hr' with hr' | ⟨hr', -⟩ <;> cases hr' <;> exact hne rfl
  constructor
  · exact List.nodup_flatMap.mpr ⟨fun n _ => hone n, h.imp hdisj⟩
  · refine List.nodup_flatMap.mpr ⟨fun n _ => List.nodup_reverse.mpr (hone n), h.imp fun {n m} hne => ?_⟩
    intro r hr hr'
    exact hdisj hne (List.mem_reverse.mp hr) (List.mem_reverse.mp hr')

end CdevNode

namespace XdmaPciDev

variable {c : XpdevConf} {env : CdevEnv}

theorem group_of_mem_nodes {fs : List XpdevFlag} {n : CdevNode} (h : n ∈ fs.flatMap c.groupNodes) :
    n.flag ∈ fs ∧ n ∈ c.group n.flag := by
  obtain ⟨f, hf, hn⟩ := List.mem_flatMap.mp h
  have hgroup := XpdevConf.mem_groupNodes hn
  rw [XpdevConf.flag_of_mem_group hgroup]
  exact ⟨hf, hgroup⟩

theorem Stops.created {x : XdmaPciDev} {done : List XpdevFlag} {pre : List CdevNode} {n : CdevNode}
    (h : Stops c env {} x c.createOrder done pre n) :
    (∃ post, c.nodes = (done.flatMap c.groupNodes ++ pre) ++ n :: post) ∧
      (∀ f, x.flags f = decide (f ∈ done)) ∧ (∀ m, x.live m = decide (m ∈ done.flatMap c.groupNodes ++ pre)) ∧
      n.flag ∉ done ∧ (∀ m ∈ pre, m.flag = n.flag) ∧
      (x.log = (done.flatMap c.groupNodes ++ pre).flatMap (CdevNode.created env.registers) ∨
        x.log = (done.flatMap c.groupNodes ++ pre).flatMap (CdevNode.created env.registers) ++
          [.acquire (.cdev n), .release (.cdev n)]) := by
  obtain ⟨⟨f, todo, post, hsplit, hf⟩, hbefore, hfails, htried⟩ := h
  have hnodes : c.nodes = (done.flatMap c.groupNodes ++ pre) ++ n :: (post ++ todo.flatMap c.groupNodes) := by
    rw [XpdevConf.nodes, hsplit, List.flatMap_append, List.flatMap_cons, hf]
    simp only [List.append_assoc, List.cons_append]
  have hflag : ∀ m ∈ c.groupNodes f, m.flag = f :=
    fun m hm => XpdevConf.flag_of_mem_group (XpdevConf.mem_groupNodes hm)
  have hnf : n.flag = f := hflag n (by rw [hf]; simp)
  have hlog : ((({} : XdmaPciDev).withGroups c env done).withNodes env pre).log =
      (done.flatMap c.groupNodes ++ pre).flatMap (CdevNode.created env.registers) := by
    rw [withNodes_log, withGroups_log, List.flatMap_append]
    rfl
  have hn : n ∉ done.flatMap c.groupNodes ++ pre := by
    have hnd := c.nodes_nodup
    rw [hnodes] at hnd
    exact fun hmem => List.disjoint_of_nodup_append hnd hmem List.mem_cons_self
  refine ⟨⟨_, hnodes⟩, fun g => ?_, fun m => ?_, ?_, fun m hm => ?_, ?_⟩
  · rw [htried.flags, withNodes_flags, withGroups_flags, Bool.or_false]
  · by_cases hmn : m = n
    · subst hmn
      have hnone : (x.cdev m).sysDevice = false := by
        by_contra hsome
        have hbefore := htried.sysDevice (by simpa using hsome)
        rw [withNodes_cdev, withGroups_cdev] at hbefore
        rw [List.mem_append, not_or] at hn
        simp [hn.1, hn.2] at hbefore
      rw [live, hnone, Bool.and_false, eq_comm]
      exact decide_eq_false hn
    · rw [live, htried.other m hmn, withNodes_cdev, withGroups_cdev]
      by_cases hp : m ∈ pre <;> by_cases hd : m ∈ done.flatMap c.groupNodes <;> simp [hp, hd]
  · have hnd := c.createOrder_nodup
    rw [hsplit] at hnd
    rw [hnf]
    exact fun hmem => List.disjoint_of_nodup_append hnd hmem List.mem_cons_self
  · rw [hnf]
    exact hflag m (by rw [hf]; exact List.mem_append_left _ hm)
  · rw [← hlog]
    exact htried.log

theorem withGroups_live (c : XpdevConf) (env : CdevEnv) (fs : List XpdevFlag) (n : CdevNode) :
    (({} : XdmaPciDev).withGroups c env fs).live n = decide (n ∈ fs.flatMap c.groupNodes) := by
  rw [live, withGroups_cdev]
  by_cases hn : n ∈ fs.flatMap c.groupNodes <;> simp [hn]

theorem withGroups_devices (fs : List XpdevFlag) : ∀ (x : XdmaPciDev) (m : CdevNode),
    (x.withGroups c env fs).devices m = (decide (m ∈ fs.flatMap c.groupNodes) && env.registers m ||
      x.devices m) := by
  induction fs with
  | nil => exact fun x m => by simp [withGroups]
  | cons f fs ih =>
    intro x m
    have hnodes := withNodes_devices env (c.groupNodes f) x m
    rw [withGroups_cons, ih, List.flatMap_cons]
    change (_ || (x.withNodes env (c.groupNodes f)).devices m) = _
    rw [hnodes]
    by_cases hm : m ∈ fs.flatMap c.groupNodes <;> by_cases hg : m ∈ c.groupNodes f <;>
      cases env.registers m <;> simp [hm, hg]

theorem mem_destroyList_all (c : XpdevConf) (env : CdevEnv) (n : CdevNode) :
    n ∈ (({} : XdmaPciDev).withGroups c env c.createOrder).destroyList c ↔ n ∈ c.nodes := by
  constructor
  · intro hn
    have hlive := (List.mem_filter.mp hn).2
    rw [withGroups_live] at hlive
    exact of_decide_eq_true hlive
  · intro hn
    obtain ⟨hf, hgroup⟩ := group_of_mem_nodes hn
    rw [mem_destroyList hgroup, withGroups_flags, withGroups_live]
    exact ⟨by simp [hf], decide_eq_true hn⟩

theorem probeRemove_created {x : XdmaPciDev} (h : probeOne c env = (x, 0)) :
    probeRemove c env = x.without (x.destroyList c) := by
  rw [probeRemove, h]
  exact xpdevDestroyInterfaces_eq c x

theorem probeOne_succeeds
    (heq : createGroups c env c.createOrder {} = (({} : XdmaPciDev).withGroups c env c.createOrder, 0)) :
    (probeOne c env).2 = 0 ∧ (∀ n, (probeOne c env).1.devices n = (decide (n ∈ c.nodes) && env.registers n)) ∧
      Leaves (probeOne c env).1.log (fun r => ∃ n ∈ c.nodes, r ∈ n.resources env.registers) ∧
      Leaves (probeRemove c env).log fun _ => False := by
  have hprobe : probeOne c env = (({} : XdmaPciDev).withGroups c env c.createOrder, 0) := by
    simp [probeOne, xpdevCreateInterfaces, heq]
  have hdevices : ∀ n, (({} : XdmaPciDev).withGroups c env c.createOrder).devices n =
      (decide (n ∈ c.nodes) && env.registers n) := by
    intro n
    rw [withGroups_devices, Bool.or_false]
    rfl
  have hlog : (({} : XdmaPciDev).withGroups c env c.createOrder).log =
      c.nodes.flatMap (CdevNode.created env.registers) := by
    rw [withGroups_log]
    rfl
  have hheld : Leaves (c.nodes.flatMap (CdevNode.created env.registers))
      (fun r => ∃ n ∈ c.nodes, r ∈ n.resources env.registers) := by
    rw [CdevNode.created_eq]
    refine (Leaves.nil.acquires (CdevNode.resources_nodup _ c.nodes_nodup).1 (by simp)).congr fun r => ?_
    rw [List.mem_flatMap, or_false]
  generalize hl : (({} : XdmaPciDev).withGroups c env c.createOrder).destroyList c = ns
  have hmem (n : CdevNode) : n ∈ ns ↔ n ∈ c.nodes := by
    rw [← hl]
    exact mem_destroyList_all c env n
  have hremove : (probeRemove c env).log = c.nodes.flatMap (CdevNode.created env.registers) ++
      ns.flatMap (CdevNode.destroyed env.registers) := by
    have hsame : ns.flatMap (CdevNode.destroyed (({} : XdmaPciDev).withGroups c env c.createOrder).devices) =
        ns.flatMap (CdevNode.destroyed env.registers) := by
      refine List.flatMap_congr fun n hn => ?_
      simp only [CdevNode.destroyed, CdevNode.resources, hdevices,
        decide_eq_true ((hmem n).mp hn), Bool.true_and]
    rw [probeRemove_created hprobe, hl, ← hlog, ← hsame]
    rfl
  refine ⟨by rw [hprobe], fun n => by rw [hprobe, hdevices], ?_, ?_⟩
  · rw [hprobe, hlog]
    exact hheld
  · have hnd := (CdevNode.resources_nodup env.registers
      (hl ▸ destroyList_nodup c (({} : XdmaPciDev).withGroups c env c.createOrder))).2
    have hall (r : NodeRes) : (r ∈ ns.flatMap fun n => (n.resources env.registers).reverse) ↔
        ∃ n ∈ c.nodes, r ∈ n.resources env.registers := by
      simp only [List.mem_flatMap, List.mem_reverse, hmem]
    rw [hremove, CdevNode.destroyed_eq]
    refine (hheld.releases hnd fun r hr => (hall r).mp hr).congr fun r => ?_
    rw [hall]
    simp

theorem probeOne_fails (h : (createGroups c env c.createOrder {}).2 < 0) {x : XdmaPciDev}
    (hx : (createGroups c env c.createOrder {}).1 = x) : (probeOne c env).2 = -1 ∧
    (probeRemove c env).log = x.log ++ (x.destroyList c).flatMap (CdevNode.destroyed x.devices) ++
      (x.destroyList c).flatMap (CdevNode.destroyed fun n =>
        x.devices n && !decide (n ∈ x.destroyList c)) := by
  have hcreate : xpdevCreateInterfaces c env {} = (x.xpdevDestroyInterfaces c, -1) := by
    rw [xpdevCreateInterfaces, ← hx]
    exact if_pos h
  have hprobe : probeOne c env = ((x.xpdevDestroyInterfaces c).xpdevFree c, -1) := by
    rw [probeOne, hcreate]
    rfl
  refine ⟨by rw [hprobe], ?_⟩
  rw [probeRemove, hprobe]
  change ((x.xpdevDestroyInterfaces c).xpdevFree c).log = _
  rw [xpdevFree, xpdevDestroyInterfaces_eq, xpdevDestroyInterfaces_eq]
  rfl

/-- A removal after a probe gives back every character device, and the class devices of those that
`device_create` made one for. A probe that fails at the device `n` deletes those of the groups
before twice, and those before in the group of `n` never. -/
theorem probeOne_nodes (c : XpdevConf) (env : CdevEnv) :
    ((∀ n ∈ c.nodes, env.fails n = false) ∧ (probeOne c env).2 = 0 ∧
        (∀ n, (probeOne c env).1.devices n = (decide (n ∈ c.nodes) && env.registers n)) ∧
        Leaves (probeOne c env).1.log (fun r => ∃ n ∈ c.nodes, r ∈ n.resources env.registers) ∧
        Leaves (probeRemove c env).log fun _ => False) ∨
      ∃ pre n post, c.nodes = pre ++ n :: post ∧ (∀ m ∈ pre, env.fails m = false) ∧ env.fails n = true ∧
        (probeOne c env).2 = -1 ∧ ((Leaves (probeRemove c env).log fun _ => False) ↔ pre = []) ∧
        ∀ m ∈ pre, (probeRemove c env).log.count (.acquire (.cdev m)) = 1 ∧
          (probeRemove c env).log.count (.release (.cdev m)) = if m.flag = n.flag then 0 else 2 := by
  rcases createOrder_spec c env with ⟨hall, heq⟩ | ⟨hrv, done, pre, n, hstop⟩
  · exact .inl ⟨hall, probeOne_succeeds heq⟩
  · obtain ⟨⟨post, hnodes⟩, hflags, hlive, hnflag, hpre, hlog⟩ := hstop.created
    obtain ⟨hfail, hfree⟩ := probeOne_fails hrv rfl
    generalize (createGroups c env c.createOrder {}).1 = x at hstop hflags hlive hlog hfree
    have hnd := c.nodes_nodup
    rw [hnodes] at hnd
    have hcounts : ∀ m ∈ done.flatMap c.groupNodes ++ pre,
      (probeRemove c env).log.count (.acquire (.cdev m)) = 1 ∧
        (probeRemove c env).log.count (.release (.cdev m)) = if m.flag = n.flag then 0 else 2 := by
      intro m hm
      have hmn : n ≠ m := fun h => List.disjoint_of_nodup_append hnd hm (h ▸ List.mem_cons_self)
      have hone : (done.flatMap c.groupNodes ++ pre).count m = 1 :=
        List.count_eq_one_of_mem (List.nodup_append.mp hnd).1 hm
      have hcreated : x.log.count (.acquire (.cdev m)) = 1 ∧
          x.log.count (.release (.cdev m)) = 0 := by
        obtain ⟨ha, hr⟩ := CdevNode.count_created env.registers (done.flatMap c.groupNodes ++ pre) m
        rcases hlog with hlog | hlog
        · rw [hlog]
          exact ⟨ha.trans hone, hr⟩
        · rw [hlog, List.count_append, List.count_append, ha, hr, hone]
          simp [hmn]
      have hgroup : m ∈ c.group m.flag := by
        have hmem : m ∈ c.nodes := by
          rw [hnodes]
          exact List.mem_append_left _ hm
        exact (group_of_mem_nodes hmem).2
      have hdestroy : (x.destroyList c).count m =
          if m.flag = n.flag then 0 else 1 := by
        have hmem := mem_destroyList (x := x) hgroup
        rw [hflags, hlive, decide_eq_true_eq, decide_eq_true_eq, and_iff_left hm] at hmem
        split
        · rename_i hflag
          refine List.count_eq_zero.mpr fun h => hnflag ?_
          rw [← hflag]
          exact hmem.mp h
        · rename_i hflag
          refine List.count_eq_one_of_mem (destroyList_nodup c _) (hmem.mpr ?_)
          rcases List.mem_append.mp hm with hd | hp
          · exact (group_of_mem_nodes hd).1
          · exact absurd (hpre m hp) hflag
      have hcount (registered : CdevNode → Bool) :=
        CdevNode.count_destroyed registered (x.destroyList c) m
      rw [hfree]
      simp only [List.count_append, (hcount _).1, (hcount _).2, hcreated.1, hcreated.2, hdestroy]
      refine ⟨trivial, ?_⟩
      split <;> rfl
    refine .inr ⟨_, n, post, hnodes, hstop.before, hstop.fails, hfail,
      ⟨fun hleaves => ?_, fun hnil => ?_⟩, hcounts⟩
    · refine List.eq_nil_iff_forall_not_mem.mpr fun m hm => ?_
      have hbalance := hleaves.count (r := .cdev m) id
      rw [(hcounts m hm).1, (hcounts m hm).2] at hbalance
      split at hbalance <;> omega
    · have hempty : x.destroyList c = [] := by
        refine List.eq_nil_iff_forall_not_mem.mpr fun m hm => ?_
        have hl := (List.mem_filter.mp hm).2
        rw [hlive, hnil] at hl
        exact absurd (of_decide_eq_true hl) List.not_mem_nil
      rw [hfree, hempty]
      simp only [List.flatMap_nil, List.append_nil]
      rw [hnil] at hlog
      rcases hlog with hlog | hlog
      · rw [hlog]
        exact Leaves.nil
      · rw [hlog]
        have htried : Leaves ([] ++ [Op.acquire (NodeRes.cdev n)]) (· = NodeRes.cdev n) :=
          Leaves.nil.acquire (by simp) (by simp)
        exact htried.release rfl (by simp)

end XdmaPciDev

end XdmaDriver
