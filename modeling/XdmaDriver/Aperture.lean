import XdmaDriver.Submit

/-!
`xdma_xfer_aperture`: the chain is built straight from the scatter list, and the
device address stays inside a window of `aperture` bytes.
-/

namespace XdmaDriver

open Drv

structure ApertureBuild where
  desc : ℕ → XdmaDesc
  descIdx : ℕ
  sgOffset : U32
  offset : U32
  len : U32 := 0
  epAddr : U64

/-- The constants of a call: `req->ep_addr`, `ep_addr_max`, `maxlen`. -/
structure ApertureWindow where
  base : U64
  last : U64
  maxlen : U32

def apertureWindow (p : Params) (epAddr : U64) (aperture : U32) : ApertureWindow where
  base := epAddr
  last := epAddr + aperture.setWidth 64 - 1
  maxlen := if aperture < BitVec.ofNat 32 p.descBlenMax then aperture else BitVec.ofNat 32 p.descBlenMax

def apertureDesc (w : ApertureWindow) (dir : DmaDir) (addr : U64) (tlen : U32) (b : ApertureBuild) :
    ApertureBuild × U32 :=
  let len := if tlen < w.maxlen then tlen else w.maxlen
  let epAddr := if w.last < b.epAddr then w.base else b.epAddr
  let len := if w.last < epAddr + len.setWidth 64 then (w.last - epAddr + 1).setWidth 32 else len
  ({ desc := Function.update b.desc b.descIdx (xdmaDescSet (b.desc b.descIdx) addr epAddr len dir)
     descIdx := b.descIdx + 1
     sgOffset := b.sgOffset + len
     offset := b.offset + len
     len := b.len + len
     epAddr := epAddr + len.setWidth 64 }, len)

/-- The inner loop over one scatter entry; the result has the `tlen` left. The
fuel is the number of ring slots left. -/
def apertureEntry (w : ApertureWindow) (dir : DmaDir) : ℕ → U64 → U32 → ApertureBuild → ApertureBuild × U32
  | 0, _, tlen, b => (b, tlen)
  | fuel + 1, addr, tlen, b =>
    if tlen = 0 then (b, 0)
    else
      let (b, len) := apertureDesc w dir addr tlen b
      apertureEntry w dir fuel (addr + len.setWidth 64) (tlen - len) b

/-- The loop over the scatter entries from `req->sg` on, with the counter `i`. -/
def apertureEntries (w : ApertureWindow) (dir : DmaDir) (sgMax descMax : ℕ) :
    List SgEntry → ℕ → ApertureBuild → ApertureBuild × ℕ
  | [], i, b => (b, i)
  | sg :: sgs, i, b =>
    if i < sgMax ∧ b.descIdx < descMax then
      let (b, tlen) := apertureEntry w dir (descMax - b.descIdx)
        (sg.dmaAddress + b.sgOffset.setWidth 64) (sg.dmaLen - b.sgOffset) b
      if tlen = 0 then apertureEntries w dir sgMax descMax sgs (i + 1) { b with sgOffset := 0 }
      else (b, i)
    else (b, i)

/-- The links, control words and adjacent counts of a chain of `n` descriptors. -/
def apertureLink (e : XdmaEngine) (desc : ℕ → XdmaDesc) (i n : ℕ) : ℕ → XdmaDesc :=
  let desc := updateSlots desc i n fun j d =>
    if j + 1 < i + n then
      { d with
        nextLo := pciDmaL (e.descBusAt (j + 1)), nextHi := pciDmaH (e.descBusAt (j + 1))
        control := descMagic }
    else
      { d with
        nextLo := 0, nextHi := 0
        control := descMagic ||| xdmaDescStopped ||| xdmaDescEop ||| xdmaDescCompleted }
  updateSlots desc i n fun j d =>
    xdmaDescAdjacent d (BitVec.ofNat 32 (xdmaGetNextAdj (n - (j - i) - 1) d.nextLo))

namespace XferCall

variable (p : Params) (own : ℕ)

/-- Build one chain; `none` when it has no descriptor, where the linking loop runs
to `desc_cnt - 1` in unsigned arithmetic. -/
def apertureChain (dmaMapped : Bool) (dump : DumpRegs) (c : XferCall) : Option (XferCall × ChainTrace) :=
  let e := c.drv.eng
  let w := apertureWindow p c.req.epAddr c.req.aperture
  let (b, i) := apertureEntries w e.dir c.sgt.nents e.descMax c.sgt.entries c.req.sgIdx
    { desc := e.desc
      descIdx := e.descIdx
      sgOffset := c.req.sgOffset
      offset := c.req.offset
      epAddr := c.req.epAddr + (c.req.offset &&& (c.req.aperture - 1)).setWidth 64 }
  let n := b.descIdx - e.descIdx
  if n = 0 then none
  else
    let xfer : XdmaTransfer :=
      { dir := e.dir
        descIndex := e.descIdx
        len := b.len
        descAdjacent := n
        descNum := n
        descCmplTh := n
        needUnmap := !dmaMapped
        lastInRequest := b.offset = c.req.totalLen }
    let drv := { c.drv with
      eng := { e with
        desc := apertureLink e b.desc e.descIdx n
        descIdx := (e.descIdx + n) % e.descMax
        descUsed := e.descUsed + n }
      tfer := Function.update c.drv.tfer ⟨own, 0⟩ xfer }
    let req := { c.req with offset := b.offset, sgOffset := b.sgOffset, sgIdx := i }
    some ({ c with drv := drv, req := req }, { before := c.drv, req := c.req, built := drv, dump := dump })

def apertureDone (c : XferCall) (x : XdmaTransfer) : XferCall :=
  if x.state = .completed then { c with done := c.done + x.len.toNat } else c

def apertureLoop (dmaMapped : Bool) : List ChainEnv → XferCall → XferCall × CallEnd :=
  chainLoop (fun c => c.req.offset < c.req.totalLen) fun env c =>
    (c.apertureChain p own dmaMapped env.dump).map fun (c, tr) =>
      c.queueAndWait p own apertureDone env tr

end XferCall

open XferCall in
def xdmaXferAperture (p : Params) (own : ℕ) (write : Bool) (epAddr : U64) (aperture : U32)
    (sgt : SgTable) (dmaMapped : Bool) (mapped : List SgEntry) (oom : Bool) (envs : List ChainEnv)
    (s : Drv) : XferResult :=
  if s.offline then { drv := s, outcome := .returned (err .busy) }
  else if s.eng.dir ≠ (if write then .toDevice else .fromDevice) then
    { drv := s, outcome := .returned (err .inval) }
  else if s.eng.streaming then { drv := s, outcome := .returned (err .inval) }
  else
    let sgt := mapSgt sgt dmaMapped mapped
    if sgt.nents = 0 then { drv := s, outcome := .returned (err .io) }
    else if oom then
      { drv := s
        outcome := .returned (err .noMem)
        unmaps := if dmaMapped then [] else [sgt.origNents] }
    else
      let req : XdmaRequestCb :=
        { epAddr := epAddr
          aperture := aperture
          totalLen := (sgt.entries.map SgEntry.dmaLen).sum }
      let (c, outcome) := apertureLoop p own dmaMapped envs { drv := s, req := req, sgt := sgt }
      c.leave dmaMapped outcome

end XdmaDriver
