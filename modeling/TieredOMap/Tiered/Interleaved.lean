import TieredOMap.Tiered.State

/-!
# Interleaved access

`TieredOMap::interleaved_access`: the search in one tier and the dummy in the
other run as step machines, one round at a time; the data ORAM joins the
batched rounds once a reference is known. Each round is the sequence of the
steps below, in the order of the source's loop body. The loop is run with fuel;
running out of it is the error `outOfFuel`, which no run of the source throws.
-/

namespace TieredOmap

/-- `DStep`: progress of one operation on the data ORAM. -/
inductive DStep where
  | idle
  | needRead
  | needWrite
  | done
deriving DecidableEq, Repr, Inhabited

/-- One operation on the data ORAM: its block, the path it reads and the block's new leaf. -/
structure DataOp where
  st : DStep := .idle
  blk : Int := invalidBlock
  leaf : Int := -1
  newLeaf : Int := -1
deriving DecidableEq, Repr, Inhabited

/-- What an interleaved access was asked to do. -/
structure Query where
  key : Int
  newValue : Option Bytes
  usePartialDummy : Bool := false
  epochMode : Bool := false
  scanKey : Int := invalidKey
  hotInsertKey : Int := invalidKey
  coldInsertKey : Int := invalidKey
  hotDummyPb : Bool := false
  coldDummyPb : Bool := false
deriving DecidableEq, Repr, Inhabited

/-- The variables of the round loop. -/
structure Rounds (Ω : Tier → Type) where
  s : TieredOMap Ω
  searcher : Tier
  data : DataOp := {}
  ddummy : DataOp := {}
  scanData : DataOp := {}
  searcherDone : Bool := false
  decisionTriggered : Bool := false
  decisionPending : Bool := false
  scanDecisionTriggered : Bool := false
  searcherRef : Bytes := []
  computedFp : Int := 0
  result : AccessResult := {}

/-- Which parties take part in the current round. -/
structure RoundPlan where
  searcherActive : Bool
  dummyActive : Bool
  dataRead : Bool
  dummyRead : Bool
  scanRead : Bool
deriving DecidableEq, Repr

namespace Query

/-- The scan runs as a piggyback on the hot map. -/
def scanOnPiggyback (q : Query) : Bool := q.scanKey != invalidKey

end Query

namespace Rounds

variable {Ω : Tier → Type} [∀ tier, OmapInterface (Ω tier)] [Cipher]

/-- Apply a pure operation to the map of a tier. -/
def modifyOmap (r : Rounds Ω) (tier : Tier) (f : Ω tier → Ω tier) : Rounds Ω :=
  { r with s := r.s.setOmap tier (f (r.s.omap tier)) }

/-- Run an operation on the map of a tier. -/
def onOmap (r : Rounds Ω) (tier : Tier) (operation : Ω tier → Rand (Ω tier)) : Rand (Rounds Ω) := do
  let s ← r.s.onTier tier operation
  return { r with s }

/-- The dummy side's tier. -/
def dummy (r : Rounds Ω) : Tier := r.searcher.other

/-- Start the step machines and the piggybacks. -/
def begin_ (s : TieredOMap Ω) (q : Query) : Rand (Rounds Ω) := do
  let isHotPhysical : Bool := q.key ∈ s.physHotKeys
  let searcher : Tier := if isHotPhysical then .hot else .cold
  let r : Rounds Ω := { s, searcher, result := { foundInHot := q.key ∈ s.hotKeys } }
  let r := r.modifyOmap searcher (fun omap => OmapInterface.beginStepSearch omap q.key none)
  -- a piggybacked scan needs a full operation on the hot map
  let fullDummy := (q.scanOnPiggyback && !isHotPhysical) || !q.usePartialDummy
  let r := r.modifyOmap searcher.other
    (if fullDummy then OmapInterface.beginStepDummy else OmapInterface.beginStepPartialDummy)
  let r := if q.scanOnPiggyback then
      (r.modifyOmap .hot (fun omap => OmapInterface.beginPiggybackSearch omap q.scanKey)).modifyOmap
        .hot (fun omap => OmapInterface.setPiggybackDecisionEnabled omap true)
    else r
  let r ← doWhen (q.hotInsertKey != invalidKey && (isHotPhysical || !q.usePartialDummy))
    (r.onOmap .hot (fun omap =>
      OmapInterface.beginPiggybackInsert omap q.hotInsertKey s.pendingInsertRef)) r
  let r ← doWhen (q.coldInsertKey != invalidKey && (!isHotPhysical || !q.usePartialDummy))
    (r.onOmap .cold (fun omap =>
      OmapInterface.beginPiggybackInsert omap q.coldInsertKey s.pendingInsertRef)) r
  let r := if q.epochMode && !isHotPhysical then
      r.modifyOmap searcher (fun omap => OmapInterface.setStepDecisionEnabled omap true)
    else r
  let r := if q.hotDummyPb && q.hotInsertKey == invalidKey &&
      (isHotPhysical || !q.usePartialDummy) then
      r.modifyOmap .hot OmapInterface.beginPiggybackDummy
    else r
  let r := if q.coldDummyPb && q.coldInsertKey == invalidKey &&
      (!isHotPhysical || !q.usePartialDummy) then
      r.modifyOmap .cold OmapInterface.beginPiggybackDummy
    else r
  return { r with
    ddummy := { st := if q.usePartialDummy then .done else .idle }
    scanData := { st := if q.scanOnPiggyback then .idle else .done } }

/-- Both machines and all data operations are done. -/
def finished (r : Rounds Ω) : Bool :=
  OmapInterface.stepDone (r.s.omap r.searcher) && OmapInterface.stepDone (r.s.omap r.dummy) &&
    r.data.st == .done && r.ddummy.st == .done && r.scanData.st == .done

/-- The parties of the next round. -/
def plan (r : Rounds Ω) : RoundPlan where
  searcherActive := !OmapInterface.stepDone (r.s.omap r.searcher)
  dummyActive := !OmapInterface.stepDone (r.s.omap r.dummy)
  dataRead := r.data.st == .needRead
  dummyRead := r.ddummy.st == .needRead
  scanRead := r.scanData.st == .needRead

/-- The read requests of one step machine. -/
def nextRound (r : Rounds Ω) (tier : Tier) (active : Bool) :
    Rand (List StepReadReq × Rounds Ω) :=
  if active then do
    let (reads, omap) ← OmapInterface.stepNextRound (r.s.omap tier)
    return (reads, { r with s := r.s.setOmap tier omap })
  else return ([], r)

/-- Hand a step machine the server's answers. -/
def applyReads (r : Rounds Ω) (tier : Tier) (reads : List StepReadReq) : Rounds Ω :=
  if reads.isEmpty then r
  else r.modifyOmap tier (fun omap =>
    OmapInterface.stepApplyReads omap (reads.map (OmapInterface.readStore omap)))

/-- Move a fetched data path to the stash. -/
def applyData (r : Rounds Ω) (op : DataOp) (reading : Bool) (server : BinaryTreeStorage) :
    Rounds Ω :=
  if reading then
    { r with s := { r.s with dataOram := r.s.dataOram.applyFetchedPath (server.readPath op.leaf) } }
  else r

/-- The batch read of one round. -/
def fetch (r : Rounds Ω) (p : RoundPlan) : Rand (Rounds Ω) := do
  let (searcherReads, r) ← r.nextRound r.searcher p.searcherActive
  let (dummyReads, r) ← r.nextRound r.dummy p.dummyActive
  let dataId := r.s.dataOram.storage.storeId
  let dataReads := [p.dataRead, p.dummyRead, p.scanRead].flatMap
    (fun reading => if reading then [dataId] else [])
  send (.batchRead ((searcherReads ++ dummyReads).map StepReadReq.storeId ++ dataReads))
  let r := (r.applyReads r.searcher searcherReads).applyReads r.dummy dummyReads
  let server := r.s.dataOram.storage
  return ((r.applyData r.data p.dataRead server).applyData r.ddummy p.dummyRead server).applyData
    r.scanData p.scanRead server

/-- Let the active machines process what they read. -/
def process (r : Rounds Ω) (p : RoundPlan) : Rand (Rounds Ω) := do
  let r ← doWhen p.searcherActive (r.onOmap r.searcher OmapInterface.stepProcess) r
  doWhen p.dummyActive (r.onOmap r.dummy OmapInterface.stepProcess) r

/-- Update the block of the main query in the stash and compute the answer. -/
def rewriteBlock (r : Rounds Ω) (q : Query) : Rand (Rounds Ω) := do
  let (block, dataOram) ← r.s.dataOram.extractFromStash r.data.blk
  let restamp := q.epochMode && r.s.maint.isSome
  let (val, epochMeta) := decodeEpoch block.value
  let updated := r.s.mgr.updateMeta epochMeta
  let value := q.newValue.getD (if restamp then val else block.value)
  let stored := if restamp then encodeWithEpoch value updated else value
  let s : TieredOMap Ω := { r.s with
    dataOram := dataOram.addToStash { key := r.data.blk, leaf := r.data.newLeaf, value := stored } }
  let s := if restamp && decide (q.key ∈ s.cacheKeys) then
      s.withMgr (fun maint => maint.updateCacheFp q.key updated.fp)
    else s
  return { r with
    s := s
    computedFp := if restamp then updated.fp else r.computedFp
    result := { r.result with value := value } }

/-- A paused cold searcher removes the key if it is promoted, else it does nothing. -/
def decidePromotion (r : Rounds Ω) : Rand (Rounds Ω) := do
  let shouldProm := 0 < r.computedFp && r.s.maint.isSome && r.s.mgr.swapState == .idle &&
    r.s.mgr.shouldPromote r.computedFp
  let r ← r.onOmap r.searcher
    (if shouldProm then OmapInterface.stepCommitRemove else OmapInterface.stepCommitNoop)
  return { r with
    decisionPending := false
    result := { r.result with
      coldDecisionHandled := true
      coldPromotionDone := r.result.coldPromotionDone || shouldProm } }

/-- The main query's data read has arrived. -/
def finishDataRead (r : Rounds Ω) (q : Query) (p : RoundPlan) : Rand (Rounds Ω) :=
  if p.dataRead then do
    let r ← doWhen (r.data.blk != invalidBlock) (r.rewriteBlock q) r
    let r := { r with data := { r.data with st := .needWrite } }
    doWhen r.decisionPending r.decidePromotion r
  else return r

/-- The dummy data read has arrived. -/
def finishDummyRead (r : Rounds Ω) (p : RoundPlan) : Rounds Ω :=
  if p.dummyRead then { r with ddummy := { r.ddummy with st := .needWrite } } else r

/-- The scanned key is demoted if it is colder than the hottest cache entry. -/
def decideDemotion (r : Rounds Ω) (q : Query) : Rand (Rounds Ω) := do
  let (block, dataOram) ← r.s.dataOram.extractFromStash r.scanData.blk
  let r := { r with s := { r.s with dataOram } }
  let deciding := q.epochMode && r.s.maint.isSome
  let fp := (decodeEpoch block.value).2.fp
  let shouldDemote := deciding && r.s.mgr.shouldDemoteCache fp
  let r ← r.onOmap .hot (if shouldDemote then OmapInterface.piggybackCommitRemove
    else OmapInterface.piggybackCommitNoop)
  let block : Block := { key := r.scanData.blk, leaf := r.scanData.newLeaf, value := block.value }
  return { r with
    s := { r.s with dataOram := r.s.dataOram.addToStash block }
    result := { r.result with
      scanDemoted := r.result.scanDemoted || shouldDemote
      scanFp := if shouldDemote then fp else r.result.scanFp
      scanDecisionHandled := r.result.scanDecisionHandled || deciding } }

/-- The scan's data read has arrived. -/
def finishScanRead (r : Rounds Ω) (q : Query) (p : RoundPlan) : Rand (Rounds Ω) :=
  if p.scanRead then do
    let r ← doWhen (r.scanData.blk != invalidBlock) (r.decideDemotion q) r
    return { r with scanData := { r.scanData with st := .needWrite } }
  else return r

/-- Schedule a data read for a reference: its own path under a new leaf, or a random path. -/
def scheduleRead (s : TieredOMap Ω) (ref : Bytes) (op : DataOp) :
    Rand (DataOp × TieredOMap Ω) := do
  let blk := refToBlk ref
  let leaf ← s.dataOram.randomLeaf
  if blk ≠ invalidBlock then
    return ({ st := .needRead, blk := blk, leaf := s.dataOram.getLeaf blk, newLeaf := leaf },
      { s with dataOram := s.dataOram.setLeaf blk leaf })
  else return ({ op with st := .needRead, blk := blk, leaf := leaf }, s)

/-- The cold searcher has paused for a decision. -/
def triggerDecision (r : Rounds Ω) (q : Query) : Rand (Rounds Ω) :=
  if !r.decisionTriggered && !r.searcherDone && q.epochMode && r.searcher == .cold &&
      OmapInterface.stepNeedsDecision (r.s.omap r.searcher) then do
    let ref := OmapInterface.stepGetTraverseResult (r.s.omap r.searcher)
    let (data, s) ← scheduleRead r.s ref r.data
    return { r with s, data, searcherRef := ref, decisionTriggered := true, decisionPending := true }
  else return r

/-- The piggybacked scan has paused for a decision. -/
def triggerScanDecision (r : Rounds Ω) (q : Query) : Rand (Rounds Ω) :=
  if !r.scanDecisionTriggered && q.scanOnPiggyback &&
      OmapInterface.piggybackNeedsDecision (r.s.omap .hot) then do
    let ref := OmapInterface.piggybackGetTraverseResult (r.s.omap .hot)
    let (scanData, s) ← scheduleRead r.s ref r.scanData
    return { r with s, scanData, scanDecisionTriggered := true }
  else return r

/-- The searcher has just finished. -/
def finishSearcher (r : Rounds Ω) : Rand (Rounds Ω) :=
  if !r.searcherDone && OmapInterface.stepDone (r.s.omap r.searcher) then
    if r.decisionTriggered then return { r with searcherDone := true }
    else do
      let ref := OmapInterface.stepFinish (r.s.omap r.searcher)
      let (data, s) ← scheduleRead r.s ref r.data
      return { r with s, data, searcherRef := ref, searcherDone := true }
  else return r

/-- The write requests of one step machine. -/
def prepareWrites (r : Rounds Ω) (tier : Tier) (active : Bool) :
    Rand (List StepWriteReq × Rounds Ω) :=
  if active then do
    let (writes, omap) ← OmapInterface.stepPrepareWrites (r.s.omap tier)
    return (writes, { r with s := r.s.setOmap tier omap })
  else return ([], r)

/-- Evict a data operation's path, if it is due. -/
def evictData (r : Rounds Ω) (op : DataOp) : Rand (List PathData × Rounds Ω) :=
  if op.st = .needWrite then do
    let (path, dataOram) ← r.s.dataOram.prepareEviction op.leaf
    return ([path], { r with s := { r.s with dataOram } })
  else return ([], r)

/-- Once the main data operation is written, the full-oblivious dummy read is due. -/
def startDummy (r : Rounds Ω) (q : Query) : Rand (Rounds Ω) :=
  if r.data.st = .needWrite then
    let r := { r with data := { r.data with st := .done } }
    if !q.usePartialDummy && r.ddummy.st == .idle then do
      let leaf ← r.s.dataOram.randomLeaf
      return { r with ddummy := { r.ddummy with st := .needRead, leaf := leaf } }
    else return r
  else return r

/-- The dummy read has been written back. -/
def closeDummy (r : Rounds Ω) : Rounds Ω :=
  if r.ddummy.st = .needWrite then { r with ddummy := { r.ddummy with st := .done } } else r

/-- The scan's read has been written back. -/
def closeScan (r : Rounds Ω) : Rounds Ω :=
  if r.scanData.st = .needWrite then { r with scanData := { r.scanData with st := .done } } else r

/-- The batch write of one round; the server applies the requests in order. -/
def writeBack (r : Rounds Ω) (q : Query) (p : RoundPlan) : Rand (Rounds Ω) := do
  let (searcherWrites, r) ← r.prepareWrites r.searcher p.searcherActive
  let (dummyWrites, r) ← r.prepareWrites r.dummy p.dummyActive
  let (dataPaths, r) ← r.evictData r.data
  let r ← r.startDummy q
  let (dummyPaths, r) ← r.evictData r.ddummy
  let r := r.closeDummy
  let (scanPaths, r) ← r.evictData r.scanData
  let r := r.closeScan
  let paths := dataPaths ++ dummyPaths ++ scanPaths
  send (.batchWrite ((searcherWrites ++ dummyWrites).map StepWriteReq.storeId ++
    paths.map (fun _ => r.s.dataOram.storage.storeId)))
  let r := r.modifyOmap r.searcher (fun omap => searcherWrites.foldl OmapInterface.writeStore omap)
  let r := r.modifyOmap r.dummy (fun omap => dummyWrites.foldl OmapInterface.writeStore omap)
  return { r with s := { r.s with dataOram := paths.foldl PathORAM.writePath r.s.dataOram } }

/-- One iteration of the loop. -/
def round (r : Rounds Ω) (q : Query) : Rand (Rounds Ω) := do
  let p := r.plan
  let r ← r.fetch p
  let r ← r.process p
  let r ← r.finishDataRead q p
  let r := r.finishDummyRead p
  let r ← r.finishScanRead q p
  let r ← r.triggerDecision q
  let r ← r.triggerScanDecision q
  let r ← r.finishSearcher
  r.writeBack q p

/-- The loop. -/
def loop (q : Query) : Nat → Rounds Ω → Rand (Rounds Ω)
  | 0, r => if r.finished then return r else Prog.fail .outOfFuel
  | fuel + 1, r => if r.finished then return r else do
      let r ← r.round q
      loop q fuel r

end Rounds

namespace TieredOMap

variable {Ω : Tier → Type} [∀ tier, OmapInterface (Ω tier)] [Cipher]

/-- `interleaved_access`, with fuel for the round loop. -/
def interleavedAccess (fuel : Nat) (s : TieredOMap Ω) (q : Query) :
    Rand (AccessResult × TieredOMap Ω) := do
  let r ← Rounds.begin_ s q
  let r ← r.loop q fuel
  return ({ r.result with
    coldRef := if r.searcher = .cold then r.searcherRef else []
    scanRef := if q.scanOnPiggyback then OmapInterface.finishPiggyback r.s.hotOmap else []
    hotInsertDone := q.hotInsertKey != invalidKey
    coldInsertDone := q.coldInsertKey != invalidKey
    lastAccessFp := r.computedFp }, r.s)

end TieredOMap

end TieredOmap
