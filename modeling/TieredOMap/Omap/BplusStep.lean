import TieredOMap.Omap.Bplus

/-!
# The step machine of the B+ tree

A search or dummy operation that runs one path access at a time, and a second,
piggybacked operation that shares its rounds. When decisions are enabled, a
traversal that has found its key waits in the phase `decision` until it is told
whether to remove the key.
-/

namespace TieredOmap

/-- The main traversal after a tree leaf: the rest of the level is a dummy sibling. -/
def BPlusStepState.atLeaf (ss : BPlusStepState) (result : Bytes) : BPlusStepState :=
  { ss with
    result
    leafReached := true
    siblingIsDummy := true
    phase := .traverseSibling }

/-- The main traversal after an internal node, which is the local node `localIdx`. -/
def BPlusStepState.atInternal (ss : BPlusStepState) (node : BPlusNode) (localIdx : Nat) :
    BPlusStepState :=
  let idx := node.findChildIndex ss.key
  let ss := { ss with
    phase := .traverseSibling
    nextId := node.childIds.getD idx invalidKey
    nextLeaf := node.childLeaves.getD idx invalidLeaf }
  match node.siblingIdx idx with
  | some sibIdx =>
      { ss with
        siblingIsDummy := false
        sibId := node.childIds.getD sibIdx invalidKey
        sibLeaf := node.childLeaves.getD sibIdx invalidLeaf
        sibParentIdx := localIdx
        sibChildIdx := sibIdx }
  | none => { ss with siblingIsDummy := true }

/-- The main traversal goes down one level. -/
def BPlusStepState.descend (ss : BPlusStepState) : BPlusStepState :=
  { ss with
    curId := ss.nextId
    curLeaf := ss.nextLeaf
    depth := ss.depth + 1
    phase := .traverseTarget }

/-- One dummy round of the main operation. -/
def BPlusStepState.padStep (ss : BPlusStepState) : BPlusStepState :=
  { ss with
    ops := ss.ops + 1
    partialUpperPad := if 0 < ss.partialUpperPad then ss.partialUpperPad - 1 else ss.partialUpperPad
    padRemaining := ss.padRemaining - 1
    phase := if ss.padRemaining - 1 ≤ 0 then .done else .pad }

/-- The piggybacked traversal after a tree leaf. -/
def BPlusPBState.atLeaf (pb : BPlusPBState) (result : Bytes) : BPlusPBState :=
  { pb with
    result
    leafReached := true
    siblingIsDummy := true
    phase := .traverseSibling }

/-- The piggybacked traversal after an internal node; it skips the sibling of a shared node. -/
def BPlusPBState.atInternal (pb : BPlusPBState) (node : BPlusNode) (localIdx : Nat) :
    BPlusPBState :=
  let idx := node.findChildIndex pb.key
  let pb := { pb with
    phase := .traverseSibling
    nextId := node.childIds.getD idx invalidKey
    nextLeaf := node.childLeaves.getD idx invalidLeaf }
  match node.siblingIdx idx with
  | some sibIdx =>
      if pb.nodeInLocal then { pb with siblingIsDummy := true }
      else
        { pb with
          siblingIsDummy := false
          sibId := node.childIds.getD sibIdx invalidKey
          sibLeaf := node.childLeaves.getD sibIdx invalidLeaf
          sibParentIdx := localIdx
          sibChildIdx := sibIdx }
  | none => { pb with siblingIsDummy := true }

/-- The piggybacked traversal goes down one level. -/
def BPlusPBState.descend (pb : BPlusPBState) : BPlusPBState :=
  { pb with
    curId := pb.nextId
    curLeaf := pb.nextLeaf
    depth := pb.depth + 1
    phase := .traverseTarget }

/-- One dummy round of the piggybacked operation. -/
def BPlusPBState.padStep (pb : BPlusPBState) : BPlusPBState :=
  { pb with
    ops := pb.ops + 1
    partialUpperPad := if 0 < pb.partialUpperPad then pb.partialUpperPad - 1 else pb.partialUpperPad
    padRemaining := pb.padRemaining - 1
    phase := if pb.padRemaining - 1 ≤ 0 then .done else .pad }

namespace BPlusOmap

variable [Cipher]

/-! ## Starting an operation -/

/-- What every `begin_step_*` resets. -/
def beginStep (omap : BPlusOmap) (ss : BPlusStepState) : BPlusOmap :=
  { omap.resetOpCounts with local_ := [], siblingCache := [], pb := {}, ss }

/-- `begin_step_search`. -/
def beginStepSearch (omap : BPlusOmap) (key : Int) (update : Option Bytes) : BPlusOmap :=
  let budget := 3 * omap.maxHeight
  omap.beginStep (if omap.rootId = invalidKey then
      { key, update, budget, phase := .pad, padRemaining := budget }
    else { key, update, budget, phase := .traverseTarget, curId := omap.rootId
           curLeaf := omap.rootLeaf })

/-- `begin_step_dummy`. -/
def beginStepDummy (omap : BPlusOmap) : BPlusOmap :=
  let budget := 3 * omap.maxHeight
  omap.beginStep { isDummy := true, budget, phase := .pad, padRemaining := budget
                   partialUpperPad := omap.splitUpperBudget }

/-- `begin_step_partial_dummy`. -/
def beginStepPartialDummy (omap : BPlusOmap) : BPlusOmap :=
  if omap.orams.splitDepth ≤ 0 then omap.beginStepDummy
  else
    let effSplit := min omap.orams.splitDepth (3 * omap.maxHeight)
    omap.beginStep { isDummy := true, budget := effSplit + 1, phase := .pad
                     padRemaining := effSplit + 1, partialUpperPad := effSplit }

/-- A piggybacked operation that only pads. -/
def paddingPiggyback (omap : BPlusOmap) (pb : BPlusPBState) : BPlusPBState :=
  let budget := 3 * omap.maxHeight
  { pb with
    active := true, budget, padRemaining := budget, traverseDone := true
    phase := if budget = 0 then .done else .pad }

/-- A piggybacked operation that starts at the root. -/
def traversingPiggyback (omap : BPlusOmap) (pb : BPlusPBState) : BPlusPBState :=
  { pb with
    active := true, budget := 3 * omap.maxHeight, phase := .traverseTarget
    curId := omap.rootId, curLeaf := omap.rootLeaf }

/-- `begin_piggyback_search`. -/
def beginPiggybackSearch (omap : BPlusOmap) (key : Int) : BPlusOmap :=
  if omap.rootId = invalidKey then { omap with pb := omap.paddingPiggyback { key } }
  else { omap with pb := omap.traversingPiggyback { key } }

/-- `begin_piggyback_insert`. -/
def beginPiggybackInsert (omap : BPlusOmap) (key : Int) (value : Bytes) : Rand BPlusOmap :=
  let pb : BPlusPBState := { key, isInsert := true, insertValue := value }
  if omap.rootId = invalidKey then do
    let id := omap.nextBlockId
    let (leaf, orams) ← omap.orams.assignLeaf (omap.orams.halfForDepth 0) id
    return { omap.pushLocal { id, leaf, node := BPlusNode.singleton omap.indexMode key value
                              parentId := invalidKey, depth := 0 } with
      orams
      nextBlockId := id + 1
      rootId := id
      rootLeaf := leaf
      pb := omap.paddingPiggyback pb }
  else return { omap with pb := omap.traversingPiggyback pb }

/-- `begin_piggyback_dummy`. -/
def beginPiggybackDummy (omap : BPlusOmap) : BPlusOmap :=
  { omap with pb := omap.paddingPiggyback {} }

/-! ## Reads and writes of a round -/

/-- The path of a sibling: any, when there is none to read. -/
def siblingRound (omap : BPlusOmap) (isDummy : Bool) (leaf depth : Int) : Rand RoundPath := do
  let half := omap.orams.halfForDepth depth
  if isDummy then
    let leaf ← omap.orams.randomLeaf half
    return { half, leaf }
  else return { half, leaf }

/-- A padding path: of the upper ORAM while its share is not used up. -/
def padRound (omap : BPlusOmap) (partialUpperPad : Int) : Rand RoundPath :=
  if 0 < partialUpperPad then do
    let leaf ← omap.orams.randomLeaf .upper
    return { half := omap.orams.halfForDepth 0, leaf }
  else do
    let leaf ← omap.orams.randomLeaf .lower
    return { half := omap.orams.halfForDepth omap.orams.splitDepth, leaf }

/-- The path the main operation reads in this round. -/
def mainRound (omap : BPlusOmap) : Rand (Option RoundPath) :=
  let ss := omap.ss
  match ss.phase with
  | .done | .decision => return none
  | .traverseTarget =>
      return some { half := omap.orams.halfForDepth ss.depth, leaf := ss.curLeaf }
  | .traverseSibling => do
      let round ← omap.siblingRound ss.siblingIsDummy ss.sibLeaf (ss.depth + 1)
      return some round
  | .pad => do
      let round ← omap.padRound ss.partialUpperPad
      return some round

/-- The index of the first local node with an id. -/
def localIdx (omap : BPlusOmap) (id : Int) : Option Nat :=
  omap.local_.findIdx? (fun node => node.id == id)

/-- The path the piggybacked operation reads in this round: any, if its node is already local. -/
def piggybackRound (omap : BPlusOmap) : Rand (Option RoundPath × Bool) :=
  let pb := omap.pb
  if !pb.active then return (none, pb.nodeInLocal)
  else match pb.phase with
  | .done | .decision => return (none, pb.nodeInLocal)
  | .traverseTarget =>
      let half := omap.orams.halfForDepth pb.depth
      if (omap.localIdx pb.curId).isSome then do
        let leaf ← omap.orams.randomLeaf half
        return (some { half, leaf }, true)
      else return (some { half, leaf := pb.curLeaf }, false)
  | .traverseSibling => do
      let round ← omap.siblingRound pb.siblingIsDummy pb.sibLeaf (pb.depth + 1)
      return (some round, pb.nodeInLocal)
  | .pad => do
      let round ← omap.padRound pb.partialUpperPad
      return (some round, pb.nodeInLocal)

/-- `step_next_round`. -/
def stepNextRound (omap : BPlusOmap) : Rand (List StepReadReq × BPlusOmap) := do
  let main ← omap.mainRound
  let (piggyback, nodeInLocal) ← omap.piggybackRound
  return (main.toList.map omap.orams.request ++ piggyback.toList.map omap.orams.request,
    { omap with
      ss := { omap.ss with curRound := main }
      pb := { omap.pb with curRound := piggyback, nodeInLocal } })

/-- `step_apply_reads`. -/
def stepApplyReads (omap : BPlusOmap) (results : List PathData) : BPlusOmap :=
  { omap with orams := omap.orams.applyReads omap.ss.curRound omap.pb.curRound results }

/-- `step_prepare_writes`. -/
def stepPrepareWrites (omap : BPlusOmap) : Rand (List StepWriteReq × BPlusOmap) := do
  let (writes, orams) ← omap.orams.prepareWrites omap.ss.curRound omap.pb.curRound
  return (writes, { omap with orams })

/-! ## Processing a round -/

/-- Take a node from the stash; also returns the leaf stored with it. -/
def extractNode (omap : BPlusOmap) (id depth : Int) : Rand (Int × BPlusNode × BPlusOmap) := do
  let half := omap.orams.halfForDepth depth
  let (block, oram) ← (omap.orams.get half).extractFromStash id
  return (block.leaf, BPlusNode.decode block.value, { omap with orams := omap.orams.set half oram })

/-- Replace the state of the main operation. -/
def setSs (omap : BPlusOmap) (ss : BPlusStepState) : BPlusOmap := { omap with ss }

/-- Replace the state of the piggybacked operation. -/
def setPb (omap : BPlusOmap) (pb : BPlusPBState) : BPlusOmap := { omap with pb }

/-- The main operation puts its nodes back and starts padding. -/
def endMain (omap : BPlusOmap) : Rand BPlusOmap := do
  let omap ← omap.reassignAllLeaves
  let omap := omap.flushAllToStash
  let padRemaining := max 0 (omap.ss.budget - omap.ss.ops)
  return omap.setSs { omap.ss with
    padRemaining
    partialUpperPad := if 0 < omap.orams.splitDepth then
        max 0 (omap.splitUpperBudget - omap.upperOpCount)
      else omap.ss.partialUpperPad
    phase := if 0 < padRemaining then .pad else .done }

/-- The main traversal takes its next node. -/
def targetMain (omap : BPlusOmap) : Rand BPlusOmap := do
  let ss := omap.ss
  let (leaf, node, omap) ← omap.extractNode ss.curId ss.depth
  let stored := if node.isLeaf then node.updateValue ss.key ss.update else node
  let localIdx := omap.local_.length
  let omap := (omap.pushLocal
    { id := ss.curId, leaf, node := stored, parentId := omap.lastId, depth := ss.depth }).countOp
      ss.depth
  let ss := { ss with ops := ss.ops + 1 }
  return omap.setSs (if node.isLeaf then
      ss.atLeaf (if (node.findLeafIndex ss.key).isSome then node.lookup ss.key else ss.result)
    else ss.atInternal node localIdx)

/-- The main traversal takes the sibling of a level and goes on or ends. -/
def siblingMain (omap : BPlusOmap) : Rand BPlusOmap := do
  let ss := omap.ss
  let depth := ss.depth + 1
  let omap ← doWhen (!ss.siblingIsDummy) (do
    let (leaf, node, omap) ← omap.extractNode ss.sibId depth
    return omap.pushSibling
      { id := ss.sibId, leaf, node, parentLocalIdx := ss.sibParentIdx
        childIdxInParent := ss.sibChildIdx, depth }) omap
  let ss := { ss with ops := ss.ops + 1 }
  let omap := (omap.countOp depth).setSs ss
  if ss.leafReached || ss.nextId == invalidKey then
    if ss.decisionEnabled && !ss.result.isEmpty then
      return omap.setSs { ss with phase := .decision }
    else omap.endMain
  else return omap.setSs ss.descend

/-- Count one dummy round. -/
def countPad (omap : BPlusOmap) (partialUpperPad : Int) : BPlusOmap :=
  if 0 < partialUpperPad then
    { omap with opCount := omap.opCount + 1, upperOpCount := omap.upperOpCount + 1 }
  else { omap with opCount := omap.opCount + 1, lowerOpCount := omap.lowerOpCount + 1 }

/-- The main operation's part of `step_process`. -/
def processMain (omap : BPlusOmap) : Rand BPlusOmap :=
  match omap.ss.phase with
  | .traverseTarget => omap.targetMain
  | .traverseSibling => omap.siblingMain
  | .pad => return (omap.countPad omap.ss.partialUpperPad).setSs omap.ss.padStep
  | .decision | .done => return omap

/-- The id of the last local node that has the given child, or `INVALID_KEY`. -/
def parentOf (omap : BPlusOmap) (id : Int) : Int :=
  match omap.local_.reverse.find? (fun node => node.node.childIds.contains id) with
  | some node => node.id
  | none => invalidKey

/-- The local index of the piggybacked operation's node, which is fetched unless it is local. -/
def piggybackNode (omap : BPlusOmap) : Rand (Nat × BPlusOmap) :=
  match omap.localIdx omap.pb.curId with
  | some idx => return (idx, omap)
  | none => do
      let pb := omap.pb
      let (leaf, node, omap) ← omap.extractNode pb.curId pb.depth
      return (omap.local_.length, omap.pushLocal
        { id := pb.curId, leaf, node, parentId := omap.parentOf pb.curId, depth := pb.depth })

/-- The piggybacked traversal takes its next node. -/
def targetPiggyback (omap : BPlusOmap) : Rand BPlusOmap := do
  let (idx, omap) ← omap.piggybackNode
  let pb := { omap.pb with ops := omap.pb.ops + 1 }
  let omap := (omap.countOp pb.depth).setPb pb
  let node := (omap.local_.getD idx default).node
  if node.isLeaf then
    if pb.isInsert then do
      let omap ← omap.insertAt idx pb.key pb.insertValue
      return omap.setPb (pb.atLeaf pb.result)
    else
      let found := (node.findLeafIndex pb.key).isSome
      return omap.setPb (pb.atLeaf (if found then node.lookup pb.key else pb.result))
  else return omap.setPb (pb.atInternal node idx)

/-- The piggybacked operation starts padding. -/
def endPiggyback (omap : BPlusOmap) : BPlusOmap :=
  let padRemaining := max 0 (omap.pb.budget - omap.pb.ops)
  omap.setPb { omap.pb with
    padRemaining
    partialUpperPad := if 0 < omap.orams.splitDepth then padRemaining else omap.pb.partialUpperPad
    phase := if 0 < padRemaining then .pad else .done }

/-- The piggybacked traversal takes the sibling of a level and goes on or ends. -/
def siblingPiggyback (omap : BPlusOmap) : Rand BPlusOmap := do
  let pb := omap.pb
  let depth := pb.depth + 1
  let omap ← doWhen (!pb.siblingIsDummy) (do
    let (leaf, node, omap) ← omap.extractNode pb.sibId depth
    return omap.pushSibling
      { id := pb.sibId, leaf, node, parentLocalIdx := pb.sibParentIdx
        childIdxInParent := pb.sibChildIdx, depth }) omap
  let pb := { pb with ops := pb.ops + 1 }
  let omap := (omap.countOp depth).setPb pb
  if pb.leafReached || pb.nextId == invalidKey then
    let pb := { pb with traverseDone := true }
    if pb.decisionEnabled && !pb.result.isEmpty then
      return omap.setPb { pb with phase := .decision }
    else return (omap.setPb pb).endPiggyback
  else return omap.setPb pb.descend

/-- The piggybacked operation's part of `step_process`. -/
def processPiggyback (omap : BPlusOmap) : Rand BPlusOmap :=
  if !omap.pb.active then return omap
  else match omap.pb.phase with
  | .traverseTarget => omap.targetPiggyback
  | .traverseSibling => omap.siblingPiggyback
  | .pad => return (omap.countPad omap.pb.partialUpperPad).setPb omap.pb.padStep
  | .decision | .done => return omap

/-- `step_process`. -/
def stepProcess (omap : BPlusOmap) : Rand BPlusOmap := do
  let omap ← omap.processMain
  omap.processPiggyback

/-- `step_done`. -/
def stepDone (omap : BPlusOmap) : Bool :=
  !(omap.pb.active && omap.pb.phase != .done) && omap.ss.phase == .done

/-! ## Decisions -/

/-- `step_commit_remove`. -/
def stepCommitRemove (omap : BPlusOmap) : Rand BPlusOmap :=
  if omap.ss.phase ≠ .decision then return omap
  else
    let atLeaf := match omap.local_.getLast? with
      | some last => last.node.isLeaf
      | none => false
    let omap := if atLeaf then
        (omap.modifyLastLeaf (fun node => node.eraseEntry omap.ss.key)).handleDeleteUnderflow
      else omap
    omap.endMain

/-- `step_commit_noop`. -/
def stepCommitNoop (omap : BPlusOmap) : Rand BPlusOmap :=
  if omap.ss.phase ≠ .decision then return omap else omap.endMain

/-- The index of the last local tree leaf. -/
def lastLeafIdx (omap : BPlusOmap) : Option Nat :=
  (List.range omap.local_.length).reverse.find? (fun idx =>
    (omap.local_.getD idx default).node.isLeaf)

/-- `piggyback_commit_remove`; the key is erased from the last local tree leaf. -/
def piggybackCommitRemove (omap : BPlusOmap) : Rand BPlusOmap :=
  if omap.pb.phase ≠ .decision then return omap
  else do
    let omap := match omap.lastLeafIdx with
      | some idx =>
          { omap with local_ := omap.local_.modify idx (fun last =>
              { last with node := last.node.eraseEntry omap.pb.key }) }.handleDeleteUnderflow
      | none => omap
    let omap ← omap.reassignAllLeaves
    return omap.flushAllToStash.endPiggyback

/-- `piggyback_commit_noop`. -/
def piggybackCommitNoop (omap : BPlusOmap) : Rand BPlusOmap :=
  if omap.pb.phase ≠ .decision then return omap
  else do
    let omap ← omap.reassignAllLeaves
    return omap.flushAllToStash.endPiggyback

/-! ## The interface -/

/-- The B+ tree in index mode a configuration asks for, with the logarithm taken exactly. -/
def make (config : TieredOMapConfig) (capacity : Int) (isCold : Bool) (hotCount : Int) :
    Rand BPlusOmap :=
  let order := config.bplusOrder.toNat
  if isCold && config.useSplitOram && 0 < hotCount then do
    let splitDepth := max 1 (Nat.log (max order 2) (max hotCount 2).toNat)
    let upperCap : Int := max (((order ^ splitDepth - 1) / max (order - 1) 1 : Nat) : Int) hotCount
    let omap ← newSplit capacity order config.bucketSize splitDepth upperCap
    return omap.setIndexMode true
  else do
    let omap ← new capacity order config.bucketSize
    return omap.setIndexMode true

instance : OmapInterface BPlusOmap where
  make := make
  init := init
  search := search
  insert := insert
  remove := remove
  dummyAccess := dummyAccess
  partialDummyAccess := partialDummyAccess
  supportsInterleaved _ := true
  beginStepSearch := beginStepSearch
  beginStepDummy := beginStepDummy
  beginStepPartialDummy := beginStepPartialDummy
  stepNextRound := stepNextRound
  readStore omap := omap.orams.readStore
  stepApplyReads := stepApplyReads
  stepProcess := stepProcess
  stepPrepareWrites := stepPrepareWrites
  writeStore omap request := { omap with orams := omap.orams.writeStore request }
  stepDone := stepDone
  stepFinish omap := omap.ss.result
  setStepDecisionEnabled omap enable := omap.setSs { omap.ss with decisionEnabled := enable }
  stepNeedsDecision omap := omap.ss.phase == .decision
  stepGetTraverseResult omap := omap.ss.result
  stepCommitRemove := stepCommitRemove
  stepCommitNoop := stepCommitNoop
  setPiggybackDecisionEnabled omap enable := omap.setPb { omap.pb with decisionEnabled := enable }
  beginPiggybackSearch := beginPiggybackSearch
  beginPiggybackInsert := beginPiggybackInsert
  beginPiggybackDummy := beginPiggybackDummy
  finishPiggyback omap := omap.pb.result
  piggybackNeedsDecision omap := omap.pb.active && omap.pb.phase == .decision
  piggybackGetTraverseResult omap := omap.pb.result
  piggybackCommitRemove := piggybackCommitRemove
  piggybackCommitNoop := piggybackCommitNoop

end BPlusOmap

end TieredOmap
