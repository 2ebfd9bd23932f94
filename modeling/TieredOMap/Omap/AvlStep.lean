import TieredOMap.Omap.Avl

/-!
# The step machine of the AVL tree

A search or dummy operation that runs one path access at a time, so that its
rounds can be batched with those of another map, and a second, piggybacked
operation that shares the rounds.
-/

namespace TieredOmap

/-- The main traversal after a node, and whether it has ended. -/
def AVLStepState.advance (ss : AVLStepState) (avl : AVLNodeData) (maxHeight : Int) :
    Bool × AVLStepState :=
  let found : Bool := ss.key == ss.curKey
  let stop : Bool := found || ss.curKey == invalidKey || maxHeight - 1 ≤ ss.depth
  let onLeft : Bool := ss.key < ss.curKey
  let curKey := if stop then ss.curKey else if onLeft then avl.lKey else avl.rKey
  let curLeaf := if stop then ss.curLeaf else if onLeft then avl.lLeaf else avl.rLeaf
  (stop || curKey == invalidKey,
    { ss with
      ops := ss.ops + 1
      depth := ss.depth + 1
      result := if found then avl.data else ss.result
      curKey, curLeaf })

namespace AVLOmap

variable [Cipher]

/-! ## Starting an operation -/

/-- `dummy_split_boundary` of an operation that only pads. -/
def padBoundary (omap : AVLOmap) (budget : Int) : Int :=
  if 0 < omap.orams.splitDepth then min omap.orams.splitDepth budget else budget

/-- What every `begin_step_*` resets. -/
def beginStep (omap : AVLOmap) (ss : AVLStepState) : AVLOmap :=
  { omap.resetOpCounts with local_ := [], pb := {}, ss }

/-- `begin_step_search`. -/
def beginStepSearch (omap : AVLOmap) (key : Int) (update : Option Bytes) : AVLOmap :=
  let budget := 3 * omap.maxHeight
  omap.beginStep (if omap.rootKey = invalidKey then
      { key, update, budget, phase := .pad, padRemaining := budget
        dummySplitBoundary := omap.padBoundary budget }
    else { key, update, budget, phase := .traverse, curKey := omap.rootKey
           curLeaf := omap.rootLeaf })

/-- `begin_step_dummy`. -/
def beginStepDummy (omap : AVLOmap) : AVLOmap :=
  let budget := 3 * omap.maxHeight
  omap.beginStep { isDummy := true, budget, phase := .pad, padRemaining := budget
                   dummySplitBoundary := omap.padBoundary budget }

/-- `begin_step_partial_dummy`. -/
def beginStepPartialDummy (omap : AVLOmap) : AVLOmap :=
  if omap.orams.splitDepth ≤ 0 then omap.beginStepDummy
  else
    let effSplit := min omap.orams.splitDepth (3 * omap.maxHeight)
    omap.beginStep { isDummy := true, budget := effSplit + 1, phase := .pad
                     padRemaining := effSplit + 1, dummySplitBoundary := effSplit }

/-- A piggybacked operation that only pads. -/
def paddingPiggyback (omap : AVLOmap) (pb : AVLPBState) : AVLPBState :=
  let budget := 3 * omap.maxHeight
  { pb with
    active := true, budget, padRemaining := budget, traverseDone := true
    phase := if budget = 0 then .done else .pad
    dummySplitBoundary := omap.padBoundary budget }

/-- A piggybacked operation that starts at the root. -/
def traversingPiggyback (omap : AVLOmap) (pb : AVLPBState) : AVLPBState :=
  { pb with
    active := true, budget := 3 * omap.maxHeight, phase := .traverse
    curKey := omap.rootKey, curLeaf := omap.rootLeaf }

/-- `begin_piggyback_search`. -/
def beginPiggybackSearch (omap : AVLOmap) (key : Int) : AVLOmap :=
  if omap.rootKey = invalidKey then { omap with pb := omap.paddingPiggyback { key } }
  else { omap with pb := omap.traversingPiggyback { key } }

/-- `begin_piggyback_insert`. -/
def beginPiggybackInsert (omap : AVLOmap) (key : Int) (value : Bytes) : Rand AVLOmap :=
  let pb : AVLPBState := { key, isInsert := true, insertValue := value }
  if omap.rootKey = invalidKey then do
    let (leaf, orams) ← omap.orams.assignLeaf (omap.orams.halfForDepth 0) key
    return { omap.pushLocal (newNode key leaf value invalidKey 0) with
      orams
      rootKey := key
      rootLeaf := leaf
      pb := omap.paddingPiggyback pb }
  else return { omap with pb := omap.traversingPiggyback pb }

/-- `begin_piggyback_dummy`. -/
def beginPiggybackDummy (omap : AVLOmap) : AVLOmap :=
  { omap with pb := omap.paddingPiggyback {} }

/-! ## Reads and writes of a round -/

/-- The path the main operation reads in this round. -/
def mainRound (omap : AVLOmap) : Rand (Option RoundPath) :=
  match omap.ss.phase with
  | .done => return none
  | .traverse =>
      return some { half := omap.orams.halfForDepth omap.ss.depth, leaf := omap.ss.curLeaf }
  | .pad => do
      let half := omap.orams.padHalf omap.ss.dummyStep omap.ss.dummySplitBoundary
      let leaf ← omap.orams.randomLeaf half
      return some { half, leaf }

/-- The path the piggybacked operation reads in this round: any, if its node is already local. -/
def piggybackRound (omap : AVLOmap) : Rand (Option RoundPath × Bool) :=
  if !omap.pb.active then return (none, omap.pb.nodeInLocal)
  else match omap.pb.phase with
  | .done => return (none, omap.pb.nodeInLocal)
  | .traverse =>
      let half := omap.orams.halfForDepth omap.pb.depth
      if (omap.localIdx omap.pb.curKey).isSome then do
        let leaf ← omap.orams.randomLeaf half
        return (some { half, leaf }, true)
      else return (some { half, leaf := omap.pb.curLeaf }, false)
  | .pad => do
      let half := omap.orams.padHalf omap.pb.dummyStep omap.pb.dummySplitBoundary
      let leaf ← omap.orams.randomLeaf half
      return (some { half, leaf }, omap.pb.nodeInLocal)

/-- `step_next_round`. -/
def stepNextRound (omap : AVLOmap) : Rand (List StepReadReq × AVLOmap) := do
  let main ← omap.mainRound
  let (piggyback, nodeInLocal) ← omap.piggybackRound
  return (main.toList.map omap.orams.request ++ piggyback.toList.map omap.orams.request,
    { omap with
      ss := { omap.ss with curRound := main }
      pb := { omap.pb with curRound := piggyback, nodeInLocal } })

/-- `step_apply_reads`. -/
def stepApplyReads (omap : AVLOmap) (results : List PathData) : AVLOmap :=
  { omap with orams := omap.orams.applyReads omap.ss.curRound omap.pb.curRound results }

/-- `step_prepare_writes`. -/
def stepPrepareWrites (omap : AVLOmap) : Rand (List StepWriteReq × AVLOmap) := do
  let (writes, orams) ← omap.orams.prepareWrites omap.ss.curRound omap.pb.curRound
  return (writes, { omap with orams })

/-! ## Processing a round -/

/-- Take a node from a stash and decode it. -/
def extractNode (omap : AVLOmap) (key depth : Int) : Rand (Block × AVLNodeData × AVLOmap) := do
  let half := omap.orams.halfForDepth depth
  let (block, oram) ← (omap.orams.get half).extractFromStash key
  let avl ← AVLNodeData.decode block.value
  return (block, avl, { omap with orams := omap.orams.set half oram })

/-- The main operation starts padding. -/
def startPad (omap : AVLOmap) : AVLOmap :=
  let padRemaining := max 0 (omap.ss.budget - omap.ss.ops)
  { omap with ss := { omap.ss with
      padRemaining
      phase := if padRemaining = 0 then .done else .pad
      dummyStep := 0
      dummySplitBoundary := if 0 < omap.orams.splitDepth then
          max 0 (min omap.orams.splitDepth omap.ss.budget - omap.upperOpCount)
        else padRemaining } }

/-- The main traversal takes its next node; an update applies to the node searched for. -/
def fetchMain (omap : AVLOmap) : Rand (AVLNodeData × AVLOmap) := do
  let ss := omap.ss
  let (block, avl, omap) ← omap.extractNode ss.curKey ss.depth
  let stored := if ss.key = ss.curKey then { avl with data := ss.update.getD avl.data } else avl
  return (avl, (omap.pushLocal {
    key := ss.curKey, leaf := block.leaf, avl := stored, parentKey := omap.lastKey
    depth := ss.depth }).countOp ss.depth)

/-- Replace the state of the main operation. -/
def setSs (omap : AVLOmap) (ss : AVLStepState) : AVLOmap := { omap with ss }

/-- The main traversal goes on from a node or ends. -/
def leaveNode (omap : AVLOmap) (avl : AVLNodeData) : Rand AVLOmap :=
  let (ended, ss) := omap.ss.advance avl omap.maxHeight
  if ended then do
    let omap ← (omap.setSs ss).reassignLeaves
    return omap.flushLocalToStash.startPad
  else return omap.setSs ss

/-- One level of the main traversal. -/
def traverseMain (omap : AVLOmap) : Rand AVLOmap := do
  let (avl, omap) ← omap.fetchMain
  omap.leaveNode avl

/-- One dummy round of the main operation. -/
def padMain (omap : AVLOmap) : AVLOmap :=
  let ss := omap.ss
  let omap := if 0 < omap.orams.splitDepth then
      if ss.dummyStep + 1 ≤ ss.dummySplitBoundary then
        { omap with upperOpCount := omap.upperOpCount + 1 }
      else { omap with lowerOpCount := omap.lowerOpCount + 1 }
    else { omap with opCount := omap.opCount + 1 }
  { omap with ss := { ss with
    ops := ss.ops + 1
    dummyStep := ss.dummyStep + 1
    padRemaining := ss.padRemaining - 1
    phase := if ss.padRemaining - 1 ≤ 0 then .done else .pad } }

/-- The main operation's part of `step_process`. -/
def processMain (omap : AVLOmap) : Rand AVLOmap :=
  match omap.ss.phase with
  | .traverse => omap.traverseMain
  | .pad => return omap.padMain
  | .done => return omap

/-- The key of the last local node that has the given child, or `INVALID_KEY`. -/
def parentOf (omap : AVLOmap) (key : Int) : Int :=
  match omap.local_.reverse.find? (fun node => node.avl.lKey == key || node.avl.rKey == key) with
  | some node => node.key
  | none => invalidKey

/-- The local index of the piggybacked operation's node, which is fetched unless it is local. -/
def piggybackNode (omap : AVLOmap) : Rand (Nat × AVLOmap) :=
  match omap.localIdx omap.pb.curKey with
  | some idx => return (idx, omap)
  | none => do
      let pb := omap.pb
      let (block, avl, omap) ← omap.extractNode pb.curKey pb.depth
      let node : AVLLocalNode := {
        key := pb.curKey, leaf := block.leaf, avl, parentKey := omap.parentOf pb.curKey
        depth := pb.depth }
      return (omap.local_.length, omap.pushLocal node)

/-- The piggybacked operation starts padding; an insertion has rebalanced what is local. -/
def endPiggyback (omap : AVLOmap) : AVLOmap :=
  let omap := if omap.pb.isInsert then omap.updateHeights.rebalance else omap
  let padRemaining := max 0 (omap.pb.budget - omap.pb.ops)
  { omap with pb := { omap.pb with
    traverseDone := true
    phase := if padRemaining = 0 then .done else .pad
    padRemaining
    dummyStep := 0
    dummySplitBoundary := padRemaining } }

/-- Hang the piggybacked new node under the local node at an index. -/
def attachPiggyback (omap : AVLOmap) (idx : Nat) (onLeft : Bool) : Rand AVLOmap := do
  let pb := omap.pb
  let depth := pb.depth + 1
  let (leaf, orams) ← omap.orams.assignLeaf (omap.orams.halfForDepth depth) pb.key
  let nodes := omap.local_.modify idx (fun node => { node with avl :=
    if onLeft then { node.avl with lKey := pb.key, lLeaf := leaf, lHeight := 1 }
    else { node.avl with rKey := pb.key, rLeaf := leaf, rHeight := 1 } })
  return { omap with
    orams
    local_ := nodes ++ [newNode pb.key leaf pb.insertValue pb.curKey depth] }

/-- One level of a piggybacked insertion; tells whether it was the last one. -/
def insertPiggyback (omap : AVLOmap) (idx : Nat) : Rand (Bool × AVLOmap) :=
  let pb := omap.pb
  let node := omap.local_.getD idx default
  if pb.key = pb.curKey then
    return (true, { omap with local_ := omap.local_.modify idx (fun node =>
      { node with avl := { node.avl with data := pb.insertValue } }) })
  else
    let onLeft : Bool := pb.key < pb.curKey
    let curKey := if onLeft then node.avl.lKey else node.avl.rKey
    let curLeaf := if onLeft then node.avl.lLeaf else node.avl.rLeaf
    if curKey = invalidKey then do
      let omap ← omap.attachPiggyback idx onLeft
      return (true, omap)
    else return (omap.maxHeight - 1 ≤ pb.depth, { omap with pb := { pb with curKey, curLeaf } })

/-- One level of a piggybacked search; tells whether it was the last one. -/
def searchPiggyback (omap : AVLOmap) (idx : Nat) : Bool × AVLOmap :=
  let pb := omap.pb
  let node := omap.local_.getD idx default
  if pb.key = pb.curKey then (true, { omap with pb := { pb with result := node.avl.data } })
  else if omap.maxHeight - 1 ≤ pb.depth then (true, omap)
  else
    let onLeft : Bool := pb.key < pb.curKey
    let curKey := if onLeft then node.avl.lKey else node.avl.rKey
    let curLeaf := if onLeft then node.avl.lLeaf else node.avl.rLeaf
    (curKey == invalidKey, { omap with pb := { pb with curKey, curLeaf } })

/-- One level of the piggybacked traversal. -/
def traversePiggyback (omap : AVLOmap) : Rand AVLOmap := do
  let (idx, omap) ← omap.piggybackNode
  let omap := { omap with pb := { omap.pb with ops := omap.pb.ops + 1 } }.countOp omap.pb.depth
  let (ended, omap) ← if omap.pb.isInsert then omap.insertPiggyback idx
    else pure (omap.searchPiggyback idx)
  let omap := { omap with pb := { omap.pb with depth := omap.pb.depth + 1 } }
  return if ended then omap.endPiggyback else omap

/-- One dummy round of the piggybacked operation. -/
def padPiggyback (omap : AVLOmap) : AVLOmap :=
  let pb := omap.pb
  let omap := if 0 < omap.orams.splitDepth then
      if pb.dummyStep < pb.dummySplitBoundary then
        { omap with upperOpCount := omap.upperOpCount + 1 }
      else { omap with lowerOpCount := omap.lowerOpCount + 1 }
    else { omap with opCount := omap.opCount + 1 }
  { omap with pb := { pb with
    ops := pb.ops + 1
    dummyStep := pb.dummyStep + 1
    padRemaining := pb.padRemaining - 1
    phase := if pb.padRemaining - 1 ≤ 0 then .done else .pad } }

/-- The piggybacked operation's part of `step_process`. -/
def processPiggyback (omap : AVLOmap) : Rand AVLOmap :=
  if !omap.pb.active then return omap
  else match omap.pb.phase with
  | .done => return omap
  | .traverse => omap.traversePiggyback
  | .pad => return omap.padPiggyback

/-- `step_process`. -/
def stepProcess (omap : AVLOmap) : Rand AVLOmap := do
  let omap ← omap.processMain
  omap.processPiggyback

/-- `step_done`. -/
def stepDone (omap : AVLOmap) : Bool :=
  !(omap.pb.active && omap.pb.phase != .done) && omap.ss.phase == .done

/-- `piggyback_needs_decision`. -/
def piggybackNeedsDecision (omap : AVLOmap) : Bool :=
  omap.pb.active && omap.pb.traverseDone && !omap.pb.result.isEmpty

/-- The AVL tree a configuration asks for. -/
def make (config : TieredOMapConfig) (capacity : Int) (isCold : Bool) (hotCount : Int) :
    Rand AVLOmap :=
  if isCold && config.useSplitOram && 0 < hotCount then
    newSplit capacity config.bucketSize (ceilLog2 (max hotCount 2)) (max hotCount 1)
  else new capacity config.bucketSize

instance : OmapInterface AVLOmap where
  make := make
  init := init
  search := search
  insert := insert
  remove := remove
  dummyAccess := dummyAccess
  partialDummyAccess := partialDummyAccess
  supportsInterleaved _ := true
  beginStepSearch := beginStepSearch
  beginStepDummy := beginStepDummy
  beginStepPartialDummy := beginStepPartialDummy
  stepNextRound := stepNextRound
  readStore omap := omap.orams.readStore
  stepApplyReads := stepApplyReads
  stepProcess := stepProcess
  stepPrepareWrites := stepPrepareWrites
  writeStore omap request := { omap with orams := omap.orams.writeStore request }
  stepDone := stepDone
  stepFinish omap := omap.ss.result
  beginPiggybackSearch := beginPiggybackSearch
  beginPiggybackInsert := beginPiggybackInsert
  beginPiggybackDummy := beginPiggybackDummy
  finishPiggyback omap := omap.pb.result
  piggybackNeedsDecision := piggybackNeedsDecision
  piggybackGetTraverseResult omap := omap.pb.result

end AVLOmap

end TieredOmap
