import TieredOMap.Omap.SplitOram
import TieredOMap.Oram.CounterBlock

/-!
# The DAORAM client

`DAOram` keeps no position map: the leaf of a block follows from the counters
of its group. The counters of the data blocks are the values of a smaller ORAM,
whose counters are kept in a smaller one again, until they fit on the chip.

The trees are numbered by stage: stage `0` holds the data, stage `l + 1` the
position-map ORAM of level `l`, and the counters of the last stage are on the
chip. The data level stores its blocks as they are, so it is a Path ORAM with
`plainCipher`.
-/

namespace TieredOmap

/-- What `StepState` and `PBStepState` have in common. -/
structure DaAccess where
  active : Bool := false
  isDummy : Bool := false
  dataKey : Int := invalidKey
  cur : PosMapResult := {}
  writeLeaf1 : Int := invalidLeaf
  writeLeaf2 : Int := invalidLeaf
  result : Bytes := []
deriving DecidableEq, Repr, Inhabited

/-- Remember the paths that were read, to write them back. -/
def DaAccess.markWrites (op : DaAccess) : DaAccess :=
  { op with writeLeaf1 := op.cur.leaf1, writeLeaf2 := op.cur.leaf2 }

/-- `StepState`; `writeStage` is `write_level + 1`. -/
structure DaStepState extends DaAccess where
  round : Nat := 0
  done : Bool := false
  writeStage : Nat := 0
deriving DecidableEq, Repr, Inhabited

/-- `DAOram`. -/
structure DAOram where
  numData : Nat := 0
  bucketSize : Int := 4
  numIc : Nat := 64
  icMax : Nat := 64
  onChipMem : Nat := 10
  prf : Prf := fun _ _ _ _ => 0
  dataOram : PathORAM := {}
  levelSizes : List Nat := []
  posMaps : List PathORAM := []
  onChip : List CounterBlock := []
  step : DaStepState := {}
  pbStep : DaAccess := {}

instance : Inhabited DAOram := ⟨{}⟩

/-- An operation of the step interface. -/
inductive DaOp where
  | access (key : Nat)
  | dummy
deriving DecidableEq, Repr

/-- The number of groups of `numIc` keys. -/
def groupCount (numIc size : Nat) : Nat := (size + numIc - 1) / numIc

/--
The sizes of the position-map levels, bottom to top. Where the loop of the
constructor does not end, neither does this one: no fuel is enough.
-/
def levelSizesFrom (numIc onChipMem : Nat) : Nat → Nat → Option (List Nat)
  | 0, _ => none
  | fuel + 1, size =>
      let groups := groupCount numIc size
      if groups ≤ onChipMem then some []
      else (levelSizesFrom numIc onChipMem fuel groups).map (groups :: ·)

/-- The block that manages a key, some levels up. -/
def ancestor (numIc key : Nat) : Nat → Nat
  | 0 => key
  | level + 1 => ancestor numIc key level / numIc

namespace DAOram

/-- The data level is not encrypted. -/
@[reducible]
def cipherAt [Cipher] : Nat → Cipher
  | 0 => plainCipher
  | _ + 1 => inferInstance

/-- `num_pos_levels`. -/
def numPosLevels (da : DAOram) : Nat := da.levelSizes.length

/-- The tree of a stage. -/
def treeAt (da : DAOram) : Nat → PathORAM
  | 0 => da.dataOram
  | level + 1 => da.posMaps.getD level {}

/-- Replace the tree of a stage. -/
def setTreeAt (da : DAOram) (tree : PathORAM) : Nat → DAOram
  | 0 => { da with dataOram := tree }
  | level + 1 => { da with posMaps := da.posMaps.set level tree }

/-- The number of blocks of a stage. -/
def sizeAt (da : DAOram) : Nat → Nat
  | 0 => da.numData
  | level + 1 => da.levelSizes.getD level 0

/-- `leaf_range` of a stage. -/
def leafRangeAt (da : DAOram) (stage : Nat) : Nat := (da.treeAt stage).leafRange

/-- The key of a stage on the way to a data key. -/
def keyAt (da : DAOram) (key stage : Nat) : Nat := ancestor da.numIc key stage

/-! ## Construction -/

/-- One ORAM for each position-map level. -/
def newPosMaps (bucketSize : Int) : List Nat → Rand (List PathORAM)
  | [] => return []
  | size :: sizes => do
      let posMap ← PathORAM.new size bucketSize 7
      let posMaps ← newPosMaps bucketSize sizes
      return posMap :: posMaps

/-- Zero counters for the keys of the last stage. -/
def resetOnChip (da : DAOram) : DAOram :=
  { da with
    onChip := List.replicate (groupCount da.numIc (da.sizeAt da.numPosLevels))
      (CounterBlock.zero da.numIc) }

/-- The constructor; `prf` stands for the hash under the drawn seed. -/
def new (numData : Nat) (bucketSize stashScale : Int) (numIc icMax onChipMem : Nat) (prf : Prf) :
    Rand DAOram := do
  let dataOram ← PathORAM.new numData bucketSize stashScale
  match levelSizesFrom numIc onChipMem (numData + 1) numData with
  | none => Prog.fail .outOfFuel
  | some levelSizes => do
      let posMaps ← newPosMaps bucketSize levelSizes
      let da : DAOram := { numData, bucketSize, numIc, icMax, onChipMem, prf, dataOram
                           levelSizes, posMaps }
      return da.resetOnChip

variable [Cipher]

/-- Zero counters for the groups of a level. -/
def zeroBlocks (numIc size : Nat) : KeyMap Int Bytes where
  entries := (List.range size).map (fun (key : Nat) => (key, (CounterBlock.zero numIc).encode))
  nodup := by
    rw [List.map_map]
    exact (List.nodup_range).map Nat.cast_injective

/-- Give every key the leaf of zero counters. -/
def setZeroLeaves (prf : Prf) (posMap : PathORAM) (keys : List Nat) : PathORAM :=
  keys.foldl (fun posMap (key : Nat) =>
    posMap.setLeaf key (prfLeaf prf key 0 0 posMap.leafRange)) posMap

/-- A position-map ORAM of zero counters. -/
def initPosMap (prf : Prf) (numIc size : Nat) (posMap : PathORAM) : Rand PathORAM :=
  (setZeroLeaves prf posMap (List.range size)).init (zeroBlocks numIc size)

/-- The position-map ORAMs, from the top level down. -/
def initPosMaps (prf : Prf) (numIc : Nat) : List Nat → List PathORAM → Rand (List PathORAM)
  | size :: sizes, posMap :: posMaps => do
      let posMaps ← initPosMaps prf numIc sizes posMaps
      let posMap ← initPosMap prf numIc size posMap
      return posMap :: posMaps
  | _, _ => return []

/-- The data level: blocks that find no place in the tree go to the stash. -/
def loadData (da : DAOram) (data : KeyMap Nat Bytes) : PathORAM :=
  let emptied := da.dataOram.storage.reset da.numData da.bucketSize
  let blockOf := fun (entry : Nat × Bytes) => ({
    key := entry.1, leaf := prfLeaf da.prf entry.1 0 0 emptied.leafRange, value := entry.2 } : Block)
  let loaded := emptied.bulkLoad (data.entries.map blockOf)
  let left := data.entries.filter (fun entry => !loaded.1.contains (entry.1 : Int))
  { da.dataOram with storage := loaded.2, stash := left.map blockOf }

/-- `init`. -/
def init (da : DAOram) (data : KeyMap Nat Bytes) : Rand DAOram := do
  let da := da.resetOnChip
  let posMaps ← initPosMaps da.prf da.numIc da.levelSizes da.posMaps
  return { da with posMaps, dataOram := da.loadData data }

/-! ## Trees -/

/-- `read_multiple_paths_to_stash` on the tree of a stage. -/
def readPaths (da : DAOram) (stage : Nat) (leaves : List Int) : Rand DAOram := do
  let tree ← @PathORAM.readMultiplePathsToStash (cipherAt stage) (da.treeAt stage) leaves
  return da.setTreeAt tree stage

/-- `evict_and_write_paths` on the tree of a stage. -/
def evictPaths (da : DAOram) (stage : Nat) (leaves : List Int) : Rand DAOram := do
  let tree ← @PathORAM.evictStash (cipherAt stage) (da.treeAt stage) leaves
  return da.setTreeAt tree stage

/-- Move the block whose counter was repaired to its new leaf, if it is in the stash. -/
def relabelReset (tree : PathORAM) (cur : PosMapResult) : PathORAM :=
  match cur.rKey with
  | some rKey => tree.updateInStash rKey (fun block => { block with leaf := cur.rNewLeaf })
  | none => tree

/-! ## Position maps -/

/-- Advance the counters on the chip on the way to a data key. -/
def touchOnChip (da : DAOram) (key : Nat) : Rand (PosMapResult × DAOram) :=
  let managedKey := da.keyAt key da.numPosLevels
  match da.onChip[managedKey / da.numIc]? with
  | none => Prog.fail .outOfRange
  | some cb => do
      let (cur, cb) ← cb.touch da.prf da.icMax da.numIc managedKey (da.sizeAt da.numPosLevels)
        (da.leafRangeAt da.numPosLevels)
      return (cur, { da with onChip := da.onChip.set (managedKey / da.numIc) cb })

/-- Advance the counters in a fetched block of a level, and move it and the repaired block. -/
def visitPosMap (da : DAOram) (key level : Nat) (cur : PosMapResult) :
    Rand (PosMapResult × DAOram) :=
  let tree := da.treeAt (level + 1)
  let targetKey := da.keyAt key (level + 1)
  match tree.findInStash targetKey with
  | none => Prog.fail .keyNotFound
  | some target => do
      let (next, cb) ← (CounterBlock.decode target.value da.numIc).touch da.prf da.icMax da.numIc
        (da.keyAt key level) (da.sizeAt level) (da.leafRangeAt level)
      let tree := tree.updateInStash targetKey
        (fun block => { block with value := cb.encode, leaf := cur.newLeaf })
      return (next, da.setTreeAt (relabelReset tree cur) (level + 1))

/-- `traverse_pos_maps` below the chip. -/
def traverseBelow (da : DAOram) (key : Nat) : Nat → PosMapResult → Rand (PosMapResult × DAOram)
  | 0, cur => return (cur, da)
  | level + 1, cur => do
      let da ← da.readPaths (level + 1) [cur.leaf1, cur.leaf2]
      let (next, da) ← da.visitPosMap key level cur
      let da ← da.evictPaths (level + 1) [cur.leaf1, cur.leaf2]
      traverseBelow da key level next

/-- `traverse_pos_maps`. -/
def traversePosMaps (da : DAOram) (key : Nat) : Rand (PosMapResult × DAOram) := do
  let (cur, da) ← da.touchOnChip key
  da.traverseBelow key da.numPosLevels cur

/-- `traverse_pos_maps_dummy` below a stage. -/
def traverseDummyBelow (da : DAOram) : Nat → Rand DAOram
  | 0 => return da
  | level + 1 => do
      let leaf1 ← (da.treeAt (level + 1)).randomLeaf
      let leaf2 ← (da.treeAt (level + 1)).randomLeaf
      let da ← da.readPaths (level + 1) [leaf1, leaf2]
      let da ← da.evictPaths (level + 1) [leaf1, leaf2]
      traverseDummyBelow da level

/-- Two random leaves of a stage. -/
def randomLeaves (da : DAOram) (stage : Nat) : Rand PosMapResult := do
  let leaf1 ← randBelow (max (da.leafRangeAt stage) 1)
  let leaf2 ← randBelow (max (da.leafRangeAt stage) 1)
  return { leaf1, leaf2 }

/-! ## Accesses -/

/-- Take the value of a data block in the stash, and move it and the repaired block. -/
def visitData (da : DAOram) (key : Nat) (newValue : Option Bytes) (cur : PosMapResult) :
    Rand (Bytes × DAOram) :=
  match da.dataOram.findInStash key with
  | none => Prog.fail .keyNotFound
  | some target =>
      let tree := da.dataOram.updateInStash key
        (fun block => { block with value := newValue.getD block.value, leaf := cur.newLeaf })
      return (target.value, da.setTreeAt (relabelReset tree cur) 0)

/-- `access`. -/
def access (da : DAOram) (key : Nat) (newValue : Option Bytes) : Rand (Bytes × DAOram) := do
  let (cur, da) ← da.traversePosMaps key
  let da ← da.readPaths 0 [cur.leaf1, cur.leaf2]
  let (result, da) ← da.visitData key newValue cur
  let da ← da.evictPaths 0 [cur.leaf1, cur.leaf2]
  return (result, da)

/-- `dummy_access`. -/
def dummyAccess (da : DAOram) : Rand DAOram := do
  let da ← da.traverseDummyBelow da.numPosLevels
  let cur ← da.randomLeaves 0
  let da ← da.readPaths 0 [cur.leaf1, cur.leaf2]
  da.evictPaths 0 [cur.leaf1, cur.leaf2]

/-! ## The step interface -/

/-- `begin_step_access`. -/
def beginStepAccess (da : DAOram) (key : Nat) : Rand DAOram := do
  let (cur, da) ← da.touchOnChip key
  return { da with step := { active := true, dataKey := key, cur } }

/-- `begin_step_dummy`. -/
def beginStepDummy (da : DAOram) : Rand DAOram := do
  let cur ← da.randomLeaves da.numPosLevels
  return { da with step := { active := true, isDummy := true, cur } }

/-- `begin_piggyback_access`. -/
def beginPiggybackAccess (da : DAOram) (key : Nat) : Rand DAOram := do
  let (cur, da) ← da.touchOnChip key
  return { da with pbStep := { active := true, dataKey := key, cur } }

/-- `begin_piggyback_dummy`. -/
def beginPiggybackDummy (da : DAOram) : Rand DAOram := do
  let cur ← da.randomLeaves da.numPosLevels
  return { da with pbStep := { active := true, isDummy := true, cur } }

/-- The stage of the current round. -/
def stage (da : DAOram) : Nat := da.numPosLevels - da.step.round

/-- `step_get_reads`. -/
def stepGetReads (da : DAOram) : List StepReadReq :=
  if da.step.done || !da.step.active then []
  else
    let storeId := (da.treeAt da.stage).storage.storeId
    let reads := [da.step.cur.leaf1, da.step.cur.leaf2] ++
      (if da.pbStep.active then [da.pbStep.cur.leaf1, da.pbStep.cur.leaf2] else [])
    reads.map (fun leaf => { storeId, leaf })

/-- Move fetched blocks to the data stash, unless a block of their key is there. -/
def pushUnseen (stash : List Block) : List Block → List Block
  | [] => stash
  | block :: rest =>
      if block.isDummy || (stash.map Block.key).contains block.key then pushUnseen stash rest
      else pushUnseen (stash ++ [block]) rest

/-- `step_apply_reads`. -/
def stepApplyReads (da : DAOram) (results : List PathData) : DAOram :=
  let merged := results.foldl SplitOram.mergePaths []
  match da.stage with
  | 0 => { da with dataOram := { da.dataOram with
      stash := pushUnseen da.dataOram.stash (merged.flatMap Prod.snd) } }
  | level + 1 => da.setTreeAt ((da.treeAt (level + 1)).applyFetchedPath merged) (level + 1)

/-- The round of one of the two operations in `step_process`. -/
def processAccess (da : DAOram) (op : DaAccess) : Rand (DaAccess × DAOram) :=
  match da.stage, op.isDummy with
  | level + 1, false => do
      let (cur, da) ← da.visitPosMap op.dataKey.toNat level op.cur
      return ({ op with cur }, da)
  | level + 1, true => do
      let cur ← da.randomLeaves level
      return ({ op with cur := { op.cur with leaf1 := cur.leaf1, leaf2 := cur.leaf2 } }, da)
  | 0, false => do
      let (result, da) ← da.visitData op.dataKey.toNat none op.cur
      return ({ op with result }, da)
  | 0, true => return (op, da)

/-- The round of the piggybacked operation, if there is one. -/
def processPiggyback (da : DAOram) : Rand (DaAccess × DAOram) :=
  if da.pbStep.active then da.processAccess da.pbStep.markWrites
  else return (da.pbStep, da)

/-- `step_process`. -/
def stepProcess (da : DAOram) : Rand DAOram := do
  let (main, da) ← da.processAccess da.step.toDaAccess.markWrites
  let (pbStep, da) ← da.processPiggyback
  let round := da.step.round + 1
  return { da with
    step := { toDaAccess := main, round, writeStage := da.stage
              done := da.step.done || decide (da.numPosLevels < round) }
    pbStep }

/-- `step_get_writes`. -/
def stepGetWrites (da : DAOram) : Rand (List StepWriteReq × DAOram) := do
  let stage := da.step.writeStage
  let leaves := [da.step.writeLeaf1, da.step.writeLeaf2] ++
    (if da.pbStep.active then [da.pbStep.writeLeaf1, da.pbStep.writeLeaf2] else [])
  let (data, tree) ← @PathORAM.prepareEvictionPaths (cipherAt stage) (da.treeAt stage) leaves
  return ([{ storeId := tree.storage.storeId, data }], da.setTreeAt tree stage)

/-- `step_finish`. -/
def stepFinish (da : DAOram) (newValue : Option Bytes) : Bytes × DAOram :=
  let da := match newValue, da.step.isDummy with
    | some value, false =>
        { da with
          dataOram := da.dataOram.updateInStash da.step.dataKey
            (fun block => { block with value }) }
    | _, _ => da
  (da.step.result, { da with step.active := false })

/-- `piggyback_finish`. -/
def piggybackFinish (da : DAOram) (newValue : Option Bytes) : Bytes × DAOram :=
  let da := match newValue, da.pbStep.isDummy with
    | some value, false =>
        { da with
          dataOram := da.dataOram.updateInStash da.pbStep.dataKey
            (fun block => { block with value }) }
    | _, _ => da
  (da.pbStep.result, { da with pbStep.active := false, pbStep.result := [] })

/-- `piggyback_finish_dummy`. -/
def piggybackFinishDummy (da : DAOram) : DAOram :=
  { da with pbStep.active := false }

/-! ## Driving the step interface -/

/-- Begin the main operation. -/
def beginStep (da : DAOram) : DaOp → Rand DAOram
  | .access key => da.beginStepAccess key
  | .dummy => da.beginStepDummy

/-- Begin the piggybacked operation. -/
def beginPiggyback (da : DAOram) : DaOp → Rand DAOram
  | .access key => da.beginPiggybackAccess key
  | .dummy => da.beginPiggybackDummy

/-- The server's side of a write, to the store of the round. -/
def writeStore (da : DAOram) (request : StepWriteReq) : DAOram :=
  da.setTreeAt ((da.treeAt da.step.writeStage).writePath request.data) da.step.writeStage

/-- A round: the server answers the reads, the client processes them and the server writes. -/
def stepRound (da : DAOram) : Rand DAOram := do
  let reads := da.stepGetReads
  send (.batchRead (reads.map StepReadReq.storeId))
  let results := reads.map (fun request => (da.treeAt da.stage).storage.readPath request.leaf)
  let da ← (da.stepApplyReads results).stepProcess
  let (writes, da) ← da.stepGetWrites
  send (.batchWrite (writes.map StepWriteReq.storeId))
  return writes.foldl writeStore da

/-- All rounds, until `step_done`. -/
def stepRounds : Nat → DAOram → Rand DAOram
  | 0, da => if da.step.done then return da else Prog.fail .outOfFuel
  | fuel + 1, da =>
      if da.step.done then return da
      else do
        let da ← da.stepRound
        stepRounds fuel da

/-- Two operations that share all their rounds, finished in the end. -/
def runTogether (da : DAOram) (main piggyback : DaOp) : Rand ((Bytes × Bytes) × DAOram) := do
  let da ← da.beginStep main
  let da ← da.beginPiggyback piggyback
  let da ← stepRounds (da.numPosLevels + 1) da
  let (mainResult, da) := da.stepFinish none
  let (piggybackResult, da) := da.piggybackFinish none
  return ((mainResult, piggybackResult), da)

/-- One operation on its own. -/
def runAlone (da : DAOram) : DaOp → Rand (Bytes × DAOram)
  | .access key => da.access key none
  | .dummy => do
      let da ← da.dummyAccess
      return ([], da)

/-- The same two operations one after the other. -/
def runInSequence (da : DAOram) (main piggyback : DaOp) : Rand ((Bytes × Bytes) × DAOram) := do
  let (mainResult, da) ← da.runAlone main
  let (piggybackResult, da) ← da.runAlone piggyback
  return ((mainResult, piggybackResult), da)

end DAOram

end TieredOmap
