import TieredOMap.Omap.AvlStep
import TieredOMap.Omap.BplusStep
import TieredOMap.Oram.DaOram

/-!
# The DA map

`DaOstOmap` (`da_ost_omap.cpp`): keys are hashed to positions and every position
has a search tree of its own. One tree object serves all positions, over one
ORAM; its root is swapped in from `root_cache_`. Every operation first accesses
its position in a DAORAM, whose values are not looked at.

The map is generic in the tree (`OdsTree`), which stands for `tree_type_` with
the two tree objects. In the step interface an operation goes through its phases:
the DAORAM, the tree, padding.
-/

namespace TieredOmap

/-! ## Trees whose root can be swapped -/

/-- What a DA map uses of its tree object. -/
class OdsTree (Ω : Type) extends OmapInterface Ω where
  /-- The constructor and `set_ods_mode`. -/
  newOds : (capacity : Int) → (order : Nat) → (bucketSize heightBound : Int) → Rand Ω
  /-- `do_avl_init` or `do_bplus_init`: one tree for each list of records, and their roots. -/
  loadTrees : Ω → (capacity : Int) → List (List (Int × Bytes)) → Rand (List (Int × Int) × Ω)
  setRoot : Ω → Int × Int → Ω
  getRoot : Ω → Int × Int
  lastOpCount : Ω → Int
  oram : Ω → PathORAM
  setOram : Ω → PathORAM → Ω
  /-- `ods_budget_` in units of the height bound. -/
  budgetFactor : Nat

/-- The leaf of a root, `INVALID_LEAF` for an empty tree. -/
def rootWithLeaf (oram : PathORAM) (root : Int) : Int × Int :=
  (root, if root ≠ invalidKey then oram.getLeaf root else invalidLeaf)

namespace AVLOmap

variable [Cipher]

/-- `build` of `do_avl_init` on `items[lo..hi]`. -/
def buildNodes (items : List (Int × Bytes)) :
    Nat → Int → Int → KeyMap Int AVLNodeData → Int × KeyMap Int AVLNodeData
  | 0, _, _, nodes => (invalidKey, nodes)
  | fuel + 1, lo, hi, nodes =>
      if hi < lo then (invalidKey, nodes)
      else
        let mid := lo + (hi - lo) / 2
        let entry := items.getD mid.toNat (invalidKey, [])
        let (lKey, nodes) := buildNodes items fuel lo (mid - 1) nodes
        let (rKey, nodes) := buildNodes items fuel (mid + 1) hi nodes
        (entry.1, nodes.set entry.1 { data := entry.2, lKey, rKey })

/-- The roots of balanced trees over lists of records, and all their nodes. -/
def buildTrees : List (List (Int × Bytes)) → KeyMap Int AVLNodeData →
    List Int × KeyMap Int AVLNodeData
  | [], nodes => ([], nodes)
  | items :: rest, nodes =>
      let sorted := items.insertionSort (fun entry entry' => entry.1 ≤ entry'.1)
      let (root, nodes) := buildNodes sorted sorted.length 0 (sorted.length - 1) nodes
      let (roots, nodes) := buildTrees rest nodes
      (root :: roots, nodes)

/-- `fix_h` from every root. -/
def fixAllHeights : List Int → List (Int × AVLNodeData) → Rand (List (Int × AVLNodeData))
  | [], nodes => return nodes
  | root :: roots, nodes => do
      let (_, nodes) ← fixHeights nodes.length root nodes
      fixAllHeights roots nodes

/-- `do_avl_init`, as far as the tree object is concerned. -/
def loadTrees (omap : AVLOmap) (buckets : List (List (Int × Bytes))) :
    Rand (List (Int × Int) × AVLOmap) := do
  let (roots, nodes) := buildTrees buckets ∅
  let nodes ← fixAllHeights roots nodes.entries
  let omap ← omap.initWhole nodes
  return (roots.map (rootWithLeaf omap.orams.oram), omap)

instance : OdsTree AVLOmap where
  newOds capacity _ bucketSize heightBound := do
    let omap ← new capacity bucketSize
    return { omap with odsMode := true, maxHeight := heightBound }
  loadTrees omap _ buckets := omap.loadTrees buckets
  setRoot omap root := { omap with rootKey := root.1, rootLeaf := root.2 }
  getRoot omap := (omap.rootKey, omap.rootLeaf)
  lastOpCount omap := omap.opCount
  oram omap := omap.orams.oram
  setOram omap oram := { omap with orams.oram := oram }
  budgetFactor := 3

end AVLOmap

namespace BPlusOmap

variable [Cipher]

/-- `build` of `do_bplus_init`: a leaf, or one internal node over leaves. -/
def buildNodes (order : Nat) (items : List (Int × Bytes)) (nextId : Int)
    (nodes : List (Int × BPlusNode)) : Int × Int × List (Int × BPlusNode) :=
  if items.isEmpty then (invalidKey, nextId, nodes)
  else if items.length ≤ order - 1 then
    (nextId, nextId + 1, nodes ++ [(nextId, leafOf false items)])
  else
    let pieces := chunks (order - 1) items.length items
    let ids := (List.range pieces.length).map (fun i => nextId + (i : Int))
    let rootId := nextId + pieces.length
    (rootId, rootId + 1, nodes ++ ids.zip (pieces.map (leafOf false)) ++
      [(rootId, internalOf ((pieces.map firstKey).zip ids))])

/-- The roots of trees over lists of records, the next block id and all nodes. -/
def buildTrees (order : Nat) : List (List (Int × Bytes)) → Int → List (Int × BPlusNode) →
    List Int × Int × List (Int × BPlusNode)
  | [], nextId, nodes => ([], nextId, nodes)
  | items :: rest, nextId, nodes =>
      let sorted := items.insertionSort (fun entry entry' => entry.1 ≤ entry'.1)
      let (root, nextId, nodes) := buildNodes order sorted nextId nodes
      let (roots, nextId, nodes) := buildTrees order rest nextId nodes
      (root :: roots, nextId, nodes)

/-- `do_bplus_init`, as far as the tree object is concerned. -/
def loadTrees (omap : BPlusOmap) (capacity : Int) (buckets : List (List (Int × Bytes))) :
    Rand (List (Int × Int) × BPlusOmap) := do
  let (roots, nextBlockId, nodes) := buildTrees omap.order buckets 0 []
  let oram ← PathORAM.new capacity omap.orams.oram.bucketSize 7
  let oram ← drawLeaves (nodes.map Prod.fst) oram
  let orams := { omap.orams with oram }
  let oramData := nodes.foldl (fun oramData entry =>
    oramData.set entry.1 (withChildLeaves orams .lower entry.2).encode) (∅ : KeyMap Int Bytes)
  let oram ← oram.init oramData
  return (roots.map (rootWithLeaf oram), { omap with orams := { orams with oram }, nextBlockId })

instance : OdsTree BPlusOmap where
  newOds capacity order bucketSize heightBound := do
    let omap ← new capacity order bucketSize
    return { omap with odsMode := true, maxHeight := heightBound }
  loadTrees := loadTrees
  setRoot omap root := { omap with rootId := root.1, rootLeaf := root.2 }
  getRoot omap := (omap.rootId, omap.rootLeaf)
  lastOpCount omap := omap.opCount
  oram omap := omap.orams.oram
  setOram omap oram := { omap with orams.oram := oram }
  budgetFactor := 2

end BPlusOmap

/-! ## The map -/

/-- `DaOstOmap::StepPhase`. -/
inductive DaOstPhase where
  | daoram
  | ods
  | odsPad
  | scanDaoram
  | scanOds
  | scanOdsPad
  | done
deriving DecidableEq, Repr, Inhabited

/-- `DaOstOmap::StepState`. -/
structure DaOstStepState where
  phase : DaOstPhase := .done
  roundPhase : DaOstPhase := .done
  isDummy : Bool := false
  isPartialDummy : Bool := false
  isScan : Bool := false
  key : Int := invalidKey
  update : Option Bytes := none
  pos : Int := -1
  odsOps : Int := 0
  padRemaining : Int := 0
  padRoundLeaf : Int := invalidLeaf
  scanPos : Int := -1
  scanRoot : Int × Int := (invalidKey, invalidLeaf)
  scanResult : Bytes := []
  result : Bytes := []
deriving DecidableEq, Repr, Inhabited

/-- `DaOstOmap::PBState`. -/
structure DaOstPBState where
  active : Bool := false
  isInsert : Bool := false
  isDummy : Bool := false
  key : Int := invalidKey
  insertValue : Bytes := []
  pos : Int := -1
  savedMainRoot : Int × Int := (invalidKey, invalidLeaf)
  result : Bytes := []
deriving DecidableEq, Repr, Inhabited

/-- `DaOstOmap`; `hash` stands for the hash under the drawn seed. -/
structure DaOstOmap (Ω : Type) where
  capacity : Int
  numPositions : Nat
  odsBudget : Nat
  hash : Int → Nat
  daoram : DAOram
  ods : Ω
  rootCache : KeyMap Int (Int × Int) := ∅
  scanPos : Nat := 0
  ss : DaOstStepState := {}
  pb : DaOstPBState := {}

namespace DaOstOmap

variable {Ω : Type} [OdsTree Ω] [Cipher]

/-- `hash_to_position`. -/
def hashToPosition (omap : DaOstOmap Ω) (key : Int) : Nat := omap.hash key % omap.numPositions

/-- `encode_root`. -/
def encodeRoot (root : Int × Int) : Bytes := intToBytes root.1 ++ intToBytes root.2

/-- The constructor; the height bound is computed from the number of positions. -/
def new (capacity numPositions : Int) (order : Nat) (bucketSize : Int) (heightBound : Nat)
    (hash : Int → Nat) (prf : Prf) : Rand (DaOstOmap Ω) := do
  let numPositions := (if 0 < numPositions then numPositions else capacity).toNat
  let daoram ← DAOram.new numPositions bucketSize 20 64 64 10 prf
  let ods ← OdsTree.newOds capacity order bucketSize heightBound
  return { capacity, numPositions, hash, daoram, ods
           odsBudget := OdsTree.budgetFactor Ω * heightBound }

/-- The records of each position. -/
def bucketsOf (omap : DaOstOmap Ω) (data : List (Int × Bytes)) : List (List (Int × Bytes)) :=
  (List.range omap.numPositions).map (fun pos =>
    data.filter (fun entry => omap.hashToPosition entry.1 == pos))

/-- Values for the first keys. -/
def arrayOf {β : Type} (size : Nat) (value : Nat → β) : KeyMap Nat β where
  entries := (List.range size).map (fun key => (key, value key))
  nodup := by
    rw [List.map_map]
    exact (List.map_id _).symm ▸ List.nodup_range

/-- `init`. -/
def init (omap : DaOstOmap Ω) (data : List (Int × Bytes)) : Rand (DaOstOmap Ω) := do
  let (roots, ods) ← OdsTree.loadTrees omap.ods omap.capacity (omap.bucketsOf data)
  let rootOf := fun pos => roots.getD pos (invalidKey, invalidLeaf)
  let daoram ← omap.daoram.init (arrayOf omap.numPositions (fun pos => encodeRoot (rootOf pos)))
  return { omap with
    daoram
    ods
    rootCache := (List.range omap.numPositions).foldl
      (fun rootCache (pos : Nat) => rootCache.set (pos : Int) (rootOf pos)) ∅ }

/-! ## Roots -/

/-- `root_cache_[pos]`, which adds a missing entry. -/
def cachedRoot (omap : DaOstOmap Ω) (pos : Int) : (Int × Int) × DaOstOmap Ω :=
  match omap.rootCache.get? pos with
  | some root => (root, omap)
  | none => ((0, 0), { omap with rootCache := omap.rootCache.set pos (0, 0) })

/-- The cached root of a position, if there is one. -/
def findRoot (omap : DaOstOmap Ω) (pos : Int) : Int × Int :=
  (omap.rootCache.get? pos).getD (invalidKey, invalidLeaf)

/-- `set_root`. -/
def setRoot (omap : DaOstOmap Ω) (root : Int × Int) : DaOstOmap Ω :=
  { omap with ods := OdsTree.setRoot omap.ods root }

/-- `root_cache_[pos] = root`. -/
def cacheRoot (omap : DaOstOmap Ω) (pos : Int) (root : Int × Int) : DaOstOmap Ω :=
  { omap with rootCache := omap.rootCache.set pos root }

/-- `root_cache_[pos] = get_root()`. -/
def storeRoot (omap : DaOstOmap Ω) (pos : Int) : DaOstOmap Ω :=
  omap.cacheRoot pos (OdsTree.getRoot omap.ods)

/-! ## One operation at a time -/

/-- Dummy accesses to the ORAM of the tree. -/
def odsDummies : Nat → Ω → Rand Ω
  | 0, ods => return ods
  | count + 1, ods => do
      let oram ← (OdsTree.oram ods).dummyAccess
      odsDummies count (OdsTree.setOram ods oram)

/-- `pad_ods`. -/
def padOds (omap : DaOstOmap Ω) (actualOps : Int) : Rand (DaOstOmap Ω) := do
  let ods ← odsDummies ((omap.odsBudget : Int) - actualOps).toNat omap.ods
  return { omap with ods }

/-- Access a position in the DAORAM, for obliviousness only. -/
def accessPosition (omap : DaOstOmap Ω) (pos : Nat) : Rand (DaOstOmap Ω) := do
  let (_, daoram) ← omap.daoram.access pos none
  return { omap with daoram }

/-- Swap in the root of a position, run an operation of the tree and swap the root out. -/
def withRoot {α : Type} (omap : DaOstOmap Ω) (pos : Nat) (operation : Ω → Rand (α × Ω)) :
    Rand (α × DaOstOmap Ω) := do
  let (root, omap) := omap.cachedRoot pos
  let omap ← omap.accessPosition pos
  let (result, ods) ← operation (OdsTree.setRoot omap.ods root)
  let omap ← ({ omap with ods }.storeRoot pos).padOds (OdsTree.lastOpCount ods)
  return (result, omap)

/-- `search`. -/
def search (omap : DaOstOmap Ω) (key : Int) (update : Option Bytes) :
    Rand (Bytes × DaOstOmap Ω) :=
  omap.withRoot (omap.hashToPosition key) (fun ods => OmapInterface.search ods key update)

/-- `insert`. -/
def insert (omap : DaOstOmap Ω) (key : Int) (value : Bytes) : Rand (DaOstOmap Ω) := do
  let (_, omap) ← omap.withRoot (omap.hashToPosition key) (fun ods => do
    let ods ← OmapInterface.insert ods key value
    return ((), ods))
  return omap

/-- `remove`. -/
def remove (omap : DaOstOmap Ω) (key : Int) : Rand (DaOstOmap Ω) := do
  let (_, omap) ← omap.withRoot (omap.hashToPosition key) (fun ods => do
    let ods ← OmapInterface.remove ods key
    return ((), ods))
  return omap

/-- The scan pointer moves to the next position. -/
def nextScanPos (omap : DaOstOmap Ω) : DaOstOmap Ω :=
  { omap with scanPos := (omap.scanPos + 1) % omap.numPositions }

/-- `piggyback_scan_step`: search for the root of the next position. -/
def piggybackScanStep (omap : DaOstOmap Ω) : Rand ((Int × Bytes) × DaOstOmap Ω) := do
  let pos := omap.scanPos
  let root := omap.findRoot pos
  let omap ← omap.accessPosition pos
  if root.1 = invalidKey then
    let omap ← omap.padOds 0
    return ((invalidKey, []), omap.nextScanPos)
  else
    let (value, ods) ← OmapInterface.search (OdsTree.setRoot omap.ods root) root.1 none
    let omap ← ({ omap with ods }.storeRoot pos).padOds (OdsTree.lastOpCount ods)
    return ((root.1, value), omap.nextScanPos)

/-- A dummy access with some dummy accesses to the tree. -/
def dummyAccesses (omap : DaOstOmap Ω) (count : Nat) : Rand (DaOstOmap Ω) := do
  let daoram ← omap.daoram.dummyAccess
  let ods ← odsDummies count omap.ods
  return { omap with daoram, ods }

/-- `dummy_access`. -/
def dummyAccess (omap : DaOstOmap Ω) : Rand (DaOstOmap Ω) := omap.dummyAccesses omap.odsBudget

/-- `partial_dummy_access`. -/
def partialDummyAccess (omap : DaOstOmap Ω) : Rand (DaOstOmap Ω) := omap.dummyAccesses 1

/-! ## Starting an operation -/

/-- `begin_step_search`. -/
def beginStepSearch (omap : DaOstOmap Ω) (key : Int) (update : Option Bytes) :
    Rand (DaOstOmap Ω) := do
  let pos := omap.hashToPosition key
  let (root, omap) := { omap with ss := { key, update, pos } }.cachedRoot pos
  let daoram ← omap.daoram.beginStepAccess pos
  return { omap with
    daoram
    ods := OmapInterface.beginStepSearch (OdsTree.setRoot omap.ods root) key update
    ss := { omap.ss with phase := .daoram } }

/-- `begin_step_dummy`. -/
def beginStepDummy (omap : DaOstOmap Ω) : Rand (DaOstOmap Ω) := do
  let daoram ← omap.daoram.beginStepDummy
  return { omap with
    daoram
    ods := OmapInterface.beginStepDummy omap.ods
    ss := { isDummy := true, phase := .daoram } }

/-- `begin_step_partial_dummy`. -/
def beginStepPartialDummy (omap : DaOstOmap Ω) : Rand (DaOstOmap Ω) := do
  let daoram ← omap.daoram.beginStepDummy
  return { omap with
    daoram
    ss := { isDummy := true, isPartialDummy := true, phase := .daoram } }

/-- `begin_step_scan`. -/
def beginStepScan (omap : DaOstOmap Ω) : Rand (DaOstOmap Ω) := do
  let daoram ← omap.daoram.beginStepAccess omap.scanPos
  return { omap with
    daoram
    ss := { isScan := true, scanPos := omap.scanPos, scanRoot := omap.findRoot omap.scanPos
            phase := .scanDaoram } }

/-- Begin a piggybacked operation on the position of a key. -/
def beginPiggybackAccess (omap : DaOstOmap Ω) (pb : DaOstPBState) : Rand (DaOstOmap Ω) := do
  let pos := omap.hashToPosition pb.key
  let daoram ← omap.daoram.beginPiggybackAccess pos
  return { omap with daoram, pb := { pb with active := true, pos } }

/-- `begin_piggyback_insert`. -/
def beginPiggybackInsert (omap : DaOstOmap Ω) (key : Int) (value : Bytes) : Rand (DaOstOmap Ω) :=
  omap.beginPiggybackAccess { isInsert := true, key, insertValue := value }

/-- `begin_piggyback_search`. -/
def beginPiggybackSearch (omap : DaOstOmap Ω) (key : Int) : Rand (DaOstOmap Ω) :=
  omap.beginPiggybackAccess { key }

/-- `begin_piggyback_dummy`. -/
def beginPiggybackDummy (omap : DaOstOmap Ω) : Rand (DaOstOmap Ω) := do
  let daoram ← omap.daoram.beginPiggybackDummy
  return { omap with daoram, pb := { active := true, isDummy := true } }

/-! ## Rounds -/

/-- `step_next_round`. -/
def stepNextRound (omap : DaOstOmap Ω) : Rand (List StepReadReq × DaOstOmap Ω) :=
  if omap.ss.phase = .done then return ([], omap)
  else
    let omap := { omap with ss := { omap.ss with roundPhase := omap.ss.phase } }
    match omap.ss.phase with
    | .daoram | .scanDaoram => return (omap.daoram.stepGetReads, omap)
    | .ods | .scanOds => do
        let (reads, ods) ← OmapInterface.stepNextRound omap.ods
        return (reads, { omap with ods })
    | .odsPad | .scanOdsPad | .done => do
        let oram := OdsTree.oram omap.ods
        let leaf ← oram.randomLeaf
        return ([{ storeId := oram.storage.storeId, leaf }],
          { omap with ss := { omap.ss with padRoundLeaf := leaf } })

/-- The server's side of a read. -/
def readStore (omap : DaOstOmap Ω) (request : StepReadReq) : PathData :=
  match omap.ss.roundPhase with
  | .daoram | .scanDaoram =>
      (omap.daoram.treeAt omap.daoram.stage).storage.readPath request.leaf
  | .ods | .scanOds => OmapInterface.readStore omap.ods request
  | .odsPad | .scanOdsPad | .done => (OdsTree.oram omap.ods).storage.readPath request.leaf

/-- `step_apply_reads`. -/
def stepApplyReads (omap : DaOstOmap Ω) (results : List PathData) : DaOstOmap Ω :=
  match omap.ss.roundPhase with
  | .daoram | .scanDaoram => { omap with daoram := omap.daoram.stepApplyReads results }
  | .ods | .scanOds => { omap with ods := OmapInterface.stepApplyReads omap.ods results }
  | .odsPad | .scanOdsPad =>
      match results with
      | path :: _ => { omap with
          ods := OdsTree.setOram omap.ods ((OdsTree.oram omap.ods).applyFetchedPath path) }
      | [] => omap
  | .done => omap

/-- Finish the piggybacked DAORAM access and begin the piggybacked operation of the tree. -/
def startPiggyback (omap : DaOstOmap Ω) : Rand (DaOstOmap Ω) :=
  if !omap.pb.active then return omap
  else if omap.pb.isDummy then
    return { omap with
      daoram := omap.daoram.piggybackFinishDummy
      ods := OmapInterface.beginPiggybackDummy omap.ods }
  else do
    let omap := { omap with daoram := (omap.daoram.piggybackFinish none).2
                            pb.savedMainRoot := omap.findRoot omap.ss.pos }
    let ods := OdsTree.setRoot omap.ods (omap.findRoot omap.pb.pos)
    let ods ← if omap.pb.isInsert then
        OmapInterface.beginPiggybackInsert ods omap.pb.key omap.pb.insertValue
      else pure (OmapInterface.beginPiggybackSearch ods omap.pb.key)
    return { omap with ods }

/-- Finish the DAORAM phase: finish its accesses and go on with the tree. -/
def leaveDaoram (omap : DaOstOmap Ω) : Rand (DaOstOmap Ω) := do
  let omap ← { omap with daoram := (omap.daoram.stepFinish none).2 }.startPiggyback
  return { omap with
    ss := if omap.ss.isPartialDummy then { omap.ss with padRemaining := 1, phase := .odsPad }
      else { omap.ss with phase := .ods } }

/-- Finish the DAORAM phase of a scan: search for the root of the position, if there is one. -/
def leaveScanDaoram (omap : DaOstOmap Ω) : DaOstOmap Ω :=
  let omap := { omap with daoram := (omap.daoram.stepFinish none).2 }
  if omap.ss.scanRoot.1 ≠ invalidKey then
    { omap with
      ods := OmapInterface.beginStepSearch (OdsTree.setRoot omap.ods omap.ss.scanRoot)
        omap.ss.scanRoot.1 none
      ss := { omap.ss with phase := .scanOds } }
  else
    { omap with ss := { omap.ss with
        padRemaining := omap.odsBudget
        phase := if 0 < omap.odsBudget then .scanOdsPad else .done } }

/-- Finish the tree phase: pad up to the budget. -/
def leaveOds (omap : DaOstOmap Ω) (padPhase : DaOstPhase) : DaOstOmap Ω :=
  let odsOps := OdsTree.lastOpCount omap.ods
  let padRemaining := max 0 ((omap.odsBudget : Int) - odsOps)
  { omap with ss := { omap.ss with
      odsOps
      padRemaining
      phase := if 0 < padRemaining then padPhase else .done } }

/-- `step_process`. -/
def stepProcess (omap : DaOstOmap Ω) : Rand (DaOstOmap Ω) :=
  match omap.ss.roundPhase with
  | .daoram => do
      let daoram ← omap.daoram.stepProcess
      let omap := { omap with daoram }
      if daoram.step.done then omap.leaveDaoram else return omap
  | .scanDaoram => do
      let daoram ← omap.daoram.stepProcess
      let omap := { omap with daoram }
      return if daoram.step.done then omap.leaveScanDaoram else omap
  | .ods => do
      let ods ← OmapInterface.stepProcess omap.ods
      let omap := { omap with ods }
      return if !OmapInterface.stepNeedsDecision ods && OmapInterface.stepDone ods then
          omap.leaveOds .odsPad
        else omap
  | .scanOds => do
      let ods ← OmapInterface.stepProcess omap.ods
      let omap := { omap with ods }
      return if OmapInterface.stepDone ods then omap.leaveOds .scanOdsPad else omap
  | .odsPad | .scanOdsPad =>
      let padRemaining := omap.ss.padRemaining - 1
      return { omap with ss := { omap.ss with
        padRemaining
        phase := if padRemaining ≤ 0 then .done else omap.ss.phase } }
  | .done => return omap

/-- `step_prepare_writes`. -/
def stepPrepareWrites (omap : DaOstOmap Ω) : Rand (List StepWriteReq × DaOstOmap Ω) :=
  match omap.ss.roundPhase with
  | .daoram | .scanDaoram => do
      let (writes, daoram) ← omap.daoram.stepGetWrites
      return (writes, { omap with daoram })
  | .ods | .scanOds => do
      let (writes, ods) ← OmapInterface.stepPrepareWrites omap.ods
      return (writes, { omap with ods })
  | .odsPad | .scanOdsPad => do
      let (data, oram) ← (OdsTree.oram omap.ods).prepareEviction omap.ss.padRoundLeaf
      return ([{ storeId := oram.storage.storeId, data }],
        { omap with ods := OdsTree.setOram omap.ods oram })
  | .done => return ([], omap)

/-- The server's side of a write. -/
def writeStore (omap : DaOstOmap Ω) (request : StepWriteReq) : DaOstOmap Ω :=
  match omap.ss.roundPhase with
  | .daoram | .scanDaoram => { omap with daoram := omap.daoram.writeStore request }
  | .ods | .scanOds => { omap with ods := OmapInterface.writeStore omap.ods request }
  | .odsPad | .scanOdsPad | .done => { omap with
      ods := OdsTree.setOram omap.ods ((OdsTree.oram omap.ods).writePath request.data) }

/-- `step_done`. -/
def stepDone (omap : DaOstOmap Ω) : Bool := omap.ss.phase == .done

/-! ## Decisions -/

/-- `set_step_decision_enabled`. -/
def setStepDecisionEnabled (omap : DaOstOmap Ω) (enable : Bool) : DaOstOmap Ω :=
  { omap with ods := OmapInterface.setStepDecisionEnabled omap.ods enable }

/-- `step_needs_decision`. -/
def stepNeedsDecision (omap : DaOstOmap Ω) : Bool :=
  omap.ss.phase == .ods && OmapInterface.stepNeedsDecision omap.ods

/-- `step_commit_remove` or `step_commit_noop`. -/
def stepCommit (omap : DaOstOmap Ω) (remove : Bool) : Rand (DaOstOmap Ω) := do
  let ods ← if remove then OmapInterface.stepCommitRemove omap.ods
    else OmapInterface.stepCommitNoop omap.ods
  return { omap with ods }

/-! ## Finishing -/

/-- `step_finish`. -/
def stepFinish (omap : DaOstOmap Ω) : Bytes × DaOstOmap Ω :=
  if omap.ss.isScan then
    if omap.ss.scanRoot.1 ≠ invalidKey then
      ([], { omap with ss.scanResult := OmapInterface.stepFinish omap.ods }.storeRoot
        omap.ss.scanPos)
    else ([], omap)
  else if omap.ss.isDummy then (omap.ss.result, omap)
  else
    let result := OmapInterface.stepFinish omap.ods
    let omap := { omap with ss.result := result }
    (result,
      if omap.pb.active then omap.cacheRoot omap.ss.pos omap.pb.savedMainRoot
      else omap.storeRoot omap.ss.pos)

/-- `step_finish_scan`. -/
def stepFinishScan (omap : DaOstOmap Ω) : (Int × Bytes) × DaOstOmap Ω :=
  ((omap.ss.scanRoot.1, omap.ss.scanResult), omap.nextScanPos)

/-- `finish_piggyback`. -/
def finishPiggyback (omap : DaOstOmap Ω) : Bytes × DaOstOmap Ω :=
  if !omap.pb.active then ([], omap)
  else
    let omap := if omap.pb.isDummy then omap
      else
        { omap with pb.result := OmapInterface.finishPiggyback omap.ods }.storeRoot omap.pb.pos
    (omap.pb.result, { omap with pb.active := false, pb.result := [] })

/-! ## Driving the step interface -/

/--
A round: the server answers the reads, the client processes them, a decision that
is due is taken, and the server writes. Returns the requests.
-/
def stepRound (omap : DaOstOmap Ω) (remove : Bool) :
    Rand ((List StepReadReq × List StepWriteReq) × DaOstOmap Ω) := do
  let (reads, omap) ← omap.stepNextRound
  send (.batchRead (reads.map StepReadReq.storeId))
  let omap ← (omap.stepApplyReads (reads.map omap.readStore)).stepProcess
  let omap ← doWhen omap.stepNeedsDecision (omap.stepCommit remove) omap
  let (writes, omap) ← omap.stepPrepareWrites
  send (.batchWrite (writes.map StepWriteReq.storeId))
  return ((reads, writes), writes.foldl writeStore omap)

end DaOstOmap

end TieredOmap
