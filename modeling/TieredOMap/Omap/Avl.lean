import Mathlib.Data.List.Sort
import TieredOMap.Omap.SplitOram

/-!
# The oblivious AVL tree

`AVLOmap` (`avl_omap.cpp`): every node is one ORAM block, which also holds the
keys, leaves and heights of its children. An operation moves the nodes of a
path to `local_`, changes them there, gives every one of them a new leaf and
puts them back into the stash. Loops bounded by `max_height_` recurse on the
number of iterations left; the recursions over a freshly built tree recurse on
a bound for its depth.
-/

namespace TieredOmap

/-- `AVL_HEADER_SIZE`. -/
abbrev avlHeaderSize : Nat := 24

/-- `AVLNodeData`. -/
structure AVLNodeData where
  data : Bytes := []
  lKey : Int := invalidKey
  lLeaf : Int := invalidLeaf
  lHeight : Int := 0
  rKey : Int := invalidKey
  rLeaf : Int := invalidLeaf
  rHeight : Int := 0
deriving DecidableEq, Repr, Inhabited

namespace AVLNodeData

/-- `height`. -/
def height (avl : AVLNodeData) : Int := 1 + max avl.lHeight avl.rHeight

/-- `balance`. -/
def balance (avl : AVLNodeData) : Int := avl.lHeight - avl.rHeight

/-- `encode`. -/
def encode (avl : AVLNodeData) : Bytes :=
  intToBytes avl.lKey ++ intToBytes avl.lLeaf ++ intToBytes avl.lHeight ++
    intToBytes avl.rKey ++ intToBytes avl.rLeaf ++ intToBytes avl.rHeight ++ avl.data

/-- `decode`. -/
def decode (raw : Bytes) : Rand AVLNodeData :=
  if raw.length < avlHeaderSize then Prog.fail .bufferTooSmall
  else return {
    lKey := bytesToInt raw, lLeaf := bytesToInt (raw.drop 4), lHeight := bytesToInt (raw.drop 8)
    rKey := bytesToInt (raw.drop 12), rLeaf := bytesToInt (raw.drop 16)
    rHeight := bytesToInt (raw.drop 20), data := raw.drop avlHeaderSize }

end AVLNodeData

/-- `AVLOmap::LocalNode`. -/
structure AVLLocalNode where
  key : Int
  leaf : Int
  avl : AVLNodeData
  parentKey : Int
  depth : Int
deriving DecidableEq, Repr, Inhabited

/-- `AVLOmap::StepPhase`. -/
inductive AVLStepPhase where
  | traverse
  | pad
  | done
deriving DecidableEq, Repr, Inhabited

/-- `AVLOmap::StepState`. -/
structure AVLStepState where
  phase : AVLStepPhase := .done
  key : Int := invalidKey
  update : Option Bytes := none
  isDummy : Bool := false
  curKey : Int := invalidKey
  curLeaf : Int := invalidLeaf
  depth : Int := 0
  budget : Int := 0
  ops : Int := 0
  padRemaining : Int := 0
  dummyStep : Int := 0
  dummySplitBoundary : Int := 0
  curRound : Option RoundPath := none
  result : Bytes := []
deriving DecidableEq, Repr, Inhabited

/-- `AVLOmap::PBState`. -/
structure AVLPBState where
  active : Bool := false
  phase : AVLStepPhase := .done
  key : Int := invalidKey
  curKey : Int := invalidKey
  curLeaf : Int := invalidLeaf
  depth : Int := 0
  ops : Int := 0
  budget : Int := 0
  padRemaining : Int := 0
  dummyStep : Int := 0
  dummySplitBoundary : Int := 0
  curRound : Option RoundPath := none
  result : Bytes := []
  nodeInLocal : Bool := false
  traverseDone : Bool := false
  isInsert : Bool := false
  insertValue : Bytes := []
deriving DecidableEq, Repr, Inhabited

/-- `AVLOmap`. -/
structure AVLOmap where
  ss : AVLStepState := {}
  pb : AVLPBState := {}
  capacity : Int := 0
  maxHeight : Int := 0
  rootKey : Int := invalidKey
  rootLeaf : Int := invalidLeaf
  orams : SplitOram := {}
  local_ : List AVLLocalNode := []
  odsMode : Bool := false
  opCount : Int := 0
  upperOpCount : Int := 0
  lowerOpCount : Int := 0

instance : Inhabited AVLOmap := ⟨{}⟩

namespace AVLOmap

variable [Cipher]

/-- `max(1, ceil(1.44 * log2(max(capacity, 2))))`, with the logarithm taken exactly. -/
def maxHeightFor (capacity : Int) : Int :=
  max 1 (((ceilLog2 (max capacity 2 ^ 36) : Int) + 24) / 25)

/-- The constructor without a split. -/
def new (capacity bucketSize : Int) : Rand AVLOmap := do
  let oram ← PathORAM.new capacity bucketSize 7
  return { capacity, orams := { oram }, maxHeight := maxHeightFor capacity }

/-- The constructor with a split. -/
def newSplit (capacity bucketSize splitDepth upperCapacity : Int) : Rand AVLOmap := do
  let upperOram ← PathORAM.new (max upperCapacity 1) bucketSize 7
  let oram ← PathORAM.new capacity bucketSize 7
  let maxHeight := maxHeightFor capacity
  return { capacity, maxHeight
           orams := { splitDepth := min splitDepth maxHeight, upperOram, oram } }

/-- `reset_op_counts`. -/
def resetOpCounts (omap : AVLOmap) : AVLOmap :=
  { omap with opCount := 0, upperOpCount := 0, lowerOpCount := 0 }

/-- Count one operation at a depth. -/
def countOp (omap : AVLOmap) (depth : Int) : AVLOmap :=
  if 0 < omap.orams.splitDepth then
    if depth < omap.orams.splitDepth then { omap with upperOpCount := omap.upperOpCount + 1 }
    else { omap with lowerOpCount := omap.lowerOpCount + 1 }
  else { omap with opCount := omap.opCount + 1 }

/-! ## Initialisation -/

/-- `build_balanced` on `sorted[lo..hi]`: the root's key and the encoded nodes. -/
def buildBalanced (sorted : List (Int × Bytes)) :
    Nat → Int → Int → KeyMap Int Bytes → Int × KeyMap Int Bytes
  | 0, _, _, oramData => (invalidKey, oramData)
  | fuel + 1, lo, hi, oramData =>
      if hi < lo then (invalidKey, oramData)
      else
        let mid := lo + (hi - lo) / 2
        let entry := sorted.getD mid.toNat (invalidKey, [])
        let (lKey, oramData) := buildBalanced sorted fuel lo (mid - 1) oramData
        let (rKey, oramData) := buildBalanced sorted fuel (mid + 1) hi oramData
        (entry.1, oramData.set entry.1
          ({ data := entry.2, lKey := lKey, rKey := rKey } : AVLNodeData).encode)

/-- Decode all nodes. -/
def decodeNodes : List (Int × Bytes) → Rand (List (Int × AVLNodeData))
  | [] => return []
  | (key, raw) :: rest => do
      let avl ← AVLNodeData.decode raw
      let nodes ← decodeNodes rest
      return (key, avl) :: nodes

/-- `nodes.at(key)`. -/
def nodeAt (nodes : List (Int × AVLNodeData)) (key : Int) : Rand AVLNodeData :=
  match KeyMap.lookupEntry nodes key with
  | some avl => return avl
  | none => Prog.fail .outOfRange

/-- Change the node of a key. -/
def setNode (nodes : List (Int × AVLNodeData)) (key : Int) (f : AVLNodeData → AVLNodeData) :
    List (Int × AVLNodeData) :=
  nodes.map (fun entry => if entry.1 = key then (entry.1, f entry.2) else entry)

/-- `fix_heights`: the height of the subtree, with all heights in it filled in. -/
def fixHeights : Nat → Int → List (Int × AVLNodeData) → Rand (Int × List (Int × AVLNodeData))
  | 0, _, nodes => return (0, nodes)
  | fuel + 1, key, nodes =>
      if key = invalidKey then return (0, nodes)
      else do
        let avl ← nodeAt nodes key
        let (lHeight, nodes) ← fixHeights fuel avl.lKey nodes
        let (rHeight, nodes) ← fixHeights fuel avl.rKey nodes
        return ({ avl with lHeight, rHeight }.height,
          setNode nodes key (fun avl => { avl with lHeight, rHeight }))

/-- `assign_leaves` of the split mode. -/
def assignSplitLeaves (nodes : List (Int × AVLNodeData)) :
    Nat → Int → Int → SplitOram → Rand SplitOram
  | 0, _, _, orams => return orams
  | fuel + 1, key, depth, orams =>
      if key = invalidKey then return orams
      else do
        let avl ← nodeAt nodes key
        let (_, orams) ← orams.assignLeaf (orams.halfForDepth depth) key
        let orams ← assignSplitLeaves nodes fuel avl.lKey (depth + 1) orams
        assignSplitLeaves nodes fuel avl.rKey (depth + 1) orams

/-- Fill in the leaves of a node's children, which live in the given half. -/
def withChildLeaves (orams : SplitOram) (half : Half) (avl : AVLNodeData) : AVLNodeData :=
  { avl with
    lLeaf := if avl.lKey ≠ invalidKey then (orams.get half).getLeaf avl.lKey else avl.lLeaf
    rLeaf := if avl.rKey ≠ invalidKey then (orams.get half).getLeaf avl.rKey else avl.rLeaf }

/-- `fix_child_leaves` of the split mode. -/
def fixChildLeaves (orams : SplitOram) :
    Nat → Int → Int → List (Int × AVLNodeData) → Rand (List (Int × AVLNodeData))
  | 0, _, _, nodes => return nodes
  | fuel + 1, key, depth, nodes =>
      if key = invalidKey then return nodes
      else do
        let avl ← nodeAt nodes key
        let nodes := setNode nodes key (withChildLeaves orams (orams.halfForDepth (depth + 1)))
        let nodes ← fixChildLeaves orams fuel avl.lKey (depth + 1) nodes
        fixChildLeaves orams fuel avl.rKey (depth + 1) nodes

/-- `partition` of the split mode: the encoded nodes of the upper and of the lower ORAM. -/
def partitionNodes (orams : SplitOram) (nodes : List (Int × AVLNodeData)) :
    Nat → Int → Int → KeyMap Int Bytes × KeyMap Int Bytes →
      Rand (KeyMap Int Bytes × KeyMap Int Bytes)
  | 0, _, _, parts => return parts
  | fuel + 1, key, depth, parts =>
      if key = invalidKey then return parts
      else do
        let avl ← nodeAt nodes key
        let parts := match orams.halfForDepth depth with
          | .upper => (parts.1.set key avl.encode, parts.2)
          | .lower => (parts.1, parts.2.set key avl.encode)
        let parts ← partitionNodes orams nodes fuel avl.lKey (depth + 1) parts
        partitionNodes orams nodes fuel avl.rKey (depth + 1) parts

/-- The end of `init` with a split. -/
def initSplit (omap : AVLOmap) (root : Int) (nodes : List (Int × AVLNodeData)) : Rand AVLOmap := do
  let fuel := nodes.length
  let upperOram ← PathORAM.new (max omap.orams.upperOram.numData 1)
    omap.orams.upperOram.bucketSize 7
  let oram ← PathORAM.new omap.capacity omap.orams.oram.bucketSize 7
  let orams ← assignSplitLeaves nodes fuel root 0 { omap.orams with upperOram, oram }
  let nodes ← fixChildLeaves orams fuel root 0 nodes
  let (upperData, lowerData) ← partitionNodes orams nodes fuel root 0 (∅, ∅)
  let upperOram ← orams.upperOram.init upperData
  let oram ← orams.oram.init lowerData
  return { omap with orams := { orams with upperOram, oram } }

/-- Give every listed key a leaf. -/
def drawLeaves : List Int → PathORAM → Rand PathORAM
  | [], oram => return oram
  | key :: rest, oram => do
      let leaf ← oram.randomLeaf
      drawLeaves rest (oram.setLeaf key leaf)

/-- The end of `init` without a split. -/
def initWhole (omap : AVLOmap) (nodes : List (Int × AVLNodeData)) : Rand AVLOmap := do
  let oram ← PathORAM.new omap.capacity omap.orams.oram.bucketSize 7
  let oram ← drawLeaves (nodes.map Prod.fst) oram
  let orams := { omap.orams with oram }
  let oramData := nodes.foldl (fun oramData entry =>
    oramData.set entry.1 (withChildLeaves orams .lower entry.2).encode) (∅ : KeyMap Int Bytes)
  let oram ← oram.init oramData
  return { omap with orams := { orams with oram } }

/-- `init`. -/
def init (omap : AVLOmap) (data : List (Int × Bytes)) : Rand AVLOmap :=
  if data.isEmpty then return { omap with rootKey := invalidKey, rootLeaf := invalidLeaf }
  else do
    let sorted := data.insertionSort (fun entry entry' => entry.1 ≤ entry'.1)
    let (root, oramData) := buildBalanced sorted sorted.length 0 (sorted.length - 1) ∅
    let nodes ← decodeNodes oramData.entries
    let (_, nodes) ← fixHeights nodes.length root nodes
    let omap ← if 0 < omap.orams.splitDepth then omap.initSplit root nodes
      else omap.initWhole nodes
    return { omap with
      rootKey := root
      rootLeaf := (omap.orams.get (omap.orams.halfForDepth 0)).getLeaf root }

/-! ## Core operations -/

/-- `local_.push_back`. -/
def pushLocal (omap : AVLOmap) (node : AVLLocalNode) : AVLOmap :=
  { omap with local_ := omap.local_ ++ [node] }

/-- `move_to_local`; also returns the node, which is now `local_.back()`. -/
def moveToLocal (omap : AVLOmap) (key leaf parentKey depth : Int) :
    Rand (AVLLocalNode × AVLOmap) := do
  let half := omap.orams.halfForDepth depth
  let oram ← (omap.orams.get half).readPathToStash leaf
  let (block, oram) ← oram.extractFromStash key
  let avl ← AVLNodeData.decode block.value
  let node : AVLLocalNode := { key, leaf := block.leaf, avl, parentKey, depth }
  let oram ← oram.evictAndWritePath leaf
  return (node, ({ omap with orams := omap.orams.set half oram }.pushLocal node).countOp depth)

/-- `tracked_dummy`. -/
def trackedDummy (omap : AVLOmap) (depth : Int) : Rand AVLOmap := do
  let orams ← omap.orams.dummyAccess (omap.orams.halfForDepth depth)
  return { omap with orams }.countOp depth

/-- `pad_to_budget`. -/
def padToBudget (omap : AVLOmap) (budget : Int) : Rand AVLOmap :=
  if 0 < omap.orams.splitDepth then do
    let upperBudget := min omap.orams.splitDepth budget
    let upperPad := max 0 (upperBudget - omap.upperOpCount)
    let orams ← omap.orams.dummyAccesses .upper upperPad.toNat
    let lowerPad := max 0 (budget - upperBudget - omap.lowerOpCount)
    let orams ← orams.dummyAccesses .lower lowerPad.toNat
    return { omap with
      orams
      upperOpCount := omap.upperOpCount + upperPad
      lowerOpCount := omap.lowerOpCount + lowerPad }
  else do
    let pad := max 0 (budget - (omap.upperOpCount + omap.lowerOpCount + omap.opCount))
    let orams ← omap.orams.dummyAccesses .lower pad.toNat
    return { omap with orams, opCount := omap.opCount + pad }

/-- `if (!ods_mode_) pad_to_budget(budget)`. -/
def padUnlessOds (omap : AVLOmap) (budget : Int) : Rand AVLOmap :=
  if omap.odsMode then return omap else omap.padToBudget budget

/-- `flush_local_to_stash`. -/
def flushLocalToStash (omap : AVLOmap) : AVLOmap :=
  { omap with
    orams := omap.local_.foldl (fun orams node =>
      orams.addToStash (orams.halfForDepth node.depth)
        { key := node.key, leaf := node.leaf, value := node.avl.encode }) omap.orams
    local_ := [] }

/-- Give the nodes of a list new leaves, last node first. -/
def drawLocalLeaves : List AVLLocalNode → SplitOram → Rand (List AVLLocalNode × SplitOram)
  | [], orams => return ([], orams)
  | node :: rest, orams => do
      let (rest, orams) ← drawLocalLeaves rest orams
      let (leaf, orams) ← orams.assignLeaf (orams.halfForDepth node.depth) node.key
      return ({ node with leaf } :: rest, orams)

/-- Point a parent at the leaf of one of its children. -/
def pointAt (child parent : AVLLocalNode) : AVLLocalNode :=
  if parent.avl.lKey = child.key then { parent with avl := { parent.avl with lLeaf := child.leaf } }
  else if parent.avl.rKey = child.key then
    { parent with avl := { parent.avl with rLeaf := child.leaf } }
  else parent

/-- Point the parent of one local node at its new leaf. -/
def pointParent (nodes : List AVLLocalNode) (child : AVLLocalNode) : List AVLLocalNode :=
  if child.parentKey = invalidKey then nodes
  else modifyFirst (fun parent => parent.key == child.parentKey) (pointAt child) nodes

/-- `reassign_leaves`. -/
def reassignLeaves (omap : AVLOmap) : Rand AVLOmap := do
  let (nodes, orams) ← drawLocalLeaves omap.local_ omap.orams
  let rootLeaf := match nodes.find? (fun node => node.key == omap.rootKey) with
    | some node => node.leaf
    | none => omap.rootLeaf
  return { omap with orams, rootLeaf, local_ := nodes.reverse.foldl pointParent nodes }

/-- The key of `local_.back()`, or `INVALID_KEY`. -/
def lastKey (omap : AVLOmap) : Int :=
  match omap.local_.getLast? with
  | some node => node.key
  | none => invalidKey

/-- Change `local_.back()`. -/
def modifyLast (omap : AVLOmap) (f : AVLLocalNode → AVLLocalNode) : AVLOmap :=
  { omap with local_ := omap.local_.modify (omap.local_.length - 1) f }

/-! ## Search and dummy accesses -/

/-- The loop of `search`, at depth `d`. -/
def searchLoop (key : Int) (update : Option Bytes) :
    Nat → Int → Int → Int → AVLOmap → Rand (Bytes × AVLOmap)
  | 0, _, _, _, omap => return ([], omap)
  | count + 1, d, curKey, curLeaf, omap =>
      if curKey = invalidKey then return ([], omap)
      else do
        let (node, omap) ← omap.moveToLocal curKey curLeaf omap.lastKey d
        if key = curKey then
          return (node.avl.data, omap.modifyLast (fun node =>
            { node with avl := { node.avl with data := update.getD node.avl.data } }))
        else if key < curKey then
          searchLoop key update count (d + 1) node.avl.lKey node.avl.lLeaf omap
        else searchLoop key update count (d + 1) node.avl.rKey node.avl.rLeaf omap

/-- `search`. -/
def search (omap : AVLOmap) (key : Int) (update : Option Bytes) : Rand (Bytes × AVLOmap) := do
  let omap := omap.resetOpCounts
  let budget := 3 * omap.maxHeight
  if omap.rootKey = invalidKey then
    let omap ← omap.padUnlessOds budget
    return ([], omap)
  else
    let (result, omap) ← searchLoop key update omap.maxHeight.toNat 0 omap.rootKey omap.rootLeaf
      { omap with local_ := [] }
    let omap ← omap.reassignLeaves
    let omap ← omap.flushLocalToStash.padUnlessOds budget
    return (result, omap)

/-- `dummy_access`. -/
def dummyAccess (omap : AVLOmap) : Rand AVLOmap :=
  omap.resetOpCounts.padToBudget (3 * omap.maxHeight)

/-- `partial_dummy_access`. -/
def partialDummyAccess (omap : AVLOmap) : Rand AVLOmap :=
  if omap.orams.splitDepth ≤ 0 then omap.dummyAccess
  else do
    let effSplit := min omap.orams.splitDepth (3 * omap.maxHeight)
    let orams ← omap.orams.dummyAccesses .upper effSplit.toNat
    let orams ← orams.dummyAccess .lower
    return { omap.resetOpCounts with orams, upperOpCount := effSplit, lowerOpCount := 1 }

/-! ## Rotations -/

/-- Take over the heights of the children that are local. -/
def refreshHeights (nodes : List AVLLocalNode) (node : AVLLocalNode) : AVLLocalNode :=
  nodes.foldl (fun node child =>
    let node := if child.key = node.avl.lKey then
      { node with avl := { node.avl with lHeight := child.avl.height } } else node
    if child.key = node.avl.rKey then
      { node with avl := { node.avl with rHeight := child.avl.height } } else node) node

/-- `update_heights`, last node first. -/
def updateHeights (omap : AVLOmap) : AVLOmap :=
  { omap with
    local_ := (List.range omap.local_.length).reverse.foldl
      (fun nodes i => nodes.modify i (refreshHeights nodes)) omap.local_ }

/-- The index of the first local node with a key. -/
def localIdx (omap : AVLOmap) (key : Int) : Option Nat :=
  omap.local_.findIdx? (fun node => node.key == key)

/-- Replace the child `oldKey` of a parent by another node. -/
def relinkChild (oldKey : Int) (child : AVLLocalNode) (parent : AVLLocalNode) : AVLLocalNode :=
  if parent.avl.lKey = oldKey then
    { parent with avl := { parent.avl with
        lKey := child.key, lLeaf := child.leaf, lHeight := child.avl.height } }
  else if parent.avl.rKey = oldKey then
    { parent with avl := { parent.avl with
        rKey := child.key, rLeaf := child.leaf, rHeight := child.avl.height } }
  else parent

/-- The node going down in a rotation takes over the pivot's inner child. -/
def rotateDown (left : Bool) (pivot node : AVLLocalNode) : AVLLocalNode :=
  { node with
    parentKey := pivot.key
    avl := if left then { node.avl with
        rKey := pivot.avl.lKey, rLeaf := pivot.avl.lLeaf, rHeight := pivot.avl.lHeight }
      else { node.avl with
        lKey := pivot.avl.rKey, lLeaf := pivot.avl.rLeaf, lHeight := pivot.avl.rHeight } }

/-- The pivot goes up, above the node that went down. -/
def rotateUp (left : Bool) (down pivot : AVLLocalNode) (parentKey : Int) : AVLLocalNode :=
  { pivot with
    parentKey
    avl := if left then { pivot.avl with
        lKey := down.key, lLeaf := down.leaf, lHeight := down.avl.height }
      else { pivot.avl with
        rKey := down.key, rLeaf := down.leaf, rHeight := down.avl.height } }

/-- `rotate`; nothing happens when the pivot is not local. -/
def rotate (omap : AVLOmap) (idx : Nat) (left : Bool) : AVLOmap :=
  let node := omap.local_.getD idx default
  let pivotKey := if left then node.avl.rKey else node.avl.lKey
  match omap.localIdx pivotKey with
  | none => omap
  | some pivotIdx =>
      let pivot := omap.local_.getD pivotIdx default
      let transferredKey := if left then pivot.avl.lKey else pivot.avl.rKey
      let down := rotateDown left pivot node
      let up := rotateUp left down pivot node.parentKey
      let nodes := (omap.local_.set idx down).set pivotIdx up
      let nodes := modifyFirst (fun parent => parent.key == node.parentKey)
        (relinkChild node.key up) nodes
      let nodes := if transferredKey = invalidKey then nodes
        else modifyFirst (fun child => child.key == transferredKey)
          (fun child => { child with parentKey := node.key }) nodes
      { omap with
        local_ := nodes
        rootKey := if omap.rootKey = node.key then pivot.key else omap.rootKey }

/-- The first local node with a key and a balance on the given side. -/
def leaningIdx (omap : AVLOmap) (key : Int) (leans : Int → Bool) : Option Nat :=
  omap.local_.findIdx? (fun node => node.key == key && leans node.avl.balance)

/-- Rotate at an index, if there is one. -/
def rotateAt? (omap : AVLOmap) (left : Bool) : Option Nat → AVLOmap
  | none => omap
  | some idx => omap.rotate idx left

/-- `balance_node`. -/
def balanceNode (omap : AVLOmap) (idx : Nat) : AVLOmap :=
  let node := omap.local_.getD idx default
  if 1 < node.avl.balance then
    (omap.rotateAt? true (omap.leaningIdx node.avl.lKey (· < 0))).rotate idx false
  else if node.avl.balance < -1 then
    (omap.rotateAt? false (omap.leaningIdx node.avl.rKey (0 < ·))).rotate idx true
  else omap

/-- `rebalance`, last node first. -/
def rebalance (omap : AVLOmap) : AVLOmap :=
  ((List.range omap.local_.length).reverse.foldl
    (fun omap i => omap.updateHeights.balanceNode i) omap).updateHeights

/-! ## Insertion -/

/-- A new node below `parentKey`, its leaf already drawn. -/
def newNode (key leaf : Int) (value : Bytes) (parentKey depth : Int) : AVLLocalNode :=
  { key, leaf, avl := { data := value }, parentKey, depth }

/-- Hang a new node under `local_.back()`. -/
def attachNew (omap : AVLOmap) (key : Int) (value : Bytes) (onLeft : Bool) (parentKey depth : Int) :
    Rand AVLOmap := do
  let (leaf, orams) ← omap.orams.assignLeaf (omap.orams.halfForDepth depth) key
  let omap := { omap with orams }.modifyLast (fun node => { node with avl :=
    if onLeft then { node.avl with lKey := key, lLeaf := leaf, lHeight := 1 }
    else { node.avl with rKey := key, rLeaf := leaf, rHeight := 1 } })
  return omap.pushLocal (newNode key leaf value parentKey depth)

/-- The loop of `insert`, at depth `d`. -/
def insertLoop (key : Int) (value : Bytes) : Nat → Int → Int → Int → AVLOmap → Rand AVLOmap
  | 0, _, _, _, omap => return omap
  | count + 1, d, curKey, curLeaf, omap =>
      if curKey = invalidKey then return omap
      else do
        let (node, omap) ← omap.moveToLocal curKey curLeaf omap.lastKey d
        if key < curKey then
          if node.avl.lKey = invalidKey then omap.attachNew key value true curKey (d + 1)
          else insertLoop key value count (d + 1) node.avl.lKey node.avl.lLeaf omap
        else if node.avl.rKey = invalidKey then omap.attachNew key value false curKey (d + 1)
        else insertLoop key value count (d + 1) node.avl.rKey node.avl.rLeaf omap

/-- `insert`. -/
def insert (omap : AVLOmap) (key : Int) (value : Bytes) : Rand AVLOmap := do
  let omap := omap.resetOpCounts
  let budget := 3 * omap.maxHeight
  if omap.rootKey = invalidKey then
    let half := omap.orams.halfForDepth 0
    let (leaf, orams) ← omap.orams.assignLeaf half key
    let orams := orams.addToStash half
      { key, leaf, value := ({ data := value } : AVLNodeData).encode }
    { omap with orams, rootKey := key, rootLeaf := leaf }.padUnlessOds budget
  else
    let omap ← insertLoop key value omap.maxHeight.toNat 0 omap.rootKey omap.rootLeaf
      { omap with local_ := [] }
    let omap ← omap.updateHeights.rebalance.reassignLeaves
    omap.flushLocalToStash.padUnlessOds budget

/-! ## Removal -/

/-- The loop that goes on to the in-order successor, at depth `sd`. -/
def successorLoop : Nat → Int → Int → Int → AVLOmap → Rand AVLOmap
  | 0, _, _, _, omap => return omap
  | count + 1, sd, sKey, sLeaf, omap => do
      let (node, omap) ← omap.moveToLocal sKey sLeaf omap.lastKey sd
      if node.avl.lKey = invalidKey then return omap
      else successorLoop count (sd + 1) node.avl.lKey node.avl.lLeaf omap

/-- What the traversal of `remove` found: the target's index and whether it has two children. -/
structure RemoveTarget where
  idx : Nat
  twoChild : Bool
deriving DecidableEq, Repr

/-- The traversal of `remove`, at depth `d`. -/
def removeLoop (key : Int) :
    Nat → Int → Int → Int → AVLOmap → Rand (Option RemoveTarget × AVLOmap)
  | 0, _, _, _, omap => return (none, omap)
  | count + 1, d, curKey, curLeaf, omap =>
      if curKey = invalidKey then return (none, omap)
      else do
        let (node, omap) ← omap.moveToLocal curKey curLeaf omap.lastKey d
        let idx := omap.local_.length - 1
        if key = curKey then
          if node.avl.lKey ≠ invalidKey ∧ node.avl.rKey ≠ invalidKey then do
            let omap ← successorLoop count (d + 1) node.avl.rKey node.avl.rLeaf omap
            return (some { idx, twoChild := true }, omap)
          else return (some { idx, twoChild := false }, omap)
        else if key < node.key then
          removeLoop key count (d + 1) node.avl.lKey node.avl.lLeaf omap
        else removeLoop key count (d + 1) node.avl.rKey node.avl.rLeaf omap

/-- Rename the child `oldKey` of a parent. -/
def renameChild (oldKey newKey : Int) (parent : AVLLocalNode) : AVLLocalNode :=
  if parent.avl.lKey = oldKey then { parent with avl := { parent.avl with lKey := newKey } }
  else if parent.avl.rKey = oldKey then { parent with avl := { parent.avl with rKey := newKey } }
  else parent

/-- The target takes over key and data of its successor, which is `local_.back()`. -/
def renameTarget (omap : AVLOmap) (idx : Nat) : AVLOmap :=
  let succ := omap.local_.getD (omap.local_.length - 1) default
  let target := omap.local_.getD idx default
  let nodes := omap.local_.modify idx (fun node =>
    { node with key := succ.key, avl := { node.avl with data := succ.avl.data } })
  let nodes := if target.parentKey = invalidKey then nodes
    else modifyFirst (fun parent => parent.key == target.parentKey)
      (renameChild target.key succ.key) nodes
  { omap with
    rootKey := if omap.rootKey = target.key then succ.key else omap.rootKey
    local_ := nodes.map (fun child =>
      if child.parentKey = target.key then { child with parentKey := succ.key } else child) }

/-- The child pointer of a parent is replaced. -/
def replaceChild (oldKey childKey childLeaf childHeight : Int) (parent : AVLLocalNode) :
    AVLLocalNode :=
  if parent.avl.lKey = oldKey then
    { parent with avl := { parent.avl with
        lKey := childKey, lLeaf := childLeaf, lHeight := childHeight } }
  else if parent.avl.rKey = oldKey then
    { parent with avl := { parent.avl with
        rKey := childKey, rLeaf := childLeaf, rHeight := childHeight } }
  else parent

/-- Unlink the local node at an index, which has at most one child. -/
def unlink (omap : AVLOmap) (idx : Nat) : AVLOmap :=
  let node := omap.local_.getD idx default
  let onLeft : Bool := node.avl.lKey != invalidKey
  let childKey := if onLeft then node.avl.lKey else node.avl.rKey
  let childLeaf := if onLeft then node.avl.lLeaf else node.avl.rLeaf
  let childHeight := if childKey = invalidKey then 0
    else if onLeft then node.avl.lHeight else node.avl.rHeight
  let omap := if node.parentKey = invalidKey then
      { omap with
        rootKey := childKey
        rootLeaf := if childKey = invalidKey then invalidLeaf else childLeaf }
    else { omap with
      local_ := modifyFirst (fun parent => parent.key == node.parentKey)
        (replaceChild node.key childKey childLeaf childHeight) omap.local_ }
  { omap with local_ := omap.local_.eraseIdx idx }

/-- Delete what the traversal found. -/
def deleteTarget (omap : AVLOmap) : Option RemoveTarget → AVLOmap
  | none => omap
  | some target =>
      if target.twoChild then (omap.renameTarget target.idx).unlink (omap.local_.length - 1)
      else omap.unlink target.idx

/-- Fetch a node unless it is local; then make a dummy access instead. -/
def fetchUnlessLocal (omap : AVLOmap) (key leaf parentKey depth : Int) : Rand AVLOmap :=
  if key ≠ invalidKey ∧ omap.localIdx key = none then do
    let (_, omap) ← omap.moveToLocal key leaf parentKey depth
    return omap
  else omap.trackedDummy depth

/-- The key and leaf of the tall child's inner child, when a double rotation is needed. -/
def innerChild (balance : Int) (tall : AVLNodeData) : Int × Int :=
  if 1 < balance ∧ tall.balance < 0 then (tall.rKey, tall.rLeaf)
  else if balance < -1 ∧ 0 < tall.balance then (tall.lKey, tall.lLeaf)
  else (invalidKey, invalidLeaf)

/-- Rebalance the local node at an index, fetching the nodes the rotations need. -/
def fetchAndBalance (omap : AVLOmap) (node : AVLLocalNode) : Rand AVLOmap := do
  let balance := node.avl.balance
  let tallKey := if 1 < balance then node.avl.lKey else node.avl.rKey
  let tallLeaf := if 1 < balance then node.avl.lLeaf else node.avl.rLeaf
  let omap ← omap.fetchUnlessLocal tallKey tallLeaf node.key (node.depth + 1)
  let tall := omap.local_.find? (fun local_ => local_.key == tallKey)
  let tallDepth := match tall with
    | some tall => tall.depth
    | none => node.depth + 1
  let inner := match tall with
    | some tall => innerChild balance tall.avl
    | none => (invalidKey, invalidLeaf)
  let omap ← omap.fetchUnlessLocal inner.1 inner.2 tallKey (tallDepth + 1)
  let omap := omap.updateHeights
  let omap := match omap.localIdx node.key with
    | some idx => omap.balanceNode idx
    | none => omap
  return omap.updateHeights

/-- One step of the way back up: two ORAM accesses for each node of the path. -/
def backUpStep (omap : AVLOmap) (key : Int) : Rand AVLOmap :=
  match omap.localIdx key with
  | none => do
      let omap ← omap.trackedDummy omap.orams.splitDepth
      omap.trackedDummy omap.orams.splitDepth
  | some idx =>
      let omap := { omap with local_ := omap.local_.modify idx (refreshHeights omap.local_) }
      let node := omap.local_.getD idx default
      if node.avl.balance.natAbs ≤ 1 then do
        let omap ← omap.trackedDummy node.depth
        omap.trackedDummy node.depth
      else omap.fetchAndBalance node

/-- The way back up over the given keys. -/
def backUp : List Int → AVLOmap → Rand AVLOmap
  | [], omap => return omap
  | key :: rest, omap => do
      let omap ← omap.backUpStep key
      backUp rest omap

/-- `remove`. -/
def remove (omap : AVLOmap) (key : Int) : Rand AVLOmap := do
  let omap := omap.resetOpCounts
  let budget := 3 * omap.maxHeight
  if omap.rootKey = invalidKey then omap.padUnlessOds budget
  else
    let (target, omap) ← removeLoop key omap.maxHeight.toNat 0 omap.rootKey omap.rootLeaf
      { omap with local_ := [] }
    let omap := omap.deleteTarget target
    let omap ← backUp (omap.local_.map AVLLocalNode.key).reverse omap
    let omap ← omap.reassignLeaves
    omap.flushLocalToStash.padUnlessOds budget

end AVLOmap

end TieredOmap
