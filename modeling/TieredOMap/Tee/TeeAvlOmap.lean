import TieredOMap.Omap.Avl
import TieredOMap.Tee.EnclaveOram

/-!
# The oblivious AVL tree of the enclave

`TeeAvlOmap` (`tee/tee_avl_omap.cpp`): no operation branches on a key. A step of an
operation reads and evicts a path whether it is real or not, and adds an entry to
`local_` that is a dummy if the step was not real. What is done to the entries is done by
scanning all of them with conditional moves. Loops over `local_` that change the entries
one by one are maps; page statistics are left out.
-/

namespace TieredOmap

/-- `TeeAvlOmap`. -/
structure TeeAvlOmap where
  maxHeight : Nat := 0
  splitDepth : Int := 0
  valueSize : Nat := 0
  rootKey : Int := invalidKey
  rootLeaf : Int := invalidLeaf
  upperOram : EnclaveOram := {}
  lowerOram : EnclaveOram := {}
  local_ : List AVLLocalNode := []
  upperOps : Int := 0
  lowerOps : Int := 0

instance : Inhabited TeeAvlOmap := ⟨{}⟩

namespace TeeAvlOmap

/-- The constructor. -/
def new (capacity : Int) (valueSize bucketSize : Nat) (splitDepth : Int) : TeeAvlOmap :=
  let maxHeight := (AVLOmap.maxHeightFor capacity).toNat
  let splitDepth := min splitDepth maxHeight
  let nodeSize := avlHeaderSize + valueSize
  { maxHeight, splitDepth, valueSize
    upperOram := if 0 < splitDepth then
        EnclaveOram.new (max (2 ^ splitDepth.toNat - 1) 1) nodeSize bucketSize
      else {}
    lowerOram := EnclaveOram.new capacity nodeSize bucketSize }

/-- Nodes at this depth are kept in the upper ORAM. -/
def inUpper (omap : TeeAvlOmap) (depth : Int) : Bool :=
  0 < omap.splitDepth && depth < omap.splitDepth

/-- `oram_for_depth`. -/
def oramForDepth (omap : TeeAvlOmap) (depth : Int) : EnclaveOram :=
  if omap.inUpper depth then omap.upperOram else omap.lowerOram

/-- The name of the ORAM for a depth. -/
def nameForDepth (omap : TeeAvlOmap) (depth : Int) : OramName :=
  if omap.inUpper depth then .upper else .lower

/-- Replace the ORAM for a depth. -/
def setOram (omap : TeeAvlOmap) (depth : Int) (oram : EnclaveOram) : TeeAvlOmap :=
  if omap.inUpper depth then { omap with upperOram := oram } else { omap with lowerOram := oram }

/-- Count a step at a depth. -/
def countOp (omap : TeeAvlOmap) (depth : Int) : TeeAvlOmap :=
  if omap.inUpper depth then { omap with upperOps := omap.upperOps + 1 }
  else { omap with lowerOps := omap.lowerOps + 1 }

/-- `begin_stats` and `local_.clear()`. -/
def beginOp (omap : TeeAvlOmap) : TeeAvlOmap :=
  { omap with upperOps := 0, lowerOps := 0, local_ := [] }

/-! ## Initialisation -/

/-- `build` on `sorted[lo..hi]`: the root's key and the nodes. -/
def build (sorted : List (Int × Bytes)) :
    Nat → Int → Int → KeyMap Int AVLNodeData → Int × KeyMap Int AVLNodeData
  | 0, _, _, nodes => (invalidKey, nodes)
  | fuel + 1, lo, hi, nodes =>
      if hi < lo then (invalidKey, nodes)
      else
        let mid := lo + (hi - lo) / 2
        let entry := sorted.getD mid.toNat (invalidKey, [])
        let (lKey, nodes) := build sorted fuel lo (mid - 1) nodes
        let (rKey, nodes) := build sorted fuel (mid + 1) hi nodes
        (entry.1, nodes.set entry.1 { data := entry.2, lKey := lKey, rKey := rKey })

/-- `assign`: draw a leaf for every node. -/
def assignLeaves (omap : TeeAvlOmap) (nodes : List (Int × AVLNodeData)) :
    Nat → Int → Int → KeyMap Int Int → TeeRand (KeyMap Int Int)
  | 0, _, _, leaves => return leaves
  | fuel + 1, key, depth, leaves =>
      if key = invalidKey then return leaves
      else do
        let leaf ← (omap.oramForDepth depth).randomLeaf
        let avl ← inTee (AVLOmap.nodeAt nodes key)
        let leaves ← assignLeaves omap nodes fuel avl.lKey (depth + 1) (leaves.set key leaf)
        assignLeaves omap nodes fuel avl.rKey (depth + 1) leaves

/-- Fill in the leaves of a node's children. -/
def withLeaves (leaves : KeyMap Int Int) (avl : AVLNodeData) : AVLNodeData :=
  { avl with
    lLeaf := if avl.lKey ≠ invalidKey then leaves.getD avl.lKey 0 else avl.lLeaf
    rLeaf := if avl.rKey ≠ invalidKey then leaves.getD avl.rKey 0 else avl.rLeaf }

/-- `partition`: the encoded nodes of the upper and of the lower ORAM, in preorder. -/
def partitionNodes (omap : TeeAvlOmap) (nodes : List (Int × AVLNodeData)) :
    Nat → Int → Int → TeeRand (List (Int × Bytes) × List (Int × Bytes))
  | 0, _, _ => return ([], [])
  | fuel + 1, key, depth =>
      if key = invalidKey then return ([], [])
      else do
        let avl ← inTee (AVLOmap.nodeAt nodes key)
        let left ← partitionNodes omap nodes fuel avl.lKey (depth + 1)
        let right ← partitionNodes omap nodes fuel avl.rKey (depth + 1)
        let rest := (left.1 ++ right.1, left.2 ++ right.2)
        return if depth < omap.splitDepth then ((key, avl.encode) :: rest.1, rest.2)
          else (rest.1, (key, avl.encode) :: rest.2)

/-- `init` of an ORAM unless there is nothing to put into it. -/
def initUnlessEmpty (oram : EnclaveOram) (data : List (Int × Bytes)) (leaves : KeyMap Int Int) :
    TeeRand EnclaveOram :=
  if data.isEmpty then return oram
  else do
    let initialised ← oram.init data leaves
    return initialised.2

/-- `init`. -/
def init (omap : TeeAvlOmap) (data : List (Int × Bytes)) : TeeRand TeeAvlOmap :=
  if data.isEmpty then return { omap with rootKey := invalidKey, rootLeaf := invalidLeaf }
  else do
    let sorted := data.insertionSort (fun entry entry' => entry.1 ≤ entry'.1)
    let (root, built) := build sorted sorted.length 0 (sorted.length - 1) ∅
    let fuel := built.entries.length
    let (_, nodes) ← inTee (AVLOmap.fixHeights fuel root built.entries)
    let leaves ← omap.assignLeaves nodes fuel root 0 ∅
    let nodes := nodes.map (fun entry => (entry.1, withLeaves leaves entry.2))
    let omap : TeeAvlOmap := { omap with rootKey := root, rootLeaf := leaves.getD root 0 }
    if 0 < omap.splitDepth then
      let (upperData, lowerData) ← omap.partitionNodes nodes fuel root 0
      let upperOram ← initUnlessEmpty omap.upperOram upperData leaves
      let lowerOram ← initUnlessEmpty omap.lowerOram lowerData leaves
      return { omap with upperOram, lowerOram }
    else
      let lowerOram ← omap.lowerOram.init (nodes.map (fun entry => (entry.1, entry.2.encode))) leaves
      return { omap with lowerOram := lowerOram.2 }

/-! ## Steps -/

/-- `local_.push_back`. -/
def pushLocal (omap : TeeAvlOmap) (node : AVLLocalNode) : TeeAvlOmap :=
  { omap with local_ := omap.local_ ++ [node] }

/-- `local_.back()`. -/
def lastNode (omap : TeeAvlOmap) : AVLLocalNode := omap.local_.getLast?.getD default

/-- The key of `local_.back()`, or `INVALID_KEY`. -/
def lastKey (omap : TeeAvlOmap) : Int :=
  match omap.local_.getLast? with
  | some node => node.key
  | none => invalidKey

/-- Change the content of `local_.back()`. -/
def modifyLast (omap : TeeAvlOmap) (f : AVLNodeData → AVLNodeData) : TeeAvlOmap :=
  { omap with
    local_ := omap.local_.modify (omap.local_.length - 1)
      (fun node => { node with avl := f node.avl }) }

/-- The entry a step adds for the block it extracted. -/
def stepEntry (depth key : Int) (isReal : Bool) (parentKey : Int) (block : Block)
    (avl : AVLNodeData) : AVLLocalNode :=
  { key := oSelect isReal key invalidKey
    leaf := oSelect isReal block.leaf invalidLeaf
    avl
    parentKey := oSelect isReal parentKey invalidKey
    depth }

/-- `oram_step`. -/
def oramStep (omap : TeeAvlOmap) (depth key leaf : Int) (isReal : Bool) (parentKey : Int) :
    TeeRand TeeAvlOmap := do
  let name := omap.nameForDepth depth
  let draw ← (omap.oramForDepth depth).randomLeaf
  let useLeaf := oSelect isReal leaf draw
  let oram ← (omap.oramForDepth depth).readPathToStash name useLeaf
  let extracted := oram.extractFromStash (oSelect isReal key (-2))
  let avl ← inTee (AVLNodeData.decode extracted.1.value)
  let oram ← extracted.2.evictOnePath name useLeaf
  return ((omap.setOram depth oram).pushLocal
    (stepEntry depth key isReal parentKey extracted.1 avl)).countOp depth

/-- `pad_step`. -/
def padStep (omap : TeeAvlOmap) (depth : Int) : TeeRand TeeAvlOmap := do
  let name := omap.nameForDepth depth
  let leaf ← (omap.oramForDepth depth).randomLeaf
  let oram ← (omap.oramForDepth depth).readPathToStash name leaf
  let oram ← (oram.extractFromStash (-2)).2.evictOnePath name leaf
  return (omap.setOram depth oram).countOp depth

/-- A number of padding steps at one depth. -/
def padSteps (depth : Int) : Nat → TeeAvlOmap → TeeRand TeeAvlOmap
  | 0, omap => return omap
  | count + 1, omap => do
      let omap ← omap.padStep depth
      padSteps depth count omap

/-- `pad_ops`. -/
def padOps (omap : TeeAvlOmap) (opsDone : Int) : TeeRand TeeAvlOmap :=
  let budget : Int := 3 * omap.maxHeight
  let pad := max 0 (budget - opsDone)
  if 0 < omap.splitDepth then do
    let effUpper := min omap.splitDepth budget
    let upperPad := max 0 (effUpper - omap.upperOps)
    let omap ← padSteps 0 upperPad.toNat omap
    let lowerPad := max 0 (pad - upperPad)
    padSteps omap.splitDepth lowerPad.toNat omap
  else padSteps 0 pad.toNat omap

/-- `flush_local_to_stash`. -/
def flushLocalToStash (omap : TeeAvlOmap) : TeeAvlOmap :=
  { omap.local_.foldl (fun omap node => omap.setOram node.depth
      ((omap.oramForDepth node.depth).addToStash node.key node.leaf node.avl.encode)) omap with
    local_ := [] }

/-- An entry is no dummy. -/
def isReal (node : AVLLocalNode) : Bool := !oEqual node.key invalidKey

/-- Draw a new leaf for every entry, last entry first; only real ones take it. -/
def drawLocalLeaves (omap : TeeAvlOmap) : List AVLLocalNode → TeeRand (List AVLLocalNode)
  | [] => return []
  | node :: rest => do
      let rest ← drawLocalLeaves omap rest
      let newLeaf ← (omap.oramForDepth node.depth).randomLeaf
      return { node with leaf := oSelect (isReal node) newLeaf node.leaf } :: rest

/-- Point an entry at the new leaf of a child. -/
def pointAt (child parent : AVLLocalNode) : AVLLocalNode :=
  let shouldUpdate := isReal child && !oEqual child.parentKey invalidKey
  let isParent := shouldUpdate && isReal parent && oEqual parent.key child.parentKey
  { parent with avl := { parent.avl with
      lLeaf := oMov (isParent && oEqual parent.avl.lKey child.key) parent.avl.lLeaf child.leaf
      rLeaf := oMov (isParent && oEqual parent.avl.rKey child.key) parent.avl.rLeaf child.leaf } }

/-- `reassign_leaves`. -/
def reassignLeaves (omap : TeeAvlOmap) : TeeRand TeeAvlOmap := do
  let nodes ← omap.drawLocalLeaves omap.local_
  let nodes := nodes.reverse.foldl (fun nodes child => nodes.map (pointAt child)) nodes
  let rootLeaf := nodes.foldl (fun rootLeaf node =>
    oMov (oEqual node.key omap.rootKey && isReal node) rootLeaf node.leaf) omap.rootLeaf
  return { omap with local_ := nodes, rootLeaf }

/-! ## Search -/

/-- The variables of the loop of `search_or_dummy`. -/
structure SearchState where
  curKey : Int
  curLeaf : Int
  found : Bool := false
  foundIdx : Int := -1
  result : Bytes
deriving DecidableEq, Repr

/-- The loop of `search_or_dummy`, at depth `d`. -/
def searchLoop (key : Int) (update : Option Bytes) :
    Nat → Int → SearchState → TeeAvlOmap → TeeRand (SearchState × TeeAvlOmap)
  | 0, _, state, omap => return (state, omap)
  | count + 1, d, state, omap => do
      let isSearching := !oEqual state.curKey invalidKey && !state.found
      let parentKey := oSelect isSearching omap.lastKey invalidKey
      let omap ← omap.oramStep d state.curKey state.curLeaf isSearching parentKey
      let node := omap.lastNode
      let isMatch := isSearching && oEqual key node.key
      let omap := match update with
        | some value => omap.modifyLast (fun avl =>
            { avl with data := oMovBytes isMatch avl.data (padBytes value omap.valueSize) })
        | none => omap
      let still := isSearching && !isMatch
      let goLeft := still && oLess key state.curKey
      let nextKey := oSelect goLeft node.avl.lKey node.avl.rKey
      let nextLeaf := oSelect goLeft node.avl.lLeaf node.avl.rLeaf
      searchLoop key update count (d + 1) {
        curKey := oSelect still nextKey invalidKey
        curLeaf := oSelect still nextLeaf invalidLeaf
        found := state.found || isMatch
        foundIdx := oMov isMatch state.foundIdx d
        result := oMovBytes isMatch state.result node.avl.data } omap

/-- Write a transformed value to the entry that was found. -/
def transformFound (omap : TeeAvlOmap) (state : SearchState) (transform : Bytes → Bytes) :
    TeeAvlOmap :=
  let padded := padBytes (transform state.result) omap.valueSize
  { omap with local_ := omap.local_.mapIdx (fun i node =>
      { node with avl := { node.avl with
          data := oMovBytes (state.found && oEqual i state.foundIdx) node.avl.data padded } }) }

/-- `search_or_dummy`: the result and whether the key was found. -/
def searchOrDummy (omap : TeeAvlOmap) (key : Int) (real : Bool) (update : Option Bytes)
    (transform : Option (Bytes → Bytes)) : TeeRand ((Bytes × Bool) × TeeAvlOmap) := do
  let omap := omap.beginOp
  let zeros := List.replicate omap.valueSize 0
  let (state, omap) ← searchLoop key update omap.maxHeight 0 {
    curKey := oSelect real omap.rootKey invalidKey
    curLeaf := oSelect real omap.rootLeaf invalidLeaf
    result := zeros } omap
  let omap := match transform with
    | some transform => omap.transformFound state transform
    | none => omap
  let omap ← omap.reassignLeaves
  let omap ← omap.flushLocalToStash.padOps omap.maxHeight
  return ((oMovBytes (!state.found) state.result zeros, state.found), omap)

/-- `search`. -/
def search (omap : TeeAvlOmap) (key : Int) (update : Option Bytes)
    (transform : Option (Bytes → Bytes)) : TeeRand (Bytes × TeeAvlOmap) := do
  let (found, omap) ← omap.searchOrDummy key true update transform
  return (if found.2 then found.1 else [], omap)

/-- `dummy_access`. -/
def dummyAccess (omap : TeeAvlOmap) : TeeRand TeeAvlOmap := do
  let (_, omap) ← omap.searchOrDummy invalidKey false none none
  return omap

/-! ## Scanning the entries -/

/-- Move a field of every entry that passes a test to a variable. -/
def scan {α : Type} (test : Int → AVLLocalNode → Bool) (field : AVLLocalNode → α)
    (nodes : List AVLLocalNode) (init : α) : α :=
  nodes.zipIdx.foldl (fun acc node => oMov (test node.2 node.1) acc (field node.1)) init

/-- Take over the height of a child. -/
def takeHeight (child node : AVLLocalNode) : AVLLocalNode :=
  let active := isReal node && isReal child
  let height := 1 + oMax child.avl.lHeight child.avl.rHeight
  { node with avl := { node.avl with
      lHeight := oMov (active && oEqual child.key node.avl.lKey) node.avl.lHeight height
      rHeight := oMov (active && oEqual child.key node.avl.rKey) node.avl.rHeight height } }

/-- The inner loop of `update_heights` for one entry. -/
def refreshHeights (nodes : List AVLLocalNode) (i : Nat) : List AVLLocalNode :=
  (List.range nodes.length).foldl
    (fun nodes j => nodes.modify i (takeHeight (nodes.getD j default))) nodes

/-- `update_heights`, last entry first. -/
def updateHeights (omap : TeeAvlOmap) : TeeAvlOmap :=
  { omap with
    local_ := (List.range omap.local_.length).reverse.foldl refreshHeights omap.local_ }

/-! ## Rotations -/

/-- The entry is the one with a valid key. -/
def hasKey (key : Int) (node : AVLLocalNode) : Bool :=
  oEqual node.key key && isReal node && !oEqual key invalidKey

/-- An entry whose fields have their default values. -/
def noEntry : AVLLocalNode :=
  { key := invalidKey, leaf := invalidLeaf, avl := {}, parentKey := invalidKey, depth := 0 }

/-- The children of the node that goes down (`dir` is true in a right rotation). -/
def takeInner (act dir : Bool) (pivot node : AVLLocalNode) : AVLNodeData :=
  let isLeftRot := act && !dir
  let isRightRot := act && dir
  { node.avl with
    rKey := oMov isLeftRot node.avl.rKey pivot.avl.lKey
    rLeaf := oMov isLeftRot node.avl.rLeaf pivot.avl.lLeaf
    rHeight := oMov isLeftRot node.avl.rHeight pivot.avl.lHeight
    lKey := oMov isRightRot node.avl.lKey pivot.avl.rKey
    lLeaf := oMov isRightRot node.avl.lLeaf pivot.avl.rLeaf
    lHeight := oMov isRightRot node.avl.lHeight pivot.avl.rHeight }

/-- The height of the node after it went down. -/
def heightBelow (dir : Bool) (pivot : AVLLocalNode) (down : AVLNodeData) : Int :=
  let transHeight := oSelect dir pivot.avl.rHeight pivot.avl.lHeight
  1 + oMax (oSelect dir transHeight down.lHeight) (oSelect dir down.rHeight transHeight)

/-- The children of the pivot, which goes up. -/
def takeNode (act dir : Bool) (node : AVLLocalNode) (nodeHeight : Int) (pivot : AVLLocalNode) :
    AVLNodeData :=
  let isLeftRot := act && !dir
  let isRightRot := act && dir
  { pivot.avl with
    lKey := oMov isLeftRot pivot.avl.lKey node.key
    lLeaf := oMov isLeftRot pivot.avl.lLeaf node.leaf
    lHeight := oMov isLeftRot pivot.avl.lHeight nodeHeight
    rKey := oMov isRightRot pivot.avl.rKey node.key
    rLeaf := oMov isRightRot pivot.avl.rLeaf node.leaf
    rHeight := oMov isRightRot pivot.avl.rHeight nodeHeight }

/-- Write the pivot's pointers back, which leaves its data alone. -/
def scatterPivot (isPivot : Bool) (parentKey : Int) (up : AVLNodeData) (entry : AVLLocalNode) :
    AVLLocalNode :=
  { entry with
    parentKey := oMov isPivot entry.parentKey parentKey
    avl := { entry.avl with
      lKey := oMov isPivot entry.avl.lKey up.lKey
      lLeaf := oMov isPivot entry.avl.lLeaf up.lLeaf
      lHeight := oMov isPivot entry.avl.lHeight up.lHeight
      rKey := oMov isPivot entry.avl.rKey up.rKey
      rLeaf := oMov isPivot entry.avl.rLeaf up.rLeaf
      rHeight := oMov isPivot entry.avl.rHeight up.rHeight } }

/-- Point the entries with a key at another child instead of an old one. -/
def replaceChild (isParent : Bool) (oldKey key leaf height : Int) (entry : AVLLocalNode) :
    AVLLocalNode :=
  let fromLeft := isParent && oEqual entry.avl.lKey oldKey
  let fromRight := isParent && oEqual entry.avl.rKey oldKey
  { entry with avl := { entry.avl with
      lKey := oMov fromLeft entry.avl.lKey key
      lLeaf := oMov fromLeft entry.avl.lLeaf leaf
      lHeight := oMov fromLeft entry.avl.lHeight height
      rKey := oMov fromRight entry.avl.rKey key
      rLeaf := oMov fromRight entry.avl.rLeaf leaf
      rHeight := oMov fromRight entry.avl.rHeight height } }

/-- Give an entry another parent. -/
def setParent (fix : Bool) (parentKey : Int) (entry : AVLLocalNode) : AVLLocalNode :=
  { entry with parentKey := oMov fix entry.parentKey parentKey }

/-- `rotate_cond`; `dir` is true in a right rotation. -/
def rotateCond (omap : TeeAvlOmap) (idx : Nat) (active dir : Bool) : TeeAvlOmap :=
  let node := omap.local_.getD idx default
  let pivotKey := oSelect dir node.avl.lKey node.avl.rKey
  let pivotIdx := omap.local_.zipIdx.foldl
    (fun acc entry => oMov (hasKey pivotKey entry.1) acc entry.2) 0
  let pivot := scan (fun _ => hasKey pivotKey) id omap.local_ noEntry
  let act := active && omap.local_.any (hasKey pivotKey)
  let transKey := oSelect dir pivot.avl.rKey pivot.avl.lKey
  let down := takeInner act dir pivot node
  let up := takeNode act dir node (heightBelow dir pivot down) pivot
  let upParent := oMov act pivot.parentKey node.parentKey
  let upHeight := 1 + oMax up.lHeight up.rHeight
  let nodes := omap.local_.modify idx (fun node =>
    { node with avl := down, parentKey := oMov act node.parentKey pivot.key })
  { omap with
    local_ := nodes.mapIdx (fun i entry =>
      let entry := scatterPivot (act && i == pivotIdx) upParent up entry
      let isParent := act && oEqual entry.key node.parentKey && isReal entry
      let entry := replaceChild isParent node.key pivot.key pivot.leaf upHeight entry
      setParent (act && hasKey transKey entry) node.key entry)
    rootKey := oMov (act && oEqual omap.rootKey node.key) omap.rootKey pivot.key }

/-- `balance_node`. -/
def balanceNode (omap : TeeAvlOmap) (idx : Nat) : TeeAvlOmap :=
  let node := omap.local_.getD idx default
  let balance := node.avl.lHeight - node.avl.rHeight
  let needRight := isReal node && oLess 1 balance
  let needLeft := isReal node && oLess balance (-1)
  let isChild := fun key (entry : AVLLocalNode) => isReal entry && oEqual entry.key key
  let leftIdx := omap.local_.zipIdx.foldl
    (fun acc entry => oMov (isChild node.avl.lKey entry.1) acc entry.2) 0
  let rightIdx := omap.local_.zipIdx.foldl
    (fun acc entry => oMov (isChild node.avl.rKey entry.1) acc entry.2) 0
  let left := scan (fun _ => isChild node.avl.lKey) id omap.local_ noEntry
  let right := scan (fun _ => isChild node.avl.rKey) id omap.local_ noEntry
  let needLeftRight := needRight && oLess (left.avl.lHeight - left.avl.rHeight) 0
  let needRightLeft := needLeft && oLess 0 (right.avl.lHeight - right.avl.rHeight)
  (((omap.rotateCond leftIdx needLeftRight false).rotateCond rightIdx needRightLeft true).rotateCond
    idx needRight true).rotateCond idx needLeft false

/-- `rebalance`, last entry first. -/
def rebalance (omap : TeeAvlOmap) : TeeAvlOmap :=
  ((List.range omap.local_.length).reverse.foldl
    (fun omap i => omap.updateHeights.balanceNode i) omap).updateHeights

/-! ## Insertion -/

/-- The variables of the loop of `insert`. -/
structure InsertState where
  curKey : Int
  curLeaf : Int
  inserted : Bool := false
  parent : Int := invalidKey
  depth : Int := 0
  leaf : Int := invalidLeaf
deriving DecidableEq, Repr

/-- Hang a new node under the current one. -/
def attachNew (goLeft goRight : Bool) (key leaf : Int) (avl : AVLNodeData) : AVLNodeData :=
  { avl with
    lKey := oMov goLeft avl.lKey key
    lLeaf := oMov goLeft avl.lLeaf leaf
    lHeight := oMov goLeft avl.lHeight 1
    rKey := oMov goRight avl.rKey key
    rLeaf := oMov goRight avl.rLeaf leaf
    rHeight := oMov goRight avl.rHeight 1 }

/-- The loop of `insert`, at depth `d`. -/
def insertLoop (key : Int) :
    Nat → Int → InsertState → TeeAvlOmap → TeeRand (InsertState × TeeAvlOmap)
  | 0, _, state, omap => return (state, omap)
  | count + 1, d, state, omap => do
      let isSearching := !oEqual state.curKey invalidKey && !state.inserted
      let parentKey := oSelect isSearching omap.lastKey invalidKey
      let omap ← omap.oramStep d state.curKey state.curLeaf isSearching parentKey
      let goLeft := isSearching && oLess key state.curKey
      let goRight := isSearching && !goLeft
      let childKey := oSelect goLeft omap.lastNode.avl.lKey omap.lastNode.avl.rKey
      let shouldInsert := isSearching && oEqual childKey invalidKey
      let newLeaf ← (omap.oramForDepth (d + 1)).randomLeaf
      let omap := omap.modifyLast
        (attachNew (shouldInsert && goLeft) (shouldInsert && goRight) key newLeaf)
      let inserted := state.inserted || shouldInsert
      let still := isSearching && !inserted
      let nextKey := oSelect goLeft omap.lastNode.avl.lKey omap.lastNode.avl.rKey
      let nextLeaf := oSelect goLeft omap.lastNode.avl.lLeaf omap.lastNode.avl.rLeaf
      insertLoop key count (d + 1) {
        curKey := oSelect still nextKey invalidKey
        curLeaf := oSelect still nextLeaf invalidLeaf
        inserted
        parent := oMov shouldInsert state.parent state.curKey
        depth := oMov shouldInsert state.depth (d + 1)
        leaf := oMov shouldInsert state.leaf newLeaf } omap

/-- The entry for the new node, or a dummy. -/
def newEntry (inserted : Bool) (key leaf parentKey depth : Int) (data : Bytes) : AVLLocalNode :=
  { key := oSelect inserted key invalidKey
    leaf := oSelect inserted leaf invalidLeaf
    avl := { data }
    parentKey := oSelect inserted parentKey invalidKey
    depth := oSelect inserted depth 0 }

/-- `insert`. -/
def insert (omap : TeeAvlOmap) (key : Int) (value : Bytes) : TeeRand TeeAvlOmap := do
  let omap := omap.beginOp
  let real := !oEqual key invalidKey
  let wasEmpty := real && oEqual omap.rootKey invalidKey
  let (state, omap) ← insertLoop key omap.maxHeight 0 {
    curKey := oSelect real omap.rootKey invalidKey
    curLeaf := oSelect real omap.rootLeaf invalidLeaf } omap
  let emptyLeaf ← (omap.oramForDepth 0).randomLeaf
  let leaf := oMov wasEmpty state.leaf emptyLeaf
  let depth := oMov wasEmpty state.depth 0
  let entry := newEntry (state.inserted || wasEmpty) key leaf state.parent depth
    (padBytes value omap.valueSize)
  let omap := { omap.pushLocal entry with rootKey := oMov wasEmpty omap.rootKey key }
  let omap ← omap.updateHeights.rebalance.reassignLeaves
  omap.flushLocalToStash.padOps omap.maxHeight

/-! ## Removal -/

/-- The variables of the first loop of `remove`. -/
structure TargetState where
  curKey : Int
  curLeaf : Int
  found : Bool := false
  targetIdx : Int := -1
  targetDepth : Int := 0
deriving DecidableEq, Repr

/-- The first loop of `remove`, which looks for the target, at depth `d`. -/
def targetLoop (key : Int) :
    Nat → Int → TargetState → TeeAvlOmap → TeeRand (TargetState × TeeAvlOmap)
  | 0, _, state, omap => return (state, omap)
  | count + 1, d, state, omap => do
      let isSearching := !oEqual state.curKey invalidKey && !state.found
      let parentKey := oSelect isSearching omap.lastKey invalidKey
      let omap ← omap.oramStep d state.curKey state.curLeaf isSearching parentKey
      let node := omap.lastNode
      let isMatch := isSearching && oEqual key node.key
      let still := isSearching && !isMatch
      let goLeft := still && oLess key state.curKey
      let nextKey := oSelect goLeft node.avl.lKey node.avl.rKey
      let nextLeaf := oSelect goLeft node.avl.lLeaf node.avl.rLeaf
      targetLoop key count (d + 1) {
        curKey := oSelect still nextKey invalidKey
        curLeaf := oSelect still nextLeaf invalidLeaf
        found := state.found || isMatch
        targetIdx := oSelect isMatch (omap.local_.length - 1) state.targetIdx
        targetDepth := oSelect isMatch d state.targetDepth } omap

/-- The variables of the second loop of `remove`. -/
structure SuccessorState where
  key : Int
  leaf : Int
  found : Bool := false
  idx : Int := -1
deriving DecidableEq, Repr

/-- The second loop of `remove`, which looks for the successor, `sd` steps below the target. -/
def successorLoop (key targetDepth : Int) :
    Nat → Int → SuccessorState → TeeAvlOmap → TeeRand (SuccessorState × TeeAvlOmap)
  | 0, _, state, omap => return (state, omap)
  | count + 1, sd, state, omap => do
      let isSearching := !state.found && !oEqual state.key invalidKey
      let above := if sd = 0 then key else omap.lastKey
      let parentKey := oSelect isSearching above invalidKey
      let omap ← omap.oramStep (targetDepth + 1 + sd) state.key state.leaf isSearching parentKey
      let node := omap.lastNode
      let isSuccessor := isSearching && oEqual node.avl.lKey invalidKey && !state.found
      let found := state.found || isSuccessor
      let still := isSearching && !found
      successorLoop key targetDepth count (sd + 1) {
        key := oSelect still node.avl.lKey invalidKey
        leaf := oSelect still node.avl.lLeaf invalidLeaf
        found
        idx := oSelect isSuccessor (omap.local_.length - 1) state.idx } omap

/-- Rename a child of an entry. -/
def renameChild (active : Bool) (oldKey key : Int) (entry : AVLLocalNode) : AVLLocalNode :=
  { entry with avl := { entry.avl with
      lKey := oMov (active && oEqual entry.avl.lKey oldKey) entry.avl.lKey key
      rKey := oMov (active && oEqual entry.avl.rKey oldKey) entry.avl.rKey key } }

/-- Phase 3a of `remove`: the target takes over key and data of its successor. -/
def renameTarget (omap : TeeAvlOmap) (hasTwo : Bool) (targetIdx succIdx : Int) : TeeAvlOmap :=
  let isSucc := fun (i : Int) (_ : AVLLocalNode) => hasTwo && oEqual i succIdx
  let isTarget := fun (i : Int) => hasTwo && oEqual i targetIdx
  let succKey := scan isSucc AVLLocalNode.key omap.local_ invalidKey
  let succData := omap.local_.zipIdx.foldl
    (fun acc entry => oMovBytes (isSucc entry.2 entry.1) acc entry.1.avl.data)
    (List.replicate omap.valueSize 0)
  let oldKey := scan (fun i _ => isTarget i) AVLLocalNode.key omap.local_ invalidKey
  let nodes := omap.local_.mapIdx (fun i entry => { entry with
    key := oMov (isTarget i) entry.key succKey
    avl := { entry.avl with data := oMovBytes (isTarget i) entry.avl.data succData } })
  let nodes := nodes.map (fun entry => renameChild (hasTwo && isReal entry) oldKey succKey entry)
  { omap with
    rootKey := oMov (hasTwo && oEqual omap.rootKey oldKey) omap.rootKey succKey
    local_ := nodes.map (fun entry =>
      setParent (hasTwo && oEqual entry.parentKey oldKey) succKey entry) }

/-- Phase 3b of `remove`: the entry at an index is unlinked. -/
def unlink (omap : TeeAvlOmap) (found : Bool) (delIdx : Int) : TeeAvlOmap :=
  let isDeleted := fun (i : Int) => found && oEqual i delIdx
  let deleted := scan (fun i _ => isDeleted i) id omap.local_ noEntry
  let hasLeft := !oEqual deleted.avl.lKey invalidKey
  let childKey := oSelect hasLeft deleted.avl.lKey deleted.avl.rKey
  let childLeaf := oSelect hasLeft deleted.avl.lLeaf deleted.avl.rLeaf
  let childHeight := oSelect (oEqual childKey invalidKey) 0
    (oSelect hasLeft deleted.avl.lHeight deleted.avl.rHeight)
  let isParent := fun (entry : AVLLocalNode) => found && !oEqual deleted.parentKey invalidKey &&
    oEqual entry.key deleted.parentKey && isReal entry
  let nodes := omap.local_.map (fun entry =>
    replaceChild (isParent entry) deleted.key childKey childLeaf childHeight entry)
  let isRoot := found && oEqual deleted.parentKey invalidKey
  let nodes := nodes.mapIdx (fun i entry =>
    { entry with key := oMov (isDeleted i) entry.key invalidKey })
  { omap with
    rootKey := oMov isRoot omap.rootKey childKey
    rootLeaf := oMov isRoot omap.rootLeaf
      (oSelect (oEqual childKey invalidKey) invalidLeaf childLeaf)
    local_ := nodes.map (fun entry => setParent (found && !oEqual childKey invalidKey &&
      isReal entry && oEqual entry.key childKey) deleted.parentKey entry) }

/-- `remove`. -/
def remove (omap : TeeAvlOmap) (key : Int) : TeeRand TeeAvlOmap := do
  let omap := omap.beginOp
  let real := !oEqual omap.rootKey invalidKey && !oEqual key invalidKey
  let (target, omap) ← targetLoop key omap.maxHeight 0 {
    curKey := oSelect real omap.rootKey invalidKey
    curLeaf := oSelect real omap.rootLeaf invalidLeaf } omap
  let isTarget := fun (i : Int) (_ : AVLLocalNode) => target.found && oEqual i target.targetIdx
  let rightKey := scan isTarget (fun node => node.avl.rKey) omap.local_ invalidKey
  let rightLeaf := scan isTarget (fun node => node.avl.rLeaf) omap.local_ invalidLeaf
  let leftKey := scan isTarget (fun node => node.avl.lKey) omap.local_ invalidKey
  let hasTwo := target.found && !oEqual leftKey invalidKey && !oEqual rightKey invalidKey
  let (succ, omap) ← successorLoop key target.targetDepth omap.maxHeight 0 {
    key := oSelect hasTwo rightKey invalidKey
    leaf := oSelect hasTwo rightLeaf invalidLeaf } omap
  let omap := (omap.renameTarget hasTwo target.targetIdx succ.idx).unlink target.found
    (oSelect hasTwo succ.idx target.targetIdx)
  let omap ← omap.updateHeights.rebalance.reassignLeaves
  omap.flushLocalToStash.padOps (2 * omap.maxHeight)

end TeeAvlOmap

/-! ## Runs -/

/-- The operations of a `TeeAvlOmap`. -/
inductive TeeAvlOp where
  | search (key : Int) (update : Option Bytes) (transform : Option (Bytes → Bytes))
  | searchOrDummy (key : Int) (real : Bool) (update : Option Bytes)
      (transform : Option (Bytes → Bytes))
  | insert (key : Int) (value : Bytes)
  | remove (key : Int)
  | dummyAccess

/-- What an operation returns. -/
inductive TeeAvlResult where
  | done
  | searched (value : Bytes)
  | accessed (value : Bytes) (found : Bool)
deriving DecidableEq, Repr

/-- Call an operation. -/
def TeeAvlOp.call (omap : TeeAvlOmap) : TeeAvlOp → TeeRand (TeeAvlResult × TeeAvlOmap)
  | search key update transform => do
      let (value, omap) ← omap.search key update transform
      return (.searched value, omap)
  | searchOrDummy key real update transform => do
      let (result, omap) ← omap.searchOrDummy key real update transform
      return (.accessed result.1 result.2, omap)
  | insert key value => do
      let omap ← omap.insert key value
      return (.done, omap)
  | remove key => do
      let omap ← omap.remove key
      return (.done, omap)
  | dummyAccess => do
      let omap ← omap.dummyAccess
      return (.done, omap)

end TieredOmap
