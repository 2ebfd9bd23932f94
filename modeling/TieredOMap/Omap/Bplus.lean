import Mathlib.Data.List.Sort
import Mathlib.Data.Nat.Log
import TieredOMap.Omap.SplitOram

/-!
# The oblivious B+ tree

`BPlusOmap` (`bplus_omap.cpp`): every node is one ORAM block, which also holds
the ids and leaves of its children. An operation reads the nodes of a path and
one sibling for each of them, changes them locally, gives all of them new leaves
and puts them back into the stash. In index mode the tree leaves hold data block
ids instead of values. Loops bounded by `max_height_` recurse on the number of
iterations left; the recursions over a freshly built tree recurse on a bound for
its depth.
-/

namespace TieredOmap

/-- `BPlusNode`. -/
structure BPlusNode where
  isLeaf : Bool := true
  isIndexLeaf : Bool := false
  keys : List Int := []
  childIds : List Int := []
  childLeaves : List Int := []
  values : List Bytes := []
deriving DecidableEq, Repr, Inhabited

namespace BPlusNode

/-- The type byte: `0` for an internal node, `1` for a leaf, `2` for an index leaf. -/
def typeByte (node : BPlusNode) : UInt8 :=
  if node.isLeaf then if node.isIndexLeaf then 2 else 1 else 0

/-- The part of an encoded node after its keys. -/
def encodeBody (node : BPlusNode) : Bytes :=
  if node.isLeaf then
    if node.isIndexLeaf then node.childIds.flatMap intToBytes
    else node.values.flatMap (fun value => intToBytes value.length ++ value)
  else (node.childIds.zip node.childLeaves).flatMap
    (fun child => intToBytes child.1 ++ intToBytes child.2)

/-- `encode`. -/
def encode (node : BPlusNode) : Bytes :=
  node.typeByte ::
    (intToBytes node.keys.length ++ (node.keys.flatMap intToBytes ++ node.encodeBody))

/-- Read `count` integers; reading past the end, which is not checked, gives zeros. -/
def takeInts : Nat → Bytes → List Int × Bytes
  | 0, raw => ([], raw)
  | count + 1, raw =>
      let (ints, rest) := takeInts count (raw.drop 4)
      (bytesToInt raw :: ints, rest)

/-- Read `count` pairs of integers. -/
def takePairs : Nat → Bytes → List (Int × Int)
  | 0, _ => []
  | count + 1, raw => (bytesToInt raw, bytesToInt (raw.drop 4)) :: takePairs count (raw.drop 8)

/-- Read `count` values, each after its size. -/
def takeValues : Nat → Bytes → List Bytes
  | 0, _ => []
  | count + 1, raw =>
      let size := (bytesToInt raw).toNat
      (raw.drop 4).take size :: takeValues count (raw.drop (4 + size))

/-- `decode`. -/
def decode : Bytes → BPlusNode
  | [] => {}
  | typeByte :: raw =>
      let count := (bytesToInt raw).toNat
      let (keys, body) := takeInts count (raw.drop 4)
      if typeByte = 0 then
        let children := takePairs (count + 1) body
        { isLeaf := false, keys, childIds := children.map Prod.fst
          childLeaves := children.map Prod.snd }
      else if typeByte = 2 then { isIndexLeaf := true, keys, childIds := (takeInts count body).1 }
      else { keys, values := takeValues count body }

/-- `find_child_index`. -/
def findChildIndex (node : BPlusNode) (key : Int) : Nat :=
  (node.keys.takeWhile (fun separator => separator ≤ key)).length

/-- `find_leaf_index`. -/
def findLeafIndex (node : BPlusNode) (key : Int) : Option Nat :=
  node.keys.findIdx? (fun key' => key' == key)

/-- The index of a child, if it is one. -/
def childIdx (node : BPlusNode) (id : Int) : Option Nat :=
  node.childIds.findIdx? (fun id' => id' == id)

/-- The sibling read along with child `idx`: its left neighbour, else its right one. -/
def siblingIdx (node : BPlusNode) (idx : Nat) : Option Nat :=
  if 0 < idx then some (idx - 1)
  else if idx + 1 < node.childIds.length then some (idx + 1)
  else none

/-- What a tree leaf maps a key to. -/
def lookup (node : BPlusNode) (key : Int) : Bytes :=
  match node.findLeafIndex key with
  | some idx =>
      if node.isIndexLeaf then intToBytes (node.childIds.getD idx 0) else node.values.getD idx []
  | none => []

/-- Replace the value of a key; an index leaf keeps its reference. -/
def updateValue (node : BPlusNode) (key : Int) (update : Option Bytes) : BPlusNode :=
  match node.findLeafIndex key, update with
  | some idx, some value =>
      if node.isIndexLeaf then node else { node with values := node.values.set idx value }
  | _, _ => node

/-- Insert at `std::lower_bound`. -/
def insertEntry (node : BPlusNode) (key : Int) (value : Bytes) : BPlusNode :=
  let pos := (node.keys.takeWhile (fun key' => key' < key)).length
  let keys := node.keys.insertIdx pos key
  if node.isIndexLeaf then
    { node with keys, childIds := node.childIds.insertIdx pos (bytesToInt value) }
  else { node with keys, values := node.values.insertIdx pos value }

/-- Erase a key from a tree leaf. -/
def eraseEntry (node : BPlusNode) (key : Int) : BPlusNode :=
  match node.findLeafIndex key with
  | some idx =>
      let keys := node.keys.eraseIdx idx
      if node.isIndexLeaf then { node with keys, childIds := node.childIds.eraseIdx idx }
      else { node with keys, values := node.values.eraseIdx idx }
  | none => node

/-- Record the leaf of a child. -/
def setChildLeaf (node : BPlusNode) (id leaf : Int) : BPlusNode :=
  match node.childIdx id with
  | some idx => { node with childLeaves := node.childLeaves.set idx leaf }
  | none => node

/-- A tree leaf with one entry. -/
def singleton (indexMode : Bool) (key : Int) (value : Bytes) : BPlusNode :=
  if indexMode then { isIndexLeaf := true, keys := [key], childIds := [bytesToInt value] }
  else { keys := [key], values := [value] }

/-- The lower half of a tree leaf that is split. -/
def lowerHalf (node : BPlusNode) : BPlusNode :=
  let mid := node.keys.length / 2
  if node.isIndexLeaf then
    { node with keys := node.keys.take mid, childIds := node.childIds.take mid }
  else { node with keys := node.keys.take mid, values := node.values.take mid }

/-- The upper half of a tree leaf that is split. -/
def upperHalf (node : BPlusNode) : BPlusNode :=
  let mid := node.keys.length / 2
  if node.isIndexLeaf then
    { isIndexLeaf := true, keys := node.keys.drop mid, childIds := node.childIds.drop mid }
  else { keys := node.keys.drop mid, values := node.values.drop mid }

/-- Add a child after the one that `lastKey` leads to. -/
def addChild (node : BPlusNode) (lastKey separator id leaf : Int) : BPlusNode :=
  let idx := node.findChildIndex lastKey
  { node with
    keys := node.keys.insertIdx idx separator
    childIds := node.childIds.insertIdx (idx + 1) id
    childLeaves := node.childLeaves.insertIdx (idx + 1) leaf }

end BPlusNode

/-- `BPlusOmap::LocalNode`. -/
structure BPlusLocalNode where
  id : Int
  leaf : Int
  node : BPlusNode
  parentId : Int
  depth : Int
deriving DecidableEq, Repr, Inhabited

/-- `BPlusOmap::CachedSibling`; the indices are never negative once they are set. -/
structure CachedSibling where
  id : Int := invalidKey
  leaf : Int := invalidLeaf
  node : BPlusNode := {}
  parentLocalIdx : Nat := 0
  childIdxInParent : Nat := 0
  depth : Int := 0
deriving DecidableEq, Repr, Inhabited

/-- `BPlusOmap::StepPhase`. -/
inductive BPlusStepPhase where
  | traverseTarget
  | traverseSibling
  | decision
  | pad
  | done
deriving DecidableEq, Repr, Inhabited

/-- `BPlusOmap::StepState`. -/
structure BPlusStepState where
  phase : BPlusStepPhase := .done
  key : Int := invalidKey
  update : Option Bytes := none
  isDummy : Bool := false
  decisionEnabled : Bool := false
  budget : Int := 0
  ops : Int := 0
  curId : Int := invalidKey
  curLeaf : Int := invalidLeaf
  depth : Int := 0
  leafReached : Bool := false
  siblingIsDummy : Bool := false
  sibId : Int := invalidKey
  sibLeaf : Int := invalidLeaf
  sibParentIdx : Nat := 0
  sibChildIdx : Nat := 0
  nextId : Int := invalidKey
  nextLeaf : Int := invalidLeaf
  padRemaining : Int := 0
  partialUpperPad : Int := 0
  curRound : Option RoundPath := none
  result : Bytes := []
deriving DecidableEq, Repr, Inhabited

/-- `BPlusOmap::PBState`. -/
structure BPlusPBState where
  active : Bool := false
  phase : BPlusStepPhase := .done
  key : Int := invalidKey
  curId : Int := invalidKey
  curLeaf : Int := invalidLeaf
  depth : Int := 0
  ops : Int := 0
  budget : Int := 0
  padRemaining : Int := 0
  partialUpperPad : Int := 0
  curRound : Option RoundPath := none
  result : Bytes := []
  nodeInLocal : Bool := false
  traverseDone : Bool := false
  leafReached : Bool := false
  siblingIsDummy : Bool := false
  nextId : Int := invalidKey
  nextLeaf : Int := invalidLeaf
  sibId : Int := invalidKey
  sibLeaf : Int := invalidLeaf
  sibParentIdx : Nat := 0
  sibChildIdx : Nat := 0
  isInsert : Bool := false
  insertValue : Bytes := []
  decisionEnabled : Bool := false
deriving DecidableEq, Repr, Inhabited

/-- `BPlusOmap`. -/
structure BPlusOmap where
  ss : BPlusStepState := {}
  pb : BPlusPBState := {}
  order : Nat := 8
  maxHeight : Int := 0
  indexMode : Bool := false
  rootId : Int := invalidKey
  rootLeaf : Int := invalidLeaf
  nextBlockId : Int := 0
  orams : SplitOram := {}
  local_ : List BPlusLocalNode := []
  siblingCache : List CachedSibling := []
  odsMode : Bool := false
  opCount : Int := 0
  upperOpCount : Int := 0
  lowerOpCount : Int := 0

instance : Inhabited BPlusOmap := ⟨{}⟩

namespace BPlusOmap

variable [Cipher]

/-- `max(1, ceil(log(max(capacity, 2)) / log(half)) + 1)`, with the logarithms taken exactly. -/
def maxHeightFor (capacity : Int) (order : Nat) : Int :=
  let half := max ((order + 1) / 2) 2
  max 1 ((Nat.clog half (max capacity 2).toNat : Int) + 1)

/-- The constructor without a split. -/
def new (capacity : Int) (order : Nat) (bucketSize : Int) : Rand BPlusOmap := do
  let oram ← PathORAM.new capacity bucketSize 7
  return { order, orams := { oram }, maxHeight := maxHeightFor capacity order }

/-- The constructor with a split. -/
def newSplit (capacity : Int) (order : Nat) (bucketSize splitDepth upperCapacity : Int) :
    Rand BPlusOmap := do
  let upperOram ← PathORAM.new (max upperCapacity 1) bucketSize 7
  let oram ← PathORAM.new capacity bucketSize 7
  let maxHeight := maxHeightFor capacity order
  return { order, maxHeight, orams := { splitDepth := min splitDepth maxHeight, upperOram, oram } }

/-- `set_index_mode`. -/
def setIndexMode (omap : BPlusOmap) (indexMode : Bool) : BPlusOmap :=
  if indexMode = omap.indexMode then omap
  else if omap.odsMode then { omap with indexMode }
  else
    let maxHeight := max 1 (omap.maxHeight + if indexMode then -1 else 1)
    { omap with
      indexMode
      maxHeight
      orams := { omap.orams with splitDepth := min omap.orams.splitDepth maxHeight } }

/-- `max_leaf_keys`. -/
def maxLeafKeys (omap : BPlusOmap) : Nat :=
  if omap.indexMode then omap.order * (omap.order - 1) else omap.order - 1

/-- `min_leaf_keys`. -/
def minLeafKeys (omap : BPlusOmap) : Nat :=
  if omap.indexMode then max 1 (omap.order * (omap.order - 1) / 2)
  else max 1 ((omap.order + 1) / 2 - 1)

/-- Reset the counters of an operation. -/
def resetOpCounts (omap : BPlusOmap) : BPlusOmap :=
  { omap with opCount := 0, upperOpCount := 0, lowerOpCount := 0 }

/-- Count one path access at a depth. -/
def countOp (omap : BPlusOmap) (depth : Int) : BPlusOmap :=
  match omap.orams.halfForDepth depth with
  | .upper =>
      { omap with opCount := omap.opCount + 1, upperOpCount := omap.upperOpCount + 1 }
  | .lower =>
      { omap with opCount := omap.opCount + 1, lowerOpCount := omap.lowerOpCount + 1 }

/-! ## Initialisation -/

/-- Cut a list into pieces of the given size. -/
def chunks {α : Type} (size : Nat) : Nat → List α → List (List α)
  | 0, _ => []
  | _ + 1, [] => []
  | fuel + 1, items => items.take size :: chunks size fuel (items.drop size)

/-- The tree leaf of a piece of the sorted data. -/
def leafOf (indexMode : Bool) (entries : List (Int × Bytes)) : BPlusNode :=
  if indexMode then
    { isIndexLeaf := true, keys := entries.map Prod.fst
      childIds := entries.map (fun entry => bytesToInt entry.2) }
  else { keys := entries.map Prod.fst, values := entries.map Prod.snd }

/-- The internal node over a piece of a level, given by first keys and ids. -/
def internalOf (children : List (Int × Int)) : BPlusNode :=
  { isLeaf := false, keys := children.tail.map Prod.fst, childIds := children.map Prod.snd
    childLeaves := children.map (fun _ => invalidLeaf) }

/-- Give nodes the next block ids; also returns the level they form. -/
def addNodes : List (Int × BPlusNode) → Int → KeyMap Int Bytes →
    List (Int × Int) × Int × KeyMap Int Bytes
  | [], nextId, oramData => ([], nextId, oramData)
  | (firstKey, node) :: rest, nextId, oramData =>
      let (level, final) := addNodes rest (nextId + 1) (oramData.set nextId node.encode)
      ((firstKey, nextId) :: level, final)

/-- The first key of a piece. -/
def firstKey {α : Type} (piece : List (Int × α)) : Int := (piece.map Prod.fst).headD invalidKey

/-- The loop of `build_tree`: put levels of internal nodes on top until one node is left. -/
def buildLevels (order : Nat) : Nat → List (Int × Int) → Int → KeyMap Int Bytes →
    List (Int × Int) × Int × KeyMap Int Bytes
  | 0, level, nextId, oramData => (level, nextId, oramData)
  | fuel + 1, level, nextId, oramData =>
      if level.length ≤ 1 then (level, nextId, oramData)
      else
        let pieces := chunks order level.length level
        let (level, nextId, oramData) := addNodes
          (pieces.map (fun piece => (firstKey piece, internalOf piece))) nextId oramData
        buildLevels order fuel level nextId oramData

/-- `build_tree` from the block id `0`: the root, the next block id and the encoded nodes. -/
def buildTree (omap : BPlusOmap) (sorted : List (Int × Bytes)) : Int × Int × KeyMap Int Bytes :=
  let pieces := chunks omap.maxLeafKeys sorted.length sorted
  let (level, nextId, oramData) := addNodes
    (pieces.map (fun piece => (firstKey piece, leafOf omap.indexMode piece))) 0 ∅
  let (level, nextId, oramData) := buildLevels omap.order level.length level nextId oramData
  ((level.map Prod.snd).headD invalidKey, nextId, oramData)

/-- `nodes.at(id)`. -/
def nodeAt (nodes : List (Int × BPlusNode)) (id : Int) : Rand BPlusNode :=
  match KeyMap.lookupEntry nodes id with
  | some node => return node
  | none => Prog.fail .outOfRange

/-- Run an action on every child of a node. -/
def forChildren {σ : Type} (action : Int → σ → Rand σ) : List Int → σ → Rand σ
  | [], state => return state
  | id :: rest, state => do
      let state ← action id state
      forChildren action rest state

/-- `assign_leaves` of the split mode. -/
def assignSplitLeaves (nodes : List (Int × BPlusNode)) :
    Nat → Int → Int → SplitOram → Rand SplitOram
  | 0, _, _, orams => return orams
  | fuel + 1, id, depth, orams =>
      if id = invalidKey then return orams
      else do
        let node ← nodeAt nodes id
        let (_, orams) ← orams.assignLeaf (orams.halfForDepth depth) id
        if node.isLeaf then return orams
        else
          forChildren (fun child => assignSplitLeaves nodes fuel child (depth + 1))
            node.childIds orams

/-- Fill in the leaves of a node's children, which live in the given half. -/
def withChildLeaves (orams : SplitOram) (half : Half) (node : BPlusNode) : BPlusNode :=
  if node.isLeaf then node
  else { node with childLeaves := node.childIds.map (orams.get half).getLeaf }

/-- Change the node of an id. -/
def setNode (nodes : List (Int × BPlusNode)) (id : Int) (f : BPlusNode → BPlusNode) :
    List (Int × BPlusNode) :=
  nodes.map (fun entry => if entry.1 = id then (entry.1, f entry.2) else entry)

/-- `fix_child_leaves` of the split mode. -/
def fixChildLeaves (orams : SplitOram) :
    Nat → Int → Int → List (Int × BPlusNode) → Rand (List (Int × BPlusNode))
  | 0, _, _, nodes => return nodes
  | fuel + 1, id, depth, nodes =>
      if id = invalidKey then return nodes
      else do
        let node ← nodeAt nodes id
        if node.isLeaf then return nodes
        else
          forChildren (fun child => fixChildLeaves orams fuel child (depth + 1)) node.childIds
            (setNode nodes id (withChildLeaves orams (orams.halfForDepth (depth + 1))))

/-- `partition` of the split mode: the encoded nodes of the upper and of the lower ORAM. -/
def partitionNodes (orams : SplitOram) (nodes : List (Int × BPlusNode)) :
    Nat → Int → Int → KeyMap Int Bytes × KeyMap Int Bytes →
      Rand (KeyMap Int Bytes × KeyMap Int Bytes)
  | 0, _, _, parts => return parts
  | fuel + 1, id, depth, parts =>
      if id = invalidKey then return parts
      else do
        let node ← nodeAt nodes id
        let parts := match orams.halfForDepth depth with
          | .upper => (parts.1.set id node.encode, parts.2)
          | .lower => (parts.1, parts.2.set id node.encode)
        if node.isLeaf then return parts
        else
          forChildren (fun child => partitionNodes orams nodes fuel child (depth + 1))
            node.childIds parts

/-- The end of `init` with a split. -/
def initSplit (omap : BPlusOmap) (root : Int) (nodes : List (Int × BPlusNode)) :
    Rand BPlusOmap := do
  let fuel := nodes.length
  let upperOram ← PathORAM.new (max omap.orams.upperOram.numData 1)
    omap.orams.upperOram.bucketSize 7
  let oram ← PathORAM.new (max omap.nextBlockId 1) omap.orams.oram.bucketSize 7
  let orams ← assignSplitLeaves nodes fuel root 0 { omap.orams with upperOram, oram }
  let nodes ← fixChildLeaves orams fuel root 0 nodes
  let (upperData, lowerData) ← partitionNodes orams nodes fuel root 0 (∅, ∅)
  let upperOram ← orams.upperOram.init upperData
  let oram ← orams.oram.init lowerData
  return { omap with orams := { orams with upperOram, oram } }

/-- Give every listed id a leaf. -/
def drawLeaves : List Int → PathORAM → Rand PathORAM
  | [], oram => return oram
  | id :: rest, oram => do
      let leaf ← oram.randomLeaf
      drawLeaves rest (oram.setLeaf id leaf)

/-- The end of `init` without a split. -/
def initWhole (omap : BPlusOmap) (nodes : List (Int × BPlusNode)) : Rand BPlusOmap := do
  let oram ← PathORAM.new (max omap.nextBlockId 1) omap.orams.oram.bucketSize 7
  let oram ← drawLeaves (nodes.map Prod.fst) oram
  let orams := { omap.orams with oram }
  let oramData := nodes.foldl (fun oramData entry =>
    oramData.set entry.1 (withChildLeaves orams .lower entry.2).encode) (∅ : KeyMap Int Bytes)
  let oram ← oram.init oramData
  return { omap with orams := { orams with oram } }

/-- `init`. -/
def init (omap : BPlusOmap) (data : List (Int × Bytes)) : Rand BPlusOmap :=
  if data.isEmpty then return { omap with rootId := invalidKey, rootLeaf := invalidLeaf }
  else do
    let sorted := data.insertionSort (fun entry entry' => entry.1 ≤ entry'.1)
    let (root, nextBlockId, oramData) := omap.buildTree sorted
    let nodes := oramData.entries.map (fun entry => (entry.1, BPlusNode.decode entry.2))
    let omap : BPlusOmap := { omap with nextBlockId }
    let omap ← if 0 < omap.orams.splitDepth then omap.initSplit root nodes
      else omap.initWhole nodes
    return { omap with
      rootId := root
      rootLeaf := (omap.orams.get (omap.orams.halfForDepth 0)).getLeaf root }

/-! ## Traversal -/

/-- Read a path and take one node out of the stash; also returns the leaf stored with it. -/
def fetchNode (omap : BPlusOmap) (id leaf depth : Int) :
    Rand (Int × BPlusNode × BPlusOmap) := do
  let half := omap.orams.halfForDepth depth
  let oram ← (omap.orams.get half).readPathToStash leaf
  let (block, oram) ← oram.extractFromStash id
  let oram ← oram.evictAndWritePath leaf
  return (block.leaf, BPlusNode.decode block.value,
    { omap with orams := omap.orams.set half oram }.countOp depth)

/-- `local_.push_back`. -/
def pushLocal (omap : BPlusOmap) (node : BPlusLocalNode) : BPlusOmap :=
  { omap with local_ := omap.local_ ++ [node] }

/-- `sibling_cache_.push_back`. -/
def pushSibling (omap : BPlusOmap) (sibling : CachedSibling) : BPlusOmap :=
  { omap with siblingCache := omap.siblingCache ++ [sibling] }

/-- `move_to_local`; also returns the node, which is now `local_.back()`. -/
def moveToLocal (omap : BPlusOmap) (id leaf parentId depth : Int) :
    Rand (BPlusNode × BPlusOmap) := do
  let (leaf, node, omap) ← omap.fetchNode id leaf depth
  return (node, omap.pushLocal { id, leaf, node, parentId, depth })

/-- `move_to_sibling_cache`. -/
def moveToSiblingCache (omap : BPlusOmap) (id leaf : Int) (parentLocalIdx childIdx : Nat)
    (depth : Int) : Rand BPlusOmap := do
  let (leaf, node, omap) ← omap.fetchNode id leaf depth
  return omap.pushSibling
    { id, leaf, node, parentLocalIdx, childIdxInParent := childIdx, depth }

/-- A counted dummy access on the ORAM of a depth. -/
def dummyAt (omap : BPlusOmap) (depth : Int) : Rand BPlusOmap := do
  let orams ← omap.orams.dummyAccess (omap.orams.halfForDepth depth)
  return { omap with orams }.countOp depth

/-- The id of `local_.back()`, or `INVALID_KEY`. -/
def lastId (omap : BPlusOmap) : Int :=
  match omap.local_.getLast? with
  | some node => node.id
  | none => invalidKey

/-- Read the sibling of the child a traversal goes to. -/
def readSibling (omap : BPlusOmap) (node : BPlusNode) (idx : Nat) (depth : Int) :
    Rand BPlusOmap :=
  match node.siblingIdx idx with
  | some sibIdx =>
      omap.moveToSiblingCache (node.childIds.getD sibIdx invalidKey)
        (node.childLeaves.getD sibIdx invalidLeaf) (omap.local_.length - 1) sibIdx depth
  | none => omap.dummyAt depth

/-- The loop of `traverse_with_siblings`, at depth `d`. -/
def traverseLoop (key : Int) : Nat → Int → Int → Int → BPlusOmap → Rand BPlusOmap
  | 0, _, _, _, omap => return omap
  | count + 1, d, curId, curLeaf, omap =>
      if curId = invalidKey then return omap
      else do
        let (node, omap) ← omap.moveToLocal curId curLeaf omap.lastId d
        if node.isLeaf then omap.dummyAt d
        else
          let idx := node.findChildIndex key
          let omap ← omap.readSibling node idx (d + 1)
          traverseLoop key count (d + 1) (node.childIds.getD idx invalidKey)
            (node.childLeaves.getD idx invalidLeaf) omap

/-- `traverse_with_siblings`. -/
def traverseWithSiblings (omap : BPlusOmap) (key : Int) : Rand BPlusOmap :=
  traverseLoop key omap.maxHeight.toNat 0 omap.rootId omap.rootLeaf
    { omap with local_ := [], siblingCache := [] }

/-! ## Putting nodes back -/

/-- Give the nodes of a list new leaves, last node first. -/
def drawLocalLeaves : List BPlusLocalNode → SplitOram → Rand (List BPlusLocalNode × SplitOram)
  | [], orams => return ([], orams)
  | node :: rest, orams => do
      let (rest, orams) ← drawLocalLeaves rest orams
      let (leaf, orams) ← orams.assignLeaf (orams.halfForDepth node.depth) node.id
      return ({ node with leaf } :: rest, orams)

/-- Give the cached siblings new leaves. -/
def drawSiblingLeaves : List CachedSibling → SplitOram → Rand (List CachedSibling × SplitOram)
  | [], orams => return ([], orams)
  | sibling :: rest, orams =>
      if sibling.id = invalidKey then do
        let (rest, orams) ← drawSiblingLeaves rest orams
        return (sibling :: rest, orams)
      else do
        let (leaf, orams) ← orams.assignLeaf (orams.halfForDepth sibling.depth) sibling.id
        let (rest, orams) ← drawSiblingLeaves rest orams
        return ({ sibling with leaf } :: rest, orams)

/-- Record the leaf of a child in a local node. -/
def pointAt (id leaf : Int) (parent : BPlusLocalNode) : BPlusLocalNode :=
  { parent with node := parent.node.setChildLeaf id leaf }

/-- Point the parent of one local node at its new leaf. -/
def pointParent (nodes : List BPlusLocalNode) (child : BPlusLocalNode) : List BPlusLocalNode :=
  if child.parentId = invalidKey then nodes
  else modifyFirst (fun parent => parent.id == child.parentId && !parent.node.isLeaf)
    (pointAt child.id child.leaf) nodes

/-- Point the parent of one cached sibling at its new leaf. -/
def pointSibling (nodes : List BPlusLocalNode) (sibling : CachedSibling) : List BPlusLocalNode :=
  if sibling.id = invalidKey then nodes
  else nodes.modify sibling.parentLocalIdx (fun parent =>
    if parent.node.isLeaf then parent else pointAt sibling.id sibling.leaf parent)

/-- `reassign_all_leaves`. -/
def reassignAllLeaves (omap : BPlusOmap) : Rand BPlusOmap := do
  let (nodes, orams) ← drawLocalLeaves omap.local_ omap.orams
  let (siblings, orams) ← drawSiblingLeaves omap.siblingCache orams
  let rootLeaf := match nodes.find? (fun node => node.id == omap.rootId) with
    | some node => node.leaf
    | none => omap.rootLeaf
  return { omap with
    orams
    rootLeaf
    siblingCache := siblings
    local_ := siblings.foldl pointSibling (nodes.reverse.foldl pointParent nodes) }

/-- `flush_all_to_stash`. -/
def flushAllToStash (omap : BPlusOmap) : BPlusOmap :=
  let flushed := omap.local_.foldl (fun orams node =>
    orams.addToStash (orams.halfForDepth node.depth)
      { key := node.id, leaf := node.leaf, value := node.node.encode }) omap.orams
  { omap with
    orams := omap.siblingCache.foldl (fun orams sibling =>
      if sibling.id = invalidKey then orams
      else orams.addToStash (orams.halfForDepth sibling.depth)
        { key := sibling.id, leaf := sibling.leaf, value := sibling.node.encode }) flushed
    local_ := []
    siblingCache := [] }

/-- `split_upper_budget`. -/
def splitUpperBudget (omap : BPlusOmap) : Int :=
  if omap.orams.splitDepth ≤ 0 then 0
  else min (2 * omap.orams.splitDepth - 1) (3 * omap.maxHeight)

/-- `pad_to_budget`. -/
def padToBudget (omap : BPlusOmap) : Rand BPlusOmap :=
  let budget := 3 * omap.maxHeight
  if 0 < omap.orams.splitDepth then do
    let upperPad := max 0 (omap.splitUpperBudget - omap.upperOpCount)
    let orams ← omap.orams.dummyAccesses .upper upperPad.toNat
    let lowerPad := max 0 (budget - omap.splitUpperBudget - omap.lowerOpCount)
    let orams ← orams.dummyAccesses .lower lowerPad.toNat
    return { omap with
      orams
      upperOpCount := omap.upperOpCount + upperPad
      lowerOpCount := omap.lowerOpCount + lowerPad
      opCount := omap.upperOpCount + upperPad + (omap.lowerOpCount + lowerPad) }
  else do
    let pad := max 0 (budget - omap.opCount)
    let orams ← omap.orams.dummyAccesses .lower pad.toNat
    return { omap with
      orams, opCount := omap.opCount + pad, lowerOpCount := omap.lowerOpCount + pad }

/-- `if (!ods_mode_) pad_to_budget()`. -/
def padUnlessOds (omap : BPlusOmap) : Rand BPlusOmap :=
  if omap.odsMode then return omap else omap.padToBudget

/-- The end of every operation on a traversed path. -/
def finish (omap : BPlusOmap) : Rand BPlusOmap := do
  let omap ← omap.reassignAllLeaves
  omap.flushAllToStash.padUnlessOds

/-! ## Search and dummy accesses -/

/-- Change the last local node if it is a tree leaf. -/
def modifyLastLeaf (omap : BPlusOmap) (f : BPlusNode → BPlusNode) : BPlusOmap :=
  { omap with local_ := omap.local_.modify (omap.local_.length - 1) (fun last =>
      if last.node.isLeaf then { last with node := f last.node } else last) }

/-- What the last local node, if it is a tree leaf, maps a key to. -/
def lookupLast (omap : BPlusOmap) (key : Int) : Bytes :=
  match omap.local_.getLast? with
  | some last => if last.node.isLeaf then last.node.lookup key else []
  | none => []

/-- `search`. -/
def search (omap : BPlusOmap) (key : Int) (update : Option Bytes) : Rand (Bytes × BPlusOmap) := do
  let omap := omap.resetOpCounts
  if omap.rootId = invalidKey then
    let omap ← omap.padUnlessOds
    return ([], omap)
  else
    let omap ← omap.traverseWithSiblings key
    let result := omap.lookupLast key
    let omap ← (omap.modifyLastLeaf (fun node => node.updateValue key update)).finish
    return (result, omap)

/-- `dummy_access`. -/
def dummyAccess (omap : BPlusOmap) : Rand BPlusOmap := omap.resetOpCounts.padUnlessOds

/-- `partial_dummy_access`. -/
def partialDummyAccess (omap : BPlusOmap) : Rand BPlusOmap :=
  if omap.orams.splitDepth ≤ 0 then omap.dummyAccess
  else do
    let effSplit := min omap.orams.splitDepth (3 * omap.maxHeight)
    let orams ← omap.orams.dummyAccesses .upper effSplit.toNat
    let orams ← orams.dummyAccess .lower
    return { omap with
      orams, opCount := effSplit + 1, upperOpCount := effSplit, lowerOpCount := 1 }

/-! ## Insertion -/

/-- `split_leaf` of the local node at an index: the new node's id and leaf. -/
def splitLeaf (omap : BPlusOmap) (idx : Nat) : Rand (Int × Int × BPlusOmap) := do
  let old := omap.local_.getD idx default
  let newId := omap.nextBlockId
  let (newLeaf, orams) ← omap.orams.assignLeaf (omap.orams.halfForDepth old.depth) newId
  let nodes := omap.local_.modify idx (fun old => { old with node := old.node.lowerHalf })
  return (newId, newLeaf, { omap with
    orams
    nextBlockId := newId + 1
    local_ := nodes ++ [{ id := newId, leaf := newLeaf, node := old.node.upperHalf
                          parentId := old.parentId, depth := old.depth }] })

/-- Hang a new node under the parent of the local node `old` whose upper half it took. -/
def linkChild (nodes : List BPlusLocalNode) (old : BPlusLocalNode) (separator id leaf : Int) :
    List BPlusLocalNode :=
  modifyFirst (fun parent => parent.id == old.parentId && !parent.node.isLeaf)
    (fun parent => { parent with
      node := parent.node.addChild (old.node.keys.getLastD 0) separator id leaf }) nodes

/-- Split a tree leaf and hang the new one under its parent, or both under a new root. -/
def splitAndLink (omap : BPlusOmap) (idx : Nat) : Rand BPlusOmap := do
  let (newId, newLeaf, omap) ← omap.splitLeaf idx
  let old := omap.local_.getD idx default
  let separator := match omap.local_.getLast? with
    | some last => last.node.keys.headD 0
    | none => 0
  if old.parentId ≠ invalidKey then
    return { omap with local_ := linkChild omap.local_ old separator newId newLeaf }
  else
    let newRoot : BPlusNode := { isLeaf := false, keys := [separator]
                                 childIds := [old.id, newId], childLeaves := [old.leaf, newLeaf] }
    let rootId := omap.nextBlockId
    let (rootLeaf, orams) ← omap.orams.assignLeaf (omap.orams.halfForDepth 0) rootId
    return { omap.pushLocal { id := rootId, leaf := rootLeaf, node := newRoot
                              parentId := invalidKey, depth := 0 } with
      orams, nextBlockId := rootId + 1, rootId }

/-- Insert an entry into the tree leaf at a local index, which is split when it is too big. -/
def insertAt (omap : BPlusOmap) (idx : Nat) (key : Int) (value : Bytes) : Rand BPlusOmap :=
  let inserted := { omap with local_ := omap.local_.modify idx (fun last =>
    { last with node := last.node.insertEntry key value }) }
  if inserted.maxLeafKeys < (inserted.local_.getD idx default).node.keys.length then
    inserted.splitAndLink idx
  else return inserted

/-- Insertion into an empty tree: the new tree leaf becomes the root. -/
def insertRoot (omap : BPlusOmap) (key : Int) (value : Bytes) : Rand BPlusOmap := do
  let half := omap.orams.halfForDepth 0
  let id := omap.nextBlockId
  let (leaf, orams) ← omap.orams.assignLeaf half id
  let block : Block :=
    { key := id, leaf, value := (BPlusNode.singleton omap.indexMode key value).encode }
  return { omap with
    orams := orams.addToStash half block
    nextBlockId := id + 1
    rootId := id
    rootLeaf := leaf }

/-- `insert`. -/
def insert (omap : BPlusOmap) (key : Int) (value : Bytes) : Rand BPlusOmap := do
  let omap := omap.resetOpCounts
  if omap.rootId = invalidKey then
    let omap ← omap.insertRoot key value
    omap.padUnlessOds
  else
    let omap ← omap.traverseWithSiblings key
    let atLeaf := match omap.local_.getLast? with
      | some last => last.node.isLeaf
      | none => false
    let omap ← doWhen atLeaf (omap.insertAt (omap.local_.length - 1) key value) omap
    omap.finish

/-! ## Removal -/

/-- A local node, its parent and its sibling while an underflow is handled. -/
structure Underflow where
  node : BPlusNode
  parent : BPlusNode
  sibling : BPlusNode
  /-- The sibling has been merged away: `sib->id = INVALID_KEY`. -/
  siblingGone : Bool := false
deriving DecidableEq, Repr, Inhabited

/-- Move an entry from the left sibling: the last one of a tree leaf, or the last child. -/
def Underflow.borrowLeft (u : Underflow) (sep : Nat) : Underflow :=
  let sibling := { u.sibling with keys := u.sibling.keys.dropLast }
  if u.node.isLeaf then
    let node := { u.node with keys := u.sibling.keys.getLastD 0 :: u.node.keys }
    let parent := { u.parent with keys := u.parent.keys.set sep (u.sibling.keys.getLastD 0) }
    if u.node.isIndexLeaf then
      { u with
        parent
        node := { node with childIds := u.sibling.childIds.getLastD 0 :: u.node.childIds }
        sibling := { sibling with childIds := u.sibling.childIds.dropLast } }
    else
      { u with
        parent
        node := { node with values := u.sibling.values.getLastD [] :: u.node.values }
        sibling := { sibling with values := u.sibling.values.dropLast } }
  else
    { u with
      node := { u.node with
        keys := u.parent.keys.getD sep 0 :: u.node.keys
        childIds := u.sibling.childIds.getLastD 0 :: u.node.childIds
        childLeaves := u.sibling.childLeaves.getLastD 0 :: u.node.childLeaves }
      parent := { u.parent with keys := u.parent.keys.set sep (u.sibling.keys.getLastD 0) }
      sibling := { sibling with
        childIds := u.sibling.childIds.dropLast
        childLeaves := u.sibling.childLeaves.dropLast } }

/-- Move an entry from the right sibling: the first one of a tree leaf, or the first child. -/
def Underflow.borrowRight (u : Underflow) (sep : Nat) : Underflow :=
  let sibling := { u.sibling with keys := u.sibling.keys.tail }
  if u.node.isLeaf then
    let node := { u.node with keys := u.node.keys ++ [u.sibling.keys.headD 0] }
    let parent := { u.parent with keys := u.parent.keys.set sep (u.sibling.keys.getD 1 0) }
    if u.node.isIndexLeaf then
      { u with
        parent
        node := { node with childIds := u.node.childIds ++ [u.sibling.childIds.headD 0] }
        sibling := { sibling with childIds := u.sibling.childIds.tail } }
    else
      { u with
        parent
        node := { node with values := u.node.values ++ [u.sibling.values.headD []] }
        sibling := { sibling with values := u.sibling.values.tail } }
  else
    { u with
      node := { u.node with
        keys := u.node.keys ++ [u.parent.keys.getD sep 0]
        childIds := u.node.childIds ++ [u.sibling.childIds.headD 0]
        childLeaves := u.node.childLeaves ++ [u.sibling.childLeaves.headD 0] }
      parent := { u.parent with keys := u.parent.keys.set sep (u.sibling.keys.headD 0) }
      sibling := { sibling with
        childIds := u.sibling.childIds.tail
        childLeaves := u.sibling.childLeaves.tail } }

/-- Drop a child and a separator of a node. -/
def dropChild (node : BPlusNode) (sep childIdx : Nat) : BPlusNode :=
  { node with
    keys := node.keys.eraseIdx sep
    childIds := node.childIds.eraseIdx childIdx
    childLeaves := node.childLeaves.eraseIdx childIdx }

/-- All entries of two tree leaves, or all children of two internal nodes around a separator. -/
def mergeNodes (left right : BPlusNode) (separator : Int) (isLeaf isIndexLeaf : Bool) : BPlusNode :=
  if isLeaf then
    if isIndexLeaf then
      { left with keys := left.keys ++ right.keys, childIds := left.childIds ++ right.childIds }
    else { left with keys := left.keys ++ right.keys, values := left.values ++ right.values }
  else
    { left with
      keys := left.keys ++ separator :: right.keys
      childIds := left.childIds ++ right.childIds
      childLeaves := left.childLeaves ++ right.childLeaves }

/-- Merge the node into its left sibling; the node stays, empty. -/
def Underflow.mergeLeft (u : Underflow) (sep nodeIdx : Nat) : Underflow :=
  let emptied := { u.node with keys := [] }
  { u with
    sibling := mergeNodes u.sibling u.node (u.parent.keys.getD sep 0) u.node.isLeaf
      u.node.isIndexLeaf
    parent := dropChild u.parent sep nodeIdx
    node := if u.node.isLeaf then
        if u.node.isIndexLeaf then { emptied with childIds := [] } else { emptied with values := [] }
      else { emptied with childIds := [], childLeaves := [] } }

/-- Merge the right sibling into the node; the sibling is gone. -/
def Underflow.mergeRight (u : Underflow) (sep : Nat) (siblingId : Int) : Underflow :=
  { u with
    node := mergeNodes u.node u.sibling (u.parent.keys.getD sep 0) u.node.isLeaf u.node.isIndexLeaf
    parent := match u.parent.childIdx siblingId with
      | some sibIdx => dropChild u.parent sep sibIdx
      | none => u.parent
    siblingGone := true }

/-- The changes to a node with too few keys, the node being child `nodeIdx` of its parent. -/
def Underflow.handle (u : Underflow) (minKeys nodeIdx : Nat) (sibling : CachedSibling) :
    Underflow :=
  let sibLeft : Bool := sibling.childIdxInParent < nodeIdx
  let sep := if sibLeft then sibling.childIdxInParent else nodeIdx
  if u.parent.keys.length ≤ sep then u
  else if minKeys < u.sibling.keys.length then
    if sibLeft then u.borrowLeft sep else u.borrowRight sep
  else if sibLeft then u.mergeLeft sep nodeIdx
  else u.mergeRight sep sibling.id

/-- The loop body of `handle_delete_underflow`, for the local node at index `i + 1`. -/
def underflowAt (omap : BPlusOmap) (i : Nat) : BPlusOmap :=
  let node := omap.local_.getD (i + 1) default
  let parent := omap.local_.getD i default
  if omap.minLeafKeys ≤ node.node.keys.length then omap
  else match parent.node.childIdx node.id,
      omap.siblingCache.findIdx? (fun sib => sib.parentLocalIdx == i && sib.id != invalidKey) with
  | some nodeIdx, some sibIdx =>
      let sibling := omap.siblingCache.getD sibIdx default
      let u : Underflow := { node := node.node, parent := parent.node, sibling := sibling.node }
      let u := u.handle omap.minLeafKeys nodeIdx sibling
      { omap with
        local_ := (omap.local_.set (i + 1) { node with node := u.node }).set i
          { parent with node := u.parent }
        siblingCache := omap.siblingCache.set sibIdx { sibling with
          id := if u.siblingGone then invalidKey else sibling.id, node := u.sibling } }
  | _, _ => omap

/-- A root without keys gives way to its only child. -/
def collapseRoot (omap : BPlusOmap) : BPlusOmap :=
  match omap.local_ with
  | [] => omap
  | root :: _ =>
      if !root.node.isLeaf && root.node.keys.isEmpty then
        match root.node.childIds with
        | [] => { omap with rootId := invalidKey, rootLeaf := invalidLeaf }
        | [child] => { omap with rootId := child }
        | _ => omap
      else omap

/-- `handle_delete_underflow`, last node first. -/
def handleDeleteUnderflow (omap : BPlusOmap) : BPlusOmap :=
  ((List.range (omap.local_.length - 1)).reverse.foldl underflowAt omap).collapseRoot

/-- `remove`. -/
def remove (omap : BPlusOmap) (key : Int) : Rand BPlusOmap := do
  let omap := omap.resetOpCounts
  if omap.rootId = invalidKey then omap.padUnlessOds
  else
    let omap ← omap.traverseWithSiblings key
    (omap.modifyLastLeaf (fun node => node.eraseEntry key)).handleDeleteUnderflow.finish

end BPlusOmap

end TieredOmap
