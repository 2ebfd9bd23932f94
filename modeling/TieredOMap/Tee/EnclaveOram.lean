import TieredOMap.Lib.Bubble
import TieredOMap.Oram.PathOram
import TieredOMap.Tee.Oblivious

/-!
# The ORAM of the enclave

`EnclaveOram` (`tee/enclave_oram.cpp`): a bucket tree whose buckets always have all
their slots, and a stash padded with dummies. Reading a path moves all its slots to
the stash. Evicting scans the whole stash for every slot, bubbles the real blocks to
the front and cuts the stash off. The two functions that draw a leaf themselves are
given the draw, and eviction says whether it overflowed: the source throws only after
the ORAM is in its new state. Page statistics are left out.
-/

namespace TieredOmap

/-- `EnclaveOram`; a `TreeBlock` has the fields of a `Block`. -/
structure EnclaveOram where
  valueSize : Nat := 0
  bucketSize : Nat := 4
  level : Nat := 0
  stashMax : Nat := 0
  tree : Int → List Block := fun _ => []
  stash : List Block := []

instance : Inhabited EnclaveOram := ⟨{}⟩

namespace EnclaveOram

/-- A slot without a block. -/
def emptySlot (valueSize : Nat) : Block := { value := List.replicate valueSize 0 }

/-- The constructor. -/
def new (numData : Int) (valueSize bucketSize : Nat) (stashScale : Nat := 7) : EnclaveOram :=
  let level := max 1 (ceilLog2 numData)
  { valueSize, bucketSize, level, stashMax := stashScale * level
    tree := fun _ => List.replicate bucketSize (emptySlot valueSize) }

/-- `leaf_range_`. -/
def leafRange (oram : EnclaveOram) : Nat := 2 ^ (oram.level - 1)

/-- `leaf_to_node`. -/
def leafToNode (oram : EnclaveOram) (leaf : Int) : Int := oram.leafRange - 1 + leaf

/-- `parent`. -/
def parent (node : Int) : Int := (node - 1) / 2

/-- At most `count` nodes from the given one upwards. -/
def nodesUp : Nat → Int → List Int
  | 0, _ => []
  | count + 1, node => node :: if node = 0 then [] else nodesUp count (parent node)

/-- The nodes from a leaf to the root. -/
def path (oram : EnclaveOram) (leaf : Int) : List Int := nodesUp oram.level (oram.leafToNode leaf)

/-- The loop of `path_contains_oblivious`. -/
def containsUp : Nat → Int → Int → Bool
  | 0, _, _ => false
  | count + 1, cur, node =>
      oEqual cur node || containsUp count (if 0 < cur then parent cur else 0) node

/-- `path_contains_oblivious`. -/
def pathContains (oram : EnclaveOram) (leaf node : Int) : Bool :=
  containsUp oram.level (oram.leafToNode leaf) node

/-- Replace the bucket of a node. -/
def setBucket (oram : EnclaveOram) (node : Int) (bucket : List Block) : EnclaveOram :=
  { oram with tree := fun node' => if node' = node then bucket else oram.tree node' }

/-! ## Initialisation -/

/-- `pad_stash`. -/
def padStash (oram : EnclaveOram) : EnclaveOram :=
  { oram with stash := oram.stash ++
      List.replicate (oram.stashMax - oram.stash.length) (emptySlot oram.valueSize) }

/-- `random_leaf`. -/
def randomLeaf (oram : EnclaveOram) : TeeRand Int := do
  let leaf ← inTee (randBelow oram.leafRange)
  return leaf

/-- The leaves of the keys: the preset ones, and draws for the others. -/
def chooseLeaves (oram : EnclaveOram) (presetLeaves : KeyMap Int Int) :
    List (Int × Bytes) → KeyMap Int Int → TeeRand (KeyMap Int Int)
  | [], leafMap => return leafMap
  | (key, _) :: rest, leafMap =>
      match leafMap.get? key with
      | some _ => chooseLeaves oram presetLeaves rest leafMap
      | none =>
          match presetLeaves.get? key with
          | some leaf => chooseLeaves oram presetLeaves rest (leafMap.set key leaf)
          | none => do
              let leaf ← oram.randomLeaf
              chooseLeaves oram presetLeaves rest (leafMap.set key leaf)

/-- Put a block into the first empty slot on the way up from its leaf, else into the stash. -/
def placeBlock (oram : EnclaveOram) (block : Block) : EnclaveOram :=
  match (oram.path block.leaf).find?
      (fun node => (oram.tree node).any (fun slot => slot.key == invalidKey)) with
  | some node => oram.setBucket node
      (modifyFirst (fun slot => slot.key == invalidKey) (fun _ => block) (oram.tree node))
  | none => { oram with stash := oram.stash ++ [block] }

/-- The block `init` makes of a record. -/
def blockOf (oram : EnclaveOram) (leafMap : KeyMap Int Int) (entry : Int × Bytes) : Block :=
  { key := entry.1, leaf := leafMap.getD entry.1 0, value := padBytes entry.2 oram.valueSize }

/-- The part of `init` after the leaves are chosen. -/
def load (oram : EnclaveOram) (data : List (Int × Bytes)) (leafMap : KeyMap Int Int) :
    EnclaveOram :=
  ((data.map (oram.blockOf leafMap)).foldl placeBlock { oram with stash := [] }).padStash

/-- `init`. -/
def init (oram : EnclaveOram) (data : List (Int × Bytes)) (presetLeaves : KeyMap Int Int := ∅) :
    TeeRand (KeyMap Int Int × EnclaveOram) := do
  let leafMap ← oram.chooseLeaves presetLeaves data ∅
  return (leafMap, oram.load data leafMap)

/-! ## Reading and evicting -/

/-- Move the slots of one node to the stash. -/
def takeBucket (oram : EnclaveOram) (node : Int) : EnclaveOram :=
  { oram.setBucket node (List.replicate oram.bucketSize (emptySlot oram.valueSize)) with
    stash := oram.stash ++ oram.tree node }

/-- `read_path`, also `read_path_to_stash`. -/
def readPath (oram : EnclaveOram) (leaf : Int) : EnclaveOram :=
  (oram.path leaf).foldl takeBucket oram

/-- Scan the stash for a block that fills a slot of a node. -/
def fillSlot (oram : EnclaveOram) (node : Int) : List Block → Block → Bool → List Block × Block
  | [], slot, _ => ([], slot)
  | entry :: rest, slot, filled =>
      let isReal := !oEqual entry.key invalidKey
      let candidate := isReal && oram.pathContains entry.leaf node && !filled
      let slot := {
        key := oMov candidate slot.key entry.key
        leaf := oMov candidate slot.leaf entry.leaf
        value := oMovBytes candidate slot.value entry.value }
      let scanned := fillSlot oram node rest slot (filled || candidate)
      ({ entry with key := oMov candidate entry.key invalidKey } :: scanned.1, scanned.2)

/-- Fill the slots of a node in turn. -/
def fillSlots (oram : EnclaveOram) (node : Int) : List Block → List Block → List Block × List Block
  | stash, [] => (stash, [])
  | stash, slot :: rest =>
      let filled := oram.fillSlot node stash slot false
      let others := fillSlots oram node filled.1 rest
      (others.1, filled.2 :: others.2)

/-- Fill the bucket of a node from the stash. -/
def fillBucket (oram : EnclaveOram) (node : Int) : EnclaveOram :=
  let filled := oram.fillSlots node oram.stash (oram.tree node)
  { oram.setBucket node filled.2 with stash := filled.1 }

/-- Swap two neighbours if the left one is a dummy and the right one is real. -/
def compactStep (left right : Block) : Block × Block :=
  let doSwap := oEqual left.key invalidKey && !oEqual right.key invalidKey
  let keys := oSwap doSwap left.key right.key
  let leaves := oSwap doSwap left.leaf right.leaf
  let values := oSwapBytes doSwap left.value right.value
  ({ key := keys.1, leaf := leaves.1, value := values.1 },
    { key := keys.2, leaf := leaves.2, value := values.2 })

/-- The compaction of the stash: as many passes as it has entries. -/
def compact (stash : List Block) : List Block := (Bubble.pass compactStep)^[stash.length] stash

/-- `stash_valid_count`. -/
def validCount (stash : List Block) : Nat :=
  (stash.filter (fun entry => !oEqual entry.key invalidKey)).length

/-- `std::vector::resize` of the stash. -/
def resizeStash (stash : List Block) (size : Nat) : List Block :=
  stash.take size ++ List.replicate (size - stash.length) ({} : Block)

/-- `evict_path`, and whether it throws afterwards. -/
def evictPath (oram : EnclaveOram) (nodes : List Int) : EnclaveOram × Bool :=
  let oram := nodes.foldl fillBucket oram
  let stash := compact oram.stash
  let valid := validCount stash
  ({ oram with stash := resizeStash stash (max valid oram.stashMax) }.padStash,
    oram.stashMax < valid)

/-- The loop of `access_or_dummy` over the stash. -/
def accessStash (key newLeaf : Int) (real hasNew : Bool) (paddedNew : Bytes) :
    List Block → Bytes → List Block × Bytes
  | [], result => ([], result)
  | entry :: rest, result =>
      let hit := real && oEqual entry.key key
      let others := accessStash key newLeaf real hasNew paddedNew rest
        (oMovBytes hit result entry.value)
      ({ entry with
          value := oMovBytes (hit && hasNew) entry.value paddedNew
          leaf := oMov hit entry.leaf newLeaf } :: others.1, others.2)

/-- `access_or_dummy`, with its draw; it throws if the eviction does. -/
def accessOrDummy (oram : EnclaveOram) (key oldLeaf newLeaf : Int) (real : Bool)
    (newValue : Option Bytes) (dummyLeaf : Int) : Bytes × EnclaveOram × Bool :=
  let useLeaf := oSelect real oldLeaf dummyLeaf
  let oram := oram.readPath useLeaf
  let zeros := List.replicate oram.valueSize 0
  let paddedNew := match newValue with
    | some value => padBytes value oram.valueSize
    | none => zeros
  let scanned := accessStash key newLeaf real newValue.isSome paddedNew oram.stash zeros
  (scanned.2, { oram with stash := scanned.1 }.evictPath (oram.path useLeaf))

/-! ## The low-level interface -/

/-- The loop of `extract_from_stash`. -/
def extractLoop (key : Int) : List Block → Block → List Block × Block
  | [], result => ([], result)
  | entry :: rest, result =>
      let hit := oEqual entry.key key && !oEqual entry.key invalidKey
      let result := {
        key := oMov hit result.key entry.key
        leaf := oMov hit result.leaf entry.leaf
        value := oMovBytes hit result.value entry.value }
      let others := extractLoop key rest result
      ({ entry with key := oMov hit entry.key invalidKey } :: others.1, others.2)

/-- `extract_from_stash`. -/
def extractFromStash (oram : EnclaveOram) (key : Int) : Block × EnclaveOram :=
  let extracted := extractLoop key oram.stash (emptySlot oram.valueSize)
  (extracted.2, { oram with stash := extracted.1 })

/-- `add_to_stash`. -/
def addToStash (oram : EnclaveOram) (key leaf : Int) (value : Bytes) : EnclaveOram :=
  { oram with stash := oram.stash ++ [{ key, leaf, value := padBytes value oram.valueSize }] }

/-- `read_path_to_stash`, seen by the observer. -/
def readPathToStash (oram : EnclaveOram) (name : OramName) (leaf : Int) : TeeRand EnclaveOram := do
  noteStep (.read name)
  return oram.readPath leaf

/-- `evict_one_path`, seen by the observer. -/
def evictOnePath (oram : EnclaveOram) (name : OramName) (leaf : Int) : TeeRand EnclaveOram := do
  noteStep (.evict name oram.stash.length)
  let evicted := oram.evictPath (oram.path leaf)
  if evicted.2 then Prog.fail .stashOverflow else return evicted.1

end EnclaveOram

end TieredOmap
