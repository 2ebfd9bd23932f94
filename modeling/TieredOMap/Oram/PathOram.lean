import TieredOMap.Oram.BinaryTreeStorage

/-!
# The Path ORAM client

`PathORAM`: a stash and a position map over a bucket tree. A path is read by
copying its buckets to the stash (the server keeps its copies), and evicted by
filling fresh buckets for the path from the stash and writing them all.

The AES layer is the class `Cipher`: what the client relies on is that
decryption inverts encryption and that the ciphertext of a non-empty value
(which starts with the nonce) is not empty. The choice of the nonce is not modelled. Bandwidth
counters and round delays only measure and are left out.
-/

namespace TieredOmap

open BinaryTreeStorage

/-- The symmetric cipher under the client's key. -/
class Cipher where
  encrypt : Bytes → Bytes
  decrypt : Bytes → Bytes
  decrypt_encrypt : ∀ plaintext, decrypt (encrypt plaintext) = plaintext
  encrypt_ne_nil : ∀ plaintext, plaintext ≠ [] → encrypt plaintext ≠ []

/-- A cipher for evaluating concrete runs: a zero nonce in front of the plaintext. -/
@[reducible]
def clearCipher : Cipher where
  encrypt plaintext := List.replicate 16 0 ++ plaintext
  decrypt blob := blob.drop 16
  decrypt_encrypt plaintext := by simp
  encrypt_ne_nil plaintext _ := by simp

/-- No encryption at all, for an ORAM that stores its blocks as they are. -/
@[reducible]
def plainCipher : Cipher where
  encrypt plaintext := plaintext
  decrypt blob := blob
  decrypt_encrypt _ := rfl
  encrypt_ne_nil _ nonempty := nonempty

/-- Apply `f` to the first element satisfying `test`. -/
def modifyFirst {α : Type} (test : α → Bool) (f : α → α) : List α → List α
  | [] => []
  | head :: rest => if test head then f head :: rest else head :: modifyFirst test f rest

theorem length_modifyFirst {α : Type} (test : α → Bool) (f : α → α) (items : List α) :
    (modifyFirst test f items).length = items.length := by
  induction items with
  | nil => rfl
  | cons head rest ih =>
      rw [modifyFirst]
      split
      · rfl
      · exact congrArg (· + 1) ih

/-- A Path ORAM with its storage. -/
structure PathORAM where
  numData : Int := 0
  bucketSize : Int := 4
  stashMaxSize : Int := 0
  storage : BinaryTreeStorage := {}
  stash : List Block := []
  posMap : KeyMap Int Int := ∅

instance : Inhabited PathORAM := ⟨{}⟩

/-- `encrypt_bucket`, block by block. -/
def encryptBlock [Cipher] (block : Block) : Block :=
  if !block.isDummy && !block.value.isEmpty then
    { block with value := Cipher.encrypt block.value }
  else block

/-- `decrypt_bucket`, block by block. -/
def decryptBlock [Cipher] (block : Block) : Block :=
  if !block.isDummy && !block.value.isEmpty then
    { block with value := Cipher.decrypt block.value }
  else block

/-- Try each stash block in turn on the path; returns the filled path and what is left. -/
def fillPaths (level : Nat) (bucketSize : Int) : List Block → PathData → PathData × List Block
  | [], path => (path, [])
  | block :: rest, path =>
      match fillBlockToPath block path level bucketSize with
      | some path' => fillPaths level bucketSize rest path'
      | none =>
          let filled := fillPaths level bucketSize rest path
          (filled.1, block :: filled.2)

namespace PathORAM

variable [Cipher]

/-- The constructor; the storage creator hands out a fresh store. -/
def new (numData bucketSize : Int) (stashScale : Int := 7) : Rand PathORAM := do
  let storeId ← freshStore
  let storage := BinaryTreeStorage.new storeId numData bucketSize
  return { numData, bucketSize, storage,
           stashMaxSize := stashScale * max ((storage.level : Int) - 1) 1 }

/-- `leaf_range`. -/
def leafRange (oram : PathORAM) : Nat := oram.storage.leafRange

/-- `random_leaf`. -/
def randomLeaf (oram : PathORAM) : Rand Int := do
  let leaf ← randBelow oram.leafRange
  return leaf

/-- `get_leaf`. -/
def getLeaf (oram : PathORAM) (key : Int) : Int := oram.posMap.getD key invalidLeaf

/-- `set_leaf`. -/
def setLeaf (oram : PathORAM) (key leaf : Int) : PathORAM :=
  { oram with posMap := oram.posMap.set key leaf }

/-- Draw a leaf for every key that has none yet. -/
def assignLeaves (oram : PathORAM) : List (Int × Bytes) → Rand PathORAM
  | [] => return oram
  | (key, _) :: rest =>
      match oram.posMap.get? key with
      | some _ => assignLeaves oram rest
      | none => do
          let leaf ← randBelow oram.leafRange
          assignLeaves (oram.setLeaf key leaf) rest

/-- `init`: load the data into the tree, and into the stash what found no place. -/
def init (oram : PathORAM) (data : KeyMap Int Bytes) : Rand PathORAM := do
  let oram ← assignLeaves { oram with stash := [] } data.entries
  let emptied := oram.storage.reset oram.numData oram.bucketSize
  let blocks := data.entries.map (fun entry =>
    ({ key := entry.1, leaf := oram.getLeaf entry.1,
       value := if entry.2.isEmpty then entry.2 else Cipher.encrypt entry.2 } : Block))
  let loaded := emptied.bulkLoad blocks
  let left := data.entries.filter (fun entry => !loaded.1.contains entry.1)
  return { oram with
    storage := loaded.2
    stash := left.map (fun entry =>
      { key := entry.1, leaf := oram.getLeaf entry.1, value := entry.2 }) }

/-- `apply_fetched_path`: decrypt fetched buckets and move their real blocks to the stash. -/
def applyFetchedPath (oram : PathORAM) (data : PathData) : PathORAM :=
  { oram with stash := oram.stash ++
      data.flatMap (fun entry => (entry.2.map decryptBlock).filter (fun block => !block.isDummy)) }

/-- `read_path_to_stash`. -/
def readPathToStash (oram : PathORAM) (leaf : Int) : Rand PathORAM := do
  send (.readPath oram.storage.storeId)
  return oram.applyFetchedPath (oram.storage.readPath leaf)

/-- `read_multiple_paths_to_stash`. -/
def readMultiplePathsToStash (oram : PathORAM) (leaves : List Int) : Rand PathORAM := do
  send (.readPaths oram.storage.storeId)
  return oram.applyFetchedPath (oram.storage.readMultiplePaths leaves)

/-- Fill fresh buckets for the paths of the given leaves from the stash. -/
def fillFromStash (oram : PathORAM) (leaves : List Int) : PathData × PathORAM :=
  let level := oram.storage.level
  let empty := (mergedPathIndices level leaves).map (fun node => (node, ([] : List Block)))
  let filled := fillPaths level oram.bucketSize oram.stash empty
  (filled.1, { oram with stash := filled.2 })

/-- The stash bound, checked after every fill. -/
def overflows (oram : PathORAM) : Bool := oram.stashMaxSize < oram.stash.length

/-- Encrypt the buckets of a path. -/
def encryptPath (path : PathData) : PathData :=
  path.map (fun entry => (entry.1, entry.2.map encryptBlock))

/-- `prepare_eviction`: the buckets to write back along one path. -/
def prepareEviction (oram : PathORAM) (leaf : Int) : Rand (PathData × PathORAM) :=
  let filled := oram.fillFromStash [leaf]
  if filled.2.overflows then Prog.fail .stashOverflow
  else return (encryptPath filled.1, filled.2)

/-- `prepare_eviction_paths`: as `prepare_eviction` for several leaves, buckets padded to size. -/
def prepareEvictionPaths (oram : PathORAM) (leaves : List Int) : Rand (PathData × PathORAM) :=
  let filled := oram.fillFromStash leaves
  if filled.2.overflows then Prog.fail .stashOverflow
  else
    let padded := filled.1.map (fun entry =>
      (entry.1, entry.2 ++ List.replicate (oram.bucketSize - entry.2.length).toNat {}))
    return (encryptPath padded, filled.2)

/-- The server's side of a write. -/
def writePath (oram : PathORAM) (path : PathData) : PathORAM :=
  { oram with storage := oram.storage.writeMultiplePaths path }

/-- `evict_stash`, and with it `evict_and_write_path(s)`. -/
def evictStash (oram : PathORAM) (leaves : List Int) : Rand PathORAM :=
  let filled := oram.fillFromStash leaves
  if filled.2.overflows then Prog.fail .stashOverflow
  else do
    send (.writePaths oram.storage.storeId)
    return filled.2.writePath (encryptPath filled.1)

/-- `evict_and_write_path`. -/
def evictAndWritePath (oram : PathORAM) (leaf : Int) : Rand PathORAM := oram.evictStash [leaf]

/-- `find_in_stash`. -/
def findInStash (oram : PathORAM) (key : Int) : Option Block :=
  oram.stash.find? (fun block => block.key == key)

/-- Change the block that `find_in_stash` points at; a null pointer is left alone. -/
def updateInStash (oram : PathORAM) (key : Int) (f : Block → Block) : PathORAM :=
  { oram with stash := modifyFirst (fun block => block.key == key) f oram.stash }

/-- `extract_from_stash`. -/
def extractFromStash (oram : PathORAM) (key : Int) : Rand (Block × PathORAM) :=
  match oram.stash.find? (fun block => block.key == key) with
  | some block =>
      return (block, { oram with stash := oram.stash.eraseP (fun block => block.key == key) })
  | none => Prog.fail .keyNotFound

/-- `add_to_stash`. -/
def addToStash (oram : PathORAM) (block : Block) : PathORAM :=
  { oram with stash := oram.stash ++ [block] }

/-- `access`: read a block, optionally replace its value, and give it a new leaf. -/
def access (oram : PathORAM) (key : Int) (newValue : Option Bytes) : Rand (Bytes × PathORAM) :=
  match oram.posMap.get? key with
  | none => Prog.fail .outOfRange
  | some oldLeaf => do
      let newLeaf ← oram.randomLeaf
      let oram ← (oram.setLeaf key newLeaf).readPathToStash oldLeaf
      match oram.stash.find? (fun block => block.key == key) with
      | none => Prog.fail .keyNotFound
      | some target =>
          let stash := modifyFirst (fun block => block.key == key)
            (fun block => { block with value := newValue.getD block.value, leaf := newLeaf })
            oram.stash
          let oram ← { oram with stash }.evictAndWritePath oldLeaf
          return (target.value, oram)

/-- `dummy_access`: read and evict a random path. -/
def dummyAccess (oram : PathORAM) : Rand PathORAM := do
  let leaf ← oram.randomLeaf
  let oram ← oram.readPathToStash leaf
  oram.evictAndWritePath leaf

end PathORAM

end TieredOmap
