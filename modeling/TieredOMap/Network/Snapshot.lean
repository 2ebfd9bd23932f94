import TieredOMap.Network.StorageServer
import TieredOMap.Oram.PathOram

/-!
# Snapshots of an ORAM

`PathORAM::export_state` writes the client's state of an ORAM as bytes, with the id of its
store in front; `from_state_network` makes an ORAM of these bytes whose tree is at the
server. A snapshot is taken before the server gives the store its id, so the id is written
over afterwards.
-/

namespace TieredOmap

open Decoder

/-! ## Blobs -/

/-- The `int` at an offset of a blob. -/
def intAt (blob : Bytes) (offset : Nat) : Int := bytesToInt (blob.drop offset)

/-- `patch_sid`. -/
def patchSid (blob : Bytes) (offset : Nat) (sid : Int) : Bytes :=
  overwrite blob offset (serInt sid)

/-- The integer behind the first part of a blob. -/
theorem intAt_append {blob front back : Bytes} {value : Int} {offset : Nat}
    (parts : blob = front ++ (serInt value ++ back)) (behind : offset = front.length)
    (inRange : IsInt value) : intAt blob offset = value := by
  rw [parts, behind, intAt, List.drop_left, serInt, bytesToInt_intToBytes_append,
    bmod_of_isInt inRange]

/-- A new id behind the first part of a blob. -/
theorem patchSid_append {blob front back : Bytes} {old : Int} {offset : Nat} (sid : Int)
    (parts : blob = front ++ (serInt old ++ back)) (behind : offset = front.length) :
    patchSid blob offset sid = front ++ (serInt sid ++ back) := by
  rw [parts, behind]
  exact overwrite_append ((length_serInt sid).trans (length_serInt old).symm)

namespace ClientState

/-- `register_store`. -/
def registerStore (server : ClientState) (tree : BinaryTreeStorage) : Int × ClientState :=
  (server.nextId,
    { stores := server.stores.set server.nextId tree, nextId := server.nextId + 1 })

end ClientState

/-! ## Snapshots of a Path ORAM -/

/-- What a `PathORAM` keeps besides its stash, its position map and its tree. -/
structure OramSecrets where
  blockSizeBytes : Int := 0
  aesKey : Bytes := []
deriving DecidableEq, Repr, Inhabited

/-- A `PathORAM` whose tree is at the server. -/
structure NetworkOram where
  numData : Int
  bucketSize : Int
  stashMaxSize : Int
  secrets : OramSecrets
  posMap : KeyMap Int Int
  stash : List Block
  storage : NetworkStorage

/-- An entry of a position map. -/
def serLeaf (entry : Int × Int) : Bytes := serInt entry.1 ++ serInt entry.2

/-- An entry of a position map. -/
def deserLeaf : Deser (Int × Int) := do
  let key ← deserInt
  let leaf ← deserInt
  return (key, leaf)

namespace PathORAM

/-- What `export_state` writes after the store's id. -/
def exportClient (oram : PathORAM) (secrets : OramSecrets) : Bytes :=
  serInt oram.storage.level ++ (serInt oram.storage.leafRange ++
    (serInt oram.numData ++ (serInt oram.bucketSize ++ (serInt oram.stashMaxSize ++
      (serInt secrets.blockSizeBytes ++ (serBytes secrets.aesKey ++
        (serInt oram.posMap.entries.length ++ (oram.posMap.entries.flatMap serLeaf ++
          (serInt oram.stash.length ++ oram.stash.flatMap serBlock)))))))))

/-- `export_state`. -/
def exportState (oram : PathORAM) (secrets : OramSecrets) (storeId : Int) : Bytes :=
  serInt storeId ++ oram.exportClient secrets

/-- The ORAM with its tree at the server. -/
def detached (oram : PathORAM) (secrets : OramSecrets) (storeId : Int) : NetworkOram where
  numData := oram.numData
  bucketSize := oram.bucketSize
  stashMaxSize := oram.stashMaxSize
  secrets := secrets
  posMap := oram.posMap
  stash := oram.stash
  storage := { storeId, level := oram.storage.level, leafRange := oram.storage.leafRange
               bucketSize := oram.bucketSize }

/-- The fields are ones the source's types can hold. -/
structure IntState (oram : PathORAM) (secrets : OramSecrets) : Prop where
  level : IsInt oram.storage.level
  leafRange : IsInt oram.storage.leafRange
  numData : IsInt oram.numData
  bucketSize : IsInt oram.bucketSize
  stashMaxSize : IsInt oram.stashMaxSize
  blockSizeBytes : IsInt secrets.blockSizeBytes
  posMap : ∀ entry ∈ oram.posMap.entries, IsInt entry.1 ∧ IsInt entry.2
  stash : ∀ block ∈ oram.stash, IntBlock block

end PathORAM

namespace NetworkOram

/-- `from_state_network`. -/
def fromState : Deser NetworkOram := do
  let storeId ← deserInt
  let level ← deserInt
  let leafRange ← deserInt
  let numData ← deserInt
  let bucketSize ← deserInt
  let stashMaxSize ← deserInt
  let blockSizeBytes ← deserInt
  let aesKey ← deserBytes
  let posMapSize ← deserInt
  let entries ← deserLeaf.times posMapSize.toNat
  let stashSize ← deserInt
  let stash ← deserBlock.times stashSize.toNat
  return { numData, bucketSize, stashMaxSize, secrets := { blockSizeBytes, aesKey }
           posMap := entries.foldl (fun posMap entry => posMap.set entry.1 entry.2) ∅
           stash, storage := { storeId, level, leafRange, bucketSize } }

/-- The ORAM with the tree that the server has for it, if it has one of the right shape. -/
def attach (server : ClientState) (net : NetworkOram) : Option PathORAM :=
  match server.stores.get? net.storage.storeId with
  | none => none
  | some tree =>
      if net.storage.level = tree.level ∧ net.storage.leafRange = tree.leafRange then
        some { numData := net.numData, bucketSize := net.bucketSize
               stashMaxSize := net.stashMaxSize, storage := tree
               stash := net.stash, posMap := net.posMap }
      else none

end NetworkOram

section Snapshot

variable {oram : PathORAM} {secrets : OramSecrets} {storeId : Int}

theorem attach_detached {server : ClientState}
    (found : server.stores.get? storeId = some oram.storage) :
    (oram.detached secrets storeId).attach server = some oram := by
  unfold NetworkOram.attach PathORAM.detached
  dsimp only
  rw [found]
  exact if_pos ⟨rfl, rfl⟩

theorem length_exportState (oram : PathORAM) (secrets : OramSecrets) (storeId : Int) :
    (oram.exportState secrets storeId).length = 4 + (oram.exportClient secrets).length := by
  rw [PathORAM.exportState, List.length_append, length_serInt]

theorem reads_leaf {entry : Int × Int} (isInt : IsInt entry.1 ∧ IsInt entry.2) :
    Reads deserLeaf entry (serLeaf entry) :=
  reads_bind (reads_int isInt.1) (reads_bind_pure (reads_int isInt.2) rfl)

/-- A snapshot is read back. -/
theorem PathORAM.IntState.reads_state (isInt : oram.IntState secrets) (idInt : IsInt storeId)
    (short : (oram.exportState secrets storeId).length < 2 ^ 31) :
    Reads NetworkOram.fromState (oram.detached secrets storeId)
      (oram.exportState secrets storeId) := by
  have entriesLe : oram.posMap.entries.length ≤ (oram.posMap.entries.flatMap serLeaf).length :=
    length_le_flatMap (fun entry _ => by
      rw [serLeaf, List.length_append, length_serInt]
      omega)
  have stashLe := length_blocks_le oram.stash
  rw [length_exportState] at short
  simp only [PathORAM.exportClient, serBytes, List.length_append, length_serInt] at short
  refine reads_bind (reads_int idInt) (reads_bind (reads_int isInt.level)
    (reads_bind (reads_int isInt.leafRange) (reads_bind (reads_int isInt.numData)
      (reads_bind (reads_int isInt.bucketSize) (reads_bind (reads_int isInt.stashMaxSize)
        (reads_bind (reads_int isInt.blockSizeBytes) (reads_bind (reads_bytes (by omega)) ?_)))))))
  refine reads_bind (reads_size (by omega)) ?_
  rw [Int.toNat_natCast]
  refine reads_bind (reads_times (fun entry mem => reads_leaf (isInt.posMap entry mem))) ?_
  refine reads_bind (reads_size (by omega)) ?_
  rw [Int.toNat_natCast]
  refine reads_bind_pure (reads_blocks isInt.stash (by omega)) ?_
  rw [KeyMap.foldl_set_entries]
  rfl

end Snapshot

end TieredOmap
