import Mathlib.Data.Finset.Card
import TieredOMap.Network.StorageServer

/-!
# Remote storage is local storage

A client names its storage objects by handles. The same operations run on local bucket
trees and on network storages with a server at the far end. `Mirrors` says that every live
handle has a network storage whose server store is the local tree, under an id of its own;
every operation keeps it and returns the same on both sides.
-/

namespace TieredOmap

open Decoder

/-! ## Operations -/

/-- The operations of a client on its storage objects. -/
inductive StorageOp where
  | create (handle : Nat) (numData bucketSize : Int)
  | reset (handle : Nat) (numData bucketSize : Int)
  | fillDataToLeaf (handle : Nat) (block : Block)
  | bulkLoad (handle : Nat) (blocks : List Block)
  | readPath (handle : Nat) (leaf : Int)
  | writePath (handle : Nat) (leaf : Int) (buckets : PathData)
  | readMultiplePaths (handle : Nat) (leaves : List Int)
  | writeMultiplePaths (handle : Nat) (buckets : PathData)
  | batchReadPaths (reqs : List (Nat × Int))
  | batchWritePaths (reqs : List (Nat × PathData))
  | destroy (handle : Nat)

/-- What an operation returns. -/
inductive StorageResult where
  | done
  | shape (level leafRange bucketSize : Int)
  | placed (keys : Finset Int)
  | path (path : PathData)
  | paths (paths : List PathData)

/-- The bucket trees of a client that keeps them itself. -/
abbrev LocalStores := KeyMap Nat BinaryTreeStorage

namespace LocalStores

/-- The tree of a handle. -/
def tree (stores : LocalStores) (handle : Nat) : BinaryTreeStorage := stores.getD handle {}

/-- Write to several trees, one after the other. -/
def writeAll (stores : LocalStores) (reqs : List (Nat × PathData)) : LocalStores :=
  reqs.foldl (fun stores req =>
    stores.set req.1 ((stores.tree req.1).writeMultiplePaths req.2)) stores

end LocalStores

/-- The shape of a tree. -/
def BinaryTreeStorage.shape (tree : BinaryTreeStorage) : StorageResult :=
  .shape tree.level tree.leafRange tree.bucketSize

/-- An operation on local trees. -/
def StorageOp.runLocal (stores : LocalStores) : StorageOp → StorageResult × LocalStores
  | create handle numData bucketSize =>
      let tree := BinaryTreeStorage.new 0 numData bucketSize
      (tree.shape, stores.set handle tree)
  | reset handle numData bucketSize =>
      let tree := (stores.tree handle).reset numData bucketSize
      (tree.shape, stores.set handle tree)
  | fillDataToLeaf handle block =>
      (.done, stores.set handle ((stores.tree handle).fillDataToLeaf block))
  | bulkLoad handle blocks =>
      let loaded := (stores.tree handle).bulkLoad blocks
      (.placed loaded.1.toFinset, stores.set handle loaded.2)
  | readPath handle leaf => (.path ((stores.tree handle).readPath leaf), stores)
  | writePath handle _ buckets =>
      (.done, stores.set handle ((stores.tree handle).writeMultiplePaths buckets))
  | readMultiplePaths handle leaves =>
      (.path ((stores.tree handle).readMultiplePaths leaves), stores)
  | writeMultiplePaths handle buckets =>
      (.done, stores.set handle ((stores.tree handle).writeMultiplePaths buckets))
  | batchReadPaths reqs =>
      (.paths (reqs.map (fun req => (stores.tree req.1).readPath req.2)), stores)
  | batchWritePaths reqs => (.done, stores.writeAll reqs)
  | destroy handle => (.done, stores.erase handle)

/-- A client with network storages, and its server. -/
structure RemoteStores where
  handles : KeyMap Nat NetworkStorage := ∅
  server : ClientState := {}

namespace RemoteStores

/-- The network storage of a handle. -/
def storage (stores : RemoteStores) (handle : Nat) : NetworkStorage := stores.handles.getD handle {}

/-- The server's tree behind a handle. -/
def treeOf (stores : RemoteStores) (handle : Nat) : Option BinaryTreeStorage :=
  (stores.handles.get? handle).bind (fun storage => stores.server.stores.get? storage.storeId)

/-- Use the channel. -/
def call {α : Type} (stores : RemoteStores) (action : Remote α) (finish : α → StorageResult) :
    Except WireErr (StorageResult × RemoteStores) := do
  let (value, server) ← action.run stores.server
  return (finish value, { stores with server })

/-- Use the channel for a network storage that takes the place of the old one. -/
def install (stores : RemoteStores) (handle : Nat) (action : Remote NetworkStorage) :
    Except WireErr (StorageResult × RemoteStores) := do
  let (storage, server) ← action.run stores.server
  return (.shape storage.level storage.leafRange storage.bucketSize,
    { handles := stores.handles.set handle storage, server })

end RemoteStores

/-- An operation on network storages. -/
def StorageOp.runRemote (stores : RemoteStores) :
    StorageOp → Except WireErr (StorageResult × RemoteStores)
  | create handle numData bucketSize => stores.install handle (NetworkStorage.new numData bucketSize)
  | reset handle numData bucketSize =>
      stores.install handle ((stores.storage handle).reset numData bucketSize)
  | fillDataToLeaf handle block =>
      stores.call ((stores.storage handle).fillDataToLeaf block) (fun _ => .done)
  | bulkLoad handle blocks => stores.call ((stores.storage handle).bulkLoad blocks) .placed
  | readPath handle leaf => stores.call ((stores.storage handle).readPath leaf) .path
  | writePath handle leaf buckets =>
      stores.call ((stores.storage handle).writePath leaf buckets) (fun _ => .done)
  | readMultiplePaths handle leaves =>
      stores.call ((stores.storage handle).readMultiplePaths leaves) .path
  | writeMultiplePaths handle buckets =>
      stores.call ((stores.storage handle).writeMultiplePaths buckets) (fun _ => .done)
  | batchReadPaths reqs =>
      stores.call (TieredOmap.batchReadPaths
        (reqs.map (fun req => ((stores.storage req.1).storeId, req.2)))) .paths
  | batchWritePaths reqs =>
      stores.call (TieredOmap.batchWritePaths
        (reqs.map (fun req => ((stores.storage req.1).storeId, req.2)))) (fun _ => .done)
  | destroy handle => do
      let (result, stores') ← stores.call (stores.storage handle).destroy (fun _ => .done)
      return (result, { stores' with handles := stores.handles.erase handle })

/-- The handles an operation works on. -/
def StorageOp.handles : StorageOp → List Nat
  | create handle _ _ | reset handle _ _ | fillDataToLeaf handle _ | bulkLoad handle _
  | readPath handle _ | writePath handle _ _ | readMultiplePaths handle _
  | writeMultiplePaths handle _ | destroy handle => [handle]
  | batchReadPaths reqs => reqs.map Prod.fst
  | batchWritePaths reqs => reqs.map Prod.fst

/-- Operations on local trees, one after the other. -/
def runLocal : List StorageOp → LocalStores → List StorageResult × LocalStores
  | [], stores => ([], stores)
  | op :: rest, stores =>
      let first := op.runLocal stores
      let others := runLocal rest first.2
      (first.1 :: others.1, others.2)

/-- Operations on network storages, one after the other. -/
def runRemote : List StorageOp → RemoteStores → Except WireErr (List StorageResult × RemoteStores)
  | [], stores => .ok ([], stores)
  | op :: rest, stores => do
      let (result, stores) ← op.runRemote stores
      let (results, stores) ← runRemote rest stores
      return (result :: results, stores)

/-! ## Well-formed operations -/

/-- The length of the payload of a request. -/
def StorageOp.requestSize : StorageOp → Nat
  | create _ _ _ => 8
  | reset _ _ _ => 12
  | fillDataToLeaf _ block => 4 + (serBlock block).length
  | bulkLoad _ blocks => 8 + (blocks.flatMap serBlock).length
  | readPath _ _ => 8
  | writePath _ _ buckets => 8 + (serPath buckets).length
  | readMultiplePaths _ leaves => 8 + 4 * leaves.length
  | writeMultiplePaths _ buckets => 4 + (serPath buckets).length
  | batchReadPaths reqs => 4 + 8 * reqs.length
  | batchWritePaths reqs => 4 + (reqs.map (fun req => 4 + (serPath req.2).length)).sum
  | destroy _ => 4

/-- The length of the payload of a reply. -/
def StorageResult.replySize : StorageResult → Nat
  | done => 0
  | shape _ _ _ => 12
  | placed keys => 4 + 4 * keys.card
  | path buckets => (serPath buckets).length
  | paths replies => 4 + (replies.flatMap serPath).length

/-- The size of a tree whose nodes are integers. -/
def SizeFits (numData bucketSize : Int) : Prop :=
  IsInt numData ∧ numData ≤ 2 ^ 30 ∧ IsInt bucketSize

/-- A leaf of a tree. -/
def BinaryTreeStorage.HasLeaf (tree : BinaryTreeStorage) (leaf : Int) : Prop :=
  0 ≤ leaf ∧ leaf < tree.leafRange

/-- Buckets that can be written to a tree. -/
structure BinaryTreeStorage.Accepts (tree : BinaryTreeStorage) (buckets : PathData) : Prop where
  nodup : (buckets.map Prod.fst).Nodup
  nodes : ∀ entry ∈ buckets, entry.1 < totalNodes tree.level
  blocks : ∀ entry ∈ buckets, ∀ block ∈ entry.2, IntBlock block

/-- The handle is live, with a tree for which something holds. -/
def LocalStores.Live (stores : LocalStores) (handle : Nat) (holds : BinaryTreeStorage → Prop) :
    Prop :=
  ∃ tree, stores.get? handle = some tree ∧ holds tree

/-- The arguments of an operation are ones the source's types and its callers allow. -/
def StorageOp.Arguments (stores : LocalStores) : StorageOp → Prop
  | create handle numData bucketSize =>
      stores.get? handle = none ∧ SizeFits numData bucketSize
  | reset handle numData bucketSize =>
      stores.Live handle (fun _ => SizeFits numData bucketSize)
  | fillDataToLeaf handle block =>
      stores.Live handle (fun tree => IntBlock block ∧ tree.HasLeaf block.leaf)
  | bulkLoad handle blocks =>
      stores.Live handle (fun tree => ∀ block ∈ blocks, IntBlock block ∧ tree.HasLeaf block.leaf)
  | readPath handle leaf => stores.Live handle (fun tree => tree.HasLeaf leaf)
  | writePath handle leaf buckets =>
      stores.Live handle (fun tree => tree.HasLeaf leaf ∧ tree.Accepts buckets)
  | readMultiplePaths handle leaves =>
      stores.Live handle (fun tree => ∀ leaf ∈ leaves, tree.HasLeaf leaf)
  | writeMultiplePaths handle buckets => stores.Live handle (fun tree => tree.Accepts buckets)
  | batchReadPaths reqs => ∀ req ∈ reqs, stores.Live req.1 (fun tree => tree.HasLeaf req.2)
  | batchWritePaths reqs => ∀ req ∈ reqs, stores.Live req.1 (fun tree => tree.Accepts req.2)
  | destroy handle => stores.Live handle (fun _ => True)

/-- A well-formed operation whose messages are under `2 ^ 31` bytes. -/
structure StorageOp.Valid (stores : LocalStores) (op : StorageOp) : Prop where
  arguments : op.Arguments stores
  requestShort : op.requestSize < 2 ^ 31
  replyShort : (op.runLocal stores).1.replySize < 2 ^ 31

/-- A sequence of well-formed operations. -/
def ValidRun : LocalStores → List StorageOp → Prop
  | _, [] => True
  | stores, op :: rest => op.Valid stores ∧ ValidRun (op.runLocal stores).2 rest

/-- The operation creates a store. -/
def StorageOp.creates : StorageOp → Bool
  | create _ _ _ => true
  | _ => false

/-! ## Trees the source can hold -/

/-- The nodes of the tree are integers, and so are the fields of its blocks. -/
structure IntTree (tree : BinaryTreeStorage) : Prop where
  level_pos : 0 < tree.level
  level_le : tree.level ≤ 31
  blocks : ∀ node, ∀ block ∈ tree.storage node, IntBlock block

section IntTree

variable {tree : BinaryTreeStorage}

theorem intTree_new {storeId : Nat} {numData bucketSize : Int}
    (fits : SizeFits numData bucketSize) :
    IntTree (BinaryTreeStorage.new storeId numData bucketSize) := by
  have few : ceilLog2 numData ≤ 30 := by
    have small := fits.2.1
    unfold ceilLog2
    split
    · omega
    · have log : Nat.log2 (numData - 1).toNat < 30 :=
        (Nat.log2_lt (by omega)).mpr (by omega)
      omega
  exact ⟨Nat.succ_pos _, Nat.succ_le_succ few, fun _ _ mem => (List.not_mem_nil mem).elim⟩

theorem IntTree.setBucket (isInt : IntTree tree) (node : Nat) {bucket : List Block}
    (areInt : ∀ block ∈ bucket, IntBlock block) : IntTree (tree.setBucket node bucket) := by
  refine ⟨isInt.level_pos, isInt.level_le, ?_⟩
  intro node' block mem
  change block ∈ if node' = node then bucket else tree.storage node' at mem
  split at mem
  · exact areInt block mem
  · exact isInt.blocks node' block mem

theorem IntTree.fillDataToLeaf (isInt : IntTree tree) {block : Block} (blockInt : IntBlock block) :
    IntTree (tree.fillDataToLeaf block) := by
  unfold BinaryTreeStorage.fillDataToLeaf
  split
  · refine isInt.setBucket _ (fun other mem => ?_)
    rcases List.mem_append.mp mem with old | new
    · exact isInt.blocks _ other old
    · rw [List.mem_singleton.mp new]
      exact blockInt
  · exact isInt

theorem IntTree.fillBlocks (isInt : IntTree tree) {blocks : List Block}
    (areInt : ∀ block ∈ blocks, IntBlock block) :
    IntTree (blocks.foldl BinaryTreeStorage.fillDataToLeaf tree) := by
  induction blocks generalizing tree with
  | nil => exact isInt
  | cons block rest ih =>
      exact ih (isInt.fillDataToLeaf (areInt block List.mem_cons_self))
        (fun block mem => areInt block (List.mem_cons_of_mem _ mem))

theorem IntTree.writeMultiplePaths (isInt : IntTree tree) {buckets : PathData}
    (areInt : ∀ entry ∈ buckets, ∀ block ∈ entry.2, IntBlock block) :
    IntTree (tree.writeMultiplePaths buckets) := by
  unfold BinaryTreeStorage.writeMultiplePaths
  induction buckets generalizing tree with
  | nil => exact isInt
  | cons entry rest ih =>
      exact ih (isInt.setBucket entry.1 (areInt entry List.mem_cons_self))
        (fun entry mem => areInt entry (List.mem_cons_of_mem _ mem))

theorem IntTree.totalNodes_lt (isInt : IntTree tree) :
    BinaryTreeStorage.totalNodes tree.level < 2 ^ 31 := by
  have le : 2 ^ tree.level ≤ 2 ^ 31 := Nat.pow_le_pow_right (by decide) isInt.level_le
  unfold BinaryTreeStorage.totalNodes
  omega

/-- Paths of the tree can be sent. -/
theorem IntTree.readMultiplePaths (isInt : IntTree tree) {leaves : List Int}
    (areLeaves : ∀ leaf ∈ leaves, tree.HasLeaf leaf) :
    IntPath (tree.readMultiplePaths leaves) := by
  have nodesEq : (tree.readMultiplePaths leaves).map Prod.fst =
      BinaryTreeStorage.mergedPathIndices tree.level leaves := by
    unfold BinaryTreeStorage.readMultiplePaths
    rw [List.map_map]
    exact List.map_id _
  refine ⟨nodesEq ▸ BinaryTreeStorage.nodup_mergedPathIndices _ _, ?_, ?_⟩
  · intro entry mem
    have nodeMem : entry.1 ∈ BinaryTreeStorage.mergedPathIndices tree.level leaves :=
      nodesEq ▸ List.mem_map_of_mem mem
    rcases BinaryTreeStorage.mem_mergedPathIndices.mp nodeMem with ⟨leaf, leafMem, onPath⟩
    have inRange : leaf < 2 ^ (tree.level - 1) := by
      have below := (areLeaves leaf leafMem).2
      rw [BinaryTreeStorage.leafRange] at below
      exact_mod_cast below
    exact (BinaryTreeStorage.pathNodes_lt inRange isInt.level_pos onPath).trans
      isInt.totalNodes_lt
  · intro entry mem block blockMem
    rcases List.mem_map.mp mem with ⟨node, _, rfl⟩
    exact isInt.blocks node block blockMem

theorem IntTree.accepts (isInt : IntTree tree) {buckets : PathData} (accepts : tree.Accepts buckets) :
    IntPath buckets :=
  ⟨accepts.nodup, fun entry mem => (accepts.nodes entry mem).trans isInt.totalNodes_lt,
    accepts.blocks⟩

theorem IntTree.isInt_leaf (isInt : IntTree tree) {leaf : Int} (hasLeaf : tree.HasLeaf leaf) :
    IsInt leaf := by
  have le : 2 ^ (tree.level - 1) ≤ 2 ^ 31 :=
    Nat.pow_le_pow_right (by decide) (by have := isInt.level_le; omega)
  have below := hasLeaf.2
  rw [BinaryTreeStorage.leafRange] at below
  exact ⟨by have := hasLeaf.1; omega, below.trans_le (by exact_mod_cast le)⟩

theorem IntTree.shape (isInt : IntTree tree) :
    IsInt (tree.level : Int) ∧ IsInt (tree.leafRange : Int) := by
  have levelLe := isInt.level_le
  have le : 2 ^ (tree.level - 1) ≤ 2 ^ 30 := Nat.pow_le_pow_right (by decide) (by omega)
  have cast : (tree.leafRange : Int) ≤ 2 ^ 30 := by exact_mod_cast le
  exact ⟨⟨by omega, by omega⟩, ⟨by omega, by omega⟩⟩

theorem IntTree.placedKeys (isInt : IntTree tree) {key : Int} (mem : key ∈ tree.placedKeys) :
    IsInt key := by
  rcases List.mem_filterMap.mp mem with ⟨block, blockMem, found⟩
  rcases List.mem_flatMap.mp blockMem with ⟨node, _, inBucket⟩
  split at found
  · cases found
  · cases found
    exact (isInt.blocks node block inBucket).key

end IntTree

/-! ## One request -/

theorem withStore_live {state : ClientState} {id : Int} {tree : BinaryTreeStorage}
    (found : state.stores.get? id = some tree)
    (answer : BinaryTreeStorage → Bytes × BinaryTreeStorage) :
    withStore state id answer = (sendOk (answer tree).1, state.setStore id (answer tree).2) := by
  rw [withStore, found]

/-- A request whose reply is read. -/
theorem call_ok {α : Type} (type : MsgType) {payload reply : Bytes} {server server' : ClientState}
    {decoder : Deser α} {value : α}
    (reads : Reads (dispatchType server type) (sendOk reply, server') payload)
    (short : payload.length < 2 ^ 31) (replyShort : reply.length < 2 ^ 31)
    (readsReply : Reads decoder value reply) :
    (request type payload >>= deser decoder).run server = .ok (value, server') := by
  rw [StateT.run_bind, request_ok reads short replyShort, ok_bind]
  exact deser_ok readsReply server'

/-- A request whose reply says nothing. -/
theorem order_ok (type : MsgType) {payload : Bytes} {server server' : ClientState}
    (reads : Reads (dispatchType server type) (sendOk [], server') payload)
    (short : payload.length < 2 ^ 31) :
    (request type payload >>= fun _ => pure ()).run server = .ok ((), server') := by
  rw [StateT.run_bind, request_ok reads short (by decide)]
  rfl

end TieredOmap
