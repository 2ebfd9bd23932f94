import TieredOMap.Network.RemoteStorage

/-!
# Runs on remote storage

Every operation on network storages does what the operation does on local trees, and a run
of operations gives the same results. What one request does is stated for a network storage
that stands for a tree of the server (`Linked`); `Mirrors` says this of all live handles.
-/

namespace TieredOmap

open Decoder

/-- A network storage stands for a tree of the server. -/
structure Linked (server : ClientState) (storage : NetworkStorage) (tree : BinaryTreeStorage) :
    Prop where
  found : server.stores.get? storage.storeId = some tree
  level : storage.level = tree.level
  leafRange : storage.leafRange = tree.leafRange
  bucketSize : storage.bucketSize = tree.bucketSize
  idNonneg : 0 ≤ storage.storeId
  idLt : storage.storeId < server.nextId
  idInt : IsInt storage.storeId
  isInt : IntTree tree

theorem setStore_found {server : ClientState} {id : Int} {tree : BinaryTreeStorage}
    (found : server.stores.get? id = some tree) : server.setStore id tree = server := by
  rw [ClientState.setStore, KeyMap.set_of_get? found]

/-! ## What one request does -/

section Linked

variable {server : ClientState} {storage : NetworkStorage} {tree : BinaryTreeStorage}

/-- A request that only looks at the store. -/
theorem Linked.look (linked : Linked server storage tree)
    (answer : BinaryTreeStorage → Bytes) :
    withStore server storage.storeId (fun store => (answer store, store)) =
      (sendOk (answer tree), server) := by
  rw [withStore_live linked.found, setStore_found linked.found]

theorem NetworkStorage.new_run {numData bucketSize : Int} (fits : SizeFits numData bucketSize)
    (nextNonneg : 0 ≤ server.nextId) (room : server.nextId < 2 ^ 31) :
    (NetworkStorage.new numData bucketSize).run server =
      .ok ({ storeId := server.nextId, level := (BinaryTreeStorage.new 0 numData bucketSize).level
             leafRange := (BinaryTreeStorage.new 0 numData bucketSize).leafRange, bucketSize },
        { stores := server.stores.set server.nextId (BinaryTreeStorage.new 0 numData bucketSize)
          nextId := server.nextId + 1 }) := by
  have shape := (@intTree_new 0 _ _ fits).shape
  have nextInt : IsInt server.nextId := ⟨by omega, room⟩
  refine call_ok .create
    (reads_bind (reads_int fits.1) (reads_bind_pure (reads_int fits.2.2) rfl)) ?_ ?_
    (reads_bind (reads_int nextInt)
      (reads_bind (reads_int shape.1) (reads_bind_pure (reads_int shape.2) rfl)))
  · simp only [serInt, List.length_append, length_intToBytes]
    decide
  · simp only [serInt, List.length_append, length_intToBytes]
    decide

theorem Linked.reset_run (linked : Linked server storage tree) {numData bucketSize : Int}
    (fits : SizeFits numData bucketSize) :
    (storage.reset numData bucketSize).run server =
      .ok ({ storage with
             level := (tree.reset numData bucketSize).level
             leafRange := (tree.reset numData bucketSize).leafRange, bucketSize },
        server.setStore storage.storeId (tree.reset numData bucketSize)) := by
  have shape := (@intTree_new tree.storeId _ _ fits).shape
  refine call_ok .reset
    (reads_bind (reads_int linked.idInt) (reads_bind (reads_int fits.1)
      (reads_bind_pure (reads_int fits.2.2) (withStore_live linked.found _)))) ?_ ?_
    (reads_bind (reads_int shape.1) (reads_bind_pure (reads_int shape.2) rfl))
  · simp only [serInt, List.length_append, length_intToBytes]
    decide
  · simp only [serInt, List.length_append, length_intToBytes]
    decide

theorem Linked.fillDataToLeaf_run (linked : Linked server storage tree) {block : Block}
    (blockInt : IntBlock block) (short : 4 + (serBlock block).length < 2 ^ 31) :
    (storage.fillDataToLeaf block).run server =
      .ok ((), server.setStore storage.storeId (tree.fillDataToLeaf block)) := by
  refine order_ok .fillData
    (reads_bind (reads_int linked.idInt)
      (reads_bind_pure (reads_block blockInt (by omega)) (withStore_live linked.found _))) ?_
  rw [serInt, List.length_append, length_intToBytes]
  exact short

theorem Linked.bulkLoad_run (linked : Linked server storage tree) {blocks : List Block}
    (areInt : ∀ block ∈ blocks, IntBlock block)
    (short : 8 + (blocks.flatMap serBlock).length < 2 ^ 31)
    (replyShort : 4 + 4 * (tree.bulkLoad blocks).1.toFinset.card < 2 ^ 31) :
    (storage.bulkLoad blocks).run server =
      .ok ((tree.bulkLoad blocks).1.toFinset,
        server.setStore storage.storeId (tree.bulkLoad blocks).2) := by
  have count := length_blocks_le blocks
  rw [List.card_toFinset] at replyShort
  have placedInt : ∀ key ∈ (tree.bulkLoad blocks).1.dedup, IsInt key := fun key mem =>
    (linked.isInt.fillBlocks areInt).placedKeys (List.mem_dedup.mp mem)
  have readsKeys : Reads (do
      let count ← deserInt
      let placed ← deserInt.times count.toNat
      return placed.toFinset : Deser (Finset Int)) (tree.bulkLoad blocks).1.toFinset
      (serKeys (tree.bulkLoad blocks).1.dedup) := by
    refine reads_bind (reads_size (by omega)) ?_
    rw [Int.toNat_natCast]
    refine reads_bind_pure (reads_times (fun key mem => reads_int (placedInt key mem))) ?_
    exact Finset.ext fun key => by simp
  refine call_ok .bulkLoad
    (reads_bind (reads_int linked.idInt) (reads_bind (reads_size (by omega)) ?_)) ?_ ?_ readsKeys
  · rw [Int.toNat_natCast]
    exact reads_bind_pure (reads_blocks areInt (by omega)) (withStore_live linked.found _)
  · simp only [serInt, List.length_append, length_intToBytes]
    omega
  · simp only [serKeys, List.length_append, length_flatMap_serInt, serInt, length_intToBytes]
    omega

theorem Linked.readPath_run (linked : Linked server storage tree) {leaf : Int}
    (hasLeaf : tree.HasLeaf leaf) (replyShort : (serPath (tree.readPath leaf)).length < 2 ^ 31) :
    (storage.readPath leaf).run server = .ok (tree.readPath leaf, server) := by
  have isPath : IntPath (tree.readPath leaf) :=
    linked.isInt.readMultiplePaths (fun leaf' mem => List.mem_singleton.mp mem ▸ hasLeaf)
  refine call_ok .readPath
    (reads_bind (reads_int linked.idInt)
      (reads_bind_pure (reads_int (linked.isInt.isInt_leaf hasLeaf))
        (linked.look (fun store => serPath (store.readPath leaf))))) ?_ replyShort
    (reads_path isPath replyShort)
  simp only [serInt, List.length_append, length_intToBytes]
  decide

theorem Linked.writePath_run (linked : Linked server storage tree) {leaf : Int}
    (hasLeaf : tree.HasLeaf leaf) {buckets : PathData} (accepts : tree.Accepts buckets)
    (short : 8 + (serPath buckets).length < 2 ^ 31) :
    (storage.writePath leaf buckets).run server =
      .ok ((), server.setStore storage.storeId (tree.writeMultiplePaths buckets)) := by
  refine order_ok .writePath
    (reads_bind (reads_int linked.idInt)
      (reads_bind (reads_int (linked.isInt.isInt_leaf hasLeaf))
        (reads_bind_pure (reads_path (linked.isInt.accepts accepts) (by omega))
          (withStore_live linked.found _)))) ?_
  simp only [serInt, List.length_append, length_intToBytes]
  omega

theorem Linked.readMultiplePaths_run (linked : Linked server storage tree) {leaves : List Int}
    (areLeaves : ∀ leaf ∈ leaves, tree.HasLeaf leaf) (short : 8 + 4 * leaves.length < 2 ^ 31)
    (replyShort : (serPath (tree.readMultiplePaths leaves)).length < 2 ^ 31) :
    (storage.readMultiplePaths leaves).run server = .ok (tree.readMultiplePaths leaves, server) := by
  refine call_ok .readMulti
    (reads_bind (reads_int linked.idInt) (reads_bind (reads_size (by omega)) ?_)) ?_ replyShort
    (reads_path (linked.isInt.readMultiplePaths areLeaves) replyShort)
  · rw [Int.toNat_natCast]
    refine reads_bind_pure (reads_times (fun leaf mem => ?_))
      (linked.look (fun store => serPath (store.readMultiplePaths leaves)))
    exact reads_int (linked.isInt.isInt_leaf (areLeaves leaf mem))
  · simp only [List.length_append, length_flatMap_serInt, serInt, length_intToBytes]
    omega

theorem Linked.writeMultiplePaths_run (linked : Linked server storage tree) {buckets : PathData}
    (accepts : tree.Accepts buckets) (short : 4 + (serPath buckets).length < 2 ^ 31) :
    (storage.writeMultiplePaths buckets).run server =
      .ok ((), server.setStore storage.storeId (tree.writeMultiplePaths buckets)) := by
  refine order_ok .writeMulti
    (reads_bind (reads_int linked.idInt)
      (reads_bind_pure (reads_path (linked.isInt.accepts accepts) (by omega))
        (withStore_live linked.found _))) ?_
  rw [serInt, List.length_append, length_intToBytes]
  exact short

theorem Linked.destroy_run (linked : Linked server storage tree) :
    storage.destroy.run server =
      .ok ((), { server with stores := server.stores.erase storage.storeId }) := by
  have reads : Reads (dispatchType server .destroy)
      (sendOk [], { server with stores := server.stores.erase storage.storeId })
      (serInt storage.storeId) := reads_bind_pure (reads_int linked.idInt) rfl
  have short : (serInt storage.storeId).length < 2 ^ 31 := by
    rw [serInt, length_intToBytes]
    decide
  change storage.destroy server = _
  rw [NetworkStorage.destroy, if_pos linked.idNonneg, request_ok reads short (by decide)]

/-- Overwriting buckets keeps the shape of a tree. -/
theorem level_writeMultiplePaths (buckets : PathData) :
    (tree.writeMultiplePaths buckets).level = tree.level ∧
      (tree.writeMultiplePaths buckets).bucketSize = tree.bucketSize := by
  unfold BinaryTreeStorage.writeMultiplePaths
  induction buckets generalizing tree with
  | nil => exact ⟨rfl, rfl⟩
  | cons entry rest ih => exact @ih (tree.setBucket entry.1 entry.2)

theorem level_fillDataToLeaf (block : Block) :
    (tree.fillDataToLeaf block).level = tree.level ∧
      (tree.fillDataToLeaf block).bucketSize = tree.bucketSize := by
  unfold BinaryTreeStorage.fillDataToLeaf
  split
  · exact ⟨rfl, rfl⟩
  · exact ⟨rfl, rfl⟩

theorem level_fillBlocks (blocks : List Block) :
    (blocks.foldl BinaryTreeStorage.fillDataToLeaf tree).level = tree.level ∧
      (blocks.foldl BinaryTreeStorage.fillDataToLeaf tree).bucketSize = tree.bucketSize := by
  induction blocks generalizing tree with
  | nil => exact ⟨rfl, rfl⟩
  | cons block rest ih =>
      have filled := @level_fillDataToLeaf tree block
      have others := @ih (tree.fillDataToLeaf block)
      exact ⟨others.1.trans filled.1, others.2.trans filled.2⟩

/-- The tree behind a network storage is replaced. -/
theorem Linked.replace (linked : Linked server storage tree) {storage' : NetworkStorage}
    {tree' : BinaryTreeStorage} (sameId : storage'.storeId = storage.storeId)
    (level : storage'.level = tree'.level) (leafRange : storage'.leafRange = tree'.leafRange)
    (bucketSize : storage'.bucketSize = tree'.bucketSize) (isInt : IntTree tree') :
    Linked (server.setStore storage.storeId tree') storage' tree' where
  found := by rw [sameId]; exact KeyMap.get?_set_self _ _ _
  level := level
  leafRange := leafRange
  bucketSize := bucketSize
  idNonneg := sameId ▸ linked.idNonneg
  idLt := sameId ▸ linked.idLt
  idInt := sameId ▸ linked.idInt
  isInt := isInt

/-- A tree of the same shape takes the place of the old one. -/
theorem Linked.refill (linked : Linked server storage tree) {tree' : BinaryTreeStorage}
    (sameShape : tree'.level = tree.level ∧ tree'.bucketSize = tree.bucketSize)
    (isInt : IntTree tree') : Linked (server.setStore storage.storeId tree') storage tree' := by
  refine linked.replace rfl ?_ ?_ ?_ isInt
  · rw [linked.level, sameShape.1]
  · rw [linked.leafRange, BinaryTreeStorage.leafRange, BinaryTreeStorage.leafRange, sameShape.1]
  · rw [linked.bucketSize, sameShape.2]

/-- A request for another store changes nothing. -/
theorem Linked.frame (linked : Linked server storage tree) {server' : ClientState}
    (kept : server'.stores.get? storage.storeId = server.stores.get? storage.storeId)
    (next : server.nextId ≤ server'.nextId) : Linked server' storage tree :=
  { linked with found := kept.trans linked.found, idLt := linked.idLt.trans_le next }

end Linked

/-! ## All live handles -/

/-- The network storages of the client stand for the local trees, each with an id of its own. -/
structure Mirrors (stores : LocalStores) (remote : RemoteStores) : Prop where
  linked : ∀ handle tree, stores.get? handle = some tree →
    ∃ storage, remote.handles.get? handle = some storage ∧ Linked remote.server storage tree
  dead : ∀ handle, stores.get? handle = none → remote.handles.get? handle = none
  distinct : ∀ handle handle' storage storage', remote.handles.get? handle = some storage →
    remote.handles.get? handle' = some storage' → storage.storeId = storage'.storeId →
    handle = handle'
  nextNonneg : 0 ≤ remote.server.nextId

section Mirrors

variable {stores : LocalStores} {remote : RemoteStores} {handle : Nat}

theorem mirrors_empty : Mirrors ∅ {} where
  linked _ _ found := by cases found
  dead _ _ := rfl
  distinct _ _ _ _ found := by cases found
  nextNonneg := le_refl _

/-- The server's trees are the local trees. -/
theorem Mirrors.treeOf (mirrors : Mirrors stores remote) (handle : Nat) :
    remote.treeOf handle = stores.get? handle := by
  unfold RemoteStores.treeOf
  cases found : stores.get? handle with
  | none => rw [mirrors.dead handle found]; rfl
  | some tree =>
      rcases mirrors.linked handle tree found with ⟨storage, isHandle, linked⟩
      rw [isHandle]
      exact linked.found

/-- The network storage of a live handle. -/
theorem Mirrors.live (mirrors : Mirrors stores remote) {holds : BinaryTreeStorage → Prop}
    (live : stores.Live handle holds) :
    holds (stores.tree handle) ∧ stores.get? handle = some (stores.tree handle) ∧
      remote.handles.get? handle = some (remote.storage handle) ∧
      Linked remote.server (remote.storage handle) (stores.tree handle) := by
  rcases live with ⟨tree, found, ok⟩
  rcases mirrors.linked handle tree found with ⟨storage, isHandle, linked⟩
  have treeEq : stores.tree handle = tree := KeyMap.getD_of_get? found
  have storageEq : remote.storage handle = storage := KeyMap.getD_of_get? isHandle
  rw [treeEq, storageEq]
  exact ⟨ok, found, isHandle, linked⟩

/-- One handle gets a new tree, the others keep theirs. -/
theorem Mirrors.set (mirrors : Mirrors stores remote) {storage' : NetworkStorage}
    {tree' : BinaryTreeStorage} {server' : ClientState} (linked' : Linked server' storage' tree')
    (others : ∀ other storage tree, other ≠ handle → remote.handles.get? other = some storage →
      Linked remote.server storage tree → storage.storeId ≠ storage'.storeId ∧
        Linked server' storage tree) :
    Mirrors (stores.set handle tree')
      { handles := remote.handles.set handle storage', server := server' } where
  linked other tree found := by
    rw [KeyMap.get?_set] at found
    by_cases same : other = handle
    · rw [if_pos same] at found
      cases found
      exact ⟨storage', by rw [same]; exact KeyMap.get?_set_self _ _ _, linked'⟩
    · rw [if_neg same] at found
      rcases mirrors.linked other tree found with ⟨storage, isHandle, linked⟩
      exact ⟨storage, (KeyMap.get?_set_of_ne _ _ same).trans isHandle,
        (others other storage tree same isHandle linked).2⟩
  dead other found := by
    rw [KeyMap.get?_set] at found
    by_cases same : other = handle
    · rw [if_pos same] at found
      cases found
    · rw [if_neg same] at found
      exact (KeyMap.get?_set_of_ne _ _ same).trans (mirrors.dead other found)
  distinct := by
    have apart : ∀ other storage, other ≠ handle → remote.handles.get? other = some storage →
        storage.storeId ≠ storage'.storeId := by
      intro other storage differs isHandle
      cases found : stores.get? other with
      | none =>
          rw [mirrors.dead other found] at isHandle
          cases isHandle
      | some tree =>
          rcases mirrors.linked other tree found with ⟨found', isHandle', linked⟩
          cases isHandle.symm.trans isHandle'
          exact (others other _ tree differs isHandle linked).1
    intro first second storage storage'' isFirst isSecond sameId
    dsimp only at isFirst isSecond
    rw [KeyMap.get?_set] at isFirst isSecond
    by_cases firstHit : first = handle
    · by_cases secondHit : second = handle
      · exact firstHit.trans secondHit.symm
      · rw [if_pos firstHit] at isFirst
        rw [if_neg secondHit] at isSecond
        cases isFirst
        exact absurd sameId.symm (apart second storage'' secondHit isSecond)
    · rw [if_neg firstHit] at isFirst
      by_cases secondHit : second = handle
      · rw [if_pos secondHit] at isSecond
        cases isSecond
        exact absurd sameId (apart first storage firstHit isFirst)
      · rw [if_neg secondHit] at isSecond
        exact mirrors.distinct first second storage storage'' isFirst isSecond sameId
  nextNonneg := linked'.idNonneg.trans linked'.idLt.le

/-- The tree of a live handle is replaced, under the same id. -/
theorem Mirrors.replace (mirrors : Mirrors stores remote) {storage storage' : NetworkStorage}
    {tree' : BinaryTreeStorage} (isHandle : remote.handles.get? handle = some storage)
    (sameId : storage'.storeId = storage.storeId)
    (linked' : Linked (remote.server.setStore storage.storeId tree') storage' tree') :
    Mirrors (stores.set handle tree')
      { handles := remote.handles.set handle storage'
        server := remote.server.setStore storage.storeId tree' } := by
  refine mirrors.set linked' ?_
  intro other otherStorage tree differs isOther linked
  have apart : otherStorage.storeId ≠ storage.storeId := fun same =>
    differs (mirrors.distinct other handle _ _ isOther isHandle same)
  exact ⟨sameId ▸ apart, linked.frame (KeyMap.get?_set_of_ne _ _ apart) (le_refl _)⟩

/-- The tree of a live handle gets other contents. -/
theorem Mirrors.refill (mirrors : Mirrors stores remote) {tree' : BinaryTreeStorage}
    (isHandle : remote.handles.get? handle = some (remote.storage handle))
    (linked : Linked remote.server (remote.storage handle) (stores.tree handle))
    (sameShape : tree'.level = (stores.tree handle).level ∧
      tree'.bucketSize = (stores.tree handle).bucketSize)
    (isInt : IntTree tree') :
    Mirrors (stores.set handle tree')
      { remote with server := remote.server.setStore (remote.storage handle).storeId tree' } := by
  have replaced := mirrors.replace isHandle rfl (linked.refill sameShape isInt)
  rwa [KeyMap.set_of_get? isHandle] at replaced

/-- A new handle gets the next id. -/
theorem Mirrors.create (mirrors : Mirrors stores remote) {storage' : NetworkStorage}
    {tree' : BinaryTreeStorage} (nextId : storage'.storeId = remote.server.nextId)
    (linked' : Linked { stores := remote.server.stores.set remote.server.nextId tree'
                        nextId := remote.server.nextId + 1 } storage' tree') :
    Mirrors (stores.set handle tree')
      { handles := remote.handles.set handle storage'
        server := { stores := remote.server.stores.set remote.server.nextId tree'
                    nextId := remote.server.nextId + 1 } } := by
  refine mirrors.set linked' ?_
  intro other storage tree _ _ linked
  have apart : storage.storeId ≠ remote.server.nextId := linked.idLt.ne
  exact ⟨nextId ▸ apart, linked.frame (KeyMap.get?_set_of_ne _ _ apart) (by dsimp only; omega)⟩

/-- A handle is given up, and its tree with it. -/
theorem Mirrors.erase (mirrors : Mirrors stores remote) {storage : NetworkStorage}
    (isHandle : remote.handles.get? handle = some storage) :
    Mirrors (stores.erase handle)
      { handles := remote.handles.erase handle
        server := { remote.server with
                    stores := remote.server.stores.erase storage.storeId } } where
  linked other tree found := by
    rw [KeyMap.get?_erase] at found
    by_cases same : other = handle
    · rw [if_pos same] at found
      cases found
    · rw [if_neg same] at found
      rcases mirrors.linked other tree found with ⟨otherStorage, isOther, linked⟩
      have apart : otherStorage.storeId ≠ storage.storeId := fun sameId =>
        same (mirrors.distinct other handle _ _ isOther isHandle sameId)
      exact ⟨otherStorage, (KeyMap.get?_erase_of_ne _ same).trans isOther,
        linked.frame (KeyMap.get?_erase_of_ne _ apart) (le_refl _)⟩
  dead other found := by
    by_cases same : other = handle
    · rw [same]
      exact KeyMap.get?_erase_self _ _
    · rw [KeyMap.get?_erase_of_ne _ same] at found
      exact (KeyMap.get?_erase_of_ne _ same).trans (mirrors.dead other found)
  distinct first second _ _ isFirst isSecond sameId := by
    have kept : ∀ other storage', (remote.handles.erase handle).get? other = some storage' →
        remote.handles.get? other = some storage' := by
      intro other storage' isOther
      by_cases same : other = handle
      · rw [same, KeyMap.get?_erase_self] at isOther
        cases isOther
      · rwa [KeyMap.get?_erase_of_ne _ same] at isOther
    exact mirrors.distinct first second _ _ (kept _ _ isFirst) (kept _ _ isSecond) sameId
  nextNonneg := mirrors.nextNonneg

/-! ## Batches -/

/-- The server's loop over a batch of reads. -/
theorem Mirrors.reads_batchRead (mirrors : Mirrors stores remote) {reqs : List (Nat × Int)}
    (live : ∀ req ∈ reqs, stores.Live req.1 (fun tree => tree.HasLeaf req.2)) :
    Reads (batchRead remote.server reqs.length)
      (some (reqs.flatMap (fun req => serPath ((stores.tree req.1).readPath req.2))))
      (reqs.flatMap (fun req => serInt (remote.storage req.1).storeId ++ serInt req.2)) := by
  induction reqs with
  | nil => exact reads_pure _
  | cons req rest ih =>
      rcases mirrors.live (live req List.mem_cons_self) with ⟨hasLeaf, _, _, linked⟩
      have others := ih (fun req mem => live req (List.mem_cons_of_mem _ mem))
      rw [List.flatMap_cons, List.flatMap_cons, List.append_assoc]
      refine reads_bind (reads_int linked.idInt) ?_
      refine reads_bind (reads_int (linked.isInt.isInt_leaf hasLeaf)) ?_
      rw [linked.found]
      exact reads_bind_pure others rfl

/-- The server's loop over a batch of writes. -/
theorem Mirrors.reads_batchWrite (mirrors : Mirrors stores remote) {reqs : List (Nat × PathData)}
    (live : ∀ req ∈ reqs, stores.Live req.1 (fun tree => tree.Accepts req.2))
    (short : ∀ req ∈ reqs, (serPath req.2).length < 2 ^ 31) :
    ∃ server', Reads (batchWrite reqs.length remote.server) (true, server')
        (reqs.flatMap (fun req => serInt (remote.storage req.1).storeId ++ serPath req.2)) ∧
      Mirrors (stores.writeAll reqs) { remote with server := server' } ∧
      server'.nextId = remote.server.nextId := by
  induction reqs generalizing stores remote with
  | nil => exact ⟨remote.server, reads_pure _, mirrors, rfl⟩
  | cons req rest ih =>
      rcases mirrors.live (live req List.mem_cons_self) with ⟨accepts, _, isHandle, linked⟩
      have sameShape := @level_writeMultiplePaths (stores.tree req.1) req.2
      have isInt := linked.isInt.writeMultiplePaths accepts.blocks
      have mirrors' := mirrors.refill isHandle linked sameShape isInt
      have live' : ∀ other ∈ rest, LocalStores.Live
          (stores.set req.1 ((stores.tree req.1).writeMultiplePaths req.2)) other.1
            (fun tree => tree.Accepts other.2) := by
        intro other mem
        rcases live other (List.mem_cons_of_mem _ mem) with ⟨tree, found, accepts⟩
        by_cases same : other.1 = req.1
        · refine ⟨_, by rw [same]; exact KeyMap.get?_set_self _ _ _, accepts.nodup, ?_,
            accepts.blocks⟩
          have treeEq : stores.tree req.1 = tree := KeyMap.getD_of_get? (same ▸ found)
          rw [sameShape.1, treeEq]
          exact accepts.nodes
        · exact ⟨tree, (KeyMap.get?_set_of_ne _ _ same).trans found, accepts⟩
      rcases ih mirrors' live' (fun req mem => short req (List.mem_cons_of_mem _ mem)) with
        ⟨server', reads, mirrored, next⟩
      refine ⟨server', ?_, mirrored, next⟩
      rw [List.flatMap_cons, List.append_assoc]
      refine reads_bind (reads_int linked.idInt) ?_
      refine reads_bind (reads_path (linked.isInt.accepts accepts)
        (short req List.mem_cons_self)) ?_
      rw [linked.found]
      exact reads

theorem Mirrors.batchReadPaths_run (mirrors : Mirrors stores remote) {reqs : List (Nat × Int)}
    (live : ∀ req ∈ reqs, stores.Live req.1 (fun tree => tree.HasLeaf req.2))
    (short : 4 + 8 * reqs.length < 2 ^ 31)
    (replyShort : 4 + (reqs.map (fun req => (stores.tree req.1).readPath req.2)
      |>.flatMap serPath).length < 2 ^ 31) :
    (TieredOmap.batchReadPaths
        (reqs.map (fun req => ((remote.storage req.1).storeId, req.2)))).run remote.server =
      .ok (reqs.map (fun req => (stores.tree req.1).readPath req.2), remote.server) := by
  have isPath : ∀ path ∈ reqs.map (fun req => (stores.tree req.1).readPath req.2),
      IntPath path := by
    intro path mem
    rcases List.mem_map.mp mem with ⟨req, reqMem, rfl⟩
    rcases mirrors.live (live req reqMem) with ⟨hasLeaf, _, _, linked⟩
    exact linked.isInt.readMultiplePaths (fun leaf mem => List.mem_singleton.mp mem ▸ hasLeaf)
  have readsReply : Reads (do
      let count ← deserInt
      deserPath.times count.toNat : Deser (List PathData))
      (reqs.map (fun req => (stores.tree req.1).readPath req.2))
      (serInt reqs.length ++
        (reqs.map (fun req => (stores.tree req.1).readPath req.2)).flatMap serPath) := by
    refine reads_bind (reads_size (by omega)) ?_
    rw [Int.toNat_natCast]
    have eachPath := @reads_times _ _ _ deserPath serPath
      (reqs.map (fun req => (stores.tree req.1).readPath req.2)) (fun path mem => by
        have part := @length_part_le _ serPath _ _ mem
        exact reads_path (isPath path mem) (by omega))
    rwa [List.length_map] at eachPath
  have payloadLength : (reqs.flatMap (fun req =>
      serInt (remote.storage req.1).storeId ++ serInt req.2)).length = 8 * reqs.length := by
    simp [List.length_flatMap, serInt, length_intToBytes, Nat.mul_comm]
  unfold TieredOmap.batchReadPaths
  rw [List.length_map, List.flatMap_map]
  refine call_ok .batchRead (reads_bind (reads_size (by omega)) ?_) ?_ ?_ readsReply
  · rw [Int.toNat_natCast]
    refine reads_bind_pure (mirrors.reads_batchRead live) ?_
    rw [List.flatMap_map]
  · rw [List.length_append, payloadLength, serInt, length_intToBytes]
    exact short
  · rw [List.length_append, serInt, length_intToBytes]
    exact replyShort

theorem Mirrors.batchWritePaths_run (mirrors : Mirrors stores remote) {reqs : List (Nat × PathData)}
    (live : ∀ req ∈ reqs, stores.Live req.1 (fun tree => tree.Accepts req.2))
    (short : 4 + (reqs.map (fun req => 4 + (serPath req.2).length)).sum < 2 ^ 31) :
    ∃ server', (TieredOmap.batchWritePaths
        (reqs.map (fun req => ((remote.storage req.1).storeId, req.2)))).run remote.server =
        .ok ((), server') ∧
      Mirrors (stores.writeAll reqs) { remote with server := server' } ∧
      server'.nextId = remote.server.nextId := by
  have payloadLength : (reqs.flatMap (fun req =>
      serInt (remote.storage req.1).storeId ++ serPath req.2)).length =
      (reqs.map (fun req => 4 + (serPath req.2).length)).sum := by
    simp [List.length_flatMap, serInt, length_intToBytes]
  have few : reqs.length ≤ (reqs.map (fun req => 4 + (serPath req.2).length)).sum := by
    rw [← payloadLength]
    exact length_le_flatMap (fun req _ => by
      rw [List.length_append, serInt, length_intToBytes]
      omega)
  have eachShort : ∀ req ∈ reqs, (serPath req.2).length < 2 ^ 31 := by
    intro req mem
    have part := @length_part_le _ (fun req : Nat × PathData =>
      serInt (remote.storage req.1).storeId ++ serPath req.2) _ _ mem
    rw [payloadLength, List.length_append] at part
    omega
  rcases mirrors.reads_batchWrite live eachShort with ⟨server', reads, mirrored, next⟩
  refine ⟨server', ?_, mirrored, next⟩
  unfold TieredOmap.batchWritePaths
  rw [List.length_map, List.flatMap_map]
  refine order_ok .batchWrite (reads_bind (reads_size (by omega)) ?_) ?_
  · rw [Int.toNat_natCast]
    exact reads_bind_pure reads rfl
  · rw [List.length_append, payloadLength, serInt, length_intToBytes]
    exact short

end Mirrors

/-! ## One operation -/

section Step

variable {stores : LocalStores} {remote : RemoteStores} {op : StorageOp}

theorem RemoteStores.call_run {α : Type} {action : Remote α} {value : α} {server : ClientState}
    (runs : action.run remote.server = .ok (value, server)) (finish : α → StorageResult) :
    remote.call action finish = .ok (finish value, { remote with server }) := by
  unfold RemoteStores.call
  rw [runs]
  rfl

theorem RemoteStores.install_run {action : Remote NetworkStorage} {storage : NetworkStorage}
    {server : ClientState} (runs : action.run remote.server = .ok (storage, server))
    (handle : Nat) :
    remote.install handle action =
      .ok (.shape storage.level storage.leafRange storage.bucketSize,
        { handles := remote.handles.set handle storage, server }) := by
  unfold RemoteStores.install
  rw [runs]
  rfl

/-- The ids an operation uses up. -/
def StorageOp.newIds (op : StorageOp) : Nat := if op.creates then 1 else 0

/-- An operation on network storages does what it does on local trees. -/
theorem Mirrors.step (mirrors : Mirrors stores remote) (valid : op.Valid stores)
    (room : remote.server.nextId + op.newIds ≤ 2 ^ 31) :
    ∃ remote', op.runRemote remote = .ok ((op.runLocal stores).1, remote') ∧
      Mirrors (op.runLocal stores).2 remote' ∧
      remote'.server.nextId = remote.server.nextId + op.newIds := by
  have arguments := valid.arguments
  have short := valid.requestShort
  have replyShort := valid.replyShort
  cases op with
  | create handle numData bucketSize =>
      have fits := arguments.2
      have before : remote.server.nextId < 2 ^ 31 := by
        change remote.server.nextId + 1 ≤ 2 ^ 31 at room
        omega
      have runs := NetworkStorage.new_run fits mirrors.nextNonneg before
      refine ⟨_, RemoteStores.install_run runs handle, mirrors.create rfl ?_, rfl⟩
      exact {
        found := KeyMap.get?_set_self _ _ _
        level := rfl
        leafRange := rfl
        bucketSize := rfl
        idNonneg := mirrors.nextNonneg
        idLt := Int.lt_succ _
        idInt := ⟨(by decide : (-2 ^ 31 : Int) ≤ 0).trans mirrors.nextNonneg, before⟩
        isInt := intTree_new fits }
  | reset handle numData bucketSize =>
      rcases mirrors.live arguments with ⟨fits, _, isHandle, linked⟩
      refine ⟨_, RemoteStores.install_run (linked.reset_run fits) handle,
        mirrors.replace isHandle rfl ?_, (Int.add_zero _).symm⟩
      exact linked.replace rfl rfl rfl rfl (intTree_new fits)
  | fillDataToLeaf handle block =>
      simp only [StorageOp.requestSize] at short
      rcases mirrors.live arguments with ⟨⟨blockInt, _⟩, _, isHandle, linked⟩
      refine ⟨_, RemoteStores.call_run (linked.fillDataToLeaf_run blockInt short) (fun _ => .done),
        mirrors.refill isHandle linked (level_fillDataToLeaf block)
          (linked.isInt.fillDataToLeaf blockInt), (Int.add_zero _).symm⟩
  | bulkLoad handle blocks =>
      simp only [StorageOp.requestSize] at short
      simp only [StorageOp.runLocal, StorageResult.replySize] at replyShort
      rcases mirrors.live arguments with ⟨eachBlock, _, isHandle, linked⟩
      have areInt : ∀ block ∈ blocks, IntBlock block := fun block mem => (eachBlock block mem).1
      refine ⟨_, RemoteStores.call_run (linked.bulkLoad_run areInt short replyShort) _,
        mirrors.refill isHandle linked (level_fillBlocks blocks) (linked.isInt.fillBlocks areInt),
        (Int.add_zero _).symm⟩
  | readPath handle leaf =>
      simp only [StorageOp.runLocal, StorageResult.replySize] at replyShort
      rcases mirrors.live arguments with ⟨hasLeaf, _, _, linked⟩
      exact ⟨_, RemoteStores.call_run (linked.readPath_run hasLeaf replyShort) _, mirrors,
        (Int.add_zero _).symm⟩
  | writePath handle leaf buckets =>
      simp only [StorageOp.requestSize] at short
      rcases mirrors.live arguments with ⟨⟨hasLeaf, accepts⟩, _, isHandle, linked⟩
      refine ⟨_, RemoteStores.call_run (linked.writePath_run hasLeaf accepts short) (fun _ => .done),
        mirrors.refill isHandle linked (level_writeMultiplePaths buckets)
          (linked.isInt.writeMultiplePaths accepts.blocks), (Int.add_zero _).symm⟩
  | readMultiplePaths handle leaves =>
      simp only [StorageOp.requestSize] at short
      simp only [StorageOp.runLocal, StorageResult.replySize] at replyShort
      rcases mirrors.live arguments with ⟨areLeaves, _, _, linked⟩
      exact ⟨_, RemoteStores.call_run (linked.readMultiplePaths_run areLeaves short replyShort) _,
        mirrors, (Int.add_zero _).symm⟩
  | writeMultiplePaths handle buckets =>
      simp only [StorageOp.requestSize] at short
      rcases mirrors.live arguments with ⟨accepts, _, isHandle, linked⟩
      refine ⟨_, RemoteStores.call_run (linked.writeMultiplePaths_run accepts short) (fun _ => .done),
        mirrors.refill isHandle linked (level_writeMultiplePaths buckets)
          (linked.isInt.writeMultiplePaths accepts.blocks), (Int.add_zero _).symm⟩
  | batchReadPaths reqs =>
      simp only [StorageOp.requestSize] at short
      simp only [StorageOp.runLocal, StorageResult.replySize] at replyShort
      exact ⟨_, RemoteStores.call_run (mirrors.batchReadPaths_run arguments short replyShort) _,
        mirrors, (Int.add_zero _).symm⟩
  | batchWritePaths reqs =>
      simp only [StorageOp.requestSize] at short
      rcases mirrors.batchWritePaths_run arguments short with ⟨server', runs, mirrored, next⟩
      exact ⟨_, RemoteStores.call_run runs (fun _ => .done), mirrored, next.trans (Int.add_zero _).symm⟩
  | destroy handle =>
      rcases mirrors.live arguments with ⟨_, _, isHandle, linked⟩
      refine ⟨_, ?_, mirrors.erase isHandle, (Int.add_zero _).symm⟩
      simp only [StorageOp.runRemote]
      rw [RemoteStores.call_run linked.destroy_run]
      rfl

/-- Handles an operation does not name keep their trees. -/
theorem StorageOp.runLocal_frame (op : StorageOp) (stores : LocalStores) {handle : Nat}
    (other : handle ∉ op.handles) :
    (op.runLocal stores).2.get? handle = stores.get? handle := by
  cases op with
  | create _ _ _ | reset _ _ _ | fillDataToLeaf _ _ | bulkLoad _ _ | writePath _ _ _
  | writeMultiplePaths _ _ =>
      exact KeyMap.get?_set_of_ne _ _ (fun same => other (List.mem_singleton.mpr same))
  | readPath _ _ | readMultiplePaths _ _ | batchReadPaths _ => rfl
  | destroy _ =>
      exact KeyMap.get?_erase_of_ne _ (fun same => other (List.mem_singleton.mpr same))
  | batchWritePaths reqs =>
      change handle ∉ reqs.map Prod.fst at other
      change (stores.writeAll reqs).get? handle = _
      unfold LocalStores.writeAll
      induction reqs generalizing stores with
      | nil => rfl
      | cons req rest ih =>
          rw [List.map_cons, List.mem_cons, not_or] at other
          rw [List.foldl_cons, ih _ other.2]
          exact KeyMap.get?_set_of_ne _ _ other.1

end Step

/-! ## Runs -/

/-- The ids a run uses up. -/
def newIds (ops : List StorageOp) : Nat := ops.countP StorageOp.creates

theorem newIds_cons (op : StorageOp) (ops : List StorageOp) :
    newIds (op :: ops) = newIds ops + op.newIds := List.countP_cons

theorem Mirrors.run {stores : LocalStores} {remote : RemoteStores} {ops : List StorageOp}
    (mirrors : Mirrors stores remote) (valid : ValidRun stores ops)
    (room : remote.server.nextId + newIds ops ≤ 2 ^ 31) :
    ∃ remote', runRemote ops remote = .ok ((runLocal ops stores).1, remote') ∧
      Mirrors (runLocal ops stores).2 remote' ∧
      remote'.server.nextId = remote.server.nextId + newIds ops := by
  induction ops generalizing stores remote with
  | nil => exact ⟨remote, rfl, mirrors, (Int.add_zero _).symm⟩
  | cons op rest ih =>
      rw [newIds_cons] at room ⊢
      rcases mirrors.step valid.1 (by omega) with ⟨middle, first, mirrored, next⟩
      rcases ih mirrored valid.2 (by omega) with ⟨remote', others, mirrored', last⟩
      refine ⟨remote', ?_, mirrored', by omega⟩
      rw [runRemote, first, ok_bind]
      dsimp only
      rw [others]
      rfl

theorem validRun_append {stores : LocalStores} {front back : List StorageOp}
    (valid : ValidRun stores (front ++ back)) :
    ValidRun stores front ∧ ValidRun (runLocal front stores).2 back := by
  induction front generalizing stores with
  | nil => exact ⟨trivial, valid⟩
  | cons op rest ih => exact ⟨⟨valid.1, (ih valid.2).1⟩, (ih valid.2).2⟩

/-- Remote storage is local storage, and stores do not disturb each other. -/
theorem remote_eq_local (ops : List StorageOp) (valid : ValidRun ∅ ops)
    (few : newIds ops ≤ 2 ^ 31) :
    (∃ remote, runRemote ops {} = .ok ((runLocal ops ∅).1, remote) ∧
      ∀ handle, remote.treeOf handle = (runLocal ops ∅).2.get? handle) ∧
    ∀ front op back, ops = front ++ op :: back → ∃ results remote result remote',
      runRemote front {} = .ok (results, remote) ∧ op.runRemote remote = .ok (result, remote') ∧
      ∀ handle, handle ∉ op.handles → remote'.treeOf handle = remote.treeOf handle := by
  have start : ({} : RemoteStores).server.nextId = 0 := rfl
  refine ⟨?_, ?_⟩
  · rcases mirrors_empty.run valid (by omega) with ⟨remote, runs, mirrored, _⟩
    exact ⟨remote, runs, mirrored.treeOf⟩
  · intro front op back split
    rw [split] at valid few
    rcases validRun_append valid with ⟨validFront, validOp, _⟩
    have parts : newIds (front ++ op :: back) = newIds front + (newIds back + op.newIds) := by
      rw [← newIds_cons]
      exact List.countP_append
    rcases mirrors_empty.run validFront (by omega) with ⟨remote, runs, mirrored, next⟩
    rcases mirrored.step validOp (by omega) with ⟨remote', runsOp, mirrored', _⟩
    refine ⟨_, remote, _, remote', runs, runsOp, fun handle other => ?_⟩
    rw [mirrored'.treeOf, mirrored.treeOf, op.runLocal_frame _ other]

section Sample

/-- Two stores, one of which is filled, read and given up. -/
def twoStores : List StorageOp :=
  [.create 0 2 1, .create 1 1 4, .fillDataToLeaf 0 { key := 7, leaf := 1, value := [3, 0, 5] },
    .readPath 0 1, .destroy 0]

theorem validRun_twoStores : ValidRun ∅ twoStores := by
  have sizes : SizeFits 2 1 ∧ SizeFits 1 4 := by
    unfold SizeFits
    decide
  have block : IntBlock { key := 7, leaf := 1, value := [3, 0, 5] } := ⟨by decide, by decide⟩
  refine ⟨⟨⟨rfl, sizes.1⟩, by decide, by decide⟩, ⟨⟨rfl, sizes.2⟩, by decide, by decide⟩,
    ⟨⟨_, rfl, block, by decide, by decide⟩, by decide, by decide⟩,
    ⟨⟨_, rfl, by decide, by decide⟩, by decide, by decide⟩,
    ⟨⟨_, rfl, trivial⟩, by decide, by decide⟩, trivial⟩

theorem remote_eq_local_twoStores :
    ∃ remote, runRemote twoStores {} = .ok ((runLocal twoStores ∅).1, remote) ∧
      ∀ handle, remote.treeOf handle = (runLocal twoStores ∅).2.get? handle :=
  (remote_eq_local twoStores validRun_twoStores (by decide)).1

end Sample

end TieredOmap
