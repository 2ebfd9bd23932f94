import TieredOMap.Lib.Bucketed
import TieredOMap.Oram.PathOram

/-!
# What a Path ORAM holds

`Holds` says which blocks the client owns: those in the stash and those in the
server buckets it has not fetched. Fetching a path, rearranging the stash and
writing the path back only change that multiset where the code means to. The
checked-out buckets still lie on the server, but they are stale.
-/

namespace TieredOmap

open BinaryTreeStorage Bucketed

/-- A leaf of a tree with the given number of levels. -/
def IsLeaf (level : Nat) (leaf : Int) : Prop := 0 ≤ leaf ∧ leaf < 2 ^ (level - 1)

/-- The nodes on the paths of the given leaves. -/
def pathSet (level : Nat) (leaves : List Int) : Finset Nat :=
  (mergedPathIndices level leaves).toFinset

theorem mem_pathSet {level : Nat} {leaves : List Int} {node : Nat} :
    node ∈ pathSet level leaves ↔ ∃ leaf ∈ leaves, node ∈ pathNodes level leaf := by
  simp [pathSet, mem_mergedPathIndices]

theorem pathSet_subset {level : Nat} (positive : 0 < level) {leaves : List Int}
    (areLeaves : ∀ leaf ∈ leaves, IsLeaf level leaf) :
    pathSet level leaves ⊆ Finset.range (totalNodes level) := by
  intro node nodeMem
  rcases mem_pathSet.mp nodeMem with ⟨leaf, leafMem, onPath⟩
  exact Finset.mem_range.mpr (pathNodes_lt (areLeaves leaf leafMem).2 positive onPath)

/-- Only the paths of some leaves cover the path of a leaf. -/
theorem pathNodes_subset_iff {level : Nat} {leaves : List Int}
    (areLeaves : ∀ leaf ∈ leaves, IsLeaf level leaf) {leaf : Int} (isLeaf : IsLeaf level leaf) :
    (∀ node ∈ pathNodes level leaf, node ∈ mergedPathIndices level leaves) ↔ leaf ∈ leaves := by
  constructor
  · intro covered
    have bottom := (bottom_mem_pathNodes_iff isLeaf.1 isLeaf.1 isLeaf.2).mpr rfl
    rcases mem_mergedPathIndices.mp (covered _ bottom) with ⟨leaf', leafMem, onPath⟩
    have isLeaf' := areLeaves leaf' leafMem
    exact (bottom_mem_pathNodes_iff isLeaf.1 isLeaf'.1 isLeaf'.2).mp onPath ▸ leafMem
  · intro leafMem node onPath
    exact mem_mergedPathIndices.mpr ⟨leaf, leafMem, onPath⟩

variable [Cipher]

/-- The real blocks of a stored bucket, as the client reads them. -/
def openBucket (bucket : List Block) : List Block :=
  (bucket.map decryptBlock).filter (fun block => !block.isDummy)

@[simp]
theorem decryptBlock_key (block : Block) : (decryptBlock block).key = block.key := by
  unfold decryptBlock
  split <;> rfl

@[simp]
theorem decryptBlock_leaf (block : Block) : (decryptBlock block).leaf = block.leaf := by
  unfold decryptBlock
  split <;> rfl

@[simp]
theorem decryptBlock_isDummy (block : Block) : (decryptBlock block).isDummy = block.isDummy := by
  simp [Block.isDummy]

theorem decryptBlock_encryptBlock (block : Block) : decryptBlock (encryptBlock block) = block := by
  by_cases plain : (!block.isDummy && !block.value.isEmpty) = true
  · have real : block.isDummy = false := by simp_all
    have nonempty := Cipher.encrypt_ne_nil block.value (by simp_all)
    have sealedReal : ({ block with value := Cipher.encrypt block.value } : Block).isDummy = false :=
      real
    simp [encryptBlock, decryptBlock, plain, sealedReal, nonempty, Cipher.decrypt_encrypt]
  · simp [encryptBlock, decryptBlock, plain]

/-- Writing a bucket and reading it back returns its real blocks. -/
theorem openBucket_encrypt {bucket : List Block}
    (real : ∀ block ∈ bucket, block.isDummy = false) :
    openBucket (bucket.map encryptBlock) = bucket := by
  have roundTrip : (bucket.map encryptBlock).map decryptBlock = bucket := by
    rw [List.map_map]
    conv_rhs => rw [← List.map_id bucket]
    exact List.map_congr_left (fun block _ => decryptBlock_encryptBlock block)
  rw [openBucket, roundTrip, List.filter_eq_self]
  intro block blockMem
  simp [real block blockMem]

namespace PathORAM

/-- The blocks in one server bucket. -/
def bucketBlocks (oram : PathORAM) (node : Nat) : Multiset Block :=
  ↑(openBucket (oram.storage.storage node))

/-- The ORAM owns exactly `blocks` while the nodes of `checkedOut` are being rewritten. -/
structure Holds (oram : PathORAM) (level : Nat) (checkedOut : Finset Nat)
    (blocks : Multiset Block) : Prop where
  level_eq : oram.storage.level = level
  level_pos : 0 < level
  held : visible (Finset.range (totalNodes level)) checkedOut oram.bucketBlocks ↑oram.stash = blocks
  placed : Placed (Finset.range (totalNodes level)) oram.bucketBlocks
    (fun block => (pathNodes level block.leaf).toFinset)
  real : ∀ block ∈ blocks, block.isDummy = false

variable {oram : PathORAM} {level : Nat} {checkedOut : Finset Nat} {blocks : Multiset Block}

theorem Holds.stash_le (holds : oram.Holds level checkedOut blocks) :
    (↑oram.stash : Multiset Block) ≤ blocks := by
  rw [← holds.held]
  exact Multiset.le_add_right _ _

theorem Holds.leafRange_eq (holds : oram.Holds level checkedOut blocks) :
    oram.leafRange = 2 ^ (level - 1) := by
  simp [leafRange, BinaryTreeStorage.leafRange, holds.level_eq]

/-- A block whose path is checked out is in the stash. -/
theorem Holds.mem_stash (holds : oram.Holds level checkedOut blocks) {block : Block}
    (blockMem : block ∈ blocks) {leaves : List Int} (out : pathSet level leaves ⊆ checkedOut)
    (leafMem : block.leaf ∈ leaves) : block ∈ oram.stash := by
  have visibleBlock := blockMem
  rw [← holds.held] at visibleBlock
  have homeOut : (pathNodes level block.leaf).toFinset ⊆ checkedOut := by
    intro node nodeMem
    exact out (mem_pathSet.mpr ⟨block.leaf, leafMem, List.mem_toFinset.mp nodeMem⟩)
  exact Multiset.mem_coe.mp (mem_stash_of_home holds.placed visibleBlock homeOut)

/-- The position map is no part of what the ORAM holds. -/
theorem Holds.withPosMap (holds : oram.Holds level checkedOut blocks) (posMap : KeyMap Int Int) :
    { oram with posMap := posMap }.Holds level checkedOut blocks :=
  ⟨holds.level_eq, holds.level_pos, holds.held, holds.placed, holds.real⟩

omit [Cipher] in
theorem ends_drawLeaf (oram : PathORAM) :
    Ends oram.randomLeaf (IsLeaf oram.storage.level) := by
  refine Prog.ends_bind (ends_randBelow (Nat.two_pow_pos _)) ?_
  intro leaf leafLt
  refine Prog.ends_pure ⟨by omega, ?_⟩
  exact_mod_cast leafLt

theorem ends_randomLeaf (holds : oram.Holds level checkedOut blocks) :
    Ends oram.randomLeaf (IsLeaf level) :=
  holds.level_eq ▸ ends_drawLeaf oram

omit [Cipher] in
theorem yields_randomLeaf (oram : PathORAM) :
    Yields oram.randomLeaf (IsLeaf oram.storage.level) :=
  yields_of_ends (ends_drawLeaf oram)

/-! ## Reading a path -/

omit [Cipher] in
theorem sum_map_coe {α β : Type} (items : List α) (f : α → List β) :
    (items.map (fun item => (↑(f item) : Multiset β))).sum = ↑(items.flatMap f) := by
  induction items with
  | nil => rfl
  | cons head rest ih => simp [ih, List.flatMap_cons]

/-- What is fetched are the buckets of the paths. -/
theorem coe_readMultiplePaths (oram : PathORAM) (leaves : List Int) :
    (↑((oram.storage.readMultiplePaths leaves).flatMap (fun entry => openBucket entry.2)) :
      Multiset Block) = ∑ node ∈ pathSet oram.storage.level leaves, oram.bucketBlocks node := by
  rw [pathSet, List.sum_toFinset _ (nodup_mergedPathIndices _ _), ← sum_map_coe,
    readMultiplePaths, List.map_map]
  rfl

theorem Holds.applyFetchedPath (holds : oram.Holds level ∅ blocks) {leaves : List Int}
    (areLeaves : ∀ leaf ∈ leaves, IsLeaf level leaf) :
    (oram.applyFetchedPath (oram.storage.readMultiplePaths leaves)).Holds level
      (pathSet level leaves) blocks := by
  have fetched := coe_readMultiplePaths oram leaves
  rw [holds.level_eq] at fetched
  refine ⟨holds.level_eq, holds.level_pos, ?_, holds.placed, holds.real⟩
  have checkOut := visible_checkOut (pathSet_subset holds.level_pos areLeaves)
    oram.bucketBlocks ↑oram.stash
  rw [← fetched, holds.held, Multiset.coe_add] at checkOut
  exact checkOut

theorem ends_readPathToStash (holds : oram.Holds level ∅ blocks) {leaf : Int}
    (isLeaf : IsLeaf level leaf) :
    Ends (oram.readPathToStash leaf) (fun oram' =>
      oram'.Holds level (pathSet level [leaf]) blocks ∧ oram'.posMap = oram.posMap) := by
  refine Prog.ends_bind (ends_send _) ?_
  intro _ _
  refine Prog.ends_pure ⟨?_, rfl⟩
  exact holds.applyFetchedPath (by simpa using isLeaf)

/-! ## Evicting to a path -/

/-- The blocks of a path under construction. -/
def pathBlocks (path : PathData) : Multiset Block := ↑(path.flatMap Prod.snd)

omit [Cipher] in
theorem pathBlocks_pushAt {path : PathData} (nodup : (path.map Prod.fst).Nodup) {node : Nat}
    (nodeMem : node ∈ path.map Prod.fst) (block : Block) :
    pathBlocks (pushAt path node block) = block ::ₘ pathBlocks path := by
  induction path with
  | nil => simp at nodeMem
  | cons entry rest ih =>
      rcases entry with ⟨head, bucket⟩
      simp only [List.map_cons, List.nodup_cons] at nodup
      by_cases here : head = node
      · subst head
        have untouched : pushAt rest node block = rest := by
          rw [pushAt]
          conv_rhs => rw [← List.map_id rest]
          refine List.map_congr_left ?_
          intro entry entryMem
          have differs : entry.1 ≠ node :=
            fun same => nodup.1 (same ▸ List.mem_map_of_mem entryMem)
          simp [differs]
        have pushed : pushAt ((node, bucket) :: rest) node block =
            (node, bucket ++ [block]) :: rest := by
          conv_rhs => rw [← untouched]
          simp [pushAt]
        simp only [pathBlocks, pushed, List.flatMap_cons, Multiset.cons_coe, Multiset.coe_eq_coe,
          List.append_assoc, List.singleton_append]
        exact List.perm_middle
      · have inRest : node ∈ rest.map Prod.fst := by
          simpa [Ne.symm here] using nodeMem
        have pushed : pushAt ((head, bucket) :: rest) node block =
            (head, bucket) :: pushAt rest node block := by
          simp [pushAt, here]
        have tail := ih nodup.2 inRest
        simp only [pathBlocks] at tail ⊢
        rw [pushed, List.flatMap_cons, List.flatMap_cons, ← Multiset.coe_add, tail,
          ← Multiset.coe_add, Multiset.add_cons]

omit [Cipher] in
@[simp]
theorem map_fst_pushAt (path : PathData) (node : Nat) (block : Block) :
    (pushAt path node block).map Prod.fst = path.map Prod.fst := by
  rw [pushAt, List.map_map]
  refine List.map_congr_left ?_
  intro entry _
  by_cases here : entry.1 = node <;> simp [here]

/-- Every block of a path under construction lies on its own path. -/
def PathPlaced (level : Nat) (path : PathData) : Prop :=
  ∀ entry ∈ path, ∀ block ∈ entry.2, entry.1 ∈ pathNodes level block.leaf

omit [Cipher] in
theorem PathPlaced.pushAt {path : PathData} (placed : PathPlaced level path) {node : Nat}
    {block : Block} (onPath : node ∈ pathNodes level block.leaf) :
    PathPlaced level (pushAt path node block) := by
  intro entry entryMem block' blockMem
  rcases List.mem_map.mp entryMem with ⟨entry', entryMem', rfl⟩
  by_cases here : entry'.1 = node
  · simp only [here, if_true, List.mem_append, List.mem_singleton] at blockMem ⊢
    rcases blockMem with old | rfl
    · exact here ▸ placed entry' entryMem' block' old
    · exact onPath
  · simp only [here, if_false] at blockMem ⊢
    exact placed entry' entryMem' block' blockMem

omit [Cipher] in
/-- `fill_block_to_path` adds the block at one node of the path, on the block's own path. -/
theorem fillBlockToPath_eq_some {block : Block} {path path' : PathData} {bucketSize : Int}
    (filled : fillBlockToPath block path level bucketSize = some path') :
    ∃ node ∈ path.map Prod.fst, node ∈ pathNodes level block.leaf ∧
      path' = pushAt path node block := by
  unfold fillBlockToPath at filled
  split at filled
  · rename_i node found
    have sat := List.find?_some found
    have mem := List.mem_of_find?_eq_some found
    simp only [Bool.and_eq_true, List.contains_iff_mem] at sat
    refine ⟨node, by simpa using mem, sat.2, ?_⟩
    simpa using filled.symm
  · simp at filled

omit [Cipher] in
/-- Filling moves blocks from the stash to the path and loses none. -/
theorem fillPaths_spec (level : Nat) (bucketSize : Int) (stash : List Block) {path : PathData}
    (nodup : (path.map Prod.fst).Nodup) (placed : PathPlaced level path) :
    (fillPaths level bucketSize stash path).1.map Prod.fst = path.map Prod.fst ∧
      PathPlaced level (fillPaths level bucketSize stash path).1 ∧
      (↑stash : Multiset Block) + pathBlocks path =
        ↑(fillPaths level bucketSize stash path).2 +
          pathBlocks (fillPaths level bucketSize stash path).1 := by
  induction stash generalizing path with
  | nil => exact ⟨rfl, placed, rfl⟩
  | cons block rest ih =>
      unfold fillPaths
      split
      · rename_i path' filled
        rcases fillBlockToPath_eq_some filled with ⟨node, nodeMem, onPath, rfl⟩
        have pushedNodup : ((pushAt path node block).map Prod.fst).Nodup := by simpa using nodup
        rcases ih pushedNodup (placed.pushAt onPath) with ⟨sameNodes, placed', conserved⟩
        refine ⟨by simpa using sameNodes, placed', ?_⟩
        rw [← conserved, pathBlocks_pushAt nodup nodeMem, ← Multiset.cons_coe,
          Multiset.cons_add, Multiset.add_cons]
      · rcases ih nodup placed with ⟨sameNodes, placed', conserved⟩
        refine ⟨sameNodes, placed', ?_⟩
        rw [← Multiset.cons_coe, Multiset.cons_add, conserved, ← Multiset.cons_coe,
          Multiset.cons_add]

omit [Cipher] in
/-- The buckets that are filled are those of the paths. -/
theorem fillFromStash_nodes (oram : PathORAM) (leaves : List Int) :
    (oram.fillFromStash leaves).1.map Prod.fst = mergedPathIndices oram.storage.level leaves := by
  have freshNodes : ((mergedPathIndices oram.storage.level leaves).map
      (fun node => (node, ([] : List Block)))).map Prod.fst =
        mergedPathIndices oram.storage.level leaves := by
    simp [Function.comp_def]
  have freshPlaced : PathPlaced oram.storage.level
      ((mergedPathIndices oram.storage.level leaves).map (fun node => (node, ([] : List Block)))) := by
    intro entry entryMem block blockMem
    rcases List.mem_map.mp entryMem with ⟨node, _, rfl⟩
    simp at blockMem
  exact (fillPaths_spec oram.storage.level oram.bucketSize oram.stash
    (freshNodes.symm ▸ nodup_mergedPathIndices _ _) freshPlaced).1.trans freshNodes

/-- Filling fresh buckets from the stash and writing buckets that open to them checks the path in. -/
theorem Holds.writeOpened {leaves : List Int}
    (holds : oram.Holds level (pathSet level leaves) blocks)
    (areLeaves : ∀ leaf ∈ leaves, IsLeaf level leaf) {buckets : PathData}
    (sameNodes : buckets.map Prod.fst = (oram.fillFromStash leaves).1.map Prod.fst)
    (opened : ∀ entry ∈ (oram.fillFromStash leaves).1,
      (∀ block ∈ entry.2, block.isDummy = false) →
        ∃ bucket, (entry.1, bucket) ∈ buckets ∧ openBucket bucket = entry.2) :
    ((oram.fillFromStash leaves).2.writePath buckets).Holds level ∅ blocks := by
  set fresh := (mergedPathIndices level leaves).map (fun node => (node, ([] : List Block)))
    with freshDef
  have freshNodes : fresh.map Prod.fst = mergedPathIndices level leaves := by
    simp [freshDef, Function.comp_def]
  have freshPlaced : PathPlaced level fresh := by
    intro entry entryMem block blockMem
    rcases List.mem_map.mp entryMem with ⟨node, _, rfl⟩
    simp at blockMem
  have freshEmpty : pathBlocks fresh = 0 := by
    simp [pathBlocks, freshDef, List.flatMap_map]
  rcases fillPaths_spec level oram.bucketSize oram.stash
    (freshNodes ▸ nodup_mergedPathIndices level leaves) freshPlaced
    with ⟨filledNodes, filledPlaced, conserved⟩
  set filled := fillPaths level oram.bucketSize oram.stash fresh with filledDef
  have filledEq : oram.fillFromStash leaves = (filled.1, { oram with stash := filled.2 }) := by
    simp only [fillFromStash, holds.level_eq, ← freshDef, ← filledDef]
  rw [filledEq] at sameNodes opened ⊢
  rw [freshNodes] at filledNodes
  rw [freshEmpty, add_zero] at conserved
  have stashReal : ∀ block ∈ (↑oram.stash : Multiset Block), block.isDummy = false :=
    fun block blockMem => holds.real block (Multiset.mem_of_le holds.stash_le blockMem)
  have bucketNodes : buckets.map Prod.fst = mergedPathIndices level leaves :=
    sameNodes.trans filledNodes
  set written := PathORAM.writePath { oram with stash := filled.2 } buckets with writtenDef
  have frame : ∀ node, node ∉ pathSet level leaves →
      written.bucketBlocks node = oram.bucketBlocks node := by
    intro node absent
    have absent' : node ∉ buckets.map Prod.fst := by
      rw [bucketNodes]
      simpa [pathSet] using absent
    have kept := writeMultiplePaths_of_not_mem oram.storage absent'
    exact congrArg (fun bucket => (↑(openBucket bucket) : Multiset Block)) kept
  have bucketReal : ∀ entry ∈ filled.1, ∀ block ∈ entry.2, block.isDummy = false := by
    intro entry entryMem block blockMem
    refine stashReal block ?_
    rw [conserved]
    refine Multiset.mem_add.mpr (Or.inr ?_)
    exact List.mem_flatMap.mpr ⟨entry, entryMem, blockMem⟩
  have writtenBucket : ∀ entry ∈ filled.1,
      written.bucketBlocks entry.1 = (↑entry.2 : Multiset Block) := by
    intro entry entryMem
    rcases opened entry entryMem (bucketReal entry entryMem) with ⟨bucket, bucketMem, opens⟩
    have stored : written.storage.storage entry.1 = bucket :=
      writeMultiplePaths_of_mem _ (bucketNodes ▸ nodup_mergedPathIndices _ _) bucketMem
    rw [bucketBlocks, stored, opens]
  have writtenSum : ∑ node ∈ pathSet level leaves, written.bucketBlocks node =
      pathBlocks filled.1 := by
    rw [pathSet, List.sum_toFinset _ (nodup_mergedPathIndices _ _), ← filledNodes, List.map_map,
      pathBlocks, ← sum_map_coe]
    exact congrArg List.sum (List.map_congr_left writtenBucket)
  refine ⟨?_, holds.level_pos, ?_, ?_, holds.real⟩
  · rw [writtenDef, PathORAM.writePath]
    exact (writeMultiplePaths_keeps _ _).1.trans holds.level_eq
  · rw [← holds.held]
    refine visible_checkIn (pathSet_subset holds.level_pos areLeaves) frame ?_
    rw [writtenSum]
    exact conserved
  · refine holds.placed.checkIn frame ?_
    intro node nodeMem item itemMem
    rw [pathSet, ← filledNodes, List.mem_toFinset] at nodeMem
    rcases List.mem_map.mp nodeMem with ⟨entry, entryMem, rfl⟩
    rw [writtenBucket entry entryMem] at itemMem
    exact List.mem_toFinset.mpr (filledPlaced entry entryMem item (Multiset.mem_coe.mp itemMem))

/-- Filling fresh buckets from the stash and writing them checks the path in. -/
theorem Holds.fillAndWrite {leaves : List Int}
    (holds : oram.Holds level (pathSet level leaves) blocks)
    (areLeaves : ∀ leaf ∈ leaves, IsLeaf level leaf) :
    ((oram.fillFromStash leaves).2.writePath (encryptPath (oram.fillFromStash leaves).1)).Holds
      level ∅ blocks := by
  refine holds.writeOpened areLeaves ?_ ?_
  · rw [encryptPath, List.map_map]
    rfl
  · intro entry entryMem real
    exact ⟨_, List.mem_map.mpr ⟨entry, entryMem, rfl⟩, openBucket_encrypt real⟩

/-- Dummies that fill a bucket are dropped again when it is read. -/
theorem openBucket_pad {bucket : List Block} (real : ∀ block ∈ bucket, block.isDummy = false)
    (count : Nat) :
    openBucket ((bucket ++ List.replicate count ({} : Block)).map encryptBlock) = bucket := by
  have opened := openBucket_encrypt real
  unfold openBucket at opened ⊢
  rw [List.map_append, List.map_append, List.filter_append, opened]
  have dropped : ((((List.replicate count ({} : Block)).map encryptBlock).map decryptBlock).filter
      (fun block => !block.isDummy)) = [] := by
    refine List.filter_eq_nil_iff.mpr ?_
    intro block blockMem
    rw [List.map_map] at blockMem
    rcases List.mem_map.mp blockMem with ⟨dummy, dummyMem, rfl⟩
    obtain rfl := List.eq_of_mem_replicate dummyMem
    rw [Function.comp_apply, decryptBlock_encryptBlock]
    decide
  rw [dropped, List.append_nil]

/-- `prepare_eviction_paths` and the write of its buckets check the paths in. -/
theorem ends_prepareEvictionPaths {leaves : List Int}
    (holds : oram.Holds level (pathSet level leaves) blocks)
    (areLeaves : ∀ leaf ∈ leaves, IsLeaf level leaf) :
    Ends (oram.prepareEvictionPaths leaves) (fun outcome =>
      (outcome.2.writePath outcome.1).Holds level ∅ blocks) := by
  unfold prepareEvictionPaths
  dsimp only
  split
  · exact Prog.ends_fail rfl
  · refine Prog.ends_pure (holds.writeOpened areLeaves ?_ ?_)
    · rw [encryptPath, List.map_map, List.map_map]
      rfl
    · intro entry entryMem real
      set padding := List.replicate (oram.bucketSize - entry.2.length).toNat ({} : Block)
      refine ⟨_, List.mem_map.mpr ⟨(entry.1, entry.2 ++ padding), ?_, rfl⟩, openBucket_pad real _⟩
      exact List.mem_map.mpr ⟨entry, entryMem, rfl⟩

/-- The prepared buckets are those of the paths. -/
theorem yields_prepareEvictionPaths (oram : PathORAM) (leaves : List Int) :
    Yields (oram.prepareEvictionPaths leaves) (fun outcome =>
      outcome.1.map Prod.fst = mergedPathIndices oram.storage.level leaves) := by
  unfold prepareEvictionPaths
  dsimp only
  split
  · exact Prog.ends_fail trivial
  · refine Prog.ends_pure ?_
    rw [← fillFromStash_nodes, encryptPath, List.map_map, List.map_map]
    rfl

theorem ends_evictStash {leaves : List Int}
    (holds : oram.Holds level (pathSet level leaves) blocks)
    (areLeaves : ∀ leaf ∈ leaves, IsLeaf level leaf) :
    Ends (oram.evictStash leaves) (fun oram' =>
      oram'.Holds level ∅ blocks ∧ oram'.posMap = oram.posMap) := by
  unfold evictStash
  dsimp only
  split
  · exact Prog.ends_fail rfl
  · refine Prog.ends_bind (ends_send _) ?_
    intro _ _
    exact Prog.ends_pure ⟨holds.fillAndWrite areLeaves, rfl⟩

/-! ## The stash -/

omit [Cipher] in
theorem keys_nodup_erase_find {stash : List Block} {block : Block}
    (nodup : (stash.map Block.key).Nodup) (blockMem : block ∈ stash) :
    stash.find? (fun block' => block'.key == block.key) = some block ∧
      (↑stash : Multiset Block) =
        block ::ₘ ↑(stash.eraseP (fun block' => block'.key == block.key)) := by
  induction stash with
  | nil => simp at blockMem
  | cons head rest ih =>
      simp only [List.map_cons, List.nodup_cons] at nodup
      by_cases here : head.key = block.key
      · have same : block = head := by
          rcases List.mem_cons.mp blockMem with same | inRest
          · exact same
          · exact absurd (here ▸ List.mem_map_of_mem (f := Block.key) inRest) nodup.1
        subst same
        simp
      · have inRest : block ∈ rest := by
          rcases List.mem_cons.mp blockMem with rfl | inRest
          · exact absurd rfl here
          · exact inRest
        rcases ih nodup.2 inRest with ⟨found, split⟩
        have miss : (head.key == block.key) = false := by simpa using here
        refine ⟨by simpa [List.find?_cons, miss] using found, ?_⟩
        rw [List.eraseP_cons_of_neg (by simpa using here), ← Multiset.cons_coe, split,
          Multiset.cons_swap, Multiset.cons_coe]

/-- Keys that occur once among all blocks occur once in the stash. -/
theorem Holds.nodup_stash (holds : oram.Holds level checkedOut blocks)
    (nodup : (blocks.map Block.key).Nodup) : (oram.stash.map Block.key).Nodup := by
  have sub : (↑(oram.stash.map Block.key) : Multiset Int) ≤ blocks.map Block.key := by
    rw [← Multiset.map_coe]
    exact Multiset.map_le_map holds.stash_le
  exact Multiset.coe_nodup.mp (Multiset.nodup_of_le sub nodup)

/-- `extract_from_stash` takes the block out. -/
theorem ends_extractFromStash (holds : oram.Holds level checkedOut blocks)
    (nodup : (blocks.map Block.key).Nodup) {block : Block} (blockMem : block ∈ oram.stash) :
    Ends (oram.extractFromStash block.key) (fun outcome =>
      outcome.1 = block ∧ outcome.2.Holds level checkedOut (blocks.erase block) ∧
        outcome.2.posMap = oram.posMap) := by
  rcases keys_nodup_erase_find (holds.nodup_stash nodup) blockMem with ⟨found, split⟩
  simp only [extractFromStash, found]
  refine Prog.ends_pure ⟨rfl, ?_, rfl⟩
  refine ⟨holds.level_eq, holds.level_pos, ?_, holds.placed, ?_⟩
  · have total := holds.held
    simp only [visible, split, Multiset.cons_add] at total
    rw [← total, Multiset.erase_cons_head]
    rfl
  · exact fun block' blockMem' => holds.real block' (Multiset.mem_of_mem_erase blockMem')

/-- `add_to_stash` puts a block in. -/
theorem Holds.addToStash (holds : oram.Holds level checkedOut blocks) {block : Block}
    (real : block.isDummy = false) :
    (oram.addToStash block).Holds level checkedOut (block ::ₘ blocks) := by
  refine ⟨holds.level_eq, holds.level_pos, ?_, holds.placed, ?_⟩
  · rw [← holds.held]
    simp only [visible, PathORAM.addToStash, ← Multiset.coe_add, Multiset.coe_singleton]
    rw [← Multiset.singleton_add]
    abel
  · intro block' blockMem
    rcases Multiset.mem_cons.mp blockMem with rfl | old
    · exact real
    · exact holds.real block' old

end PathORAM

end TieredOmap
