import TieredOMap.Oram.CounterBlock
import TieredOMap.Oram.Rounds
import TieredOMap.Omap.SplitOram

/-!
# Blocks under computed leaves

A client that computes the leaves of its blocks needs no position map.
`Labelled` is a Path ORAM that holds the blocks `0, …, size - 1`, each under the
leaf that `label` gives it. A round fetches the paths of the leaves of some
blocks, changes these blocks in the stash and evicts.
-/

namespace TieredOmap

open BinaryTreeStorage Bucketed

/-- The blocks `0, …, size - 1`. -/
def blocksOf (size : Nat) (label : Nat → Int) (value : Nat → Bytes) : Multiset Block :=
  (Multiset.range size).map (fun (key : Nat) => ⟨key, label key, value key⟩)

section BlocksOf

variable {size : Nat} {label : Nat → Int} {value : Nat → Bytes}

theorem mem_blocksOf {block : Block} :
    block ∈ blocksOf size label value ↔ ∃ key < size, block = ⟨key, label key, value key⟩ := by
  simp only [blocksOf, Multiset.mem_map, Multiset.mem_range, eq_comm]

theorem map_key_blocksOf :
    (blocksOf size label value).map Block.key =
      (Multiset.range size).map (fun (key : Nat) => (key : Int)) := by
  rw [blocksOf, Multiset.map_map]
  rfl

theorem nodup_blocksOf : ((blocksOf size label value).map Block.key).Nodup := by
  rw [map_key_blocksOf]
  exact (Multiset.nodup_range size).map Nat.cast_injective

theorem blocksOf_congr {label' : Nat → Int} {value' : Nat → Bytes}
    (sameLabel : ∀ key < size, label key = label' key)
    (sameValue : ∀ key < size, value key = value' key) :
    blocksOf size label value = blocksOf size label' value' := by
  refine Multiset.map_congr rfl ?_
  intro key keyMem
  have keyLt := Multiset.mem_range.mp keyMem
  rw [sameLabel key keyLt, sameValue key keyLt]

/-- Changing the leaf and the value of one block. -/
theorem blocksOf_update {key : Nat} (keyLt : key < size) (leaf : Int) (content : Bytes) :
    (⟨key, leaf, content⟩ : Block) ::ₘ (blocksOf size label value).erase ⟨key, label key, value key⟩ =
      blocksOf size (Function.update label key leaf) (Function.update value key content) := by
  have keyMem : key ∈ Multiset.range size := Multiset.mem_range.mpr keyLt
  have split := Multiset.cons_erase keyMem
  have others : ((Multiset.range size).erase key).map
      (fun (key' : Nat) => (⟨key', label key', value key'⟩ : Block)) = ((Multiset.range size).erase key).map
        (fun (key' : Nat) => ⟨key', Function.update label key leaf key',
          Function.update value key content key'⟩) := by
    refine Multiset.map_congr rfl ?_
    intro key' keyMem'
    have differs : key' ≠ key := by
      rintro rfl
      exact (Multiset.nodup_range size).notMem_erase keyMem'
    rw [Function.update_of_ne differs, Function.update_of_ne differs]
  unfold blocksOf
  rw [← split, Multiset.map_cons, Multiset.erase_cons_head, others, Multiset.map_cons,
    Function.update_self, Function.update_self]

end BlocksOf

/-! ## Blocks stored as they are -/

theorem map_encryptBlock_plain (bucket : List Block) :
    bucket.map (@encryptBlock plainCipher) = bucket := by
  conv_rhs => rw [← List.map_id bucket]
  refine List.map_congr_left ?_
  intro block _
  unfold encryptBlock
  split <;> rfl

theorem map_decryptBlock_plain (bucket : List Block) :
    bucket.map (@decryptBlock plainCipher) = bucket := by
  conv_rhs => rw [← List.map_id bucket]
  refine List.map_congr_left ?_
  intro block _
  unfold decryptBlock
  split <;> rfl

namespace PathORAM

/-- The stash holds a block with the given key. -/
def InStash (oram : PathORAM) (key : Nat) : Prop := (key : Int) ∈ oram.stash.map Block.key

theorem map_key_modifyFirst (test : Block → Bool) {f : Block → Block}
    (sameKey : ∀ block, (f block).key = block.key) (stash : List Block) :
    (modifyFirst test f stash).map Block.key = stash.map Block.key := by
  induction stash with
  | nil => rfl
  | cons head rest ih =>
      by_cases hit : test head = true
      · simp [modifyFirst, hit, sameKey]
      · simp [modifyFirst, hit, ih]

theorem inStash_updateInStash {oram : PathORAM} {key : Int} {f : Block → Block}
    (sameKey : ∀ block, (f block).key = block.key) {key' : Nat} :
    (oram.updateInStash key f).InStash key' ↔ oram.InStash key' := by
  unfold InStash PathORAM.updateInStash
  dsimp only
  rw [map_key_modifyFirst _ sameKey]

/-- The ORAM holds the blocks `0, …, size - 1` with the nodes of `out` checked out. -/
structure Labelled [Cipher] (oram : PathORAM) (level : Nat) (out : Finset Nat) (size : Nat)
    (label : Nat → Int) (value : Nat → Bytes) : Prop where
  holds : oram.Holds level out (blocksOf size label value)
  areLeaves : ∀ key < size, IsLeaf level (label key)

-- The stages of a client differ in their ciphers, so the cipher is read off a hypothesis.
variable {cipher : Cipher} {oram : PathORAM} {level size : Nat} {out : Finset Nat}
  {label : Nat → Int} {value : Nat → Bytes}

theorem Labelled.leafRange_eq (labelled : oram.Labelled level out size label value) :
    oram.leafRange = 2 ^ (level - 1) :=
  labelled.holds.leafRange_eq

theorem Labelled.level_eq (labelled : oram.Labelled level out size label value) :
    oram.storage.level = level :=
  labelled.holds.level_eq

/-- Between rounds the blocks are all in the stash and in the tree. -/
theorem Labelled.liveBlocks_eq (labelled : oram.Labelled level ∅ size label value) :
    oram.liveBlocks = blocksOf size label value := by
  have held := labelled.holds.held
  rw [visible, Finset.sdiff_empty] at held
  rw [PathORAM.liveBlocks, labelled.level_eq]
  exact held

/-- A block in the tree is on the path of its leaf. -/
theorem Labelled.mem_pathNodes (labelled : oram.Labelled level out size label value) {node : Nat}
    (nodeLt : node < totalNodes level) {block : Block} (blockMem : block ∈ oram.bucketBlocks node) :
    node ∈ pathNodes level block.leaf :=
  List.mem_toFinset.mp
    (labelled.holds.placed node (Finset.mem_range.mpr nodeLt) block blockMem)

theorem Labelled.ends_randomLeaf (labelled : oram.Labelled level out size label value) :
    Ends oram.randomLeaf (IsLeaf level) :=
  PathORAM.ends_randomLeaf labelled.holds

theorem Labelled.congr (labelled : oram.Labelled level out size label value)
    {label' : Nat → Int} {value' : Nat → Bytes} (sameLabel : ∀ key < size, label key = label' key)
    (sameValue : ∀ key < size, value key = value' key) :
    oram.Labelled level out size label' value' := by
  refine ⟨blocksOf_congr sameLabel sameValue ▸ labelled.holds, ?_⟩
  intro key keyLt
  exact sameLabel key keyLt ▸ labelled.areLeaves key keyLt

theorem Labelled.nodup_stash (labelled : oram.Labelled level out size label value) :
    (oram.stash.map Block.key).Nodup :=
  labelled.holds.nodup_stash nodup_blocksOf

/-- A block of the stash is the one of its key. -/
theorem Labelled.found (labelled : oram.Labelled level out size label value) {key : Nat}
    (inStash : oram.InStash key) : key < size ∧
      oram.findInStash key = some ⟨key, label key, value key⟩ := by
  rcases List.mem_map.mp inStash with ⟨block, blockMem, blockKey⟩
  have held : block ∈ blocksOf size label value :=
    Multiset.mem_of_le labelled.holds.stash_le (Multiset.mem_coe.mpr blockMem)
  rcases mem_blocksOf.mp held with ⟨key', keyLt, rfl⟩
  obtain rfl : key' = key := by simpa using blockKey
  have found := (keys_nodup_erase_find labelled.nodup_stash blockMem).1
  exact ⟨keyLt, found⟩

/-- A block of the stash gets a new leaf and a new value. -/
theorem Labelled.updateInStash (labelled : oram.Labelled level out size label value) {key : Nat}
    (inStash : oram.InStash key) {f : Block → Block} {leaf : Int} {content : Bytes}
    (isLeaf : IsLeaf level leaf)
    (changed : f ⟨key, label key, value key⟩ = ⟨key, leaf, content⟩) :
    (oram.updateInStash key f).Labelled level out size (Function.update label key leaf)
      (Function.update value key content) := by
  rcases labelled.found inStash with ⟨keyLt, found⟩
  have updated := labelled.holds.updateInStash found (f := f) (by rw [changed])
  rw [changed, blocksOf_update keyLt] at updated
  refine ⟨updated, ?_⟩
  intro key' keyLt'
  by_cases here : key' = key
  · rw [here, Function.update_self]
    exact isLeaf
  · rw [Function.update_of_ne here]
    exact labelled.areLeaves key' keyLt'

/-- Once its path is fetched, a block is in the stash. -/
theorem Labelled.inStash_of_fetched {leaves : List Int}
    (labelled : oram.Labelled level (pathSet level leaves) size label value) {key : Nat}
    (keyLt : key < size) (leafMem : label key ∈ leaves) : oram.InStash key := by
  have blockMem : (⟨key, label key, value key⟩ : Block) ∈ blocksOf size label value :=
    mem_blocksOf.mpr ⟨key, keyLt, rfl⟩
  exact List.mem_map.mpr ⟨_, labelled.holds.mem_stash blockMem (fun _ mem => mem) leafMem, rfl⟩

/-- Fetch the paths of some leaves. -/
theorem Labelled.ends_read (labelled : oram.Labelled level ∅ size label value)
    {leaves : List Int} (areLeaves : ∀ leaf ∈ leaves, IsLeaf level leaf) :
    Ends (oram.readMultiplePathsToStash leaves) (fun oram' =>
      oram'.Labelled level (pathSet level leaves) size label value) := by
  refine Prog.ends_bind (ends_send _) ?_
  intro _ _
  exact Prog.ends_pure ⟨labelled.holds.applyFetchedPath areLeaves, labelled.areLeaves⟩

/-- Evict along the paths that were fetched. -/
theorem Labelled.ends_evictStash {leaves : List Int}
    (labelled : oram.Labelled level (pathSet level leaves) size label value)
    (areLeaves : ∀ leaf ∈ leaves, IsLeaf level leaf) :
    Ends (oram.evictStash leaves) (fun oram' => oram'.Labelled level ∅ size label value) := by
  refine (PathORAM.ends_evictStash labelled.holds areLeaves).mono ?_
  rintro oram' ⟨holds, _⟩
  exact ⟨holds, labelled.areLeaves⟩

/-- The buckets for the paths that were fetched, and their write. -/
theorem Labelled.ends_prepareEvictionPaths {leaves : List Int}
    (labelled : oram.Labelled level (pathSet level leaves) size label value)
    (areLeaves : ∀ leaf ∈ leaves, IsLeaf level leaf) :
    Ends (oram.prepareEvictionPaths leaves) (fun outcome =>
      (outcome.2.writePath outcome.1).Labelled level ∅ size label value) := by
  refine (PathORAM.ends_prepareEvictionPaths labelled.holds areLeaves).mono ?_
  intro outcome holds
  exact ⟨holds, labelled.areLeaves⟩

/-! ## Paths that are fetched one by one -/

theorem readMultiplePaths_eq (tree : BinaryTreeStorage) (leaves : List Int) :
    tree.readMultiplePaths leaves =
      (mergedPathIndices tree.level leaves).map (fun node => (node, tree.storage node)) := rfl

/-- Merging single paths onto some nodes adds the other nodes of the paths. -/
theorem mergePaths_foldl (tree : BinaryTreeStorage) (leaves : List Int) {nodes : List Nat}
    (nodup : nodes.Nodup) :
    ∃ nodes' : List Nat, nodes'.Nodup ∧
      (∀ node, node ∈ nodes' ↔ node ∈ nodes ∨ ∃ leaf ∈ leaves, node ∈ pathNodes tree.level leaf) ∧
      (leaves.map tree.readPath).foldl SplitOram.mergePaths
        (nodes.map (fun node => (node, tree.storage node))) =
          nodes'.map (fun node => (node, tree.storage node)) := by
  induction leaves generalizing nodes with
  | nil => exact ⟨nodes, nodup, by simp, rfl⟩
  | cons leaf rest ih =>
      set fresh := (mergedPathIndices tree.level [leaf]).filter (fun node => !nodes.contains node)
        with freshDef
      have merged : SplitOram.mergePaths (nodes.map (fun node => (node, tree.storage node)))
          (tree.readPath leaf) = (nodes ++ fresh).map (fun node => (node, tree.storage node)) := by
        rw [SplitOram.mergePaths, BinaryTreeStorage.readPath, readMultiplePaths_eq, List.map_append,
          List.filter_map, freshDef, List.map_map]
        simp only [Function.comp_def, List.map_id']
      have nodup' : (nodes ++ fresh).Nodup := by
        refine List.nodup_append'.mpr ⟨nodup, (nodup_mergedPathIndices _ _).filter _, ?_⟩
        intro node old new
        simpa [old] using (List.mem_filter.mp new).2
      rcases ih nodup' with ⟨nodes', nodesNodup, nodesMem, folded⟩
      refine ⟨nodes', nodesNodup, ?_, ?_⟩
      · intro node
        have inFresh : node ∈ nodes ++ fresh ↔ node ∈ nodes ∨ node ∈ pathNodes tree.level leaf := by
          rw [List.mem_append, freshDef, List.mem_filter, mem_mergedPathIndices]
          by_cases old : node ∈ nodes <;> simp [old]
        rw [nodesMem, inFresh]
        simp only [List.mem_cons, exists_eq_or_imp, or_assoc]
      · rw [List.map_cons, List.foldl_cons, merged, folded]

/-- Merging single paths gives each node of their union once, with its bucket. -/
theorem perm_mergePaths (tree : BinaryTreeStorage) (leaves : List Int) :
    ((leaves.map tree.readPath).foldl SplitOram.mergePaths []).Perm
      (tree.readMultiplePaths leaves) := by
  rcases mergePaths_foldl tree leaves List.nodup_nil with ⟨nodes, nodup, nodesMem, folded⟩
  rw [List.map_nil] at folded
  rw [folded, readMultiplePaths_eq]
  refine List.Perm.map _ ((List.perm_ext_iff_of_nodup nodup (nodup_mergedPathIndices _ _)).mpr ?_)
  intro node
  rw [nodesMem, mem_mergedPathIndices]
  simp

/-- The order of the stash does not matter to what the ORAM holds. -/
theorem Labelled.of_perm {stash : List Block} (labelled : oram.Labelled level out size label value)
    (perm : stash.Perm oram.stash) :
    { oram with stash }.Labelled level out size label value := by
  refine ⟨⟨labelled.holds.level_eq, labelled.holds.level_pos, ?_, labelled.holds.placed,
    labelled.holds.real⟩, labelled.areLeaves⟩
  rw [← labelled.holds.held]
  exact congrArg (visible _ _ _) (Multiset.coe_eq_coe.mpr perm)

/-- Applying merged paths fetches them. -/
theorem Labelled.applyMerged (labelled : oram.Labelled level ∅ size label value)
    {leaves : List Int} (areLeaves : ∀ leaf ∈ leaves, IsLeaf level leaf) :
    (oram.applyFetchedPath
      ((leaves.map oram.storage.readPath).foldl SplitOram.mergePaths [])).Labelled level
        (pathSet level leaves) size label value := by
  have fetched : (oram.applyFetchedPath (oram.storage.readMultiplePaths leaves)).Labelled level
      (pathSet level leaves) size label value :=
    ⟨labelled.holds.applyFetchedPath areLeaves, labelled.areLeaves⟩
  refine fetched.of_perm ?_
  exact ((perm_mergePaths oram.storage leaves).flatMap_right _).append_left _

end PathORAM

end TieredOmap
