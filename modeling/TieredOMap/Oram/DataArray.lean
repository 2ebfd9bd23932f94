import Mathlib.Algebra.Group.Equiv.TypeTags
import TieredOMap.Oram.Conservation

/-!
# Path ORAM as an array

The data ORAM of a tiered map is only used through `init`, `access` and
`dummy_access`. Every block is recorded in the position map under the leaf it
carries, so these behave as an array of blocks indexed by their keys.
-/

namespace TieredOmap

open BinaryTreeStorage Bucketed

theorem coe_modifyFirst {α : Type} {items : List α} {test : α → Bool} {item : α}
    (found : items.find? test = some item) (f : α → α) :
    (↑(modifyFirst test f items) : Multiset α) = f item ::ₘ ↑(items.eraseP test) := by
  induction items with
  | nil => simp at found
  | cons head rest ih =>
      by_cases hit : test head = true
      · have same : head = item := by simpa [List.find?_cons, hit] using found
        subst same
        simp [modifyFirst, hit]
      · have later : rest.find? test = some item := by simpa [List.find?_cons, hit] using found
        simp only [modifyFirst, hit, List.eraseP_cons_of_neg hit]
        rw [if_neg (by simp), ← Multiset.cons_coe, ih later, Multiset.cons_swap, Multiset.cons_coe]

namespace PathORAM

/-- Two blocks with the same key are the same block. -/
theorem eq_of_key_eq {blocks : Multiset Block} (nodup : (blocks.map Block.key).Nodup)
    {block block' : Block} (blockMem : block ∈ blocks) (blockMem' : block' ∈ blocks)
    (sameKey : block.key = block'.key) : block = block' :=
  Multiset.inj_on_of_nodup_map nodup block blockMem block' blockMem' sameKey

theorem key_ne_of_mem_erase {blocks : Multiset Block} (nodup : (blocks.map Block.key).Nodup)
    {block block' : Block} (blockMem : block ∈ blocks) (blockMem' : block' ∈ blocks.erase block) :
    block'.key ≠ block.key := by
  intro sameKey
  have same := eq_of_key_eq nodup (Multiset.mem_of_mem_erase blockMem') blockMem sameKey
  subst same
  exact (Multiset.Nodup.notMem_erase (Multiset.Nodup.of_map _ nodup)) blockMem'

/-- Replacing a block by one with the same key keeps all keys distinct. -/
theorem nodup_replace {blocks : Multiset Block} (nodup : (blocks.map Block.key).Nodup)
    {block block' : Block} (blockMem : block ∈ blocks) (sameKey : block'.key = block.key) :
    ((block' ::ₘ blocks.erase block).map Block.key).Nodup := by
  rw [Multiset.map_cons, sameKey, ← Multiset.map_cons, Multiset.cons_erase blockMem]
  exact nodup

/-- The blocks have the values of `contents`. -/
def Contains (blocks : Multiset Block) (contents : Int → Option Bytes) : Prop :=
  ∀ key value, contents key = some value ↔ ∃ block ∈ blocks, block.key = key ∧ block.value = value

/-- Replacing the value of one block. -/
theorem Contains.replace {blocks : Multiset Block} {contents : Int → Option Bytes}
    (contains : Contains blocks contents) (nodup : (blocks.map Block.key).Nodup) {block : Block}
    (blockMem : block ∈ blocks) {block' : Block} (sameKey : block'.key = block.key) :
    Contains (block' ::ₘ blocks.erase block)
      (Function.update contents block.key (some block'.value)) := by
  intro key value
  by_cases here : key = block.key
  · subst here
    rw [Function.update_self, Option.some_inj]
    constructor
    · rintro rfl
      exact ⟨block', Multiset.mem_cons_self _ _, sameKey, rfl⟩
    · rintro ⟨other, otherMem, otherKey, rfl⟩
      rcases Multiset.mem_cons.mp otherMem with rfl | old
      · rfl
      · exact absurd otherKey (key_ne_of_mem_erase nodup blockMem old)
  · rw [Function.update_of_ne here, contains key value]
    constructor
    · rintro ⟨other, otherMem, rfl, rfl⟩
      have differs : other ≠ block := fun same => here (same ▸ rfl)
      exact ⟨other, Multiset.mem_cons_of_mem ((Multiset.mem_erase_of_ne differs).mpr otherMem),
        rfl, rfl⟩
    · rintro ⟨other, otherMem, rfl, rfl⟩
      rcases Multiset.mem_cons.mp otherMem with rfl | old
      · exact absurd sameKey here
      · exact ⟨other, Multiset.mem_of_mem_erase old, rfl, rfl⟩

theorem Contains.of_mem {blocks : Multiset Block} {contents : Int → Option Bytes}
    (contains : Contains blocks contents) {block : Block} (blockMem : block ∈ blocks) :
    contents block.key = some block.value :=
  (contains _ _).mpr ⟨block, blockMem, rfl, rfl⟩

/-! ## Bulk loading the tree -/

/-- The real blocks in the server tree. -/
def treeBlocks (tree : BinaryTreeStorage) : Multiset Block :=
  ∑ node ∈ Finset.range (totalNodes tree.level), ↑(tree.storage node)

theorem fillDataToLeaf_keeps (tree : BinaryTreeStorage) (block : Block) :
    (tree.fillDataToLeaf block).level = tree.level ∧
      (tree.fillDataToLeaf block).bucketSize = tree.bucketSize ∧
      (tree.fillDataToLeaf block).storeId = tree.storeId := by
  unfold fillDataToLeaf
  split <;> simp

/-- `fill_data_to_leaf` adds the block at a node of its path or drops it. -/
theorem fillDataToLeaf_blocks {tree : BinaryTreeStorage} (positive : 0 < tree.level)
    {block : Block} (isLeaf : IsLeaf tree.level block.leaf) :
    treeBlocks (tree.fillDataToLeaf block) = block ::ₘ treeBlocks tree ∨
      treeBlocks (tree.fillDataToLeaf block) = treeBlocks tree := by
  unfold fillDataToLeaf
  split
  · rename_i node found
    have onPath := List.mem_of_find?_eq_some found
    have inTree : node ∈ Finset.range (totalNodes tree.level) :=
      Finset.mem_range.mpr (pathNodes_lt isLeaf.2 positive onPath)
    refine Or.inl ?_
    have others : ∀ node' ∈ (Finset.range (totalNodes tree.level)).erase node,
        (↑((tree.setBucket node (tree.storage node ++ [block])).storage node') : Multiset Block) =
          ↑(tree.storage node') := by
      intro node' nodeMem
      simp [setBucket, Finset.ne_of_mem_erase nodeMem]
    rw [treeBlocks, treeBlocks, setBucket_level,
      ← Finset.add_sum_erase _ _ inTree, ← Finset.add_sum_erase _ _ inTree,
      Finset.sum_congr rfl others]
    simp only [setBucket, if_true, ← Multiset.coe_add, Multiset.coe_singleton]
    rw [← Multiset.singleton_add]
    abel
  · exact Or.inr rfl

/-- Every block of the tree lies on its own path. -/
def TreePlaced (tree : BinaryTreeStorage) : Prop :=
  ∀ node, ∀ block ∈ tree.storage node, node ∈ pathNodes tree.level block.leaf

theorem TreePlaced.fillDataToLeaf {tree : BinaryTreeStorage} (placed : TreePlaced tree)
    (block : Block) : TreePlaced (tree.fillDataToLeaf block) := by
  intro node' block' blockMem
  rw [(fillDataToLeaf_keeps tree block).1]
  unfold BinaryTreeStorage.fillDataToLeaf at blockMem
  split at blockMem
  · rename_i node found
    by_cases here : node' = node
    · subst here
      simp only [setBucket, if_true, List.mem_append, List.mem_singleton] at blockMem
      rcases blockMem with old | rfl
      · exact placed node' block' old
      · exact List.mem_of_find?_eq_some found
    · simp only [setBucket, here, if_false] at blockMem
      exact placed node' block' blockMem
  · exact placed node' block' blockMem

/-- Loading places a part of the blocks in the tree. -/
theorem fillDataToLeaf_foldl (blocks : List Block) {tree : BinaryTreeStorage}
    (positive : 0 < tree.level) (areLeaves : ∀ block ∈ blocks, IsLeaf tree.level block.leaf)
    (placed : TreePlaced tree) :
    (blocks.foldl fillDataToLeaf tree).level = tree.level ∧
      TreePlaced (blocks.foldl fillDataToLeaf tree) ∧
      ∃ loaded : List Block, loaded.Sublist blocks ∧
        treeBlocks (blocks.foldl fillDataToLeaf tree) = treeBlocks tree + ↑loaded := by
  induction blocks generalizing tree with
  | nil => exact ⟨rfl, placed, [], List.Sublist.refl [], by simp⟩
  | cons block rest ih =>
      have sameLevel := (fillDataToLeaf_keeps tree block).1
      have filledPositive : 0 < (tree.fillDataToLeaf block).level := by omega
      rcases ih filledPositive
        (fun block' blockMem => sameLevel ▸ areLeaves block' (List.mem_cons_of_mem _ blockMem))
        (placed.fillDataToLeaf block) with ⟨level, placed', loaded, sublist, total⟩
      refine ⟨level.trans sameLevel, placed', ?_⟩
      rcases fillDataToLeaf_blocks positive (areLeaves block List.mem_cons_self) with added | dropped
      · refine ⟨block :: loaded, sublist.cons_cons block, ?_⟩
        rw [List.foldl_cons, total, added, ← Multiset.cons_coe, Multiset.cons_add,
          Multiset.add_cons]
      · refine ⟨loaded, sublist.cons block, ?_⟩
        rw [List.foldl_cons, total, dropped]

/-! ## Accesses -/

variable [Cipher] {oram : PathORAM} {level : Nat} {blocks : Multiset Block}

/-- The ORAM holds `blocks`, each recorded in the position map under its own leaf. -/
structure Tracked (oram : PathORAM) (level : Nat) (blocks : Multiset Block) : Prop where
  holds : oram.Holds level ∅ blocks
  nodup : (blocks.map Block.key).Nodup
  mapped : ∀ block ∈ blocks,
    oram.posMap.get? block.key = some block.leaf ∧ IsLeaf level block.leaf

/-- Giving a block a new leaf and recording it keeps the other blocks tracked. -/
theorem Tracked.mapped_replace (tracked : oram.Tracked level blocks) {block block' : Block}
    (blockMem : block ∈ blocks) (sameKey : block'.key = block.key)
    (isLeaf : IsLeaf level block'.leaf) :
    ∀ other ∈ block' ::ₘ blocks.erase block,
      (oram.posMap.set block.key block'.leaf).get? other.key = some other.leaf ∧
        IsLeaf level other.leaf := by
  intro other otherMem
  rcases Multiset.mem_cons.mp otherMem with rfl | old
  · rw [sameKey]
    exact ⟨KeyMap.get?_set_self _ _ _, isLeaf⟩
  · rw [KeyMap.get?_set_of_ne _ _ (key_ne_of_mem_erase tracked.nodup blockMem old)]
    exact tracked.mapped other (Multiset.mem_of_mem_erase old)

/-- `access` returns the block's value and replaces it. -/
theorem Tracked.ends_access (tracked : oram.Tracked level blocks) {block : Block}
    (blockMem : block ∈ blocks) (newValue : Option Bytes) :
    Ends (oram.access block.key newValue) (fun outcome =>
      outcome.1 = block.value ∧ ∃ leaf, outcome.2.Tracked level
        ({ block with value := newValue.getD block.value, leaf := leaf } ::ₘ blocks.erase block)) := by
  rcases tracked.mapped block blockMem with ⟨recorded, oldIsLeaf⟩
  simp only [access, recorded]
  refine Prog.ends_bind (ends_randomLeaf tracked.holds) ?_
  intro newLeaf newIsLeaf
  refine Prog.ends_bind (ends_readPathToStash (tracked.holds.withPosMap _) oldIsLeaf) ?_
  rintro fetched ⟨fetchedHolds, fetchedMap⟩
  have inStash := fetchedHolds.mem_stash blockMem (fun _ mem => mem) (List.mem_singleton_self _)
  rcases keys_nodup_erase_find (fetchedHolds.nodup_stash tracked.nodup) inStash with ⟨found, split⟩
  simp only [found]
  set block' : Block := { block with value := newValue.getD block.value, leaf := newLeaf }
    with block'Def
  have real : block'.isDummy = false := tracked.holds.real block blockMem
  set stash' := modifyFirst (fun b => b.key == block.key)
    (fun b => { b with value := newValue.getD b.value, leaf := newLeaf }) fetched.stash
    with stash'Def
  have rewritten : { fetched with stash := stash' }.Holds level (pathSet level [block.leaf])
      (block' ::ₘ blocks.erase block) := by
    refine ⟨fetchedHolds.level_eq, fetchedHolds.level_pos, ?_, fetchedHolds.placed, ?_⟩
    · have total := fetchedHolds.held
      simp only [visible, split, Multiset.cons_add] at total
      simp only [visible, stash'Def, coe_modifyFirst found, Multiset.cons_add]
      rw [← total, Multiset.erase_cons_head]
      rfl
    · intro other otherMem
      rcases Multiset.mem_cons.mp otherMem with rfl | old
      · exact real
      · exact tracked.holds.real other (Multiset.mem_of_mem_erase old)
  refine Prog.ends_bind (ends_evictStash rewritten (by simpa using oldIsLeaf)) ?_
  rintro evicted ⟨evictedHolds, evictedMap⟩
  refine Prog.ends_pure ⟨rfl, newLeaf, evictedHolds, nodup_replace tracked.nodup blockMem rfl, ?_⟩
  rw [evictedMap]
  simp only [fetchedMap]
  exact tracked.mapped_replace blockMem rfl newIsLeaf

/-- `dummy_access` changes no block and no leaf. -/
theorem Holds.ends_dummyAccess (holds : oram.Holds level ∅ blocks) :
    Ends oram.dummyAccess (fun oram' =>
      oram'.Holds level ∅ blocks ∧ oram'.posMap = oram.posMap) := by
  refine Prog.ends_bind (ends_randomLeaf holds) ?_
  intro leaf isLeaf
  refine Prog.ends_bind (ends_readPathToStash holds isLeaf) ?_
  rintro fetched ⟨fetchedHolds, fetchedMap⟩
  refine (ends_evictStash fetchedHolds (by simpa using isLeaf)).mono ?_
  rintro evicted ⟨evictedHolds, evictedMap⟩
  exact ⟨evictedHolds, evictedMap.trans fetchedMap⟩

/-- `dummy_access` keeps the blocks tracked. -/
theorem Tracked.ends_dummyAccess (tracked : oram.Tracked level blocks) :
    Ends oram.dummyAccess (fun oram' => oram'.Tracked level blocks) := by
  refine tracked.holds.ends_dummyAccess.mono ?_
  rintro oram' ⟨holds, sameMap⟩
  exact ⟨holds, tracked.nodup, by rw [sameMap]; exact tracked.mapped⟩

/-! ## Initialisation -/

omit [Cipher] in
theorem mem_placedKeys {tree : BinaryTreeStorage} {key : Int} :
    key ∈ tree.placedKeys ↔ ∃ block ∈ treeBlocks tree, block.isDummy = false ∧ block.key = key := by
  simp only [placedKeys, List.mem_filterMap, List.mem_flatMap, List.mem_range, treeBlocks,
    Multiset.mem_sum, Finset.mem_range, Multiset.mem_coe]
  constructor
  · rintro ⟨block, ⟨node, nodeLt, blockMem⟩, keyEq⟩
    by_cases dummy : block.isDummy = true
    · simp [dummy] at keyEq
    · exact ⟨block, ⟨node, nodeLt, blockMem⟩, by simpa using dummy, by simpa [dummy] using keyEq⟩
  · rintro ⟨block, ⟨node, nodeLt, blockMem⟩, real, keyEq⟩
    exact ⟨block, ⟨node, nodeLt, blockMem⟩, by simpa [real] using keyEq⟩

/-- What the client reads from the whole tree. -/
theorem sum_bucketBlocks (oram : PathORAM) :
    ∑ node ∈ Finset.range (totalNodes oram.storage.level), oram.bucketBlocks node =
      ((treeBlocks oram.storage).map decryptBlock).filter (fun block => !block.isDummy) := by
  let reading : Multiset Block →+ Multiset Block :=
    { toFun := fun raw => (raw.map decryptBlock).filter (fun block => !block.isDummy)
      map_zero' := by simp
      map_add' := fun left right => by simp }
  have onBucket : ∀ node, oram.bucketBlocks node = reading ↑(oram.storage.storage node) := by
    intro node
    simp [reading, bucketBlocks, openBucket]
  simp only [onBucket]
  exact (map_sum reading _ _).symm

omit [Cipher] in
/-- Every key gets a leaf; leaves assigned before stay. -/
theorem ends_assignLeaves {level : Nat} (oram : PathORAM) (entries : List (Int × Bytes))
    (level_eq : oram.storage.level = level)
    (areLeaves : ∀ key leaf, oram.posMap.get? key = some leaf → IsLeaf level leaf) :
    Ends (oram.assignLeaves entries) (fun oram' =>
      oram' = { oram with posMap := oram'.posMap } ∧
        (∀ key leaf, oram.posMap.get? key = some leaf → oram'.posMap.get? key = some leaf) ∧
        (∀ key leaf, oram'.posMap.get? key = some leaf → IsLeaf level leaf) ∧
        ∀ entry ∈ entries, ∃ leaf, oram'.posMap.get? entry.1 = some leaf) := by
  induction entries generalizing oram with
  | nil => exact Prog.ends_pure ⟨rfl, fun _ _ same => same, areLeaves, by simp⟩
  | cons entry rest ih =>
      rcases entry with ⟨key, value⟩
      unfold assignLeaves
      split
      · rename_i leaf present
        refine (ih _ level_eq areLeaves).mono ?_
        rintro oram' ⟨frame, kept, areLeaves', assigned⟩
        refine ⟨frame, kept, areLeaves', ?_⟩
        intro entry entryMem
        rcases List.mem_cons.mp entryMem with rfl | inRest
        · exact ⟨leaf, kept key leaf present⟩
        · exact assigned entry inRest
      · rename_i absent
        have positive : 0 < oram.leafRange := Nat.two_pow_pos _
        refine Prog.ends_bind (ends_randBelow positive) ?_
        intro drawn drawnLt
        have drawnIsLeaf : IsLeaf level (drawn : Int) := by
          simp only [leafRange, BinaryTreeStorage.leafRange, level_eq] at drawnLt
          exact ⟨by omega, by exact_mod_cast drawnLt⟩
        have areLeavesSet : ∀ key' leaf, (oram.setLeaf key drawn).posMap.get? key' = some leaf →
            IsLeaf level leaf := by
          intro key' leaf present
          simp only [setLeaf, KeyMap.get?_set] at present
          split at present
          · exact Option.some_inj.mp present ▸ drawnIsLeaf
          · exact areLeaves key' leaf present
        refine (ih (oram.setLeaf key drawn) level_eq areLeavesSet).mono ?_
        rintro oram' ⟨frame, kept, areLeaves', assigned⟩
        refine ⟨frame, ?_, areLeaves', ?_⟩
        · intro key' leaf present
          refine kept key' leaf ?_
          have differs : key' ≠ key := by
            rintro rfl
            simp [absent] at present
          simpa [setLeaf, KeyMap.get?_set_of_ne _ _ differs] using present
        · intro entry entryMem
          rcases List.mem_cons.mp entryMem with rfl | inRest
          · exact ⟨drawn, kept key drawn (by simp [setLeaf])⟩
          · exact assigned entry inRest

omit [Cipher] in
/-- Splitting distinct blocks by what a load reported as placed. -/
theorem coe_eq_placed_add_left {blocks loaded : List Block}
    (nodup : (blocks.map Block.key).Nodup) (sublist : loaded.Sublist blocks) :
    (↑blocks : Multiset Block) =
      ↑loaded + ↑(blocks.filter (fun block => block.key ∉ loaded.map Block.key)) := by
  induction sublist with
  | slnil => simp
  | @cons loaded rest block sublist ih =>
      simp only [List.map_cons, List.nodup_cons] at nodup
      have fresh : block.key ∉ loaded.map Block.key :=
        fun mem => nodup.1 ((sublist.map Block.key).subset mem)
      rw [List.filter_cons_of_pos (by simpa using fresh), ← Multiset.cons_coe,
        ← Multiset.cons_coe, Multiset.add_cons, ← ih nodup.2]
  | @cons_cons loaded rest block sublist ih =>
      simp only [List.map_cons, List.nodup_cons] at nodup
      have sameRest : rest.filter (fun other => other.key ∉ (block :: loaded).map Block.key) =
          rest.filter (fun other => other.key ∉ loaded.map Block.key) := by
        refine List.filter_congr ?_
        intro other otherMem
        have differs : other.key ≠ block.key :=
          fun same => nodup.1 (same ▸ List.mem_map_of_mem otherMem)
        simp [differs]
      rw [List.filter_cons_of_neg (by simp), sameRest, ← Multiset.cons_coe, ← Multiset.cons_coe,
        Multiset.cons_add, ← ih nodup.2]

theorem encryptBlock_keeps (block : Block) :
    (encryptBlock block).isDummy = block.isDummy ∧ (encryptBlock block).key = block.key ∧
      (encryptBlock block).leaf = block.leaf := by
  unfold encryptBlock
  split <;> exact ⟨rfl, rfl, rfl⟩

/-- Loading an empty tree, with what finds no place in the stash, holds the blocks. -/
theorem holds_bulkLoad (oram : PathORAM) {emptied : BinaryTreeStorage} {plain : List Block}
    (emptiedLevel : emptied.level = level) (positive : 0 < level)
    (emptyTree : ∀ node, emptied.storage node = [])
    (plainReal : ∀ block ∈ plain, block.isDummy = false)
    (areLeaves : ∀ block ∈ plain, IsLeaf level block.leaf)
    (plainNodup : (plain.map Block.key).Nodup) :
    { oram with
      storage := (emptied.bulkLoad (plain.map encryptBlock)).2
      stash := plain.filter (fun block =>
        !(emptied.bulkLoad (plain.map encryptBlock)).1.contains block.key) }.Holds
      level ∅ ↑plain := by
  have emptiedBlocks : treeBlocks emptied = 0 := by
    refine Finset.sum_eq_zero ?_
    intro node _
    rw [emptyTree]
    rfl
  have emptiedPlaced : TreePlaced emptied := by
    intro node block blockMem
    rw [emptyTree] at blockMem
    exact absurd blockMem (List.not_mem_nil)
  rcases fillDataToLeaf_foldl (plain.map encryptBlock) (emptiedLevel ▸ positive) (by
      intro block blockMem
      rcases List.mem_map.mp blockMem with ⟨block', blockMem', rfl⟩
      rw [emptiedLevel, (encryptBlock_keeps block').2.2]
      exact areLeaves block' blockMem') emptiedPlaced
    with ⟨loadedLevel, loadedPlaced, loaded, sublist, total⟩
  rcases List.sublist_map_iff.mp sublist with ⟨plainLoaded, plainSublist, rfl⟩
  rw [emptiedBlocks, zero_add] at total
  have loadedReal : ∀ block ∈ plainLoaded, block.isDummy = false :=
    fun block blockMem => plainReal block (plainSublist.subset blockMem)
  set tree := (plain.map encryptBlock).foldl fillDataToLeaf emptied with treeDef
  have placedIff : ∀ key, key ∈ tree.placedKeys ↔ key ∈ plainLoaded.map Block.key := by
    intro key
    rw [mem_placedKeys, total]
    simp only [Multiset.mem_coe, List.mem_map]
    constructor
    · rintro ⟨_, ⟨block, blockMem, rfl⟩, _, rfl⟩
      exact ⟨block, blockMem, (encryptBlock_keeps block).2.1.symm⟩
    · rintro ⟨block, blockMem, rfl⟩
      exact ⟨_, ⟨block, blockMem, rfl⟩, (encryptBlock_keeps block).1.trans
        (loadedReal block blockMem), (encryptBlock_keeps block).2.1⟩
  have leftEq : plain.filter (fun block => !tree.placedKeys.contains block.key) =
      plain.filter (fun block => block.key ∉ plainLoaded.map Block.key) := by
    refine List.filter_congr ?_
    intro block _
    simp only [← placedIff, Bool.not_eq_eq_eq_not, decide_not]
    by_cases placed : block.key ∈ tree.placedKeys <;> simp [placed]
  have opened : ∑ node ∈ Finset.range (totalNodes tree.level),
      (↑(openBucket (tree.storage node)) : Multiset Block) = ↑plainLoaded := by
    have read := sum_bucketBlocks ({ storage := tree } : PathORAM)
    have decrypted : (plainLoaded.map encryptBlock).map decryptBlock = plainLoaded := by
      rw [List.map_map]
      conv_rhs => rw [← List.map_id plainLoaded]
      exact List.map_congr_left (fun block _ => decryptBlock_encryptBlock block)
    have allReal : plainLoaded.filter (fun block => !block.isDummy) = plainLoaded :=
      List.filter_eq_self.mpr (fun block blockMem => by simp [loadedReal block blockMem])
    rw [total, Multiset.map_coe, Multiset.filter_coe, decrypted] at read
    simp only [Bool.decide_eq_true, allReal] at read
    exact read
  refine ⟨loadedLevel.trans emptiedLevel, positive, ?_, ?_, plainReal⟩
  · simp only [visible, Finset.sdiff_empty, bulkLoad, ← treeDef, leftEq]
    rw [coe_eq_placed_add_left plainNodup plainSublist, add_comm, ← opened, loadedLevel,
      emptiedLevel]
    rfl
  · intro node _ item itemMem
    rcases List.mem_filter.mp (Multiset.mem_coe.mp itemMem) with ⟨itemMem', _⟩
    rcases List.mem_map.mp itemMem' with ⟨block, blockMem, rfl⟩
    have onPath := loadedPlaced node block blockMem
    rw [loadedLevel, emptiedLevel] at onPath
    simpa using onPath

/-- `init` on an empty map holds the data, each block under the leaf in the position map. -/
theorem ends_init {oram : PathORAM} {data : KeyMap Int Bytes}
    (sized : oram.storage.level = ceilLog2 oram.numData + 1)
    (areLeaves : ∀ key leaf, oram.posMap.get? key = some leaf → IsLeaf oram.storage.level leaf)
    (realKeys : ∀ entry ∈ data.entries, entry.1 ≠ invalidKey) :
    Ends (oram.init data) (fun oram' => ∃ blocks,
      oram'.Tracked oram.storage.level blocks ∧
        blocks.map (fun block => (block.key, block.value)) = ↑data.entries ∧
        ∀ key leaf, oram.posMap.get? key = some leaf → oram'.posMap.get? key = some leaf) := by
  refine Prog.ends_bind
    (ends_assignLeaves { oram with stash := [] } data.entries rfl areLeaves) ?_
  rintro assigned ⟨frame, kept, areLeaves', assignedAll⟩
  set level := oram.storage.level with levelDef
  set plain := data.entries.map (fun entry =>
    ({ key := entry.1, leaf := assigned.getLeaf entry.1, value := entry.2 } : Block)) with plainDef
  have plainReal : ∀ block ∈ plain, block.isDummy = false := by
    intro block blockMem
    rcases List.mem_map.mp blockMem with ⟨entry, entryMem, rfl⟩
    simpa [Block.isDummy] using realKeys entry entryMem
  have plainMapped : ∀ block ∈ plain,
      assigned.posMap.get? block.key = some block.leaf ∧ IsLeaf level block.leaf := by
    intro block blockMem
    rcases List.mem_map.mp blockMem with ⟨entry, entryMem, rfl⟩
    rcases assignedAll entry entryMem with ⟨leaf, recorded⟩
    have leafEq : assigned.getLeaf entry.1 = leaf := KeyMap.getD_of_get? recorded
    exact ⟨by simpa [leafEq] using recorded, by simpa [leafEq] using areLeaves' _ _ recorded⟩
  have plainKeys : plain.map Block.key = data.entries.map Prod.fst := by
    simp [plainDef, Function.comp_def]
  have plainNodup : (plain.map Block.key).Nodup := plainKeys ▸ data.nodup
  have sealedEq : data.entries.map (fun entry =>
      ({ key := entry.1, leaf := assigned.getLeaf entry.1,
         value := if entry.2.isEmpty then entry.2 else Cipher.encrypt entry.2 } : Block)) =
        plain.map encryptBlock := by
    rw [plainDef, List.map_map]
    refine List.map_congr_left ?_
    intro entry entryMem
    have real : ({ key := entry.1, leaf := assigned.getLeaf entry.1, value := entry.2 } :
        Block).isDummy = false := by
      simpa [Block.isDummy] using realKeys entry entryMem
    by_cases empty : entry.2.isEmpty = true <;> simp [encryptBlock, real, empty]
  set emptied := assigned.storage.reset assigned.numData assigned.bucketSize with emptiedDef
  have emptiedLevel : emptied.level = level := by
    rw [emptiedDef, frame]
    exact sized.symm
  have leftEq : (data.entries.filter (fun entry =>
      !(emptied.bulkLoad (plain.map encryptBlock)).1.contains entry.1)).map
        (fun entry => ({ key := entry.1, leaf := assigned.getLeaf entry.1, value := entry.2 } :
          Block)) = plain.filter (fun block =>
            !(emptied.bulkLoad (plain.map encryptBlock)).1.contains block.key) := by
    rw [plainDef, List.filter_map]
    rfl
  have holds := holds_bulkLoad assigned emptiedLevel (sized ▸ Nat.succ_pos _)
    (fun _ => rfl) plainReal (fun block blockMem => (plainMapped block blockMem).2) plainNodup
  refine Prog.ends_pure ⟨↑plain, ⟨?_, ?_, ?_⟩, ?_, kept⟩
  · rw [sealedEq, leftEq]
    exact holds
  · exact Multiset.coe_nodup.mpr plainNodup
  · exact plainMapped
  · simp [plainDef, Function.comp_def]

/-- `init` records no label that is not a leaf. -/
theorem yields_init_leaves {level : Nat} (data : KeyMap Int Bytes)
    (sized : oram.storage.level = level)
    (areLeaves : ∀ key leaf, oram.posMap.get? key = some leaf → IsLeaf level leaf) :
    Yields (oram.init data) (fun oram' =>
      ∀ key leaf, oram'.posMap.get? key = some leaf → IsLeaf level leaf) := by
  refine Prog.ends_bind (yields_of_ends
    (ends_assignLeaves { oram with stash := [] } data.entries sized areLeaves)) ?_
  rintro assigned ⟨_, _, areLeaves', _⟩
  exact Prog.ends_pure areLeaves'

/-- The client maps block ids to values through the ORAM. -/
def IsArray (oram : PathORAM) (contents : Int → Option Bytes) : Prop :=
  ∃ level blocks, oram.Tracked level blocks ∧ ∀ key value,
    contents key = some value ↔ ∃ block ∈ blocks, block.key = key ∧ block.value = value

theorem IsArray.ends_access {contents : Int → Option Bytes} (isArray : oram.IsArray contents)
    {key : Int} {value : Bytes} (present : contents key = some value) (newValue : Option Bytes) :
    Ends (oram.access key newValue) (fun outcome => outcome.1 = value ∧
      outcome.2.IsArray (Function.update contents key (some (newValue.getD value)))) := by
  rcases isArray with ⟨level, blocks, tracked, exactContents⟩
  rcases (exactContents key value).mp present with ⟨block, blockMem, rfl, rfl⟩
  refine (tracked.ends_access blockMem newValue).mono ?_
  rintro ⟨result, oram'⟩ ⟨resultEq, leaf, tracked'⟩
  refine ⟨resultEq, level, _, tracked', ?_⟩
  intro key' value'
  by_cases here : key' = block.key
  · subst here
    simp only [Function.update_self, Option.some_inj]
    constructor
    · rintro rfl
      exact ⟨_, Multiset.mem_cons_self _ _, rfl, rfl⟩
    · rintro ⟨block', blockMem', sameKey, rfl⟩
      rcases Multiset.mem_cons.mp blockMem' with rfl | old
      · rfl
      · exact absurd sameKey (key_ne_of_mem_erase tracked.nodup blockMem old)
  · rw [Function.update_of_ne here, exactContents]
    constructor
    · rintro ⟨block', blockMem', rfl, rfl⟩
      have differs : block' ≠ block := fun same => here (same ▸ rfl)
      exact ⟨block', Multiset.mem_cons_of_mem ((Multiset.mem_erase_of_ne differs).mpr blockMem'),
        rfl, rfl⟩
    · rintro ⟨block', blockMem', rfl, rfl⟩
      rcases Multiset.mem_cons.mp blockMem' with rfl | old
      · exact absurd rfl here
      · exact ⟨block', Multiset.mem_of_mem_erase old, rfl, rfl⟩

theorem IsArray.ends_dummyAccess {contents : Int → Option Bytes}
    (isArray : oram.IsArray contents) :
    Ends oram.dummyAccess (fun oram' => oram'.IsArray contents) := by
  rcases isArray with ⟨level, blocks, tracked, exactContents⟩
  exact tracked.ends_dummyAccess.mono (fun _ tracked' => ⟨level, blocks, tracked', exactContents⟩)

/-- A client that has been constructed but not initialised. -/
structure Unused (oram : PathORAM) : Prop where
  sized : oram.storage.level = ceilLog2 oram.numData + 1
  noLeaves : oram.posMap = ∅

omit [Cipher] in
theorem ends_new (numData bucketSize stashScale : Int) :
    Ends (PathORAM.new numData bucketSize stashScale) Unused := by
  refine Prog.ends_bind ends_freshStore ?_
  intro storeId _
  exact Prog.ends_pure ⟨rfl, rfl⟩

/-- A new ORAM holds nothing. -/
theorem ends_newEmpty (numData bucketSize stashScale : Int) :
    Ends (PathORAM.new numData bucketSize stashScale) (fun oram =>
      oram.numData = numData ∧ oram.Unused ∧ oram.Holds (ceilLog2 numData + 1) ∅ 0) := by
  refine Prog.ends_bind ends_freshStore ?_
  intro storeId _
  refine Prog.ends_pure ⟨rfl, ⟨rfl, rfl⟩, rfl, Nat.succ_pos _, ?_, ?_, ?_⟩
  · refine (zero_add _).trans (Finset.sum_eq_zero ?_)
    intro node _
    rfl
  · intro node _ block mem
    exact absurd mem (Multiset.notMem_zero block)
  · intro block mem
    exact absurd mem (Multiset.notMem_zero block)

/-- An unused ORAM initialised with `data` is the array `data`. -/
theorem Unused.ends_init (unused : oram.Unused) {data : KeyMap Int Bytes}
    (realKeys : ∀ entry ∈ data.entries, entry.1 ≠ invalidKey) :
    Ends (oram.init data) (fun oram' => oram'.IsArray data.get?) := by
  refine (PathORAM.ends_init unused.sized (by simp [unused.noLeaves]) realKeys).mono ?_
  rintro oram' ⟨blocks, tracked, sameEntries, _⟩
  refine ⟨_, blocks, tracked, ?_⟩
  intro key value
  rw [KeyMap.get?_eq_some_iff, ← Multiset.mem_coe, ← sameEntries]
  simp [Multiset.mem_map]

end PathORAM

end TieredOmap
