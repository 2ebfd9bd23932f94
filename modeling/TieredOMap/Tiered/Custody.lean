import TieredOMap.Oram.DataArray
import TieredOMap.Tiered.Interleaved

/-!
# Custody of the data blocks

While an access goes through its rounds, the data ORAM holds the same blocks,
some of them checked out, and at most one block whose new leaf is already in
the position map but which still lies on its old path until its read arrives.
`Custody` is that state; the lemmas are the moves of one data operation: its
scheduling, its read and its write-back.
-/

namespace TieredOmap

open BinaryTreeStorage Bucketed

/-- `INVALID_LEAF` is below every bound for leaves. -/
theorem invalidLeaf_lt (level : Nat) : invalidLeaf < 2 ^ (level - 1) := by
  have positive : (0 : Int) < 2 ^ (level - 1) := Int.pow_pos (by decide)
  exact lt_trans (by decide) positive

namespace PathORAM

variable [Cipher]

/--
The ORAM owns `blocks` with the nodes of `out` checked out. Every block is on
the path the position map records, except that the block of `op` may still be
on the path `op` reads.
-/
structure Custody (oram : PathORAM) (level : Nat) (out : Finset Nat) (blocks : Multiset Block)
    (op : DataOp) : Prop where
  holds : oram.Holds level out blocks
  nodup : (blocks.map Block.key).Nodup
  areLeaves : ∀ block ∈ blocks, IsLeaf level block.leaf
  recorded : ∀ block ∈ blocks, block.key ≠ op.blk → oram.posMap.get? block.key = some block.leaf
  waiting : ∀ block ∈ blocks, block.key = op.blk → block.leaf = op.leaf
  mapLeaves : ∀ key leaf, oram.posMap.get? key = some leaf → IsLeaf level leaf
  newRecorded : op.blk ≠ invalidBlock → oram.posMap.get? op.blk = some op.newLeaf
  bounded : op.leaf < 2 ^ (level - 1)

/--
Each block id occurs once in the stash and the server tree, on the path of the
leaf that the position map records, with its value in `contents`.
-/
def Conserves (oram : PathORAM) (contents : Int → Option Bytes) : Prop :=
  ∃ level blocks, oram.Tracked level blocks ∧ Contains blocks contents ∧
    ∀ key leaf, oram.posMap.get? key = some leaf → IsLeaf level leaf

variable {oram : PathORAM} {level : Nat} {out : Finset Nat} {blocks : Multiset Block}
  {op : DataOp}

theorem Conserves.isArray {contents : Int → Option Bytes} (conserves : oram.Conserves contents) :
    oram.IsArray contents := by
  rcases conserves with ⟨level, blocks, tracked, contains, _⟩
  exact ⟨level, blocks, tracked, contains⟩

/-- No real block has the key `INVALID_BLOCK`. -/
theorem Custody.key_ne (custody : oram.Custody level out blocks op) {block : Block}
    (blockMem : block ∈ blocks) : block.key ≠ invalidBlock := by
  have real := custody.holds.real block blockMem
  intro same
  simp [Block.isDummy, same] at real

/-- Without an operation the ORAM is conserved, and conversely. -/
theorem custody_iff_tracked :
    oram.Custody level ∅ blocks {} ↔ oram.Tracked level blocks ∧
      ∀ key leaf, oram.posMap.get? key = some leaf → IsLeaf level leaf := by
  constructor
  · intro custody
    refine ⟨⟨custody.holds, custody.nodup, ?_⟩, custody.mapLeaves⟩
    intro block blockMem
    exact ⟨custody.recorded block blockMem (custody.key_ne blockMem),
      custody.areLeaves block blockMem⟩
  · rintro ⟨tracked, mapLeaves⟩
    have keyNe : ∀ block ∈ blocks, block.key ≠ invalidBlock := by
      intro block blockMem same
      have real := tracked.holds.real block blockMem
      simp [Block.isDummy, same] at real
    exact ⟨tracked.holds, tracked.nodup, fun block blockMem => (tracked.mapped block blockMem).2,
      fun block blockMem _ => (tracked.mapped block blockMem).1,
      fun block blockMem same => absurd same (keyNe block blockMem), mapLeaves,
      fun never => absurd rfl never, invalidLeaf_lt level⟩

/-- Any operation without a block may take the place of another one. -/
theorem Custody.withoutBlock (custody : oram.Custody level out blocks op)
    (noBlk : op.blk = invalidBlock) {op' : DataOp} (noBlk' : op'.blk = invalidBlock)
    (bounded : op'.leaf < 2 ^ (level - 1)) : oram.Custody level out blocks op' := by
  refine ⟨custody.holds, custody.nodup, custody.areLeaves, ?_, ?_, custody.mapLeaves,
    fun valid => absurd noBlk' valid, bounded⟩
  · exact fun block blockMem _ =>
      custody.recorded block blockMem (noBlk ▸ custody.key_ne blockMem)
  · exact fun block blockMem same => absurd (same.trans noBlk') (custody.key_ne blockMem)

/-- Only the block, the path and the new leaf of the operation matter. -/
theorem Custody.congr (custody : oram.Custody level out blocks op) {op' : DataOp}
    (sameBlk : op'.blk = op.blk) (sameLeaf : op'.leaf = op.leaf)
    (sameNew : op'.newLeaf = op.newLeaf) : oram.Custody level out blocks op' := by
  refine ⟨custody.holds, custody.nodup, custody.areLeaves, ?_, ?_, custody.mapLeaves, ?_,
    sameLeaf ▸ custody.bounded⟩
  · rw [sameBlk]
    exact custody.recorded
  · rw [sameBlk, sameLeaf]
    exact custody.waiting
  · rw [sameBlk, sameNew]
    exact custody.newRecorded

/-! ## Scheduling -/

/-- The block of a scheduled operation waits on its old path. -/
theorem Custody.schedule (custody : oram.Custody level out blocks op)
    (noBlk : op.blk = invalidBlock) {op' : DataOp} {newLeaf : Int} (isLeaf : IsLeaf level newLeaf)
    (sameLeaf : op'.leaf = oram.getLeaf op'.blk) (sameNew : op'.newLeaf = newLeaf) :
    (oram.setLeaf op'.blk newLeaf).Custody level out blocks op' := by
  have recorded : ∀ block ∈ blocks, oram.posMap.get? block.key = some block.leaf :=
    fun block blockMem => custody.recorded block blockMem (noBlk ▸ custody.key_ne blockMem)
  refine ⟨custody.holds.withPosMap _, custody.nodup, custody.areLeaves, ?_, ?_, ?_, ?_, ?_⟩
  · intro block blockMem differs
    rw [setLeaf, KeyMap.get?_set_of_ne _ _ differs]
    exact recorded block blockMem
  · intro block blockMem same
    rw [sameLeaf, ← same]
    exact (KeyMap.getD_of_get? (recorded block blockMem)).symm
  · intro key leaf present
    by_cases here : key = op'.blk
    · subst here
      rw [setLeaf, KeyMap.get?_set_self] at present
      exact Option.some_inj.mp present ▸ isLeaf
    · rw [setLeaf, KeyMap.get?_set_of_ne _ _ here] at present
      exact custody.mapLeaves key leaf present
  · intro _
    rw [setLeaf, KeyMap.get?_set_self, sameNew]
  · rw [sameLeaf]
    rcases present : oram.posMap.get? op'.blk with _ | leaf
    · rw [getLeaf, KeyMap.getD, present]
      exact invalidLeaf_lt level
    · rw [getLeaf, KeyMap.getD_of_get? present]
      exact (custody.mapLeaves _ _ present).2

/-! ## Reading -/

/-- The read of an operation checks its path out. -/
theorem Custody.applyFetchedPath (custody : oram.Custody level ∅ blocks op) {leaf : Int}
    (isLeaf : IsLeaf level leaf) :
    (oram.applyFetchedPath (oram.storage.readPath leaf)).Custody level (pathSet level [leaf]) blocks
      op :=
  ⟨custody.holds.applyFetchedPath (by simpa using isLeaf), custody.nodup, custody.areLeaves,
    custody.recorded, custody.waiting, custody.mapLeaves, custody.newRecorded, custody.bounded⟩

/-- What any read path brings to the stash was there before or is one of the blocks. -/
theorem Custody.mem_of_fetched (custody : oram.Custody level ∅ blocks op) {block : Block}
    (inStash : block ∈ (oram.applyFetchedPath (oram.storage.readPath op.leaf)).stash) :
    block ∈ blocks := by
  rw [← custody.holds.held, mem_visible_iff]
  rcases List.mem_append.mp inStash with old | fetched
  · exact Or.inl old
  · rcases List.mem_flatMap.mp fetched with ⟨entry, entryMem, inBucket⟩
    rcases List.mem_map.mp entryMem with ⟨node, nodeMem, rfl⟩
    rcases mem_mergedPathIndices.mp nodeMem with ⟨leaf, leafMem, onPath⟩
    rw [List.mem_singleton] at leafMem
    subst leafMem
    rw [custody.holds.level_eq] at onPath
    exact Or.inr ⟨node, Finset.mem_range.mpr (pathNodes_lt custody.bounded custody.holds.level_pos
      onPath), Finset.notMem_empty node, inBucket⟩

/-- Taking out the waiting block once its path is checked out, and adding it under its new leaf. -/
theorem Custody.rewrite (custody : oram.Custody level (pathSet level [op.leaf]) blocks op)
    (valid : op.blk ≠ invalidBlock) {block : Block} (blockMem : block ∈ blocks)
    (keyEq : block.key = op.blk) :
    Yields (oram.extractFromStash op.blk) (fun outcome => outcome.1 = block ∧ ∀ value,
      (outcome.2.addToStash { key := op.blk, leaf := op.newLeaf, value }).Custody level
        (pathSet level [op.leaf])
        ({ key := op.blk, leaf := op.newLeaf, value } ::ₘ blocks.erase block) {}) := by
  have inStash := custody.holds.mem_stash blockMem (fun _ mem => mem)
    (by simpa using custody.waiting block blockMem keyEq)
  rw [← keyEq]
  refine (yields_of_ends (ends_extractFromStash custody.holds custody.nodup inStash)).mono ?_
  rintro ⟨taken, oram'⟩ ⟨takenEq, erased, sameMap⟩
  refine ⟨takenEq, ?_⟩
  intro value
  have isLeaf := custody.mapLeaves _ _ (custody.newRecorded valid)
  have mapEq : (oram'.addToStash { key := block.key, leaf := op.newLeaf, value }).posMap =
      oram.posMap := sameMap
  refine ⟨erased.addToStash ?_, nodup_replace custody.nodup blockMem rfl, ?_, ?_, ?_, ?_,
    fun never => absurd rfl never, invalidLeaf_lt level⟩
  · simpa [Block.isDummy, keyEq] using valid
  · intro other otherMem
    rcases Multiset.mem_cons.mp otherMem with rfl | old
    · exact isLeaf
    · exact custody.areLeaves other (Multiset.mem_of_mem_erase old)
  · intro other otherMem _
    rw [mapEq]
    rcases Multiset.mem_cons.mp otherMem with rfl | old
    · rw [keyEq]
      exact custody.newRecorded valid
    · exact custody.recorded other (Multiset.mem_of_mem_erase old)
        (keyEq ▸ key_ne_of_mem_erase custody.nodup blockMem old)
  · intro other otherMem same
    rcases Multiset.mem_cons.mp otherMem with rfl | old
    · exact absurd (keyEq.symm.trans same) valid
    · exact absurd same (custody.key_ne (Multiset.mem_of_mem_erase old))
  · rw [mapEq]
    exact custody.mapLeaves

/-- The read of an operation with a block, up to putting the block back with any value. -/
theorem Custody.read (custody : oram.Custody level ∅ blocks op) (valid : op.blk ≠ invalidBlock) :
    Yields ((oram.applyFetchedPath (oram.storage.readPath op.leaf)).extractFromStash op.blk)
      (fun outcome => IsLeaf level op.leaf ∧ outcome.1 ∈ blocks ∧ outcome.1.key = op.blk ∧
        ∀ value, (outcome.2.addToStash { key := op.blk, leaf := op.newLeaf, value }).Custody level
          (pathSet level [op.leaf])
          ({ key := op.blk, leaf := op.newLeaf, value } ::ₘ blocks.erase outcome.1) {}) := by
  by_cases present : ∃ block ∈ blocks, block.key = op.blk
  · rcases present with ⟨block, blockMem, keyEq⟩
    have isLeaf : IsLeaf level op.leaf :=
      custody.waiting block blockMem keyEq ▸ custody.areLeaves block blockMem
    refine ((custody.applyFetchedPath isLeaf).rewrite valid blockMem keyEq).mono ?_
    rintro ⟨taken, oram'⟩ ⟨takenEq, rewritten⟩
    dsimp only at takenEq rewritten ⊢
    subst takenEq
    exact ⟨isLeaf, blockMem, keyEq, rewritten⟩
  · have absent : (oram.applyFetchedPath (oram.storage.readPath op.leaf)).stash.find?
        (fun block => block.key == op.blk) = none := by
      rw [List.find?_eq_none]
      intro block inStash same
      exact present ⟨block, custody.mem_of_fetched inStash, by simpa using same⟩
    unfold extractFromStash
    rw [absent]
    exact Prog.ends_fail trivial

/-! ## Writing back -/

/-- Evicting a checked-out path and writing it checks it in. -/
theorem Custody.evict {leaf : Int} (custody : oram.Custody level (pathSet level [leaf]) blocks op)
    (isLeaf : IsLeaf level leaf) :
    Yields (oram.prepareEviction leaf) (fun outcome =>
      (outcome.2.writePath outcome.1).Custody level ∅ blocks op) := by
  unfold prepareEviction
  dsimp only
  split
  · exact Prog.ends_fail trivial
  · exact Prog.ends_pure ⟨custody.holds.fillAndWrite (by simpa using isLeaf), custody.nodup,
      custody.areLeaves, custody.recorded, custody.waiting, custody.mapLeaves,
      custody.newRecorded, custody.bounded⟩

end PathORAM

end TieredOmap
