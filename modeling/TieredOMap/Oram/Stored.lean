import TieredOMap.Oram.Conservation
import TieredOMap.Omap.SplitOram

/-!
# What is stored in an ORAM

A block is stored if it is in the stash or can be read from some bucket. Reading paths, taking
blocks out of the stash and writing paths back store nothing new: only `add_to_stash` does. This
needs no assumption on the state of the ORAM, not even that its leaves exist.
-/

namespace TieredOmap

open BinaryTreeStorage

/-- A bucket that is written is one of those written, or what was there. -/
theorem BinaryTreeStorage.writeMultiplePaths_or (tree : BinaryTreeStorage) (buckets : PathData)
    (node : Nat) :
    (tree.writeMultiplePaths buckets).storage node = tree.storage node ∨
      ∃ entry ∈ buckets, (tree.writeMultiplePaths buckets).storage node = entry.2 := by
  unfold writeMultiplePaths
  induction buckets generalizing tree with
  | nil => exact Or.inl rfl
  | cons entry rest ih =>
      rw [List.foldl_cons]
      rcases ih (tree.setBucket entry.1 entry.2) with kept | ⟨entry', mem, written⟩
      · rw [kept]
        by_cases here : node = entry.1
        · exact Or.inr ⟨entry, List.mem_cons_self, by simp [setBucket, here]⟩
        · exact Or.inl (by simp [setBucket, here])
      · exact Or.inr ⟨entry', List.mem_cons_of_mem _ mem, written⟩

variable [Cipher]

theorem mem_of_mem_openBucket_encrypt {bucket : List Block} {block : Block}
    (mem : block ∈ openBucket (bucket.map encryptBlock)) : block ∈ bucket := by
  have opened := (List.mem_filter.mp mem).1
  simpa [decryptBlock_encryptBlock] using opened

namespace PathORAM

/-- The block is in the stash or can be read from a bucket. -/
def Stored (oram : PathORAM) (block : Block) : Prop :=
  block ∈ oram.stash ∨ ∃ node, block ∈ openBucket (oram.storage.storage node)

/-- Nothing is stored that was not stored before. -/
def NothingNew (oram oram' : PathORAM) : Prop := ∀ block, oram'.Stored block → oram.Stored block

variable {oram oram' : PathORAM}

theorem NothingNew.refl (oram : PathORAM) : NothingNew oram oram := fun _ stored => stored

theorem NothingNew.trans {oram'' : PathORAM} (first : NothingNew oram oram')
    (second : NothingNew oram' oram'') : NothingNew oram oram'' :=
  fun block stored => first block (second block stored)

theorem nothingNew_applyFetchedPath (oram : PathORAM) {path : PathData}
    (fetched : ∀ entry ∈ path, ∃ node, entry.2 = oram.storage.storage node) :
    NothingNew oram (oram.applyFetchedPath path) := by
  rintro block (inStash | inBucket)
  · rcases List.mem_append.mp inStash with before | read
    · exact Or.inl before
    · rcases List.mem_flatMap.mp read with ⟨entry, mem, opened⟩
      rcases fetched entry mem with ⟨node, bucketEq⟩
      exact Or.inr ⟨node, bucketEq ▸ opened⟩
  · exact Or.inr inBucket

theorem yields_readPathToStash (oram : PathORAM) (leaf : Int) :
    Yields (oram.readPathToStash leaf) (NothingNew oram) := by
  refine Prog.ends_bind (yields_any _) (fun _ _ => Prog.ends_pure ?_)
  refine oram.nothingNew_applyFetchedPath ?_
  intro entry mem
  rcases List.mem_map.mp mem with ⟨node, _, rfl⟩
  exact ⟨node, rfl⟩

theorem yields_extractFromStash (oram : PathORAM) (key : Int) :
    Yields (oram.extractFromStash key) (fun outcome =>
      outcome.1.key = key ∧ oram.Stored outcome.1 ∧ NothingNew oram outcome.2) := by
  unfold extractFromStash
  split
  · rename_i block found
    refine Prog.ends_pure ⟨?_, Or.inl (List.mem_of_find?_eq_some found), ?_⟩
    · simpa using List.find?_some found
    · rintro block' (inStash | inBucket)
      · exact Or.inl (List.mem_of_mem_eraseP inStash)
      · exact Or.inr inBucket
  · exact Prog.ends_fail trivial

omit [Cipher] in
theorem mem_stash_of_fillFromStash (oram : PathORAM) (leaves : List Int) :
    (∀ block ∈ (oram.fillFromStash leaves).2.stash, block ∈ oram.stash) ∧
      ∀ entry ∈ (oram.fillFromStash leaves).1, ∀ block ∈ entry.2, block ∈ oram.stash := by
  have nodup : (((mergedPathIndices oram.storage.level leaves).map
      (fun node => (node, ([] : List Block)))).map Prod.fst).Nodup := by
    rw [List.map_map]
    exact (List.map_id _).symm ▸ nodup_mergedPathIndices _ _
  have placed : PathPlaced oram.storage.level
      ((mergedPathIndices oram.storage.level leaves).map (fun node => (node, ([] : List Block)))) := by
    intro entry mem block blockMem
    rcases List.mem_map.mp mem with ⟨node, _, rfl⟩
    cases blockMem
  have moved := (fillPaths_spec oram.storage.level oram.bucketSize oram.stash nodup placed).2.2
  have empty : pathBlocks ((mergedPathIndices oram.storage.level leaves).map
      (fun node => (node, ([] : List Block)))) = 0 := by
    simp [pathBlocks]
  rw [empty, add_zero] at moved
  refine ⟨?_, ?_⟩
  · intro block mem
    have inBoth : block ∈ (↑oram.stash : Multiset Block) := by
      rw [moved]
      exact Multiset.mem_add.mpr (Or.inl mem)
    exact inBoth
  · intro entry entryMem block blockMem
    have inBoth : block ∈ (↑oram.stash : Multiset Block) := by
      rw [moved]
      exact Multiset.mem_add.mpr (Or.inr (List.mem_flatMap.mpr ⟨entry, entryMem, blockMem⟩))
    exact inBoth

theorem yields_evictStash (oram : PathORAM) (leaves : List Int) :
    Yields (oram.evictStash leaves) (NothingNew oram) := by
  rcases oram.mem_stash_of_fillFromStash leaves with ⟨stashKept, pathKept⟩
  unfold evictStash
  dsimp only
  split
  · exact Prog.ends_fail trivial
  · refine Prog.ends_bind (yields_any _) (fun _ _ => Prog.ends_pure ?_)
    rintro block (inStash | ⟨node, inBucket⟩)
    · exact Or.inl (stashKept block inStash)
    · rcases writeMultiplePaths_or (oram.fillFromStash leaves).2.storage
        (encryptPath (oram.fillFromStash leaves).1) node with kept | ⟨entry, mem, written⟩
      · exact Or.inr ⟨node, kept ▸ inBucket⟩
      · rcases List.mem_map.mp mem with ⟨entry', mem', rfl⟩
        have readBack : block ∈ openBucket (entry'.2.map encryptBlock) := by
          rw [← show _ = entry'.2.map encryptBlock from written]
          exact inBucket
        exact Or.inl (pathKept entry' mem' block (mem_of_mem_openBucket_encrypt readBack))

theorem yields_dummyAccess (oram : PathORAM) : Yields oram.dummyAccess (NothingNew oram) := by
  refine Prog.ends_bind (yields_any _) (fun leaf _ => ?_)
  refine Prog.ends_bind (oram.yields_readPathToStash leaf) (fun fetched same => ?_)
  exact (fetched.yields_evictStash [leaf]).mono (fun _ written => same.trans written)

/-- An access returns the value of a block that was stored under its key. -/
theorem yields_access (oram : PathORAM) (key : Int) (newValue : Option Bytes) :
    Yields (oram.access key newValue) (fun outcome =>
      ∃ block, oram.Stored block ∧ block.key = key ∧ outcome.1 = block.value) := by
  unfold access
  split
  · exact Prog.ends_fail trivial
  · rename_i oldLeaf _
    refine Prog.ends_bind (yields_any _) (fun newLeaf _ => ?_)
    refine Prog.ends_bind ((oram.setLeaf key newLeaf).yields_readPathToStash oldLeaf) ?_
    intro fetched same
    dsimp only
    split
    · exact Prog.ends_fail trivial
    · rename_i target found
      refine Prog.ends_bind (yields_any _) (fun written _ => Prog.ends_pure ⟨target, ?_, ?_, rfl⟩)
      · exact same target (Or.inl (List.mem_of_find?_eq_some found))
      · simpa using List.find?_some found

end PathORAM

namespace SplitOram

/-- The block is stored in a half. -/
def Stored (orams : SplitOram) (half : Half) (block : Block) : Prop := (orams.get half).Stored block

/-- Nothing is stored in a half that was not stored there before. -/
def NothingNew (orams orams' : SplitOram) : Prop :=
  ∀ half, PathORAM.NothingNew (orams.get half) (orams'.get half)

variable {orams orams' : SplitOram}

theorem NothingNew.refl (orams : SplitOram) : NothingNew orams orams :=
  fun half => PathORAM.NothingNew.refl (orams.get half)

theorem NothingNew.trans {orams'' : SplitOram} (first : NothingNew orams orams')
    (second : NothingNew orams' orams'') : NothingNew orams orams'' :=
  fun half => (first half).trans (second half)

theorem nothingNew_set {half : Half} {oram : PathORAM}
    (same : PathORAM.NothingNew (orams.get half) oram) :
    NothingNew orams (orams.set half oram) := by
  intro half'
  cases half <;> cases half'
  · exact same
  · exact PathORAM.NothingNew.refl _
  · exact PathORAM.NothingNew.refl _
  · exact same

theorem yields_dummyAccess (orams : SplitOram) (half : Half) :
    Yields (orams.dummyAccess half) (NothingNew orams) :=
  Prog.ends_bind (PathORAM.yields_dummyAccess _)
    (fun _ same => Prog.ends_pure (nothingNew_set same))

end SplitOram

end TieredOmap
