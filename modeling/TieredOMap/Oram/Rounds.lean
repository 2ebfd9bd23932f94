import TieredOMap.Oram.DataArray

/-!
# Rounds of a Path ORAM client

Besides whole accesses, a client works in rounds: it reads the union of several
paths to the stash, edits the stash, and evicts along the same paths. `Reached`
is every state that rounds and accesses lead to, together with the values the
live keys then have; in all of them each live key occurs once, every block in
the tree is on its own path and no bucket is too long.
-/

namespace TieredOmap

open BinaryTreeStorage Bucketed

/-! ## The bucket bound -/

namespace BinaryTreeStorage

/-- No bucket is longer than `size`. -/
def Bounded (tree : BinaryTreeStorage) (size : Int) : Prop :=
  ∀ node, (tree.storage node).length ≤ size.toNat

/-- No bucket of a path is longer than `size`. -/
def PathBounded (path : PathData) (size : Int) : Prop :=
  ∀ entry ∈ path, entry.2.length ≤ size.toNat

theorem Bounded.setBucket {tree : BinaryTreeStorage} {size : Int} (bounded : tree.Bounded size)
    {node : Nat} {bucket : List Block} (short : bucket.length ≤ size.toNat) :
    (tree.setBucket node bucket).Bounded size := by
  intro node'
  by_cases here : node' = node
  · simpa [BinaryTreeStorage.setBucket, here] using short
  · simpa [BinaryTreeStorage.setBucket, here] using bounded node'

theorem Bounded.fillDataToLeaf {tree : BinaryTreeStorage} (bounded : tree.Bounded tree.bucketSize)
    (block : Block) : (tree.fillDataToLeaf block).Bounded tree.bucketSize := by
  unfold BinaryTreeStorage.fillDataToLeaf
  split
  · rename_i node found
    have room := List.find?_some found
    refine bounded.setBucket ?_
    simp only [decide_eq_true_eq] at room
    simp only [List.length_append, List.length_singleton]
    omega
  · exact bounded

theorem Bounded.bulkLoad {tree : BinaryTreeStorage} (bounded : tree.Bounded tree.bucketSize)
    (blocks : List Block) : (tree.bulkLoad blocks).2.Bounded tree.bucketSize := by
  unfold BinaryTreeStorage.bulkLoad
  dsimp only
  induction blocks generalizing tree with
  | nil => exact bounded
  | cons block rest ih =>
      rw [List.foldl_cons]
      have sameSize := (PathORAM.fillDataToLeaf_keeps tree block).2.1
      have filled := bounded.fillDataToLeaf block
      rw [← sameSize] at filled ⊢
      exact ih filled

theorem Bounded.writeMultiplePaths {tree : BinaryTreeStorage} {size : Int}
    (bounded : tree.Bounded size) {path : PathData} (short : PathBounded path size) :
    (tree.writeMultiplePaths path).Bounded size := by
  unfold BinaryTreeStorage.writeMultiplePaths
  induction path generalizing tree with
  | nil => exact bounded
  | cons entry rest ih =>
      rw [List.foldl_cons]
      exact ih (bounded.setBucket (short entry List.mem_cons_self))
        (fun entry' entryMem => short entry' (List.mem_cons_of_mem _ entryMem))

/-- The bucket of a node in a path without repetitions. -/
theorem bucketAt_of_mem {path : PathData} (nodup : (path.map Prod.fst).Nodup)
    {entry : Nat × List Block} (entryMem : entry ∈ path) : bucketAt path entry.1 = entry.2 := by
  induction path with
  | nil => cases entryMem
  | cons head rest ih =>
      simp only [List.map_cons, List.nodup_cons] at nodup
      rcases List.mem_cons.mp entryMem with rfl | inRest
      · simp [bucketAt]
      · have differs : head.1 ≠ entry.1 :=
          fun same => nodup.1 (same ▸ List.mem_map_of_mem (f := Prod.fst) inRest)
        have later := ih nodup.2 inRest
        unfold bucketAt at later ⊢
        rwa [List.find?_cons_of_neg (by simpa using differs)]

theorem PathBounded.fillBlockToPath {path path' : PathData} {bucketSize : Int}
    (short : PathBounded path bucketSize) (nodup : (path.map Prod.fst).Nodup) {block : Block}
    {level : Nat} (filled : fillBlockToPath block path level bucketSize = some path') :
    PathBounded path' bucketSize ∧ path'.map Prod.fst = path.map Prod.fst := by
  unfold BinaryTreeStorage.fillBlockToPath at filled
  split at filled
  · rename_i node found
    have room := List.find?_some found
    simp only [Bool.and_eq_true, decide_eq_true_eq] at room
    obtain rfl : pushAt path node block = path' := by simpa using filled
    refine ⟨?_, PathORAM.map_fst_pushAt path node block⟩
    intro entry entryMem
    rcases List.mem_map.mp entryMem with ⟨entry', entryMem', rfl⟩
    by_cases here : entry'.1 = node
    · have bucketEq := bucketAt_of_mem nodup entryMem'
      rw [here] at bucketEq
      rw [bucketEq] at room
      simp only [here, if_true, List.length_append, List.length_singleton]
      omega
    · simpa [here] using short entry' entryMem'
  · cases filled

theorem PathBounded.fillPaths {path : PathData} {bucketSize : Int}
    (short : PathBounded path bucketSize) (nodup : (path.map Prod.fst).Nodup) (level : Nat)
    (stash : List Block) :
    PathBounded (TieredOmap.fillPaths level bucketSize stash path).1 bucketSize := by
  induction stash generalizing path with
  | nil => exact short
  | cons block rest ih =>
      unfold TieredOmap.fillPaths
      split
      · rename_i path' filled
        rcases short.fillBlockToPath nodup filled with ⟨short', sameNodes⟩
        exact ih short' (sameNodes ▸ nodup)
      · exact ih short nodup

end BinaryTreeStorage

namespace PathORAM

variable [Cipher]

/-! ## Editing the stash -/

/-- What a client does to the stash between the read and the eviction of a round. -/
inductive StashEdit where
  /-- Overwrite the value of a block in the stash. -/
  | update (key : Int) (value : Bytes)
  /-- Give a block in the stash a new leaf. -/
  | relabel (key leaf : Int)
  /-- `set_leaf`. -/
  | assign (key leaf : Int)
  /-- `extract_from_stash`. -/
  | extract (key : Int)
  /-- `add_to_stash`. -/
  | add (block : Block)
deriving DecidableEq, Repr

omit [Cipher] in
/-- The ORAM after an edit. -/
def applyEdit (oram : PathORAM) : StashEdit → Rand PathORAM
  | .update key value => return oram.updateInStash key (fun block => { block with value })
  | .relabel key leaf => return oram.updateInStash key (fun block => { block with leaf })
  | .assign key leaf => return oram.setLeaf key leaf
  | .extract key => do
      let (_, oram) ← oram.extractFromStash key
      return oram
  | .add block => return oram.addToStash block

/-- The live keys and their values after an edit. -/
def editContents (oram : PathORAM) (contents : Int → Option Bytes) :
    StashEdit → Int → Option Bytes
  | .update key value =>
      if (oram.findInStash key).isSome then Function.update contents key (some value) else contents
  | .relabel _ _ => contents
  | .assign _ _ => contents
  | .extract key => Function.update contents key none
  | .add block => Function.update contents block.key (some block.value)

/-- Recorded leaves are leaves of the tree, and a block that is added is real and new. -/
def StashEdit.Allowed (level : Nat) (contents : Int → Option Bytes) : StashEdit → Prop
  | .assign _ leaf => IsLeaf level leaf
  | .add block => block.isDummy = false ∧ contents block.key = none
  | _ => True

/-- A sequence of allowed edits. -/
inductive Edited (level : Nat) :
    PathORAM → (Int → Option Bytes) → PathORAM → (Int → Option Bytes) → Prop
  | done {oram : PathORAM} {contents : Int → Option Bytes} :
      Edited level oram contents oram contents
  | step {oram oram' oram'' : PathORAM} {contents contents'' : Int → Option Bytes}
      {world world' : World} (edit : StashEdit) (allowed : edit.Allowed level contents)
      (run : (oram.applyEdit edit).runFrom world = (.ok oram', world'))
      (rest : Edited level oram' (oram.editContents contents edit) oram'' contents'') :
      Edited level oram contents oram'' contents''

/-! ## Reachable states -/

/-- The states that rounds and accesses lead to, with the values of the live keys. -/
inductive Reached (numData bucketSize stashScale : Int) (data : KeyMap Int Bytes) :
    PathORAM → (Int → Option Bytes) → Prop
  | init {oram : PathORAM} {world world' : World}
      (run : (do let oram ← PathORAM.new numData bucketSize stashScale; oram.init data).runFrom
        world = (.ok oram, world')) :
      Reached numData bucketSize stashScale data oram data.get?
  | round {oram fetched edited evicted : PathORAM} {contents contents' : Int → Option Bytes}
      {leaves : List Int} {world₁ world₂ world₃ world₄ : World}
      (reached : Reached numData bucketSize stashScale data oram contents)
      (areLeaves : ∀ leaf ∈ leaves, IsLeaf oram.storage.level leaf)
      (read : (oram.readMultiplePathsToStash leaves).runFrom world₁ = (.ok fetched, world₂))
      (edits : Edited oram.storage.level fetched contents edited contents')
      (evict : (edited.evictStash leaves).runFrom world₃ = (.ok evicted, world₄)) :
      Reached numData bucketSize stashScale data evicted contents'
  | access {oram oram' : PathORAM} {contents : Int → Option Bytes} {key : Int}
      {newValue : Option Bytes} {value : Bytes} {world world' : World}
      (reached : Reached numData bucketSize stashScale data oram contents)
      (run : (oram.access key newValue).runFrom world = (.ok (value, oram'), world')) :
      Reached numData bucketSize stashScale data oram'
        (Function.update contents key (some (newValue.getD value)))
  | dummyAccess {oram oram' : PathORAM} {contents : Int → Option Bytes} {world world' : World}
      (reached : Reached numData bucketSize stashScale data oram contents)
      (run : oram.dummyAccess.runFrom world = (.ok oram', world')) :
      Reached numData bucketSize stashScale data oram' contents

/-- The real blocks in the stash and in the server tree, decrypted. -/
def liveBlocks (oram : PathORAM) : Multiset Block :=
  ↑oram.stash + ∑ node ∈ Finset.range (totalNodes oram.storage.level), oram.bucketBlocks node

/--
Every live key occurs once, with its value; a block in the tree is on the path
of its own leaf; no bucket is longer than the bucket size.
-/
structure WellKept (oram : PathORAM) (contents : Int → Option Bytes) : Prop where
  once : (oram.liveBlocks.map Block.key).Nodup
  values : Contains oram.liveBlocks contents
  onPath : ∀ node < totalNodes oram.storage.level, ∀ block ∈ oram.bucketBlocks node,
    node ∈ pathNodes oram.storage.level block.leaf
  bounded : oram.storage.Bounded oram.bucketSize

/-! ## The invariant -/

variable {oram : PathORAM} {level : Nat} {out : Finset Nat} {blocks : Multiset Block}
  {contents : Int → Option Bytes}

/-- The ORAM keeps `contents` with the nodes of `out` checked out. -/
structure Kept (oram : PathORAM) (level : Nat) (out : Finset Nat)
    (contents : Int → Option Bytes) : Prop where
  holding : ∃ blocks, oram.Holds level out blocks ∧ (blocks.map Block.key).Nodup ∧
    Contains blocks contents
  mapLeaves : ∀ key leaf, oram.posMap.get? key = some leaf → IsLeaf level leaf
  bounded : oram.storage.Bounded oram.bucketSize

theorem Kept.wellKept (kept : oram.Kept level ∅ contents) : oram.WellKept contents := by
  rcases kept.holding with ⟨blocks, holds, nodup, contains⟩
  have liveEq : oram.liveBlocks = blocks := by
    rw [← holds.held, visible, Finset.sdiff_empty, liveBlocks, holds.level_eq]
  refine ⟨liveEq ▸ nodup, liveEq ▸ contains, ?_, kept.bounded⟩
  intro node nodeLt block blockMem
  rw [holds.level_eq] at nodeLt ⊢
  exact List.mem_toFinset.mp (holds.placed node (Finset.mem_range.mpr nodeLt) block blockMem)

omit [Cipher] in
/-- The block that `find_in_stash` points at and the rest of the stash. -/
theorem coe_stash_of_found {block : Block} {key : Int} (found : oram.findInStash key = some block) :
    (↑oram.stash : Multiset Block) =
      block ::ₘ ↑(oram.stash.eraseP (fun block => block.key == key)) := by
  have unchanged : modifyFirst (fun block : Block => block.key == key) id oram.stash = oram.stash := by
    induction oram.stash with
    | nil => rfl
    | cons head rest ih => simp [modifyFirst, ih]
  have split := coe_modifyFirst found id
  rwa [unchanged] at split

theorem Holds.mem_of_found (holds : oram.Holds level out blocks) {block : Block} {key : Int}
    (found : oram.findInStash key = some block) : block ∈ blocks ∧ block.key = key :=
  ⟨Multiset.mem_of_le holds.stash_le (Multiset.mem_coe.mpr (List.mem_of_find?_eq_some found)),
    by simpa using List.find?_some found⟩

/-- Changing a block of the stash. -/
theorem Holds.updateInStash (holds : oram.Holds level out blocks) {block : Block} {key : Int}
    (found : oram.findInStash key = some block) {f : Block → Block}
    (sameKey : (f block).key = block.key) :
    (oram.updateInStash key f).Holds level out (f block ::ₘ blocks.erase block) := by
  have split := coe_stash_of_found found
  have rest : blocks.erase block = ↑(oram.stash.eraseP (fun block => block.key == key)) +
      ∑ node ∈ Finset.range (totalNodes level) \ out, oram.bucketBlocks node := by
    rw [← holds.held, visible, split, Multiset.cons_add, Multiset.erase_cons_head]
  refine ⟨holds.level_eq, holds.level_pos, ?_, holds.placed, ?_⟩
  · rw [rest, ← Multiset.cons_add, ← coe_modifyFirst found f]
    rfl
  · intro other otherMem
    rcases Multiset.mem_cons.mp otherMem with rfl | old
    · rw [Block.isDummy, sameKey]
      exact holds.real block (holds.mem_of_found found).1
    · exact holds.real other (Multiset.mem_of_mem_erase old)

omit [Cipher] in
/-- Without a block to change the ORAM stays as it is. -/
theorem updateInStash_of_not_found {key : Int} (absent : oram.findInStash key = none)
    (f : Block → Block) : oram.updateInStash key f = oram := by
  have unchanged : ∀ stash : List Block, stash.find? (fun block => block.key == key) = none →
      modifyFirst (fun block : Block => block.key == key) f stash = stash := by
    intro stash none
    induction stash with
    | nil => rfl
    | cons head rest ih =>
        rw [List.find?_cons] at none
        split at none
        · cases none
        · rename_i differs
          simp [modifyFirst, differs, ih none]
  rw [PathORAM.updateInStash, unchanged _ absent]

omit [Cipher] in
/-- A new block. -/
theorem Contains.insert {block : Block} (contains : Contains blocks contents)
    (fresh : contents block.key = none) :
    Contains (block ::ₘ blocks) (Function.update contents block.key (some block.value)) := by
  intro key value
  by_cases here : key = block.key
  · subst here
    rw [Function.update_self, Option.some_inj]
    constructor
    · rintro rfl
      exact ⟨block, Multiset.mem_cons_self _ _, rfl, rfl⟩
    · rintro ⟨other, otherMem, sameKey, rfl⟩
      rcases Multiset.mem_cons.mp otherMem with rfl | old
      · rfl
      · have present := contains.of_mem old
        rw [sameKey, fresh] at present
        cases present
  · rw [Function.update_of_ne here, contains key value]
    constructor
    · rintro ⟨other, otherMem, sameKey, sameValue⟩
      exact ⟨other, Multiset.mem_cons_of_mem otherMem, sameKey, sameValue⟩
    · rintro ⟨other, otherMem, sameKey, sameValue⟩
      rcases Multiset.mem_cons.mp otherMem with rfl | old
      · exact absurd sameKey.symm here
      · exact ⟨other, old, sameKey, sameValue⟩

omit [Cipher] in
/-- A block taken out. -/
theorem Contains.erase {block : Block} (contains : Contains blocks contents)
    (nodup : (blocks.map Block.key).Nodup) (blockMem : block ∈ blocks) :
    Contains (blocks.erase block) (Function.update contents block.key none) := by
  intro key value
  by_cases here : key = block.key
  · subst here
    rw [Function.update_self]
    constructor
    · intro never
      cases never
    · rintro ⟨other, otherMem, sameKey, _⟩
      exact absurd sameKey (key_ne_of_mem_erase nodup blockMem otherMem)
  · rw [Function.update_of_ne here, contains key value]
    constructor
    · rintro ⟨other, otherMem, rfl, sameValue⟩
      have differs : other ≠ block := fun same => here (same ▸ rfl)
      exact ⟨other, (Multiset.mem_erase_of_ne differs).mpr otherMem, rfl, sameValue⟩
    · rintro ⟨other, otherMem, sameKey, sameValue⟩
      exact ⟨other, Multiset.mem_of_mem_erase otherMem, sameKey, sameValue⟩

/-- A block of the stash gets a new value and a new leaf. -/
theorem Kept.updateInStash (kept : oram.Kept level out contents) {block : Block} {key : Int}
    (found : oram.findInStash key = some block) {f : Block → Block}
    (sameKey : (f block).key = block.key) :
    (oram.updateInStash key f).Kept level out
      (Function.update contents key (some (f block).value)) := by
  rcases kept.holding with ⟨blocks, holds, nodup, contains⟩
  rcases holds.mem_of_found found with ⟨blockMem, rfl⟩
  exact ⟨⟨_, holds.updateInStash found sameKey, nodup_replace nodup blockMem sameKey,
    contains.replace nodup blockMem sameKey⟩, kept.mapLeaves, kept.bounded⟩

theorem Kept.value_of_found (kept : oram.Kept level out contents) {block : Block} {key : Int}
    (found : oram.findInStash key = some block) : contents key = some block.value := by
  rcases kept.holding with ⟨blocks, holds, nodup, contains⟩
  rcases holds.mem_of_found found with ⟨blockMem, rfl⟩
  exact contains.of_mem blockMem

theorem Kept.setLeaf (kept : oram.Kept level out contents) {leaf : Int} (isLeaf : IsLeaf level leaf)
    (key : Int) : (oram.setLeaf key leaf).Kept level out contents := by
  rcases kept.holding with ⟨blocks, holds, nodup, contains⟩
  refine ⟨⟨blocks, holds.withPosMap _, nodup, contains⟩, ?_, kept.bounded⟩
  intro key' leaf' recorded
  by_cases here : key' = key
  · subst here
    rw [PathORAM.setLeaf, KeyMap.get?_set_self] at recorded
    exact Option.some_inj.mp recorded ▸ isLeaf
  · rw [PathORAM.setLeaf, KeyMap.get?_set_of_ne _ _ here] at recorded
    exact kept.mapLeaves key' leaf' recorded

theorem Kept.addToStash (kept : oram.Kept level out contents) {block : Block}
    (real : block.isDummy = false) (fresh : contents block.key = none) :
    (oram.addToStash block).Kept level out
      (Function.update contents block.key (some block.value)) := by
  rcases kept.holding with ⟨blocks, holds, nodup, contains⟩
  refine ⟨⟨_, holds.addToStash real, ?_, contains.insert fresh⟩, kept.mapLeaves, kept.bounded⟩
  rw [Multiset.map_cons, Multiset.nodup_cons]
  refine ⟨?_, nodup⟩
  intro present
  rcases Multiset.mem_map.mp present with ⟨other, otherMem, sameKey⟩
  have isLive := contains.of_mem otherMem
  rw [sameKey, fresh] at isLive
  cases isLive

theorem Kept.yields_extractFromStash (kept : oram.Kept level out contents) (key : Int) :
    Yields (oram.extractFromStash key) (fun outcome =>
      contents key = some outcome.1.value ∧
        outcome.2.Kept level out (Function.update contents key none)) := by
  rcases found : oram.findInStash key with _ | block
  · unfold PathORAM.extractFromStash
    rw [show oram.stash.find? (fun block => block.key == key) = none from found]
    exact Prog.ends_fail trivial
  · rcases kept.holding with ⟨blocks, holds, nodup, contains⟩
    rcases holds.mem_of_found found with ⟨blockMem, rfl⟩
    have inStash : block ∈ oram.stash := List.mem_of_find?_eq_some found
    have storageEq : Yields (oram.extractFromStash block.key) (fun outcome =>
        outcome.2.storage = oram.storage ∧ outcome.2.bucketSize = oram.bucketSize) := by
      unfold PathORAM.extractFromStash
      split
      · exact Prog.ends_pure ⟨rfl, rfl⟩
      · exact Prog.ends_fail trivial
    intro world _
    rcases run : (oram.extractFromStash block.key).runFrom world with ⟨_ | ⟨taken, oram'⟩, _⟩
    · trivial
    · rcases (ends_extractFromStash holds nodup inStash).returned run with ⟨rfl, erased, sameMap⟩
      rcases storageEq.returned run with ⟨sameStorage, sameSize⟩
      dsimp only at erased sameMap sameStorage sameSize
      have nodup' : ((blocks.erase taken).map Block.key).Nodup :=
        Multiset.nodup_of_le (Multiset.map_le_map (Multiset.erase_le _ _)) nodup
      refine ⟨contains.of_mem blockMem, ⟨_, erased, nodup', contains.erase nodup blockMem⟩, ?_, ?_⟩
      · rw [sameMap]
        exact kept.mapLeaves
      · rw [sameStorage, sameSize]
        exact kept.bounded

/-- An allowed edit keeps what the ORAM holds. -/
theorem Kept.yields_applyEdit (kept : oram.Kept level out contents) {edit : StashEdit}
    (allowed : edit.Allowed level contents) :
    Yields (oram.applyEdit edit) (fun oram' =>
      oram'.Kept level out (oram.editContents contents edit)) := by
  cases edit with
  | update key value =>
      refine Prog.ends_pure ?_
      rcases found : oram.findInStash key with _ | block
      · rw [updateInStash_of_not_found found]
        simpa [editContents, found] using kept
      · simpa [editContents, found] using kept.updateInStash found rfl
  | relabel key leaf =>
      refine Prog.ends_pure ?_
      rcases found : oram.findInStash key with _ | block
      · rw [updateInStash_of_not_found found]
        exact kept
      · have relabelled : (oram.updateInStash key (fun block => { block with leaf })).Kept level out
            (Function.update contents key (some block.value)) := kept.updateInStash found rfl
        rwa [← kept.value_of_found found, Function.update_eq_self] at relabelled
  | assign key leaf => exact Prog.ends_pure (kept.setLeaf allowed key)
  | extract key =>
      refine Prog.ends_bind (kept.yields_extractFromStash key) ?_
      rintro ⟨_, oram'⟩ ⟨_, kept'⟩
      exact Prog.ends_pure kept'
  | add block => exact Prog.ends_pure (kept.addToStash allowed.1 allowed.2)

theorem Edited.kept {oram' : PathORAM} {contents' : Int → Option Bytes}
    (edited : Edited level oram contents oram' contents') (kept : oram.Kept level out contents) :
    oram'.Kept level out contents' := by
  induction edited with
  | done => exact kept
  | step edit allowed run _ ih => exact ih ((kept.yields_applyEdit allowed).returned run)

/-! ## Reading and evicting -/

theorem Kept.applyFetchedPath (kept : oram.Kept level ∅ contents) {leaves : List Int}
    (areLeaves : ∀ leaf ∈ leaves, IsLeaf level leaf) :
    (oram.applyFetchedPath (oram.storage.readMultiplePaths leaves)).Kept level
      (pathSet level leaves) contents := by
  rcases kept.holding with ⟨blocks, holds, nodup, contains⟩
  exact ⟨⟨blocks, holds.applyFetchedPath areLeaves, nodup, contains⟩, kept.mapLeaves, kept.bounded⟩

omit [Cipher] in
theorem pathBounded_fillFromStash (oram : PathORAM) (leaves : List Int) :
    PathBounded (oram.fillFromStash leaves).1 oram.bucketSize := by
  have freshNodes : ((mergedPathIndices oram.storage.level leaves).map
      (fun node => (node, ([] : List Block)))).map Prod.fst =
        mergedPathIndices oram.storage.level leaves := by
    simp [Function.comp_def]
  have freshShort : PathBounded ((mergedPathIndices oram.storage.level leaves).map
      (fun node => (node, ([] : List Block)))) oram.bucketSize := by
    intro entry entryMem
    rcases List.mem_map.mp entryMem with ⟨node, _, rfl⟩
    simp
  have freshNodup := nodup_mergedPathIndices oram.storage.level leaves
  rw [← freshNodes] at freshNodup
  exact freshShort.fillPaths freshNodup oram.storage.level oram.stash

theorem pathBounded_encryptPath {path : PathData} {size : Int} (short : PathBounded path size) :
    PathBounded (encryptPath path) size := by
  intro entry entryMem
  rcases List.mem_map.mp entryMem with ⟨filledEntry, filledMem, rfl⟩
  simpa using short filledEntry filledMem

/-- Evicting along the paths that were read checks them in. -/
theorem Kept.yields_evictStash {leaves : List Int}
    (kept : oram.Kept level (pathSet level leaves) contents)
    (areLeaves : ∀ leaf ∈ leaves, IsLeaf level leaf) :
    Yields (oram.evictStash leaves) (fun oram' => oram'.Kept level ∅ contents) := by
  rcases kept.holding with ⟨blocks, holds, nodup, contains⟩
  unfold evictStash
  dsimp only
  split
  · exact Prog.ends_fail trivial
  · refine Prog.ends_bind (yields_any _) ?_
    intro _ _
    exact Prog.ends_pure ⟨⟨blocks, holds.fillAndWrite areLeaves, nodup, contains⟩, kept.mapLeaves,
      kept.bounded.writeMultiplePaths (pathBounded_encryptPath (pathBounded_fillFromStash oram leaves))⟩

theorem Kept.yields_readPathToStash (kept : oram.Kept level ∅ contents) {leaf : Int}
    (isLeaf : IsLeaf level leaf) :
    Yields (oram.readPathToStash leaf) (fun oram' =>
      oram'.Kept level (pathSet level [leaf]) contents) := by
  refine Prog.ends_bind (yields_any _) ?_
  intro _ _
  exact Prog.ends_pure (kept.applyFetchedPath (by simpa using isLeaf))

theorem Kept.level_eq (kept : oram.Kept level out contents) : oram.storage.level = level := by
  rcases kept.holding with ⟨_, holds, _, _⟩
  exact holds.level_eq

/-- `access` returns the live value and replaces it. -/
theorem Kept.yields_access (kept : oram.Kept level ∅ contents) (key : Int)
    (newValue : Option Bytes) :
    Yields (oram.access key newValue) (fun outcome => contents key = some outcome.1 ∧
      outcome.2.Kept level ∅
        (Function.update contents key (some (newValue.getD outcome.1)))) := by
  unfold PathORAM.access
  split
  · exact Prog.ends_fail trivial
  · rename_i oldLeaf recorded
    have oldIsLeaf := kept.mapLeaves key oldLeaf recorded
    refine Prog.ends_bind (yields_randomLeaf oram) ?_
    intro newLeaf newIsLeaf
    rw [kept.level_eq] at newIsLeaf
    refine Prog.ends_bind ((kept.setLeaf newIsLeaf key).yields_readPathToStash oldIsLeaf) ?_
    intro fetched fetchedKept
    split
    · exact Prog.ends_fail trivial
    · rename_i target found
      refine Prog.ends_bind ((fetchedKept.updateInStash (f := fun block =>
        { block with value := newValue.getD block.value, leaf := newLeaf }) found
          rfl).yields_evictStash (by simpa using oldIsLeaf)) ?_
      intro evicted evictedKept
      exact Prog.ends_pure ⟨fetchedKept.value_of_found found, evictedKept⟩

theorem Kept.yields_dummyAccess (kept : oram.Kept level ∅ contents) :
    Yields oram.dummyAccess (fun oram' => oram'.Kept level ∅ contents) := by
  refine Prog.ends_bind (yields_randomLeaf oram) ?_
  intro leaf isLeaf
  rw [kept.level_eq] at isLeaf
  refine Prog.ends_bind (kept.yields_readPathToStash isLeaf) ?_
  intro fetched fetchedKept
  exact fetchedKept.yields_evictStash (by simpa using isLeaf)

/-! ## Runs -/

/-- An unused ORAM initialised with `data` keeps it. -/
theorem Unused.yields_init_kept (unused : oram.Unused) {data : KeyMap Int Bytes}
    (realKeys : ∀ key ∈ data.keys, key ≠ invalidKey) :
    Yields (oram.init data) (fun oram' => oram'.Kept oram'.storage.level ∅ data.get?) := by
  have noLeaves : ∀ key leaf, oram.posMap.get? key = some leaf →
      IsLeaf oram.storage.level leaf := by
    simp [unused.noLeaves]
  have realEntries : ∀ entry ∈ data.entries, entry.1 ≠ invalidKey :=
    fun entry entryMem => realKeys entry.1 (List.mem_map_of_mem entryMem)
  have bounded : Yields (oram.init data) (fun oram' => oram'.storage.Bounded oram'.bucketSize) := by
    refine Prog.ends_bind (yields_of_ends
      (ends_assignLeaves { oram with stash := [] } data.entries rfl noLeaves)) ?_
    rintro assigned _
    refine Prog.ends_pure ?_
    have emptied : (assigned.storage.reset assigned.numData assigned.bucketSize).Bounded
        (assigned.storage.reset assigned.numData assigned.bucketSize).bucketSize := by
      intro node
      simp [reset, BinaryTreeStorage.new]
    exact emptied.bulkLoad _
  intro world _
  rcases run : (oram.init data).runFrom world with ⟨_ | oram', _⟩
  · trivial
  · rcases (yields_of_ends (PathORAM.ends_init unused.sized noLeaves realEntries)).returned run with
      ⟨blocks, tracked, sameEntries, _⟩
    dsimp only
    rw [tracked.holds.level_eq]
    refine ⟨⟨blocks, tracked.holds, tracked.nodup, ?_⟩,
      (yields_init_leaves data rfl noLeaves).returned run, bounded.returned run⟩
    intro key value
    rw [KeyMap.get?_eq_some_iff, ← Multiset.mem_coe, ← sameEntries]
    simp [Multiset.mem_map]

theorem Kept.yields_readMultiplePathsToStash (kept : oram.Kept level ∅ contents)
    {leaves : List Int} (areLeaves : ∀ leaf ∈ leaves, IsLeaf level leaf) :
    Yields (oram.readMultiplePathsToStash leaves) (fun oram' =>
      oram'.Kept level (pathSet level leaves) contents) := by
  refine Prog.ends_bind (yields_any _) ?_
  intro _ _
  exact Prog.ends_pure (kept.applyFetchedPath areLeaves)

variable {numData bucketSize stashScale : Int} {data : KeyMap Int Bytes}

theorem yields_new_init (realKeys : ∀ key ∈ data.keys, key ≠ invalidKey) :
    Yields (do let oram ← PathORAM.new numData bucketSize stashScale; oram.init data)
      (fun oram => oram.Kept oram.storage.level ∅ data.get?) := by
  refine Prog.ends_bind (yields_of_ends (ends_new numData bucketSize stashScale)) ?_
  intro oram unused
  exact unused.yields_init_kept realKeys

theorem Reached.kept (realKeys : ∀ key ∈ data.keys, key ≠ invalidKey)
    (reached : Reached numData bucketSize stashScale data oram contents) :
    oram.Kept oram.storage.level ∅ contents := by
  induction reached with
  | init run => exact (yields_new_init realKeys).returned run
  | round _ areLeaves read edits evict ih =>
      have fetched := (ih.yields_readMultiplePathsToStash areLeaves).returned read
      have evicted := ((edits.kept fetched).yields_evictStash areLeaves).returned evict
      rwa [evicted.level_eq]
  | access _ run ih =>
      have accessed := ((ih.yields_access _ _).returned run).2
      rwa [accessed.level_eq]
  | dummyAccess _ run ih =>
      have accessed := ih.yields_dummyAccess.returned run
      rwa [accessed.level_eq]

/-- An access to the array of blocks. -/
inductive ArrayOp where
  | access (key : Int) (newValue : Option Bytes)
  | dummyAccess
deriving DecidableEq, Repr

/-- Run accesses in order; the values they return. -/
def runOps (oram : PathORAM) : List ArrayOp → Rand (List Bytes × PathORAM)
  | [] => return ([], oram)
  | .access key newValue :: rest => do
      let (value, oram) ← oram.access key newValue
      let (values, oram) ← runOps oram rest
      return (value :: values, oram)
  | .dummyAccess :: rest => do
      let oram ← oram.dummyAccess
      runOps oram rest

/-- What the accesses return in an array of values. -/
def arrayValues (contents : Int → Option Bytes) : List ArrayOp → List Bytes
  | [] => []
  | .access key newValue :: rest =>
      (contents key).getD [] :: arrayValues
        (Function.update contents key (some (newValue.getD ((contents key).getD [])))) rest
  | .dummyAccess :: rest => arrayValues contents rest

/-- The operation accesses a live key, if any. -/
def ArrayOp.Live (keys : List Int) : ArrayOp → Prop
  | .access key _ => key ∈ keys
  | .dummyAccess => True

instance (keys : List Int) : (op : ArrayOp) → Decidable (op.Live keys)
  | .access key _ => inferInstanceAs (Decidable (key ∈ keys))
  | .dummyAccess => inferInstanceAs (Decidable True)

/-- A run of accesses to live keys throws nothing and returns the values of an array. -/
theorem IsArray.ends_runOps {ops : List ArrayOp} (isArray : oram.IsArray contents)
    {keys : List Int} (present : ∀ key ∈ keys, (contents key).isSome)
    (live : ∀ op ∈ ops, op.Live keys) :
    Ends (oram.runOps ops) (fun outcome => outcome.1 = arrayValues contents ops) := by
  induction ops generalizing oram contents with
  | nil => exact Prog.ends_pure rfl
  | cons op rest ih =>
      have restLive : ∀ op ∈ rest, op.Live keys :=
        fun op opMem => live op (List.mem_cons_of_mem _ opMem)
      cases op with
      | access key newValue =>
          have keyMem : key ∈ keys := live _ List.mem_cons_self
          rcases Option.isSome_iff_exists.mp (present key keyMem) with ⟨value, valueEq⟩
          refine Prog.ends_bind (isArray.ends_access valueEq newValue) ?_
          rintro ⟨result, oram'⟩ ⟨rfl, isArray'⟩
          have present' : ∀ key' ∈ keys, (Function.update contents key
              (some (newValue.getD result)) key').isSome := by
            intro key' keyMem'
            by_cases here : key' = key
            · simp [here]
            · rw [Function.update_of_ne here]
              exact present key' keyMem'
          refine Prog.ends_bind (ih isArray' present' restLive) ?_
          rintro ⟨values, oram''⟩ valuesEq
          refine Prog.ends_pure ?_
          dsimp only at valuesEq ⊢
          simp [arrayValues, valueEq, valuesEq]
      | dummyAccess =>
          refine Prog.ends_bind isArray.ends_dummyAccess ?_
          intro oram' isArray'
          exact ih isArray' present restLive

/--
In every state that rounds and accesses lead to, each live key occurs exactly
once in stash plus tree, every block in the tree is on its own path, no bucket
is too long, and an access returns the live value. From `init`, accesses to the
loaded keys throw nothing but a stash overflow and return what was last written.
-/
theorem conserves_blocks (numData bucketSize stashScale : Int) (data : KeyMap Int Bytes)
    (realKeys : ∀ key ∈ data.keys, key ≠ invalidKey) :
    (∀ oram contents, Reached numData bucketSize stashScale data oram contents →
      oram.WellKept contents ∧ ∀ key newValue world value oram' world',
        (oram.access key newValue).runFrom world = (.ok (value, oram'), world') →
          contents key = some value) ∧
    ∀ ops : List ArrayOp, (∀ op ∈ ops, op.Live data.keys) →
      Ends (do
        let oram ← PathORAM.new numData bucketSize stashScale
        let oram ← oram.init data
        oram.runOps ops) (fun outcome => outcome.1 = arrayValues data.get? ops) := by
  constructor
  · intro oram contents reached
    have kept := reached.kept realKeys
    exact ⟨kept.wellKept, fun key newValue world value oram' world' run =>
      ((kept.yields_access key newValue).returned run).1⟩
  · intro ops live
    refine Prog.ends_bind (ends_new _ _ _) ?_
    intro oram unused
    refine Prog.ends_bind (unused.ends_init
      (fun entry entryMem => realKeys entry.1 (List.mem_map_of_mem entryMem))) ?_
    intro oram isArray
    exact isArray.ends_runOps (fun key keyMem => KeyMap.lookupEntry_isSome_iff.mpr keyMem) live

end PathORAM

section Sample

attribute [local instance] clearCipher

/-- Two blocks, a bucket size of one, and accesses to both. -/
theorem PathORAM.conserves_blocks_sample :
    Ends (do
      let oram ← PathORAM.new 2 1 7
      let oram ← oram.init (((∅ : KeyMap Int Bytes).set 0 [5]).set 1 [6])
      oram.runOps [.access 0 (some [9]), .dummyAccess, .access 1 none, .access 0 none])
      (fun outcome => outcome.1 = [[5], [6], [9]]) :=
  (PathORAM.conserves_blocks 2 1 7 (((∅ : KeyMap Int Bytes).set 0 [5]).set 1 [6])
    (by decide)).2 _ (by decide)

end Sample

end TieredOmap
