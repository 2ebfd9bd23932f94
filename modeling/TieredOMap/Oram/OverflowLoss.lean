import TieredOMap.Oram.Overflow

/-!
# What a stash overflow loses

A client reads paths, takes blocks out of the stash and puts blocks back, and evicts along the
paths. When an eviction overflows, the blocks it has moved to local buckets are gone, and the
copies that the server still has of the buckets that were read count again. The first block of
the stash always finds room, and it was not read with the paths, so it is always among the lost.
-/

namespace TieredOmap

open BinaryTreeStorage Bucketed

namespace PathORAM

variable [Cipher]

/-- Every block is in the stash or the tree once, with its value, under its recorded leaf. -/
structure Survives (oram : PathORAM) (contents : Int → Option Bytes) : Prop where
  once : (oram.liveBlocks.map Block.key).Nodup
  values : Contains oram.liveBlocks contents
  recorded : ∀ block ∈ oram.liveBlocks, oram.posMap.get? block.key = some block.leaf

/-- The copies that the server has of the buckets on the fetched paths. -/
def staleBlocks (oram : PathORAM) (fetched : List Int) : Multiset Block :=
  ∑ node ∈ pathSet oram.storage.level fetched, oram.bucketBlocks node

/-- The blocks of the client: the stash and the buckets that are not on a fetched path. -/
def ownBlocks (oram : PathORAM) (fetched : List Int) : Multiset Block :=
  visible (Finset.range (totalNodes oram.storage.level)) (pathSet oram.storage.level fetched)
    oram.bucketBlocks ↑oram.stash

/-- While some paths are fetched, the ORAM keeps `contents`, each block under its recorded leaf. -/
structure Recorded (oram : PathORAM) (fetched : List Int) (contents : Int → Option Bytes) :
    Prop where
  kept : oram.Kept oram.storage.level (pathSet oram.storage.level fetched) contents
  areLeaves : ∀ leaf ∈ fetched, IsLeaf oram.storage.level leaf
  recorded : ∀ block ∈ oram.ownBlocks fetched, oram.posMap.get? block.key = some block.leaf

variable {oram : PathORAM} {level : Nat} {fetched : List Int} {blocks : Multiset Block}
  {contents : Int → Option Bytes}

theorem Recorded.holds (recorded : oram.Recorded fetched contents) :
    oram.Holds oram.storage.level (pathSet oram.storage.level fetched)
      (oram.ownBlocks fetched) := by
  rcases recorded.kept.holding with ⟨blocks, holds, _, _⟩
  have own : oram.ownBlocks fetched = blocks := holds.held
  exact own ▸ holds

theorem Recorded.once (recorded : oram.Recorded fetched contents) :
    ((oram.ownBlocks fetched).map Block.key).Nodup := by
  rcases recorded.kept.holding with ⟨blocks, holds, once, _⟩
  have own : oram.ownBlocks fetched = blocks := holds.held
  exact own ▸ once

theorem Recorded.contains (recorded : oram.Recorded fetched contents) :
    Contains (oram.ownBlocks fetched) contents := by
  rcases recorded.kept.holding with ⟨blocks, holds, _, contains⟩
  have own : oram.ownBlocks fetched = blocks := holds.held
  exact own ▸ contains

/-! ## Losing nothing is putting back what was read -/

omit [Cipher] in
theorem fillFromStash_keeps (oram : PathORAM) (leaves : List Int) :
    (↑oram.stash : Multiset Block) =
      ↑(oram.fillFromStash leaves).2.stash + pathBlocks (oram.fillFromStash leaves).1 := by
  have fresh : pathBlocks ((mergedPathIndices oram.storage.level leaves).map
      (fun node => (node, ([] : List Block)))) = 0 := by
    simp [pathBlocks, List.flatMap_map]
  have freshPlaced : PathPlaced oram.storage.level
      ((mergedPathIndices oram.storage.level leaves).map
        (fun node => (node, ([] : List Block)))) := by
    intro entry entryMem block blockMem
    rcases List.mem_map.mp entryMem with ⟨node, _, rfl⟩
    simp at blockMem
  have freshNodup : (((mergedPathIndices oram.storage.level leaves).map
      (fun node => (node, ([] : List Block)))).map Prod.fst).Nodup := by
    simpa [Function.comp_def] using nodup_mergedPathIndices oram.storage.level leaves
  have conserved := (fillPaths_spec oram.storage.level oram.bucketSize oram.stash freshNodup
    freshPlaced).2.2
  rwa [fresh, add_zero] at conserved

/-- What is live after a fill, with the filled buckets: all own blocks and the stale copies. -/
theorem Recorded.liveBlocks_fillFromStash (recorded : oram.Recorded fetched contents) :
    (oram.fillFromStash fetched).2.liveBlocks + pathBlocks (oram.fillFromStash fetched).1 =
      oram.ownBlocks fetched + oram.staleBlocks fetched := by
  have parts := Finset.sum_sdiff (pathSet_subset recorded.holds.level_pos recorded.areLeaves)
    (f := oram.bucketBlocks)
  have live : (oram.fillFromStash fetched).2.liveBlocks =
      ↑(oram.fillFromStash fetched).2.stash +
        ∑ node ∈ Finset.range (totalNodes oram.storage.level), oram.bucketBlocks node := rfl
  rw [live, ownBlocks, visible, fillFromStash_keeps oram fetched, staleBlocks, ← parts]
  abel

omit [Cipher] in
theorem block_ext {block block' : Block} (sameKey : block.key = block'.key)
    (sameLeaf : block.leaf = block'.leaf) (sameValue : block.value = block'.value) :
    block = block' := by
  cases block
  cases block'
  simp_all

omit [Cipher] in
/-- Blocks with the same values under the same recorded leaves are the same blocks. -/
theorem eq_of_contains {blocks blocks' : Multiset Block} {posMap : KeyMap Int Int}
    (once : (blocks.map Block.key).Nodup) (once' : (blocks'.map Block.key).Nodup)
    (values : Contains blocks contents) (values' : Contains blocks' contents)
    (recorded : ∀ block ∈ blocks, posMap.get? block.key = some block.leaf)
    (recorded' : ∀ block ∈ blocks', posMap.get? block.key = some block.leaf) :
    blocks = blocks' := by
  have subset : ∀ {these those : Multiset Block}, Contains these contents →
      Contains those contents →
      (∀ block ∈ these, posMap.get? block.key = some block.leaf) →
      (∀ block ∈ those, posMap.get? block.key = some block.leaf) →
      ∀ block ∈ these, block ∈ those := by
    intro these those theseValues thoseValues theseLeaves thoseLeaves block blockMem
    rcases (thoseValues block.key block.value).mp (theseValues.of_mem blockMem) with
      ⟨other, otherMem, sameKey, sameValue⟩
    have sameLeaf : some other.leaf = some block.leaf := by
      rw [← thoseLeaves other otherMem, sameKey, theseLeaves block blockMem]
    rwa [← block_ext sameKey (Option.some_inj.mp sameLeaf) sameValue]
  refine (Multiset.Nodup.ext (Multiset.Nodup.of_map _ once)
    (Multiset.Nodup.of_map _ once')).mpr ?_
  exact fun block => ⟨subset values values' recorded recorded' block,
    subset values' values recorded' recorded block⟩

theorem Recorded.survives_iff (recorded : oram.Recorded fetched contents) :
    (oram.fillFromStash fetched).2.Survives contents ↔
      pathBlocks (oram.fillFromStash fetched).1 = oram.staleBlocks fetched := by
  have total := recorded.liveBlocks_fillFromStash
  constructor
  · intro survives
    have live : (oram.fillFromStash fetched).2.liveBlocks = oram.ownBlocks fetched :=
      eq_of_contains survives.once recorded.once survives.values recorded.contains
        survives.recorded recorded.recorded
    rw [live] at total
    exact add_left_cancel total
  · intro same
    rw [same] at total
    have live := add_right_cancel total
    refine ⟨live ▸ recorded.once, live ▸ recorded.contains, ?_⟩
    intro block blockMem
    rw [live] at blockMem
    exact recorded.recorded block blockMem

/-! ## The first block of the stash finds room -/

omit [Cipher] in
theorem pathBlocks_le_fillPaths (level : Nat) (bucketSize : Int) (stash : List Block)
    {path : PathData} (nodup : (path.map Prod.fst).Nodup) :
    pathBlocks path ≤ pathBlocks (fillPaths level bucketSize stash path).1 := by
  induction stash generalizing path with
  | nil => exact le_refl _
  | cons block rest ih =>
      unfold fillPaths
      split
      · rename_i path' filled
        rcases fillBlockToPath_eq_some filled with ⟨node, nodeMem, _, rfl⟩
        refine le_trans ?_ (ih (by rwa [map_fst_pushAt]))
        rw [pathBlocks_pushAt nodup nodeMem]
        exact Multiset.le_cons_self _ _
      · exact ih nodup

omit [Cipher] in
/-- The root has room when filling begins, so the first block is moved. -/
theorem mem_pathBlocks_of_first {block : Block} {rest : List Block} {leaves : List Int}
    (first : oram.stash = block :: rest) (room : 0 < oram.bucketSize)
    (areLeaves : ∀ leaf ∈ leaves, IsLeaf oram.storage.level leaf) (some : leaves ≠ [])
    (isLeaf : IsLeaf oram.storage.level block.leaf) :
    block ∈ pathBlocks (oram.fillFromStash leaves).1 := by
  rcases List.exists_mem_of_ne_nil leaves some with ⟨leaf, leafMem⟩
  have root : 0 ∈ mergedPathIndices oram.storage.level leaves :=
    mem_mergedPathIndices.mpr ⟨leaf, leafMem, root_mem_pathNodes (areLeaves leaf leafMem).1⟩
  have freshNodes : ((mergedPathIndices oram.storage.level leaves).map
      (fun node => (node, ([] : List Block)))).map Prod.fst =
        mergedPathIndices oram.storage.level leaves := by
    simp [Function.comp_def]
  set fresh := (mergedPathIndices oram.storage.level leaves).map
    (fun node => (node, ([] : List Block))) with freshDef
  have freshNodup : (fresh.map Prod.fst).Nodup := freshNodes ▸ nodup_mergedPathIndices _ _
  have emptyRoot : bucketAt fresh 0 = [] :=
    bucketAt_of_mem freshNodup (List.mem_map.mpr ⟨0, root, rfl⟩)
  have moved : (fillBlockToPath block fresh oram.storage.level oram.bucketSize).isSome := by
    unfold fillBlockToPath
    split
    · rfl
    · rename_i none
      have rootFull := List.find?_eq_none.mp none 0
        (List.mem_reverse.mpr (freshNodes ▸ root))
      simp [emptyRoot, room, root_mem_pathNodes isLeaf.1] at rootFull
  rcases Option.isSome_iff_exists.mp moved with ⟨path, filled⟩
  have result : (oram.fillFromStash leaves).1 =
      (fillPaths oram.storage.level oram.bucketSize rest path).1 := by
    rw [fillFromStash, first]
    dsimp only
    rw [← freshDef, fillPaths, filled]
  rcases fillBlockToPath_eq_some filled with ⟨node, nodeMem, _, rfl⟩
  have pushedNodup : ((pushAt fresh node block).map Prod.fst).Nodup := by rwa [map_fst_pushAt]
  have kept := pathBlocks_le_fillPaths oram.storage.level oram.bucketSize rest pushedNodup
  rw [result]
  refine Multiset.mem_of_le kept ?_
  rw [pathBlocks_pushAt freshNodup nodeMem]
  exact Multiset.mem_cons_self _ _

/-! ## An overflow never puts back just what was read -/

/-- The keys of the copies that the server has on the fetched paths. -/
def staleKeys (oram : PathORAM) (fetched : List Int) : Multiset Int :=
  (oram.staleBlocks fetched).map Block.key

/--
The stash begins with blocks that were there before the paths were read. Of the others, at most
`moved` were not read with the paths.
-/
def Ordered (oram : PathORAM) (fetched : List Int) (moved : Nat) : Prop :=
  ∃ early late : List Int, oram.stash.map Block.key = early ++ late ∧
    (∀ key ∈ early, key ∉ oram.staleKeys fetched) ∧
    (late.filter (fun key => key ∉ oram.staleKeys fetched)).length ≤ moved

theorem Recorded.moves_other (recorded : oram.Recorded fetched contents) {moved : Nat}
    (ordered : oram.Ordered fetched moved) (few : moved ≤ oram.stashMaxSize)
    (room : 0 < oram.bucketSize) (some : fetched ≠ [])
    (overflows : (oram.fillFromStash fetched).2.overflows = true) :
    pathBlocks (oram.fillFromStash fetched).1 ≠ oram.staleBlocks fetched := by
  intro same
  rcases ordered with ⟨early, late, stashKeys, earlyOwn, lateFew⟩
  cases early with
  | cons key earlier =>
      -- the first block of the stash is moved, and the server has no copy of it
      rcases first : oram.stash with _ | ⟨block, rest⟩
      · simp [first] at stashKeys
      · have keyEq : block.key = key := by
          rw [first] at stashKeys
          simpa using congrArg List.head? stashKeys
        have inStash : block ∈ oram.ownBlocks fetched :=
          Multiset.mem_of_le recorded.holds.stash_le (by simp [first])
        have isLeaf := recorded.kept.mapLeaves _ _ (recorded.recorded block inStash)
        have placed := mem_pathBlocks_of_first first room recorded.areLeaves some isLeaf
        rw [same] at placed
        refine earlyOwn key List.mem_cons_self ?_
        exact keyEq ▸ Multiset.mem_map_of_mem Block.key placed
  | nil =>
      -- all blocks that are left were put into the stash since the fetch
      have split := congrArg (Multiset.map Block.key) (fillFromStash_keeps oram fetched)
      rw [Multiset.map_add, same, Multiset.map_coe, stashKeys, List.nil_append] at split
      have stashOnce := recorded.holds.nodup_stash recorded.once
      rw [stashKeys, List.nil_append] at stashOnce
      have once : (↑late : Multiset Int).Nodup := Multiset.coe_nodup.mpr stashOnce
      rw [split] at once
      have apart := (Multiset.nodup_add.mp once).2.2
      set left := (oram.fillFromStash fetched).2.stash with leftDef
      have leftLe : (↑left : Multiset Block).map Block.key ≤
          ↑(late.filter (fun key => key ∉ oram.staleKeys fetched)) := by
        rw [← Multiset.filter_coe, Multiset.le_filter]
        refine ⟨split ▸ Multiset.le_add_right _ _, ?_⟩
        intro key keyMem
        exact Multiset.disjoint_left.mp apart keyMem
      have count := Multiset.card_le_card leftLe
      have tooMany : oram.stashMaxSize < left.length := by
        have decided : (oram.fillFromStash fetched).2.stashMaxSize < left.length := by
          simpa [PathORAM.overflows, ← leftDef] using overflows
        exact decided
      simp only [Multiset.card_map, Multiset.coe_card] at count
      omega

/-! ## Handling the ORAM -/

/--
What clients do with an ORAM, with the paths that are fetched, the number of blocks that were put
into the stash since, and the live values: whole accesses, and rounds that read some paths, take
blocks out of the stash, put blocks back under a recorded leaf (no more than the stash may hold)
and evict along the same paths.
-/
inductive Handled (numData bucketSize : Int) (data : KeyMap Int Bytes) :
    List Int → Nat → PathORAM → (Int → Option Bytes) → Prop
  | init {oram : PathORAM} {world world' : World}
      (run : (do let oram ← PathORAM.new numData bucketSize; oram.init data).runFrom world =
        (.ok oram, world')) :
      Handled numData bucketSize data [] 0 oram data.get?
  | access {moved : Nat} {oram oram' : PathORAM} {contents : Int → Option Bytes} {key : Int}
      {newValue : Option Bytes} {value : Bytes} {world world' : World}
      (handled : Handled numData bucketSize data [] moved oram contents)
      (run : (oram.access key newValue).runFrom world = (.ok (value, oram'), world')) :
      Handled numData bucketSize data [] 0 oram'
        (Function.update contents key (some (newValue.getD value)))
  | dummyAccess {moved : Nat} {oram oram' : PathORAM} {contents : Int → Option Bytes}
      {world world' : World} (handled : Handled numData bucketSize data [] moved oram contents)
      (run : oram.dummyAccess.runFrom world = (.ok oram', world')) :
      Handled numData bucketSize data [] 0 oram' contents
  | fetch {moved : Nat} {oram : PathORAM} {contents : Int → Option Bytes} {leaves : List Int}
      (handled : Handled numData bucketSize data [] moved oram contents)
      (areLeaves : ∀ leaf ∈ leaves, IsLeaf oram.storage.level leaf) :
      Handled numData bucketSize data leaves 0
        (oram.applyFetchedPath (oram.storage.readMultiplePaths leaves)) contents
  | take {fetched : List Int} {moved : Nat} {oram oram' : PathORAM}
      {contents : Int → Option Bytes} {key : Int} {block : Block} {world world' : World}
      (handled : Handled numData bucketSize data fetched moved oram contents)
      (run : (oram.extractFromStash key).runFrom world = (.ok (block, oram'), world')) :
      Handled numData bucketSize data fetched moved oram' (Function.update contents key none)
  | put {fetched : List Int} {moved : Nat} {oram : PathORAM} {contents : Int → Option Bytes}
      {block : Block} (handled : Handled numData bucketSize data fetched moved oram contents)
      (few : fetched = [] ∨ moved < oram.stashMaxSize) (real : block.isDummy = false)
      (fresh : contents block.key = none) (isLeaf : IsLeaf oram.storage.level block.leaf) :
      Handled numData bucketSize data fetched (moved + 1)
        ((oram.setLeaf block.key block.leaf).addToStash block)
        (Function.update contents block.key (some block.value))
  | evict {leaf : Int} {moved : Nat} {oram oram' : PathORAM} {contents : Int → Option Bytes}
      {path : PathData} {world world' : World}
      (handled : Handled numData bucketSize data [leaf] moved oram contents)
      (run : (oram.prepareEviction leaf).runFrom world = (.ok (path, oram'), world')) :
      Handled numData bucketSize data [] 0 (oram'.writePath path) contents
  | evictPaths {leaves : List Int} {moved : Nat} {oram oram' : PathORAM}
      {contents : Int → Option Bytes} {path : PathData} {world world' : World}
      (handled : Handled numData bucketSize data leaves moved oram contents)
      (run : (oram.prepareEvictionPaths leaves).runFrom world = (.ok (path, oram'), world')) :
      Handled numData bucketSize data [] 0 (oram'.writePath path) contents

/-- What all handling keeps. -/
structure Managed (oram : PathORAM) (bucketSize : Int) (fetched : List Int) (moved : Nat)
    (contents : Int → Option Bytes) : Prop where
  recorded : oram.Recorded fetched contents
  ordered : oram.Ordered fetched moved
  few : fetched = [] ∨ moved ≤ oram.stashMaxSize
  bucketSize_eq : oram.bucketSize = bucketSize
  bound_nonneg : 0 ≤ oram.stashMaxSize

theorem ordered_nil (oram : PathORAM) (moved : Nat) : oram.Ordered [] moved := by
  have none : oram.staleKeys [] = 0 := rfl
  exact ⟨oram.stash.map Block.key, [], by simp, by simp [none], by simp⟩

theorem Ordered.sublist {oram' : PathORAM} {moved : Nat} (ordered : oram.Ordered fetched moved)
    (sameStorage : oram'.storage = oram.storage)
    (keysSub : (oram'.stash.map Block.key).Sublist (oram.stash.map Block.key)) :
    oram'.Ordered fetched moved := by
  have sameKeys : oram'.staleKeys fetched = oram.staleKeys fetched := by
    simp only [staleKeys, staleBlocks, bucketBlocks, sameStorage]
  rcases ordered with ⟨early, late, stashKeys, earlyOwn, lateFew⟩
  rw [stashKeys] at keysSub
  rcases List.sublist_append_iff.mp keysSub with ⟨early', late', stashKeys', earlySub, lateSub⟩
  refine ⟨early', late', stashKeys', ?_, ?_⟩
  · intro key keyMem
    exact sameKeys ▸ earlyOwn key (earlySub.subset keyMem)
  · rw [sameKeys]
    exact (lateSub.filter _).length_le.trans lateFew

theorem Ordered.addToStash {moved : Nat} (ordered : oram.Ordered fetched moved) (block : Block)
    (posMap : KeyMap Int Int) :
    ({ oram with posMap }.addToStash block).Ordered fetched (moved + 1) := by
  rcases ordered with ⟨early, late, stashKeys, earlyOwn, lateFew⟩
  refine ⟨early, late ++ [block.key], ?_, earlyOwn, ?_⟩
  · simp [PathORAM.addToStash, stashKeys]
  · have sameKeys : ({ oram with posMap }.addToStash block).staleKeys fetched =
        oram.staleKeys fetched := rfl
    rw [sameKeys, List.filter_append, List.length_append]
    have one := List.length_filter_le (fun key => decide (key ∉ oram.staleKeys fetched)) [block.key]
    simp only [List.length_singleton] at one
    omega

/-- What was in the stash before a fetch was not fetched. -/
theorem Recorded.ordered_fetched (recorded : oram.Recorded [] contents) {leaves : List Int}
    (areLeaves : ∀ leaf ∈ leaves, IsLeaf oram.storage.level leaf) :
    (oram.applyFetchedPath (oram.storage.readMultiplePaths leaves)).Ordered leaves 0 := by
  have fetchedEq := coe_readMultiplePaths oram leaves
  set items := (oram.storage.readMultiplePaths leaves).flatMap (fun entry => openBucket entry.2)
    with itemsDef
  have staleEq : (oram.applyFetchedPath (oram.storage.readMultiplePaths leaves)).staleKeys leaves =
      ↑(items.map Block.key) := by
    rw [← Multiset.map_coe, fetchedEq]
    rfl
  refine ⟨oram.stash.map Block.key, items.map Block.key, List.map_append, ?_, ?_⟩
  · intro key keyMem stale
    have once := recorded.once
    have staleLe : (↑items : Multiset Block) ≤
        ∑ node ∈ Finset.range (totalNodes oram.storage.level), oram.bucketBlocks node := by
      rw [fetchedEq, ← Finset.sum_sdiff (pathSet_subset recorded.holds.level_pos areLeaves)
        (f := oram.bucketBlocks)]
      exact Multiset.le_add_left _ _
    have parts : oram.ownBlocks [] = ↑oram.stash +
        ∑ node ∈ Finset.range (totalNodes oram.storage.level), oram.bucketBlocks node := by
      rw [ownBlocks, visible]
      congr 1
    rw [parts, Multiset.map_add] at once
    have apart := (Multiset.nodup_add.mp once).2.2
    rw [staleEq, ← Multiset.map_coe] at stale
    exact Multiset.disjoint_left.mp apart (by simpa using keyMem)
      (Multiset.mem_of_le (Multiset.map_le_map staleLe) stale)
  · have none : (items.map Block.key).filter (fun key => key ∉
        (oram.applyFetchedPath (oram.storage.readMultiplePaths leaves)).staleKeys leaves) = [] := by
      refine List.filter_eq_nil_iff.mpr ?_
      intro key keyMem
      rw [staleEq]
      simpa using keyMem
    rw [none]
    exact le_refl _

/-! ## What handling keeps -/

theorem Recorded.tracked (recorded : oram.Recorded [] contents) :
    oram.Tracked oram.storage.level (oram.ownBlocks []) :=
  ⟨recorded.holds, recorded.once, fun block blockMem =>
    ⟨recorded.recorded block blockMem,
      recorded.kept.mapLeaves _ _ (recorded.recorded block blockMem)⟩⟩

theorem Tracked.toRecorded (tracked : oram.Tracked level blocks)
    (kept : oram.Kept level ∅ contents) : oram.Recorded [] contents := by
  obtain rfl := kept.level_eq
  have own : oram.ownBlocks [] = blocks := tracked.holds.held
  refine ⟨kept, by simp, ?_⟩
  intro block blockMem
  exact (tracked.mapped block (own ▸ blockMem)).1

/-- The new buckets of the fetched paths are written. -/
theorem Recorded.writePath (recorded : oram.Recorded fetched contents) {path : PathData}
    (holds : ((oram.fillFromStash fetched).2.writePath path).Holds oram.storage.level ∅
      (oram.ownBlocks fetched)) (short : PathBounded path oram.bucketSize) :
    ((oram.fillFromStash fetched).2.writePath path).Recorded [] contents := by
  have level_eq := holds.level_eq
  refine ⟨?_, by simp, ?_⟩
  · rw [level_eq]
    exact ⟨⟨_, holds, recorded.once, recorded.contains⟩, recorded.kept.mapLeaves,
      recorded.kept.bounded.writeMultiplePaths short⟩
  · intro block blockMem
    rw [ownBlocks, level_eq] at blockMem
    exact recorded.recorded block (holds.held ▸ blockMem)

theorem yields_prepareEviction (oram : PathORAM) (leaf : Int) :
    Yields (oram.prepareEviction leaf) (fun outcome =>
      outcome = (encryptPath (oram.fillFromStash [leaf]).1, (oram.fillFromStash [leaf]).2)) := by
  unfold prepareEviction
  dsimp only
  split
  · exact Prog.ends_fail trivial
  · exact Prog.ends_pure rfl

theorem yields_prepareEvictionPaths_short (oram : PathORAM) (leaves : List Int) :
    Yields (oram.prepareEvictionPaths leaves) (fun outcome =>
      PathBounded outcome.1 oram.bucketSize ∧ outcome.2 = (oram.fillFromStash leaves).2) := by
  unfold prepareEvictionPaths
  dsimp only
  split
  · exact Prog.ends_fail trivial
  · refine Prog.ends_pure ⟨pathBounded_encryptPath ?_, rfl⟩
    intro entry entryMem
    rcases List.mem_map.mp entryMem with ⟨filledEntry, filledMem, rfl⟩
    have short := pathBounded_fillFromStash oram leaves filledEntry filledMem
    simp only [List.length_append, List.length_replicate]
    omega

/-- The bucket size and the stash bound are never changed. -/
def SameSizes (oram oram' : PathORAM) : Prop :=
  oram'.bucketSize = oram.bucketSize ∧ oram'.stashMaxSize = oram.stashMaxSize

theorem yields_evictStash_sizes (oram : PathORAM) (leaves : List Int) :
    Yields (oram.evictStash leaves) (SameSizes oram) := by
  unfold evictStash
  dsimp only
  split
  · exact Prog.ends_fail trivial
  · refine Prog.ends_bind (yields_any _) ?_
    intro _ _
    exact Prog.ends_pure ⟨rfl, rfl⟩

theorem yields_access_sizes (oram : PathORAM) (key : Int) (newValue : Option Bytes) :
    Yields (oram.access key newValue) (fun outcome => SameSizes oram outcome.2) := by
  unfold access
  split
  · exact Prog.ends_fail trivial
  · refine Prog.ends_bind (yields_any _) ?_
    intro newLeaf _
    refine Prog.ends_bind (Q := fun oram' => SameSizes oram oram') ?_ ?_
    · refine Prog.ends_bind (yields_any _) ?_
      intro _ _
      exact Prog.ends_pure ⟨rfl, rfl⟩
    · intro fetched sizes
      split
      · exact Prog.ends_fail trivial
      · refine Prog.ends_bind (yields_evictStash_sizes _ _) ?_
        intro evicted sizes'
        exact Prog.ends_pure ⟨sizes'.1.trans sizes.1, sizes'.2.trans sizes.2⟩

theorem yields_dummyAccess_sizes (oram : PathORAM) :
    Yields oram.dummyAccess (SameSizes oram) := by
  refine Prog.ends_bind (yields_any _) ?_
  intro leaf _
  refine Prog.ends_bind (Q := fun oram' => SameSizes oram oram') ?_ ?_
  · refine Prog.ends_bind (yields_any _) ?_
    intro _ _
    exact Prog.ends_pure ⟨rfl, rfl⟩
  · intro fetched sizes
    refine (yields_evictStash_sizes fetched [leaf]).mono ?_
    intro evicted sizes'
    exact ⟨sizes'.1.trans sizes.1, sizes'.2.trans sizes.2⟩

variable {numData bucketSize : Int} {data : KeyMap Int Bytes} {moved : Nat}

theorem yields_new_init_recorded (realKeys : ∀ key ∈ data.keys, key ≠ invalidKey) :
    Yields (do let oram ← PathORAM.new numData bucketSize; oram.init data)
      (fun oram => oram.Managed bucketSize [] 0 data.get?) := by
  refine Prog.ends_bind (Q := fun oram => oram.Unused ∧ oram.bucketSize = bucketSize ∧
    0 ≤ oram.stashMaxSize) ?_ ?_
  · refine Prog.ends_bind (yields_any _) ?_
    intro storeId _
    refine Prog.ends_pure ⟨⟨rfl, rfl⟩, rfl, ?_⟩
    dsimp only
    omega
  · rintro oram ⟨unused, size, bound⟩
    have noLeaves : ∀ key leaf, oram.posMap.get? key = some leaf →
        IsLeaf oram.storage.level leaf := by
      simp [unused.noLeaves]
    have realEntries : ∀ entry ∈ data.entries, entry.1 ≠ invalidKey :=
      fun entry entryMem => realKeys entry.1 (List.mem_map_of_mem entryMem)
    have sizes : Yields (oram.init data) (SameSizes oram) := by
      refine Prog.ends_bind (yields_of_ends
        (ends_assignLeaves { oram with stash := [] } data.entries rfl noLeaves)) ?_
      rintro assigned ⟨frame, _⟩
      refine Prog.ends_pure ⟨?_, ?_⟩
      · rw [frame]
      · rw [frame]
    have tracked := yields_of_ends (PathORAM.ends_init unused.sized noLeaves realEntries)
    refine ((sizes.and tracked).and (unused.yields_init_kept realKeys)).allow (fun _ _ => trivial)
      |>.mono ?_
    rintro oram' ⟨⟨⟨sameSize, sameBound⟩, blocks, tracked', _, _⟩, kept⟩
    rw [tracked'.holds.level_eq] at kept
    exact ⟨tracked'.toRecorded kept, ordered_nil _ _, Or.inl rfl, sameSize.trans size,
      sameBound ▸ bound⟩

theorem Managed.access (managed : oram.Managed bucketSize [] moved contents) {oram' : PathORAM}
    {key : Int} {newValue : Option Bytes} {value : Bytes} {world world' : World}
    (run : (oram.access key newValue).runFrom world = (.ok (value, oram'), world')) :
    oram'.Managed bucketSize [] 0 (Function.update contents key (some (newValue.getD value))) := by
  have recorded := managed.recorded
  rcases (recorded.kept.yields_access key newValue).returned run with ⟨present, kept⟩
  rcases (recorded.contains key value).mp present with ⟨block, blockMem, rfl, rfl⟩
  rcases (recorded.tracked.ends_access blockMem newValue).returned run with ⟨_, leaf, tracked⟩
  rcases (yields_access_sizes oram block.key newValue).returned run with ⟨sameSize, sameBound⟩
  exact ⟨tracked.toRecorded kept, ordered_nil _ _, Or.inl rfl,
    sameSize.trans managed.bucketSize_eq, sameBound.symm ▸ managed.bound_nonneg⟩

theorem Managed.dummyAccess (managed : oram.Managed bucketSize [] moved contents)
    {oram' : PathORAM} {world world' : World}
    (run : oram.dummyAccess.runFrom world = (.ok oram', world')) :
    oram'.Managed bucketSize [] 0 contents := by
  have recorded := managed.recorded
  have kept := recorded.kept.yields_dummyAccess.returned run
  have tracked := recorded.tracked.ends_dummyAccess.returned run
  rcases (yields_dummyAccess_sizes oram).returned run with ⟨sameSize, sameBound⟩
  exact ⟨tracked.toRecorded kept, ordered_nil _ _, Or.inl rfl,
    sameSize.trans managed.bucketSize_eq, sameBound.symm ▸ managed.bound_nonneg⟩

theorem Managed.fetch (managed : oram.Managed bucketSize [] moved contents) {leaves : List Int}
    (areLeaves : ∀ leaf ∈ leaves, IsLeaf oram.storage.level leaf) :
    (oram.applyFetchedPath (oram.storage.readMultiplePaths leaves)).Managed bucketSize leaves 0
      contents := by
  have recorded := managed.recorded
  have fetched := recorded.holds.applyFetchedPath areLeaves
  refine ⟨⟨recorded.kept.applyFetchedPath areLeaves, areLeaves, ?_⟩,
    recorded.ordered_fetched areLeaves, Or.inr managed.bound_nonneg, managed.bucketSize_eq,
    managed.bound_nonneg⟩
  intro block blockMem
  have own : (oram.applyFetchedPath (oram.storage.readMultiplePaths leaves)).ownBlocks leaves =
      oram.ownBlocks [] := fetched.held
  exact recorded.recorded block (own ▸ blockMem)

theorem Managed.take (managed : oram.Managed bucketSize fetched moved contents)
    {oram' : PathORAM} {key : Int} {block : Block} {world world' : World}
    (run : (oram.extractFromStash key).runFrom world = (.ok (block, oram'), world')) :
    oram'.Managed bucketSize fetched moved (Function.update contents key none) := by
  have recorded := managed.recorded
  rcases (recorded.kept.yields_extractFromStash key).returned run with ⟨_, kept⟩
  have taken : Yields (oram.extractFromStash key) (fun outcome => outcome.2 =
      { oram with stash := oram.stash.eraseP (fun block => block.key == key) }) := by
    unfold PathORAM.extractFromStash
    split
    · exact Prog.ends_pure rfl
    · exact Prog.ends_fail trivial
  obtain rfl := taken.returned run
  have sub : (oram.stash.eraseP (fun block => block.key == key)).Sublist oram.stash :=
    List.eraseP_sublist
  refine ⟨⟨kept, recorded.areLeaves, ?_⟩, managed.ordered.sublist rfl (sub.map _), managed.few,
    managed.bucketSize_eq, managed.bound_nonneg⟩
  intro block blockMem
  refine recorded.recorded block (Multiset.mem_of_le ?_ blockMem)
  exact add_le_add_left (Multiset.coe_le.mpr sub.subperm) _

theorem Managed.put (managed : oram.Managed bucketSize fetched moved contents) {block : Block}
    (few : fetched = [] ∨ moved < oram.stashMaxSize) (real : block.isDummy = false)
    (fresh : contents block.key = none) (isLeaf : IsLeaf oram.storage.level block.leaf) :
    ((oram.setLeaf block.key block.leaf).addToStash block).Managed bucketSize fetched (moved + 1)
      (Function.update contents block.key (some block.value)) := by
  have recorded := managed.recorded
  refine ⟨⟨(recorded.kept.setLeaf isLeaf block.key).addToStash real fresh, recorded.areLeaves, ?_⟩,
    managed.ordered.addToStash block _, ?_, managed.bucketSize_eq, managed.bound_nonneg⟩
  · have own : ((oram.setLeaf block.key block.leaf).addToStash block).ownBlocks fetched =
        block ::ₘ oram.ownBlocks fetched :=
      ((recorded.holds.withPosMap _).addToStash real).held
    intro other otherMem
    rw [own] at otherMem
    rcases Multiset.mem_cons.mp otherMem with rfl | old
    · exact KeyMap.get?_set_self _ _ _
    · have differs : other.key ≠ block.key := by
        intro same
        have present := recorded.contains.of_mem old
        rw [same, fresh] at present
        cases present
      exact (KeyMap.get?_set_of_ne _ _ differs).trans (recorded.recorded other old)
  · refine few.imp_right ?_
    intro room
    exact_mod_cast room

/-- Writing the new buckets of the fetched paths. -/
theorem Managed.written (managed : oram.Managed bucketSize fetched moved contents)
    {path : PathData} (holds : ((oram.fillFromStash fetched).2.writePath path).Holds
      oram.storage.level ∅ (oram.ownBlocks fetched)) (short : PathBounded path oram.bucketSize) :
    ((oram.fillFromStash fetched).2.writePath path).Managed bucketSize [] 0 contents :=
  ⟨managed.recorded.writePath holds short, ordered_nil _ _, Or.inl rfl, managed.bucketSize_eq,
    managed.bound_nonneg⟩

theorem Handled.managed (realKeys : ∀ key ∈ data.keys, key ≠ invalidKey)
    (handled : Handled numData bucketSize data fetched moved oram contents) :
    oram.Managed bucketSize fetched moved contents := by
  induction handled with
  | init run => exact (yields_new_init_recorded realKeys).returned run
  | access _ run ih => exact ih.access run
  | dummyAccess _ run ih => exact ih.dummyAccess run
  | fetch _ areLeaves ih => exact ih.fetch areLeaves
  | take _ run ih => exact ih.take run
  | put _ few real fresh isLeaf ih => exact ih.put few real fresh isLeaf
  | @evict leaf _ oram _ _ _ _ _ _ run ih =>
      obtain ⟨rfl, rfl⟩ := Prod.mk.inj ((yields_prepareEviction oram leaf).returned run)
      exact ih.written (ih.recorded.holds.fillAndWrite ih.recorded.areLeaves)
        (pathBounded_encryptPath (pathBounded_fillFromStash _ _))
  | @evictPaths leaves _ oram _ _ _ _ _ _ run ih =>
      rcases (yields_prepareEvictionPaths_short oram leaves).returned run with ⟨short, rfl⟩
      exact ih.written ((yields_of_ends (ends_prepareEvictionPaths ih.recorded.holds
        ih.recorded.areLeaves)).returned run) short

/-! ## The calls that evict -/

/-- A call that may overflow the stash. -/
inductive EvictingCall where
  | access (key : Int) (newValue : Option Bytes)
  | dummyAccess
  | prepareEviction (leaf : Int)
  | prepareEvictionPaths (leaves : List Int)
deriving DecidableEq, Repr

namespace EvictingCall

/-- The paths that the client has fetched before the call. -/
def fetchedPaths : EvictingCall → List Int
  | .access _ _ => []
  | .dummyAccess => []
  | .prepareEviction leaf => [leaf]
  | .prepareEvictionPaths leaves => leaves

/-- What the call does to the object; what it returns is left out. -/
def method : EvictingCall → Method Unit
  | .access key newValue => do
      let _ ← Method.access key newValue
      return ()
  | .dummyAccess => Method.dummyAccess
  | .prepareEviction leaf => do
      let _ ← Method.prepareEviction leaf
      return ()
  | .prepareEvictionPaths leaves => do
      let _ ← Method.prepareEvictionPaths leaves
      return ()

/-- The latest values once the call has been made. -/
def after (contents : Int → Option Bytes) : EvictingCall → Int → Option Bytes
  | .access key (some value) => Function.update contents key (some value)
  | _ => contents

end EvictingCall

/-- `access`, when it begins to evict. -/
theorem Managed.rewritten (managed : oram.Managed bucketSize [] moved contents)
    {key oldLeaf newLeaf : Int} {target : Block} (newValue : Option Bytes)
    (old : oram.posMap.get? key = some oldLeaf) (newIsLeaf : IsLeaf oram.storage.level newLeaf)
    (found : (Method.begun oram key oldLeaf newLeaf).findInStash key = some target) :
    ((Method.begun oram key oldLeaf newLeaf).updateInStash key
      (Method.rewritten newValue newLeaf)).Managed bucketSize [oldLeaf] 0
        ((EvictingCall.access key newValue).after contents) := by
  have recorded := managed.recorded
  have oldIsLeaf := recorded.kept.mapLeaves key oldLeaf old
  have areLeaves : ∀ leaf ∈ [oldLeaf], IsLeaf oram.storage.level leaf := by simpa using oldIsLeaf
  have fetchedKept := (recorded.kept.setLeaf newIsLeaf key).applyFetchedPath areLeaves
  have fetchedHolds := (recorded.holds.withPosMap (oram.posMap.set key newLeaf)).applyFetchedPath
    areLeaves
  rcases fetchedHolds.mem_of_found found with ⟨targetMem, rfl⟩
  have live := fetchedKept.value_of_found found
  have latest : (EvictingCall.access target.key newValue).after contents =
      Function.update contents target.key
        (some (Method.rewritten newValue newLeaf target).value) := by
    cases newValue with
    | none => exact (Function.update_eq_self_iff.mpr live.symm).symm
    | some value => rfl
  rw [latest]
  refine ⟨⟨fetchedKept.updateInStash found rfl, areLeaves, ?_⟩, ?_, Or.inr managed.bound_nonneg,
    managed.bucketSize_eq, managed.bound_nonneg⟩
  · intro block blockMem
    have own : ((Method.begun oram target.key oldLeaf newLeaf).updateInStash target.key
        (Method.rewritten newValue newLeaf)).ownBlocks [oldLeaf] =
          Method.rewritten newValue newLeaf target ::ₘ (oram.ownBlocks []).erase target :=
      (fetchedHolds.updateInStash found rfl).held
    have replaced : ∀ other ∈
        Method.rewritten newValue newLeaf target ::ₘ (oram.ownBlocks []).erase target,
          (oram.posMap.set target.key newLeaf).get? other.key = some other.leaf ∧
            IsLeaf oram.storage.level other.leaf :=
      recorded.tracked.mapped_replace targetMem rfl newIsLeaf
    exact (replaced block (own ▸ blockMem)).1
  · refine (recorded.ordered_fetched areLeaves).sublist rfl ?_
    have sameKeys : ∀ stash : List Block,
        (modifyFirst (fun block => block.key == target.key) (Method.rewritten newValue newLeaf)
          stash).map Block.key = stash.map Block.key := by
      intro stash
      induction stash with
      | nil => rfl
      | cons head rest ih =>
          unfold modifyFirst
          split
          · rfl
          · simp [ih]
    exact (sameKeys _).symm ▸ List.Sublist.refl _

/-- Buckets without room are empty, on the server and when they are filled. -/
theorem Managed.fills_nothing (managed : oram.Managed bucketSize fetched moved contents)
    (noRoom : bucketSize ≤ 0) :
    pathBlocks (oram.fillFromStash fetched).1 = oram.staleBlocks fetched := by
  have size := managed.bucketSize_eq
  have filled : pathBlocks (oram.fillFromStash fetched).1 = 0 := by
    refine Multiset.eq_zero_of_forall_notMem ?_
    intro block blockMem
    rcases List.mem_flatMap.mp (Multiset.mem_coe.mp blockMem) with ⟨entry, entryMem, inBucket⟩
    have short := pathBounded_fillFromStash oram fetched entry entryMem
    have some := List.length_pos_of_mem inBucket
    omega
  have stale : ∀ node, oram.bucketBlocks node = 0 := by
    intro node
    have short := managed.recorded.kept.bounded node
    have none : oram.storage.storage node = [] := List.eq_nil_of_length_eq_zero (by omega)
    rw [bucketBlocks, none]
    rfl
  rw [filled, staleBlocks, Finset.sum_eq_zero (fun node _ => stale node)]

/-- An eviction that overflows loses nothing only if it moves nothing. -/
theorem Managed.survives_overflow (managed : oram.Managed bucketSize fetched moved contents)
    (overflows : (oram.fillFromStash fetched).2.overflows = true) :
    (oram.fillFromStash fetched).2.Survives contents ↔ bucketSize ≤ 0 ∨ fetched = [] := by
  rw [managed.recorded.survives_iff]
  constructor
  · intro same
    by_contra lossy
    rw [not_or, not_le] at lossy
    exact managed.recorded.moves_other managed.ordered (managed.few.resolve_left lossy.2)
      (managed.bucketSize_eq ▸ lossy.1) lossy.2 overflows same
  · rintro (noRoom | rfl)
    · exact managed.fills_nothing noRoom
    · have none := fillFromStash_nodes oram []
      rw [pathBlocks, List.map_eq_nil_iff.mp none]
      rfl

/-- Where a call throws, an eviction has overflowed; it is to no path only if the call says so. -/
theorem Managed.overflowed {call : EvictingCall} {world world' : World} {left : PathORAM}
    (managed : oram.Managed bucketSize call.fetchedPaths moved contents)
    (run : call.method.runFrom (oram, world) = (.error .stashOverflow, (left, world'))) :
    ∃ (evicting : PathORAM) (leaves : List Int) (moved' : Nat),
      evicting.Managed bucketSize leaves moved' (call.after contents) ∧
        Method.Overflowed evicting leaves left ∧
          (leaves = [] ↔ call = .prepareEvictionPaths []) := by
  cases call with
  | access key newValue =>
      rcases Prog.throws_of_bind run with thrown | ⟨_, _, _, rest⟩
      · rcases Method.left_access thrown with
          ⟨oldLeaf, newLeaf, between, old, drawn, ⟨target, found⟩, overflowed⟩
        have newIsLeaf := (yields_randomLeaf oram).returned drawn
        exact ⟨_, _, _, managed.rewritten newValue old newIsLeaf found, overflowed, by simp⟩
      · cases rest
  | dummyAccess =>
      rcases Method.left_dummyAccess run with ⟨leaf, between, drawn, overflowed⟩
      have isLeaf := (yields_randomLeaf oram).returned drawn
      exact ⟨_, _, _, managed.fetch (by simpa using isLeaf), overflowed, by simp⟩
  | prepareEviction leaf =>
      rcases Prog.throws_of_bind run with thrown | ⟨_, _, _, rest⟩
      · exact ⟨_, _, _, managed, Method.left_prepareEviction thrown, by simp [EvictingCall.fetchedPaths]⟩
      · cases rest
  | prepareEvictionPaths leaves =>
      rcases Prog.throws_of_bind run with thrown | ⟨_, _, _, rest⟩
      · exact ⟨_, _, _, managed, Method.left_prepareEvictionPaths thrown,
          by simp [EvictingCall.fetchedPaths]⟩
      · cases rest

/--
A stash overflow loses or doubles blocks, unless nothing is evicted: buckets have no room, or
`prepare_eviction_paths` is given no path.
-/
theorem survives_overflow_iff (realKeys : ∀ key ∈ data.keys, key ≠ invalidKey)
    {call : EvictingCall}
    (handled : Handled numData bucketSize data call.fetchedPaths moved oram contents)
    {world world' : World} {left : PathORAM}
    (run : call.method.runFrom (oram, world) = (.error .stashOverflow, (left, world'))) :
    left.Survives (call.after contents) ↔
      bucketSize ≤ 0 ∨ call = .prepareEvictionPaths [] := by
  rcases (handled.managed realKeys).overflowed run with
    ⟨evicting, leaves, moved', managed, ⟨rfl, overflows⟩, noPath⟩
  rw [managed.survives_overflow overflows, noPath]

end PathORAM

section Sample

attribute [local instance] clearCipher

namespace PathORAM

/-- Fifty blocks for buckets of one block. -/
def fiftyBlocks : KeyMap Int Bytes :=
  (List.range 50).foldl (fun data key => data.set (key : Int) [1]) ∅

/-- The ORAM of fifty blocks, all of them under the first leaf. -/
def crowded : Option (PathORAM × World) :=
  match Prog.runFrom (do let oram ← PathORAM.new 50 1; oram.init fiftyBlocks) {} with
  | (.ok oram, world) => some (oram, world)
  | _ => none

/-- What a call leaves when it overflows the stash. -/
def overflowLeft (state : PathORAM × World) (call : EvictingCall) : Option (PathORAM × World) :=
  match call.method.runFrom state with
  | (.error .stashOverflow, left) => some left
  | _ => none

theorem mem_liveBlocks {oram : PathORAM} {block : Block} (live : block ∈ oram.liveBlocks) :
    block ∈ oram.stash ∨ ∃ node ∈ List.range (totalNodes oram.storage.level),
      block ∈ openBucket (oram.storage.storage node) := by
  rcases Multiset.mem_add.mp live with inStash | inTree
  · exact Or.inl inStash
  · rcases Multiset.mem_sum.mp inTree with ⟨node, nodeMem, inBucket⟩
    exact Or.inr ⟨node, by simpa using nodeMem, inBucket⟩

/-- Reading one of the fifty blocks overflows the stash, and another block is gone. -/
theorem crowded_overflows : ∃ (oram left : PathORAM) (world world' : World),
    Handled 50 1 fiftyBlocks [] 0 oram fiftyBlocks.get? ∧
      (EvictingCall.access 0 none).method.runFrom (oram, world) =
        (.error .stashOverflow, (left, world')) ∧
      ∀ block ∈ left.liveBlocks, block.key ≠ 10 := by
  have computed : (do
      let state ← crowded
      let (left, _) ← overflowLeft state (.access 0 none)
      return decide ((∀ block ∈ left.stash, block.key ≠ 10) ∧
        ∀ node ∈ List.range (totalNodes left.storage.level),
          ∀ block ∈ openBucket (left.storage.storage node), block.key ≠ 10)) = some true := by
    decide +kernel
  rcases Option.bind_eq_some_iff.mp computed with ⟨⟨oram, world⟩, built, computed⟩
  rcases Option.bind_eq_some_iff.mp computed with ⟨⟨left, world'⟩, leftEq, computed⟩
  rcases of_decide_eq_true (Option.some_inj.mp computed) with ⟨stashMisses, treeMisses⟩
  refine ⟨oram, left, world, world', ?_, ?_, ?_⟩
  · unfold crowded at built
    split at built
    · rename_i run
      cases built
      exact Handled.init run
    · cases built
  · unfold overflowLeft at leftEq
    split at leftEq
    · rename_i run
      cases leftEq
      exact run
    · cases leftEq
  · intro block live
    rcases mem_liveBlocks live with inStash | ⟨node, nodeMem, inBucket⟩
    · exact stashMisses block inStash
    · exact treeMisses node nodeMem block inBucket

/-- A stash overflow loses blocks. -/
theorem overflow_loses_blocks : ¬ ∀ (numData bucketSize : Int) (data : KeyMap Int Bytes)
    (call : EvictingCall) (moved : Nat) (oram left : PathORAM) (contents : Int → Option Bytes)
    (world world' : World), (∀ key ∈ data.keys, key ≠ invalidKey) →
      Handled numData bucketSize data call.fetchedPaths moved oram contents →
      call.method.runFrom (oram, world) = (.error .stashOverflow, (left, world')) →
        left.Survives (call.after contents) := by
  intro survives
  rcases crowded_overflows with ⟨oram, left, world, world', handled, run, missing⟩
  have survived := survives 50 1 fiftyBlocks (.access 0 none) 0 oram left fiftyBlocks.get? world
    world' (by decide +kernel) handled run
  have present : fiftyBlocks.get? 10 = some [1] := by decide +kernel
  rcases (survived.values 10 [1]).mp present with ⟨block, live, keyEq, _⟩
  exact missing block live keyEq

theorem survives_overflow_iff_sample : ∃ (oram left : PathORAM) (world world' : World),
    (EvictingCall.access 0 none).method.runFrom (oram, world) =
        (.error .stashOverflow, (left, world')) ∧
      (left.Survives ((EvictingCall.access 0 none).after fiftyBlocks.get?) ↔
        (1 : Int) ≤ 0 ∨ EvictingCall.access 0 none = .prepareEvictionPaths []) := by
  rcases crowded_overflows with ⟨oram, left, world, world', handled, run, _⟩
  exact ⟨oram, left, world, world', run,
    survives_overflow_iff (by decide +kernel) handled run⟩

end PathORAM

end Sample

end TieredOmap
