import Mathlib.Data.List.Forall2
import TieredOMap.Oram.DaAccess

/-!
# A fresh DAORAM

The constructor sizes the position-map levels, and `init` loads every level with
zero counters under the leaves that these give, and the data below them.
-/

namespace TieredOmap

open BinaryTreeStorage

/-! ## The sizes of the levels -/

theorem groupCount_lt {numIc size : Nat} (fewPerBlock : 2 ≤ numIc) (several : 1 < groupCount numIc size) :
    groupCount numIc size < size := by
  have positive : 0 < numIc := by omega
  have nonempty : 0 < size := by
    by_contra empty
    obtain rfl : size = 0 := by omega
    have none : groupCount numIc 0 = 0 := Nat.div_eq_of_lt (by omega)
    omega
  have rounded : size + numIc - 1 = (size - 1) + numIc := by omega
  rw [groupCount, rounded, Nat.add_div_right _ positive] at several ⊢
  have halved : (size - 1) / numIc ≤ (size - 1) / 2 := Nat.div_le_div_left fewPerBlock (by omega)
  omega

/-- The loop of the constructor ends when blocks hold two counters and the chip has room. -/
theorem isSome_levelSizesFrom {numIc onChipMem : Nat} (fewPerBlock : 2 ≤ numIc)
    (room : 0 < onChipMem) {fuel size : Nat} (enough : size < fuel) :
    (levelSizesFrom numIc onChipMem fuel size).isSome := by
  induction fuel generalizing size with
  | zero => omega
  | succ fuel ih =>
      unfold levelSizesFrom
      dsimp only
      split
      · rfl
      · rename_i tooMany
        have fewer : groupCount numIc size < size := groupCount_lt fewPerBlock (by omega)
        rw [Option.isSome_map]
        exact ih (by omega)

/-- Each level has a block for every group of the level below. -/
theorem levelSizesFrom_manages {numIc onChipMem fuel size : Nat} {levelSizes : List Nat}
    (computed : levelSizesFrom numIc onChipMem fuel size = some levelSizes) :
    ∀ level < levelSizes.length,
      levelSizes.getD level 0 = groupCount numIc ((size :: levelSizes).getD level 0) := by
  induction fuel generalizing size levelSizes with
  | zero => cases computed
  | succ fuel ih =>
      unfold levelSizesFrom at computed
      dsimp only at computed
      split at computed
      · obtain rfl : [] = levelSizes := by simpa using computed
        simp
      · rcases Option.map_eq_some_iff.mp computed with ⟨rest, computedRest, rfl⟩
        intro level levelLt
        cases level with
        | zero => rfl
        | succ level => exact ih computedRest level (by simpa using levelLt)

namespace DAOram

/-- What the constructor builds. -/
structure Built (da : DAOram) (size perBlock maxIc : Nat) (hash : Prf) : Prop where
  numData : da.numData = size
  numIc : da.numIc = perBlock
  icMax : da.icMax = maxIc
  prf : da.prf = hash
  manages : ∀ level < da.numPosLevels,
    da.sizeAt (level + 1) = groupCount perBlock (da.sizeAt level)
  posMaps : List.Forall₂ (fun (size : Nat) (posMap : PathORAM) =>
    posMap.Unused ∧ posMap.numData = size) da.levelSizes da.posMaps

theorem ends_newPosMaps (bucketSize : Int) (sizes : List Nat) :
    Ends (newPosMaps bucketSize sizes) (fun posMaps =>
      List.Forall₂ (fun (size : Nat) (posMap : PathORAM) =>
        posMap.Unused ∧ posMap.numData = size) sizes posMaps) := by
  induction sizes with
  | nil => exact Prog.ends_pure List.Forall₂.nil
  | cons size sizes ih =>
      refine Prog.ends_bind (Q := fun posMap => posMap.Unused ∧ posMap.numData = (size : Int)) ?_ ?_
      · refine Prog.ends_bind ends_freshStore ?_
        intro storeId _
        exact Prog.ends_pure ⟨⟨rfl, rfl⟩, rfl⟩
      · intro posMap unused
        refine Prog.ends_bind ih ?_
        intro posMaps allUnused
        exact Prog.ends_pure (List.Forall₂.cons unused allUnused)

variable {numData numIc icMax onChipMem : Nat} {bucketSize stashScale : Int} {prf : Prf}

/-- The constructor, if it returns. -/
theorem yields_new : Yields (new numData bucketSize stashScale numIc icMax onChipMem prf)
    (fun da => da.Built numData numIc icMax prf) := by
  refine Prog.ends_bind (yields_any _) ?_
  intro dataOram _
  rcases computed : levelSizesFrom numIc onChipMem (numData + 1) numData with _ | levelSizes
  · exact Prog.ends_fail trivial
  · refine Prog.ends_bind (yields_of_ends (ends_newPosMaps bucketSize levelSizes)) ?_
    intro posMaps allUnused
    refine Prog.ends_pure ⟨rfl, rfl, rfl, rfl, ?_, allUnused⟩
    intro level levelLt
    have manages := levelSizesFrom_manages computed level levelLt
    cases level with
    | zero => exact manages
    | succ level => exact manages

/-- The constructor returns. -/
theorem ends_new (fewPerBlock : 2 ≤ numIc) (room : 0 < onChipMem) :
    Ends (new numData bucketSize stashScale numIc icMax onChipMem prf)
      (fun da => da.Built numData numIc icMax prf) := by
  have returns : Ends (new numData bucketSize stashScale numIc icMax onChipMem prf)
      (fun _ => True) := by
    refine Prog.ends_bind (PathORAM.ends_new _ _ _) ?_
    intro dataOram _
    rcases Option.isSome_iff_exists.mp (isSome_levelSizesFrom fewPerBlock room
      (Nat.lt_succ_self numData)) with ⟨levelSizes, computed⟩
    rw [computed]
    refine Prog.ends_bind (ends_newPosMaps bucketSize levelSizes) ?_
    intro posMaps _
    exact Prog.ends_pure trivial
  exact ((returns.and yields_new).allow (fun _ both => both.1)).mono (fun _ both => both.2)

/-! ## Loading the position maps -/

theorem setZeroLeaves_spec (prf : Prf) (posMap : PathORAM) (keys : List Nat) :
    setZeroLeaves prf posMap keys =
        { posMap with posMap := (setZeroLeaves prf posMap keys).posMap } ∧
      ∀ key : Int, (setZeroLeaves prf posMap keys).posMap.get? key =
        if ∃ k ∈ keys, (k : Int) = key then some (prfLeaf prf key.toNat 0 0 posMap.leafRange)
        else posMap.posMap.get? key := by
  induction keys generalizing posMap with
  | nil => exact ⟨rfl, by simp [setZeroLeaves]⟩
  | cons k rest ih =>
      rcases ih (posMap.setLeaf k (prfLeaf prf k 0 0 posMap.leafRange)) with ⟨frame, leaves⟩
      refine ⟨frame, ?_⟩
      intro key
      have later := leaves key
      rw [setZeroLeaves, List.foldl_cons, ← setZeroLeaves, later]
      by_cases inRest : ∃ k' ∈ rest, (k' : Int) = key
      · have inAll : ∃ k' ∈ k :: rest, (k' : Int) = key := by
          rcases inRest with ⟨k', mem, same⟩
          exact ⟨k', List.mem_cons_of_mem _ mem, same⟩
        rw [if_pos inRest, if_pos inAll]
        rfl
      · rw [if_neg inRest, PathORAM.setLeaf, KeyMap.get?_set]
        by_cases here : key = k
        · subst here
          simp
        · have notInAll : ¬∃ k' ∈ k :: rest, (k' : Int) = key := by
            rintro ⟨k', mem, same⟩
            rcases List.mem_cons.mp mem with rfl | inRest'
            · exact here same.symm
            · exact inRest ⟨k', inRest', same⟩
          rw [if_neg here, if_neg notInAll]

/-- The leaves of zero counters. -/
def zeroLabels (prf : Prf) (leafRange key : Nat) : Int := prfLeaf prf key 0 0 leafRange

theorem zeroLabels_isLeaf (prf : Prf) (level key : Nat) :
    IsLeaf level (zeroLabels prf (2 ^ (level - 1)) key) := by
  have range := prfLeaf_range prf key 0 0 (2 ^ (level - 1))
  rw [Nat.max_eq_left (Nat.two_pow_pos _)] at range
  exact ⟨range.1, by exact_mod_cast range.2⟩

variable [Cipher]

/-- A position-map level after `init`. -/
def IsZero (prf : Prf) (numIc size : Nat) (posMap : PathORAM) : Prop :=
  posMap.Labelled posMap.storage.level ∅ size (zeroLabels prf posMap.leafRange)
    (fun _ => (CounterBlock.zero numIc).encode)

theorem ends_initPosMap (prf : Prf) (numIc : Nat) {size : Nat} {posMap : PathORAM}
    (unused : posMap.Unused) : Ends (initPosMap prf numIc size posMap) (IsZero prf numIc size) := by
  rcases setZeroLeaves_spec prf posMap (List.range size) with ⟨frame, leaves⟩
  set labelled := setZeroLeaves prf posMap (List.range size) with labelledDef
  have sameStorage : labelled.storage = posMap.storage := by rw [frame]
  have sameNumData : labelled.numData = posMap.numData := by rw [frame]
  have leafRangeEq : posMap.leafRange = 2 ^ (labelled.storage.level - 1) := by
    rw [sameStorage]
    rfl
  have areLeaves : ∀ key leaf, labelled.posMap.get? key = some leaf →
      IsLeaf labelled.storage.level leaf := by
    intro key leaf recorded
    rw [leaves, unused.noLeaves] at recorded
    split at recorded
    · rw [← Option.some_inj.mp recorded, leafRangeEq]
      exact zeroLabels_isLeaf prf _ _
    · cases recorded
  have realKeys : ∀ entry ∈ (zeroBlocks numIc size).entries, entry.1 ≠ invalidKey := by
    intro entry entryMem
    rcases List.mem_map.mp entryMem with ⟨key, _, rfl⟩
    exact Int.ne_of_gt (by show (-1 : Int) < key; omega)
  refine (PathORAM.ends_init (by rw [sameStorage, sameNumData]; exact unused.sized) areLeaves
    realKeys).mono ?_
  rintro posMap' ⟨blocks, tracked, sameEntries, kept⟩
  have levelEq := tracked.holds.level_eq
  have rangeEq : posMap'.leafRange = posMap.leafRange := by
    rw [tracked.holds.leafRange_eq, leafRangeEq]
  have computed : ∀ block ∈ blocks, (⟨block.key, zeroLabels prf posMap.leafRange block.key.toNat,
      block.value⟩ : Block) = block := by
    intro block blockMem
    have pairMem : (block.key, block.value) ∈ blocks.map (fun block => (block.key, block.value)) :=
      Multiset.mem_map_of_mem _ blockMem
    rw [sameEntries, Multiset.mem_coe] at pairMem
    rcases List.mem_map.mp pairMem with ⟨k, kMem, same⟩
    have recorded : labelled.posMap.get? block.key =
        some (zeroLabels prf posMap.leafRange block.key.toNat) := by
      rw [leaves, if_pos ⟨k, kMem, congrArg Prod.fst same⟩]
      rfl
    have found := kept _ _ recorded
    rw [(tracked.mapped block blockMem).1, Option.some_inj] at found
    rw [← found]
  have blocksEq : blocks = blocksOf size (zeroLabels prf posMap.leafRange)
      (fun _ => (CounterBlock.zero numIc).encode) := by
    have asPairs : blocks.map (fun block => (⟨block.key, zeroLabels prf posMap.leafRange
        block.key.toNat, block.value⟩ : Block)) =
          (blocks.map (fun block => (block.key, block.value))).map (fun pair =>
            ⟨pair.1, zeroLabels prf posMap.leafRange pair.1.toNat, pair.2⟩) := by
      rw [Multiset.map_map]
      rfl
    rw [Multiset.map_congr rfl computed, Multiset.map_id', sameEntries] at asPairs
    rw [asPairs, zeroBlocks, blocksOf]
    simp only [Multiset.map_coe, List.map_map]
    rfl
  rw [IsZero, rangeEq, levelEq, ← levelEq]
  refine ⟨?_, ?_⟩
  · rw [← blocksEq, levelEq]
    exact tracked.holds
  · intro key _
    rw [leafRangeEq, levelEq]
    exact zeroLabels_isLeaf prf _ key

theorem ends_initPosMaps (prf : Prf) (numIc : Nat) {sizes : List Nat} {posMaps : List PathORAM}
    (unused : List.Forall₂ (fun (size : Nat) (posMap : PathORAM) =>
      posMap.Unused ∧ posMap.numData = size) sizes posMaps) :
    Ends (initPosMaps prf numIc sizes posMaps)
      (fun posMaps' => List.Forall₂ (IsZero prf numIc) sizes posMaps') := by
  induction unused with
  | nil => exact Prog.ends_pure List.Forall₂.nil
  | cons isUnused _ ih =>
      refine Prog.ends_bind ih ?_
      intro posMaps' areZero
      refine Prog.ends_bind (ends_initPosMap prf numIc isUnused.1) ?_
      intro posMap' isZero
      exact Prog.ends_pure (List.Forall₂.cons isZero areZero)

/-! ## Loading the data -/

omit [Cipher] in
/-- Entries for all keys below `size` are the values of these keys. -/
theorem coe_entries {data : KeyMap Nat Bytes} {size : Nat}
    (allKeys : ∀ key, key ∈ data.keys ↔ key < size) :
    (↑data.entries : Multiset (Nat × Bytes)) =
      (Multiset.range size).map (fun key => (key, (data.get? key).getD [])) := by
  have keysPerm : data.keys.Perm (List.range size) := by
    refine (List.perm_ext_iff_of_nodup data.nodup_keys List.nodup_range).mpr ?_
    intro key
    rw [allKeys, List.mem_range]
  have entriesEq : data.entries = data.keys.map (fun key => (key, (data.get? key).getD [])) := by
    rw [KeyMap.keys, List.map_map]
    conv_lhs => rw [← List.map_id data.entries]
    refine List.map_congr_left ?_
    intro entry entryMem
    rw [Function.comp_apply, (data.get?_eq_some_iff).mpr entryMem]
    rfl
  rw [entriesEq, ← Multiset.map_coe, Multiset.coe_eq_coe.mpr keysPerm]
  rfl

omit [Cipher] in
/-- The data level after `init`. -/
theorem labelled_loadData {da : DAOram} {data : KeyMap Nat Bytes}
    (allKeys : ∀ key, key ∈ data.keys ↔ key < da.numData) :
    @PathORAM.Labelled plainCipher (da.loadData data) (da.loadData data).storage.level ∅ da.numData
      (zeroLabels da.prf (da.loadData data).leafRange) (fun key => (data.get? key).getD []) := by
  set emptied := da.dataOram.storage.reset da.numData da.bucketSize with emptiedDef
  set plain := data.entries.map (fun entry => ({
    key := entry.1, leaf := prfLeaf da.prf entry.1 0 0 emptied.leafRange, value := entry.2 } :
      Block)) with plainDef
  have plainEq : (↑plain : Multiset Block) = blocksOf da.numData
      (zeroLabels da.prf emptied.leafRange) (fun key => (data.get? key).getD []) := by
    rw [plainDef, ← Multiset.map_coe, coe_entries allKeys, Multiset.map_map]
    rfl
  have plainReal : ∀ block ∈ plain, block.isDummy = false := by
    intro block blockMem
    rcases List.mem_map.mp blockMem with ⟨entry, _, rfl⟩
    refine beq_eq_false_iff_ne.mpr ?_
    exact Int.ne_of_gt (by show (-1 : Int) < entry.1; omega)
  have areLeaves : ∀ block ∈ plain, IsLeaf emptied.level block.leaf := by
    intro block blockMem
    rcases List.mem_map.mp blockMem with ⟨entry, _, rfl⟩
    exact zeroLabels_isLeaf _ _ _
  have nodup : (plain.map Block.key).Nodup := by
    rw [← Multiset.coe_nodup, ← Multiset.map_coe, plainEq]
    exact nodup_blocksOf
  have holds := @PathORAM.holds_bulkLoad plainCipher _ da.dataOram emptied plain rfl
    (Nat.succ_pos _) (fun _ => rfl) plainReal areLeaves nodup
  have loadedEq : da.loadData data = { da.dataOram with
      storage := (emptied.bulkLoad plain).2
      stash := plain.filter (fun block => !(emptied.bulkLoad plain).1.contains block.key) } := by
    rw [loadData, plainDef, List.filter_map]
    rfl
  rw [map_encryptBlock_plain, plainEq, ← loadedEq] at holds
  have levelEq : (da.loadData data).storage.level = emptied.level :=
    @PathORAM.Holds.level_eq plainCipher _ _ _ _ holds
  have rangeEq : (da.loadData data).leafRange = emptied.leafRange := by
    rw [PathORAM.leafRange, BinaryTreeStorage.leafRange, levelEq]
    rfl
  rw [levelEq, rangeEq]
  exact @PathORAM.Labelled.mk plainCipher _ _ _ _ _ _ holds
    (fun key _ => zeroLabels_isLeaf da.prf _ key)

/-! ## The initial state -/

/-- The plan of a DAORAM. -/
def plan (da : DAOram) : Plan where
  numIc := da.numIc
  icMax := da.icMax
  prf := da.prf
  top := da.numPosLevels
  sizes := da.sizeAt
  levels stage := (da.treeAt stage).storage.level

omit [Cipher] in
theorem label_zero (prf : Prf) (numIc leafRange key : Nat) :
    CounterBlock.label prf numIc leafRange (CounterBlock.zero numIc) key =
      zeroLabels prf leafRange key := by
  have zeroAt : ∀ i : Nat, (List.replicate numIc (0 : UInt8)).getD i 0 = 0 := by
    intro i
    rw [List.getD_eq_getElem?_getD, List.getElem?_replicate]
    split <;> rfl
  rw [CounterBlock.label, CounterBlock.leafOf, CounterBlock.zero]
  dsimp only
  rw [zeroAt, if_neg (by decide)]
  rfl

/-- `init` leaves zero counters and the data. -/
theorem Built.ends_init {numData numIc icMax : Nat} {prf : Prf} {da : DAOram}
    (built : da.Built numData numIc icMax prf) (positive : 0 < numIc) (fewIc : numIc ≤ icMax + 1)
    (smallMax : icMax ≤ 256) {data : KeyMap Nat Bytes}
    (allKeys : ∀ key, key ∈ data.keys ↔ key < numData) :
    Ends (da.init data) (fun da' => da'.plan.Valid ∧ da'.numData = numData ∧
      da'.Represents da'.plan (fun _ _ => CounterBlock.zero numIc)
        (fun key => (data.get? key).getD [])) := by
  rcases built with ⟨rfl, rfl, rfl, rfl, manages, unused⟩
  refine Prog.ends_bind (ends_initPosMaps _ _ unused) ?_
  intro posMaps' areZero
  refine Prog.ends_pure ⟨⟨positive, fewIc, smallMax, manages⟩, rfl,
    ⟨⟨rfl, rfl, rfl, rfl, areZero.length_eq.symm, fun _ _ => rfl⟩, ?_, ?_, ?_⟩⟩
  · show List.replicate _ _ = _
    refine List.ext_getElem (by rw [List.length_replicate, List.length_map, List.length_range]; rfl)
      ?_
    intro group _ _
    simp
  · intro stage _ group _
    exact CounterBlock.sound_zero _ _ _
  · intro stage stageLe
    cases stage with
    | zero =>
        refine (labelled_loadData allKeys).congr ?_ (fun _ _ => rfl)
        intro key _
        exact (label_zero _ _ _ _).symm
    | succ level =>
        have levelLt : level < da.levelSizes.length := stageLe
        have levelLt' : level < posMaps'.length := areZero.length_eq ▸ levelLt
        have isZero : IsZero da.prf da.numIc (da.levelSizes.get ⟨level, levelLt⟩)
            (posMaps'.get ⟨level, levelLt'⟩) := areZero.get levelLt levelLt'
        have treeEq : posMaps'.getD level {} = posMaps'.get ⟨level, levelLt'⟩ := by
          simp [List.getD_eq_getElem?_getD, levelLt']
        have sizeEq : da.levelSizes.getD level 0 = da.levelSizes.get ⟨level, levelLt⟩ := by
          simp [List.getD_eq_getElem?_getD, levelLt]
        rw [← treeEq, ← sizeEq] at isZero
        refine PathORAM.Labelled.congr isZero ?_ (fun _ _ => rfl)
        intro key _
        exact (label_zero _ _ _ _).symm

end DAOram

end TieredOmap
