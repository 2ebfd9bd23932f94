import TieredOMap.Omap.AtRest
import TieredOMap.Omap.StepFixed
import TieredOMap.Omap.Uses

/-!
# The set-up of an AVL map, and what its searches find

No use of an AVL map moves its split or its height bound, and its counters count the paths it has
visited. What a search returns is what the stored nodes lead it to: `Finds` follows them down.
-/

namespace TieredOmap

namespace AVLOmap

variable {omap omap' : AVLOmap} {setting : TreeSetting} {visited : List Half}

/-- The set-up of an object, with the stores it has now. -/
def ownSetting (omap : AVLOmap) : TreeSetting where
  split := omap.orams.splitDepth
  stores := fun half => (omap.orams.get half).storage.storeId
  odsMode := omap.odsMode
  maxHeight := omap.maxHeight

theorem Fixed.ownSetting_eq (fixed : omap.Fixed setting) : omap.ownSetting = setting := by
  rcases fixed with ⟨⟨splitEq, storeEq⟩, modeEq, heightEq⟩
  rcases setting with ⟨split, stores, odsMode, maxHeight⟩
  dsimp only at splitEq storeEq modeEq heightEq
  subst splitEq modeEq heightEq
  obtain rfl : (fun half => (omap.orams.get half).storage.storeId) = stores := funext storeEq
  rfl

/-- A map that pads and has counted its visits. -/
structure SetUp (omap : AVLOmap) : Prop where
  pads : omap.odsMode = false
  maxHeight_pos : 0 < omap.maxHeight
  counted : ∃ visited, omap.Tallied omap.ownSetting visited

/-- A map that is set up as before. -/
structure SameSetUp (omap omap' : AVLOmap) : Prop where
  setUp : omap'.SetUp
  splitDepth_eq : omap'.orams.splitDepth = omap.orams.splitDepth
  maxHeight_eq : omap'.maxHeight = omap.maxHeight

theorem SetUp.same (setUp : omap.SetUp) : omap.SameSetUp omap := ⟨setUp, rfl, rfl⟩

theorem SetUp.of_tallied (setUp : omap.SetUp) (tallied : omap'.Tallied omap.ownSetting visited) :
    omap.SameSetUp omap' := by
  have sameHeight : omap'.maxHeight = omap.maxHeight := tallied.maxHeight_eq
  refine ⟨⟨tallied.odsMode_eq.trans setUp.pads, sameHeight ▸ setUp.maxHeight_pos, visited, ?_⟩,
    tallied.between.splitDepth_eq, sameHeight⟩
  rw [tallied.toFixed.ownSetting_eq]
  exact tallied

/-- Other stores, with the counters as they are. -/
theorem SetUp.reload (setUp : omap.SetUp) {orams : SplitOram}
    (sameSplit : orams.splitDepth = omap.orams.splitDepth) (rootKey rootLeaf : Int) :
    omap.SameSetUp { omap with orams, rootKey, rootLeaf } := by
  rcases setUp with ⟨pads, positive, visited, tallied⟩
  have reloaded : Tallied { omap with orams, rootKey, rootLeaf }
      { omap.ownSetting with stores := fun half => (orams.get half).storage.storeId } visited :=
    ⟨⟨⟨sameSplit, fun _ => rfl⟩, rfl, rfl⟩, tallied.opCount_eq, tallied.upperOpCount_eq,
      tallied.lowerOpCount_eq, tallied.lower_of_noSplit⟩
  refine ⟨⟨pads, positive, visited, ?_⟩, sameSplit, rfl⟩
  rw [reloaded.toFixed.ownSetting_eq]
  exact reloaded

/-! ## Construction -/

theorem maxHeightFor_positive (capacity : Int) : 0 < maxHeightFor capacity := by
  unfold maxHeightFor
  omega

theorem setUp_new (capacity bucketSize : Int) :
    Yields (new capacity bucketSize) (fun omap =>
      omap.SetUp ∧ omap.orams.splitDepth = 0) := by
  refine Prog.ends_bind (yields_any _) (fun oram _ => Prog.ends_pure
    ⟨⟨rfl, maxHeightFor_positive _, [], ?_⟩, rfl⟩)
  exact ⟨⟨⟨rfl, fun _ => rfl⟩, rfl, rfl⟩, by simp, by simp, by simp, by simp⟩

theorem setUp_newSplit (capacity bucketSize splitDepth upperCapacity : Int) :
    Yields (newSplit capacity bucketSize splitDepth upperCapacity) (fun omap =>
      omap.SetUp ∧ omap.orams.splitDepth = min splitDepth omap.maxHeight) := by
  refine Prog.ends_bind (yields_any _) (fun upperOram _ => ?_)
  refine Prog.ends_bind (yields_any _) (fun oram _ => Prog.ends_pure
    ⟨⟨rfl, maxHeightFor_positive _, [], ?_⟩, rfl⟩)
  exact ⟨⟨⟨rfl, fun _ => rfl⟩, rfl, rfl⟩, by simp, by simp, by simp, by simp⟩

/-- Giving the nodes leaves does not move the split. -/
theorem yields_assignSplitLeaves (nodes : List (Int × AVLNodeData)) (split : Int) (fuel : Nat)
    (key depth : Int) (orams : SplitOram) (splitEq : orams.splitDepth = split) :
    Yields (assignSplitLeaves nodes fuel key depth orams) (·.splitDepth = split) := by
  induction fuel generalizing key depth orams with
  | zero => exact Prog.ends_pure splitEq
  | succ fuel ih =>
      unfold assignSplitLeaves
      split
      · exact Prog.ends_pure splitEq
      · refine Prog.ends_bind (yields_any _) (fun avl _ => ?_)
        refine Prog.ends_bind (Q := fun outcome => outcome.2.splitDepth = split) ?_ ?_
        · refine Prog.ends_bind (yields_any _) (fun leaf _ => Prog.ends_pure ?_)
          rw [← splitEq]
          exact SplitOram.splitDepth_set _ _ _
        · rintro ⟨leaf, orams'⟩ splitEq'
          exact Prog.ends_bind (ih _ _ _ splitEq') (fun orams'' splitEq'' => ih _ _ _ splitEq'')

variable [Cipher]

/-- Loading a tree replaces the stores. -/
def Reloaded (omap omap' : AVLOmap) : Prop :=
  ∃ orams : SplitOram, orams.splitDepth = omap.orams.splitDepth ∧ omap' = { omap with orams }

theorem yields_initSplit (omap : AVLOmap) (root : Int) (nodes : List (Int × AVLNodeData)) :
    Yields (omap.initSplit root nodes) omap.Reloaded := by
  refine Prog.ends_bind (yields_any _) (fun upperOram _ => ?_)
  refine Prog.ends_bind (yields_any _) (fun oram _ => ?_)
  refine Prog.ends_bind (yields_assignSplitLeaves nodes omap.orams.splitDepth _ _ _ _ rfl) ?_
  intro orams splitEq
  refine Prog.ends_bind (yields_any _) (fun nodes' _ => ?_)
  refine Prog.ends_bind (yields_any _) (fun parts _ => ?_)
  refine Prog.ends_bind (yields_any _) (fun upperOram' _ => ?_)
  exact Prog.ends_bind (yields_any _) (fun oram' _ => Prog.ends_pure
    ⟨{ orams with upperOram := upperOram', oram := oram' }, splitEq, rfl⟩)

theorem yields_initWhole (omap : AVLOmap) (nodes : List (Int × AVLNodeData)) :
    Yields (omap.initWhole nodes) omap.Reloaded := by
  refine Prog.ends_bind (yields_any _) (fun oram _ => ?_)
  refine Prog.ends_bind (yields_any _) (fun oram' _ => ?_)
  exact Prog.ends_bind (yields_any _) (fun oram'' _ => Prog.ends_pure
    ⟨{ omap.orams with oram := oram'' }, rfl, rfl⟩)

theorem SetUp.yields_init (setUp : omap.SetUp) (data : List (Int × Bytes)) :
    Yields (omap.init data) omap.SameSetUp := by
  have loaded : ∀ omap', omap.Reloaded omap' → ∀ rootKey rootLeaf,
      omap.SameSetUp { omap' with rootKey, rootLeaf } := by
    rintro _ ⟨orams, splitEq, rfl⟩ rootKey rootLeaf
    exact setUp.reload splitEq rootKey rootLeaf
  unfold AVLOmap.init
  split
  · exact Prog.ends_pure (setUp.reload rfl _ _)
  · refine Prog.ends_bind (yields_any _) (fun nodes _ => ?_)
    refine Prog.ends_bind (yields_any _) ?_
    rintro ⟨height, nodes'⟩ _
    dsimp only
    split
    · exact Prog.ends_bind (omap.yields_initSplit _ _)
        (fun omap' reloaded => Prog.ends_pure (loaded omap' reloaded _ _))
    · exact Prog.ends_bind (omap.yields_initWhole _)
        (fun omap' reloaded => Prog.ends_pure (loaded omap' reloaded _ _))

/-! ## Use -/

omit [Cipher] in
theorem SetUp.yields_of_sends {program : Rand AVLOmap} {post : AVLOmap → List StorageReq → Prop}
    (setUp : omap.SetUp) (sends : Sends program post)
    (tallied : ∀ omap' sent, post omap' sent → ∃ visited, omap'.Tallied omap.ownSetting visited) :
    Yields program omap.SameSetUp := by
  refine (TieredOmap.yields_of_sends sends).mono ?_
  rintro omap' ⟨sent, holds⟩
  rcases tallied omap' sent holds with ⟨visited, tallied'⟩
  exact setUp.of_tallied tallied'

omit [Cipher] in
theorem Operated.counted {sent : List StorageReq} (operated : Operated setting omap' sent) :
    ∃ visited, omap'.Tallied setting visited := by
  rcases operated with ⟨visited, _, tallied, _⟩
  exact ⟨_, tallied⟩

theorem SetUp.sends_perform (setUp : omap.SetUp) (operation : MapCall) :
    Sends (operation.perform omap) (Operated omap.ownSetting) := by
  rcases setUp.counted with ⟨visited, tallied⟩
  have fixed := tallied.toFixed
  cases operation with
  | search key update =>
      refine Prog.emits_bind (fixed.sends_search key update) ?_
      rintro ⟨result, found⟩ sent operated
      refine Prog.emits_pure ?_
      rwa [List.append_nil]
  | insert key value => exact fixed.sends_insert key value
  | remove key => exact fixed.sends_remove key
  | dummyAccess => exact fixed.sends_dummyAccess setUp.pads

theorem SetUp.yields_partialDummyAccess (setUp : omap.SetUp) :
    Yields omap.partialDummyAccess omap.SameSetUp := by
  rcases setUp.counted with ⟨visited, tallied⟩
  unfold AVLOmap.partialDummyAccess
  split
  · exact setUp.yields_of_sends (tallied.toFixed.sends_dummyAccess setUp.pads)
      (fun _ _ operated => operated.counted)
  · rename_i notLow
    have isSplit : 0 < omap.orams.splitDepth := not_le.mp notLow
    set effSplit := min omap.orams.splitDepth (3 * omap.maxHeight) with effDef
    refine Prog.ends_bind (TieredOmap.yields_of_sends
      (tallied.between.sends_dummyAccesses _ _)) ?_
    rintro orams ⟨_, between, _⟩
    refine Prog.ends_bind (TieredOmap.yields_of_sends (between.sends_dummyAccess _)) ?_
    rintro orams' ⟨_, between', _⟩
    have counts : effSplit = (effSplit.toNat : Int) := by
      have positive := setUp.maxHeight_pos
      omega
    have visits : Tallied { omap.resetOpCounts with
        orams := orams', upperOpCount := effSplit, lowerOpCount := 1 } omap.ownSetting
        (List.replicate effSplit.toNat .upper ++ [.lower]) := by
      refine ⟨⟨between', rfl, rfl⟩, ?_, ?_, ?_, fun noSplit => absurd isSplit noSplit⟩
      · change (0 : Int) = ((if 0 < omap.orams.splitDepth then 0 else _ : Nat) : Int)
        rw [if_pos isSplit]
        rfl
      · change effSplit = ((if 0 < omap.orams.splitDepth then _ else _ : Nat) : Int)
        rw [if_pos isSplit]
        simpa using counts
      · change (1 : Int) = ((if 0 < omap.orams.splitDepth then _ else _ : Nat) : Int)
        rw [if_pos isSplit]
        simp [List.count_replicate]
    exact Prog.ends_pure (setUp.of_tallied visits)

theorem SetUp.yields_run (setUp : omap.SetUp) (use : OmapUse) :
    Yields (use.run omap) omap.SameSetUp := by
  rcases setUp.counted with ⟨visited, tallied⟩
  have still : ∀ {omap' : AVLOmap}, omap'.Tallied omap.ownSetting visited →
      omap.SameSetUp omap' := fun tallied' => setUp.of_tallied tallied'
  have begun : ∀ ss, omap.SameSetUp (omap.beginStep ss) :=
    fun ss => setUp.of_tallied (tallied.toFixed.beginStep ss)
  cases use with
  | init data => exact setUp.yields_init data
  | call operation =>
      exact setUp.yields_of_sends (setUp.sends_perform operation)
        (fun _ _ operated => operated.counted)
  | partialDummyAccess => exact setUp.yields_partialDummyAccess
  | beginStepSearch key update => exact Prog.ends_pure (begun _)
  | beginStepDummy => exact Prog.ends_pure (begun _)
  | beginStepPartialDummy =>
      refine Prog.ends_pure ?_
      change omap.SameSetUp omap.beginStepPartialDummy
      unfold AVLOmap.beginStepPartialDummy
      split
      · exact begun _
      · exact begun _
  | stepNextRound =>
      refine Prog.ends_bind (TieredOmap.yields_of_sends tallied.silent_stepNextRound) ?_
      rintro ⟨reads, asked⟩ ⟨_, ⟨_, main, piggyback, nodeInLocal, _, _, rfl⟩, _⟩
      exact Prog.ends_pure (still { tallied with })
  | stepApplyReads results => exact Prog.ends_pure (still (tallied.stepApplyReads results))
  | stepProcess =>
      exact setUp.yields_of_sends tallied.silent_stepProcess (fun _ _ processed => processed.1)
  | stepPrepareWrites =>
      refine Prog.ends_bind (TieredOmap.yields_of_sends tallied.silent_stepPrepareWrites) ?_
      rintro ⟨writes, prepared⟩ ⟨_, ⟨_, orams, between, rfl⟩, _⟩
      exact Prog.ends_pure (still (tallied.withOrams between))
  | writeStore request => exact Prog.ends_pure (still (tallied.writeStore request))
  | setStepDecisionEnabled enable => exact Prog.ends_pure setUp.same
  | stepCommitRemove => exact Prog.ends_pure setUp.same
  | stepCommitNoop => exact Prog.ends_pure setUp.same
  | setPiggybackDecisionEnabled enable => exact Prog.ends_pure setUp.same
  | beginPiggybackSearch key => exact Prog.ends_pure (still (tallied.beginPiggybackSearch key))
  | beginPiggybackInsert key value =>
      exact setUp.yields_of_sends (tallied.silent_beginPiggybackInsert key value)
        (fun _ _ begun => ⟨_, begun.1⟩)
  | beginPiggybackDummy => exact Prog.ends_pure (still (tallied.withPb _))
  | piggybackCommitRemove => exact Prog.ends_pure setUp.same
  | piggybackCommitNoop => exact Prog.ends_pure setUp.same

/-! ## Without a split -/

omit [Cipher] in
/-- Without a split an operation reads and writes back `3 * max_height_` paths of the one store. -/
theorem Operated.whole {sent : List StorageReq} (operated : Operated setting omap' sent)
    (pads : setting.odsMode = false) (noSplit : ¬0 < setting.split) :
    sent = pathAccesses (setting.stores .lower) (3 * setting.maxHeight.toNat) := by
  rcases operated with ⟨visited, within, tallied, rfl⟩
  have allLower := tallied.lower_of_noSplit noSplit
  have lengthEq : (visited ++ setting.avlPadding visited).length = 3 * setting.maxHeight.toNat := by
    unfold TreeSetting.avlPadding
    rw [if_neg (by simp [pads]), if_neg noSplit, List.length_append, List.length_replicate]
    omega
  rw [visitRequests_of_forall allLower, lengthEq]

/-! ## What a search finds -/

omit [Cipher] in
theorem countOp_orams (omap : AVLOmap) (depth : Int) :
    (omap.countOp depth).orams = omap.orams := by
  unfold countOp
  split
  · split <;> rfl
  · rfl

/-- The node that a payload encodes. -/
def nodeOf (raw : Bytes) : AVLNodeData where
  lKey := bytesToInt raw
  lLeaf := bytesToInt (raw.drop 4)
  lHeight := bytesToInt (raw.drop 8)
  rKey := bytesToInt (raw.drop 12)
  rLeaf := bytesToInt (raw.drop 16)
  rHeight := bytesToInt (raw.drop 20)
  data := raw.drop avlHeaderSize

omit [Cipher] in
theorem yields_decode (raw : Bytes) : Yields (AVLNodeData.decode raw) (· = nodeOf raw) := by
  unfold AVLNodeData.decode
  split
  · exact Prog.ends_fail trivial
  · exact Prog.ends_pure rfl

/--
What the stored nodes lead a search to, from the node `curKey` at a depth on: the value of the key,
or nothing if there is no node, or none within the height.
-/
inductive Finds (orams : SplitOram) (maxHeight key : Int) : (curKey depth : Int) → Bytes → Prop
  | nowhere {depth : Int} : Finds orams maxHeight key invalidKey depth []
  | bottom {curKey depth : Int} (deep : maxHeight ≤ depth) :
      Finds orams maxHeight key curKey depth []
  | here {depth : Int} {block : Block} (isNode : key ≠ invalidKey) (within : depth < maxHeight)
      (stored : orams.Stored (orams.halfForDepth depth) block) (isBlock : block.key = key) :
      Finds orams maxHeight key key depth (nodeOf block.value).data
  | left {curKey depth : Int} {block : Block} {found : Bytes} (isNode : curKey ≠ invalidKey)
      (within : depth < maxHeight) (stored : orams.Stored (orams.halfForDepth depth) block)
      (isBlock : block.key = curKey) (before : key < curKey)
      (below : Finds orams maxHeight key (nodeOf block.value).lKey (depth + 1) found) :
      Finds orams maxHeight key curKey depth found
  | right {curKey depth : Int} {block : Block} {found : Bytes} (isNode : curKey ≠ invalidKey)
      (within : depth < maxHeight) (stored : orams.Stored (orams.halfForDepth depth) block)
      (isBlock : block.key = curKey) (after : curKey < key)
      (below : Finds orams maxHeight key (nodeOf block.value).rKey (depth + 1) found) :
      Finds orams maxHeight key curKey depth found

theorem yields_moveToLocal (omap : AVLOmap) (key leaf parentKey depth : Int) :
    Yields (omap.moveToLocal key leaf parentKey depth) (fun outcome =>
      (∃ block, omap.orams.Stored (omap.orams.halfForDepth depth) block ∧ block.key = key ∧
        outcome.1.avl = nodeOf block.value) ∧
      SplitOram.NothingNew omap.orams outcome.2.orams ∧
      outcome.2.orams.splitDepth = omap.orams.splitDepth) := by
  unfold moveToLocal
  refine Prog.ends_bind (PathORAM.yields_readPathToStash _ leaf) ?_
  intro fetched fetchedSame
  refine Prog.ends_bind (fetched.yields_extractFromStash key) ?_
  rintro ⟨block, extracted⟩ ⟨isBlock, stored, extractedSame⟩
  refine Prog.ends_bind (yields_decode block.value) ?_
  rintro avl rfl
  refine Prog.ends_bind (extracted.yields_evictStash [leaf]) ?_
  intro written writtenSame
  refine Prog.ends_pure ⟨⟨block, fetchedSame block stored, isBlock, rfl⟩, ?_⟩
  rw [countOp_orams]
  exact ⟨SplitOram.nothingNew_set ((fetchedSame.trans extractedSame).trans writtenSame),
    SplitOram.splitDepth_set _ _ _⟩

/-- A search goes where the nodes that were stored when it began lead it. -/
theorem yields_searchLoop (key : Int) (update : Option Bytes) {start : SplitOram}
    {maxHeight : Int} (count : Nat) (d curKey curLeaf : Int) (omap : AVLOmap)
    (sameSplit : omap.orams.splitDepth = start.splitDepth)
    (same : SplitOram.NothingNew start omap.orams) (nonneg : 0 ≤ d)
    (inHeight : d + count = (maxHeight.toNat : Int)) :
    Yields (searchLoop key update count d curKey curLeaf omap) (fun outcome =>
      Finds start maxHeight key curKey d outcome.1) := by
  induction count generalizing d curKey curLeaf omap with
  | zero => exact Prog.ends_pure (.bottom (by omega))
  | succ count ih =>
      unfold searchLoop
      split
      · rename_i isInvalid
        exact Prog.ends_pure (isInvalid ▸ .nowhere)
      · rename_i isNode
        have halfEq : omap.orams.halfForDepth d = start.halfForDepth d := by
          unfold SplitOram.halfForDepth
          rw [sameSplit]
        have within : d < maxHeight := by omega
        refine Prog.ends_bind (omap.yields_moveToLocal curKey curLeaf omap.lastKey d) ?_
        rintro ⟨node, moved⟩ ⟨⟨block, stored, isBlock, nodeEq⟩, movedSame, movedSplit⟩
        dsimp only at nodeEq movedSame movedSplit ⊢
        rw [halfEq] at stored
        have storedThere := same _ block stored
        rw [nodeEq]
        split
        · rename_i keyEq
          subst keyEq
          exact Prog.ends_pure (.here isNode within storedThere isBlock)
        · rename_i keyNe
          split
          · rename_i before
            exact (ih (d + 1) _ _ moved (movedSplit.trans sameSplit) (same.trans movedSame)
              (by omega) (by omega)).mono
              (fun _ below => .left isNode within storedThere isBlock before below)
          · exact (ih (d + 1) _ _ moved (movedSplit.trans sameSplit) (same.trans movedSame)
              (by omega) (by omega)).mono
              (fun _ below => .right isNode within storedThere isBlock (by omega) below)

/-- A search finds what the stored nodes lead it to. -/
theorem yields_search (omap : AVLOmap) (key : Int) (update : Option Bytes) :
    Yields (omap.search key update) (fun outcome =>
      Finds omap.orams omap.maxHeight key omap.rootKey 0 outcome.1) := by
  unfold search
  dsimp only
  split
  · rename_i isEmpty
    refine Prog.ends_bind (yields_any _) (fun padded _ => Prog.ends_pure ?_)
    have emptyRoot : omap.rootKey = invalidKey := isEmpty
    rw [emptyRoot]
    exact .nowhere
  · refine Prog.ends_bind (yields_searchLoop key update _ 0 _ _ _ rfl
      (SplitOram.NothingNew.refl _) (le_refl 0) (zero_add _)) ?_
    rintro ⟨result, found⟩ finds
    refine Prog.ends_bind (yields_any _) (fun reassigned _ => ?_)
    exact Prog.ends_bind (yields_any _) (fun padded _ => Prog.ends_pure finds)

end AVLOmap

end TieredOmap
