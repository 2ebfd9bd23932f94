import TieredOMap.Omap.AtRest
import TieredOMap.Omap.BplusStepFixed
import TieredOMap.Omap.Uses

/-!
# What a B+ map shows of its operations

An operation is padded to `split_upper_budget` accesses to the upper ORAM and the rest of
`3 * max_height_` to the lower one. A traversal stays within both, with one exception: the dummy
next to a tree leaf goes to the leaf's own level, not to the one below, so that a leaf on the last
upper level makes one access more than the budget of the upper ORAM.
-/

namespace TieredOmap

/-! ## Counting the visits of a traversal -/

theorem count_upper_pairsBelow {split : Int} (isSplit : 0 < split) {depth : Int}
    (nonneg : 0 ≤ depth) (steps : Nat) :
    ((pairsBelow split depth steps).count .upper : Int) =
      (min split (depth + steps) - min split depth) +
        (min split (depth + 1 + steps) - min split (depth + 1)) := by
  induction steps generalizing depth with
  | zero => simp [pairsBelow]
  | succ steps ih =>
      rw [pairsBelow, List.count_cons, List.count_cons]
      push_cast
      rw [ih (by omega)]
      by_cases above : depth < split <;> by_cases below : depth + 1 < split <;>
        simp [halfAt, isSplit, above, below] <;> omega

theorem count_upper_traverseVisits {split : Int} (isSplit : 0 < split) (steps : Nat)
    (atLeaf : Bool) :
    ((traverseVisits split 0 steps atLeaf).count .upper : Int) =
      min split steps + min split (steps + 1) - 1 +
        if atLeaf = true ∧ (steps : Int) < split then 2 else 0 := by
  have pairs := count_upper_pairsBelow isSplit (le_refl 0) steps
  rw [traverseVisits, List.count_append]
  push_cast
  rw [pairs]
  cases atLeaf <;> by_cases above : (steps : Int) < split <;>
    simp [halfAt, isSplit, above] <;> omega

namespace BPlusOmap

variable {omap omap' : BPlusOmap} {setting : TreeSetting}

/-! ## The set-up in every state -/

/-- The set-up of an object, with the stores it has now. -/
def ownSetting (omap : BPlusOmap) : TreeSetting where
  split := omap.orams.splitDepth
  stores := fun half => (omap.orams.get half).storage.storeId
  odsMode := omap.odsMode
  maxHeight := omap.maxHeight

theorem fixed_ownSetting (omap : BPlusOmap) : omap.Fixed omap.ownSetting :=
  ⟨⟨rfl, fun _ => rfl⟩, rfl, rfl⟩

/-- A map of its own: it pads, and the tree is not split below its height bound. -/
structure SetUp (omap : BPlusOmap) : Prop where
  pads : omap.odsMode = false
  maxHeight_pos : 0 < omap.maxHeight
  split_le : omap.orams.splitDepth ≤ omap.maxHeight

theorem SetUp.of_same (setUp : omap.SetUp) (sameSplit : omap'.orams.splitDepth = omap.orams.splitDepth)
    (sameMode : omap'.odsMode = omap.odsMode) (sameHeight : omap'.maxHeight = omap.maxHeight) :
    omap'.SetUp := by
  refine ⟨?_, ?_, ?_⟩
  · rw [sameMode, setUp.pads]
  · rw [sameHeight]
    exact setUp.maxHeight_pos
  · rw [sameSplit, sameHeight]
    exact setUp.split_le

theorem SetUp.of_fixed (setUp : omap.SetUp) (fixed : omap'.Fixed omap.ownSetting) : omap'.SetUp :=
  setUp.of_same fixed.between.splitDepth_eq fixed.odsMode_eq fixed.maxHeight_eq

theorem SetUp.yields {program : Rand BPlusOmap} (setUp : omap.SetUp)
    (fixed : Silent program (fun omap' => omap'.Fixed omap.ownSetting)) : Yields program SetUp :=
  (yields_of_sends fixed).mono (fun _ outcome => setUp.of_fixed outcome.choose_spec.1)

/-! ### Construction -/

theorem maxHeightFor_pos (capacity : Int) (order : Nat) : 0 < maxHeightFor capacity order := by
  unfold maxHeightFor
  dsimp only
  omega

theorem setUp_new (capacity : Int) (order : Nat) (bucketSize : Int) :
    Yields (new capacity order bucketSize) SetUp := by
  have positive := maxHeightFor_pos capacity order
  exact Prog.ends_bind (yields_any _) (fun _ _ => Prog.ends_pure ⟨rfl, positive, positive.le⟩)

theorem setUp_newSplit (capacity : Int) (order : Nat)
    (bucketSize splitDepth upperCapacity : Int) :
    Yields (newSplit capacity order bucketSize splitDepth upperCapacity) SetUp :=
  Prog.ends_bind (yields_any _) (fun _ _ => Prog.ends_bind (yields_any _)
    (fun _ _ => Prog.ends_pure ⟨rfl, maxHeightFor_pos capacity order, min_le_right _ _⟩))

theorem SetUp.setIndexMode (setUp : omap.SetUp) (indexMode : Bool) :
    (omap.setIndexMode indexMode).SetUp := by
  have positive : ∀ height : Int, 0 < max 1 height := by
    intro height
    omega
  unfold BPlusOmap.setIndexMode
  split
  · exact setUp
  · split
    · exact ⟨setUp.pads, setUp.maxHeight_pos, setUp.split_le⟩
    · exact ⟨setUp.pads, positive _, min_le_right _ _⟩

theorem yields_forChildren {State : Type} {P : State → Prop} {action : Int → State → Rand State}
    (each : ∀ id state, P state → Yields (action id state) P) (ids : List Int) {state : State}
    (holds : P state) : Yields (forChildren action ids state) P := by
  induction ids generalizing state with
  | nil => exact Prog.ends_pure holds
  | cons id rest ih => exact Prog.ends_bind (each id state holds) (fun _ kept => ih kept)

/-- Giving the nodes leaves does not move the split. -/
theorem yields_assignSplitLeaves (nodes : List (Int × BPlusNode)) (split : Int) (fuel : Nat)
    (id depth : Int) (orams : SplitOram) (splitEq : orams.splitDepth = split) :
    Yields (assignSplitLeaves nodes fuel id depth orams) (·.splitDepth = split) := by
  induction fuel generalizing id depth orams with
  | zero => exact Prog.ends_pure splitEq
  | succ fuel ih =>
      unfold assignSplitLeaves
      split
      · exact Prog.ends_pure splitEq
      · refine Prog.ends_bind (yields_any _) (fun node _ => ?_)
        refine Prog.ends_bind (Q := fun outcome => outcome.2.splitDepth = split) ?_ ?_
        · refine Prog.ends_bind (yields_any _) (fun leaf _ => Prog.ends_pure ?_)
          rw [← splitEq]
          exact SplitOram.splitDepth_set _ _ _
        · rintro ⟨leaf, orams'⟩ splitEq'
          dsimp only
          split
          · exact Prog.ends_pure splitEq'
          · exact yields_forChildren (fun child orams'' => ih child (depth + 1) orams'') _ splitEq'

variable [Cipher]

theorem SetUp.initSplit (setUp : omap.SetUp) (root : Int) (nodes : List (Int × BPlusNode)) :
    Yields (omap.initSplit root nodes) SetUp := by
  refine Prog.ends_bind (yields_any _) (fun upperOram _ => ?_)
  refine Prog.ends_bind (yields_any _) (fun oram _ => ?_)
  refine Prog.ends_bind (yields_assignSplitLeaves nodes omap.orams.splitDepth _ _ _ _ rfl) ?_
  intro orams splitEq
  refine Prog.ends_bind (yields_any _) (fun nodes' _ => ?_)
  refine Prog.ends_bind (yields_any _) (fun parts _ => ?_)
  refine Prog.ends_bind (yields_any _) (fun upperOram' _ => ?_)
  refine Prog.ends_bind (yields_any _) (fun oram' _ => Prog.ends_pure ?_)
  exact setUp.of_same splitEq rfl rfl

theorem SetUp.initWhole (setUp : omap.SetUp) (nodes : List (Int × BPlusNode)) :
    Yields (omap.initWhole nodes) SetUp := by
  refine Prog.ends_bind (yields_any _) (fun oram _ => ?_)
  refine Prog.ends_bind (yields_any _) (fun oram' _ => ?_)
  exact Prog.ends_bind (yields_any _) (fun _ _ => Prog.ends_pure (setUp.of_same rfl rfl rfl))

theorem SetUp.init (setUp : omap.SetUp) (data : List (Int × Bytes)) :
    Yields (omap.init data) SetUp := by
  have renumbered : ∀ nextBlockId, { omap with nextBlockId }.SetUp :=
    fun _ => setUp.of_same rfl rfl rfl
  have rooted : ∀ omap' : BPlusOmap, omap'.SetUp → ∀ rootId rootLeaf,
      { omap' with rootId, rootLeaf }.SetUp :=
    fun _ setUp' _ _ => setUp'.of_same rfl rfl rfl
  unfold BPlusOmap.init
  split
  · exact Prog.ends_pure (rooted _ setUp _ _)
  · dsimp only
    split
    · exact Prog.ends_bind ((renumbered _).initSplit _ _)
        (fun _ loaded => Prog.ends_pure (rooted _ loaded _ _))
    · exact Prog.ends_bind ((renumbered _).initWhole _)
        (fun _ loaded => Prog.ends_pure (rooted _ loaded _ _))

theorem setUp_create (config : BPlusConfig) (data : List (Int × Bytes)) :
    Yields (create config data) SetUp := by
  unfold create
  split
  · exact Prog.ends_bind (setUp_new _ _ _) (fun _ made => (made.setIndexMode _).init data)
  · exact Prog.ends_bind (setUp_newSplit _ _ _ _ _) (fun _ made => (made.setIndexMode _).init data)

/-! ### Use -/

omit [Cipher] in
theorem Fixed.silent_piggybackCommit (fixed : omap.Fixed setting) {changed : BPlusOmap}
    (changedFixed : changed.Fixed setting) :
    Silent (if omap.pb.phase ≠ .decision then return omap
      else do
        let omap ← changed.reassignAllLeaves
        return omap.flushAllToStash.endPiggyback) (fun omap' => omap'.Fixed setting) := by
  split
  · exact silent_pure fixed
  · refine silent_bind changedFixed.silent_reassignAndFlush ?_
    intro flushed kept
    exact silent_pure (kept.toFixed.setPb _)

omit [Cipher] in
theorem Operated.fixed {way : Option Int → Prop} {sent : List StorageReq}
    (operated : Operated setting way omap' sent) : omap'.Fixed setting := by
  rcases operated with ⟨steps, atLeaf, _, _, tallied, _⟩
  exact tallied.toFixed

/-- The ways down the stored tree that a call may take; a dummy access takes none. -/
def WayOf (omap : BPlusOmap) : MapCall → Option Int → Prop
  | .search key _ | .insert key _ | .remove key => omap.LeadsTo key
  | .dummyAccess => (· = none)

theorem Fixed.sends_perform (fixed : omap.Fixed setting) (operation : MapCall) :
    Sends (operation.perform omap) (Operated setting (omap.WayOf operation)) := by
  cases operation with
  | search key update =>
      refine Prog.emits_bind (fixed.sends_search key update) ?_
      rintro ⟨result, found⟩ sent operated
      refine Prog.emits_pure ?_
      rwa [List.append_nil]
  | insert key value => exact fixed.sends_insert key value
  | remove key => exact fixed.sends_remove key
  | dummyAccess => exact fixed.sends_dummyAccess

theorem SetUp.partialDummyAccess (setUp : omap.SetUp) : Yields omap.partialDummyAccess SetUp := by
  have fixed := omap.fixed_ownSetting
  unfold BPlusOmap.partialDummyAccess
  split
  · exact (yields_of_sends fixed.sends_dummyAccess).mono
      (fun _ outcome => setUp.of_fixed outcome.choose_spec.fixed)
  · refine Prog.ends_bind (yields_of_sends (fixed.between.sends_dummyAccesses _ _)) ?_
    rintro orams ⟨_, between, _⟩
    refine Prog.ends_bind (yields_of_sends (between.sends_dummyAccess _)) ?_
    rintro orams' ⟨_, between', _⟩
    exact Prog.ends_pure (setUp.of_same between'.splitDepth_eq rfl rfl)

omit [Cipher] in
theorem SetUp.beginStepPartialDummy (setUp : omap.SetUp) : omap.beginStepPartialDummy.SetUp := by
  unfold BPlusOmap.beginStepPartialDummy
  split
  · exact setUp.of_same rfl rfl rfl
  · exact setUp.of_same rfl rfl rfl

omit [Cipher] in
theorem Fixed.silent_piggybackCommitRemove (fixed : omap.Fixed setting) :
    Silent omap.piggybackCommitRemove (fun omap' => omap'.Fixed setting) := by
  refine fixed.silent_piggybackCommit ?_
  split
  · rename_i idx _
    have erased : { omap with local_ := omap.local_.modify idx (fun last =>
        { last with node := last.node.eraseEntry omap.pb.key }) }.Fixed setting := { fixed with }
    exact erased.handleDeleteUnderflow.toFixed
  · exact fixed

theorem SetUp.yields_run (setUp : omap.SetUp) (use : OmapUse) : Yields (use.run omap) SetUp := by
  have fixed := omap.fixed_ownSetting
  cases use with
  | init data => exact setUp.init data
  | call operation =>
      exact (yields_of_sends (fixed.sends_perform operation)).mono
        (fun _ outcome => setUp.of_fixed outcome.choose_spec.fixed)
  | partialDummyAccess => exact setUp.partialDummyAccess
  | beginStepSearch key update => exact Prog.ends_pure (setUp.of_fixed (fixed.beginStep _))
  | beginStepDummy => exact Prog.ends_pure (setUp.of_fixed (fixed.beginStep _))
  | beginStepPartialDummy => exact Prog.ends_pure setUp.beginStepPartialDummy
  | stepNextRound =>
      refine Prog.ends_bind (yields_of_sends fixed.silent_stepNextRound) ?_
      rintro ⟨reads, asked⟩ ⟨_, ⟨_, main, piggyback, nodeInLocal, _, _, rfl⟩, _⟩
      exact Prog.ends_pure (setUp.of_same rfl rfl rfl)
  | stepApplyReads results => exact Prog.ends_pure (setUp.of_fixed (fixed.stepApplyReads results))
  | stepProcess => exact setUp.yields fixed.silent_stepProcess
  | stepPrepareWrites =>
      refine Prog.ends_bind (yields_of_sends fixed.silent_stepPrepareWrites) ?_
      rintro ⟨writes, prepared⟩ ⟨_, ⟨_, orams, between, rfl⟩, _⟩
      exact Prog.ends_pure (setUp.of_fixed (fixed.withOrams between))
  | writeStore request => exact Prog.ends_pure (setUp.of_fixed (fixed.writeStore request))
  | setStepDecisionEnabled enable => exact Prog.ends_pure (setUp.of_same rfl rfl rfl)
  | stepCommitRemove => exact setUp.yields fixed.silent_stepCommitRemove
  | stepCommitNoop => exact setUp.yields fixed.silent_stepCommitNoop
  | setPiggybackDecisionEnabled enable => exact Prog.ends_pure (setUp.of_same rfl rfl rfl)
  | beginPiggybackSearch key =>
      exact Prog.ends_pure (setUp.of_fixed (fixed.beginPiggybackSearch key))
  | beginPiggybackInsert key value =>
      exact setUp.yields (fixed.silent_beginPiggybackInsert key value)
  | beginPiggybackDummy => exact Prog.ends_pure (setUp.of_same rfl rfl rfl)
  | piggybackCommitRemove => exact setUp.yields fixed.silent_piggybackCommitRemove
  | piggybackCommitNoop => exact setUp.yields (fixed.silent_piggybackCommit fixed)

/-! ## On budget -/

/-- The accesses fit the budgets: so many to the upper ORAM, the rest to the lower one. -/
def OnBudget (omap : BPlusOmap) (sent : List StorageReq) : Prop :=
  ∃ visited : List Half, sent = visitRequests omap.ownSetting.stores visited ∧
    (visited.count .upper : Int) = omap.splitUpperBudget ∧
    (visited.count .lower : Int) = 3 * omap.maxHeight - omap.splitUpperBudget

omit [Cipher] in
theorem length_visitRequests (stores : Half → Nat) (visited : List Half) :
    (visitRequests stores visited).length = 2 * visited.length := by
  induction visited with
  | nil => rfl
  | cons half rest ih =>
      have cons : visitRequests stores (half :: rest) =
          visitRequests stores [half] ++ visitRequests stores rest :=
        visitRequests_append stores [half] rest
      rw [cons, List.length_append, ih]
      simp [visitRequests, pathAccesses]
      omega

/-- A traversal that ends at a leaf of the last upper level. -/
def EndsAbove (omap : BPlusOmap) (last : Option Int) : Prop :=
  0 < omap.orams.splitDepth ∧ last = some (omap.orams.splitDepth - 1)

/-- The visits of a traversal and its padding. -/
def paddedVisits (omap : BPlusOmap) (steps : Nat) (atLeaf : Bool) : List Half :=
  let visited := traverseVisits omap.orams.splitDepth 0 steps atLeaf
  visited ++ omap.ownSetting.bplusPadding visited

omit [Cipher] in
theorem SetUp.counts_of_noSplit (setUp : omap.SetUp) (noSplit : ¬0 < omap.orams.splitDepth)
    {steps : Nat} {atLeaf : Bool} (within : steps + atLeaf.toNat ≤ omap.maxHeight.toNat) :
    ((omap.paddedVisits steps atLeaf).count .upper : Int) = 0 ∧
      ((omap.paddedVisits steps atLeaf).count .lower : Int) = 3 * omap.maxHeight := by
  have positive := setUp.maxHeight_pos
  have lengthEq := length_traverseVisits omap.orams.splitDepth 0 steps atLeaf
  have noUpper : (traverseVisits omap.orams.splitDepth 0 steps atLeaf).count .upper = 0 := by
    refine List.count_eq_zero.mpr ?_
    intro mem
    cases lower_of_mem_traverseVisits noSplit _ mem
  have parts := length_eq_counts (traverseVisits omap.orams.splitDepth 0 steps atLeaf)
  have padding : omap.ownSetting.bplusPadding
      (traverseVisits omap.orams.splitDepth 0 steps atLeaf) =
        List.replicate (3 * omap.maxHeight - (traverseVisits omap.orams.splitDepth 0 steps
          atLeaf).length).toNat .lower := by
    have noSplit' : ¬0 < omap.ownSetting.split := noSplit
    unfold TreeSetting.bplusPadding
    rw [if_neg (by simp [ownSetting, setUp.pads]), if_neg noSplit']
    rfl
  unfold paddedVisits
  dsimp only
  rw [padding, List.count_append, List.count_append, noUpper, List.count_replicate,
    List.count_replicate]
  simp only [beq_self_eq_true, if_true, reduceCtorEq, beq_iff_eq, if_false]
  omega

omit [Cipher] in
/-- The padding fills both shares, as far as the visits have left room. -/
theorem SetUp.counts_of_split (setUp : omap.SetUp) (isSplit : 0 < omap.orams.splitDepth)
    (steps : Nat) (atLeaf : Bool) :
    let visited := traverseVisits omap.orams.splitDepth 0 steps atLeaf
    ((omap.paddedVisits steps atLeaf).count .upper : Int) =
        max (visited.count .upper : Int) (2 * omap.orams.splitDepth - 1) ∧
      ((omap.paddedVisits steps atLeaf).count .lower : Int) = max (visited.count .lower : Int)
        (3 * omap.maxHeight - (2 * omap.orams.splitDepth - 1)) := by
  have bounded := setUp.split_le
  have budget : omap.ownSetting.upperBudget = 2 * omap.orams.splitDepth - 1 := by
    have notLow : ¬omap.ownSetting.split ≤ 0 := not_le.mpr isSplit
    unfold TreeSetting.upperBudget
    rw [if_neg notLow]
    change min (2 * omap.orams.splitDepth - 1) (3 * omap.maxHeight) = _
    omega
  have padding : ∀ visited, omap.ownSetting.bplusPadding visited =
      List.replicate (2 * omap.orams.splitDepth - 1 - visited.count .upper).toNat .upper ++
        List.replicate (3 * omap.maxHeight - (2 * omap.orams.splitDepth - 1) -
          visited.count .lower).toNat .lower := by
    intro visited
    have isSplit' : 0 < omap.ownSetting.split := isSplit
    unfold TreeSetting.bplusPadding
    rw [if_neg (by simp [ownSetting, setUp.pads]), if_pos isSplit', budget]
    rfl
  unfold paddedVisits
  dsimp only
  rw [padding]
  simp only [List.count_append, List.count_replicate, beq_self_eq_true, if_true, reduceCtorEq,
    beq_iff_eq, if_false]
  omega

omit [Cipher] in
/-- The visits of a padded traversal fit the budgets, unless it ends above the boundary. -/
theorem SetUp.counts_of_notAbove (setUp : omap.SetUp) {steps : Nat} {atLeaf : Bool}
    (within : steps + atLeaf.toNat ≤ omap.maxHeight.toNat)
    (notAbove : ¬omap.EndsAbove (lastDepth 0 steps atLeaf)) :
    ((omap.paddedVisits steps atLeaf).count .upper : Int) = omap.splitUpperBudget ∧
      ((omap.paddedVisits steps atLeaf).count .lower : Int) =
        3 * omap.maxHeight - omap.splitUpperBudget := by
  have bounded := setUp.split_le
  have positive := setUp.maxHeight_pos
  unfold splitUpperBudget
  by_cases isSplit : 0 < omap.orams.splitDepth
  · have counts := setUp.counts_of_split isSplit steps atLeaf
    have upper := count_upper_traverseVisits isSplit steps atLeaf
    have lengthEq := length_traverseVisits omap.orams.splitDepth 0 steps atLeaf
    have parts := length_eq_counts (traverseVisits omap.orams.splitDepth 0 steps atLeaf)
    have elsewhere : atLeaf = true → (steps : Int) ≠ omap.orams.splitDepth - 1 := by
      rintro rfl here
      exact notAbove ⟨isSplit, by simp [lastDepth, here]⟩
    dsimp only at counts
    rw [if_neg (by omega)]
    cases atLeaf with
    | true =>
        have apart := elsewhere rfl
        simp only [true_and, Bool.toNat_true] at upper within lengthEq
        split at upper <;> omega
    | false =>
        simp only [Bool.false_eq_true, false_and, if_false, Bool.toNat_false] at upper within lengthEq
        omega
  · have counts := setUp.counts_of_noSplit isSplit within
    rw [if_pos (by omega)]
    omega

omit [Cipher] in
/-- A traversal that ends above the boundary makes one access too many. -/
theorem SetUp.length_of_above (setUp : omap.SetUp) {steps : Nat} {atLeaf : Bool}
    (above : omap.EndsAbove (lastDepth 0 steps atLeaf)) :
    ((omap.paddedVisits steps atLeaf).length : Int) = 3 * omap.maxHeight + 1 := by
  rcases above with ⟨isSplit, endsHere⟩
  have bounded := setUp.split_le
  have counts := setUp.counts_of_split isSplit steps atLeaf
  have upper := count_upper_traverseVisits isSplit steps atLeaf
  have lengthEq := length_traverseVisits omap.orams.splitDepth 0 steps atLeaf
  have parts := length_eq_counts (traverseVisits omap.orams.splitDepth 0 steps atLeaf)
  have all := length_eq_counts (omap.paddedVisits steps atLeaf)
  dsimp only at counts
  cases atLeaf with
  | false => cases endsHere
  | true =>
      have here : (steps : Int) = omap.orams.splitDepth - 1 := by
        simpa [lastDepth] using endsHere
      simp only [true_and, Bool.toNat_true] at upper lengthEq
      rw [if_pos (by omega)] at upper
      omega

end BPlusOmap

section Sample

attribute [local instance] clearCipher

/-- A split map whose only node is at the last level above the split. -/
def shallowConfig : BPlusOmap.BPlusConfig where
  capacity := 4
  order := 3
  split := some (1, 4)

def shallowMap : Rand BPlusOmap := BPlusOmap.create shallowConfig [(7, [1])]

def shallowSearch : Rand BPlusOmap := do
  let omap ← shallowMap
  (MapCall.search 7 none).perform omap

theorem returns_shallowSearch : ((shallowSearch.runFrom {}).1.toOption.map (·.maxHeight),
    (shallowSearch.runFrom {}).2.log.length) = (some 3, 20) := by
  decide +kernel

theorem shallowMap_logs :
    ((shallowMap.runFrom {}).1.toOption.map (fun omap => (omap.maxHeight, omap.splitUpperBudget)),
      (shallowMap.runFrom {}).2.log.length) = (some (3, 1), 0) := by
  decide +kernel

end Sample

end TieredOmap
