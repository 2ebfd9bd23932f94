import TieredOMap.Tee.TeeAvlMap
import TieredOMap.Tee.TeeValues

/-!
# The enclave's tree as a cold tier

`CheckedTree` is the enclave's tree with a check before each operation: keys are ints of the
source, values fit, and there is something to load. With the checks it is a lawful cold tier.
A run of `TeeOmap` on the tree itself passes all of them.
-/

namespace TieredOmap

open BinaryTree Links EnclaveOram ColdView

/-- The tree of the enclave, with checks. -/
structure CheckedTree where
  tree : TeeAvlOmap

open Classical in
/-- Make a step of the tree if a check is passed. -/
noncomputable def checkedStep {Result : Type} (check : Prop) (step : TeeRand Result) :
    TeeRand Result :=
  if check then step else Prog.fail .lengthError

noncomputable instance : ColdMap CheckedTree where
  make capacity valueSize bucketSize splitDepth :=
    ⟨TeeAvlOmap.new capacity valueSize bucketSize splitDepth⟩
  init omap data := checkedStep
    (TeeAvlOmap.Loadable omap.tree.valueSize data ∧ omap.tree.lowerOram.level ≤ 32) do
      let tree ← omap.tree.init data
      return ⟨tree⟩
  searchOrDummy omap key real update transform := checkedStep
    (TeeAvlOmap.Fitting omap.tree.valueSize update transform) do
      let (found, tree) ← omap.tree.searchOrDummy key real update transform
      return (found, ⟨tree⟩)
  insert omap key value := checkedStep
    (value.length ≤ omap.tree.valueSize ∧ (key = invalidKey ∨ IsKey key)) do
      let tree ← omap.tree.insert key value
      return ⟨tree⟩
  remove omap key := do
    let tree ← omap.tree.remove key
    return ⟨tree⟩

/-- The tree stands for the records it represents, and is no higher than its loops are long. -/
instance : ColdView TeeAvlOmap where
  Rep omap size contents := omap.valueSize = size ∧ omap.Represents contents ∧ omap.Shallow
  FindsKeys := TeeAvlOmap.Shallow

instance : ColdView CheckedTree where
  Rep omap := Rep omap.tree
  FindsKeys omap := FindsKeys omap.tree

namespace TeeAvlOmap

-- What a step ends with is known from its lemma, never from running it.
attribute [local irreducible] Prog.Ends

variable {omap : TeeAvlOmap} {contents : Int → Option Bytes} {size : Nat}

/-- The values of a map have its value size. -/
theorem Represents.length_value (represents : omap.Represents contents) {key : Int} {value : Bytes}
    (found : contents key = some value) : value.length = omap.valueSize := by
  rcases represents with ⟨tree, rests, maps⟩
  rcases rests.opened with ⟨ledger, opened⟩
  exact opened.length_value ((maps key).trans found)

/-- The keys of a map are ints that are not negative. -/
theorem Represents.isKey (represents : omap.Represents contents) {key : Int} {value : Bytes}
    (found : contents key = some value) : IsKey key := by
  rcases represents with ⟨tree, rests, maps⟩
  have isEntry := (lookup_eq_some_iff rests.ordered).mp ((maps key).trans found)
  rcases rests with ⟨ledger, stocked, woven, keys⟩
  exact keys key (List.mem_map.mpr ⟨_, isEntry, rfl⟩)

theorem checkedStep_of {Result : Type} {check : Prop} {step : TeeRand Result}
    {post : Result → Prop} (returns : check → Returns step post) :
    Returns (checkedStep check step) post := by
  unfold checkedStep
  split
  · rename_i passed
    exact returns passed
  · exact Prog.ends_fail trivial

/-- What is written to a value that was found. -/
theorem fitValue_writtenBack {update : Option Bytes} {transform : Option (Bytes → Bytes)}
    (fitting : Fitting size update transform) {value : Bytes} (sized : value.length = size) :
    fitValue size (writtenBack update transform value value) =
      rewritten size update transform value := by
  unfold writtenBack rewritten
  cases transform with
  | some transform => exact fitValue_of_le (fitting.transform transform rfl value sized)
  | none =>
      unfold written
      cases update with
      | some update => exact fitValue_of_le (fitting.update update rfl)
      | none => exact TeeOmapConfig.fitValue_of_length sized

end TeeAvlOmap

open TeeAvlOmap

-- What a step ends with is known from its lemma, never from running it.
attribute [local irreducible] Prog.Ends

/-- The checked tree is a lawful cold tier. -/
theorem CheckedTree.lawful (size : Nat) : LawfulColdMap CheckedTree size size where
  returns_init capacity bucketSize data distinct bounds := by
    refine checkedStep_of ?_
    rintro ⟨loadable, level_le⟩
    refine Prog.ends_bind ((settles_init le_rfl level_le loadable).allow (fun _ _ => trivial)) ?_
    rintro tree ⟨sizes, rests⟩
    refine Prog.ends_pure (fun finds => ?_)
    exact ⟨sizes.valueSize, ⟨_, rests, lookup_initialTree loadable.nodup loadable.short⟩, finds⟩
  returns_found omap contents key update transform value rep nonneg found fits := by
    rcases rep with ⟨size_eq, represents, shallow⟩
    refine checkedStep_of (fun fitting => ?_)
    have sized := represents.length_value found
    refine Prog.ends_bind ((represents.settles_search shallow fitting key).allow
      (fun _ _ => trivial)) ?_
    rintro ⟨result, tree⟩ ⟨sizes, returned, represents'⟩
    rw [found, size_eq] at represents'
    dsimp only at returned
    rw [found] at returned
    rw [size_eq] at fitting sized
    refine Prog.ends_pure ⟨by rw [returned]; rfl, ?_, ?_, ?_, fun finds => ?_⟩
    · rw [returned]
      exact List.take_of_length_le sized.le
    · rw [returned]
      exact sized.ge
    · rw [returned]
      exact sized.le
    · rw [returned]
      refine ⟨sizes.valueSize.trans size_eq, ?_, finds⟩
      rw [show ((some value).getD (List.replicate omap.tree.valueSize 0), (some value).isSome).1 =
        value from rfl, fitValue_writtenBack fitting sized]
      exact represents'
  returns_absent omap contents key update transform rep nonneg absent := by
    rcases rep with ⟨size_eq, represents, shallow⟩
    refine checkedStep_of (fun fitting => ?_)
    refine Prog.ends_bind ((represents.settles_search shallow fitting key).allow
      (fun _ _ => trivial)) ?_
    rintro ⟨result, tree⟩ ⟨sizes, returned, represents'⟩
    rw [absent, Option.map_none, ← absent, Function.update_eq_self] at represents'
    dsimp only at returned
    rw [absent, size_eq] at returned
    exact Prog.ends_pure ⟨returned, fun finds =>
        ⟨sizes.valueSize.trans size_eq, represents', finds⟩⟩
  returns_dummy omap contents key update transform rep := by
    rcases rep with ⟨size_eq, ⟨tree, rests, maps⟩, shallow⟩
    refine checkedStep_of (fun fitting => ?_)
    refine Prog.ends_bind ((rests.settles_dummy fitting key).allow (fun _ _ => trivial)) ?_
    rintro ⟨result, tree'⟩ ⟨rests', sizes, returned⟩
    dsimp only at returned
    rw [size_eq] at returned
    exact Prog.ends_pure ⟨returned, fun finds =>
      ⟨sizes.valueSize.trans size_eq, ⟨tree, rests', maps⟩, finds⟩⟩
  returns_insert omap contents key value rep nonneg isNew short := by
    rcases rep with ⟨size_eq, represents, shallow⟩
    refine checkedStep_of (fun passed => ?_)
    rcases passed with ⟨fits, isKey⟩
    have isKey := isKey.resolve_left (by rintro rfl; exact absurd nonneg (by decide))
    rcases represents with ⟨tree, rests, maps⟩
    refine Prog.ends_bind ((rests.settles_insert (shallow tree rests) isKey
      ((maps key).trans isNew) fits).allow (fun _ _ => trivial)) ?_
    rintro omap' ⟨tree', rests', sizes, changed⟩
    refine Prog.ends_pure (fun finds => ⟨sizes.valueSize.trans size_eq, ?_, finds⟩)
    refine represents_of_update rests' maps ?_ changed
    rw [size_eq, fitValue_of_le short]
  returns_insertNone omap contents value rep := by
    rcases rep with ⟨size_eq, ⟨tree, rests, maps⟩, shallow⟩
    refine checkedStep_of (fun passed => ?_)
    refine Prog.ends_bind ((rests.settles_insert_invalid passed.1).allow (fun _ _ => trivial)) ?_
    rintro omap' ⟨tree', rests', sizes, same⟩
    refine Prog.ends_pure (fun finds => ⟨sizes.valueSize.trans size_eq, ⟨tree', rests', ?_⟩, finds⟩)
    intro key
    refine Eq.trans (Option.ext (fun value => ?_)) (maps key)
    rw [lookup_eq_some_iff rests'.ordered, lookup_eq_some_iff rests.ordered, same]
  returns_remove omap contents key rep nonneg := by
    rcases rep with ⟨size_eq, ⟨tree, rests, maps⟩, shallow⟩
    refine Prog.ends_bind ((rests.settles_remove (shallow tree rests) key).allow
      (fun _ _ => trivial)) ?_
    rintro omap' ⟨tree', rests', sizes, changed⟩
    exact Prog.ends_pure (fun finds => ⟨sizes.valueSize.trans size_eq,
      represents_of_update rests' maps rfl changed, finds⟩)
  returns_removeNone omap contents rep := by
    rcases rep with ⟨size_eq, represents, shallow⟩
    have isNone : contents invalidKey = none := by
      rcases found : contents invalidKey with _ | value
      · rfl
      · exact absurd (represents.isKey found).1 (by decide)
    rcases represents with ⟨tree, rests, maps⟩
    refine Prog.ends_bind ((rests.settles_remove (shallow tree rests) invalidKey).allow
      (fun _ _ => trivial)) ?_
    rintro omap' ⟨tree', rests', sizes, changed⟩
    refine Prog.ends_pure (fun finds => ⟨sizes.valueSize.trans size_eq, ?_, finds⟩)
    have represents' := represents_of_update rests' maps rfl changed
    rwa [← isNone, Function.update_eq_self] at represents'

/-! ## The same runs -/

/-- What a program returns another one returns, too, seen in another way. -/
def Imitates {α β : Type} (view : α → β) (program : TeeRand α) (program' : TeeRand β) : Prop :=
  ∀ world result world', program.runFrom world = (.ok result, world') →
    program'.runFrom world = (.ok (view result), world')

section Imitates

variable {α β γ δ : Type} {view : α → β} {view' : γ → δ} {program : TeeRand α}
  {program' : TeeRand β} {known : α → Prop}

theorem imitates_refl (program : TeeRand α) : Imitates id program program :=
  fun _ _ _ run => run

theorem imitates_pure (view : α → β) (result : α) : Imitates view (pure result)
    (pure (view result)) := by
  intro world result' world' run
  cases run
  rfl

theorem imitates_bind (view : α → β) (imitates : Imitates view program program')
    (knows : Returns program known) {next : α → TeeRand γ} {next' : β → TeeRand δ}
    (rest : ∀ result, known result → Imitates view' (next result) (next' (view result))) :
    Imitates view' (program >>= next) (program' >>= next') := by
  intro world result world' run
  rcases Prog.runs_of_bind run with ⟨middle, between, first, second⟩
  rw [Prog.runFrom_bind, imitates world middle between first]
  exact rest middle (knows.returned first) between result world' second

theorem imitates_ite {check : Prop} [Decidable check] {other : TeeRand α} {other' : TeeRand β}
    (ifTrue : check → Imitates view program program')
    (ifFalse : ¬check → Imitates view other other') :
    Imitates view (if check then program else other) (if check then program' else other') := by
  split
  · rename_i holds
    exact ifTrue holds
  · rename_i fails
    exact ifFalse fails

/-- A program imitates what it returns, seen in another way. -/
theorem imitates_view (view : α → β) (program : TeeRand α) :
    Imitates view program (do let result ← program; return view result) := by
  intro world result world' run
  rw [Prog.runFrom_bind, run]
  rfl

theorem imitates_checkedStep {check : Prop} (passes : check)
    (imitates : Imitates view program program') :
    Imitates view program (checkedStep check program') := by
  rwa [checkedStep, if_pos passes]

end Imitates

namespace TeeOmap

open TeeOmapConfig

/-- The map with checks of its cold tier. -/
def checked (s : TeeOmap TeeAvlOmap) : TeeOmap CheckedTree := { s with coldOmap := ⟨s.coldOmap⟩ }

variable {s : TeeOmap TeeAvlOmap} {config : TeeOmapConfig} {newValue : Option Bytes}

theorem imitates_accessHot (key : Int) (newValue : Option Bytes) :
    Imitates (Prod.map id checked) (s.accessHot key newValue)
        (s.checked.accessHot key newValue) := by
  have hotOram : ∀ hotHit oldPos, Imitates (Prod.map id checked)
      (s.accessHotOram key newValue hotHit oldPos)
      (s.checked.accessHotOram key newValue hotHit oldPos) := by
    intro hotHit oldPos
    unfold accessHotOram
    refine imitates_bind id (imitates_refl _) (returns_any _) (fun newHotLeaf _ => ?_)
    refine imitates_bind id (imitates_refl _) (returns_any _) (fun dummyLeaf _ => ?_)
    refine imitates_bind id (imitates_refl _) (returns_any _) (fun opened _ => ?_)
    refine imitates_bind id (imitates_refl _) (returns_any _) (fun evicted _ => ?_)
    exact imitates_pure _ _
  unfold accessHot
  dsimp only
  refine imitates_bind (Prod.map id checked) ?_ (returns_any _) (fun result _ => imitates_pure _ _)
  exact imitates_ite (fun _ => imitates_pure _ _) (fun _ => hotOram _ _)

/-- What the accesses write to the cold tier fits. -/
theorem fitting_accessCold (fits : ∀ value ∈ newValue, value.length ≤ s.config.valueSize)
    (coldReal : Bool) : TeeAvlOmap.Fitting s.config.storedValueSize
      (if s.config.maintenance.enabled then none else newValue)
      (if s.config.maintenance.enabled then some (s.coldTransform newValue coldReal)
        else none) := by
  have size := s.config.storedValueSize_eq
  constructor
  · intro value isUpdate
    split at isUpdate
    · cases isUpdate
    · have short := fits value isUpdate
      omega
  · intro transform isTransform old sized
    split at isTransform
    · obtain rfl := Option.some.inj isTransform
      have unwrapped : (s.config.unwrapValue old).1.length = s.config.valueSize :=
        length_userValue sized
      unfold coldTransform
      dsimp only
      refine (length_wrapValue_le _ _).trans ?_
      rw [size]
      refine Nat.add_le_add_right (max_le ?_ le_rfl) _
      cases newValue with
      | none =>
          dsimp only
          rw [padBytes_of_length unwrapped]
          exact unwrapped.le
      | some value =>
          dsimp only
          rw [length_oMovBytes, length_padBytes (fits value rfl)]
    · cases isTransform

theorem imitates_accessCold (sized : s.coldOmap.valueSize = s.config.storedValueSize)
    (fits : ∀ value ∈ newValue, value.length ≤ s.config.valueSize) (key : Int) (coldReal : Bool) :
    Imitates (Prod.map id checked) (s.accessCold key newValue coldReal)
      (s.checked.accessCold key newValue coldReal) := by
  unfold accessCold
  dsimp only
  refine imitates_bind (Prod.map id CheckedTree.mk) ?_ (returns_any _)
    (fun result _ => imitates_pure _ _)
  exact imitates_checkedStep (sized.symm ▸ fitting_accessCold fits coldReal) (imitates_view _ _)

/-- An access is served by the map with checks as well. -/
theorem imitates_serve (sized : s.coldOmap.valueSize = s.config.storedValueSize)
    (fits : ∀ value ∈ newValue, value.length ≤ s.config.valueSize) (key : Int) :
    Imitates (Prod.map id checked) (s.serve key newValue) (s.checked.serve key newValue) := by
  unfold TeeOmap.serve
  refine imitates_bind (Prod.map id checked) (imitates_accessHot key newValue)
    (returns_accessHot_rest key newValue) ?_
  rintro ⟨early, s'⟩ ⟨hotOram, hotDir, same⟩
  dsimp only at same ⊢
  subst same
  refine imitates_bind (Prod.map id checked) ?_ (returns_any _) ?_
  · exact imitates_ite (fun _ => imitates_pure _ _)
      (fun _ => imitates_accessCold (s := { s with hotOram, hotDir }) sized fits _ _)
  · rintro ⟨coldStored, s''⟩ -
    dsimp only [Prod.map, id]
    by_cases enabled : s''.config.maintenance.enabled = true
    · rw [if_pos enabled, if_pos (show s''.checked.config.maintenance.enabled = true from enabled)]
      exact imitates_pure _ _
    · rw [if_neg enabled, if_neg (show ¬s''.checked.config.maintenance.enabled = true from enabled)]
      exact imitates_pure _ _

theorem imitates_demote (fitted : s.hotOram.Fitted s.config.storedValueSize)
    (sized : s.coldOmap.valueSize = s.config.storedValueSize)
    (valueSize : s.hotOram.valueSize = s.config.storedValueSize) {key : Int}
    (isKey : key = invalidKey ∨ IsKey key) :
    Imitates checked (s.demote key) (s.checked.demote key) := by
  unfold demote
  refine imitates_bind id (imitates_refl _) (returns_any _) (fun dummyLeaf _ => ?_)
  refine imitates_bind id (imitates_refl _) (returns_readPathToStash _ _ _) ?_
  rintro _ rfl
  refine imitates_bind id (imitates_refl _) (returns_any _) (fun newLeaf _ => ?_)
  refine imitates_bind id (imitates_refl _) (returns_any _) (fun evicted _ => ?_)
  refine imitates_bind CheckedTree.mk ?_ (returns_any _) (fun coldOmap _ => imitates_pure _ _)
  refine imitates_checkedStep ⟨?_, ?_⟩ (imitates_view _ _)
  · generalize oSelect _ _ dummyLeaf = leaf
    have alike : Alike s.hotOram (s.hotOram.readPath leaf) :=
      alike_takeBuckets (s.hotOram.path leaf) s.hotOram
    have length := length_extractFromStash (fitted.readPath leaf)
      (oSelect (!oEqual key invalidKey) key (-2))
    rw [alike.valueSize, valueSize] at length
    exact (length_demotedRecord length.1 length.2).trans sized.ge
  · rcases isKey with rfl | isKey
    · exact Or.inl rfl
    · refine Or.inr ?_
      rw [show oSelect (!oEqual key invalidKey) key invalidKey = key by simp [isKey.ne_invalid]]
      exact isKey

/-- A demotion step, on a key that is an int. -/
theorem imitates_demoteStep (fitted : s.hotOram.Fitted s.config.storedValueSize)
    (sized : s.coldOmap.valueSize = s.config.storedValueSize)
    (valueSize : s.hotOram.valueSize = s.config.storedValueSize)
    (isKey : s.demoteCandidate = invalidKey ∨ IsKey s.demoteCandidate) :
    Imitates checked s.demoteStep s.checked.demoteStep :=
  imitates_demote (s := { s with scanPtr := (s.scanPtr + 1).tmod (max s.hotDir.capacity 1) })
    fitted sized valueSize isKey

theorem imitates_promote (key : Int) (value : Bytes) :
    Imitates checked (s.promote key value) (s.checked.promote key value) := by
  unfold promote
  refine imitates_bind CheckedTree.mk (imitates_view _ _) (returns_any _) (fun coldOmap _ => ?_)
  refine imitates_bind id (imitates_refl _) (returns_any _) (fun leaf _ => ?_)
  refine imitates_bind id (imitates_refl _) (returns_any _) (fun opened _ => ?_)
  refine imitates_bind id (imitates_refl _) (returns_any _) (fun evicted _ => ?_)
  exact imitates_pure _ _

theorem imitates_promoteStep : Imitates checked s.promoteStep s.checked.promoteStep := by
  unfold TeeOmap.promoteStep
  exact imitates_bind checked (imitates_promote _ _) (returns_any _)
      (fun promoted _ => imitates_pure _ _)

variable {allData : List (Int × Bytes)} {hotKeys : List Int}

theorem imitates_new (config : TeeOmapConfig) :
    Imitates checked (new config) (new (Ω := CheckedTree) config) := by
  unfold new
  dsimp only
  split
  · intro world result world' run
    cases run
  · exact imitates_pure _ _

/-- The records that are loaded: some of them are cold, all have ints as keys. -/
structure SomeCold (config : TeeOmapConfig) (allData : List (Int × Bytes)) (hotKeys : List Int) :
    Prop where
  capacity : IsInt (if config.maintenance.enabled
    then max (config.totalKeys - config.hotSetSize) config.totalKeys else config.totalKeys)
  keys : ∀ record ∈ allData, IsKey record.1
  cold : ∃ record ∈ allData, record.1 ∉ hotKeys

theorem imitates_init (loads : Loads config allData hotKeys)
    (short : ∀ record ∈ allData, record.2.length ≤ config.valueSize)
    (someCold : SomeCold config allData hotKeys) {world world' : TeeWorld}
    (constructed : (new config).runFrom world = (.ok s, world')) :
    Imitates checked (s.init allData hotKeys) (s.checked.init allData hotKeys) := by
  rcases (returns_new config).returned constructed with ⟨positive, fresh⟩
  unfold TeeOmap.init
  refine imitates_bind id (imitates_refl _) (returns_any _) (fun loaded _ => ?_)
  refine imitates_bind CheckedTree.mk ?_ (returns_any _) (fun coldOmap _ => imitates_pure _ _)
  have loadable : TeeAvlOmap.Loadable config.storedValueSize (coldData config allData hotKeys) := by
    have size := config.storedValueSize_eq
    refine ⟨fun empty => ?_, ?_, fun key mem => ?_, fun record mem => ?_⟩
    · rcases someCold.cold with ⟨record, mem, isCold⟩
      have coldMem : (record.1, config.wrapValue record.2 {}) ∈ coldData config allData hotKeys :=
        List.mem_filter.mpr ⟨List.mem_map_of_mem (f := fun record : Int × Bytes =>
          (record.1, config.wrapValue record.2 {})) mem, by simpa using isCold⟩
      rw [empty] at coldMem
      cases coldMem
    · have distinct := loads.distinct
      rw [← @keys_storedData config allData] at distinct
      exact distinct.sublist (List.filter_sublist.map _)
    · rcases List.mem_map.mp (mem_keys_coldData.mp mem).1 with ⟨record, recordMem, rfl⟩
      exact someCold.keys record recordMem
    · rcases mem_storedData (List.mem_filter.mp mem).1 with ⟨plain, plainMem, wrapped⟩
      have plainShort := short _ plainMem
      rw [wrapped, size]
      exact (length_wrapValue_le _ _).trans (Nat.add_le_add_right (max_le plainShort le_rfl) _)
  have level_le := TeeAvlOmap.level_le_of_isInt someCold.capacity config.storedValueSize
    config.bucketSize (if config.useSplitOram then max 1 (ceilLog2 (max config.hotSetSize 2) : Int)
      else 0)
  refine imitates_checkedStep ?_ (imitates_view _ _)
  rw [fresh]
  exact ⟨loadable, level_le⟩

variable {promise : Int → Option Bytes → TeeOmap TeeAvlOmap → Prop}
  {promise' : Int → Option Bytes → TeeOmap CheckedTree → Prop} {stage : Stage}
  {events : List TeeEvent}

theorem demoteCandidate_checked (s : TeeOmap TeeAvlOmap) :
    s.checked.demoteCandidate = s.demoteCandidate := rfl

theorem promoteCandidate_checked (s : TeeOmap TeeAvlOmap) :
    s.checked.promoteCandidate = s.promoteCandidate := rfl

/-- A run on the tree passes all checks. -/
theorem Happened.checked (loads : Loads config allData hotKeys)
    (short : ∀ record ∈ allData, record.2.length ≤ config.valueSize)
    (someCold : SomeCold config allData hotKeys)
    (kept : ∀ key newValue s, promise key newValue s → promise' key newValue s.checked)
    (happened : Happened config allData hotKeys promise stage events s) :
    Happened config allData hotKeys promise' stage events s.checked := by
  have lawful := CheckedTree.lawful config.storedValueSize
  induction happened with
  | init constructed initialised finds =>
      exact .init (imitates_new config _ _ _ constructed)
        (imitates_init loads short someCold constructed _ _ _ initialised) finds
  | serve before nonneg fits returned finds promised ih =>
      rcases (ih.shows lawful loads short).1.placed with ⟨ledger, cold, placed, -⟩
      have sameConfig : _ = config := placed.sameConfig
      subst sameConfig
      exact .serve ih nonneg fits (imitates_serve placed.rep.1 fits _ _ _ _ returned) finds
        (kept _ _ _ promised)
  | @demote events s s' world world' before demoted finds ih =>
      rcases (ih.shows lawful loads short).1.placed with ⟨ledger, cold, placed, -⟩
      have isKey : s.demoteCandidate = invalidKey ∨ IsKey s.demoteCandidate := by
        rcases placed.hot.demoteCandidate_hot with isNone | ⟨nonneg, leaf, value, isHot⟩
        · exact Or.inl isNone
        · rcases List.mem_map.mp (placed.split.cold_of_hot nonneg isHot).1 with ⟨record, mem, same⟩
          exact Or.inr (same ▸ someCold.keys record mem)
      have sameConfig : s.config = config := placed.sameConfig
      subst sameConfig
      have demoted' : s.checked.demoteStep.runFrom world = (.ok s'.checked, world') :=
        imitates_demoteStep placed.hot.sound.fitted placed.rep.1 placed.hot.valueSize isKey
          world s' world' demoted
      have finds' : FindsKeys s'.checked.coldOmap := finds
      have next := Happened.demote ih demoted' finds'
      rwa [demoteCandidate_checked] at next
  | @promote events s s' world world' before promoted finds ih =>
      have promoted' : s.checked.promoteStep.runFrom world = (.ok s'.checked, world') :=
        imitates_promoteStep world s' world' promoted
      have finds' : FindsKeys s'.checked.coldOmap := finds
      have next := Happened.promote ih promoted' finds'
      rwa [promoteCandidate_checked] at next

/-! ## Results of runs -/

/-- One hot key of two, and cold keys become pending promotions at their second access. -/
def oneHotKey : TeeOmapConfig where
  totalKeys := 2
  hotSetSize := 1
  valueSize := 1
  bucketSize := 2
  mode := .tierMembership
  useSplitOram := false
  maintenance := { enabled := true, observationWindow := 4, swapInterval := 4, promoteThreshold := 1 }

/-- A cold key is written, and the access returns its old value. -/
def writtenEvents : List TeeEvent :=
  [.served 2 (some [9]) ⟨[2], false, ⟨[0], false⟩, ⟨[2], true⟩⟩]

/-- The events of a run, with all of its states. -/
def writtenStates : TeeRand (List TeeEvent × List (TeeOmap TeeAvlOmap)) := do
  let built ← new oneHotKey
  let s₀ ← built.init [(1, [1]), (2, [2])] [1]
  let (result, s₁) ← s₀.serve 2 (some [9])
  return ([.served 2 (some [9]) result], [s₀, s₁])

/-- Such a run, in which the tree is never too high. -/
theorem happened_written : ∃ s : TeeOmap TeeAvlOmap,
    Happened oneHotKey [(1, [1]), (2, [2])] [1] LeavesPending .idle writtenEvents s := by
  have evaluated : (writtenStates.runFrom { draws := List.range 100 }).1.toOption.map (fun run =>
      (decide (run.1 = writtenEvents),
        decide (∀ s ∈ run.2, s.coldOmap.StoresOnly [1, 2] ∧ 2 ≤ s.coldOmap.maxHeight),
        run.2.map maintenanceDue, run.2.map pendingPromoKey)) =
      some (true, true, [false, false], [-1, -1]) := by
    decide +kernel
  rcases run : writtenStates.runFrom { draws := List.range 100 } with ⟨_ | ⟨events, states⟩, last⟩
  · rw [run] at evaluated
    cases evaluated
  rw [run] at evaluated
  rcases Prog.runs_of_bind run with ⟨built, world, constructed, run⟩
  rcases Prog.runs_of_bind run with ⟨s₀, world₀, initialised, run⟩
  rcases Prog.runs_of_bind run with ⟨⟨result, s₁⟩, world₁, served, run⟩
  cases run
  simp only [Except.toOption, Option.map_some, Option.some.injEq, Prod.mk.injEq, decide_eq_true_eq,
    List.forall_mem_cons, List.map_cons, List.cons.injEq] at evaluated
  rcases evaluated with ⟨isWritten, ⟨low₀, low₁, -⟩, ⟨-, due₁, -⟩, -, pending₁, -⟩
  have finds : ∀ {s : TeeOmap TeeAvlOmap},
      s.coldOmap.StoresOnly [1, 2] ∧ 2 ≤ s.coldOmap.maxHeight → FindsKeys s.coldOmap :=
    fun low => low.1.shallow low.2
  have loaded : Happened oneHotKey [(1, [1]), (2, [2])] [1] LeavesPending .idle [] s₀ :=
    .init constructed initialised (finds low₀)
  have afterWrite : Happened oneHotKey [(1, [1]), (2, [2])] [1] LeavesPending s₁.afterServe
      [.served 2 (some [9]) result] s₁ :=
    .serve loaded (by decide) (by decide) served (finds low₁) (fun _ => by rw [pending₁]; decide)
  rw [afterServe, due₁, if_neg Bool.false_ne_true] at afterWrite
  exact ⟨s₁, isWritten ▸ afterWrite⟩

theorem loads_written : Loads oneHotKey [(1, [1]), (2, [2])] [1] where
  unsplit := rfl
  distinct := by decide
  nonneg := by decide
  hotFit := by decide
  threshold := fun _ => by decide

theorem someCold_written : SomeCold oneHotKey [(1, [1]), (2, [2])] [1] where
  capacity := by decide
  keys := by simp [IsKey]
  cold := ⟨(2, [2]), by decide⟩

end TeeOmap

end TieredOmap
