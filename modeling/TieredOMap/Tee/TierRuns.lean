import Mathlib.Algebra.Order.BigOperators.Group.List
import Mathlib.Algebra.Order.Group.Nat
import TieredOMap.Tee.TierPlacement

/-!
# Runs of the tiered map and its tiers

Loading puts the hot keys into the hot tier, with fillers in the other slots, and the rest into
the cold tier. From there every state of a run has each key of the initial data in one of the
tiers, as long as the cold tier can find its keys.
-/

namespace TieredOmap

namespace EnclaveOram

/-- Only keys of the records get a leaf. -/
theorem returns_chooseLeaves_keys (oram : EnclaveOram) (presetLeaves : KeyMap Int Int)
    (data : List (Int × Bytes)) (leafMap : KeyMap Int Int) :
    Returns (oram.chooseLeaves presetLeaves data leafMap) (fun leafMap' =>
      ∀ key, (leafMap'.get? key).isSome →
        (leafMap.get? key).isSome ∨ key ∈ data.map Prod.fst) := by
  induction data generalizing leafMap with
  | nil => exact Prog.ends_pure (fun key found => Or.inl found)
  | cons entry rest ih =>
      have next : ∀ leafMap' : KeyMap Int Int,
          (∀ key, (leafMap'.get? key).isSome → (leafMap.get? key).isSome ∨ key = entry.1) →
          Returns (oram.chooseLeaves presetLeaves rest leafMap') (fun leafMap'' =>
            ∀ key, (leafMap''.get? key).isSome →
              (leafMap.get? key).isSome ∨ key ∈ (entry :: rest).map Prod.fst) := by
        intro leafMap' known
        refine (ih leafMap').mono (fun leafMap'' spec key found => ?_)
        rw [List.map_cons, List.mem_cons]
        rcases spec key found with before | inRest
        · exact (known key before).imp_right Or.inl
        · exact Or.inr (Or.inr inRest)
      have setKnown : ∀ leaf key, ((leafMap.set entry.1 leaf).get? key).isSome →
          (leafMap.get? key).isSome ∨ key = entry.1 := by
        intro leaf key found
        rw [KeyMap.get?_set] at found
        split at found
        · rename_i same
          exact Or.inr same
        · exact Or.inl found
      unfold chooseLeaves
      rcases listed : leafMap.get? entry.1 with _ | leaf
      · rcases preset : presetLeaves.get? entry.1 with _ | leaf
        · exact Prog.ends_bind (returns_any _) (fun leaf _ => next _ (setKnown leaf))
        · exact next _ (setKnown leaf)
      · exact next leafMap (fun key found => Or.inl found)

/-- What a fresh ORAM is after `init`. -/
theorem returns_init {numData : Int} {valueSize bucketSize stashScale widest : Nat}
    {data : List (Int × Bytes)} (wide : valueSize ≤ widest) (distinct : (data.map Prod.fst).Nodup)
    (short : ∀ entry ∈ data, entry.2.length ≤ widest) :
    Returns ((new numData valueSize bucketSize stashScale).init data) (fun result =>
      result.2.Sound widest (initialLedger data result.1) ∧
      Alike (new numData valueSize bucketSize stashScale) result.2 ∧
      (∀ key leaf, result.1.get? key = some leaf → IsLeaf result.2.level leaf) ∧
      ∀ key, (result.1.get? key).isSome ↔ key ∈ data.map Prod.fst) := by
  have noPreset : ∀ key leaf, (∅ : KeyMap Int Int).get? key = some leaf →
      IsLeaf (new numData valueSize bucketSize stashScale).level leaf := by
    intro key leaf found
    cases found
  have chosen := (ends_chooseLeaves (new numData valueSize bucketSize stashScale) noPreset data
    noPreset).and (returns_chooseLeaves_keys (new numData valueSize bucketSize stashScale) ∅ data ∅)
  refine Prog.ends_bind (chosen.allow (fun _ _ => trivial)) (fun leafMap spec => ?_)
  rcases spec with ⟨⟨areLeaves, listed, -⟩, known⟩
  rcases sound_load rfl wide distinct short areLeaves listed with ⟨sound, alike⟩
  refine Prog.ends_pure ⟨sound, alike, ?_, fun key => ⟨fun found => ?_, fun mem => ?_⟩⟩
  · intro key leaf found
    rw [alike.level]
    exact areLeaves key leaf found
  · exact (known key found).resolve_left (fun none => Bool.false_ne_true none)
  · rcases List.mem_map.mp mem with ⟨entry, entryMem, rfl⟩
    exact listed entry entryMem

/-- The leaves of a freshly loaded ORAM are those its ledger has. -/
theorem initialLedger_label {data : List (Int × Bytes)} {leafMap : KeyMap Int Int}
    (listed : ∀ key, (leafMap.get? key).isSome ↔ key ∈ data.map Prod.fst) {key : Int}
    (isReal : key ≠ invalidKey) :
    (initialLedger data leafMap key).map Prod.fst = leafMap.get? key := by
  unfold initialLedger
  rw [if_neg isReal, Option.map_map]
  rcases hasLeaf : leafMap.get? key with _ | leaf
  · have notListed : key ∉ data.map Prod.fst := by
      rw [← listed, hasLeaf]
      simp
    have missing : data.find? (fun entry => entry.1 == key) = none := by
      refine List.find?_eq_none.mpr (fun entry mem => ?_)
      simp only [beq_iff_eq]
      rintro rfl
      exact notListed (List.mem_map_of_mem mem)
    rw [missing]
    rfl
  · have isListed : key ∈ data.map Prod.fst := by
      rw [← listed, hasLeaf]
      rfl
    rcases List.mem_map.mp isListed with ⟨entry, mem, rfl⟩
    rcases found : data.find? (fun entry' => entry'.1 == entry.1) with _ | other
    · exact absurd (List.find?_eq_none.mp found entry mem) (by simp)
    · simp [KeyMap.getD, hasLeaf, found]

/-- An entry of the ledger of a freshly loaded ORAM comes from a record. -/
theorem initialLedger_mem {data : List (Int × Bytes)} {leafMap : KeyMap Int Int} {key leaf : Int}
    {value : Bytes} (isLive : initialLedger data leafMap key = some (leaf, value)) :
    (key, value) ∈ data := by
  unfold initialLedger at isLive
  split at isLive
  · cases isLive
  · rcases Option.map_eq_some_iff.mp isLive with ⟨⟨key', value'⟩, found, same⟩
    have isKey := List.find?_some found
    simp only [beq_iff_eq] at isKey
    cases same
    exact isKey ▸ List.mem_of_find?_eq_some found

end EnclaveOram

namespace TeeOmap

open EnclaveOram ColdView

/-! ## Loading -/

section Load

variable {config : TeeOmapConfig} {allData : List (Int × Bytes)} {hotKeys : List Int} {key : Int}
  {value : Bytes}

/-- The records as they are stored. -/
def storedData (config : TeeOmapConfig) (allData : List (Int × Bytes)) : List (Int × Bytes) :=
  allData.map (fun record => (record.1, config.wrapValue record.2 {}))

/-- The records of the hot keys. -/
def hotData (config : TeeOmapConfig) (allData : List (Int × Bytes)) (hotKeys : List Int) :
    List (Int × Bytes) :=
  (storedData config allData).filter (fun record => record.1 ∈ hotKeys)

/-- The other records. -/
def coldData (config : TeeOmapConfig) (allData : List (Int × Bytes)) (hotKeys : List Int) :
    List (Int × Bytes) :=
  (storedData config allData).filter (fun record => record.1 ∉ hotKeys)

theorem keys_storedData : (storedData config allData).map Prod.fst = allData.map Prod.fst := by
  unfold storedData
  rw [List.map_map]
  rfl

theorem mem_storedData (mem : (key, value) ∈ storedData config allData) :
    ∃ plain, (key, plain) ∈ allData ∧ value = config.wrapValue plain {} := by
  rcases List.mem_map.mp mem with ⟨record, recordMem, same⟩
  cases same
  exact ⟨record.2, recordMem, rfl⟩

theorem mem_keys_hotData : key ∈ (hotData config allData hotKeys).map Prod.fst ↔
    key ∈ allData.map Prod.fst ∧ key ∈ hotKeys := by
  rw [← @keys_storedData config allData]
  simp only [hotData, List.mem_map, List.mem_filter, decide_eq_true_eq]
  constructor
  · rintro ⟨record, ⟨mem, isHot⟩, rfl⟩
    exact ⟨⟨record, mem, rfl⟩, isHot⟩
  · rintro ⟨⟨record, mem, rfl⟩, isHot⟩
    exact ⟨record, ⟨mem, isHot⟩, rfl⟩

theorem mem_keys_coldData : key ∈ (coldData config allData hotKeys).map Prod.fst ↔
    key ∈ allData.map Prod.fst ∧ key ∉ hotKeys := by
  rw [← @keys_storedData config allData]
  simp only [coldData, List.mem_map, List.mem_filter, decide_eq_true_eq]
  constructor
  · rintro ⟨record, ⟨mem, isCold⟩, rfl⟩
    exact ⟨⟨record, mem, rfl⟩, isCold⟩
  · rintro ⟨⟨record, mem, rfl⟩, isCold⟩
    exact ⟨record, ⟨mem, isCold⟩, rfl⟩

/-- The keys of the fillers are negative. -/
theorem neg_of_mem_fillers {count : Nat} {entry : Int × Bytes}
    (mem : entry ∈ fillers config count) : entry.1 < 0 := by
  rcases List.mem_map.mp mem with ⟨i, -, rfl⟩
  dsimp only
  omega

theorem nodup_fillers (count : Nat) : ((fillers config count).map Prod.fst).Nodup := by
  unfold fillers
  rw [List.map_map]
  refine List.Nodup.map ?_ List.nodup_range
  intro i j same
  simp only [Function.comp_apply] at same
  omega

/-- What the hot ORAM is loaded with. -/
def hotRecords (config : TeeOmapConfig) (allData : List (Int × Bytes)) (hotKeys : List Int) :
    List (Int × Bytes) :=
  hotData config allData hotKeys ++
    fillers config (config.hotCapacity - (hotData config allData hotKeys).length).toNat

theorem mem_keys_hotRecords (nonneg : 0 ≤ key) :
    key ∈ (hotRecords config allData hotKeys).map Prod.fst ↔
      key ∈ allData.map Prod.fst ∧ key ∈ hotKeys := by
  unfold hotRecords
  rw [List.map_append, List.mem_append, mem_keys_hotData]
  refine or_iff_left ?_
  intro isFiller
  rcases List.mem_map.mp isFiller with ⟨entry, mem, rfl⟩
  have := neg_of_mem_fillers mem
  omega

/-- The records of the hot ORAM have different keys. -/
theorem nodup_hotRecords (distinct : (allData.map Prod.fst).Nodup)
    (nonneg : ∀ record ∈ allData, 0 ≤ record.1) :
    ((hotRecords config allData hotKeys).map Prod.fst).Nodup := by
  unfold hotRecords
  rw [List.map_append, List.nodup_append']
  refine ⟨?_, nodup_fillers _, ?_⟩
  · rw [← @keys_storedData config allData] at distinct
    exact distinct.sublist (List.filter_sublist.map _)
  · intro key isHot isFiller
    rcases List.mem_map.mp (mem_keys_hotData.mp isHot).1 with ⟨record, mem, rfl⟩
    rcases List.mem_map.mp isFiller with ⟨entry, entryMem, same⟩
    have := nonneg record mem
    have := neg_of_mem_fillers entryMem
    omega

theorem length_wrapValue_le (plain : Bytes) (epochMeta : EpochMeta) :
    (config.wrapValue plain epochMeta).length ≤
      max plain.length config.valueSize + config.overhead := by
  rw [← @TeeOmapConfig.length_wrapValue config plain epochMeta,
    TeeOmapConfig.length_padBytes_eq]
  exact le_max_left _ _

theorem hotSetSize_le_hotCapacity (config : TeeOmapConfig) :
    config.hotSetSize ≤ config.hotCapacity := by
  unfold TeeOmapConfig.hotCapacity
  dsimp only
  split <;> omega

theorem initialLedger_hot {leafMap : KeyMap Int Int} (nonneg : 0 ≤ key)
    (listed : ∀ key, (leafMap.get? key).isSome ↔
      key ∈ (hotRecords config allData hotKeys).map Prod.fst) :
    (initialLedger (hotRecords config allData hotKeys) leafMap key).isSome ↔
      key ∈ allData.map Prod.fst ∧ key ∈ hotKeys := by
  have label := initialLedger_label listed (ne_invalidKey nonneg)
  rw [← Option.isSome_map, label, listed, mem_keys_hotRecords nonneg]

theorem keptRecords_cold (size : Nat) :
    (keptRecords size (coldData config allData hotKeys) key).isSome ↔
      key ∈ allData.map Prod.fst ∧ key ∉ hotKeys := by
  unfold keptRecords
  rw [Option.isSome_map, KeyMap.lookupEntry_isSome_iff, mem_keys_coldData]

/-- Each record is loaded into one of the tiers. -/
theorem split_loaded {leafMap : KeyMap Int Int} (size : Nat)
    (nonneg : ∀ record ∈ allData, 0 ≤ record.1)
    (listed : ∀ key, (leafMap.get? key).isSome ↔
      key ∈ (hotRecords config allData hotKeys).map Prod.fst) :
    Split (allData.map Prod.fst)
      (initialLedger (hotRecords config allData hotKeys) leafMap)
      (keptRecords size (coldData config allData hotKeys)) := by
  refine ⟨fun key isKey => ?_, fun key isNonneg other => ?_, fun key other => ?_⟩
  · rcases List.mem_map.mp isKey with ⟨record, mem, rfl⟩
    have hot := initialLedger_hot (nonneg record mem) listed
    have cold := @keptRecords_cold config allData hotKeys record.1 size
    rw [← Option.not_isSome, Bool.eq_iff_iff, hot, Bool.not_eq_true', ← Bool.not_eq_true, cold]
    simp [isKey]
  · rw [← Option.not_isSome_iff_eq_none, initialLedger_hot isNonneg listed]
    exact fun isHot => other isHot.1
  · rw [← Option.not_isSome_iff_eq_none, keptRecords_cold]
    exact fun isCold => other isCold.1

/-- There is a slot for every hot key. -/
theorem length_hotEntries {leafMap : KeyMap Int Int}
    (hotFit : ((allData.filter (fun record => record.1 ∈ hotKeys)).length : Int) ≤
      config.hotSetSize)
    (listed : ∀ key, (leafMap.get? key).isSome ↔
      key ∈ (hotRecords config allData hotKeys).map Prod.fst) :
    ((leafMap.entries.filter (fun entry => 0 ≤ entry.1)).length : Int) ≤ config.hotCapacity := by
  have distinct : ((leafMap.entries.filter (fun entry => 0 ≤ entry.1)).map Prod.fst).Nodup :=
    leafMap.nodup.sublist (List.filter_sublist.map _)
  have areHot : (leafMap.entries.filter (fun entry => 0 ≤ entry.1)).map Prod.fst ⊆
      (hotData config allData hotKeys).map Prod.fst := by
    intro key mem
    rcases List.mem_map.mp mem with ⟨entry, entryMem, rfl⟩
    rcases List.mem_filter.mp entryMem with ⟨inEntries, nonneg⟩
    have hasLeaf : (leafMap.get? entry.1).isSome :=
      KeyMap.lookupEntry_isSome_iff.mpr (List.mem_map_of_mem inEntries)
    simp only [decide_eq_true_eq] at nonneg
    rw [listed, mem_keys_hotRecords nonneg] at hasLeaf
    exact mem_keys_hotData.mpr hasLeaf
  have fewer := (List.subperm_of_subset distinct areHot).length_le
  have sameLength : (hotData config allData hotKeys).length =
      (allData.filter (fun record => record.1 ∈ hotKeys)).length := by
    unfold hotData storedData
    rw [List.filter_map, List.length_map]
    rfl
  have room := hotSetSize_le_hotCapacity config
  rw [List.length_map, List.length_map] at fewer
  omega

end Load

variable {Ω : Type} [ColdMap Ω] [ColdView Ω] {s : TeeOmap Ω} {config : TeeOmapConfig}
  {allData : List (Int × Bytes)} {hotKeys : List Int} {widest : Nat}

/-- A freshly loaded map has each key in one of the tiers. -/
theorem placed_init (lawful : LawfulColdMap Ω config.storedValueSize widest)
    (wide : config.storedValueSize ≤ widest) (unsplit : config.useSplitOram = false)
    (distinct : (allData.map Prod.fst).Nodup) (nonneg : ∀ record ∈ allData, 0 ≤ record.1)
    (hotFit : ((allData.filter (fun record => record.1 ∈ hotKeys)).length : Int) ≤
      config.hotSetSize)
    (short : ∀ record ∈ allData, record.2.length + config.overhead ≤ widest)
    {world world' : TeeWorld} (constructed : (new config).runFrom world = (.ok s, world')) :
    Returns (s.init allData hotKeys) (fun s' => FindsKeys s'.coldOmap → ∃ leafMap,
      Placed config (allData.map Prod.fst) widest
        (initialLedger (hotRecords config allData hotKeys) leafMap)
        (keptRecords config.storedValueSize (coldData config allData hotKeys)) s') := by
  rcases (returns_new config).returned constructed with ⟨positive, fresh⟩
  have stored := config.storedValueSize_eq
  have storedShort : ∀ record ∈ storedData config allData, record.2.length ≤ widest := by
    intro record mem
    rcases List.mem_map.mp mem with ⟨plain, plainMem, rfl⟩
    have bound := @length_wrapValue_le config plain.2 {}
    have plainShort := short plain plainMem
    dsimp only
    omega
  have hotShort : ∀ entry ∈ hotRecords config allData hotKeys, entry.2.length ≤ widest := by
    intro entry mem
    rcases List.mem_append.mp mem with isHot | isFiller
    · exact storedShort entry (List.mem_filter.mp isHot).1
    · rcases List.mem_map.mp isFiller with ⟨i, -, rfl⟩
      simpa using wide
  have coldRecords : ∀ record ∈ coldData config allData hotKeys,
      0 ≤ record.1 ∧ record.2.length ≤ widest := by
    intro record mem
    have inStored := (List.mem_filter.mp mem).1
    refine ⟨?_, storedShort record inStored⟩
    rcases List.mem_map.mp inStored with ⟨plain, plainMem, rfl⟩
    exact nonneg plain plainMem
  have coldDistinct : ((coldData config allData hotKeys).map Prod.fst).Nodup := by
    rw [← @keys_storedData config allData] at distinct
    exact distinct.sublist (List.filter_sublist.map _)
  subst fresh
  unfold TeeOmap.init
  rw [unsplit]
  refine Prog.ends_bind (EnclaveOram.returns_init wide (nodup_hotRecords distinct nonneg) hotShort)
    (fun loaded spec => ?_)
  rcases loaded with ⟨leafMap, hotOram⟩
  rcases spec with ⟨sound, alike, areLeaves, isListed⟩
  have listed : ∀ key, (leafMap.get? key).isSome ↔
      key ∈ (hotRecords config allData hotKeys).map Prod.fst := isListed
  refine Prog.ends_bind (lawful.returns_init _ _ _ coldDistinct coldRecords) (fun coldOmap rep => ?_)
  refine Prog.ends_pure (fun fits => ⟨leafMap, ?_⟩)
  have room := length_hotEntries hotFit listed
  have capacity : (PackedDirectory.new config.hotCapacity.toNat).capacity =
      config.hotCapacity.toNat := List.length_replicate
  have labels := (PackedDirectory.indexes_new config.hotCapacity.toNat).insertAll leafMap.nodup
    (fun _ _ _ => rfl) (by
      change (0 : Int) + _ ≤ _
      rw [capacity]
      omega)
  have sameLabels : PackedDirectory.withEntries leafMap.entries (fun _ => none) =
      hotLabels (initialLedger (hotRecords config allData hotKeys) leafMap) := by
    funext key
    unfold PackedDirectory.withEntries hotLabels
    split
    · rename_i isNonneg
      rw [initialLedger_label listed (ne_invalidKey isNonneg), Option.or_none]
      rfl
    · rfl
  rw [sameLabels] at labels
  refine ⟨rfl, ⟨sound, labels.1, ?_, alike.valueSize, ?_⟩, rep fits,
    split_loaded _ nonneg listed, Or.inl rfl, ?_⟩
  · intro key leaf value isLive
    have isReal : key ≠ invalidKey := by
      rintro rfl
      cases isLive
    have label := initialLedger_label listed isReal
    change initialLedger (hotRecords config allData hotKeys) leafMap key = _ at isLive
    rw [isLive] at label
    exact areLeaves key leaf label.symm
  · change ((PackedDirectory.capacity _ : Nat) : Int) = config.hotCapacity
    rw [labels.2, capacity]
    omega
  · change 0 + _ ≤ widest
    omega

/-! ## Runs -/

/-- The assumptions on a run that loads distinct keys, of which not too many are hot. -/
structure Loads (config : TeeOmapConfig) (allData : List (Int × Bytes)) (hotKeys : List Int) :
    Prop where
  unsplit : config.useSplitOram = false
  distinct : (allData.map Prod.fst).Nodup
  nonneg : ∀ record ∈ allData, 0 ≤ record.1
  hotFit : ((allData.filter (fun record => record.1 ∈ hotKeys)).length : Int) ≤ config.hotSetSize
  threshold : config.maintenance.enabled = true →
    1 ≤ config.maintenance.promoteThreshold ∧ IsInt config.maintenance.promoteThreshold

theorem Loads.nonnegKeys (loads : Loads config allData hotKeys) :
    ∀ key ∈ allData.map Prod.fst, 0 ≤ key := by
  intro key mem
  rcases List.mem_map.mp mem with ⟨record, recordMem, rfl⟩
  exact loads.nonneg record recordMem

/-- No value of the records or of the accesses is too long. -/
structure AllShort (config : TeeOmapConfig) (widest : Nat) (allData : List (Int × Bytes))
    (history : List Served) : Prop where
  wide : config.storedValueSize ≤ widest
  data : ∀ record ∈ allData, record.2.length + config.overhead ≤ widest
  writes : ∀ served ∈ history, Short config widest served.newValue

theorem AllShort.before {history : List Served} {last : Served}
    (short : AllShort config widest allData (history ++ [last])) :
    AllShort config widest allData history ∧ Short config widest last.newValue :=
  ⟨⟨short.wide, short.data, fun served mem => short.writes served (List.mem_append_left _ mem)⟩,
    short.writes last (List.mem_append_right _ List.mem_cons_self)⟩

variable {promise : Stage → List Served → TeeOmap Ω → Prop} {stage : Stage}
  {history : List Served}

/-- Every state of a run has each key in one of the tiers. -/
theorem Ran.placed (lawful : LawfulColdMap Ω config.storedValueSize widest)
    (loads : Loads config allData hotKeys)
    (run : Ran config allData hotKeys promise stage history s)
    (findsKeys : ∀ stage history s, promise stage history s → FindsKeys s.coldOmap)
    (nonneg : ∀ served ∈ history, 0 ≤ served.key)
    (short : AllShort config widest allData history) :
    FindsKeys s.coldOmap → ∃ ledger cold,
      Placed config (allData.map Prod.fst) widest ledger cold s := by
  induction run with
  | init constructed initialised =>
      intro fits
      rcases (placed_init lawful short.wide loads.unsplit loads.distinct loads.nonneg loads.hotFit
        short.data constructed).returned initialised fits with ⟨leafMap, placed⟩
      exact ⟨_, _, placed⟩
  | serve before allowed counts returned ih =>
      rcases short.before with ⟨shortBefore, shortNow⟩
      rcases ih (fun served mem => nonneg served (List.mem_append_left _ mem)) shortBefore
        (findsKeys _ _ _ allowed) with ⟨ledger, cold, placed⟩
      exact (placed.serve lawful loads.nonnegKeys loads.threshold
        (nonneg _ (List.mem_append_right _ List.mem_cons_self)) shortNow).returned returned
  | demote before allowed demoted ih =>
      rcases ih nonneg short (findsKeys _ _ _ allowed) with ⟨ledger, cold, placed⟩
      exact (placed.demoteStep lawful loads.nonnegKeys).returned demoted
  | promote before allowed promoted ih =>
      rcases ih nonneg short (findsKeys _ _ _ allowed) with ⟨ledger, cold, placed⟩
      exact (placed.promoteStep lawful loads.nonnegKeys).returned promoted

/-! ## Where a key is -/

/-- The key is in the directory, and its only block is on the path of its leaf or in the stash. -/
structure InHotTier (s : TeeOmap Ω) (key : Int) : Prop where
  listed : s.hotDir.entries.countP (fun entry => entry.key = key) = 1
  once : s.hotOram.keyCount key = 1
  placed : (∃ block ∈ s.hotOram.stash, block.key = key) ∨
    ∃ node ∈ s.hotOram.path (s.hotDir.lookup key), ∃ block ∈ s.hotOram.tree node, block.key = key

/-- The key is neither in the directory nor in the hot ORAM. -/
structure OutsideHotTier (s : TeeOmap Ω) (key : Int) : Prop where
  notListed : s.hotDir.entries.countP (fun entry => entry.key = key) = 0
  nowhere : s.hotOram.keyCount key = 0

end TeeOmap

namespace EnclaveOram

variable {oram : EnclaveOram} {widest : Nat} {ledger : Ledger}

theorem Sound.keyCount_eq (sound : oram.Sound widest ledger) {key : Int}
    (isReal : key ≠ invalidKey) :
    oram.keyCount key = if (ledger key).isSome then 1 else 0 := by
  rw [← keyCount_cut, sound.keeps.keyCount_eq isReal, fitLedger, Option.isSome_map]

/-- The block of a ledger entry is on the path of its leaf or in the stash. -/
theorem Sound.block_placed (sound : oram.Sound widest ledger) {key leaf : Int} {value : Bytes}
    (isLive : ledger key = some (leaf, value)) (isLeaf : IsLeaf oram.level leaf) :
    (∃ block ∈ oram.stash, block.key = key) ∨
      ∃ node ∈ oram.path leaf, ∃ block ∈ oram.tree node, block.key = key := by
  rcases sound.keeps with ⟨held, holds, lists⟩
  have mem : (⟨key, leaf, fitValue oram.valueSize value⟩ : Block) ∈ held := by
    refine (lists.entry _).mpr ?_
    rw [fitLedger, isLive]
    rfl
  rw [← holds.blocks_eq, blocks, Multiset.mem_add, Multiset.mem_sum] at mem
  rcases mem with inStash | ⟨node, nodeMem, inBucket⟩
  · rcases List.mem_map.mp (mem_realBlocks.mp inStash).1 with ⟨block, blockMem, same⟩
    exact Or.inl ⟨block, blockMem, congrArg Block.key same⟩
  · have onPath := holds.placed node nodeMem _ inBucket
    rcases List.mem_map.mp (mem_realBlocks.mp inBucket).1 with ⟨block, blockMem, same⟩
    rw [← (alike_cut oram).path]
    exact Or.inr ⟨node, (pathContains_iff isLeaf).mp onPath, block, blockMem,
      congrArg Block.key same⟩

end EnclaveOram

namespace PackedDirectory

variable {dir : PackedDirectory} {labels : Int → Option Int} {key : Int}

/-- A key is in as many slots as it is listed. -/
theorem countP_key (isReal : key ≠ invalidKey) (entries : List DirEntry) :
    entries.countP (fun entry => entry.key = key) =
      ((labelled entries).map Prod.fst).count key := by
  induction entries with
  | nil => rfl
  | cons entry rest ih =>
      by_cases empty : entry.key = invalidKey
      · rw [labelled_cons_empty empty, List.countP_cons_of_neg (by simpa [empty] using Ne.symm isReal),
          ih]
      · rw [labelled_cons_used empty, List.map_cons, List.countP_cons, List.count_cons, ih]
        simp

theorem Indexes.countP_eq (indexes : dir.Indexes labels) (isReal : key ≠ invalidKey) :
    dir.entries.countP (fun entry => entry.key = key) = if (labels key).isSome then 1 else 0 := by
  rw [countP_key isReal]
  rcases listed : labels key with _ | posLabel
  · refine List.count_eq_zero.mpr (fun mem => ?_)
    rcases List.mem_map.mp mem with ⟨⟨key', posLabel⟩, label, rfl⟩
    rw [(indexes.entry key' posLabel).mp label] at listed
    cases listed
  · exact List.count_eq_one_of_mem indexes.once
      (List.mem_map_of_mem (f := Prod.fst) ((indexes.entry key posLabel).mpr listed))

end PackedDirectory

namespace TeeOmap

open EnclaveOram ColdView

variable {Ω : Type} {s : TeeOmap Ω} {config : TeeOmapConfig} {widest : Nat} {ledger : Ledger}
  {key : Int} {allData : List (Int × Bytes)} {hotKeys : List Int} {history : List Served}

theorem HotTier.inHotTier (hot : HotTier s widest ledger) (nonneg : 0 ≤ key)
    (isHot : (ledger key).isSome) : InHotTier s key := by
  rcases Option.isSome_iff_exists.mp isHot with ⟨⟨leaf, value⟩, isLive⟩
  refine ⟨?_, ?_, ?_⟩
  · rw [hot.indexes.countP_eq (ne_invalidKey nonneg), hotLabels, if_pos nonneg, isLive]
    rfl
  · rw [hot.sound.keyCount_eq (ne_invalidKey nonneg), isLive]
    rfl
  · rw [hot.lookup_hot nonneg isLive]
    exact hot.sound.block_placed isLive (hot.leaves key leaf value isLive)

theorem HotTier.outsideHotTier (hot : HotTier s widest ledger) (nonneg : 0 ≤ key)
    (notHot : ledger key = none) : OutsideHotTier s key := by
  refine ⟨?_, ?_⟩
  · rw [hot.indexes.countP_eq (ne_invalidKey nonneg), hotLabels, if_pos nonneg, notHot]
    rfl
  · rw [hot.sound.keyCount_eq (ne_invalidKey nonneg), notHot]
    rfl

/-- Only keys that are not negative are in the directory. -/
theorem HotTier.listed_nonneg (hot : HotTier s widest ledger) {entry : DirEntry}
    (mem : entry ∈ s.hotDir.entries) (used : entry.key ≠ invalidKey) :
    0 ≤ entry.key ∧ (ledger entry.key).isSome := by
  have label := (hot.indexes.entry entry.key entry.posLabel).mp
    (PackedDirectory.mem_labelled.mpr ⟨used, entry, mem, rfl, rfl⟩)
  unfold hotLabels at label
  split at label
  · rename_i nonneg
    refine ⟨nonneg, ?_⟩
    rw [← Option.isSome_map, label]
    rfl
  · cases label

/-- Some length is above that of every value of a run. -/
theorem exists_allShort (config : TeeOmapConfig) (allData : List (Int × Bytes))
    (history : List Served) : ∃ widest, AllShort config widest allData history := by
  refine ⟨config.storedValueSize +
    (allData.map (fun record => record.2.length + config.overhead)).sum +
    (history.map (fun served => (served.newValue.getD []).length + config.overhead)).sum,
    by omega, fun record mem => ?_, fun served mem new written => ?_⟩
  · have bound := List.le_sum_of_mem (List.mem_map_of_mem
      (f := fun record : Int × Bytes => record.2.length + config.overhead) mem)
    omega
  · have bound := List.le_sum_of_mem (List.mem_map_of_mem
      (f := fun served : Served => (served.newValue.getD []).length + config.overhead) mem)
    simp only [written, Option.getD_some] at bound
    omega

variable [ColdMap Ω] [ColdView Ω]

/-- In every state of a run each stored key is hot or cold, never both or neither. The directory
has a key at most once and counts its slots in use, and only stored keys are visible. -/
theorem tiers_keep_keys {stage : Stage}
    (lawful : ∀ size widest, size ≤ widest → LawfulColdMap Ω size widest)
    (loads : Loads config allData hotKeys)
    (run : Ran config allData hotKeys (fun _ _ s => FindsKeys s.coldOmap) stage history s)
    (nonneg : ∀ served ∈ history, 0 ≤ served.key) (fits : FindsKeys s.coldOmap) :
    ∃ cold, Rep s.coldOmap config.storedValueSize cold ∧
      (∀ key ∈ allData.map Prod.fst, InHotTier s key ∧ cold key = none ∨
        OutsideHotTier s key ∧ (cold key).isSome) ∧
      (∀ key, key ∉ allData.map Prod.fst → cold key = none ∧
        ∀ entry ∈ s.hotDir.entries, entry.key = key → key = invalidKey) ∧
      (∀ key ≠ invalidKey, s.hotDir.entries.countP (fun entry => entry.key = key) ≤ 1) ∧
      s.hotDir.count = s.hotDir.entries.countP (fun entry => entry.key ≠ invalidKey) := by
  rcases exists_allShort config allData history with ⟨widest, short⟩
  rcases run.placed (lawful _ _ short.wide) loads (fun _ _ _ finds => finds) nonneg short fits with
    ⟨ledger, cold, placed⟩
  refine ⟨cold, placed.rep, fun key isKey => ?_, fun key other => ?_, fun key isReal => ?_, ?_⟩
  · have isNonneg := loads.nonnegKeys key isKey
    have once := placed.split.once key isKey
    rcases isHot : ledger key with _ | entry
    · right
      rw [isHot] at once
      refine ⟨placed.hot.outsideHotTier isNonneg isHot, ?_⟩
      rw [← Option.not_isNone, ← once]
      rfl
    · left
      rw [isHot] at once
      exact ⟨placed.hot.inHotTier isNonneg (isHot ▸ rfl), Option.isNone_iff_eq_none.mp once.symm⟩
  · refine ⟨placed.split.noCold key other, ?_⟩
    rintro entry mem rfl
    by_contra used
    rcases placed.hot.listed_nonneg mem used with ⟨isNonneg, isHot⟩
    rw [placed.split.noHot entry.key isNonneg other] at isHot
    cases isHot
  · rw [placed.hot.indexes.countP_eq isReal]
    split <;> omega
  · rw [placed.hot.indexes.count]
    exact congrArg _ (PackedDirectory.length_labelled s.hotDir.entries)

/-- One of two keys is hot, and an access has been made. -/
theorem tiers_keep_keys_sample : ∃ history, ∃ s : TeeOmap PlainColdMap,
    Ran (twoHotKeys 8 2 1) [(1, [1]), (2, [2])] [1] (fun _ _ s => FindsKeys s.coldOmap) .idle history s ∧
      history.map Served.key = [2] ∧ ∃ cold, Rep s.coldOmap 13 cold ∧
      (∀ key ∈ [1, 2], InHotTier s key ∧ cold key = none ∨
        OutsideHotTier s key ∧ (cold key).isSome) ∧
      (∀ key, key ∉ [1, 2] → cold key = none ∧
        ∀ entry ∈ s.hotDir.entries, entry.key = key → key = invalidKey) ∧
      (∀ key ≠ invalidKey, s.hotDir.entries.countP (fun entry => entry.key = key) ≤ 1) ∧
      s.hotDir.count = s.hotDir.entries.countP (fun entry => entry.key ≠ invalidKey) := by
  have evaluated : ((freshRun (Ω := PlainColdMap) (twoHotKeys 8 2 1) [(1, [1]), (2, [2])] [1]
      [2]).runFrom { draws := List.range 100 }).1.toOption.map
        (fun run => (run.2.maintenanceDue, run.1.map Served.key)) = some (false, [2]) := by
    decide +kernel
  rcases run : (freshRun (Ω := PlainColdMap) (twoHotKeys 8 2 1) [(1, [1]), (2, [2])] [1]
      [2]).runFrom { draws := List.range 100 } with ⟨_ | ⟨history, s⟩, world'⟩
  · rw [run] at evaluated
    cases evaluated
  · rw [run] at evaluated
    have parts := Option.some.inj evaluated
    simp only [Prod.mk.injEq] at parts
    have ran := @freshRun_ran PlainColdMap _ _ _ _ (fun _ _ s => FindsKeys s.coldOmap) _ _ _ _
      (fun _ _ => trivial) run
    rw [afterServe, parts.1] at ran
    have loads : Loads (twoHotKeys 8 2 1) [(1, [1]), (2, [2])] [1] :=
      ⟨rfl, by decide, by decide, by decide, fun _ => by decide⟩
    have nonneg : ∀ served ∈ history, 0 ≤ served.key := by
      intro served mem
      have isKey : served.key ∈ history.map Served.key := List.mem_map_of_mem mem
      rw [parts.2, List.mem_singleton] at isKey
      omega
    exact ⟨history, s, ran, parts.2,
      tiers_keep_keys (fun _ _ => PlainColdMap.lawful) loads ran nonneg trivial⟩

end TeeOmap

end TieredOmap
