import Mathlib.Data.Int.Interval
import TieredOMap.Tiered.KeyValue

/-!
# Initialisation

A `Dataset` is what `init` is called with. Every record gets its own data
block, whose id is the record's position; the hot records' references go to the
hot map and the others' to the cold map; with maintenance on, the first hot keys
then move to the client cache. The result serves the client of the dataset.
-/

namespace TieredOmap

/-- The records and hot keys a tiered map is initialised with. -/
structure Dataset where
  records : List (Int × Bytes)
  hotKeys : List Int
  nodup : (records.map Prod.fst).Nodup
  keyRange : ∀ record ∈ records, 0 ≤ record.1 ∧ IsInt record.1
  hotNodup : hotKeys.Nodup
  hotSub : ∀ key ∈ hotKeys, key ∈ records.map Prod.fst

namespace Dataset

/-- The keys of a dataset, in order. -/
def keys (data : Dataset) : List Int := data.records.map Prod.fst

/-- The stored keys. -/
def stored (data : Dataset) : Finset Int := data.keys.toFinset

/-- The reference `init` gives to a key: its position in the dataset. -/
def refOf (data : Dataset) (key : Int) : Bytes := intToBytes (data.keys.idxOf key : Int)

/-- The initial value of a key. -/
def valueAt (data : Dataset) (key : Int) : Bytes :=
  valueOf (KeyMap.lookupEntry data.records key)

@[simp]
theorem mem_stored {data : Dataset} {key : Int} : key ∈ data.stored ↔ key ∈ data.keys := by
  simp [stored]

theorem key_range {data : Dataset} {key : Int} (keyMem : key ∈ data.keys) :
    0 ≤ key ∧ IsInt key := by
  rcases List.mem_map.mp keyMem with ⟨record, recordMem, rfl⟩
  exact data.keyRange record recordMem

/-- The record at a key's position is the key's record. -/
theorem record_at {data : Dataset} {key : Int} (keyMem : key ∈ data.keys) :
    ∃ record, data.records[data.keys.idxOf key]? = some record ∧ record.1 = key := by
  have before := List.idxOf_lt_length_of_mem keyMem
  have present : data.keys[data.keys.idxOf key]? = some key := by
    rw [List.getElem?_eq_getElem before, List.getElem_idxOf]
  rw [keys, List.getElem?_map, Option.map_eq_some_iff] at present
  exact present

theorem card_stored (data : Dataset) : data.stored.card = data.keys.length :=
  List.toFinset_card_of_nodup data.nodup

theorem card_hotKeys (data : Dataset) : data.hotKeys.toFinset.card = data.hotKeys.length :=
  List.toFinset_card_of_nodup data.hotNodup

/-- Distinct non-negative `int` keys: there are at most `2 ^ 31` of them. -/
theorem length_keys_le (data : Dataset) : data.keys.length ≤ 2 ^ 31 := by
  have inRange : data.keys.toFinset ⊆ Finset.Ico (0 : Int) (2 ^ 31) := by
    intro key keyMem
    rcases key_range (List.mem_toFinset.mp keyMem) with ⟨nonneg, isInt⟩
    exact Finset.mem_Ico.mpr ⟨nonneg, isInt.2⟩
  have bound := Finset.card_le_card inRange
  rw [keys, List.toFinset_card_of_nodup data.nodup, Int.card_Ico] at bound
  exact bound.trans (by decide)

theorem refToBlk_refOf {data : Dataset} {key : Int} (keyMem : key ∈ data.keys) :
    refToBlk (data.refOf key) = (data.keys.idxOf key : Int) := by
  have before := List.idxOf_lt_length_of_mem keyMem
  have bound := data.length_keys_le
  have isInt : IsInt (data.keys.idxOf key : Int) := by
    constructor
    · omega
    · have small : data.keys.idxOf key < 2 ^ 31 := by omega
      exact_mod_cast small
  have notEmpty : (data.refOf key).isEmpty = false := by simp [refOf, intToBytes]
  rw [refToBlk, if_neg (by simp [notEmpty]), refOf, bytesToInt_intToBytes isInt]

theorem hot_subset (data : Dataset) : data.hotKeys.toFinset ⊆ data.stored := by
  intro key keyMem
  simpa [keys] using data.hotSub key (List.mem_toFinset.mp keyMem)

/-- The room `init` gives to each tier. -/
def room (data : Dataset) (config : TieredOMapConfig) : Tier → Nat
  | .hot => (max (data.hotKeys.length : Int) 1).toNat
  | .cold =>
      let coldCount : Int := (data.keys.length - data.hotKeys.length : Nat)
      (if config.maintenance.enabled then max coldCount config.totalKeys
        else max coldCount 1).toNat

/-- The layout `init` establishes. -/
def layout (data : Dataset) (config : TieredOMapConfig) : Layout where
  stored := data.stored
  refs := data.refOf
  room := data.room config
  valid key keyMem := by
    have range := key_range (mem_stored.mp keyMem)
    have nonneg := range.1
    simp only [invalidKey]
    omega
  refs_ne_nil key _ := intToBytes_ne_nil _
  blk_nonneg key keyMem := by
    rw [refToBlk_refOf (mem_stored.mp keyMem)]
    exact Int.natCast_nonneg _
  blk_inj key keyMem key' keyMem' same := by
    rw [refToBlk_refOf (mem_stored.mp keyMem), refToBlk_refOf (mem_stored.mp keyMem')] at same
    exact (List.idxOf_inj (mem_stored.mp keyMem)).mp (by exact_mod_cast same)

end Dataset

namespace TieredOMap

variable {Ω : Tier → Type} [∀ tier, OmapInterface (Ω tier)] [∀ tier, LawfulOmap (Ω tier)] [Cipher]

/-! ## Placing the records -/

/-- The stored form of a record's value. -/
def storedForm (useEpoch : Bool) (value : Bytes) : Bytes :=
  if useEpoch then encodeWithEpoch value { cnt := 0, ep := 0 } else value

omit [Cipher] in
/-- What `placeRecord` has done after the records of a list. -/
theorem foldl_placeRecord (useEpoch : Bool) (hot : Finset Int) {refs : Int → Bytes}
    (records : List (Int × Bytes))
    (refsEq : ∀ (i : Nat) record, records[i]? = some record → refs record.1 = intToBytes (i : Int)) :
    let placed := records.foldl (placeRecord useEpoch hot) {}
    placed.nextId = records.length ∧
      placed.hotRefs = (records.filter (fun record => record.1 ∈ hot)).map
        (fun record => (record.1, refs record.1)) ∧
      placed.coldRefs = (records.filter (fun record => record.1 ∉ hot)).map
        (fun record => (record.1, refs record.1)) ∧
      (∀ (i : Nat) record, records[i]? = some record →
        placed.blocks.get? (i : Int) = some (storedForm useEpoch record.2)) ∧
      ∀ key ∈ placed.blocks.keys, 0 ≤ key := by
  induction records using List.reverseRecOn with
  | nil => simp
  | append_singleton records record ih =>
      have prefixRefs : ∀ (i : Nat) record', records[i]? = some record' →
          refs record'.1 = intToBytes (i : Int) := by
        intro i record' present
        refine refsEq i record' ?_
        rw [List.getElem?_append_left (List.getElem?_eq_some_iff.mp present).1]
        exact present
      rcases ih prefixRefs with ⟨nextId, hotRefs, coldRefs, blocks, ids⟩
      have lastRef : refs record.1 = intToBytes (records.length : Int) :=
        refsEq records.length record (by simp)
      simp only [List.foldl_append, List.foldl_cons, List.foldl_nil]
      set placed := records.foldl (placeRecord useEpoch hot) {} with placedDef
      refine ⟨by simp [placeRecord, nextId], ?_, ?_, ?_, ?_⟩
      · by_cases isHot : record.1 ∈ hot <;>
          simp [placeRecord, isHot, hotRefs, nextId, lastRef, List.filter_append]
      · by_cases isHot : record.1 ∈ hot <;>
          simp [placeRecord, isHot, coldRefs, nextId, lastRef, List.filter_append]
      · intro i record' present
        simp only [placeRecord, nextId, KeyMap.get?_set]
        by_cases here : i = records.length
        · subst here
          have same : record = record' := by simpa using present
          subst same
          simp [storedForm]
        · have before : i < records.length := by
            have bound := (List.getElem?_eq_some_iff.mp present).1
            simp at bound
            omega
          rw [List.getElem?_append_left before] at present
          have differs : (i : Int) ≠ (records.length : Int) := by exact_mod_cast here
          simpa [differs] using blocks i record' present
      · intro key keyMem
        rcases (KeyMap.mem_keys_set _).mp keyMem with rfl | old
        · rw [nextId]
          exact Int.natCast_nonneg _
        · exact ids key old

omit [Cipher] in
/-- The references of a part of the records, as a map. -/
theorem lookup_refs {records : List (Int × Bytes)} {refs : Int → Bytes} {test : Int → Bool}
    (key : Int) :
    KeyMap.lookupEntry ((records.filter (fun record => test record.1)).map
        (fun record => (record.1, refs record.1))) key =
      if key ∈ records.map Prod.fst ∧ test key = true then some (refs key) else none := by
  induction records with
  | nil => simp [KeyMap.lookupEntry]
  | cons record rest ih =>
      by_cases passes : test record.1 = true
      · by_cases here : key = record.1
        · simp [KeyMap.lookupEntry, passes, here]
        · simp only [List.filter_cons, passes, if_true, List.map_cons, KeyMap.lookupEntry, here,
            if_false, List.mem_cons, false_or]
          exact ih
      · simp only [List.filter_cons, passes, List.map_cons, List.mem_cons]
        by_cases here : key = record.1
        · subst here
          simpa [passes] using ih
        · simp only [here, false_or]
          exact ih

omit [Cipher] in
/-- The references of the hot and of the other records, as maps. -/
theorem tierRefs (data : Dataset) (test : Int → Bool) :
    ∃ refs : KeyMap Int Bytes,
      refs.entries = (data.records.filter (fun record => test record.1)).map
        (fun record => (record.1, data.refOf record.1)) ∧
      refs.get? = refsOn data.refOf (data.stored.filter (fun key => test key = true)) ∧
      refs.entries.length = (data.stored.filter (fun key => test key = true)).card ∧
      ∀ key ∈ refs.keys, key ≠ invalidKey := by
  have keysEq : ((data.records.filter (fun record => test record.1)).map
      (fun record => (record.1, data.refOf record.1))).map Prod.fst = data.keys.filter test := by
    rw [List.map_map, Dataset.keys, List.filter_map]
    rfl
  have nodup : (data.keys.filter test).Nodup := data.nodup.filter _
  refine ⟨⟨_, keysEq ▸ nodup⟩, rfl, ?_, ?_, ?_⟩
  · funext key
    refine (lookup_refs key).trans ?_
    have heldIff : key ∈ data.stored.filter (fun key => test key = true) ↔
        key ∈ data.records.map Prod.fst ∧ test key = true := by
      rw [Finset.mem_filter, Dataset.mem_stored, Dataset.keys]
    by_cases held : key ∈ data.records.map Prod.fst ∧ test key = true
    · rw [if_pos held, refsOn, if_pos (heldIff.mpr held)]
    · rw [if_neg held, refsOn, if_neg (fun mem => held (heldIff.mp mem))]
  · rw [← List.length_map (f := Prod.fst), keysEq, ← List.toFinset_card_of_nodup nodup,
      List.toFinset_filter]
    rfl
  · intro key keyMem
    rw [KeyMap.keys, keysEq] at keyMem
    have range := (Dataset.key_range (List.mem_filter.mp keyMem).1).1
    simp only [invalidKey]
    omega

/-! ## Extracting the cache -/

omit [Cipher] in
/-- Extraction moves the given keys with their references to the cache. -/
theorem ends_extractKeys {refs : Int → Bytes} {room : Nat} (keys : List Int) {s : TieredOMap Ω}
    (nodup : keys.Nodup) (sub : ∀ key ∈ keys, key ∈ s.physHotKeys)
    (rep : LawfulOmap.Rep s.hotOmap (refsOn refs s.physHotKeys) room) :
    Ends (s.extractKeys keys) (fun outcome =>
      outcome.1 = keys.map (fun key => { key := key, fp := 0 }) ∧ ∃ hotOmap,
        outcome.2 = { s with
          hotOmap := hotOmap
          physHotKeys := s.physHotKeys \ keys.toFinset
          cacheKeys := s.cacheKeys ∪ keys.toFinset
          cacheDataRefs := keys.foldl (fun map key => map.set key (refs key)) s.cacheDataRefs } ∧
        LawfulOmap.Rep hotOmap (refsOn refs (s.physHotKeys \ keys.toFinset)) room) := by
  induction keys generalizing s with
  | nil =>
      refine Prog.ends_pure ⟨rfl, s.hotOmap, ?_, ?_⟩
      · simp
      · simpa using rep
  | cons key rest ih =>
      rcases List.nodup_cons.mp nodup with ⟨keyOut, restNodup⟩
      have keyMem := sub key List.mem_cons_self
      refine Prog.ends_bind (Q := fun outcome : Bytes × TieredOMap Ω => ∃ hotOmap,
        outcome.1 = refs key ∧ outcome.2 = { s with hotOmap := hotOmap } ∧
          LawfulOmap.Rep hotOmap (refsOn refs s.physHotKeys) room) ?_ ?_
      · refine Prog.ends_bind (LawfulOmap.ends_search _ _ _ key rep) ?_
        rintro ⟨ref, hotOmap⟩ ⟨refEq, rep'⟩
        exact Prog.ends_pure ⟨hotOmap, refEq.trans (valueOf_refsOn keyMem), rfl, rep'⟩
      rintro ⟨_, _⟩ ⟨hotOmap, rfl, rfl, rep'⟩
      refine Prog.ends_bind (Q := fun s' : TieredOMap Ω => ∃ hotOmap,
        s' = { s with hotOmap := hotOmap } ∧
          LawfulOmap.Rep hotOmap (refsOn refs (s.physHotKeys.erase key)) room) ?_ ?_
      · refine Prog.ends_bind (LawfulOmap.ends_remove _ _ _ key rep') ?_
        intro removed removedRep
        rw [update_refsOn_none] at removedRep
        exact Prog.ends_pure ⟨removed, rfl, removedRep⟩
      rintro _ ⟨removed, rfl, removedRep⟩
      refine Prog.ends_bind (ih (s := { s with
          hotOmap := removed
          physHotKeys := s.physHotKeys.erase key
          cacheKeys := insert key s.cacheKeys
          cacheDataRefs := s.cacheDataRefs.set key (refs key) }) restNodup ?_ removedRep) ?_
      · intro key' keyMem'
        have differs : key' ≠ key := fun same => keyOut (same ▸ keyMem')
        exact Finset.mem_erase.mpr ⟨differs, sub key' (List.mem_cons_of_mem _ keyMem')⟩
      rintro ⟨entries, _⟩ ⟨rfl, hotOmap', rfl, rep''⟩
      have physEq : s.physHotKeys.erase key \ rest.toFinset =
          s.physHotKeys \ (key :: rest).toFinset := by
        ext key'
        simp only [Finset.mem_sdiff, Finset.mem_erase, List.toFinset_cons, Finset.mem_insert]
        tauto
      have cacheEq : insert key s.cacheKeys ∪ rest.toFinset =
          s.cacheKeys ∪ (key :: rest).toFinset := by
        ext key'
        simp only [Finset.mem_union, Finset.mem_insert, List.toFinset_cons]
        tauto
      simp only [physEq, cacheEq] at rep'' ⊢
      exact Prog.ends_pure ⟨rfl, hotOmap', rfl, rep''⟩

omit [∀ tier, OmapInterface (Ω tier)] [∀ tier, LawfulOmap (Ω tier)] [Cipher] in
theorem get?_foldl_set (refs : Int → Bytes) (keys : List Int) (map : KeyMap Int Bytes) (key : Int) :
    (keys.foldl (fun map key => map.set key (refs key)) map).get? key =
      if key ∈ keys then some (refs key) else map.get? key := by
  induction keys generalizing map with
  | nil => simp
  | cons head rest ih =>
      rw [List.foldl_cons, ih, KeyMap.get?_set]
      by_cases inRest : key ∈ rest
      · simp [inRest]
      · by_cases here : key = head <;> simp [inRest, here]

end TieredOMap

namespace Client

/-- The keys that `extract_cache` takes. -/
def taken (c : Client) : List Int :=
  c.hotKeyList.take (min c.config.maintenance.cacheSize c.hotKeyList.length).toNat

/-- `extractCache`. -/
def extractCache (refs : Int → Bytes) (c : Client) : Client :=
  { c with
    physHotKeys := c.physHotKeys \ c.taken.toFinset
    hotKeyList := c.hotKeyList.drop
      (min c.config.maintenance.cacheSize c.hotKeyList.length).toNat
    cacheKeys := c.cacheKeys ∪ c.taken.toFinset
    cacheDataRefs := c.taken.foldl (fun map key => map.set key (refs key)) c.cacheDataRefs }.withMgr
      (fun maint => maint.initCache (c.taken.map (fun key => { key := key, fp := 0 })))

/-- The client before its cache is filled. -/
def unfilled (data : Dataset) (config : TieredOMapConfig) : Client where
  config := config
  maint := if config.maintenance.enabled then some { cfg := config.maintenance } else none
  hotKeys := data.hotKeys.toFinset
  physHotKeys := data.hotKeys.toFinset
  hotKeyList := data.hotKeys.insertionSort (· ≤ ·)
  cacheKeys := ∅
  cacheDataRefs := ∅
  pendingInsertKey := invalidKey
  pendingInsertRef := []
  daPendingDemotions := []
  records := fun key => TieredOMap.storedForm config.maintenance.enabled (data.valueAt key)

/-- The client that `init` leaves. -/
def start (data : Dataset) (config : TieredOMapConfig) : Client :=
  if config.maintenance.enabled then (unfilled data config).extractCache data.refOf
  else unfilled data config

variable {layout : Layout} {c : Client}

/-- Extraction into an empty cache keeps the shape. -/
theorem Shape.extractCache (shape : c.Shape layout) (enabled : c.maint.isSome)
    (noCache : c.cacheKeys = ∅) (isIdle : c.mgr.swapState = .idle) :
    c.Keeps layout (c.extractCache layout.refs) := by
  set count := (min c.config.maintenance.cacheSize c.hotKeyList.length).toNat with countDef
  have takenDef : c.taken = c.hotKeyList.take count := rfl
  have listNodup : c.hotKeyList.Nodup := shape.listSorted.imp (fun before => before.ne)
  have takenNodup : c.taken.Nodup := listNodup.sublist (List.take_sublist _ _)
  have takenSub : c.taken.toFinset ⊆ c.physHotKeys := fun key keyMem =>
    (shape.mem_list key).mp (List.mem_of_mem_take (List.mem_toFinset.mp keyMem))
  have mem_drop : ∀ key, key ∈ c.hotKeyList.drop count ↔
      key ∈ c.physHotKeys \ c.taken.toFinset := by
    intro key
    have splitMem : key ∈ c.hotKeyList ↔
        key ∈ c.hotKeyList.take count ∨ key ∈ c.hotKeyList.drop count := by
      rw [← List.mem_append, List.take_append_drop]
    have apart := List.disjoint_take_drop listNodup (le_refl count)
    rw [Finset.mem_sdiff, ← shape.mem_list, List.mem_toFinset, takenDef, splitMem]
    constructor
    · intro dropped
      exact ⟨Or.inr dropped, fun kept => apart kept dropped⟩
    · rintro ⟨kept | dropped, notKept⟩
      · exact absurd kept notKept
      · exact dropped
  rcases pendingIn_of_idle isIdle with ⟨noHot, noCold⟩
  have hotKeysEq : c.hotKeys = c.physHotKeys := by
    rw [shape.hotKeys_eq, noCache, noHot, Finset.union_empty, Finset.union_empty]
  have fits := shape.hotFits
  rw [noHot, Finset.union_empty] at fits
  have mgrEq : (c.extractCache layout.refs).mgr =
      c.mgr.initCache (c.taken.map (fun key => { key := key, fp := 0 })) := by
    unfold Client.extractCache
    rw [mgr_withMgr, if_pos enabled]
    rfl
  have swapEq : (c.extractCache layout.refs).mgr.swapState = .idle := by
    rw [mgrEq]
    exact isIdle
  have listEq : (c.extractCache layout.refs).mgr.cacheKeyList = c.taken := by
    rw [mgrEq]
    simp [MaintenanceManager.cacheKeyList, MaintenanceManager.initCache, Function.comp_def]
  have cacheEq : (c.extractCache layout.refs).cacheKeys = c.taken.toFinset := by
    simp [Client.extractCache, withMgr, noCache]
  rcases pendingIn_of_idle swapEq with ⟨noHot', noCold'⟩
  refine ⟨⟨shape.listSorted.sublist (List.drop_sublist _ _), mem_drop, ?_, ?_, ?_,
    fun _ => shape.idle isIdle, fun notIdle => absurd swapEq notIdle, ?_, shape.hotKeys_sub, ?_, ?_,
    shape.coldFits⟩, rfl, rfl, by simp [Client.extractCache]⟩
  · rw [listEq]
    exact takenNodup
  · intro key
    rw [listEq, cacheEq, List.mem_toFinset]
  · intro key
    have emptyRefs : c.cacheDataRefs.get? key = none := by
      rw [shape.cacheRefs, noCache]
      rfl
    rw [cacheEq]
    change KeyMap.get? (c.taken.foldl _ c.cacheDataRefs) key = _
    rw [TieredOMap.get?_foldl_set, emptyRefs]
    simp only [refsOn, List.mem_toFinset]
  · rw [noHot', Finset.union_empty, cacheEq]
    change c.hotKeys = c.physHotKeys \ c.taken.toFinset ∪ c.taken.toFinset
    rw [hotKeysEq, Finset.sdiff_union_of_subset takenSub]
  · rw [cacheEq]
    exact Finset.sdiff_disjoint
  · rw [noHot', Finset.union_empty]
    exact (Finset.card_le_card Finset.sdiff_subset).trans fits

/-- Before its cache is filled, the client has the shape of its dataset. -/
theorem shape_unfilled (data : Dataset) (config : TieredOMapConfig) :
    (unfilled data config).Shape (data.layout config) := by
  have listNodup : (data.hotKeys.insertionSort (· ≤ ·)).Nodup :=
    (List.perm_insertionSort _ _).nodup_iff.mpr data.hotNodup
  have listSorted : (data.hotKeys.insertionSort (· ≤ ·)).Pairwise (· < ·) := by
    refine ((List.pairwise_insertionSort (· ≤ ·) data.hotKeys).and listNodup).imp ?_
    intro key key' order
    have le := order.1
    have ne := order.2
    omega
  have mgrEq : (unfilled data config).mgr = { cfg := config.maintenance } := by
    simp only [mgr, unfilled]
    split <;> rfl
  have isIdle : (unfilled data config).mgr.swapState = .idle := by rw [mgrEq]
  rcases pendingIn_of_idle isIdle with ⟨noHot, noCold⟩
  have hotFewer := Finset.card_le_card data.hot_subset
  rw [data.card_hotKeys, data.card_stored] at hotFewer
  refine ⟨listSorted, ?_, ?_, ?_, fun _ => rfl, fun _ => ⟨rfl, rfl⟩,
    fun notIdle => absurd isIdle notIdle, ?_, data.hot_subset, Finset.disjoint_empty_right _, ?_,
    ?_⟩
  · intro key
    simp [unfilled]
  · rw [mgrEq]
    exact List.nodup_nil
  · intro key
    rw [mgrEq]
    simp [MaintenanceManager.cacheKeyList, unfilled]
  · rw [noHot]
    simp [unfilled]
  · rw [noHot, Finset.union_empty]
    change data.hotKeys.toFinset.card ≤ (max (data.hotKeys.length : Int) 1).toNat
    rw [data.card_hotKeys]
    omega
  · change (data.stored \ data.hotKeys.toFinset).card ≤ data.room config .cold
    rw [Finset.card_sdiff_of_subset data.hot_subset, data.card_stored, data.card_hotKeys]
    simp only [Dataset.room]
    split <;> omega

/-- The client that `init` leaves has the shape of its dataset. -/
theorem keeps_start (data : Dataset) (config : TieredOMapConfig) :
    (unfilled data config).Keeps (data.layout config) (start data config) := by
  have shape := shape_unfilled data config
  unfold start
  split
  · rename_i enabled
    refine shape.extractCache ?_ rfl ?_
    · simp [unfilled, enabled]
    · simp [mgr, unfilled, enabled]
  · exact shape.keeps

end Client

namespace TieredOMap

variable {Ω : Tier → Type} [∀ tier, OmapInterface (Ω tier)] [∀ tier, LawfulOmap (Ω tier)] [Cipher]

/-- What `init` may throw. -/
def InitThrows (config : TieredOMapConfig) (error : Err) : Prop :=
  error = .stashOverflow ∨
    error = .lengthError ∧ config.maintenance.enabled = true ∧ config.maintenance.cacheSize < 0

variable {layout : Layout} {c : Client}

/-- Extraction into an empty cache does to the map what it does to the client. -/
theorem Serves.ends_extractCache {s : TieredOMap Ω} (serves : s.Serves layout c)
    (isEpoch : c.maint.isSome) (enabled : c.config.maintenance.enabled = true)
    (noCache : c.cacheKeys = ∅) (isIdle : c.mgr.swapState = .idle) :
    Prog.Ends (InitThrows c.config) s.extractCache (fun s' =>
      s'.Serves layout (c.extractCache layout.refs)) := by
  obtain ⟨records, clientEq⟩ : ∃ records, c = s.client records := ⟨_, serves.client.symm⟩
  subst clientEq
  have shape := (serves.shape.extractCache isEpoch noCache isIdle).shape
  have listNodup : s.hotKeyList.Nodup := serves.shape.listSorted.imp (fun before => before.ne)
  unfold extractCache
  dsimp only
  split
  · rename_i negative
    have below : s.config.maintenance.cacheSize < 0 := by omega
    exact Prog.ends_fail (Or.inr ⟨rfl, enabled, below⟩)
  · refine Prog.ends_bind ((ends_extractKeys (s.client records).taken
      (listNodup.sublist (List.take_sublist _ _)) ?_ (serves.reps .hot)).allow
        (fun error overflow => Or.inl overflow)) ?_
    · intro key keyMem
      exact (serves.shape.mem_list key).mp (List.mem_of_mem_take keyMem)
    rintro ⟨_, _⟩ ⟨rfl, hotOmap, rfl, rep'⟩
    have swapEq : ((s.client records).extractCache layout.refs).mgr.swapState = .idle := by
      unfold Client.extractCache
      rw [Client.mgr_withMgr, if_pos isEpoch]
      exact isIdle
    refine Prog.ends_pure (@Serves.moved _ _ _ _ _ _ _ _ _ serves .hot hotOmap
      ⟨rfl, rfl, rfl, rfl⟩ rfl shape rfl rep' ?_)
    change layout.stored \ (s.hotKeys ∪ _) = layout.stored \ (s.hotKeys ∪ _)
    rw [(Client.pendingIn_of_idle swapEq).2, (Client.pendingIn_of_idle isIdle).2]

/-- `init` establishes the layout of the dataset and serves its first client. -/
theorem ends_init (data : Dataset) (config : TieredOMapConfig) :
    Prog.Ends (InitThrows config) (TieredOMap.init (Ω := Ω) config data.records data.hotKeys)
      (fun s => s.Serves (data.layout config) (Client.start data config)) := by
  have overflowOk : ∀ error, error = Err.stashOverflow → InitThrows config error :=
    fun error overflow => Or.inl overflow
  have refsEq : ∀ (i : Nat) record, data.records[i]? = some record →
      data.refOf record.1 = intToBytes (i : Int) := by
    intro i record present
    rcases List.getElem?_eq_some_iff.mp present with ⟨before, recordEq⟩
    have idx : data.keys.idxOf record.1 = i := by
      have beforeKey : i < data.keys.length := by simpa [Dataset.keys] using before
      have getKey : data.keys[i] = record.1 := by
        simp [Dataset.keys, recordEq]
      rw [← getKey]
      exact data.nodup.idxOf_getElem i _
    rw [Dataset.refOf, idx]
  have placedSpec := foldl_placeRecord config.maintenance.enabled data.hotKeys.toFinset
    data.records refsEq
  unfold TieredOMap.init
  dsimp only at placedSpec ⊢
  set placed := data.records.foldl
    (placeRecord config.maintenance.enabled data.hotKeys.toFinset) {} with placedDef
  rcases placedSpec with ⟨nextId, hotRefs, coldRefs, blocks, ids⟩
  rcases tierRefs data (fun key => key ∈ data.hotKeys.toFinset)
    with ⟨hotMap, hotEntries, hotGet, hotLength, hotValid⟩
  rcases tierRefs data (fun key => key ∉ data.hotKeys.toFinset)
    with ⟨coldMap, coldEntries, coldGet, coldLength, coldValid⟩
  rw [← hotEntries] at hotRefs
  rw [← coldEntries] at coldRefs
  have hotSet : data.stored.filter (fun key => decide (key ∈ data.hotKeys.toFinset) = true) =
      data.hotKeys.toFinset := by
    simpa using Finset.filter_mem_eq_inter.trans (Finset.inter_eq_right.mpr data.hot_subset)
  have coldSet : data.stored.filter (fun key => decide (key ∉ data.hotKeys.toFinset) = true) =
      data.stored \ data.hotKeys.toFinset := by
    simpa using (Finset.sdiff_eq_filter data.stored data.hotKeys.toFinset).symm
  rw [hotSet] at hotGet hotLength
  rw [coldSet] at coldGet coldLength
  rw [data.card_hotKeys] at hotLength
  rw [Finset.card_sdiff_of_subset data.hot_subset, data.card_stored, data.card_hotKeys] at coldLength
  have hotFewer : data.hotKeys.length ≤ data.keys.length := by
    have fewer := Finset.card_le_card data.hot_subset
    rwa [data.card_hotKeys, data.card_stored] at fewer
  rw [hotRefs, coldRefs, hotLength, coldLength]
  refine Prog.ends_bind ((PathORAM.ends_new _ _ _).allow overflowOk) ?_
  intro oram unused
  have realIds : ∀ entry ∈ placed.blocks.entries, entry.1 ≠ invalidKey := by
    intro entry entryMem
    have nonneg := ids entry.1 (List.mem_map_of_mem entryMem)
    simp only [invalidKey]
    omega
  refine Prog.ends_bind ((unused.ends_init realIds).allow overflowOk) ?_
  intro dataOram isArray
  refine Prog.ends_bind ((LawfulOmap.ends_make _ _ _ _).allow overflowOk) ?_
  intro hotFresh isHotFresh
  refine Prog.ends_bind ((LawfulOmap.ends_make _ _ _ _).allow overflowOk) ?_
  intro coldFresh isColdFresh
  refine Prog.ends_bind
    ((LawfulOmap.ends_init _ _ hotMap isHotFresh hotValid (by omega)).allow overflowOk) ?_
  intro hotOmap hotRep
  refine Prog.ends_bind
    ((LawfulOmap.ends_init _ _ coldMap isColdFresh coldValid (by split <;> omega)).allow
      overflowOk) ?_
  intro coldOmap coldRep
  rw [hotGet] at hotRep
  rw [coldGet] at coldRep
  set s : TieredOMap Ω := {
    config, hotOmap, coldOmap, dataOram
    maint := if config.maintenance.enabled then some { cfg := config.maintenance } else none
    nextDataBlockId := placed.nextId
    hotKeys := data.hotKeys.toFinset
    physHotKeys := data.hotKeys.toFinset
    hotKeyList := data.hotKeys.insertionSort (· ≤ ·)
    hotCapacity := max (data.hotKeys.length : Int) 1 } with sDef
  have serves : s.Serves (data.layout config) (Client.unfilled data config) := by
    refine ⟨rfl, Client.shape_unfilled data config, ?_, ⟨_, isArray, ?_⟩, rfl⟩
    · intro tier
      cases tier with
      | hot => exact hotRep
      | cold =>
          have keysEq : (Client.unfilled data config).tierKeys (data.layout config) .cold =
              data.stored \ data.hotKeys.toFinset := by
            have isIdle : (Client.unfilled data config).mgr.swapState = .idle := by
              simp only [Client.mgr, Client.unfilled]
              split <;> rfl
            simp only [Client.tierKeys, (Client.pendingIn_of_idle isIdle).2, Finset.union_empty]
            rfl
          rw [keysEq]
          exact coldRep
    · intro key keyStored
      have keyMem : key ∈ data.keys := Dataset.mem_stored.mp keyStored
      rcases Dataset.record_at keyMem with ⟨record, present, recordKey⟩
      have looked : KeyMap.lookupEntry data.records key = some record.2 := by
        rw [KeyMap.lookupEntry_eq_some_iff data.nodup, ← recordKey]
        exact List.mem_of_getElem? present
      change placed.blocks.get? (refToBlk (data.refOf key)) =
        some (storedForm config.maintenance.enabled (data.valueAt key))
      rw [Dataset.refToBlk_refOf keyMem, Dataset.valueAt, looked]
      exact blocks _ record present
  unfold Client.start
  split
  · rename_i enabled
    refine serves.ends_extractCache ?_ enabled rfl ?_
    · simp [Client.unfilled, enabled]
    · simp [Client.mgr, Client.unfilled, enabled]
  · exact Prog.ends_pure serves

end TieredOMap

end TieredOmap
