import TieredOMap.Tiered.Client

/-!
# The tier partition

`Shape` is what the key sets, the client cache, the manager and the pending
entry of a client say about each other, and `tierKeys` the keys each tier then
holds. Each maintenance move (demotion, promotion and the two inserts) takes a
shape to a shape and moves exactly the keys it should between tiers.
-/

namespace TieredOmap

/-! ## Sorted key lists -/

theorem mem_eraseSorted {keys : List Int} (sorted : keys.Pairwise (· < ·)) {key key' : Int} :
    key' ∈ eraseSorted keys key ↔ key' ∈ keys ∧ key' ≠ key := by
  induction keys with
  | nil => simp [eraseSorted]
  | cons head rest ih =>
      rcases List.pairwise_cons.mp sorted with ⟨headLt, restSorted⟩
      unfold eraseSorted
      split
      · rename_i before
        simp only [List.mem_cons, ih restSorted]
        constructor
        · rintro (rfl | ⟨inRest, differs⟩)
          · exact ⟨Or.inl rfl, by omega⟩
          · exact ⟨Or.inr inRest, differs⟩
        · tauto
      · split
        · rename_i same
          subst same
          simp only [List.mem_cons]
          constructor
          · exact fun inRest => ⟨Or.inr inRest, (headLt key' inRest).ne'⟩
          · rintro ⟨rfl | inRest, differs⟩
            · exact absurd rfl differs
            · exact inRest
        · simp only [List.mem_cons]
          constructor
          · rintro (rfl | inRest)
            · exact ⟨Or.inl rfl, by omega⟩
            · have later := headLt key' inRest
              exact ⟨Or.inr inRest, by omega⟩
          · exact And.left

theorem pairwise_eraseSorted {keys : List Int} (sorted : keys.Pairwise (· < ·)) (key : Int) :
    (eraseSorted keys key).Pairwise (· < ·) := by
  induction keys with
  | nil => simp [eraseSorted]
  | cons head rest ih =>
      rcases List.pairwise_cons.mp sorted with ⟨headLt, restSorted⟩
      unfold eraseSorted
      split
      · refine List.pairwise_cons.mpr ⟨?_, ih restSorted⟩
        intro key' keyMem
        exact headLt key' ((mem_eraseSorted restSorted).mp keyMem).1
      · split
        · exact restSorted
        · exact sorted

theorem mem_insertSorted {keys : List Int} {key key' : Int} :
    key' ∈ insertSorted keys key ↔ key' = key ∨ key' ∈ keys := by
  induction keys with
  | nil => simp [insertSorted]
  | cons head rest ih =>
      unfold insertSorted
      split
      · simp only [List.mem_cons, ih]
        tauto
      · simp

theorem pairwise_insertSorted {keys : List Int} (sorted : keys.Pairwise (· < ·)) {key : Int}
    (absent : key ∉ keys) : (insertSorted keys key).Pairwise (· < ·) := by
  induction keys with
  | nil => simp [insertSorted]
  | cons head rest ih =>
      rcases List.pairwise_cons.mp sorted with ⟨headLt, restSorted⟩
      simp only [List.mem_cons, not_or] at absent
      unfold insertSorted
      split
      · rename_i before
        refine List.pairwise_cons.mpr ⟨?_, ih restSorted absent.2⟩
        intro key' keyMem
        rcases mem_insertSorted.mp keyMem with rfl | inRest
        · exact before
        · exact headLt key' inRest
      · rename_i notBefore
        refine List.pairwise_cons.mpr ⟨?_, sorted⟩
        intro key' keyMem
        rcases List.mem_cons.mp keyMem with rfl | inRest
        · omega
        · have later := headLt key' inRest
          omega

/-! ## Reference maps -/

/-- The references of the given keys. -/
def refsOn (refs : Int → Bytes) (keys : Finset Int) (key : Int) : Option Bytes :=
  if key ∈ keys then some (refs key) else none

theorem update_refsOn_none (refs : Int → Bytes) (keys : Finset Int) (key : Int) :
    Function.update (refsOn refs keys) key none = refsOn refs (keys.erase key) := by
  funext key'
  by_cases here : key' = key
  · subst here
    simp [refsOn]
  · simp [refsOn, here]

theorem update_refsOn_some (refs : Int → Bytes) (keys : Finset Int) (key : Int) :
    Function.update (refsOn refs keys) key (some (refs key)) = refsOn refs (insert key keys) := by
  funext key'
  by_cases here : key' = key
  · subst here
    simp [refsOn]
  · simp [refsOn, here]

theorem refsOn_isSome {refs : Int → Bytes} {keys : Finset Int} {key : Int} :
    (refsOn refs keys key).isSome ↔ key ∈ keys := by
  unfold refsOn
  split <;> simp [*]

theorem valueOf_refsOn {refs : Int → Bytes} {keys : Finset Int} {key : Int} (keyMem : key ∈ keys) :
    valueOf (refsOn refs keys key) = refs key := by
  simp [refsOn, keyMem, valueOf]

namespace Client

/-- The pending key, if it is on its way in the given direction. -/
def pendingIn (c : Client) (swapState : SwapState) : Finset Int :=
  if c.mgr.swapState = swapState then {c.pendingInsertKey} else ∅

/-- The keys a tier holds. -/
def tierKeys (layout : Layout) (c : Client) : Tier → Finset Int
  | .hot => c.physHotKeys
  | .cold => layout.stored \ (c.hotKeys ∪ c.pendingIn .coldPend)

/-- How the key sets, the cache, the manager and the pending entry fit together. -/
structure Shape (layout : Layout) (c : Client) : Prop where
  listSorted : c.hotKeyList.Pairwise (· < ·)
  mem_list : ∀ key, key ∈ c.hotKeyList ↔ key ∈ c.physHotKeys
  cacheNodup : c.mgr.cacheKeyList.Nodup
  mem_cache : ∀ key, key ∈ c.mgr.cacheKeyList ↔ key ∈ c.cacheKeys
  cacheRefs : ∀ key, c.cacheDataRefs.get? key = refsOn layout.refs c.cacheKeys key
  idle : c.mgr.swapState = .idle → c.pendingInsertKey = invalidKey ∧ c.pendingInsertRef = []
  pending : c.mgr.swapState ≠ .idle → c.pendingInsertKey ∈ layout.stored ∧
    c.pendingInsertRef = layout.refs c.pendingInsertKey ∧
    c.pendingInsertKey ∉ c.physHotKeys ∧ c.pendingInsertKey ∉ c.cacheKeys
  hotKeys_eq : c.hotKeys = c.physHotKeys ∪ c.cacheKeys ∪ c.pendingIn .hotPend
  hotKeys_sub : c.hotKeys ⊆ layout.stored
  apart : Disjoint c.physHotKeys c.cacheKeys
  hotFits : (c.physHotKeys ∪ c.pendingIn .hotPend).card ≤ layout.room .hot
  coldFits : (layout.stored \ c.hotKeys).card ≤ layout.room .cold

variable {layout : Layout} {c c' : Client}

theorem Shape.phys_sub (shape : c.Shape layout) : c.physHotKeys ⊆ c.hotKeys := by
  rw [shape.hotKeys_eq]
  exact fun key keyMem => Finset.mem_union_left _ (Finset.mem_union_left _ keyMem)

theorem Shape.cache_sub (shape : c.Shape layout) : c.cacheKeys ⊆ c.hotKeys := by
  rw [shape.hotKeys_eq]
  exact fun key keyMem => Finset.mem_union_left _ (Finset.mem_union_right _ keyMem)

/-- The reference of a cached key is the one it was given at the start. -/
theorem Shape.cacheRef (shape : c.Shape layout) {key : Int} (keyMem : key ∈ c.cacheKeys) :
    c.cacheDataRefs.get? key = some (layout.refs key) := by
  rw [shape.cacheRefs, refsOn, if_pos keyMem]

theorem pendingIn_of_idle (isIdle : c.mgr.swapState = .idle) :
    c.pendingIn .hotPend = ∅ ∧ c.pendingIn .coldPend = ∅ := by
  simp [pendingIn, isIdle]

/-- A manager that keeps a cache or is in a swap is there. -/
theorem maint_of_mgr (used : c.mgr.cache ≠ [] ∨ c.mgr.swapState ≠ .idle) :
    c.maint = some c.mgr := by
  unfold mgr at used ⊢
  cases maintEq : c.maint with
  | some maint => rfl
  | none =>
      rw [maintEq] at used
      rcases used with cached | swapping
      · exact absurd rfl cached
      · exact absurd rfl swapping

/-- The containers of two clients are the same, but for the manager's clocks and frequencies. -/
structure SameShape (c c' : Client) : Prop where
  hotKeys : c'.hotKeys = c.hotKeys
  physHotKeys : c'.physHotKeys = c.physHotKeys
  hotKeyList : c'.hotKeyList = c.hotKeyList
  cacheKeys : c'.cacheKeys = c.cacheKeys
  cacheDataRefs : c'.cacheDataRefs = c.cacheDataRefs
  pendingKey : c'.pendingInsertKey = c.pendingInsertKey
  pendingRef : c'.pendingInsertRef = c.pendingInsertRef
  cacheList : c'.mgr.cacheKeyList = c.mgr.cacheKeyList
  swapState : c'.mgr.swapState = c.mgr.swapState

theorem SameShape.trans {c'' : Client} (first : c.SameShape c') (second : c'.SameShape c'') :
    c.SameShape c'' :=
  ⟨second.hotKeys.trans first.hotKeys, second.physHotKeys.trans first.physHotKeys,
    second.hotKeyList.trans first.hotKeyList, second.cacheKeys.trans first.cacheKeys,
    second.cacheDataRefs.trans first.cacheDataRefs, second.pendingKey.trans first.pendingKey,
    second.pendingRef.trans first.pendingRef, second.cacheList.trans first.cacheList,
    second.swapState.trans first.swapState⟩

theorem SameShape.pendingIn (same : c.SameShape c') : c'.pendingIn = c.pendingIn := by
  funext swapState
  simp only [Client.pendingIn, same.swapState, same.pendingKey]

theorem SameShape.tierKeys (same : c.SameShape c') (layout : Layout) :
    c'.tierKeys layout = c.tierKeys layout := by
  funext tier
  cases tier with
  | hot => exact same.physHotKeys
  | cold => simp only [Client.tierKeys, same.hotKeys, same.pendingIn]

theorem Shape.congr (shape : c.Shape layout) (same : c.SameShape c') : c'.Shape layout := by
  refine ⟨?_, ?_, ?_, ?_, ?_, ?_, ?_, ?_, ?_, ?_, ?_, ?_⟩
  · simpa only [same.hotKeyList] using shape.listSorted
  · simpa only [same.hotKeyList, same.physHotKeys] using shape.mem_list
  · simpa only [same.cacheList] using shape.cacheNodup
  · simpa only [same.cacheList, same.cacheKeys] using shape.mem_cache
  · simpa only [same.cacheDataRefs, same.cacheKeys] using shape.cacheRefs
  · simpa only [same.swapState, same.pendingKey, same.pendingRef] using shape.idle
  · simpa only [same.swapState, same.pendingKey, same.pendingRef, same.physHotKeys,
      same.cacheKeys] using shape.pending
  · simpa only [same.hotKeys, same.physHotKeys, same.cacheKeys, same.pendingIn]
      using shape.hotKeys_eq
  · simpa only [same.hotKeys] using shape.hotKeys_sub
  · simpa only [same.physHotKeys, same.cacheKeys] using shape.apart
  · simpa only [same.physHotKeys, same.pendingIn] using shape.hotFits
  · simpa only [same.hotKeys] using shape.coldFits

theorem mgr_withMgr (f : MaintenanceManager → MaintenanceManager) :
    (c.withMgr f).mgr = if c.maint.isSome then f c.mgr else c.mgr := by
  unfold mgr withMgr
  cases c.maint <;> rfl

/-- Manager updates that keep the cache keys and the swap state keep the shape. -/
theorem sameShape_withMgr {f : MaintenanceManager → MaintenanceManager}
    (sameKeys : ∀ maint, (f maint).cacheKeyList = maint.cacheKeyList)
    (sameSwap : ∀ maint, (f maint).swapState = maint.swapState) : c.SameShape (c.withMgr f) := by
  refine ⟨rfl, rfl, rfl, rfl, rfl, rfl, rfl, ?_, ?_⟩
  · rw [mgr_withMgr]
    split
    · exact sameKeys _
    · rfl
  · rw [mgr_withMgr]
    split
    · exact sameSwap _
    · rfl

theorem sameShape_setRecord (layout : Layout) (c : Client) (key : Int) (raw : Bytes) :
    c.SameShape (c.setRecord layout key raw) := by
  unfold setRecord
  split <;> exact ⟨rfl, rfl, rfl, rfl, rfl, rfl, rfl, rfl, rfl⟩

/-- The cache keys once an old entry has made room for a new key. -/
theorem admitted_keys {maint : MaintenanceManager} {evicted : CacheEntry}
    {cache' : List CacheEntry} (split : (↑maint.cache : Multiset CacheEntry) = evicted ::ₘ ↑cache')
    (nodup : maint.cacheKeyList.Nodup) {key : Int} (fresh : key ∉ maint.cacheKeyList) (fp : Int) :
    ((cache' ++ [({ key := key, fp := fp } : CacheEntry)]).map CacheEntry.key).Nodup ∧
      ∀ key', key' ∈ (cache' ++ [({ key := key, fp := fp } : CacheEntry)]).map CacheEntry.key ↔
        key' = key ∨ key' ∈ maint.cacheKeyList ∧ key' ≠ evicted.key := by
  have keysSplit : List.Perm maint.cacheKeyList (evicted.key :: cache'.map CacheEntry.key) := by
    have mapped := congrArg (Multiset.map CacheEntry.key) split
    rw [Multiset.map_coe, Multiset.map_cons, Multiset.map_coe, Multiset.cons_coe] at mapped
    exact Multiset.coe_eq_coe.mp mapped
  have nodup' := keysSplit.nodup_iff.mp nodup
  rcases List.nodup_cons.mp nodup' with ⟨evictedOut, restNodup⟩
  have memIff : ∀ key', key' ∈ maint.cacheKeyList ↔
      key' = evicted.key ∨ key' ∈ cache'.map CacheEntry.key := by
    intro key'
    rw [keysSplit.mem_iff, List.mem_cons]
  have freshRest : key ∉ cache'.map CacheEntry.key := fun inRest => fresh ((memIff key).mpr (Or.inr inRest))
  constructor
  · rw [List.map_append, List.map_cons, List.map_nil]
    refine List.Nodup.append restNodup (List.nodup_singleton _) ?_
    intro key' inRest inNew
    rw [List.mem_singleton.mp inNew] at inRest
    exact freshRest inRest
  · intro key'
    rw [List.map_append, List.mem_append, memIff]
    simp only [List.map_cons, List.map_nil, List.mem_singleton]
    constructor
    · rintro (inRest | rfl)
      · exact Or.inr ⟨Or.inr inRest, fun same => evictedOut (same ▸ inRest)⟩
      · exact Or.inl rfl
    · rintro (rfl | ⟨same | inRest, differs⟩)
      · exact Or.inr rfl
      · exact absurd same differs
      · exact Or.inl inRest

/-- What is known of an entry that admission evicts from the cache. -/
theorem Shape.evicted (shape : c.Shape layout) {entry : CacheEntry} (entryMem : entry ∈ c.mgr.cache) :
    entry.key ∈ c.cacheKeys ∧ entry.key ∉ c.physHotKeys ∧ entry.key ∈ layout.stored ∧
      c.cacheDataRefs.getD entry.key [] = layout.refs entry.key ∧
      c.cacheDataRefs.touch entry.key [] = c.cacheDataRefs := by
  have cached : entry.key ∈ c.cacheKeys := (shape.mem_cache _).mp (List.mem_map_of_mem entryMem)
  exact ⟨cached, fun phys => Finset.disjoint_left.mp shape.apart phys cached,
    shape.hotKeys_sub (shape.cache_sub cached), KeyMap.getD_of_get? (shape.cacheRef cached),
    KeyMap.touch_of_get? (shape.cacheRef cached)⟩

/-- A demotion takes the scanned key from the hot tier to the cache. -/
theorem Shape.demoteToCache (shape : c.Shape layout) (isIdle : c.mgr.swapState = .idle)
    {scanKey fp : Int} (scanMem : scanKey ∈ c.physHotKeys)
    (guard : ∃ entry ∈ c.mgr.cache, fp ≤ entry.fp) :
    (c.demoteToCache scanKey fp (layout.refs scanKey)).Shape layout ∧
      (c.demoteToCache scanKey fp (layout.refs scanKey)).physHotKeys =
        c.physHotKeys.erase scanKey ∧
      (c.demoteToCache scanKey fp (layout.refs scanKey)).tierKeys layout .cold =
        c.tierKeys layout .cold := by
  have maintEq : c.maint = some c.mgr := by
    rcases guard with ⟨entry, entryMem, _⟩
    exact maint_of_mgr (Or.inl (List.ne_nil_of_mem entryMem))
  have scanOut : scanKey ∉ c.cacheKeys := Finset.disjoint_left.mp shape.apart scanMem
  have fresh : scanKey ∉ c.mgr.cacheKeyList := fun keyMem => scanOut ((shape.mem_cache _).mp keyMem)
  rcases @MaintenanceManager.cacheAdmit_spec c.mgr scanKey fp true
    (by simpa [MaintenanceManager.evictOrder] using guard)
    with ⟨evicted, evictedMem, cache', admitEq, split⟩
  rcases admitted_keys split shape.cacheNodup fresh fp with ⟨nodup', memIff⟩
  rcases shape.evicted evictedMem with ⟨evictedCached, evictedOut, evictedStored, refEq, touchEq⟩
  have differs : evicted.key ≠ scanKey := fun same => scanOut (same ▸ evictedCached)
  rcases pendingIn_of_idle isIdle with ⟨noHot, noCold⟩
  have demotedEq : c.demoteToCache scanKey fp (layout.refs scanKey) = { c with
      maint := some (({ c.mgr with cache := cache' ++ [{ key := scanKey, fp := fp }] } :
        MaintenanceManager).setSwapState .hotPend)
      pendingInsertKey := evicted.key
      pendingInsertRef := layout.refs evicted.key
      physHotKeys := c.physHotKeys.erase scanKey
      hotKeyList := eraseSorted c.hotKeyList scanKey
      cacheKeys := (insert scanKey c.cacheKeys).erase evicted.key
      cacheDataRefs := (c.cacheDataRefs.set scanKey (layout.refs scanKey)).erase evicted.key } := by
    simp only [Client.demoteToCache, admitEq, refEq, touchEq, maintEq, Option.map_some]
  rw [demotedEq]
  refine ⟨⟨pairwise_eraseSorted shape.listSorted _, ?_, nodup', ?_, ?_, ?_, ?_, ?_,
    shape.hotKeys_sub, ?_, ?_, shape.coldFits⟩, rfl, ?_⟩
  · intro key
    simp only [mem_eraseSorted shape.listSorted, shape.mem_list, Finset.mem_erase]
    tauto
  · intro key
    refine (memIff key).trans ?_
    simp only [Finset.mem_erase, Finset.mem_insert, shape.mem_cache]
    constructor
    · rintro (rfl | ⟨cached, notEvicted⟩)
      · exact ⟨differs.symm, Or.inl rfl⟩
      · exact ⟨notEvicted, Or.inr cached⟩
    · tauto
  · intro key
    simp only [KeyMap.get?_erase, KeyMap.get?_set, shape.cacheRefs, refsOn,
      Finset.mem_erase, Finset.mem_insert]
    by_cases isEvicted : key = evicted.key
    · simp [isEvicted]
    · by_cases isScan : key = scanKey <;> simp [isEvicted, isScan]
  · intro absurdIdle
    cases absurdIdle
  · intro _
    exact ⟨evictedStored, rfl, fun phys => evictedOut (Finset.mem_of_mem_erase phys),
      Finset.notMem_erase _ _⟩
  · change c.hotKeys = c.physHotKeys.erase scanKey ∪ (insert scanKey c.cacheKeys).erase evicted.key ∪
      {evicted.key}
    rw [shape.hotKeys_eq, noHot, Finset.union_empty]
    ext key
    simp only [Finset.mem_union, Finset.mem_erase, Finset.mem_insert, Finset.mem_singleton]
    by_cases isScan : key = scanKey
    · subst isScan
      simp [scanMem, differs.symm]
    · by_cases isEvicted : key = evicted.key
      · subst isEvicted
        simp [evictedCached]
      · simp [isScan, isEvicted]
  · rw [Finset.disjoint_left]
    intro key keyMem cached
    simp only [Finset.mem_erase, Finset.mem_insert] at keyMem cached
    rcases cached.2 with isScan | old
    · exact keyMem.1 isScan
    · exact Finset.disjoint_left.mp shape.apart keyMem.2 old
  · change (c.physHotKeys.erase scanKey ∪ {evicted.key}).card ≤ _
    have before := shape.hotFits
    rw [noHot, Finset.union_empty] at before
    have after := Finset.card_union_le (c.physHotKeys.erase scanKey) {evicted.key}
    have positive := Finset.card_pos.mpr ⟨scanKey, scanMem⟩
    rw [Finset.card_erase_of_mem scanMem, Finset.card_singleton] at after
    omega
  · simp only [Client.tierKeys, noCold]
    rfl

/-- A promotion takes the accessed key from the cold tier to the cache. -/
theorem Shape.promoteToCache (shape : c.Shape layout) (isIdle : c.mgr.swapState = .idle)
    {key fp : Int} (keyStored : key ∈ layout.stored) (isCold : key ∉ c.hotKeys)
    (guard : c.mgr.shouldPromote fp = true) :
    (c.promoteToCache key fp (layout.refs key)).Shape layout ∧
      (c.promoteToCache key fp (layout.refs key)).tierKeys layout .cold =
        (c.tierKeys layout .cold).erase key ∧
      (c.promoteToCache key fp (layout.refs key)).hotKeys.card = c.hotKeys.card := by
  have beaten := MaintenanceManager.shouldPromote_guard guard
  have maintEq : c.maint = some c.mgr := by
    rcases beaten with ⟨entry, entryMem, _⟩
    exact maint_of_mgr (Or.inl (List.ne_nil_of_mem entryMem))
  have keyOut : key ∉ c.cacheKeys := fun cached => isCold (shape.cache_sub cached)
  have keyOutPhys : key ∉ c.physHotKeys := fun phys => isCold (shape.phys_sub phys)
  have fresh : key ∉ c.mgr.cacheKeyList := fun keyMem => keyOut ((shape.mem_cache _).mp keyMem)
  rcases MaintenanceManager.cacheAdmit_spec c.mgr key beaten
    with ⟨evicted, evictedMem, cache', admitEq, split⟩
  rcases admitted_keys split shape.cacheNodup fresh fp with ⟨nodup', memIff⟩
  rcases shape.evicted evictedMem with ⟨evictedCached, evictedOut, evictedStored, refEq, touchEq⟩
  have evictedHot : evicted.key ∈ c.hotKeys := shape.cache_sub evictedCached
  have differs : evicted.key ≠ key := fun same => keyOut (same ▸ evictedCached)
  rcases pendingIn_of_idle isIdle with ⟨noHot, noCold⟩
  have promotedEq : c.promoteToCache key fp (layout.refs key) = { c with
      maint := some (({ c.mgr with cache := cache' ++ [{ key := key, fp := fp }] } :
        MaintenanceManager).setSwapState .coldPend)
      pendingInsertKey := evicted.key
      pendingInsertRef := layout.refs evicted.key
      cacheKeys := insert key (c.cacheKeys.erase evicted.key)
      cacheDataRefs := (c.cacheDataRefs.erase evicted.key).set key (layout.refs key)
      hotKeys := insert key (c.hotKeys.erase evicted.key) } := by
    simp only [Client.promoteToCache, admitEq, refEq, touchEq, maintEq, Option.map_some]
  have sub' : insert key (c.hotKeys.erase evicted.key) ⊆ layout.stored :=
    Finset.insert_subset keyStored ((Finset.erase_subset _ _).trans shape.hotKeys_sub)
  have card' : (insert key (c.hotKeys.erase evicted.key)).card = c.hotKeys.card := by
    have positive : 0 < c.hotKeys.card := Finset.card_pos.mpr ⟨_, evictedHot⟩
    have fresh' : key ∉ c.hotKeys.erase evicted.key :=
      fun old => isCold (Finset.mem_of_mem_erase old)
    rw [Finset.card_insert_of_notMem fresh', Finset.card_erase_of_mem evictedHot]
    omega
  rw [promotedEq]
  refine ⟨⟨shape.listSorted, shape.mem_list, nodup', ?_, ?_, ?_, ?_, ?_, sub', ?_, ?_, ?_⟩, ?_,
    card'⟩
  · intro key'
    refine (memIff key').trans ?_
    simp only [Finset.mem_erase, Finset.mem_insert, shape.mem_cache]
    tauto
  · intro key'
    simp only [KeyMap.get?_erase, KeyMap.get?_set, shape.cacheRefs, refsOn,
      Finset.mem_erase, Finset.mem_insert]
    by_cases isKey : key' = key
    · simp [isKey]
    · by_cases isEvicted : key' = evicted.key <;> simp [isEvicted, isKey, differs]
  · intro absurdIdle
    cases absurdIdle
  · intro _
    exact ⟨evictedStored, rfl, evictedOut, by simp [differs]⟩
  · change insert key (c.hotKeys.erase evicted.key) =
      c.physHotKeys ∪ insert key (c.cacheKeys.erase evicted.key) ∪ ∅
    rw [Finset.union_empty, shape.hotKeys_eq, noHot, Finset.union_empty]
    ext key'
    simp only [Finset.mem_union, Finset.mem_erase, Finset.mem_insert]
    by_cases isEvicted : key' = evicted.key
    · subst isEvicted
      simp [evictedOut]
    · tauto
  · rw [Finset.disjoint_left]
    intro key' phys cached
    simp only [Finset.mem_erase, Finset.mem_insert] at cached
    rcases cached with rfl | ⟨_, old⟩
    · exact keyOutPhys phys
    · exact Finset.disjoint_left.mp shape.apart phys old
  · change (c.physHotKeys ∪ ∅).card ≤ _
    have before := shape.hotFits
    rwa [noHot] at before
  · rw [Finset.card_sdiff_of_subset sub', card', ← Finset.card_sdiff_of_subset shape.hotKeys_sub]
    exact shape.coldFits
  · change layout.stored \ (insert key (c.hotKeys.erase evicted.key) ∪ {evicted.key}) = _
    simp only [Client.tierKeys, noCold]
    ext key'
    simp only [Finset.mem_sdiff, Finset.mem_union, Finset.mem_insert, Finset.mem_erase,
      Finset.mem_singleton, Finset.notMem_empty, or_false]
    by_cases isEvicted : key' = evicted.key
    · subst isEvicted
      simp [evictedHot]
    · simp [isEvicted]
      tauto

/-- Clearing the pending entry once the hot map has received it. -/
theorem Shape.finishHotInsert (shape : c.Shape layout) (hotPend : c.mgr.swapState = .hotPend) :
    ((c.addPhysHot c.pendingInsertKey).clearPending).Shape layout ∧
      ((c.addPhysHot c.pendingInsertKey).clearPending).tierKeys layout .cold =
        c.tierKeys layout .cold := by
  have maintEq : c.maint = some c.mgr := maint_of_mgr (Or.inr (by simp [hotPend]))
  rcases shape.pending (by simp [hotPend]) with ⟨keyStored, refEq, notPhys, notCached⟩
  have wasPending : c.pendingIn .hotPend = {c.pendingInsertKey} ∧ c.pendingIn .coldPend = ∅ := by
    simp [pendingIn, hotPend]
  have notListed : c.pendingInsertKey ∉ c.hotKeyList :=
    fun listed => notPhys ((shape.mem_list _).mp listed)
  have finishedEq : (c.addPhysHot c.pendingInsertKey).clearPending = { c with
      maint := some (c.mgr.setSwapState .idle)
      pendingInsertKey := invalidKey
      pendingInsertRef := []
      physHotKeys := insert c.pendingInsertKey c.physHotKeys
      hotKeyList := insertSorted c.hotKeyList c.pendingInsertKey } := by
    simp only [clearPending, addPhysHot, withMgr, maintEq, Option.map_some]
  rw [finishedEq]
  refine ⟨⟨pairwise_insertSorted shape.listSorted notListed, ?_, shape.cacheNodup,
    shape.mem_cache, shape.cacheRefs, fun _ => ⟨rfl, rfl⟩, ?_, ?_, shape.hotKeys_sub, ?_, ?_,
    shape.coldFits⟩, ?_⟩
  · intro key
    rw [mem_insertSorted, Finset.mem_insert, shape.mem_list]
  · intro notIdle
    exact absurd rfl notIdle
  · change c.hotKeys = insert c.pendingInsertKey c.physHotKeys ∪ c.cacheKeys ∪ ∅
    rw [shape.hotKeys_eq, wasPending.1]
    ext key
    simp only [Finset.mem_union, Finset.mem_insert, Finset.mem_singleton, Finset.notMem_empty]
    tauto
  · exact Finset.disjoint_insert_left.mpr ⟨notCached, shape.apart⟩
  · change (insert c.pendingInsertKey c.physHotKeys ∪ ∅).card ≤ _
    have before := shape.hotFits
    rw [wasPending.1, Finset.union_comm, Finset.singleton_union] at before
    rwa [Finset.union_empty]
  · simp only [Client.tierKeys, wasPending.2]
    rfl

/-- Clearing the pending entry once the cold map has received it. -/
theorem Shape.finishColdInsert (shape : c.Shape layout) (coldPend : c.mgr.swapState = .coldPend) :
    c.clearPending.Shape layout ∧
      c.clearPending.tierKeys layout .cold =
        insert c.pendingInsertKey (c.tierKeys layout .cold) := by
  have maintEq : c.maint = some c.mgr := maint_of_mgr (Or.inr (by simp [coldPend]))
  rcases shape.pending (by simp [coldPend]) with ⟨keyStored, refEq, notPhys, notCached⟩
  have wasPending : c.pendingIn .hotPend = ∅ ∧ c.pendingIn .coldPend = {c.pendingInsertKey} := by
    simp [pendingIn, coldPend]
  have notHot : c.pendingInsertKey ∉ c.hotKeys := by
    rw [shape.hotKeys_eq, wasPending.1]
    simp [notPhys, notCached]
  have hotKeysEq := shape.hotKeys_eq
  have hotFits := shape.hotFits
  rw [wasPending.1] at hotKeysEq hotFits
  have clearedEq : c.clearPending = { c with
      maint := some (c.mgr.setSwapState .idle)
      pendingInsertKey := invalidKey
      pendingInsertRef := [] } := by
    simp only [clearPending, withMgr, maintEq, Option.map_some]
  rw [clearedEq]
  refine ⟨⟨shape.listSorted, shape.mem_list, shape.cacheNodup, shape.mem_cache, shape.cacheRefs,
    fun _ => ⟨rfl, rfl⟩, fun notIdle => absurd rfl notIdle, hotKeysEq, shape.hotKeys_sub,
    shape.apart, hotFits, shape.coldFits⟩, ?_⟩
  change layout.stored \ (c.hotKeys ∪ ∅) = _
  simp only [Client.tierKeys, wasPending.2, Finset.union_empty]
  ext key
  simp only [Finset.mem_sdiff, Finset.mem_union, Finset.mem_insert, Finset.mem_singleton]
  by_cases isPending : key = c.pendingInsertKey
  · subst isPending
    simp [keyStored, notHot]
  · simp [isPending]

end Client

end TieredOmap
