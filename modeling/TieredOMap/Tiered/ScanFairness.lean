import TieredOMap.Lib.Sweep
import TieredOMap.Tiered.Store

/-!
# The hot scan is fair

The scan for demotions sweeps the sorted list of the keys in the hot map with a
cursor that is a key. Nothing but the scan moves the cursor, and whatever is
inserted into or erased from the list between two accesses, the list stays
sorted and non-negative, so every sweep visits each key that stays exactly once.
-/

namespace TieredOmap

open Sweep

/-! ## The list -/

theorem eraseSorted_sublist (keys : List Int) (key : Int) :
    (eraseSorted keys key).Sublist keys := by
  induction keys with
  | nil => exact List.Sublist.refl _
  | cons head rest ih =>
      unfold eraseSorted
      split
      · exact ih.cons_cons head
      · split
        · exact List.sublist_cons_self head rest
        · exact List.Sublist.refl _

theorem sorted_insertSorted {keys : List Int} (sorted : keys.Pairwise (· ≤ ·)) (key : Int) :
    (insertSorted keys key).Pairwise (· ≤ ·) := by
  induction keys with
  | nil => simp [insertSorted]
  | cons head rest ih =>
      rcases List.pairwise_cons.mp sorted with ⟨headLe, restSorted⟩
      unfold insertSorted
      split
      · rename_i before
        refine List.pairwise_cons.mpr ⟨?_, ih restSorted⟩
        intro key' keyMem
        rcases mem_insertSorted.mp keyMem with rfl | inRest
        · exact before.le
        · exact headLe key' inRest
      · rename_i notBefore
        refine List.pairwise_cons.mpr ⟨?_, sorted⟩
        intro key' keyMem
        rcases List.mem_cons.mp keyMem with rfl | inRest
        · exact not_lt.mp notBefore
        · exact (not_lt.mp notBefore).trans (headLe key' inRest)

namespace MaintenanceManager

/-- What admission evicts was in the cache, or is the new entry itself. -/
theorem cacheAdmit_evicted_mem (maint : MaintenanceManager) (key fp : Int) (fromHot : Bool) :
    (maint.cacheAdmit key fp fromHot).1 ∈
      maint.cache ++ [({ key := key, fp := fp } : CacheEntry)] := by
  set extended := maint.cache ++ [({ key := key, fp := fp } : CacheEntry)] with extendedDef
  have spec := (evictIndex_spec (evictOrder_irrefl fromHot) (evictOrder_trans fromHot)
    (evictOrder_negTrans fromHot) extended (extended.length - 1)).1
  have lengthEq : extended.length = maint.cache.length + 1 := by simp [extendedDef]
  have inside : evictIndex (evictOrder fromHot) extended < extended.length :=
    Nat.lt_of_le_of_lt spec (by omega)
  change extended.getD (evictIndex (evictOrder fromHot) extended) {} ∈ extended
  rw [List.getD_eq_getElem _ _ inside]
  exact List.getElem_mem inside

end MaintenanceManager

namespace TieredOMap

variable {Ω : Tier → Type} [∀ tier, OmapInterface (Ω tier)] [Cipher]

/-! ## The access with its scans -/

/-- The scan that `scanNextKey` makes. -/
def scanMade (s : TieredOMap Ω) : Scan Int where
  keys := s.hotKeyList
  key := s.nextScanKey.1
  wraps := (s.hotKeyList.find? (fun key => s.mgr.scanPtr < key)).isNone

/-- `do_scan_step`, with the scan that it makes. -/
def recordedScanStep (s : TieredOMap Ω) : Rand (List (Scan Int) × TieredOMap Ω) := do
  if s.mgr.swapState ≠ .idle then
    let s ← s.onTier .hot OmapInterface.dummyAccess
    let s ← s.dataDummy
    return ([], s)
  else if s.config.isDaHot && s.config.maintenance.piggyback then
    let s ← s.doDaScanStep
    return ([], s)
  else if s.hotKeyList = [] then
    let s ← s.onTier .hot OmapInterface.dummyAccess
    let s ← s.dataDummy
    return ([], s)
  else
    let scanned ← s.scanNextKey
    return ([s.scanMade], scanned)

theorem doScanStep_eq_recorded (s : TieredOMap Ω) :
    s.doScanStep = (do
      let (_, s) ← s.recordedScanStep
      return s) := by
  unfold doScanStep recordedScanStep
  split
  · simp only [bind_assoc, pure_bind, bind_pure]
  · split
    · simp only [bind_assoc, pure_bind, bind_pure]
    · split <;> simp only [bind_assoc, pure_bind, bind_pure]

/-- `staggeredMaintenance`, with the scan that it makes. -/
def recordedMaintenance (s : TieredOMap Ω) (done : Piggybacked) :
    Rand (List (Scan Int) × TieredOMap Ω) := do
  let (scans, s) ← doWhen (!done.scan && s.mgr.shouldScan) s.recordedScanStep ([], s)
  let s ← doWhen (!done.hotInsert && !done.hotDummy && s.mgr.shouldHotInsert) s.doHotInsertStep s
  let s ← doWhen (!done.coldInsert && !done.coldDummy && s.mgr.shouldColdInsert)
    s.doColdInsertStep s
  return (scans, s)

theorem staggeredMaintenance_eq_recorded (s : TieredOMap Ω) (done : Piggybacked) :
    s.staggeredMaintenance done = (do
      let (_, s) ← s.recordedMaintenance done
      return s) := by
  unfold staggeredMaintenance recordedMaintenance
  cases !done.scan && s.mgr.shouldScan with
  | true => simp only [doWhen, if_true, doScanStep_eq_recorded, bind_assoc, pure_bind, bind_pure]
  | false => simp only [doWhen, Bool.false_eq_true, if_false, bind_assoc, pure_bind, bind_pure]

/-- `access`, with the scan that its maintenance makes. -/
def recordedAccess (fuel : Nat) (s : TieredOMap Ω) (key : Int) (newValue : Option Bytes) :
    Rand (List (Scan Int) × AccessResult × TieredOMap Ω) :=
  if s.maint.isSome then do
    let (result, done, s) ← accessPath fuel (s.withMgr MaintenanceManager.tick) key newValue
    let s ← s.daPiggybackScan
    let (scans, s) ← s.recordedMaintenance done
    return (scans, result, s)
  else do
    let (result, s) ← s.accessPlain fuel key newValue
    return ([], result, s)

/-- Recording the scans changes nothing. -/
theorem access_eq_recorded (fuel : Nat) (s : TieredOMap Ω) (key : Int) (newValue : Option Bytes) :
    s.access fuel key newValue = (do
      let (_, result, s) ← s.recordedAccess fuel key newValue
      return (result, s)) := by
  unfold access recordedAccess accessEpoch
  split
  · simp only [staggeredMaintenance_eq_recorded, bind_assoc, pure_bind]
  · simp only [bind_assoc, pure_bind]
    exact (bind_pure _).symm

end TieredOMap

namespace TieredOMap

variable {Ω : Tier → Type} {s s' s'' : TieredOMap Ω}

/-! ## What moves the cursor -/

/-- What no operation on the stores changes. -/
structure SameLists (s s' : TieredOMap Ω) : Prop where
  config : s'.config = s.config
  channel : s'.channel = s.channel
  maint : s'.maint = s.maint
  hotKeyList : s'.hotKeyList = s.hotKeyList
  pendingKey : s'.pendingInsertKey = s.pendingInsertKey

theorem SameLists.trans (first : s.SameLists s') (second : s'.SameLists s'') : s.SameLists s'' :=
  ⟨second.config.trans first.config, second.channel.trans first.channel,
    second.maint.trans first.maint, second.hotKeyList.trans first.hotKeyList,
    second.pendingKey.trans first.pendingKey⟩

theorem SameLists.mgr (same : s.SameLists s') : s'.mgr = s.mgr := by
  unfold TieredOMap.mgr
  rw [same.maint, same.config]

theorem sameLists_setOmap (s : TieredOMap Ω) (tier : Tier) (omap : Ω tier) :
    s.SameLists (s.setOmap tier omap) := by
  cases tier <;> exact ⟨rfl, rfl, rfl, rfl, rfl⟩

theorem lists_onTier (s : TieredOMap Ω) (tier : Tier) (operation : Ω tier → Rand (Ω tier)) :
    Yields (s.onTier tier operation) s.SameLists := by
  refine Prog.ends_bind (yields_any _) ?_
  intro omap _
  exact Prog.ends_pure (sameLists_setOmap s tier omap)

section Data

variable [Cipher]

theorem lists_dataAccess (s : TieredOMap Ω) (blk : Int) (newValue : Option Bytes) :
    Yields (s.dataAccess blk newValue) (fun outcome => s.SameLists outcome.2) := by
  unfold dataAccess
  split
  · refine Prog.ends_bind (yields_any _) ?_
    intro dataOram _
    exact Prog.ends_pure ⟨rfl, rfl, rfl, rfl, rfl⟩
  · refine Prog.ends_bind (yields_any _) ?_
    intro outcome _
    exact Prog.ends_pure ⟨rfl, rfl, rfl, rfl, rfl⟩

theorem lists_dataDummy (s : TieredOMap Ω) : Yields s.dataDummy s.SameLists := by
  refine Prog.ends_bind (yields_any _) ?_
  intro dataOram _
  exact Prog.ends_pure ⟨rfl, rfl, rfl, rfl, rfl⟩

theorem lists_restamp (s : TieredOMap Ω) (ref : Bytes) (newValue : Option Bytes) :
    Yields (s.restamp ref newValue) (fun outcome => s.SameLists outcome.2) := by
  refine Prog.ends_bind (lists_dataAccess s _ _) ?_
  rintro ⟨raw, read⟩ readSame
  refine Prog.ends_bind (lists_dataAccess read _ _) ?_
  rintro ⟨_, written⟩ writtenSame
  exact Prog.ends_pure (readSame.trans writtenSame)

end Data

/-! ## Steady states -/

/-- The list is sorted, no key that may enter it is negative, and the cursor is where it is. -/
structure Steady (cursor : Int) (enabled : Bool) (s : TieredOMap Ω) : Prop where
  noChannel : s.channel = false
  notByItself : (s.config.isDaHot && s.config.maintenance.piggyback) = false
  cursorEq : s.mgr.scanPtr = cursor
  enabledEq : s.maint.isSome = enabled
  sorted : s.hotKeyList.Pairwise (· ≤ ·)
  nonneg : ∀ key ∈ s.hotKeyList, 0 ≤ key
  cached : ∀ entry ∈ s.mgr.cache, 0 ≤ entry.key
  pending : s.mgr.swapState ≠ .idle → 0 ≤ s.pendingInsertKey

variable {cursor : Int} {enabled : Bool}

theorem Steady.same (steady : s.Steady cursor enabled) (same : s.SameLists s') :
    s'.Steady cursor enabled := by
  refine ⟨same.channel.trans steady.noChannel, ?_, ?_, ?_, ?_, ?_, ?_, ?_⟩
  · rw [same.config]
    exact steady.notByItself
  · rw [same.mgr]
    exact steady.cursorEq
  · rw [same.maint]
    exact steady.enabledEq
  · rw [same.hotKeyList]
    exact steady.sorted
  · rw [same.hotKeyList]
    exact steady.nonneg
  · rw [same.mgr]
    exact steady.cached
  · rw [same.mgr, same.pendingKey]
    exact steady.pending

theorem mgr_withMgr (s : TieredOMap Ω) (f : MaintenanceManager → MaintenanceManager) :
    (s.withMgr f).mgr = if s.maint.isSome then f s.mgr else s.mgr := by
  unfold TieredOMap.mgr withMgr
  cases s.maint <;> rfl

/-- A manager update that keeps the cache keys and the swap state. -/
theorem Steady.withMgr (steady : s.Steady cursor enabled) {cursor' : Int}
    {f : MaintenanceManager → MaintenanceManager}
    (moved : (s.withMgr f).mgr.scanPtr = cursor')
    (sameKeys : ∀ maint, (f maint).cacheKeyList = maint.cacheKeyList)
    (sameSwap : ∀ maint, (f maint).swapState = maint.swapState) :
    (s.withMgr f).Steady cursor' enabled := by
  have keys : (s.withMgr f).mgr.cacheKeyList = s.mgr.cacheKeyList := by
    rw [mgr_withMgr]
    split
    · exact sameKeys _
    · rfl
  have swap : (s.withMgr f).mgr.swapState = s.mgr.swapState := by
    rw [mgr_withMgr]
    split
    · exact sameSwap _
    · rfl
  refine ⟨steady.noChannel, steady.notByItself, moved, ?_, steady.sorted, steady.nonneg, ?_, ?_⟩
  · simpa [TieredOMap.withMgr] using steady.enabledEq
  · intro entry entryMem
    have keyMem : entry.key ∈ (s.withMgr f).mgr.cacheKeyList := List.mem_map_of_mem entryMem
    rw [keys] at keyMem
    rcases List.mem_map.mp keyMem with ⟨old, oldMem, oldKey⟩
    exact oldKey ▸ steady.cached old oldMem
  · rw [swap]
    exact steady.pending

/-- The manager after an admission that starts a swap. -/
theorem Steady.admitted (steady : s.Steady cursor enabled) {key fp : Int} (nonneg : 0 ≤ key)
    {fromHot : Bool} {swapState : SwapState}
    (config : s'.config = s.config) (channel : s'.channel = s.channel)
    (maint : s'.maint = s.maint.map (fun _ =>
      (s.mgr.cacheAdmit key fp fromHot).2.setSwapState swapState))
    (list : s'.hotKeyList.Sublist s.hotKeyList)
    (pendingKey : s'.pendingInsertKey = (s.mgr.cacheAdmit key fp fromHot).1.key) :
    s'.Steady cursor enabled := by
  have mgrEq : s'.mgr = if s.maint.isSome then
      (s.mgr.cacheAdmit key fp fromHot).2.setSwapState swapState else s.mgr := by
    cases maintEq : s.maint <;> simp [TieredOMap.mgr, maint, config, maintEq]
  have allNonneg : ∀ entry ∈ s.mgr.cache ++ [({ key := key, fp := fp } : CacheEntry)],
      0 ≤ entry.key := by
    intro entry entryMem
    rcases List.mem_append.mp entryMem with old | new
    · exact steady.cached entry old
    · rw [List.mem_singleton.mp new]
      exact nonneg
  refine ⟨channel.trans steady.noChannel, ?_, ?_, ?_, steady.sorted.sublist list,
    fun key' keyMem => steady.nonneg key' (list.subset keyMem), ?_, ?_⟩
  · rw [config]
    exact steady.notByItself
  · rw [mgrEq]
    split <;> exact steady.cursorEq
  · rw [maint, Option.isSome_map]
    exact steady.enabledEq
  · rw [mgrEq]
    split
    · exact fun entry entryMem => allNonneg entry (List.mem_of_mem_eraseIdx entryMem)
    · exact steady.cached
  · intro _
    rw [pendingKey]
    exact allNonneg _ (MaintenanceManager.cacheAdmit_evicted_mem _ _ _ _)

theorem Steady.yields_demoteToCache (steady : s.Steady cursor enabled) {scanKey : Int}
    (nonneg : 0 ≤ scanKey) (fp : Int) (ref : Bytes) :
    Yields (s.demoteToCache scanKey fp ref) (Steady cursor enabled) := by
  refine Prog.ends_bind (yields_any _) ?_
  intro _ _
  exact Prog.ends_pure (steady.admitted nonneg rfl rfl rfl (eraseSorted_sublist _ _) rfl)

theorem Steady.yields_promoteToCache (steady : s.Steady cursor enabled) {key : Int}
    (nonneg : 0 ≤ key) (fp : Int) (ref : Bytes) :
    Yields (s.promoteToCache key fp ref) (Steady cursor enabled) := by
  refine Prog.ends_bind (yields_any _) ?_
  intro _ _
  exact Prog.ends_pure (steady.admitted nonneg rfl rfl rfl (List.Sublist.refl _) rfl)

theorem Steady.clearPending (steady : s.Steady cursor enabled) :
    s.clearPending.Steady cursor enabled := by
  refine ⟨steady.noChannel, steady.notByItself, ?_, ?_, steady.sorted, steady.nonneg, ?_, ?_⟩
  · rw [TieredOMap.clearPending, mgr_withMgr]
    split <;> exact steady.cursorEq
  · simpa [TieredOMap.clearPending, TieredOMap.withMgr] using steady.enabledEq
  · rw [TieredOMap.clearPending, mgr_withMgr]
    split <;> exact steady.cached
  · intro swapping
    refine absurd ?_ swapping
    cases maintEq : s.maint <;> simp [TieredOMap.clearPending, TieredOMap.mgr, TieredOMap.withMgr,
      maintEq, MaintenanceManager.setSwapState]

theorem Steady.addPhysHot (steady : s.Steady cursor enabled) {key : Int} (nonneg : 0 ≤ key) :
    (s.addPhysHot key).Steady cursor enabled := by
  refine ⟨steady.noChannel, steady.notByItself, steady.cursorEq, steady.enabledEq,
    sorted_insertSorted steady.sorted key, ?_, steady.cached, steady.pending⟩
  intro key' keyMem
  rcases mem_insertSorted.mp keyMem with rfl | old
  · exact nonneg
  · exact steady.nonneg key' old

/-- With a key after the cursor, the scan goes there. -/
theorem nextScanKey_ahead {key : Int}
    (found : s.hotKeyList.find? (fun key => s.mgr.scanPtr < key) = some key) :
    s.nextScanKey = (key, s.withMgr (fun maint => maint.setScanPtr key)) := by
  unfold TieredOMap.nextScanKey
  cases listEq : s.hotKeyList with
  | nil => simp [listEq] at found
  | cons first rest =>
      rw [listEq] at found
      simp only [found]

/-- Without one it starts over. -/
theorem nextScanKey_around {first : Int} {rest : List Int} (listEq : s.hotKeyList = first :: rest)
    (none : s.hotKeyList.find? (fun key => s.mgr.scanPtr < key) = none) :
    s.nextScanKey = (first, s.withMgr (fun maint => maint.resetScanPtr.setScanPtr first)) := by
  unfold TieredOMap.nextScanKey
  rw [listEq] at none ⊢
  simp only [none]

/-- Choosing the next key follows the cursor and moves it there. -/
theorem Steady.nextScanKey (steady : s.Steady cursor true) (nonempty : s.hotKeyList ≠ []) :
    Follows (-1) cursor s.scanMade ∧ 0 ≤ s.nextScanKey.1 ∧
      s.nextScanKey.2.Steady s.nextScanKey.1 true := by
  have moves : ∀ f : MaintenanceManager → MaintenanceManager,
      (s.withMgr f).mgr.scanPtr = (f s.mgr).scanPtr := by
    intro f
    rw [mgr_withMgr, if_pos steady.enabledEq]
  have above : ∀ key ∈ s.hotKeyList, -1 < key := by
    intro key keyMem
    have nonneg := steady.nonneg key keyMem
    omega
  have cursorEq := steady.cursorEq
  cases found : s.hotKeyList.find? (fun key => s.mgr.scanPtr < key) with
  | some key =>
      have nextEq := nextScanKey_ahead found
      have madeEq : s.scanMade = { keys := s.hotKeyList, key := key, wraps := false } := by
        simp [scanMade, nextEq, found]
      rw [madeEq, nextEq]
      refine ⟨⟨steady.sorted, above, fun _ => cursorEq ▸ found, ?_⟩, ?_, ?_⟩
      · intro turns
        cases turns
      · exact steady.nonneg key (List.mem_of_find?_eq_some found)
      · exact steady.withMgr (moves _) (fun _ => rfl) (fun _ => rfl)
  | none =>
      obtain ⟨first, rest, listEq⟩ := List.exists_cons_of_ne_nil nonempty
      have nextEq := nextScanKey_around listEq found
      have madeEq : s.scanMade = { keys := s.hotKeyList, key := first, wraps := true } := by
        simp [scanMade, nextEq, found]
      rw [madeEq, nextEq]
      refine ⟨⟨steady.sorted, above, ?_, fun _ => ⟨cursorEq ▸ found, by simp [listEq]⟩⟩, ?_, ?_⟩
      · intro isAhead
        cases isAhead
      · exact steady.nonneg first (by simp [listEq])
      · exact steady.withMgr (moves _) (fun _ => rfl) (fun _ => rfl)

/-! ## Operations on the maps -/

variable [∀ tier, OmapInterface (Ω tier)]

theorem lists_searchTier (s : TieredOMap Ω) (tier : Tier) (key : Int) :
    Yields (s.searchTier tier key) (fun outcome => s.SameLists outcome.2) := by
  refine Prog.ends_bind (yields_any _) ?_
  rintro ⟨ref, omap⟩ _
  exact Prog.ends_pure (sameLists_setOmap s tier omap)

theorem lists_dummyTier (s : TieredOMap Ω) (tier : Tier) :
    Yields (s.dummyTier tier) s.SameLists := by
  unfold dummyTier
  split <;> exact lists_onTier s tier _

theorem lists_extractKeys (keys : List Int) (s : TieredOMap Ω) :
    Yields (s.extractKeys keys) (fun outcome =>
      s.SameLists outcome.2 ∧ ∀ entry ∈ outcome.1, entry.key ∈ keys) := by
  induction keys generalizing s with
  | nil => exact Prog.ends_pure ⟨⟨rfl, rfl, rfl, rfl, rfl⟩, by simp⟩
  | cons key rest ih =>
      refine Prog.ends_bind (lists_searchTier s .hot key) ?_
      rintro ⟨ref, searched⟩ searchedSame
      refine Prog.ends_bind (lists_onTier searched .hot _) ?_
      intro removed removedSame
      refine Prog.ends_bind (ih _) ?_
      rintro ⟨entries, extracted⟩ ⟨extractedSame, keysEq⟩
      have cachedSame : removed.SameLists { removed with
          physHotKeys := removed.physHotKeys.erase key
          cacheKeys := insert key removed.cacheKeys
          cacheDataRefs := removed.cacheDataRefs.set key ref } := ⟨rfl, rfl, rfl, rfl, rfl⟩
      refine Prog.ends_pure ⟨((searchedSame.trans removedSame).trans cachedSame).trans
        extractedSame, ?_⟩
      intro entry entryMem
      rcases List.mem_cons.mp entryMem with rfl | inRest
      · exact List.mem_cons_self
      · exact List.mem_cons_of_mem _ (keysEq entry inRest)

theorem Steady.yields_extractCache (steady : s.Steady cursor enabled) :
    Yields s.extractCache (Steady cursor enabled) := by
  unfold extractCache
  dsimp only
  split
  · exact Prog.ends_fail trivial
  · refine Prog.ends_bind (lists_extractKeys _ s) ?_
    rintro ⟨entries, extracted⟩ ⟨same, fromList⟩
    have kept := steady.same same
    have fewer := List.drop_sublist
      (min s.config.maintenance.cacheSize s.hotKeyList.length).toNat extracted.hotKeyList
    refine Prog.ends_pure ⟨kept.noChannel, kept.notByItself, ?_, ?_, kept.sorted.sublist fewer,
      fun key keyMem => kept.nonneg key (fewer.subset keyMem), ?_, ?_⟩
    · rw [mgr_withMgr]
      split <;> exact kept.cursorEq
    · simpa [TieredOMap.withMgr] using kept.enabledEq
    · rw [mgr_withMgr]
      split
      · exact fun entry entryMem =>
          steady.nonneg _ (List.mem_of_mem_take (fromList entry entryMem))
      · exact kept.cached
    · rw [mgr_withMgr]
      split <;> exact kept.pending

theorem Steady.yields_doHotInsertStep (steady : s.Steady cursor enabled) :
    Yields s.doHotInsertStep (Steady cursor enabled) := by
  unfold doHotInsertStep
  split
  · rename_i hotPend
    refine Prog.ends_bind (lists_onTier s .hot _) ?_
    intro inserted same
    have steady' := steady.same same
    have nonneg : 0 ≤ inserted.pendingInsertKey := by
      rw [same.pendingKey]
      exact steady.pending (by simp [hotPend])
    exact Prog.ends_pure (steady'.addPhysHot nonneg).clearPending
  · exact (lists_onTier s .hot _).mono (fun _ same => steady.same same)

theorem Steady.yields_doColdInsertStep (steady : s.Steady cursor enabled) :
    Yields s.doColdInsertStep (Steady cursor enabled) := by
  unfold doColdInsertStep
  split
  · refine Prog.ends_bind (lists_onTier s .cold _) ?_
    intro inserted same
    exact Prog.ends_pure (steady.same same).clearPending
  · exact (lists_onTier s .cold _).mono (fun _ same => steady.same same)

/-! ## Scans -/

variable [Cipher]

theorem Steady.yields_scanNextKey (steady : s.Steady cursor true) (nonempty : s.hotKeyList ≠ []) :
    Yields s.scanNextKey (Steady s.nextScanKey.1 true) := by
  rcases steady.nextScanKey nonempty with ⟨_, nonneg, pointed⟩
  unfold scanNextKey
  refine Prog.ends_bind (lists_searchTier s.nextScanKey.2 .hot s.nextScanKey.1) ?_
  rintro ⟨ref, searched⟩ searchedSame
  refine Prog.ends_bind (lists_dataAccess searched _ _) ?_
  rintro ⟨raw, read⟩ readSame
  have readSteady := pointed.same (searchedSame.trans readSame)
  dsimp only
  split
  · refine Prog.ends_bind (lists_onTier read .hot _) ?_
    intro removed removedSame
    exact (readSteady.same removedSame).yields_demoteToCache nonneg _ _
  · exact Prog.ends_pure readSteady

/-- What a recorded step yields: scans that follow the cursor, and a steady state at its end. -/
def Sweeps {Result : Type} (cursor : Int) (enabled : Bool)
    (program : Rand (List (Scan Int) × Result)) (state : Result → TieredOMap Ω) : Prop :=
  Yields program (fun outcome => Scans (-1) cursor outcome.1 ∧
    (state outcome.2).Steady (cursorAfter cursor outcome.1) enabled)

theorem Steady.sweeps_scanStep (steady : s.Steady cursor true) :
    Sweeps cursor true s.recordedScanStep id := by
  have dummies : Yields (do
      let s ← s.onTier .hot OmapInterface.dummyAccess
      let s ← s.dataDummy
      return (([] : List (Scan Int)), s)) (fun outcome => Scans (-1) cursor outcome.1 ∧
        outcome.2.Steady (cursorAfter cursor outcome.1) true) := by
    refine Prog.ends_bind (lists_onTier s .hot _) ?_
    intro dummied dummiedSame
    refine Prog.ends_bind (lists_dataDummy dummied) ?_
    intro final finalSame
    exact Prog.ends_pure ⟨trivial, steady.same (dummiedSame.trans finalSame)⟩
  unfold recordedScanStep
  rw [steady.notByItself]
  split
  · exact dummies
  · simp only [Bool.false_eq_true, if_false]
    split
    · exact dummies
    · rename_i nonempty
      refine Prog.ends_bind (steady.yields_scanNextKey nonempty) ?_
      intro scanned scannedSteady
      exact Prog.ends_pure ⟨⟨(steady.nextScanKey nonempty).1, trivial⟩, scannedSteady⟩

theorem Steady.sweeps_maintenance (steady : s.Steady cursor true) (done : Piggybacked) :
    Sweeps cursor true (s.recordedMaintenance done) id := by
  have scan : Sweeps cursor true
      (doWhen (!done.scan && s.mgr.shouldScan) s.recordedScanStep ([], s)) id := by
    cases !done.scan && s.mgr.shouldScan with
    | true => exact steady.sweeps_scanStep
    | false => exact Prog.ends_pure ⟨trivial, steady⟩
  refine Prog.ends_bind scan ?_
  rintro ⟨scans, scanned⟩ ⟨follow, scannedSteady⟩
  refine Prog.ends_bind (yields_doWhen (fun _ => Steady.yields_doHotInsertStep scannedSteady)
    (fun _ => scannedSteady)) ?_
  intro inserted insertedSteady
  refine Prog.ends_bind (yields_doWhen (fun _ => insertedSteady.yields_doColdInsertStep)
    (fun _ => insertedSteady)) ?_
  intro final finalSteady
  exact Prog.ends_pure ⟨follow, finalSteady⟩

/-! ## Accesses -/

theorem Steady.yields_accessPending (steady : s.Steady cursor enabled) (newValue : Option Bytes) :
    Yields (s.accessPending newValue) (fun outcome => outcome.2.Steady cursor enabled) := by
  refine Prog.ends_bind (lists_restamp s _ newValue) ?_
  rintro ⟨stamped, restamped⟩ stampedSame
  refine Prog.ends_bind (lists_onTier restamped .hot _) ?_
  intro hotDummied hotSame
  refine Prog.ends_bind (lists_dummyTier hotDummied .cold) ?_
  intro coldDummied coldSame
  exact Prog.ends_pure (steady.same ((stampedSame.trans hotSame).trans coldSame))

theorem Steady.yields_accessCache (steady : s.Steady cursor enabled) (key : Int)
    (newValue : Option Bytes) :
    Yields (s.accessCache key newValue) (fun outcome => outcome.2.Steady cursor enabled) := by
  have touched : s.SameLists { s with cacheDataRefs := s.cacheDataRefs.touch key [] } :=
    ⟨rfl, rfl, rfl, rfl, rfl⟩
  refine Prog.ends_bind (lists_restamp _ _ newValue) ?_
  rintro ⟨⟨value, fp⟩, restamped⟩ stampedSame
  have stamped := steady.same (touched.trans stampedSame)
  have updated : (restamped.withMgr (fun maint => maint.updateCacheFp key fp)).Steady cursor
      enabled := by
    refine stamped.withMgr ?_ (fun maint =>
      MaintenanceManager.cacheKeyList_updateCacheFp maint key fp) (fun _ => rfl)
    rw [mgr_withMgr]
    split <;> exact stamped.cursorEq
  refine Prog.ends_bind (lists_onTier _ .hot _) ?_
  intro hotDummied hotSame
  refine Prog.ends_bind (lists_dummyTier hotDummied .cold) ?_
  intro coldDummied coldSame
  exact Prog.ends_pure (updated.same (hotSame.trans coldSame))

theorem Steady.yields_accessSequential (steady : s.Steady cursor enabled) {key : Int}
    (nonneg : 0 ≤ key) (newValue : Option Bytes) :
    Yields (s.accessSequential key newValue) (fun outcome => outcome.2.Steady cursor enabled) := by
  unfold accessSequential
  refine Prog.ends_bind (lists_searchTier s _ key) ?_
  rintro ⟨ref, searched⟩ searchedSame
  refine Prog.ends_bind (lists_restamp searched ref newValue) ?_
  rintro ⟨⟨value, fp⟩, restamped⟩ stampedSame
  refine Prog.ends_bind (lists_dummyTier restamped _) ?_
  intro dummied dummiedSame
  have ready := steady.same ((searchedSame.trans stampedSame).trans dummiedSame)
  have promoted : Yields (dummied.reactivePromotion key fp ref) (Steady cursor enabled) := by
    unfold reactivePromotion
    split
    · split
      · refine Prog.ends_bind (lists_onTier dummied .cold _) ?_
        intro removed removedSame
        exact (ready.same removedSame).yields_promoteToCache nonneg _ _
      · exact (lists_onTier dummied .cold _).mono (fun _ same => ready.same same)
    · exact Prog.ends_pure ready
  refine Prog.ends_bind promoted ?_
  intro final finalSteady
  exact Prog.ends_pure finalSteady

theorem Steady.yields_accessPath (steady : s.Steady cursor enabled) (fuel : Nat) {key : Int}
    (nonneg : 0 ≤ key) (newValue : Option Bytes) :
    Yields (s.accessPath fuel key newValue) (fun outcome =>
      outcome.2.2.Steady cursor enabled) := by
  have alone : s.canInterleave = false := by simp [canInterleave, steady.noChannel]
  have withoutSteps : ∀ path : Rand (AccessResult × TieredOMap Ω),
      Yields path (fun outcome => outcome.2.Steady cursor enabled) →
      Yields (withoutPiggyback path) (fun outcome => outcome.2.2.Steady cursor enabled) := by
    intro path served
    refine Prog.ends_bind served ?_
    rintro ⟨result, final⟩ finalSteady
    exact Prog.ends_pure finalSteady
  unfold accessPath
  rw [alone]
  split
  · exact withoutSteps _ (steady.yields_accessPending newValue)
  · split
    · exact withoutSteps _ (steady.yields_accessCache key newValue)
    · exact withoutSteps _ (steady.yields_accessSequential nonneg newValue)

theorem Steady.yields_accessPlain (steady : s.Steady cursor enabled) (fuel : Nat) (key : Int)
    (newValue : Option Bytes) :
    Yields (s.accessPlain fuel key newValue) (fun outcome => outcome.2.Steady cursor enabled) := by
  have alone : s.canInterleave = false := by simp [canInterleave, steady.noChannel]
  have served : Yields (s.accessPlainSequential key newValue) (fun outcome =>
      s.SameLists outcome.2) := by
    unfold accessPlainSequential
    split
    · refine Prog.ends_bind (lists_searchTier s .hot key) ?_
      rintro ⟨ref, searched⟩ searchedSame
      refine Prog.ends_bind (lists_dataAccess searched _ newValue) ?_
      rintro ⟨value, read⟩ readSame
      refine Prog.ends_bind (lists_dummyTier read .cold) ?_
      intro dummied dummiedSame
      refine Prog.ends_bind (yields_doWhen (fun _ => lists_dataDummy dummied)
        (fun _ => ⟨rfl, rfl, rfl, rfl, rfl⟩)) ?_
      intro final finalSame
      exact Prog.ends_pure (((searchedSame.trans readSame).trans dummiedSame).trans finalSame)
    · refine Prog.ends_bind (lists_onTier s .hot _) ?_
      intro dummied dummiedSame
      refine Prog.ends_bind (lists_searchTier dummied .cold key) ?_
      rintro ⟨ref, searched⟩ searchedSame
      refine Prog.ends_bind (yields_doWhen (fun _ => lists_dataDummy searched)
        (fun _ => ⟨rfl, rfl, rfl, rfl, rfl⟩)) ?_
      intro padded paddedSame
      refine (lists_dataAccess padded _ newValue).mono ?_
      exact fun outcome same => ((dummiedSame.trans searchedSame).trans paddedSame).trans same
  unfold accessPlain
  rw [if_neg (by simp [alone])]
  refine Prog.ends_bind served ?_
  rintro ⟨value, final⟩ same
  exact Prog.ends_pure (steady.same same)

/-- Every access makes scans that follow the cursor. -/
theorem Steady.sweeps_access (steady : s.Steady cursor enabled) (fuel : Nat) {key : Int}
    (nonneg : 0 ≤ key) (newValue : Option Bytes) :
    Sweeps cursor enabled (s.recordedAccess fuel key newValue) Prod.snd := by
  unfold recordedAccess
  split
  · rename_i isEpoch
    rw [steady.enabledEq] at isEpoch
    subst isEpoch
    have ticked : (s.withMgr MaintenanceManager.tick).Steady cursor true := by
      refine steady.withMgr ?_ MaintenanceManager.cacheKeyList_tick (fun _ => rfl)
      rw [mgr_withMgr]
      split <;> exact steady.cursorEq
    refine Prog.ends_bind (ticked.yields_accessPath fuel nonneg newValue) ?_
    rintro ⟨result, done, served⟩ servedSteady
    have noScan : served.daPiggybackScan = pure served := by
      unfold daPiggybackScan
      rw [servedSteady.notByItself]
      rfl
    simp only [noScan, pure_bind]
    refine Prog.ends_bind (servedSteady.sweeps_maintenance done) ?_
    rintro ⟨scans, final⟩ swept
    exact Prog.ends_pure swept
  · refine Prog.ends_bind (steady.yields_accessPlain fuel key newValue) ?_
    rintro ⟨result, final⟩ finalSteady
    exact Prog.ends_pure ⟨trivial, finalSteady⟩

/-! ## Runs -/

theorem yields_init_steady (config : TieredOMapConfig) (allData : List (Int × Bytes))
    (hotKeys : List Int)
    (notByItself : (config.isDaHot && config.maintenance.piggyback) = false)
    (nonneg : ∀ key ∈ hotKeys, 0 ≤ key) :
    Yields (TieredOMap.init (Ω := Ω) config allData hotKeys)
      (Steady (-1) config.maintenance.enabled) := by
  unfold TieredOMap.init
  refine Prog.ends_bind (yields_any _) ?_
  intro dataOram _
  refine Prog.ends_bind (yields_any _) ?_
  intro dataOram _
  refine Prog.ends_bind (yields_any _) ?_
  intro hotOmap _
  refine Prog.ends_bind (yields_any _) ?_
  intro coldOmap _
  refine Prog.ends_bind (yields_any _) ?_
  intro hotOmap _
  refine Prog.ends_bind (yields_any _) ?_
  intro coldOmap _
  dsimp only
  have started : ∀ s : TieredOMap Ω, s.channel = false → s.config = config →
      s.maint = (if config.maintenance.enabled then some { cfg := config.maintenance } else none) →
      s.hotKeyList = hotKeys.insertionSort (· ≤ ·) → s.Steady (-1) config.maintenance.enabled := by
    intro s noChannel configEq maintEq listEq
    have mgrEq : s.mgr = { cfg := config.maintenance } := by
      unfold TieredOMap.mgr
      rw [maintEq, configEq]
      split <;> rfl
    refine ⟨noChannel, configEq ▸ notByItself, by rw [mgrEq], ?_, ?_, ?_, ?_, ?_⟩
    · rw [maintEq]
      split <;> simp [*]
    · rw [listEq]
      exact List.pairwise_insertionSort _ _
    · intro key keyMem
      rw [listEq, List.mem_insertionSort] at keyMem
      exact nonneg key keyMem
    · rw [mgrEq]
      exact fun entry entryMem => absurd entryMem List.not_mem_nil
    · rw [mgrEq]
      exact fun swapping => absurd rfl swapping
  split
  · rename_i isEpoch
    exact (started _ rfl rfl (if_pos isEpoch).symm rfl).yields_extractCache
  · rename_i isPlain
    exact Prog.ends_pure (started _ rfl rfl (if_neg isPlain).symm rfl)

/-- A step of a run: an access, or a change of the list of hot keys in between. -/
inductive ListStep where
  | access (key : Int) (newValue : Option Bytes)
  | insert (key : Int)
  | erase (key : Int)

/-- The keys of a step are not negative. -/
def ListStep.Nonneg : ListStep → Prop
  | .access key _ => 0 ≤ key
  | .insert key => 0 ≤ key
  | .erase _ => True

/-- A run of accesses, with changes of the list in between, and the scans it makes. -/
def recordedRun (fuel : Nat) (s : TieredOMap Ω) :
    List ListStep → Rand (List (Scan Int) × TieredOMap Ω)
  | [] => return ([], s)
  | .access key newValue :: rest => do
      let (scans, _, s) ← s.recordedAccess fuel key newValue
      let (later, s) ← recordedRun fuel s rest
      return (scans ++ later, s)
  | .insert key :: rest =>
      recordedRun fuel { s with hotKeyList := insertSorted s.hotKeyList key } rest
  | .erase key :: rest =>
      recordedRun fuel { s with hotKeyList := eraseSorted s.hotKeyList key } rest

theorem Steady.sweeps_run (steady : s.Steady cursor enabled) (fuel : Nat) (steps : List ListStep)
    (nonneg : ∀ step ∈ steps, step.Nonneg) :
    Sweeps cursor enabled (s.recordedRun fuel steps) id := by
  induction steps generalizing s cursor with
  | nil => exact Prog.ends_pure ⟨trivial, steady⟩
  | cons step rest ih =>
      have restNonneg := fun step' stepMem => nonneg step' (List.mem_cons_of_mem step stepMem)
      have stepNonneg := nonneg step List.mem_cons_self
      cases step with
      | access key newValue =>
          refine Prog.ends_bind (steady.sweeps_access fuel stepNonneg newValue) ?_
          rintro ⟨scans, result, accessed⟩ ⟨follow, accessedSteady⟩
          refine Prog.ends_bind (ih accessedSteady restNonneg) ?_
          rintro ⟨later, final⟩ ⟨laterFollow, finalSteady⟩
          refine Prog.ends_pure ⟨scans_append.mpr ⟨follow, laterFollow⟩, ?_⟩
          rw [cursorAfter_append]
          exact finalSteady
      | insert key =>
          refine ih ⟨steady.noChannel, steady.notByItself, steady.cursorEq, steady.enabledEq,
            sorted_insertSorted steady.sorted key, ?_, steady.cached, steady.pending⟩ restNonneg
          intro key' keyMem
          rcases mem_insertSorted.mp keyMem with rfl | old
          · exact stepNonneg
          · exact steady.nonneg key' old
      | erase key =>
          have kept := eraseSorted_sublist s.hotKeyList key
          exact ih ⟨steady.noChannel, steady.notByItself, steady.cursorEq, steady.enabledEq,
            steady.sorted.sublist kept, fun key' keyMem => steady.nonneg key' (kept.subset keyMem),
            steady.cached, steady.pending⟩ restNonneg

/--
In a run of accesses, with any insertions into and erasures from the list of hot
keys in between, every sweep of the scan visits its keys in increasing order and
each key that stays in the list exactly once.
-/
theorem hot_scan_fair (fuel : Nat) (config : TieredOMapConfig) (allData : List (Int × Bytes))
    (hotKeys : List Int) (steps : List ListStep)
    (notByItself : (config.isDaHot && config.maintenance.piggyback) = false)
    (hotNonneg : ∀ key ∈ hotKeys, 0 ≤ key) (nonneg : ∀ step ∈ steps, step.Nonneg) :
    Yields (do
      let s ← TieredOMap.init (Ω := Ω) config allData hotKeys
      s.recordedRun fuel steps) (fun outcome => Fair outcome.1) := by
  refine Prog.ends_bind (yields_init_steady config allData hotKeys notByItself hotNonneg) ?_
  intro s steady
  exact (steady.sweeps_run fuel steps nonneg).mono (fun outcome swept => fair_of_scans swept.1)

end TieredOMap

namespace TieredOMap

section Sample

attribute [local instance] clearCipher

theorem hot_scan_fair_sample :
    Yields (do
      let s ← TieredOMap.init (Ω := MapTiers) sampleConfig sampleData.records sampleData.hotKeys
      s.recordedRun 0 [.access 7 none, .insert 4, .access 5 none, .erase 3, .access 7 none])
      (fun outcome => Fair outcome.1) :=
  hot_scan_fair 0 sampleConfig sampleData.records sampleData.hotKeys _ (by decide) (by decide)
    (by
      intro step stepMem
      simp only [List.mem_cons, List.not_mem_nil, or_false] at stepMem
      rcases stepMem with rfl | rfl | rfl | rfl | rfl <;> simp [ListStep.Nonneg])

end Sample

end TieredOMap

end TieredOmap
