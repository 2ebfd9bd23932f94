import TieredOMap.Tiered.Serves

/-!
# Accesses refine the client

Every maintenance step and every path of `access` without a channel does to a
tiered map what it does to the client the map stands for, and returns what the
client returns.
-/

namespace TieredOmap

namespace TieredOMap

variable {Ω : Tier → Type} [∀ tier, OmapInterface (Ω tier)] [∀ tier, LawfulOmap (Ω tier)] [Cipher]
  {layout : Layout} {c : Client} {s s' : TieredOMap Ω}

/-! ## Moves between the tiers -/

omit [∀ tier, OmapInterface (Ω tier)] [∀ tier, LawfulOmap (Ω tier)] [Cipher] in
/-- A demotion touches no store. -/
theorem ends_demoteToCache (s : TieredOMap Ω) (records : Int → Bytes) (scanKey fp : Int)
    (ref : Bytes) :
    Ends (s.demoteToCache scanKey fp ref) (fun s' => SameStores s s' ∧
      s'.client records = (s.client records).demoteToCache scanKey fp ref) := by
  refine Prog.ends_bind (ends_notePendingStore _ _) ?_
  intro _ _
  exact Prog.ends_pure ⟨⟨rfl, rfl, rfl, rfl⟩, rfl⟩

omit [∀ tier, OmapInterface (Ω tier)] [∀ tier, LawfulOmap (Ω tier)] [Cipher] in
/-- A promotion touches no store. -/
theorem ends_promoteToCache (s : TieredOMap Ω) (records : Int → Bytes) (key fp : Int)
    (ref : Bytes) :
    Ends (s.promoteToCache key fp ref) (fun s' => SameStores s s' ∧
      s'.client records = (s.client records).promoteToCache key fp ref) := by
  refine Prog.ends_bind (ends_notePendingStore _ _) ?_
  intro _ _
  exact Prog.ends_pure ⟨⟨rfl, rfl, rfl, rfl⟩, rfl⟩

/-- Removing a key from a tier. -/
theorem Serves.ends_removeTier (serves : s.Serves layout c) (tier : Tier) (key : Int) :
    Ends (s.onTier tier (fun omap => OmapInterface.remove omap key)) (fun s' =>
      ∃ omap, s' = s.setOmap tier omap ∧
        LawfulOmap.Rep omap (refsOn layout.refs ((c.tierKeys layout tier).erase key))
          (layout.room tier)) := by
  refine Prog.ends_bind (LawfulOmap.ends_remove _ _ _ key (serves.reps tier)) ?_
  intro omap rep
  rw [update_refsOn_none] at rep
  exact Prog.ends_pure ⟨omap, rfl, rep⟩

/-- Inserting a key with its reference into a tier that does not hold it. -/
theorem Serves.ends_insertTier (serves : s.Serves layout c) {tier : Tier} {key : Int} {ref : Bytes}
    (keyStored : key ∈ layout.stored) (isRef : ref = layout.refs key)
    (outside : key ∉ c.tierKeys layout tier)
    (room : (c.tierKeys layout tier).card < layout.room tier) :
    Ends (s.onTier tier (fun omap => OmapInterface.insert omap key ref)) (fun s' =>
      ∃ omap, s' = s.setOmap tier omap ∧
        LawfulOmap.Rep omap (refsOn layout.refs (insert key (c.tierKeys layout tier)))
          (layout.room tier)) := by
  subst isRef
  refine Prog.ends_bind (LawfulOmap.ends_insert _ _ _ key _
    (c.tierKeys layout tier) (serves.reps tier) (layout.valid _ keyStored) ?_ ?_ room) ?_
  · simp [refsOn, outside]
  · exact fun key held => refsOn_isSome.mp held
  · intro omap rep
    rw [update_refsOn_some] at rep
    exact Prog.ends_pure ⟨omap, rfl, rep⟩

/-- Removing a scanned key from the hot map and putting it in the cache. -/
theorem Serves.ends_demote (serves : s.Serves layout c) (isIdle : c.mgr.swapState = .idle)
    {scanKey fp : Int} {ref : Bytes} (scanMem : scanKey ∈ c.physHotKeys)
    (isRef : ref = layout.refs scanKey) (guard : ∃ entry ∈ c.mgr.cache, fp ≤ entry.fp) :
    Ends (do
        let s ← s.onTier .hot (fun omap => OmapInterface.remove omap scanKey)
        s.demoteToCache scanKey fp ref)
      (fun s' => s'.Serves layout (c.demoteToCache scanKey fp (layout.refs scanKey))) := by
  subst isRef
  refine Prog.ends_bind (serves.ends_removeTier .hot scanKey) ?_
  rintro _ ⟨omap, rfl, rep⟩
  refine (ends_demoteToCache _ c.records scanKey fp _).mono ?_
  rintro s' ⟨same, client⟩
  rw [client_setOmap, serves.client] at client
  rcases serves.shape.demoteToCache isIdle scanMem guard with ⟨shape, hotTier, coldTier⟩
  refine serves.moved same client shape rfl ?_ coldTier
  change LawfulOmap.Rep omap (refsOn layout.refs (Client.physHotKeys _)) _
  rw [hotTier]
  exact rep

/-- Removing an accessed key from the cold map and putting it in the cache. -/
theorem Serves.ends_promote (serves : s.Serves layout c) (isIdle : c.mgr.swapState = .idle)
    {key fp : Int} {ref : Bytes} (keyStored : key ∈ layout.stored) (isCold : key ∉ c.hotKeys)
    (isRef : ref = layout.refs key) (guard : c.mgr.shouldPromote fp = true) :
    Ends (do
        let s ← s.onTier .cold (fun omap => OmapInterface.remove omap key)
        s.promoteToCache key fp ref)
      (fun s' => s'.Serves layout (c.promoteToCache key fp (layout.refs key))) := by
  subst isRef
  refine Prog.ends_bind (serves.ends_removeTier .cold key) ?_
  rintro _ ⟨omap, rfl, rep⟩
  refine (ends_promoteToCache _ c.records key fp _).mono ?_
  rintro s' ⟨same, client⟩
  rw [client_setOmap, serves.client] at client
  rcases serves.shape.promoteToCache isIdle keyStored isCold guard with ⟨shape, coldTier, _⟩
  refine serves.moved same client shape rfl ?_ rfl
  rw [coldTier]
  exact rep

/-! ## Maintenance steps -/

theorem Serves.ends_doHotInsertStep (serves : s.Serves layout c) :
    Ends s.doHotInsertStep (fun s' => s'.Serves layout c.doHotInsertStep) := by
  unfold doHotInsertStep Client.doHotInsertStep
  rw [serves.mgr_eq]
  split
  · rename_i hotPend
    rcases serves.shape.pending (by simp [hotPend]) with ⟨keyStored, refEq, notPhys, _⟩
    have keyEq : s.pendingInsertKey = c.pendingInsertKey :=
      congrArg Client.pendingInsertKey serves.client
    have sameRef : s.pendingInsertRef = c.pendingInsertRef :=
      congrArg Client.pendingInsertRef serves.client
    have room : (c.tierKeys layout .hot).card < layout.room .hot := by
      have pendingEq : c.pendingIn .hotPend = {c.pendingInsertKey} := if_pos hotPend
      have fits := serves.shape.hotFits
      rw [pendingEq, Finset.union_comm, Finset.singleton_union,
        Finset.card_insert_of_notMem notPhys] at fits
      exact fits
    rw [keyEq, sameRef]
    refine Prog.ends_bind (serves.ends_insertTier keyStored refEq notPhys room) ?_
    rintro _ ⟨omap, rfl, rep⟩
    rcases serves.shape.finishHotInsert hotPend with ⟨shape, coldTier⟩
    refine Prog.ends_pure (serves.moved ⟨rfl, rfl, rfl, rfl⟩ ?_ shape rfl rep coldTier)
    exact congrArg
      (fun client : Client => (client.addPhysHot client.pendingInsertKey).clearPending)
      serves.client
  · exact serves.ends_dummy .hot

theorem Serves.ends_doColdInsertStep (serves : s.Serves layout c) :
    Ends s.doColdInsertStep (fun s' => s'.Serves layout c.doColdInsertStep) := by
  unfold doColdInsertStep Client.doColdInsertStep
  rw [serves.mgr_eq]
  split
  · rename_i coldPend
    rcases serves.shape.pending (by simp [coldPend]) with ⟨keyStored, refEq, notPhys, notCached⟩
    have keyEq : s.pendingInsertKey = c.pendingInsertKey :=
      congrArg Client.pendingInsertKey serves.client
    have sameRef : s.pendingInsertRef = c.pendingInsertRef :=
      congrArg Client.pendingInsertRef serves.client
    have notHot : c.pendingInsertKey ∉ c.hotKeys := by
      rw [serves.shape.hotKeys_eq]
      simp [Client.pendingIn, coldPend, notPhys, notCached]
    have outside : c.pendingInsertKey ∉ c.tierKeys layout .cold := by
      simp [Client.tierKeys, Client.pendingIn, coldPend]
    have room : (c.tierKeys layout .cold).card < layout.room .cold := by
      have smaller : c.tierKeys layout .cold ⊂ layout.stored \ c.hotKeys := by
        refine Finset.ssubset_iff_of_subset ?_ |>.mpr
          ⟨c.pendingInsertKey, Finset.mem_sdiff.mpr ⟨keyStored, notHot⟩, outside⟩
        exact Finset.sdiff_subset_sdiff (le_refl _) Finset.subset_union_left
      exact (Finset.card_lt_card smaller).trans_le serves.shape.coldFits
    rw [keyEq, sameRef]
    refine Prog.ends_bind (serves.ends_insertTier keyStored refEq outside room) ?_
    rintro _ ⟨omap, rfl, rep⟩
    rcases serves.shape.finishColdInsert coldPend with ⟨shape, coldTier⟩
    refine Prog.ends_pure (serves.moved ⟨rfl, rfl, rfl, rfl⟩ ?_ shape rfl ?_ rfl)
    · exact congrArg Client.clearPending serves.client
    · rw [coldTier]
      exact rep
  · exact serves.ends_dummy .cold

omit [∀ tier, OmapInterface (Ω tier)] [∀ tier, LawfulOmap (Ω tier)] [Cipher] in
/-- Choosing the next scan key touches no store. -/
theorem client_nextScanKey (s : TieredOMap Ω) (records : Int → Bytes) :
    SameStores s s.nextScanKey.2 ∧ s.nextScanKey.1 = (s.client records).nextScanKey.1 ∧
      s.nextScanKey.2.client records = (s.client records).nextScanKey.2 := by
  have listEq : (s.client records).hotKeyList = s.hotKeyList := rfl
  have mgrEq : (s.client records).mgr = s.mgr := rfl
  unfold TieredOMap.nextScanKey Client.nextScanKey
  rw [listEq, mgrEq]
  cases s.hotKeyList with
  | nil => exact ⟨⟨rfl, rfl, rfl, rfl⟩, rfl, rfl⟩
  | cons first rest =>
      cases List.find? (fun key => decide (s.mgr.scanPtr < key)) (first :: rest) with
      | none => exact ⟨⟨rfl, rfl, rfl, rfl⟩, rfl, rfl⟩
      | some key => exact ⟨⟨rfl, rfl, rfl, rfl⟩, rfl, rfl⟩

theorem Serves.nextScanKey (serves : s.Serves layout c) :
    s.nextScanKey.1 = c.nextScanKey.1 ∧ s.nextScanKey.2.Serves layout c.nextScanKey.2 := by
  rcases client_nextScanKey s c.records with ⟨stores, keyEq, clientEq⟩
  rw [serves.client] at keyEq clientEq
  have same := Client.sameShape_nextScanKey c
  refine ⟨keyEq, serves.congr stores ?_ (serves.shape.congr same) (same.tierKeys layout)
    (Client.records_nextScanKey c)⟩
  rw [Client.records_nextScanKey]
  exact clientEq

omit [Cipher] in
/-- What a search in the tier that holds a key finds. -/
theorem isRef_found {tier : Tier} {key : Int}
    (found : key ∈ layout.stored → key ∈ c.tierKeys layout tier)
    (missing : key ∉ layout.stored → key ∉ c.tierKeys layout tier) :
    IsRef layout key (valueOf (refsOn layout.refs (c.tierKeys layout tier) key)) := by
  unfold IsRef
  split
  · rename_i keyStored
    exact valueOf_refsOn (found keyStored)
  · rename_i notStored
    simp [refsOn, missing notStored, valueOf]

theorem Serves.ends_scanNextKey (serves : s.Serves layout c) (isIdle : c.mgr.swapState = .idle)
    (nonempty : c.hotKeyList ≠ []) :
    Ends s.scanNextKey (fun s' => s'.Serves layout (c.scanNextKey layout)) := by
  rcases serves.nextScanKey with ⟨keyEq, pointed⟩
  have same := Client.sameShape_nextScanKey c
  have scanMem : c.nextScanKey.1 ∈ c.nextScanKey.2.physHotKeys := by
    rw [same.physHotKeys, ← serves.shape.mem_list]
    exact Client.nextScanKey_mem nonempty
  have scanStored : c.nextScanKey.1 ∈ layout.stored :=
    pointed.shape.hotKeys_sub (pointed.shape.phys_sub scanMem)
  unfold scanNextKey Client.scanNextKey
  dsimp only
  rw [keyEq]
  generalize c.nextScanKey.1 = scanKey at *
  have pointedIdle := same.swapState.trans isIdle
  generalize c.nextScanKey.2 = start at *
  refine Prog.ends_bind (pointed.ends_searchTier .hot scanKey) ?_
  rintro ⟨ref, searched⟩ ⟨refEq, searchedServes⟩
  have isRef : ref = layout.refs scanKey := refEq.trans (valueOf_refsOn scanMem)
  have readRef : IsRef layout scanKey ref := by rw [IsRef, if_pos scanStored, isRef]
  refine Prog.ends_bind (searchedServes.ends_dataRead readRef) ?_
  rintro ⟨raw, read⟩ ⟨rfl, readServes⟩
  have mgrEq : read.mgr = start.mgr := readServes.mgr_eq
  simp only [mgrEq]
  split
  · rename_i guard
    exact readServes.ends_demote pointedIdle scanMem isRef (Client.demoteGuard guard)
  · exact Prog.ends_pure readServes

theorem Serves.ends_doDaScanStep (serves : s.Serves layout c) (isIdle : c.mgr.swapState = .idle)
    (fresh : FreshHead c.mgr c.physHotKeys c.daPendingDemotions) :
    Ends s.doDaScanStep (fun s' => s'.Serves layout (c.doDaScanStep layout)) := by
  have queueEq : s.daPendingDemotions = c.daPendingDemotions :=
    congrArg Client.daPendingDemotions serves.client
  unfold doDaScanStep Client.doDaScanStep
  rw [queueEq]
  cases headEq : c.daPendingDemotions with
  | nil =>
      simp only [ne_eq, not_true_eq_false, false_and, if_false]
      exact serves.ends_dummy .hot
  | cons head rest =>
      rcases head with ⟨key, fp⟩
      rw [headEq] at fresh
      have poppedServes : ({ s with daPendingDemotions := rest } : TieredOMap Ω).Serves layout
          { c with daPendingDemotions := rest } := by
        refine serves.congr ⟨rfl, rfl, rfl, rfl⟩ ?_ ?_ rfl rfl
        · exact congrArg (fun client : Client => { client with daPendingDemotions := rest })
            serves.client
        · exact serves.shape.congr ⟨rfl, rfl, rfl, rfl, rfl, rfl, rfl, rfl, rfl⟩
      have physEq := serves.physHotKeys_eq
      dsimp only
      by_cases still : key ≠ invalidKey ∧ key ∈ c.physHotKeys
      · rw [if_pos still, if_pos (physEq ▸ still)]
        refine Prog.ends_bind (poppedServes.ends_searchTier .hot key) ?_
        rintro ⟨ref, searched⟩ ⟨refEq, searchedServes⟩
        exact searchedServes.ends_demote isIdle still.2
          (refEq.trans (valueOf_refsOn still.2)) (fresh still.2)
      · rw [if_neg still, if_neg (physEq ▸ still)]
        exact poppedServes.ends_dummy .hot

theorem Serves.ends_doScanStep (serves : s.Serves layout c)
    (fresh : c.scansByItself = true → c.mgr.swapState = .idle →
      FreshHead c.mgr c.physHotKeys c.daPendingDemotions) :
    Ends s.doScanStep (fun s' => s'.Serves layout (c.doScanStep layout)) := by
  have idleStep : Ends (do
      let s ← s.onTier .hot OmapInterface.dummyAccess
      s.dataDummy) (fun s' => s'.Serves layout c) := by
    refine Prog.ends_bind (serves.ends_dummy .hot) ?_
    intro dummied dummiedServes
    exact dummiedServes.ends_dataDummy
  have listEq : s.hotKeyList = c.hotKeyList := congrArg Client.hotKeyList serves.client
  unfold doScanStep Client.doScanStep Client.scansByItself at *
  rw [serves.mgr_eq, serves.config_eq, listEq]
  split
  · exact idleStep
  · rename_i notSwapping
    have isIdle := not_not.mp notSwapping
    split
    · rename_i byItself
      exact serves.ends_doDaScanStep isIdle (fresh byItself isIdle)
    · split
      · exact idleStep
      · rename_i nonempty
        exact serves.ends_scanNextKey isIdle nonempty

theorem Serves.ends_scanIfDue (serves : s.Serves layout c)
    (fresh : c.scansByItself = true → c.mgr.shouldScan = true → c.mgr.swapState = .idle →
      FreshHead c.mgr c.physHotKeys c.daPendingDemotions) :
    Ends (doWhen s.mgr.shouldScan s.doScanStep s) (fun s' =>
      s'.Serves layout (if c.mgr.shouldScan then c.doScanStep layout else c)) := by
  rw [serves.mgr_eq]
  refine ends_doWhen ?_ ?_
  · intro due
    rw [if_pos due]
    exact serves.ends_doScanStep (fun byItself => fresh byItself due)
  · intro notDue
    rw [if_neg (by simp [notDue])]
    exact serves

theorem Serves.ends_hotInsertIfDue (serves : s.Serves layout c) :
    Ends (doWhen s.mgr.shouldHotInsert s.doHotInsertStep s) (fun s' =>
      s'.Serves layout (if c.mgr.shouldHotInsert then c.doHotInsertStep else c)) := by
  rw [serves.mgr_eq]
  refine ends_doWhen ?_ ?_
  · intro due
    rw [if_pos due]
    exact serves.ends_doHotInsertStep
  · intro notDue
    rw [if_neg (by simp [notDue])]
    exact serves

theorem Serves.ends_coldInsertIfDue (serves : s.Serves layout c) :
    Ends (doWhen s.mgr.shouldColdInsert s.doColdInsertStep s) (fun s' =>
      s'.Serves layout (if c.mgr.shouldColdInsert then c.doColdInsertStep else c)) := by
  rw [serves.mgr_eq]
  refine ends_doWhen ?_ ?_
  · intro due
    rw [if_pos due]
    exact serves.ends_doColdInsertStep
  · intro notDue
    rw [if_neg (by simp [notDue])]
    exact serves

theorem Serves.ends_staggeredMaintenance (serves : s.Serves layout c)
    (fresh : c.scansByItself = true → c.mgr.shouldScan = true → c.mgr.swapState = .idle →
      FreshHead c.mgr c.physHotKeys c.daPendingDemotions) :
    Ends (s.staggeredMaintenance {}) (fun s' =>
      s'.Serves layout (c.staggeredMaintenance layout)) := by
  unfold staggeredMaintenance Client.staggeredMaintenance
  simp only [Bool.not_false, Bool.true_and]
  refine Prog.ends_bind (serves.ends_scanIfDue fresh) ?_
  generalize (if c.mgr.shouldScan then c.doScanStep layout else c) = scannedClient
  intro scanned scannedServes
  refine Prog.ends_bind scannedServes.ends_hotInsertIfDue ?_
  generalize (if scannedClient.mgr.shouldHotInsert then scannedClient.doHotInsertStep
    else scannedClient) = insertedClient
  intro inserted insertedServes
  exact insertedServes.ends_coldInsertIfDue

/-! ## Access paths -/

theorem Serves.ends_accessPending (serves : s.Serves layout c) (newValue : Option Bytes) :
    Ends (s.accessPending newValue) (fun outcome =>
      outcome.1 = (c.accessPending layout newValue).1 ∧
        outcome.2.Serves layout (c.accessPending layout newValue).2) := by
  have sameRef : s.pendingInsertRef = c.pendingInsertRef :=
    congrArg Client.pendingInsertRef serves.client
  have isRef : IsRef layout c.pendingInsertKey s.pendingInsertRef := by
    rw [sameRef, IsRef]
    by_cases isIdle : c.mgr.swapState = .idle
    · rcases serves.shape.idle isIdle with ⟨keyEq, refEq⟩
      rw [if_neg (fun keyStored => layout.valid _ keyStored keyEq), refEq]
    · rcases serves.shape.pending isIdle with ⟨keyStored, refEq, _, _⟩
      rw [if_pos keyStored, refEq]
  refine Prog.ends_bind (serves.ends_restamp isRef newValue) ?_
  rintro ⟨⟨value, fp⟩, restamped⟩ ⟨answer, restampedServes⟩
  refine Prog.ends_bind (restampedServes.ends_dummy .hot) ?_
  intro hotDummied hotServes
  refine Prog.ends_bind (hotServes.ends_dummyTier .cold) ?_
  intro coldDummied coldServes
  refine Prog.ends_pure ⟨?_, coldServes⟩
  simp only [Client.accessPending, ← answer]

theorem Serves.ends_accessCache (serves : s.Serves layout c) {key : Int}
    (cached : key ∈ c.cacheKeys) (newValue : Option Bytes) :
    Ends (s.accessCache key newValue) (fun outcome =>
      outcome.1 = (c.accessCache layout key newValue).1 ∧
        outcome.2.Serves layout (c.accessCache layout key newValue).2) := by
  have keyStored : key ∈ layout.stored := serves.shape.hotKeys_sub (serves.shape.cache_sub cached)
  have refsEq : s.cacheDataRefs = c.cacheDataRefs := congrArg Client.cacheDataRefs serves.client
  have present : s.cacheDataRefs.get? key = some (layout.refs key) := by
    rw [refsEq]
    exact serves.shape.cacheRef cached
  have hotEq := serves.hotKeys_eq
  unfold accessCache
  rw [KeyMap.getD_of_get? present, KeyMap.touch_of_get? present]
  refine Prog.ends_bind (serves.ends_restamp (by rw [IsRef, if_pos keyStored]) newValue) ?_
  rintro ⟨⟨value, fp⟩, restamped⟩ ⟨answer, restampedServes⟩
  have updated := restampedServes.withMgr (f := fun maint => maint.updateCacheFp key fp)
    (fun maint => MaintenanceManager.cacheKeyList_updateCacheFp maint key fp) (fun _ => rfl)
  refine Prog.ends_bind (updated.ends_dummy .hot) ?_
  intro hotDummied hotServes
  refine Prog.ends_bind (hotServes.ends_dummyTier .cold) ?_
  intro coldDummied coldServes
  simp only [Client.accessCache, ← answer, hotEq]
  exact Prog.ends_pure ⟨rfl, coldServes⟩

theorem Serves.ends_reactivePromotion (serves : s.Serves layout c) {key fp : Int} {ref : Bytes}
    (isRef : IsRef layout key ref) :
    Ends (s.reactivePromotion key fp ref) (fun s' =>
      s'.Serves layout (c.reactivePromotion layout key fp)) := by
  have foundIff : ref ≠ [] ↔ key ∈ layout.stored := by
    rw [isRef]
    split
    · rename_i keyStored
      simp [keyStored, layout.refs_ne_nil key keyStored]
    · rename_i notStored
      simp [notStored]
  unfold reactivePromotion Client.reactivePromotion
  rw [serves.hotKeys_eq, serves.mgr_eq]
  split
  · rename_i coldFound
    have isCold := And.intro coldFound.1 (foundIff.mp coldFound.2)
    split
    · rename_i promoting
      rw [if_pos ⟨isCold, promoting⟩]
      refine serves.ends_promote promoting.1 isCold.2 isCold.1 ?_ promoting.2
      rw [isRef, if_pos isCold.2]
    · rename_i notPromoting
      rw [if_neg (fun both => notPromoting both.2)]
      exact serves.ends_dummy .cold
  · rename_i notCold
    rw [if_neg (fun both => notCold ⟨both.1.1, foundIff.mpr both.1.2⟩)]
    exact Prog.ends_pure serves

end TieredOMap

namespace Client

variable {layout : Layout} {c : Client}

/-- A key that is neither pending nor cached is in the tier where an access looks for it. -/
theorem Shape.mem_target (shape : c.Shape layout) {key : Int} (notPending : key ≠ c.pendingInsertKey)
    (notCached : key ∉ c.cacheKeys) (keyStored : key ∈ layout.stored) :
    key ∈ c.tierKeys layout (if key ∈ c.physHotKeys then .hot else .cold) := by
  split
  · rename_i phys
    exact phys
  · rename_i notPhys
    have notPendingIn : ∀ swapState, key ∉ c.pendingIn swapState := by
      intro swapState
      unfold pendingIn
      split <;> simp [notPending]
    refine Finset.mem_sdiff.mpr ⟨keyStored, ?_⟩
    rw [shape.hotKeys_eq]
    simp [notPhys, notCached, notPendingIn]

/-- No tier holds a key that is not stored. -/
theorem Shape.not_mem_tier (shape : c.Shape layout) {key : Int} (notStored : key ∉ layout.stored)
    (tier : Tier) : key ∉ c.tierKeys layout tier := by
  cases tier with
  | hot => exact fun phys => notStored (shape.hotKeys_sub (shape.phys_sub phys))
  | cold => exact fun held => notStored (Finset.mem_sdiff.mp held).1

/-- Without maintenance nothing is cached and nothing is pending. -/
theorem Shape.plain (shape : c.Shape layout) (disabled : c.maint = none) :
    c.cacheKeys = ∅ ∧ c.pendingInsertKey = invalidKey := by
  have mgrEq : c.mgr = { cfg := c.config.maintenance } := by simp [mgr, disabled]
  refine ⟨?_, (shape.idle (by rw [mgrEq])).1⟩
  refine Finset.eq_empty_of_forall_notMem ?_
  intro key cached
  have listed := (shape.mem_cache key).mpr cached
  rw [mgrEq] at listed
  exact absurd listed (List.not_mem_nil)

end Client

namespace TieredOMap

variable {Ω : Tier → Type} [∀ tier, OmapInterface (Ω tier)] [∀ tier, LawfulOmap (Ω tier)] [Cipher]
  {layout : Layout} {c : Client} {s s' : TieredOMap Ω}

theorem Serves.ends_accessSequential (serves : s.Serves layout c) {key : Int}
    (notPending : key ≠ c.pendingInsertKey) (notCached : key ∉ c.cacheKeys)
    (newValue : Option Bytes) :
    Ends (s.accessSequential key newValue) (fun outcome =>
      outcome.1 = (c.accessSequential layout key newValue).1 ∧
        outcome.2.Serves layout (c.accessSequential layout key newValue).2) := by
  unfold accessSequential
  rw [serves.hotKeys_eq, serves.physHotKeys_eq]
  set target : Tier := if key ∈ c.physHotKeys then .hot else .cold with targetDef
  refine Prog.ends_bind (serves.ends_searchTier target key) ?_
  rintro ⟨ref, searched⟩ ⟨refEq, searchedServes⟩
  have isRef : IsRef layout key ref := by
    rw [show ref = _ from refEq]
    exact isRef_found (serves.shape.mem_target notPending notCached)
      (fun notStored => serves.shape.not_mem_tier notStored target)
  refine Prog.ends_bind (searchedServes.ends_restamp isRef newValue) ?_
  rintro ⟨⟨value, fp⟩, restamped⟩ ⟨answer, restampedServes⟩
  refine Prog.ends_bind (restampedServes.ends_dummyTier _) ?_
  intro dummied dummiedServes
  refine Prog.ends_bind (dummiedServes.ends_reactivePromotion isRef) ?_
  intro promoted promotedServes
  simp only [Client.accessSequential, ← answer]
  exact Prog.ends_pure ⟨rfl, promotedServes⟩

theorem Serves.ends_accessPath (serves : s.Serves layout c) (fuel : Nat) (key : Int)
    (newValue : Option Bytes) :
    Ends (s.accessPath fuel key newValue) (fun outcome =>
      outcome.1 = (c.accessPath layout key newValue).1 ∧ outcome.2.1 = {} ∧
        outcome.2.2.Serves layout (c.accessPath layout key newValue).2) := by
  have keyEq : s.pendingInsertKey = c.pendingInsertKey :=
    congrArg Client.pendingInsertKey serves.client
  have cacheEq : s.cacheKeys = c.cacheKeys := congrArg Client.cacheKeys serves.client
  have alone : s.canInterleave = false := by simp [canInterleave, serves.noChannel]
  unfold accessPath Client.accessPath
  rw [keyEq, cacheEq, alone]
  split
  · refine Prog.ends_bind (serves.ends_accessPending newValue) ?_
    rintro outcome ⟨answer, accessed⟩
    exact Prog.ends_pure ⟨answer, rfl, accessed⟩
  · rename_i notPending
    split
    · rename_i cached
      refine Prog.ends_bind (serves.ends_accessCache cached newValue) ?_
      rintro outcome ⟨answer, accessed⟩
      exact Prog.ends_pure ⟨answer, rfl, accessed⟩
    · rename_i notCached
      refine Prog.ends_bind (serves.ends_accessSequential notPending notCached newValue) ?_
      rintro outcome ⟨answer, accessed⟩
      exact Prog.ends_pure ⟨answer, rfl, accessed⟩

theorem Serves.tick (serves : s.Serves layout c) :
    (s.withMgr MaintenanceManager.tick).Serves layout (c.withMgr MaintenanceManager.tick) :=
  serves.withMgr MaintenanceManager.cacheKeyList_tick (fun _ => rfl)

/-- The hot map scans only where it is configured to do so by itself. -/
theorem Serves.daPiggybackScan_eq (serves : s.Serves layout c)
    (notByItself : c.scansByItself = false) : s.daPiggybackScan = pure s := by
  unfold daPiggybackScan
  rw [serves.config_eq]
  change (if c.scansByItself = true then _ else _) = _
  rw [notByItself]
  rfl

theorem Serves.ends_accessEpoch (serves : s.Serves layout c) (notByItself : c.scansByItself = false)
    (fuel : Nat) (key : Int) (newValue : Option Bytes) :
    Ends (s.accessEpoch fuel key newValue) (fun outcome =>
      outcome.1 = (c.accessEpoch layout key newValue).1 ∧
        outcome.2.Serves layout (c.accessEpoch layout key newValue).2) := by
  have keeps := serves.shape.keeps_tick.trans
    (serves.shape.keeps_tick.shape.keeps_accessPath key newValue)
  refine Prog.ends_bind (serves.tick.ends_accessPath fuel key newValue) ?_
  rintro ⟨result, done, accessed⟩ ⟨answer, doneEq, accessedServes⟩
  dsimp only at answer doneEq accessedServes
  subst doneEq
  have stillNot : Client.scansByItself
      ((c.withMgr MaintenanceManager.tick).accessPath layout key newValue).2 = false := by
    rw [Client.scansByItself, keeps.config]
    exact notByItself
  simp only [accessedServes.daPiggybackScan_eq stillNot, pure_bind]
  refine Prog.ends_bind (accessedServes.ends_staggeredMaintenance (fun byItself => ?_)) ?_
  · rw [stillNot] at byItself
    cases byItself
  · intro maintained maintainedServes
    exact Prog.ends_pure ⟨answer, maintainedServes⟩

/-! ## Without maintenance -/

theorem Serves.ends_accessPlainSequential (serves : s.Serves layout c) (disabled : c.maint = none)
    (key : Int) (newValue : Option Bytes) :
    Ends (s.accessPlainSequential key newValue) (fun outcome =>
      outcome.1 = (c.accessPlain layout key newValue).1.value ∧
        outcome.2.Serves layout (c.accessPlain layout key newValue).2) := by
  rcases serves.shape.plain disabled with ⟨noCache, noPending⟩
  have isRef : IsRef layout key (valueOf (refsOn layout.refs
      (c.tierKeys layout (if key ∈ c.physHotKeys then .hot else .cold)) key)) := by
    refine isRef_found (fun keyStored => serves.shape.mem_target ?_ (by simp [noCache]) keyStored)
      (fun notStored => serves.shape.not_mem_tier notStored _)
    rw [noPending]
    exact layout.valid key keyStored
  unfold accessPlainSequential
  rw [serves.physHotKeys_eq]
  split
  · rename_i phys
    rw [if_pos phys] at isRef
    refine Prog.ends_bind (serves.ends_searchTier .hot key) ?_
    rintro ⟨ref, searched⟩ ⟨rfl, searchedServes⟩
    refine Prog.ends_bind (searchedServes.ends_dataAccess isRef newValue) ?_
    rintro ⟨value, accessed⟩ ⟨answer, accessedServes⟩
    refine Prog.ends_bind (accessedServes.ends_dummyTier .cold) ?_
    intro dummied dummiedServes
    refine Prog.ends_bind (ends_doWhen (P := fun s' => s'.Serves layout
        (c.accessPlain layout key newValue).2)
      (fun _ => dummiedServes.ends_dataDummy) (fun _ => dummiedServes)) ?_
    intro ready readyServes
    exact Prog.ends_pure ⟨answer, readyServes⟩
  · rename_i notPhys
    rw [if_neg notPhys] at isRef
    refine Prog.ends_bind (serves.ends_dummy .hot) ?_
    intro dummied dummiedServes
    refine Prog.ends_bind (dummiedServes.ends_searchTier .cold key) ?_
    rintro ⟨ref, searched⟩ ⟨rfl, searchedServes⟩
    refine Prog.ends_bind (ends_doWhen (P := fun s' => s'.Serves layout c)
      (fun _ => searchedServes.ends_dataDummy) (fun _ => searchedServes)) ?_
    intro ready readyServes
    exact readyServes.ends_dataAccess isRef newValue

theorem Serves.ends_accessPlain (serves : s.Serves layout c) (disabled : c.maint = none)
    (fuel : Nat) (key : Int) (newValue : Option Bytes) :
    Ends (s.accessPlain fuel key newValue) (fun outcome =>
      outcome.1 = (c.accessPlain layout key newValue).1 ∧
        outcome.2.Serves layout (c.accessPlain layout key newValue).2) := by
  have alone : s.canInterleave = false := by simp [canInterleave, serves.noChannel]
  unfold accessPlain
  rw [if_neg (by simp [alone]), serves.hotKeys_eq]
  refine Prog.ends_bind (serves.ends_accessPlainSequential disabled key newValue) ?_
  rintro ⟨value, accessed⟩ ⟨rfl, accessedServes⟩
  exact Prog.ends_pure ⟨rfl, accessedServes⟩

/-- Every access without a channel is the client's access. -/
theorem Serves.ends_access (serves : s.Serves layout c) (notByItself : c.scansByItself = false)
    (fuel : Nat) (key : Int) (newValue : Option Bytes) :
    Ends (s.access fuel key newValue) (fun outcome =>
      outcome.1 = (c.access layout key newValue).1 ∧
        outcome.2.Serves layout (c.access layout key newValue).2) := by
  have maintEq : s.maint = c.maint := congrArg Client.maint serves.client
  unfold access Client.access
  rw [maintEq]
  split
  · exact serves.ends_accessEpoch notByItself fuel key newValue
  · rename_i disabled
    refine serves.ends_accessPlain ?_ fuel key newValue
    simpa using disabled

/-- A run of accesses is a run of the client. -/
theorem Serves.ends_runAccesses (fuel : Nat) (ops : List (Int × Option Bytes))
    (serves : s.Serves layout c) (notByItself : c.scansByItself = false) :
    Ends (s.runAccesses fuel ops) (fun outcome =>
      outcome.1 = (c.runAccesses layout ops).1 ∧
        outcome.2.Serves layout (c.runAccesses layout ops).2) := by
  induction ops generalizing s c with
  | nil => exact Prog.ends_pure ⟨rfl, serves⟩
  | cons op rest ih =>
      rcases op with ⟨key, newValue⟩
      have keeps := serves.shape.keeps_access notByItself key newValue
      refine Prog.ends_bind (serves.ends_access notByItself fuel key newValue) ?_
      rintro ⟨result, accessed⟩ ⟨rfl, accessedServes⟩
      refine Prog.ends_bind (ih accessedServes ?_) ?_
      · rw [Client.scansByItself, keeps.config]
        exact notByItself
      · rintro ⟨values, final⟩ ⟨rfl, finalServes⟩
        exact Prog.ends_pure ⟨rfl, finalServes⟩

end TieredOMap

end TieredOmap
