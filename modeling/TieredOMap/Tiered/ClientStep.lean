import TieredOMap.Tiered.Partition

/-!
# Steps of the client

Every maintenance step and every access path of the client keeps its shape, its
configuration and the size of its hot set.
-/

namespace TieredOmap

/--
The demotion at the head of the queue, if its key is still in the hot map, is
not hotter than every key in the cache, so that admitting it evicts another key.
-/
def FreshHead (maint : MaintenanceManager) (physHotKeys : Finset Int) : List (Int × Int) → Prop
  | [] => True
  | (key, fp) :: _ => key ∈ physHotKeys → ∃ entry ∈ maint.cache, fp ≤ entry.fp

namespace Client

variable {layout : Layout} {c c' c'' : Client}

/-- What no step changes. -/
structure Keeps (layout : Layout) (c c' : Client) : Prop where
  shape : c'.Shape layout
  card : c'.hotKeys.card = c.hotKeys.card
  config : c'.config = c.config
  enabled : c'.maint.isSome = c.maint.isSome

theorem Shape.keeps (shape : c.Shape layout) : c.Keeps layout c := ⟨shape, rfl, rfl, rfl⟩

theorem Keeps.trans (first : c.Keeps layout c') (second : c'.Keeps layout c'') :
    c.Keeps layout c'' :=
  ⟨second.shape, second.card.trans first.card, second.config.trans first.config,
    second.enabled.trans first.enabled⟩

@[simp]
theorem isSome_withMgr (f : MaintenanceManager → MaintenanceManager) :
    (c.withMgr f).maint.isSome = c.maint.isSome := by
  simp [withMgr]

theorem Shape.keeps_withMgr (shape : c.Shape layout) {f : MaintenanceManager → MaintenanceManager}
    (sameKeys : ∀ maint, (f maint).cacheKeyList = maint.cacheKeyList)
    (sameSwap : ∀ maint, (f maint).swapState = maint.swapState) : c.Keeps layout (c.withMgr f) :=
  ⟨shape.congr (sameShape_withMgr sameKeys sameSwap), rfl, rfl, isSome_withMgr f⟩

theorem Shape.keeps_setRecord (shape : c.Shape layout) (key : Int) (raw : Bytes) :
    c.Keeps layout (c.setRecord layout key raw) := by
  refine ⟨shape.congr (sameShape_setRecord layout c key raw), ?_, ?_, ?_⟩
  all_goals
    unfold setRecord
    split <;> rfl

/-! ## Maintenance steps -/

/-- The scan pointer is all that choosing the next scan key changes. -/
theorem sameShape_nextScanKey (c : Client) : c.SameShape c.nextScanKey.2 := by
  unfold nextScanKey
  split
  · exact ⟨rfl, rfl, rfl, rfl, rfl, rfl, rfl, rfl, rfl⟩
  · split <;> exact sameShape_withMgr (fun _ => rfl) (fun _ => rfl)

theorem Shape.keeps_nextScanKey (shape : c.Shape layout) :
    c.Keeps layout c.nextScanKey.2 := by
  refine ⟨shape.congr (sameShape_nextScanKey c), ?_, ?_, ?_⟩
  all_goals
    unfold nextScanKey
    split
    · rfl
    · split <;> simp [withMgr]

@[simp]
theorem records_nextScanKey (c : Client) : c.nextScanKey.2.records = c.records := by
  unfold nextScanKey
  split
  · rfl
  · split <;> rfl

/-- The next key of the scan is a key of the list. -/
theorem nextScanKey_mem (nonempty : c.hotKeyList ≠ []) : c.nextScanKey.1 ∈ c.hotKeyList := by
  unfold nextScanKey
  cases listEq : c.hotKeyList with
  | nil => exact absurd listEq nonempty
  | cons first rest =>
      simp only
      split
      · rename_i key found
        exact List.mem_of_find?_eq_some found
      · exact List.mem_cons_self

theorem demoteToCache_frame (c : Client) (scanKey fp : Int) (ref : Bytes) :
    (c.demoteToCache scanKey fp ref).config = c.config ∧
      (c.demoteToCache scanKey fp ref).maint.isSome = c.maint.isSome ∧
      (c.demoteToCache scanKey fp ref).hotKeys = c.hotKeys ∧
      (c.demoteToCache scanKey fp ref).records = c.records := by
  simp [demoteToCache]

theorem promoteToCache_frame (c : Client) (key fp : Int) (ref : Bytes) :
    (c.promoteToCache key fp ref).config = c.config ∧
      (c.promoteToCache key fp ref).maint.isSome = c.maint.isSome ∧
      (c.promoteToCache key fp ref).records = c.records := by
  simp [promoteToCache]

theorem Shape.keeps_demoteToCache (shape : c.Shape layout) (isIdle : c.mgr.swapState = .idle)
    {scanKey fp : Int} (scanMem : scanKey ∈ c.physHotKeys)
    (guard : ∃ entry ∈ c.mgr.cache, fp ≤ entry.fp) :
    c.Keeps layout (c.demoteToCache scanKey fp (layout.refs scanKey)) := by
  rcases c.demoteToCache_frame scanKey fp (layout.refs scanKey) with ⟨config, enabled, hotKeys, _⟩
  exact ⟨(shape.demoteToCache isIdle scanMem guard).1, by rw [hotKeys], config, enabled⟩

theorem Shape.keeps_promoteToCache (shape : c.Shape layout) (isIdle : c.mgr.swapState = .idle)
    {key fp : Int} (keyStored : key ∈ layout.stored) (isCold : key ∉ c.hotKeys)
    (guard : c.mgr.shouldPromote fp = true) :
    c.Keeps layout (c.promoteToCache key fp (layout.refs key)) := by
  rcases c.promoteToCache_frame key fp (layout.refs key) with ⟨config, enabled, _⟩
  rcases shape.promoteToCache isIdle keyStored isCold guard with ⟨shape', _, card⟩
  exact ⟨shape', card, config, enabled⟩

/-- The guard of a demotion found by the scan. -/
theorem demoteGuard {fp : Int} (guard : c.mgr.shouldDemoteCache fp = true) :
    ∃ entry ∈ c.mgr.cache, fp ≤ entry.fp := by
  rcases MaintenanceManager.shouldDemoteCache_guard guard with ⟨entry, entryMem, beaten⟩
  exact ⟨entry, entryMem, by simpa [MaintenanceManager.evictOrder] using beaten⟩

theorem Shape.keeps_scanNextKey (shape : c.Shape layout) (isIdle : c.mgr.swapState = .idle)
    (nonempty : c.hotKeyList ≠ []) : c.Keeps layout (c.scanNextKey layout) := by
  have pointed := shape.keeps_nextScanKey
  have same := sameShape_nextScanKey c
  unfold scanNextKey
  dsimp only
  split
  · rename_i guard
    refine pointed.trans (pointed.shape.keeps_demoteToCache (same.swapState.trans isIdle) ?_
      (demoteGuard guard))
    rw [same.physHotKeys, ← shape.mem_list]
    exact nextScanKey_mem nonempty
  · exact pointed

theorem Shape.keeps_doDaScanStep (shape : c.Shape layout) (isIdle : c.mgr.swapState = .idle)
    (fresh : FreshHead c.mgr c.physHotKeys c.daPendingDemotions) :
    c.Keeps layout (c.doDaScanStep layout) := by
  unfold doDaScanStep
  cases queueEq : c.daPendingDemotions with
  | nil => exact shape.keeps
  | cons head rest =>
      rcases head with ⟨key, fp⟩
      rw [queueEq] at fresh
      have popped : c.Keeps layout { c with daPendingDemotions := rest } :=
        ⟨shape.congr ⟨rfl, rfl, rfl, rfl, rfl, rfl, rfl, rfl, rfl⟩, rfl, rfl, rfl⟩
      dsimp only
      split
      · rename_i still
        exact popped.trans (popped.shape.keeps_demoteToCache isIdle still.2 (fresh still.2))
      · exact popped

theorem Shape.keeps_doScanStep (shape : c.Shape layout)
    (fresh : c.scansByItself = true → c.mgr.swapState = .idle →
      FreshHead c.mgr c.physHotKeys c.daPendingDemotions) :
    c.Keeps layout (c.doScanStep layout) := by
  unfold doScanStep
  split
  · exact shape.keeps
  · rename_i notSwapping
    have isIdle := not_not.mp notSwapping
    split
    · rename_i byItself
      exact shape.keeps_doDaScanStep isIdle (fresh byItself isIdle)
    · split
      · exact shape.keeps
      · rename_i nonempty
        exact shape.keeps_scanNextKey isIdle nonempty

theorem Shape.keeps_doHotInsertStep (shape : c.Shape layout) :
    c.Keeps layout c.doHotInsertStep := by
  unfold doHotInsertStep
  split
  · rename_i hotPend
    exact ⟨(shape.finishHotInsert hotPend).1, rfl, rfl, by simp [clearPending, addPhysHot, withMgr]⟩
  · exact shape.keeps

theorem Shape.keeps_doColdInsertStep (shape : c.Shape layout) :
    c.Keeps layout c.doColdInsertStep := by
  unfold doColdInsertStep
  split
  · rename_i coldPend
    exact ⟨(shape.finishColdInsert coldPend).1, rfl, rfl, by simp [clearPending, withMgr]⟩
  · exact shape.keeps

theorem Shape.keeps_staggeredMaintenance (shape : c.Shape layout)
    (fresh : c.scansByItself = true → c.mgr.shouldScan = true → c.mgr.swapState = .idle →
      FreshHead c.mgr c.physHotKeys c.daPendingDemotions) :
    c.Keeps layout (c.staggeredMaintenance layout) := by
  have scanned : c.Keeps layout (if c.mgr.shouldScan then c.doScanStep layout else c) := by
    split
    · rename_i due
      exact shape.keeps_doScanStep (fun byItself => fresh byItself due)
    · exact shape.keeps
  unfold staggeredMaintenance
  dsimp only
  refine scanned.trans ?_
  generalize (if c.mgr.shouldScan then c.doScanStep layout else c) = s at scanned ⊢
  have inserted : s.Keeps layout (if s.mgr.shouldHotInsert then s.doHotInsertStep else s) := by
    split
    · exact scanned.shape.keeps_doHotInsertStep
    · exact scanned.shape.keeps
  refine inserted.trans ?_
  generalize (if s.mgr.shouldHotInsert then s.doHotInsertStep else s) = s' at inserted ⊢
  split
  · exact inserted.shape.keeps_doColdInsertStep
  · exact inserted.shape.keeps

/-! ## Records -/

@[simp]
theorem records_withMgr (f : MaintenanceManager → MaintenanceManager) :
    (c.withMgr f).records = c.records := rfl

@[simp]
theorem records_doScanStep (layout : Layout) (c : Client) :
    (c.doScanStep layout).records = c.records := by
  unfold doScanStep doDaScanStep scanNextKey
  split
  · rfl
  · split
    · split
      · rfl
      · dsimp only
        split <;> rfl
    · split
      · rfl
      · dsimp only
        split <;> simp [demoteToCache]

@[simp]
theorem records_doHotInsertStep (c : Client) : c.doHotInsertStep.records = c.records := by
  unfold doHotInsertStep
  split <;> rfl

@[simp]
theorem records_doColdInsertStep (c : Client) : c.doColdInsertStep.records = c.records := by
  unfold doColdInsertStep
  split <;> rfl

/-- Maintenance changes no record. -/
@[simp]
theorem records_staggeredMaintenance (layout : Layout) (c : Client) :
    (c.staggeredMaintenance layout).records = c.records := by
  have scanned : (if c.mgr.shouldScan then c.doScanStep layout else c).records = c.records := by
    split <;> simp
  unfold staggeredMaintenance
  dsimp only
  generalize (if c.mgr.shouldScan then c.doScanStep layout else c) = s at scanned ⊢
  have inserted : (if s.mgr.shouldHotInsert then s.doHotInsertStep else s).records = s.records := by
    split <;> simp
  generalize (if s.mgr.shouldHotInsert then s.doHotInsertStep else s) = s' at inserted ⊢
  rw [← scanned, ← inserted]
  split <;> simp

@[simp]
theorem records_reactivePromotion (layout : Layout) (c : Client) (key fp : Int) :
    (c.reactivePromotion layout key fp).records = c.records := by
  unfold reactivePromotion
  split <;> rfl

/-- Whatever path serves the key, its record is read, stamped and written back. -/
theorem accessPath_restamps (layout : Layout) (c : Client) (key : Int) (newValue : Option Bytes) :
    (c.accessPath layout key newValue).1.value = (c.restamp layout key newValue).1.1 ∧
      (c.accessPath layout key newValue).2.records = (c.restamp layout key newValue).2.records := by
  unfold accessPath
  split
  · rename_i isPending
    rw [accessPending, ← isPending]
    exact ⟨rfl, rfl⟩
  · split
    · exact ⟨rfl, rfl⟩
    · exact ⟨rfl, records_reactivePromotion _ _ _ _⟩

theorem accessEpoch_restamps (layout : Layout) (c : Client) (key : Int) (newValue : Option Bytes) :
    (c.accessEpoch layout key newValue).1.value =
        ((c.withMgr MaintenanceManager.tick).restamp layout key newValue).1.1 ∧
      (c.accessEpoch layout key newValue).2.records =
        ((c.withMgr MaintenanceManager.tick).restamp layout key newValue).2.records := by
  rcases accessPath_restamps layout (c.withMgr MaintenanceManager.tick) key newValue
    with ⟨value, records⟩
  exact ⟨value, (records_staggeredMaintenance _ _).trans records⟩

/-- The value part of a record. -/
def valueOf (c : Client) (key : Int) : Bytes :=
  if c.maint.isSome then (decodeEpoch (c.records key)).1 else c.records key

theorem valueOf_setRecord {key key' : Int} (raw : Bytes) (keyStored' : key' ∈ layout.stored) :
    (c.setRecord layout key raw).records key' = if key' = key then raw else c.records key' := by
  unfold setRecord
  split
  · by_cases here : key' = key <;> simp [here]
  · rename_i notStored
    have differs : key' ≠ key := fun here => notStored (here ▸ keyStored')
    rw [if_neg differs]

/-- An access overwrites the value of its own key only. -/
theorem valueOf_access (key : Int) (newValue : Option Bytes) {key' : Int}
    (keyStored' : key' ∈ layout.stored)
    (enabled : (c.access layout key newValue).2.maint.isSome = c.maint.isSome) :
    (c.access layout key newValue).2.valueOf key' =
      if key' = key then newValue.getD (c.valueOf key') else c.valueOf key' := by
  by_cases isEpoch : c.maint.isSome
  · have accessEq : c.access layout key newValue = c.accessEpoch layout key newValue :=
      if_pos isEpoch
    rw [accessEq] at enabled ⊢
    simp only [valueOf, enabled, isEpoch, if_true, (c.accessEpoch_restamps layout key newValue).2]
    rw [restamp, valueOf_setRecord _ keyStored']
    by_cases here : key' = key
    · subst here
      simp [record, keyStored']
    · simp [here]
  · have accessEq : c.access layout key newValue = c.accessPlain layout key newValue :=
      if_neg isEpoch
    rw [accessEq] at enabled ⊢
    simp only [valueOf, enabled, isEpoch]
    simp only [accessPlain, valueOf_setRecord _ keyStored']
    by_cases here : key' = key
    · subst here
      simp [record, keyStored']
    · simp [here]

/-- A plain read of a stored key returns its value. -/
theorem value_access {key : Int} (keyStored : key ∈ layout.stored) :
    (c.access layout key none).1.value = c.valueOf key := by
  by_cases isEpoch : c.maint.isSome
  · have accessEq : c.access layout key none = c.accessEpoch layout key none := if_pos isEpoch
    rw [accessEq, (c.accessEpoch_restamps layout key none).1]
    simp [restamp, record, keyStored, valueOf, isEpoch]
  · have accessEq : c.access layout key none = c.accessPlain layout key none := if_neg isEpoch
    rw [accessEq]
    simp [accessPlain, record, keyStored, valueOf, isEpoch]

/-! ## Accesses -/

theorem Shape.keeps_restamp (shape : c.Shape layout) (key : Int) (newValue : Option Bytes) :
    c.Keeps layout (c.restamp layout key newValue).2 :=
  shape.keeps_setRecord key _

theorem Shape.keeps_reactivePromotion (shape : c.Shape layout) (key fp : Int) :
    c.Keeps layout (c.reactivePromotion layout key fp) := by
  unfold reactivePromotion
  split
  · rename_i promoting
    exact shape.keeps_promoteToCache promoting.2.1 promoting.1.2 promoting.1.1 promoting.2.2
  · exact shape.keeps

theorem Shape.keeps_accessPath (shape : c.Shape layout) (key : Int) (newValue : Option Bytes) :
    c.Keeps layout (c.accessPath layout key newValue).2 := by
  unfold accessPath
  split
  · exact shape.keeps_restamp _ newValue
  · have stamped := shape.keeps_restamp key newValue
    split
    · exact stamped.trans (stamped.shape.keeps_withMgr
        (fun maint => MaintenanceManager.cacheKeyList_updateCacheFp maint key _) (fun _ => rfl))
    · exact stamped.trans (stamped.shape.keeps_reactivePromotion key _)

theorem Shape.keeps_tick (shape : c.Shape layout) :
    c.Keeps layout (c.withMgr MaintenanceManager.tick) :=
  shape.keeps_withMgr MaintenanceManager.cacheKeyList_tick (fun _ => rfl)

theorem Shape.keeps_access (shape : c.Shape layout) (notByItself : c.scansByItself = false)
    (key : Int) (newValue : Option Bytes) : c.Keeps layout (c.access layout key newValue).2 := by
  unfold access
  split
  · have served := shape.keeps_tick.trans (shape.keeps_tick.shape.keeps_accessPath key newValue)
    refine served.trans (served.shape.keeps_staggeredMaintenance (fun byItself => ?_))
    rw [scansByItself, served.config, ← scansByItself, notByItself] at byItself
    cases byItself
  · exact shape.keeps_setRecord key _

theorem Shape.keeps_runAccesses (shape : c.Shape layout) (notByItself : c.scansByItself = false)
    (ops : List (Int × Option Bytes)) : c.Keeps layout (c.runAccesses layout ops).2 := by
  induction ops generalizing c with
  | nil => exact shape.keeps
  | cons op rest ih =>
      have served := shape.keeps_access notByItself op.1 op.2
      refine served.trans (ih served.shape ?_)
      rw [scansByItself, served.config]
      exact notByItself

/-! ## The clock -/

/-- The manager's clock and configuration are the same. -/
structure SameClock (c c' : Client) : Prop where
  total : c'.mgr.totalAccesses = c.mgr.totalAccesses
  epoch : c'.mgr.obsEpoch = c.mgr.obsEpoch
  cfg : c'.mgr.cfg = c.mgr.cfg

theorem SameClock.refl (c : Client) : c.SameClock c := ⟨rfl, rfl, rfl⟩

theorem SameClock.trans (first : c.SameClock c') (second : c'.SameClock c'') : c.SameClock c'' :=
  ⟨second.total.trans first.total, second.epoch.trans first.epoch, second.cfg.trans first.cfg⟩

theorem sameClock_withMgr {f : MaintenanceManager → MaintenanceManager}
    (total : ∀ maint, (f maint).totalAccesses = maint.totalAccesses)
    (epoch : ∀ maint, (f maint).obsEpoch = maint.obsEpoch)
    (cfg : ∀ maint, (f maint).cfg = maint.cfg) : c.SameClock (c.withMgr f) := by
  refine ⟨?_, ?_, ?_⟩ <;> rw [mgr_withMgr] <;> split
  · exact total _
  · rfl
  · exact epoch _
  · rfl
  · exact cfg _
  · rfl

theorem sameClock_setRecord (layout : Layout) (c : Client) (key : Int) (raw : Bytes) :
    c.SameClock (c.setRecord layout key raw) := by
  unfold setRecord
  split <;> exact ⟨rfl, rfl, rfl⟩

theorem sameClock_nextScanKey (c : Client) : c.SameClock c.nextScanKey.2 := by
  unfold nextScanKey
  split
  · exact SameClock.refl c
  · split <;> exact sameClock_withMgr (fun _ => rfl) (fun _ => rfl) (fun _ => rfl)

theorem mgr_demoteToCache (c : Client) (scanKey fp : Int) (ref : Bytes) :
    (c.demoteToCache scanKey fp ref).mgr =
      if c.maint.isSome then (c.mgr.cacheAdmit scanKey fp true).2.setSwapState .hotPend
      else c.mgr := by
  cases maintEq : c.maint <;> simp [mgr, demoteToCache, maintEq]

theorem mgr_promoteToCache (c : Client) (key fp : Int) (ref : Bytes) :
    (c.promoteToCache key fp ref).mgr =
      if c.maint.isSome then (c.mgr.cacheAdmit key fp false).2.setSwapState .coldPend
      else c.mgr := by
  cases maintEq : c.maint <;> simp [mgr, promoteToCache, maintEq]

theorem sameClock_demoteToCache (c : Client) (scanKey fp : Int) (ref : Bytes) :
    c.SameClock (c.demoteToCache scanKey fp ref) := by
  refine ⟨?_, ?_, ?_⟩ <;> rw [mgr_demoteToCache] <;> split <;> rfl

theorem sameClock_promoteToCache (c : Client) (key fp : Int) (ref : Bytes) :
    c.SameClock (c.promoteToCache key fp ref) := by
  refine ⟨?_, ?_, ?_⟩ <;> rw [mgr_promoteToCache] <;> split <;> rfl

theorem sameClock_doScanStep (layout : Layout) (c : Client) :
    c.SameClock (c.doScanStep layout) := by
  unfold doScanStep doDaScanStep scanNextKey
  split
  · exact SameClock.refl c
  · split
    · split
      · exact SameClock.refl c
      · dsimp only
        split
        · rename_i key fp rest _ _
          have popped : c.SameClock { c with daPendingDemotions := rest } := ⟨rfl, rfl, rfl⟩
          exact popped.trans (sameClock_demoteToCache _ _ _ _)
        · exact ⟨rfl, rfl, rfl⟩
    · split
      · exact SameClock.refl c
      · dsimp only
        split
        · exact (sameClock_nextScanKey c).trans (sameClock_demoteToCache _ _ _ _)
        · exact sameClock_nextScanKey c

theorem sameClock_clearPending (c : Client) : c.SameClock c.clearPending := by
  have cleared : c.SameClock { c with pendingInsertKey := invalidKey, pendingInsertRef := [] } :=
    ⟨rfl, rfl, rfl⟩
  exact cleared.trans (sameClock_withMgr (fun _ => rfl) (fun _ => rfl) (fun _ => rfl))

theorem sameClock_doHotInsertStep (c : Client) : c.SameClock c.doHotInsertStep := by
  unfold doHotInsertStep
  split
  · have added : c.SameClock (c.addPhysHot c.pendingInsertKey) := ⟨rfl, rfl, rfl⟩
    exact added.trans (sameClock_clearPending _)
  · exact SameClock.refl c

theorem sameClock_doColdInsertStep (c : Client) : c.SameClock c.doColdInsertStep := by
  unfold doColdInsertStep
  split
  · exact sameClock_clearPending c
  · exact SameClock.refl c

theorem sameClock_accessPath (layout : Layout) (c : Client) (key : Int)
    (newValue : Option Bytes) : c.SameClock (c.accessPath layout key newValue).2 := by
  have stamped : ∀ key, c.SameClock (c.restamp layout key newValue).2 :=
    fun key => sameClock_setRecord layout c key _
  unfold accessPath
  split
  · exact stamped _
  · split
    · exact (stamped key).trans (sameClock_withMgr (fun _ => rfl) (fun _ => rfl) (fun _ => rfl))
    · refine (stamped key).trans ?_
      unfold accessSequential reactivePromotion
      dsimp only
      split
      · exact sameClock_promoteToCache _ _ _ _
      · exact SameClock.refl _

theorem sameClock_staggeredMaintenance (layout : Layout) (c : Client) :
    c.SameClock (c.staggeredMaintenance layout) := by
  have scanned : c.SameClock (if c.mgr.shouldScan then c.doScanStep layout else c) := by
    split
    · exact sameClock_doScanStep layout c
    · exact SameClock.refl c
  unfold staggeredMaintenance
  dsimp only
  refine scanned.trans ?_
  generalize (if c.mgr.shouldScan then c.doScanStep layout else c) = s
  have inserted : s.SameClock (if s.mgr.shouldHotInsert then s.doHotInsertStep else s) := by
    split
    · exact sameClock_doHotInsertStep s
    · exact SameClock.refl s
  refine inserted.trans ?_
  generalize (if s.mgr.shouldHotInsert then s.doHotInsertStep else s) = s'
  split
  · exact sameClock_doColdInsertStep s'
  · exact SameClock.refl s'

/-- An access ticks the clock once. -/
theorem sameClock_accessEpoch (layout : Layout) (c : Client) (key : Int)
    (newValue : Option Bytes) :
    (c.withMgr MaintenanceManager.tick).SameClock (c.accessEpoch layout key newValue).2 :=
  (sameClock_accessPath layout _ key newValue).trans (sameClock_staggeredMaintenance layout _)

/-- The manager's clock after some accesses. -/
structure Clock (c : Client) (window : Int) (count : Nat) : Prop where
  cfg : c.mgr.cfg.observationWindow = window
  total : c.mgr.totalAccesses = count
  epoch : c.mgr.obsEpoch = (count : Int) / window

variable {window : Int} {count : Nat}

theorem Clock.congr (clock : c.Clock window count) (same : c.SameClock c') :
    c'.Clock window count :=
  ⟨by rw [same.cfg]; exact clock.cfg, same.total.trans clock.total, same.epoch.trans clock.epoch⟩

theorem Clock.tick (clock : c.Clock window count) (enabled : c.maint.isSome) :
    (c.withMgr MaintenanceManager.tick).Clock window (count + 1) := by
  have ticked : (c.withMgr MaintenanceManager.tick).mgr = c.mgr.tick := by
    rw [mgr_withMgr, if_pos enabled]
  refine ⟨?_, ?_, ?_⟩
  · rw [ticked]
    exact clock.cfg
  · rw [ticked]
    change c.mgr.totalAccesses + 1 = _
    rw [clock.total, Nat.cast_succ]
  · rw [ticked]
    change (c.mgr.totalAccesses + 1).tdiv c.mgr.cfg.observationWindow = _
    rw [clock.total, clock.cfg, Int.tdiv_eq_ediv_of_nonneg (by omega), Nat.cast_succ]

theorem Clock.accessEpoch (clock : c.Clock window count) (enabled : c.maint.isSome)
    (layout : Layout) (key : Int) (newValue : Option Bytes) :
    (c.accessEpoch layout key newValue).2.Clock window (count + 1) :=
  (clock.tick enabled).congr (c.sameClock_accessEpoch layout key newValue)

end Client

end TieredOmap
