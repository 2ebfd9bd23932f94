import TieredOMap.Tiered.EpochCounts

/-!
# Staggered maintenance

The three maintenance steps fire at three different phases of the swap interval.
A swap is only started once the first epoch is over, from then on every phase
comes up within one interval, and a pending entry blocks other swaps until the
step of its direction has inserted it.
-/

namespace TieredOmap

/-- The maintenance steps of an access. -/
inductive Trigger where
  | scan
  | hotInsert
  | coldInsert
deriving DecidableEq, Repr

/-- The first number of steps, at least one, after which a counter is at a residue. -/
def stepsUntil (interval counter residue : Int) : Int :=
  if (residue - counter) % interval = 0 then interval else (residue - counter) % interval

theorem stepsUntil_bounds {interval : Int} (positive : 0 < interval) (counter residue : Int) :
    1 ≤ stepsUntil interval counter residue ∧ stepsUntil interval counter residue ≤ interval := by
  have nonneg := Int.emod_nonneg (residue - counter) positive.ne'
  have below := Int.emod_lt_of_pos (residue - counter) positive
  unfold stepsUntil
  split <;> omega

/-- Within that many steps the counter comes to the residue at the last one only. -/
theorem emod_eq_iff_stepsUntil {interval counter residue : Int} (residueNonneg : 0 ≤ residue)
    (residueLt : residue < interval) {steps : Int} (started : 1 ≤ steps)
    (within : steps ≤ stepsUntil interval counter residue) :
    (counter + steps) % interval = residue ↔ steps = stepsUntil interval counter residue := by
  have positive : 0 < interval := by omega
  have bounds := stepsUntil_bounds positive counter residue
  have shifted : (counter + steps) % interval = residue ↔
      steps % interval = (residue - counter) % interval := by
    rw [← Int.emod_eq_of_lt residueNonneg residueLt, Int.emod_eq_emod_iff_emod_sub_eq_zero,
      Int.emod_eq_emod_iff_emod_sub_eq_zero, Int.emod_eq_of_lt residueNonneg residueLt]
    have same : counter + steps - residue = steps - (residue - counter) := by omega
    rw [same]
  rw [shifted]
  have gapLt := Int.emod_lt_of_pos (residue - counter) positive
  have gapNonneg := Int.emod_nonneg (residue - counter) positive.ne'
  unfold stepsUntil at within ⊢
  split
  · rename_i atResidue
    rw [if_pos atResidue] at within
    rw [atResidue]
    rcases within.lt_or_eq with before | last
    · rw [Int.emod_eq_of_lt (by omega) before]
      omega
    · simp [last]
  · rename_i notAtResidue
    rw [if_neg notAtResidue] at within
    rw [Int.emod_eq_of_lt (by omega) (by omega)]

namespace MaintenanceManager

/-- The phase at which the entry pending in a direction is inserted. -/
def duePhase (maint : MaintenanceManager) : SwapState → Int
  | .idle => 0
  | .hotPend => maint.hotInsertPhase
  | .coldPend => maint.coldInsertPhase

/-- The due phases depend on the configuration only. -/
theorem duePhase_congr {maint maint' : MaintenanceManager} (cfg : maint'.cfg = maint.cfg) :
    maint'.duePhase = maint.duePhase := by
  funext swapState
  cases swapState <;> simp only [duePhase, hotInsertPhase, coldInsertPhase, cfg]

variable {maint : MaintenanceManager}

/-- The scan comes first, then the hot insert, then the cold one. -/
theorem phases_ordered (atLeastThree : 3 ≤ maint.cfg.swapInterval) :
    0 < maint.hotInsertPhase ∧ maint.hotInsertPhase < maint.coldInsertPhase ∧
      maint.coldInsertPhase < maint.cfg.swapInterval := by
  unfold hotInsertPhase coldInsertPhase
  rw [Int.tdiv_eq_ediv_of_nonneg (by omega), Int.tdiv_eq_ediv_of_nonneg (by omega)]
  omega

theorem duePhase_range (atLeastThree : 3 ≤ maint.cfg.swapInterval) (swapState : SwapState) :
    0 ≤ maint.duePhase swapState ∧ maint.duePhase swapState < maint.cfg.swapInterval := by
  have ordered := phases_ordered atLeastThree
  cases swapState <;> simp only [duePhase] <;> omega

/-- The steps whose phase has come. -/
def triggers (maint : MaintenanceManager) : List Trigger :=
  (if maint.shouldScan then [.scan] else []) ++
    (if maint.shouldHotInsert then [.hotInsert] else []) ++
    (if maint.shouldColdInsert then [.coldInsert] else [])

/-- No two phases coincide. -/
theorem length_triggers_le (atLeastThree : 3 ≤ maint.cfg.swapInterval) :
    maint.triggers.length ≤ 1 := by
  have ordered := phases_ordered atLeastThree
  unfold triggers shouldScan shouldHotInsert shouldColdInsert
  by_cases started : maint.canMaintain
  · simp only [started, Bool.true_and, beq_iff_eq]
    by_cases atScan : maint.phase = 0
    · have notHot : maint.phase ≠ maint.hotInsertPhase := by omega
      have notCold : maint.phase ≠ maint.coldInsertPhase := by omega
      simp [atScan, atScan ▸ notHot, atScan ▸ notCold]
    · by_cases atHot : maint.phase = maint.hotInsertPhase
      · have notCold : maint.hotInsertPhase ≠ maint.coldInsertPhase := by omega
        have notScan : maint.hotInsertPhase ≠ 0 := by omega
        simp [atHot, notCold, notScan]
      · simp only [atScan, atHot, if_false, List.nil_append]
        split <;> simp
  · simp [started]

end MaintenanceManager

namespace Client

variable {layout : Layout} {c c' : Client}

/-- Which steps are due depends on the clock only. -/
theorem SameClock.triggers (same : c.SameClock c') :
    c'.mgr.shouldScan = c.mgr.shouldScan ∧ c'.mgr.shouldHotInsert = c.mgr.shouldHotInsert ∧
      c'.mgr.shouldColdInsert = c.mgr.shouldColdInsert := by
  simp only [MaintenanceManager.shouldScan, MaintenanceManager.shouldHotInsert,
    MaintenanceManager.shouldColdInsert, MaintenanceManager.canMaintain, MaintenanceManager.phase,
    MaintenanceManager.hotInsertPhase, MaintenanceManager.coldInsertPhase, same.total, same.epoch,
    same.cfg, and_self]

/-! ## Waiting -/

/-- While a swap is under way, serving a key starts no other one. -/
theorem sameShape_accessPath (swapping : c.mgr.swapState ≠ .idle) (key : Int)
    (newValue : Option Bytes) : c.SameShape (c.accessPath layout key newValue).2 := by
  have stamped : ∀ key, c.SameShape (c.restamp layout key newValue).2 :=
    fun key => sameShape_setRecord layout c key _
  unfold accessPath
  split
  · exact stamped _
  · split
    · exact (stamped key).trans (sameShape_withMgr
        (fun maint => MaintenanceManager.cacheKeyList_updateCacheFp maint key _) (fun _ => rfl))
    · unfold accessSequential reactivePromotion
      dsimp only
      rw [if_neg (fun promoting => swapping ((stamped key).swapState ▸ promoting.2.1))]
      exact stamped key

/-- The map an entry pending in a direction is on its way to. -/
def towards : SwapState → Tier
  | .coldPend => .cold
  | _ => .hot

theorem swapState_clearPending (enabled : c.maint.isSome) :
    c.clearPending.mgr.swapState = .idle := by
  unfold clearPending
  rw [mgr_withMgr, if_pos enabled]
  rfl

/-- Until its step is due, the pending entry stays; when the step is due, it is inserted. -/
theorem Shape.staggeredMaintenance_pending (shape : c.Shape layout)
    (swapping : c.mgr.swapState ≠ .idle) (started : c.mgr.canMaintain = true)
    (atLeastThree : 3 ≤ c.mgr.cfg.swapInterval) :
    if c.mgr.phase = c.mgr.duePhase c.mgr.swapState then
      (c.staggeredMaintenance layout).mgr.swapState = .idle ∧
        c.pendingInsertKey ∈
          (c.staggeredMaintenance layout).tierKeys layout (towards c.mgr.swapState)
    else c.staggeredMaintenance layout = c := by
  have ordered := MaintenanceManager.phases_ordered atLeastThree
  have noScan : c.doScanStep layout = c := if_pos swapping
  have enabled : c.maint.isSome := congrArg Option.isSome (maint_of_mgr (Or.inr swapping))
  have hotDue : c.mgr.shouldHotInsert = true ↔ c.mgr.phase = c.mgr.hotInsertPhase := by
    simp [MaintenanceManager.shouldHotInsert, started]
  have coldDue : c.mgr.shouldColdInsert = true ↔ c.mgr.phase = c.mgr.coldInsertPhase := by
    simp [MaintenanceManager.shouldColdInsert, started]
  unfold Client.staggeredMaintenance
  dsimp only
  rw [noScan, ite_self]
  cases swapEq : c.mgr.swapState with
  | idle => exact absurd swapEq swapping
  | hotPend =>
      have noCold : c.doColdInsertStep = c := if_neg (by simp [swapEq])
      rw [show c.mgr.duePhase .hotPend = c.mgr.hotInsertPhase from rfl]
      by_cases due : c.mgr.phase = c.mgr.hotInsertPhase
      · have inserted : c.doHotInsertStep = (c.addPhysHot c.pendingInsertKey).clearPending :=
          if_pos swapEq
        have isIdle := @swapState_clearPending (c.addPhysHot c.pendingInsertKey) enabled
        rw [if_pos (hotDue.mpr due), inserted, if_pos due]
        have noCold' : (c.addPhysHot c.pendingInsertKey).clearPending.doColdInsertStep =
            (c.addPhysHot c.pendingInsertKey).clearPending := if_neg (by simp [isIdle])
        rw [noCold', ite_self]
        exact ⟨isIdle, Finset.mem_insert_self _ _⟩
      · rw [if_neg (fun fires => due (hotDue.mp fires)), noCold, ite_self, if_neg due]
  | coldPend =>
      have noHot : c.doHotInsertStep = c := if_neg (by simp [swapEq])
      rw [show c.mgr.duePhase .coldPend = c.mgr.coldInsertPhase from rfl, noHot, ite_self]
      by_cases due : c.mgr.phase = c.mgr.coldInsertPhase
      · have inserted : c.doColdInsertStep = c.clearPending := if_pos swapEq
        rw [if_pos (coldDue.mpr due), inserted, if_pos due]
        refine ⟨swapState_clearPending enabled, ?_⟩
        rw [show towards .coldPend = .cold from rfl, (shape.finishColdInsert swapEq).2]
        exact Finset.mem_insert_self _ _
      · rw [if_neg (fun fires => due (coldDue.mp fires)), if_neg due]

/-- The same entry is pending in the same direction. -/
structure SamePending (c c' : Client) : Prop where
  swapState : c'.mgr.swapState = c.mgr.swapState
  key : c'.pendingInsertKey = c.pendingInsertKey
  ref : c'.pendingInsertRef = c.pendingInsertRef

/-- The entry pending before is in its map, and no swap is under way. -/
structure Delivered (layout : Layout) (c c' : Client) : Prop where
  isIdle : c'.mgr.swapState = .idle
  inMap : c.pendingInsertKey ∈ c'.tierKeys layout (towards c.mgr.swapState)

theorem SameShape.samePending (same : c.SameShape c') : c.SamePending c' :=
  ⟨same.swapState, same.pendingKey, same.pendingRef⟩

variable {window : Int} {count : Nat}

/-- One access with an entry pending: it is inserted exactly when its phase has come. -/
theorem Shape.accessEpoch_pending (shape : c.Shape layout) (clock : c.Clock window count)
    (positive : 0 < window) (swapping : c.mgr.swapState ≠ .idle) (late : 1 ≤ c.mgr.obsEpoch)
    (atLeastThree : 3 ≤ c.mgr.cfg.swapInterval) (key : Int) (newValue : Option Bytes) :
    if ((count : Int) + 1) % c.mgr.cfg.swapInterval = c.mgr.duePhase c.mgr.swapState then
      Delivered layout c (c.accessEpoch layout key newValue).2
    else c.SamePending (c.accessEpoch layout key newValue).2 := by
  have enabled : c.maint.isSome := congrArg Option.isSome (maint_of_mgr (Or.inr swapping))
  have ticked : c.SameShape (c.withMgr MaintenanceManager.tick) :=
    sameShape_withMgr MaintenanceManager.cacheKeyList_tick (fun _ => rfl)
  have tickedMgr : (c.withMgr MaintenanceManager.tick).mgr = c.mgr.tick := by
    rw [mgr_withMgr, if_pos enabled]
  set served := ((c.withMgr MaintenanceManager.tick).accessPath layout key newValue).2
    with servedDef
  have same : c.SameShape served := by
    refine ticked.trans (sameShape_accessPath ?_ key newValue)
    rw [ticked.swapState]
    exact swapping
  have ticking : (c.withMgr MaintenanceManager.tick).SameClock served :=
    sameClock_accessPath layout _ key newValue
  have servedClock : served.Clock window (count + 1) := (clock.tick enabled).congr ticking
  have cfgEq : served.mgr.cfg = c.mgr.cfg := by
    rw [ticking.cfg, tickedMgr]
    rfl
  have grows : (count : Int) / window ≤ ((count + 1 : Nat) : Int) / window :=
    Int.ediv_le_ediv positive (by omega)
  have started : served.mgr.canMaintain = true := by
    have epoch := clock.epoch
    simp only [MaintenanceManager.canMaintain, servedClock.total, servedClock.epoch,
      Bool.and_eq_true, decide_eq_true_eq]
    omega
  have phaseEq : served.mgr.phase = ((count : Int) + 1) % c.mgr.cfg.swapInterval := by
    rw [MaintenanceManager.phase, servedClock.total, cfgEq,
      Int.tmod_eq_emod_of_nonneg (Int.natCast_nonneg _), Nat.cast_succ]
  have dueEq : served.mgr.duePhase served.mgr.swapState = c.mgr.duePhase c.mgr.swapState := by
    rw [same.swapState, MaintenanceManager.duePhase_congr cfgEq]
  have maintained := (shape.congr same).staggeredMaintenance_pending
    (by rw [same.swapState]; exact swapping) started (by rw [cfgEq]; exact atLeastThree)
  rw [phaseEq, dueEq] at maintained
  change if _ then Delivered layout c (served.staggeredMaintenance layout)
    else c.SamePending (served.staggeredMaintenance layout)
  split
  · rename_i due
    rw [if_pos due, same.swapState, same.pendingKey] at maintained
    exact ⟨maintained.1, maintained.2⟩
  · rename_i notDue
    rw [if_neg notDue] at maintained
    rw [maintained]
    exact same.samePending

theorem SamePending.trans {c'' : Client} (first : c.SamePending c') (second : c'.SamePending c'') :
    c.SamePending c'' :=
  ⟨second.swapState.trans first.swapState, second.key.trans first.key, second.ref.trans first.ref⟩

/-- Accesses up to the one whose phase is due. -/
theorem Shape.runAccesses_pending (shape : c.Shape layout) (notByItself : c.scansByItself = false)
    (clock : c.Clock window count) (positive : 0 < window) (swapping : c.mgr.swapState ≠ .idle)
    (late : 1 ≤ c.mgr.obsEpoch) (atLeastThree : 3 ≤ c.mgr.cfg.swapInterval) {wait : Nat}
    (dueAt : ∀ steps : Nat, 1 ≤ steps → steps ≤ wait →
      (((count : Int) + steps) % c.mgr.cfg.swapInterval = c.mgr.duePhase c.mgr.swapState ↔
        steps = wait))
    (ops : List (Int × Option Bytes)) (started : 1 ≤ wait) (within : ops.length ≤ wait) :
    if ops.length < wait then c.SamePending (c.runAccesses layout ops).2
    else Delivered layout c (c.runAccesses layout ops).2 := by
  induction ops generalizing c count wait with
  | nil =>
      have empty : ([] : List (Int × Option Bytes)).length < wait :=
        Nat.lt_of_lt_of_le Nat.zero_lt_one started
      rw [if_pos empty]
      exact ⟨rfl, rfl, rfl⟩
  | cons op rest ih =>
      have enabled : c.maint.isSome := congrArg Option.isSome (maint_of_mgr (Or.inr swapping))
      have accessEq : c.access layout op.1 op.2 = c.accessEpoch layout op.1 op.2 := if_pos enabled
      have step := shape.accessEpoch_pending clock positive swapping late atLeastThree op.1 op.2
      have runEq : (c.runAccesses layout (op :: rest)).2 =
          ((c.accessEpoch layout op.1 op.2).2.runAccesses layout rest).2 := by
        rw [← accessEq]
        rfl
      have first := dueAt 1 (le_refl 1) started
      rw [Nat.cast_one] at first
      rw [runEq]
      rw [List.length_cons] at within
      by_cases last : 1 = wait
      · have noMore : rest = [] := List.length_eq_zero_iff.mp (by omega)
        rw [if_pos (first.mpr last)] at step
        subst noMore
        rw [if_neg (by simp [← last])]
        exact step
      · rw [if_neg (fun due => last (first.mp due))] at step
        have keeps := shape.keeps_access notByItself op.1 op.2
        rw [accessEq] at keeps
        have clock' := clock.accessEpoch enabled layout op.1 op.2
        have cfgEq : (c.accessEpoch layout op.1 op.2).2.mgr.cfg = c.mgr.cfg := by
          rw [(c.sameClock_accessEpoch layout op.1 op.2).cfg, mgr_withMgr, if_pos enabled]
          rfl
        have late' : 1 ≤ (c.accessEpoch layout op.1 op.2).2.mgr.obsEpoch := by
          have grows : (count : Int) / window ≤ ((count + 1 : Nat) : Int) / window :=
            Int.ediv_le_ediv positive (by omega)
          rw [clock'.epoch]
          rw [clock.epoch] at late
          omega
        have dueEq : (c.accessEpoch layout op.1 op.2).2.mgr.duePhase
            (c.accessEpoch layout op.1 op.2).2.mgr.swapState =
              c.mgr.duePhase c.mgr.swapState := by
          rw [step.swapState, MaintenanceManager.duePhase_congr cfgEq]
        have dueAt' : ∀ steps : Nat, 1 ≤ steps → steps ≤ wait - 1 →
            ((((count + 1 : Nat) : Int) + steps) %
                (c.accessEpoch layout op.1 op.2).2.mgr.cfg.swapInterval =
              (c.accessEpoch layout op.1 op.2).2.mgr.duePhase
                (c.accessEpoch layout op.1 op.2).2.mgr.swapState ↔ steps = wait - 1) := by
          intro steps stepsPos stepsLe
          have shifted := dueAt (steps + 1) (by omega) (by omega)
          have sumEq : (count : Int) + ((steps + 1 : Nat) : Int) =
              ((count + 1 : Nat) : Int) + steps := by
            push_cast
            omega
          rw [cfgEq, dueEq, ← sumEq, shifted]
          omega
        have later := ih keeps.shape (by rw [scansByItself, keeps.config]; exact notByItself)
          clock' (by rw [step.swapState]; exact swapping) late'
          (by rw [cfgEq]; exact atLeastThree) dueAt' (by omega) (by omega)
        rw [List.length_cons]
        split
        · rename_i before
          rw [if_pos (by omega)] at later
          exact step.trans later
        · rename_i notBefore
          rw [if_neg (by omega)] at later
          refine ⟨later.isIdle, ?_⟩
          rw [← step.key, ← step.swapState]
          exact later.inMap

/-! ## No swap in the first epoch -/

/-- Before the first epoch is over every frequency is zero and nothing is pending. -/
structure Gated (layout : Layout) (c : Client) : Prop where
  quiet : c.mgr.obsEpoch = 0 → c.mgr.swapState = .idle
  early : c.mgr.obsEpoch = 0 → ∀ key ∈ layout.stored,
    (c.storedMeta key).ep = 0 ∧ (c.storedMeta key).fp = 0

theorem staggeredMaintenance_of_not_started (notStarted : c.mgr.canMaintain = false) :
    c.staggeredMaintenance layout = c := by
  simp [Client.staggeredMaintenance, MaintenanceManager.shouldScan,
    MaintenanceManager.shouldHotInsert, MaintenanceManager.shouldColdInsert, notStarted]

/-- With all frequencies zero no key is promoted. -/
theorem swapState_accessPath_of_zero (shape : c.Shape layout) (exact : c.CacheExact)
    (zero : ∀ key ∈ layout.stored, (c.storedMeta key).fp = 0)
    {key : Int} {newValue : Option Bytes}
    (stays : key ∈ layout.stored → ((c.restamp layout key newValue).2.storedMeta key).fp = 0) :
    (c.accessPath layout key newValue).2.mgr.swapState = c.mgr.swapState := by
  have stamped : ∀ key, c.SameShape (c.restamp layout key newValue).2 :=
    fun key => sameShape_setRecord layout c key _
  unfold accessPath
  split
  · exact (stamped _).swapState
  · split
    · exact ((stamped key).trans (sameShape_withMgr
        (fun maint => MaintenanceManager.cacheKeyList_updateCacheFp maint key _)
        (fun _ => rfl))).swapState
    · rw [← (stamped key).swapState]
      unfold accessSequential reactivePromotion
      dsimp only
      split
      · rename_i promoting
        have promote := promoting.2.2
        rw [mgr_restamp, fp_restamp newValue promoting.1.2, stays promoting.1.2] at promote
        rcases MaintenanceManager.shouldPromote_beats promote with ⟨entry, entryMem, beaten⟩
        have cached : entry.key ∈ c.cacheKeys :=
          (shape.mem_cache _).mp (List.mem_map_of_mem entryMem)
        rw [exact entry entryMem, zero _ (shape.hotKeys_sub (shape.cache_sub cached))] at beaten
        exact absurd beaten (lt_irrefl 0)
      · rfl

theorem Gated.accessEpoch (gated : c.Gated layout) (shape : c.Shape layout) (exact : c.CacheExact)
    (clock : c.Clock window count) (positive : 0 < window) (enabled : c.maint.isSome) (key : Int)
    (newValue : Option Bytes) : (c.accessEpoch layout key newValue).2.Gated layout := by
  have tickedMgr : (c.withMgr MaintenanceManager.tick).mgr = c.mgr.tick := by
    rw [mgr_withMgr, if_pos enabled]
  have ticked := clock.tick enabled
  have after := clock.accessEpoch enabled layout key newValue
  have stillEarly : (c.accessEpoch layout key newValue).2.mgr.obsEpoch = 0 →
      c.mgr.obsEpoch = 0 := by
    have grows : (count : Int) / window ≤ ((count + 1 : Nat) : Int) / window :=
      Int.ediv_le_ediv positive (by omega)
    have nonneg : 0 ≤ (count : Int) / window :=
      Int.ediv_nonneg (Int.natCast_nonneg _) positive.le
    rw [after.epoch, clock.epoch]
    omega
  have metas : (c.accessEpoch layout key newValue).2.mgr.obsEpoch = 0 →
      ∀ key' ∈ layout.stored,
        (((c.withMgr MaintenanceManager.tick).restamp layout key newValue).2.storedMeta key').ep =
          0 ∧
        (((c.withMgr MaintenanceManager.tick).restamp layout key newValue).2.storedMeta key').fp =
          0 := by
    intro isEarly key' keyStored'
    have before := gated.early (stillEarly isEarly)
    rw [after.epoch, ← ticked.epoch, tickedMgr] at isEarly
    rw [storedMeta_restamp newValue keyStored', tickedMgr]
    change (if key' = key then (c.mgr.tick.updateMeta (c.storedMeta key)).wrap
      else c.storedMeta key').ep = 0 ∧ (if key' = key then
        (c.mgr.tick.updateMeta (c.storedMeta key)).wrap else c.storedMeta key').fp = 0
    split
    · rename_i here
      rcases before key (here ▸ keyStored') with ⟨ep, fp⟩
      have sameEpoch : ¬(c.storedMeta key).ep < c.mgr.tick.obsEpoch := by omega
      unfold MaintenanceManager.updateMeta
      rw [if_neg sameEpoch]
      simp [EpochMeta.wrap, ep, fp]
    · exact before key' keyStored'
  refine ⟨?_, ?_⟩
  · intro isEarly
    set served := ((c.withMgr MaintenanceManager.tick).accessPath layout key newValue).2
      with servedDef
    have servedEpoch : served.mgr.obsEpoch = 0 := by
      rw [← isEarly, (sameClock_accessPath layout _ key newValue).epoch,
        (c.sameClock_accessEpoch layout key newValue).epoch]
    have noSteps : served.staggeredMaintenance layout = served :=
      staggeredMaintenance_of_not_started (by
        simp [MaintenanceManager.canMaintain, servedEpoch])
    change (served.staggeredMaintenance layout).mgr.swapState = .idle
    rw [noSteps, servedDef, swapState_accessPath_of_zero shape.keeps_tick.shape
      (exact.withMgr (fun _ => rfl))
      (fun key' keyStored' => (gated.early (stillEarly isEarly) key' keyStored').2)
      (fun keyStored => (metas isEarly key keyStored).2), tickedMgr]
    exact gated.quiet (stillEarly isEarly)
  · intro isEarly key' keyStored'
    rw [storedMeta, (c.accessEpoch_restamps layout key newValue).2]
    exact metas isEarly key' keyStored'

/-- The gate, the clock and the cache along a run. -/
theorem Gated.runAccesses (gated : c.Gated layout) (shape : c.Shape layout) (exact : c.CacheExact)
    (clock : c.Clock window count) (positive : 0 < window) (enabled : c.maint.isSome)
    (notByItself : c.scansByItself = false) (ops : List (Int × Option Bytes)) :
    (c.runAccesses layout ops).2.Gated layout ∧
      (c.runAccesses layout ops).2.Clock window (count + ops.length) ∧
      (c.runAccesses layout ops).2.mgr.cfg = c.mgr.cfg := by
  induction ops generalizing c count with
  | nil => exact ⟨gated, clock, rfl⟩
  | cons op rest ih =>
      have keeps := shape.keeps_access notByItself op.1 op.2
      have accessEq : c.access layout op.1 op.2 = c.accessEpoch layout op.1 op.2 := if_pos enabled
      rw [accessEq] at keeps
      have cfgEq : (c.accessEpoch layout op.1 op.2).2.mgr.cfg = c.mgr.cfg := by
        rw [(c.sameClock_accessEpoch layout op.1 op.2).cfg, mgr_withMgr, if_pos enabled]
        rfl
      have later := ih (gated.accessEpoch shape exact clock positive enabled op.1 op.2) keeps.shape
        (exact.accessEpoch shape notByItself op.1 op.2)
        (clock.accessEpoch enabled layout op.1 op.2) (keeps.enabled.trans enabled)
        (by rw [scansByItself, keeps.config]; exact notByItself)
      have runEq : (c.runAccesses layout (op :: rest)).2 =
          ((c.accessEpoch layout op.1 op.2).2.runAccesses layout rest).2 := by
        rw [← accessEq]
        rfl
      rw [runEq, List.length_cons]
      refine ⟨later.1, ?_, later.2.2.trans cfgEq⟩
      rw [show count + (rest.length + 1) = count + 1 + rest.length from by omega]
      exact later.2.1

theorem gated_start (data : Dataset) (config : TieredOMapConfig)
    (enabled : config.maintenance.enabled = true) :
    (start data config).Gated (data.layout config) ∧
      (start data config).mgr.cfg = config.maintenance := by
  have mgrEq := mgr_start data config enabled
  refine ⟨⟨?_, ?_⟩, ?_⟩
  · intro _
    rw [mgrEq]
    rfl
  · intro _ key keyStored
    rw [(counts_start data config enabled).1.stored key keyStored]
    exact ⟨rfl, rfl⟩
  · rw [mgrEq]
    rfl

end Client

/-! ## The access with its triggers -/

namespace TieredOMap

variable {Ω : Tier → Type} [∀ tier, OmapInterface (Ω tier)] [Cipher]

/-- `staggeredMaintenance`, with the steps that it takes. -/
def triggeredMaintenance (s : TieredOMap Ω) (done : Piggybacked) :
    Rand (List Trigger × TieredOMap Ω) := do
  let scan := !done.scan && s.mgr.shouldScan
  let s ← doWhen scan s.doScanStep s
  let hotInsert := !done.hotInsert && !done.hotDummy && s.mgr.shouldHotInsert
  let s ← doWhen hotInsert s.doHotInsertStep s
  let coldInsert := !done.coldInsert && !done.coldDummy && s.mgr.shouldColdInsert
  let s ← doWhen coldInsert s.doColdInsertStep s
  return ((if scan then [.scan] else []) ++ (if hotInsert then [.hotInsert] else []) ++
    (if coldInsert then [.coldInsert] else []), s)

/-- `accessEpoch`, with the maintenance steps that it takes. -/
def triggeredEpoch (fuel : Nat) (s : TieredOMap Ω) (key : Int) (newValue : Option Bytes) :
    Rand (List Trigger × AccessResult × TieredOMap Ω) := do
  let (result, done, s) ←
    accessPath fuel (s.withMgr MaintenanceManager.tick) key newValue
  let s ← s.daPiggybackScan
  let (steps, s) ← s.triggeredMaintenance done
  return (steps, result, s)

/-- Recording the steps changes nothing. -/
theorem accessEpoch_eq_triggered (fuel : Nat) (s : TieredOMap Ω) (key : Int)
    (newValue : Option Bytes) :
    s.accessEpoch fuel key newValue = (do
      let (_, result, s) ← s.triggeredEpoch fuel key newValue
      return (result, s)) := by
  simp only [accessEpoch, triggeredEpoch, staggeredMaintenance, triggeredMaintenance, bind_assoc,
    pure_bind]

variable [∀ tier, LawfulOmap (Ω tier)] {layout : Layout} {c : Client} {s : TieredOMap Ω}

/-- The steps taken are those whose phase has come. -/
theorem Serves.ends_triggeredMaintenance (serves : s.Serves layout c)
    (notByItself : c.scansByItself = false) :
    Ends (s.triggeredMaintenance {}) (fun outcome => outcome.1 = c.mgr.triggers) := by
  unfold triggeredMaintenance
  simp only [Bool.not_false, Bool.true_and]
  refine Prog.ends_bind (serves.ends_scanIfDue (fun byItself => ?_)) ?_
  · rw [notByItself] at byItself
    cases byItself
  have scannedClock : c.SameClock (if c.mgr.shouldScan then c.doScanStep layout else c) := by
    split
    · exact c.sameClock_doScanStep layout
    · exact Client.SameClock.refl c
  generalize (if c.mgr.shouldScan then c.doScanStep layout else c) = scannedClient
    at scannedClock ⊢
  intro scanned scannedServes
  refine Prog.ends_bind scannedServes.ends_hotInsertIfDue ?_
  have insertedClock : scannedClient.SameClock
      (if scannedClient.mgr.shouldHotInsert then scannedClient.doHotInsertStep
        else scannedClient) := by
    split
    · exact scannedClient.sameClock_doHotInsertStep
    · exact Client.SameClock.refl _
  generalize (if scannedClient.mgr.shouldHotInsert then scannedClient.doHotInsertStep
    else scannedClient) = insertedClient at insertedClock ⊢
  intro inserted insertedServes
  refine Prog.ends_bind insertedServes.ends_coldInsertIfDue ?_
  intro final _
  refine Prog.ends_pure ?_
  rw [serves.mgr_eq, scannedServes.mgr_eq, insertedServes.mgr_eq, scannedClock.triggers.2.1,
    (scannedClock.trans insertedClock).triggers.2.2]
  rfl

theorem Serves.ends_triggeredEpoch (serves : s.Serves layout c)
    (notByItself : c.scansByItself = false) (fuel : Nat) (key : Int) (newValue : Option Bytes) :
    Ends (s.triggeredEpoch fuel key newValue) (fun outcome =>
      outcome.1 = (c.withMgr MaintenanceManager.tick).mgr.triggers) := by
  have keeps := serves.shape.keeps_tick.trans
    (serves.shape.keeps_tick.shape.keeps_accessPath key newValue)
  refine Prog.ends_bind (serves.tick.ends_accessPath fuel key newValue) ?_
  rintro ⟨result, done, accessed⟩ ⟨_, doneEq, accessedServes⟩
  dsimp only at doneEq accessedServes
  subst doneEq
  have stillNot : Client.scansByItself
      ((c.withMgr MaintenanceManager.tick).accessPath layout key newValue).2 = false := by
    rw [Client.scansByItself, keeps.config]
    exact notByItself
  simp only [accessedServes.daPiggybackScan_eq stillNot, pure_bind]
  refine Prog.ends_bind (accessedServes.ends_triggeredMaintenance stillNot) ?_
  rintro ⟨steps, final⟩ taken
  refine Prog.ends_pure ?_
  have triggers := (Client.sameClock_accessPath layout (c.withMgr MaintenanceManager.tick) key
    newValue).triggers
  rw [show steps = _ from taken]
  simp only [MaintenanceManager.triggers, triggers.1, triggers.2.1, triggers.2.2]

/-! ## Whole runs -/

/-- The same entry waits in the same direction. -/
structure StillPending (s s' : TieredOMap Ω) : Prop where
  swapState : s'.mgr.swapState = s.mgr.swapState
  key : s'.pendingInsertKey = s.pendingInsertKey
  ref : s'.pendingInsertRef = s.pendingInsertRef

/-- The entry that was waiting is in the map of its direction, and no swap is under way. -/
structure Inserted (room : Tier → Nat) (s s' : TieredOMap Ω) : Prop where
  isIdle : s'.mgr.swapState = .idle
  inMap : ∃ contents,
    LawfulOmap.Rep (s'.omap (Client.towards s.mgr.swapState)) contents
      (room (Client.towards s.mgr.swapState)) ∧
    contents s.pendingInsertKey = some s.pendingInsertRef

end TieredOMap

namespace TieredOMap

section Sample

attribute [local instance] clearCipher

/-- Maintenance with the shortest interval that has three phases. -/
def thirdsConfig : TieredOMapConfig :=
  { maintenance := { enabled := true, swapInterval := 3, observationWindow := 1, cacheSize := 1 } }

end Sample

end TieredOMap

end TieredOmap
