import TieredOMap.Omap.AvlSetUp
import TieredOMap.Tiered.Shape
import TieredOMap.Tiered.TierUse

/-!
# The requests of the maintenance steps

Over AVL maps without a split, each maintenance step sends the same requests whether it moves a key
or only makes dummy accesses, with one exception: a scan that demotes its key removes it from the
hot map in addition, which no dummy access stands in for otherwise.
-/

namespace TieredOmap

theorem sends_notePendingStore (swapState : SwapState) (pendingKey : Int) :
    Sends (notePendingStore swapState pendingKey) (fun _ sent => sent = []) := by
  intro before world start
  exact ⟨[], by simpa [notePendingStore] using start, rfl⟩

/-- An AVL map without a split that pads. -/
def WholeAvl : ∀ tier, AvlTiers tier → Prop :=
  fun _ omap => omap.SetUp ∧ ¬0 < omap.orams.splitDepth

/-- The requests of an operation on an AVL map without a split. -/
def AVLOmap.wholeRequests (omap : AVLOmap) : List StorageReq :=
  pathAccesses omap.orams.oram.storage.storeId (3 * omap.maxHeight.toNat)

section Shapes

variable [Cipher]

theorem keptByUses_wholeAvl {config : TieredOMapConfig} (noSplit : config.useSplitOram = false) :
    KeptByUses (Ω := AvlTiers) config WholeAvl where
  made := by
    intro tier capacity isCold hotCount
    change Yields (AVLOmap.make config capacity isCold hotCount) (WholeAvl tier)
    unfold AVLOmap.make
    rw [noSplit, Bool.and_false, Bool.false_and, if_neg (by decide)]
    refine (AVLOmap.setUp_new _ _).mono ?_
    rintro omap ⟨setUp, splitEq⟩
    exact ⟨setUp, by rw [splitEq]; exact lt_irrefl 0⟩
  used := by
    rintro tier omap use ⟨setUp, noSplit⟩
    refine (setUp.yields_run use).mono ?_
    rintro omap' same
    exact ⟨same.setUp, by rwa [same.splitDepth_eq]⟩
  scanned := fun tier omap holds => Prog.ends_pure holds

/-- An operation on such a map always sends the same requests, and so do those after it. -/
theorem WholeAvl.sends_perform {tier : Tier} {omap : AVLOmap} (whole : WholeAvl tier omap)
    (operation : MapCall) :
    Sends (operation.perform omap) (fun omap' sent => sent = omap.wholeRequests ∧
      WholeAvl tier omap' ∧ omap'.wholeRequests = omap.wholeRequests) := by
  rcases whole with ⟨setUp, noSplit⟩
  refine (setUp.sends_perform operation).mono ?_
  rintro omap' sent operated
  rcases operated.counted with ⟨visited, tallied⟩
  have same := setUp.of_tallied tallied
  refine ⟨operated.whole setUp.pads noSplit, ⟨same.setUp, by rwa [same.splitDepth_eq]⟩, ?_⟩
  unfold AVLOmap.wholeRequests
  rw [same.maxHeight_eq]
  congr 1
  exact tallied.between.storeId_eq .lower

namespace TieredOMap

variable {s s' : TieredOMap AvlTiers}

omit [Cipher] in
/-- Both maps are AVL maps without a split. -/
def WholeTiers (s : TieredOMap AvlTiers) : Prop := ∀ tier, WholeAvl tier (s.omap tier)

/-- The requests of an operation on a tier. -/
def tierRequests (s : TieredOMap AvlTiers) (tier : Tier) : List StorageReq :=
  (s.omap tier).wholeRequests

/-- The requests of one access to the data ORAM. -/
def dataRequests (s : TieredOMap AvlTiers) : List StorageReq :=
  pathAccesses s.dataOram.storage.storeId 1

/-- The requests of a scan that changes nothing. -/
def scanRequests (s : TieredOMap AvlTiers) : List StorageReq := s.tierRequests .hot ++ s.dataRequests

/-- What a data access reads: a stored record, or nothing for a reference to no block. -/
def ReadsRecord (s : TieredOMap AvlTiers) (blk : Int) (raw : Bytes) : Prop :=
  (blk < 0 ∧ raw = []) ∨
    (0 ≤ blk ∧ ∃ block, s.dataOram.Stored block ∧ block.key = blk ∧ block.value = raw)

/-- The record that the stored nodes of the hot map lead a key to. -/
def HotRecord (s : TieredOMap AvlTiers) (key : Int) (raw : Bytes) : Prop :=
  ∃ ref, AVLOmap.Finds s.hotOmap.orams s.hotOmap.maxHeight key s.hotOmap.rootKey 0 ref ∧
    s.ReadsRecord (refToBlk ref) raw

/-- A key is scanned: no swap is pending and there is a hot key. -/
def Scans (s : TieredOMap AvlTiers) : Prop := s.mgr.swapState = .idle ∧ s.hotKeyList ≠ []

/-- The record of a scanned key makes the scan demote it. -/
def Demotes (s : TieredOMap AvlTiers) (raw : Bytes) : Prop :=
  s.mgr.shouldDemoteCache (decodeEpoch raw).2.fp = true

/-- A state from which the operations send the same requests. -/
structure Alike (s s' : TieredOMap AvlTiers) : Prop where
  whole : s'.WholeTiers
  tier_eq : ∀ tier, s'.tierRequests tier = s.tierRequests tier
  data_eq : s'.dataRequests = s.dataRequests

omit [Cipher] in
theorem WholeTiers.setOmap (whole : s.WholeTiers) {tier : Tier} {omap : AVLOmap}
    (holds : WholeAvl tier omap) (sameRequests : omap.wholeRequests = (s.omap tier).wholeRequests) :
    s.Alike (s.setOmap tier omap) := by
  refine ⟨?_, ?_, ?_⟩
  · intro tier'
    cases tier <;> cases tier'
    · exact holds
    · exact whole .cold
    · exact whole .hot
    · exact holds
  · intro tier'
    cases tier <;> cases tier'
    · exact sameRequests
    · rfl
    · rfl
    · exact sameRequests
  · cases tier <;> rfl

theorem WholeTiers.sends_onTier (whole : s.WholeTiers) (tier : Tier) (operation : MapCall) :
    Sends (s.onTier tier (fun omap => operation.perform omap)) (fun s' sent =>
      s.Alike s' ∧ sent = s.tierRequests tier) := by
  refine Prog.emits_bind ((whole tier).sends_perform operation) ?_
  rintro omap _ ⟨rfl, holds, sameRequests⟩
  exact Prog.emits_pure ⟨whole.setOmap holds sameRequests, List.append_nil _⟩

/-- A search leaves the data ORAM alone and finds what the stored nodes lead it to. -/
theorem WholeTiers.sends_searchHot (whole : s.WholeTiers) (key : Int) :
    Sends (s.searchTier .hot key) (fun outcome sent => s.Alike outcome.2 ∧
      outcome.2.dataOram = s.dataOram ∧ outcome.2.maint = s.maint ∧
      outcome.2.config = s.config ∧
      AVLOmap.Finds s.hotOmap.orams s.hotOmap.maxHeight key s.hotOmap.rootKey 0 outcome.1 ∧
      sent = s.tierRequests .hot) := by
  rcases whole .hot with ⟨setUp, noSplit⟩
  rcases setUp.counted with ⟨visited, tallied⟩
  have searched := (tallied.toFixed.sends_search key none).and_ends
    (AVLOmap.yields_search s.hotOmap key none)
  refine Prog.emits_bind searched ?_
  rintro ⟨ref, omap⟩ sent ⟨operated, finds⟩
  rcases operated.counted with ⟨visited', tallied'⟩
  have same := setUp.of_tallied tallied'
  have sameRequests : omap.wholeRequests = s.hotOmap.wholeRequests := by
    unfold AVLOmap.wholeRequests
    rw [same.maxHeight_eq]
    congr 1
    exact tallied'.between.storeId_eq .lower
  have stillWhole : ¬0 < omap.orams.splitDepth := by rwa [same.splitDepth_eq]
  have alike : s.Alike (s.setOmap .hot omap) := whole.setOmap ⟨same.setUp, stillWhole⟩ sameRequests
  refine Prog.emits_pure ⟨alike, rfl, rfl, rfl, finds, ?_⟩
  rw [List.append_nil]
  exact operated.whole setUp.pads noSplit

theorem WholeTiers.sends_dataDummy (whole : s.WholeTiers) :
    Sends s.dataDummy (fun s' sent => s.Alike s' ∧ sent = s.dataRequests) := by
  refine Prog.emits_bind s.dataOram.sends_dummyAccess ?_
  rintro oram _ ⟨sameId, rfl⟩
  refine Prog.emits_pure ⟨⟨whole, fun _ => rfl, ?_⟩, List.append_nil _⟩
  exact congrArg (pathAccesses · 1) sameId

theorem WholeTiers.sends_dataRead (whole : s.WholeTiers) (blk : Int) :
    Sends (s.dataAccess blk none) (fun outcome sent => s.Alike outcome.2 ∧
      outcome.2.maint = s.maint ∧ outcome.2.config = s.config ∧
      s.ReadsRecord blk outcome.1 ∧ sent = s.dataRequests) := by
  unfold dataAccess
  split
  · rename_i negative
    refine Prog.emits_bind s.dataOram.sends_dummyAccess ?_
    rintro oram _ ⟨sameId, rfl⟩
    refine Prog.emits_pure ⟨⟨whole, fun _ => rfl, congrArg (pathAccesses · 1) sameId⟩, rfl, rfl,
      Or.inl ⟨negative, rfl⟩, List.append_nil _⟩
  · rename_i notNegative
    refine Prog.emits_bind ((s.dataOram.sends_access blk none).and_ends
      (s.dataOram.yields_access blk none)) ?_
    rintro ⟨value, oram⟩ _ ⟨⟨sameId, rfl⟩, block, stored, isBlock, valueEq⟩
    exact Prog.emits_pure ⟨⟨whole, fun _ => rfl, congrArg (pathAccesses · 1) sameId⟩, rfl, rfl,
      Or.inr ⟨not_lt.mp notNegative, block, stored, isBlock, valueEq.symm⟩, List.append_nil _⟩

/-! ## The steps -/

theorem WholeTiers.sends_dummies (whole : s.WholeTiers) :
    Sends (do
      let s ← s.onTier .hot OmapInterface.dummyAccess
      s.dataDummy) (fun _ sent => sent = s.scanRequests) := by
  refine Prog.emits_bind (whole.sends_onTier .hot .dummyAccess) ?_
  rintro dummied _ ⟨alike, rfl⟩
  refine alike.whole.sends_dataDummy.mono ?_
  rintro final _ ⟨_, rfl⟩
  rw [alike.data_eq]
  rfl

omit [Cipher] in
theorem wholeRequests_ne_nil {tier : Tier} {omap : AVLOmap} (whole : WholeAvl tier omap) :
    omap.wholeRequests ≠ [] := by
  have positive := whole.1.maxHeight_pos
  obtain ⟨height, heightEq⟩ : ∃ height, 3 * omap.maxHeight.toNat = height + 1 :=
    ⟨3 * omap.maxHeight.toNat - 1, by omega⟩
  rw [AVLOmap.wholeRequests, heightEq]
  exact List.cons_ne_nil _ _

omit [Cipher] in
/-- Choosing the next key only moves the scan pointer. -/
theorem nextScanKey_eq_withMgr (s : TieredOMap AvlTiers) :
    ∃ f : MaintenanceManager → MaintenanceManager,
      s.nextScanKey.2 = s.withMgr f ∧ ∀ maint, (f maint).cache = maint.cache := by
  unfold nextScanKey
  split
  · refine ⟨id, ?_, fun _ => rfl⟩
    simp [withMgr]
  · split
    · exact ⟨_, rfl, fun _ => rfl⟩
    · exact ⟨_, rfl, fun _ => rfl⟩

omit [Cipher] in
/-- Whether a record is demoted depends on the cache only. -/
theorem demotes_congr (sameCache : s'.mgr.cache = s.mgr.cache) (raw : Bytes) :
    s'.Demotes raw ↔ s.Demotes raw := by
  unfold Demotes MaintenanceManager.shouldDemoteCache
  rw [sameCache]

/-- A scan removes its key as well if it demotes it. -/
theorem WholeTiers.sends_scanNextKey (whole : s.WholeTiers) :
    Sends s.scanNextKey (fun _ sent => ∃ raw, s.HotRecord s.nextScanKey.1 raw ∧
      (s.Demotes raw → sent = s.scanRequests ++ s.tierRequests .hot) ∧
      (¬s.Demotes raw → sent = s.scanRequests)) := by
  rcases s.nextScanKey_eq_withMgr with ⟨f, pointedEq, sameCache⟩
  have pointedWhole : s.nextScanKey.2.WholeTiers := pointedEq ▸ whole
  unfold scanNextKey
  refine Prog.emits_bind (pointedWhole.sends_searchHot s.nextScanKey.1) ?_
  rintro ⟨ref, searched⟩ _ ⟨alike, sameData, sameMaint, sameConfig, finds, rfl⟩
  dsimp only at alike sameData sameMaint sameConfig finds ⊢
  refine Prog.emits_bind (alike.whole.sends_dataRead (refToBlk ref)) ?_
  rintro ⟨raw, read⟩ _ ⟨alike', sameMaint', sameConfig', readsRecord, rfl⟩
  dsimp only at alike' sameMaint' sameConfig' readsRecord ⊢
  have hotRecord : s.HotRecord s.nextScanKey.1 raw := by
    refine ⟨ref, ?_, ?_⟩
    · rw [pointedEq] at finds
      exact finds
    · unfold ReadsRecord at readsRecord ⊢
      rw [sameData, pointedEq] at readsRecord
      exact readsRecord
  have sameDemotes : read.Demotes raw ↔ s.Demotes raw := by
    refine demotes_congr ?_ raw
    unfold mgr
    rw [sameMaint', sameMaint, sameConfig', sameConfig, pointedEq]
    unfold withMgr
    cases s.maint with
    | none => rfl
    | some maint => exact sameCache maint
  have searchedRequests : searched.dataRequests = s.dataRequests := by
    rw [alike.data_eq, pointedEq]
    rfl
  have hotRequests : s.nextScanKey.2.tierRequests .hot = s.tierRequests .hot := by
    rw [pointedEq]
    rfl
  rw [searchedRequests, hotRequests]
  split
  · rename_i demotes
    refine Prog.emits_bind (alike'.whole.sends_onTier .hot (.remove s.nextScanKey.1)) ?_
    rintro removed _ ⟨_, rfl⟩
    refine Prog.emits_bind (sends_notePendingStore _ _) ?_
    rintro _ _ rfl
    refine Prog.emits_pure ⟨raw, hotRecord, fun _ => ?_, fun stays => ?_⟩
    · rw [alike'.tier_eq, alike.tier_eq, hotRequests]
      simp [scanRequests]
    · exact absurd (sameDemotes.mp demotes) stays
  · rename_i stays
    refine Prog.emits_pure ⟨raw, hotRecord, fun demotes => ?_, fun _ => ?_⟩
    · exact absurd (sameDemotes.mpr demotes) stays
    · rw [List.append_nil]
      rfl

/-- A scan step sends the requests of dummy accesses unless it demotes the key it scans. -/
theorem WholeTiers.sends_doScanStep (whole : s.WholeTiers) (notDa : s.config.isDaHot = false) :
    Sends s.doScanStep (fun _ sent => ∃ raw,
      (s.Scans → s.HotRecord s.nextScanKey.1 raw) ∧
        (sent = s.scanRequests ↔ ¬(s.Scans ∧ s.Demotes raw))) := by
  have resting : ¬s.Scans → Sends (do
      let s ← s.onTier .hot OmapInterface.dummyAccess
      s.dataDummy) (fun _ sent => ∃ raw, (s.Scans → s.HotRecord s.nextScanKey.1 raw) ∧
        (sent = s.scanRequests ↔ ¬(s.Scans ∧ s.Demotes raw))) := by
    intro rests
    refine whole.sends_dummies.mono ?_
    rintro _ _ rfl
    exact ⟨[], fun scans => absurd scans rests, fun _ both => rests both.1, fun _ => rfl⟩
  unfold doScanStep
  split
  · rename_i swapping
    exact resting (fun scans => swapping scans.1)
  · rename_i idle
    rw [notDa, Bool.false_and, if_neg (by decide)]
    split
    · rename_i isEmpty
      exact resting (fun scans => scans.2 isEmpty)
    · rename_i nonempty
      have scans : s.Scans := ⟨not_not.mp idle, nonempty⟩
      refine whole.sends_scanNextKey.mono ?_
      rintro _ sent ⟨raw, hotRecord, demoted, kept⟩
      refine ⟨raw, fun _ => hotRecord, ?_⟩
      by_cases demotes : s.Demotes raw
      · refine ⟨fun same => ?_, fun stays => absurd ⟨scans, demotes⟩ stays⟩
        rw [demoted demotes, List.append_right_eq_self] at same
        exact absurd same (wholeRequests_ne_nil (whole .hot))
      · exact ⟨fun _ both => demotes both.2, fun _ => kept demotes⟩

/-- The insert step of a tier: an insertion or a dummy access. -/
theorem WholeTiers.sends_insertStep (whole : s.WholeTiers) {tier : Tier} {due : Prop}
    [Decidable due] (key : Int) (value : Bytes) (finish : TieredOMap AvlTiers → TieredOMap AvlTiers) :
    Sends (do
      if due then
        let s ← s.onTier tier (fun omap => OmapInterface.insert omap key value)
        return finish s
      else s.onTier tier OmapInterface.dummyAccess)
      (fun _ sent => sent = s.tierRequests tier) := by
  split
  · refine Prog.emits_bind (whole.sends_onTier tier (.insert key value)) ?_
    rintro inserted _ ⟨_, rfl⟩
    exact Prog.emits_pure (List.append_nil _)
  · exact (whole.sends_onTier tier .dummyAccess).mono (fun _ _ accessed => accessed.2)

theorem WholeTiers.sends_reactivePromotion (whole : s.WholeTiers) (key fp : Int) (ref : Bytes) :
    Sends (s.reactivePromotion key fp ref) (fun _ sent =>
      sent = if key ∉ s.hotKeys ∧ ref ≠ [] then s.tierRequests .cold else []) := by
  unfold reactivePromotion
  split
  · split
    · refine Prog.emits_bind (whole.sends_onTier .cold (.remove key)) ?_
      rintro removed _ ⟨_, rfl⟩
      refine Prog.emits_bind (sends_notePendingStore _ _) ?_
      rintro _ _ rfl
      exact Prog.emits_pure (List.append_nil _)
    · exact (whole.sends_onTier .cold .dummyAccess).mono (fun _ _ accessed => accessed.2)
  · exact Prog.emits_pure rfl

/--
In every state, each maintenance step sends the same requests whether it moves a key or only makes
dummy accesses, unless it is a scan that demotes its key.
-/
theorem maintenance_requests_iff {config : TieredOMapConfig} (notDa : config.isDaHot = false)
    (noSplit : config.useSplitOram = false) (inService : InService config s) :
    Sends s.doScanStep (fun _ sent => ∃ raw, (s.Scans → s.HotRecord s.nextScanKey.1 raw) ∧
      (sent = s.scanRequests ↔ ¬(s.Scans ∧ s.Demotes raw))) ∧
    Sends s.doHotInsertStep (fun _ sent => sent = s.tierRequests .hot) ∧
    Sends s.doColdInsertStep (fun _ sent => sent = s.tierRequests .cold) ∧
    ∀ key fp ref, Sends (s.reactivePromotion key fp ref) (fun _ sent =>
      sent = if key ∉ s.hotKeys ∧ ref ≠ [] then s.tierRequests .cold else []) := by
  have tended := inService.tended (keptByUses_wholeAvl noSplit)
  have whole : s.WholeTiers := tended.omap
  exact ⟨whole.sends_doScanStep (tended.kind.trans notDa), whole.sends_insertStep _ _ _,
    whole.sends_insertStep _ _ _, whole.sends_reactivePromotion⟩

end TieredOMap

end Shapes

namespace TieredOMap

section Sample

attribute [local instance] clearCipher

/-- Maintenance with epochs of one access and a cache of one key. -/
def demoteConfig : TieredOMapConfig :=
  { maintenance := { enabled := true, swapInterval := 9, observationWindow := 1, cacheSize := 1 } }

/-- The cached key has been read in the last epoch, the key in the hot map has not. -/
def demoteState : Rand (TieredOMap AvlTiers) := do
  let s ← TieredOMap.init demoteConfig [(3, [1]), (5, [2]), (8, [7])] [3, 5]
  let (_, s) ← s.access 0 3 none
  let (_, s) ← s.access 0 3 none
  return s

def demoteScan : Rand Nat := do
  let s ← demoteState
  let _ ← s.doScanStep
  return s.scanRequests.length

theorem demoteState_logs : ((demoteState.runFrom {}).1.toOption.map (fun s =>
    s.scanRequests.length), (demoteState.runFrom {}).2.log.length) = (some 14, 80) := by
  decide +kernel

theorem demoteScan_logs : ((demoteScan.runFrom {}).1.toOption,
    (demoteScan.runFrom {}).2.log.length) = (some 14, 106) := by
  decide +kernel

theorem inService_demoteState {s : TieredOMap AvlTiers} {world : World}
    (run : demoteState.runFrom {} = (.ok s, world)) : InService demoteConfig s := by
  rcases Prog.runs_of_bind run with ⟨made, madeWorld, initRun, rest⟩
  rcases Prog.runs_of_bind rest with ⟨⟨result, read⟩, readWorld, readRun, rest'⟩
  rcases Prog.runs_of_bind rest' with ⟨⟨result', read'⟩, lastWorld, readRun', rest''⟩
  obtain rfl : read' = s := Except.ok.inj (congrArg Prod.fst rest'')
  exact .access (.access (.init initRun) readRun) readRun'

/-- A scan that demotes its key sends more than the requests of dummy accesses. -/
theorem demotion_sends_more : ∃ s : TieredOMap AvlTiers, InService demoteConfig s ∧
    ¬Sends s.doScanStep (fun _ sent => sent = s.scanRequests) := by
  have started := demoteState_logs
  have scanned := demoteScan_logs
  rcases run : demoteScan.runFrom {} with ⟨_ | count, world'⟩
  · rw [run] at scanned
    cases scanned
  rcases Prog.runs_of_bind run with ⟨s, world, stateRun, rest⟩
  rcases Prog.runs_of_bind rest with ⟨final, world'', scanRun, countRun⟩
  obtain rfl : world'' = world' := congrArg Prod.snd countRun
  rw [run] at scanned
  rw [stateRun] at started
  simp only [Except.toOption, Option.map_some, Prod.mk.injEq, Option.some.injEq] at started scanned
  refine ⟨s, inService_demoteState stateRun, fun sends => ?_⟩
  rcases sends.returned scanRun with ⟨sent, logEq, rfl⟩
  have lengths := congrArg List.length logEq
  rw [List.length_append, scanned.2, started.2, started.1] at lengths
  cases lengths

theorem maintenance_requests_iff_sample : ∃ s : TieredOMap AvlTiers,
    Sends s.doHotInsertStep (fun _ sent => sent = s.tierRequests .hot) ∧
      Sends s.doColdInsertStep (fun _ sent => sent = s.tierRequests .cold) := by
  have started := demoteState_logs
  rcases run : demoteState.runFrom {} with ⟨_ | s, world⟩
  · rw [run] at started
    cases started
  have inService : InService demoteConfig s := inService_demoteState run
  have steps := maintenance_requests_iff (by decide) (by decide) inService
  exact ⟨s, steps.2.1, steps.2.2.1⟩

end Sample

end TieredOMap

end TieredOmap
