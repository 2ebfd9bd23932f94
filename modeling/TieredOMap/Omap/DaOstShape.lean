import TieredOMap.Omap.BplusStepFixed
import TieredOMap.Omap.DaOstRounds
import TieredOMap.Oram.DaShape

/-!
# The requests of a DA map

The tree object of a DA map does not pad: the map fills the tree's own count of visits up to
`ods_budget_`. Whatever the operation and whatever is stored, the requests are those of one access
to the DAORAM followed by `ods_budget_` accesses to the tree's ORAM. The trees themselves enter
through `SteadyOds`: they never visit more paths than the budget, and they count right.
-/

namespace TieredOmap

/-! ## Trees without padding -/

/-- An operation of a tree has visited some paths of its ORAM, at most `most`, and counts them. -/
structure OdsVisits {Ω : Type} [OdsTree Ω] (most : Nat) (ods ods' : Ω) (sent : List StorageReq) :
    Prop where
  sameStore : (OdsTree.oram ods').storage.storeId = (OdsTree.oram ods).storage.storeId
  visits : ∃ count ≤ most, OdsTree.lastOpCount ods' = count ∧
    sent = pathAccesses (OdsTree.oram ods).storage.storeId count

/-- A tree object that leaves the padding to its map and keeps within its height bound. -/
class SteadyOds (Ω : Type) [OdsTree Ω] where
  /-- The tree object does not pad, and has the given height bound. -/
  Ready : Ω → Nat → Prop
  ready_newOds : ∀ capacity order bucketSize (height : Nat),
    Yields (OdsTree.newOds (Ω := Ω) capacity order bucketSize height) (Ready · height)
  ready_loadTrees : ∀ ods capacity buckets height, Ready ods height →
    Yields (OdsTree.loadTrees ods capacity buckets) (fun outcome => Ready outcome.2 height)
  sends_search : ∀ ods key update height, Ready ods height →
    Sends (OmapInterface.search ods key update) (fun outcome sent => Ready outcome.2 height ∧
      OdsVisits (OdsTree.budgetFactor Ω * height) ods outcome.2 sent)
  sends_insert : ∀ ods key value height, Ready ods height →
    Sends (OmapInterface.insert ods key value) (fun ods' sent => Ready ods' height ∧
      OdsVisits (OdsTree.budgetFactor Ω * height) ods ods' sent)
  sends_remove : ∀ ods key height, Ready ods height →
    Sends (OmapInterface.remove ods key) (fun ods' sent => Ready ods' height ∧
      OdsVisits (OdsTree.budgetFactor Ω * height) ods ods' sent)
  ready_setRoot : ∀ ods root height, Ready ods height → Ready (OdsTree.setRoot ods root) height
  oram_setRoot : ∀ (ods : Ω) root, OdsTree.oram (OdsTree.setRoot ods root) = OdsTree.oram ods
  ready_setOram : ∀ ods oram height, Ready ods height → Ready (OdsTree.setOram ods oram) height
  oram_setOram : ∀ (ods : Ω) oram, OdsTree.oram (OdsTree.setOram ods oram) = oram
  ready_beginStepSearch : ∀ ods key update height, Ready ods height →
    Ready (OmapInterface.beginStepSearch ods key update) height
  ready_beginStepDummy : ∀ ods height, Ready ods height →
    Ready (OmapInterface.beginStepDummy ods) height
  ready_beginPiggybackSearch : ∀ ods key height, Ready ods height →
    Ready (OmapInterface.beginPiggybackSearch ods key) height
  ready_beginPiggybackInsert : ∀ ods key value height, Ready ods height →
    Yields (OmapInterface.beginPiggybackInsert ods key value) (Ready · height)
  ready_beginPiggybackDummy : ∀ ods height, Ready ods height →
    Ready (OmapInterface.beginPiggybackDummy ods) height
  ready_stepNextRound : ∀ ods height, Ready ods height →
    Yields (OmapInterface.stepNextRound ods) (fun outcome => Ready outcome.2 height)
  ready_stepApplyReads : ∀ ods results height, Ready ods height →
    Ready (OmapInterface.stepApplyReads ods results) height
  ready_stepProcess : ∀ ods height, Ready ods height →
    Yields (OmapInterface.stepProcess ods) (Ready · height)
  ready_setStepDecisionEnabled : ∀ ods enable height, Ready ods height →
    Ready (OmapInterface.setStepDecisionEnabled ods enable) height
  ready_stepCommitRemove : ∀ ods height, Ready ods height →
    Yields (OmapInterface.stepCommitRemove ods) (Ready · height)
  ready_stepCommitNoop : ∀ ods height, Ready ods height →
    Yields (OmapInterface.stepCommitNoop ods) (Ready · height)
  ready_stepPrepareWrites : ∀ ods height, Ready ods height →
    Yields (OmapInterface.stepPrepareWrites ods) (fun outcome => Ready outcome.2 height)
  ready_writeStore : ∀ ods request height, Ready ods height →
    Ready (OmapInterface.writeStore ods request) height

/-- The set-up of the tree object of a DA map. -/
def odsSetting (stores : Half → Nat) (height : Nat) : TreeSetting :=
  { split := 0, stores, odsMode := true, maxHeight := height }

namespace AVLOmap

variable {omap : AVLOmap} {height : Nat}

/-- A tree object of a DA map. -/
def OdsReady (omap : AVLOmap) (height : Nat) : Prop :=
  ∃ stores visited, omap.Tallied (odsSetting stores height) visited

variable [Cipher]

/-- The visits of an operation that leaves the padding to the map. -/
theorem Operated.odsVisits {stores : Half → Nat} {omap' : AVLOmap} {sent : List StorageReq}
    (fixed : omap.Fixed (odsSetting stores height))
    (operated : Operated (odsSetting stores height) omap' sent) :
    omap'.OdsReady height ∧ OdsVisits (OdsTree.budgetFactor AVLOmap * height) omap omap' sent := by
  rcases operated with ⟨visited, within, tallied, rfl⟩
  have unpadded : (odsSetting stores height).avlPadding visited = [] := if_pos rfl
  rw [unpadded, List.append_nil] at tallied ⊢
  have noSplit : ¬0 < (odsSetting stores height).split := lt_irrefl 0
  have sameStore : omap.orams.oram.storage.storeId = stores .lower :=
    fixed.between.storeId_eq .lower
  refine ⟨⟨stores, visited, tallied⟩, ?_, visited.length, within, ?_, ?_⟩
  · exact (tallied.between.storeId_eq .lower).trans sameStore.symm
  · have counted : omap'.opCount = visited.length := by
      rw [tallied.opCount_eq, if_neg noSplit]
    exact counted
  · rw [visitRequests_of_forall (tallied.lower_of_noSplit noSplit)]
    exact congrArg (pathAccesses · visited.length) sameStore.symm

omit [Cipher] in
/-- Another ORAM may have another store. -/
theorem OdsReady.withOram (ready : omap.OdsReady height) (oram : PathORAM) :
    { omap with orams.oram := oram }.OdsReady height := by
  rcases ready with ⟨stores, visited, tallied⟩
  have between : { omap.orams with oram }.Between 0
      (fun half => (SplitOram.get { omap.orams with oram } half).storage.storeId) :=
    ⟨tallied.between.splitDepth_eq, fun _ => rfl⟩
  exact ⟨_, visited, { tallied with between }⟩

theorem odsReady_newOds (capacity : Int) (order : Nat) (bucketSize : Int) (height : Nat) :
    Yields (OdsTree.newOds (Ω := AVLOmap) capacity order bucketSize height)
      (OdsReady · height) := by
  refine Prog.ends_bind (Q := fun omap => ∃ oram, omap =
    { capacity, orams := { oram }, maxHeight := maxHeightFor capacity }) ?_ ?_
  · exact Prog.ends_bind (yields_any _) (fun oram _ => Prog.ends_pure ⟨oram, rfl⟩)
  · rintro _ ⟨oram, rfl⟩
    have between : ({ oram } : SplitOram).Between 0
        (fun half => (SplitOram.get { oram } half).storage.storeId) := ⟨rfl, fun _ => rfl⟩
    exact Prog.ends_pure ⟨_, [], ⟨⟨between, rfl, rfl⟩, rfl, rfl, rfl, nofun⟩⟩

theorem OdsReady.loadTrees (ready : omap.OdsReady height) (buckets : List (List (Int × Bytes))) :
    Yields (omap.loadTrees buckets) (fun outcome => outcome.2.OdsReady height) := by
  refine Prog.ends_bind (yields_any _) (fun nodes _ => ?_)
  have loaded : Yields (omap.initWhole nodes) (OdsReady · height) :=
    Prog.ends_bind (yields_any _) (fun _ _ => Prog.ends_bind (yields_any _) (fun _ _ =>
      Prog.ends_bind (yields_any _) (fun oram _ => Prog.ends_pure (ready.withOram oram))))
  exact Prog.ends_bind loaded (fun _ kept => Prog.ends_pure kept)

instance : SteadyOds AVLOmap where
  Ready := OdsReady
  ready_newOds := odsReady_newOds
  ready_loadTrees _ _ buckets _ ready := ready.loadTrees buckets
  sends_search ods key update height := by
    rintro ⟨stores, visited, tallied⟩
    exact (tallied.toFixed.sends_search key update).mono
      (fun _ _ operated => operated.odsVisits tallied.toFixed)
  sends_insert ods key value height := by
    rintro ⟨stores, visited, tallied⟩
    exact (tallied.toFixed.sends_insert key value).mono
      (fun _ _ operated => operated.odsVisits tallied.toFixed)
  sends_remove ods key height := by
    rintro ⟨stores, visited, tallied⟩
    exact (tallied.toFixed.sends_remove key).mono
      (fun _ _ operated => operated.odsVisits tallied.toFixed)
  ready_setRoot := by
    rintro ods root height ⟨stores, visited, tallied⟩
    exact ⟨stores, visited, tallied.withRoot _ _⟩
  oram_setRoot _ _ := rfl
  ready_setOram _ oram _ ready := ready.withOram oram
  oram_setOram _ _ := rfl
  ready_beginStepSearch := by
    rintro ods key update height ⟨stores, visited, tallied⟩
    exact ⟨stores, [], tallied.toFixed.beginStep _⟩
  ready_beginStepDummy := by
    rintro ods height ⟨stores, visited, tallied⟩
    exact ⟨stores, [], tallied.toFixed.beginStep _⟩
  ready_beginPiggybackSearch := by
    rintro ods key height ⟨stores, visited, tallied⟩
    exact ⟨stores, visited, tallied.beginPiggybackSearch key⟩
  ready_beginPiggybackInsert := by
    rintro ods key value height ⟨stores, visited, tallied⟩
    exact (yields_of_sends (tallied.silent_beginPiggybackInsert key value)).mono
      (fun _ outcome => ⟨stores, visited, outcome.choose_spec.1⟩)
  ready_beginPiggybackDummy := by
    rintro ods height ⟨stores, visited, tallied⟩
    exact ⟨stores, visited, tallied.withPb _⟩
  ready_stepNextRound := by
    rintro ods height ⟨stores, visited, tallied⟩
    refine (yields_of_sends tallied.silent_stepNextRound).mono ?_
    rintro ⟨reads, asked⟩ ⟨_, ⟨_, main, piggyback, nodeInLocal, _, _, rfl⟩, _⟩
    exact ⟨stores, visited, { tallied with }⟩
  ready_stepApplyReads := by
    rintro ods results height ⟨stores, visited, tallied⟩
    exact ⟨stores, visited, tallied.stepApplyReads results⟩
  ready_stepProcess := by
    rintro ods height ⟨stores, visited, tallied⟩
    exact (yields_of_sends tallied.silent_stepProcess).mono
      (fun _ outcome => ⟨stores, outcome.choose_spec.1⟩)
  ready_setStepDecisionEnabled _ _ _ ready := ready
  ready_stepCommitRemove _ _ ready := Prog.ends_pure ready
  ready_stepCommitNoop _ _ ready := Prog.ends_pure ready
  ready_stepPrepareWrites := by
    rintro ods height ⟨stores, visited, tallied⟩
    refine (yields_of_sends tallied.silent_stepPrepareWrites).mono ?_
    rintro ⟨writes, prepared⟩ ⟨_, ⟨_, orams, between, rfl⟩, _⟩
    exact ⟨stores, visited, tallied.withOrams between⟩
  ready_writeStore := by
    rintro ods request height ⟨stores, visited, tallied⟩
    exact ⟨stores, visited, tallied.writeStore request⟩

end AVLOmap

namespace BPlusOmap

variable {omap : BPlusOmap} {height : Nat}

/-- A tree object of a DA map. -/
def OdsReady (omap : BPlusOmap) (height : Nat) : Prop :=
  ∃ stores, omap.Fixed (odsSetting stores height)

variable [Cipher]

/-- The visits of an operation that leaves the padding to the map. -/
theorem Operated.odsVisits {stores : Half → Nat} {way : Option Int → Prop} {omap' : BPlusOmap}
    {sent : List StorageReq} (fixed : omap.Fixed (odsSetting stores height))
    (operated : Operated (odsSetting stores height) way omap' sent) :
    omap'.OdsReady height ∧
      OdsVisits (OdsTree.budgetFactor BPlusOmap * height) omap omap' sent := by
  rcases operated with ⟨steps, atLeaf, within, _, tallied, rfl⟩
  have unpadded : ∀ visited, (odsSetting stores height).bplusPadding visited = [] :=
    fun _ => if_pos rfl
  rw [unpadded, List.append_nil] at tallied ⊢
  have noSplit : ¬0 < (odsSetting stores height).split := lt_irrefl 0
  have sameStore : omap.orams.oram.storage.storeId = stores .lower :=
    fixed.between.storeId_eq .lower
  have lengthEq := length_traverseVisits (odsSetting stores height).split 0 steps atLeaf
  refine ⟨⟨stores, tallied.toFixed⟩, ?_, _, ?_, tallied.opCount_eq, ?_⟩
  · exact (tallied.between.storeId_eq .lower).trans sameStore.symm
  · rw [lengthEq]
    exact Nat.mul_le_mul_left 2 within
  · rw [visitRequests_of_forall (lower_of_mem_traverseVisits noSplit)]
    exact congrArg (pathAccesses · _) sameStore.symm

omit [Cipher] in
/-- Another ORAM may have another store. -/
theorem OdsReady.withOram (ready : omap.OdsReady height) (oram : PathORAM) :
    { omap with orams.oram := oram }.OdsReady height := by
  rcases ready with ⟨stores, fixed⟩
  have between : { omap.orams with oram }.Between 0
      (fun half => (SplitOram.get { omap.orams with oram } half).storage.storeId) :=
    ⟨fixed.between.splitDepth_eq, fun _ => rfl⟩
  exact ⟨_, { fixed with between }⟩

theorem odsReady_newOds (capacity : Int) (order : Nat) (bucketSize : Int) (height : Nat) :
    Yields (OdsTree.newOds (Ω := BPlusOmap) capacity order bucketSize height)
      (OdsReady · height) := by
  refine Prog.ends_bind (Q := fun omap => ∃ oram, omap =
    { order, orams := { oram }, maxHeight := maxHeightFor capacity order }) ?_ ?_
  · exact Prog.ends_bind (yields_any _) (fun oram _ => Prog.ends_pure ⟨oram, rfl⟩)
  · rintro _ ⟨oram, rfl⟩
    have between : ({ oram } : SplitOram).Between 0
        (fun half => (SplitOram.get { oram } half).storage.storeId) := ⟨rfl, fun _ => rfl⟩
    exact Prog.ends_pure ⟨_, between, rfl, rfl⟩

theorem OdsReady.loadTrees (ready : omap.OdsReady height) (capacity : Int)
    (buckets : List (List (Int × Bytes))) :
    Yields (omap.loadTrees capacity buckets) (fun outcome => outcome.2.OdsReady height) :=
  Prog.ends_bind (yields_any _) (fun _ _ => Prog.ends_bind (yields_any _) (fun _ _ =>
    Prog.ends_bind (yields_any _) (fun oram _ => Prog.ends_pure (by
      rcases ready.withOram oram with ⟨stores, fixed⟩
      exact ⟨stores, { fixed with }⟩))))

instance : SteadyOds BPlusOmap where
  Ready := OdsReady
  ready_newOds := odsReady_newOds
  ready_loadTrees _ capacity buckets _ ready := ready.loadTrees capacity buckets
  sends_search ods key update height := by
    rintro ⟨stores, fixed⟩
    exact (fixed.sends_search key update).mono (fun _ _ operated => operated.odsVisits fixed)
  sends_insert ods key value height := by
    rintro ⟨stores, fixed⟩
    exact (fixed.sends_insert key value).mono (fun _ _ operated => operated.odsVisits fixed)
  sends_remove ods key height := by
    rintro ⟨stores, fixed⟩
    exact (fixed.sends_remove key).mono (fun _ _ operated => operated.odsVisits fixed)
  ready_setRoot := by
    rintro ods root height ⟨stores, fixed⟩
    exact ⟨stores, { fixed with }⟩
  oram_setRoot _ _ := rfl
  ready_setOram _ oram _ ready := ready.withOram oram
  oram_setOram _ _ := rfl
  ready_beginStepSearch := by
    rintro ods key update height ⟨stores, fixed⟩
    exact ⟨stores, fixed.beginStep _⟩
  ready_beginStepDummy := by
    rintro ods height ⟨stores, fixed⟩
    exact ⟨stores, fixed.beginStep _⟩
  ready_beginPiggybackSearch := by
    rintro ods key height ⟨stores, fixed⟩
    exact ⟨stores, fixed.beginPiggybackSearch key⟩
  ready_beginPiggybackInsert := by
    rintro ods key value height ⟨stores, fixed⟩
    exact (yields_of_sends (fixed.silent_beginPiggybackInsert key value)).mono
      (fun _ outcome => ⟨stores, outcome.choose_spec.1⟩)
  ready_beginPiggybackDummy := by
    rintro ods height ⟨stores, fixed⟩
    exact ⟨stores, fixed.setPb _⟩
  ready_stepNextRound := by
    rintro ods height ⟨stores, fixed⟩
    refine (yields_of_sends fixed.silent_stepNextRound).mono ?_
    rintro ⟨reads, asked⟩ ⟨_, ⟨_, main, piggyback, nodeInLocal, _, _, rfl⟩, _⟩
    exact ⟨stores, { fixed with }⟩
  ready_stepApplyReads := by
    rintro ods results height ⟨stores, fixed⟩
    exact ⟨stores, fixed.stepApplyReads results⟩
  ready_stepProcess := by
    rintro ods height ⟨stores, fixed⟩
    exact (yields_of_sends fixed.silent_stepProcess).mono
      (fun _ outcome => ⟨stores, outcome.choose_spec.1⟩)
  ready_setStepDecisionEnabled := by
    rintro ods enable height ⟨stores, fixed⟩
    exact ⟨stores, fixed.setSs _⟩
  ready_stepCommitRemove := by
    rintro ods height ⟨stores, fixed⟩
    exact (yields_of_sends fixed.silent_stepCommitRemove).mono
      (fun _ outcome => ⟨stores, outcome.choose_spec.1⟩)
  ready_stepCommitNoop := by
    rintro ods height ⟨stores, fixed⟩
    exact (yields_of_sends fixed.silent_stepCommitNoop).mono
      (fun _ outcome => ⟨stores, outcome.choose_spec.1⟩)
  ready_stepPrepareWrites := by
    rintro ods height ⟨stores, fixed⟩
    refine (yields_of_sends fixed.silent_stepPrepareWrites).mono ?_
    rintro ⟨writes, prepared⟩ ⟨_, ⟨_, orams, between, rfl⟩, _⟩
    exact ⟨stores, fixed.withOrams between⟩
  ready_writeStore := by
    rintro ods request height ⟨stores, fixed⟩
    exact ⟨stores, fixed.writeStore request⟩

end BPlusOmap

/-! ## The requests of the map -/

namespace DaOstOmap

variable {Ω : Type} [OdsTree Ω] [Cipher]

/-- The requests of every operation: one access to the DAORAM and the budget of the tree. -/
def accessRequests (omap : DaOstOmap Ω) : List StorageReq :=
  omap.daoram.accessRequests ++
    pathAccesses (OdsTree.oram omap.ods).storage.storeId omap.odsBudget

variable [SteadyOds Ω] {omap : DaOstOmap Ω} {height : Nat}

open SteadyOds

/-- The tree object is set up, and the budget is the one of its height bound. -/
structure Budgeted (omap : DaOstOmap Ω) (height : Nat) : Prop where
  ready : Ready omap.ods height
  odsBudget_eq : omap.odsBudget = OdsTree.budgetFactor Ω * height

omit [Cipher] in
theorem Budgeted.cachedRoot (budgeted : omap.Budgeted height) (pos : Int) :
    (omap.cachedRoot pos).2.Budgeted height := by
  unfold DaOstOmap.cachedRoot
  split
  · exact budgeted
  · exact ⟨budgeted.ready, budgeted.odsBudget_eq⟩

theorem sends_odsDummies (count : Nat) (ods : Ω) :
    Sends (odsDummies count ods) (fun ods' sent =>
      (∀ height, Ready ods height → Ready ods' height) ∧
        sent = pathAccesses (OdsTree.oram ods).storage.storeId count) := by
  induction count generalizing ods with
  | zero => exact Prog.emits_pure ⟨fun _ ready => ready, rfl⟩
  | succ count ih =>
      refine Prog.emits_bind (PathORAM.sends_dummyAccess _) ?_
      rintro oram _ ⟨sameId, rfl⟩
      refine (ih (OdsTree.setOram ods oram)).mono ?_
      rintro ods' _ ⟨keeps, rfl⟩
      refine ⟨fun height ready => keeps height (ready_setOram _ _ _ ready), ?_⟩
      rw [oram_setOram, sameId]
      rfl

theorem Budgeted.sends_padOds (budgeted : omap.Budgeted height) (actualOps : Nat) :
    Sends (omap.padOds actualOps) (fun omap' sent => omap'.Budgeted height ∧
      sent = pathAccesses (OdsTree.oram omap.ods).storage.storeId
        (omap.odsBudget - actualOps)) := by
  unfold padOds
  have padding : ((omap.odsBudget : Int) - actualOps).toNat = omap.odsBudget - actualOps := by
    omega
  rw [padding]
  refine Prog.emits_bind (sends_odsDummies _ omap.ods) ?_
  rintro ods _ ⟨keeps, rfl⟩
  exact Prog.emits_pure ⟨⟨keeps height budgeted.ready, budgeted.odsBudget_eq⟩, List.append_nil _⟩

omit [OdsTree Ω] [SteadyOds Ω] in
/-- The position is accessed in the DAORAM, and nothing else. -/
theorem sends_accessPosition (omap : DaOstOmap Ω) (pos : Nat) :
    Sends (omap.accessPosition pos) (fun omap' sent =>
      (∃ daoram, omap' = { omap with daoram }) ∧ sent = omap.daoram.accessRequests) := by
  refine Prog.emits_bind (omap.daoram.sends_access pos none) ?_
  rintro ⟨value, daoram⟩ _ ⟨_, rfl⟩
  exact Prog.emits_pure ⟨⟨daoram, rfl⟩, List.append_nil _⟩

/-- An operation of the tree is padded up to the budget. -/
theorem Budgeted.sends_padVisits (budgeted : omap.Budgeted height) {ods : Ω} {root : Int × Int}
    {visits : List StorageReq} (ready : Ready ods height)
    (visited : OdsVisits (OdsTree.budgetFactor Ω * height) (OdsTree.setRoot omap.ods root) ods
      visits) (pos : Int) :
    Sends (({ omap with ods }.storeRoot pos).padOds (OdsTree.lastOpCount ods)) (fun omap' sent =>
      omap'.Budgeted height ∧ visits ++ sent =
        pathAccesses (OdsTree.oram omap.ods).storage.storeId omap.odsBudget) := by
  rcases visited with ⟨sameStore, count, within, countEq, rfl⟩
  rw [oram_setRoot] at sameStore ⊢
  rw [countEq]
  have stored : ({ omap with ods }.storeRoot pos).Budgeted height :=
    ⟨ready, budgeted.odsBudget_eq⟩
  refine (stored.sends_padOds count).mono ?_
  rintro omap' _ ⟨budgeted', rfl⟩
  refine ⟨budgeted', ?_⟩
  have storeEq : (OdsTree.oram ({ omap with ods }.storeRoot pos).ods).storage.storeId =
      (OdsTree.oram omap.ods).storage.storeId := sameStore
  have filled : count + (omap.odsBudget - count) = omap.odsBudget := by
    rw [budgeted.odsBudget_eq]
    omega
  rw [storeEq, ← pathAccesses_add]
  exact congrArg _ filled

/-- An operation is over: the map is as budgeted as it was, and all requests are sent. -/
def Accessed (omap : DaOstOmap Ω) (height : Nat) (omap' : DaOstOmap Ω)
    (sent : List StorageReq) : Prop :=
  omap'.Budgeted height ∧ sent = omap.accessRequests

theorem Budgeted.sends_withRoot {α : Type} (budgeted : omap.Budgeted height) (pos : Nat)
    {operation : Ω → Rand (α × Ω)}
    (visits : ∀ ods, Ready ods height → Sends (operation ods) (fun outcome sent =>
      Ready outcome.2 height ∧ OdsVisits (OdsTree.budgetFactor Ω * height) ods outcome.2 sent)) :
    Sends (omap.withRoot pos operation) (fun outcome => omap.Accessed height outcome.2) := by
  have cached := budgeted.cachedRoot pos
  have sameRequests : (omap.cachedRoot pos).2.accessRequests = omap.accessRequests := by
    unfold DaOstOmap.cachedRoot
    split <;> rfl
  unfold withRoot Accessed
  rw [← sameRequests]
  generalize omap.cachedRoot pos = outcome at cached ⊢
  rcases outcome with ⟨root, cachedOmap⟩
  dsimp only at cached ⊢
  refine Prog.emits_bind (cachedOmap.sends_accessPosition pos) ?_
  rintro _ _ ⟨⟨daoram, rfl⟩, rfl⟩
  have accessed : { cachedOmap with daoram }.Budgeted height :=
    ⟨cached.ready, cached.odsBudget_eq⟩
  refine Prog.emits_bind (visits _ (ready_setRoot _ root _ accessed.ready)) ?_
  rintro ⟨result, ods⟩ sent ⟨ready, visited⟩
  refine Prog.emits_bind (accessed.sends_padVisits ready visited pos) ?_
  rintro padded padding ⟨budgeted', filled⟩
  refine Prog.emits_pure ⟨budgeted', ?_⟩
  rw [List.append_nil, filled]
  rfl

theorem Budgeted.sends_piggybackScanStep (budgeted : omap.Budgeted height) :
    Sends omap.piggybackScanStep (fun outcome => omap.Accessed height outcome.2) := by
  unfold piggybackScanStep
  refine Prog.emits_bind (omap.sends_accessPosition _) ?_
  rintro _ _ ⟨⟨daoram, rfl⟩, rfl⟩
  have accessed : { omap with daoram }.Budgeted height := ⟨budgeted.ready, budgeted.odsBudget_eq⟩
  split
  · refine Prog.emits_bind (accessed.sends_padOds 0) ?_
    rintro padded _ ⟨budgeted', rfl⟩
    refine Prog.emits_pure ⟨⟨budgeted'.ready, budgeted'.odsBudget_eq⟩, ?_⟩
    rw [List.append_nil]
    rfl
  · refine Prog.emits_bind (sends_search _ _ none _ (ready_setRoot _ _ _ accessed.ready)) ?_
    rintro ⟨value, ods⟩ sent ⟨ready, visited⟩
    refine Prog.emits_bind (accessed.sends_padVisits ready visited omap.scanPos) ?_
    rintro padded padding ⟨budgeted', filled⟩
    refine Prog.emits_pure ⟨⟨budgeted'.ready, budgeted'.odsBudget_eq⟩, ?_⟩
    rw [List.append_nil, filled]
    rfl

theorem Budgeted.sends_dummyAccesses (budgeted : omap.Budgeted height) (count : Nat) :
    Sends (omap.dummyAccesses count) (fun omap' sent => omap'.Budgeted height ∧
      sent = omap.daoram.accessRequests ++
        pathAccesses (OdsTree.oram omap.ods).storage.storeId count) := by
  refine Prog.emits_bind omap.daoram.sends_dummyAccess ?_
  rintro daoram _ ⟨_, rfl⟩
  refine Prog.emits_bind (sends_odsDummies count omap.ods) ?_
  rintro ods _ ⟨keeps, rfl⟩
  refine Prog.emits_pure ⟨⟨keeps height budgeted.ready, budgeted.odsBudget_eq⟩, ?_⟩
  rw [List.append_nil]

/-- Whatever the operation, the requests are the same. -/
theorem Budgeted.sends_call (budgeted : omap.Budgeted height) (operation : DaOstCall)
    (whole : operation ≠ .partialDummyAccess) :
    Sends (omap.call operation) (omap.Accessed height) := by
  cases operation with
  | search key update =>
      refine Prog.emits_bind (budgeted.sends_withRoot _
        (fun ods ready => sends_search ods key update height ready)) ?_
      rintro ⟨value, omap'⟩ sent accessed
      refine Prog.emits_pure ?_
      rwa [List.append_nil]
  | insert key value =>
      refine Prog.emits_bind (budgeted.sends_withRoot _ ?_) ?_
      · intro ods ready
        refine Prog.emits_bind (sends_insert ods key value height ready) ?_
        intro ods' sent visited
        refine Prog.emits_pure ?_
        rwa [List.append_nil]
      · rintro ⟨_, omap'⟩ sent accessed
        refine Prog.emits_pure ?_
        rwa [List.append_nil]
  | remove key =>
      refine Prog.emits_bind (budgeted.sends_withRoot _ ?_) ?_
      · intro ods ready
        refine Prog.emits_bind (sends_remove ods key height ready) ?_
        intro ods' sent visited
        refine Prog.emits_pure ?_
        rwa [List.append_nil]
      · rintro ⟨_, omap'⟩ sent accessed
        refine Prog.emits_pure ?_
        rwa [List.append_nil]
  | dummyAccess => exact budgeted.sends_dummyAccesses omap.odsBudget
  | partialDummyAccess => exact absurd rfl whole
  | piggybackScanStep =>
      refine Prog.emits_bind budgeted.sends_piggybackScanStep ?_
      rintro ⟨result, omap'⟩ sent accessed
      refine Prog.emits_pure ?_
      rwa [List.append_nil]

/-! ## Runs -/

theorem yields_budgeted_create (config : DaOstConfig) (data : List (Int × Bytes)) :
    Yields (create config data : Rand (DaOstOmap Ω)) (Budgeted · config.heightBound) := by
  refine Prog.ends_bind (Q := (Budgeted · config.heightBound)) ?_ ?_
  · refine Prog.ends_bind (yields_any _) (fun daoram _ => ?_)
    refine Prog.ends_bind (ready_newOds _ _ _ _) ?_
    exact fun ods ready => Prog.ends_pure ⟨ready, rfl⟩
  · intro omap budgeted
    refine Prog.ends_bind (ready_loadTrees _ _ _ _ budgeted.ready) ?_
    rintro ⟨roots, ods⟩ ready
    exact Prog.ends_bind (yields_any _)
      (fun daoram _ => Prog.ends_pure ⟨ready, budgeted.odsBudget_eq⟩)

theorem Budgeted.yields_call (budgeted : omap.Budgeted height) (operation : DaOstCall) :
    Yields (omap.call operation) (Budgeted · height) := by
  by_cases partialDummy : operation = .partialDummyAccess
  · subst partialDummy
    exact (yields_of_sends (budgeted.sends_dummyAccesses 1)).mono
      (fun _ outcome => outcome.choose_spec.1)
  · exact (yields_of_sends (budgeted.sends_call operation partialDummy)).mono
      (fun _ outcome => outcome.choose_spec.1)

omit [Cipher] in
theorem Budgeted.yields_begin (budgeted : omap.Budgeted height) (main : DaOstMain)
    (piggyback : Option DaOstPiggyback) :
    Yields (omap.begin main piggyback) (Budgeted · height) := by
  refine Prog.ends_bind (Q := (Budgeted · height)) ?_ ?_
  · cases main with
    | search key update =>
        have begun : { omap with ss := { key, update, pos := omap.hashToPosition key } }.Budgeted
            height := ⟨budgeted.ready, budgeted.odsBudget_eq⟩
        have cached := begun.cachedRoot (omap.hashToPosition key)
        refine Prog.ends_bind (yields_any _) (fun daoram _ => Prog.ends_pure ⟨?_, ?_⟩)
        · exact ready_beginStepSearch _ _ _ _ (ready_setRoot _ _ _ cached.ready)
        · exact cached.odsBudget_eq
    | dummy =>
        refine Prog.ends_bind (yields_any _) (fun daoram _ => Prog.ends_pure ⟨?_, ?_⟩)
        · exact ready_beginStepDummy _ _ budgeted.ready
        · exact budgeted.odsBudget_eq
    | partialDummy =>
        exact Prog.ends_bind (yields_any _)
          (fun daoram _ => Prog.ends_pure ⟨budgeted.ready, budgeted.odsBudget_eq⟩)
  · intro begun begunBudgeted
    have shared : ∀ {step : Rand DAOram} {pb : DAOram → DaOstPBState}, Yields (do
        let daoram ← step
        return { begun with daoram, pb := pb daoram }) (Budgeted · height) :=
      Prog.ends_bind (yields_any _)
        (fun daoram _ => Prog.ends_pure ⟨begunBudgeted.ready, begunBudgeted.odsBudget_eq⟩)
    rcases piggyback with _ | ⟨key, value⟩ | key | _
    · exact Prog.ends_pure begunBudgeted
    · exact shared
    · exact shared
    · exact shared

omit [Cipher] in
theorem Budgeted.yields_beginStepScan (budgeted : omap.Budgeted height) :
    Yields omap.beginStepScan (Budgeted · height) :=
  Prog.ends_bind (yields_any _)
    (fun _ _ => Prog.ends_pure ⟨budgeted.ready, budgeted.odsBudget_eq⟩)

/-! ### Rounds -/

omit [Cipher] in
theorem Budgeted.yields_stepNextRound (budgeted : omap.Budgeted height) :
    Yields omap.stepNextRound (fun outcome => outcome.2.Budgeted height) := by
  have budget := budgeted.odsBudget_eq
  have inTree := ready_stepNextRound _ _ budgeted.ready
  have padding : ∀ {next : Int → List StepReadReq × DaOstOmap Ω},
      (∀ leaf, (next leaf).2.Budgeted height) → Yields (do
        let leaf ← (OdsTree.oram omap.ods).randomLeaf
        return next leaf) (fun outcome => outcome.2.Budgeted height) :=
    fun kept => Prog.ends_bind (yields_any _) (fun leaf _ => Prog.ends_pure (kept leaf))
  unfold stepNextRound
  split
  · exact Prog.ends_pure budgeted
  · dsimp only
    cases omap.ss.phase with
    | daoram => exact Prog.ends_pure ⟨budgeted.ready, budget⟩
    | scanDaoram => exact Prog.ends_pure ⟨budgeted.ready, budget⟩
    | ods => exact Prog.ends_bind inTree (fun _ ready => Prog.ends_pure ⟨ready, budget⟩)
    | scanOds => exact Prog.ends_bind inTree (fun _ ready => Prog.ends_pure ⟨ready, budget⟩)
    | odsPad => exact padding (fun _ => ⟨budgeted.ready, budget⟩)
    | scanOdsPad => exact padding (fun _ => ⟨budgeted.ready, budget⟩)
    | done => exact padding (fun _ => ⟨budgeted.ready, budget⟩)

theorem Budgeted.stepApplyReads (budgeted : omap.Budgeted height) (results : List PathData) :
    (omap.stepApplyReads results).Budgeted height := by
  have budget := budgeted.odsBudget_eq
  have padded : ∀ path : PathData, ({ omap with
      ods := OdsTree.setOram omap.ods ((OdsTree.oram omap.ods).applyFetchedPath path) } :
        DaOstOmap Ω).Budgeted height :=
    fun path => ⟨ready_setOram _ _ _ budgeted.ready, budget⟩
  unfold DaOstOmap.stepApplyReads
  cases omap.ss.roundPhase with
  | daoram => exact ⟨budgeted.ready, budget⟩
  | scanDaoram => exact ⟨budgeted.ready, budget⟩
  | ods => exact ⟨ready_stepApplyReads _ _ _ budgeted.ready, budget⟩
  | scanOds => exact ⟨ready_stepApplyReads _ _ _ budgeted.ready, budget⟩
  | odsPad =>
      cases results with
      | nil => exact budgeted
      | cons path rest => exact padded path
  | scanOdsPad =>
      cases results with
      | nil => exact budgeted
      | cons path rest => exact padded path
  | done => exact budgeted

omit [Cipher] in
theorem Budgeted.yields_leaveDaoram (budgeted : omap.Budgeted height) :
    Yields omap.leaveDaoram (Budgeted · height) := by
  have budget := budgeted.odsBudget_eq
  unfold leaveDaoram
  refine Prog.ends_bind (Q := (Budgeted · height)) ?_ ?_
  · unfold startPiggyback
    split
    · exact Prog.ends_pure ⟨budgeted.ready, budget⟩
    · split
      · exact Prog.ends_pure ⟨ready_beginPiggybackDummy _ _ budgeted.ready, budget⟩
      · have rooted := fun root => ready_setRoot omap.ods root _ budgeted.ready
        dsimp only
        split
        · refine Prog.ends_bind (ready_beginPiggybackInsert _ _ _ _ (rooted _)) ?_
          exact fun ods ready => Prog.ends_pure ⟨ready, budget⟩
        · exact Prog.ends_pure ⟨ready_beginPiggybackSearch _ _ _ (rooted _), budget⟩
  · intro started kept
    exact Prog.ends_pure ⟨kept.ready, kept.odsBudget_eq⟩

omit [Cipher] in
theorem Budgeted.leaveScanDaoram (budgeted : omap.Budgeted height) :
    omap.leaveScanDaoram.Budgeted height := by
  unfold DaOstOmap.leaveScanDaoram
  dsimp only
  split
  · exact ⟨ready_beginStepSearch _ _ _ _ (ready_setRoot _ _ _ budgeted.ready),
      budgeted.odsBudget_eq⟩
  · exact ⟨budgeted.ready, budgeted.odsBudget_eq⟩

omit [Cipher] in
theorem Budgeted.yields_stepProcess (budgeted : omap.Budgeted height) :
    Yields omap.stepProcess (Budgeted · height) := by
  have budget := budgeted.odsBudget_eq
  have kept : ∀ {due : Bool} {taken other : DaOstOmap Ω}, taken.Budgeted height →
      other.Budgeted height → (if due then taken else other).Budgeted height := by
    intro due taken other takenKept otherKept
    cases due with
    | true => exact takenKept
    | false => exact otherKept
  have processed := ready_stepProcess _ _ budgeted.ready
  have padded : ∀ ss, ({ omap with ss } : DaOstOmap Ω).Budgeted height :=
    fun _ => ⟨budgeted.ready, budget⟩
  unfold stepProcess
  cases omap.ss.roundPhase with
  | daoram =>
      refine Prog.ends_bind (yields_any _) (fun daoram _ => ?_)
      have kept' : ({ omap with daoram } : DaOstOmap Ω).Budgeted height := ⟨budgeted.ready, budget⟩
      dsimp only
      split
      · exact kept'.yields_leaveDaoram
      · exact Prog.ends_pure kept'
  | scanDaoram =>
      refine Prog.ends_bind (yields_any _) (fun daoram _ => Prog.ends_pure ?_)
      have kept' : ({ omap with daoram } : DaOstOmap Ω).Budgeted height := ⟨budgeted.ready, budget⟩
      exact kept kept'.leaveScanDaoram kept'
  | ods =>
      refine Prog.ends_bind processed (fun ods ready => Prog.ends_pure ?_)
      exact kept ⟨ready, budget⟩ ⟨ready, budget⟩
  | scanOds =>
      refine Prog.ends_bind processed (fun ods ready => Prog.ends_pure ?_)
      exact kept ⟨ready, budget⟩ ⟨ready, budget⟩
  | odsPad => exact Prog.ends_pure (padded _)
  | scanOdsPad => exact Prog.ends_pure (padded _)
  | done => exact Prog.ends_pure budgeted

omit [Cipher] in
theorem Budgeted.yields_stepCommit (budgeted : omap.Budgeted height) (remove : Bool) :
    Yields (omap.stepCommit remove) (Budgeted · height) := by
  unfold stepCommit
  have budget := budgeted.odsBudget_eq
  cases remove with
  | true =>
      exact Prog.ends_bind (ready_stepCommitRemove _ _ budgeted.ready)
        (fun ods ready => Prog.ends_pure ⟨ready, budget⟩)
  | false =>
      exact Prog.ends_bind (ready_stepCommitNoop _ _ budgeted.ready)
        (fun ods ready => Prog.ends_pure ⟨ready, budget⟩)

theorem Budgeted.yields_stepPrepareWrites (budgeted : omap.Budgeted height) :
    Yields omap.stepPrepareWrites (fun outcome => outcome.2.Budgeted height) := by
  have budget := budgeted.odsBudget_eq
  have inTree := ready_stepPrepareWrites _ _ budgeted.ready
  have padded := fun oram => ready_setOram omap.ods oram _ budgeted.ready
  unfold stepPrepareWrites
  cases omap.ss.roundPhase with
  | daoram =>
      exact Prog.ends_bind (yields_any _) (fun _ _ => Prog.ends_pure ⟨budgeted.ready, budget⟩)
  | scanDaoram =>
      exact Prog.ends_bind (yields_any _) (fun _ _ => Prog.ends_pure ⟨budgeted.ready, budget⟩)
  | ods => exact Prog.ends_bind inTree (fun _ ready => Prog.ends_pure ⟨ready, budget⟩)
  | scanOds => exact Prog.ends_bind inTree (fun _ ready => Prog.ends_pure ⟨ready, budget⟩)
  | odsPad =>
      exact Prog.ends_bind (yields_any _) (fun _ _ => Prog.ends_pure ⟨padded _, budget⟩)
  | scanOdsPad =>
      exact Prog.ends_bind (yields_any _) (fun _ _ => Prog.ends_pure ⟨padded _, budget⟩)
  | done => exact Prog.ends_pure budgeted

omit [Cipher] in
theorem Budgeted.writeStore (budgeted : omap.Budgeted height) (request : StepWriteReq) :
    (omap.writeStore request).Budgeted height := by
  have budget := budgeted.odsBudget_eq
  have padded := fun oram => ready_setOram omap.ods oram _ budgeted.ready
  unfold DaOstOmap.writeStore
  cases omap.ss.roundPhase with
  | daoram => exact ⟨budgeted.ready, budget⟩
  | scanDaoram => exact ⟨budgeted.ready, budget⟩
  | ods => exact ⟨ready_writeStore _ _ _ budgeted.ready, budget⟩
  | scanOds => exact ⟨ready_writeStore _ _ _ budgeted.ready, budget⟩
  | odsPad => exact ⟨padded _, budget⟩
  | scanOdsPad => exact ⟨padded _, budget⟩
  | done => exact ⟨padded _, budget⟩

theorem Budgeted.yields_stepRound (budgeted : omap.Budgeted height) (remove : Bool) :
    Yields (omap.stepRound remove) (fun outcome => outcome.2.Budgeted height) := by
  unfold stepRound
  refine Prog.ends_bind budgeted.yields_stepNextRound ?_
  rintro ⟨reads, asked⟩ askedBudgeted
  refine Prog.ends_bind (yields_any _) (fun _ _ => ?_)
  refine Prog.ends_bind (askedBudgeted.stepApplyReads _).yields_stepProcess ?_
  intro processed processedBudgeted
  refine Prog.ends_bind (yields_doWhen (fun _ => processedBudgeted.yields_stepCommit remove)
    (fun _ => processedBudgeted)) ?_
  intro decided decidedBudgeted
  refine Prog.ends_bind decidedBudgeted.yields_stepPrepareWrites ?_
  rintro ⟨writes, prepared⟩ preparedBudgeted
  refine Prog.ends_bind (yields_any _) (fun _ _ => Prog.ends_pure ?_)
  have written : ∀ (writes : List StepWriteReq) (omap : DaOstOmap Ω), omap.Budgeted height →
      (writes.foldl DaOstOmap.writeStore omap).Budgeted height := by
    intro writes
    induction writes with
    | nil => exact fun _ kept => kept
    | cons write rest ih => exact fun _ kept => ih _ (kept.writeStore write)
  exact written writes prepared preparedBudgeted

omit [Cipher] in
theorem Budgeted.stepFinish (budgeted : omap.Budgeted height) :
    omap.stepFinish.2.Budgeted height := by
  have kept : ∀ {omap' : DaOstOmap Ω}, omap'.ods = omap.ods → omap'.odsBudget = omap.odsBudget →
      omap'.Budgeted height :=
    fun sameOds sameBudget => ⟨sameOds ▸ budgeted.ready, sameBudget.trans budgeted.odsBudget_eq⟩
  unfold DaOstOmap.stepFinish
  split
  · split
    · exact kept rfl rfl
    · exact budgeted
  · split
    · exact budgeted
    · dsimp only
      split
      · exact kept rfl rfl
      · exact kept rfl rfl

omit [Cipher] in
theorem Budgeted.finishPiggyback (budgeted : omap.Budgeted height) :
    omap.finishPiggyback.2.Budgeted height := by
  unfold DaOstOmap.finishPiggyback
  split
  · exact budgeted
  · dsimp only
    split
    · exact ⟨budgeted.ready, budgeted.odsBudget_eq⟩
    · exact ⟨budgeted.ready, budgeted.odsBudget_eq⟩

/-- The budget of the tree object is that of its height bound in every state. -/
theorem Reached.budgeted {config : DaOstConfig} {allowed : DaOstOmap Ω → Prop}
    (reached : Reached config allowed omap) : omap.Budgeted config.heightBound := by
  induction reached with
  | init run => exact (yields_budgeted_create config _).returned run
  | call _ _ _ run ih => exact (ih.yields_call _).returned run
  | begin _ _ _ run ih => exact (ih.yields_begin _ _).returned run
  | beginScan _ _ _ run ih => exact ih.yields_beginStepScan.returned run
  | decisions _ ih => exact ⟨ready_setStepDecisionEnabled _ _ _ ih.ready, ih.odsBudget_eq⟩
  | round _ _ _ run ih => exact (ih.yields_stepRound _).returned run
  | finish _ _ ih => exact ih.stepFinish.finishPiggyback
  | finishScan _ _ ih =>
      exact ⟨ih.stepFinish.ready, ih.stepFinish.odsBudget_eq⟩

end DaOstOmap

section Sample

attribute [local instance] clearCipher

/-- The map with one record, over a B+ tree. -/
def bplusLossMap : Rand (DaOstOmap BPlusOmap) := DaOstOmap.create lossConfig [(0, [5])]

theorem accessRequests_lossMap :
    (lossMap.runFrom {}).1.toOption.map DaOstOmap.accessRequests =
      some ([.readPaths 0, .writePaths 0] ++ pathAccesses 2 3) := by
  decide +kernel

theorem accessRequests_bplusLossMap :
    (bplusLossMap.runFrom {}).1.toOption.map DaOstOmap.accessRequests =
      some ([.readPaths 0, .writePaths 0] ++ pathAccesses 2 2) := by
  decide +kernel

end Sample

end TieredOmap
