import TieredOMap.Oram.DaAccess

/-!
# Two DAORAM operations that share their rounds

In a shared round the piggybacked operation reads the counters and the stash
that the main one has just changed. `Midway` is the state between two rounds:
the counters of the stages above are used by both operations, the blocks of the
current stage are about to move twice, and no block below has moved.
-/

namespace TieredOmap

open BinaryTreeStorage

namespace Plan

variable {plan : Plan}

/-- What an operation does to the counters of a stage. -/
def useOf (plan : Plan) : DaOp → Nat → (Nat → CounterBlock) → Nat → CounterBlock
  | .access key => plan.touchGroup key
  | .dummy => fun _ groups => groups

/-- What two operations do to the counters of a stage. -/
def useBoth (plan : Plan) (main piggyback : DaOp) (stage : Nat)
    (groups : Nat → CounterBlock) : Nat → CounterBlock :=
  plan.useOf piggyback stage (plan.useOf main stage groups)

/-- The leaves of a stage after the moves that an operation knows of. -/
def movedBy (plan : Plan) (op : DaOp) (stage : Nat) (cur : PosMapResult)
    (label : Nat → Int) : Nat → Int :=
  match op with
  | .access key => relabelled cur (plan.keyAt key stage) label
  | .dummy => label

/-- The moves that are due for an operation; a dummy moves nothing. -/
structure DueOp (plan : Plan) (stage : Nat) (op : DaOp) (old new : Nat → Int)
    (cur : PosMapResult) : Prop where
  areLeaves : ∀ leaf ∈ [cur.leaf1, cur.leaf2], IsLeaf (plan.levels stage) leaf
  due : ∀ key, op = .access key → plan.Due stage key old new cur
  moved : ∀ k < plan.sizes stage, plan.movedBy op stage cur old k = new k

theorem relabelled_eq_or (cur : PosMapResult) (key : Nat) (label : Nat → Int) (k : Nat) :
    relabelled cur key label k = label k ∨ k = key ∨ cur.rKey = some k := by
  unfold relabelled
  rcases isReset : cur.rKey with _ | rKey
  · by_cases isKey : k = key
    · exact Or.inr (Or.inl isKey)
    · exact Or.inl (Function.update_of_ne isKey _ _)
  · by_cases isR : k = rKey
    · exact Or.inr (Or.inr (by rw [isR]))
    · by_cases isKey : k = key
      · exact Or.inr (Or.inl isKey)
      · dsimp only
        rw [Function.update_of_ne isR, Function.update_of_ne isKey]
        exact Or.inl rfl

end Plan

/-- The state of one of the two operations. -/
structure DaAccess.Runs (state : DaAccess) (op : DaOp) : Prop where
  active : state.active = true
  isDummy : state.isDummy = decide (op = .dummy)
  dataKey : ∀ key, op = .access key → state.dataKey = key

theorem DaAccess.Runs.markWrites {state : DaAccess} {op : DaOp} (runs : state.Runs op) :
    state.markWrites.Runs op :=
  ⟨runs.active, runs.isDummy, runs.dataKey⟩

namespace DAOram

variable [Cipher] {da : DAOram} {plan : Plan} {counters : Counters} {labels : Nat → Nat → Int}
  {out : Nat → Finset Nat} {values : Nat → Bytes}

/-! ## Fetching -/

omit [Cipher] in
/-- Fetched blocks of new keys all go to the stash. -/
theorem pushUnseen_eq {blocks stash : List Block}
    (nodup : ((stash ++ blocks.filter (fun block => !block.isDummy)).map Block.key).Nodup) :
    pushUnseen stash blocks = stash ++ blocks.filter (fun block => !block.isDummy) := by
  induction blocks generalizing stash with
  | nil => simp [pushUnseen]
  | cons block rest ih =>
      unfold pushUnseen
      by_cases dummy : block.isDummy = true
      · rw [List.filter_cons_of_neg (by simp [dummy])] at nodup ⊢
        rw [if_pos (by simp [dummy])]
        exact ih nodup
      · rw [List.filter_cons_of_pos (by simp [dummy])] at nodup ⊢
        have fresh : block.key ∉ stash.map Block.key := by
          intro present
          rw [List.map_append, List.nodup_append'] at nodup
          exact nodup.2.2 present (List.mem_map_of_mem List.mem_cons_self)
        rw [if_neg (by simpa [dummy] using fresh), ih (by simpa using nodup)]
        simp

/-- Applying the paths of a round fetches them. -/
theorem Holding.stepApplyReads (holding : da.Holding plan counters labels out values)
    {stage : Nat} (stageEq : da.stage = stage) (stageLe : stage ≤ plan.top)
    (calm : out stage = ∅) {leaves : List Int}
    (areLeaves : ∀ leaf ∈ leaves, IsLeaf (plan.levels stage) leaf) :
    (da.stepApplyReads (leaves.map (da.treeAt stage).storage.readPath)).Holding plan counters labels
        (Function.update out stage (pathSet (plan.levels stage) leaves)) values ∧
      (∀ k < plan.sizes stage, labels stage k ∈ leaves →
        ((da.stepApplyReads (leaves.map (da.treeAt stage).storage.readPath)).treeAt
          stage).InStash k) ∧
      ∃ tree, da.stepApplyReads (leaves.map (da.treeAt stage).storage.readPath) =
        da.setTreeAt tree stage := by
  have labelled := holding.labelled stage stageLe
  rw [calm] at labelled
  have fetched := labelled.applyMerged areLeaves
  -- The data level drops blocks that it has seen, but there are none.
  have pushed : ∀ merged : PathData, ((@PathORAM.applyFetchedPath plainCipher da.dataOram
      merged).stash.map Block.key).Nodup → { da.dataOram with
        stash := pushUnseen da.dataOram.stash (merged.flatMap Prod.snd) } =
          @PathORAM.applyFetchedPath plainCipher da.dataOram merged := by
    intro merged nodup
    have sameStash : (@PathORAM.applyFetchedPath plainCipher da.dataOram merged).stash =
        da.dataOram.stash ++ (merged.flatMap Prod.snd).filter (fun block => !block.isDummy) := by
      rw [List.filter_flatMap]
      refine congrArg (da.dataOram.stash ++ ·) (List.flatMap_congr ?_)
      intro entry _
      rw [map_decryptBlock_plain]
    rw [sameStash] at nodup
    rw [pushUnseen_eq nodup, ← sameStash]
    rfl
  have applied : da.stepApplyReads (leaves.map (da.treeAt stage).storage.readPath) =
      da.setTreeAt (@PathORAM.applyFetchedPath (cipherAt stage) (da.treeAt stage)
        ((leaves.map (da.treeAt stage).storage.readPath).foldl SplitOram.mergePaths [])) stage := by
    unfold DAOram.stepApplyReads
    rw [stageEq]
    cases stage with
    | succ level => rfl
    | zero => exact congrArg (fun tree => da.setTreeAt tree 0) (pushed _ fetched.nodup_stash)
  rw [applied]
  refine ⟨?_, ?_, _, rfl⟩
  · have set := holding.setTreeAt stageLe fetched
    rwa [Function.update_eq_self] at set
  · intro k kLt leafMem
    rw [treeAt_setTreeAt _ (by rw [holding.follows.trees]; exact stageLe), if_pos rfl]
    exact fetched.inStash_of_fetched kLt leafMem

/-! ## Processing -/

/-- The two operations and the sizes are as before. -/
structure SameSteps (da da' : DAOram) : Prop where
  step : da'.step = da.step
  pbStep : da'.pbStep = da.pbStep
  levelSizes : da'.levelSizes = da.levelSizes

omit [Cipher] in
theorem SameSteps.refl (da : DAOram) : SameSteps da da := ⟨rfl, rfl, rfl⟩

omit [Cipher] in
theorem SameSteps.trans {da' da'' : DAOram} (first : SameSteps da da')
    (second : SameSteps da' da'') : SameSteps da da'' :=
  ⟨second.step.trans first.step, second.pbStep.trans first.pbStep,
    second.levelSizes.trans first.levelSizes⟩

omit [Cipher] in
theorem sameSteps_setTreeAt (da : DAOram) (tree : PathORAM) (stage : Nat) :
    SameSteps da (da.setTreeAt tree stage) := by
  rcases da.setTreeAt_keeps tree stage with ⟨_, _, _, _, levelSizes, _, _, step, pbStep⟩
  exact ⟨step, pbStep, levelSizes⟩

omit [Cipher] in
theorem SameSteps.stage_eq {da' : DAOram} (same : SameSteps da da') : da'.stage = da.stage := by
  rw [stage, stage, numPosLevels, numPosLevels, same.levelSizes, same.step]

omit [Cipher] in
theorem dueOp_access {stage key : Nat} {counters' : Counters} {cur : PosMapResult}
    (due : plan.Due stage key (plan.labelsOf counters stage) (plan.labelsOf counters' stage) cur) :
    plan.DueOp stage (.access key) (plan.labelsOf counters stage) (plan.labelsOf counters' stage)
      cur := by
  refine ⟨due.isLeaf1 (plan.labelsOf_isLeaf _ _ _), ?_, due.moved⟩
  rintro key' ⟨⟩
  exact due

omit [Cipher] in
theorem dueOp_dummy {stage : Nat} {label : Nat → Int} {cur : PosMapResult}
    (areLeaves : ∀ leaf ∈ [cur.leaf1, cur.leaf2], IsLeaf (plan.levels stage) leaf) :
    plan.DueOp stage .dummy label label cur := by
  refine ⟨areLeaves, ?_, fun _ _ => rfl⟩
  intro key isAccess
  cases isAccess

/-- The part of a round that one operation plays at a position-map level. -/
theorem Holding.ends_processLevel (holding : da.Holding plan counters labels out values)
    (valid : plan.Valid) {level : Nat} (levelLt : level < plan.top)
    (stageEq : da.stage = level + 1) {state : DaAccess} {op : DaOp} (runs : state.Runs op)
    (inRange : ∀ key, op = .access key → key < plan.sizes 0) {old new : Nat → Int}
    (dueOp : plan.DueOp (level + 1) op old new state.cur)
    (fetched : ∀ key, op = .access key → da.Fetched plan key (level + 1) state.cur) :
    Ends (da.processAccess state) (fun outcome =>
      outcome.2.Holding plan
        (Function.update counters level (plan.useOf op level (counters level)))
        (Function.update labels (level + 1)
          (plan.movedBy op (level + 1) state.cur (labels (level + 1)))) out values ∧
      plan.DueOp level op (plan.labelsOf counters level)
        (plan.labelsOf (Function.update counters level (plan.useOf op level (counters level)))
          level) outcome.1.cur ∧
      outcome.1 = { state with cur := outcome.1.cur } ∧ SameSteps da outcome.2 ∧
      ∀ k, (outcome.2.treeAt (level + 1)).InStash k ↔ (da.treeAt (level + 1)).InStash k) := by
  rcases state with ⟨active, isDummy, dataKey, cur, writeLeaf1, writeLeaf2, result⟩
  rcases runs with ⟨rfl, rfl, dataKeyEq⟩
  unfold DAOram.processAccess
  rw [stageEq]
  cases op with
  | access key =>
      obtain rfl : dataKey = key := dataKeyEq key rfl
      refine Prog.ends_bind (holding.ends_visitPosMap valid (inRange key rfl) levelLt
        (dueOp.due key rfl) (fetched key rfl)) ?_
      rintro ⟨next, visitedDa⟩ ⟨visited, due, tree, rfl, sameKeys⟩
      refine Prog.ends_pure ⟨visited, dueOp_access due, rfl,
        sameSteps_setTreeAt da tree (level + 1), ?_⟩
      intro k
      rw [← sameKeys]
      dsimp only
      rw [treeAt_setTreeAt tree (by rw [holding.follows.trees]; exact levelLt), if_pos rfl]
  | dummy =>
      refine Prog.ends_bind (holding.ends_randomLeaves (Nat.le_of_lt levelLt)) ?_
      intro cur areLeaves
      refine Prog.ends_pure ⟨?_, ?_, rfl, SameSteps.refl da, fun _ => Iff.rfl⟩
      · simp only [Plan.useOf, Plan.movedBy, Function.update_eq_self]
        exact holding
      · simp only [Plan.useOf, Function.update_eq_self]
        exact dueOp_dummy areLeaves

/-- What an operation returns in the end. -/
def resultOf (values : Nat → Bytes) : DaOp → Bytes
  | .access key => values key
  | .dummy => []

/-- The part of the last round that one operation plays. -/
theorem Holding.ends_processData (holding : da.Holding plan counters labels out values)
    (stageEq : da.stage = 0) {state : DaAccess} {op : DaOp} (runs : state.Runs op)
    {old new : Nat → Int} (dueOp : plan.DueOp 0 op old new state.cur)
    (fetched : ∀ key, op = .access key → da.Fetched plan key 0 state.cur)
    (noResult : state.result = []) :
    Ends (da.processAccess state) (fun outcome =>
      outcome.2.Holding plan counters
        (Function.update labels 0 (plan.movedBy op 0 state.cur (labels 0))) out values ∧
      outcome.1 = { state with result := resultOf values op } ∧ SameSteps da outcome.2 ∧
      ∀ k, (outcome.2.treeAt 0).InStash k ↔ (da.treeAt 0).InStash k) := by
  rcases state with ⟨active, isDummy, dataKey, cur, writeLeaf1, writeLeaf2, result⟩
  rcases runs with ⟨rfl, rfl, dataKeyEq⟩
  obtain rfl : result = [] := noResult
  unfold DAOram.processAccess
  rw [stageEq]
  cases op with
  | access key =>
      obtain rfl : dataKey = key := dataKeyEq key rfl
      refine Prog.ends_bind (holding.ends_visitData (dueOp.due key rfl) (fetched key rfl) none) ?_
      rintro ⟨result, visitedDa⟩ ⟨rfl, visited, tree, rfl, sameKeys⟩
      rw [Option.getD_none, Function.update_eq_self] at visited
      exact Prog.ends_pure ⟨visited, rfl, sameSteps_setTreeAt da tree 0, sameKeys⟩
  | dummy =>
      refine Prog.ends_pure ⟨?_, rfl, SameSteps.refl da, fun _ => Iff.rfl⟩
      simp only [Plan.movedBy, Function.update_eq_self]
      exact holding

/-! ## Rounds -/

/-- The state before a round; without a piggybacked operation, `piggyback` is a dummy. -/
structure Midway (da : DAOram) (plan : Plan) (main : DaOp) (active : Bool) (piggyback : DaOp)
    (stage : Nat) (counters : Counters) (values : Nat → Bytes) : Prop where
  round : da.step.round + stage = plan.top
  notDone : da.step.done = false
  mainRuns : da.step.toDaAccess.Runs main
  isActive : da.pbStep.active = active
  alone : active = false → piggyback = .dummy
  piggybackRuns : active = true → da.pbStep.Runs piggyback
  noMainResult : da.step.result = []
  noPiggybackResult : active = true → da.pbStep.result = []
  holding : da.Holding plan (plan.usedFrom (plan.useBoth main piggyback) stage counters)
    (plan.lagging (plan.useBoth main piggyback) stage counters) (fun _ => ∅) values
  mainDue : plan.DueOp stage main (plan.labelsOf counters stage)
    (plan.labelsOf (plan.usedFrom (plan.useOf main) 0 counters) stage) da.step.cur
  piggybackDue : active = true → plan.DueOp stage piggyback
    (plan.labelsOf (plan.usedFrom (plan.useOf main) 0 counters) stage)
    (plan.labelsOf (plan.usedFrom (plan.useBoth main piggyback) 0 counters) stage) da.pbStep.cur

/-- The leaves that a round reads and writes. -/
def roundLeaves (da : DAOram) : List Int :=
  [da.step.cur.leaf1, da.step.cur.leaf2] ++
    (if da.pbStep.active then [da.pbStep.cur.leaf1, da.pbStep.cur.leaf2] else [])

variable {main piggyback : DaOp} {active : Bool} {stage : Nat}

theorem Midway.stage_eq (midway : da.Midway plan main active piggyback stage counters values) :
    da.stage = stage := by
  have round := midway.round
  rw [DAOram.stage, midway.holding.follows.top]
  omega

theorem Midway.stage_le (midway : da.Midway plan main active piggyback stage counters values) :
    stage ≤ plan.top := by
  have round := midway.round
  omega

theorem Midway.areLeaves (midway : da.Midway plan main active piggyback stage counters values) :
    ∀ leaf ∈ da.roundLeaves, IsLeaf (plan.levels stage) leaf := by
  intro leaf leafMem
  rcases List.mem_append.mp leafMem with isMain | isPiggyback
  · exact midway.mainDue.areLeaves leaf isMain
  · rw [midway.isActive] at isPiggyback
    cases active with
    | true => exact (midway.piggybackDue rfl).areLeaves leaf isPiggyback
    | false => cases isPiggyback

theorem Midway.stepGetReads_eq
    (midway : da.Midway plan main active piggyback stage counters values) :
    da.stepGetReads = da.roundLeaves.map
      (fun leaf => { storeId := (da.treeAt da.stage).storage.storeId, leaf }) := by
  unfold DAOram.stepGetReads
  rw [midway.notDone, midway.mainRuns.active]
  rfl

theorem Midway.results_eq (midway : da.Midway plan main active piggyback stage counters values) :
    da.stepGetReads.map (fun request => (da.treeAt da.stage).storage.readPath request.leaf) =
      da.roundLeaves.map (da.treeAt stage).storage.readPath := by
  rw [midway.stepGetReads_eq, midway.stage_eq]
  exact List.map_map

omit [Cipher] in
/-- What an operation moves is in the stash once its two paths are fetched. -/
theorem fetched_of_dueOp {op : DaOp} {old new : Nat → Int} {cur : PosMapResult}
    {leaves : List Int} (dueOp : plan.DueOp stage op old new cur)
    (reads : ∀ leaf ∈ [cur.leaf1, cur.leaf2], leaf ∈ leaves)
    (valid : plan.Valid) (stageLe : stage ≤ plan.top)
    (inRange : ∀ key, op = .access key → key < plan.sizes 0)
    (inStash : ∀ k < plan.sizes stage, old k ∈ leaves → (da.treeAt stage).InStash k) (key : Nat)
    (isAccess : op = .access key) : da.Fetched plan key stage cur :=
  fetched_of_due (dueOp.due key isAccess) (Plan.keyAt_lt valid (inRange key isAccess) stageLe)
    (fun k kLt leafMem => inStash k kLt (reads _ leafMem))

omit [Cipher] in
/-- After the moves of the main operation, the stash still has the blocks of all fetched leaves. -/
theorem inStash_of_moved {op : DaOp} {old new : Nat → Int} {cur : PosMapResult}
    {leaves : List Int} (dueOp : plan.DueOp stage op old new cur)
    (fetched : ∀ key, op = .access key → da.Fetched plan key stage cur)
    (inStash : ∀ k < plan.sizes stage, old k ∈ leaves → (da.treeAt stage).InStash k) (k : Nat)
    (kLt : k < plan.sizes stage) (leafMem : new k ∈ leaves) : (da.treeAt stage).InStash k := by
  have moved := dueOp.moved k kLt
  cases op with
  | dummy => exact inStash k kLt (by rw [← moved] at leafMem; exact leafMem)
  | access key =>
      rcases Plan.relabelled_eq_or cur (plan.keyAt key stage) old k with stays | isKey | isReset
      · refine inStash k kLt ?_
        rw [← stays]
        rw [← moved] at leafMem
        exact leafMem
      · exact isKey ▸ (fetched key rfl).1
      · exact (fetched key rfl).2 k isReset

omit [Cipher] in
theorem movedBy_congr {op : DaOp} {cur : PosMapResult} {label label' : Nat → Int} {k : Nat}
    (same : label k = label' k) :
    plan.movedBy op stage cur label k = plan.movedBy op stage cur label' k := by
  cases op with
  | dummy => exact same
  | access key =>
      unfold Plan.movedBy Plan.relabelled
      rcases cur.rKey with _ | rKey <;> simp only [Function.update_apply, same]

/-- The moves of both operations take the leaves of a stage to where they belong. -/
theorem Midway.movedTwice (midway : da.Midway plan main active piggyback stage counters values) (k : Nat)
    (kLt : k < plan.sizes stage) :
    plan.movedBy piggyback stage da.pbStep.cur
      (plan.movedBy main stage da.step.cur (plan.labelsOf counters stage)) k =
        plan.labelsOf (plan.usedFrom (plan.useBoth main piggyback) 0 counters) stage k := by
  refine (movedBy_congr (midway.mainDue.moved k kLt)).trans ?_
  cases active with
  | true => exact (midway.piggybackDue rfl).moved k kLt
  | false =>
      obtain rfl := midway.alone rfl
      rfl

/-- What the DAORAM holds does not depend on the operations under way. -/
theorem Holding.setSteps (holding : da.Holding plan counters labels out values)
    (step : DaStepState) (pbStep : DaAccess) :
    { da with step, pbStep }.Holding plan counters labels out values :=
  ⟨⟨holding.follows.numIc, holding.follows.icMax, holding.follows.prf, holding.follows.top,
    holding.follows.trees, holding.follows.sizes⟩, holding.onChip, holding.sound,
    holding.labelled⟩

/-- The leaves that a round writes. -/
def writeLeaves (da : DAOram) : List Int :=
  [da.step.writeLeaf1, da.step.writeLeaf2] ++
    (if da.pbStep.active then [da.pbStep.writeLeaf1, da.pbStep.writeLeaf2] else [])

omit [Cipher] in
theorem writeLeaves_eq {da' : DAOram} (leaf1 : da'.step.writeLeaf1 = da.step.cur.leaf1)
    (leaf2 : da'.step.writeLeaf2 = da.step.cur.leaf2) (isActive : da.pbStep.active = active)
    (isActive' : da'.pbStep.active = active)
    (piggybackLeaves : active = true → da'.pbStep.writeLeaf1 = da.pbStep.cur.leaf1 ∧
      da'.pbStep.writeLeaf2 = da.pbStep.cur.leaf2) : da'.writeLeaves = da.roundLeaves := by
  rw [writeLeaves, roundLeaves, leaf1, leaf2, isActive, isActive']
  cases active with
  | true => rw [(piggybackLeaves rfl).1, (piggybackLeaves rfl).2]
  | false => rfl

/-- The buckets that a round writes are those of its paths. -/
theorem yields_stepGetWrites (da : DAOram) :
    Yields da.stepGetWrites (fun outcome =>
      outcome.1.flatMap (fun request => request.data.map Prod.fst) =
        mergedPathIndices (da.treeAt da.step.writeStage).storage.level da.writeLeaves) := by
  unfold DAOram.stepGetWrites
  refine Prog.ends_bind (@PathORAM.yields_prepareEvictionPaths (cipherAt da.step.writeStage)
    (da.treeAt da.step.writeStage) da.writeLeaves) ?_
  rintro ⟨data, tree⟩ nodes
  exact Prog.ends_pure (by simpa using nodes)

/-- Preparing the buckets of a round and writing them evicts. -/
theorem Holding.ends_stepGetWrites
    (holding : da.Holding plan counters labels
      (Function.update out stage (pathSet (plan.levels stage) da.writeLeaves)) values)
    (stageLe : stage ≤ plan.top) (writeStage : da.step.writeStage = stage)
    (areLeaves : ∀ leaf ∈ da.writeLeaves, IsLeaf (plan.levels stage) leaf) :
    Ends da.stepGetWrites (fun outcome =>
      (outcome.1.foldl writeStore outcome.2).Holding plan counters labels
        (Function.update out stage ∅) values ∧
      SameSteps da (outcome.1.foldl writeStore outcome.2)) := by
  have labelled := holding.labelled stage stageLe
  rw [Function.update_self] at labelled
  have inTrees : stage ≤ da.posMaps.length := by
    rw [holding.follows.trees]
    exact stageLe
  unfold DAOram.stepGetWrites
  rw [writeStage]
  refine Prog.ends_bind (labelled.ends_prepareEvictionPaths areLeaves) ?_
  rintro ⟨data, tree⟩ written
  have sameSteps := sameSteps_setTreeAt da tree stage
  have replaced : [({ storeId := tree.storage.storeId, data } : StepWriteReq)].foldl writeStore
      (da.setTreeAt tree stage) = da.setTreeAt (tree.writePath data) stage := by
    rw [List.foldl_cons, List.foldl_nil, writeStore, sameSteps.step, writeStage,
      treeAt_setTreeAt tree inTrees, if_pos rfl]
    cases stage with
    | zero => rfl
    | succ level => simp [DAOram.setTreeAt]
  refine Prog.ends_pure ⟨?_, ?_⟩
  · rw [replaced]
    have set := holding.setTreeAt stageLe written
    rwa [Function.update_eq_self, Function.update_idem] at set
  · rw [replaced]
    exact sameSteps_setTreeAt da _ stage

/-- The buckets of the paths to write are written, which evicts if just these were read. -/
structure Evicted (da : DAOram) (plan : Plan) (counters : Counters) (labels : Nat → Nat → Int)
    (values : Nat → Bytes) (stage : Nat) (leaves : List Int) (writes : List StepWriteReq)
    (da' : DAOram) : Prop where
  nodes : writes.flatMap (fun request => request.data.map Prod.fst) =
    mergedPathIndices (plan.levels stage) da.writeLeaves
  written : pathSet (plan.levels stage) leaves = pathSet (plan.levels stage) da.writeLeaves →
    da'.Holding plan counters labels (fun _ => ∅) values
  same : pathSet (plan.levels stage) leaves = pathSet (plan.levels stage) da.writeLeaves →
    SameSteps da da'

theorem Holding.yields_evicted {leaves : List Int}
    (holding : da.Holding plan counters labels
      (Function.update (fun _ => ∅) stage (pathSet (plan.levels stage) leaves)) values)
    (stageLe : stage ≤ plan.top) (writeStage : da.step.writeStage = stage)
    (areLeaves : ∀ leaf ∈ da.writeLeaves, IsLeaf (plan.levels stage) leaf) :
    Yields da.stepGetWrites (fun outcome =>
      da.Evicted plan counters labels values stage leaves outcome.1
        (outcome.1.foldl writeStore outcome.2)) := by
  have nodes := da.yields_stepGetWrites
  rw [writeStage, (holding.labelled stage stageLe).level_eq] at nodes
  by_cases samePaths : pathSet (plan.levels stage) leaves = pathSet (plan.levels stage) da.writeLeaves
  · rw [samePaths] at holding
    have written := yields_of_ends (holding.ends_stepGetWrites stageLe writeStage areLeaves)
    rw [update_empty] at written
    exact ((nodes.and written).allow (fun _ _ => trivial)).mono
      (fun _ both => ⟨both.1, fun _ => both.2.1, fun _ => both.2.2⟩)
  · exact nodes.mono (fun _ nodes => ⟨nodes, fun same => (samePaths same).elim,
      fun same => (samePaths same).elim⟩)

/-- The end of a round. -/
theorem Holding.ends_writes
    (holding : da.Holding plan counters labels
      (Function.update out stage (pathSet (plan.levels stage) da.writeLeaves)) values)
    (stageLe : stage ≤ plan.top) (writeStage : da.step.writeStage = stage)
    (areLeaves : ∀ leaf ∈ da.writeLeaves, IsLeaf (plan.levels stage) leaf) :
    Ends (do
      let (writes, da) ← da.stepGetWrites
      send (.batchWrite (writes.map StepWriteReq.storeId))
      return writes.foldl writeStore da) (fun da' =>
        da'.Holding plan counters labels (Function.update out stage ∅) values ∧
          SameSteps da da') := by
  refine Prog.ends_bind (holding.ends_stepGetWrites stageLe writeStage areLeaves) ?_
  rintro ⟨writes, preparedDa⟩ ⟨written, same⟩
  refine Prog.ends_bind (ends_send _) ?_
  intro _ _
  exact Prog.ends_pure ⟨written, same⟩

theorem Midway.piggybackReads
    (midway : da.Midway plan main active piggyback stage counters values)
    (shares : active = true) :
    ∀ leaf ∈ [da.pbStep.cur.leaf1, da.pbStep.cur.leaf2], leaf ∈ da.roundLeaves := by
  intro leaf leafMem
  rw [roundLeaves, midway.isActive, shares]
  exact List.mem_append_right _ leafMem

theorem Midway.active_of_access
    (midway : da.Midway plan main active piggyback stage counters values) {key : Nat}
    (isAccess : piggyback = .access key) : active = true := by
  cases active with
  | true => rfl
  | false =>
      rw [midway.alone rfl] at isAccess
      cases isAccess

/-- The piggybacked operation's part of a round at a position-map level, if there is one. -/
theorem Holding.ends_processPiggyback_level
    (holding : da.Holding plan counters labels out values) (valid : plan.Valid) {level : Nat}
    (levelLt : level < plan.top) (stageEq : da.stage = level + 1)
    (isActive : da.pbStep.active = active) (alone : active = false → piggyback = .dummy)
    (runs : active = true → da.pbStep.Runs piggyback)
    (inRange : ∀ key, piggyback = .access key → key < plan.sizes 0) {old new : Nat → Int}
    (dueOp : active = true → plan.DueOp (level + 1) piggyback old new da.pbStep.cur)
    (fetched : ∀ key, piggyback = .access key → da.Fetched plan key (level + 1) da.pbStep.cur) :
    Ends da.processPiggyback (fun outcome =>
      outcome.2.Holding plan
        (Function.update counters level (plan.useOf piggyback level (counters level)))
        (Function.update labels (level + 1)
          (plan.movedBy piggyback (level + 1) da.pbStep.cur (labels (level + 1)))) out values ∧
      (active = true → plan.DueOp level piggyback (plan.labelsOf counters level)
        (plan.labelsOf (Function.update counters level
          (plan.useOf piggyback level (counters level))) level) outcome.1.cur) ∧
      outcome.1 = (if active then { da.pbStep.markWrites with cur := outcome.1.cur }
        else da.pbStep) ∧ SameSteps da outcome.2) := by
  unfold DAOram.processPiggyback
  rw [isActive]
  cases active with
  | true =>
      refine (holding.ends_processLevel valid levelLt stageEq (runs rfl).markWrites inRange
        (dueOp rfl) fetched).mono ?_
      rintro outcome ⟨holding', due, stateEq, same, _⟩
      exact ⟨holding', fun _ => due, stateEq, same⟩
  | false =>
      obtain rfl := alone rfl
      refine Prog.ends_pure ⟨?_, fun absent => (Bool.false_ne_true absent).elim, rfl,
        SameSteps.refl da⟩
      simp only [Plan.useOf, Plan.movedBy, Function.update_eq_self]
      exact holding

/-- The piggybacked operation's part of the last round, if there is one. -/
theorem Holding.ends_processPiggyback_data
    (holding : da.Holding plan counters labels out values) (stageEq : da.stage = 0)
    (isActive : da.pbStep.active = active) (alone : active = false → piggyback = .dummy)
    (runs : active = true → da.pbStep.Runs piggyback) {old new : Nat → Int}
    (dueOp : active = true → plan.DueOp 0 piggyback old new da.pbStep.cur)
    (fetched : ∀ key, piggyback = .access key → da.Fetched plan key 0 da.pbStep.cur)
    (noResult : active = true → da.pbStep.result = []) :
    Ends da.processPiggyback (fun outcome =>
      outcome.2.Holding plan counters
        (Function.update labels 0 (plan.movedBy piggyback 0 da.pbStep.cur (labels 0))) out values ∧
      outcome.1 = (if active then { da.pbStep.markWrites with result := resultOf values piggyback }
        else da.pbStep) ∧ SameSteps da outcome.2) := by
  unfold DAOram.processPiggyback
  rw [isActive]
  cases active with
  | true =>
      refine (holding.ends_processData stageEq (runs rfl).markWrites (dueOp rfl) fetched
        (noResult rfl)).mono ?_
      rintro outcome ⟨holding', stateEq, same, _⟩
      exact ⟨holding', stateEq, same⟩
  | false =>
      obtain rfl := alone rfl
      refine Prog.ends_pure ⟨?_, rfl, SameSteps.refl da⟩
      simp only [Plan.movedBy, Function.update_eq_self]
      exact holding

/-- The client's part of a round at a position-map level. -/
theorem Midway.ends_stepProcess_level {level : Nat} {fetchedDa : DAOram}
    (midway : da.Midway plan main active piggyback (level + 1) counters values) (valid : plan.Valid)
    (mainInRange : ∀ key, main = .access key → key < plan.sizes 0)
    (piggybackInRange : ∀ key, piggyback = .access key → key < plan.sizes 0)
    (same : SameSteps da fetchedDa)
    (fetched : fetchedDa.Holding plan
      (plan.usedFrom (plan.useBoth main piggyback) (level + 1) counters)
      (plan.lagging (plan.useBoth main piggyback) (level + 1) counters) out values)
    (inStash : ∀ k < plan.sizes (level + 1), plan.labelsOf counters (level + 1) k ∈ da.roundLeaves →
      (fetchedDa.treeAt (level + 1)).InStash k) :
    Ends fetchedDa.stepProcess (fun da' =>
      da'.Holding plan (plan.usedFrom (plan.useBoth main piggyback) level counters)
        (plan.lagging (plan.useBoth main piggyback) level counters) out values ∧
      da'.levelSizes = da.levelSizes ∧ ∃ mainCur piggybackCur,
        da'.step = { toDaAccess := { da.step.toDaAccess.markWrites with cur := mainCur }
                     round := da.step.round + 1, writeStage := level + 1, done := false } ∧
        da'.pbStep = (if active then { da.pbStep.markWrites with cur := piggybackCur }
          else da.pbStep) ∧
        plan.DueOp level main (plan.labelsOf counters level)
          (plan.labelsOf (plan.usedFrom (plan.useOf main) 0 counters) level) mainCur ∧
        (active = true → plan.DueOp level piggyback
          (plan.labelsOf (plan.usedFrom (plan.useOf main) 0 counters) level)
          (plan.labelsOf (plan.usedFrom (plan.useBoth main piggyback) 0 counters) level)
          piggybackCur)) := by
  have levelLt : level < plan.top := midway.stage_le
  have mainFetched := fetched_of_dueOp midway.mainDue (by simp [roundLeaves]) valid midway.stage_le
    mainInRange inStash
  have inStashAfter := inStash_of_moved midway.mainDue mainFetched inStash
  have unused : plan.usedFrom (plan.useBoth main piggyback) (level + 1) counters level =
      counters level := Plan.usedFrom_of_lt (Nat.lt_succ_self level)
  have usedOnce : plan.usedFrom (plan.useOf main) 0 counters level =
      plan.useOf main level (counters level) :=
    Plan.usedFrom_of_le (Nat.zero_le _) (Nat.le_of_lt levelLt)
  have lagged : plan.lagging (plan.useBoth main piggyback) (level + 1) counters (level + 1) =
      plan.labelsOf counters (level + 1) := by
    rw [Plan.lagging, if_pos (Nat.le_refl _)]
  have fetchedStage : fetchedDa.stage = level + 1 := same.stage_eq.trans midway.stage_eq
  unfold DAOram.stepProcess
  rw [same.step]
  refine Prog.ends_bind (fetched.ends_processLevel valid levelLt fetchedStage
    midway.mainRuns.markWrites mainInRange midway.mainDue mainFetched) ?_
  rintro ⟨mainState, mainDa⟩ ⟨mainHolding, mainDue, mainEq, mainSame, mainKeys⟩
  dsimp only at mainHolding mainDue mainEq mainSame mainKeys ⊢
  have piggybackFetched : ∀ key, piggyback = .access key →
      mainDa.Fetched plan key (level + 1) da.pbStep.cur := by
    intro key isAccess
    have shares := midway.active_of_access isAccess
    exact fetched_of_dueOp (midway.piggybackDue shares) (midway.piggybackReads shares) valid
      midway.stage_le piggybackInRange
      (fun k kLt leafMem => (mainKeys k).mpr (inStashAfter k kLt leafMem)) key isAccess
  have allSame := same.trans mainSame
  rw [unused] at mainHolding mainDue
  have processed := mainHolding.ends_processPiggyback_level valid levelLt
    (mainSame.stage_eq.trans fetchedStage) (allSame.pbStep ▸ midway.isActive) midway.alone
    (allSame.pbStep ▸ midway.piggybackRuns) piggybackInRange
    (allSame.pbStep ▸ midway.piggybackDue) (allSame.pbStep ▸ piggybackFetched)
  rw [allSame.pbStep] at processed
  refine Prog.ends_bind processed ?_
  rintro ⟨piggybackState, lastDa⟩ ⟨holding, piggybackDue, piggybackEq, piggybackSame⟩
  dsimp only at holding piggybackDue piggybackEq piggybackSame ⊢
  have lastSame := allSame.trans piggybackSame
  have usedTwice : plan.useOf piggyback level (plan.useOf main level (counters level)) =
      plan.useBoth main piggyback level (counters level) := rfl
  rw [Function.update_self, usedTwice, Function.update_idem,
    Plan.usedFrom_succ levelLt] at holding piggybackDue
  have mainLabels : plan.labelsOf (Function.update (plan.usedFrom (plan.useBoth main piggyback)
      (level + 1) counters) level (plan.useOf main level (counters level))) level =
        plan.labelsOf (plan.usedFrom (plan.useOf main) 0 counters) level :=
    Plan.labelsOf_congr ((Function.update_self _ _ _).trans usedOnce.symm)
  rw [mainLabels, Plan.labelsOf_congr unused] at mainDue
  rw [mainLabels, Plan.labelsOf_usedFrom (Nat.le_refl _) (Nat.le_of_lt levelLt)] at piggybackDue
  have round := midway.round
  refine Prog.ends_pure ⟨(holding.setSteps _ _).congrLabels ?_, lastSame.levelSizes, mainState.cur,
    piggybackState.cur, ?_, piggybackEq, mainDue, piggybackDue⟩
  · intro stage _ k kLt
    by_cases here : stage = level + 1
    · subst here
      rw [Function.update_self, Function.update_self, lagged, Plan.lagging, if_neg (by omega)]
      exact midway.movedTwice k kLt
    · rw [Function.update_of_ne here, Function.update_of_ne here, Plan.lagging, Plan.lagging]
      by_cases below : stage ≤ level
      · rw [if_pos below, if_pos (by omega)]
      · rw [if_neg below, if_neg (by omega)]
  · have notLast : decide (lastDa.numPosLevels < da.step.round + 1) = false := by
      rw [numPosLevels, lastSame.levelSizes]
      exact decide_eq_false (by rw [← numPosLevels, midway.holding.follows.top]; omega)
    rw [piggybackSame.stage_eq, mainSame.stage_eq, fetchedStage, lastSame.step, midway.notDone,
      notLast, mainEq]
    rfl

/-- The client's part of the last shared round. -/
theorem Midway.ends_stepProcess_data {fetchedDa : DAOram}
    (midway : da.Midway plan main active piggyback 0 counters values) (valid : plan.Valid)
    (mainInRange : ∀ key, main = .access key → key < plan.sizes 0)
    (piggybackInRange : ∀ key, piggyback = .access key → key < plan.sizes 0)
    (same : SameSteps da fetchedDa)
    (fetched : fetchedDa.Holding plan (plan.usedFrom (plan.useBoth main piggyback) 0 counters)
      (plan.lagging (plan.useBoth main piggyback) 0 counters) out values)
    (inStash : ∀ k < plan.sizes 0, plan.labelsOf counters 0 k ∈ da.roundLeaves →
      (fetchedDa.treeAt 0).InStash k) :
    Ends fetchedDa.stepProcess (fun da' =>
      da'.Holding plan (plan.usedFrom (plan.useBoth main piggyback) 0 counters)
        (plan.labelsOf (plan.usedFrom (plan.useBoth main piggyback) 0 counters)) out values ∧
      da'.levelSizes = da.levelSizes ∧
      da'.step = { toDaAccess := { da.step.toDaAccess.markWrites with result := resultOf values main }
                   round := da.step.round + 1, writeStage := 0, done := true } ∧
      da'.pbStep = (if active then { da.pbStep.markWrites with result := resultOf values piggyback }
        else da.pbStep)) := by
  have mainFetched := fetched_of_dueOp midway.mainDue (by simp [roundLeaves]) valid midway.stage_le
    mainInRange inStash
  have inStashAfter := inStash_of_moved midway.mainDue mainFetched inStash
  have lagged : plan.lagging (plan.useBoth main piggyback) 0 counters 0 =
      plan.labelsOf counters 0 := by
    rw [Plan.lagging, if_pos (Nat.le_refl _)]
  have fetchedStage : fetchedDa.stage = 0 := same.stage_eq.trans midway.stage_eq
  unfold DAOram.stepProcess
  rw [same.step]
  refine Prog.ends_bind (fetched.ends_processData fetchedStage midway.mainRuns.markWrites
    midway.mainDue mainFetched midway.noMainResult) ?_
  rintro ⟨mainState, mainDa⟩ ⟨mainHolding, mainEq, mainSame, mainKeys⟩
  dsimp only at mainHolding mainEq mainSame mainKeys ⊢
  have piggybackFetched : ∀ key, piggyback = .access key →
      mainDa.Fetched plan key 0 da.pbStep.cur := by
    intro key isAccess
    have shares := midway.active_of_access isAccess
    exact fetched_of_dueOp (midway.piggybackDue shares) (midway.piggybackReads shares) valid
      midway.stage_le piggybackInRange
      (fun k kLt leafMem => (mainKeys k).mpr (inStashAfter k kLt leafMem)) key isAccess
  have allSame := same.trans mainSame
  have processed := mainHolding.ends_processPiggyback_data
    (mainSame.stage_eq.trans fetchedStage) (allSame.pbStep ▸ midway.isActive) midway.alone
    (allSame.pbStep ▸ midway.piggybackRuns) (allSame.pbStep ▸ midway.piggybackDue)
    (allSame.pbStep ▸ piggybackFetched) (allSame.pbStep ▸ midway.noPiggybackResult)
  rw [allSame.pbStep] at processed
  refine Prog.ends_bind processed ?_
  rintro ⟨piggybackState, lastDa⟩ ⟨holding, piggybackEq, piggybackSame⟩
  dsimp only at holding piggybackEq piggybackSame ⊢
  have lastSame := allSame.trans piggybackSame
  have round := midway.round
  refine Prog.ends_pure ⟨(holding.setSteps _ _).congrLabels ?_, lastSame.levelSizes, ?_,
    piggybackEq⟩
  · intro stage _ k kLt
    by_cases here : stage = 0
    · subst here
      rw [Function.update_self, Function.update_self, lagged]
      exact midway.movedTwice k kLt
    · rw [Function.update_of_ne here, Function.update_of_ne here, Plan.lagging, if_neg (by omega)]
  · have last : decide (lastDa.numPosLevels < da.step.round + 1) = true := by
      rw [numPosLevels, lastSame.levelSizes]
      exact decide_eq_true (by rw [← numPosLevels, midway.holding.follows.top]; omega)
    rw [piggybackSame.stage_eq, mainSame.stage_eq, fetchedStage, lastSame.step, midway.notDone,
      last, mainEq]
    rfl

/-- The DAORAM after the client's part of a round. -/
inductive Processed (da : DAOram) (plan : Plan) (main : DaOp) (active : Bool) (piggyback : DaOp)
    (counters : Counters) (values : Nat → Bytes) (processedDa : DAOram) : Nat → Prop
  | level {level : Nat} {mainCur piggybackCur : PosMapResult}
      (holding : processedDa.Holding plan
        (plan.usedFrom (plan.useBoth main piggyback) level counters)
        (plan.lagging (plan.useBoth main piggyback) level counters)
        (Function.update (fun _ => ∅) (level + 1)
          (pathSet (plan.levels (level + 1)) da.roundLeaves)) values)
      (stepEq : processedDa.step = {
        toDaAccess := { da.step.toDaAccess.markWrites with cur := mainCur }
        round := da.step.round + 1, writeStage := level + 1, done := false })
      (pbStepEq : processedDa.pbStep =
        (if active then { da.pbStep.markWrites with cur := piggybackCur } else da.pbStep))
      (mainDue : plan.DueOp level main (plan.labelsOf counters level)
        (plan.labelsOf (plan.usedFrom (plan.useOf main) 0 counters) level) mainCur)
      (piggybackDue : active = true → plan.DueOp level piggyback
        (plan.labelsOf (plan.usedFrom (plan.useOf main) 0 counters) level)
        (plan.labelsOf (plan.usedFrom (plan.useBoth main piggyback) 0 counters) level)
        piggybackCur) :
      Processed da plan main active piggyback counters values processedDa (level + 1)
  | data
      (holding : processedDa.Holding plan
        (plan.usedFrom (plan.useBoth main piggyback) 0 counters)
        (plan.labelsOf (plan.usedFrom (plan.useBoth main piggyback) 0 counters))
        (Function.update (fun _ => ∅) 0 (pathSet (plan.levels 0) da.roundLeaves)) values)
      (stepEq : processedDa.step = {
        toDaAccess := { da.step.toDaAccess.markWrites with result := resultOf values main }
        round := da.step.round + 1, writeStage := 0, done := true })
      (pbStepEq : processedDa.pbStep = (if active then
        { da.pbStep.markWrites with result := resultOf values piggyback } else da.pbStep)) :
      Processed da plan main active piggyback counters values processedDa 0

/-- Fetching the paths of a round and the client's part. -/
theorem Midway.ends_process (midway : da.Midway plan main active piggyback stage counters values)
    (valid : plan.Valid) (mainInRange : ∀ key, main = .access key → key < plan.sizes 0)
    (piggybackInRange : ∀ key, piggyback = .access key → key < plan.sizes 0) :
    Ends (da.stepApplyReads (da.stepGetReads.map
      (fun request => (da.treeAt da.stage).storage.readPath request.leaf))).stepProcess
      (fun processedDa =>
        da.Processed plan main active piggyback counters values processedDa stage) := by
  have lagged : plan.lagging (plan.useBoth main piggyback) stage counters stage =
      plan.labelsOf counters stage := by
    rw [Plan.lagging, if_pos (Nat.le_refl _)]
  rw [midway.results_eq]
  rcases midway.holding.stepApplyReads midway.stage_eq midway.stage_le rfl midway.areLeaves
    with ⟨fetched, inStash, tree, applied⟩
  rw [lagged] at inStash
  rw [applied] at fetched inStash ⊢
  have same := sameSteps_setTreeAt da tree stage
  cases stage with
  | zero =>
      refine (midway.ends_stepProcess_data valid mainInRange piggybackInRange same fetched
        inStash).mono ?_
      rintro processedDa ⟨holding, _, stepEq, pbStepEq⟩
      exact .data holding stepEq pbStepEq
  | succ level =>
      refine (midway.ends_stepProcess_level valid mainInRange piggybackInRange same fetched
        inStash).mono ?_
      rintro processedDa ⟨holding, _, mainCur, piggybackCur, stepEq, pbStepEq, mainDue, pbDue⟩
      exact .level holding stepEq pbStepEq mainDue pbDue

/-- The client's part of a round keeps the leaves to write. -/
theorem Processed.writeLeaves_eq {processedDa : DAOram}
    (processed : da.Processed plan main active piggyback counters values processedDa stage)
    (isActive : da.pbStep.active = active) :
    processedDa.pbStep.active = active ∧ processedDa.writeLeaves = da.roundLeaves := by
  cases processed with
  | level _ stepEq pbStepEq _ _ =>
      have isActive' : processedDa.pbStep.active = active := by
        rw [pbStepEq]
        split <;> exact isActive
      refine ⟨isActive', DAOram.writeLeaves_eq (by rw [stepEq]; rfl) (by rw [stepEq]; rfl) isActive
        isActive' ?_⟩
      intro shares
      rw [pbStepEq, if_pos shares]
      exact ⟨rfl, rfl⟩
  | data _ stepEq pbStepEq =>
      have isActive' : processedDa.pbStep.active = active := by
        rw [pbStepEq]
        split <;> exact isActive
      refine ⟨isActive', DAOram.writeLeaves_eq (by rw [stepEq]; rfl) (by rw [stepEq]; rfl) isActive
        isActive' ?_⟩
      intro shares
      rw [pbStepEq, if_pos shares]
      exact ⟨rfl, rfl⟩

/-- A round is a fetch, the client's part and the writes. -/
theorem Midway.ends_stepRound {Q : DAOram → Prop}
    (midway : da.Midway plan main active piggyback stage counters values) (valid : plan.Valid)
    (mainInRange : ∀ key, main = .access key → key < plan.sizes 0)
    (piggybackInRange : ∀ key, piggyback = .access key → key < plan.sizes 0)
    (writes : ∀ processedDa,
      da.Processed plan main active piggyback counters values processedDa stage → Ends (do
        let (writes, da) ← processedDa.stepGetWrites
        send (.batchWrite (writes.map StepWriteReq.storeId))
        return writes.foldl writeStore da) Q) : Ends da.stepRound Q := by
  refine Prog.ends_bind (ends_send _) ?_
  intro _ _
  exact Prog.ends_bind (midway.ends_process valid mainInRange piggybackInRange) writes

/-- A round at a position-map level leads to the state before the round of the level below. -/
theorem Midway.descend {level : Nat} {writtenDa : DAOram} {mainCur piggybackCur : PosMapResult}
    (midway : da.Midway plan main active piggyback (level + 1) counters values)
    (stepEq : writtenDa.step = {
      toDaAccess := { da.step.toDaAccess.markWrites with cur := mainCur }
      round := da.step.round + 1, writeStage := level + 1, done := false })
    (pbStepEq : writtenDa.pbStep =
      (if active then { da.pbStep.markWrites with cur := piggybackCur } else da.pbStep))
    (mainDue : plan.DueOp level main (plan.labelsOf counters level)
      (plan.labelsOf (plan.usedFrom (plan.useOf main) 0 counters) level) mainCur)
    (piggybackDue : active = true → plan.DueOp level piggyback
      (plan.labelsOf (plan.usedFrom (plan.useOf main) 0 counters) level)
      (plan.labelsOf (plan.usedFrom (plan.useBoth main piggyback) 0 counters) level) piggybackCur)
    (written : writtenDa.Holding plan
      (plan.usedFrom (plan.useBoth main piggyback) level counters)
      (plan.lagging (plan.useBoth main piggyback) level counters) (fun _ => ∅) values) :
    writtenDa.Midway plan main active piggyback level counters values := by
  have round := midway.round
  refine ⟨?_, ?_, ?_, ?_, midway.alone, ?_, ?_, ?_, written, ?_, ?_⟩
  · rw [stepEq]
    dsimp only
    omega
  · rw [stepEq]
  · rw [stepEq]
    exact ⟨midway.mainRuns.active, midway.mainRuns.isDummy, midway.mainRuns.dataKey⟩
  · rw [pbStepEq]
    split <;> exact midway.isActive
  · intro shares
    have runs := midway.piggybackRuns shares
    rw [pbStepEq, if_pos shares]
    exact ⟨runs.active, runs.isDummy, runs.dataKey⟩
  · rw [stepEq]
    exact midway.noMainResult
  · intro shares
    rw [pbStepEq, if_pos shares]
    exact midway.noPiggybackResult shares
  · rw [stepEq]
    exact mainDue
  · intro shares
    rw [pbStepEq, if_pos shares]
    exact piggybackDue shares

/-- A shared round at a position-map level leads to the level below. -/
theorem Midway.ends_stepRound_level {level : Nat}
    (midway : da.Midway plan main active piggyback (level + 1) counters values) (valid : plan.Valid)
    (mainInRange : ∀ key, main = .access key → key < plan.sizes 0)
    (piggybackInRange : ∀ key, piggyback = .access key → key < plan.sizes 0) :
    Ends da.stepRound (fun da' => da'.Midway plan main active piggyback level counters values) := by
  refine midway.ends_stepRound valid mainInRange piggybackInRange ?_
  intro processedDa processed
  have sameLeaves := (processed.writeLeaves_eq midway.isActive).2
  rcases processed with ⟨holding, stepEq, pbStepEq, mainDue, piggybackDue⟩
  rw [← sameLeaves] at holding
  refine (holding.ends_writes midway.stage_le (by rw [stepEq])
    (sameLeaves ▸ midway.areLeaves)).mono ?_
  rintro writtenDa ⟨written, same⟩
  rw [update_empty] at written
  exact midway.descend (same.step.trans stepEq) (same.pbStep.trans pbStepEq) mainDue piggybackDue
    written

/-- Both operations are through with their rounds. -/
structure Finished (da : DAOram) (plan : Plan) (main : DaOp) (active : Bool) (piggyback : DaOp)
    (counters : Counters) (values : Nat → Bytes) : Prop where
  represents : da.Represents plan (plan.usedFrom (plan.useBoth main piggyback) 0 counters) values
  done : da.step.done = true
  mainResult : da.step.result = resultOf values main
  isActive : da.pbStep.active = active
  piggybackResult : active = true → da.pbStep.result = resultOf values piggyback

/-- The last shared round leaves every block where it belongs. -/
theorem Midway.ends_stepRound_data (midway : da.Midway plan main active piggyback 0 counters values)
    (valid : plan.Valid) (mainInRange : ∀ key, main = .access key → key < plan.sizes 0)
    (piggybackInRange : ∀ key, piggyback = .access key → key < plan.sizes 0) :
    Ends da.stepRound (fun da' => da'.Finished plan main active piggyback counters values) := by
  refine midway.ends_stepRound valid mainInRange piggybackInRange ?_
  intro processedDa processed
  rcases processed.writeLeaves_eq midway.isActive with ⟨isActive, sameLeaves⟩
  rcases processed with _ | ⟨holding, stepEq, pbStepEq⟩
  rw [← sameLeaves] at holding
  refine (holding.ends_writes midway.stage_le (by rw [stepEq])
    (sameLeaves ▸ midway.areLeaves)).mono ?_
  rintro writtenDa ⟨written, same⟩
  rw [update_empty] at written
  refine ⟨written, by rw [same.step, stepEq], by rw [same.step, stepEq],
    by rw [same.pbStep, isActive], ?_⟩
  intro shares
  rw [same.pbStep, pbStepEq, if_pos shares]

/-- All rounds. -/
theorem Midway.ends_stepRounds (midway : da.Midway plan main active piggyback stage counters values)
    (valid : plan.Valid) (mainInRange : ∀ key, main = .access key → key < plan.sizes 0)
    (piggybackInRange : ∀ key, piggyback = .access key → key < plan.sizes 0) :
    Ends (stepRounds (stage + 1) da)
      (fun da' => da'.Finished plan main active piggyback counters values) := by
  induction stage generalizing da with
  | zero =>
      unfold stepRounds
      rw [midway.notDone]
      refine Prog.ends_bind (midway.ends_stepRound_data valid mainInRange piggybackInRange) ?_
      intro da' finished
      unfold stepRounds
      rw [finished.done]
      exact Prog.ends_pure finished
  | succ level ih =>
      unfold stepRounds
      rw [midway.notDone]
      refine Prog.ends_bind (midway.ends_stepRound_level valid mainInRange piggybackInRange) ?_
      intro da' midway'
      exact ih midway'

/-! ## Whole runs -/

omit [Cipher] in
/-- An access whose counters on the chip have been used. -/
theorem runs_access {key : Nat} {cur : PosMapResult} :
    ({ active := true, dataKey := key, cur } : DaAccess).Runs (.access key) := by
  refine ⟨rfl, rfl, ?_⟩
  rintro key' ⟨⟩
  rfl

omit [Cipher] in
theorem runs_dummy {cur : PosMapResult} :
    ({ active := true, isDummy := true, cur } : DaAccess).Runs .dummy := by
  refine ⟨rfl, rfl, ?_⟩
  intro key isAccess
  cases isAccess

omit [Cipher] in
theorem usedFrom_dummy (stage : Nat) :
    plan.usedFrom (plan.useOf .dummy) stage counters = counters := by
  funext stage'
  rw [Plan.usedFrom]
  split <;> rfl

/-- Beginning the main operation; an earlier piggybacked operation is not looked at. -/
theorem Represents.ends_beginStep (represents : da.Represents plan counters values)
    (valid : plan.Valid) (inRange : ∀ key, main = .access key → key < plan.sizes 0) :
    Ends (da.beginStep main) (fun da' => da'.pbStep = da.pbStep ∧
      ({ da' with pbStep := {} } : DAOram).Midway plan main false .dummy plan.top counters
        values) := by
  have used : plan.labelsOf (plan.usedFrom (plan.useOf main) plan.top counters) plan.top =
      plan.labelsOf (plan.usedFrom (plan.useOf main) 0 counters) plan.top :=
    Plan.labelsOf_usedFrom (Nat.le_refl _) (Nat.le_refl _)
  have begun : ∀ (da' : DAOram) (state : DaAccess), state.Runs main → state.result = [] →
      da'.Holding plan (plan.usedFrom (plan.useOf main) plan.top counters)
        (plan.labelsOf counters) (fun _ => ∅) values →
      plan.DueOp plan.top main (plan.labelsOf counters plan.top)
        (plan.labelsOf (plan.usedFrom (plan.useOf main) plan.top counters) plan.top) state.cur →
      ({ da' with step := { toDaAccess := state }, pbStep := {} } : DAOram).Midway plan main false
        .dummy plan.top counters values := by
    intro da' state runs noResult holding due
    refine ⟨Nat.zero_add _, rfl, runs, rfl, fun _ => rfl, ?_, noResult, ?_,
      (holding.setSteps _ _).congrLabels ?_, used ▸ due, ?_⟩
    · intro shares
      cases shares
    · intro shares
      cases shares
    · intro stage stageLe k _
      rw [Plan.lagging_top stageLe]
    · intro shares
      cases shares
  cases main with
  | access key =>
      refine Prog.ends_bind (Holding.ends_touchOnChip represents valid (inRange key rfl)) ?_
      rintro ⟨cur, touchedDa⟩ ⟨holding, due, onChip, rfl⟩
      rw [← Plan.usedFrom_top] at holding due
      exact Prog.ends_pure ⟨rfl,
        begun { da with onChip } _ runs_access rfl holding (dueOp_access due)⟩
  | dummy =>
      unfold DAOram.beginStep DAOram.beginStepDummy
      rw [represents.follows.top]
      refine Prog.ends_bind (Holding.ends_randomLeaves represents (Nat.le_refl _)) ?_
      intro cur areLeaves
      refine Prog.ends_pure ⟨rfl, begun da _ runs_dummy rfl ?_ ?_⟩
      · rw [usedFrom_dummy]
        exact represents
      · rw [usedFrom_dummy]
        exact dueOp_dummy areLeaves

/-- The main operation alone, when no piggybacked operation is active. -/
theorem Midway.alone_of_inactive
    (midway : ({ da with pbStep := {} } : DAOram).Midway plan main false .dummy stage counters
      values) (inactive : da.pbStep.active = false) :
    da.Midway plan main false .dummy stage counters values := by
  refine ⟨midway.round, midway.notDone, midway.mainRuns, inactive, fun _ => rfl, ?_,
    midway.noMainResult, ?_, midway.holding.setSteps da.step da.pbStep, midway.mainDue, ?_⟩
  · intro shares
    cases shares
  · intro shares
    cases shares
  · intro shares
    cases shares

/-- Beginning the piggybacked operation completes the state before the first round. -/
theorem Midway.ends_beginPiggyback
    (midway : ({ da with pbStep := {} } : DAOram).Midway plan main false .dummy plan.top counters
      values) (valid : plan.Valid) (inRange : ∀ key, piggyback = .access key → key < plan.sizes 0) :
    Ends (da.beginPiggyback piggyback)
      (fun da' => da'.Midway plan main true piggyback plan.top counters values) := by
  have mainTop : plan.usedFrom (plan.useOf main) plan.top counters plan.top =
      plan.useOf main plan.top (counters plan.top) :=
    Plan.usedFrom_of_le (Nat.le_refl _) (Nat.le_refl _)
  have usedMain : plan.labelsOf (plan.usedFrom (plan.useOf main) plan.top counters) plan.top =
      plan.labelsOf (plan.usedFrom (plan.useOf main) 0 counters) plan.top :=
    Plan.labelsOf_usedFrom (Nat.le_refl _) (Nat.le_refl _)
  have usedTwice : Function.update (plan.usedFrom (plan.useOf main) plan.top counters) plan.top
      (plan.useOf piggyback plan.top (plan.useOf main plan.top (counters plan.top))) =
        plan.usedFrom (plan.useBoth main piggyback) plan.top counters := by
    rw [Plan.usedFrom_top, Plan.usedFrom_top, Function.update_idem]
    rfl
  have usedBoth :
      plan.labelsOf (plan.usedFrom (plan.useBoth main piggyback) plan.top counters) plan.top =
        plan.labelsOf (plan.usedFrom (plan.useBoth main piggyback) 0 counters) plan.top :=
    Plan.labelsOf_usedFrom (Nat.le_refl _) (Nat.le_refl _)
  have holding : da.Holding plan (plan.usedFrom (plan.useOf main) plan.top counters)
      (plan.labelsOf counters) (fun _ => ∅) values := by
    refine (midway.holding.setSteps da.step da.pbStep).congrLabels ?_
    intro stage stageLe k _
    rw [Plan.lagging_top stageLe]
  have begun : ∀ (da' : DAOram) (state : DaAccess), state.Runs piggyback → state.result = [] →
      da'.step = da.step →
      da'.Holding plan (plan.usedFrom (plan.useBoth main piggyback) plan.top counters)
        (plan.labelsOf counters) (fun _ => ∅) values →
      plan.DueOp plan.top piggyback
        (plan.labelsOf (plan.usedFrom (plan.useOf main) 0 counters) plan.top)
        (plan.labelsOf (plan.usedFrom (plan.useBoth main piggyback) 0 counters) plan.top)
        state.cur →
      ({ da' with pbStep := state } : DAOram).Midway plan main true piggyback plan.top counters
        values := by
    intro da' state piggybackRuns noResult sameStep begunHolding piggybackDue
    refine ⟨?_, ?_, ?_, piggybackRuns.active, ?_, fun _ => piggybackRuns, ?_, fun _ => noResult,
      (begunHolding.setSteps _ _).congrLabels ?_, ?_, fun _ => piggybackDue⟩
    · exact sameStep ▸ midway.round
    · exact sameStep ▸ midway.notDone
    · exact sameStep ▸ midway.mainRuns
    · intro absent
      cases absent
    · exact sameStep ▸ midway.noMainResult
    · intro stage stageLe k _
      rw [Plan.lagging_top stageLe]
    · exact sameStep ▸ midway.mainDue
  cases piggyback with
  | access key =>
      refine Prog.ends_bind (holding.ends_touchOnChip valid (inRange key rfl)) ?_
      rintro ⟨cur', touchedDa⟩ ⟨touched, due, onChip, rfl⟩
      rw [mainTop] at touched due
      refine Prog.ends_pure (begun _ _ runs_access rfl rfl ?_ ?_)
      · rw [← usedTwice]
        exact touched
      · rw [← usedMain, ← usedBoth, ← usedTwice]
        exact dueOp_access due
  | dummy =>
      have sameUse : plan.usedFrom (plan.useBoth main .dummy) plan.top counters =
          plan.usedFrom (plan.useOf main) plan.top counters := rfl
      unfold DAOram.beginPiggyback DAOram.beginPiggybackDummy
      rw [holding.follows.top]
      refine Prog.ends_bind (holding.ends_randomLeaves (Nat.le_refl _)) ?_
      intro cur' areLeaves
      refine Prog.ends_pure (begun _ _ runs_dummy rfl rfl ?_ (dueOp_dummy areLeaves))
      rw [sameUse]
      exact holding

/-- Two operations that share their rounds use the counters as one after the other. -/
theorem Represents.ends_runTogether (represents : da.Represents plan counters values)
    (valid : plan.Valid) (mainInRange : ∀ key, main = .access key → key < plan.sizes 0)
    (piggybackInRange : ∀ key, piggyback = .access key → key < plan.sizes 0) :
    Ends (da.runTogether main piggyback) (fun outcome =>
      outcome.1 = (resultOf values main, resultOf values piggyback) ∧
      outcome.2.Represents plan (plan.usedFrom (plan.useBoth main piggyback) 0 counters)
        values) := by
  refine Prog.ends_bind (represents.ends_beginStep valid mainInRange) ?_
  rintro mainDa ⟨_, begun⟩
  refine Prog.ends_bind (begun.ends_beginPiggyback valid piggybackInRange) ?_
  intro begunDa midway
  rw [midway.holding.follows.top]
  refine Prog.ends_bind (midway.ends_stepRounds valid mainInRange piggybackInRange) ?_
  intro lastDa finished
  refine Prog.ends_pure ⟨?_, ?_⟩
  · rw [← finished.mainResult, ← finished.piggybackResult rfl]
  · exact finished.represents.setSteps _ _

theorem Represents.ends_runAlone (represents : da.Represents plan counters values)
    (valid : plan.Valid) (inRange : ∀ key, main = .access key → key < plan.sizes 0) :
    Ends (da.runAlone main) (fun outcome => outcome.1 = resultOf values main ∧
      outcome.2.Represents plan (plan.usedFrom (plan.useOf main) 0 counters) values) := by
  cases main with
  | access key =>
      refine (represents.ends_access valid (inRange key rfl) none).mono ?_
      rintro outcome ⟨resultEq, represents'⟩
      rw [Option.getD_none, Function.update_eq_self] at represents'
      exact ⟨resultEq, represents'⟩
  | dummy =>
      refine Prog.ends_bind represents.ends_dummyAccess ?_
      intro da' represents'
      refine Prog.ends_pure ⟨rfl, ?_⟩
      rwa [usedFrom_dummy]

omit [Cipher] in
theorem usedFrom_usedFrom (main piggyback : DaOp) :
    plan.usedFrom (plan.useOf piggyback) 0 (plan.usedFrom (plan.useOf main) 0 counters) =
      plan.usedFrom (plan.useBoth main piggyback) 0 counters := by
  funext stage
  by_cases inRange : stage ≤ plan.top
  · rw [Plan.usedFrom_of_le (Nat.zero_le _) inRange, Plan.usedFrom_of_le (Nat.zero_le _) inRange,
      Plan.usedFrom_of_le (Nat.zero_le _) inRange]
    rfl
  · simp only [Plan.usedFrom, inRange, and_false, if_false]

/-- The two operations one after the other. -/
theorem Represents.ends_runInSequence (represents : da.Represents plan counters values)
    (valid : plan.Valid) (mainInRange : ∀ key, main = .access key → key < plan.sizes 0)
    (piggybackInRange : ∀ key, piggyback = .access key → key < plan.sizes 0) :
    Ends (da.runInSequence main piggyback) (fun outcome =>
      outcome.1 = (resultOf values main, resultOf values piggyback) ∧
      outcome.2.Represents plan (plan.usedFrom (plan.useBoth main piggyback) 0 counters)
        values) := by
  refine Prog.ends_bind (represents.ends_runAlone valid mainInRange) ?_
  rintro ⟨mainResult, mainDa⟩ ⟨mainEq, mainRepresents⟩
  refine Prog.ends_bind (mainRepresents.ends_runAlone valid piggybackInRange) ?_
  rintro ⟨piggybackResult, lastDa⟩ ⟨piggybackEq, lastRepresents⟩
  rw [usedFrom_usedFrom] at lastRepresents
  exact Prog.ends_pure ⟨Prod.ext mainEq piggybackEq, lastRepresents⟩

end DAOram

end TieredOmap
