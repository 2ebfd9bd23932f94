import TieredOMap.Oram.DaInit
import TieredOMap.Oram.DaSteps

/-!
# Every run of a DAORAM

The constructor, `init`, accesses, dummy accesses and pairs of operations that
share their rounds all lead to a DAORAM that represents counters and values. So
no block is ever under a leaf that its counters do not give, and two operations
that share their rounds leave what they leave one after the other.
-/

namespace TieredOmap

open BinaryTreeStorage

/-- The key of an operation is one of the data keys. -/
def DaOp.InRange (op : DaOp) (numData : Nat) : Prop := ∀ key, op = .access key → key < numData

namespace DAOram

variable [Cipher]

/-! ## Reachable states -/

/-- The constructor, followed by `init`. -/
def create (numData : Nat) (bucketSize stashScale : Int) (numIc icMax onChipMem : Nat) (prf : Prf)
    (data : KeyMap Nat Bytes) : Rand DAOram := do
  let da ← new numData bucketSize stashScale numIc icMax onChipMem prf
  da.init data

/-- The states that accesses lead to, with the last value written to each key. -/
inductive Reached (numData : Nat) (bucketSize stashScale : Int) (numIc icMax onChipMem : Nat)
    (prf : Prf) : DAOram → (Nat → Bytes) → Prop
  | init {data : KeyMap Nat Bytes} {da : DAOram} {world world' : World}
      (allKeys : ∀ key, key ∈ data.keys ↔ key < numData)
      (run : (create numData bucketSize stashScale numIc icMax onChipMem prf data).runFrom world =
        (.ok da, world')) :
      Reached numData bucketSize stashScale numIc icMax onChipMem prf da
        (fun key => (data.get? key).getD [])
  | access {da da' : DAOram} {values : Nat → Bytes} {key : Nat} {newValue : Option Bytes}
      {value : Bytes} {world world' : World}
      (reached : Reached numData bucketSize stashScale numIc icMax onChipMem prf da values)
      (inRange : key < numData)
      (run : (da.access key newValue).runFrom world = (.ok (value, da'), world')) :
      Reached numData bucketSize stashScale numIc icMax onChipMem prf da'
        (Function.update values key (newValue.getD (values key)))
  | dummyAccess {da da' : DAOram} {values : Nat → Bytes} {world world' : World}
      (reached : Reached numData bucketSize stashScale numIc icMax onChipMem prf da values)
      (run : da.dummyAccess.runFrom world = (.ok da', world')) :
      Reached numData bucketSize stashScale numIc icMax onChipMem prf da' values
  | together {da da' : DAOram} {values : Nat → Bytes} {main piggyback : DaOp}
      {results : Bytes × Bytes} {world world' : World}
      (reached : Reached numData bucketSize stashScale numIc icMax onChipMem prf da values)
      (mainInRange : main.InRange numData) (piggybackInRange : piggyback.InRange numData)
      (run : (da.runTogether main piggyback).runFrom world = (.ok (results, da'), world')) :
      Reached numData bucketSize stashScale numIc icMax onChipMem prf da' values

/-! ## What a reader of the stored blocks sees -/

/-- The blocks of a stage, in its stash and in its tree. -/
def liveAt (da : DAOram) (stage : Nat) : Multiset Block :=
  @PathORAM.liveBlocks (cipherAt stage) (da.treeAt stage)

/-- The counters that manage a key of a stage, where the DAORAM stores them. -/
inductive ManagedBy (da : DAOram) (stage key : Nat) : CounterBlock → Prop
  | onChip {cb : CounterBlock} (isTop : stage = da.numPosLevels)
      (stored : da.onChip[key / da.numIc]? = some cb) : ManagedBy da stage key cb
  | posMap {block : Block} (isBelow : stage < da.numPosLevels)
      (stored : block ∈ da.liveAt (stage + 1)) (isGroup : block.key = (key / da.numIc : Nat)) :
      ManagedBy da stage key (CounterBlock.decode block.value da.numIc)

/--
Every managed block of a stage exists once, on the path of its own leaf, and this
is the leaf that the counters managing it give: those before the last overflow
while its backup flag is set.
-/
structure SoundAt (da : DAOram) (stage : Nat) : Prop where
  once : (da.liveAt stage).map Block.key =
    (Multiset.range (da.sizeAt stage)).map (fun (key : Nat) => (key : Int))
  onPath : ∀ node < totalNodes (da.treeAt stage).storage.level,
    ∀ block ∈ @PathORAM.bucketBlocks (cipherAt stage) (da.treeAt stage) node,
      node ∈ pathNodes (da.treeAt stage).storage.level block.leaf
  managed : ∀ key < da.sizeAt stage, ∃ cb, da.ManagedBy stage key cb
  leaf : ∀ key cb, da.ManagedBy stage key cb → ∀ block ∈ da.liveAt stage, block.key = key →
    block.leaf = cb.leafOf da.prf (da.leafRangeAt stage) key (key % da.numIc)

variable {da : DAOram} {plan : Plan} {counters : Counters} {values : Nat → Bytes} {stage : Nat}

theorem Represents.liveAt_eq (represents : da.Represents plan counters values)
    (stageLe : stage ≤ plan.top) : da.liveAt stage =
      blocksOf (plan.sizes stage) (plan.labelsOf counters stage)
        (Plan.valueAt counters values stage) :=
  (represents.labelled stage stageLe).liveBlocks_eq

/-- The stored counters are the ones of the representation. -/
theorem Represents.managedBy_iff (represents : da.Represents plan counters values)
    (valid : plan.Valid) (stageLe : stage ≤ plan.top) {key : Nat} (keyLt : key < plan.sizes stage)
    {cb : CounterBlock} :
    da.ManagedBy stage key cb ↔ cb = counters stage (key / plan.numIc) := by
  have groupLt := Plan.div_lt_groups valid keyLt
  have numIcEq := represents.follows.numIc
  have topEq := represents.follows.top
  constructor
  · rintro (⟨isTop, stored⟩ | ⟨isBelow, stored, isGroup⟩)
    · rw [topEq] at isTop
      rw [represents.onChip, numIcEq, ← isTop, List.getElem?_map,
        List.getElem?_range groupLt] at stored
      exact (Option.some_inj.mp stored).symm
    · rw [topEq] at isBelow
      rw [represents.liveAt_eq isBelow] at stored
      rcases mem_blocksOf.mp stored with ⟨group, groupLt', rfl⟩
      rw [numIcEq, Nat.cast_inj] at isGroup
      subst isGroup
      have sound := represents.sound stage stageLe _ groupLt
      rw [numIcEq]
      exact CounterBlock.decode_encode sound.icLength sound.backupLength
  · rintro rfl
    rcases Nat.lt_or_ge stage plan.top with isBelow | isTop
    · have sound := represents.sound stage stageLe _ groupLt
      have stored : (⟨(key / plan.numIc : Nat), plan.labelsOf counters (stage + 1)
          (key / plan.numIc), (counters stage (key / plan.numIc)).encode⟩ : Block) ∈
            da.liveAt (stage + 1) := by
        rw [represents.liveAt_eq isBelow]
        refine mem_blocksOf.mpr ⟨key / plan.numIc, ?_, rfl⟩
        rw [valid.manages stage isBelow]
        exact groupLt
      have managed : da.ManagedBy stage key (CounterBlock.decode
          (counters stage (key / plan.numIc)).encode da.numIc) :=
        ManagedBy.posMap (topEq ▸ isBelow) stored (by rw [numIcEq])
      rwa [numIcEq, CounterBlock.decode_encode sound.icLength sound.backupLength] at managed
    · have isTop' : stage = plan.top := Nat.le_antisymm stageLe isTop
      subst isTop'
      refine ManagedBy.onChip topEq.symm ?_
      rw [represents.onChip, numIcEq, List.getElem?_map, List.getElem?_range groupLt]
      rfl

theorem Represents.soundAt (represents : da.Represents plan counters values)
    (valid : plan.Valid) (stageLe : stage ≤ plan.top) : da.SoundAt stage := by
  have labelled := represents.labelled stage stageLe
  have sizeEq := represents.follows.sizes stage stageLe
  refine ⟨?_, ?_, ?_, ?_⟩
  · rw [represents.liveAt_eq stageLe, map_key_blocksOf, sizeEq]
  · intro node nodeLt block blockMem
    rw [labelled.level_eq] at nodeLt ⊢
    exact labelled.mem_pathNodes nodeLt blockMem
  · intro key keyLt
    rw [sizeEq] at keyLt
    exact ⟨_, (represents.managedBy_iff valid stageLe keyLt).mpr rfl⟩
  · intro key cb managedBy block blockMem isKey
    rw [represents.liveAt_eq stageLe] at blockMem
    rcases mem_blocksOf.mp blockMem with ⟨key', keyLt, rfl⟩
    have sameKey : key' = key := Nat.cast_inj.mp isKey
    subst sameKey
    rw [(represents.managedBy_iff valid stageLe keyLt).mp managedBy, represents.follows.prf,
      represents.leafRangeAt_eq stageLe, represents.follows.numIc]
    rfl

/-! ## The invariant of a run -/

/-- Some counters account for everything that the DAORAM stores. -/
def Accounted (da : DAOram) (numData : Nat) (values : Nat → Bytes) : Prop :=
  ∃ plan counters, plan.Valid ∧ plan.sizes 0 = numData ∧ da.Represents plan counters values

variable {numData numIc icMax onChipMem : Nat} {bucketSize stashScale : Int} {prf : Prf}

theorem ends_create (fewPerBlock : 2 ≤ numIc) (room : 0 < onChipMem) (fewIc : numIc ≤ icMax + 1)
    (smallMax : icMax ≤ 256) {data : KeyMap Nat Bytes}
    (allKeys : ∀ key, key ∈ data.keys ↔ key < numData) :
    Ends (create numData bucketSize stashScale numIc icMax onChipMem prf data)
      (fun da => da.Accounted numData (fun key => (data.get? key).getD [])) := by
  refine Prog.ends_bind (ends_new fewPerBlock room) ?_
  intro built isBuilt
  refine (isBuilt.ends_init (by omega) fewIc smallMax allKeys).mono ?_
  rintro da ⟨valid, sizeEq, represents⟩
  exact ⟨da.plan, _, valid, sizeEq, represents⟩

/-- As `ends_create`, when it is not known whether the constructor returns. -/
theorem yields_create (positive : 0 < numIc) (fewIc : numIc ≤ icMax + 1) (smallMax : icMax ≤ 256)
    {data : KeyMap Nat Bytes} (allKeys : ∀ key, key ∈ data.keys ↔ key < numData) :
    Yields (create numData bucketSize stashScale numIc icMax onChipMem prf data)
      (fun da => da.Accounted numData (fun key => (data.get? key).getD [])) := by
  refine Prog.ends_bind yields_new ?_
  intro built isBuilt
  refine yields_of_ends ((isBuilt.ends_init positive fewIc smallMax allKeys).mono ?_)
  rintro da ⟨valid, sizeEq, represents⟩
  exact ⟨da.plan, _, valid, sizeEq, represents⟩

theorem Accounted.ends_access (accounted : da.Accounted numData values) {key : Nat}
    (inRange : key < numData) (newValue : Option Bytes) :
    Ends (da.access key newValue) (fun outcome => outcome.1 = values key ∧
      outcome.2.Accounted numData
        (Function.update values key (newValue.getD (values key)))) := by
  rcases accounted with ⟨plan, counters, valid, rfl, represents⟩
  refine (represents.ends_access valid inRange newValue).mono ?_
  rintro outcome ⟨valueEq, represents'⟩
  exact ⟨valueEq, plan, _, valid, rfl, represents'⟩

theorem Accounted.ends_dummyAccess (accounted : da.Accounted numData values) :
    Ends da.dummyAccess (fun da' => da'.Accounted numData values) := by
  rcases accounted with ⟨plan, counters, valid, sizeEq, represents⟩
  refine represents.ends_dummyAccess.mono ?_
  intro da' represents'
  exact ⟨plan, counters, valid, sizeEq, represents'⟩

theorem Accounted.ends_runTogether (accounted : da.Accounted numData values)
    {main piggyback : DaOp} (mainInRange : main.InRange numData)
    (piggybackInRange : piggyback.InRange numData) :
    Ends (da.runTogether main piggyback)
      (fun outcome => outcome.2.Accounted numData values) := by
  rcases accounted with ⟨plan, counters, valid, rfl, represents⟩
  refine (represents.ends_runTogether valid mainInRange piggybackInRange).mono ?_
  rintro outcome ⟨_, represents'⟩
  exact ⟨plan, _, valid, rfl, represents'⟩

theorem Accounted.soundAt (accounted : da.Accounted numData values)
    (stageLe : stage ≤ da.numPosLevels) : da.SoundAt stage := by
  rcases accounted with ⟨plan, counters, valid, _, represents⟩
  exact represents.soundAt valid (represents.follows.top ▸ stageLe)

/-- Every step of a run keeps the account. -/
theorem Reached.accounted (positive : 0 < numIc) (fewIc : numIc ≤ icMax + 1) (smallMax : icMax ≤ 256)
    (reached : Reached numData bucketSize stashScale numIc icMax onChipMem prf da values) :
    da.Accounted numData values := by
  induction reached with
  | init allKeys run => exact (yields_create positive fewIc smallMax allKeys).returned run
  | access _ inRange run ih => exact ((ih.ends_access inRange _).returned run).2
  | dummyAccess _ run ih => exact ih.ends_dummyAccess.returned run
  | together _ mainInRange piggybackInRange run ih =>
      exact (ih.ends_runTogether mainInRange piggybackInRange).returned run

/--
No access looks for a block under a wrong leaf: in every reachable state each
managed block exists once, under the leaf of its counters, and every access
returns the last value written.
-/
theorem leaves_follow_counters (fewPerBlock : 2 ≤ numIc) (fewIc : numIc ≤ icMax + 1)
    (smallMax : icMax ≤ 256) :
    (∀ data : KeyMap Nat Bytes, (∀ key, key ∈ data.keys ↔ key < numData) → 0 < onChipMem →
      Ends (create numData bucketSize stashScale numIc icMax onChipMem prf data) (fun _ => True)) ∧
    ∀ da values, Reached numData bucketSize stashScale numIc icMax onChipMem prf da values →
      (∀ stage ≤ da.numPosLevels, da.SoundAt stage) ∧
      (∀ key < numData, ∀ newValue,
        Ends (da.access key newValue) (fun outcome => outcome.1 = values key)) ∧
      Ends da.dummyAccess (fun _ => True) := by
  refine ⟨?_, ?_⟩
  · intro data allKeys room
    exact (ends_create fewPerBlock room fewIc smallMax allKeys).mono (fun _ _ => trivial)
  · intro da values reached
    have accounted := reached.accounted (by omega) fewIc smallMax
    refine ⟨fun stage stageLe => accounted.soundAt stageLe, ?_, ?_⟩
    · intro key inRange newValue
      exact (accounted.ends_access inRange newValue).mono (fun _ outcome => outcome.1)
    · exact accounted.ends_dummyAccess.mono (fun _ _ => trivial)

/-! ## Accesses between the operations of the step interface -/

section Frame

variable {da : DAOram}

theorem sameSteps_readPaths (stage : Nat) (leaves : List Int) :
    Yields (da.readPaths stage leaves) (SameSteps da) := by
  refine Prog.ends_bind (yields_any _) ?_
  intro tree _
  exact Prog.ends_pure (sameSteps_setTreeAt da tree stage)

theorem sameSteps_evictPaths (stage : Nat) (leaves : List Int) :
    Yields (da.evictPaths stage leaves) (SameSteps da) := by
  refine Prog.ends_bind (yields_any _) ?_
  intro tree _
  exact Prog.ends_pure (sameSteps_setTreeAt da tree stage)

omit [Cipher] in
theorem sameSteps_touchOnChip (key : Nat) :
    Yields (da.touchOnChip key) (fun outcome => SameSteps da outcome.2) := by
  unfold touchOnChip
  dsimp only
  split
  · exact Prog.ends_fail trivial
  · refine Prog.ends_bind (yields_any _) ?_
    rintro ⟨cur, cb⟩ _
    exact Prog.ends_pure ⟨rfl, rfl, rfl⟩

omit [Cipher] in
theorem sameSteps_visitPosMap (key level : Nat) (cur : PosMapResult) :
    Yields (da.visitPosMap key level cur) (fun outcome => SameSteps da outcome.2) := by
  unfold visitPosMap
  dsimp only
  split
  · exact Prog.ends_fail trivial
  · refine Prog.ends_bind (yields_any _) ?_
    rintro ⟨next, cb⟩ _
    exact Prog.ends_pure (sameSteps_setTreeAt da _ (level + 1))

omit [Cipher] in
theorem sameSteps_visitData (key : Nat) (newValue : Option Bytes) (cur : PosMapResult) :
    Yields (da.visitData key newValue cur) (fun outcome => SameSteps da outcome.2) := by
  unfold visitData
  split
  · exact Prog.ends_fail trivial
  · exact Prog.ends_pure (sameSteps_setTreeAt da _ 0)

theorem sameSteps_traverseBelow (key level : Nat) (cur : PosMapResult) :
    Yields (da.traverseBelow key level cur) (fun outcome => SameSteps da outcome.2) := by
  induction level generalizing da cur with
  | zero => exact Prog.ends_pure (SameSteps.refl da)
  | succ level ih =>
      refine Prog.ends_bind (sameSteps_readPaths _ _) ?_
      intro fetchedDa fetched
      refine Prog.ends_bind (sameSteps_visitPosMap key level cur) ?_
      rintro ⟨next, visitedDa⟩ visited
      refine Prog.ends_bind (sameSteps_evictPaths _ _) ?_
      intro evictedDa evicted
      exact (ih next).mono (fun _ below =>
        ((fetched.trans visited).trans evicted).trans below)

theorem sameSteps_access (key : Nat) (newValue : Option Bytes) :
    Yields (da.access key newValue) (fun outcome => SameSteps da outcome.2) := by
  unfold access traversePosMaps
  refine Prog.ends_bind (Q := fun outcome => SameSteps da outcome.2) ?_ ?_
  · refine Prog.ends_bind (sameSteps_touchOnChip key) ?_
    rintro ⟨cur, touchedDa⟩ touched
    exact (sameSteps_traverseBelow key _ cur).mono (fun _ below => touched.trans below)
  · rintro ⟨cur, downDa⟩ down
    refine Prog.ends_bind (sameSteps_readPaths _ _) ?_
    intro fetchedDa fetched
    refine Prog.ends_bind (sameSteps_visitData key newValue cur) ?_
    rintro ⟨result, visitedDa⟩ visited
    refine Prog.ends_bind (sameSteps_evictPaths _ _) ?_
    intro evictedDa evicted
    exact Prog.ends_pure (((down.trans fetched).trans visited).trans evicted)

theorem sameSteps_traverseDummyBelow (level : Nat) :
    Yields (da.traverseDummyBelow level) (SameSteps da) := by
  induction level generalizing da with
  | zero => exact Prog.ends_pure (SameSteps.refl da)
  | succ level ih =>
      refine Prog.ends_bind (yields_any _) ?_
      intro leaf1 _
      refine Prog.ends_bind (yields_any _) ?_
      intro leaf2 _
      refine Prog.ends_bind (sameSteps_readPaths _ _) ?_
      intro fetchedDa fetched
      refine Prog.ends_bind (sameSteps_evictPaths _ _) ?_
      intro evictedDa evicted
      exact ih.mono (fun _ below => (fetched.trans evicted).trans below)

theorem sameSteps_dummyAccess : Yields da.dummyAccess (SameSteps da) := by
  refine Prog.ends_bind (sameSteps_traverseDummyBelow _) ?_
  intro downDa down
  refine Prog.ends_bind (yields_any _) ?_
  intro cur _
  refine Prog.ends_bind (sameSteps_readPaths _ _) ?_
  intro fetchedDa fetched
  exact (sameSteps_evictPaths _ _).mono (fun _ evicted => (down.trans fetched).trans evicted)

end Frame

/-- A DAORAM without keys has no counters on the chip. -/
theorem Holding.fails_of_empty {labels : Nat → Nat → Int} {out : Nat → Finset Nat}
    (holding : da.Holding plan counters labels out values) (valid : plan.Valid)
    (empty : plan.sizes 0 = 0) (key : Nat) : Yields (da.touchOnChip key) (fun _ => False) := by
  have noKeys : ∀ stage ≤ plan.top, plan.sizes stage = 0 := by
    intro stage stageLe
    induction stage with
    | zero => exact empty
    | succ stage ih =>
        rw [valid.manages stage stageLe, Plan.groups, ih (Nat.le_of_succ_le stageLe)]
        exact Nat.div_eq_of_lt (by have := valid.numIcPos; omega)
  have noCounters : da.onChip = [] := by
    have noGroups : plan.groups plan.top = 0 := by
      rw [Plan.groups, noKeys plan.top (Nat.le_refl _)]
      exact Nat.div_eq_of_lt (by have := valid.numIcPos; omega)
    rw [holding.onChip, noGroups]
    rfl
  unfold touchOnChip
  rw [noCounters]
  exact Prog.ends_fail trivial

omit [Cipher] in
/-- A new DAORAM has no piggybacked operation. -/
theorem yields_new_inactive :
    Yields (new numData bucketSize stashScale numIc icMax onChipMem prf)
      (fun da => da.pbStep.active = false) := by
  refine Prog.ends_bind (yields_any _) ?_
  intro dataOram _
  split
  · exact Prog.ends_fail trivial
  · refine Prog.ends_bind (yields_any _) ?_
    intro posMaps _
    exact Prog.ends_pure rfl

theorem sameSteps_init {da : DAOram} (data : KeyMap Nat Bytes) :
    Yields (da.init data) (SameSteps da) := by
  refine Prog.ends_bind (yields_any _) ?_
  intro posMaps _
  exact Prog.ends_pure ⟨rfl, rfl, rfl⟩

/-! ## Shared rounds -/

/-- The same counters, leaves and values at every stage. -/
structure SameContents (da da' : DAOram) : Prop where
  numPosLevels : da'.numPosLevels = da.numPosLevels
  onChip : da'.onChip = da.onChip
  liveAt : ∀ stage ≤ da.numPosLevels, da'.liveAt stage = da.liveAt stage

theorem Represents.sameContents {da' : DAOram} (represents : da.Represents plan counters values)
    (represents' : da'.Represents plan counters values) : SameContents da da' := by
  refine ⟨represents'.follows.top.trans represents.follows.top.symm,
    represents'.onChip.trans represents.onChip.symm, ?_⟩
  intro stage stageLe
  rw [represents.follows.top] at stageLe
  rw [represents'.liveAt_eq stageLe, represents.liveAt_eq stageLe]

/--
Two operations that share all their rounds equal the two in sequence: the same
results, counters, leaves and values, with every block present once. A dummy
changes none of these.
-/
theorem together_eq_sequence (fewPerBlock : 2 ≤ numIc) (fewIc : numIc ≤ icMax + 1)
    (smallMax : icMax ≤ 256)
    (reached : Reached numData bucketSize stashScale numIc icMax onChipMem prf da values)
    {main piggyback : DaOp} (mainInRange : main.InRange numData)
    (piggybackInRange : piggyback.InRange numData) :
    Ends (da.runTogether main piggyback) (fun outcome =>
      ∀ stage ≤ outcome.2.numPosLevels, outcome.2.SoundAt stage) ∧
    Ends (da.runInSequence main piggyback) (fun outcome =>
      ∀ stage ≤ outcome.2.numPosLevels, outcome.2.SoundAt stage) ∧
    (∀ together sequence world₁ world₁' world₂ world₂',
      (da.runTogether main piggyback).runFrom world₁ = (.ok together, world₁') →
      (da.runInSequence main piggyback).runFrom world₂ = (.ok sequence, world₂') →
      together.1 = sequence.1 ∧ SameContents sequence.2 together.2) ∧
    Ends da.dummyAccess (SameContents da) := by
  rcases reached.accounted (by omega) fewIc smallMax with
    ⟨plan, counters, valid, rfl, represents⟩
  have together := represents.ends_runTogether valid mainInRange piggybackInRange
  have sequence := represents.ends_runInSequence valid mainInRange piggybackInRange
  refine ⟨together.mono ?_, sequence.mono ?_, ?_,
    represents.ends_dummyAccess.mono (fun _ => represents.sameContents)⟩
  · rintro outcome ⟨_, represents'⟩ stage stageLe
    exact represents'.soundAt valid (represents'.follows.top ▸ stageLe)
  · rintro outcome ⟨_, represents'⟩ stage stageLe
    exact represents'.soundAt valid (represents'.follows.top ▸ stageLe)
  · intro togetherOutcome sequenceOutcome _ _ _ _ togetherRun sequenceRun
    rcases together.returned togetherRun with ⟨resultsEq, represents₁⟩
    rcases sequence.returned sequenceRun with ⟨resultsEq', represents₂⟩
    exact ⟨resultsEq.trans resultsEq'.symm, represents₂.sameContents represents₁⟩

end DAOram

section Sample

attribute [local instance] clearCipher

/-- Three keys in groups of two. -/
def daSampleData : KeyMap Nat Bytes := (((∅ : KeyMap Nat Bytes).set 0 [5]).set 1 [6]).set 2 [7]

theorem mem_daSampleData (key : Nat) : key ∈ daSampleData.keys ↔ key < 3 := by
  have keysEq : daSampleData.keys = [0, 1, 2] := rfl
  rw [keysEq]
  simp only [List.mem_cons, List.not_mem_nil, or_false]
  omega

/-- A pseudo-random function with a different leaf at every use. -/
def samplePrf : Prf := fun key gc ic _ => key + gc.toNat + ic.toNat

/-- The states of a DAORAM of `daSampleData` whose counters overflow at every use. -/
def SampleReached : DAOram → (Nat → Bytes) → Prop := DAOram.Reached 3 1 7 2 2 1 samplePrf

theorem sampleReached_init :
    ∃ da, SampleReached da (fun key => (daSampleData.get? key).getD []) := by
  have returns : ((DAOram.create 3 1 7 2 2 1 samplePrf daSampleData).runFrom {}).1.isOk = true := by
    decide +kernel
  rcases run : (DAOram.create 3 1 7 2 2 1 samplePrf daSampleData).runFrom {} with ⟨error | da, world⟩
  · rw [run] at returns
    cases returns
  · exact ⟨da, DAOram.Reached.init mem_daSampleData run⟩

theorem leaves_follow_counters_sample : ∃ da,
    SampleReached da (fun key => (daSampleData.get? key).getD []) ∧ da.SoundAt 0 ∧
      Ends (da.access 1 (some [8])) (fun outcome => outcome.1 = [6]) := by
  rcases sampleReached_init with ⟨da, reached⟩
  rcases (DAOram.leaves_follow_counters (by decide) (by decide) (by decide)).2 da _ reached with
    ⟨sound, accesses, _⟩
  exact ⟨da, reached, sound 0 (Nat.zero_le _), accesses 1 (by decide) (some [8])⟩

/-- The same key twice. -/
theorem together_eq_sequence_sample : ∃ da,
    SampleReached da (fun key => (daSampleData.get? key).getD []) ∧
      Ends (da.runTogether (.access 1) (.access 1)) (fun outcome =>
        ∀ stage ≤ outcome.2.numPosLevels, outcome.2.SoundAt stage) := by
  rcases sampleReached_init with ⟨da, reached⟩
  have inRange : DaOp.InRange (.access 1) 3 := by
    rintro key ⟨⟩
    decide
  exact ⟨da, reached,
    (DAOram.together_eq_sequence (by decide) (by decide) (by decide) reached inRange inRange).1⟩

end Sample

end TieredOmap
