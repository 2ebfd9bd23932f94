import TieredOMap.Omap.DaOst
import TieredOMap.Oram.DaSound

/-!
# The DAORAM phase of a DA map

In every round of the DAORAM phase the paths that were read have to be written
back. In the last one `DaOstOmap::step_process` finishes both accesses before the
buckets to write are chosen, so only the paths of the main access are: the round
is sound exactly when these are also the paths of the piggybacked access
(`SharesLastReads`). `Underway` is the state of the DAORAM before a round.
-/

namespace TieredOmap

open BinaryTreeStorage

/-- A main operation of the step interface that may have another one on its back. -/
inductive DaOstMain where
  | search (key : Int) (update : Option Bytes)
  | dummy
  | partialDummy
deriving DecidableEq, Repr

/-- A piggybacked operation. -/
inductive DaOstPiggyback where
  | insert (key : Int) (value : Bytes)
  | search (key : Int)
  | dummy
deriving DecidableEq, Repr

/-- An operation on its own. -/
inductive DaOstCall where
  | search (key : Int) (update : Option Bytes)
  | insert (key : Int) (value : Bytes)
  | remove (key : Int)
  | dummyAccess
  | partialDummyAccess
  | piggybackScanStep
deriving DecidableEq, Repr

/-- What a DA map is made with. -/
structure DaOstConfig where
  capacity : Int
  numPositions : Int
  order : Nat
  bucketSize : Int
  heightBound : Nat
  hash : Int → Nat
  prf : Prf

namespace DaOstOmap

variable {Ω : Type} [OdsTree Ω] [Cipher]

/-! ## Runs -/

/-- The constructor, followed by `init`. -/
def create (config : DaOstConfig) (data : List (Int × Bytes)) : Rand (DaOstOmap Ω) := do
  let omap ← new config.capacity config.numPositions config.order config.bucketSize
    config.heightBound config.hash config.prf
  omap.init data

/-- Run an operation on its own. -/
def call (omap : DaOstOmap Ω) : DaOstCall → Rand (DaOstOmap Ω)
  | .search key update => do
      let (_, omap) ← omap.search key update
      return omap
  | .insert key value => omap.insert key value
  | .remove key => omap.remove key
  | .dummyAccess => omap.dummyAccess
  | .partialDummyAccess => omap.partialDummyAccess
  | .piggybackScanStep => do
      let (_, omap) ← omap.piggybackScanStep
      return omap

/-- Begin a main operation. -/
def beginMain (omap : DaOstOmap Ω) : DaOstMain → Rand (DaOstOmap Ω)
  | .search key update => omap.beginStepSearch key update
  | .dummy => omap.beginStepDummy
  | .partialDummy => omap.beginStepPartialDummy

/-- Begin a piggybacked operation, if there is one. -/
def beginPiggyback (omap : DaOstOmap Ω) : Option DaOstPiggyback → Rand (DaOstOmap Ω)
  | some (.insert key value) => omap.beginPiggybackInsert key value
  | some (.search key) => omap.beginPiggybackSearch key
  | some .dummy => omap.beginPiggybackDummy
  | none => return omap

/-- Begin a main operation with or without another one on its back. -/
def begin (omap : DaOstOmap Ω) (main : DaOstMain) (piggyback : Option DaOstPiggyback) :
    Rand (DaOstOmap Ω) := do
  let omap ← omap.beginMain main
  omap.beginPiggyback piggyback

/-- Finish the main and the piggybacked operation. -/
def finish (omap : DaOstOmap Ω) : DaOstOmap Ω := omap.stepFinish.2.finishPiggyback.2

/-- Finish a scan. -/
def finishScan (omap : DaOstOmap Ω) : DaOstOmap Ω := omap.stepFinish.2.stepFinishScan.2

/--
The states that operations lead to, one after the other and each one round by
round. Only rounds from `allowed` states are taken.
-/
inductive Reached (config : DaOstConfig) (allowed : DaOstOmap Ω → Prop) : DaOstOmap Ω → Prop
  | init {data : List (Int × Bytes)} {omap : DaOstOmap Ω} {world world' : World}
      (run : (create config data).runFrom world = (.ok omap, world')) :
      Reached config allowed omap
  | call {omap omap' : DaOstOmap Ω} {operation : DaOstCall} {world world' : World}
      (reached : Reached config allowed omap) (idle : omap.stepDone = true)
      (finished : omap.pb.active = false)
      (run : (omap.call operation).runFrom world = (.ok omap', world')) :
      Reached config allowed omap'
  | begin {omap omap' : DaOstOmap Ω} {main : DaOstMain} {piggyback : Option DaOstPiggyback}
      {world world' : World} (reached : Reached config allowed omap)
      (idle : omap.stepDone = true) (finished : omap.pb.active = false)
      (run : (omap.begin main piggyback).runFrom world = (.ok omap', world')) :
      Reached config allowed omap'
  | beginScan {omap omap' : DaOstOmap Ω} {world world' : World}
      (reached : Reached config allowed omap) (idle : omap.stepDone = true)
      (finished : omap.pb.active = false)
      (run : omap.beginStepScan.runFrom world = (.ok omap', world')) :
      Reached config allowed omap'
  | decisions {omap : DaOstOmap Ω} {enable : Bool} (reached : Reached config allowed omap) :
      Reached config allowed (omap.setStepDecisionEnabled enable)
  | round {omap omap' : DaOstOmap Ω} {remove : Bool}
      {requests : List StepReadReq × List StepWriteReq} {world world' : World}
      (reached : Reached config allowed omap) (busy : omap.stepDone = false)
      (isAllowed : allowed omap)
      (run : (omap.stepRound remove).runFrom world = (.ok (requests, omap'), world')) :
      Reached config allowed omap'
  | finish {omap : DaOstOmap Ω} (reached : Reached config allowed omap)
      (idle : omap.stepDone = true) : Reached config allowed omap.finish
  | finishScan {omap : DaOstOmap Ω} (reached : Reached config allowed omap)
      (idle : omap.stepDone = true) : Reached config allowed omap.finishScan

/-! ## What is at stake -/

/-- Every block of the DAORAM is stored once at every stage, in the stash or in the tree. -/
def StoredOnce (omap : DaOstOmap Ω) : Prop :=
  ∀ stage ≤ omap.daoram.numPosLevels, (omap.daoram.liveAt stage).map Block.key =
    (Multiset.range (omap.daoram.sizeAt stage)).map (fun (key : Nat) => (key : Int))

/-- Every node on a path that a round reads from the DAORAM is written in that round. -/
def WritesBack (omap : DaOstOmap Ω) (requests : List StepReadReq × List StepWriteReq) : Prop :=
  ∀ read ∈ requests.1,
    ∀ node ∈ pathNodes (omap.daoram.treeAt omap.daoram.stage).storage.level read.leaf,
      node ∈ requests.2.flatMap (fun write => write.data.map Prod.fst)

/--
If the next round is the one that reads the data level of the DAORAM for two
operations, the piggybacked one reads the paths of the main one.
-/
def SharesLastReads (omap : DaOstOmap Ω) : Prop :=
  omap.ss.phase = .daoram → omap.pb.active = true → omap.daoram.stage = 0 →
    ∀ leaf ∈ [omap.daoram.pbStep.cur.leaf1, omap.daoram.pbStep.cur.leaf2],
      leaf ∈ [omap.daoram.step.cur.leaf1, omap.daoram.step.cur.leaf2]

/-- A position of the map; there is none if the map was made without. -/
def IsPosition (omap : DaOstOmap Ω) (pos : Nat) : Prop :=
  pos < omap.numPositions ∨ omap.numPositions = 0

/-- The DAORAM between its operations. -/
structure Settled (omap : DaOstOmap Ω) : Prop where
  inactive : omap.daoram.pbStep.active = false
  scans : omap.IsPosition omap.scanPos
  accounted : ∃ values, omap.daoram.Accounted omap.numPositions values

/-- The DAORAM before a round. -/
def Underway (omap : DaOstOmap Ω) (active : Bool) : Prop :=
  omap.IsPosition omap.scanPos ∧ ∃ plan counters values main piggyback stage, plan.Valid ∧
    plan.sizes 0 = omap.numPositions ∧ main.InRange omap.numPositions ∧
    piggyback.InRange omap.numPositions ∧
    omap.daoram.Midway plan main active piggyback stage counters values

/-- The DAORAM in each phase of the map. -/
def Sound (omap : DaOstOmap Ω) : Prop :=
  match omap.ss.phase with
  | .daoram => omap.Underway omap.pb.active
  | .scanDaoram => omap.Underway false
  | .ods | .odsPad | .scanOds | .scanOdsPad | .done => omap.Settled

/-! ## Between the operations -/

/-- Only the tree, the cached roots and the scan pointer differ. -/
structure Beside (omap omap' : DaOstOmap Ω) : Prop where
  daoram : omap'.daoram = omap.daoram
  numPositions : omap'.numPositions = omap.numPositions
  scans : omap.IsPosition omap.scanPos → omap'.IsPosition omap'.scanPos
  ss : omap'.ss = omap.ss
  pb : omap'.pb = omap.pb

variable {omap omap' : DaOstOmap Ω}

omit [OdsTree Ω] [Cipher] in
theorem Beside.refl (omap : DaOstOmap Ω) : Beside omap omap := ⟨rfl, rfl, id, rfl, rfl⟩

omit [OdsTree Ω] [Cipher] in
theorem Beside.trans {omap'' : DaOstOmap Ω} (first : Beside omap omap')
    (second : Beside omap' omap'') : Beside omap omap'' :=
  ⟨second.daoram.trans first.daoram, second.numPositions.trans first.numPositions,
    second.scans ∘ first.scans, second.ss.trans first.ss, second.pb.trans first.pb⟩

omit [OdsTree Ω] [Cipher] in
theorem beside_cachedRoot (omap : DaOstOmap Ω) (pos : Int) :
    Beside omap (omap.cachedRoot pos).2 := by
  unfold cachedRoot
  split <;> exact ⟨rfl, rfl, id, rfl, rfl⟩

omit [Cipher] in
theorem beside_storeRoot (omap : DaOstOmap Ω) (pos : Int) : Beside omap (omap.storeRoot pos) :=
  ⟨rfl, rfl, id, rfl, rfl⟩

omit [OdsTree Ω] [Cipher] in
theorem beside_nextScanPos (omap : DaOstOmap Ω) : Beside omap omap.nextScanPos := by
  refine ⟨rfl, rfl, fun _ => ?_, rfl, rfl⟩
  rcases Nat.eq_zero_or_pos omap.numPositions with none | some
  · exact Or.inr none
  · exact Or.inl (Nat.mod_lt _ some)

theorem beside_padOds (omap : DaOstOmap Ω) (actualOps : Int) :
    Yields (omap.padOds actualOps) (Beside omap) := by
  refine Prog.ends_bind (yields_any _) ?_
  intro ods _
  exact Prog.ends_pure ⟨rfl, rfl, id, rfl, rfl⟩

omit [OdsTree Ω] in
theorem Settled.beside (settled : omap.Settled) (beside : Beside omap omap') : omap'.Settled := by
  rcases settled with ⟨inactive, scans, values, accounted⟩
  refine ⟨beside.daoram ▸ inactive, beside.scans scans, values, ?_⟩
  rw [beside.daoram, beside.numPositions]
  exact accounted

omit [OdsTree Ω] [Cipher] in
theorem isPosition_hash (omap : DaOstOmap Ω) (key : Int) :
    omap.IsPosition (omap.hashToPosition key) := by
  rcases Nat.eq_zero_or_pos omap.numPositions with none | some
  · exact Or.inr none
  · exact Or.inl (Nat.mod_lt _ some)

omit [OdsTree Ω] in
theorem Settled.yields_accessPosition (settled : omap.Settled) {pos : Nat}
    (isPosition : omap.IsPosition pos) :
    Yields (omap.accessPosition pos) (fun omap' =>
      omap'.Settled ∧ omap'.ss = omap.ss ∧ omap'.numPositions = omap.numPositions) := by
  rcases settled with ⟨inactive, scans, values, accounted⟩
  rcases isPosition with inRange | empty
  · have accessed := (yields_of_ends (accounted.ends_access inRange none)).and
      (DAOram.sameSteps_access pos none)
    refine Prog.ends_bind (accessed.allow (fun _ _ => trivial)) ?_
    rintro ⟨value, daoram⟩ ⟨⟨_, accounted'⟩, same⟩
    exact Prog.ends_pure ⟨⟨same.pbStep ▸ inactive, scans, _, accounted'⟩, rfl, rfl⟩
  · rcases accounted with ⟨plan, counters, valid, sizeEq, represents⟩
    have never := represents.fails_of_empty valid (sizeEq.trans empty) pos
    exact (never.bind_never.bind_never).bind_never

theorem Settled.yields_withRoot {α : Type} (settled : omap.Settled) {pos : Nat}
    (isPosition : omap.IsPosition pos) (operation : Ω → Rand (α × Ω)) :
    Yields (omap.withRoot pos operation) (fun outcome =>
      outcome.2.Settled ∧ outcome.2.ss = omap.ss) := by
  have cached := beside_cachedRoot omap pos
  unfold withRoot
  generalize omap.cachedRoot pos = outcome at cached ⊢
  rcases outcome with ⟨root, cachedOmap⟩
  dsimp only at cached ⊢
  have isPosition' : cachedOmap.IsPosition pos := by
    rw [IsPosition, cached.numPositions]
    exact isPosition
  refine Prog.ends_bind ((settled.beside cached).yields_accessPosition isPosition') ?_
  rintro accessedOmap ⟨settled', sameSs, _⟩
  refine Prog.ends_bind (yields_any _) ?_
  rintro ⟨result, ods⟩ _
  have stored : Beside accessedOmap ({ accessedOmap with ods }.storeRoot pos) := ⟨rfl, rfl, id, rfl, rfl⟩
  refine Prog.ends_bind (beside_padOds _ _) ?_
  intro paddedOmap padded
  have beside := stored.trans padded
  exact Prog.ends_pure ⟨settled'.beside beside, beside.ss.trans (sameSs.trans cached.ss)⟩

theorem Settled.yields_dummyAccesses (settled : omap.Settled) (count : Nat) :
    Yields (omap.dummyAccesses count) (fun omap' => omap'.Settled ∧ omap'.ss = omap.ss) := by
  rcases settled with ⟨inactive, scans, values, accounted⟩
  have accessed := (yields_of_ends accounted.ends_dummyAccess).and DAOram.sameSteps_dummyAccess
  refine Prog.ends_bind (accessed.allow (fun _ _ => trivial)) ?_
  rintro daoram ⟨accounted', same⟩
  refine Prog.ends_bind (yields_any _) ?_
  intro ods _
  exact Prog.ends_pure ⟨⟨same.pbStep ▸ inactive, scans, _, accounted'⟩, rfl⟩

theorem Settled.yields_piggybackScanStep (settled : omap.Settled) :
    Yields omap.piggybackScanStep (fun outcome =>
      outcome.2.Settled ∧ outcome.2.ss = omap.ss) := by
  refine Prog.ends_bind (settled.yields_accessPosition settled.scans) ?_
  rintro accessedOmap ⟨settled', sameSs, _⟩
  have scanned : ∀ paddedOmap : DaOstOmap Ω, Beside accessedOmap paddedOmap →
      paddedOmap.nextScanPos.Settled ∧ paddedOmap.nextScanPos.ss = omap.ss := by
    intro paddedOmap beside
    have moved : Beside accessedOmap paddedOmap.nextScanPos := beside.trans (beside_nextScanPos _)
    exact ⟨settled'.beside moved, moved.ss.trans sameSs⟩
  split
  · refine Prog.ends_bind (beside_padOds _ _) ?_
    intro paddedOmap padded
    exact Prog.ends_pure (scanned _ padded)
  · refine Prog.ends_bind (yields_any _) ?_
    rintro ⟨value, ods⟩ _
    have stored : Beside accessedOmap ({ accessedOmap with ods }.storeRoot omap.scanPos) :=
      ⟨rfl, rfl, id, rfl, rfl⟩
    refine Prog.ends_bind (beside_padOds _ _) ?_
    intro paddedOmap padded
    exact Prog.ends_pure (scanned _ (stored.trans padded))

theorem Settled.yields_call (settled : omap.Settled) (operation : DaOstCall) :
    Yields (omap.call operation) (fun omap' => omap'.Settled ∧ omap'.ss = omap.ss) := by
  cases operation with
  | search key update =>
      refine Prog.ends_bind (settled.yields_withRoot (omap.isPosition_hash key) _) ?_
      rintro ⟨value, omap'⟩ kept
      exact Prog.ends_pure kept
  | insert key value =>
      refine Prog.ends_bind (settled.yields_withRoot (omap.isPosition_hash key) _) ?_
      rintro ⟨_, omap'⟩ kept
      exact Prog.ends_pure kept
  | remove key =>
      refine Prog.ends_bind (settled.yields_withRoot (omap.isPosition_hash key) _) ?_
      rintro ⟨_, omap'⟩ kept
      exact Prog.ends_pure kept
  | dummyAccess => exact settled.yields_dummyAccesses omap.odsBudget
  | partialDummyAccess => exact settled.yields_dummyAccesses 1
  | piggybackScanStep =>
      refine Prog.ends_bind settled.yields_piggybackScanStep ?_
      rintro ⟨result, omap'⟩ kept
      exact Prog.ends_pure kept

omit [Cipher] in
theorem mem_arrayOf {β : Type} {size : Nat} {value : Nat → β} {key : Nat} :
    key ∈ (arrayOf size value).keys ↔ key < size := by
  simp [arrayOf, KeyMap.keys]

theorem yields_create (config : DaOstConfig) (data : List (Int × Bytes)) :
    Yields (create config data : Rand (DaOstOmap Ω)) (fun omap =>
      omap.Settled ∧ omap.ss.phase = .done) := by
  refine Prog.ends_bind (Q := fun omap => omap.daoram.Built omap.numPositions 64 64 config.prf ∧
    omap.daoram.pbStep.active = false ∧ omap.scanPos = 0 ∧ omap.ss.phase = .done) ?_ ?_
  · refine Prog.ends_bind ((DAOram.yields_new.and DAOram.yields_new_inactive).allow
      (fun _ _ => trivial)) ?_
    rintro daoram ⟨built, inactive⟩
    refine Prog.ends_bind (yields_any _) ?_
    intro ods _
    exact Prog.ends_pure ⟨built, inactive, rfl, rfl⟩
  · rintro omap ⟨built, inactive, scanPos, phase⟩
    refine Prog.ends_bind (yields_any _) ?_
    rintro ⟨roots, ods⟩ _
    have loaded := (yields_of_ends (built.ends_init (by decide) (by decide) (by decide)
      (fun _ => mem_arrayOf))).and (DAOram.sameSteps_init (arrayOf omap.numPositions
        (fun pos => encodeRoot (roots.getD pos (invalidKey, invalidLeaf)))))
    refine Prog.ends_bind (loaded.allow (fun _ _ => trivial)) ?_
    rintro daoram ⟨⟨valid, sizeEq, represents⟩, same⟩
    refine Prog.ends_pure ⟨⟨same.pbStep ▸ inactive, ?_, _, daoram.plan, _, valid, sizeEq,
      represents⟩, phase⟩
    show omap.IsPosition omap.scanPos
    rw [scanPos]
    exact (Nat.eq_zero_or_pos omap.numPositions).symm

/-! ## Beginning an operation -/

/-- The DAORAM after the main operation has begun; the piggybacked one is not looked at yet. -/
def Begun (omap : DaOstOmap Ω) : Prop :=
  omap.IsPosition omap.scanPos ∧ omap.daoram.pbStep.active = false ∧
    ∃ plan counters values main, plan.Valid ∧ plan.sizes 0 = omap.numPositions ∧
      main.InRange omap.numPositions ∧
      ({ omap.daoram with pbStep := {} } : DAOram).Midway plan main false .dummy plan.top counters
        values

omit [OdsTree Ω] in
theorem Begun.underway (begun : omap.Begun) : omap.Underway false := by
  rcases begun with ⟨scans, inactive, plan, counters, values, main, valid, sizeEq, inRange, midway⟩
  refine ⟨scans, plan, counters, values, main, .dummy, plan.top, valid, sizeEq, inRange, ?_,
    midway.alone_of_inactive inactive⟩
  intro key isAccess
  cases isAccess

omit [OdsTree Ω] in
theorem Settled.yields_beginStep (settled : omap.Settled) (op : DaOp)
    (isPosition : ∀ pos, op = .access pos → omap.IsPosition pos) :
    Yields (omap.daoram.beginStep op) (fun daoram => ∀ omap' : DaOstOmap Ω,
      omap'.daoram = daoram → omap'.numPositions = omap.numPositions →
        (omap.IsPosition omap.scanPos → omap'.IsPosition omap'.scanPos) → omap'.Begun) := by
  rcases settled with ⟨inactive, scans, values, plan, counters, valid, sizeEq, represents⟩
  have begins : op.InRange omap.numPositions → Yields (omap.daoram.beginStep op)
      (fun daoram => ∀ omap' : DaOstOmap Ω, omap'.daoram = daoram →
        omap'.numPositions = omap.numPositions →
          (omap.IsPosition omap.scanPos → omap'.IsPosition omap'.scanPos) → omap'.Begun) := by
    intro inRange
    refine (yields_of_ends (represents.ends_beginStep valid (sizeEq.symm ▸ inRange))).mono ?_
    rintro daoram ⟨samePbStep, midway⟩ omap' rfl sameNum sameScan
    exact ⟨sameScan scans, samePbStep ▸ inactive, plan, counters, values, op, valid,
      sizeEq.trans sameNum.symm, sameNum.symm ▸ inRange, midway⟩
  cases op with
  | dummy => exact begins (fun key isAccess => nomatch isAccess)
  | access pos =>
      rcases isPosition pos rfl with posLt | empty
      · refine begins ?_
        rintro key ⟨⟩
        exact posLt
      · exact (represents.fails_of_empty valid (sizeEq.trans empty) pos).bind_never

theorem Settled.yields_beginMain (settled : omap.Settled) (main : DaOstMain) :
    Yields (omap.beginMain main) (fun omap' =>
      omap'.Begun ∧ omap'.ss.phase = .daoram ∧ omap'.pb = omap.pb) := by
  cases main with
  | search key update =>
      have cached : ∀ ss, Beside { omap with ss } ({ omap with ss }.cachedRoot
          (omap.hashToPosition key)).2 := fun ss => beside_cachedRoot _ _
      unfold beginMain beginStepSearch
      dsimp only
      specialize cached { key, update, pos := omap.hashToPosition key }
      generalize ({ omap with ss := { key, update, pos := omap.hashToPosition key } } :
        DaOstOmap Ω).cachedRoot (omap.hashToPosition key) = outcome at cached ⊢
      rcases outcome with ⟨root, cachedOmap⟩
      dsimp only at cached ⊢
      rw [cached.daoram]
      refine Prog.ends_bind (settled.yields_beginStep (.access (omap.hashToPosition key)) ?_) ?_
      · rintro pos ⟨⟩
        exact omap.isPosition_hash key
      · intro daoram begun
        exact Prog.ends_pure ⟨begun _ rfl cached.numPositions cached.scans, rfl, cached.pb⟩
  | dummy =>
      refine Prog.ends_bind (settled.yields_beginStep .dummy (fun _ isAccess => nomatch isAccess)) ?_
      intro daoram begun
      exact Prog.ends_pure ⟨begun _ rfl rfl id, rfl, rfl⟩
  | partialDummy =>
      refine Prog.ends_bind (settled.yields_beginStep .dummy (fun _ isAccess => nomatch isAccess)) ?_
      intro daoram begun
      exact Prog.ends_pure ⟨begun _ rfl rfl id, rfl, rfl⟩

omit [OdsTree Ω] in
theorem Begun.yields_beginPiggyback (begun : omap.Begun) (op : DaOp)
    (isPosition : ∀ pos, op = .access pos → omap.IsPosition pos) :
    Yields (omap.daoram.beginPiggyback op) (fun daoram => ∀ omap' : DaOstOmap Ω,
      omap'.daoram = daoram → omap'.numPositions = omap.numPositions →
        omap'.scanPos = omap.scanPos → omap'.Underway true) := by
  rcases begun with ⟨scans, _, plan, counters, values, main, valid, sizeEq, mainInRange, midway⟩
  have begins : op.InRange omap.numPositions → Yields (omap.daoram.beginPiggyback op)
      (fun daoram => ∀ omap' : DaOstOmap Ω, omap'.daoram = daoram →
        omap'.numPositions = omap.numPositions → omap'.scanPos = omap.scanPos →
          omap'.Underway true) := by
    intro inRange
    refine (yields_of_ends (midway.ends_beginPiggyback valid (sizeEq.symm ▸ inRange))).mono ?_
    rintro daoram midway' omap' rfl sameNum sameScan
    refine ⟨?_, plan, counters, values, main, op, plan.top, valid, sizeEq.trans sameNum.symm,
      sameNum.symm ▸ mainInRange, sameNum.symm ▸ inRange, midway'⟩
    rw [IsPosition, sameNum, sameScan]
    exact scans
  cases op with
  | dummy => exact begins (fun key isAccess => nomatch isAccess)
  | access pos =>
      rcases isPosition pos rfl with posLt | empty
      · refine begins ?_
        rintro key ⟨⟩
        exact posLt
      · have never := (midway.holding.setSteps omap.daoram.step omap.daoram.pbStep).fails_of_empty
          valid (sizeEq.trans empty) pos
        exact never.bind_never

/-- An operation that has begun is in the DAORAM phase. -/
theorem Settled.yields_begin (settled : omap.Settled) (finished : omap.pb.active = false)
    (main : DaOstMain) (piggyback : Option DaOstPiggyback) :
    Yields (omap.begin main piggyback) Sound := by
  refine Prog.ends_bind (settled.yields_beginMain main) ?_
  rintro mainOmap ⟨begun, phase, samePb⟩
  have sound : ∀ omap' : DaOstOmap Ω, omap'.ss.phase = .daoram → omap'.Underway omap'.pb.active →
      omap'.Sound := by
    intro omap' phase' underway
    rw [Sound, phase']
    exact underway
  have accesses : ∀ pb : DaOstPBState, Yields (mainOmap.beginPiggybackAccess pb) Sound := by
    intro pb
    refine Prog.ends_bind (begun.yields_beginPiggyback
      (.access (mainOmap.hashToPosition pb.key)) ?_) ?_
    · rintro pos ⟨⟩
      exact mainOmap.isPosition_hash pb.key
    · intro daoram underway
      exact Prog.ends_pure (sound _ phase (underway _ rfl rfl rfl))
  rcases piggyback with _ | ⟨key, value⟩ | key | _
  · refine Prog.ends_pure (sound _ phase ?_)
    rw [samePb, finished]
    exact begun.underway
  · exact accesses _
  · exact accesses _
  · refine Prog.ends_bind (begun.yields_beginPiggyback .dummy
      (fun _ isAccess => nomatch isAccess)) ?_
    intro daoram underway
    exact Prog.ends_pure (sound _ phase (underway _ rfl rfl rfl))

omit [OdsTree Ω] in
theorem Settled.yields_beginStepScan (settled : omap.Settled) :
    Yields omap.beginStepScan Sound := by
  refine Prog.ends_bind (settled.yields_beginStep (.access omap.scanPos) ?_) ?_
  · rintro pos ⟨⟩
    exact settled.scans
  · intro daoram begun
    exact Prog.ends_pure (begun { omap with daoram } rfl rfl id).underway

/-! ## Rounds after the DAORAM phase -/

/-- The phases in which the DAORAM rests. -/
def DaOstPhase.IsLater (phase : DaOstPhase) : Prop := phase ≠ .daoram ∧ phase ≠ .scanDaoram

/-- The DAORAM phase is behind, and the DAORAM is as it was. -/
structure Aside (omap omap' : DaOstOmap Ω) : Prop where
  daoram : omap'.daoram = omap.daoram
  numPositions : omap'.numPositions = omap.numPositions
  scanPos : omap'.scanPos = omap.scanPos
  phase : DaOstPhase.IsLater omap'.ss.phase
  roundPhase : DaOstPhase.IsLater omap'.ss.roundPhase

omit [OdsTree Ω] in
theorem sound_of_later (later : DaOstPhase.IsLater omap.ss.phase) :
    omap.Sound ↔ omap.Settled := by
  unfold Sound
  rcases phase : omap.ss.phase
  all_goals first | exact Iff.rfl | exact (later.1 phase).elim | exact (later.2 phase).elim

omit [OdsTree Ω] in
theorem Settled.aside (settled : omap.Settled) (aside : Aside omap omap') : omap'.Sound := by
  rcases settled with ⟨inactive, scans, values, accounted⟩
  refine (sound_of_later aside.phase).mpr ⟨aside.daoram ▸ inactive, ?_, values, ?_⟩
  · rw [IsPosition, aside.numPositions, aside.scanPos]
    exact scans
  · rw [aside.daoram, aside.numPositions]
    exact accounted

omit [Cipher] in
theorem aside_stepNextRound (later : DaOstPhase.IsLater omap.ss.phase)
    (busy : omap.ss.phase ≠ .done) :
    Yields omap.stepNextRound (fun outcome => Aside omap outcome.2) := by
  unfold stepNextRound
  rw [if_neg busy]
  dsimp only
  split
  · rename_i phase
    exact (later.1 phase).elim
  · rename_i phase
    exact (later.2 phase).elim
  all_goals
    refine Prog.ends_bind (yields_any _) ?_
    intro outcome _
    exact Prog.ends_pure ⟨rfl, rfl, rfl, later, later⟩

omit [OdsTree Ω] [Cipher] in
theorem Aside.trans {omap'' : DaOstOmap Ω} (first : Aside omap omap')
    (second : Aside omap' omap'') : Aside omap omap'' :=
  ⟨second.daoram.trans first.daoram, second.numPositions.trans first.numPositions,
    second.scanPos.trans first.scanPos, second.phase, second.roundPhase⟩

theorem Aside.stepApplyReads (aside : Aside omap omap') (results : List PathData) :
    Aside omap (omap'.stepApplyReads results) := by
  rcases aside with ⟨daoram, numPositions, scanPos, phase, roundPhase⟩
  unfold DaOstOmap.stepApplyReads
  split
  · rename_i isDaoram
    exact (roundPhase.1 isDaoram).elim
  · rename_i isScan
    exact (roundPhase.2 isScan).elim
  · exact ⟨daoram, numPositions, scanPos, phase, roundPhase⟩
  · exact ⟨daoram, numPositions, scanPos, phase, roundPhase⟩
  · split <;> exact ⟨daoram, numPositions, scanPos, phase, roundPhase⟩
  · split <;> exact ⟨daoram, numPositions, scanPos, phase, roundPhase⟩
  · exact ⟨daoram, numPositions, scanPos, phase, roundPhase⟩

omit [Cipher] in
theorem Aside.leaveOds (aside : Aside omap omap') {padPhase : DaOstPhase}
    (later : DaOstPhase.IsLater padPhase) : Aside omap (omap'.leaveOds padPhase) := by
  refine ⟨aside.daoram, aside.numPositions, aside.scanPos, ?_, aside.roundPhase⟩
  unfold DaOstOmap.leaveOds
  dsimp only
  split
  · exact later
  · exact ⟨nofun, nofun⟩

omit [Cipher] in
theorem Aside.yields_stepProcess (aside : Aside omap omap') :
    Yields omap'.stepProcess (Aside omap) := by
  have setOds : ∀ ods, Aside omap { omap' with ods } := fun ods =>
    ⟨aside.daoram, aside.numPositions, aside.scanPos, aside.phase, aside.roundPhase⟩
  have setPad : ∀ padRemaining, Aside omap { omap' with ss := { omap'.ss with
      padRemaining, phase := if padRemaining ≤ 0 then .done else omap'.ss.phase } } := by
    intro padRemaining
    refine ⟨aside.daoram, aside.numPositions, aside.scanPos, ?_, aside.roundPhase⟩
    dsimp only
    split
    · exact ⟨nofun, nofun⟩
    · exact aside.phase
  unfold DaOstOmap.stepProcess
  split
  · rename_i isDaoram
    exact (aside.roundPhase.1 isDaoram).elim
  · rename_i isScan
    exact (aside.roundPhase.2 isScan).elim
  · refine Prog.ends_bind (yields_any _) ?_
    intro ods _
    refine Prog.ends_pure ?_
    split
    · exact (setOds ods).leaveOds ⟨nofun, nofun⟩
    · exact setOds ods
  · refine Prog.ends_bind (yields_any _) ?_
    intro ods _
    refine Prog.ends_pure ?_
    split
    · exact (setOds ods).leaveOds ⟨nofun, nofun⟩
    · exact setOds ods
  · exact Prog.ends_pure (setPad _)
  · exact Prog.ends_pure (setPad _)
  · exact Prog.ends_pure aside

theorem Aside.yields_stepPrepareWrites (aside : Aside omap omap') :
    Yields omap'.stepPrepareWrites (fun outcome => Aside omap outcome.2) := by
  have setOds : ∀ ods, Aside omap { omap' with ods } := fun ods =>
    ⟨aside.daoram, aside.numPositions, aside.scanPos, aside.phase, aside.roundPhase⟩
  unfold DaOstOmap.stepPrepareWrites
  split
  · rename_i isDaoram
    exact (aside.roundPhase.1 isDaoram).elim
  · rename_i isScan
    exact (aside.roundPhase.2 isScan).elim
  · refine Prog.ends_bind (yields_any _) ?_
    rintro ⟨writes, ods⟩ _
    exact Prog.ends_pure (setOds ods)
  · refine Prog.ends_bind (yields_any _) ?_
    rintro ⟨writes, ods⟩ _
    exact Prog.ends_pure (setOds ods)
  · refine Prog.ends_bind (yields_any _) ?_
    rintro ⟨data, oram⟩ _
    exact Prog.ends_pure (setOds _)
  · refine Prog.ends_bind (yields_any _) ?_
    rintro ⟨data, oram⟩ _
    exact Prog.ends_pure (setOds _)
  · exact Prog.ends_pure aside

omit [Cipher] in
theorem Aside.writeStores (aside : Aside omap omap') (writes : List StepWriteReq) :
    Aside omap (writes.foldl writeStore omap') := by
  induction writes generalizing omap' with
  | nil => exact aside
  | cons write rest ih =>
      refine ih ?_
      rcases aside with ⟨daoram, numPositions, scanPos, phase, roundPhase⟩
      unfold writeStore
      split
      · rename_i isDaoram
        exact (roundPhase.1 isDaoram).elim
      · rename_i isScan
        exact (roundPhase.2 isScan).elim
      all_goals exact ⟨daoram, numPositions, scanPos, phase, roundPhase⟩

omit [Cipher] in
/-- A decision only touches the tree. -/
theorem yields_stepCommit (omap : DaOstOmap Ω) (remove : Bool) :
    Yields (doWhen omap.stepNeedsDecision (omap.stepCommit remove) omap)
      (fun omap' => ∃ ods, omap' = { omap with ods }) := by
  refine yields_doWhen (fun _ => ?_) (fun _ => ⟨omap.ods, rfl⟩)
  unfold stepCommit
  cases remove with
  | true =>
      refine Prog.ends_bind (yields_any _) ?_
      intro ods _
      exact Prog.ends_pure ⟨ods, rfl⟩
  | false =>
      refine Prog.ends_bind (yields_any _) ?_
      intro ods _
      exact Prog.ends_pure ⟨ods, rfl⟩

theorem Settled.yields_stepRound (settled : omap.Settled)
    (later : DaOstPhase.IsLater omap.ss.phase) (busy : omap.ss.phase ≠ .done) (remove : Bool) :
    Yields (omap.stepRound remove) (fun outcome => outcome.2.Sound) := by
  refine Prog.ends_bind (aside_stepNextRound later busy) ?_
  rintro ⟨reads, askedOmap⟩ asked
  refine Prog.ends_bind (yields_any _) ?_
  intro _ _
  refine Prog.ends_bind (asked.stepApplyReads _).yields_stepProcess ?_
  intro processedOmap processed
  refine Prog.ends_bind (processedOmap.yields_stepCommit remove) ?_
  rintro _ ⟨ods, rfl⟩
  have committed : Aside omap { processedOmap with ods } :=
    ⟨processed.daoram, processed.numPositions, processed.scanPos, processed.phase,
      processed.roundPhase⟩
  refine Prog.ends_bind committed.yields_stepPrepareWrites ?_
  rintro ⟨writes, preparedOmap⟩ prepared
  refine Prog.ends_bind (yields_any _) ?_
  intro _ _
  exact Prog.ends_pure (settled.aside (prepared.writeStores writes))

/-! ## Rounds of the DAORAM phase -/

/-- The phases in which the DAORAM is accessed. -/
def DaOstPhase.IsDaoram (phase : DaOstPhase) : Prop := phase = .daoram ∨ phase = .scanDaoram

/-- The accesses to the DAORAM go on. -/
structure Stays (omap : DaOstOmap Ω) (daoram : DAOram) (omap' : DaOstOmap Ω) : Prop where
  daoram : omap'.daoram = daoram
  numPositions : omap'.numPositions = omap.numPositions
  scanPos : omap'.scanPos = omap.scanPos
  phase : omap'.ss.phase = omap.ss.phase
  pb : omap'.pb = omap.pb
  roundPhase : omap'.ss.roundPhase = omap.ss.roundPhase

/-- The accesses to the DAORAM are finished, and nothing else happened to it. -/
structure Left (omap : DaOstOmap Ω) (daoram : DAOram) (omap' : DaOstOmap Ω) : Prop where
  daoram : ∃ pbStep, pbStep.active = false ∧
    omap'.daoram = { daoram with step := { daoram.step with active := false }, pbStep }
  numPositions : omap'.numPositions = omap.numPositions
  scanPos : omap'.scanPos = omap.scanPos
  phase : DaOstPhase.IsLater omap'.ss.phase
  roundPhase : omap'.ss.roundPhase = omap.ss.roundPhase

omit [Cipher] in
theorem yields_leaveDaoram (isActive : omap.daoram.pbStep.active = omap.pb.active) :
    Yields omap.leaveDaoram (Left omap omap.daoram) := by
  refine Prog.ends_bind (Q := fun omap' => omap'.numPositions = omap.numPositions ∧
    omap'.scanPos = omap.scanPos ∧ omap'.ss.roundPhase = omap.ss.roundPhase ∧
    ∃ pbStep, pbStep.active = false ∧ omap'.daoram =
      { omap.daoram with step := { omap.daoram.step with active := false }, pbStep }) ?_ ?_
  · unfold startPiggyback
    dsimp only
    split
    · rename_i absent
      refine Prog.ends_pure ⟨rfl, rfl, rfl, _, ?_, rfl⟩
      rw [isActive]
      simpa using absent
    · split
      · exact Prog.ends_pure ⟨rfl, rfl, rfl, _, rfl, rfl⟩
      · split
        all_goals
          refine Prog.ends_bind (yields_any _) ?_
          intro ods _
          exact Prog.ends_pure ⟨rfl, rfl, rfl, _, rfl, rfl⟩
  · rintro omap' ⟨numPositions, scanPos, roundPhase, daoram⟩
    refine Prog.ends_pure ⟨daoram, numPositions, scanPos, ?_, ?_⟩
    · dsimp only
      split <;> exact ⟨nofun, nofun⟩
    · dsimp only
      split <;> exact roundPhase

omit [Cipher] in
theorem left_leaveScanDaoram (inactive : omap.daoram.pbStep.active = false) :
    Left omap omap.daoram omap.leaveScanDaoram := by
  unfold leaveScanDaoram
  dsimp only
  split
  · exact ⟨⟨_, inactive, rfl⟩, rfl, rfl, ⟨nofun, nofun⟩, rfl⟩
  · refine ⟨⟨_, inactive, rfl⟩, rfl, rfl, ?_, rfl⟩
    dsimp only
    split <;> exact ⟨nofun, nofun⟩

omit [Cipher] in
/-- The client's part of a round: the phase ends with the accesses to the DAORAM. -/
theorem yields_stepProcess_daoram (isDaoram : DaOstPhase.IsDaoram omap.ss.roundPhase)
    {Q : DAOram → Prop} (processes : Yields omap.daoram.stepProcess Q)
    (isActive : omap.ss.roundPhase = .daoram →
      ∀ daoram, Q daoram → daoram.pbStep.active = omap.pb.active)
    (inactive : omap.ss.roundPhase = .scanDaoram →
      ∀ daoram, Q daoram → daoram.pbStep.active = false) :
    Yields omap.stepProcess (fun omap' => ∃ daoram, Q daoram ∧
      (daoram.step.done = true → Left omap daoram omap') ∧
      (daoram.step.done = false → Stays omap daoram omap')) := by
  have stays : ∀ daoram, Stays omap daoram { omap with daoram } :=
    fun _ => ⟨rfl, rfl, rfl, rfl, rfl, rfl⟩
  have leaves : ∀ {daoram omap'}, Left { omap with daoram } daoram omap' → Left omap daoram omap' :=
    fun left => ⟨left.daoram, left.numPositions, left.scanPos, left.phase, left.roundPhase⟩
  unfold DaOstOmap.stepProcess
  rcases isDaoram with roundPhase | roundPhase
  · rw [roundPhase]
    refine Prog.ends_bind processes ?_
    intro daoram holds
    dsimp only
    split
    · rename_i done
      refine (yields_leaveDaoram (isActive roundPhase daoram holds)).mono ?_
      intro omap' left
      exact ⟨daoram, holds, fun _ => leaves left,
        fun notDone => by rw [done] at notDone; cases notDone⟩
    · rename_i notDone
      exact Prog.ends_pure ⟨daoram, holds, fun done => (notDone done).elim, fun _ => stays daoram⟩
  · rw [roundPhase]
    refine Prog.ends_bind processes ?_
    intro daoram holds
    refine Prog.ends_pure ⟨daoram, holds, ?_, ?_⟩
    · intro done
      rw [if_pos done]
      exact leaves (left_leaveScanDaoram (inactive roundPhase daoram holds))
    · intro notDone
      rw [if_neg (by rw [notDone]; nofun)]
      exact stays daoram

omit [Cipher] in
theorem writeStores_daoram (omap : DaOstOmap Ω)
    (isDaoram : DaOstPhase.IsDaoram omap.ss.roundPhase) (writes : List StepWriteReq) :
    writes.foldl writeStore omap =
      { omap with daoram := writes.foldl DAOram.writeStore omap.daoram } := by
  induction writes generalizing omap with
  | nil => rfl
  | cons write rest ih =>
      have written : omap.writeStore write = { omap with daoram := omap.daoram.writeStore write } := by
        unfold writeStore
        rcases isDaoram with roundPhase | roundPhase <;> rw [roundPhase]
      rw [List.foldl_cons, List.foldl_cons, written]
      exact ih _ isDaoram

theorem stepPrepareWrites_daoram (isDaoram : DaOstPhase.IsDaoram omap.ss.roundPhase) :
    omap.stepPrepareWrites = (do
      let (writes, daoram) ← omap.daoram.stepGetWrites
      return (writes, { omap with daoram })) := by
  unfold stepPrepareWrites
  rcases isDaoram with roundPhase | roundPhase <;> rw [roundPhase]

/-- The end of a DAORAM round. -/
theorem yields_writes_daoram (isDaoram : DaOstPhase.IsDaoram omap.ss.roundPhase)
    {Q : List StepWriteReq → DAOram → Prop} (writes : Yields omap.daoram.stepGetWrites
      (fun outcome => Q outcome.1 (outcome.1.foldl DAOram.writeStore outcome.2)))
    (reads : List StepReadReq) :
    Yields (do
      let (writes, omap) ← omap.stepPrepareWrites
      send (.batchWrite (writes.map StepWriteReq.storeId))
      return ((reads, writes), writes.foldl writeStore omap)) (fun outcome =>
        outcome.1.1 = reads ∧ ∃ daoram, Q outcome.1.2 daoram ∧ outcome.2 = { omap with daoram }) := by
  rw [stepPrepareWrites_daoram isDaoram, bind_assoc]
  refine Prog.ends_bind writes ?_
  rintro ⟨writes, daoram⟩ holds
  rw [pure_bind]
  refine Prog.ends_bind (yields_any _) ?_
  intro _ _
  refine Prog.ends_pure ⟨rfl, _, holds, ?_⟩
  exact writeStores_daoram { omap with daoram } isDaoram writes

omit [Cipher] in
theorem stepNextRound_daoram (isDaoram : DaOstPhase.IsDaoram omap.ss.phase) :
    omap.stepNextRound = pure (omap.daoram.stepGetReads,
      { omap with ss := { omap.ss with roundPhase := omap.ss.phase } }) := by
  unfold stepNextRound
  rcases isDaoram with phase | phase
  all_goals
    rw [if_neg (by rw [phase]; nofun)]
    dsimp only
    rw [phase]

theorem stepApplyReads_daoram (isDaoram : DaOstPhase.IsDaoram omap.ss.roundPhase)
    (reads : List StepReadReq) : omap.stepApplyReads (reads.map omap.readStore) =
      { omap with daoram := omap.daoram.stepApplyReads (reads.map (fun request =>
          (omap.daoram.treeAt omap.daoram.stage).storage.readPath request.leaf)) } := by
  have answered : omap.readStore = fun request =>
      (omap.daoram.treeAt omap.daoram.stage).storage.readPath request.leaf := by
    funext request
    unfold readStore
    rcases isDaoram with roundPhase | roundPhase <;> rw [roundPhase]
  rw [answered]
  unfold DaOstOmap.stepApplyReads
  rcases isDaoram with roundPhase | roundPhase <;> rw [roundPhase]

section Round

variable {active : Bool} {plan : Plan} {counters : Counters} {values : Nat → Bytes}
  {main piggyback : DaOp} {stage : Nat}

omit [OdsTree Ω] in
theorem sharesLastReads_iff
    (midway : omap.daoram.Midway plan main active piggyback stage counters values)
    (shares : active = true ↔ omap.ss.phase = .daoram ∧ omap.pb.active = true) :
    omap.SharesLastReads ↔ (stage = 0 → ∀ leaf ∈ omap.daoram.roundLeaves,
      leaf ∈ [omap.daoram.step.cur.leaf1, omap.daoram.step.cur.leaf2]) := by
  rw [SharesLastReads, midway.stage_eq, DAOram.roundLeaves, midway.isActive]
  constructor
  · intro sharesLast isLast leaf leafMem
    rcases List.mem_append.mp leafMem with isMain | isPiggyback
    · exact isMain
    · cases active with
      | true =>
          rcases shares.mp rfl with ⟨phase, pbActive⟩
          exact sharesLast phase pbActive isLast leaf isPiggyback
      | false => cases isPiggyback
  · intro covers phase pbActive isLast leaf leafMem
    refine covers isLast leaf (List.mem_append_right _ ?_)
    rw [shares.mpr ⟨phase, pbActive⟩]
    exact leafMem

omit [OdsTree Ω] in
/-- What is written covers what was read exactly when no leaf is left out. -/
theorem writesBack_iff
    (midway : omap.daoram.Midway plan main active piggyback stage counters values)
    {leaves : List Int} (areLeaves : ∀ leaf ∈ leaves, IsLeaf (plan.levels stage) leaf)
    {requests : List StepReadReq × List StepWriteReq}
    (reads : requests.1 = omap.daoram.stepGetReads)
    (writes : requests.2.flatMap (fun write => write.data.map Prod.fst) =
      mergedPathIndices (plan.levels stage) leaves) :
    omap.WritesBack requests ↔ ∀ leaf ∈ omap.daoram.roundLeaves, leaf ∈ leaves := by
  have level := (midway.holding.labelled stage midway.stage_le).level_eq
  rw [WritesBack, midway.stage_eq, level, reads, writes, midway.stepGetReads_eq]
  simp only [List.forall_mem_map]
  refine forall₂_congr ?_
  intro leaf leafMem
  exact pathNodes_subset_iff areLeaves (midway.areLeaves leaf leafMem)

omit [OdsTree Ω] [Cipher] in
theorem alone_of_scan (shares : active = true ↔ omap.ss.phase = .daoram ∧ omap.pb.active = true)
    (phase : omap.ss.phase = .scanDaoram) : active = false := by
  rw [Bool.eq_false_iff]
  intro both
  rw [(shares.mp both).1] at phase
  cases phase

/-- Fetching the paths of a DAORAM round and the client's part. -/
theorem yields_process
    (midway : omap.daoram.Midway plan main active piggyback stage counters values)
    (valid : plan.Valid) (mainInRange : main.InRange (plan.sizes 0))
    (piggybackInRange : piggyback.InRange (plan.sizes 0))
    (isDaoram : DaOstPhase.IsDaoram omap.ss.phase) (sameRound : omap.ss.roundPhase = omap.ss.phase)
    (shares : active = true ↔ omap.ss.phase = .daoram ∧ omap.pb.active = true) :
    Yields (omap.stepApplyReads (omap.daoram.stepGetReads.map omap.readStore)).stepProcess
      (fun omap' => ∃ daoram,
        omap.daoram.Processed plan main active piggyback counters values daoram stage ∧
        (daoram.step.done = true → Left omap daoram omap') ∧
        (daoram.step.done = false → Stays omap daoram omap')) := by
  have process := yields_of_ends (midway.ends_process valid mainInRange piggybackInRange)
  rw [← sameRound] at isDaoram
  rw [stepApplyReads_daoram isDaoram]
  generalize omap.daoram.stepApplyReads _ = fetched at process ⊢
  refine (@yields_stepProcess_daoram _ _ { omap with daoram := fetched } isDaoram _ process
    ?_ ?_).mono ?_
  · intro roundPhase daoram processed
    rw [(processed.writeLeaves_eq midway.isActive).1, Bool.eq_iff_iff, shares, ← sameRound]
    exact and_iff_right roundPhase
  · intro roundPhase daoram processed
    rw [(processed.writeLeaves_eq midway.isActive).1]
    exact alone_of_scan shares (sameRound ▸ roundPhase)
  · rintro omap' ⟨daoram, processed, leaves, stays⟩
    refine ⟨daoram, processed, ?_, ?_⟩
    · intro done
      rcases leaves done with ⟨sameDaoram, numPositions, scanPos, phase, roundPhase⟩
      exact ⟨sameDaoram, numPositions, scanPos, phase, roundPhase⟩
    · intro notDone
      rcases stays notDone with ⟨sameDaoram, numPositions, scanPos, phase, pb, roundPhase⟩
      exact ⟨sameDaoram, numPositions, scanPos, phase, pb, roundPhase⟩

/-- The end of a round at a position-map level: both accesses are still underway. -/
theorem yields_writes_level {daoram : DAOram} {omap' : DaOstOmap Ω} {level : Nat}
    (midway : omap.daoram.Midway plan main active piggyback (level + 1) counters values)
    (valid : plan.Valid) (sizeEq : plan.sizes 0 = omap.numPositions)
    (mainInRange : main.InRange omap.numPositions)
    (piggybackInRange : piggyback.InRange omap.numPositions)
    (scans : omap.IsPosition omap.scanPos) (isDaoram : DaOstPhase.IsDaoram omap.ss.phase)
    (sameRound : omap.ss.roundPhase = omap.ss.phase)
    (shares : active = true ↔ omap.ss.phase = .daoram ∧ omap.pb.active = true)
    (processed : omap.daoram.Processed plan main active piggyback counters values daoram
      (level + 1)) (stays : daoram.step.done = false → Stays omap daoram omap') :
    Yields (do
      let (writes, omap') ← omap'.stepPrepareWrites
      send (.batchWrite (writes.map StepWriteReq.storeId))
      return ((omap.daoram.stepGetReads, writes), writes.foldl writeStore omap')) (fun outcome =>
        omap.WritesBack outcome.1 ∧ outcome.2.Sound) := by
  have sameLeaves := (processed.writeLeaves_eq midway.isActive).2
  cases processed with
  | level holding stepEq pbStepEq mainDue piggybackDue =>
      rcases stays (by rw [stepEq]) with ⟨rfl, numPositions, scanPos, phase, pb, roundPhase⟩
      refine (yields_writes_daoram (roundPhase ▸ sameRound ▸ isDaoram)
        (holding.yields_evicted midway.stage_le (by rw [stepEq])
          (sameLeaves ▸ midway.areLeaves)) _).mono ?_
      rintro ⟨⟨reads, writes⟩, writtenOmap⟩ ⟨rfl, writtenDa, ⟨nodes, written, same⟩, rfl⟩
      specialize written (by rw [sameLeaves])
      specialize same (by rw [sameLeaves])
      refine ⟨(writesBack_iff midway (sameLeaves ▸ midway.areLeaves) rfl nodes).mpr
        (fun leaf leafMem => sameLeaves ▸ leafMem), ?_⟩
      have underway : ({ omap' with daoram := writtenDa } : DaOstOmap Ω).Underway active := by
        refine ⟨?_, plan, counters, values, main, piggyback, level, valid,
          sizeEq.trans numPositions.symm, numPositions.symm ▸ mainInRange,
          numPositions.symm ▸ piggybackInRange,
          midway.descend (same.step.trans stepEq) (same.pbStep.trans pbStepEq) mainDue
            piggybackDue written⟩
        show omap'.scanPos < omap'.numPositions ∨ omap'.numPositions = 0
        rw [numPositions, scanPos]
        exact scans
      unfold Sound
      dsimp only
      rw [phase]
      rcases isDaoram with isMain | isScan
      · have sameActive : omap'.pb.active = active := by
          rw [pb, Bool.eq_iff_iff, shares]
          exact (and_iff_right isMain).symm
        rw [isMain, sameActive]
        exact underway
      · rw [isScan]
        exact alone_of_scan shares isScan ▸ underway

/-- The end of the last round: only the paths of the main operation are written. -/
theorem yields_writes_data {daoram : DAOram} {omap' : DaOstOmap Ω}
    (midway : omap.daoram.Midway plan main active piggyback 0 counters values)
    (valid : plan.Valid) (sizeEq : plan.sizes 0 = omap.numPositions)
    (scans : omap.IsPosition omap.scanPos) (isDaoram : DaOstPhase.IsDaoram omap.ss.phase)
    (sameRound : omap.ss.roundPhase = omap.ss.phase)
    (processed : omap.daoram.Processed plan main active piggyback counters values daoram 0)
    (leaves : daoram.step.done = true → Left omap daoram omap') :
    Yields (do
      let (writes, omap') ← omap'.stepPrepareWrites
      send (.batchWrite (writes.map StepWriteReq.storeId))
      return ((omap.daoram.stepGetReads, writes), writes.foldl writeStore omap')) (fun outcome =>
        (omap.WritesBack outcome.1 ↔ ∀ leaf ∈ omap.daoram.roundLeaves,
          leaf ∈ [omap.daoram.step.cur.leaf1, omap.daoram.step.cur.leaf2]) ∧
        (omap.WritesBack outcome.1 → outcome.2.Sound)) := by
  cases processed with
  | data holding stepEq pbStepEq =>
      rcases leaves (by rw [stepEq]) with
        ⟨⟨pbStep, inactive, daoramEq⟩, numPositions, scanPos, phase, roundPhase⟩
      have mainLeaves : omap'.daoram.writeLeaves =
          [omap.daoram.step.cur.leaf1, omap.daoram.step.cur.leaf2] := by
        rw [daoramEq, DAOram.writeLeaves, stepEq, inactive]
        rfl
      have areLeaves : ∀ leaf ∈ [omap.daoram.step.cur.leaf1, omap.daoram.step.cur.leaf2],
          IsLeaf (plan.levels 0) leaf := midway.mainDue.areLeaves
      have left := holding.setSteps { daoram.step with active := false } pbStep
      rw [← daoramEq] at left
      refine (yields_writes_daoram (roundPhase ▸ sameRound ▸ isDaoram)
        (left.yields_evicted midway.stage_le (by rw [daoramEq, stepEq])
          (mainLeaves ▸ areLeaves)) _).mono ?_
      rintro ⟨⟨reads, writes⟩, writtenOmap⟩ ⟨rfl, writtenDa, ⟨nodes, written, same⟩, rfl⟩
      rw [mainLeaves] at nodes written same
      have covers : omap.WritesBack (omap.daoram.stepGetReads, writes) ↔ _ :=
        writesBack_iff midway areLeaves rfl nodes
      refine ⟨covers, fun writesBack => ?_⟩
      have samePaths : pathSet (plan.levels 0) omap.daoram.roundLeaves =
          pathSet (plan.levels 0) [omap.daoram.step.cur.leaf1, omap.daoram.step.cur.leaf2] := by
        ext node
        simp only [mem_pathSet]
        constructor
        · rintro ⟨leaf, leafMem, onPath⟩
          exact ⟨leaf, covers.mp writesBack leaf leafMem, onPath⟩
        · rintro ⟨leaf, leafMem, onPath⟩
          exact ⟨leaf, List.mem_append_left _ leafMem, onPath⟩
      have settled : ({ omap' with daoram := writtenDa } : DaOstOmap Ω).Settled := by
        refine ⟨?_, ?_, values, plan, _, valid, sizeEq.trans numPositions.symm, written samePaths⟩
        · show writtenDa.pbStep.active = false
          rw [(same samePaths).pbStep, daoramEq]
          exact inactive
        · show omap'.scanPos < omap'.numPositions ∨ omap'.numPositions = 0
          rw [numPositions, scanPos]
          exact scans
      exact (@sound_of_later _ _ { omap' with daoram := writtenDa } phase).mpr settled

/-- A DAORAM round from its fetch on. -/
theorem Underway.yields_afterReads (underway : omap.Underway active)
    (isDaoram : DaOstPhase.IsDaoram omap.ss.phase) (sameRound : omap.ss.roundPhase = omap.ss.phase)
    (shares : active = true ↔ omap.ss.phase = .daoram ∧ omap.pb.active = true) (remove : Bool) :
    Yields (do
      let omap' ← (omap.stepApplyReads (omap.daoram.stepGetReads.map omap.readStore)).stepProcess
      let omap' ← doWhen omap'.stepNeedsDecision (omap'.stepCommit remove) omap'
      let (writes, omap') ← omap'.stepPrepareWrites
      send (.batchWrite (writes.map StepWriteReq.storeId))
      return ((omap.daoram.stepGetReads, writes), writes.foldl writeStore omap')) (fun outcome =>
        (omap.WritesBack outcome.1 ↔ omap.SharesLastReads) ∧
        (omap.WritesBack outcome.1 → outcome.2.Sound)) := by
  rcases underway with
    ⟨scans, plan, counters, values, main, piggyback, stage, valid, sizeEq, mainInRange,
      piggybackInRange, midway⟩
  have sharesLast := sharesLastReads_iff midway shares
  refine Prog.ends_bind (yields_process midway valid (sizeEq.symm ▸ mainInRange)
    (sizeEq.symm ▸ piggybackInRange) isDaoram sameRound shares) ?_
  rintro processedOmap ⟨daoram, processed, leaves, stays⟩
  refine Prog.ends_bind (processedOmap.yields_stepCommit remove) ?_
  rintro _ ⟨ods, rfl⟩
  cases stage with
  | succ level =>
      refine (yields_writes_level midway valid sizeEq mainInRange piggybackInRange scans isDaoram
        sameRound shares processed ?_).mono ?_
      · intro notDone
        rcases stays notDone with ⟨sameDaoram, numPositions, scanPos, phase, pb, roundPhase⟩
        exact ⟨sameDaoram, numPositions, scanPos, phase, pb, roundPhase⟩
      · rintro outcome ⟨writesBack, sound⟩
        exact ⟨iff_of_true writesBack (sharesLast.mpr (fun isLast => nomatch isLast)),
          fun _ => sound⟩
  | zero =>
      refine (yields_writes_data midway valid sizeEq scans isDaoram sameRound processed ?_).mono ?_
      · intro done
        rcases leaves done with ⟨sameDaoram, numPositions, scanPos, phase, roundPhase⟩
        exact ⟨sameDaoram, numPositions, scanPos, phase, roundPhase⟩
      · rintro outcome ⟨covers, sound⟩
        exact ⟨covers.trans (sharesLast.trans (forall_prop_of_true rfl)).symm, sound⟩

/-- A round of the DAORAM phase is sound exactly if the piggybacked operation adds no last reads. -/
theorem Underway.yields_stepRound (underway : omap.Underway active)
    (isDaoram : DaOstPhase.IsDaoram omap.ss.phase)
    (shares : active = true ↔ omap.ss.phase = .daoram ∧ omap.pb.active = true) (remove : Bool) :
    Yields (omap.stepRound remove) (fun outcome =>
      (omap.WritesBack outcome.1 ↔ omap.SharesLastReads) ∧
      (omap.WritesBack outcome.1 → outcome.2.Sound)) := by
  unfold stepRound
  rw [stepNextRound_daoram isDaoram, pure_bind]
  refine Prog.ends_bind (yields_any _) ?_
  intro _ _
  have asked : ({ omap with ss := { omap.ss with roundPhase := omap.ss.phase } } :
    DaOstOmap Ω).Underway active := underway
  exact asked.yields_afterReads isDaoram rfl shares remove

end Round

/-! ## Runs -/

omit [OdsTree Ω] in
theorem Sound.underway (sound : omap.Sound) (isDaoram : DaOstPhase.IsDaoram omap.ss.phase) :
    ∃ active, omap.Underway active ∧
      (active = true ↔ omap.ss.phase = .daoram ∧ omap.pb.active = true) := by
  unfold Sound at sound
  rcases isDaoram with phase | phase
  · rw [phase] at sound
    exact ⟨_, sound, by simp [phase]⟩
  · rw [phase] at sound
    exact ⟨false, sound, by simp [phase]⟩

/-- A round from a sound state. -/
theorem Sound.yields_stepRound (sound : omap.Sound) (busy : omap.stepDone = false) (remove : Bool) :
    Yields (omap.stepRound remove) (fun outcome => omap.SharesLastReads → outcome.2.Sound) := by
  have notDone : omap.ss.phase ≠ .done := by
    intro done
    rw [stepDone, done] at busy
    cases busy
  by_cases isDaoram : DaOstPhase.IsDaoram omap.ss.phase
  · rcases sound.underway isDaoram with ⟨active, underway, shares⟩
    refine (underway.yields_stepRound isDaoram shares remove).mono ?_
    rintro outcome ⟨covers, sound'⟩ sharesLast
    exact sound' (covers.mpr sharesLast)
  · have later : DaOstPhase.IsLater omap.ss.phase :=
      ⟨fun phase => isDaoram (Or.inl phase), fun phase => isDaoram (Or.inr phase)⟩
    refine (((sound_of_later later).mp sound).yields_stepRound later notDone remove).mono ?_
    exact fun _ sound' _ => sound'

omit [OdsTree Ω] in
theorem Sound.settled (sound : omap.Sound) (idle : omap.stepDone = true) :
    omap.Settled ∧ omap.ss.phase = .done := by
  have phase : omap.ss.phase = .done := eq_of_beq idle
  exact ⟨(sound_of_later ⟨by rw [phase]; nofun, by rw [phase]; nofun⟩).mp sound, phase⟩

omit [OdsTree Ω] in
theorem Settled.sound (settled : omap.Settled) (phase : omap.ss.phase = .done) : omap.Sound :=
  (sound_of_later ⟨by rw [phase]; nofun, by rw [phase]; nofun⟩).mpr settled

/-- Finishing operations leaves the DAORAM alone. -/
structure Rests (omap omap' : DaOstOmap Ω) : Prop where
  daoram : omap'.daoram = omap.daoram
  numPositions : omap'.numPositions = omap.numPositions
  scans : omap.IsPosition omap.scanPos → omap'.IsPosition omap'.scanPos
  phase : omap'.ss.phase = omap.ss.phase

omit [OdsTree Ω] [Cipher] in
theorem Rests.trans {omap'' : DaOstOmap Ω} (first : Rests omap omap')
    (second : Rests omap' omap'') : Rests omap omap'' :=
  ⟨second.daoram.trans first.daoram, second.numPositions.trans first.numPositions,
    second.scans ∘ first.scans, second.phase.trans first.phase⟩

omit [Cipher] in
theorem rests_stepFinish (omap : DaOstOmap Ω) : Rests omap omap.stepFinish.2 := by
  unfold stepFinish
  split
  · split <;> exact ⟨rfl, rfl, id, rfl⟩
  · split
    · exact ⟨rfl, rfl, id, rfl⟩
    · dsimp only
      split <;> exact ⟨rfl, rfl, id, rfl⟩

omit [Cipher] in
theorem rests_finishPiggyback (omap : DaOstOmap Ω) : Rests omap omap.finishPiggyback.2 := by
  unfold finishPiggyback
  split
  · exact ⟨rfl, rfl, id, rfl⟩
  · dsimp only
    split <;> exact ⟨rfl, rfl, id, rfl⟩

omit [OdsTree Ω] [Cipher] in
theorem rests_stepFinishScan (omap : DaOstOmap Ω) : Rests omap omap.stepFinishScan.2 :=
  ⟨rfl, rfl, omap.beside_nextScanPos.scans, rfl⟩

omit [OdsTree Ω] in
theorem Sound.rests (sound : omap.Sound) (idle : omap.stepDone = true)
    (rests : Rests omap omap') : omap'.Sound := by
  rcases sound.settled idle with ⟨⟨inactive, scans, values, accounted⟩, phase⟩
  refine Settled.sound ⟨rests.daoram ▸ inactive, rests.scans scans, values, ?_⟩
    (rests.phase.trans phase)
  rw [rests.daoram, rests.numPositions]
  exact accounted

theorem Sound.setStepDecisionEnabled (sound : omap.Sound) (enable : Bool) :
    (omap.setStepDecisionEnabled enable).Sound := by
  have samePhase : (omap.setStepDecisionEnabled enable).ss.phase = omap.ss.phase := rfl
  have settled : omap.Settled → (omap.setStepDecisionEnabled enable).Settled := by
    rintro ⟨inactive, scans, accounted⟩
    exact ⟨inactive, scans, accounted⟩
  unfold Sound at sound ⊢
  rw [samePhase]
  generalize omap.ss.phase = phase at sound ⊢
  cases phase
  case daoram | scanDaoram => exact sound
  all_goals exact settled sound

/-- The rounds with a harmless piggybacked operation keep the DAORAM sound. -/
theorem Reached.sound {config : DaOstConfig} (reached : Reached config SharesLastReads omap) :
    omap.Sound := by
  induction reached with
  | init run =>
      rcases (yields_create config _).returned run with ⟨settled, phase⟩
      exact settled.sound phase
  | call _ idle _ run ih =>
      rcases ih.settled idle with ⟨settled, phase⟩
      rcases (settled.yields_call _).returned run with ⟨settled', sameSs⟩
      exact settled'.sound (sameSs ▸ phase)
  | begin _ idle finished run ih =>
      exact ((ih.settled idle).1.yields_begin finished _ _).returned run
  | beginScan _ idle _ run ih => exact (ih.settled idle).1.yields_beginStepScan.returned run
  | decisions _ ih => exact ih.setStepDecisionEnabled _
  | round _ busy sharesLast run ih => exact (ih.yields_stepRound busy _).returned run sharesLast
  | finish _ idle ih =>
      exact ih.rests idle ((rests_stepFinish _).trans (rests_finishPiggyback _))
  | finishScan _ idle ih =>
      exact ih.rests idle ((rests_stepFinish _).trans (rests_stepFinishScan _))

omit [OdsTree Ω] in
/-- A sound DAORAM stores every block once, in the middle of its operations too. -/
theorem Sound.storedOnce (sound : omap.Sound) : omap.StoredOnce := by
  have held : ∃ plan counters labels values,
      omap.daoram.Holding plan counters labels (fun _ => ∅) values := by
    unfold Sound at sound
    rcases phase : omap.ss.phase
    all_goals rw [phase] at sound
    case daoram | scanDaoram =>
      rcases sound with ⟨_, plan, counters, values, _, _, _, _, _, _, _, midway⟩
      exact ⟨plan, _, _, values, midway.holding⟩
    all_goals
      rcases sound with ⟨_, _, values, plan, counters, _, _, represents⟩
      exact ⟨plan, counters, _, values, represents⟩
  rcases held with ⟨plan, counters, labels, values, holding⟩
  intro stage stageLe
  rw [holding.follows.top] at stageLe
  rw [DAOram.liveAt, (holding.labelled stage stageLe).liveBlocks_eq, map_key_blocksOf,
    holding.follows.sizes stage stageLe]

/--
In a run whose rounds all meet `SharesLastReads`, every path read from the DAORAM
is written back in its round, and every block is stored once. A round from such a
state that does not meet it leaves a path out.
-/
theorem daoram_reads_written_back {config : DaOstConfig}
    (reached : Reached config SharesLastReads omap) :
    omap.StoredOnce ∧ (DaOstPhase.IsDaoram omap.ss.phase → ∀ remove,
      Yields (omap.stepRound remove) (fun outcome =>
        omap.WritesBack outcome.1 ↔ omap.SharesLastReads)) := by
  have sound := reached.sound
  refine ⟨sound.storedOnce, ?_⟩
  intro isDaoram remove
  rcases sound.underway isDaoram with ⟨active, underway, shares⟩
  exact (underway.yields_stepRound isDaoram shares remove).mono (fun _ outcome => outcome.1)

end DaOstOmap

section Sample

attribute [local instance] clearCipher

/-- Two positions with a leaf of the DAORAM each. -/
def lossConfig : DaOstConfig where
  capacity := 2
  numPositions := 2
  order := 4
  bucketSize := 1
  heightBound := 1
  hash := Int.toNat
  prf := samplePrf

/-- A map with one record. -/
def lossMap : Rand (DaOstOmap AVLOmap) := DaOstOmap.create lossConfig [(0, [5])]

/-- An insert at one position on the back of a search at the other one. -/
def lossStart : Rand (DaOstOmap AVLOmap) := do
  let omap ← lossMap
  omap.begin (.search 0 none) (some (.insert 1 [6]))

/--
The only DAORAM round: is it due, is everything written back, how many blocks are
there then and how many should there be?
-/
def lossRound : Rand (Bool × Bool × Nat × Nat) := do
  let omap ← lossStart
  let (requests, omap') ← omap.stepRound false
  return (!omap.stepDone, requests.1.all (fun read =>
      (pathNodes (omap.daoram.treeAt omap.daoram.stage).storage.level read.leaf).all (fun node =>
        (requests.2.flatMap (fun write => write.data.map Prod.fst)).contains node)),
    (omap'.daoram.liveAt 0).card, omap'.daoram.sizeAt 0)

theorem lossMap_idle : (lossMap.runFrom {}).1.toOption.map (fun omap =>
    (omap.stepDone, omap.pb.active)) = some (true, false) := by
  decide +kernel

theorem lossRound_eq : (lossRound.runFrom {}).1.toOption = some (true, false, 3, 2) := by
  decide +kernel

theorem reached_lossStart (allowed : DaOstOmap AVLOmap → Prop) {omap : DaOstOmap AVLOmap}
    {world : World} (run : lossStart.runFrom {} = (.ok omap, world)) :
    DaOstOmap.Reached lossConfig allowed omap := by
  rcases Prog.runs_of_bind run with ⟨created, between, createRun, beginRun⟩
  have idle := lossMap_idle
  rw [createRun] at idle
  simp only [Except.toOption, Option.map_some, Option.some.injEq, Prod.mk.injEq] at idle
  exact .begin (.init createRun) idle.1 idle.2 beginRun

/--
A search with an insert on its back reads four paths of the data level and writes
two: afterwards a block is in the stash and in the tree.
-/
theorem daoram_reads_not_written_back : ∃ (omap omap' : DaOstOmap AVLOmap)
    (requests : List StepReadReq × List StepWriteReq) (world world' : World),
    DaOstOmap.Reached lossConfig (fun _ => True) omap ∧ omap.stepDone = false ∧
      (omap.stepRound false).runFrom world = (.ok (requests, omap'), world') ∧
      ¬ omap.WritesBack requests ∧ ¬ omap'.StoredOnce := by
  have outcome := lossRound_eq
  rcases run : lossRound.runFrom {} with ⟨_ | summary, world''⟩
  · rw [run] at outcome
    cases outcome
  rw [run] at outcome
  obtain rfl : summary = (true, false, 3, 2) := Option.some.inj outcome
  rcases Prog.runs_of_bind run with ⟨omap, world, startRun, rest⟩
  rcases Prog.runs_of_bind rest with ⟨⟨requests, omap'⟩, world', roundRun, summaryRun⟩
  have summaryEq := congrArg Prod.fst summaryRun
  have summary := Except.ok.inj summaryEq
  simp only [Prod.mk.injEq, Bool.not_eq_true'] at summary
  rcases summary with ⟨busy, leftOut, stored, expected⟩
  refine ⟨omap, omap', requests, world, world', reached_lossStart _ startRun, busy, roundRun, ?_, ?_⟩
  · intro writesBack
    rw [← Bool.not_eq_true] at leftOut
    refine leftOut (List.all_eq_true.mpr ?_)
    intro read readMem
    refine List.all_eq_true.mpr ?_
    intro node onPath
    exact List.contains_iff_mem.mpr (writesBack read readMem node onPath)
  · intro once
    have sizes := congrArg Multiset.card (once 0 (Nat.zero_le _))
    rw [Multiset.card_map, Multiset.card_map, stored, expected, Multiset.card_range] at sizes
    cases sizes

/-- Up to that round the run meets the condition. -/
theorem daoram_reads_written_back_sample : ∃ omap : DaOstOmap AVLOmap,
    DaOstOmap.Reached lossConfig DaOstOmap.SharesLastReads omap ∧ omap.StoredOnce ∧
      omap.ss.phase = .daoram ∧ Yields (omap.stepRound false) (fun outcome =>
        omap.WritesBack outcome.1 ↔ omap.SharesLastReads) := by
  have returns : (lossStart.runFrom {}).1.toOption.map (fun omap => omap.ss.phase) =
      some .daoram := by
    decide +kernel
  rcases run : lossStart.runFrom {} with ⟨_ | omap, world⟩
  · rw [run] at returns
    cases returns
  rw [run] at returns
  have phase : omap.ss.phase = .daoram := Option.some.inj returns
  have reached := reached_lossStart DaOstOmap.SharesLastReads run
  rcases DaOstOmap.daoram_reads_written_back reached with ⟨once, writesBack⟩
  exact ⟨omap, reached, once, phase, writesBack (Or.inl phase) false⟩

end Sample

end TieredOmap
