import TieredOMap.Tiered.Shape

/-!
# The shape of a batched access

The two step machines and the data ORAM go through the rounds of an interleaved
access: in every round the machines that are not done take part, the data ORAM
right after the searcher is done and once more for the dummy read.
-/

namespace TieredOmap

namespace Rounds

variable {r : Rounds AvlTiers} {fp : Footprint} {keys : Finset Int} {tier : Tier}
  {left left' : Tier → Nat} {data dummy : DStep} {done : Bool}

/-- An interleaved access without piggybacks: the rounds left and the progress of the data reads. -/
structure Going (r : Rounds AvlTiers) (fp : Footprint) (keys : Finset Int) (tier : Tier)
    (left : Tier → Nat) (data dummy : DStep) (done : Bool) : Prop where
  searcher_eq : r.searcher = tier
  fixed : r.s.Fixed fp keys
  stepping : ∀ tier', AVLOmap.Stepping (r.s.omap tier') (fp.tierStore tier') (fp.height tier')
    (left tier')
  dataSt : r.data.st = data
  dummySt : r.ddummy.st = dummy
  scanSt : r.scanData.st = .done
  searcherDone_eq : r.searcherDone = done
  noDecision : r.decisionTriggered = false
  noPending : r.decisionPending = false

/-- The machines that are not done have asked for a path. -/
def Fetching (r : Rounds AvlTiers) (left : Tier → Nat) : Prop :=
  ∀ tier, 0 < left tier → AVLOmap.InRound (r.s.omap tier)

/-- A query without maintenance in full-oblivious mode. -/
structure PlainQuery (q : Query) : Prop where
  full : q.usePartialDummy = false
  noEpoch : q.epochMode = false
  noScan : q.scanKey = invalidKey
  noHotInsert : q.hotInsertKey = invalidKey
  noColdInsert : q.coldInsertKey = invalidKey
  noHotDummy : q.hotDummyPb = false
  noColdDummy : q.coldDummyPb = false

theorem Going.setOmap (going : r.Going fp keys tier left data dummy done) {tier' : Tier}
    {omap : AVLOmap} {count : Nat}
    (stepping : omap.Stepping (fp.tierStore tier') (fp.height tier') count) :
    Going { r with s := r.s.setOmap tier' omap } fp keys tier (Function.update left tier' count)
      data dummy done := by
  refine ⟨going.searcher_eq, going.fixed.setOmap tier' omap, ?_, going.dataSt, going.dummySt,
    going.scanSt, going.searcherDone_eq, going.noDecision, going.noPending⟩
  intro tier''
  cases tier' <;> cases tier''
  · exact stepping
  · exact going.stepping .cold
  · exact going.stepping .hot
  · exact stepping

theorem Going.setSame (going : r.Going fp keys tier left data dummy done) {tier' : Tier}
    {omap : AVLOmap}
    (stepping : omap.Stepping (fp.tierStore tier') (fp.height tier') (left tier')) :
    Going { r with s := r.s.setOmap tier' omap } fp keys tier left data dummy done := by
  have set := going.setOmap stepping
  rwa [Function.update_eq_self] at set

theorem Going.withData (going : r.Going fp keys tier left data dummy done) {dataOram : PathORAM}
    (sameId : dataOram.storage.storeId = fp.dataStore) :
    Going { r with s := { r.s with dataOram } } fp keys tier left data dummy done :=
  ⟨going.searcher_eq, going.fixed.withData sameId, going.stepping, going.dataSt, going.dummySt,
    going.scanSt, going.searcherDone_eq, going.noDecision, going.noPending⟩

/-- The store of a tier, if its machine is not done. -/
def activeStore (fp : Footprint) (left : Tier → Nat) (tier : Tier) : List Nat :=
  if 0 < left tier then [fp.tierStore tier] else []

/-- The data store, if the data ORAM takes part. -/
def dataStores (fp : Footprint) (data dummy : DStep) (st : DStep) : List Nat :=
  (if data = st then [fp.dataStore] else []) ++ if dummy = st then [fp.dataStore] else []

variable [Cipher]

theorem Going.stepDone_eq (going : r.Going fp keys tier left data dummy done) (tier' : Tier) :
    OmapInterface.stepDone (r.s.omap tier') = decide (left tier' = 0) := by
  have doneIff := (going.stepping tier').done_iff
  by_cases none : left tier' = 0
  · rw [decide_eq_true none]
    exact doneIff.mpr none
  · rw [decide_eq_false none]
    exact Bool.eq_false_iff.mpr (fun isDone => none (doneIff.mp isDone))

/-- The plan of a round. -/
theorem Going.plan_eq (going : r.Going fp keys tier left data dummy done) :
    r.plan = {
      searcherActive := decide (0 < left tier), dummyActive := decide (0 < left tier.other)
      dataRead := data == .needRead, dummyRead := dummy == .needRead, scanRead := false } := by
  unfold plan Rounds.dummy
  rw [going.stepDone_eq, going.stepDone_eq, going.dataSt, going.dummySt, going.scanSt,
    going.searcher_eq]
  congr 1
  · by_cases none : left tier = 0 <;> simp [none, Nat.pos_iff_ne_zero]
  · by_cases none : left tier.other = 0 <;> simp [none, Nat.pos_iff_ne_zero]

/-! ## Fetching -/

theorem Going.sends_nextRound (going : r.Going fp keys tier left data dummy done) (tier' : Tier) :
    Sends (r.nextRound tier' (decide (0 < left tier'))) (fun outcome sent =>
      (outcome.1.map StepReadReq.storeId = activeStore fp left tier' ∧
        outcome.2.Going fp keys tier left data dummy done ∧
        (0 < left tier' → AVLOmap.InRound (outcome.2.s.omap tier')) ∧
        outcome.2.s.omap tier'.other = r.s.omap tier'.other) ∧ sent = []) := by
  unfold nextRound activeStore
  by_cases more : 0 < left tier'
  · rw [if_pos (decide_eq_true more), if_pos more]
    refine Prog.emits_bind ((going.stepping tier').sends_stepNextRound more) ?_
    rintro ⟨reads, omap⟩ _ ⟨readIds, stepping, inRound, rfl⟩
    refine Prog.emits_pure ⟨⟨readIds, going.setSame stepping, ?_, ?_⟩, rfl⟩
    · intro _
      cases tier' <;> exact inRound
    · cases tier' <;> rfl
  · rw [if_neg (by simpa using more), if_neg more]
    exact Prog.emits_pure ⟨⟨rfl, going, fun more' => absurd more' more, rfl⟩, rfl⟩

theorem Going.applyReads (going : r.Going fp keys tier left data dummy done)
    (fetching : r.Fetching left) (tier' : Tier) {reads : List StepReadReq}
    (readIds : reads.map StepReadReq.storeId = activeStore fp left tier') :
    (r.applyReads tier' reads).Going fp keys tier left data dummy done ∧
      (r.applyReads tier' reads).Fetching left := by
  unfold Rounds.applyReads modifyOmap
  by_cases more : 0 < left tier'
  · have some : reads.isEmpty = false := by
      cases reads with
      | nil => simp [activeStore, more] at readIds
      | cons head rest => rfl
    rw [some, if_neg (by simp)]
    rcases (going.stepping tier').stepApplyReads (fetching tier' more)
      (reads.map (OmapInterface.readStore (r.s.omap tier'))) with ⟨stepping, inRound⟩
    refine ⟨going.setSame stepping, ?_⟩
    intro tier'' more'
    cases tier' <;> cases tier''
    · exact inRound
    · exact fetching .cold more'
    · exact fetching .hot more'
    · exact inRound
  · have none : reads = [] := by
      simpa [activeStore, more] using readIds
    rw [none]
    exact ⟨going, fetching⟩

theorem Going.applyData (going : r.Going fp keys tier left data dummy done)
    (fetching : r.Fetching left) (op : DataOp) (reading : Bool) (server : BinaryTreeStorage) :
    (r.applyData op reading server).Going fp keys tier left data dummy done ∧
      (r.applyData op reading server).Fetching left := by
  unfold Rounds.applyData
  split
  · exact ⟨going.withData going.fixed.dataId, fetching⟩
  · exact ⟨going, fetching⟩

theorem Going.sends_fetch (going : r.Going fp keys tier left data dummy done) :
    Sends (r.fetch r.plan) (fun r' sent =>
      (r'.Going fp keys tier left data dummy done ∧ r'.Fetching left) ∧
        sent = [.batchRead (activeStore fp left tier ++ activeStore fp left tier.other ++
          dataStores fp data dummy .needRead)]) := by
  rw [going.plan_eq]
  unfold fetch
  dsimp only
  rw [going.searcher_eq]
  refine Prog.emits_bind (going.sends_nextRound tier) ?_
  rintro ⟨searcherReads, searched⟩ _ ⟨⟨searcherIds, searchedGoing, searcherIn, _⟩, rfl⟩
  dsimp only at searcherIds searchedGoing searcherIn ⊢
  have dummyEq : searched.dummy = tier.other := by
    rw [Rounds.dummy, searchedGoing.searcher_eq]
  rw [dummyEq]
  refine Prog.emits_bind (searchedGoing.sends_nextRound tier.other) ?_
  rintro ⟨dummyReads, asked⟩ _ ⟨⟨dummyIds, askedGoing, dummyIn, sameOmap⟩, rfl⟩
  dsimp only at dummyIds askedGoing dummyIn sameOmap ⊢
  have askedFetching : asked.Fetching left := by
    intro tier' more
    have otherOther : tier.other.other = tier := by cases tier <;> rfl
    rw [otherOther] at sameOmap
    by_cases isSearcher : tier' = tier
    · subst isSearcher
      rw [sameOmap]
      exact searcherIn more
    · have isOther : tier' = tier.other := by cases tier <;> cases tier' <;> first | rfl | simp at isSearcher
      subst isOther
      exact dummyIn more
  refine Prog.emits_bind (sends_send _) ?_
  rintro _ _ rfl
  have askedDummy : asked.dummy = tier.other := by
    rw [Rounds.dummy, askedGoing.searcher_eq]
  rcases askedGoing.applyReads askedFetching tier searcherIds with ⟨appliedGoing, appliedFetching⟩
  rcases appliedGoing.applyReads appliedFetching tier.other dummyIds with ⟨readGoing, readFetching⟩
  rw [askedGoing.searcher_eq, askedDummy]
  generalize (asked.applyReads tier searcherReads).applyReads tier.other dummyReads = read
    at readGoing readFetching ⊢
  refine Prog.emits_pure ⟨?_, ?_⟩
  · rcases readGoing.applyData readFetching read.data (data == .needRead)
      read.s.dataOram.storage with ⟨mainGoing, mainFetching⟩
    rcases mainGoing.applyData mainFetching read.ddummy (dummy == .needRead)
      read.s.dataOram.storage with ⟨bothGoing, bothFetching⟩
    exact bothGoing.applyData bothFetching read.scanData false _
  · have stores : [data == .needRead, dummy == .needRead, false].flatMap
        (fun reading => if reading then [asked.s.dataOram.storage.storeId] else []) =
          dataStores fp data dummy .needRead := by
      rw [askedGoing.fixed.dataId]
      cases data <;> cases dummy <;> rfl
    rw [List.map_append, searcherIds, dummyIds, stores]
    rfl

/-! ## Processing -/

/-- The rounds left after one more round. -/
def oneLess (left : Tier → Nat) (tier : Tier) : Nat := left tier - 1

omit [Cipher] in
theorem Fetching.setOmap (fetching : r.Fetching left) {tier' : Tier} {omap : AVLOmap}
    (inRound : 0 < left tier' → omap.InRound) :
    Fetching { r with s := r.s.setOmap tier' omap } left := by
  intro tier'' more
  cases tier' <;> cases tier''
  · exact inRound more
  · exact fetching .cold more
  · exact fetching .hot more
  · exact inRound more

/-- One machine processes what it has read. -/
theorem Going.sends_processTier {left' : Tier → Nat}
    (going : r.Going fp keys tier left' data dummy done) (fetching : r.Fetching left)
    (tier' : Tier) (sameLeft : left' tier' = left tier') :
    Sends (doWhen (decide (0 < left tier')) (r.onOmap tier' OmapInterface.stepProcess) r)
      (fun r' sent => (r'.Going fp keys tier (Function.update left' tier' (left tier' - 1)) data
        dummy done ∧ r'.Fetching left) ∧ sent = []) := by
  by_cases more : 0 < left tier'
  · rw [decide_eq_true more]
    have stepping := going.stepping tier'
    have split : left' tier' = left tier' - 1 + 1 := by omega
    rw [split] at stepping
    refine Prog.emits_bind (Q := fun s' sent => (∃ omap : AVLOmap, s' = r.s.setOmap tier' omap ∧
      omap.Stepping (fp.tierStore tier') (fp.height tier') (left tier' - 1) ∧ omap.InRound) ∧
        sent = []) ?_ ?_
    · refine Prog.emits_bind (stepping.sends_stepProcess (fetching tier' more)) ?_
      rintro omap _ ⟨processed, inRound, rfl⟩
      exact Prog.emits_pure ⟨⟨omap, rfl, processed, inRound⟩, rfl⟩
    · rintro _ _ ⟨⟨omap, rfl, processed, inRound⟩, rfl⟩
      exact Prog.emits_pure ⟨⟨going.setOmap processed, fetching.setOmap (fun _ => inRound)⟩, rfl⟩
  · rw [decide_eq_false more]
    have none : left tier' - 1 = left' tier' := by omega
    rw [none, Function.update_eq_self]
    exact Prog.emits_pure ⟨⟨going, fetching⟩, rfl⟩

theorem Going.sends_process (going : r.Going fp keys tier left data dummy done)
    (fetching : r.Fetching left) {p : RoundPlan} (searcherActive : p.searcherActive = decide (0 < left tier))
    (dummyActive : p.dummyActive = decide (0 < left tier.other)) :
    Sends (r.process p) (fun r' sent =>
      (r'.Going fp keys tier (oneLess left) data dummy done ∧ r'.Fetching left) ∧ sent = []) := by
  unfold process
  rw [searcherActive, dummyActive, going.searcher_eq]
  refine Prog.emits_bind (going.sends_processTier fetching tier rfl) ?_
  rintro processed _ ⟨⟨processedGoing, processedFetching⟩, rfl⟩
  rw [Rounds.dummy, processedGoing.searcher_eq]
  have apart : tier.other ≠ tier := by cases tier <;> simp [Tier.other]
  have both : Function.update (Function.update left tier (left tier - 1)) tier.other
      (left tier.other - 1) = oneLess left := by
    funext tier'
    cases tier <;> cases tier' <;> rfl
  refine (processedGoing.sends_processTier processedFetching tier.other
    (Function.update_of_ne apart _ _)).mono ?_
  rintro r' _ ⟨⟨finalGoing, finalFetching⟩, rfl⟩
  rw [both] at finalGoing
  exact ⟨⟨finalGoing, finalFetching⟩, rfl⟩

/-- What a data read that has arrived becomes. -/
def arrived (st : DStep) : DStep := if st = .needRead then .needWrite else st

omit [Cipher] in
/-- Rewriting the block changes the stash and the answer. -/
theorem Going.sends_rewriteBlock (going : r.Going fp keys tier left data dummy done)
    (fetching : r.Fetching left') {q : Query} (plain : PlainQuery q) :
    Sends (r.rewriteBlock q) (fun r' sent =>
      (r'.Going fp keys tier left data dummy done ∧ r'.Fetching left') ∧ sent = []) := by
  refine Prog.emits_bind (r.s.dataOram.sends_extractFromStash r.data.blk) ?_
  rintro ⟨block, dataOram⟩ _ ⟨sameId, rfl⟩
  dsimp only
  rw [plain.noEpoch]
  refine Prog.emits_pure ⟨⟨?_, fetching⟩, rfl⟩
  exact ⟨going.searcher_eq, going.fixed.withData (sameId.trans going.fixed.dataId), going.stepping,
    going.dataSt, going.dummySt, going.scanSt, going.searcherDone_eq, going.noDecision,
    going.noPending⟩

omit [Cipher] in
theorem Going.setData (going : r.Going fp keys tier left data dummy done) (op : DataOp) :
    Going { r with data := op } fp keys tier left op.st dummy done :=
  ⟨going.searcher_eq, going.fixed, going.stepping, rfl, going.dummySt, going.scanSt,
    going.searcherDone_eq, going.noDecision, going.noPending⟩

omit [Cipher] in
theorem Going.setDummy (going : r.Going fp keys tier left data dummy done) (op : DataOp) :
    Going { r with ddummy := op } fp keys tier left data op.st done :=
  ⟨going.searcher_eq, going.fixed, going.stepping, going.dataSt, rfl, going.scanSt,
    going.searcherDone_eq, going.noDecision, going.noPending⟩

theorem Going.sends_finishDataRead (going : r.Going fp keys tier left data dummy done)
    (fetching : r.Fetching left') {q : Query} (plain : PlainQuery q) {p : RoundPlan}
    (dataRead : p.dataRead = (data == .needRead)) :
    Sends (r.finishDataRead q p) (fun r' sent =>
      (r'.Going fp keys tier left (arrived data) dummy done ∧ r'.Fetching left') ∧ sent = []) := by
  unfold finishDataRead arrived
  rw [dataRead]
  by_cases reading : data = .needRead
  · rw [if_pos (by simp [reading]), if_pos reading]
    refine Prog.emits_bind (Q := fun r' sent => (r'.Going fp keys tier left data dummy done ∧
      r'.Fetching left') ∧ sent = []) ?_ ?_
    · unfold doWhen
      split
      · exact going.sends_rewriteBlock fetching plain
      · exact Prog.emits_pure ⟨⟨going, fetching⟩, rfl⟩
    · rintro read _ ⟨⟨readGoing, readFetching⟩, rfl⟩
      rw [doWhen_of_not readGoing.noPending]
      exact Prog.emits_pure ⟨⟨readGoing.setData { read.data with st := .needWrite }, readFetching⟩, rfl⟩
  · rw [if_neg (by simp [reading]), if_neg reading]
    exact Prog.emits_pure ⟨⟨going, fetching⟩, rfl⟩

omit [Cipher] in
theorem Going.finishDummyRead (going : r.Going fp keys tier left data dummy done)
    (fetching : r.Fetching left') {p : RoundPlan} (dummyRead : p.dummyRead = (dummy == .needRead)) :
    (r.finishDummyRead p).Going fp keys tier left data (arrived dummy) done ∧
      (r.finishDummyRead p).Fetching left' := by
  unfold Rounds.finishDummyRead arrived
  rw [dummyRead]
  by_cases reading : dummy = .needRead
  · rw [if_pos (by simp [reading]), if_pos reading]
    exact ⟨going.setDummy { r.ddummy with st := .needWrite }, fetching⟩
  · rw [if_neg (by simp [reading]), if_neg reading]
    exact ⟨going, fetching⟩

/-- What the data read becomes when the searcher has finished. -/
def scheduled (searcherLeft : Nat) (data : DStep) (done : Bool) : DStep :=
  if done = false ∧ searcherLeft = 0 then .needRead else data

theorem Going.sends_finishSearcher (going : r.Going fp keys tier left data dummy done)
    (fetching : r.Fetching left') :
    Sends r.finishSearcher (fun r' sent =>
      (r'.Going fp keys tier left (scheduled (left tier) data done) dummy
        (done || decide (left tier = 0)) ∧ r'.Fetching left') ∧ sent = []) := by
  have due : (!r.searcherDone && OmapInterface.stepDone (r.s.omap r.searcher)) =
      (!done && decide (left tier = 0)) := by
    rw [going.searcherDone_eq, going.searcher_eq, going.stepDone_eq]
  unfold finishSearcher scheduled
  rw [due]
  by_cases finishing : done = false ∧ left tier = 0
  · rcases finishing with ⟨rfl, none⟩
    rw [if_pos (by simp [none]), if_neg (by simp [going.noDecision]), if_pos ⟨rfl, none⟩]
    refine Prog.emits_bind (Q := fun outcome sent => (outcome.1.st = .needRead ∧
      ∃ dataOram : PathORAM, dataOram.storage.storeId = fp.dataStore ∧
        outcome.2 = { r.s with dataOram }) ∧ sent = []) ?_ ?_
    · refine Prog.emits_bind (PathORAM.sends_randomLeaf _) ?_
      rintro leaf _ rfl
      split
      · exact Prog.emits_pure ⟨⟨rfl, r.s.dataOram.setLeaf _ leaf, going.fixed.dataId, rfl⟩, rfl⟩
      · exact Prog.emits_pure ⟨⟨rfl, r.s.dataOram, going.fixed.dataId, rfl⟩, rfl⟩
    · rintro ⟨op, _⟩ _ ⟨⟨opSt, dataOram, sameId, rfl⟩, rfl⟩
      refine Prog.emits_pure ⟨⟨?_, fetching⟩, rfl⟩
      exact ⟨going.searcher_eq, going.fixed.withData sameId, going.stepping, opSt, going.dummySt,
        going.scanSt, by simp [none], going.noDecision, going.noPending⟩
  · have skip : (!done && decide (left tier = 0)) = false := by
      cases done <;> simp_all
    rw [skip, if_neg finishing, if_neg (by simp)]
    have sameDone : (done || decide (left tier = 0)) = done := by
      cases done <;> simp_all
    rw [sameDone]
    exact Prog.emits_pure ⟨⟨going, fetching⟩, rfl⟩

/-! ## Writing back -/

/-- What a finished data read becomes once it is written. -/
def written (st : DStep) : DStep := if st = .needWrite then .done else st

/-- What the dummy read becomes when the main data operation is written. -/
def dummyAfter (data dummy : DStep) : DStep :=
  if data = .needWrite ∧ dummy = .idle then .needRead else written dummy

theorem Going.sends_prepareWrites {left' : Tier → Nat}
    (going : r.Going fp keys tier left' data dummy done) (tier' : Tier)
    (inRound : 0 < left tier' → AVLOmap.InRound (r.s.omap tier')) :
    Sends (r.prepareWrites tier' (decide (0 < left tier'))) (fun outcome sent =>
      (outcome.1.map StepWriteReq.storeId = activeStore fp left tier' ∧
        outcome.2.Going fp keys tier left' data dummy done ∧
        outcome.2.s.omap tier'.other = r.s.omap tier'.other) ∧ sent = []) := by
  unfold prepareWrites activeStore
  by_cases more : 0 < left tier'
  · rw [if_pos (decide_eq_true more), if_pos more]
    refine Prog.emits_bind ((going.stepping tier').sends_stepPrepareWrites
      (inRound more)) ?_
    rintro ⟨writes, omap⟩ _ ⟨⟨writeIds, stepping⟩, rfl⟩
    refine Prog.emits_pure ⟨⟨writeIds, going.setSame stepping, ?_⟩, rfl⟩
    cases tier' <;> rfl
  · rw [if_neg (by simpa using more), if_neg more]
    exact Prog.emits_pure ⟨⟨rfl, going, rfl⟩, rfl⟩

/-- Evicting the path of a data operation that is due. -/
theorem Going.sends_evictData (going : r.Going fp keys tier left data dummy done) (op : DataOp) :
    Sends (r.evictData op) (fun outcome sent =>
      (outcome.1.length = (if op.st = .needWrite then 1 else 0) ∧
        outcome.2.Going fp keys tier left data dummy done) ∧ sent = []) := by
  unfold evictData
  split
  · refine Prog.emits_bind (r.s.dataOram.sends_prepareEviction op.leaf) ?_
    rintro ⟨path, dataOram⟩ _ ⟨sameId, rfl⟩
    exact Prog.emits_pure ⟨⟨rfl, going.withData (sameId.trans going.fixed.dataId)⟩, rfl⟩
  · exact Prog.emits_pure ⟨⟨rfl, going⟩, rfl⟩

omit [Cipher] in
theorem Going.sends_startDummy (going : r.Going fp keys tier left data dummy done) {q : Query}
    (plain : PlainQuery q) :
    Sends (r.startDummy q) (fun r' sent =>
      r'.Going fp keys tier left (written data)
        (if data = .needWrite ∧ dummy = .idle then .needRead else dummy) done ∧ sent = []) := by
  unfold startDummy written
  rw [going.dataSt]
  by_cases due : data = .needWrite
  · rw [if_pos due, if_pos due]
    dsimp only
    rw [plain.full, going.dummySt]
    by_cases idle : dummy = .idle
    · rw [if_pos (by simp [idle]), if_pos ⟨due, idle⟩]
      refine Prog.emits_bind (PathORAM.sends_randomLeaf _) ?_
      rintro leaf _ rfl
      exact Prog.emits_pure ⟨(going.setData { r.data with st := .done }).setDummy
        { r.ddummy with st := .needRead, leaf }, rfl⟩
    · rw [if_neg (by simp [idle]), if_neg (fun both => idle both.2)]
      exact Prog.emits_pure ⟨going.setData { r.data with st := .done }, rfl⟩
  · rw [if_neg due, if_neg due, if_neg (fun both => due both.1)]
    exact Prog.emits_pure ⟨going, rfl⟩

/-- The server's writes for one tier. -/
theorem Going.writeStores (going : r.Going fp keys tier left data dummy done) (tier' : Tier)
    (writes : List StepWriteReq) :
    (r.modifyOmap tier' (fun omap => writes.foldl OmapInterface.writeStore omap)).Going fp keys
      tier left data dummy done := by
  refine going.setSame ?_
  have folded : ∀ omap : AVLOmap, omap.Stepping (fp.tierStore tier') (fp.height tier')
      (left tier') → AVLOmap.Stepping (writes.foldl OmapInterface.writeStore omap)
        (fp.tierStore tier') (fp.height tier') (left tier') := by
    induction writes with
    | nil => exact fun omap stepping => stepping
    | cons write rest ih =>
        intro omap stepping
        exact ih _ (stepping.writeStore write)
  exact folded _ (going.stepping tier')

omit [Cipher] in
theorem storeId_foldl_writePath (paths : List PathData) (oram : PathORAM) :
    (paths.foldl PathORAM.writePath oram).storage.storeId = oram.storage.storeId := by
  induction paths generalizing oram with
  | nil => rfl
  | cons path rest ih => exact (ih _).trans (PathORAM.storeId_writePath _ _)

omit [Cipher] in
theorem Going.closeDummy (going : r.Going fp keys tier left data dummy done) :
    r.closeDummy.Going fp keys tier left data (written dummy) done := by
  unfold Rounds.closeDummy written
  rw [going.dummySt]
  by_cases due : dummy = .needWrite
  · rw [if_pos due, if_pos due]
    exact going.setDummy { r.ddummy with st := .done }
  · rw [if_neg due, if_neg due]
    exact going

omit [Cipher] in
/-- No scan takes part. -/
theorem Going.closeScan (going : r.Going fp keys tier left data dummy done) : r.closeScan = r := by
  rw [Rounds.closeScan, going.scanSt, if_neg (by simp)]

/-- The write-back of a round. -/
theorem Going.sends_writeBack {left' : Tier → Nat}
    (going : r.Going fp keys tier left' data dummy done) (fetching : r.Fetching left) {q : Query}
    (plain : PlainQuery q) {p : RoundPlan} (searcherActive : p.searcherActive = decide (0 < left tier))
    (dummyActive : p.dummyActive = decide (0 < left tier.other)) :
    Sends (r.writeBack q p) (fun r' sent =>
      r'.Going fp keys tier left' (written data) (dummyAfter data dummy) done ∧
        sent = [.batchWrite (activeStore fp left tier ++ activeStore fp left tier.other ++
          dataStores fp data dummy .needWrite)]) := by
  unfold writeBack
  rw [searcherActive, dummyActive, going.searcher_eq]
  refine Prog.emits_bind (going.sends_prepareWrites tier (fetching tier)) ?_
  rintro ⟨searcherWrites, prepared⟩ _ ⟨⟨searcherIds, preparedGoing, sameOmap⟩, rfl⟩
  dsimp only at searcherIds preparedGoing sameOmap ⊢
  rw [Rounds.dummy, preparedGoing.searcher_eq]
  refine Prog.emits_bind (preparedGoing.sends_prepareWrites tier.other (fun more => by
    rw [sameOmap]
    exact fetching tier.other more)) ?_
  rintro ⟨dummyWrites, both⟩ _ ⟨⟨dummyIds, bothGoing, _⟩, rfl⟩
  dsimp only at dummyIds bothGoing ⊢
  refine Prog.emits_bind (bothGoing.sends_evictData both.data) ?_
  rintro ⟨dataPaths, dataEvicted⟩ _ ⟨⟨dataCount, dataGoing⟩, rfl⟩
  dsimp only at dataCount dataGoing ⊢
  refine Prog.emits_bind (dataGoing.sends_startDummy plain) ?_
  rintro started _ ⟨startedGoing, rfl⟩
  refine Prog.emits_bind (startedGoing.sends_evictData started.ddummy) ?_
  rintro ⟨dummyPaths, dummyEvicted⟩ _ ⟨⟨dummyCount, dummyGoing⟩, rfl⟩
  dsimp only at dummyCount dummyGoing ⊢
  have closedGoing := dummyGoing.closeDummy
  refine Prog.emits_bind (closedGoing.sends_evictData dummyEvicted.closeDummy.scanData) ?_
  rintro ⟨scanPaths, final⟩ _ ⟨⟨scanCount, finalGoing⟩, rfl⟩
  dsimp only at scanCount finalGoing ⊢
  rw [closedGoing.scanSt, if_neg (by simp), List.length_eq_zero_iff] at scanCount
  rw [finalGoing.closeScan, scanCount, List.append_nil]
  refine Prog.emits_bind (sends_send _) ?_
  rintro _ _ rfl
  have writtenGoing := (finalGoing.writeStores tier searcherWrites).writeStores tier.other dummyWrites
  rw [finalGoing.searcher_eq, Rounds.dummy, (finalGoing.writeStores tier searcherWrites).searcher_eq]
  refine Prog.emits_pure ⟨?_, ?_⟩
  · have dummyEq : written (if data = .needWrite ∧ dummy = .idle then .needRead else dummy) =
        dummyAfter data dummy := by
      cases data <;> cases dummy <;> rfl
    rw [dummyEq] at writtenGoing
    refine writtenGoing.withData ?_
    rw [storeId_foldl_writePath]
    exact writtenGoing.fixed.dataId
  · have stores : (dataPaths ++ dummyPaths).map (fun _ => final.s.dataOram.storage.storeId) =
        dataStores fp data dummy .needWrite := by
      rw [bothGoing.dataSt] at dataCount
      rw [startedGoing.dummySt] at dummyCount
      rw [List.map_append, List.map_const', List.map_const', dataCount, dummyCount,
        finalGoing.fixed.dataId]
      cases data <;> cases dummy <;> rfl
    rw [List.map_append, searcherIds, dummyIds, stores]
    rfl

/-! ## A round, and all rounds -/

/-- One round. -/
theorem Going.sends_round (going : r.Going fp keys tier left data dummy done) {q : Query}
    (plain : PlainQuery q) :
    Sends (r.round q) (fun r' sent =>
      r'.Going fp keys tier (oneLess left)
        (written (scheduled (left tier - 1) (arrived data) done))
        (dummyAfter (scheduled (left tier - 1) (arrived data) done) (arrived dummy))
        (done || decide (left tier - 1 = 0)) ∧
      sent = [
        .batchRead (activeStore fp left tier ++ activeStore fp left tier.other ++
          dataStores fp data dummy .needRead),
        .batchWrite (activeStore fp left tier ++ activeStore fp left tier.other ++
          dataStores fp (scheduled (left tier - 1) (arrived data) done) (arrived dummy)
            .needWrite)]) := by
  have planEq := going.plan_eq
  unfold round
  dsimp only
  refine Prog.emits_bind going.sends_fetch ?_
  rintro fetched _ ⟨⟨fetchedGoing, fetchedFetching⟩, rfl⟩
  generalize r.plan = p at planEq ⊢
  refine Prog.emits_bind (fetchedGoing.sends_process fetchedFetching (by rw [planEq])
    (by rw [planEq])) ?_
  rintro processed _ ⟨⟨processedGoing, processedFetching⟩, rfl⟩
  refine Prog.emits_bind (processedGoing.sends_finishDataRead processedFetching plain
    (by rw [planEq])) ?_
  rintro read _ ⟨⟨readGoing, readFetching⟩, rfl⟩
  rcases readGoing.finishDummyRead readFetching (p := p) (by rw [planEq])
    with ⟨dummyGoing, dummyFetching⟩
  generalize read.finishDummyRead p = dummyRead at dummyGoing dummyFetching ⊢
  have noScanRead : dummyRead.finishScanRead q p = pure dummyRead := by
    rw [finishScanRead, planEq]
    rfl
  rw [noScanRead, pure_bind]
  have noDecision : dummyRead.triggerDecision q = pure dummyRead := by
    rw [triggerDecision, plain.noEpoch]
    simp
  rw [noDecision, pure_bind]
  have noScanDecision : dummyRead.triggerScanDecision q = pure dummyRead := by
    rw [triggerScanDecision, Query.scanOnPiggyback, plain.noScan]
    simp
  rw [noScanDecision, pure_bind]
  refine Prog.emits_bind (dummyGoing.sends_finishSearcher dummyFetching) ?_
  rintro finished _ ⟨⟨finishedGoing, finishedFetching⟩, rfl⟩
  refine (finishedGoing.sends_writeBack finishedFetching plain (by rw [planEq])
    (by rw [planEq])).mono ?_
  rintro r' _ ⟨finalGoing, rfl⟩
  exact ⟨finalGoing, rfl⟩

/-- The data read before round `i`, when the searcher takes `rounds` rounds. -/
def dataAt (rounds i : Nat) : DStep :=
  if i < rounds then .idle else if i = rounds then .needRead else .done

/-- The dummy read before round `i`, when the searcher takes `rounds` rounds. -/
def dummyAt (rounds i : Nat) : DStep :=
  if i ≤ rounds then .idle else if i = rounds + 1 then .needRead else .done

/-- An interleaved access before its round `i`. -/
def AtRound (r : Rounds AvlTiers) (fp : Footprint) (keys : Finset Int) (tier : Tier) (i : Nat) :
    Prop :=
  r.Going fp keys tier (fun tier' => fp.rounds tier' - i) (dataAt (fp.rounds tier) i)
    (dummyAt (fp.rounds tier) i) (decide (fp.rounds tier ≤ i))

omit [Cipher] in
/-- How the data reads go on after round `i`. -/
theorem reads_after (rounds i : Nat) :
    written (scheduled (rounds - i - 1) (arrived (dataAt rounds i)) (decide (rounds ≤ i))) =
        dataAt rounds (i + 1) ∧
      dummyAfter (scheduled (rounds - i - 1) (arrived (dataAt rounds i)) (decide (rounds ≤ i)))
        (arrived (dummyAt rounds i)) = dummyAt rounds (i + 1) := by
  rcases Nat.lt_trichotomy i rounds with before | rfl | after
  · have notYet : ¬rounds ≤ i := by omega
    have dummyIdle : dummyAt rounds i = .idle ∧ dummyAt rounds (i + 1) = .idle := by
      constructor
      · exact if_pos before.le
      · exact if_pos before
    by_cases last : i + 1 = rounds
    · subst last
      simp [dataAt, dummyIdle, arrived, scheduled, written, dummyAfter]
    · have more : ¬rounds - i - 1 = 0 := by omega
      have still : i + 1 < rounds := by omega
      simp [dataAt, dummyIdle, arrived, scheduled, written, dummyAfter, before, notYet, more, still]
  · simp [dataAt, dummyAt, arrived, scheduled, written, dummyAfter]
  · have dataDone : dataAt rounds i = .done ∧ dataAt rounds (i + 1) = .done := by
      have past : ¬i < rounds ∧ ¬i = rounds ∧ ¬i + 1 < rounds ∧ ¬i + 1 = rounds := by omega
      simp [dataAt, past]
    have nextDone : dummyAt rounds (i + 1) = .done := by
      have past : ¬i + 1 ≤ rounds ∧ ¬i = rounds := by omega
      simp [dummyAt, past]
    have dummyRead : dummyAt rounds i = .needRead ∨ dummyAt rounds i = .done := by
      have past : ¬i ≤ rounds := by omega
      by_cases next : i = rounds + 1
      · exact Or.inl (by simp [dummyAt, next])
      · exact Or.inr (by simp [dummyAt, past, next])
    have schedules : scheduled (rounds - i - 1) (arrived (dataAt rounds i))
        (decide (rounds ≤ i)) = .done := by
      simp [scheduled, after.le, dataDone, arrived]
    rw [schedules, dataDone.2, nextDone]
    rcases dummyRead with isRead | isDone
    · rw [isRead]
      exact ⟨rfl, rfl⟩
    · rw [isDone]
      exact ⟨rfl, rfl⟩

omit [Cipher] in
/-- The data store takes part in the two rounds after the searcher is done. -/
theorem dataStores_at (fp : Footprint) (rounds i : Nat) :
    dataStores fp (dataAt rounds i) (dummyAt rounds i) .needRead =
        (if i = rounds ∨ i = rounds + 1 then [fp.dataStore] else []) ∧
      dataStores fp (scheduled (rounds - i - 1) (arrived (dataAt rounds i)) (decide (rounds ≤ i)))
          (arrived (dummyAt rounds i)) .needWrite =
        (if i = rounds ∨ i = rounds + 1 then [fp.dataStore] else []) := by
  rcases Nat.lt_trichotomy i rounds with before | rfl | after
  · have notDue : ¬(i = rounds ∨ i = rounds + 1) := by omega
    have notYet : ¬rounds ≤ i := by omega
    rw [if_neg notDue]
    have dummyIdle : dummyAt rounds i = .idle := if_pos before.le
    by_cases last : rounds - i - 1 = 0 <;>
      simp [dataStores, dataAt, dummyIdle, before, arrived, scheduled, notYet, last]
  · simp [dataStores, dataAt, dummyAt, arrived, scheduled]
  · have notFirst : ¬i < rounds ∧ ¬i = rounds ∧ ¬i ≤ rounds := by omega
    by_cases next : i = rounds + 1
    · subst next
      simp [dataStores, dataAt, dummyAt, arrived, scheduled, notFirst]
    · simp [dataStores, dataAt, dummyAt, arrived, scheduled, notFirst, next, after.le]

omit [Cipher] in
/-- The machines that are not done before round `i`. -/
theorem activeStore_at (fp : Footprint) (tier : Tier) (i : Nat) :
    activeStore fp (fun tier' => fp.rounds tier' - i) tier =
      if i < fp.rounds tier then [fp.tierStore tier] else [] := by
  simp only [activeStore, Nat.sub_pos_iff_lt]

/-- Round `i` sends its shape. -/
theorem AtRound.sends_round {i : Nat} (atRound : r.AtRound fp keys tier i) {q : Query}
    (plain : PlainQuery q) :
    Sends (r.round q) (fun r' sent =>
      r'.AtRound fp keys tier (i + 1) ∧ sent = fp.roundShape tier i) := by
  refine (Going.sends_round atRound plain).mono ?_
  rintro r' _ ⟨going, rfl⟩
  rcases reads_after (fp.rounds tier) i with ⟨dataNext, dummyNext⟩
  rcases dataStores_at fp (fp.rounds tier) i with ⟨readStores, writeStores⟩
  refine ⟨?_, ?_⟩
  · have doneNext : (decide (fp.rounds tier ≤ i) || decide (fp.rounds tier - i - 1 = 0)) =
        decide (fp.rounds tier ≤ i + 1) := by
      rw [← Bool.decide_or]
      exact decide_eq_decide.mpr (by omega)
    rw [dataNext, dummyNext, doneNext] at going
    exact going
  · rw [activeStore_at, activeStore_at, readStores, writeStores]
    rfl

/-- The loop ends with the last round. -/
theorem AtRound.finished_iff {i : Nat} (atRound : r.AtRound fp keys tier i) :
    r.finished = true ↔ fp.lastRound tier ≤ i := by
  have otherDone := Going.stepDone_eq atRound tier.other
  have thisDone := Going.stepDone_eq atRound tier
  have dataDone : (dataAt (fp.rounds tier) i == .done) = decide (fp.rounds tier < i) := by
    unfold dataAt
    rcases Nat.lt_trichotomy i (fp.rounds tier) with before | here | after
    · have notAfter : ¬fp.rounds tier < i := by omega
      simp [before, notAfter]
    · simp [here]
    · have past : ¬i < fp.rounds tier ∧ ¬i = fp.rounds tier := by omega
      simp [past, after]
  have dummyDone : (dummyAt (fp.rounds tier) i == .done) = decide (fp.rounds tier + 1 < i) := by
    unfold dummyAt
    rcases Nat.lt_trichotomy i (fp.rounds tier + 1) with before | here | after
    · have early : i ≤ fp.rounds tier ∧ ¬fp.rounds tier + 1 < i := by omega
      simp [early]
    · have early : ¬fp.rounds tier + 1 ≤ fp.rounds tier := by omega
      simp [here, early]
    · have past : ¬i ≤ fp.rounds tier ∧ ¬i = fp.rounds tier + 1 := by omega
      simp [past, after]
  unfold finished
  rw [Rounds.dummy, atRound.searcher_eq, thisDone, otherDone, atRound.dataSt, atRound.dummySt,
    atRound.scanSt, dataDone, dummyDone]
  simp only [Bool.and_eq_true, decide_eq_true_eq, beq_self_eq_true, and_true, Footprint.lastRound]
  omega

/--
The loop sends the shapes of the rounds left, and only runs out of fuel when it
has less fuel than rounds left.
-/
theorem AtRound.emits_loop {i : Nat} (atRound : r.AtRound fp keys tier i) {q : Query}
    (plain : PlainQuery q) (fuel : Nat) :
    Prog.Emits World.log (fun error => error = Err.outOfFuel → i + fuel < fp.lastRound tier)
      (r.loop q fuel) (fun r' sent => r'.AtRound fp keys tier (max i (fp.lastRound tier)) ∧
        sent = (List.range' i (fp.lastRound tier - i)).flatMap (fp.roundShape tier)) := by
  induction fuel generalizing r i with
  | zero =>
      unfold loop
      by_cases passed : fp.lastRound tier ≤ i
      · rw [if_pos (atRound.finished_iff.mpr passed)]
        refine Prog.emits_pure ⟨by rwa [max_eq_left passed], ?_⟩
        rw [Nat.sub_eq_zero_of_le passed]
        rfl
      · rw [if_neg (fun isDone => passed (atRound.finished_iff.mp isDone))]
        exact Prog.emits_fail (fun _ => by omega)
  | succ fuel ih =>
      unfold loop
      by_cases passed : fp.lastRound tier ≤ i
      · rw [if_pos (atRound.finished_iff.mpr passed)]
        refine Prog.emits_pure ⟨by rwa [max_eq_left passed], ?_⟩
        rw [Nat.sub_eq_zero_of_le passed]
        rfl
      · rw [if_neg (fun isDone => passed (atRound.finished_iff.mp isDone))]
        refine Prog.emits_bind ((atRound.sends_round plain).allow
          (fun error isThrown isFuel => absurd isFuel isThrown)) ?_
        rintro next _ ⟨nextRound, rfl⟩
        have more : fp.lastRound tier - i = fp.lastRound tier - (i + 1) + 1 := by omega
        refine ((ih nextRound).allow ?_).mono ?_
        · intro error isThrown isFuel
          have bound := isThrown isFuel
          omega
        · rintro final _ ⟨finalRound, rfl⟩
          have sameMax : max (i + 1) (fp.lastRound tier) = max i (fp.lastRound tier) := by omega
          rw [sameMax] at finalRound
          refine ⟨finalRound, ?_⟩
          rw [more, List.range'_succ, List.flatMap_cons]

end Rounds

end TieredOmap
