import TieredOMap.Tiered.Custody

/-!
# The data ORAM through the rounds

What a round does to the data ORAM does not depend on the two maps: it reads the
paths that are due, rewrites the blocks that arrive, schedules further reads and
writes the paths back. As long as no round reads two paths, every block is
conserved and only the record of the main query changes.
-/

namespace TieredOmap

/-- The stored record after an access: the new value, with updated metadata in epoch mode. -/
def storedRecord (maint : Option MaintenanceManager) (q : Query) (raw : Bytes) : Bytes :=
  match q.epochMode, maint with
  | true, some mgr =>
      encodeWithEpoch (q.newValue.getD (decodeEpoch raw).1) (mgr.updateMeta (decodeEpoch raw).2)
  | _, _ => q.newValue.getD raw

/-- The data blocks after an access whose search returned a reference to `blk`. -/
def contentsAfter (maint : Option MaintenanceManager) (q : Query) (contents : Int → Option Bytes)
    (blk : Int) : Int → Option Bytes :=
  if blk = invalidBlock then contents
  else Function.update contents blk ((contents blk).map (storedRecord maint q))

/-- The part of the round loop's variables that concerns the data ORAM. -/
structure DataView where
  oram : PathORAM
  maint : Option MaintenanceManager
  searcher : Tier
  data : DataOp
  ddummy : DataOp
  scanData : DataOp
  searcherDone : Bool
  decisionTriggered : Bool
  scanDecisionTriggered : Bool
  searcherRef : Bytes

namespace DataView

/-- The three data operations. -/
def ops (v : DataView) : List DataOp := [v.data, v.ddummy, v.scanData]

/-- The operations in a state. -/
def opsAt (v : DataView) (st : DStep) : List DataOp := v.ops.filter (fun op => op.st == st)

/-- The contents once the main query's block has been rewritten, and the original ones before. -/
def contentsNow (v : DataView) (maint : Option MaintenanceManager) (q : Query)
    (contents : Int → Option Bytes) : Int → Option Bytes :=
  if v.data.st = .idle ∨ v.data.st = .needRead then contents
  else contentsAfter maint q contents (refToBlk v.searcherRef)

theorem opsAt_eq (v : DataView) (st : DStep) :
    v.opsAt st = (if v.data.st = st then [v.data] else []) ++
      ((if v.ddummy.st = st then [v.ddummy] else []) ++
        if v.scanData.st = st then [v.scanData] else []) := by
  unfold opsAt ops
  by_cases data : v.data.st = st <;> by_cases dummy : v.ddummy.st = st <;>
    by_cases scan : v.scanData.st = st <;> simp [data, dummy, scan]

/-- When at most one operation is in a state and the main query's is, no other one is. -/
theorem opsAt_data {v : DataView} {st : DStep} (few : (v.opsAt st).length ≤ 1)
    (here : v.data.st = st) :
    v.opsAt st = [v.data] ∧ v.ddummy.st ≠ st ∧ v.scanData.st ≠ st := by
  rw [opsAt_eq, if_pos here] at few ⊢
  by_cases dummy : v.ddummy.st = st
  · simp [dummy] at few
  · by_cases scan : v.scanData.st = st
    · simp [scan] at few
    · simp [dummy, scan]

theorem opsAt_dummy {v : DataView} {st : DStep} (few : (v.opsAt st).length ≤ 1)
    (here : v.ddummy.st = st) :
    v.opsAt st = [v.ddummy] ∧ v.data.st ≠ st ∧ v.scanData.st ≠ st := by
  rw [opsAt_eq, if_pos here] at few ⊢
  by_cases data : v.data.st = st
  · simp [data] at few
  · by_cases scan : v.scanData.st = st
    · simp [scan] at few
    · simp [data, scan]

theorem opsAt_scan {v : DataView} {st : DStep} (few : (v.opsAt st).length ≤ 1)
    (here : v.scanData.st = st) :
    v.opsAt st = [v.scanData] ∧ v.data.st ≠ st ∧ v.ddummy.st ≠ st := by
  rw [opsAt_eq, if_pos here] at few ⊢
  by_cases data : v.data.st = st
  · simp [data] at few
  · by_cases dummy : v.ddummy.st = st
    · simp [dummy] at few
    · simp [data, dummy]

theorem opsAt_nil {v : DataView} {st : DStep} :
    v.opsAt st = [] ↔ v.data.st ≠ st ∧ v.ddummy.st ≠ st ∧ v.scanData.st ≠ st := by
  rw [opsAt_eq]
  by_cases data : v.data.st = st <;> by_cases dummy : v.ddummy.st = st <;>
    by_cases scan : v.scanData.st = st <;> simp [data, dummy, scan]

/-- The main query's block has been read. -/
def wroteData (v : DataView) (oram : PathORAM) (maint : Option MaintenanceManager) : DataView :=
  { v with oram, maint, data := { v.data with st := .needWrite } }

/-- The dummy read has arrived. -/
def wroteDummy (v : DataView) (oram : PathORAM) : DataView :=
  { v with oram, ddummy := { v.ddummy with st := .needWrite } }

/-- The scanned block has been read. -/
def wroteScan (v : DataView) (oram : PathORAM) : DataView :=
  { v with oram, scanData := { v.scanData with st := .needWrite } }

/-- The main query's path has been written back. -/
def closeData (v : DataView) (oram : PathORAM) : DataView :=
  { v with oram, data := { v.data with st := .done } }

/-- The dummy path has been written back. -/
def closeDummy (v : DataView) (oram : PathORAM) : DataView :=
  { v with oram, ddummy := { v.ddummy with st := .done } }

/-- The scan's path has been written back. -/
def closeScan (v : DataView) (oram : PathORAM) : DataView :=
  { v with oram, scanData := { v.scanData with st := .done } }

/-- The data side once the paths that are due have been fetched. -/
def fetched [Cipher] (v : DataView) : DataView :=
  { v with
    oram := (v.opsAt .needRead).foldl
      (fun oram op => oram.applyFetchedPath (v.oram.storage.readPath op.leaf)) v.oram }

end DataView

/-- The nodes of the one path that is checked out, if any. -/
def outSet (level : Nat) (out : List DataOp) : Finset Nat :=
  match out with
  | [] => ∅
  | op :: _ => pathSet level [op.leaf]

namespace Rounds

variable {Ω : Tier → Type} {r : Rounds Ω}

/-- The data side of the loop's variables. -/
def view (r : Rounds Ω) : DataView where
  oram := r.s.dataOram
  maint := r.s.maint
  searcher := r.searcher
  data := r.data
  ddummy := r.ddummy
  scanData := r.scanData
  searcherDone := r.searcherDone
  decisionTriggered := r.decisionTriggered
  scanDecisionTriggered := r.scanDecisionTriggered
  searcherRef := r.searcherRef

/-! ## Steps of the maps -/

@[simp]
theorem view_setOmap (r : Rounds Ω) (tier : Tier) (omap : Ω tier) :
    view { r with s := r.s.setOmap tier omap } = r.view := by
  cases tier <;> rfl

@[simp]
theorem view_modifyOmap (r : Rounds Ω) (tier : Tier) (f : Ω tier → Ω tier) :
    (r.modifyOmap tier f).view = r.view := by
  cases tier <;> rfl

theorem yields_onOmap (r : Rounds Ω) (tier : Tier) (operation : Ω tier → Rand (Ω tier)) :
    Yields (r.onOmap tier operation) (fun r' => r'.view = r.view) := by
  refine Prog.ends_bind (Q := fun s' => ∃ omap, s' = r.s.setOmap tier omap) ?_ ?_
  · refine Prog.ends_bind (yields_any _) ?_
    intro omap _
    exact Prog.ends_pure ⟨omap, rfl⟩
  · rintro _ ⟨omap, rfl⟩
    exact Prog.ends_pure (view_setOmap r tier omap)

variable [∀ tier, OmapInterface (Ω tier)]

theorem yields_nextRound (r : Rounds Ω) (tier : Tier) (active : Bool) :
    Yields (r.nextRound tier active) (fun outcome => outcome.2.view = r.view) := by
  unfold nextRound
  split
  · refine Prog.ends_bind (yields_any _) ?_
    rintro ⟨reads, omap⟩ _
    exact Prog.ends_pure (view_setOmap r tier omap)
  · exact Prog.ends_pure rfl

@[simp]
theorem view_applyReads (r : Rounds Ω) (tier : Tier) (reads : List StepReadReq) :
    (r.applyReads tier reads).view = r.view := by
  unfold applyReads
  split
  · rfl
  · exact view_modifyOmap r tier _

theorem yields_process (r : Rounds Ω) (p : RoundPlan) :
    Yields (r.process p) (fun r' => r'.view = r.view) := by
  refine Prog.ends_bind (Q := fun r' => r'.view = r.view) ?_ ?_
  · exact yields_doWhen (fun _ => yields_onOmap r _ _) (fun _ => rfl)
  · intro r' sameView
    exact yields_doWhen (fun _ => (yields_onOmap r' _ _).mono (fun _ same => same.trans sameView))
      (fun _ => sameView)

theorem yields_prepareWrites (r : Rounds Ω) (tier : Tier) (active : Bool) :
    Yields (r.prepareWrites tier active) (fun outcome => outcome.2.view = r.view) := by
  unfold prepareWrites
  split
  · refine Prog.ends_bind (yields_any _) ?_
    rintro ⟨writes, omap⟩ _
    exact Prog.ends_pure (view_setOmap r tier omap)
  · exact Prog.ends_pure rfl

variable [Cipher]

/--
The data side in the middle of a round: the operations `out` have been read but
not written back. If at most one operation waits for its read, the blocks are in
custody.
-/
structure DataInv (maint : Option MaintenanceManager) (q : Query) (contents : Int → Option Bytes)
    (out : List DataOp) (v : DataView) : Prop where
  sameMaint : v.data.st = .idle ∨ v.data.st = .needRead → v.maint = maint
  unstarted : v.decisionTriggered = false → v.searcherDone = false → v.data.st = .idle
  scanUnstarted : v.scanDecisionTriggered = false → v.scanData.st = .idle ∨ v.scanData.st = .done
  dummyWaits : v.ddummy.st = .needRead ∨ v.ddummy.st = .needWrite → v.data.st = .done
  sameBlk : v.data.st ≠ .idle → v.data.blk = refToBlk v.searcherRef
  dummyBlk : v.ddummy.blk = invalidBlock
  writing : v.opsAt .needWrite = out
  oneOut : out.length ≤ 1
  custody : (v.opsAt .needRead).length ≤ 1 → ∃ level blocks,
    v.oram.Custody level (outSet level out) blocks ((v.opsAt .needRead).headD {}) ∧
      PathORAM.Contains blocks (v.contentsNow maint q contents) ∧
      (∀ op ∈ v.opsAt .needRead, op.blk = invalidBlock → IsLeaf level op.leaf) ∧
      ∀ op ∈ out, IsLeaf level op.leaf


/-! ## Reading -/

omit [∀ tier, OmapInterface (Ω tier)] in
theorem view_applyData (r : Rounds Ω) (op : DataOp) (reading : Bool) (server : BinaryTreeStorage) :
    (r.applyData op reading server).view =
      if reading then
        { r.view with oram := r.view.oram.applyFetchedPath (server.readPath op.leaf) }
      else r.view := by
  unfold applyData
  split <;> rfl

/-- The batch read fetches the paths of the operations that are due. -/
theorem yields_fetch (r : Rounds Ω) :
    Yields (r.fetch r.plan) (fun r' => r'.view = r.view.fetched) := by
  unfold fetch
  refine Prog.ends_bind (yields_nextRound r _ _) ?_
  rintro ⟨searcherReads, searched⟩ sameView
  refine Prog.ends_bind (yields_nextRound searched _ _) ?_
  rintro ⟨dummyReads, asked⟩ sameView'
  dsimp only at sameView sameView' ⊢
  refine Prog.ends_bind (yields_any _) ?_
  intro _ _
  have readView : ((asked.applyReads asked.searcher searcherReads).applyReads asked.dummy
      dummyReads).view = r.view := by
    rw [view_applyReads, view_applyReads, sameView', sameView]
  generalize (asked.applyReads asked.searcher searcherReads).applyReads asked.dummy dummyReads =
    read at readView ⊢
  refine Prog.ends_pure ?_
  have dataEq : read.data = r.data := congrArg DataView.data readView
  have dummyEq : read.ddummy = r.ddummy := congrArg DataView.ddummy readView
  have scanEq : read.scanData = r.scanData := congrArg DataView.scanData readView
  have oramEq : read.s.dataOram = r.s.dataOram := congrArg DataView.oram readView
  rw [view_applyData, view_applyData, view_applyData, readView, dataEq, dummyEq, scanEq, oramEq]
  unfold DataView.fetched DataView.opsAt DataView.ops
  cases dataRead : (r.data.st == .needRead) <;> cases dummyRead : (r.ddummy.st == .needRead) <;>
    cases scanRead : (r.scanData.st == .needRead) <;>
    simp [plan, view, dataRead, dummyRead, scanRead]

/-! ## What has arrived -/

variable {maint : Option MaintenanceManager} {q : Query} {contents : Int → Option Bytes}
  {v : DataView} {p : RoundPlan}

/-- In the middle of a round: what was due has been read. -/
def Arrived (maint : Option MaintenanceManager) (q : Query) (contents : Int → Option Bytes)
    (v : DataView) : Prop :=
  v.opsAt .needRead = [] ∧ ∃ out, DataInv maint q contents out v

omit [Cipher] [∀ tier, OmapInterface (Ω tier)] in
/-- What rewriting the main query's block does to the data side. -/
theorem yields_rewriteBlock (r : Rounds Ω) (q : Query) {P : Block × PathORAM → Prop}
    (taken : Yields (r.s.dataOram.extractFromStash r.data.blk) P) :
    Yields (r.rewriteBlock q) (fun r' => ∃ block oram maint', P (block, oram) ∧ r'.view =
      { r.view with
        oram := oram.addToStash { key := r.data.blk, leaf := r.data.newLeaf
                                  value := storedRecord r.s.maint q block.value }
        maint := maint' }) := by
  refine Prog.ends_bind taken ?_
  rintro ⟨block, oram⟩ holds
  have storedEq : (if (q.epochMode && r.s.maint.isSome) = true then
      encodeWithEpoch (q.newValue.getD (if (q.epochMode && r.s.maint.isSome) = true then
        (decodeEpoch block.value).1 else block.value)) (r.s.mgr.updateMeta (decodeEpoch block.value).2)
      else q.newValue.getD (if (q.epochMode && r.s.maint.isSome) = true then
        (decodeEpoch block.value).1 else block.value)) = storedRecord r.s.maint q block.value := by
    unfold storedRecord TieredOMap.mgr
    cases q.epochMode <;> cases r.s.maint <;> rfl
  dsimp only
  rw [storedEq]
  refine Prog.ends_pure ⟨block, oram, ?_, holds, ?_⟩
  · exact (if q.epochMode && r.s.maint.isSome && decide (q.key ∈ r.s.cacheKeys) then
      r.s.maint.map (fun maint => maint.updateCacheFp q.key
        (r.s.mgr.updateMeta (decodeEpoch block.value).2).fp) else r.s.maint)
  · split <;> rfl

omit [Cipher] in
theorem yields_decidePromotion (r : Rounds Ω) :
    Yields r.decidePromotion (fun r' => r'.view = r.view) := by
  refine Prog.ends_bind (yields_onOmap r _ _) ?_
  intro r' sameView
  exact Prog.ends_pure sameView

omit [Cipher] in
/-- The contents once the record of a block has been rewritten. -/
theorem contains_rewritten {blocks : Multiset Block}
    (contains : PathORAM.Contains blocks contents) (nodup : (blocks.map Block.key).Nodup)
    {block : Block} (blockMem : block ∈ blocks) (valid : block.key ≠ invalidBlock) (leaf : Int) :
    PathORAM.Contains
      ({ key := block.key, leaf, value := storedRecord maint q block.value } ::ₘ blocks.erase block)
      (contentsAfter maint q contents block.key) := by
  rw [contentsAfter, if_neg valid, contains.of_mem blockMem]
  exact contains.replace nodup blockMem rfl

theorem DataInv.arrived_wroteData (inv : DataInv maint q contents [] v) (reading : v.data.st = .needRead)
    (noDummy : v.ddummy.st ≠ .needRead) (noScan : v.scanData.st ≠ .needRead) {oram : PathORAM}
    {maint' : Option MaintenanceManager} {level : Nat} {blocks : Multiset Block}
    (custody : oram.Custody level (pathSet level [v.data.leaf]) blocks {})
    (isLeaf : IsLeaf level v.data.leaf)
    (contains : PathORAM.Contains blocks (contentsAfter maint q contents (refToBlk v.searcherRef))) :
    Arrived maint q contents (v.wroteData oram maint') := by
  have started : v.data.st ≠ .idle := by simp [reading]
  have noReads : (v.wroteData oram maint').opsAt .needRead = [] :=
    DataView.opsAt_nil.mpr ⟨by simp [DataView.wroteData], noDummy, noScan⟩
  have noWrites := DataView.opsAt_nil.mp inv.writing
  refine ⟨noReads, [{ v.data with st := .needWrite }], by simp [DataView.wroteData], ?_,
    inv.scanUnstarted, ?_, fun _ => inv.sameBlk started, inv.dummyBlk, ?_, by simp, ?_⟩
  · exact fun noDecision notDone => absurd (inv.unstarted noDecision notDone) started
  · intro busy
    have isDone := inv.dummyWaits busy
    simp [reading] at isDone
  · simp [DataView.opsAt_eq, DataView.wroteData, noWrites]
  · intro _
    rw [noReads]
    exact ⟨level, blocks, custody, by simpa [DataView.contentsNow, DataView.wroteData] using contains,
      by simp, by simpa using isLeaf⟩

/-- The main query's block arrives. -/
theorem DataInv.yields_finishDataRead (inv : DataInv maint q contents [] v)
    (few : (v.opsAt .needRead).length ≤ 1) (reading : v.data.st = .needRead)
    (fetchedView : r.view = v.fetched) (due : p.dataRead = true) :
    Yields (r.finishDataRead q p) (fun r' => Arrived maint q contents r'.view) := by
  rcases DataView.opsAt_data few reading with ⟨readEq, noDummy, noScan⟩
  rcases inv.custody few with ⟨level, blocks, custody, contains, noBlkLeaf, _⟩
  rw [readEq] at custody noBlkLeaf
  have started : v.data.st ≠ .idle := by simp [reading]
  have blkEq := inv.sameBlk started
  have nowEq : v.contentsNow maint q contents = contents := if_pos (Or.inr reading)
  rw [nowEq] at contains
  have maintEq : v.maint = maint := inv.sameMaint (Or.inr reading)
  have viewEq : r.view = { v with oram := v.oram.applyFetchedPath (v.oram.storage.readPath v.data.leaf) } := by
    rw [fetchedView, DataView.fetched, readEq]
    rfl
  have dataEq : r.data = v.data := congrArg DataView.data viewEq
  have oramEq : r.s.dataOram = v.oram.applyFetchedPath (v.oram.storage.readPath v.data.leaf) :=
    congrArg DataView.oram viewEq
  have rMaint : r.s.maint = maint := (congrArg DataView.maint viewEq).trans maintEq
  unfold finishDataRead
  rw [if_pos due]
  refine Prog.ends_bind (Q := fun r' => ∃ oram maint' blocks', r'.view =
      { v with oram, maint := maint' } ∧
      oram.Custody level (pathSet level [v.data.leaf]) blocks' {} ∧ IsLeaf level v.data.leaf ∧
      PathORAM.Contains blocks' (contentsAfter maint q contents (refToBlk v.searcherRef))) ?_ ?_
  · refine yields_doWhen ?_ ?_
    · intro valid
      have valid' : v.data.blk ≠ invalidBlock := by simpa [dataEq] using valid
      refine (yields_rewriteBlock r q (P := fun outcome => IsLeaf level v.data.leaf ∧
        outcome.1 ∈ blocks ∧ outcome.1.key = v.data.blk ∧ ∀ value,
          (outcome.2.addToStash { key := v.data.blk, leaf := v.data.newLeaf, value }).Custody level
            (pathSet level [v.data.leaf])
            ({ key := v.data.blk, leaf := v.data.newLeaf, value } ::ₘ blocks.erase outcome.1) {})
        ?_).mono ?_
      · rw [oramEq, dataEq]
        exact custody.read valid'
      · rintro r' ⟨block, oram, maint', ⟨isLeaf, blockMem, keyEq, rewritten⟩, viewEq'⟩
        rw [dataEq, rMaint, viewEq] at viewEq'
        refine ⟨_, maint', _, viewEq', rewritten _, isLeaf, ?_⟩
        rw [← blkEq, ← keyEq]
        exact contains_rewritten contains custody.nodup blockMem (keyEq ▸ valid') _
    · intro invalid
      have noBlk : v.data.blk = invalidBlock := by simpa [dataEq] using invalid
      have isLeaf := noBlkLeaf v.data (List.mem_singleton_self _) noBlk
      refine ⟨_, v.maint, blocks, viewEq, ?_, isLeaf, ?_⟩
      · exact (custody.applyFetchedPath isLeaf).withoutBlock noBlk rfl (invalidLeaf_lt level)
      · rw [contentsAfter, if_pos (blkEq.symm.trans noBlk)]
        exact contains
  · rintro r' ⟨oram, maint', blocks', viewEq', custody', isLeaf, contains'⟩
    have writtenView : ({ r' with data := { r'.data with st := .needWrite } } : Rounds Ω).view =
        v.wroteData oram maint' := by
      have sameData : r'.data = v.data := congrArg DataView.data viewEq'
      calc ({ r' with data := { r'.data with st := .needWrite } } : Rounds Ω).view
          = { r'.view with data := { r'.data with st := .needWrite } } := rfl
        _ = v.wroteData oram maint' := by rw [viewEq', sameData, DataView.wroteData]
    have arrived : Arrived maint q contents (v.wroteData oram maint') :=
      inv.arrived_wroteData reading noDummy noScan custody' isLeaf contains'
    refine yields_doWhen ?_ ?_
    · intro _
      refine (yields_decidePromotion _).mono ?_
      intro r'' sameView
      rw [sameView, writtenView]
      exact arrived
    · intro _
      rw [writtenView]
      exact arrived

theorem DataInv.arrived_wroteDummy (inv : DataInv maint q contents [] v) (reading : v.ddummy.st = .needRead)
    (noScan : v.scanData.st ≠ .needRead) {oram : PathORAM} {level : Nat} {blocks : Multiset Block}
    (custody : oram.Custody level (pathSet level [v.ddummy.leaf]) blocks {})
    (isLeaf : IsLeaf level v.ddummy.leaf)
    (contains : PathORAM.Contains blocks (contentsAfter maint q contents (refToBlk v.searcherRef))) :
    Arrived maint q contents (v.wroteDummy oram) := by
  have isDone : v.data.st = .done := inv.dummyWaits (Or.inl reading)
  have noReads : (v.wroteDummy oram).opsAt .needRead = [] :=
    DataView.opsAt_nil.mpr ⟨by simp [DataView.wroteDummy, isDone], by simp [DataView.wroteDummy],
      noScan⟩
  have noWrites := DataView.opsAt_nil.mp inv.writing
  refine ⟨noReads, [{ v.ddummy with st := .needWrite }], inv.sameMaint, inv.unstarted,
    inv.scanUnstarted, fun _ => isDone, inv.sameBlk, inv.dummyBlk, ?_, by simp, ?_⟩
  · simp [DataView.opsAt_eq, DataView.wroteDummy, noWrites]
  · intro _
    rw [noReads]
    refine ⟨level, blocks, custody, ?_, by simp, by simpa using isLeaf⟩
    simpa [DataView.contentsNow, DataView.wroteDummy, isDone] using contains

omit [∀ tier, OmapInterface (Ω tier)] in
/-- The dummy path arrives. -/
theorem DataInv.arrived_dummyRead (inv : DataInv maint q contents [] v)
    (few : (v.opsAt .needRead).length ≤ 1) (reading : v.ddummy.st = .needRead)
    (fetchedView : r.view = v.fetched) (due : p.dummyRead = true) :
    Arrived maint q contents (r.finishDummyRead p).view := by
  rcases DataView.opsAt_dummy few reading with ⟨readEq, _, noScan⟩
  rcases inv.custody few with ⟨level, blocks, custody, contains, noBlkLeaf, _⟩
  rw [readEq] at custody noBlkLeaf
  have isDone : v.data.st = .done := inv.dummyWaits (Or.inl reading)
  have isLeaf := noBlkLeaf v.ddummy (List.mem_singleton_self _) inv.dummyBlk
  have nowEq : v.contentsNow maint q contents =
      contentsAfter maint q contents (refToBlk v.searcherRef) :=
    if_neg (by simp [isDone])
  rw [nowEq] at contains
  have viewEq : (r.finishDummyRead p).view =
      v.wroteDummy (v.oram.applyFetchedPath (v.oram.storage.readPath v.ddummy.leaf)) := by
    have sameDummy : r.ddummy = v.ddummy := congrArg DataView.ddummy fetchedView
    calc (r.finishDummyRead p).view
        = { r.view with ddummy := { r.ddummy with st := .needWrite } } := by
          rw [Rounds.finishDummyRead, if_pos due]
          rfl
      _ = _ := by
          rw [fetchedView, sameDummy, DataView.fetched, readEq]
          rfl
  rw [viewEq]
  exact inv.arrived_wroteDummy reading noScan
    ((custody.applyFetchedPath isLeaf).withoutBlock inv.dummyBlk rfl (invalidLeaf_lt level)) isLeaf
    contains

theorem DataInv.arrived_wroteScan (inv : DataInv maint q contents [] v)
    (reading : v.scanData.st = .needRead) (noData : v.data.st ≠ .needRead)
    (noDummy : v.ddummy.st ≠ .needRead) {oram : PathORAM} {level : Nat} {blocks : Multiset Block}
    (custody : oram.Custody level (pathSet level [v.scanData.leaf]) blocks {})
    (isLeaf : IsLeaf level v.scanData.leaf)
    (contains : PathORAM.Contains blocks (v.contentsNow maint q contents)) :
    Arrived maint q contents (v.wroteScan oram) := by
  have noReads : (v.wroteScan oram).opsAt .needRead = [] :=
    DataView.opsAt_nil.mpr ⟨noData, noDummy, by simp [DataView.wroteScan]⟩
  have noWrites := DataView.opsAt_nil.mp inv.writing
  refine ⟨noReads, [{ v.scanData with st := .needWrite }], inv.sameMaint, inv.unstarted, ?_,
    inv.dummyWaits, inv.sameBlk, inv.dummyBlk, ?_, by simp, ?_⟩
  · intro notTriggered
    have early := inv.scanUnstarted notTriggered
    simp [reading] at early
  · simp [DataView.opsAt_eq, DataView.wroteScan, noWrites]
  · intro _
    rw [noReads]
    exact ⟨level, blocks, custody, contains, by simp, by simpa using isLeaf⟩

omit [Cipher] in
/-- What deciding about the scanned key does to the data side. -/
theorem yields_decideDemotion (r : Rounds Ω) (q : Query) {P : Block × PathORAM → Prop}
    (taken : Yields (r.s.dataOram.extractFromStash r.scanData.blk) P) :
    Yields (r.decideDemotion q) (fun r' => ∃ block oram, P (block, oram) ∧ r'.view =
      { r.view with
        oram := oram.addToStash { key := r.scanData.blk, leaf := r.scanData.newLeaf
                                  value := block.value } }) := by
  refine Prog.ends_bind taken ?_
  rintro ⟨block, oram⟩ holds
  refine Prog.ends_bind (yields_onOmap _ _ _) ?_
  intro r' sameView
  refine Prog.ends_pure ⟨block, oram, holds, ?_⟩
  have sameOram : r'.s.dataOram = oram := congrArg DataView.oram sameView
  have sameScan : r'.scanData = r.scanData := congrArg DataView.scanData sameView
  calc _ = { r'.view with
        oram := r'.s.dataOram.addToStash { key := r'.scanData.blk, leaf := r'.scanData.newLeaf
                                           value := block.value } } := rfl
    _ = _ := by rw [sameView, sameOram, sameScan]; rfl

/-- The scanned block arrives. -/
theorem DataInv.yields_finishScanRead (inv : DataInv maint q contents [] v)
    (few : (v.opsAt .needRead).length ≤ 1) (reading : v.scanData.st = .needRead)
    (fetchedView : r.view = v.fetched) (due : p.scanRead = true) :
    Yields (r.finishScanRead q p) (fun r' => Arrived maint q contents r'.view) := by
  rcases DataView.opsAt_scan few reading with ⟨readEq, noData, noDummy⟩
  rcases inv.custody few with ⟨level, blocks, custody, contains, noBlkLeaf, _⟩
  rw [readEq] at custody noBlkLeaf
  have viewEq : r.view =
      { v with oram := v.oram.applyFetchedPath (v.oram.storage.readPath v.scanData.leaf) } := by
    rw [fetchedView, DataView.fetched, readEq]
    rfl
  have scanEq : r.scanData = v.scanData := congrArg DataView.scanData viewEq
  have oramEq : r.s.dataOram = v.oram.applyFetchedPath (v.oram.storage.readPath v.scanData.leaf) :=
    congrArg DataView.oram viewEq
  unfold finishScanRead
  rw [if_pos due]
  refine Prog.ends_bind (Q := fun r' => ∃ oram blocks', r'.view = { v with oram } ∧
      oram.Custody level (pathSet level [v.scanData.leaf]) blocks' {} ∧
      IsLeaf level v.scanData.leaf ∧
      PathORAM.Contains blocks' (v.contentsNow maint q contents)) ?_ ?_
  · refine yields_doWhen ?_ ?_
    · intro valid
      have valid' : v.scanData.blk ≠ invalidBlock := by simpa [scanEq] using valid
      refine (yields_decideDemotion r q (P := fun outcome => IsLeaf level v.scanData.leaf ∧
        outcome.1 ∈ blocks ∧ outcome.1.key = v.scanData.blk ∧ ∀ value,
          (outcome.2.addToStash
            { key := v.scanData.blk, leaf := v.scanData.newLeaf, value }).Custody level
            (pathSet level [v.scanData.leaf])
            ({ key := v.scanData.blk, leaf := v.scanData.newLeaf, value } ::ₘ
              blocks.erase outcome.1) {}) ?_).mono ?_
      · rw [oramEq, scanEq]
        exact custody.read valid'
      · rintro r' ⟨block, oram, ⟨isLeaf, blockMem, keyEq, rewritten⟩, viewEq'⟩
        rw [scanEq, viewEq] at viewEq'
        refine ⟨_, _, viewEq', rewritten _, isLeaf, ?_⟩
        let moved : Block :=
          { key := v.scanData.blk, leaf := v.scanData.newLeaf, value := block.value }
        have sameKey : moved.key = block.key := keyEq.symm
        have replaced := contains.replace custody.nodup blockMem sameKey
        rwa [← contains.of_mem blockMem, Function.update_eq_self] at replaced
    · intro invalid
      have noBlk : v.scanData.blk = invalidBlock := by simpa [scanEq] using invalid
      have isLeaf := noBlkLeaf v.scanData (List.mem_singleton_self _) noBlk
      exact ⟨_, blocks, viewEq, (custody.applyFetchedPath isLeaf).withoutBlock noBlk rfl
        (invalidLeaf_lt level), isLeaf, contains⟩
  · rintro r' ⟨oram, blocks', viewEq', custody', isLeaf, contains'⟩
    have sameScan : r'.scanData = v.scanData := congrArg DataView.scanData viewEq'
    have writtenView : ({ r' with scanData := { r'.scanData with st := .needWrite } } : Rounds Ω).view =
        v.wroteScan oram := by
      calc ({ r' with scanData := { r'.scanData with st := .needWrite } } : Rounds Ω).view
          = { r'.view with scanData := { r'.scanData with st := .needWrite } } := rfl
        _ = v.wroteScan oram := by rw [viewEq', sameScan, DataView.wroteScan]
    refine Prog.ends_pure ?_
    rw [writtenView]
    exact inv.arrived_wroteScan reading noData noDummy custody' isLeaf contains'

/-- What was due arrives, if it was one read at most. -/
theorem DataInv.yields_arrive (inv : DataInv maint q contents [] v)
    (few : (v.opsAt .needRead).length ≤ 1) (fetchedView : r.view = v.fetched)
    (dataDue : p.dataRead = (v.data.st == .needRead))
    (dummyDue : p.dummyRead = (v.ddummy.st == .needRead))
    (scanDue : p.scanRead = (v.scanData.st == .needRead)) :
    Yields (do let r ← r.finishDataRead q p; (r.finishDummyRead p).finishScanRead q p)
      (fun r' => Arrived maint q contents r'.view) := by
  have skipDummy : ∀ r : Rounds Ω, v.ddummy.st ≠ .needRead → r.finishDummyRead p = r := by
    intro r notDue
    rw [finishDummyRead, if_neg (by simpa [dummyDue] using notDue)]
  have skipScan : ∀ r : Rounds Ω, v.scanData.st ≠ .needRead → r.finishScanRead q p = pure r := by
    intro r notDue
    rw [finishScanRead, if_neg (by simpa [scanDue] using notDue)]
  have skipData : v.data.st ≠ .needRead → r.finishDataRead q p = pure r := by
    intro notDue
    rw [finishDataRead, if_neg (by simpa [dataDue] using notDue)]
  by_cases data : v.data.st = .needRead
  · rcases DataView.opsAt_data few data with ⟨_, noDummy, noScan⟩
    refine Prog.ends_bind (inv.yields_finishDataRead few data fetchedView (by simp [dataDue, data])) ?_
    intro r' arrived
    rw [skipDummy r' noDummy, skipScan r' noScan]
    exact Prog.ends_pure arrived
  · rw [skipData data, pure_bind]
    by_cases dummy : v.ddummy.st = .needRead
    · rcases DataView.opsAt_dummy few dummy with ⟨_, _, noScan⟩
      rw [skipScan _ noScan]
      exact Prog.ends_pure (inv.arrived_dummyRead few dummy fetchedView (by simp [dummyDue, dummy]))
    · rw [skipDummy r dummy]
      by_cases scan : v.scanData.st = .needRead
      · exact inv.yields_finishScanRead few scan fetchedView (by simp [scanDue, scan])
      · have noReads : v.opsAt .needRead = [] := DataView.opsAt_nil.mpr ⟨data, dummy, scan⟩
        have viewEq : r.view = v := by
          rw [fetchedView, DataView.fetched, noReads]
          rfl
        rw [skipScan r scan]
        refine Prog.ends_pure ?_
        rw [viewEq]
        exact ⟨noReads, [], inv⟩

/-! ## Scheduling -/

omit [∀ tier, OmapInterface (Ω tier)] in
/-- What a scheduled operation does to the blocks in custody. -/
theorem yields_scheduleRead (s : TieredOMap Ω) (ref : Bytes) (op : DataOp) :
    Yields (scheduleRead s ref op) (fun outcome => ∃ oram, outcome.2 = { s with dataOram := oram } ∧
      outcome.1.st = .needRead ∧ outcome.1.blk = refToBlk ref ∧
      ∀ level out blocks, s.dataOram.Custody level out blocks {} →
        oram.Custody level out blocks outcome.1 ∧
          (outcome.1.blk = invalidBlock → IsLeaf level outcome.1.leaf)) := by
  refine Prog.ends_bind (PathORAM.yields_randomLeaf s.dataOram) ?_
  intro leaf isLeaf
  split
  · refine Prog.ends_pure ⟨_, rfl, rfl, rfl, ?_⟩
    intro level out blocks custody
    let scheduled : DataOp := {
      st := .needRead
      blk := refToBlk ref
      leaf := s.dataOram.getLeaf (refToBlk ref)
      newLeaf := leaf }
    have custody' : (s.dataOram.setLeaf scheduled.blk leaf).Custody level out blocks scheduled :=
      custody.schedule rfl (custody.holds.level_eq ▸ isLeaf) rfl rfl
    exact ⟨custody', fun invalid => absurd invalid ‹_›⟩
  · have invalid : refToBlk ref = invalidBlock := not_not.mp ‹_›
    refine Prog.ends_pure ⟨s.dataOram, rfl, rfl, rfl, ?_⟩
    intro level out blocks custody
    rw [custody.holds.level_eq] at isLeaf
    exact ⟨custody.withoutBlock rfl invalid isLeaf.2, fun _ => isLeaf⟩

/-- The main query's read is scheduled. -/
theorem DataInv.scheduleData {out : List DataOp} (inv : DataInv maint q contents out v)
    (fresh : v.data.st = .idle) {oram : PathORAM} {data : DataOp} {ref : Bytes}
    {searcherDone decisionTriggered : Bool} (isRead : data.st = .needRead)
    (blkEq : data.blk = refToBlk ref)
    (taken : ∀ level out blocks, v.oram.Custody level out blocks {} →
      oram.Custody level out blocks data ∧ (data.blk = invalidBlock → IsLeaf level data.leaf))
    (started : decisionTriggered = true ∨ searcherDone = true) :
    DataInv maint q contents out
      { v with oram, data, searcherRef := ref, searcherDone, decisionTriggered } := by
  refine ⟨fun _ => inv.sameMaint (Or.inl fresh), ?_, inv.scanUnstarted, ?_, fun _ => blkEq,
    inv.dummyBlk, ?_, inv.oneOut, ?_⟩
  · intro noDecision notDone
    rcases started with decided | isDone
    · exact absurd decided (by simpa using noDecision)
    · exact absurd isDone (by simpa using notDone)
  · intro busy
    have isDone := inv.dummyWaits busy
    simp [fresh] at isDone
  · rw [← inv.writing]
    simp [DataView.opsAt_eq, isRead, fresh]
  · intro few
    rcases DataView.opsAt_data few isRead with ⟨readEq, noDummy, noScan⟩
    have noReads : v.opsAt .needRead = [] :=
      DataView.opsAt_nil.mpr ⟨by simp [fresh], noDummy, noScan⟩
    rcases inv.custody (by simp [noReads]) with ⟨level, blocks, custody, contains, _, isLeaf⟩
    rw [noReads] at custody
    rcases taken _ _ _ custody with ⟨custody', noBlkLeaf⟩
    rw [readEq]
    refine ⟨level, blocks, custody', ?_, by simpa using noBlkLeaf, isLeaf⟩
    simpa [DataView.contentsNow, isRead, fresh] using contains

/-- The scan's read is scheduled. -/
theorem DataInv.scheduleScan {out : List DataOp} (inv : DataInv maint q contents out v)
    (fresh : v.scanDecisionTriggered = false) {oram : PathORAM} {scanData : DataOp}
    (isRead : scanData.st = .needRead)
    (taken : ∀ level out blocks, v.oram.Custody level out blocks {} →
      oram.Custody level out blocks scanData ∧
        (scanData.blk = invalidBlock → IsLeaf level scanData.leaf)) :
    DataInv maint q contents out { v with oram, scanData, scanDecisionTriggered := true } := by
  have quiet := inv.scanUnstarted fresh
  refine ⟨inv.sameMaint, inv.unstarted, by simp, inv.dummyWaits, inv.sameBlk, inv.dummyBlk, ?_,
    inv.oneOut, ?_⟩
  · rw [← inv.writing]
    rcases quiet with idle | done
    · simp [DataView.opsAt_eq, isRead, idle]
    · simp [DataView.opsAt_eq, isRead, done]
  · intro few
    rcases DataView.opsAt_scan few isRead with ⟨readEq, noData, noDummy⟩
    have noReads : v.opsAt .needRead = [] := by
      refine DataView.opsAt_nil.mpr ⟨noData, noDummy, ?_⟩
      rcases quiet with idle | done
      · simp [idle]
      · simp [done]
    rcases inv.custody (by simp [noReads]) with ⟨level, blocks, custody, contains, _, isLeaf⟩
    rw [noReads] at custody
    rcases taken _ _ _ custody with ⟨custody', noBlkLeaf⟩
    rw [readEq]
    exact ⟨level, blocks, custody', contains, by simpa using noBlkLeaf, isLeaf⟩

variable {out : List DataOp}

theorem DataInv.yields_triggerDecision (inv : DataInv maint q contents out r.view) :
    Yields (r.triggerDecision q) (fun r' => DataInv maint q contents out r'.view) := by
  unfold triggerDecision
  split
  · rename_i due
    simp only [Bool.and_eq_true, Bool.not_eq_true'] at due
    have fresh := inv.unstarted due.1.1.1.1 due.1.1.1.2
    refine Prog.ends_bind (yields_scheduleRead r.s _ r.data) ?_
    rintro ⟨data, s⟩ ⟨oram, rfl, isRead, blkEq, taken⟩
    exact Prog.ends_pure (inv.scheduleData fresh isRead blkEq taken (Or.inl rfl))
  · exact Prog.ends_pure inv

theorem DataInv.yields_triggerScanDecision (inv : DataInv maint q contents out r.view) :
    Yields (r.triggerScanDecision q) (fun r' => DataInv maint q contents out r'.view) := by
  unfold triggerScanDecision
  split
  · rename_i due
    simp only [Bool.and_eq_true, Bool.not_eq_true'] at due
    refine Prog.ends_bind (yields_scheduleRead r.s _ r.scanData) ?_
    rintro ⟨scanData, s⟩ ⟨oram, rfl, isRead, _, taken⟩
    exact Prog.ends_pure (inv.scheduleScan due.1.1 isRead taken)
  · exact Prog.ends_pure inv

theorem DataInv.yields_finishSearcher (inv : DataInv maint q contents out r.view) :
    Yields r.finishSearcher (fun r' => DataInv maint q contents out r'.view) := by
  unfold finishSearcher
  split
  · rename_i due
    simp only [Bool.and_eq_true, Bool.not_eq_true'] at due
    split
    · rename_i triggered
      refine Prog.ends_pure ⟨inv.sameMaint, ?_, inv.scanUnstarted, inv.dummyWaits, inv.sameBlk,
        inv.dummyBlk, inv.writing, inv.oneOut, inv.custody⟩
      intro noDecision
      exact absurd triggered (by simpa [view] using noDecision)
    · rename_i untriggered
      have fresh := inv.unstarted (Bool.eq_false_iff.mpr untriggered) due.1
      refine Prog.ends_bind (yields_scheduleRead r.s _ r.data) ?_
      rintro ⟨data, s⟩ ⟨oram, rfl, isRead, blkEq, taken⟩
      exact Prog.ends_pure (inv.scheduleData fresh isRead blkEq taken (Or.inr rfl))
  · exact Prog.ends_pure inv

/-! ## Writing back -/

/-- Writing `oram` back checks in the path of `op`, whichever block waits for its read. -/
def ChecksIn (before after : PathORAM) (op : DataOp) : Prop :=
  ∀ level blocks waiting, before.Custody level (pathSet level [op.leaf]) blocks waiting →
    IsLeaf level op.leaf → after.Custody level ∅ blocks waiting

omit [∀ tier, OmapInterface (Ω tier)] in
theorem yields_evictData {op : DataOp} (r : Rounds Ω) (due : op.st = .needWrite) :
    Yields (r.evictData op) (fun outcome => ∃ path oram, outcome.1 = [path] ∧
      outcome.2.view = { r.view with oram } ∧ ChecksIn r.s.dataOram (oram.writePath path) op) := by
  unfold evictData
  rw [if_pos due]
  refine Prog.ends_bind (Q := fun outcome => ChecksIn r.s.dataOram
    (outcome.2.writePath outcome.1) op) ?_ ?_
  · intro world _
    rcases run : (r.s.dataOram.prepareEviction op.leaf).runFrom world with ⟨_ | outcome, _⟩
    · trivial
    · exact fun level blocks waiting custody isLeaf => (custody.evict isLeaf).returned run
  · rintro ⟨path, oram⟩ checksIn
    exact Prog.ends_pure ⟨path, oram, rfl, rfl, checksIn⟩

omit [∀ tier, OmapInterface (Ω tier)] in
theorem evictData_of_ne {op : DataOp} (r : Rounds Ω) (notDue : op.st ≠ .needWrite) :
    r.evictData op = pure ([], r) := if_neg notDue

omit [Cipher] [∀ tier, OmapInterface (Ω tier)] in
theorem startDummy_of_ne (r : Rounds Ω) (notDue : r.data.st ≠ .needWrite) :
    r.startDummy q = pure r := if_neg notDue

omit [∀ tier, OmapInterface (Ω tier)] in
/-- The path that was checked out is checked in, and nothing else changes. -/
theorem DataInv.checkedIn {op : DataOp} (inv : DataInv maint q contents [op] v) {oram : PathORAM}
    (checksIn : ChecksIn v.oram oram op) (few : (v.opsAt .needRead).length ≤ 1) :
    ∃ level blocks, oram.Custody level ∅ blocks ((v.opsAt .needRead).headD {}) ∧
      PathORAM.Contains blocks (v.contentsNow maint q contents) ∧
      ∀ op ∈ v.opsAt .needRead, op.blk = invalidBlock → IsLeaf level op.leaf := by
  rcases inv.custody few with ⟨level, blocks, custody, contains, noBlkLeaf, isLeaf⟩
  exact ⟨level, blocks, checksIn _ _ _ custody (isLeaf op (List.mem_singleton_self op)), contains,
    noBlkLeaf⟩

omit [∀ tier, OmapInterface (Ω tier)] in
theorem DataInv.closeData (inv : DataInv maint q contents [v.data] v)
    (due : v.data.st = .needWrite) (noDummy : v.ddummy.st ≠ .needWrite)
    (noScan : v.scanData.st ≠ .needWrite) {oram : PathORAM} (checksIn : ChecksIn v.oram oram v.data) :
    DataInv maint q contents [] (v.closeData oram) := by
  have started : v.data.st ≠ .idle := by simp [due]
  have sameReads : (v.closeData oram).opsAt .needRead = v.opsAt .needRead := by
    simp [DataView.opsAt_eq, DataView.closeData, due]
  have sameNow : (v.closeData oram).contentsNow maint q contents =
      v.contentsNow maint q contents := by
    simp [DataView.contentsNow, DataView.closeData, due]
  refine ⟨by simp [DataView.closeData], ?_, inv.scanUnstarted, fun _ => rfl,
    fun _ => inv.sameBlk started, inv.dummyBlk, ?_, by simp, ?_⟩
  · exact fun noDecision notDone => absurd (inv.unstarted noDecision notDone) started
  · exact DataView.opsAt_nil.mpr ⟨by simp [DataView.closeData], noDummy, noScan⟩
  · intro few
    rw [sameReads] at few ⊢
    rcases inv.checkedIn checksIn few with ⟨level, blocks, custody, contains, noBlkLeaf⟩
    exact ⟨level, blocks, custody, by rwa [sameNow], noBlkLeaf, by simp⟩

omit [∀ tier, OmapInterface (Ω tier)] in
theorem DataInv.closeDummy (inv : DataInv maint q contents [v.ddummy] v)
    (due : v.ddummy.st = .needWrite) (noScan : v.scanData.st ≠ .needWrite) {oram : PathORAM}
    (checksIn : ChecksIn v.oram oram v.ddummy) :
    DataInv maint q contents [] (v.closeDummy oram) := by
  have isDone : v.data.st = .done := inv.dummyWaits (Or.inr due)
  have sameReads : (v.closeDummy oram).opsAt .needRead = v.opsAt .needRead := by
    simp [DataView.opsAt_eq, DataView.closeDummy, due]
  refine ⟨inv.sameMaint, inv.unstarted, inv.scanUnstarted, fun _ => isDone, inv.sameBlk,
    inv.dummyBlk, ?_, by simp, ?_⟩
  · exact DataView.opsAt_nil.mpr ⟨by simp [DataView.closeDummy, isDone],
      by simp [DataView.closeDummy], noScan⟩
  · intro few
    rw [sameReads] at few ⊢
    rcases inv.checkedIn checksIn few with ⟨level, blocks, custody, contains, noBlkLeaf⟩
    exact ⟨level, blocks, custody, contains, noBlkLeaf, by simp⟩

omit [∀ tier, OmapInterface (Ω tier)] in
theorem DataInv.closeScan (inv : DataInv maint q contents [v.scanData] v)
    (due : v.scanData.st = .needWrite) (noData : v.data.st ≠ .needWrite)
    (noDummy : v.ddummy.st ≠ .needWrite) {oram : PathORAM}
    (checksIn : ChecksIn v.oram oram v.scanData) :
    DataInv maint q contents [] (v.closeScan oram) := by
  have sameReads : (v.closeScan oram).opsAt .needRead = v.opsAt .needRead := by
    simp [DataView.opsAt_eq, DataView.closeScan, due]
  refine ⟨inv.sameMaint, inv.unstarted, fun _ => Or.inr rfl, inv.dummyWaits, inv.sameBlk,
    inv.dummyBlk, ?_, by simp, ?_⟩
  · exact DataView.opsAt_nil.mpr ⟨noData, noDummy, by simp [DataView.closeScan]⟩
  · intro few
    rw [sameReads] at few ⊢
    rcases inv.checkedIn checksIn few with ⟨level, blocks, custody, contains, noBlkLeaf⟩
    exact ⟨level, blocks, custody, contains, noBlkLeaf, by simp⟩

omit [∀ tier, OmapInterface (Ω tier)] in
/-- The dummy read starts on a random path. -/
theorem DataInv.startDummy (inv : DataInv maint q contents [] v) (isDone : v.data.st = .done)
    (idle : v.ddummy.st = .idle) {leaf : Int} (isLeaf : IsLeaf v.oram.storage.level leaf) :
    DataInv maint q contents [] { v with ddummy := { v.ddummy with st := .needRead, leaf } } := by
  have noWrites := DataView.opsAt_nil.mp inv.writing
  refine ⟨inv.sameMaint, inv.unstarted, inv.scanUnstarted, fun _ => isDone, inv.sameBlk,
    inv.dummyBlk, ?_, by simp, ?_⟩
  · exact DataView.opsAt_nil.mpr ⟨noWrites.1, by simp, noWrites.2.2⟩
  · intro few
    rcases DataView.opsAt_dummy few rfl with ⟨readEq, noData, noScan⟩
    have noReads : v.opsAt .needRead = [] :=
      DataView.opsAt_nil.mpr ⟨noData, by simp [idle], noScan⟩
    rcases inv.custody (by simp [noReads]) with ⟨level, blocks, custody, contains, _⟩
    rw [noReads] at custody
    rw [custody.holds.level_eq] at isLeaf
    rw [readEq]
    exact ⟨level, blocks, custody.withoutBlock rfl inv.dummyBlk isLeaf.2, contains,
      by simpa using fun _ => isLeaf, by simp⟩

omit [∀ tier, OmapInterface (Ω tier)] in
/-- After the main query's path, the dummy read may start. -/
theorem DataInv.yields_startDummy (inv : DataInv maint q contents [v.data] v)
    (due : v.data.st = .needWrite) (noDummy : v.ddummy.st ≠ .needWrite)
    (noScan : v.scanData.st ≠ .needWrite) {path : PathData} {oram : PathORAM}
    (checksIn : ChecksIn v.oram (oram.writePath path) v.data) (viewEq : r.view = { v with oram }) :
    Yields (r.startDummy q) (fun r' => r'.data.st ≠ .needWrite ∧ r'.ddummy.st ≠ .needWrite ∧
      r'.scanData.st ≠ .needWrite ∧
      DataInv maint q contents [] { r'.view with oram := r'.s.dataOram.writePath path }) := by
  have closed := inv.closeData due noDummy noScan checksIn
  have dataEq : r.data = v.data := congrArg DataView.data viewEq
  have dummyEq : r.ddummy = v.ddummy := congrArg DataView.ddummy viewEq
  have scanEq : r.scanData = v.scanData := congrArg DataView.scanData viewEq
  have oramEq : r.s.dataOram = oram := congrArg DataView.oram viewEq
  have closedView : v.closeData (oram.writePath path) = { r.view with
      oram := r.s.dataOram.writePath path, data := { r.data with st := .done } } := by
    rw [viewEq, dataEq, oramEq]
    rfl
  rw [closedView] at closed
  unfold Rounds.startDummy
  rw [if_pos (dataEq ▸ due)]
  dsimp only
  split
  · rename_i starts
    simp only [Bool.and_eq_true, beq_iff_eq] at starts
    refine Prog.ends_bind (PathORAM.yields_randomLeaf _) ?_
    intro leaf isLeaf
    refine Prog.ends_pure ⟨by simp, by simp, scanEq ▸ noScan, closed.startDummy rfl starts.2 ?_⟩
    have sameLevel : (r.s.dataOram.writePath path).storage.level = r.s.dataOram.storage.level :=
      (BinaryTreeStorage.writeMultiplePaths_keeps _ _).1
    exact sameLevel ▸ isLeaf
  · exact Prog.ends_pure ⟨by simp, dummyEq ▸ noDummy, scanEq ▸ noScan, closed⟩

omit [Cipher] [∀ tier, OmapInterface (Ω tier)] in
theorem view_closeDummy (due : r.ddummy.st = .needWrite) :
    r.closeDummy.view = r.view.closeDummy r.s.dataOram := by
  rw [Rounds.closeDummy, if_pos due]
  rfl

omit [Cipher] [∀ tier, OmapInterface (Ω tier)] in
theorem view_closeScan (due : r.scanData.st = .needWrite) :
    r.closeScan.view = r.view.closeScan r.s.dataOram := by
  rw [Rounds.closeScan, if_pos due]
  rfl

omit [Cipher] [∀ tier, OmapInterface (Ω tier)] in
/-- The batch write, once the paths have been gathered. -/
theorem yields_batchWrite (r : Rounds Ω) (tier tier' : Tier) (f : Ω tier → Ω tier)
    (g : Ω tier' → Ω tier') (request : StorageReq) (paths : List PathData) {P : DataView → Prop}
    (written : P { r.view with oram := paths.foldl PathORAM.writePath r.s.dataOram }) :
    Yields (do
      send request
      let r := (r.modifyOmap tier f).modifyOmap tier' g
      return { r with s := { r.s with dataOram := paths.foldl PathORAM.writePath r.s.dataOram } })
      (fun r' : Rounds Ω => P r'.view) := by
  refine Prog.ends_bind (yields_any _) ?_
  intro _ _
  refine Prog.ends_pure ?_
  cases tier <;> cases tier' <;> exact written

/-- One round writes back what it has read. -/
theorem DataInv.yields_writeBack (inv : DataInv maint q contents out r.view) :
    Yields (r.writeBack q p) (fun r' => DataInv maint q contents [] r'.view) := by
  unfold writeBack
  refine Prog.ends_bind (yields_prepareWrites r _ _) ?_
  rintro ⟨searcherWrites, asked⟩ sameView
  refine Prog.ends_bind (yields_prepareWrites asked _ _) ?_
  rintro ⟨dummyWrites, ready⟩ sameView'
  dsimp only at sameView sameView' ⊢
  rw [← sameView, ← sameView'] at inv
  have few : (ready.view.opsAt .needWrite).length ≤ 1 := by
    rw [inv.writing]
    exact inv.oneOut
  by_cases data : ready.data.st = .needWrite
  · rcases DataView.opsAt_data few data with ⟨writes, noDummy, noScan⟩
    obtain rfl : out = [ready.data] := inv.writing.symm.trans writes
    refine Prog.ends_bind (yields_evictData ready data) ?_
    rintro ⟨paths, evicted⟩ ⟨path, oram, rfl, evictedView, checksIn⟩
    refine Prog.ends_bind (inv.yields_startDummy data noDummy noScan checksIn evictedView) ?_
    rintro started ⟨noData', noDummy', noScan', inv'⟩
    have dummyClosed : started.closeDummy = started := if_neg noDummy'
    have scanClosed : started.closeScan = started := if_neg noScan'
    rw [evictData_of_ne _ noDummy', pure_bind]
    dsimp only
    rw [dummyClosed, evictData_of_ne _ noScan', pure_bind]
    dsimp only
    rw [scanClosed]
    exact yields_batchWrite started _ _ _ _ _ _ inv'
  · rw [evictData_of_ne _ data, pure_bind, startDummy_of_ne _ data, pure_bind]
    by_cases dummy : ready.ddummy.st = .needWrite
    · rcases DataView.opsAt_dummy few dummy with ⟨writes, _, noScan⟩
      obtain rfl : out = [ready.ddummy] := inv.writing.symm.trans writes
      refine Prog.ends_bind (yields_evictData ready dummy) ?_
      rintro ⟨paths, evicted⟩ ⟨path, oram, rfl, evictedView, checksIn⟩
      dsimp only at evictedView ⊢
      have dummyEq : evicted.ddummy = ready.ddummy := congrArg DataView.ddummy evictedView
      have oramEq : evicted.s.dataOram = oram := congrArg DataView.oram evictedView
      have closedView : evicted.closeDummy.view = ready.view.closeDummy oram := by
        rw [view_closeDummy (dummyEq ▸ dummy), evictedView, oramEq]
        rfl
      generalize evicted.closeDummy = closing at closedView ⊢
      have noScan' : closing.scanData.st ≠ .needWrite := by
        rw [show closing.scanData = _ from congrArg DataView.scanData closedView]
        exact noScan
      have scanClosed : closing.closeScan = closing := if_neg noScan'
      rw [evictData_of_ne _ noScan', pure_bind]
      dsimp only
      rw [scanClosed]
      refine yields_batchWrite closing _ _ _ _ _ _ ?_
      have closed := inv.closeDummy dummy noScan checksIn
      rw [closedView, show closing.s.dataOram = oram from congrArg DataView.oram closedView]
      exact closed
    · have dummyClosed : ready.closeDummy = ready := if_neg dummy
      rw [evictData_of_ne _ dummy, pure_bind]
      dsimp only
      rw [dummyClosed]
      by_cases scan : ready.scanData.st = .needWrite
      · rcases DataView.opsAt_scan few scan with ⟨writes, _, _⟩
        obtain rfl : out = [ready.scanData] := inv.writing.symm.trans writes
        refine Prog.ends_bind (yields_evictData ready scan) ?_
        rintro ⟨paths, evicted⟩ ⟨path, oram, rfl, evictedView, checksIn⟩
        dsimp only at evictedView ⊢
        have scanEq : evicted.scanData = ready.scanData := congrArg DataView.scanData evictedView
        have oramEq : evicted.s.dataOram = oram := congrArg DataView.oram evictedView
        have closedView : evicted.closeScan.view = ready.view.closeScan oram := by
          rw [view_closeScan (scanEq ▸ scan), evictedView, oramEq]
          rfl
        refine yields_batchWrite evicted.closeScan _ _ _ _ _ _ ?_
        have closed := inv.closeScan (v := ready.view) scan data dummy checksIn
        rw [closedView,
          show evicted.closeScan.s.dataOram = oram from congrArg DataView.oram closedView]
        exact closed
      · have scanClosed : ready.closeScan = ready := if_neg scan
        rw [evictData_of_ne _ scan, pure_bind]
        dsimp only
        rw [scanClosed]
        have noWrites : out = [] :=
          inv.writing.symm.trans (DataView.opsAt_nil.mpr ⟨data, dummy, scan⟩)
        exact yields_batchWrite ready _ _ _ _ _ _ (noWrites ▸ inv)

/-! ## Rounds -/

/-- The data paths the next round reads. -/
def dataReads (r : Rounds Ω) : List DataOp := r.view.opsAt .needRead

/-- One round that reads at most one data path keeps the blocks in custody. -/
theorem DataInv.yields_round (inv : DataInv maint q contents [] r.view)
    (few : r.dataReads.length ≤ 1) :
    Yields (r.round q) (fun r' => DataInv maint q contents [] r'.view) := by
  unfold round
  refine Prog.ends_bind (yields_fetch r) ?_
  intro fetched fetchedView
  refine Prog.ends_bind (yields_process fetched _) ?_
  intro processed sameView
  refine Prog.ends_bind_bind (inv.yields_arrive few (sameView.trans fetchedView) rfl rfl rfl) ?_
  rintro arrived ⟨_, out, inv⟩
  refine Prog.ends_bind inv.yields_triggerDecision ?_
  intro decided inv
  refine Prog.ends_bind inv.yields_triggerScanDecision ?_
  intro scanned inv
  refine Prog.ends_bind inv.yields_finishSearcher ?_
  intro searched inv
  exact inv.yields_writeBack

end Rounds

end TieredOmap
