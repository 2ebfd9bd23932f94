import TieredOMap.Omap.BplusStep
import TieredOMap.Tiered.Access
import TieredOMap.Tiered.DataRounds

/-!
# Conservation of the data ORAM over an interleaved access

The rounds of a call as a run of states. If every round of the run reads at
most one data path, the call conserves the data blocks. A round that reads two
paths fetches what they share twice and writes it back twice: with B+ tiers a
cold key and the scan reach their decisions in the same round, and a block that
was in the root is lost.
-/

namespace TieredOmap

open BinaryTreeStorage

/-! ## Initialisation -/

namespace PathORAM

variable [Cipher] {oram : PathORAM}

/-- An unused ORAM initialised with `data` conserves it. -/
theorem Unused.yields_init (unused : oram.Unused) {data : KeyMap Int Bytes}
    (realKeys : ∀ entry ∈ data.entries, entry.1 ≠ invalidKey) :
    Yields (oram.init data) (fun oram' => oram'.Conserves data.get?) := by
  have noLeaves : ∀ key leaf, oram.posMap.get? key = some leaf →
      IsLeaf oram.storage.level leaf := by
    simp [unused.noLeaves]
  intro world _
  rcases run : (oram.init data).runFrom world with ⟨_ | oram', _⟩
  · trivial
  · rcases (yields_of_ends (PathORAM.ends_init unused.sized noLeaves realKeys)).returned run with
      ⟨blocks, tracked, sameEntries, _⟩
    refine ⟨_, blocks, tracked, ?_, (yields_init_leaves data rfl noLeaves).returned run⟩
    intro key value
    rw [KeyMap.get?_eq_some_iff, ← Multiset.mem_coe, ← sameEntries]
    simp [Multiset.mem_map]

end PathORAM

namespace TieredOMap

variable {Ω : Tier → Type} [∀ tier, OmapInterface (Ω tier)] [Cipher]

omit [Cipher] [∀ tier, OmapInterface (Ω tier)] in
/-- The data blocks are numbered from zero. -/
theorem nonneg_of_placed (useEpoch : Bool) (hot : Finset Int) (records : List (Int × Bytes))
    {placement : Placement} (nonneg : 0 ≤ placement.nextId)
    (placed : ∀ entry ∈ placement.blocks.entries, 0 ≤ entry.1) :
    ∀ entry ∈ (records.foldl (placeRecord useEpoch hot) placement).blocks.entries,
      0 ≤ entry.1 := by
  induction records generalizing placement with
  | nil => exact placed
  | cons record rest ih =>
      rw [List.foldl_cons]
      have nonneg' : 0 ≤ (placeRecord useEpoch hot placement record).nextId :=
        Int.add_nonneg nonneg (by decide)
      refine ih nonneg' ?_
      intro entry entryMem
      have keyMem : entry.1 ∈ (placement.blocks.set placement.nextId (if useEpoch then
          encodeWithEpoch record.2 { cnt := 0, ep := 0 } else record.2)).keys :=
        List.mem_map_of_mem entryMem
      rcases KeyMap.mem_keys_setEntry.mp keyMem with new | old
      · exact new ▸ nonneg
      · rcases List.mem_map.mp old with ⟨entry', entryMem', sameKey⟩
        exact sameKey ▸ placed entry' entryMem'

omit [Cipher] [∀ tier, OmapInterface (Ω tier)] in
theorem yields_onTier (s : TieredOMap Ω) (tier : Tier) (operation : Ω tier → Rand (Ω tier)) :
    Yields (s.onTier tier operation) (fun s' => s'.dataOram = s.dataOram) := by
  refine Prog.ends_bind (yields_any _) ?_
  intro omap _
  refine Prog.ends_pure ?_
  cases tier <;> rfl

omit [Cipher] in
theorem yields_searchTier (s : TieredOMap Ω) (tier : Tier) (key : Int) :
    Yields (s.searchTier tier key) (fun outcome => outcome.2.dataOram = s.dataOram) := by
  refine Prog.ends_bind (yields_any _) ?_
  rintro ⟨ref, omap⟩ _
  refine Prog.ends_pure ?_
  cases tier <;> rfl

omit [Cipher] in
theorem yields_extractKeys (keys : List Int) (s : TieredOMap Ω) :
    Yields (s.extractKeys keys) (fun outcome => outcome.2.dataOram = s.dataOram) := by
  induction keys generalizing s with
  | nil => exact Prog.ends_pure rfl
  | cons key rest ih =>
      refine Prog.ends_bind (yields_searchTier s .hot key) ?_
      rintro ⟨ref, searched⟩ sameOram
      refine Prog.ends_bind (yields_onTier searched .hot _) ?_
      intro removed sameOram'
      refine Prog.ends_bind (ih _) ?_
      rintro ⟨entries, extracted⟩ sameOram''
      exact Prog.ends_pure (sameOram''.trans (sameOram'.trans sameOram))

omit [Cipher] in
theorem yields_extractCache (s : TieredOMap Ω) :
    Yields s.extractCache (fun s' => s'.dataOram = s.dataOram) := by
  unfold extractCache
  dsimp only
  split
  · exact Prog.ends_fail trivial
  · refine Prog.ends_bind (yields_extractKeys _ s) ?_
    rintro ⟨entries, extracted⟩ sameOram
    exact Prog.ends_pure sameOram

omit [Cipher] [∀ tier, OmapInterface (Ω tier)] in
theorem dataOram_nextScanKey (s : TieredOMap Ω) : s.nextScanKey.2.dataOram = s.dataOram := by
  unfold nextScanKey
  split
  · rfl
  · split <;> rfl

omit [Cipher] [∀ tier, OmapInterface (Ω tier)] in
theorem dataOram_piggybackQuery (s : TieredOMap Ω) (key : Int) (newValue : Option Bytes) :
    (s.piggybackQuery key newValue).2.dataOram = s.dataOram := by
  unfold piggybackQuery
  dsimp only
  split
  · split
    · exact dataOram_nextScanKey s
    · rfl
  · rfl

/-- The records that `init` puts into the data ORAM. -/
def placedBlocks (config : TieredOMapConfig) (allData : List (Int × Bytes)) (hotKeys : List Int) :
    KeyMap Int Bytes :=
  (allData.foldl (placeRecord config.maintenance.enabled hotKeys.toFinset) {}).blocks

theorem yields_init_conserves (config : TieredOMapConfig) (allData : List (Int × Bytes))
    (hotKeys : List Int) :
    Yields (TieredOMap.init (Ω := Ω) config allData hotKeys) (fun s =>
      s.dataOram.Conserves (placedBlocks config allData hotKeys).get?) := by
  have realKeys : ∀ entry ∈ (placedBlocks config allData hotKeys).entries, entry.1 ≠ invalidKey := by
    intro entry entryMem same
    have noneYet : ∀ entry ∈ ({} : Placement).blocks.entries, 0 ≤ entry.1 := by
      intro entry entryMem
      cases entryMem
    have nonneg := nonneg_of_placed config.maintenance.enabled hotKeys.toFinset allData
      (le_refl 0) noneYet entry entryMem
    rw [same] at nonneg
    exact absurd nonneg (by decide)
  refine Prog.ends_bind (yields_of_ends (PathORAM.ends_new _ _ _)) ?_
  intro dataOram unused
  refine Prog.ends_bind (unused.yields_init realKeys) ?_
  intro dataOram conserves
  refine Prog.ends_bind (yields_any _) ?_
  intro hotOmap _
  refine Prog.ends_bind (yields_any _) ?_
  intro coldOmap _
  refine Prog.ends_bind (yields_any _) ?_
  intro hotOmap _
  refine Prog.ends_bind (yields_any _) ?_
  intro coldOmap _
  dsimp only
  split
  · refine (yields_extractCache _).mono ?_
    intro s sameOram
    rw [sameOram]
    exact conserves
  · exact Prog.ends_pure conserves

end TieredOMap

/-! ## Runs of rounds -/

namespace Rounds

variable {Ω : Tier → Type} [∀ tier, OmapInterface (Ω tier)] [Cipher]

/-- The states of the loop: the one before each of its rounds and the last one. -/
def states (q : Query) : Nat → Rounds Ω → World → List (Rounds Ω)
  | 0, r, _ => [r]
  | fuel + 1, r, world =>
      r :: if r.finished then [] else
        match (r.round q).runFrom world with
        | (.ok r', world') => states q fuel r' world'
        | (.error _, _) => []

variable {maint : Option MaintenanceManager} {q : Query} {contents : Int → Option Bytes}
  {r : Rounds Ω}

/-- Every round of the run reads at most one data path. -/
def Apart (q : Query) (fuel : Nat) (r : Rounds Ω) (world : World) : Prop :=
  ∀ r' ∈ states q fuel r world, r'.dataReads.length ≤ 1

instance (q : Query) (fuel : Nat) (r : Rounds Ω) (world : World) : Decidable (Apart q fuel r world) :=
  inferInstanceAs (Decidable (∀ r' ∈ states q fuel r world, r'.dataReads.length ≤ 1))

/-- In a run whose rounds read at most one data path each, the blocks stay in custody. -/
theorem DataInv.along_states (fuel : Nat) {world : World} (inv : DataInv maint q contents [] r.view)
    (apart : Apart q fuel r world) :
    ∀ r' ∈ states q fuel r world, DataInv maint q contents [] r'.view := by
  induction fuel generalizing r world with
  | zero => simpa [states] using inv
  | succ fuel ih =>
      intro r' visited
      rcases List.mem_cons.mp visited with rfl | later
      · exact inv
      · have few := apart r List.mem_cons_self
        split at later
        · cases later
        · rename_i going
          rcases run : (r.round q).runFrom world with ⟨_ | next, world'⟩
          · simp [run] at later
          · have laterEq : states q (fuel + 1) r world = r :: states q fuel next world' := by
              simp [states, going, run]
            simp only [run] at later
            refine ih ((inv.yields_round few).returned run) ?_ r' later
            intro r'' visited'
            exact apart r'' (laterEq ▸ List.mem_cons_of_mem _ visited')

/-- What the loop returns is a finished state of its run. -/
theorem mem_states_of_loop (fuel : Nat) {world world' : World} {r' : Rounds Ω}
    (run : (r.loop q fuel).runFrom world = (.ok r', world')) :
    r' ∈ states q fuel r world ∧ r'.finished = true := by
  induction fuel generalizing r world with
  | zero =>
      unfold loop at run
      split at run
      · rename_i isFinished
        cases run
        exact ⟨List.mem_singleton_self _, isFinished⟩
      · cases run
  | succ fuel ih =>
      unfold loop at run
      split at run
      · rename_i isFinished
        cases run
        exact ⟨List.mem_cons_self, isFinished⟩
      · rename_i going
        rw [Prog.runFrom_bind] at run
        rcases round : (r.round q).runFrom world with ⟨_ | next, world''⟩
        · simp [round] at run
        · rw [round] at run
          have statesEq : states q (fuel + 1) r world = r :: states q fuel next world'' := by
            simp [states, going, round]
          rcases ih run with ⟨visited, isFinished⟩
          exact ⟨statesEq ▸ List.mem_cons_of_mem _ visited, isFinished⟩

omit [∀ tier, OmapInterface (Ω tier)] in
/-- Between rounds the ORAM conserves its blocks as long as no data read is outstanding. -/
theorem DataInv.conserves (inv : DataInv maint q contents [] r.view) (quiet : r.dataReads = []) :
    r.s.dataOram.Conserves (r.view.contentsNow maint q contents) := by
  have noReads : r.view.opsAt .needRead = [] := quiet
  rcases inv.custody (by simp [noReads]) with ⟨level, blocks, custody, contains, _⟩
  rw [noReads] at custody
  rcases PathORAM.custody_iff_tracked.mp custody with ⟨tracked, mapLeaves⟩
  exact ⟨level, blocks, tracked, contains, mapLeaves⟩

omit [Cipher] in
/-- A finished call has no data read outstanding. -/
theorem dataReads_of_finished (isFinished : r.finished = true) :
    r.dataReads = [] ∧ r.data.st = .done := by
  simp only [finished, Bool.and_eq_true, beq_iff_eq] at isFinished
  rcases isFinished with ⟨⟨⟨_, data⟩, dummy⟩, scan⟩
  exact ⟨DataView.opsAt_nil.mpr ⟨by simp [view, data], by simp [view, dummy], by simp [view, scan]⟩,
    data⟩

/-! ## The call -/

/-- The data side when a call starts. -/
def startView (s : TieredOMap Ω) (q : Query) (searcher : Tier) : DataView where
  oram := s.dataOram
  maint := s.maint
  searcher := searcher
  data := {}
  ddummy := { st := if q.usePartialDummy then .done else .idle }
  scanData := { st := if q.scanOnPiggyback then .idle else .done }
  searcherDone := false
  decisionTriggered := false
  scanDecisionTriggered := false
  searcherRef := []

omit [Cipher] in
theorem yields_begin (s : TieredOMap Ω) (q : Query) :
    Yields (begin_ s q) (fun r => r.view = startView s q r.searcher) := by
  let isHotPhysical : Bool := q.key ∈ s.physHotKeys
  let started : DataView := {
    startView s q (if isHotPhysical then .hot else .cold) with ddummy := {}, scanData := {} }
  have ends : ∀ r : Rounds Ω, r.view = started →
      ({ r with
        ddummy := { st := if q.usePartialDummy then .done else .idle }
        scanData := { st := if q.scanOnPiggyback then .idle else .done } } : Rounds Ω).view =
        startView s q r.searcher := by
    intro r same
    have sameSearcher : r.searcher = started.searcher := congrArg DataView.searcher same
    have shape : startView s q r.searcher = { started with
        ddummy := { st := if q.usePartialDummy then .done else .idle }
        scanData := { st := if q.scanOnPiggyback then .idle else .done } } := by
      rw [sameSearcher]
      rfl
    rw [shape, ← same]
    rfl
  have optional : ∀ (due : Bool) (r : Rounds Ω) (tier : Tier) (f : Ω tier → Ω tier),
      r.view = started → (if due = true then r.modifyOmap tier f else r).view = started := by
    intro due r tier f same
    split
    · rw [view_modifyOmap, same]
    · exact same
  have inserted : ∀ (due : Bool) (r : Rounds Ω) (tier : Tier) (operation : Ω tier → Rand (Ω tier)),
      r.view = started → Yields (doWhen due (r.onOmap tier operation) r) (fun r => r.view = started) :=
    fun due r tier operation same => yields_doWhen
      (fun _ => (yields_onOmap r tier operation).mono (fun _ same' => same'.trans same))
      (fun _ => same)
  unfold begin_
  refine Prog.ends_bind (inserted _ _ _ _ ?_) ?_
  · split <;> simp only [view_modifyOmap] <;> rfl
  · intro r same
    refine Prog.ends_bind (inserted _ _ _ _ same) ?_
    intro r same
    exact Prog.ends_pure (ends _ (optional _ _ _ _ (optional _ _ _ _ (optional _ _ _ _ same))))

omit [∀ tier, OmapInterface (Ω tier)] in
/-- A call starts with every block in its place. -/
theorem dataInv_of_conserves {s : TieredOMap Ω} (conserves : s.dataOram.Conserves contents)
    (searcher : Tier) : DataInv s.maint q contents [] (startView s q searcher) := by
  rcases conserves with ⟨level, blocks, tracked, contains, mapLeaves⟩
  have quiet : ∀ st, st ≠ .idle → st ≠ .done → (startView s q searcher).opsAt st = [] := by
    intro st notIdle notDone
    refine DataView.opsAt_nil.mpr ⟨notIdle.symm, ?_, ?_⟩
    · unfold startView
      dsimp only
      split
      · exact notDone.symm
      · exact notIdle.symm
    · unfold startView
      dsimp only
      split
      · exact notIdle.symm
      · exact notDone.symm
  have noReads := quiet .needRead (by simp) (by simp)
  have noWrites := quiet .needWrite (by simp) (by simp)
  refine ⟨fun _ => rfl, fun _ _ => rfl, ?_, ?_, fun started => absurd rfl started, rfl, noWrites,
    by simp, ?_⟩
  · intro _
    unfold startView
    dsimp only
    split
    · exact Or.inl rfl
    · exact Or.inr rfl
  · intro busy
    unfold startView at busy
    dsimp only at busy
    split at busy <;> simp at busy
  · intro _
    rw [noReads]
    refine ⟨level, blocks, PathORAM.custody_iff_tracked.mpr ⟨tracked, mapLeaves⟩, ?_, by simp,
      by simp⟩
    simpa [DataView.contentsNow, startView] using contains

end Rounds

namespace TieredOMap

variable {Ω : Tier → Type} [∀ tier, OmapInterface (Ω tier)] [Cipher]

/-- The states of the round loop of a call. -/
def callStates (fuel : Nat) (s : TieredOMap Ω) (q : Query) (world : World) : List (Rounds Ω) :=
  match (Rounds.begin_ s q).runFrom world with
  | (.ok r, world') => Rounds.states q fuel r world'
  | (.error _, _) => []

/-- Every round of the call reads at most one data path. -/
def ReadsApart (fuel : Nat) (s : TieredOMap Ω) (q : Query) (world : World) : Prop :=
  ∀ r ∈ s.callStates fuel q world, r.dataReads.length ≤ 1

/--
A call whose rounds read at most one data path each conserves the data ORAM:
between rounds, whenever no data read is outstanding, and after the call, with
the record that the searcher's reference names updated and all others as before.
-/
theorem interleavedAccess_conserves {s : TieredOMap Ω} {q : Query} {fuel : Nat} {world : World}
    {contents : Int → Option Bytes} (conserves : s.dataOram.Conserves contents)
    (apart : s.ReadsApart fuel q world) :
    (∀ r ∈ s.callStates fuel q world, r.dataReads = [] →
      r.s.dataOram.Conserves (r.view.contentsNow s.maint q contents)) ∧
    ∀ result s' world', (s.interleavedAccess fuel q).runFrom world = (.ok (result, s'), world') →
      ∃ r ∈ s.callStates fuel q world, r.finished = true ∧ r.s = s' ∧
        s'.dataOram.Conserves (contentsAfter s.maint q contents (refToBlk r.searcherRef)) := by
  rcases start : (Rounds.begin_ s q).runFrom world with ⟨error | r, world₁⟩
  · have noStates : s.callStates fuel q world = [] := by simp [callStates, start]
    refine ⟨by simp [noStates], ?_⟩
    intro result s' world' run
    rw [interleavedAccess, Prog.runFrom_bind, start] at run
    cases run
  · have statesEq : s.callStates fuel q world = Rounds.states q fuel r world₁ := by
      simp [callStates, start]
    have inv : Rounds.DataInv s.maint q contents [] r.view := by
      rw [(Rounds.yields_begin s q).returned start]
      exact Rounds.dataInv_of_conserves conserves _
    have apart' : Rounds.Apart q fuel r world₁ := by
      intro r' visited
      exact apart r' (statesEq.symm ▸ visited)
    have along := inv.along_states fuel apart'
    rw [statesEq]
    refine ⟨fun r' visited quiet => (along r' visited).conserves quiet, ?_⟩
    intro result s' world' run
    rw [interleavedAccess, Prog.runFrom_bind, start] at run
    dsimp only at run
    rw [Prog.runFrom_bind] at run
    rcases loopRun : (r.loop q fuel).runFrom world₁ with ⟨error | last, world₂⟩
    · rw [loopRun] at run
      cases run
    · rw [loopRun] at run
      cases run
      rcases Rounds.mem_states_of_loop fuel loopRun with ⟨visited, isFinished⟩
      rcases Rounds.dataReads_of_finished isFinished with ⟨quiet, isDone⟩
      refine ⟨last, visited, isFinished, rfl, ?_⟩
      have conserved := (along last visited).conserves quiet
      rwa [DataView.contentsNow, if_neg (by simp [Rounds.view, isDone])] at conserved

end TieredOMap

namespace TieredOMap

section Sample

attribute [local instance] clearCipher

/-- Both tiers are B+ trees. -/
abbrev BplusTiers : Tier → Type := fun _ => BPlusOmap

/-- Piggybacked maintenance, due at every `swapInterval`-th access, with an empty client cache. -/
def clashConfig (swapInterval : Int) : TieredOMapConfig where
  backend := .bPlus
  bplusOrder := 4
  maintenance := {
    enabled := true
    piggyback := true
    swapInterval
    observationWindow := 1
    cacheSize := 0 }

/-- The first access of a map with hot key `1` and cold key `2`, up to its interleaved call. -/
def clashStart (swapInterval : Int) : Rand (Query × TieredOMap BplusTiers) := do
  let s ← TieredOMap.init (clashConfig swapInterval) [(1, [1]), (2, [2])] [1]
  return ({ s with channel := true }.withMgr MaintenanceManager.tick).piggybackQuery 2 none

/-- That access up to the end of its interleaved call. -/
def clashCall (swapInterval : Int) : Rand (AccessResult × TieredOMap BplusTiers) := do
  let (q, s) ← clashStart swapInterval
  s.interleavedAccess 20 q

/-- The call, followed by a read of the record of key `2`. -/
def clashRead (swapInterval : Int) : Rand Bytes := do
  let (_, s) ← clashCall swapInterval
  let (value, _) ← s.dataOram.access 1 none
  return value

theorem clashCall_returns : ((clashCall 1).runFrom {}).1.isOk = true := by
  decide +kernel

theorem clashRead_fails : ((clashRead 1).runFrom {}).1 = .error .keyNotFound := by
  decide +kernel

theorem yields_clashStart (swapInterval : Int) :
    Yields (clashStart swapInterval) (fun outcome => outcome.2.dataOram.Conserves
      (placedBlocks (clashConfig swapInterval) [(1, [1]), (2, [2])] [1]).get?) := by
  refine Prog.ends_bind (yields_init_conserves _ _ _) ?_
  intro s conserves
  refine Prog.ends_pure ?_
  rw [dataOram_piggybackQuery]
  exact conserves

/--
The block of key `2` is lost when the search of the cold key and the scan read
their data paths in the same round.
-/
theorem interleavedAccess_loses_block : ∃ q s world result s' world',
    (clashStart 1).runFrom {} = (.ok (q, s), world) ∧
      s.dataOram.Conserves (placedBlocks (clashConfig 1) [(1, [1]), (2, [2])] [1]).get? ∧
      (placedBlocks (clashConfig 1) [(1, [1]), (2, [2])] [1]).get? 1 ≠ none ∧
      (s.interleavedAccess 20 q).runFrom world = (.ok (result, s'), world') ∧
      ∀ contents, s'.dataOram.Conserves contents → contents 1 = none := by
  have returns := clashCall_returns
  have fails := clashRead_fails
  unfold clashCall at returns
  unfold clashRead clashCall at fails
  rw [Prog.runFrom_bind] at returns
  rw [bind_assoc, Prog.runFrom_bind] at fails
  rcases start : (clashStart 1).runFrom {} with ⟨_ | ⟨q, s⟩, world⟩
  · rw [start] at returns
    cases returns
  · rw [start] at returns fails
    dsimp only at returns fails
    rw [Prog.runFrom_bind] at fails
    rcases call : (s.interleavedAccess 20 q).runFrom world with ⟨_ | ⟨result, s'⟩, world'⟩
    · rw [call] at returns
      cases returns
    · rw [call] at fails
      dsimp only at fails
      rw [Prog.runFrom_bind] at fails
      refine ⟨q, s, world, result, s', world', rfl, (yields_clashStart 1).returned start,
        by decide +kernel, call, ?_⟩
      intro contents conserves
      rcases present : contents 1 with _ | value
      · rfl
      · have outcome := conserves.isArray.ends_access present none world' trivial
        rcases read : (s'.dataOram.access 1 none).runFrom world' with ⟨error | read', world''⟩
        · rw [read] at outcome fails
          dsimp only at outcome fails
          rw [outcome] at fails
          cases fails
        · rw [read] at fails
          cases fails

/-- Whether the rounds of the call are apart, and whether it returns. -/
def clashRounds (swapInterval : Int) : Option (Bool × Bool) :=
  match (clashStart swapInterval).runFrom {} with
  | (.ok (q, s), world) =>
      some ((s.callStates 20 q world).all (fun r => decide (r.dataReads.length ≤ 1)),
        ((s.interleavedAccess 20 q).runFrom world).1.isOk)
  | (.error _, _) => none

/-- When no scan is due, the rounds of that access are apart. -/
theorem interleavedAccess_conserves_sample : ∃ q s world,
    (clashStart 2).runFrom {} = (.ok (q, s), world) ∧ s.ReadsApart 20 q world ∧
      ∃ result s' world', (s.interleavedAccess 20 q).runFrom world = (.ok (result, s'), world') ∧
        ∃ contents, s'.dataOram.Conserves contents := by
  have rounds : clashRounds 2 = some (true, true) := by decide +kernel
  unfold clashRounds at rounds
  rcases start : (clashStart 2).runFrom {} with ⟨_ | ⟨q, s⟩, world⟩
  · simp [start] at rounds
  · simp only [start, Option.some.injEq, Prod.mk.injEq, List.all_eq_true, decide_eq_true_eq] at rounds
    rcases rounds with ⟨apart, returns⟩
    have conserves := (yields_clashStart 2).returned start
    rcases call : (s.interleavedAccess 20 q).runFrom world with ⟨_ | ⟨result, s'⟩, world'⟩
    · rw [call] at returns
      cases returns
    · rcases (interleavedAccess_conserves conserves apart).2 result s' world' call with
        ⟨_, _, _, _, conserved⟩
      exact ⟨q, s, world, rfl, apart, result, s', world', call, _, conserved⟩

end Sample

end TieredOMap

end TieredOmap
