import TieredOMap.Tiered.Store
import TieredOMap.Tiered.WriteRounds

/-!
# What a write returns

A write that keeps epoch metadata or runs over a channel returns the value it
has written. A sequential write without maintenance returns the value that was
there before, since that is what the data ORAM returns.
-/

namespace TieredOmap

namespace TieredOMap

variable {Ω : Tier → Type} [Cipher] {s : TieredOMap Ω} {value : Bytes}

theorem yields_restamp (s : TieredOMap Ω) (ref value : Bytes) :
    Yields (s.restamp ref (some value)) (fun outcome => outcome.1.1 = value) := by
  refine Prog.ends_bind (yields_any _) ?_
  rintro ⟨raw, read⟩ _
  refine Prog.ends_bind (yields_any _) ?_
  rintro ⟨_, written⟩ _
  exact Prog.ends_pure rfl

omit [Cipher] in
theorem yields_withoutPiggyback {path : Rand (AccessResult × TieredOMap Ω)}
    (yields : Yields path (fun outcome => outcome.1.value = value)) :
    Yields (withoutPiggyback path) (fun outcome => outcome.1.value = value) := by
  refine Prog.ends_bind yields ?_
  rintro ⟨result, s⟩ valueEq
  exact Prog.ends_pure valueEq

variable [∀ tier, OmapInterface (Ω tier)]

theorem yields_accessPending (s : TieredOMap Ω) (value : Bytes) :
    Yields (s.accessPending (some value)) (fun outcome => outcome.1.value = value) := by
  refine Prog.ends_bind (s.yields_restamp _ value) ?_
  rintro ⟨⟨_, fp⟩, restamped⟩ rfl
  refine Prog.ends_bind (yields_any _) ?_
  intro hotDummied _
  refine Prog.ends_bind (yields_any _) ?_
  intro dummied _
  exact Prog.ends_pure rfl

theorem yields_accessCache (s : TieredOMap Ω) (key : Int) (value : Bytes) :
    Yields (s.accessCache key (some value)) (fun outcome => outcome.1.value = value) := by
  refine Prog.ends_bind (yields_restamp _ _ value) ?_
  rintro ⟨⟨_, fp⟩, restamped⟩ rfl
  refine Prog.ends_bind (yields_any _) ?_
  intro hotDummied _
  refine Prog.ends_bind (yields_any _) ?_
  intro dummied _
  exact Prog.ends_pure rfl

theorem yields_accessSequential (s : TieredOMap Ω) (key : Int) (value : Bytes) :
    Yields (s.accessSequential key (some value)) (fun outcome => outcome.1.value = value) := by
  refine Prog.ends_bind (yields_any _) ?_
  rintro ⟨ref, searched⟩ _
  refine Prog.ends_bind (searched.yields_restamp ref value) ?_
  rintro ⟨⟨_, fp⟩, restamped⟩ rfl
  refine Prog.ends_bind (yields_any _) ?_
  intro dummied _
  refine Prog.ends_bind (yields_any _) ?_
  intro promoted _
  exact Prog.ends_pure rfl

variable [∀ tier, LawfulOmap (Ω tier)]

/-- The map that is searched for a key holds the reference `ref` for it. -/
def Finds (s : TieredOMap Ω) (key : Int) (ref : Bytes) : Prop :=
  ∃ contents room, LawfulOmap.Rep (s.omap (if key ∈ s.physHotKeys then .hot else .cold))
    contents room ∧ valueOf (contents key) = ref

omit [Cipher] in
theorem finds_nextScanKey {key : Int} {ref : Bytes} (finds : s.Finds key ref) :
    s.nextScanKey.2.Finds key ref := by
  unfold nextScanKey
  split
  · exact finds
  · split <;> exact finds

omit [Cipher] in
theorem finds_piggybackQuery {key : Int} {ref : Bytes} (finds : s.Finds key ref)
    (newValue : Option Bytes) :
    (s.piggybackQuery key newValue).1.key = key ∧
      (s.piggybackQuery key newValue).1.newValue = newValue ∧
        (s.piggybackQuery key newValue).2.Finds key ref := by
  unfold piggybackQuery
  split
  · dsimp only
    split
    · exact ⟨rfl, rfl, finds_nextScanKey finds⟩
    · exact ⟨rfl, rfl, finds⟩
  · exact ⟨rfl, rfl, finds⟩

variable [∀ tier, LawfulSteps (Ω tier)]

/-- An interleaved write returns the written value. -/
theorem yields_interleavedAccess {q : Query} {ref : Bytes} (finds : s.Finds q.key ref)
    (found : refToBlk ref ≠ invalidBlock) (writes : q.newValue = some value) (fuel : Nat) :
    Yields (s.interleavedAccess fuel q) (fun outcome => outcome.1.value = value) := by
  rcases finds with ⟨contents, room, rep, rfl⟩
  refine Prog.ends_bind (Rounds.yields_begin_answering rep value) ?_
  intro r answering
  refine Prog.ends_bind (answering.yields_loop writes found fuel) ?_
  intro final valueEq
  exact Prog.ends_pure valueEq

theorem yields_accessInterleaved {key : Int} {ref : Bytes} (finds : s.Finds key ref)
    (found : refToBlk ref ≠ invalidBlock) (value : Bytes) (fuel : Nat) :
    Yields (s.accessInterleaved fuel key (some value)) (fun outcome =>
      outcome.1.value = value) := by
  unfold accessInterleaved
  dsimp only
  rcases finds_piggybackQuery finds (some value) with ⟨keyEq, writes, queryFinds⟩
  generalize s.piggybackQuery key (some value) = query at keyEq writes queryFinds ⊢
  rcases query with ⟨q, asked⟩
  dsimp only at keyEq writes queryFinds ⊢
  refine Prog.ends_bind (yields_interleavedAccess (keyEq ▸ queryFinds) found writes fuel) ?_
  rintro ⟨ir, accessed⟩ valueEq
  refine Prog.ends_bind (yields_any _) ?_
  intro demoted _
  refine Prog.ends_bind (yields_any _) ?_
  intro promoted _
  exact Prog.ends_pure valueEq

theorem yields_accessPlainInterleaved {key : Int} {ref : Bytes} (finds : s.Finds key ref)
    (found : refToBlk ref ≠ invalidBlock) (value : Bytes) (fuel : Nat) :
    Yields (s.accessPlainInterleaved fuel key (some value)) (fun outcome =>
      outcome.1.value = value) := by
  refine Prog.ends_bind (yields_interleavedAccess (q := {
    key, newValue := some value, usePartialDummy := s.config.mode == .tierMembership
    coldDummyPb := s.forceColdDummyPb }) finds found rfl fuel) ?_
  rintro ⟨ir, accessed⟩ valueEq
  exact Prog.ends_pure valueEq

/-! ## Serving states -/

variable {layout : Layout} {c : Client}

/-- The access runs sequentially and without maintenance. -/
def PlainSequential (s : TieredOMap Ω) : Prop := s.maint = none ∧ s.canInterleave = false

omit [∀ tier, LawfulSteps (Ω tier)] in
/-- A stored key is found where it is looked for, unless the client serves it. -/
theorem Serves.finds (serves : { s with channel := false }.Serves layout c) {key : Int}
    (keyStored : key ∈ layout.stored) (notPending : key ≠ s.pendingInsertKey)
    (notCached : key ∉ s.cacheKeys) : s.Finds key (layout.refs key) := by
  obtain ⟨records, clientEq⟩ : ∃ records, c = s.client records := ⟨_, serves.client.symm⟩
  subst clientEq
  refine ⟨_, _, serves.reps _, ?_⟩
  exact valueOf_refsOn (serves.shape.mem_target notPending notCached keyStored)

/-- A write with metadata or over a channel returns the written value. -/
theorem Serves.yields_access_written (serves : { s with channel := false }.Serves layout c)
    {key : Int} (keyStored : key ∈ layout.stored) (notPlain : ¬ s.PlainSequential)
    (value : Bytes) (fuel : Nat) :
    Yields (s.access fuel key (some value)) (fun outcome => outcome.1.value = value) := by
  have found : refToBlk (layout.refs key) ≠ invalidBlock := by
    have nonneg := layout.blk_nonneg key keyStored
    change refToBlk (layout.refs key) ≠ -1
    omega
  unfold access
  split
  · have path : Yields (accessPath fuel (s.withMgr MaintenanceManager.tick) key (some value))
        (fun outcome => outcome.1.value = value) := by
      unfold accessPath
      split
      · exact yields_withoutPiggyback (yields_accessPending _ value)
      · split
        · exact yields_withoutPiggyback (yields_accessCache _ key value)
        · rename_i notPending notCached
          split
          · exact yields_accessInterleaved (s := s.withMgr MaintenanceManager.tick)
              (serves.finds keyStored notPending notCached) found value fuel
          · exact yields_withoutPiggyback (yields_accessSequential _ key value)
    refine Prog.ends_bind path ?_
    rintro ⟨result, done, accessed⟩ valueEq
    refine Prog.ends_bind (yields_any _) ?_
    intro scanned _
    refine Prog.ends_bind (yields_any _) ?_
    intro maintained _
    exact Prog.ends_pure valueEq
  · rename_i disabled
    have noMaint : s.maint = none := by simpa using disabled
    have interleaves : s.canInterleave = true := by
      by_contra alone
      exact notPlain ⟨noMaint, by simpa using alone⟩
    have plain := serves.shape.plain ((congrArg Client.maint serves.client).symm.trans noMaint)
    have noPending : s.pendingInsertKey = invalidKey :=
      (congrArg Client.pendingInsertKey serves.client).trans plain.2
    have noCache : s.cacheKeys = ∅ := (congrArg Client.cacheKeys serves.client).trans plain.1
    unfold accessPlain
    rw [if_pos interleaves]
    refine yields_accessPlainInterleaved (serves.finds keyStored ?_ ?_) found value fuel
    · rw [noPending]
      exact layout.valid key keyStored
    · rw [noCache]
      exact Finset.notMem_empty key

omit [∀ tier, OmapInterface (Ω tier)] [∀ tier, LawfulOmap (Ω tier)]
  [∀ tier, LawfulSteps (Ω tier)] in
/-- The data ORAM returns the record that a reference leads to. -/
theorem ends_dataAccess_record {records : Int → Bytes}
    (data : DataHolds layout records s.dataOram) {key : Int} (keyStored : key ∈ layout.stored)
    (newValue : Option Bytes) :
    Ends (s.dataAccess (refToBlk (layout.refs key)) newValue) (fun outcome =>
      outcome.1 = records key) := by
  rcases data with ⟨contents, isArray, holdsRecord⟩
  unfold dataAccess
  rw [if_neg (by have nonneg := layout.blk_nonneg key keyStored; omega)]
  refine Prog.ends_bind (isArray.ends_access (holdsRecord key keyStored) newValue) ?_
  rintro ⟨value, dataOram⟩ ⟨valueEq, _⟩
  exact Prog.ends_pure valueEq

omit [∀ tier, LawfulSteps (Ω tier)] in
/-- Searching the tier of a stored key finds its reference. -/
theorem Serves.yields_searchTier {s' : TieredOMap Ω}
    (serves : { s with channel := false }.Serves layout c) {tier : Tier}
    (same : s'.omap tier = s.omap tier) {key : Int} (keyMem : key ∈ c.tierKeys layout tier) :
    Yields (s'.searchTier tier key) (fun outcome => outcome.1 = layout.refs key ∧
      outcome.2.dataOram = s'.dataOram) := by
  have rep : LawfulOmap.Rep (s'.omap tier) (refsOn layout.refs (c.tierKeys layout tier))
      (layout.room tier) := by
    rw [same]
    exact serves.reps tier
  refine Prog.ends_bind (yields_of_ends (LawfulOmap.ends_search _ _ _ key rep)) ?_
  rintro ⟨ref, omap⟩ ⟨refEq, _⟩
  refine Prog.ends_pure ⟨refEq.trans (valueOf_refsOn keyMem), ?_⟩
  cases tier <;> rfl

omit [∀ tier, LawfulSteps (Ω tier)] in
/-- A sequential write without maintenance returns the previous record. -/
theorem Serves.yields_accessPlainSequential_write
    (serves : { s with channel := false }.Serves layout c) (disabled : s.maint = none) {key : Int}
    (keyStored : key ∈ layout.stored) (newValue : Option Bytes) :
    Yields (s.accessPlainSequential key newValue) (fun outcome => outcome.1 = c.records key) := by
  have plain := serves.shape.plain ((congrArg Client.maint serves.client).symm.trans disabled)
  have physEq : s.physHotKeys = c.physHotKeys := congrArg Client.physHotKeys serves.client
  have keyMem : key ∈ c.tierKeys layout (if key ∈ c.physHotKeys then .hot else .cold) := by
    refine serves.shape.mem_target ?_ (by simp [plain.1]) keyStored
    rw [plain.2]
    exact layout.valid key keyStored
  unfold accessPlainSequential
  rw [physEq]
  split
  · rename_i phys
    rw [if_pos phys] at keyMem
    refine Prog.ends_bind (serves.yields_searchTier rfl keyMem) ?_
    rintro ⟨_, searched⟩ ⟨rfl, sameData⟩
    have data : DataHolds layout c.records searched.dataOram := by
      rw [sameData]
      exact serves.data
    refine Prog.ends_bind (yields_of_ends (ends_dataAccess_record data keyStored newValue)) ?_
    rintro ⟨_, read⟩ rfl
    refine Prog.ends_bind (yields_any _) ?_
    intro dummied _
    refine Prog.ends_bind (yields_any _) ?_
    intro final _
    exact Prog.ends_pure rfl
  · rename_i notPhys
    rw [if_neg notPhys] at keyMem
    refine Prog.ends_bind (Q := fun s' => s'.omap .cold = s.omap .cold ∧
      s'.dataOram = s.dataOram) ?_ ?_
    · refine Prog.ends_bind (yields_any _) ?_
      intro omap _
      exact Prog.ends_pure ⟨rfl, rfl⟩
    rintro dummied ⟨sameCold, sameData⟩
    refine Prog.ends_bind (serves.yields_searchTier sameCold keyMem) ?_
    rintro ⟨_, searched⟩ ⟨rfl, searchedData⟩
    have data : DataHolds layout c.records searched.dataOram := by
      rw [searchedData, sameData]
      exact serves.data
    refine Prog.ends_bind (Q := fun s' => DataHolds layout c.records s'.dataOram) ?_ ?_
    · refine yields_doWhen (fun _ => ?_) (fun _ => data)
      rcases data with ⟨contents, isArray, holdsRecord⟩
      refine Prog.ends_bind (yields_of_ends isArray.ends_dummyAccess) ?_
      intro dataOram isArray'
      exact Prog.ends_pure ⟨contents, isArray', holdsRecord⟩
    intro padded paddedData
    exact yields_of_ends (ends_dataAccess_record paddedData keyStored newValue)

omit [∀ tier, LawfulSteps (Ω tier)] in
/-- A write without metadata and without a channel returns the previous value. -/
theorem Serves.yields_access_previous (serves : { s with channel := false }.Serves layout c)
    (plain : s.PlainSequential) {key : Int} (keyStored : key ∈ layout.stored)
    (newValue : Option Bytes) (fuel : Nat) :
    Yields (s.access fuel key newValue) (fun outcome => outcome.1.value = c.valueOf key) := by
  rcases plain with ⟨disabled, alone⟩
  have noMaint : c.maint = none := (congrArg Client.maint serves.client).symm.trans disabled
  have recordEq : c.valueOf key = c.records key := by simp [Client.valueOf, noMaint]
  unfold access accessPlain
  rw [if_neg (by simp [disabled]), if_neg (by simp [alone]), recordEq]
  refine Prog.ends_bind (serves.yields_accessPlainSequential_write disabled keyStored newValue) ?_
  rintro ⟨_, accessed⟩ rfl
  exact Prog.ends_pure rfl

variable {Ω' : Tier → Type} [∀ tier, OmapInterface (Ω' tier)] [∀ tier, LawfulOmap (Ω' tier)]
  [∀ tier, LawfulSteps (Ω' tier)]

end TieredOMap

namespace TieredOMap

section Sample

attribute [local instance] clearCipher

/-- Both tiers are reference maps with a step machine. -/
abbrev SteppedTiers : Tier → Type := fun _ => SteppedMap

/-- Initialise the sample records and write to one key. -/
def sampleWrite (config : TieredOMapConfig) (key : Int) (value : Bytes) :
    Rand (TieredOMap SteppedTiers × (AccessResult × TieredOMap SteppedTiers)) := do
  let s ← TieredOMap.init (Ω := SteppedTiers) config sampleData.records sampleData.hotKeys
  let outcome ← s.access 0 key (some value)
  return (s, outcome)

/-- The value that the write returns. -/
def sampleResult (config : TieredOMapConfig) (key : Int) (value : Bytes) : Option Bytes :=
  match (sampleWrite config key value).runFrom {} with
  | (.ok (_, outcome), _) => some outcome.1.value
  | (.error _, _) => none

/-- The state that is written to serves the sample records. -/
theorem sampleWrite_returns {config : TieredOMapConfig} {key : Int} {value result : Bytes}
    (returns : sampleResult config key value = some result) :
    ∃ (s : TieredOMap SteppedTiers) (outcome : AccessResult × TieredOMap SteppedTiers)
      (world final : World),
      s.Serves (sampleData.layout config) (Client.start sampleData config) ∧
      (s.access 0 key (some value)).runFrom world = (.ok outcome, final) ∧
      outcome.1.value = result := by
  unfold sampleResult at returns
  rcases run : (sampleWrite config key value).runFrom {} with ⟨_ | ⟨s, outcome⟩, final⟩
  · simp [run] at returns
  · simp only [run, Option.some.injEq] at returns
    rcases Prog.runs_of_bind run with ⟨s', world, initialised, rest⟩
    rcases Prog.runs_of_bind rest with ⟨outcome', final', accessed, done⟩
    cases done
    exact ⟨s, outcome, world, final, (ends_init sampleData config).returned initialised, accessed,
      returns⟩

end Sample

end TieredOMap

end TieredOmap
