import TieredOMap.Tee.DirectoryIndex
import TieredOMap.Tee.TeeRuns

/-!
# The tiered map of the enclave demotes cold keys

A slot of the directory counts the accesses to its key lazily: the counter starts over at the
first access of a new epoch, and whenever the key leaves the directory. The history of a run
says how often a key was really accessed while hot. Epoch `0` is also what a slot that was
never accessed has, so the staleness test takes keys that are hot in the first epoch.
-/

namespace TieredOmap

/-! ## Slots -/

namespace DirEntry

/-- What a slot says about an epoch: its counter, if it is not from an earlier one. -/
def countIn (entry : DirEntry) (epoch : Int) : Int :=
  if epoch ≤ entry.freqEpoch then entry.freqCount else 0

theorem countIn_nonneg {entry : DirEntry} (counts : 0 ≤ entry.freqCount) (epoch : Int) :
    0 ≤ entry.countIn epoch := by
  unfold countIn
  split <;> omega

theorem countIn_le {entry : DirEntry} (counts : 0 ≤ entry.freqCount) (epoch : Int) :
    entry.countIn epoch ≤ entry.freqCount := by
  unfold countIn
  split <;> omega

theorem countIn_of_older {entry : DirEntry} {epoch : Int} (older : entry.freqEpoch < epoch) :
    entry.countIn epoch = 0 :=
  if_neg (by omega)

/-- A slot says less about a later epoch. -/
theorem countIn_antitone {entry : DirEntry} (counts : 0 ≤ entry.freqCount) {early late : Int}
    (order : early ≤ late) : entry.countIn late ≤ entry.countIn early := by
  unfold countIn
  split <;> split <;> omega

end DirEntry

namespace PackedDirectory

variable {dir : PackedDirectory} {key epoch : Int}

theorem bumpSlot_of_ne {entry : DirEntry} (other : entry.key ≠ key) :
    bumpSlot key epoch entry = entry := by
  simp [bumpSlot, other]

@[simp]
theorem bumpSlot_key (entry : DirEntry) : (bumpSlot key epoch entry).key = entry.key := rfl

/-- The slot of an accessed key: an old counter starts over, a recent one goes up. -/
theorem bumpSlot_of_eq {entry : DirEntry} (same : entry.key = key)
    (lower : -2 ^ 31 ≤ entry.freqEpoch - epoch) (upper : entry.freqEpoch - epoch < 2 ^ 31) :
    bumpSlot key epoch entry =
      if entry.freqEpoch < epoch then { entry with freqEpoch := epoch, freqCount := 1 }
      else { entry with freqCount := entry.freqCount + 1 } := by
  by_cases older : entry.freqEpoch < epoch <;>
    simp [bumpSlot, same, oLess_eq lower upper, older, oMov]

/-- A counter goes up by one at most. -/
theorem freqCount_bumpSlot {entry : DirEntry} (counts : 0 ≤ entry.freqCount) :
    0 ≤ (bumpSlot key epoch entry).freqCount ∧
      (bumpSlot key epoch entry).freqCount ≤ entry.freqCount + 1 := by
  by_cases same : entry.key = key
  · cases stale : oLess entry.freqEpoch epoch with
    | true =>
        have restarted : (bumpSlot key epoch entry).freqCount = 1 := by
          simp [bumpSlot, same, stale]
        omega
    | false =>
        have bumped : (bumpSlot key epoch entry).freqCount = entry.freqCount + 1 := by
          simp [bumpSlot, same, stale]
        omega
  · rw [bumpSlot_of_ne same]
    omega

theorem freqEpoch_bumpSlot (entry : DirEntry) :
    (bumpSlot key epoch entry).freqEpoch = entry.freqEpoch ∨
      (bumpSlot key epoch entry).freqEpoch = epoch := by
  unfold bumpSlot oMov
  dsimp only
  split
  · exact Or.inr rfl
  · exact Or.inl rfl

/-- An access is counted in the epoch it is made in. -/
theorem countIn_bumpSlot {entry : DirEntry} (same : entry.key = key)
    (lower : -2 ^ 31 ≤ entry.freqEpoch - epoch) (upper : entry.freqEpoch - epoch < 2 ^ 31) :
    (bumpSlot key epoch entry).countIn epoch = entry.countIn epoch + 1 := by
  rw [bumpSlot_of_eq same lower upper]
  unfold DirEntry.countIn
  split <;> split <;> dsimp only at * <;> omega

/-- A slot after an insertion is an old one, or an empty one that has got the key. -/
theorem mem_insertSlot {real inserted : Bool} {posLabel : Int} {entries : List DirEntry}
    {entry : DirEntry} (mem : entry ∈ (insertSlot real key posLabel entries inserted).1) :
    ∃ old ∈ entries, entry.freqCount = old.freqCount ∧ entry.freqEpoch = old.freqEpoch ∧
      (entry.key = old.key ∨ entry.key = key) := by
  induction entries generalizing inserted with
  | nil => cases mem
  | cons head rest ih =>
      rcases List.mem_cons.mp mem with here | later
      · refine ⟨head, List.mem_cons_self, ?_⟩
        subst here
        refine ⟨rfl, rfl, ?_⟩
        unfold oMov
        dsimp only
        split
        · exact Or.inr rfl
        · exact Or.inl rfl
      · rcases ih later with ⟨old, oldMem, oldSlot⟩
        exact ⟨old, List.mem_cons_of_mem _ oldMem, oldSlot⟩

theorem mem_insert {posLabel : Int} {entry : DirEntry}
    (mem : entry ∈ (dir.insert key posLabel).entries) :
    ∃ old ∈ dir.entries, entry.freqCount = old.freqCount ∧ entry.freqEpoch = old.freqEpoch ∧
      (entry.key = old.key ∨ entry.key = key) :=
  mem_insertSlot mem

/-- A slot after a removal is an old one or has been cleared. -/
theorem mem_remove {entry : DirEntry} (mem : entry ∈ (dir.remove key).entries) :
    entry ∈ dir.entries ∨
      entry.key = invalidKey ∧ entry.freqCount = 0 ∧ entry.freqEpoch = 0 := by
  rcases List.mem_map.mp mem with ⟨old, oldMem, rfl⟩
  unfold clearSlot oMov
  dsimp only
  split
  · exact Or.inr ⟨rfl, rfl, rfl⟩
  · exact Or.inl oldMem

/-- The slots are the old ones, whatever their leaves. -/
def SameCounts (before after : PackedDirectory) : Prop :=
  ∀ entry ∈ after.entries, ∃ old ∈ before.entries, entry.key = old.key ∧
    entry.freqCount = old.freqCount ∧ entry.freqEpoch = old.freqEpoch

theorem SameCounts.refl (dir : PackedDirectory) : SameCounts dir dir :=
  fun entry mem => ⟨entry, mem, rfl, rfl, rfl⟩

theorem sameCounts_updatePos (newPos : Int) : SameCounts dir (dir.updatePos key newPos) := by
  intro entry mem
  rcases List.mem_map.mp mem with ⟨old, oldMem, rfl⟩
  exact ⟨old, oldMem, rfl, rfl, rfl⟩

theorem mem_bumpFreq {entry : DirEntry} (mem : entry ∈ (dir.bumpFreq key epoch).entries) :
    ∃ old ∈ dir.entries, entry = bumpSlot key epoch old := by
  rcases List.mem_map.mp mem with ⟨old, oldMem, rfl⟩
  exact ⟨old, oldMem, rfl⟩

end PackedDirectory

namespace TeeOmap

/-! ## What an access does to the directory -/

variable {Ω : Type} {s : TeeOmap Ω}

/-- Everything but the tiers and the directory is as before. -/
structure SameClock (before after : TeeOmap Ω) : Prop where
  config : after.config = before.config
  counter : after.accessCounter = before.accessCounter
  epoch : after.currentEpoch = before.currentEpoch

theorem returns_accessHotOram (key : Int) (newValue : Option Bytes) (hotHit : Bool)
    (oldPos : Int) :
    Returns (s.accessHotOram key newValue hotHit oldPos) (fun result =>
      SameClock s result.2 ∧ PackedDirectory.SameCounts s.hotDir result.2.hotDir) := by
  unfold accessHotOram
  refine Prog.ends_bind (returns_any _) (fun newHotLeaf _ => ?_)
  refine Prog.ends_bind (returns_any _) (fun dummyLeaf _ => ?_)
  refine Prog.ends_bind (returns_any _) (fun hotOram _ => ?_)
  refine Prog.ends_bind (returns_any _) (fun evicted _ => ?_)
  exact Prog.ends_pure ⟨⟨rfl, rfl, rfl⟩, PackedDirectory.sameCounts_updatePos _⟩

/-- Phase 1 counts the access in the directory. -/
theorem returns_accessHot (maintained : s.config.maintenance.enabled = true) (key : Int)
    (newValue : Option Bytes) :
    Returns (s.accessHot key newValue) (fun result => SameClock s result.2 ∧
      ∃ dir, PackedDirectory.SameCounts s.hotDir dir ∧
        result.2.hotDir = dir.bumpFreq key s.currentEpoch) := by
  unfold accessHot
  have touched : Returns (if (s.config.isTm && !!oEqual (s.hotDir.lookup key) invalidLeaf) = true
      then pure (s.config.zeros, s)
      else s.accessHotOram key newValue (!oEqual (s.hotDir.lookup key) invalidLeaf)
        (s.hotDir.lookup key)) (fun result =>
      SameClock s result.2 ∧ PackedDirectory.SameCounts s.hotDir result.2.hotDir) := by
    split
    · exact Prog.ends_pure ⟨⟨rfl, rfl, rfl⟩, PackedDirectory.SameCounts.refl _⟩
    · exact returns_accessHotOram key newValue _ _
  refine Prog.ends_bind touched (fun result frame => ?_)
  rcases frame with ⟨clock, counts⟩
  refine Prog.ends_pure ⟨⟨clock.config, clock.counter, clock.epoch⟩, _, counts, ?_⟩
  simp only [clock.config, clock.epoch, maintained, if_true]

/-! ## What the slots know -/

/-- How often the key was accessed in the epoch while it was hot. -/
def hotAccesses (history : List Served) (key epoch : Int) : Nat :=
  history.countP (fun served => served.key = key ∧ served.wasHot = true ∧ served.epoch = epoch)

/-- The slot passes the test of `find_demote_candidate`. -/
def Demotable (s : TeeOmap Ω) (entry : DirEntry) : Prop :=
  PackedDirectory.shouldDemote s.currentEpoch s.config.maintenance.stalenessWindows
    s.config.maintenance.demoteThreshold entry = true

/-- No slot is hot in epoch `0` with the `freq_epoch` of a slot that was never accessed, and
if the threshold lets no key be demoted, none passes the test. -/
structure ZeroIsNever (s : TeeOmap Ω) : Prop where
  unused : s.currentEpoch ≤ 0 → ∀ entry ∈ s.hotDir.entries, entry.key ≠ invalidKey →
    entry.freqEpoch = 0 → entry.freqCount < s.config.maintenance.demoteThreshold
  threshold : 1 ≤ s.config.maintenance.demoteThreshold ∨
    ∀ entry ∈ s.hotDir.entries, ¬ s.Demotable entry

/-- The key that is promoted starts with a fresh counter rightly. -/
def StartsOver (history : List Served) (s : TeeOmap Ω) : Prop :=
  s.promoteCandidate ≠ invalidKey → hotAccesses history s.promoteCandidate s.epoch = 0

/-- What a run promises before a key is demoted, and before one is promoted. -/
def Unambiguous : Stage → List Served → TeeOmap Ω → Prop
  | .idle, _, _ => True
  | .demoting, _, s => s.ZeroIsNever
  | .promoting, history, s => StartsOver history s

/-- What a slot knows about its key: no less than the history, in the current epoch. -/
structure SlotTracked (history : List Served) (s : TeeOmap Ω) (entry : DirEntry) : Prop where
  counted : 0 ≤ entry.freqCount ∧ entry.freqCount ≤ s.accessCounter
  dated : 0 ≤ entry.freqEpoch ∧ entry.freqEpoch ≤ max 1 s.currentEpoch
  tracked : entry.key ≠ invalidKey →
    hotAccesses history entry.key s.epoch ≤ entry.countIn s.currentEpoch

/-- The invariant of the runs. -/
structure Tracked (config : TeeOmapConfig) (history : List Served) (s : TeeOmap Ω) : Prop where
  config : s.config = config
  counter : 0 ≤ s.accessCounter ∧ s.accessCounter < 2 ^ 31
  clock : s.currentEpoch = s.epoch ∨
    history = [] ∧ s.currentEpoch = 1 ∧ s.accessCounter = 0
  past : ∀ served ∈ history, served.epoch ≤ s.epoch
  slots : ∀ entry ∈ s.hotDir.entries, SlotTracked history s entry

section Steps

variable {config : TeeOmapConfig} {history : List Served} {s' : TeeOmap Ω} {entry : DirEntry}

/-- Only an access of the key in the epoch adds to its number. -/
theorem hotAccesses_append (history : List Served) (served : Served) (key epoch : Int) :
    hotAccesses (history ++ [served]) key epoch ≤
      hotAccesses history key epoch + if served.key = key then 1 else 0 := by
  unfold hotAccesses
  rw [List.countP_append, List.countP_singleton]
  by_cases same : served.key = key
  · rw [if_pos same]
    split <;> omega
  · simp [same]

/-- Nothing was accessed in an epoch that is still to come. -/
theorem hotAccesses_later {key epoch : Int} (earlier : ∀ served ∈ history, served.epoch < epoch) :
    hotAccesses history key epoch = 0 := by
  refine List.countP_eq_zero.mpr (fun served mem => ?_)
  have := earlier served mem
  simp only [decide_eq_true_eq]
  omega

/-- A slot says the same under another leaf. -/
theorem SlotTracked.of_same {old : DirEntry} (tracked : SlotTracked history s old)
    (sameKey : entry.key = old.key) (sameCount : entry.freqCount = old.freqCount)
    (sameEpoch : entry.freqEpoch = old.freqEpoch) : SlotTracked history s entry := by
  refine ⟨by rw [sameCount]; exact tracked.counted, by rw [sameEpoch]; exact tracked.dated, ?_⟩
  unfold DirEntry.countIn
  rw [sameKey, sameCount, sameEpoch]
  exact tracked.tracked

/-- An epoch is not above the counter, and the next access is not in an earlier one. -/
theorem epoch_bounds {window counter : Int} (positive : 1 ≤ window) (counts : 0 ≤ counter) :
    0 ≤ counter.tdiv window ∧ counter.tdiv window ≤ counter ∧
      counter.tdiv window ≤ (counter + 1).tdiv window := by
  rw [Int.tdiv_eq_ediv_of_nonneg counts, Int.tdiv_eq_ediv_of_nonneg (by omega)]
  refine ⟨Int.ediv_nonneg counts (by omega), Int.ediv_le_self window counts, ?_⟩
  exact Int.ediv_le_ediv (by omega) (by omega)

/-- The clock before an access: the epoch it counts in is not below the real one. -/
theorem Tracked.clock_bounds (tracked : Tracked config history s)
    (positive : 1 ≤ config.maintenance.observationWindow) :
    0 ≤ s.epoch ∧ s.epoch ≤ s.currentEpoch ∧ s.currentEpoch < 2 ^ 31 ∧
      s.currentEpoch ≤ max 1 s.epoch := by
  rcases tracked.counter with ⟨nonneg, fits⟩
  have bounds := epoch_bounds (tracked.config ▸ positive) nonneg
  unfold epoch
  rcases tracked.clock with now | ⟨-, first, zero⟩
  · unfold epoch at now
    omega
  · rw [zero, first, Int.zero_tdiv]
    omega

/-- A slot after an access counts at least what the history does. -/
theorem SlotTracked.serve {key : Int} {newValue : Option Bytes} {wasHot : Bool} (tracked : Tracked config history s)
    (positive : 1 ≤ config.maintenance.observationWindow) (slot : SlotTracked history s entry)
    (sameConfig : s'.config = s.config) (counter : s'.accessCounter = s.accessCounter + 1)
    (clock : s'.currentEpoch = s'.epoch) :
    SlotTracked (history ++ [⟨key, newValue, wasHot, s.epoch⟩]) s'
      (PackedDirectory.bumpSlot key s.currentEpoch entry) := by
  have now := tracked.clock_bounds positive
  have order : s.epoch ≤ s'.epoch := by
    unfold epoch
    rw [sameConfig, counter]
    exact (epoch_bounds (tracked.config ▸ positive) tracked.counter.1).2.2
  rcases slot with ⟨counted, dated, known⟩
  have counts := @PackedDirectory.freqCount_bumpSlot key s.currentEpoch entry counted.1
  refine ⟨by omega, ?_, fun real => ?_⟩
  · rcases @PackedDirectory.freqEpoch_bumpSlot key s.currentEpoch entry with same | bumped
    · omega
    · omega
  · rw [PackedDirectory.bumpSlot_key] at real ⊢
    rcases Int.lt_or_eq_of_le order with later | sameEpoch
    · have none : hotAccesses (history ++ [⟨key, newValue, wasHot, s.epoch⟩]) entry.key s'.epoch = 0 := by
        refine hotAccesses_later (fun served mem => ?_)
        rcases List.mem_append.mp mem with old | new
        · exact lt_of_le_of_lt (tracked.past served old) later
        · rw [List.mem_singleton.mp new]
          exact later
      rw [none]
      exact DirEntry.countIn_nonneg counts.1 _
    · have added := hotAccesses_append history ⟨key, newValue, wasHot, s.epoch⟩ entry.key s'.epoch
      have before := known real
      rw [← sameEpoch] at added ⊢
      have later := DirEntry.countIn_antitone counts.1
        (show s'.currentEpoch ≤ s.currentEpoch by omega)
      by_cases same : entry.key = key
      · have bumped := PackedDirectory.countIn_bumpSlot same
          (show -2 ^ 31 ≤ entry.freqEpoch - s.currentEpoch by omega) (by omega)
        rw [if_pos same.symm] at added
        omega
      · rw [if_neg (fun eq => same eq.symm)] at added
        rw [PackedDirectory.bumpSlot_of_ne same] at later ⊢
        omega

theorem SlotTracked.of_clock (slot : SlotTracked history s entry) (clock : SameClock s s') :
    SlotTracked history s' entry := by
  have sameEpoch : s'.epoch = s.epoch := by
    unfold epoch
    rw [clock.counter, clock.config]
  refine ⟨by rw [clock.counter]; exact slot.counted, by rw [clock.epoch]; exact slot.dated, ?_⟩
  rw [clock.epoch, sameEpoch]
  exact slot.tracked

/-- A step that leaves the clock alone keeps the invariant if it keeps the slots. -/
theorem Tracked.of_clock (tracked : Tracked config history s) (clock : SameClock s s')
    (slots : ∀ entry ∈ s'.hotDir.entries, SlotTracked history s entry) :
    Tracked config history s' := by
  have sameEpoch : s'.epoch = s.epoch := by
    unfold epoch
    rw [clock.counter, clock.config]
  refine ⟨clock.config.trans tracked.config, by rw [clock.counter]; exact tracked.counter, ?_, ?_,
    fun entry mem => (slots entry mem).of_clock clock⟩
  · rw [clock.epoch, clock.counter, sameEpoch]
    exact tracked.clock
  · rw [sameEpoch]
    exact tracked.past

/-- A slot that has never been used, or that has been cleared. -/
theorem SlotTracked.of_cleared (tracked : Tracked config history s)
    (positive : 1 ≤ config.maintenance.observationWindow) (count : entry.freqCount = 0)
    (dated : entry.freqEpoch = 0)
    (unseen : entry.key ≠ invalidKey → hotAccesses history entry.key s.epoch = 0) :
    SlotTracked history s entry := by
  have now := tracked.clock_bounds positive
  refine ⟨by have := tracked.counter; omega, by omega, fun real => ?_⟩
  rw [unseen real]
  exact DirEntry.countIn_nonneg (by omega) _

theorem Tracked.demoted (tracked : Tracked config history s)
    (positive : 1 ≤ config.maintenance.observationWindow) (clock : SameClock s s')
    (removed : s'.hotDir = s.hotDir.remove s.demoteCandidate) : Tracked config history s' := by
  refine tracked.of_clock clock (fun entry mem => ?_)
  rw [removed] at mem
  rcases PackedDirectory.mem_remove mem with old | ⟨noKey, count, dated⟩
  · exact tracked.slots entry old
  · exact .of_cleared tracked positive count dated (fun real => absurd noKey real)

/-- An insertion keeps a slot if the key's history is empty. -/
theorem SlotTracked.insert {dir : PackedDirectory} {key posLabel : Int}
    (slots : ∀ entry ∈ dir.entries, SlotTracked history s entry)
    (fresh : key ≠ invalidKey → hotAccesses history key s.epoch = 0)
    (mem : entry ∈ (dir.insert key posLabel).entries) : SlotTracked history s entry := by
  rcases PackedDirectory.mem_insert mem with ⟨old, oldMem, sameCount, sameEpoch, key | key⟩
  · exact (slots old oldMem).of_same key sameCount sameEpoch
  · have slot := slots old oldMem
    refine ⟨by rw [sameCount]; exact slot.counted, by rw [sameEpoch]; exact slot.dated, ?_⟩
    intro real
    rw [key] at real ⊢
    rw [fresh real]
    exact DirEntry.countIn_nonneg (by rw [sameCount]; exact slot.counted.1) _

theorem Tracked.promoted (tracked : Tracked config history s) (clock : SameClock s s')
    {posLabel : Int} (inserted : s'.hotDir = s.hotDir.insert s.promoteCandidate posLabel)
    (fresh : StartsOver history s) : Tracked config history s' := by
  refine tracked.of_clock clock (fun entry mem => ?_)
  rw [inserted] at mem
  exact SlotTracked.insert tracked.slots fresh mem

theorem Tracked.serve {key : Int} {newValue : Option Bytes} {wasHot : Bool} {dir : PackedDirectory}
    (tracked : Tracked config history s)
    (positive : 1 ≤ config.maintenance.observationWindow) (counts : s.accessCounter + 1 < 2 ^ 31)
    (sameConfig : s'.config = s.config) (counter : s'.accessCounter = s.accessCounter + 1)
    (clock : s'.currentEpoch = s'.epoch) (same : PackedDirectory.SameCounts s.hotDir dir)
    (bumped : s'.hotDir = dir.bumpFreq key s.currentEpoch) :
    Tracked config (history ++ [⟨key, newValue, wasHot, s.epoch⟩]) s' := by
  have order : s.epoch ≤ s'.epoch := by
    unfold epoch
    rw [sameConfig, counter]
    exact (epoch_bounds (tracked.config ▸ positive) tracked.counter.1).2.2
  refine ⟨sameConfig.trans tracked.config, ?_, Or.inl clock, ?_, ?_⟩
  · have := tracked.counter
    omega
  · intro served mem
    rcases List.mem_append.mp mem with old | new
    · exact (tracked.past served old).trans order
    · rw [List.mem_singleton.mp new]
      exact order
  · intro entry mem
    rw [bumped] at mem
    rcases PackedDirectory.mem_bumpFreq mem with ⟨moved, movedMem, rfl⟩
    rcases same moved movedMem with ⟨old, oldMem, sameKey, sameCount, sameEpoch⟩
    have slot := (tracked.slots old oldMem).of_same sameKey sameCount sameEpoch
    exact slot.serve tracked positive sameConfig counter clock

/-- Before the first access every slot is empty. -/
theorem tracked_fresh {capacity : Nat} (sameConfig : s.config = config)
    (counter : s.accessCounter = 0) (clock : s.currentEpoch = 1)
    (fresh : s.hotDir = PackedDirectory.new capacity) : Tracked config [] s := by
  refine ⟨sameConfig, by omega, Or.inr ⟨rfl, clock, counter⟩, ?_, fun entry mem => ?_⟩
  · intro served mem
    cases mem
  · rw [fresh] at mem
    rw [List.eq_of_mem_replicate mem]
    have later : (0 : Int) ≤ max 1 s.currentEpoch := le_max_of_le_left (by decide)
    exact ⟨⟨le_rfl, counter.ge⟩, ⟨le_rfl, later⟩, fun real => absurd rfl real⟩

/-- A slot that passes the test has a counter below the threshold or from an earlier epoch. -/
theorem SlotTracked.below {threshold windows : Int} (slot : SlotTracked history s entry)
    (counter : s.accessCounter < 2 ^ 31) (clock : 0 ≤ s.currentEpoch)
    (clockBelow : s.currentEpoch < 2 ^ 31)
    (windowsPositive : 1 ≤ windows) (windowsInt : windows < 2 ^ 31)
    (positive : 1 ≤ threshold) (thresholdInt : threshold < 2 ^ 31)
    (unused : s.currentEpoch ≤ 0 → entry.freqEpoch = 0 → entry.freqCount < threshold)
    (taken : PackedDirectory.shouldDemote s.currentEpoch windows threshold entry = true) :
    entry.countIn s.currentEpoch < threshold := by
  rcases slot with ⟨counted, dated, -⟩
  have recent := DirEntry.countIn_le counted.1 s.currentEpoch
  unfold PackedDirectory.shouldDemote at taken
  rw [oLess_eq (by omega) (by omega), oLess_eq (by omega) (by omega)] at taken
  simp only [oEqual_eq, Bool.or_eq_true, Bool.and_eq_true, Bool.not_eq_true', decide_eq_true_eq,
    decide_eq_false_iff_not] at taken
  rcases taken with ⟨-, old | never⟩ | ⟨-, cold⟩
  · rw [DirEntry.countIn_of_older (by omega)]
    omega
  · by_cases first : s.currentEpoch ≤ 0
    · have := unused first never
      omega
    · rw [DirEntry.countIn_of_older (by omega)]
      omega
  · omega

end Steps

/-! ## Runs -/

variable [ColdMap Ω]

theorem returns_accessCold (key : Int) (newValue : Option Bytes) (coldReal : Bool) :
    Returns (s.accessCold key newValue coldReal) (fun result =>
      SameClock s result.2 ∧ result.2.hotDir = s.hotDir) := by
  unfold accessCold
  refine Prog.ends_bind (returns_any _) (fun found _ => ?_)
  exact Prog.ends_pure ⟨⟨rfl, rfl, rfl⟩, rfl⟩

/-- An access up to its maintenance step counts in the directory and moves the clock on. -/
theorem returns_serve (maintained : s.config.maintenance.enabled = true) (key : Int)
    (newValue : Option Bytes) :
    Returns (s.serve key newValue) (fun result => result.2.config = s.config ∧
      result.2.accessCounter = s.accessCounter + 1 ∧
      result.2.currentEpoch = (s.accessCounter + 1).tdiv s.config.maintenance.observationWindow ∧
      ∃ dir, PackedDirectory.SameCounts s.hotDir dir ∧
        result.2.hotDir = dir.bumpFreq key s.currentEpoch) := by
  unfold serve
  refine Prog.ends_bind (returns_accessHot maintained key newValue) (fun first hot => ?_)
  rcases first with ⟨early, mid⟩
  rcases hot with ⟨hotClock, hotDir⟩
  dsimp only at hotClock hotDir ⊢
  have cold : Returns (if (mid.config.isTm && early.found) = true
      then pure (List.replicate mid.config.storedValueSize 0, mid)
      else mid.accessCold key newValue (!early.found)) (fun result =>
      SameClock mid result.2 ∧ result.2.hotDir = mid.hotDir) := by
    split
    · exact Prog.ends_pure ⟨⟨rfl, rfl, rfl⟩, rfl⟩
    · exact returns_accessCold key newValue _
  refine Prog.ends_bind cold (fun second frame => ?_)
  rcases second with ⟨coldStored, last⟩
  rcases frame with ⟨coldClock, coldDir⟩
  dsimp only at coldClock coldDir ⊢
  have config : last.config = s.config := coldClock.config.trans hotClock.config
  have counter : last.accessCounter = s.accessCounter := coldClock.counter.trans hotClock.counter
  have stillMaintained : last.config.maintenance.enabled = true := by rw [config, maintained]
  refine Prog.ends_pure ?_
  rw [if_pos stillMaintained]
  refine ⟨config, ?_, ?_, ?_⟩
  · exact congrArg (· + 1) counter
  · simp only [tick, notePromotion, counter, config]
  · rcases hotDir with ⟨dir, counts, bumped⟩
    exact ⟨dir, counts, coldDir.trans bumped⟩

theorem returns_demoteStep : Returns s.demoteStep (fun s' =>
    SameClock s s' ∧ s'.hotDir = s.hotDir.remove s.demoteCandidate) := by
  unfold demoteStep demote
  refine Prog.ends_bind (returns_any _) (fun dummyLeaf _ => ?_)
  refine Prog.ends_bind (returns_any _) (fun hotOram _ => ?_)
  refine Prog.ends_bind (returns_any _) (fun newLeaf _ => ?_)
  refine Prog.ends_bind (returns_any _) (fun evicted _ => ?_)
  refine Prog.ends_bind (returns_any _) (fun coldOmap _ => ?_)
  exact Prog.ends_pure ⟨⟨rfl, rfl, rfl⟩, rfl⟩

theorem returns_promoteStep : Returns s.promoteStep (fun s' =>
    SameClock s s' ∧ ∃ leaf, s'.hotDir = s.hotDir.insert s.promoteCandidate leaf) := by
  unfold promoteStep promote
  refine Prog.ends_bind (Q := fun s' => SameClock s s' ∧
    ∃ leaf, s'.hotDir = s.hotDir.insert s.promoteCandidate leaf) ?_ (fun s' frame => ?_)
  · refine Prog.ends_bind (returns_any _) (fun coldOmap _ => ?_)
    refine Prog.ends_bind (returns_any _) (fun leaf _ => ?_)
    refine Prog.ends_bind (returns_any _) (fun hotOram _ => ?_)
    refine Prog.ends_bind (returns_any _) (fun evicted _ => ?_)
    exact Prog.ends_pure ⟨⟨rfl, rfl, rfl⟩, leaf, rfl⟩
  · exact Prog.ends_pure ⟨⟨frame.1.config, frame.1.counter, frame.1.epoch⟩, frame.2⟩

variable {config : TeeOmapConfig} {allData : List (Int × Bytes)} {hotKeys : List Int}
  {history : List Served}

theorem Tracked.init (tracked : Tracked config [] s) (allData : List (Int × Bytes))
    (hotKeys : List Int) : Returns (s.init allData hotKeys) (Tracked config []) := by
  unfold TeeOmap.init
  refine Prog.ends_bind (returns_any _) (fun loaded _ => ?_)
  refine Prog.ends_bind (returns_any _) (fun coldOmap _ => ?_)
  refine Prog.ends_pure (tracked.of_clock ⟨rfl, rfl, rfl⟩ ?_)
  refine List.foldlRecOn (motive := fun dir : PackedDirectory =>
    ∀ entry ∈ dir.entries, SlotTracked [] s entry) _ _ tracked.slots ?_
  intro dir slots record _
  split
  · exact fun entry mem => SlotTracked.insert slots (fun _ => rfl) mem
  · exact slots

/-- Every state of a run keeps the invariant, and the clock is right once a key was served. -/
theorem Ran.tracked {stage : Stage} (maintained : config.maintenance.enabled = true)
    (positive : 1 ≤ config.maintenance.observationWindow)
    (run : Ran config allData hotKeys Unambiguous stage history s) : Tracked config history s := by
  induction run with
  | init constructed initialised =>
      have fresh := ((returns_new config).returned constructed).2
      have built : Tracked config [] _ := tracked_fresh (congrArg _ fresh) (congrArg _ fresh)
        (congrArg _ fresh) (congrArg _ fresh)
      exact (built.init _ _).returned initialised
  | serve before allowed counts served tracked =>
      rcases (returns_serve (tracked.config ▸ maintained) _ _).returned served with
        ⟨sameConfig, counter, clock, dir, same, bumped⟩
      refine tracked.serve positive counts sameConfig counter ?_ same bumped
      rw [clock, epoch, counter, sameConfig]
  | demote before allowed demoted tracked =>
      rcases returns_demoteStep.returned demoted with ⟨clock, removed⟩
      exact tracked.demoted positive clock removed
  | promote before allowed promoted tracked =>
      rcases returns_promoteStep.returned promoted with ⟨clock, posLabel, inserted⟩
      exact tracked.promoted clock inserted allowed

/-- In every run that keeps its promises a maintenance step demotes no key, or one that was
accessed fewer than `demote_threshold` times while hot in the current epoch. -/
theorem demotes_only_cold {config : TeeOmapConfig} {allData : List (Int × Bytes)}
    {hotKeys : List Int} {history : List Served} {s : TeeOmap Ω}
    (maintained : config.maintenance.enabled = true)
    (window : 1 ≤ config.maintenance.observationWindow)
    (staleness : 1 ≤ config.maintenance.stalenessWindows)
    (stalenessInt : IsInt config.maintenance.stalenessWindows)
    (thresholdInt : IsInt config.maintenance.demoteThreshold)
    (run : Ran config allData hotKeys Unambiguous .demoting history s)
    (unambiguous : s.ZeroIsNever) :
    s.demoteCandidate = invalidKey ∨
      (hotAccesses history s.demoteCandidate s.epoch : Int) <
        config.maintenance.demoteThreshold := by
  have tracked := run.tracked maintained window
  have now := tracked.clock_bounds window
  have clock : s.currentEpoch = s.epoch := by
    rcases tracked.clock with clock | ⟨noHistory, -⟩
    · exact clock
    · exact absurd noHistory (run.history_ne_nil (by decide))
  rcases s.hotDir.findDemoteCandidate_spec s.scanPtr s.currentEpoch
    s.config.maintenance.stalenessWindows s.config.maintenance.demoteThreshold with
    none | ⟨entry, mem, taken, found⟩
  · exact Or.inl none
  by_cases real : entry.key = invalidKey
  · exact Or.inl (found.symm.trans real)
  · have slot := tracked.slots entry mem
    have positive : 1 ≤ s.config.maintenance.demoteThreshold :=
      unambiguous.threshold.resolve_right (fun no => no entry mem taken)
    have below := slot.below tracked.counter.2 (by omega) now.2.2.1
      (tracked.config ▸ staleness) (tracked.config ▸ stalenessInt.2) positive
      (tracked.config ▸ thresholdInt.2) (fun first => unambiguous.unused first entry mem real) taken
    have known := slot.tracked real
    right
    unfold demoteCandidate
    rw [← found, ← tracked.config]
    omega

/-- What there is to know about the demotion that is due in a run. -/
def dueDemotion (run : List Served × TeeOmap Ω) : Bool × Int × Int × Nat :=
  (run.2.maintenanceDue, run.2.demoteCandidate, run.2.currentEpoch,
    hotAccesses run.1 run.2.demoteCandidate run.2.epoch)

/-- A state of a run whose demotion is due, from what it evaluates to. -/
theorem freshRun_due {config : TeeOmapConfig} {allData : List (Int × Bytes)}
    {hotKeys keys : List Int} {world : TeeWorld} {demoted epoch : Int} {accesses : Nat}
    {promise : Stage → List Served → TeeOmap Ω → Prop} (kept : ∀ history s, promise .idle history s)
    (evaluated : ((freshRun (Ω := Ω) config allData hotKeys keys).runFrom world).1.toOption.map
      dueDemotion = some (true, demoted, epoch, accesses)) :
    ∃ history, ∃ s : TeeOmap Ω, Ran config allData hotKeys promise .demoting history s ∧
      s.demoteCandidate = demoted ∧ s.currentEpoch = epoch ∧
      hotAccesses history s.demoteCandidate s.epoch = accesses := by
  rcases run : (freshRun (Ω := Ω) config allData hotKeys keys).runFrom world with
    ⟨_ | ⟨history, s⟩, world'⟩
  · rw [run] at evaluated
    cases evaluated
  · rw [run] at evaluated
    have parts := Option.some.inj evaluated
    simp only [dueDemotion, Prod.mk.injEq] at parts
    rcases parts with ⟨due, candidate, clock, counted⟩
    have ran : Ran config allData hotKeys promise _ _ _ := freshRun_ran kept run
    rw [afterServe, show s.maintenanceDue = true from due] at ran
    exact ⟨history, s, ran, candidate, clock, counted⟩

/-- With a step after every access and epochs of one access, a key is demoted. -/
theorem demotes_only_cold_sample : ∃ history, ∃ s : TeeOmap TeeAvlOmap,
    Ran (twoHotKeys 1 1 2) [(1, [1]), (2, [2])] [1, 2] Unambiguous .demoting history s ∧
      s.demoteCandidate = 1 ∧ (hotAccesses history s.demoteCandidate s.epoch : Int) < 2 := by
  have evaluated : ((freshRun (Ω := TeeAvlOmap) (twoHotKeys 1 1 2) [(1, [1]), (2, [2])] [1, 2]
      [1]).runFrom { draws := List.range 100 }).1.toOption.map dueDemotion =
        some (true, 1, 1, 0) := by
    decide +kernel
  have due := @freshRun_due _ _ _ _ _ _ _ _ _ _ Unambiguous (fun _ _ => trivial) evaluated
  rcases due with ⟨history, s, run, candidate, clock, -⟩
  have sameConfig := (run.tracked rfl (by decide)).config
  have unambiguous : s.ZeroIsNever :=
    ⟨fun first => absurd first (by omega), Or.inl (by rw [sameConfig]; decide)⟩
  have cold := demotes_only_cold rfl (by decide) (by decide) (by decide) (by decide) run unambiguous
  refine ⟨history, s, run, candidate, cold.resolve_left ?_⟩
  rw [candidate]
  decide

/-- In the first epoch a key that was just accessed is demoted: `2` is accessed, then `1`, and
the threshold of one access does not protect `1`. -/
theorem firstEpoch_demotes_hot : ∃ history, ∃ s : TeeOmap TeeAvlOmap,
    Ran (twoHotKeys 8 2 1) [(1, [1]), (2, [2])] [1, 2] (fun _ _ _ => True) .demoting history s ∧
      s.demoteCandidate ≠ invalidKey ∧
      ¬ (hotAccesses history s.demoteCandidate s.epoch : Int) < 1 := by
  have evaluated : ((freshRun (Ω := TeeAvlOmap) (twoHotKeys 8 2 1) [(1, [1]), (2, [2])] [1, 2]
      [2, 1]).runFrom { draws := List.range 100 }).1.toOption.map dueDemotion =
        some (true, 1, 0, 1) := by
    decide +kernel
  have due := @freshRun_due _ _ _ _ _ _ _ _ _ _ (fun _ _ _ => True) (fun _ _ => trivial) evaluated
  rcases due with ⟨history, s, run, candidate, -, counted⟩
  refine ⟨history, s, run, ?_, ?_⟩
  · rw [candidate]
    decide
  · rw [counted]
    decide

end TeeOmap

end TieredOmap
