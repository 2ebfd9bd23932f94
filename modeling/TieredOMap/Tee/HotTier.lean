import TieredOMap.Tee.DirectoryIndex
import TieredOMap.Tee.EnclaveRuns
import TieredOMap.Tee.TeeRuns

/-!
# The hot tier

The hot ORAM keeps the blocks of a ledger, and the directory has the leaves of the keys that
are not negative: the other keys are those of the fillers. A real access moves the block of its
key to a new leaf; a dummy one may move the filler `-2`. A demotion takes a block out and a
promotion adds one.
-/

namespace TieredOmap

namespace EnclaveOram

variable {oram : EnclaveOram} {widest : Nat} {ledger : Ledger} {leaf : Int}

theorem returns_randomLeaf (oram : EnclaveOram) : Returns oram.randomLeaf (IsLeaf oram.level) :=
  oram.ends_randomLeaf.allow (fun _ _ => trivial)

theorem returns_readPathToStash (oram : EnclaveOram) (name : OramName) (leaf : Int) :
    Returns (oram.readPathToStash name leaf) (· = oram.readPath leaf) :=
  Prog.ends_bind (returns_any _) (fun _ _ => Prog.ends_pure rfl)

theorem returns_evictOnePath (oram : EnclaveOram) (name : OramName) (leaf : Int) :
    Returns (oram.evictOnePath name leaf) (· = (oram.evictPath (oram.path leaf)).1) := by
  refine Prog.ends_bind (returns_any _) (fun _ _ => ?_)
  dsimp only
  split
  · exact Prog.ends_fail trivial
  · exact Prog.ends_pure rfl

/-- An extraction returns the key it asks for, or none. -/
theorem key_extractFromStash (oram : EnclaveOram) (key : Int) :
    (oram.extractFromStash key).1.key = key ∨ (oram.extractFromStash key).1.key = invalidKey := by
  have inLoop : ∀ (stash : List Block) (result : Block),
      (result.key = key ∨ result.key = invalidKey) →
        (extractLoop key stash result).2.key = key ∨
          (extractLoop key stash result).2.key = invalidKey := by
    intro stash
    induction stash with
    | nil => exact fun result start => start
    | cons entry rest ih =>
        intro result start
        refine ih _ ?_
        cases hit : oEqual entry.key key && !oEqual entry.key invalidKey with
        | false => exact start
        | true =>
            simp only [oEqual_eq, Bool.and_eq_true, decide_eq_true_eq] at hit
            exact Or.inl hit.1
  exact inLoop oram.stash _ (Or.inr rfl)

/-- What an extraction returns has the length of a value. -/
theorem length_extractFromStash (fitted : oram.Fitted widest) (key : Int) :
    oram.valueSize ≤ (oram.extractFromStash key).1.value.length ∧
      (oram.extractFromStash key).1.value.length ≤ widest :=
  (extractLoop_cut key fitted.stash (fits_emptySlot fitted.wide)).2.2.2

/-- While its path is empty, an ORAM gets a block and evicts. -/
theorem Sound.addEvict (sound : oram.Sound widest ledger) (isLeaf : IsLeaf oram.level leaf)
    (emptied : oram.cut.Emptied (oram.path leaf)) {key newLeaf : Int} {value : Bytes}
    (isNew : key = invalidKey ∨ ledger key = none) (short : value.length ≤ widest) :
    Sound ((oram.addToStash key newLeaf value).evictPath
        ((oram.addToStash key newLeaf value).path leaf)).1 widest
      (afterAdd ledger key newLeaf value) ∧
      Alike oram ((oram.addToStash key newLeaf value).evictPath
        ((oram.addToStash key newLeaf value).path leaf)).1 := by
  have added : Alike oram (oram.addToStash key newLeaf value) := ⟨rfl, rfl, rfl, rfl⟩
  have sound' := @Sound.addToStash oram widest ledger sound key newLeaf value isNew short
  rcases sound'.evictPath isLeaf (by exact emptied) with ⟨evicted, alike⟩
  exact ⟨evicted, added.trans alike⟩

/-- A path is read, a block taken out, another one added, and the path evicted. -/
theorem Sound.exchange (sound : oram.Sound widest ledger) (isLeaf : IsLeaf oram.level leaf)
    (ask : Int) {key newLeaf : Int} {value : Bytes}
    (isNew : key = invalidKey ∨
      afterExtract ledger ask ((oram.readPath leaf).extractFromStash ask).1 key = none)
    (short : value.length ≤ widest) :
    Sound ((((oram.readPath leaf).extractFromStash ask).2.addToStash key newLeaf value).evictPath
        ((((oram.readPath leaf).extractFromStash ask).2.addToStash key newLeaf value).path leaf)).1
      widest (afterAdd (afterExtract ledger ask ((oram.readPath leaf).extractFromStash ask).1)
        key newLeaf value) ∧
      Alike oram ((((oram.readPath leaf).extractFromStash ask).2.addToStash key newLeaf
        value).evictPath ((((oram.readPath leaf).extractFromStash ask).2.addToStash key newLeaf
          value).path leaf)).1 := by
  rcases sound.readPath isLeaf with ⟨readSound, emptied, alike⟩
  have taken := readSound.extract ask
  have takenAlike : Alike oram ((oram.readPath leaf).extractFromStash ask).2 :=
    alike.trans ⟨rfl, rfl, rfl, rfl⟩
  rw [← takenAlike.path] at emptied
  rw [← takenAlike.level] at isLeaf
  rcases taken.addEvict isLeaf emptied isNew short with ⟨evicted, evictedAlike⟩
  exact ⟨evicted, takenAlike.trans evictedAlike⟩

/-- On the path that its ledger entry names a block is found. -/
theorem Sound.found (sound : oram.Sound widest ledger) (isLeaf : IsLeaf oram.level leaf)
    {key : Int} {value : Bytes} (isLive : ledger key = some (leaf, value)) :
    ((oram.readPath leaf).extractFromStash key).1.key = key ∧
      ((oram.readPath leaf).extractFromStash key).1.value.take oram.valueSize =
        fitValue oram.valueSize value := by
  rcases sound.readPath isLeaf with ⟨readSound, emptied, alike⟩
  rw [← alike.path] at emptied
  rw [← alike.level] at isLeaf
  have hit := readSound.extract_hit isLeaf emptied isLive
  rw [alike.valueSize] at hit
  exact ⟨congrArg Block.key hit, congrArg Block.value hit⟩

/-- What is on a path has the length of a value. -/
theorem Sound.length_extracted (sound : oram.Sound widest ledger) (leaf ask : Int) :
    oram.valueSize ≤ ((oram.readPath leaf).extractFromStash ask).1.value.length ∧
      ((oram.readPath leaf).extractFromStash ask).1.value.length ≤ widest := by
  have alike : Alike oram (oram.readPath leaf) := alike_takeBuckets (oram.path leaf) oram
  have bounds := length_extractFromStash (sound.fitted.readPath leaf) ask
  rw [alike.valueSize] at bounds
  exact bounds

end EnclaveOram

namespace TeeOmapConfig

/-- What a stored value is longer by than the value. -/
def overhead (config : TeeOmapConfig) : Nat :=
  if config.maintenance.enabled then epochMetaSize else 0

variable {config : TeeOmapConfig}

theorem storedValueSize_eq (config : TeeOmapConfig) :
    config.storedValueSize = config.valueSize + config.overhead := by
  unfold storedValueSize overhead
  split <;> rfl

theorem length_padBytes_eq (value : Bytes) (size : Nat) :
    (padBytes value size).length = max value.length size := by
  rw [padBytes, List.length_append, List.length_replicate]
  omega

/-- A stored value has at least its size, and no more than the value needs. -/
theorem length_wrapValue (value : Bytes) (epochMeta : EpochMeta) :
    (padBytes (config.wrapValue value epochMeta) config.storedValueSize).length =
      max value.length config.valueSize + config.overhead := by
  rw [length_padBytes_eq, storedValueSize_eq]
  unfold wrapValue overhead
  split
  · simp only [encodeWithEpoch, List.length_append, length_intToBytes, length_padBytes_eq,
      epochMetaSize]
    omega
  · rfl

theorem length_unwrapValue {stored : Bytes} (enough : config.storedValueSize ≤ stored.length) :
    (config.unwrapValue stored).1.length + config.overhead = stored.length := by
  rw [storedValueSize_eq] at enough
  unfold unwrapValue decodeEpoch overhead at *
  split
  · rename_i enabled
    rw [if_pos enabled] at enough
    rw [if_neg (by omega)]
    simp only [List.length_take]
    omega
  · rfl

end TeeOmapConfig

namespace TeeOmap

open EnclaveOram

variable {Ω : Type} {s : TeeOmap Ω} {widest : Nat} {ledger ledger' : Ledger} {key leaf : Int}

/-- The leaves of the keys that are not negative. -/
def hotLabels (ledger : Ledger) : Int → Option Int := fun key =>
  if 0 ≤ key then (ledger key).map Prod.fst else none

/-- Nothing but fillers has been moved. -/
def SameKeys (before after : Ledger) : Prop := ∀ key, 0 ≤ key → after key = before key

theorem SameKeys.hotLabels_eq (same : SameKeys ledger ledger') :
    hotLabels ledger' = hotLabels ledger := by
  funext key
  unfold hotLabels
  split
  · rename_i nonneg
    rw [same key nonneg]
  · rfl

theorem hotLabels_update (nonneg : 0 ≤ key) (entry : Option (Int × Bytes)) :
    hotLabels (Function.update ledger key entry) =
      Function.update (hotLabels ledger) key (entry.map Prod.fst) := by
  funext key'
  unfold hotLabels
  simp only [Function.update_apply]
  by_cases same : key' = key
  · rw [if_pos same, if_pos same, if_pos (same ▸ nonneg)]
  · rw [if_neg same, if_neg same]

theorem ne_invalidKey (nonneg : 0 ≤ key) : key ≠ invalidKey := by
  rintro rfl
  exact absurd nonneg (by decide)

/-- The hot ORAM keeps a ledger, and the directory its leaves. -/
structure HotTier (s : TeeOmap Ω) (widest : Nat) (ledger : Ledger) : Prop where
  sound : s.hotOram.Sound widest ledger
  indexes : s.hotDir.Indexes (hotLabels ledger)
  leaves : ∀ key leaf value, ledger key = some (leaf, value) → IsLeaf s.hotOram.level leaf
  valueSize : s.hotOram.valueSize = s.config.storedValueSize
  capacity : (s.hotDir.capacity : Int) = s.hotCapacity

section HotTier

variable {value : Bytes}

theorem hotLabels_hot (nonneg : 0 ≤ key)
    (isLive : ledger key = some (leaf, value)) : hotLabels ledger key = some leaf := by
  rw [hotLabels, if_pos nonneg, isLive]
  rfl

theorem HotTier.lookup_hot (hot : HotTier s widest ledger) (nonneg : 0 ≤ key)
    (isLive : ledger key = some (leaf, value)) : s.hotDir.lookup key = leaf :=
  hot.indexes.lookup_found (hotLabels_hot nonneg isLive)

theorem HotTier.lookup_cold (hot : HotTier s widest ledger) (nonneg : 0 ≤ key)
    (absent : ledger key = none) : s.hotDir.lookup key = invalidLeaf := by
  refine hot.indexes.lookup_absent (ne_invalidKey nonneg) ?_
  rw [hotLabels, if_pos nonneg, absent]
  rfl

/-- A leaf is never the mark of a key that is not there. -/
theorem ne_invalidLeaf {level : Nat} (isLeaf : IsLeaf level leaf) : leaf ≠ invalidLeaf := by
  rintro rfl
  exact absurd isLeaf.1 (by decide)

theorem HotTier.isHot_eq (hot : HotTier s widest ledger) (nonneg : 0 ≤ key) :
    s.isHot key = (ledger key).isSome := by
  unfold isHot
  rcases isLive : ledger key with _ | ⟨leaf, value⟩
  · rw [hot.lookup_cold nonneg isLive]
    rfl
  · rw [hot.lookup_hot nonneg isLive]
    simp [ne_invalidLeaf (hot.leaves key leaf value isLive)]

/-- A ledger entry is given up and another one made. -/
theorem leaves_exchange {level : Nat} {ask newKey newLeaf : Int} {taken : Block} {value : Bytes}
    (leaves : ∀ key leaf value, ledger key = some (leaf, value) → IsLeaf level leaf)
    (isLeaf : IsLeaf level newLeaf) : ∀ key leaf value',
      afterAdd (afterExtract ledger ask taken) newKey newLeaf value key = some (leaf, value') →
        IsLeaf level leaf := by
  intro key leaf value' listed
  have extracted : ∀ key leaf value, afterExtract ledger ask taken key = some (leaf, value) →
      IsLeaf level leaf := by
    intro key leaf value listed
    unfold afterExtract at listed
    split at listed
    · exact leaves key leaf value listed
    · rw [Function.update_apply] at listed
      split at listed
      · cases listed
      · exact leaves key leaf value listed
  unfold afterAdd at listed
  split at listed
  · exact extracted key leaf value' listed
  · rw [Function.update_apply] at listed
    split at listed
    · cases listed
      exact isLeaf
    · exact extracted key leaf value' listed

/-- A filler is taken out and put back, or there is none. -/
theorem filler_exchange {taken : Block} (isFiller : taken.key = -2 ∨ taken.key = invalidKey)
    (newLeaf : Int) (value : Bytes) :
    (taken.key = invalidKey ∨ afterExtract ledger (-2) taken taken.key = none) ∧
      SameKeys ledger (afterAdd (afterExtract ledger (-2) taken) taken.key newLeaf value) := by
  rcases isFiller with filler | none
  · have isReal : taken.key ≠ invalidKey := by
      rw [filler]
      decide
    unfold afterExtract afterAdd
    rw [if_neg isReal, if_neg isReal, filler]
    refine ⟨Or.inr (Function.update_self _ _ _), fun key nonneg => ?_⟩
    have other : key ≠ -2 := by omega
    rw [Function.update_of_ne other, Function.update_of_ne other]
  · unfold afterExtract afterAdd
    rw [if_pos none, if_pos none]
    exact ⟨Or.inl none, fun key _ => rfl⟩

end HotTier

/-! ## The access to the hot ORAM -/

/-- What an access writes back to the hot ORAM. -/
def hotWriteBack (s : TeeOmap Ω) (newValue : Option Bytes) (hotHit : Bool) (found : Bytes) :
    Bytes :=
  let (hotVal, hotMeta) := s.config.unwrapValue found
  let wbVal := padBytes hotVal s.config.valueSize
  let wbVal := match newValue with
    | some value => oMovBytes hotHit wbVal (padBytes value s.config.valueSize)
    | none => wbVal
  padBytes (s.config.wrapValue wbVal (s.bumpEpoch hotMeta)) s.config.storedValueSize

/-- The new value is not too long. -/
def Short (config : TeeOmapConfig) (widest : Nat) (newValue : Option Bytes) : Prop :=
  ∀ new, newValue = some new → new.length + config.overhead ≤ widest

theorem length_hotWriteBack {newValue : Option Bytes} (hotHit : Bool) {found : Bytes}
    (short : Short s.config widest newValue) (enough : s.config.storedValueSize ≤ found.length)
    (fits : found.length ≤ widest) :
    s.config.storedValueSize ≤ (s.hotWriteBack newValue hotHit found).length ∧
      (s.hotWriteBack newValue hotHit found).length ≤ widest := by
  have unwrapped := TeeOmapConfig.length_unwrapValue enough
  have stored := s.config.storedValueSize_eq
  unfold hotWriteBack
  dsimp only
  rw [TeeOmapConfig.length_wrapValue]
  cases newValue with
  | none =>
      rw [TeeOmapConfig.length_padBytes_eq]
      omega
  | some new =>
      have newFits := short new rfl
      rw [length_oMovBytes, TeeOmapConfig.length_padBytes_eq]
      omega

/-- The block of a hot key is read, changed and moved to a new leaf. -/
theorem HotTier.accessHotOram_hit (hot : HotTier s widest ledger) (nonneg : 0 ≤ key)
    {value : Bytes} (isLive : ledger key = some (leaf, value)) {newValue : Option Bytes}
    (short : Short s.config widest newValue) :
    Returns (s.accessHotOram key newValue true leaf) (fun result =>
      ∃ hotOram hotDir newLeaf found,
        result = ((s.config.unwrapValue found).1, { s with hotOram, hotDir }) ∧
        found.take s.config.storedValueSize = fitValue s.config.storedValueSize value ∧
        s.config.storedValueSize ≤ found.length ∧ found.length ≤ widest ∧
        HotTier { s with hotOram, hotDir } widest
          (Function.update ledger key (some (newLeaf, s.hotWriteBack newValue true found)))) := by
  have isLeaf := hot.leaves key leaf value isLive
  have isFound := hot.sound.found isLeaf isLive
  have bounds := hot.sound.length_extracted leaf key
  rw [hot.valueSize] at isFound bounds
  unfold accessHotOram
  refine Prog.ends_bind (returns_randomLeaf _) (fun newLeaf newIsLeaf => ?_)
  refine Prog.ends_bind (returns_any _) (fun dummyLeaf _ => ?_)
  refine Prog.ends_bind (returns_readPathToStash _ _ _) (fun read isRead => ?_)
  subst isRead
  simp only [oSelect_true]
  generalize taken : (s.hotOram.readPath leaf).extractFromStash key = extracted at isFound bounds
  rcases extracted with ⟨blk, between⟩
  dsimp only at isFound bounds
  have written := length_hotWriteBack true short bounds.1 bounds.2
  have isReal : blk.key ≠ invalidKey := by
    rw [isFound.1]
    exact ne_invalidKey nonneg
  have isNew : key = invalidKey ∨ afterExtract ledger key
      ((s.hotOram.readPath leaf).extractFromStash key).1 key = none := by
    right
    rw [taken, afterExtract, if_neg isReal]
    exact Function.update_self _ _ _
  have exchanged := @Sound.exchange s.hotOram widest ledger leaf hot.sound isLeaf key key newLeaf
    (s.hotWriteBack newValue true blk.value) isNew written.2
  have newLedger : afterAdd (afterExtract ledger key blk) key newLeaf
      (s.hotWriteBack newValue true blk.value) =
        Function.update ledger key (some (newLeaf, s.hotWriteBack newValue true blk.value)) := by
    rw [afterAdd, if_neg (ne_invalidKey nonneg), afterExtract, if_neg isReal,
      Function.update_idem]
  have newLeaves := @leaves_exchange ledger s.hotOram.level key key newLeaf blk
    (s.hotWriteBack newValue true blk.value) hot.leaves newIsLeaf
  rw [taken] at exchanged
  dsimp only at exchanged
  rw [newLedger] at exchanged newLeaves
  refine Prog.ends_bind (returns_evictOnePath _ _ _) (fun evicted isEvicted => ?_)
  subst isEvicted
  refine Prog.ends_pure ⟨_, _, newLeaf, blk.value, rfl, isFound.2, bounds.1, bounds.2, ?_⟩
  refine ⟨exchanged.1, ?_, ?_, exchanged.2.valueSize.trans hot.valueSize, ?_⟩
  · rw [hotLabels_update nonneg]
    refine hot.indexes.updatePos (hotLabels_hot nonneg isLive) newLeaf
  · rw [← exchanged.2.level] at newLeaves
    exact newLeaves
  · rw [← hot.capacity]
    simp [PackedDirectory.capacity, PackedDirectory.updatePos]

/-- The access of a key that is not hot moves a filler at most. -/
theorem HotTier.accessHotOram_miss (hot : HotTier s widest ledger) (nonneg : 0 ≤ key)
    (absent : ledger key = none) {newValue : Option Bytes} (oldPos : Int)
    (short : Short s.config widest newValue) :
    Returns (s.accessHotOram key newValue false oldPos) (fun result => ∃ hotOram ledger',
      result.2 = { s with hotOram } ∧ SameKeys ledger ledger' ∧
        HotTier { s with hotOram } widest ledger') := by
  unfold accessHotOram
  refine Prog.ends_bind (returns_randomLeaf _) (fun newLeaf newIsLeaf => ?_)
  refine Prog.ends_bind (returns_randomLeaf _) (fun dummyLeaf isLeaf => ?_)
  refine Prog.ends_bind (returns_readPathToStash _ _ _) (fun read isRead => ?_)
  subst isRead
  simp only [oSelect_false]
  have isFiller := (s.hotOram.readPath dummyLeaf).key_extractFromStash (-2)
  have bounds := hot.sound.length_extracted dummyLeaf (-2)
  rw [hot.valueSize] at bounds
  have written := length_hotWriteBack false short bounds.1 bounds.2
  rcases @filler_exchange ledger _ isFiller newLeaf (s.hotWriteBack newValue false
    ((s.hotOram.readPath dummyLeaf).extractFromStash (-2)).1.value) with ⟨isNew, same⟩
  have exchanged := @Sound.exchange s.hotOram widest ledger dummyLeaf hot.sound isLeaf (-2) _ newLeaf
    _ isNew written.2
  have newLeaves := @leaves_exchange ledger s.hotOram.level (-2)
    ((s.hotOram.readPath dummyLeaf).extractFromStash (-2)).1.key newLeaf
    ((s.hotOram.readPath dummyLeaf).extractFromStash (-2)).1
    (s.hotWriteBack newValue false
      ((s.hotOram.readPath dummyLeaf).extractFromStash (-2)).1.value) hot.leaves newIsLeaf
  rw [← exchanged.2.level] at newLeaves
  refine Prog.ends_bind (returns_evictOnePath _ _ _) (fun evicted isEvicted => ?_)
  subst isEvicted
  have noLabel : hotLabels ledger key = none := by
    rw [hotLabels, if_pos nonneg, absent]
    rfl
  rw [hot.indexes.updatePos_absent (ne_invalidKey nonneg) noLabel]
  refine Prog.ends_pure ⟨_, _, rfl, same, exchanged.1, ?_, newLeaves,
    exchanged.2.valueSize.trans hot.valueSize, hot.capacity⟩
  rw [same.hotLabels_eq]
  exact hot.indexes

/-- Counting an access leaves the hot tier alone. -/
theorem HotTier.bumpFreq (hot : HotTier s widest ledger) (bumped : Bool) (key epoch : Int) :
    HotTier { s with hotDir := if bumped then s.hotDir.bumpFreq key epoch else s.hotDir } widest
      ledger := by
  cases bumped with
  | false => exact hot
  | true =>
      refine ⟨hot.sound, hot.indexes.bumpFreq, hot.leaves, hot.valueSize, ?_⟩
      rw [← hot.capacity]
      simp [PackedDirectory.capacity, PackedDirectory.bumpFreq]

/-- Phase 1 for a hot key. -/
theorem HotTier.accessHot_hit (hot : HotTier s widest ledger) (nonneg : 0 ≤ key)
    {value : Bytes} (isLive : ledger key = some (leaf, value)) {newValue : Option Bytes}
    (short : Short s.config widest newValue) :
    Returns (s.accessHot key newValue) (fun result => ∃ hotOram hotDir newLeaf found,
      result = ({
        value := padBytes (s.config.unwrapValue found).1 s.config.valueSize
        found := true }, { s with hotOram, hotDir }) ∧
      found.take s.config.storedValueSize = fitValue s.config.storedValueSize value ∧
      s.config.storedValueSize ≤ found.length ∧ found.length ≤ widest ∧
      HotTier { s with hotOram, hotDir } widest
        (Function.update ledger key (some (newLeaf, s.hotWriteBack newValue true found)))) := by
  have hit : (!oEqual (s.hotDir.lookup key) invalidLeaf) = true := by
    have isHot := hot.isHot_eq nonneg
    rw [isLive] at isHot
    exact isHot
  unfold accessHot
  dsimp only
  rw [hit, hot.lookup_hot nonneg isLive]
  simp only [Bool.not_true, Bool.and_false, Bool.false_eq_true, if_false]
  refine Prog.ends_bind (hot.accessHotOram_hit nonneg isLive short) (fun result spec => ?_)
  rcases spec with ⟨hotOram, hotDir, newLeaf, found, rfl, taken, enough, fits, hot'⟩
  refine Prog.ends_pure ⟨hotOram, _, newLeaf, found, rfl, taken, enough, fits, ?_⟩
  exact hot'.bumpFreq s.config.maintenance.enabled key s.currentEpoch

/-- Phase 1 for any other key. -/
theorem HotTier.accessHot_miss (hot : HotTier s widest ledger) (nonneg : 0 ≤ key)
    (absent : ledger key = none) {newValue : Option Bytes}
    (short : Short s.config widest newValue) :
    Returns (s.accessHot key newValue) (fun result => ∃ hotOram hotDir ledger',
      result.1.found = false ∧ result.2 = { s with hotOram, hotDir } ∧ SameKeys ledger ledger' ∧
      HotTier { s with hotOram, hotDir } widest ledger') := by
  have miss : (!oEqual (s.hotDir.lookup key) invalidLeaf) = false := by
    have isHot := hot.isHot_eq nonneg
    rw [absent] at isHot
    exact isHot
  unfold accessHot
  dsimp only
  rw [miss]
  refine Prog.ends_bind (Q := fun result => ∃ hotOram ledger', result.2 = { s with hotOram } ∧
    SameKeys ledger ledger' ∧ HotTier { s with hotOram } widest ledger') ?_ (fun result spec => ?_)
  · split
    · exact Prog.ends_pure ⟨s.hotOram, ledger, rfl, fun _ _ => rfl, hot⟩
    · exact hot.accessHotOram_miss nonneg absent _ short
  · rcases result with ⟨hotVal, mid⟩
    rcases spec with ⟨hotOram, ledger', rfl, same, hot'⟩
    refine Prog.ends_pure ⟨hotOram, _, ledger', rfl, rfl, same, ?_⟩
    exact hot'.bumpFreq s.config.maintenance.enabled key s.currentEpoch

end TeeOmap

end TieredOmap
