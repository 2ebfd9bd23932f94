import TieredOMap.Tee.TierRuns

/-!
# The values of the enclave's map

What an access returns is the value of its key in a finite map. A promotion writes the value
that the access before it saw to this map: it is the value of the key, unless the key was
written to since.
-/

namespace TieredOmap

open EnclaveOram ColdView

namespace TeeOmapConfig

variable {config : TeeOmapConfig}

/-! ## Stored values -/

/-- The value of a stored record. -/
def userValue (config : TeeOmapConfig) (stored : Bytes) : Bytes := (config.unwrapValue stored).1

theorem fitValue_padBytes (value : Bytes) (size : Nat) :
    fitValue size (padBytes value size) = fitValue size value := by
  have taken : (padBytes value size).take size = fitValue size value :=
    take_padBytes_eq_fitValue size value
  rw [fitValue, taken, padBytes, length_fitValue, Nat.sub_self, List.replicate_zero,
      List.append_nil]

theorem fitValue_of_length {size : Nat} {value : Bytes} (sized : value.length = size) :
    fitValue size value = value := by
  rw [fitValue_of_le sized.le, padBytes, sized, Nat.sub_self, List.replicate_zero, List.append_nil]

/-- A value that was wrapped and stored. -/
theorem userValue_wrapValue {plain : Bytes} (short : plain.length ≤ config.valueSize)
    (epochMeta : EpochMeta) :
    config.userValue (fitValue config.storedValueSize (config.wrapValue plain epochMeta)) =
      padBytes plain config.valueSize := by
  unfold userValue unwrapValue wrapValue
  have size := config.storedValueSize_eq
  unfold overhead at size
  split
  · rename_i enabled
    rw [if_pos enabled] at size
    have sized : (encodeWithEpoch (padBytes plain config.valueSize) epochMeta).length =
        config.storedValueSize := by
      rw [size, encodeWithEpoch, List.length_append, length_padBytes short]
      simp [length_intToBytes]
    rw [fitValue_of_length sized, decodeEpoch_encodeWithEpoch]
  · rename_i disabled
    rw [if_neg disabled] at size
    rw [size, Nat.add_zero]
    exact fitValue_of_le short

theorem length_userValue {stored : Bytes} (sized : stored.length = config.storedValueSize) :
    (config.userValue stored).length = config.valueSize := by
  have unwrapped := length_unwrapValue sized.ge
  have size := config.storedValueSize_eq
  unfold userValue
  omega

theorem padBytes_of_length {bytes : Bytes} {size : Nat} (sized : bytes.length = size) :
    padBytes bytes size = bytes := by
  rw [padBytes, sized, Nat.sub_self, List.replicate_zero, List.append_nil]

end TeeOmapConfig

namespace TeeOmap

open TeeOmapConfig

variable {Ω : Type} {s : TeeOmap Ω} {config : TeeOmapConfig} {newValue : Option Bytes}
  {found : Bytes}

/-- What an access writes. -/
def nextValue (size : Nat) (newValue : Option Bytes) (old : Bytes) : Bytes :=
  match newValue with
  | some value => padBytes value size
  | none => old

/-- The value that is unwrapped, maybe replaced, and wrapped again. -/
theorem userValue_rewrapped (sized : found.length = config.storedValueSize)
    (epochMeta : EpochMeta) : (∀ value ∈ newValue, value.length ≤ config.valueSize) →
    config.userValue (fitValue config.storedValueSize (config.wrapValue
      (match newValue with
        | some value => oMovBytes true (padBytes (config.unwrapValue found).1 config.valueSize)
            (padBytes value config.valueSize)
        | none => padBytes (config.unwrapValue found).1 config.valueSize) epochMeta)) =
      nextValue config.valueSize newValue (config.userValue found) := by
  intro short
  have old : ((config.unwrapValue found).1).length = config.valueSize := length_userValue sized
  cases newValue with
  | none =>
      dsimp only
      rw [padBytes_of_length old, userValue_wrapValue old.le, padBytes_of_length old]
      rfl
  | some value =>
      have fits : (padBytes value config.valueSize).length = config.valueSize :=
        length_padBytes (short value rfl)
      dsimp only
      rw [show oMovBytes true (padBytes (config.unwrapValue found).1 config.valueSize)
        (padBytes value config.valueSize) = padBytes value config.valueSize from rfl,
        userValue_wrapValue fits.le, padBytes_of_length fits]
      rfl

/-- The value of a hot key after an access. -/
theorem userValue_hotWriteBack (sized : found.length = s.config.storedValueSize)
    (short : ∀ value ∈ newValue, value.length ≤ s.config.valueSize) :
    s.config.userValue (fitValue s.config.storedValueSize (s.hotWriteBack newValue true found)) =
      nextValue s.config.valueSize newValue (s.config.userValue found) := by
  unfold hotWriteBack
  dsimp only
  rw [fitValue_padBytes]
  exact userValue_rewrapped sized _ short

/-- The value of a cold key after an access. -/
theorem userValue_coldWriteBack (sized : found.length = s.config.storedValueSize)
    (short : ∀ value ∈ newValue, value.length ≤ s.config.valueSize) :
    s.config.userValue (fitValue s.config.storedValueSize (s.coldWriteBack newValue found found)) =
      nextValue s.config.valueSize newValue (s.config.userValue found) := by
  unfold coldWriteBack writtenBack
  split
  · rename_i transform isTransform
    split at isTransform
    · cases isTransform
      exact userValue_rewrapped sized _ short
    · cases isTransform
  · rename_i isNone
    split at isNone
    · cases isNone
    · rename_i disabled
      rw [if_neg disabled]
      cases newValue with
      | none =>
          rw [Option.getD_none, fitValue_of_length sized]
          rfl
      | some value =>
          have wrapped := userValue_wrapValue (short value rfl) ({} : EpochMeta)
          rw [wrapValue, if_neg disabled] at wrapped
          exact wrapped

/-- The value of a key after its demotion. -/
theorem userValue_demotedRecord (sized : found.length = config.storedValueSize) :
    config.userValue (fitValue config.storedValueSize (demotedRecord config found)) =
      config.userValue found := by
  have old : ((config.unwrapValue found).1).length = config.valueSize := length_userValue sized
  unfold demotedRecord
  rw [fitValue_padBytes, userValue_wrapValue old.le, padBytes_of_length old]
  rfl

/-- The value of a key after its promotion. -/
theorem userValue_promotedRecord {value : Bytes} (short : value.length ≤ config.valueSize) :
    config.userValue (fitValue config.storedValueSize (promotedRecord config value)) =
      padBytes value config.valueSize := by
  unfold promotedRecord
  rw [fitValue_padBytes, userValue_wrapValue short]

/-! ## The pending promotion -/

theorem padBytes_resizeBytes {value : Bytes} {size : Nat} (short : value.length ≤ size) :
    padBytes (resizeBytes value size) size = padBytes value size := by
  rw [padBytes_of_length (length_resizeBytes value size), resizeBytes, List.take_of_length_le short]
  rfl

theorem returns_accessHot_rest (key : Int) (newValue : Option Bytes) :
    Returns (s.accessHot key newValue) (fun result => ∃ hotOram hotDir,
      result.2 = { s with hotOram, hotDir }) := by
  have hotOram : ∀ hotHit oldPos, Returns (s.accessHotOram key newValue hotHit oldPos)
      (fun result => ∃ hotOram hotDir, result.2 = { s with hotOram, hotDir }) := by
    intro hotHit oldPos
    unfold accessHotOram
    refine Prog.ends_bind (returns_any _) (fun newHotLeaf _ => ?_)
    refine Prog.ends_bind (returns_any _) (fun dummyLeaf _ => ?_)
    refine Prog.ends_bind (returns_any _) (fun opened _ => ?_)
    refine Prog.ends_bind (returns_any _) (fun evicted _ => ?_)
    exact Prog.ends_pure ⟨_, _, rfl⟩
  unfold accessHot
  dsimp only
  have first : Returns (if s.config.isTm && !!oEqual (s.hotDir.lookup key) invalidLeaf
      then pure (s.config.zeros, s) else s.accessHotOram key newValue
        (!oEqual (s.hotDir.lookup key) invalidLeaf) (s.hotDir.lookup key) :
          TeeRand (Bytes × TeeOmap Ω))
      (fun result => ∃ hotOram hotDir, result.2 = { s with hotOram, hotDir }) := by
    split
    · exact Prog.ends_pure ⟨s.hotOram, s.hotDir, rfl⟩
    · exact hotOram _ _
  refine Prog.ends_bind first ?_
  rintro ⟨hotVal, s'⟩ ⟨hotOram, hotDir, rfl⟩
  exact Prog.ends_pure ⟨_, _, rfl⟩

variable [ColdMap Ω]

/-- The pending promotion stays, or it becomes that of the key, with the value returned. -/
theorem returns_serve_pending (key : Int) (newValue : Option Bytes) :
    Returns (s.serve key newValue) (fun result =>
      (result.2.pendingPromoKey = s.pendingPromoKey ∧
        (result.2.pendingPromoVal = s.pendingPromoVal ∨ ∃ size, s.config.valueSize ≤ size ∧
          result.2.pendingPromoVal = resizeBytes s.pendingPromoVal size)) ∨
      (result.2.pendingPromoKey = key ∧ result.1.early.found = false ∧
        result.2.pendingPromoVal = result.1.value)) := by
  unfold TeeOmap.serve
  refine Prog.ends_bind (returns_accessHot_rest key newValue) ?_
  rintro ⟨early, s'⟩ ⟨hotOram, hotDir, same⟩
  dsimp only at same ⊢
  have second : Returns (if s'.config.isTm && early.found
      then pure (List.replicate s'.config.storedValueSize 0, s')
      else s'.accessCold key newValue (!early.found) : TeeRand (Bytes × TeeOmap Ω))
      (fun result => ∃ coldOmap, result.2 = { s' with coldOmap }) := by
    split
    · exact Prog.ends_pure ⟨s'.coldOmap, rfl⟩
    · unfold accessCold
      refine Prog.ends_bind (returns_any _) (fun found _ => ?_)
      exact Prog.ends_pure ⟨_, rfl⟩
  refine Prog.ends_bind second ?_
  rintro ⟨coldStored, s''⟩ ⟨coldOmap, same'⟩
  dsimp only at same' ⊢
  subst same
  subst same'
  refine Prog.ends_pure ?_
  dsimp only
  split
  · have long : ∀ value : Bytes, s.config.valueSize ≤ (padBytes value s.config.valueSize).length :=
      fun value => (length_padBytes_eq value s.config.valueSize).ge.trans' (le_max_right _ _)
    cases isHot : early.found with
    | true => exact Or.inl ⟨rfl, Or.inr ⟨_, long _, rfl⟩⟩
    | false =>
        simp only [Bool.and_false, Bool.false_eq_true, if_false, Bool.not_false, Bool.true_and,
          notePromotion, tick]
        cases oLess (s.config.unwrapValue coldStored).2.cnt
            s.config.maintenance.promoteThreshold with
        | true => exact Or.inl ⟨rfl, Or.inr ⟨_, long _, rfl⟩⟩
        | false => exact Or.inr ⟨rfl, trivial, rfl⟩
  · exact Or.inl ⟨rfl, Or.inl rfl⟩

/-! ## What the tiers show -/

/-- The value that the tiers have for a key. -/
def shown (config : TeeOmapConfig) (ledger : Ledger) (cold : Int → Option Bytes) (key : Int) :
    Option Bytes :=
  match ledger key with
  | some entry => some (config.userValue (fitValue config.storedValueSize entry.2))
  | none => (cold key).map config.userValue

/-- The tiers keep the values of a finite map. -/
structure Shows (config : TeeOmapConfig) (keys : List Int) [ColdView Ω]
    (contents : Int → Option Bytes) (s : TeeOmap Ω) : Prop where
  placed : ∃ ledger cold, Placed config keys config.storedValueSize ledger cold s ∧
    ∀ key, 0 ≤ key → contents key = shown config ledger cold key
  none : ∀ key, key < 0 → contents key = none
  sized : ∀ key value, contents key = some value → value.length = config.valueSize

section Shown

variable {ledger ledger' : Ledger} {cold cold' : Int → Option Bytes} {key : Int}
  {contents : Int → Option Bytes} {keys : List Int} {value : Bytes}

/-- The values after a change of one key. -/
theorem shown_update (shows' : ∀ key', 0 ≤ key' → contents key' = shown config ledger cold key')
    (sameHot : ∀ key', 0 ≤ key' → key' ≠ key → ledger' key' = ledger key')
    (sameCold : ∀ key', key' ≠ key → cold' key' = cold key') {key' : Int} (nonneg : 0 ≤ key') :
    Function.update contents key (shown config ledger' cold' key) key' =
      shown config ledger' cold' key' := by
  by_cases here : key' = key
  · rw [here, Function.update_self]
  · rw [Function.update_of_ne here, shows' key' nonneg]
    unfold shown
    rw [sameHot key' nonneg here, sameCold key' here]

theorem shown_hot {entry : Int × Bytes} (isLive : ledger key = some entry) :
    shown config ledger cold key =
      some (config.userValue (fitValue config.storedValueSize entry.2)) := by
  rw [shown, isLive]

theorem shown_cold (notHot : ledger key = none) :
    shown config ledger cold key = (cold key).map config.userValue := by
  rw [shown, notHot]

/-- Only the keys have values. -/
theorem isSome_shown (split : Split keys ledger cold) (nonneg : 0 ≤ key) :
    (shown config ledger cold key).isSome ↔ key ∈ keys := by
  by_cases isKey : key ∈ keys
  · have once := split.once key isKey
    rcases isHot : ledger key with _ | entry
    · rw [isHot] at once
      rw [shown_cold isHot, Option.isSome_map]
      rcases isCold : cold key with _ | record
      · rw [isCold] at once
        cases once
      · exact ⟨fun _ => isKey, fun _ => rfl⟩
    · rw [shown_hot isHot]
      exact ⟨fun _ => isKey, fun _ => rfl⟩
  · rw [shown_cold (split.noHot key nonneg isKey), split.noCold key isKey]
    exact ⟨fun impossible => (by cases impossible), fun mem => absurd mem isKey⟩

end Shown

end TeeOmap

/-! ## Events -/

/-- What happens to a map: an access is served, a key is demoted, a key is promoted with a value. -/
inductive TeeEvent where
  | served (key : Int) (newValue : Option Bytes) (result : TeeAccessResult)
  | demoted (key : Int)
  | promoted (key : Int) (value : Bytes)
deriving DecidableEq

namespace TeeEvent

/-- What an event does to a finite map. A promotion writes the value that it brings along. -/
def apply (size : Nat) (contents : Int → Option Bytes) : TeeEvent → Int → Option Bytes
  | served key newValue _ =>
      Function.update contents key ((contents key).map (TeeOmap.nextValue size newValue))
  | promoted key value =>
      if key = invalidKey then contents
      else Function.update contents key (some (padBytes value size))
  | demoted _ => contents

/-- What only the accesses do to a finite map. -/
def access (size : Nat) (contents : Int → Option Bytes) : TeeEvent → Int → Option Bytes
  | served key newValue _ =>
      Function.update contents key ((contents key).map (TeeOmap.nextValue size newValue))
  | promoted _ _ | demoted _ => contents

/-- What is returned for a stored key is its value, and one of the two answers finds it. For any
other key the final answer claims to have found it. -/
def Answered (contents : Int → Option Bytes) : TeeEvent → Prop
  | served key _ result =>
      match contents key with
      | some value => result.value = value ∧ result.final.value = value ∧
          (result.early = ⟨value, true⟩ ∧ result.final.found = false ∨
            result.early.found = false ∧ result.final.found = true)
      | none => result.early.found = false ∧ result.final.found = true
  | promoted key _ => key ≠ invalidKey → (contents key).isSome
  | demoted key => key ≠ invalidKey → (contents key).isSome

end TeeEvent

namespace TeeOmap

open TeeOmapConfig

variable {Ω : Type} [ColdMap Ω] [ColdView Ω] {s : TeeOmap Ω} {config : TeeOmapConfig}
  {keys : List Int} {contents : Int → Option Bytes} {key : Int}

/-! ## Steps -/

theorem short_of_fits {newValue : Option Bytes}
    (fits : ∀ value ∈ newValue, value.length ≤ config.valueSize) :
    Short config config.storedValueSize newValue := by
  rintro value rfl
  have size := config.storedValueSize_eq
  have short := fits value rfl
  omega

theorem length_nextValue {size : Nat} {newValue : Option Bytes} {old : Bytes}
    (fits : ∀ value ∈ newValue, value.length ≤ size) (sized : old.length = size) :
    (nextValue size newValue old).length = size := by
  cases newValue with
  | none => exact sized
  | some value => exact length_padBytes (fits value rfl)

/-- A finite map in which one key that is not negative has a value of the size. -/
theorem sized_update {size : Nat} {record : Option Bytes}
    (sized : ∀ key value, contents key = some value → value.length = size)
    (sized' : ∀ value ∈ record, value.length = size) :
    ∀ key' value, Function.update contents key record key' = some value → value.length = size := by
  intro key' value found
  rw [Function.update_apply] at found
  split at found
  · exact sized' value found
  · exact sized key' value found

theorem none_update {record : Option Bytes} (none : ∀ key, key < 0 → contents key = none)
    (nonneg : 0 ≤ key) : ∀ key', key' < 0 → Function.update contents key record key' = .none := by
  intro key' negative
  rw [Function.update_of_ne (by omega)]
  exact none key' negative

/-- What an access returns is the value of its key, and what it writes becomes the value. -/
theorem Shows.serve (lawful : LawfulColdMap Ω config.storedValueSize config.storedValueSize)
    (shows' : Shows config keys contents s) (nonnegKeys : ∀ key ∈ keys, 0 ≤ key)
    (threshold : config.maintenance.enabled = true →
      1 ≤ config.maintenance.promoteThreshold ∧ IsInt config.maintenance.promoteThreshold)
    (nonneg : 0 ≤ key) {newValue : Option Bytes}
    (fits : ∀ value ∈ newValue, value.length ≤ config.valueSize) :
    Returns (s.serve key newValue) (fun result =>
      (TeeEvent.served key newValue result.1).Answered contents ∧
        (FindsKeys result.2.coldOmap → Shows config keys
          ((TeeEvent.served key newValue result.1).apply config.valueSize contents) result.2)) := by
  rcases shows' with ⟨⟨ledger, cold, placed, same⟩, none, sized⟩
  have short := @short_of_fits config newValue fits
  have sameConfig := placed.sameConfig
  have sized' : ∀ value ∈ (contents key).map (nextValue config.valueSize newValue),
      value.length = config.valueSize := by
    intro value isValue
    rcases Option.map_eq_some_iff.mp isValue with ⟨old, isOld, rfl⟩
    exact length_nextValue fits (sized key old isOld)
  rcases isHot : ledger key with _ | ⟨leaf, stored⟩
  · rcases isCold : cold key with _ | stored
    · -- The key is in neither tier.
      have isNone : contents key = .none := by
        rw [same key nonneg, shown_cold isHot, isCold]
        rfl
      have other : key ∉ keys := fun isKey => by
        have once := placed.split.once key isKey
        rw [isHot, isCold] at once
        cases once
      refine (placed.serve_absent lawful nonnegKeys threshold nonneg other short).mono ?_
      rintro ⟨result, s'⟩ ⟨ledger', sameKeys, early, final, placed'⟩
      refine ⟨?_, fun finds => ⟨⟨ledger', cold, placed' finds, ?_⟩, none_update none nonneg,
        sized_update sized sized'⟩⟩
      · unfold TeeEvent.Answered
        dsimp only at early final ⊢
        rw [isNone]
        exact ⟨early, by rw [final]⟩
      · intro key' nonneg'
        simp only [TeeEvent.apply]
        rw [isNone, Option.map_none, show Function.update contents key .none = contents by
          rw [← isNone, Function.update_eq_self], same key' nonneg']
        unfold shown
        rw [sameKeys key' nonneg']
    · -- The key is cold.
      refine (placed.serve_cold lawful nonnegKeys isCold short).mono ?_
      rintro ⟨result, s'⟩ ⟨ledger', found, sameKeys, taken, enough, fitsFound, early, final, value,
        placed'⟩
      have length : found.length = config.storedValueSize := le_antisymm fitsFound enough
      rw [List.take_of_length_le length.le] at taken
      subst taken
      have isValue : contents key = some (config.userValue found) := by
        rw [same key nonneg, shown_cold isHot, isCold]
        rfl
      have returned : result.value = config.userValue found :=
        value.trans (padBytes_of_length (length_userValue length))
      refine ⟨?_, fun finds => ⟨⟨ledger', _, placed' finds, ?_⟩, none_update none nonneg,
        sized_update sized sized'⟩⟩
      · unfold TeeEvent.Answered
        dsimp only at early final ⊢
        rw [isValue, final]
        exact ⟨returned, returned, Or.inr ⟨early, rfl⟩⟩
      · intro key' nonneg'
        simp only [TeeEvent.apply]
        rw [isValue, Option.map_some, ← sameConfig,
          ← userValue_coldWriteBack (sameConfig ▸ length) (sameConfig ▸ fits), sameConfig]
        refine Eq.trans ?_ (shown_update same (fun key'' isNonneg _ => sameKeys key'' isNonneg)
          (fun key'' differs => Function.update_of_ne differs _ _) nonneg')
        rw [shown_cold ((sameKeys key nonneg).trans isHot), Function.update_self]
        rfl
  · -- The key is hot.
    refine (placed.serve_hot lawful nonnegKeys nonneg isHot short).mono ?_
    rintro ⟨result, s'⟩ ⟨newLeaf, found, taken, enough, fitsFound, early, final, value, placed'⟩
    have length : found.length = config.storedValueSize := le_antisymm fitsFound enough
    rw [List.take_of_length_le length.le] at taken
    have isValue : contents key = some (config.userValue found) := by
      rw [same key nonneg, shown_hot isHot, taken]
    have earlyValue : result.early = ⟨config.userValue found, true⟩ := by
      rw [early]
      exact congrArg (TeeAnswer.mk · true) (padBytes_of_length (length_userValue length))
    have returned : result.value = config.userValue found := by
      rcases value with isEarly | isEarly
      · rw [isEarly, earlyValue]
      · rw [isEarly, earlyValue]
        exact resizeBytes_of_length (length_userValue length)
    refine ⟨?_, fun finds => ⟨⟨_, cold, placed' finds, ?_⟩, none_update none nonneg,
      sized_update sized sized'⟩⟩
    · unfold TeeEvent.Answered
      dsimp only at final ⊢
      rw [isValue, final]
      exact ⟨returned, returned, Or.inl ⟨earlyValue, rfl⟩⟩
    · intro key' nonneg'
      simp only [TeeEvent.apply]
      rw [isValue, Option.map_some, ← sameConfig,
        ← userValue_hotWriteBack (sameConfig ▸ length) (sameConfig ▸ fits), sameConfig]
      refine Eq.trans ?_ (shown_update same
        (fun key'' _ differs => Function.update_of_ne differs _ _) (fun key'' _ => rfl) nonneg')
      rw [shown_hot (Function.update_self _ _ _)]

/-- A demotion leaves every value as it is. -/
theorem Shows.demoteStep (lawful : LawfulColdMap Ω config.storedValueSize config.storedValueSize)
    (shows' : Shows config keys contents s) (nonnegKeys : ∀ key ∈ keys, 0 ≤ key) :
    Returns s.demoteStep (fun s' => (TeeEvent.demoted s.demoteCandidate).Answered contents ∧
      (FindsKeys s'.coldOmap → Shows config keys contents s')) := by
  rcases shows' with ⟨⟨ledger, cold, placed, same⟩, none, sized⟩
  have placedNow := placed.withScan ((s.scanPtr + 1).tmod (max s.hotDir.capacity 1))
  unfold TeeOmap.demoteStep
  dsimp only
  rcases placed.hot.demoteCandidate_hot with isNone | ⟨nonneg, leaf, stored, isHot⟩
  · rw [isNone]
    refine (placedNow.demote_none lawful nonnegKeys).mono ?_
    rintro s' ⟨ledger', sameKeys, placed'⟩
    refine ⟨fun real => absurd rfl real, fun finds =>
      ⟨⟨ledger', cold, placed' finds, fun key nonneg => ?_⟩, none, sized⟩⟩
    rw [same key nonneg]
    unfold shown
    rw [sameKeys key nonneg]
  · refine (placedNow.demote_real lawful nonneg isHot).mono ?_
    rintro s' ⟨found, taken, enough, fitsFound, placed'⟩
    have length : found.length = config.storedValueSize := le_antisymm fitsFound enough
    rw [List.take_of_length_le length.le] at taken
    have isValue : contents s.demoteCandidate = some (config.userValue found) := by
      rw [same _ nonneg, shown_hot isHot, taken]
    refine ⟨fun _ => by rw [isValue]; rfl, fun finds =>
      ⟨⟨_, _, placed' finds, fun key nonneg' => ?_⟩, none, sized⟩⟩
    have moved : shown config (Function.update ledger s.demoteCandidate .none)
        (Function.update cold s.demoteCandidate
          (some (fitValue config.storedValueSize (demotedRecord config found))))
        s.demoteCandidate = contents s.demoteCandidate := by
      rw [shown_cold (Function.update_self _ _ _), Function.update_self, Option.map_some,
        userValue_demotedRecord length, isValue]
    refine Eq.trans ?_ (shown_update same (fun key' _ differs => Function.update_of_ne differs _ _)
      (fun key' differs => Function.update_of_ne differs _ _) nonneg')
    rw [moved, Function.update_eq_self]

/-- A promotion writes the pending value. -/
theorem Shows.promoteStep (lawful : LawfulColdMap Ω config.storedValueSize config.storedValueSize)
    (shows' : Shows config keys contents s) (nonnegKeys : ∀ key ∈ keys, 0 ≤ key) :
    Returns s.promoteStep (fun s' =>
      (TeeEvent.promoted s.promoteCandidate s.pendingPromoVal).Answered contents ∧
        (FindsKeys s'.coldOmap → Shows config keys
          ((TeeEvent.promoted s.promoteCandidate s.pendingPromoVal).apply config.valueSize
            contents) s')) := by
  rcases shows' with ⟨⟨ledger, cold, placed, same⟩, none, sized⟩
  have size := config.storedValueSize_eq
  have pendingShort := placed.pendingShort
  have short : s.pendingPromoVal.length ≤ config.valueSize := by omega
  unfold TeeOmap.promoteStep
  rcases placed.promoteCandidate_cold nonnegKeys with isNone | ⟨isKey, -, notHot, room⟩
  · rw [isNone]
    refine Prog.ends_bind (placed.promote_none lawful pendingShort) (fun s' placed' => ?_)
    refine Prog.ends_pure ⟨fun real => absurd rfl real, fun finds => ?_⟩
    exact ⟨⟨ledger, cold, (placed' finds).clearPromo, same⟩, none, sized⟩
  · have nonneg := nonnegKeys _ isKey
    refine Prog.ends_bind (placed.promote_real lawful nonneg isKey notHot room pendingShort)
      (fun s' placed' => ?_)
    rcases placed' with ⟨leaf, placed'⟩
    have known : (contents s.promoteCandidate).isSome := by
      rw [same _ nonneg, isSome_shown placed.split nonneg]
      exact isKey
    refine Prog.ends_pure ⟨fun _ => known, fun finds => ?_⟩
    simp only [TeeEvent.apply, if_neg (ne_invalidKey nonneg)]
    refine ⟨⟨_, _, (placed' finds).clearPromo, fun key nonneg' => ?_⟩, none_update none nonneg,
      sized_update sized ?_⟩
    · have moved : shown config (Function.update ledger s.promoteCandidate
          (some (leaf, promotedRecord config s.pendingPromoVal)))
          (Function.update cold s.promoteCandidate .none) s.promoteCandidate =
            some (padBytes s.pendingPromoVal config.valueSize) := by
        rw [shown_hot (Function.update_self _ _ _), userValue_promotedRecord short]
      rw [← moved]
      exact shown_update same (fun key' _ differs => Function.update_of_ne differs _ _)
        (fun key' differs => Function.update_of_ne differs _ _) nonneg'
    · intro value isPending
      obtain rfl := Option.some.inj isPending
      exact length_padBytes short

/-! ## Loading -/

omit [ColdMap Ω] [ColdView Ω] in
/-- The tiers of a freshly loaded map show the records. -/
theorem shown_loaded {allData : List (Int × Bytes)} {hotKeys : List Int} {leafMap : KeyMap Int Int}
    (distinct : (allData.map Prod.fst).Nodup)
    (short : ∀ record ∈ allData, record.2.length ≤ config.valueSize)
    (split : Split (allData.map Prod.fst)
      (initialLedger (hotRecords config allData hotKeys) leafMap)
      (keptRecords config.storedValueSize (coldData config allData hotKeys)))
    (isNonneg : 0 ≤ key) :
    keptRecords config.valueSize allData key =
      shown config (initialLedger (hotRecords config allData hotKeys) leafMap)
        (keptRecords config.storedValueSize (coldData config allData hotKeys)) key := by
  rcases isRecord : KeyMap.lookupEntry allData key with _ | plain
  · have other : key ∉ allData.map Prod.fst := by
      intro mem
      rcases List.mem_map.mp mem with ⟨⟨_, plain⟩, recordMem, rfl⟩
      rw [(KeyMap.lookupEntry_eq_some_iff distinct).mpr recordMem] at isRecord
      cases isRecord
    rw [shown_cold (split.noHot key isNonneg other), split.noCold key other, keptRecords, isRecord]
    rfl
  · have mem := (KeyMap.lookupEntry_eq_some_iff distinct).mp isRecord
    have plainShort : plain.length ≤ config.valueSize := short _ mem
    have isKey : key ∈ allData.map Prod.fst := List.mem_map_of_mem mem
    have value : config.userValue (fitValue config.storedValueSize (config.wrapValue plain {})) =
        fitValue config.valueSize plain := by
      rw [userValue_wrapValue plainShort, fitValue_of_le plainShort]
    have once := split.once key isKey
    rw [keptRecords, isRecord, Option.map_some]
    by_cases isHot : key ∈ hotKeys
    · have notCold : keptRecords config.storedValueSize
        (coldData config allData hotKeys) key = none := by
        rw [← Option.not_isSome_iff_eq_none, keptRecords_cold]
        exact fun both => both.2 isHot
      rw [notCold] at once
      rcases Option.isSome_iff_exists.mp once with ⟨⟨leaf, stored⟩, isLive⟩
      have storedMem := initialLedger_mem isLive
      rcases List.mem_append.mp storedMem with inHot | isFiller
      · rcases mem_storedData (List.mem_filter.mp inHot).1 with ⟨plain', plainMem, rfl⟩
        obtain rfl := Option.some.inj
          (isRecord.symm.trans ((KeyMap.lookupEntry_eq_some_iff distinct).mpr plainMem))
        rw [shown_hot isLive, value]
      · have negative := neg_of_mem_fillers isFiller
        dsimp only at negative
        omega
    · have isCold : (keptRecords config.storedValueSize
        (coldData config allData hotKeys) key).isSome :=
        keptRecords_cold _ |>.mpr ⟨isKey, isHot⟩
      have notHot : initialLedger (hotRecords config allData hotKeys) leafMap key = none := by
        rw [← Option.not_isSome_iff_eq_none, once, ← Option.not_isSome, isCold]
        decide
      have coldNodup : ((coldData config allData hotKeys).map Prod.fst).Nodup := by
        rw [← @keys_storedData config allData] at distinct
        exact distinct.sublist (List.filter_sublist.map _)
      have coldMem : (key, config.wrapValue plain {}) ∈ coldData config allData hotKeys :=
        List.mem_filter.mpr ⟨List.mem_map_of_mem (f := fun record : Int × Bytes =>
          (record.1, config.wrapValue record.2 {})) mem, by simpa using isHot⟩
      rw [shown_cold notHot, keptRecords, (KeyMap.lookupEntry_eq_some_iff coldNodup).mpr coldMem,
        Option.map_some, Option.map_some, value]

/-! ## Runs -/

/--
Runs of `access` from `init`, with what happens: each access is served, and when a maintenance
step is due one key is demoted, then one is promoted. In every state the cold tier finds its
keys, and every access keeps a promise about the state it leads to.
-/
inductive Happened (config : TeeOmapConfig) (allData : List (Int × Bytes)) (hotKeys : List Int)
    (promise : Int → Option Bytes → TeeOmap Ω → Prop) :
    Stage → List TeeEvent → TeeOmap Ω → Prop
  | init {built s : TeeOmap Ω} {world world' loading loaded : TeeWorld}
      (constructed : (new config).runFrom world = (.ok built, world'))
      (initialised : (built.init allData hotKeys).runFrom loading = (.ok s, loaded))
      (finds : FindsKeys s.coldOmap) : Happened config allData hotKeys promise .idle [] s
  | serve {events : List TeeEvent} {s s' : TeeOmap Ω} {key : Int} {newValue : Option Bytes}
      {result : TeeAccessResult} {world world' : TeeWorld}
      (before : Happened config allData hotKeys promise .idle events s) (nonneg : 0 ≤ key)
      (fits : ∀ value ∈ newValue, value.length ≤ config.valueSize)
      (returned : (s.serve key newValue).runFrom world = (.ok (result, s'), world'))
      (finds : FindsKeys s'.coldOmap) (promised : promise key newValue s') :
      Happened config allData hotKeys promise s'.afterServe
          (events ++ [.served key newValue result]) s'
  | demote {events : List TeeEvent} {s s' : TeeOmap Ω} {world world' : TeeWorld}
      (before : Happened config allData hotKeys promise .demoting events s)
      (demoted : s.demoteStep.runFrom world = (.ok s', world')) (finds : FindsKeys s'.coldOmap) :
      Happened config allData hotKeys promise .promoting (events ++ [.demoted s.demoteCandidate]) s'
  | promote {events : List TeeEvent} {s s' : TeeOmap Ω} {world world' : TeeWorld}
      (before : Happened config allData hotKeys promise .promoting events s)
      (promoted : s.promoteStep.runFrom world = (.ok s', world')) (finds : FindsKeys s'.coldOmap) :
      Happened config allData hotKeys promise .idle
        (events ++ [.promoted s.promoteCandidate s.pendingPromoVal]) s'

/-- A run that keeps a promise keeps a weaker one. -/
theorem Happened.weaken {promise promise' : Int → Option Bytes → TeeOmap Ω → Prop}
    {config : TeeOmapConfig} {allData : List (Int × Bytes)} {hotKeys : List Int} {stage : Stage}
    {events : List TeeEvent} {s : TeeOmap Ω}
    (kept : ∀ key newValue s, promise key newValue s → promise' key newValue s)
    (happened : Happened config allData hotKeys promise stage events s) :
    Happened config allData hotKeys promise' stage events s := by
  induction happened with
  | init constructed initialised finds => exact .init constructed initialised finds
  | serve before nonneg fits returned finds promised ih =>
      exact .serve ih nonneg fits returned finds (kept _ _ _ promised)
  | demote before demoted finds ih => exact .demote ih demoted finds
  | promote before promoted finds ih => exact .promote ih promoted finds

/-- Each event is answered as by the finite map after the events before it. -/
def AllAnswered (step : (Int → Option Bytes) → TeeEvent → Int → Option Bytes)
    (contents : Int → Option Bytes) : List TeeEvent → Prop
  | [] => True
  | event :: events => event.Answered contents ∧ AllAnswered step (step contents event) events

omit [ColdMap Ω] [ColdView Ω] in
theorem allAnswered_append (step : (Int → Option Bytes) → TeeEvent → Int → Option Bytes)
    (contents : Int → Option Bytes) (events : List TeeEvent) (event : TeeEvent) :
    AllAnswered step contents (events ++ [event]) ↔
      AllAnswered step contents events ∧ event.Answered (events.foldl step contents) := by
  induction events generalizing contents with
  | nil => simp [AllAnswered]
  | cons first rest ih =>
      rw [List.cons_append, AllAnswered, AllAnswered, ih, and_assoc]
      rfl

section Runs

variable {allData : List (Int × Bytes)} {hotKeys : List Int} {stage : Stage}
  {events : List TeeEvent} {promise : Int → Option Bytes → TeeOmap Ω → Prop}

/-- The map shows the values of the finite map, in every state of a run. -/
theorem Happened.shows (lawful : LawfulColdMap Ω config.storedValueSize config.storedValueSize)
    (loads : Loads config allData hotKeys)
    (short : ∀ record ∈ allData, record.2.length ≤ config.valueSize)
    (happened : Happened config allData hotKeys promise stage events s) :
    Shows config (allData.map Prod.fst)
        (events.foldl (TeeEvent.apply config.valueSize) (keptRecords config.valueSize allData)) s ∧
      AllAnswered (TeeEvent.apply config.valueSize) (keptRecords config.valueSize allData)
        events := by
  have size := config.storedValueSize_eq
  induction happened with
  | init constructed initialised finds =>
      refine ⟨?_, trivial⟩
      have placed := (placed_init lawful le_rfl loads.unsplit loads.distinct loads.nonneg
        loads.hotFit (fun record mem => by have := short record mem; omega)
        constructed).returned initialised finds
      rcases placed with ⟨leafMap, placed⟩
      refine ⟨⟨_, _, placed, fun key nonneg =>
          shown_loaded loads.distinct short placed.split nonneg⟩,
        fun key negative => ?_, fun key value found => ?_⟩
      · refine Option.map_eq_none_iff.mpr ?_
        rcases isRecord : KeyMap.lookupEntry allData key with _ | plain
        · rfl
        · have mem := (KeyMap.lookupEntry_eq_some_iff loads.distinct).mp isRecord
          have nonneg := loads.nonneg _ mem
          dsimp only at nonneg
          omega
      · rcases Option.map_eq_some_iff.mp found with ⟨plain, -, rfl⟩
        exact length_fitValue _ _
  | serve before nonneg fits returned finds _ ih =>
      rcases ih with ⟨shows', answered⟩
      rcases (shows'.serve lawful loads.nonnegKeys loads.threshold nonneg fits).returned
          returned with
        ⟨answers, next⟩
      exact ⟨List.foldl_concat .. ▸ next finds,
        (allAnswered_append ..).mpr ⟨answered, answers⟩⟩
  | demote before demoted finds ih =>
      rcases ih with ⟨shows', answered⟩
      rcases (shows'.demoteStep lawful loads.nonnegKeys).returned demoted with ⟨answers, next⟩
      exact ⟨List.foldl_concat .. ▸ next finds,
        (allAnswered_append ..).mpr ⟨answered, answers⟩⟩
  | promote before promoted finds ih =>
      rcases ih with ⟨shows', answered⟩
      rcases (shows'.promoteStep lawful loads.nonnegKeys).returned promoted with ⟨answers, next⟩
      exact ⟨List.foldl_concat .. ▸ next finds,
        (allAnswered_append ..).mpr ⟨answered, answers⟩⟩

/-! ## The latest write -/

/-- The pending promotion has the value of its key. -/
def Current (size : Nat) (contents : Int → Option Bytes) (s : TeeOmap Ω) : Prop :=
  s.pendingPromoKey ≠ invalidKey →
    contents s.pendingPromoKey = some (padBytes s.pendingPromoVal size)

/-- The key that is pending after an access is not one the access wrote to. -/
def LeavesPending (key : Int) (newValue : Option Bytes) (s : TeeOmap Ω) : Prop :=
  newValue.isSome → key ≠ s.pendingPromoKey

omit [ColdMap Ω] in
/-- Exactly the keys of the map have a value. -/
theorem Shows.isSome (shows' : Shows config keys contents s) (nonneg : 0 ≤ key) :
    (contents key).isSome ↔ key ∈ keys := by
  rcases shows' with ⟨⟨ledger, cold, placed, same⟩, -, -⟩
  rw [same key nonneg, isSome_shown placed.split nonneg]

omit [ColdMap Ω] in
theorem Shows.pending (shows' : Shows config keys contents s) :
    (s.pendingPromoKey = invalidKey ∨ s.pendingPromoKey ∈ keys) ∧
      s.pendingPromoVal.length ≤ config.valueSize := by
  rcases shows' with ⟨⟨ledger, cold, placed, -⟩, -, -⟩
  have size := config.storedValueSize_eq
  have short := placed.pendingShort
  exact ⟨placed.pending, by omega⟩

omit [ColdMap Ω] in
/-- An access that does not write to the pending key leaves the pending value current. -/
theorem Current.serve {s' : TeeOmap Ω} {newValue : Option Bytes} {result : TeeAccessResult}
    (current : Current config.valueSize contents s) (shows' : Shows config keys contents s)
    (shows'' : Shows config keys
      ((TeeEvent.served key newValue result).apply config.valueSize contents) s')
    (answered : (TeeEvent.served key newValue result).Answered contents) (nonneg : 0 ≤ key)
    (sameConfig : s.config = config) (leaves : LeavesPending key newValue s')
    (pending : (s'.pendingPromoKey = s.pendingPromoKey ∧
        (s'.pendingPromoVal = s.pendingPromoVal ∨ ∃ size, s.config.valueSize ≤ size ∧
          s'.pendingPromoVal = resizeBytes s.pendingPromoVal size)) ∨
      (s'.pendingPromoKey = key ∧ result.early.found = false ∧
        s'.pendingPromoVal = result.value)) :
    Current config.valueSize
      ((TeeEvent.served key newValue result).apply config.valueSize contents) s' := by
  have untouched : (TeeEvent.served key newValue result).apply config.valueSize contents
      s'.pendingPromoKey = contents s'.pendingPromoKey := by
    simp only [TeeEvent.apply]
    by_cases here : s'.pendingPromoKey = key
    · cases newValue with
      | none =>
          rw [here, Function.update_self]
          exact Option.map_id' ..
      | some value => exact absurd here.symm (leaves rfl)
    · rw [Function.update_of_ne here]
  intro real
  rw [untouched]
  have lengths := shows''.pending
  rcases pending with ⟨sameKey, sameVal | ⟨size, large, resized⟩⟩ | ⟨isKey, -, isValue⟩
  · rw [sameKey, sameVal]
    exact current (sameKey ▸ real)
  · have exact' : size = config.valueSize := by
      have length := lengths.2
      rw [resized, length_resizeBytes] at length
      exact le_antisymm length (sameConfig ▸ large)
    rw [sameKey, resized, exact', padBytes_resizeBytes shows'.pending.2]
    exact current (sameKey ▸ real)
  · have inKeys : key ∈ keys := isKey ▸ lengths.1.resolve_left real
    rcases Option.isSome_iff_exists.mp ((shows'.isSome nonneg).mpr inKeys) with ⟨value, found⟩
    unfold TeeEvent.Answered at answered
    dsimp only at answered
    rw [found] at answered
    rw [isKey, found, isValue, answered.1, padBytes_of_length (shows'.sized key value found)]

omit [ColdView Ω] in
theorem returns_init_pending (allData : List (Int × Bytes)) (hotKeys : List Int) :
    Returns (s.init allData hotKeys) (fun s' => s'.pendingPromoKey = s.pendingPromoKey) := by
  unfold TeeOmap.init
  refine Prog.ends_bind (returns_any _) (fun loaded _ => ?_)
  refine Prog.ends_bind (returns_any _) (fun coldOmap _ => ?_)
  exact Prog.ends_pure rfl

omit [ColdView Ω] in
/-- A demotion leaves the pending promotion alone, and a promotion is the end of it. -/
theorem returns_demoteStep_pending : Returns s.demoteStep (fun s' =>
    s'.pendingPromoKey = s.pendingPromoKey ∧ s'.pendingPromoVal = s.pendingPromoVal) := by
  unfold TeeOmap.demoteStep demote
  refine Prog.ends_bind (returns_any _) (fun dummyLeaf _ => ?_)
  refine Prog.ends_bind (returns_any _) (fun opened _ => ?_)
  refine Prog.ends_bind (returns_any _) (fun newLeaf _ => ?_)
  refine Prog.ends_bind (returns_any _) (fun evicted _ => ?_)
  refine Prog.ends_bind (returns_any _) (fun coldOmap _ => ?_)
  exact Prog.ends_pure ⟨rfl, rfl⟩

omit [ColdView Ω] in
theorem returns_promoteStep_pending :
    Returns s.promoteStep (fun s' => s'.pendingPromoKey = invalidKey) := by
  unfold TeeOmap.promoteStep
  refine Prog.ends_bind (returns_any _) (fun promoted _ => ?_)
  exact Prog.ends_pure rfl

omit [ColdMap Ω] [ColdView Ω] in
/-- A promotion of the current value changes nothing. -/
theorem apply_promoted (current : Current config.valueSize contents s)
    (candidate : s.promoteCandidate = invalidKey ∨ s.promoteCandidate = s.pendingPromoKey) :
    (TeeEvent.promoted s.promoteCandidate s.pendingPromoVal).apply config.valueSize contents =
      contents := by
  simp only [TeeEvent.apply]
  split
  · rfl
  · rename_i real
    have isPending := candidate.resolve_left real
    rw [isPending, ← current (isPending ▸ real), Function.update_eq_self]

/-- While no access writes to the pending key, the values are those of the latest writes. -/
theorem Happened.latest (lawful : LawfulColdMap Ω config.storedValueSize config.storedValueSize)
    (loads : Loads config allData hotKeys)
    (short : ∀ record ∈ allData, record.2.length ≤ config.valueSize)
    (happened : Happened config allData hotKeys LeavesPending stage events s) :
    events.foldl (TeeEvent.apply config.valueSize) (keptRecords config.valueSize allData) =
        events.foldl (TeeEvent.access config.valueSize) (keptRecords config.valueSize allData) ∧
      Current config.valueSize
        (events.foldl (TeeEvent.access config.valueSize) (keptRecords config.valueSize allData)) s ∧
      AllAnswered (TeeEvent.access config.valueSize) (keptRecords config.valueSize allData)
        events := by
  induction happened with
  | init constructed initialised finds =>
      refine ⟨rfl, fun real => absurd ?_ real, trivial⟩
      rw [(returns_init_pending _ _).returned initialised,
        ((returns_new config).returned constructed).2]
  | serve before nonneg fits returned finds leaves ih =>
      rcases ih with ⟨same, current, answered⟩
      have shows' := (before.shows lawful loads short).1
      rw [same] at shows'
      rcases (shows'.serve lawful loads.nonnegKeys loads.threshold nonneg fits).returned
          returned with
        ⟨answers, next⟩
      rw [List.foldl_concat, List.foldl_concat, same]
      refine ⟨rfl, ?_, (allAnswered_append ..).mpr ⟨answered, answers⟩⟩
      rcases shows'.placed with ⟨_, _, placed, -⟩
      exact current.serve shows' (next finds) answers nonneg placed.sameConfig leaves
        ((returns_serve_pending _ _).returned returned)
  | demote before demoted finds ih =>
      rcases ih with ⟨same, current, answered⟩
      have shows' := (before.shows lawful loads short).1
      rw [same] at shows'
      rcases (shows'.demoteStep lawful loads.nonnegKeys).returned demoted with ⟨answers, -⟩
      rcases returns_demoteStep_pending.returned demoted with ⟨sameKey, sameVal⟩
      rw [List.foldl_concat, List.foldl_concat, same]
      refine ⟨rfl, ?_, (allAnswered_append ..).mpr ⟨answered, answers⟩⟩
      unfold Current at current ⊢
      rw [sameKey, sameVal]
      exact current
  | promote before promoted finds ih =>
      rcases ih with ⟨same, current, answered⟩
      have shows' := (before.shows lawful loads short).1
      rw [same] at shows'
      rcases (shows'.promoteStep lawful loads.nonnegKeys).returned promoted with ⟨answers, -⟩
      have none := returns_promoteStep_pending.returned promoted
      rw [List.foldl_concat, List.foldl_concat, same]
      refine ⟨apply_promoted current ?_, fun real => absurd none real,
        (allAnswered_append ..).mpr ⟨answered, answers⟩⟩
      rcases shows'.placed with ⟨_, _, placed, -⟩
      exact (placed.promoteCandidate_cold loads.nonnegKeys).imp_right (fun known => known.2.1)

end Runs

end TeeOmap

end TieredOmap
