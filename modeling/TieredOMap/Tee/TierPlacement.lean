import TieredOMap.Tee.HotTier

/-!
# Where the keys of the tiered map are

Each key of the initial data is in one of the two tiers. An access leaves a key in its tier, a
demotion takes a hot key to the cold tier and a promotion the pending key to the hot one, if
there is room for it. `Placed` is the invariant of the runs: the hot tier keeps a ledger and the
cold one a finite map, and together they have each key once.
-/

namespace TieredOmap

namespace TeeOmap

open EnclaveOram ColdView

variable {Ω : Type} {s s' : TeeOmap Ω} {config : TeeOmapConfig}
  {keys : List Int} {widest : Nat} {ledger ledger' : Ledger} {cold cold' : Int → Option Bytes}
  {key leaf : Int} {value : Bytes} {newValue : Option Bytes}

/-- Each key is in one of the tiers, and no other key is in any. -/
structure Split (keys : List Int) (ledger : Ledger) (cold : Int → Option Bytes) : Prop where
  once : ∀ key ∈ keys, (ledger key).isSome = (cold key).isNone
  noHot : ∀ key, 0 ≤ key → key ∉ keys → ledger key = none
  noCold : ∀ key, key ∉ keys → cold key = none

theorem Split.cold_of_hot (split : Split keys ledger cold) (nonneg : 0 ≤ key)
    (isLive : ledger key = some (leaf, value)) : key ∈ keys ∧ cold key = none := by
  have isKey : key ∈ keys := by
    by_contra other
    rw [split.noHot key nonneg other] at isLive
    cases isLive
  refine ⟨isKey, ?_⟩
  have once := split.once key isKey
  rw [isLive] at once
  exact Option.isNone_iff_eq_none.mp once.symm

theorem Split.hot_of_cold (split : Split keys ledger cold) (found : cold key = some value) :
    key ∈ keys ∧ ledger key = none := by
  have isKey : key ∈ keys := by
    by_contra other
    rw [split.noCold key other] at found
    cases found
  refine ⟨isKey, ?_⟩
  have once := split.once key isKey
  rw [found] at once
  exact Option.isNone_iff_eq_none.mp (by simpa using once)

/-- Only the values of the keys have changed. -/
theorem Split.congr (split : Split keys ledger cold)
    (sameHot : ∀ key, 0 ≤ key → (ledger' key).isSome = (ledger key).isSome)
    (sameCold : ∀ key, (cold' key).isSome = (cold key).isSome) (nonneg : ∀ key ∈ keys, 0 ≤ key) :
    Split keys ledger' cold' := by
  have noneHot : ∀ key, 0 ≤ key → ledger key = none → ledger' key = none := by
    intro key nonneg absent
    have same := sameHot key nonneg
    rw [absent] at same
    simpa using same
  have noneCold : ∀ key, cold key = none → cold' key = none := by
    intro key absent
    have same := sameCold key
    rw [absent] at same
    simpa using same
  refine ⟨fun key isKey => ?_, fun key isNonneg other => noneHot key isNonneg
    (split.noHot key isNonneg other), fun key other => noneCold key (split.noCold key other)⟩
  have same := sameCold key
  have once := split.once key isKey
  rw [sameHot key (nonneg key isKey), once]
  rw [← Option.not_isSome, ← Option.not_isSome, same]

theorem isSome_update {Entry : Type} {contents : Int → Option Entry} {key : Int} {old new : Entry}
    (found : contents key = some old) (key' : Int) :
    (Function.update contents key (some new) key').isSome = (contents key').isSome := by
  rw [Function.update_apply]
  split
  · rename_i same
    rw [same, found]
    rfl
  · rfl

theorem SameKeys.isSome_eq (same : SameKeys ledger ledger') (key : Int) (nonneg : 0 ≤ key) :
    (ledger' key).isSome = (ledger key).isSome := by
  rw [same key nonneg]

/-! ## Serving an access -/

/-- What an access writes to the record it finds in the cold tier. -/
def coldWriteBack (s : TeeOmap Ω) (newValue : Option Bytes) (found value : Bytes) : Bytes :=
  writtenBack (if s.config.maintenance.enabled then none else newValue)
    (if s.config.maintenance.enabled then some (s.coldTransform newValue true) else none) found value

theorem length_coldWriteBack (short : Short s.config widest newValue) {found : Bytes}
    (taken : found.take s.config.storedValueSize = value)
    (enough : s.config.storedValueSize ≤ found.length) (fits : found.length ≤ widest) :
    (s.coldWriteBack newValue found value).length ≤ widest := by
  have valueLength : value.length = s.config.storedValueSize := by
    rw [← taken, List.length_take]
    omega
  unfold coldWriteBack
  cases enabled : s.config.maintenance.enabled with
  | false =>
      change (newValue.getD value).length ≤ widest
      cases newValue with
      | none =>
          change value.length ≤ widest
          omega
      | some new =>
          have newFits := short new rfl
          change new.length ≤ widest
          omega
  | true =>
      have unwrapped := TeeOmapConfig.length_unwrapValue enough
      have stored := s.config.storedValueSize_eq
      have wrapped : ∀ (plain : Bytes) (epochMeta : EpochMeta),
          (s.config.wrapValue plain epochMeta).length ≤
            max plain.length s.config.valueSize + s.config.overhead := by
        intro plain epochMeta
        rw [← @TeeOmapConfig.length_wrapValue s.config plain epochMeta,
          TeeOmapConfig.length_padBytes_eq]
        exact le_max_left _ _
      change (s.coldTransform newValue true found).length ≤ widest
      unfold coldTransform
      dsimp only
      refine (wrapped _ _).trans ?_
      cases newValue with
      | none =>
          dsimp only
          rw [TeeOmapConfig.length_padBytes_eq]
          omega
      | some new =>
          have newFits := short new rfl
          dsimp only
          rw [length_oMovBytes, TeeOmapConfig.length_padBytes_eq]
          omega

/-- The end of an access: a candidate for promotion is noted, and the clock moves on. -/
def noted (s : TeeOmap Ω) (key : Int) (coldReal skipCold : Bool) (coldStored : Bytes)
    (coldMeta : EpochMeta) : TeeOmap Ω :=
  if s.config.maintenance.enabled then
    (s.notePromotion key coldReal skipCold coldStored coldMeta).tick else s

theorem coldOmap_noted (key : Int) (coldReal skipCold : Bool) (coldStored : Bytes)
    (coldMeta : EpochMeta) :
    (s.noted key coldReal skipCold coldStored coldMeta).coldOmap = s.coldOmap := by
  unfold noted
  split <;> rfl

/-- The key to be demoted is a hot one. -/
theorem HotTier.demoteCandidate_hot (hot : HotTier s widest ledger) :
    s.demoteCandidate = invalidKey ∨ 0 ≤ s.demoteCandidate ∧
      ∃ leaf value, ledger s.demoteCandidate = some (leaf, value) := by
  rcases s.hotDir.findDemoteCandidate_spec s.scanPtr s.currentEpoch
    s.config.maintenance.stalenessWindows s.config.maintenance.demoteThreshold with
    none | ⟨entry, mem, -, found⟩
  · exact Or.inl none
  · change entry.key = s.demoteCandidate at found
    by_cases real : entry.key = invalidKey
    · exact Or.inl (found ▸ real)
    · have listed := (hot.indexes.entry entry.key entry.posLabel).mp
        (PackedDirectory.mem_labelled.mpr ⟨real, entry, mem, rfl, rfl⟩)
      rw [found] at listed
      unfold hotLabels at listed
      split at listed
      · rename_i nonneg
        rcases Option.map_eq_some_iff.mp listed with ⟨⟨leaf, value⟩, isLive, -⟩
        exact Or.inr ⟨nonneg, leaf, value, isLive⟩
      · cases listed

variable [ColdView Ω]

/-- The tiers have each key once, and the pending promotion is one of the keys. -/
structure Placed (config : TeeOmapConfig) (keys : List Int) (widest : Nat) (ledger : Ledger)
    (cold : Int → Option Bytes) (s : TeeOmap Ω) : Prop where
  sameConfig : s.config = config
  hot : HotTier s widest ledger
  rep : Rep s.coldOmap config.storedValueSize cold
  split : Split keys ledger cold
  pending : s.pendingPromoKey = invalidKey ∨ s.pendingPromoKey ∈ keys
  pendingShort : s.pendingPromoVal.length + config.overhead ≤ widest

theorem Placed.noted (placed : Placed config keys widest ledger cold s) {coldReal skipCold : Bool}
    {coldStored : Bytes} {coldMeta : EpochMeta}
    (enough : config.storedValueSize ≤ coldStored.length) (fits : coldStored.length ≤ widest)
    (isKey : s.config.maintenance.enabled = true → coldReal = true →
      oLess coldMeta.cnt s.config.maintenance.promoteThreshold = false → key ∈ keys) :
    Placed config keys widest ledger cold (s.noted key coldReal skipCold coldStored coldMeta) := by
  unfold TeeOmap.noted
  split
  · rename_i enabled
    refine ⟨placed.sameConfig, ⟨placed.hot.sound, placed.hot.indexes, placed.hot.leaves,
      placed.hot.valueSize, placed.hot.capacity⟩, placed.rep, placed.split, ?_, ?_⟩
    · change oMov (coldReal && !oLess coldMeta.cnt s.config.maintenance.promoteThreshold)
        s.pendingPromoKey key = invalidKey ∨ oMov _ s.pendingPromoKey key ∈ keys
      cases candidate : coldReal && !oLess coldMeta.cnt s.config.maintenance.promoteThreshold with
      | false => exact placed.pending
      | true =>
          rw [Bool.and_eq_true, Bool.not_eq_true'] at candidate
          exact Or.inr (isKey enabled candidate.1 candidate.2)
    · rw [← placed.sameConfig] at enough ⊢
      have unwrapped := TeeOmapConfig.length_unwrapValue enough
      have stored := s.config.storedValueSize_eq
      change (oMovBytes _ s.pendingPromoVal (padBytes (if skipCold then s.config.zeros else
        (s.config.unwrapValue coldStored).1) s.config.valueSize)).length + _ ≤ _
      rw [length_oMovBytes, TeeOmapConfig.length_padBytes_eq]
      split
      · simp only [TeeOmapConfig.zeros, List.length_replicate]
        omega
      · omega
  · exact placed

/-- Only the scan goes on. -/
theorem Placed.withScan (placed : Placed config keys widest ledger cold s) (scanPtr : Int) :
    Placed config keys widest ledger cold { s with scanPtr } :=
  ⟨placed.sameConfig, ⟨placed.hot.sound, placed.hot.indexes, placed.hot.leaves,
    placed.hot.valueSize, placed.hot.capacity⟩, placed.rep, placed.split, placed.pending,
    placed.pendingShort⟩

/-- The key to be promoted is a cold one, and there is room for it. -/
theorem Placed.promoteCandidate_cold (placed : Placed config keys widest ledger cold s)
    (nonnegKeys : ∀ key ∈ keys, 0 ≤ key) :
    s.promoteCandidate = invalidKey ∨ s.promoteCandidate ∈ keys ∧
      s.promoteCandidate = s.pendingPromoKey ∧ ledger s.promoteCandidate = none ∧
      s.hotDir.count < s.hotCapacity := by
  unfold promoteCandidate
  dsimp only
  cases promoted : !oEqual s.pendingPromoKey invalidKey &&
    !(!oEqual (s.hotDir.lookup s.pendingPromoKey) invalidLeaf) &&
      decide (s.hotDir.count < s.hotCapacity) with
  | false => exact Or.inl rfl
  | true =>
      simp only [oEqual_eq, Bool.and_eq_true, Bool.not_not, Bool.not_eq_true',
        decide_eq_false_iff_not, decide_eq_true_eq] at promoted
      rcases promoted with ⟨⟨real, missed⟩, room⟩
      have isKey := placed.pending.resolve_left real
      have isHot := placed.hot.isHot_eq (nonnegKeys _ isKey)
      unfold TeeOmap.isHot at isHot
      rw [missed] at isHot
      refine Or.inr ⟨isKey, rfl, ?_, room⟩
      exact Option.isSome_eq_false_iff.mp isHot.symm |> Option.isNone_iff_eq_none.mp

theorem Placed.clearPromo (placed : Placed config keys widest ledger cold s) :
    Placed config keys widest ledger cold s.clearPromo := by
  refine ⟨placed.sameConfig, ⟨placed.hot.sound, placed.hot.indexes, placed.hot.leaves,
    placed.hot.valueSize, placed.hot.capacity⟩, placed.rep, placed.split, Or.inl rfl, ?_⟩
  have enough := placed.hot.sound.fitted.wide
  rw [placed.hot.valueSize, TeeOmapConfig.storedValueSize_eq] at enough
  change (List.replicate s.config.valueSize (0 : UInt8)).length + _ ≤ _
  rw [List.length_replicate, ← placed.sameConfig]
  exact enough

variable [ColdMap Ω]

/-- A dummy access to the cold tier. -/
theorem returns_accessCold_dummy (lawful : LawfulColdMap Ω s.config.storedValueSize widest)
    (rep : Rep s.coldOmap s.config.storedValueSize cold) (key : Int) (newValue : Option Bytes) :
    Returns (s.accessCold key newValue false) (fun result => ∃ coldOmap,
      result = (List.replicate s.config.storedValueSize 0, { s with coldOmap }) ∧
        (FindsKeys coldOmap → Rep coldOmap s.config.storedValueSize cold)) := by
  unfold accessCold
  refine Prog.ends_bind (lawful.returns_dummy _ _ _ _ _ rep) (fun outcome spec => ?_)
  rcases outcome with ⟨found, coldOmap⟩
  rcases spec with ⟨rfl, rep'⟩
  exact Prog.ends_pure ⟨coldOmap, rfl, rep'⟩

/-- An access to a hot key. -/
theorem Placed.serve_hot (lawful : LawfulColdMap Ω config.storedValueSize widest)
    (placed : Placed config keys widest ledger cold s) (nonnegKeys : ∀ key ∈ keys, 0 ≤ key)
    (nonneg : 0 ≤ key) (isLive : ledger key = some (leaf, value))
    (short : Short config widest newValue) :
    Returns (s.serve key newValue) (fun result => ∃ newLeaf found,
      found.take config.storedValueSize = fitValue config.storedValueSize value ∧
      config.storedValueSize ≤ found.length ∧ found.length ≤ widest ∧
      result.1.early = ⟨padBytes (config.unwrapValue found).1 config.valueSize, true⟩ ∧
      result.1.final = ⟨result.1.value, false⟩ ∧
      (result.1.value = result.1.early.value ∨
        result.1.value = resizeBytes result.1.early.value config.valueSize) ∧
      (FindsKeys result.2.coldOmap → Placed config keys widest
        (Function.update ledger key (some (newLeaf, s.hotWriteBack newValue true found))) cold
        result.2)) := by
  have sameConfig := placed.sameConfig
  subst sameConfig
  unfold serve
  refine Prog.ends_bind (placed.hot.accessHot_hit nonneg isLive short) (fun first spec => ?_)
  rcases spec with ⟨hotOram, hotDir, newLeaf, found, rfl, taken, enough, fits, hot⟩
  dsimp only
  have sameHot := @isSome_update _ ledger key _ (newLeaf, s.hotWriteBack newValue true found) isLive
  have split := placed.split.congr (fun key _ => sameHot key) (fun _ => rfl) nonnegKeys
  refine Prog.ends_bind (Q := fun result => ∃ coldOmap,
    result = (List.replicate s.config.storedValueSize 0, { s with hotOram, hotDir, coldOmap }) ∧
      (FindsKeys coldOmap → Rep coldOmap s.config.storedValueSize cold)) ?_ (fun second spec => ?_)
  · split
    · exact Prog.ends_pure ⟨s.coldOmap, rfl, fun _ => placed.rep⟩
    · exact returns_accessCold_dummy (s := { s with hotOram, hotDir }) lawful placed.rep key newValue
  · rcases spec with ⟨coldOmap, rfl, rep⟩
    refine Prog.ends_pure ⟨newLeaf, found, taken, enough, fits, rfl, rfl, ?_, fun coldFits => ?_⟩
    · dsimp only
      split
      · exact Or.inl rfl
      · have unwrapped := @TeeOmapConfig.length_unwrapValue s.config
          (List.replicate s.config.storedValueSize 0) (List.length_replicate).ge
        have stored := s.config.storedValueSize_eq
        rw [List.length_replicate] at unwrapped
        right
        change resizeBytes _ (padBytes _ s.config.valueSize).length = _
        rw [TeeOmapConfig.length_padBytes_eq, max_eq_right (by omega)]
    · change FindsKeys (TeeOmap.noted _ key _ _ _ _).coldOmap at coldFits
      rw [coldOmap_noted] at coldFits
      exact Placed.noted (s := { s with hotOram, hotDir, coldOmap })
        ⟨rfl, ⟨hot.sound, hot.indexes, hot.leaves, hot.valueSize, hot.capacity⟩, rep coldFits,
          split, placed.pending, placed.pendingShort⟩ (List.length_replicate).ge
        ((List.length_replicate).trans_le (enough.trans fits))
        (fun _ impossible => absurd impossible (by simp))

/-- A search for a key of the cold tier. -/
theorem returns_accessCold_found (lawful : LawfulColdMap Ω s.config.storedValueSize widest)
    (rep : Rep s.coldOmap s.config.storedValueSize cold) (nonneg : 0 ≤ key)
    (isLive : cold key = some value) (short : Short s.config widest newValue) :
    Returns (s.accessCold key newValue true) (fun result => ∃ found coldOmap,
      result = (found, { s with coldOmap }) ∧ found.take s.config.storedValueSize = value ∧
      s.config.storedValueSize ≤ found.length ∧ found.length ≤ widest ∧
      (FindsKeys coldOmap → Rep coldOmap s.config.storedValueSize (Function.update cold key
        (some (fitValue s.config.storedValueSize (s.coldWriteBack newValue found value)))))) := by
  unfold accessCold
  refine Prog.ends_bind (lawful.returns_found _ _ _ _ _ value rep nonneg isLive
    (fun found taken enough fits => length_coldWriteBack short taken enough fits))
    (fun outcome spec => ?_)
  rcases outcome with ⟨⟨found, isFound⟩, coldOmap⟩
  rcases spec with ⟨-, taken, enough, fits, rep'⟩
  exact Prog.ends_pure ⟨found, coldOmap, rfl, taken, enough, fits, rep'⟩

/-- A search for a key that is nowhere. -/
theorem returns_accessCold_absent (lawful : LawfulColdMap Ω s.config.storedValueSize widest)
    (rep : Rep s.coldOmap s.config.storedValueSize cold) (nonneg : 0 ≤ key)
    (absent : cold key = none) (newValue : Option Bytes) :
    Returns (s.accessCold key newValue true) (fun result => ∃ coldOmap,
      result = (List.replicate s.config.storedValueSize 0, { s with coldOmap }) ∧
        (FindsKeys coldOmap → Rep coldOmap s.config.storedValueSize cold)) := by
  unfold accessCold
  refine Prog.ends_bind (lawful.returns_absent _ _ _ _ _ rep nonneg absent) (fun outcome spec => ?_)
  rcases outcome with ⟨found, coldOmap⟩
  rcases spec with ⟨rfl, rep'⟩
  exact Prog.ends_pure ⟨coldOmap, rfl, rep'⟩

/-- An access to a cold key. -/
theorem Placed.serve_cold (lawful : LawfulColdMap Ω config.storedValueSize widest)
    (placed : Placed config keys widest ledger cold s) (nonnegKeys : ∀ key ∈ keys, 0 ≤ key)
    (isLive : cold key = some value) (short : Short config widest newValue) :
    Returns (s.serve key newValue) (fun result => ∃ ledger' found,
      SameKeys ledger ledger' ∧ found.take config.storedValueSize = value ∧
      config.storedValueSize ≤ found.length ∧ found.length ≤ widest ∧
      result.1.early.found = false ∧ result.1.final = ⟨result.1.value, true⟩ ∧
      result.1.value = padBytes (config.unwrapValue found).1 config.valueSize ∧
      (FindsKeys result.2.coldOmap → Placed config keys widest ledger'
        (Function.update cold key (some (fitValue config.storedValueSize
          (s.coldWriteBack newValue found value)))) result.2)) := by
  have sameConfig := placed.sameConfig
  subst sameConfig
  rcases placed.split.hot_of_cold isLive with ⟨isKey, absent⟩
  have nonneg := nonnegKeys key isKey
  unfold serve
  refine Prog.ends_bind (placed.hot.accessHot_miss nonneg absent short) (fun first spec => ?_)
  rcases first with ⟨⟨early, isFound⟩, mid⟩
  rcases spec with ⟨hotOram, hotDir, ledger', missed, rfl, same, hot⟩
  cases missed
  dsimp only
  simp only [Bool.and_false, Bool.false_eq_true, if_false, Bool.not_false]
  refine Prog.ends_bind (returns_accessCold_found (s := { s with hotOram, hotDir }) lawful
    placed.rep nonneg isLive short) (fun second spec => ?_)
  rcases spec with ⟨found, coldOmap, rfl, taken, enough, fits, rep⟩
  refine Prog.ends_pure ⟨ledger', found, same, taken, enough, fits, rfl, rfl, rfl, fun coldFits => ?_⟩
  change FindsKeys (TeeOmap.noted _ key _ _ _ _).coldOmap at coldFits
  rw [coldOmap_noted] at coldFits
  exact Placed.noted (s := { s with hotOram, hotDir, coldOmap })
    ⟨rfl, ⟨hot.sound, hot.indexes, hot.leaves, hot.valueSize, hot.capacity⟩, rep coldFits,
      placed.split.congr same.isSome_eq (isSome_update isLive) nonnegKeys, placed.pending,
      placed.pendingShort⟩ enough fits (fun _ _ _ => isKey)

/-- Nothing is counted in a record of zeros. -/
theorem cnt_zeros (enabled : config.maintenance.enabled = true) :
    (config.unwrapValue (List.replicate config.storedValueSize 0)).2.cnt = 0 := by
  unfold TeeOmapConfig.unwrapValue TeeOmapConfig.storedValueSize decodeEpoch
  rw [if_pos enabled, if_pos enabled, List.length_replicate, if_neg (by omega)]
  dsimp only
  rw [List.drop_replicate, Nat.sub_sub_self (Nat.le_add_left _ _)]
  decide

/-- An access to a key that is nowhere. -/
theorem Placed.serve_absent (lawful : LawfulColdMap Ω config.storedValueSize widest)
    (placed : Placed config keys widest ledger cold s) (nonnegKeys : ∀ key ∈ keys, 0 ≤ key)
    (threshold : config.maintenance.enabled = true →
      1 ≤ config.maintenance.promoteThreshold ∧ IsInt config.maintenance.promoteThreshold)
    (nonneg : 0 ≤ key) (other : key ∉ keys) (short : Short config widest newValue) :
    Returns (s.serve key newValue) (fun result => ∃ ledger', SameKeys ledger ledger' ∧
      result.1.early.found = false ∧ result.1.final = ⟨result.1.value, true⟩ ∧
      (FindsKeys result.2.coldOmap → Placed config keys widest ledger' cold result.2)) := by
  have sameConfig := placed.sameConfig
  subst sameConfig
  unfold serve
  refine Prog.ends_bind (placed.hot.accessHot_miss nonneg (placed.split.noHot key nonneg other)
    short) (fun first spec => ?_)
  rcases first with ⟨⟨early, isFound⟩, mid⟩
  rcases spec with ⟨hotOram, hotDir, ledger', missed, rfl, same, hot⟩
  cases missed
  dsimp only
  simp only [Bool.and_false, Bool.false_eq_true, if_false, Bool.not_false]
  refine Prog.ends_bind (returns_accessCold_absent (s := { s with hotOram, hotDir }) lawful
    placed.rep nonneg (placed.split.noCold key other) newValue) (fun second spec => ?_)
  rcases spec with ⟨coldOmap, rfl, rep⟩
  refine Prog.ends_pure ⟨ledger', same, rfl, rfl, fun coldFits => ?_⟩
  change FindsKeys (TeeOmap.noted _ key _ _ _ _).coldOmap at coldFits
  rw [coldOmap_noted] at coldFits
  refine Placed.noted (s := { s with hotOram, hotDir, coldOmap })
    ⟨rfl, ⟨hot.sound, hot.indexes, hot.leaves, hot.valueSize, hot.capacity⟩, rep coldFits,
      placed.split.congr same.isSome_eq (fun _ => rfl) nonnegKeys, placed.pending,
      placed.pendingShort⟩ (List.length_replicate).ge
    ((List.length_replicate).trans_le (hot.valueSize ▸ hot.sound.fitted.wide)) ?_
  intro enabled _ often
  rcases threshold enabled with ⟨positive, isInt⟩
  change oLess (s.config.unwrapValue _).2.cnt s.config.maintenance.promoteThreshold = false
    at often
  rw [cnt_zeros enabled, oLess_eq (by have := isInt.2; omega) (by have := isInt.2; omega)] at often
  simp only [decide_eq_false_iff_not, not_lt] at often
  omega

/-- An access leaves every key where it is. -/
theorem Placed.serve (lawful : LawfulColdMap Ω config.storedValueSize widest)
    (placed : Placed config keys widest ledger cold s) (nonnegKeys : ∀ key ∈ keys, 0 ≤ key)
    (threshold : config.maintenance.enabled = true →
      1 ≤ config.maintenance.promoteThreshold ∧ IsInt config.maintenance.promoteThreshold)
    (nonneg : 0 ≤ key) (short : Short config widest newValue) :
    Returns (s.serve key newValue) (fun result => FindsKeys result.2.coldOmap →
      ∃ ledger' cold', Placed config keys widest ledger' cold' result.2) := by
  by_cases isKey : key ∈ keys
  · rcases isHot : ledger key with _ | ⟨leaf, value⟩
    · have once := placed.split.once key isKey
      rw [isHot] at once
      rcases isCold : cold key with _ | value
      · rw [isCold] at once
        cases once
      · refine (placed.serve_cold lawful nonnegKeys isCold short).mono (fun result spec fits => ?_)
        rcases spec with ⟨ledger', found, -, -, -, -, -, -, -, placed'⟩
        exact ⟨_, _, placed' fits⟩
    · refine (placed.serve_hot lawful nonnegKeys nonneg isHot short).mono (fun result spec fits => ?_)
      rcases spec with ⟨newLeaf, found, -, -, -, -, -, -, placed'⟩
      exact ⟨_, _, placed' fits⟩
  · refine (placed.serve_absent lawful nonnegKeys threshold nonneg isKey short).mono
      (fun result spec fits => ?_)
    rcases spec with ⟨ledger', -, -, -, placed'⟩
    exact ⟨_, _, placed' fits⟩

/-! ## Demotion -/

/-- A key has gone from one tier to the other. -/
theorem Split.moved (split : Split keys ledger cold) (isKey : key ∈ keys)
    {entry : Option (Int × Bytes)} {record : Option Bytes} (once : entry.isSome = record.isNone) :
    Split keys (Function.update ledger key entry) (Function.update cold key record) := by
  have differs : ∀ key', key' ∉ keys → key' ≠ key := by
    rintro key' other rfl
    exact other isKey
  refine ⟨fun key' isKey' => ?_, fun key' nonneg other => ?_, fun key' other => ?_⟩
  · simp only [Function.update_apply]
    by_cases same : key' = key
    · simp only [if_pos same, once]
    · simp only [if_neg same]
      exact split.once key' isKey'
  · rw [Function.update_of_ne (differs key' other)]
    exact split.noHot key' nonneg other
  · rw [Function.update_of_ne (differs key' other)]
    exact split.noCold key' other

/-- The record that a demotion makes of a block. -/
def demotedRecord (config : TeeOmapConfig) (found : Bytes) : Bytes :=
  padBytes (config.wrapValue (config.unwrapValue found).1 (config.unwrapValue found).2)
    config.storedValueSize

theorem length_demotedRecord {found : Bytes} (enough : config.storedValueSize ≤ found.length)
    (fits : found.length ≤ widest) : (demotedRecord config found).length ≤ widest := by
  have unwrapped := TeeOmapConfig.length_unwrapValue enough
  have stored := config.storedValueSize_eq
  unfold demotedRecord
  rw [TeeOmapConfig.length_wrapValue]
  omega

/-- The demotion of a hot key. -/
theorem Placed.demote_real (lawful : LawfulColdMap Ω config.storedValueSize widest)
    (placed : Placed config keys widest ledger cold s) (nonneg : 0 ≤ key)
    (isLive : ledger key = some (leaf, value)) :
    Returns (s.demote key) (fun s' => ∃ found,
      found.take config.storedValueSize = fitValue config.storedValueSize value ∧
      config.storedValueSize ≤ found.length ∧ found.length ≤ widest ∧
      (FindsKeys s'.coldOmap → Placed config keys widest (Function.update ledger key none)
        (Function.update cold key (some (fitValue config.storedValueSize
          (demotedRecord config found)))) s')) := by
  have sameConfig := placed.sameConfig
  subst sameConfig
  have hot := placed.hot
  rcases placed.split.cold_of_hot nonneg isLive with ⟨isKey, notCold⟩
  have isLeaf := hot.leaves key leaf value isLive
  have isFound := hot.sound.found isLeaf isLive
  have bounds := hot.sound.length_extracted leaf key
  rw [hot.valueSize] at isFound bounds
  have real : (!oEqual key invalidKey) = true := by simpa using ne_invalidKey nonneg
  unfold demote
  dsimp only
  rw [real, hot.lookup_hot nonneg isLive]
  simp only [oSelect_true]
  refine Prog.ends_bind (returns_any _) (fun dummyLeaf _ => ?_)
  refine Prog.ends_bind (returns_readPathToStash _ _ _) (fun read isRead => ?_)
  subst isRead
  generalize taken : (s.hotOram.readPath leaf).extractFromStash key = extracted at isFound bounds
  rcases extracted with ⟨blk, between⟩
  dsimp only at isFound bounds ⊢
  refine Prog.ends_bind (returns_any _) (fun newLeaf _ => ?_)
  have exchanged := @Sound.exchange s.hotOram widest ledger leaf hot.sound isLeaf key invalidKey
    newLeaf blk.value (Or.inl rfl) bounds.2
  have isReal : blk.key ≠ invalidKey := by
    rw [isFound.1]
    exact ne_invalidKey nonneg
  have newLedger : afterAdd (afterExtract ledger key blk) invalidKey newLeaf blk.value =
      Function.update ledger key none := by
    rw [afterAdd, if_pos rfl, afterExtract, if_neg isReal]
  rw [taken] at exchanged
  dsimp only at exchanged
  rw [newLedger] at exchanged
  refine Prog.ends_bind (returns_evictOnePath _ _ _) (fun evicted isEvicted => ?_)
  subst isEvicted
  refine Prog.ends_bind (lawful.returns_insert _ _ _ _ placed.rep nonneg notCold
    (length_demotedRecord bounds.1 bounds.2)) (fun coldOmap rep => ?_)
  refine Prog.ends_pure ⟨blk.value, isFound.2, bounds.1, bounds.2, fun fits => ?_⟩
  refine ⟨rfl, ⟨exchanged.1, ?_, ?_, exchanged.2.valueSize.trans hot.valueSize, ?_⟩, rep fits,
    placed.split.moved isKey rfl, placed.pending, placed.pendingShort⟩
  · rw [hotLabels_update nonneg]
    exact hot.indexes.remove (hotLabels_hot nonneg isLive)
  · intro key' leaf' value' listed
    rw [Function.update_apply] at listed
    split at listed
    · cases listed
    · rw [exchanged.2.level]
      exact hot.leaves key' leaf' value' listed
  · rw [← hot.capacity]
    simp [PackedDirectory.capacity, PackedDirectory.remove]

/-- A dummy demotion moves a filler at most. -/
theorem Placed.demote_none (lawful : LawfulColdMap Ω config.storedValueSize widest)
    (placed : Placed config keys widest ledger cold s) (nonnegKeys : ∀ key ∈ keys, 0 ≤ key) :
    Returns (s.demote invalidKey) (fun s' => ∃ ledger', SameKeys ledger ledger' ∧
      (FindsKeys s'.coldOmap → Placed config keys widest ledger' cold s')) := by
  have sameConfig := placed.sameConfig
  subst sameConfig
  have hot := placed.hot
  unfold demote
  dsimp only
  rw [show (!oEqual invalidKey invalidKey) = false from rfl]
  simp only [oSelect_false]
  refine Prog.ends_bind (returns_randomLeaf _) (fun dummyLeaf isLeaf => ?_)
  refine Prog.ends_bind (returns_readPathToStash _ _ _) (fun read isRead => ?_)
  subst isRead
  refine Prog.ends_bind (returns_randomLeaf _) (fun newLeaf newIsLeaf => ?_)
  have alike : Alike s.hotOram ((s.hotOram.readPath dummyLeaf).extractFromStash (-2)).2 :=
    (alike_takeBuckets (s.hotOram.path dummyLeaf) s.hotOram).trans ⟨rfl, rfl, rfl, rfl⟩
  rw [alike.level] at newIsLeaf
  have isFiller := (s.hotOram.readPath dummyLeaf).key_extractFromStash (-2)
  have bounds := hot.sound.length_extracted dummyLeaf (-2)
  rw [hot.valueSize] at bounds
  rcases @filler_exchange ledger _ isFiller newLeaf
    ((s.hotOram.readPath dummyLeaf).extractFromStash (-2)).1.value with ⟨isNew, same⟩
  have exchanged := @Sound.exchange s.hotOram widest ledger dummyLeaf hot.sound isLeaf (-2) _ newLeaf
    _ isNew bounds.2
  have newLeaves := @leaves_exchange ledger s.hotOram.level (-2)
    ((s.hotOram.readPath dummyLeaf).extractFromStash (-2)).1.key newLeaf
    ((s.hotOram.readPath dummyLeaf).extractFromStash (-2)).1
    ((s.hotOram.readPath dummyLeaf).extractFromStash (-2)).1.value hot.leaves newIsLeaf
  rw [← exchanged.2.level] at newLeaves
  refine Prog.ends_bind (returns_evictOnePath _ _ _) (fun evicted isEvicted => ?_)
  subst isEvicted
  refine Prog.ends_bind (lawful.returns_insertNone _ _ _ placed.rep) (fun coldOmap rep => ?_)
  rw [PackedDirectory.remove_invalidKey]
  refine Prog.ends_pure ⟨_, same, fun fits => ?_⟩
  refine ⟨rfl, ⟨exchanged.1, ?_, newLeaves, exchanged.2.valueSize.trans hot.valueSize,
    hot.capacity⟩, rep fits, placed.split.congr same.isSome_eq (fun _ => rfl) nonnegKeys,
    placed.pending, placed.pendingShort⟩
  rw [same.hotLabels_eq]
  exact hot.indexes

/-- A demotion step, whichever key it demotes. -/
theorem Placed.demoteStep (lawful : LawfulColdMap Ω config.storedValueSize widest)
    (placed : Placed config keys widest ledger cold s) (nonnegKeys : ∀ key ∈ keys, 0 ≤ key) :
    Returns s.demoteStep (fun s' => FindsKeys s'.coldOmap →
      ∃ ledger' cold', Placed config keys widest ledger' cold' s') := by
  have scanned := placed.withScan ((s.scanPtr + 1).tmod (max s.hotDir.capacity 1))
  unfold TeeOmap.demoteStep
  rcases placed.hot.demoteCandidate_hot with none | ⟨nonneg, leaf, value, isLive⟩
  · rw [none]
    refine (scanned.demote_none lawful nonnegKeys).mono (fun s' spec fits => ?_)
    rcases spec with ⟨ledger', -, placed'⟩
    exact ⟨_, _, placed' fits⟩
  · refine (scanned.demote_real lawful nonneg isLive).mono (fun s' spec fits => ?_)
    rcases spec with ⟨found, -, -, -, placed'⟩
    exact ⟨_, _, placed' fits⟩

/-! ## Promotion -/

/-- The block that a promotion adds. -/
def promotedRecord (config : TeeOmapConfig) (value : Bytes) : Bytes :=
  padBytes (config.wrapValue value {}) config.storedValueSize

/-- The promotion of a cold key, if there is room. -/
theorem Placed.promote_real (lawful : LawfulColdMap Ω config.storedValueSize widest)
    (placed : Placed config keys widest ledger cold s) (nonneg : 0 ≤ key) (isKey : key ∈ keys)
    (notHot : ledger key = none) (room : s.hotDir.count < s.hotCapacity)
    (short : value.length + config.overhead ≤ widest) :
    Returns (s.promote key value) (fun s' => ∃ leaf, FindsKeys s'.coldOmap →
      Placed config keys widest
        (Function.update ledger key (some (leaf, promotedRecord config value)))
        (Function.update cold key none) s') := by
  have sameConfig := placed.sameConfig
  subst sameConfig
  have hot := placed.hot
  have isReal := ne_invalidKey nonneg
  have real : (!oEqual key invalidKey) = true := by simpa using isReal
  have enough := hot.sound.fitted.wide
  rw [hot.valueSize, TeeOmapConfig.storedValueSize_eq] at enough
  have recordShort : (promotedRecord s.config value).length ≤ widest := by
    unfold promotedRecord
    rw [TeeOmapConfig.length_wrapValue]
    omega
  unfold promote
  dsimp only
  rw [real]
  simp only [oSelect_true]
  refine Prog.ends_bind (lawful.returns_remove _ _ _ placed.rep nonneg) (fun coldOmap rep => ?_)
  refine Prog.ends_bind (returns_randomLeaf _) (fun leaf isLeaf => ?_)
  refine Prog.ends_bind (returns_readPathToStash _ _ _) (fun read isRead => ?_)
  subst isRead
  rcases hot.sound.readPath isLeaf with ⟨readSound, emptied, alike⟩
  rw [← alike.path] at emptied
  have added := @Sound.addEvict (s.hotOram.readPath leaf) widest ledger leaf readSound
    (alike.level.symm ▸ isLeaf) emptied key leaf (promotedRecord s.config value) (Or.inr notHot)
    recordShort
  rw [afterAdd, if_neg isReal] at added
  have addedAlike := alike.trans added.2
  refine Prog.ends_bind (returns_evictOnePath _ _ _) (fun evicted isEvicted => ?_)
  subst isEvicted
  have noLabel : hotLabels ledger key = none := by
    rw [hotLabels, if_pos nonneg, notHot]
    rfl
  rcases hot.indexes.insert isReal noLabel (hot.capacity ▸ room) leaf with ⟨indexes, capacity⟩
  refine Prog.ends_pure ⟨leaf, fun fits => ?_⟩
  refine ⟨rfl, ⟨added.1, ?_, ?_, addedAlike.valueSize.trans hot.valueSize, ?_⟩, rep fits,
    placed.split.moved isKey rfl, placed.pending, placed.pendingShort⟩
  · rw [hotLabels_update nonneg]
    exact indexes
  · have newLeaves : ∀ key' leaf' value', Function.update ledger key
        (some (leaf, promotedRecord s.config value)) key' = some (leaf', value') →
          IsLeaf s.hotOram.level leaf' := by
      intro key' leaf' value' listed
      rw [Function.update_apply] at listed
      split at listed
      · cases listed
        exact isLeaf
      · exact hot.leaves key' leaf' value' listed
    rw [← addedAlike.level] at newLeaves
    exact newLeaves
  · rw [← hot.capacity]
    exact congrArg _ capacity

/-- A dummy promotion changes nothing. -/
theorem Placed.promote_none (lawful : LawfulColdMap Ω config.storedValueSize widest)
    (placed : Placed config keys widest ledger cold s)
    (short : value.length + config.overhead ≤ widest) :
    Returns (s.promote invalidKey value) (fun s' =>
      FindsKeys s'.coldOmap → Placed config keys widest ledger cold s') := by
  have sameConfig := placed.sameConfig
  subst sameConfig
  have hot := placed.hot
  have enough := hot.sound.fitted.wide
  rw [hot.valueSize, TeeOmapConfig.storedValueSize_eq] at enough
  have recordShort : (promotedRecord s.config value).length ≤ widest := by
    unfold promotedRecord
    rw [TeeOmapConfig.length_wrapValue]
    omega
  unfold promote
  dsimp only
  rw [show (!oEqual invalidKey invalidKey) = false from rfl]
  simp only [oSelect_false]
  refine Prog.ends_bind (lawful.returns_removeNone _ _ placed.rep) (fun coldOmap rep => ?_)
  refine Prog.ends_bind (returns_randomLeaf _) (fun leaf isLeaf => ?_)
  refine Prog.ends_bind (returns_readPathToStash _ _ _) (fun read isRead => ?_)
  subst isRead
  rcases hot.sound.readPath isLeaf with ⟨readSound, emptied, alike⟩
  rw [← alike.path] at emptied
  have added := @Sound.addEvict (s.hotOram.readPath leaf) widest ledger leaf readSound
    (alike.level.symm ▸ isLeaf) emptied invalidKey leaf (promotedRecord s.config value) (Or.inl rfl)
    recordShort
  rw [afterAdd, if_pos rfl] at added
  have addedAlike := alike.trans added.2
  refine Prog.ends_bind (returns_evictOnePath _ _ _) (fun evicted isEvicted => ?_)
  subst isEvicted
  rw [PackedDirectory.insert_invalidKey]
  refine Prog.ends_pure (fun fits => ?_)
  have leaves := hot.leaves
  rw [← addedAlike.level] at leaves
  exact ⟨rfl, ⟨added.1, hot.indexes, leaves, addedAlike.valueSize.trans hot.valueSize,
    hot.capacity⟩, rep fits, placed.split, placed.pending, placed.pendingShort⟩

/-- A promotion step, whichever key it promotes. -/
theorem Placed.promoteStep (lawful : LawfulColdMap Ω config.storedValueSize widest)
    (placed : Placed config keys widest ledger cold s) (nonnegKeys : ∀ key ∈ keys, 0 ≤ key) :
    Returns s.promoteStep (fun s' => FindsKeys s'.coldOmap →
      ∃ ledger' cold', Placed config keys widest ledger' cold' s') := by
  unfold TeeOmap.promoteStep
  refine Prog.ends_bind (Q := fun s' => FindsKeys s'.coldOmap →
    ∃ ledger' cold', Placed config keys widest ledger' cold' s') ?_ (fun s' spec => ?_)
  · rcases placed.promoteCandidate_cold nonnegKeys with none | ⟨isKey, -, notHot, room⟩
    · rw [none]
      exact (placed.promote_none lawful placed.pendingShort).mono
        (fun s' placed' fits => ⟨_, _, placed' fits⟩)
    · refine (placed.promote_real lawful (nonnegKeys _ isKey) isKey notHot room
        placed.pendingShort).mono (fun s' spec fits => ?_)
      rcases spec with ⟨leaf, placed'⟩
      exact ⟨_, _, placed' fits⟩
  · refine Prog.ends_pure (fun fits => ?_)
    rcases spec fits with ⟨ledger', cold', placed'⟩
    exact ⟨ledger', cold', placed'.clearPromo⟩

end TeeOmap

end TieredOmap
