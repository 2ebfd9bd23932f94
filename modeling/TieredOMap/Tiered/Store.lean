import TieredOMap.Omap.MapOmap
import TieredOMap.Tiered.Init

/-!
# A tiered map is a key-value store

The main results about runs without a channel: every read returns the value
most recently written to its key, and every stored key resides at exactly one
place with the reference it was given at the start.
-/

namespace TieredOmap

/-- Three records, two of them hot. -/
def sampleData : Dataset where
  records := [(5, [1]), (3, [2]), (7, [3])]
  hotKeys := [5, 3]
  nodup := by decide
  keyRange := by decide
  hotNodup := by decide
  hotSub := by decide

/-- Maintenance at every second access, with a cache of one key. -/
def sampleConfig : TieredOMapConfig :=
  { maintenance := { enabled := true, swapInterval := 2, observationWindow := 1, cacheSize := 1 } }

/-- Both tiers are reference maps. -/
abbrev MapTiers : Tier → Type := fun _ => MapOmap

/-- The value of a key after some accesses: the last one written, or the initial one. -/
def latestValue (initial : Bytes) (ops : List (Int × Option Bytes)) (key : Int) : Bytes :=
  ops.foldl (fun value op => if op.1 = key then op.2.getD value else value) initial

namespace Client

variable {layout : Layout} {c : Client}

theorem latestValue_cons (initial : Bytes) (op : Int × Option Bytes)
    (ops : List (Int × Option Bytes)) (key : Int) :
    latestValue initial (op :: ops) key =
      latestValue (if key = op.1 then op.2.getD initial else initial) ops key := by
  simp only [latestValue, List.foldl_cons, eq_comm]

/-- A run of the client answers its reads with the latest values. -/
theorem Shape.runAccesses_latest (shape : c.Shape layout) (notByItself : c.scansByItself = false)
    (ops : List (Int × Option Bytes)) (i : Nat) (key : Int) (keyStored : key ∈ layout.stored)
    (isRead : ops[i]? = some (key, none)) :
    (c.runAccesses layout ops).1[i]? = some (latestValue (c.valueOf key) (ops.take i) key) := by
  induction ops generalizing c i with
  | nil => simp at isRead
  | cons op rest ih =>
      have keeps := shape.keeps_access notByItself op.1 op.2
      cases i with
      | zero =>
          simp only [List.getElem?_cons_zero, Option.some_inj] at isRead
          subst isRead
          exact congrArg some (value_access keyStored)
      | succ i =>
          rw [List.getElem?_cons_succ] at isRead
          simp only [runAccesses, List.getElem?_cons_succ, List.take_succ_cons, latestValue_cons]
          rw [ih keeps.shape (by rw [scansByItself, keeps.config]; exact notByItself) i isRead,
            valueOf_access op.1 op.2 keyStored keeps.enabled]

/-- The first client holds the initial values. -/
theorem valueOf_start (data : Dataset) (config : TieredOMapConfig) (key : Int) :
    (start data config).valueOf key = data.valueAt key := by
  have enabledEq := (keeps_start data config).enabled
  have recordsEq : (start data config).records =
      fun key => TieredOMap.storedForm config.maintenance.enabled (data.valueAt key) := by
    unfold start
    split <;> rfl
  by_cases enabled : config.maintenance.enabled
  · simp [valueOf, enabledEq, recordsEq, unfilled, TieredOMap.storedForm, enabled]
  · simp [valueOf, enabledEq, recordsEq, unfilled, TieredOMap.storedForm, enabled]

/-- No dataset makes the client scan by itself unless its configuration does. -/
theorem scansByItself_start {data : Dataset} {config : TieredOMapConfig}
    (noDa : (config.isDaHot && config.maintenance.piggyback) = false) :
    (start data config).scansByItself = false := by
  rw [scansByItself, (keeps_start data config).config]
  exact noDa

end Client

namespace TieredOMap

variable {Ω : Tier → Type} [∀ tier, OmapInterface (Ω tier)] [∀ tier, LawfulOmap (Ω tier)]
  {layout : Layout} {c : Client} {s : TieredOMap Ω}

section Reads

variable [Cipher]

/-- Initialise a tiered map and access it. -/
def run (Ω : Tier → Type) [∀ tier, OmapInterface (Ω tier)] (fuel : Nat) (config : TieredOMapConfig)
    (data : Dataset) (ops : List (Int × Option Bytes)) : Rand (List Bytes × TieredOMap Ω) := do
  let s ← TieredOMap.init (Ω := Ω) config data.records data.hotKeys
  s.runAccesses fuel ops

/-- A run is a run of the client. -/
theorem ends_run (fuel : Nat) (config : TieredOMapConfig) (data : Dataset)
    (ops : List (Int × Option Bytes))
    (noDa : (config.isDaHot && config.maintenance.piggyback) = false) :
    Prog.Ends (InitThrows config) (run Ω fuel config data ops) (fun outcome =>
      outcome.1 = ((Client.start data config).runAccesses (data.layout config) ops).1 ∧
        outcome.2.Serves (data.layout config)
          ((Client.start data config).runAccesses (data.layout config) ops).2) := by
  refine Prog.ends_bind (ends_init data config) ?_
  intro s serves
  exact (serves.ends_runAccesses fuel ops (Client.scansByItself_start noDa)).allow
    (fun error overflow => Or.inl overflow)

/--
Every plain read returns the value most recently written to its key, or the
key's initial value, whatever maintenance has done in between.
-/
theorem reads_return_latest (fuel : Nat) (config : TieredOMapConfig) (data : Dataset)
    (ops : List (Int × Option Bytes))
    (noDa : (config.isDaHot && config.maintenance.piggyback) = false) :
    Prog.Ends (InitThrows config) (run Ω fuel config data ops) (fun outcome =>
      ∀ i key, key ∈ data.keys → ops[i]? = some (key, none) →
        outcome.1[i]? = some (latestValue (data.valueAt key) (ops.take i) key)) := by
  refine (ends_run fuel config data ops noDa).mono ?_
  rintro outcome ⟨answers, _⟩ i key keyMem isRead
  rw [answers, (Client.keeps_start data config).shape.runAccesses_latest
    (Client.scansByItself_start noDa) ops i key (Dataset.mem_stored.mpr keyMem) isRead,
    Client.valueOf_start]

end Reads

section Sample

attribute [local instance] clearCipher

theorem reads_return_latest_sample :
    Prog.Ends (InitThrows sampleConfig)
      (run MapTiers 0 sampleConfig sampleData [(5, some [9]), (3, none), (7, some [4]), (5, none)])
      (fun outcome => outcome.1[1]? = some [2] ∧ outcome.1[3]? = some [9]) := by
  refine (reads_return_latest 0 sampleConfig sampleData _ (by decide)).mono ?_
  intro outcome answers
  exact ⟨answers 1 3 (by decide) rfl, answers 3 5 (by decide) rfl⟩

end Sample

/-! ## Where the keys are -/

section Places

variable [Cipher]

/-- The places where a stored key can reside. -/
inductive Place where
  | hotOmap
  | coldOmap
  | cache
  | pending
deriving DecidableEq, Repr

/-- The reference under which a key resides at a place, given what the two maps hold. -/
def refAt (hot cold : Int → Option Bytes) (s : TieredOMap Ω) : Place → Int → Option Bytes
  | .hotOmap, key => hot key
  | .coldOmap, key => cold key
  | .cache, key => if key ∈ s.cacheKeys then s.cacheDataRefs.get? key else none
  | .pending, key =>
      if s.mgr.swapState ≠ .idle ∧ key = s.pendingInsertKey then some s.pendingInsertRef else none

/-- The stored keys that reside at a place. -/
def placeKeys (layout : Layout) (c : Client) : Place → Finset Int
  | .hotOmap => c.physHotKeys
  | .coldOmap => c.tierKeys layout .cold
  | .cache => c.cacheKeys
  | .pending => if c.mgr.swapState ≠ .idle then {c.pendingInsertKey} else ∅

/-- The pending key, if it is on its way in the given direction. -/
def pendingIn (s : TieredOMap Ω) (swapState : SwapState) : Finset Int :=
  if s.mgr.swapState = swapState then {s.pendingInsertKey} else ∅

/-- How the containers of a tiered map agree, given what the two maps hold. -/
structure TierPartition (data : Dataset) (s : TieredOMap Ω) (hot cold : Int → Option Bytes) :
    Prop where
  onePlace : ∀ key ∈ data.keys, ∃! place, (refAt hot cold s place key).isSome
  originalRef : ∀ key place ref, refAt hot cold s place key = some ref →
    key ∈ data.keys ∧ ref = data.refOf key
  physHot : ∀ key, key ∈ s.physHotKeys ↔ (hot key).isSome
  listSorted : s.hotKeyList.Pairwise (· < ·)
  listed : ∀ key, key ∈ s.hotKeyList ↔ key ∈ s.physHotKeys
  cacheRefKeys : ∀ key, key ∈ s.cacheDataRefs.keys ↔ key ∈ s.cacheKeys
  cacheManaged : ∀ key, key ∈ s.mgr.cacheKeyList ↔ key ∈ s.cacheKeys
  cacheNodup : s.mgr.cacheKeyList.Nodup
  pendingIff : s.pendingInsertKey ≠ invalidKey ↔ s.mgr.swapState ≠ .idle
  hotKeysEq : s.hotKeys = s.physHotKeys ∪ s.cacheKeys ∪ s.pendingIn .hotPend
  hotSetSize : s.hotKeys.card = data.hotKeys.length

/-- Where the stored keys are, given what the two maps hold. -/
structure Residence (data : Dataset) (s : TieredOMap Ω) (hot cold : Int → Option Bytes) :
    Prop where
  onePlace : ∀ key ∈ data.keys, ∃! place, (refAt hot cold s place key).isSome
  originalRef : ∀ key place ref, refAt hot cold s place key = some ref →
    key ∈ data.keys ∧ ref = data.refOf key
  physHot : ∀ key, key ∈ s.physHotKeys ↔ (hot key).isSome
  listSorted : s.hotKeyList.Pairwise (· < ·)
  listed : ∀ key, key ∈ s.hotKeyList ↔ key ∈ s.physHotKeys

omit [∀ tier, OmapInterface (Ω tier)] [∀ tier, LawfulOmap (Ω tier)] [Cipher] in
/-- The client of a map finds each stored key at one place, under its reference. -/
theorem residence_of_shape {data : Dataset} {config : TieredOMapConfig} {records : Int → Bytes}
    (shape : (s.client records).Shape (data.layout config)) :
    Residence data s (refsOn data.refOf ((s.client records).tierKeys (data.layout config) .hot))
      (refsOn data.refOf ((s.client records).tierKeys (data.layout config) .cold)) := by
  set c := s.client records with cDef
  set layout := data.layout config with layoutDef
  have atPlace : ∀ place key, refAt (refsOn data.refOf (c.tierKeys layout .hot))
      (refsOn data.refOf (c.tierKeys layout .cold)) s place key =
        refsOn data.refOf (placeKeys layout c place) key := by
    intro place key
    cases place with
    | hotOmap => rfl
    | coldOmap => rfl
    | cache =>
        change (if key ∈ c.cacheKeys then c.cacheDataRefs.get? key else none) = _
        by_cases cached : key ∈ c.cacheKeys
        · rw [if_pos cached, shape.cacheRef cached]
          simp [refsOn, placeKeys, cached, layoutDef, Dataset.layout]
        · simp [refsOn, placeKeys, cached]
    | pending =>
        change (if c.mgr.swapState ≠ .idle ∧ key = c.pendingInsertKey then
          some c.pendingInsertRef else none) = _
        by_cases isIdle : c.mgr.swapState = .idle
        · simp [isIdle, refsOn, placeKeys]
        · have refEq := (shape.pending isIdle).2.1
          by_cases here : key = c.pendingInsertKey
          · simp [isIdle, here, refsOn, placeKeys, refEq, layoutDef, Dataset.layout]
          · simp [here, refsOn, placeKeys, isIdle]
  have coldIff : ∀ key, key ∈ c.tierKeys layout .cold ↔
      key ∈ data.stored ∧ key ∉ c.hotKeys ∧ key ∉ c.pendingIn .coldPend := by
    intro key
    simp [Client.tierKeys, layoutDef, Dataset.layout]
  refine ⟨?_, ?_, fun key => refsOn_isSome.symm, shape.listSorted, shape.mem_list⟩
  · intro key keyMem
    have keyStored := Dataset.mem_stored.mpr keyMem
    have hotIff : key ∈ c.hotKeys ↔
        key ∈ c.physHotKeys ∨ key ∈ c.cacheKeys ∨ key ∈ c.pendingIn .hotPend := by
      rw [shape.hotKeys_eq]
      simp
    simp only [atPlace, refsOn_isSome]
    by_cases phys : key ∈ c.physHotKeys
    · have notCached : key ∉ c.cacheKeys := Finset.disjoint_left.mp shape.apart phys
      refine ⟨.hotOmap, phys, ?_⟩
      intro place resides
      cases place with
      | hotOmap => rfl
      | coldOmap => exact absurd (shape.phys_sub phys) ((coldIff key).mp resides).2.1
      | cache => exact absurd resides notCached
      | pending =>
          by_cases isIdle : c.mgr.swapState = .idle
          · simp [placeKeys, isIdle] at resides
          · have here : key = c.pendingInsertKey := by simpa [placeKeys, isIdle] using resides
            exact absurd (here ▸ phys) (shape.pending isIdle).2.2.1
    · by_cases cached : key ∈ c.cacheKeys
      · refine ⟨.cache, cached, ?_⟩
        intro place resides
        cases place with
        | hotOmap => exact absurd resides phys
        | coldOmap => exact absurd (shape.cache_sub cached) ((coldIff key).mp resides).2.1
        | cache => rfl
        | pending =>
            by_cases isIdle : c.mgr.swapState = .idle
            · simp [placeKeys, isIdle] at resides
            · have here : key = c.pendingInsertKey := by simpa [placeKeys, isIdle] using resides
              exact absurd (here ▸ cached) (shape.pending isIdle).2.2.2
      · by_cases isPending : c.mgr.swapState ≠ .idle ∧ key = c.pendingInsertKey
        · refine ⟨.pending, by simp [placeKeys, isPending], ?_⟩
          intro place resides
          cases place with
          | hotOmap => exact absurd resides phys
          | coldOmap =>
              rcases (coldIff key).mp resides with ⟨_, notHot, notCold⟩
              rcases swapEq : c.mgr.swapState with _ | _ | _
              · exact absurd swapEq isPending.1
              · exact absurd (hotIff.mpr (Or.inr (Or.inr (by simp [Client.pendingIn, swapEq, isPending]))))
                  notHot
              · exact absurd (by simp [Client.pendingIn, swapEq, isPending]) notCold
          | cache => exact absurd resides cached
          | pending => rfl
        · have notPendingIn : ∀ swapState, swapState ≠ .idle → key ∉ c.pendingIn swapState := by
            intro swapState notIdle inPending
            unfold Client.pendingIn at inPending
            split at inPending
            · rename_i swapEq
              exact isPending ⟨swapEq ▸ notIdle, by simpa using inPending⟩
            · simp at inPending
          refine ⟨.coldOmap, (coldIff key).mpr ⟨keyStored, ?_, notPendingIn _ (by decide)⟩, ?_⟩
          · rw [hotIff]
            rintro (inPhys | inCache | inPending)
            · exact phys inPhys
            · exact cached inCache
            · exact notPendingIn _ (by decide) inPending
          · intro place resides
            cases place with
            | hotOmap => exact absurd resides phys
            | coldOmap => rfl
            | cache => exact absurd resides cached
            | pending =>
                by_cases isIdle : c.mgr.swapState = .idle
                · simp [placeKeys, isIdle] at resides
                · exact absurd ⟨isIdle, by simpa [placeKeys, isIdle] using resides⟩ isPending
  · intro key place ref found
    rw [atPlace] at found
    unfold refsOn at found
    split at found
    · rename_i resides
      refine ⟨Dataset.mem_stored.mp ?_, by simpa using found.symm⟩
      cases place with
      | hotOmap => exact shape.hotKeys_sub (shape.phys_sub resides)
      | coldOmap => exact ((coldIff key).mp resides).1
      | cache => exact shape.hotKeys_sub (shape.cache_sub resides)
      | pending =>
          by_cases isIdle : c.mgr.swapState = .idle
          · simp [placeKeys, isIdle] at resides
          · have here : key = c.pendingInsertKey := by simpa [placeKeys, isIdle] using resides
            exact here ▸ (shape.pending isIdle).1
    · simp at found

theorem Serves.tierPartition {data : Dataset} {config : TieredOMapConfig}
    (serves : s.Serves (data.layout config) c)
    (card : c.hotKeys.card = data.hotKeys.length) :
    TierPartition data s (refsOn data.refOf (c.tierKeys (data.layout config) .hot))
      (refsOn data.refOf (c.tierKeys (data.layout config) .cold)) := by
  obtain ⟨records, clientEq⟩ : ∃ records, c = s.client records := ⟨_, serves.client.symm⟩
  subst clientEq
  have shape := serves.shape
  rcases residence_of_shape shape with ⟨onePlace, originalRef, physHot, listSorted, listed⟩
  refine ⟨onePlace, originalRef, physHot, listSorted, listed, ?_, shape.mem_cache,
    shape.cacheNodup, ?_, shape.hotKeys_eq, card⟩
  · intro key
    have found := shape.cacheRefs key
    change s.cacheDataRefs.get? key = refsOn _ s.cacheKeys key at found
    rw [KeyMap.mem_keys_iff, found, refsOn_isSome]
  · by_cases isIdle : s.mgr.swapState = .idle
    · have keyEq : s.pendingInsertKey = invalidKey := (shape.idle isIdle).1
      simp [isIdle, keyEq]
    · have valid := (data.layout config).valid _ (shape.pending isIdle).1
      exact ⟨fun _ => isIdle, fun _ => valid⟩

/--
In every state reached from `init` with maintenance on, every stored key is at
exactly one place, with its original reference, and the containers agree.
-/
theorem tier_partition (fuel : Nat) (config : TieredOMapConfig) (data : Dataset)
    (ops : List (Int × Option Bytes)) (enabled : config.maintenance.enabled = true)
    (noDa : (config.isDaHot && config.maintenance.piggyback) = false) :
    Prog.Ends (InitThrows config) (run Ω fuel config data ops) (fun outcome =>
      outcome.2.maint.isSome ∧ ∃ hot cold,
        LawfulOmap.Rep outcome.2.hotOmap hot (data.room config .hot) ∧
        LawfulOmap.Rep outcome.2.coldOmap cold (data.room config .cold) ∧
        TierPartition data outcome.2 hot cold) := by
  have started := Client.keeps_start data config
  have kept := started.trans (started.shape.keeps_runAccesses (Client.scansByItself_start noDa) ops)
  refine (ends_run fuel config data ops noDa).mono ?_
  rintro outcome ⟨_, serves⟩
  refine ⟨?_, _, _, serves.reps .hot, serves.reps .cold, serves.tierPartition ?_⟩
  · have maintEq := congrArg Client.maint serves.client
    change outcome.2.maint = _ at maintEq
    rw [maintEq, kept.enabled]
    simp [Client.unfilled, enabled]
  · rw [kept.card]
    exact data.card_hotKeys

end Places

section Sample

attribute [local instance] clearCipher

theorem tier_partition_sample :
    Prog.Ends (InitThrows sampleConfig)
      (run MapTiers 0 sampleConfig sampleData [(5, some [9]), (3, none), (7, some [4]), (5, none)])
      (fun outcome => outcome.2.maint.isSome ∧ ∃ hot cold,
        LawfulOmap.Rep outcome.2.hotOmap hot (sampleData.room sampleConfig .hot) ∧
        LawfulOmap.Rep outcome.2.coldOmap cold (sampleData.room sampleConfig .cold) ∧
        TierPartition sampleData outcome.2 hot cold) :=
  tier_partition 0 sampleConfig sampleData _ (by decide) (by decide)

end Sample

end TieredOMap

end TieredOmap
