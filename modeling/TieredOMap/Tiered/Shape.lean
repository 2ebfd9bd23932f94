import TieredOMap.Omap.StepShape
import TieredOMap.Tiered.Access

/-!
# The shape of a full-oblivious access

With AVL tiers and without maintenance, the requests of one access depend on
nothing but the tier that holds the key; the order in which the two tiers and
the data ORAM are accessed does depend on it.
-/

namespace TieredOmap

/-- Both tiers are AVL trees. -/
abbrev AvlTiers : Tier → Type := fun _ => AVLOmap

/-- What the server knows of a tiered map: the stores, their heights and the protocol. -/
structure Footprint where
  dataStore : Nat
  tierStore : Tier → Nat
  height : Tier → Int
  batched : Bool

namespace Footprint

/-- The number of rounds an operation on a tier takes. -/
def rounds (fp : Footprint) (tier : Tier) : Nat := 3 * (fp.height tier).toNat

/-- All requests of an operation on a tier. -/
def tierShape (fp : Footprint) (tier : Tier) : List StorageReq :=
  pathAccesses (fp.tierStore tier) (fp.rounds tier)

/-- One access to the data store. -/
def dataShape (fp : Footprint) : List StorageReq := pathAccesses fp.dataStore 1

/-- The requests of a sequential access to a key of the given tier. -/
def sequentialShape (fp : Footprint) : Tier → List StorageReq
  | .hot => fp.tierShape .hot ++ fp.dataShape ++ fp.tierShape .cold ++ fp.dataShape
  | .cold => fp.tierShape .hot ++ fp.tierShape .cold ++ fp.dataShape ++ fp.dataShape

/-- The stores taking part in round `i` of a batched access to a key of the given tier. -/
def roundStores (fp : Footprint) (tier : Tier) (i : Nat) : List Nat :=
  (if i < fp.rounds tier then [fp.tierStore tier] else []) ++
    (if i < fp.rounds tier.other then [fp.tierStore tier.other] else []) ++
    (if i = fp.rounds tier ∨ i = fp.rounds tier + 1 then [fp.dataStore] else [])

/-- The number of rounds of a batched access. -/
def lastRound (fp : Footprint) (tier : Tier) : Nat :=
  max (fp.rounds tier + 2) (fp.rounds tier.other)

/-- The requests of one batched round. -/
def roundShape (fp : Footprint) (tier : Tier) (i : Nat) : List StorageReq :=
  [.batchRead (fp.roundStores tier i), .batchWrite (fp.roundStores tier i)]

/-- The requests of a batched access to a key of the given tier. -/
def batchedShape (fp : Footprint) (tier : Tier) : List StorageReq :=
  (List.range (fp.lastRound tier)).flatMap (fp.roundShape tier)

/-- The requests of an access to a key of the given tier. -/
def accessShape (fp : Footprint) (tier : Tier) : List StorageReq :=
  if fp.batched then fp.batchedShape tier else fp.sequentialShape tier

end Footprint

/-- The tier that is searched for a key, given the keys of the hot map. -/
def tierOf (hotKeys : Finset Int) (key : Int) : Tier := if key ∈ hotKeys then .hot else .cold

namespace TieredOMap

variable {s : TieredOMap AvlTiers} {fp : Footprint} {keys : Finset Int}

/-- The parts of a tiered map without maintenance that no access changes. -/
structure Fixed (s : TieredOMap AvlTiers) (fp : Footprint) (keys : Finset Int) : Prop where
  noMaint : s.maint = none
  oblivious : s.config.mode = .fullOblivious
  batched : s.channel = fp.batched
  noForce : s.forceColdDummyPb = false
  dataId : s.dataOram.storage.storeId = fp.dataStore
  physHot : s.physHotKeys = keys
  positive : ∀ tier, 0 < fp.height tier

/-- A tiered map with the given footprint, between two accesses. -/
structure Plain (s : TieredOMap AvlTiers) (fp : Footprint) (keys : Finset Int) : Prop where
  fixed : s.Fixed fp keys
  whole : ∀ tier, ∃ ops, AVLOmap.Whole (s.omap tier) (fp.tierStore tier) (fp.height tier) ops

theorem Fixed.withData (fixed : s.Fixed fp keys) {dataOram : PathORAM}
    (sameId : dataOram.storage.storeId = fp.dataStore) : Fixed { s with dataOram } fp keys :=
  ⟨fixed.noMaint, fixed.oblivious, fixed.batched, fixed.noForce, sameId, fixed.physHot,
    fixed.positive⟩

theorem Fixed.setOmap (fixed : s.Fixed fp keys) (tier : Tier) (omap : AVLOmap) :
    (s.setOmap tier omap).Fixed fp keys := by
  cases tier with
  | hot =>
      exact ⟨fixed.noMaint, fixed.oblivious, fixed.batched, fixed.noForce, fixed.dataId,
        fixed.physHot, fixed.positive⟩
  | cold =>
      exact ⟨fixed.noMaint, fixed.oblivious, fixed.batched, fixed.noForce, fixed.dataId,
        fixed.physHot, fixed.positive⟩

theorem Plain.withData (plain : s.Plain fp keys) {dataOram : PathORAM}
    (sameId : dataOram.storage.storeId = fp.dataStore) : Plain { s with dataOram } fp keys :=
  ⟨plain.fixed.withData sameId, plain.whole⟩

theorem Plain.setOmap (plain : s.Plain fp keys) {tier : Tier} {omap : AVLOmap}
    (isWhole : ∃ ops, omap.Whole (fp.tierStore tier) (fp.height tier) ops) :
    (s.setOmap tier omap).Plain fp keys := by
  refine ⟨plain.fixed.setOmap tier omap, ?_⟩
  intro tier'
  cases tier <;> cases tier'
  · exact isWhole
  · exact plain.whole .cold
  · exact plain.whole .hot
  · exact isWhole

/-- What a step of an access does: it keeps the footprint and sends the given requests. -/
def Steps {Result : Type} (program : Rand Result) (state : Result → TieredOMap AvlTiers)
    (fp : Footprint) (keys : Finset Int) (requests : List StorageReq) : Prop :=
  Sends program (fun outcome sent => (state outcome).Plain fp keys ∧ sent = requests)

variable [Cipher]

theorem Plain.sends_searchTier (plain : s.Plain fp keys) (tier : Tier) (key : Int) :
    Steps (s.searchTier tier key) Prod.snd fp keys (fp.tierShape tier) := by
  rcases plain.whole tier with ⟨ops, whole⟩
  refine Prog.emits_bind (whole.sends_search (plain.fixed.positive tier).le key none) ?_
  rintro ⟨ref, omap⟩ _ ⟨omapWhole, rfl⟩
  refine Prog.emits_pure ⟨plain.setOmap ⟨_, omapWhole⟩, ?_⟩
  simp [Footprint.tierShape, Footprint.rounds]

theorem Plain.sends_onDummy (plain : s.Plain fp keys) (tier : Tier) :
    Steps (s.onTier tier OmapInterface.dummyAccess) id fp keys (fp.tierShape tier) := by
  rcases plain.whole tier with ⟨ops, whole⟩
  refine Prog.emits_bind (whole.sends_dummyAccess (plain.fixed.positive tier).le) ?_
  rintro omap _ ⟨omapWhole, rfl⟩
  refine Prog.emits_pure ⟨plain.setOmap ⟨_, omapWhole⟩, ?_⟩
  simp [Footprint.tierShape, Footprint.rounds]

theorem Plain.sends_dummyTier (plain : s.Plain fp keys) (tier : Tier) :
    Steps (s.dummyTier tier) id fp keys (fp.tierShape tier) := by
  unfold dummyTier
  rw [if_pos plain.fixed.oblivious]
  exact plain.sends_onDummy tier

theorem Plain.sends_dataDummy (plain : s.Plain fp keys) :
    Steps s.dataDummy id fp keys fp.dataShape := by
  refine Prog.emits_bind s.dataOram.sends_dummyAccess ?_
  rintro dataOram _ ⟨sameId, rfl⟩
  refine Prog.emits_pure ⟨plain.withData (sameId.trans plain.fixed.dataId), ?_⟩
  simp [Footprint.dataShape, plain.fixed.dataId]

/-- A data access sends the same requests as a dummy one. -/
theorem Plain.sends_dataAccess (plain : s.Plain fp keys) (blk : Int) (newValue : Option Bytes) :
    Steps (s.dataAccess blk newValue) Prod.snd fp keys fp.dataShape := by
  unfold dataAccess
  split
  · refine Prog.emits_bind s.dataOram.sends_dummyAccess ?_
    rintro dataOram _ ⟨sameId, rfl⟩
    refine Prog.emits_pure ⟨plain.withData (sameId.trans plain.fixed.dataId), ?_⟩
    simp [Footprint.dataShape, plain.fixed.dataId]
  · refine Prog.emits_bind (s.dataOram.sends_access blk newValue) ?_
    rintro ⟨value, dataOram⟩ _ ⟨sameId, rfl⟩
    refine Prog.emits_pure ⟨plain.withData (sameId.trans plain.fixed.dataId), ?_⟩
    simp [Footprint.dataShape, plain.fixed.dataId]

theorem Plain.sends_dataDummyWhenOblivious (plain : s.Plain fp keys) :
    Steps (doWhen (s.config.mode == .fullOblivious) s.dataDummy s) id fp keys fp.dataShape := by
  have due : (s.config.mode == .fullOblivious) = true := by simp [plain.fixed.oblivious]
  rw [due]
  exact plain.sends_dataDummy

/-! ## Sequential access -/

theorem Plain.sends_accessPlainHot (plain : s.Plain fp keys) (key : Int)
    (newValue : Option Bytes) :
    Steps (s.accessPlainHot key newValue) Prod.snd fp keys (fp.sequentialShape .hot) := by
  refine Prog.emits_bind (plain.sends_searchTier .hot key) ?_
  rintro ⟨ref, searched⟩ _ ⟨searchedPlain, rfl⟩
  refine Prog.emits_bind (searchedPlain.sends_dataAccess (refToBlk ref) newValue) ?_
  rintro ⟨value, read⟩ _ ⟨readPlain, rfl⟩
  refine Prog.emits_bind (readPlain.sends_dummyTier .cold) ?_
  rintro dummied _ ⟨dummiedPlain, rfl⟩
  refine Prog.emits_bind dummiedPlain.sends_dataDummyWhenOblivious ?_
  rintro final _ ⟨finalPlain, rfl⟩
  exact Prog.emits_pure ⟨finalPlain, by simp [Footprint.sequentialShape]⟩

theorem Plain.sends_accessPlainCold (plain : s.Plain fp keys) (key : Int)
    (newValue : Option Bytes) :
    Steps (s.accessPlainCold key newValue) Prod.snd fp keys (fp.sequentialShape .cold) := by
  refine Prog.emits_bind (plain.sends_onDummy .hot) ?_
  rintro dummied _ ⟨dummiedPlain, rfl⟩
  refine Prog.emits_bind (dummiedPlain.sends_searchTier .cold key) ?_
  rintro ⟨ref, searched⟩ _ ⟨searchedPlain, rfl⟩
  refine Prog.emits_bind searchedPlain.sends_dataDummyWhenOblivious ?_
  rintro padded _ ⟨paddedPlain, rfl⟩
  refine (paddedPlain.sends_dataAccess (refToBlk ref) newValue).mono ?_
  rintro outcome _ ⟨finalPlain, rfl⟩
  exact ⟨finalPlain, by simp [Footprint.sequentialShape]⟩

theorem Plain.sends_accessPlainSequential (plain : s.Plain fp keys) (key : Int)
    (newValue : Option Bytes) :
    Steps (s.accessPlainSequential key newValue) Prod.snd fp keys
      (fp.sequentialShape (tierOf keys key)) := by
  unfold accessPlainSequential
  rw [plain.fixed.physHot]
  by_cases isHot : key ∈ keys
  · rw [if_pos isHot, tierOf, if_pos isHot]
    exact plain.sends_accessPlainHot key newValue
  · rw [if_neg isHot, tierOf, if_neg isHot]
    exact plain.sends_accessPlainCold key newValue

end TieredOMap

end TieredOmap
