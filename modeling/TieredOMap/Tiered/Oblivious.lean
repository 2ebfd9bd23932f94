import TieredOMap.Tiered.AccessShape

/-!
# What the server learns from an access

The stores a tiered map creates are distinct, so the shapes of the two tiers
differ: of two accesses from one state the server sees the same requests
exactly when both keys are searched in the same tier.
-/

namespace TieredOmap

/-! ## Created stores -/

/-- The ids of the stores a program creates. -/
abbrev Creates {Result : Type} (program : Rand Result) (post : Result → List Nat → Prop) : Prop :=
  Prog.Emits (fun world : World => List.range world.nextStore) (fun _ => True) program post

theorem creates_freshStore : Creates freshStore (fun storeId created => created = [storeId]) := by
  intro before world start
  exact ⟨[world.nextStore], by simp [List.range_succ, start], rfl⟩

theorem creates_randBelow (bound : Nat) :
    Creates (randBelow bound) (fun _ created => created = []) := by
  intro before world start
  rcases bound with _ | bound
  · exact ⟨[], by simpa using start, rfl⟩
  · rcases draws : world.draws with _ | ⟨draw, rest⟩
    · simp only [Prog.runFrom, randBelow, draws]
      exact ⟨[], by simpa using start, rfl⟩
    · simp only [Prog.runFrom, randBelow, draws]
      exact ⟨[], by simpa using start, rfl⟩

namespace PathORAM

variable [Cipher]

omit [Cipher] in
theorem creates_new (numData bucketSize stashScale : Int) :
    Creates (PathORAM.new numData bucketSize stashScale)
      (fun oram created => created = [oram.storage.storeId]) := by
  refine Prog.emits_bind creates_freshStore ?_
  rintro storeId _ rfl
  exact Prog.emits_pure rfl

omit [Cipher] in
theorem creates_assignLeaves (entries : List (Int × Bytes)) (oram : PathORAM) :
    Creates (oram.assignLeaves entries) (fun oram' created =>
      oram'.storage = oram.storage ∧ created = []) := by
  induction entries generalizing oram with
  | nil => exact Prog.emits_pure ⟨rfl, rfl⟩
  | cons entry rest ih =>
      unfold assignLeaves
      split
      · exact ih oram
      · refine Prog.emits_bind (creates_randBelow _) ?_
        rintro leaf _ rfl
        exact ih (oram.setLeaf entry.1 leaf)

theorem creates_init (oram : PathORAM) (data : KeyMap Int Bytes) :
    Creates (oram.init data) (fun oram' created =>
      oram'.storage.storeId = oram.storage.storeId ∧ created = []) := by
  refine Prog.emits_bind (creates_assignLeaves _ _) ?_
  rintro assigned _ ⟨sameStorage, rfl⟩
  refine Prog.emits_pure ⟨?_, rfl⟩
  dsimp only
  rw [BinaryTreeStorage.storeId_bulkLoad, sameStorage]
  rfl

end PathORAM

namespace AVLOmap

variable [Cipher]

omit [Cipher] in
theorem creates_decodeNodes (entries : List (Int × Bytes)) :
    Creates (decodeNodes entries) (fun _ created => created = []) := by
  induction entries with
  | nil => exact Prog.emits_pure rfl
  | cons entry rest ih =>
      refine Prog.emits_bind (Q := fun _ created => created = []) ?_ ?_
      · unfold AVLNodeData.decode
        split
        · exact Prog.emits_fail trivial
        · exact Prog.emits_pure rfl
      · rintro avl _ rfl
        refine Prog.emits_bind ih ?_
        rintro nodes _ rfl
        exact Prog.emits_pure rfl

omit [Cipher] in
theorem creates_fixHeights (fuel : Nat) (key : Int) (nodes : List (Int × AVLNodeData)) :
    Creates (fixHeights fuel key nodes) (fun _ created => created = []) := by
  induction fuel generalizing key nodes with
  | zero => exact Prog.emits_pure rfl
  | succ fuel ih =>
      unfold fixHeights
      split
      · exact Prog.emits_pure rfl
      · refine Prog.emits_bind (Q := fun _ created => created = []) ?_ ?_
        · unfold nodeAt
          split
          · exact Prog.emits_pure rfl
          · exact Prog.emits_fail trivial
        · rintro avl _ rfl
          refine Prog.emits_bind (ih avl.lKey nodes) ?_
          rintro ⟨lHeight, nodes⟩ _ rfl
          refine Prog.emits_bind (ih avl.rKey nodes) ?_
          rintro ⟨rHeight, nodes⟩ _ rfl
          exact Prog.emits_pure rfl

omit [Cipher] in
theorem creates_drawLeaves (keys : List Int) (oram : PathORAM) :
    Creates (drawLeaves keys oram) (fun oram' created =>
      oram'.storage = oram.storage ∧ created = []) := by
  induction keys generalizing oram with
  | nil => exact Prog.emits_pure ⟨rfl, rfl⟩
  | cons key rest ih =>
      refine Prog.emits_bind (Q := fun _ created => created = []) ?_ ?_
      · refine Prog.emits_bind (creates_randBelow _) ?_
        rintro leaf _ rfl
        exact Prog.emits_pure rfl
      · rintro leaf _ rfl
        exact ih (oram.setLeaf key leaf)

omit [Cipher] in
theorem maxHeightFor_pos (capacity : Int) : 0 < maxHeightFor capacity := by
  unfold maxHeightFor
  omega

omit [Cipher] in
/-- A tree made without a split has one new store. -/
theorem creates_make {config : TieredOMapConfig} (noSplit : config.useSplitOram = false)
    (capacity : Int) (isCold : Bool) (hotCount : Int) :
    Creates (AVLOmap.make config capacity isCold hotCount) (fun omap created =>
      ∃ storeId height, 0 < height ∧ omap.Whole storeId height 0 ∧ created = [storeId]) := by
  unfold AVLOmap.make
  rw [noSplit, Bool.and_false, Bool.false_and, if_neg (by simp)]
  refine Prog.emits_bind (PathORAM.creates_new _ _ _) ?_
  rintro oram _ rfl
  exact Prog.emits_pure ⟨oram.storage.storeId, _, maxHeightFor_pos capacity,
    ⟨by simp, rfl, rfl, rfl, rfl, rfl, rfl⟩, rfl⟩

/-- Initialising a tree keeps its store or replaces it by a new one. -/
theorem Whole.creates_init {omap : AVLOmap} {store : Nat} {height : Int}
    (whole : omap.Whole store height 0) (data : List (Int × Bytes)) :
    Creates (omap.init data) (fun omap' created => ∃ store',
      omap'.Whole store' height 0 ∧ (store' = store ∧ created = [] ∨ created = [store'])) := by
  unfold AVLOmap.init
  split
  · exact Prog.emits_pure ⟨store, ⟨whole.noSplit, whole.storeId, whole.noOds, whole.maxHeight_eq,
      whole.opCount_eq, whole.upperOpCount_eq, whole.lowerOpCount_eq⟩, Or.inl ⟨rfl, rfl⟩⟩
  · dsimp only
    refine Prog.emits_bind (creates_decodeNodes _) ?_
    rintro nodes _ rfl
    refine Prog.emits_bind (creates_fixHeights _ _ _) ?_
    rintro ⟨_, nodes⟩ _ rfl
    dsimp only
    rw [if_neg whole.noSplit]
    refine Prog.emits_bind (Q := fun omap' created => ∃ store',
      omap'.Whole store' height 0 ∧ created = [store']) ?_ ?_
    · refine Prog.emits_bind (PathORAM.creates_new _ _ _) ?_
      rintro oram _ rfl
      refine Prog.emits_bind (creates_drawLeaves _ _) ?_
      rintro drawn _ ⟨sameStorage, rfl⟩
      refine Prog.emits_bind (PathORAM.creates_init _ _) ?_
      rintro loaded _ ⟨sameId, rfl⟩
      rw [sameStorage] at sameId
      exact Prog.emits_pure ⟨oram.storage.storeId, ⟨whole.noSplit, sameId, whole.noOds,
        whole.maxHeight_eq, whole.opCount_eq, whole.upperOpCount_eq, whole.lowerOpCount_eq⟩, rfl⟩
    · rintro built _ ⟨store', builtWhole, rfl⟩
      exact Prog.emits_pure ⟨store', ⟨builtWhole.noSplit, builtWhole.storeId, builtWhole.noOds,
        builtWhole.maxHeight_eq, builtWhole.opCount_eq, builtWhole.upperOpCount_eq,
        builtWhole.lowerOpCount_eq⟩, Or.inr rfl⟩

end AVLOmap

/-! ## The shapes of the two tiers differ -/

namespace Footprint

/-- The cold map's store is none of the two others. -/
structure Apart (fp : Footprint) : Prop where
  data : fp.dataStore ≠ fp.tierStore .cold
  tiers : fp.tierStore .hot ≠ fp.tierStore .cold

variable {fp : Footprint}

/-- A batched access first reads the searched tier, then the other one. -/
theorem head_batchedShape (positive : ∀ tier, 0 < fp.height tier) (tier : Tier) :
    (fp.batchedShape tier).head? =
      some (.batchRead [fp.tierStore tier, fp.tierStore tier.other]) := by
  have some : ∀ tier, 0 < fp.rounds tier := by
    intro tier
    have positive := positive tier
    unfold rounds
    omega
  have notDue : ¬(0 = fp.rounds tier ∨ 0 = fp.rounds tier + 1) := by
    have more := some tier
    omega
  obtain ⟨count, countEq⟩ : ∃ count, fp.lastRound tier = count + 1 :=
    ⟨fp.lastRound tier - 1, by unfold lastRound; omega⟩
  rw [batchedShape, countEq, List.range_succ_eq_map, List.flatMap_cons, roundShape, roundStores,
    if_pos (some tier), if_pos (some tier.other), if_neg notDue]
  rfl

/-- A sequential access goes from the hot map to the data store for a hot key only. -/
theorem sequentialShape_ne (apart : fp.Apart) (positive : 0 < fp.height .cold) :
    fp.sequentialShape .hot ≠ fp.sequentialShape .cold := by
  intro same
  obtain ⟨count, countEq⟩ : ∃ count, fp.rounds .cold = count + 1 :=
    ⟨fp.rounds .cold - 1, by unfold rounds; omega⟩
  simp only [sequentialShape, List.append_assoc, List.append_cancel_left_eq, dataShape, tierShape,
    countEq, pathAccesses, List.cons_append, List.cons.injEq, StorageReq.readPath.injEq] at same
  exact apart.data same.1

/-- The shape of an access tells the two tiers apart. -/
theorem accessShape_inj (apart : fp.Apart) (positive : ∀ tier, 0 < fp.height tier)
    {tier tier' : Tier} (same : fp.accessShape tier = fp.accessShape tier') : tier = tier' := by
  have differ : fp.accessShape .hot ≠ fp.accessShape .cold := by
    unfold accessShape
    split
    · intro sameBatched
      have sameHead := congrArg List.head? sameBatched
      rw [head_batchedShape positive, head_batchedShape positive] at sameHead
      simp only [Option.some.injEq, StorageReq.batchRead.injEq, List.cons.injEq] at sameHead
      exact apart.tiers sameHead.1
    · exact sequentialShape_ne apart (positive .cold)
  cases tier <;> cases tier'
  · rfl
  · exact absurd same differ
  · exact absurd same.symm differ
  · rfl

end Footprint

/-! ## Reachable states -/

namespace TieredOMap

section Requests

variable [Cipher]

/-- The states of a tiered map with AVL tiers that calls of its interface lead to. -/
inductive Reachable (config : TieredOMapConfig) : TieredOMap AvlTiers → Prop where
  | init {allData : List (Int × Bytes)} {hotKeys : List Int} {world world' : World}
      {s : TieredOMap AvlTiers}
      (run : (TieredOMap.init config allData hotKeys).runFrom world = (.ok s, world')) :
      Reachable config s
  | setChannel {s : TieredOMap AvlTiers} (channel : Bool) (reachable : Reachable config s) :
      Reachable config { s with channel }
  | access {s s' : TieredOMap AvlTiers} {fuel : Nat} {key : Int} {newValue : Option Bytes}
      {world world' : World} {result : AccessResult} (reachable : Reachable config s)
      (run : (s.access fuel key newValue).runFrom world = (.ok (result, s'), world')) :
      Reachable config s'

/-- A full-oblivious configuration without maintenance and without a split. -/
structure PlainConfig (config : TieredOMapConfig) : Prop where
  oblivious : config.mode = .fullOblivious
  noMaint : config.maintenance.enabled = false
  noSplit : config.useSplitOram = false

/-- After `init` the map has a footprint with distinct stores. -/
theorem creates_init {config : TieredOMapConfig} (plainConfig : PlainConfig config)
    (allData : List (Int × Bytes)) (hotKeys : List Int) :
    Creates (TieredOMap.init (Ω := AvlTiers) config allData hotKeys) (fun s created =>
      created.Nodup → ∃ fp keys, s.Plain fp keys ∧ fp.Apart) := by
  unfold TieredOMap.init
  simp only [plainConfig.noMaint, Bool.false_eq_true, if_false]
  refine Prog.emits_bind (PathORAM.creates_new _ _ _) ?_
  rintro newOram _ rfl
  refine Prog.emits_bind (PathORAM.creates_init _ _) ?_
  rintro dataOram _ ⟨dataId, rfl⟩
  refine Prog.emits_bind (AVLOmap.creates_make plainConfig.noSplit _ _ _) ?_
  rintro hotMade _ ⟨hotStore, hotHeight, hotPositive, hotWhole, rfl⟩
  refine Prog.emits_bind (AVLOmap.creates_make plainConfig.noSplit _ _ _) ?_
  rintro coldMade _ ⟨coldStore, coldHeight, coldPositive, coldWhole, rfl⟩
  refine Prog.emits_bind (hotWhole.creates_init _) ?_
  rintro hotOmap hotCreated ⟨hotStore', hotFinal, hotEq⟩
  refine Prog.emits_bind (coldWhole.creates_init _) ?_
  rintro coldOmap coldCreated ⟨coldStore', coldFinal, coldEq⟩
  refine Prog.emits_pure ?_
  intro nodup
  refine ⟨{ dataStore := newOram.storage.storeId, batched := false
            tierStore := fun tier => Tier.rec hotStore' coldStore' tier
            height := fun tier => Tier.rec hotHeight coldHeight tier },
    hotKeys.toFinset, ⟨⟨rfl, plainConfig.oblivious, rfl, rfl, dataId, rfl, ?_⟩, ?_⟩, ?_⟩
  · intro tier
    cases tier with
    | hot => exact hotPositive
    | cold => exact coldPositive
  · intro tier
    cases tier with
    | hot => exact ⟨0, hotFinal⟩
    | cold => exact ⟨0, coldFinal⟩
  · rcases hotEq with ⟨rfl, rfl⟩ | rfl <;> rcases coldEq with ⟨rfl, rfl⟩ | rfl <;>
      simp at nodup <;> constructor <;> dsimp only <;> tauto

/-- A reachable state has a footprint with distinct stores. -/
theorem Reachable.plain {config : TieredOMapConfig} (plainConfig : PlainConfig config)
    {s : TieredOMap AvlTiers} (reachable : Reachable config s) :
    ∃ fp keys, s.Plain fp keys ∧ fp.Apart := by
  induction reachable with
  | init run =>
      rcases (creates_init plainConfig _ _).returned run with ⟨created, rangeEq, holds⟩
      have nodup : (List.range _ ++ created).Nodup := rangeEq ▸ List.nodup_range
      exact holds nodup.of_append_right
  | setChannel channel _ ih =>
      rcases ih with ⟨fp, keys, plain, apart⟩
      exact ⟨{ fp with batched := channel }, keys,
        ⟨⟨plain.fixed.noMaint, plain.fixed.oblivious, rfl, plain.fixed.noForce, plain.fixed.dataId,
          plain.fixed.physHot, plain.fixed.positive⟩, plain.whole⟩, ⟨apart.data, apart.tiers⟩⟩
  | access _ run ih =>
      rcases ih with ⟨fp, keys, plain, apart⟩
      rcases (plain.emits_access _ _ _).returned run with ⟨_, _, plain', _⟩
      exact ⟨fp, keys, plain', apart⟩

/-- The program has a run that returns and sends the given requests. -/
def Requests {Result : Type} (program : Rand Result) (requests : List StorageReq) : Prop :=
  ∃ world world' result, program.runFrom world = (.ok result, world') ∧
    world'.log = world.log ++ requests

/--
Two accesses from one reachable state send the same requests exactly when both
keys or none of them are in the hot map.
-/
theorem same_requests_iff {config : TieredOMapConfig} (plainConfig : PlainConfig config)
    {s : TieredOMap AvlTiers} (reachable : Reachable config s) {fuel fuel' : Nat} {key key' : Int}
    {newValue newValue' : Option Bytes} {requests requests' : List StorageReq}
    (sent : Requests (s.access fuel key newValue) requests)
    (sent' : Requests (s.access fuel' key' newValue') requests') :
    requests = requests' ↔ (key ∈ s.physHotKeys ↔ key' ∈ s.physHotKeys) := by
  rcases reachable.plain plainConfig with ⟨fp, keys, plain, apart⟩
  have shape : ∀ {fuel key newValue requests}, Requests (s.access fuel key newValue) requests →
      requests = fp.accessShape (tierOf keys key) := by
    rintro fuel key newValue requests ⟨world, world', result, run, logEq⟩
    rcases (plain.emits_access fuel key newValue).returned run with ⟨sent, logEq', _, rfl⟩
    exact List.append_cancel_left (logEq.symm.trans logEq')
  have sameTier : tierOf keys key = tierOf keys key' ↔
      (key ∈ s.physHotKeys ↔ key' ∈ s.physHotKeys) := by
    rw [plain.fixed.physHot]
    by_cases isHot : key ∈ keys <;> by_cases isHot' : key' ∈ keys <;> simp [tierOf, isHot, isHot']
  rw [shape sent, shape sent', ← sameTier]
  exact ⟨Footprint.accessShape_inj apart plain.fixed.positive, congrArg fp.accessShape⟩

/-- No two accesses from one reachable state can be told apart, with or without a channel. -/
def SameRequests (config : TieredOMapConfig) (channel : Bool) : Prop :=
  ∀ s : TieredOMap AvlTiers, Reachable config s → s.channel = channel →
    ∀ fuel key key' newValue newValue' requests requests',
      Requests (s.access fuel key newValue) requests →
      Requests (s.access fuel key' newValue') requests' → requests = requests'

end Requests

section Sample

attribute [local instance] clearCipher

/-- The requests of a read after `init` with the hot key `3` and the cold key `5`. -/
def sampleRequests (channel : Bool) (key : Int) : Option (List StorageReq) :=
  match (TieredOMap.init (Ω := AvlTiers) {} [(3, [1]), (5, [2])] [3]).runFrom {} with
  | (.ok s, _) =>
      match (access 20 { s with channel } key none).runFrom {} with
      | (.ok _, world) => some world.log
      | (.error _, _) => none
  | (.error _, _) => none

/-- The footprint of that map. -/
def sampleFootprint (channel : Bool) : Footprint where
  dataStore := 0
  tierStore tier := match tier with | .hot => 3 | .cold => 4
  height _ := 2
  batched := channel

theorem requests_of_sample {channel : Bool} {requests requests' : List StorageReq}
    (sent : sampleRequests channel 3 = some requests)
    (sent' : sampleRequests channel 5 = some requests') :
    ∃ s : TieredOMap AvlTiers, Reachable {} s ∧ s.channel = channel ∧
      Requests (s.access 20 3 none) requests ∧ Requests (s.access 20 5 none) requests' := by
  unfold sampleRequests at sent sent'
  rcases start : (TieredOMap.init (Ω := AvlTiers) {} [(3, [1]), (5, [2])] [3]).runFrom {} with
    ⟨error | s, world⟩
  · rw [start] at sent
    simp at sent
  · rw [start] at sent sent'
    refine ⟨{ s with channel }, (Reachable.init start).setChannel channel, rfl, ?_, ?_⟩
    · rcases run : (access 20 { s with channel } 3 none).runFrom {} with ⟨error | result, world'⟩
      · simp [run] at sent
      · exact ⟨{}, world', result, run, by simpa [run] using sent⟩
    · rcases run : (access 20 { s with channel } 5 none).runFrom {} with ⟨error | result, world'⟩
      · simp [run] at sent'
      · exact ⟨{}, world', result, run, by simpa [run] using sent'⟩

theorem sampleRequests_eq : ∀ channel : Bool,
    sampleRequests channel 3 = some ((sampleFootprint channel).accessShape .hot) ∧
      sampleRequests channel 5 = some ((sampleFootprint channel).accessShape .cold) := by
  decide +kernel

theorem same_requests_iff_sample : ∃ (s : TieredOMap AvlTiers) (requests requests' : _),
    Requests (s.access 20 3 none) requests ∧ Requests (s.access 20 5 none) requests' ∧
      (requests = requests' ↔ ((3 : Int) ∈ s.physHotKeys ↔ (5 : Int) ∈ s.physHotKeys)) := by
  rcases requests_of_sample (sampleRequests_eq true).1 (sampleRequests_eq true).2 with
    ⟨s, reachable, _, sent, sent'⟩
  exact ⟨s, _, _, sent, sent', same_requests_iff ⟨rfl, rfl, rfl⟩ reachable sent sent'⟩

/-- A hot and a cold key are told apart, both on the sequential and on the interleaved path. -/
theorem hot_and_cold_requests_differ : ¬SameRequests {} false ∧ ¬SameRequests {} true := by
  have differ : ∀ channel, ¬SameRequests {} channel := by
    intro channel same
    rcases requests_of_sample (sampleRequests_eq channel).1 (sampleRequests_eq channel).2 with
      ⟨s, reachable, channelEq, sent, sent'⟩
    have sameTier := Footprint.accessShape_inj ⟨by simp [sampleFootprint], by simp [sampleFootprint]⟩ (fun _ => by simp [sampleFootprint])
      (same s reachable channelEq 20 3 5 none none _ _ sent sent')
    cases sameTier
  exact ⟨differ false, differ true⟩

end Sample

end TieredOMap

end TieredOmap
