import TieredOMap.Tiered.QueuedDemotions

/-!
# Explicit moves between the tiers

`promote` and `demote` move a key from one oblivious map to the other. Applied
to a key that the map they search holds, and with room in the other, they are
safe in every reachable state. A key of the hot set may also be in the cache or
pending, though, and a cold key may be pending or not stored at all: then the
search finds nothing, and the empty reference is inserted all the same.
-/

namespace TieredOmap

namespace Client

variable {layout : Layout} {c : Client}

/-- `promote` of a key in the cold map. -/
def promote (c : Client) (key : Int) : Client :=
  { c with
    hotKeys := insert key c.hotKeys
    physHotKeys := insert key c.physHotKeys
    hotKeyList := insertSorted c.hotKeyList key }

/-- `demote` of a key in the hot map. -/
def demote (c : Client) (key : Int) : Client :=
  { c with
    hotKeys := c.hotKeys.erase key
    physHotKeys := c.physHotKeys.erase key
    hotKeyList := eraseSorted c.hotKeyList key }

/-- Promoting a key of the cold map, with room in the hot one, keeps the shape. -/
theorem Shape.promote (shape : c.Shape layout) {key : Int} (inCold : key ∈ c.tierKeys layout .cold)
    (room : (c.physHotKeys ∪ c.pendingIn .hotPend).card < layout.room .hot) :
    (c.promote key).Shape layout ∧
      (c.promote key).tierKeys layout .cold = (c.tierKeys layout .cold).erase key := by
  simp only [tierKeys, Finset.mem_sdiff, Finset.mem_union, not_or] at inCold
  rcases inCold with ⟨keyStored, notHot, notPending⟩
  have notPhys : key ∉ c.physHotKeys := fun phys => notHot (shape.phys_sub phys)
  have notCached : key ∉ c.cacheKeys := fun cached => notHot (shape.cache_sub cached)
  have samePending : (c.promote key).pendingIn = c.pendingIn := rfl
  have differs : c.mgr.swapState ≠ .idle → c.pendingInsertKey ≠ key := by
    rintro swapping rfl
    cases swapEq : c.mgr.swapState with
    | idle => exact swapping swapEq
    | hotPend =>
        refine notHot ?_
        rw [shape.hotKeys_eq]
        simp [pendingIn, swapEq]
    | coldPend => exact notPending (by simp [pendingIn, swapEq])
  refine ⟨⟨pairwise_insertSorted shape.listSorted (fun listed => notPhys ((shape.mem_list _).mp listed)),
    ?_, shape.cacheNodup, shape.mem_cache, shape.cacheRefs, shape.idle, ?_, ?_,
    Finset.insert_subset keyStored shape.hotKeys_sub,
    Finset.disjoint_insert_left.mpr ⟨notCached, shape.apart⟩, ?_, ?_⟩, ?_⟩
  · intro key'
    change key' ∈ insertSorted c.hotKeyList key ↔ key' ∈ insert key c.physHotKeys
    rw [mem_insertSorted, Finset.mem_insert, shape.mem_list]
  · intro swapping
    rcases shape.pending swapping with ⟨pendingStored, refEq, pendingNotPhys, pendingNotCached⟩
    refine ⟨pendingStored, refEq, ?_, pendingNotCached⟩
    exact fun phys => (Finset.mem_insert.mp phys).elim (differs swapping) pendingNotPhys
  · rw [samePending]
    change insert key c.hotKeys = insert key c.physHotKeys ∪ c.cacheKeys ∪ c.pendingIn .hotPend
    rw [shape.hotKeys_eq, Finset.insert_union, Finset.insert_union]
  · rw [samePending]
    change (insert key c.physHotKeys ∪ c.pendingIn .hotPend).card ≤ _
    rw [Finset.insert_union]
    exact (Finset.card_insert_le _ _).trans room
  · refine (Finset.card_le_card ?_).trans shape.coldFits
    exact Finset.sdiff_subset_sdiff (le_refl _) (Finset.subset_insert _ _)
  · simp only [tierKeys, samePending]
    change layout.stored \ (insert key c.hotKeys ∪ c.pendingIn .coldPend) = _
    rw [Finset.insert_union, Finset.sdiff_insert]

/-- Demoting a key of the hot map, with room in the cold one, keeps the shape. -/
theorem Shape.demote (shape : c.Shape layout) {key : Int} (inHot : key ∈ c.physHotKeys)
    (room : (layout.stored \ c.hotKeys).card < layout.room .cold) :
    (c.demote key).Shape layout ∧
      (c.demote key).tierKeys layout .cold = insert key (c.tierKeys layout .cold) := by
  have notCached : key ∉ c.cacheKeys := Finset.disjoint_left.mp shape.apart inHot
  have keyHot : key ∈ c.hotKeys := shape.phys_sub inHot
  have keyStored : key ∈ layout.stored := shape.hotKeys_sub keyHot
  have samePending : (c.demote key).pendingIn = c.pendingIn := rfl
  have notPending : ∀ swapState, swapState ≠ .idle → key ∉ c.pendingIn swapState := by
    intro swapState notIdle pending
    unfold pendingIn at pending
    split at pending
    · rename_i swapEq
      rw [Finset.mem_singleton] at pending
      exact (shape.pending (swapEq ▸ notIdle)).2.2.1 (pending ▸ inHot)
    · exact absurd pending (Finset.notMem_empty _)
  refine ⟨⟨pairwise_eraseSorted shape.listSorted _, ?_, shape.cacheNodup, shape.mem_cache,
    shape.cacheRefs, shape.idle, ?_, ?_, (Finset.erase_subset _ _).trans shape.hotKeys_sub, ?_, ?_,
    ?_⟩, ?_⟩
  · intro key'
    change key' ∈ eraseSorted c.hotKeyList key ↔ key' ∈ c.physHotKeys.erase key
    rw [mem_eraseSorted shape.listSorted, shape.mem_list, Finset.mem_erase]
    exact and_comm
  · intro swapping
    rcases shape.pending swapping with ⟨pendingStored, refEq, pendingNotPhys, pendingNotCached⟩
    exact ⟨pendingStored, refEq, fun phys => pendingNotPhys (Finset.mem_of_mem_erase phys),
      pendingNotCached⟩
  · rw [samePending]
    change c.hotKeys.erase key = c.physHotKeys.erase key ∪ c.cacheKeys ∪ c.pendingIn .hotPend
    rw [shape.hotKeys_eq, Finset.erase_union_distrib, Finset.erase_union_distrib,
      Finset.erase_eq_of_notMem notCached,
      Finset.erase_eq_of_notMem (notPending .hotPend (by decide))]
  · exact Finset.disjoint_of_subset_left (Finset.erase_subset _ _) shape.apart
  · rw [samePending]
    refine (Finset.card_le_card ?_).trans shape.hotFits
    exact Finset.union_subset_union (Finset.erase_subset _ _) (le_refl _)
  · change (layout.stored \ c.hotKeys.erase key).card ≤ _
    rw [Finset.sdiff_erase keyStored]
    exact (Finset.card_insert_le _ _).trans room
  · simp only [tierKeys, samePending]
    change layout.stored \ (c.hotKeys.erase key ∪ c.pendingIn .coldPend) = _
    rw [← Finset.erase_eq_of_notMem (notPending .coldPend (by decide)),
      ← Finset.erase_union_distrib, Finset.sdiff_erase keyStored,
      Finset.erase_eq_of_notMem (notPending .coldPend (by decide))]

end Client

namespace TieredOMap

variable {Ω : Tier → Type} [∀ tier, OmapInterface (Ω tier)]

/-- `promote`. -/
def promote (s : TieredOMap Ω) (key : Int) : Rand (TieredOMap Ω) := do
  if key ∈ s.hotKeys then return s
  else
    let (ref, s) ← s.searchTier .cold key
    let s ← s.onTier .cold (fun omap => OmapInterface.remove omap key)
    let s ← s.onTier .hot (fun omap => OmapInterface.insert omap key ref)
    return { s with
      hotKeys := insert key s.hotKeys
      physHotKeys := insert key s.physHotKeys
      hotKeyList := insertSorted s.hotKeyList key }

/-- `demote`. -/
def demote (s : TieredOMap Ω) (key : Int) : Rand (TieredOMap Ω) := do
  if key ∉ s.hotKeys then return s
  else
    let (ref, s) ← s.searchTier .hot key
    let s ← s.onTier .hot (fun omap => OmapInterface.remove omap key)
    let s ← s.onTier .cold (fun omap => OmapInterface.insert omap key ref)
    return { s with
      hotKeys := s.hotKeys.erase key
      physHotKeys := s.physHotKeys.erase key
      hotKeyList := eraseSorted s.hotKeyList key }

/-- An operation between two accesses. -/
inductive TierOp where
  | access (key : Int) (newValue : Option Bytes)
  | promote (key : Int)
  | demote (key : Int)
deriving DecidableEq, Repr

/-- The access that an operation makes. -/
def TierOp.access? : TierOp → Option (Int × Option Bytes)
  | .access key newValue => some (key, newValue)
  | .promote _ => none
  | .demote _ => none

/-- The value an operation returns is that of its access. -/
def perform [Cipher] (fuel : Nat) (s : TieredOMap Ω) : TierOp → Rand (Bytes × TieredOMap Ω)
  | .access key newValue => do
      let (result, s) ← s.access fuel key newValue
      return (result.value, s)
  | .promote key => do
      let s ← s.promote key
      return ([], s)
  | .demote key => do
      let s ← s.demote key
      return ([], s)

/-- The keys that the hot map holds or is about to receive. -/
def hotLoad (s : TieredOMap Ω) : Finset Int := s.physHotKeys ∪ s.pendingIn .hotPend

/-- The stored keys that the cold map holds or is about to receive. -/
def coldLoad (data : Dataset) (s : TieredOMap Ω) : Finset Int := data.stored \ s.hotKeys

/-- The key is in the cold map: it is stored, not in the hot set and not pending. -/
def InCold (data : Dataset) (s : TieredOMap Ω) (key : Int) : Prop :=
  key ∈ data.stored ∧ key ∉ s.hotKeys ∧ key ∉ s.pendingIn .coldPend

/--
When an operation is safe: an access executes no stale demotion, and a move does
nothing or takes a key that the map it searches holds to a map with room for it.
-/
def Safe [Cipher] (config : TieredOMapConfig) (data : Dataset) (fuel : Nat) (s : TieredOMap Ω)
    (world : World) : TierOp → Prop
  | .access key newValue => s.FreshAccess fuel key newValue world
  | .promote key => key ∈ s.hotKeys ∨ s.InCold data key ∧ s.hotLoad.card < data.room config .hot
  | .demote key =>
      key ∉ s.hotKeys ∨ key ∈ s.physHotKeys ∧ (s.coldLoad data).card < data.room config .cold

variable [∀ tier, LawfulOmap (Ω tier)] [Cipher] {layout : Layout} {c : Client} {s : TieredOMap Ω}

/-- A key has been moved from a tier to the other one; the client does not know it yet. -/
structure Relocated (layout : Layout) (c : Client) (tier : Tier) (key : Int)
    (s s' : TieredOMap Ω) : Prop where
  client : ∀ records, s'.client records = s.client records
  dataOram : s'.dataOram = s.dataOram
  channel : s'.channel = s.channel
  rep : LawfulOmap.Rep (s'.omap tier) (refsOn layout.refs ((c.tierKeys layout tier).erase key))
    (layout.room tier)
  repOther : LawfulOmap.Rep (s'.omap tier.other)
    (refsOn layout.refs (insert key (c.tierKeys layout tier.other))) (layout.room tier.other)

/-- Searching a key in its tier, removing it there and inserting what was found in the other. -/
theorem Serves.ends_relocate (serves : s.Serves layout c) {tier : Tier} {key : Int}
    {Result : Type} {next : TieredOMap Ω → Rand Result} {post : Result → Prop}
    (keyStored : key ∈ layout.stored) (held : key ∈ c.tierKeys layout tier)
    (outside : key ∉ c.tierKeys layout tier.other)
    (room : (c.tierKeys layout tier.other).card < layout.room tier.other)
    (rest : ∀ s', Relocated layout c tier key s s' → Ends (next s') post) :
    Ends (do
        let (ref, s) ← s.searchTier tier key
        let s ← s.onTier tier (fun omap => OmapInterface.remove omap key)
        let s ← s.onTier tier.other (fun omap => OmapInterface.insert omap key ref)
        next s) post := by
  have search : Ends (s.searchTier tier key) (fun outcome => ∃ omap,
      outcome = (layout.refs key, s.setOmap tier omap) ∧ LawfulOmap.Rep omap
        (refsOn layout.refs (c.tierKeys layout tier)) (layout.room tier)) := by
    refine Prog.ends_bind (LawfulOmap.ends_search _ _ _ key (serves.reps tier)) ?_
    rintro ⟨ref, omap⟩ ⟨refEq, rep⟩
    have refIs : ref = layout.refs key := refEq.trans (valueOf_refsOn held)
    exact Prog.ends_pure ⟨omap, by rw [refIs], rep⟩
  refine Prog.ends_bind search ?_
  rintro _ ⟨searched, rfl, searchedRep⟩
  have searchedServes := serves.setOmap searchedRep
  refine Prog.ends_bind (searchedServes.ends_removeTier tier key) ?_
  rintro _ ⟨removed, rfl, removedRep⟩
  have otherEq : ((s.setOmap tier searched).setOmap tier removed).omap tier.other =
      s.omap tier.other := by cases tier <;> rfl
  refine Prog.ends_bind (Q := fun s' => Relocated layout c tier key s s') ?_ rest
  refine Prog.ends_bind (LawfulOmap.ends_insert _ _ _ key (layout.refs key)
    (c.tierKeys layout tier.other) (otherEq ▸ serves.reps tier.other) (layout.valid _ keyStored)
    ?_ ?_ room) ?_
  · simp [refsOn, outside]
  · exact fun key held => refsOn_isSome.mp held
  · intro inserted insertedRep
    rw [update_refsOn_some] at insertedRep
    refine Prog.ends_pure ?_
    cases tier
    · exact ⟨fun _ => rfl, rfl, rfl, removedRep, insertedRep⟩
    · exact ⟨fun _ => rfl, rfl, rfl, removedRep, insertedRep⟩

/-- The client of a relocated key. -/
theorem Serves.relocated (serves : s.Serves layout c) {tier : Tier} {key : Int}
    {s' s'' : TieredOMap Ω} {c' : Client} (relocated : Relocated layout c tier key s s')
    (same : SameStores s' s'') (client : s''.client c.records = c') (shape : c'.Shape layout)
    (lost : c'.tierKeys layout tier = (c.tierKeys layout tier).erase key)
    (gained : c'.tierKeys layout tier.other = insert key (c.tierKeys layout tier.other)) :
    s''.Serves layout c' := by
  have recordsEq : c'.records = c.records := by rw [← client]; rfl
  refine ⟨recordsEq ▸ client, shape, ?_, ?_, ?_⟩
  · intro tier'
    rw [same.omap]
    have rep := relocated.rep
    have repOther := relocated.repOther
    rw [← lost] at rep
    rw [← gained] at repOther
    cases tier <;> cases tier' <;> first | exact rep | exact repOther
  · rw [same.dataOram, relocated.dataOram, recordsEq]
    exact serves.data
  · rw [same.channel, relocated.channel]
    exact serves.noChannel

/-- An explicit promotion of a key in the cold map. -/
theorem Serves.ends_promoteKey (serves : s.Serves layout c) {key : Int}
    (inCold : key ∈ c.tierKeys layout .cold)
    (room : (c.physHotKeys ∪ c.pendingIn .hotPend).card < layout.room .hot) :
    Ends (s.promote key) (fun s' => s'.Serves layout (c.promote key)) := by
  have notHot : key ∉ c.hotKeys := by
    simp only [Client.tierKeys, Finset.mem_sdiff, Finset.mem_union, not_or] at inCold
    exact inCold.2.1
  have keyStored : key ∈ layout.stored := (Finset.mem_sdiff.mp inCold).1
  have outside : key ∉ c.tierKeys layout .hot := fun phys => notHot (serves.shape.phys_sub phys)
  have fits : (c.tierKeys layout .hot).card < layout.room .hot :=
    (Finset.card_le_card Finset.subset_union_left).trans_lt room
  rcases serves.shape.promote inCold room with ⟨shape, coldTier⟩
  unfold TieredOMap.promote
  rw [if_neg (serves.hotKeys_eq ▸ notHot)]
  refine @Serves.ends_relocate _ _ _ _ _ _ _ serves .cold _ _ _ _ keyStored inCold outside fits ?_
  intro s' relocated
  refine Prog.ends_pure (serves.relocated relocated ⟨rfl, rfl, rfl, rfl⟩ ?_ shape coldTier rfl)
  exact congrArg (Client.promote · key) ((relocated.client c.records).trans serves.client)

/-- An explicit demotion of a key in the hot map. -/
theorem Serves.ends_demoteKey (serves : s.Serves layout c) {key : Int}
    (inHot : key ∈ c.physHotKeys)
    (room : (layout.stored \ c.hotKeys).card < layout.room .cold) :
    Ends (s.demote key) (fun s' => s'.Serves layout (c.demote key)) := by
  have keyHot : key ∈ c.hotKeys := serves.shape.phys_sub inHot
  have keyStored : key ∈ layout.stored := serves.shape.hotKeys_sub keyHot
  have outside : key ∉ c.tierKeys layout .cold := by simp [Client.tierKeys, keyHot]
  have fits : (c.tierKeys layout .cold).card < layout.room .cold := by
    refine (Finset.card_le_card ?_).trans_lt room
    exact Finset.sdiff_subset_sdiff (le_refl _) Finset.subset_union_left
  rcases serves.shape.demote inHot room with ⟨shape, coldTier⟩
  unfold TieredOMap.demote
  rw [if_neg (not_not.mpr (serves.hotKeys_eq ▸ keyHot))]
  refine @Serves.ends_relocate _ _ _ _ _ _ _ serves .hot _ _ _ _ keyStored inHot outside fits ?_
  intro s' relocated
  refine Prog.ends_pure (serves.relocated relocated ⟨rfl, rfl, rfl, rfl⟩ ?_ shape rfl coldTier)
  exact congrArg (Client.demote · key) ((relocated.client c.records).trans serves.client)

/-! ## Runs -/

/--
The states that a run of safe operations reaches from `init`, with the operations
and the values they have returned.
-/
inductive SafelyReached (config : TieredOMapConfig) (data : Dataset) :
    List TierOp → List Bytes → TieredOMap Ω → Prop
  | init {s : TieredOMap Ω} {world world' : World}
      (run : (TieredOMap.init config data.records data.hotKeys).runFrom world = (.ok s, world')) :
      SafelyReached config data [] [] s
  | step {ops : List TierOp} {values : List Bytes} {s s' : TieredOMap Ω} {fuel : Nat} {op : TierOp}
      {value : Bytes} {world world' : World} (reached : SafelyReached config data ops values s)
      (safe : s.Safe config data fuel world op)
      (run : (s.perform fuel op).runFrom world = (.ok (value, s'), world')) :
      SafelyReached config data (ops ++ [op]) (values ++ [value]) s'

/-- The value of a key after some operations. -/
def valueAfter (data : Dataset) (ops : List TierOp) (key : Int) : Bytes :=
  latestValue (data.valueAt key) (ops.filterMap TierOp.access?) key

omit [∀ tier, OmapInterface (Ω tier)] [∀ tier, LawfulOmap (Ω tier)] [Cipher] in
theorem valueAfter_append (data : Dataset) (ops : List TierOp) (op : TierOp) (key : Int) :
    valueAfter data (ops ++ [op]) key = match op.access? with
      | some (key', newValue) =>
          if key = key' then newValue.getD (valueAfter data ops key) else valueAfter data ops key
      | none => valueAfter data ops key := by
  cases op with
  | access key' newValue =>
      simp only [valueAfter, latestValue, List.filterMap_append, List.filterMap_cons,
        TierOp.access?, List.filterMap_nil, List.foldl_append, List.foldl_cons, List.foldl_nil,
        eq_comm]
  | promote key' =>
      have none : [TierOp.promote key'].filterMap TierOp.access? = [] := rfl
      rw [valueAfter, List.filterMap_append, none, List.append_nil]
      rfl
  | demote key' =>
      have none : [TierOp.demote key'].filterMap TierOp.access? = [] := rfl
      rw [valueAfter, List.filterMap_append, none, List.append_nil]
      rfl

variable [ScannedOmap (Ω .hot)]

/-- One safe operation. -/
theorem Serves.performed {config : TieredOMapConfig} {data : Dataset}
    (serves : s.Serves (data.layout config) c) {fuel : Nat} {op : TierOp} {value : Bytes}
    {s' : TieredOMap Ω} {world world' : World} (safe : s.Safe config data fuel world op)
    (run : (s.perform fuel op).runFrom world = (.ok (value, s'), world')) :
    ∃ c', s'.Serves (data.layout config) c' ∧ c'.config = c.config ∧
      (∀ key ∈ data.stored, c'.valueOf key = match op.access? with
        | some (key', newValue) =>
            if key = key' then newValue.getD (c.valueOf key) else c.valueOf key
        | none => c.valueOf key) ∧
      ∀ key ∈ data.stored, op = .access key none → value = c.valueOf key := by
  obtain ⟨records, clientEq⟩ : ∃ records, c = s.client records := ⟨_, serves.client.symm⟩
  subst clientEq
  cases op with
  | access key newValue =>
      rcases Prog.runs_of_bind run with ⟨⟨result, s''⟩, between, accessRun, lastRun⟩
      cases lastRun
      rcases serves.accessed safe accessRun with ⟨c', serves', accessed⟩
      refine ⟨c', serves', accessed.keeps.config, accessed.values, ?_⟩
      rintro key' keyStored isRead
      cases isRead
      exact accessed.answer keyStored rfl
  | promote key =>
      rcases Prog.runs_of_bind run with ⟨s'', between, promoteRun, lastRun⟩
      cases lastRun
      rcases safe with already | ⟨inCold, room⟩
      · rw [TieredOMap.promote, if_pos already] at promoteRun
        cases promoteRun
        exact ⟨_, serves, rfl, fun _ _ => rfl, fun _ _ isRead => by cases isRead⟩
      · have held : key ∈ (s.client records).tierKeys (data.layout config) .cold := by
          rcases inCold with ⟨keyStored, notHot, notPending⟩
          exact Finset.mem_sdiff.mpr ⟨keyStored, by
            rw [Finset.mem_union, not_or]
            exact ⟨notHot, notPending⟩⟩
        exact ⟨_, (serves.ends_promoteKey held room).returned promoteRun, rfl, fun _ _ => rfl,
          fun _ _ isRead => by cases isRead⟩
  | demote key =>
      rcases Prog.runs_of_bind run with ⟨s'', between, demoteRun, lastRun⟩
      cases lastRun
      rcases safe with already | ⟨inHot, room⟩
      · rw [TieredOMap.demote, if_pos already] at demoteRun
        cases demoteRun
        exact ⟨_, serves, rfl, fun _ _ => rfl, fun _ _ isRead => by cases isRead⟩
      · exact ⟨_, (serves.ends_demoteKey inHot room).returned demoteRun, rfl, fun _ _ => rfl,
          fun _ _ isRead => by cases isRead⟩

/-- A run of safe operations serves a client with the latest values, and has returned them. -/
theorem SafelyReached.serves {config : TieredOMapConfig} {data : Dataset} {ops : List TierOp}
    {values : List Bytes} (reached : SafelyReached config data ops values s) :
    (∃ c, s.Serves (data.layout config) c ∧
      ∀ key ∈ data.stored, c.valueOf key = valueAfter data ops key) ∧
    values.length = ops.length ∧
    ∀ i key, key ∈ data.stored → ops[i]? = some (.access key none) →
      values[i]? = some (valueAfter data (ops.take i) key) := by
  induction reached with
  | init run =>
      refine ⟨⟨_, (ends_init data config).returned run, ?_⟩, rfl, by simp⟩
      intro key _
      exact Client.valueOf_start data config key
  | @step ops values s s' fuel op value world world' _ safe run ih =>
      rcases ih with ⟨⟨c, serves, latest⟩, lengthEq, answers⟩
      rcases serves.performed safe run with ⟨c', serves', _, values', answer⟩
      refine ⟨⟨c', serves', ?_⟩, by simp [lengthEq], ?_⟩
      · intro key keyStored
        rw [values' key keyStored, latest key keyStored, valueAfter_append]
      · intro i key keyStored isRead
        rcases Nat.lt_trichotomy i ops.length with before | here | after
        · rw [List.getElem?_append_left before] at isRead
          rw [List.getElem?_append_left (lengthEq.symm ▸ before),
            List.take_append_of_le_length before.le]
          exact answers i key keyStored isRead
        · subst here
          have opEq : op = .access key none := by simpa using isRead
          have valueEq : (values ++ [value])[ops.length]? = some value := by
            rw [← lengthEq]
            simp
          rw [valueEq, List.take_left, answer key keyStored opEq, latest key keyStored]
        · have outside : (ops ++ [op])[i]? = none := by
            rw [List.getElem?_eq_none_iff, List.length_append, List.length_singleton]
            omega
          rw [outside] at isRead
          cases isRead

end TieredOMap

namespace TieredOMap

section Sample

attribute [local instance] clearCipher

/-- What the two maps hold once a reference map has been initialised and one operation performed. -/
def heldAfter (config : TieredOMapConfig) (op : TierOp) :
    Option (List (Int × Bytes) × List (Int × Bytes)) :=
  match (TieredOMap.init (Ω := MapTiers) config sampleData.records sampleData.hotKeys).runFrom {} with
  | (.ok s, world) =>
      match (s.perform 0 op).runFrom world with
      | (.ok (_, s), _) => some (s.hotOmap.contents.entries, s.coldOmap.contents.entries)
      | (.error _, _) => none
  | (.error _, _) => none

theorem of_heldAfter {config : TieredOMapConfig} {op : TierOp}
    {hotEntries coldEntries : List (Int × Bytes)}
    (held : heldAfter config op = some (hotEntries, coldEntries)) :
    ∃ (s s' : TieredOMap MapTiers) (world world' : World) (value : Bytes),
      (TieredOMap.init config sampleData.records sampleData.hotKeys).runFrom {} = (.ok s, world) ∧
      (s.perform 0 op).runFrom world = (.ok (value, s'), world') ∧
      s'.hotOmap.contents.entries = hotEntries ∧ s'.coldOmap.contents.entries = coldEntries := by
  unfold heldAfter at held
  rcases start : (TieredOMap.init (Ω := MapTiers) config sampleData.records
    sampleData.hotKeys).runFrom {} with ⟨_ | s, world⟩
  · simp [start] at held
  · rcases performed : (s.perform 0 op).runFrom world with ⟨_ | ⟨value, s'⟩, world'⟩
    · simp [start, performed] at held
    · simp only [start, performed, Option.some.injEq, Prod.mk.injEq] at held
      exact ⟨s, s', world, world', value, rfl, performed, held.1, held.2⟩

/-- The value of key 7 once it has been promoted. -/
def readPromoted : Option Bytes :=
  match (TieredOMap.init (Ω := MapTiers) sampleConfig sampleData.records
    sampleData.hotKeys).runFrom {} with
  | (.ok s, world) =>
      match (s.perform 0 (.promote 7)).runFrom world with
      | (.ok (_, s), world) =>
          match (s.perform 0 (.access 7 none)).runFrom world with
          | (.ok (value, _), _) => some value
          | (.error _, _) => none
      | (.error _, _) => none
  | (.error _, _) => none

/-- A cold key is promoted while the cache leaves room for it in the hot map, and then read. -/
theorem safelyReached_sample : ∃ (s : TieredOMap MapTiers) (value : Bytes),
    SafelyReached sampleConfig sampleData [.promote 7, .access 7 none] [[], value] s := by
  have returns : readPromoted = some [3] := by decide +kernel
  unfold readPromoted at returns
  rcases start : (TieredOMap.init (Ω := MapTiers) sampleConfig sampleData.records
    sampleData.hotKeys).runFrom {} with ⟨_ | s, world⟩
  · simp [start] at returns
  rcases promoted : (s.perform 0 (.promote 7)).runFrom world with ⟨_ | ⟨none', s'⟩, world'⟩
  · simp [start, promoted] at returns
  rcases read : (s'.perform 0 (.access 7 none)).runFrom world' with ⟨_ | ⟨value, s''⟩, world''⟩
  · simp [start, promoted, read] at returns
  have noneEq : none' = [] := by
    rcases Prog.runs_of_bind promoted with ⟨_, _, _, last⟩
    cases last
    rfl
  subst noneEq
  have serves := (ends_init sampleData sampleConfig).returned start
  have safe : s.Safe sampleConfig sampleData 0 world (.promote 7) := by
    have hotEq : s.hotKeys = {5, 3} := serves.hotKeys_eq
    have physEq : s.physHotKeys = {5} := serves.physHotKeys_eq.trans (by decide)
    have swapEq : s.mgr.swapState = .idle := by
      rw [serves.mgr_eq]
      rfl
    refine Or.inr ⟨⟨by decide, by rw [hotEq]; decide, by simp [pendingIn, swapEq]⟩, ?_⟩
    have loadEq : s.hotLoad = {5} := by simp [hotLoad, pendingIn, swapEq, physEq]
    rw [loadEq]
    decide
  have once := SafelyReached.step (.init start) safe promoted
  rcases serves.performed safe promoted with ⟨c, serves', configEq, _, _⟩
  have notByItself : c.scansByItself = false := by
    rw [Client.scansByItself, configEq]
    exact Client.scansByItself_start (by decide)
  have fresh := serves'.freshAccess notByItself 0 7 none world'
  exact ⟨s'', value, SafelyReached.step once fresh read⟩

end Sample

end TieredOMap

end TieredOmap
