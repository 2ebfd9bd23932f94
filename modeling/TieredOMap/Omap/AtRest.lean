import TieredOMap.Omap.DaOstRounds

/-!
# Maps at rest

Within an operation a tree map holds nodes outside its ORAMs: `local_` and, in a B+ tree,
`sibling_cache_`. Between the operations it holds none there. `InUse` are the states that
`init` and operations, one after the other, lead to.
-/

namespace TieredOmap

/-- The states that `create` and the calls lead to. -/
inductive InUse {Ω Call : Type} (create : List (Int × Bytes) → Rand Ω) (call : Ω → Call → Rand Ω) :
    Ω → Prop
  | init {omap : Ω} {data : List (Int × Bytes)} {world world' : World}
      (run : (create data).runFrom world = (.ok omap, world')) : InUse create call omap
  | call {omap omap' : Ω} {operation : Call} {world world' : World}
      (inUse : InUse create call omap)
      (run : (call omap operation).runFrom world = (.ok omap', world')) : InUse create call omap'

/-- What `create` establishes and every call keeps holds of all states. -/
theorem InUse.invariant {Ω Call : Type} {create : List (Int × Bytes) → Rand Ω}
    {call : Ω → Call → Rand Ω} {omap : Ω} (inUse : InUse create call omap) {Inv : Ω → Prop}
    (starts : ∀ data, Yields (create data) Inv)
    (keeps : ∀ omap operation, Inv omap → Yields (call omap operation) Inv) : Inv omap := by
  induction inUse with
  | init run => exact (starts _).returned run
  | call _ run ih => exact (keeps _ _ ih).returned run

/-- An operation of a tree map on its own. -/
inductive OmapCall where
  | search (key : Int) (update : Option Bytes)
  | insert (key : Int) (value : Bytes)
  | remove (key : Int)
deriving DecidableEq, Repr

/-- Run an operation on its own. -/
def OmapCall.run {Ω : Type} [OmapInterface Ω] (omap : Ω) : OmapCall → Rand Ω
  | .search key update => do
      let (_, omap) ← OmapInterface.search omap key update
      return omap
  | .insert key value => OmapInterface.insert omap key value
  | .remove key => OmapInterface.remove omap key

variable [Cipher]

/-! ## AVL maps -/

namespace AVLOmap

variable {omap : AVLOmap}

/-- No node is held outside the ORAMs. -/
def AtRest (omap : AVLOmap) : Prop := omap.local_ = []

omit [Cipher] in
theorem atRest_new (capacity bucketSize : Int) : Yields (new capacity bucketSize) AtRest :=
  Prog.ends_bind (yields_any _) (fun _ _ => Prog.ends_pure rfl)

omit [Cipher] in
theorem atRest_newSplit (capacity bucketSize splitDepth upperCapacity : Int) :
    Yields (newSplit capacity bucketSize splitDepth upperCapacity) AtRest := by
  refine Prog.ends_bind (yields_any _) (fun _ _ => ?_)
  exact Prog.ends_bind (yields_any _) (fun _ _ => Prog.ends_pure rfl)

theorem AtRest.initWhole (atRest : omap.AtRest) (nodes : List (Int × AVLNodeData)) :
    Yields (omap.initWhole nodes) AtRest := by
  refine Prog.ends_bind (yields_any _) (fun _ _ => ?_)
  refine Prog.ends_bind (yields_any _) (fun _ _ => ?_)
  exact Prog.ends_bind (yields_any _) (fun _ _ => Prog.ends_pure atRest)

theorem AtRest.initSplit (atRest : omap.AtRest) (root : Int) (nodes : List (Int × AVLNodeData)) :
    Yields (omap.initSplit root nodes) AtRest := by
  refine Prog.ends_bind (yields_any _) (fun _ _ => ?_)
  refine Prog.ends_bind (yields_any _) (fun _ _ => ?_)
  refine Prog.ends_bind (yields_any _) (fun _ _ => ?_)
  refine Prog.ends_bind (yields_any _) (fun _ _ => ?_)
  refine Prog.ends_bind (yields_any _) (fun _ _ => ?_)
  refine Prog.ends_bind (yields_any _) (fun _ _ => ?_)
  exact Prog.ends_bind (yields_any _) (fun _ _ => Prog.ends_pure atRest)

theorem AtRest.init (atRest : omap.AtRest) (data : List (Int × Bytes)) :
    Yields (omap.init data) AtRest := by
  unfold AVLOmap.init
  split
  · exact Prog.ends_pure atRest
  · refine Prog.ends_bind (yields_any _) (fun nodes _ => ?_)
    refine Prog.ends_bind (yields_any _) ?_
    rintro ⟨height, nodes⟩ _
    dsimp only
    split
    · exact Prog.ends_bind (atRest.initSplit _ _) (fun _ kept => Prog.ends_pure kept)
    · exact Prog.ends_bind (atRest.initWhole _) (fun _ kept => Prog.ends_pure kept)

theorem AtRest.padUnlessOds (atRest : omap.AtRest) (budget : Int) :
    Yields (omap.padUnlessOds budget) AtRest := by
  unfold AVLOmap.padUnlessOds AVLOmap.padToBudget
  split
  · exact Prog.ends_pure atRest
  · split
    · refine Prog.ends_bind (yields_any _) (fun _ _ => ?_)
      exact Prog.ends_bind (yields_any _) (fun _ _ => Prog.ends_pure atRest)
    · exact Prog.ends_bind (yields_any _) (fun _ _ => Prog.ends_pure atRest)

theorem atRest_flush (omap : AVLOmap) (budget : Int) :
    Yields (omap.flushLocalToStash.padUnlessOds budget) AtRest :=
  @AtRest.padUnlessOds _ omap.flushLocalToStash rfl budget

theorem AtRest.search (atRest : omap.AtRest) (key : Int) (update : Option Bytes) :
    Yields (omap.search key update) (fun outcome => outcome.2.AtRest) := by
  unfold AVLOmap.search
  dsimp only
  split
  · exact Prog.ends_bind (@AtRest.padUnlessOds _ omap.resetOpCounts atRest _)
      (fun _ kept => Prog.ends_pure kept)
  · refine Prog.ends_bind (yields_any _) ?_
    rintro ⟨result, found⟩ _
    refine Prog.ends_bind (yields_any _) (fun reassigned _ => ?_)
    exact Prog.ends_bind (atRest_flush _ _) (fun _ kept => Prog.ends_pure kept)

theorem AtRest.insert (atRest : omap.AtRest) (key : Int) (value : Bytes) :
    Yields (omap.insert key value) AtRest := by
  unfold AVLOmap.insert
  dsimp only
  split
  · refine Prog.ends_bind (yields_any _) ?_
    rintro ⟨leaf, orams⟩ _
    exact @AtRest.padUnlessOds _ { omap.resetOpCounts with
      orams := _, rootKey := key, rootLeaf := leaf } atRest _
  · refine Prog.ends_bind (yields_any _) (fun inserted _ => ?_)
    exact Prog.ends_bind (yields_any _) (fun reassigned _ => atRest_flush _ _)

theorem AtRest.remove (atRest : omap.AtRest) (key : Int) : Yields (omap.remove key) AtRest := by
  unfold AVLOmap.remove
  dsimp only
  split
  · exact @AtRest.padUnlessOds _ omap.resetOpCounts atRest _
  · refine Prog.ends_bind (yields_any _) ?_
    rintro ⟨target, found⟩ _
    refine Prog.ends_bind (yields_any _) (fun balanced _ => ?_)
    exact Prog.ends_bind (yields_any _) (fun reassigned _ => atRest_flush _ _)

/-- What an AVL map is made with: `split` is `split_depth` and `upper_capacity`. -/
structure AVLConfig where
  capacity : Int
  bucketSize : Int := 4
  split : Option (Int × Int) := none

/-- A constructor, followed by `init`. -/
def create (config : AVLConfig) (data : List (Int × Bytes)) : Rand AVLOmap := do
  let omap ← match config.split with
    | none => new config.capacity config.bucketSize
    | some (splitDepth, upperCapacity) =>
        newSplit config.capacity config.bucketSize splitDepth upperCapacity
  omap.init data

theorem atRest_create (config : AVLConfig) (data : List (Int × Bytes)) :
    Yields (create config data) AtRest := by
  unfold create
  split
  · exact Prog.ends_bind (atRest_new _ _) (fun _ made => made.init data)
  · exact Prog.ends_bind (atRest_newSplit _ _ _ _) (fun _ made => made.init data)

/-- The states of an AVL map that `init` and operations lead to. -/
def Reached (omap : AVLOmap) : Prop := ∃ config, InUse (create config) OmapCall.run omap

theorem Reached.atRest (reached : omap.Reached) : omap.AtRest := by
  rcases reached with ⟨config, inUse⟩
  refine inUse.invariant (atRest_create config) ?_
  intro omap operation atRest
  cases operation with
  | search key update =>
      exact Prog.ends_bind (atRest.search key update) (fun _ kept => Prog.ends_pure kept)
  | insert key value => exact atRest.insert key value
  | remove key => exact atRest.remove key

end AVLOmap

/-! ## B+ maps -/

namespace BPlusOmap

variable {omap : BPlusOmap}

/-- No node is held outside the ORAMs. -/
def AtRest (omap : BPlusOmap) : Prop := omap.local_ = [] ∧ omap.siblingCache = []

omit [Cipher] in
theorem atRest_new (capacity : Int) (order : Nat) (bucketSize : Int) :
    Yields (new capacity order bucketSize) AtRest :=
  Prog.ends_bind (yields_any _) (fun _ _ => Prog.ends_pure ⟨rfl, rfl⟩)

omit [Cipher] in
theorem atRest_newSplit (capacity : Int) (order : Nat)
    (bucketSize splitDepth upperCapacity : Int) :
    Yields (newSplit capacity order bucketSize splitDepth upperCapacity) AtRest := by
  refine Prog.ends_bind (yields_any _) (fun _ _ => ?_)
  exact Prog.ends_bind (yields_any _) (fun _ _ => Prog.ends_pure ⟨rfl, rfl⟩)

omit [Cipher] in
theorem AtRest.setIndexMode (atRest : omap.AtRest) (indexMode : Bool) :
    (omap.setIndexMode indexMode).AtRest := by
  unfold BPlusOmap.setIndexMode
  split
  · exact atRest
  · split <;> exact atRest

theorem AtRest.initWhole (atRest : omap.AtRest) (nodes : List (Int × BPlusNode)) :
    Yields (omap.initWhole nodes) AtRest := by
  refine Prog.ends_bind (yields_any _) (fun _ _ => ?_)
  refine Prog.ends_bind (yields_any _) (fun _ _ => ?_)
  exact Prog.ends_bind (yields_any _) (fun _ _ => Prog.ends_pure atRest)

theorem AtRest.initSplit (atRest : omap.AtRest) (root : Int) (nodes : List (Int × BPlusNode)) :
    Yields (omap.initSplit root nodes) AtRest := by
  refine Prog.ends_bind (yields_any _) (fun _ _ => ?_)
  refine Prog.ends_bind (yields_any _) (fun _ _ => ?_)
  refine Prog.ends_bind (yields_any _) (fun _ _ => ?_)
  refine Prog.ends_bind (yields_any _) (fun _ _ => ?_)
  refine Prog.ends_bind (yields_any _) (fun _ _ => ?_)
  refine Prog.ends_bind (yields_any _) (fun _ _ => ?_)
  exact Prog.ends_bind (yields_any _) (fun _ _ => Prog.ends_pure atRest)

theorem AtRest.init (atRest : omap.AtRest) (data : List (Int × Bytes)) :
    Yields (omap.init data) AtRest := by
  unfold BPlusOmap.init
  split
  · exact Prog.ends_pure atRest
  · dsimp only
    generalize omap.buildTree _ = built
    rcases built with ⟨root, nextBlockId, oramData⟩
    dsimp only
    split
    · exact Prog.ends_bind (@AtRest.initSplit _ { omap with nextBlockId } atRest _ _)
        (fun _ kept => Prog.ends_pure kept)
    · exact Prog.ends_bind (@AtRest.initWhole _ { omap with nextBlockId } atRest _)
        (fun _ kept => Prog.ends_pure kept)

theorem AtRest.padUnlessOds (atRest : omap.AtRest) : Yields omap.padUnlessOds AtRest := by
  unfold BPlusOmap.padUnlessOds BPlusOmap.padToBudget
  split
  · exact Prog.ends_pure atRest
  · dsimp only
    split
    · refine Prog.ends_bind (yields_any _) (fun _ _ => ?_)
      exact Prog.ends_bind (yields_any _) (fun _ _ => Prog.ends_pure atRest)
    · exact Prog.ends_bind (yields_any _) (fun _ _ => Prog.ends_pure atRest)

theorem atRest_finish (omap : BPlusOmap) : Yields omap.finish AtRest :=
  Prog.ends_bind (yields_any _) (fun reassigned _ =>
    @AtRest.padUnlessOds _ reassigned.flushAllToStash ⟨rfl, rfl⟩)

theorem AtRest.search (atRest : omap.AtRest) (key : Int) (update : Option Bytes) :
    Yields (omap.search key update) (fun outcome => outcome.2.AtRest) := by
  unfold BPlusOmap.search
  dsimp only
  split
  · exact Prog.ends_bind (@AtRest.padUnlessOds _ omap.resetOpCounts atRest)
      (fun _ kept => Prog.ends_pure kept)
  · refine Prog.ends_bind (yields_any _) (fun traversed _ => ?_)
    exact Prog.ends_bind (atRest_finish _) (fun _ kept => Prog.ends_pure kept)

omit [Cipher] in
theorem AtRest.insertRoot (atRest : omap.AtRest) (key : Int) (value : Bytes) :
    Yields (omap.insertRoot key value) AtRest := by
  refine Prog.ends_bind (yields_any _) ?_
  rintro ⟨leaf, orams⟩ _
  exact Prog.ends_pure atRest

theorem AtRest.insert (atRest : omap.AtRest) (key : Int) (value : Bytes) :
    Yields (omap.insert key value) AtRest := by
  unfold BPlusOmap.insert
  dsimp only
  split
  · exact Prog.ends_bind (@AtRest.insertRoot omap.resetOpCounts atRest key value)
      (fun _ kept => kept.padUnlessOds)
  · refine Prog.ends_bind (yields_any _) (fun traversed _ => ?_)
    exact Prog.ends_bind (yields_any _) (fun inserted _ => atRest_finish _)

theorem AtRest.remove (atRest : omap.AtRest) (key : Int) : Yields (omap.remove key) AtRest := by
  unfold BPlusOmap.remove
  dsimp only
  split
  · exact @AtRest.padUnlessOds _ omap.resetOpCounts atRest
  · exact Prog.ends_bind (yields_any _) (fun traversed _ => atRest_finish _)

/-- What a B+ map is made with: `split` is `split_depth` and `upper_capacity`. -/
structure BPlusConfig where
  capacity : Int
  order : Nat := 8
  bucketSize : Int := 4
  split : Option (Int × Int) := none
  indexMode : Bool := false

/-- A constructor, followed by `set_index_mode` and `init`. -/
def create (config : BPlusConfig) (data : List (Int × Bytes)) : Rand BPlusOmap := do
  let omap ← match config.split with
    | none => new config.capacity config.order config.bucketSize
    | some (splitDepth, upperCapacity) =>
        newSplit config.capacity config.order config.bucketSize splitDepth upperCapacity
  (omap.setIndexMode config.indexMode).init data

theorem atRest_create (config : BPlusConfig) (data : List (Int × Bytes)) :
    Yields (create config data) AtRest := by
  unfold create
  split
  · exact Prog.ends_bind (atRest_new _ _ _) (fun _ made => (made.setIndexMode _).init data)
  · exact Prog.ends_bind (atRest_newSplit _ _ _ _ _) (fun _ made => (made.setIndexMode _).init data)

/-- The states of a B+ map that `init` and operations lead to. -/
def Reached (omap : BPlusOmap) : Prop := ∃ config, InUse (create config) OmapCall.run omap

theorem Reached.atRest (reached : omap.Reached) : omap.AtRest := by
  rcases reached with ⟨config, inUse⟩
  refine inUse.invariant (atRest_create config) ?_
  intro omap operation atRest
  cases operation with
  | search key update =>
      exact Prog.ends_bind (atRest.search key update) (fun _ kept => Prog.ends_pure kept)
  | insert key value => exact atRest.insert key value
  | remove key => exact atRest.remove key

end BPlusOmap

/-! ## DA maps -/

/-- A tree object, and when nothing of it is held outside its ORAM. -/
class RestState (Ω : Type) where
  AtRest : Ω → Prop

open RestState

instance : RestState AVLOmap := ⟨AVLOmap.AtRest⟩

instance : RestState BPlusOmap := ⟨BPlusOmap.AtRest⟩

/-- A tree object that is at rest between its operations. -/
class RestingOds (Ω : Type) [RestState Ω] extends OdsTree Ω where
  atRest_newOds : ∀ capacity order bucketSize heightBound,
    Yields (newOds capacity order bucketSize heightBound) AtRest
  atRest_loadTrees : ∀ ods capacity buckets, AtRest ods →
    Yields (loadTrees ods capacity buckets) (fun outcome => AtRest outcome.2)
  atRest_search : ∀ ods key update, AtRest ods →
    Yields (search ods key update) (fun outcome => AtRest outcome.2)
  atRest_insert : ∀ ods key value, AtRest ods → Yields (insert ods key value) AtRest
  atRest_remove : ∀ ods key, AtRest ods → Yields (remove ods key) AtRest
  atRest_setRoot : ∀ ods root, AtRest ods → AtRest (setRoot ods root)
  atRest_setOram : ∀ ods oram, AtRest ods → AtRest (setOram ods oram)

theorem AVLOmap.AtRest.loadTrees {omap : AVLOmap} (atRest : omap.AtRest)
    (buckets : List (List (Int × Bytes))) :
    Yields (omap.loadTrees buckets) (fun outcome => outcome.2.AtRest) := by
  refine Prog.ends_bind (yields_any _) (fun nodes _ => ?_)
  exact Prog.ends_bind (atRest.initWhole _) (fun _ kept => Prog.ends_pure kept)

theorem BPlusOmap.AtRest.loadTrees {omap : BPlusOmap} (atRest : omap.AtRest) (capacity : Int)
    (buckets : List (List (Int × Bytes))) :
    Yields (omap.loadTrees capacity buckets) (fun outcome => outcome.2.AtRest) := by
  refine Prog.ends_bind (yields_any _) (fun _ _ => ?_)
  refine Prog.ends_bind (yields_any _) (fun _ _ => ?_)
  exact Prog.ends_bind (yields_any _) (fun _ _ => Prog.ends_pure atRest)

instance : RestingOds AVLOmap where
  atRest_newOds capacity _ bucketSize _ :=
    Prog.ends_bind (AVLOmap.atRest_new capacity bucketSize) (fun _ kept => Prog.ends_pure kept)
  atRest_loadTrees _ _ buckets atRest := atRest.loadTrees buckets
  atRest_search _ key update atRest := atRest.search key update
  atRest_insert _ key value atRest := atRest.insert key value
  atRest_remove _ key atRest := atRest.remove key
  atRest_setRoot _ _ atRest := atRest
  atRest_setOram _ _ atRest := atRest

instance : RestingOds BPlusOmap where
  atRest_newOds capacity order bucketSize _ :=
    Prog.ends_bind (BPlusOmap.atRest_new capacity order bucketSize)
      (fun _ kept => Prog.ends_pure kept)
  atRest_loadTrees _ capacity buckets atRest := atRest.loadTrees capacity buckets
  atRest_search _ key update atRest := atRest.search key update
  atRest_insert _ key value atRest := atRest.insert key value
  atRest_remove _ key atRest := atRest.remove key
  atRest_setRoot _ _ atRest := atRest
  atRest_setOram _ _ atRest := atRest

namespace DaOstOmap

variable {Ω : Type} [RestState Ω] [RestingOds Ω] {omap omap' : DaOstOmap Ω}

/-- The tree object stays at rest, and the map as big as it was. -/
structure Rested (omap omap' : DaOstOmap Ω) : Prop where
  capacity : omap'.capacity = omap.capacity
  numPositions : omap'.numPositions = omap.numPositions
  atRest : AtRest omap'.ods

omit [Cipher] [RestingOds Ω] in
theorem Rested.trans {omap'' : DaOstOmap Ω} (first : Rested omap omap')
    (second : Rested omap' omap'') : Rested omap omap'' :=
  ⟨second.capacity.trans first.capacity, second.numPositions.trans first.numPositions,
    second.atRest⟩

theorem atRest_odsDummies {ods : Ω} (atRest : AtRest ods) (count : Nat) :
    Yields (odsDummies count ods) AtRest := by
  induction count generalizing ods with
  | zero => exact Prog.ends_pure atRest
  | succ count ih =>
      exact Prog.ends_bind (yields_any _) (fun oram _ => ih (RestingOds.atRest_setOram _ oram atRest))

theorem rested_padOds (atRest : AtRest omap.ods) (actualOps : Int) :
    Yields (omap.padOds actualOps) (Rested omap) :=
  Prog.ends_bind (atRest_odsDummies atRest _) (fun _ kept => Prog.ends_pure ⟨rfl, rfl, kept⟩)

omit [RestingOds Ω] in
theorem rested_accessPosition (atRest : AtRest omap.ods) (pos : Nat) :
    Yields (omap.accessPosition pos) (Rested omap) :=
  Prog.ends_bind (yields_any _) (fun _ _ => Prog.ends_pure ⟨rfl, rfl, atRest⟩)

theorem rested_withRoot {α : Type} (atRest : AtRest omap.ods) (pos : Nat)
    {operation : Ω → Rand (α × Ω)} (keeps : ∀ ods, AtRest ods →
      Yields (operation ods) (fun outcome => AtRest outcome.2)) :
    Yields (omap.withRoot pos operation) (fun outcome => Rested omap outcome.2) := by
  have cached : Rested omap (omap.cachedRoot pos).2 := by
    unfold cachedRoot
    split <;> exact ⟨rfl, rfl, atRest⟩
  unfold withRoot
  generalize omap.cachedRoot pos = outcome at cached ⊢
  rcases outcome with ⟨root, cachedOmap⟩
  refine Prog.ends_bind (rested_accessPosition cached.atRest pos) ?_
  intro accessedOmap accessed
  refine Prog.ends_bind (keeps _ (RestingOds.atRest_setRoot _ root accessed.atRest)) ?_
  rintro ⟨result, ods⟩ kept
  refine Prog.ends_bind (@rested_padOds _ Ω _ _ ({ accessedOmap with ods }.storeRoot pos) kept _) ?_
  intro paddedOmap padded
  have stored : Rested accessedOmap ({ accessedOmap with ods }.storeRoot pos) := ⟨rfl, rfl, kept⟩
  exact Prog.ends_pure (((cached.trans accessed).trans stored).trans padded)

theorem rested_piggybackScanStep (atRest : AtRest omap.ods) :
    Yields omap.piggybackScanStep (fun outcome => Rested omap outcome.2) := by
  refine Prog.ends_bind (rested_accessPosition atRest _) ?_
  intro accessedOmap accessed
  dsimp only
  split
  · refine Prog.ends_bind (rested_padOds accessed.atRest _) ?_
    intro paddedOmap padded
    have moved : Rested paddedOmap paddedOmap.nextScanPos := ⟨rfl, rfl, padded.atRest⟩
    exact Prog.ends_pure ((accessed.trans padded).trans moved)
  · refine Prog.ends_bind (RestingOds.atRest_search _ _ _
      (RestingOds.atRest_setRoot _ _ accessed.atRest)) ?_
    rintro ⟨value, ods⟩ kept
    refine Prog.ends_bind (@rested_padOds _ Ω _ _ ({ accessedOmap with ods }.storeRoot _) kept _) ?_
    intro paddedOmap padded
    have stored : Rested accessedOmap ({ accessedOmap with ods }.storeRoot omap.scanPos) :=
      ⟨rfl, rfl, kept⟩
    have moved : Rested paddedOmap paddedOmap.nextScanPos := ⟨rfl, rfl, padded.atRest⟩
    exact Prog.ends_pure (((accessed.trans stored).trans padded).trans moved)

theorem rested_dummyAccesses (atRest : AtRest omap.ods) (count : Nat) :
    Yields (omap.dummyAccesses count) (Rested omap) := by
  refine Prog.ends_bind (yields_any _) (fun daoram _ => ?_)
  exact Prog.ends_bind (atRest_odsDummies atRest count)
    (fun _ kept => Prog.ends_pure ⟨rfl, rfl, kept⟩)

theorem rested_call (atRest : AtRest omap.ods) (operation : DaOstCall) :
    Yields (omap.call operation) (Rested omap) := by
  cases operation with
  | search key update =>
      exact Prog.ends_bind (rested_withRoot atRest _
        (fun ods kept => RestingOds.atRest_search ods key update kept))
        (fun _ kept => Prog.ends_pure kept)
  | insert key value =>
      exact Prog.ends_bind (rested_withRoot atRest _ (fun ods kept => Prog.ends_bind
        (RestingOds.atRest_insert ods key value kept) (fun _ kept => Prog.ends_pure kept)))
        (fun _ kept => Prog.ends_pure kept)
  | remove key =>
      exact Prog.ends_bind (rested_withRoot atRest _ (fun ods kept => Prog.ends_bind
        (RestingOds.atRest_remove ods key kept) (fun _ kept => Prog.ends_pure kept)))
        (fun _ kept => Prog.ends_pure kept)
  | dummyAccess => exact rested_dummyAccesses atRest _
  | partialDummyAccess => exact rested_dummyAccesses atRest _
  | piggybackScanStep =>
      exact Prog.ends_bind (rested_piggybackScanStep atRest) (fun _ kept => Prog.ends_pure kept)

/-- The number of positions that the constructor chooses. -/
def positionsOf (config : DaOstConfig) : Nat :=
  (if 0 < config.numPositions then config.numPositions else config.capacity).toNat

/-- A DA map between its operations. -/
structure Intact (config : DaOstConfig) (omap : DaOstOmap Ω) : Prop where
  settled : omap.Settled
  atRest : AtRest omap.ods
  capacity : omap.capacity = config.capacity
  numPositions : omap.numPositions = positionsOf config

theorem intact_create (config : DaOstConfig) (data : List (Int × Bytes)) :
    Yields (create config data : Rand (DaOstOmap Ω)) (Intact config) := by
  have rested : Yields (create config data : Rand (DaOstOmap Ω)) (fun omap =>
      omap.capacity = config.capacity ∧ omap.numPositions = positionsOf config ∧
        AtRest omap.ods) := by
    refine Prog.ends_bind (Q := fun omap => omap.capacity = config.capacity ∧
      omap.numPositions = positionsOf config ∧ AtRest omap.ods) ?_ ?_
    · refine Prog.ends_bind (yields_any _) (fun daoram _ => ?_)
      exact Prog.ends_bind (RestingOds.atRest_newOds _ _ _ _)
        (fun _ kept => Prog.ends_pure ⟨rfl, rfl, kept⟩)
    · rintro omap ⟨capacity, numPositions, atRest⟩
      refine Prog.ends_bind (RestingOds.atRest_loadTrees _ _ _ atRest) ?_
      rintro ⟨roots, ods⟩ kept
      exact Prog.ends_bind (yields_any _)
        (fun daoram _ => Prog.ends_pure ⟨capacity, numPositions, kept⟩)
  refine ((yields_create config data).and rested).allow (fun _ _ => trivial) |>.mono ?_
  rintro omap ⟨⟨settled, _⟩, capacity, numPositions, atRest⟩
  exact ⟨settled, atRest, capacity, numPositions⟩

theorem Intact.yields_call {config : DaOstConfig} (intact : omap.Intact config)
    (operation : DaOstCall) : Yields (omap.call operation) (Intact config) := by
  refine (((intact.settled.yields_call operation).and
    (rested_call intact.atRest operation)).allow (fun _ _ => trivial)).mono ?_
  rintro omap' ⟨⟨settled, _⟩, rested⟩
  exact ⟨settled, rested.atRest, rested.capacity.trans intact.capacity,
    rested.numPositions.trans intact.numPositions⟩

/-- The states of a DA map that `init` and operations on their own lead to. -/
def InUse (omap : DaOstOmap Ω) : Prop := ∃ config, TieredOmap.InUse (create config) call omap

theorem InUse.intact (inUse : omap.InUse) : ∃ config, omap.Intact config := by
  rcases inUse with ⟨config, reached⟩
  exact ⟨config, reached.invariant (intact_create config)
    (fun _ operation intact => intact.yields_call operation)⟩

end DaOstOmap

end TieredOmap
