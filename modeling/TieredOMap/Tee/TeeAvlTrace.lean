import Mathlib.Algebra.Order.Ring.Int
import TieredOMap.Tee.EnclaveVacant
import TieredOMap.Tee.TeeAvlRounds

/-!
# The access trace of the enclave's tree

With at most one level in the upper ORAM every operation touches both ORAMs equally often.
With more, a removal reads the upper ORAM again while it looks for the successor, and how
often depends on the depth of its target.
-/

namespace TieredOmap

namespace TeeAvlOmap

/-- The states that are reached from an initialisation by operations. -/
inductive Reached (capacity : Int) (valueSize bucketSize : Nat) (splitDepth : Int) :
    TeeAvlOmap → Prop
  | init {data : List (Int × Bytes)} {world world' : TeeWorld} {omap : TeeAvlOmap}
      (run : ((new capacity valueSize bucketSize splitDepth).init data).runFrom world =
        (.ok omap, world')) : Reached capacity valueSize bucketSize splitDepth omap
  | op {omap omap' : TeeAvlOmap} {op : TeeAvlOp} {result : TeeAvlResult} {world world' : TeeWorld}
      (before : Reached capacity valueSize bucketSize splitDepth omap)
      (run : (op.call omap).runFrom world = (.ok (result, omap'), world')) :
      Reached capacity valueSize bucketSize splitDepth omap'

/-- An operation reads and evicts paths of the two ORAMs as often as given. -/
def Paced (upper lower : Nat) (omap : TeeAvlOmap) (op : TeeAvlOp) : Prop :=
  ∀ result omap' world world', (op.call omap).runFrom world = (.ok (result, omap'), world') →
    ∃ made, world'.steps = world.steps ++ made ∧
      ∀ evicted, (made.map OramStep.touched).count (.upper, evicted) = upper ∧
        (made.map OramStep.touched).count (.lower, evicted) = lower ∧
        (made.map OramStep.touched).count (.hot, evicted) = 0

/-- In every reached state every operation touches the two ORAMs equally often. -/
def FixedTrace (capacity : Int) (valueSize bucketSize : Nat) (splitDepth : Int) : Prop :=
  ∃ upper lower, upper + lower = 3 * (new capacity valueSize bucketSize splitDepth).maxHeight ∧
    ∀ omap, Reached capacity valueSize bucketSize splitDepth omap →
      ∀ op, Paced upper lower omap op

/-! ## Parameters -/

/-- The height is at least two, and the split no higher. -/
theorem new_shape (capacity : Int) (valueSize bucketSize : Nat) (splitDepth : Int) :
    2 ≤ (new capacity valueSize bucketSize splitDepth).maxHeight ∧
      (new capacity valueSize bucketSize splitDepth).splitDepth =
        min splitDepth (new capacity valueSize bucketSize splitDepth).maxHeight := by
  refine ⟨?_, rfl⟩
  have power : (2 : Int) ^ 36 ≤ max capacity 2 ^ 36 :=
    pow_le_pow_left₀ (by omega) (le_max_right _ _) 36
  have manyBits : 36 ≤ ceilLog2 (max capacity 2 ^ 36) := by
    generalize max capacity 2 ^ 36 = size at power
    rw [ceilLog2, if_neg (by omega)]
    have bits : 35 ≤ Nat.log2 (size - 1).toNat := (Nat.le_log2 (by omega)).mpr (by omega)
    omega
  change 2 ≤ (AVLOmap.maxHeightFor capacity).toNat
  unfold AVLOmap.maxHeightFor
  omega

/-- Both maps have the same parameters. -/
structure SameShape (omap omap' : TeeAvlOmap) : Prop where
  maxHeight : omap'.maxHeight = omap.maxHeight
  splitDepth : omap'.splitDepth = omap.splitDepth

theorem shape_init (omap : TeeAvlOmap) (data : List (Int × Bytes)) :
    Prog.Ends (fun _ => True) (omap.init data) (SameShape omap) := by
  have any : ∀ {α : Type} (program : TeeRand α),
      Prog.Ends (fun _ => True) program (fun _ => True) := by
    intro α program world _
    rcases program.runFrom world with ⟨error | result, world'⟩ <;> trivial
  unfold init
  split
  · exact Prog.ends_pure ⟨rfl, rfl⟩
  · refine Prog.ends_bind (any _) (fun fixed _ => ?_)
    refine Prog.ends_bind (any _) (fun leaves _ => ?_)
    dsimp only
    split
    · refine Prog.ends_bind (any _) (fun parts _ => ?_)
      refine Prog.ends_bind (any _) (fun upperOram _ => ?_)
      refine Prog.ends_bind (any _) (fun lowerOram _ => ?_)
      exact Prog.ends_pure ⟨rfl, rfl⟩
    · refine Prog.ends_bind (any _) (fun lowerOram _ => ?_)
      exact Prog.ends_pure ⟨rfl, rfl⟩

variable {capacity : Int} {valueSize bucketSize : Nat} {splitDepth : Int} {omap : TeeAvlOmap}

/-- No run changes the parameters. -/
theorem Reached.sameShape (reached : Reached capacity valueSize bucketSize splitDepth omap) :
    SameShape (new capacity valueSize bucketSize splitDepth) omap := by
  have splitLe : (new capacity valueSize bucketSize splitDepth).splitDepth ≤
      (new capacity valueSize bucketSize splitDepth).maxHeight := min_le_right _ _
  induction reached with
  | init run => exact (shape_init _ _).returned run
  | @op omap omap' op result world world' before run ih =>
      have fits : omap.splitDepth ≤ omap.maxHeight := by
        rw [ih.splitDepth, ih.maxHeight]
        exact splitLe
      rcases (omap.touches_call fits op).returned run with ⟨_, _, _, _, _, _, _, spends⟩
      exact ⟨spends.maxHeight.trans ih.maxHeight, spends.splitDepth.trans ih.splitDepth⟩

/-! ## The trace is fixed with at most one level above -/

theorem length_eq_counts (names : List OramName) :
    names.length = names.count .upper + names.count .lower + names.count .hot := by
  induction names with
  | nil => rfl
  | cons name rest ih =>
      rw [List.count_cons, List.count_cons, List.count_cons, List.length_cons]
      cases name <;> simp <;> omega

/-- Spending a budget is being paced. -/
theorem Spends.counts {omap omap' : TeeAvlOmap} {upper : Nat} {names : List OramName}
    {made : List OramStep} (spends : Spends omap upper omap' names)
    (touched : made.map OramStep.touched = rounds names) (evicted : Bool) :
    (made.map OramStep.touched).count (.upper, evicted) = upper ∧
      (made.map OramStep.touched).count (.lower, evicted) = 3 * omap.maxHeight - upper ∧
      (made.map OramStep.touched).count (.hot, evicted) = 0 := by
  have noHot : names.count .hot = 0 := List.count_eq_zero.mpr spends.noHot
  have total := spends.total
  have upperEq := spends.upper_eq
  have parts := length_eq_counts names
  rw [touched, count_rounds, count_rounds, count_rounds]
  omega

/-- With at most one level in the upper ORAM all operations look the same. -/
theorem fixedTrace_of_le (capacity : Int) (valueSize bucketSize : Nat) {splitDepth : Int}
    (fewLevels : splitDepth ≤ 1) : FixedTrace capacity valueSize bucketSize splitDepth := by
  rcases new_shape capacity valueSize bucketSize splitDepth with ⟨high, splitEq⟩
  refine ⟨(max 0 splitDepth).toNat, 3 * (new capacity valueSize bucketSize splitDepth).maxHeight -
    (max 0 splitDepth).toNat, by omega, ?_⟩
  intro omap reached op result omap' world world' run
  have shape := reached.sameShape
  have sameSplit : omap.splitDepth = splitDepth := by
    rw [shape.splitDepth, splitEq]
    omega
  have fits : omap.splitDepth ≤ omap.maxHeight := by
    rw [sameSplit, shape.maxHeight]
    omega
  rcases (omap.touches_call fits op).returned run with
    ⟨made, names, stepsEq, touched, upper, _, isZero, spends⟩
  rw [isZero (by omega), Int.add_zero, sameSplit,
    show max 0 splitDepth = ((max 0 splitDepth).toNat : Int) by omega] at spends
  refine ⟨made, stepsEq, fun evicted => ?_⟩
  rw [← shape.maxHeight]
  exact spends.counts touched evicted

/-! ## Operations on an empty map return -/

/-- No real entry. -/
def Dummies (nodes : List AVLLocalNode) : Prop := ∀ key ∈ nodes.map AVLLocalNode.key, key = invalidKey

/-- The ORAMs hold nothing, and no entry is real. -/
structure Idle (omap : TeeAvlOmap) : Prop where
  upper : omap.upperOram.Vacant
  lower : omap.lowerOram.Vacant
  upperHeader : avlHeaderSize ≤ omap.upperOram.valueSize
  lowerHeader : avlHeaderSize ≤ omap.lowerOram.valueSize
  dummies : Dummies omap.local_

/-- Nothing is thrown. -/
abbrev never : Err → Prop := fun _ => False

theorem ends_randomLeaf (oram : EnclaveOram) : Prog.Ends never oram.randomLeaf (fun _ => True) := by
  have drawn : Prog.Ends never (randBelow oram.leafRange) (fun _ => True) := by
    intro world _
    rcases world with ⟨draws, log, nextStore, pendingStores⟩
    generalize oram.leafRange = bound
    cases bound <;> cases draws <;> trivial
  exact Prog.ends_bind (ends_inTee drawn) (fun _ _ => Prog.ends_pure trivial)

section Idle

variable {depth : Int}

theorem Idle.oram (idle : omap.Idle) (depth : Int) : (omap.oramForDepth depth).Vacant ∧
    avlHeaderSize ≤ (omap.oramForDepth depth).valueSize := by
  unfold oramForDepth
  split
  · exact ⟨idle.upper, idle.upperHeader⟩
  · exact ⟨idle.lower, idle.lowerHeader⟩

theorem Idle.setOram (idle : omap.Idle) (depth : Int) {oram : EnclaveOram} (vacant : oram.Vacant)
    (header : avlHeaderSize ≤ oram.valueSize) : (omap.setOram depth oram).Idle := by
  unfold TeeAvlOmap.setOram
  split
  · exact ⟨vacant, idle.lower, header, idle.lowerHeader, idle.dummies⟩
  · exact ⟨idle.upper, vacant, idle.upperHeader, header, idle.dummies⟩

theorem Idle.countOp (idle : omap.Idle) (depth : Int) : (omap.countOp depth).Idle := by
  unfold TeeAvlOmap.countOp
  split
  · exact ⟨idle.upper, idle.lower, idle.upperHeader, idle.lowerHeader, idle.dummies⟩
  · exact ⟨idle.upper, idle.lower, idle.upperHeader, idle.lowerHeader, idle.dummies⟩

/-- Entries with the same keys are dummies as well. -/
theorem Idle.withLocal (idle : omap.Idle) {omap' : TeeAvlOmap}
    (sameUpper : omap'.upperOram = omap.upperOram) (sameLower : omap'.lowerOram = omap.lowerOram)
    (sameKeys : omap'.local_.map AVLLocalNode.key = omap.local_.map AVLLocalNode.key) :
    omap'.Idle := by
  refine ⟨?_, ?_, ?_, ?_, ?_⟩
  · exact sameUpper ▸ idle.upper
  · exact sameLower ▸ idle.lower
  · exact sameUpper ▸ idle.upperHeader
  · exact sameLower ▸ idle.lowerHeader
  · intro key mem
    exact idle.dummies key (sameKeys ▸ mem)

theorem Idle.pushLocal (idle : omap.Idle) {node : AVLLocalNode} (isDummy : node.key = invalidKey) :
    (omap.pushLocal node).Idle := by
  refine ⟨idle.upper, idle.lower, idle.upperHeader, idle.lowerHeader, ?_⟩
  intro key mem
  rw [TeeAvlOmap.pushLocal, List.map_append, List.mem_append, List.map_singleton,
    List.mem_singleton] at mem
  rcases mem with old | rfl
  · exact idle.dummies key old
  · exact isDummy

theorem Idle.beginOp (idle : omap.Idle) : omap.beginOp.Idle :=
  ⟨idle.upper, idle.lower, idle.upperHeader, idle.lowerHeader,
    fun _ mem => (List.not_mem_nil mem).elim⟩

theorem ends_readPathToStash {oram : EnclaveOram} (vacant : oram.Vacant) (name : OramName)
    (leaf : Int) : Prog.Ends never (oram.readPathToStash name leaf) (fun oram' =>
      oram'.Vacant ∧ oram'.valueSize = oram.valueSize ∧
        EnclaveOram.EndsSized oram'.valueSize oram'.stash) := by
  intro world _
  have sameSize : (oram.readPath leaf).valueSize = oram.valueSize :=
    (EnclaveOram.alike_takeBuckets (oram.path leaf) oram).valueSize
  refine ⟨(vacant.readPath leaf).1, sameSize, ?_⟩
  rw [sameSize]
  exact (vacant.readPath leaf).2

theorem ends_evictOnePath {oram : EnclaveOram} (vacant : oram.Vacant)
    (endsSized : EnclaveOram.EndsSized oram.valueSize oram.stash) (name : OramName) (leaf : Int) :
    Prog.Ends never (oram.evictOnePath name leaf) (fun oram' =>
      oram'.Vacant ∧ oram'.valueSize = oram.valueSize) := by
  rcases vacant.evictPath endsSized (oram.path leaf) with ⟨evicted, fits⟩
  have sameSize : (oram.evictPath (oram.path leaf)).1.valueSize = oram.valueSize :=
    (EnclaveOram.alike_fillBuckets (oram.path leaf) oram).valueSize
  intro world _
  unfold EnclaveOram.evictOnePath
  dsimp only
  rw [fits]
  exact ⟨evicted, sameSize⟩

theorem ends_decode {raw : Bytes} (long : avlHeaderSize ≤ raw.length) :
    Prog.Ends never (AVLNodeData.decode raw) (fun _ => True) := by
  unfold AVLNodeData.decode
  rw [if_neg (not_lt.mpr long)]
  exact Prog.ends_pure trivial

theorem ends_oramStep (idle : omap.Idle) (depth key leaf parentKey : Int) :
    Prog.Ends never (omap.oramStep depth key leaf false parentKey) Idle := by
  rcases idle.oram depth with ⟨vacant, header⟩
  unfold oramStep
  refine Prog.ends_bind (ends_randomLeaf _) (fun draw _ => ?_)
  refine Prog.ends_bind (ends_readPathToStash vacant _ _) ?_
  rintro oram ⟨vacant', sameSize, endsSized⟩
  dsimp only
  rcases vacant'.extractFromStash (-2) endsSized with ⟨same, _, length_eq⟩
  rw [oSelect_false, oSelect_false, same]
  refine Prog.ends_bind (ends_inTee (ends_decode (by rw [length_eq, sameSize]; exact header))) ?_
  intro avl _
  refine Prog.ends_bind (ends_evictOnePath vacant' endsSized _ _) ?_
  rintro oram' ⟨vacant'', sameSize'⟩
  refine Prog.ends_pure (Idle.countOp (Idle.pushLocal (idle.setOram depth vacant'' ?_) rfl) depth)
  rw [sameSize', sameSize]
  exact header

theorem ends_padStep (idle : omap.Idle) (depth : Int) :
    Prog.Ends never (omap.padStep depth) Idle := by
  rcases idle.oram depth with ⟨vacant, header⟩
  unfold padStep
  refine Prog.ends_bind (ends_randomLeaf _) (fun leaf _ => ?_)
  refine Prog.ends_bind (ends_readPathToStash vacant _ _) ?_
  rintro oram ⟨vacant', sameSize, endsSized⟩
  rw [(vacant'.extractFromStash (-2) endsSized).1]
  refine Prog.ends_bind (ends_evictOnePath vacant' endsSized _ _) ?_
  rintro oram' ⟨vacant'', sameSize'⟩
  refine Prog.ends_pure ((idle.setOram depth vacant'' ?_).countOp depth)
  rw [sameSize', sameSize]
  exact header

theorem ends_padSteps (depth : Int) (count : Nat) (idle : omap.Idle) :
    Prog.Ends never (padSteps depth count omap) Idle := by
  induction count generalizing omap with
  | zero => exact Prog.ends_pure idle
  | succ count ih => exact Prog.ends_bind (ends_padStep idle depth) (fun _ idle' => ih idle')

theorem ends_padOps (idle : omap.Idle) (opsDone : Int) :
    Prog.Ends never (omap.padOps opsDone) Idle := by
  unfold padOps
  dsimp only
  split
  · exact Prog.ends_bind (ends_padSteps _ _ idle) (fun _ idle' => ends_padSteps _ _ idle')
  · exact ends_padSteps _ _ idle

theorem Idle.flush (idle : omap.Idle) : omap.flushLocalToStash.Idle := by
  have folded : ∀ (nodes : List AVLLocalNode) (omap : TeeAvlOmap), omap.Idle → Dummies nodes →
      (nodes.foldl (fun omap node => omap.setOram node.depth
        ((omap.oramForDepth node.depth).addToStash node.key node.leaf node.avl.encode)) omap).Idle := by
    intro nodes
    induction nodes with
    | nil => exact fun _ idle _ => idle
    | cons node rest ih =>
        intro omap idle dummies
        rw [List.foldl_cons, dummies node.key List.mem_cons_self]
        rcases idle.oram node.depth with ⟨vacant, header⟩
        refine ih _ (idle.setOram node.depth (vacant.addToStash _ _) header) ?_
        exact fun key mem => dummies key (List.mem_cons_of_mem _ mem)
  have flushed := folded omap.local_ omap idle idle.dummies
  exact ⟨flushed.upper, flushed.lower, flushed.upperHeader, flushed.lowerHeader,
    fun _ mem => (List.not_mem_nil mem).elim⟩

/-- Drawing new leaves changes no key. -/
theorem ends_drawLocalLeaves (omap : TeeAvlOmap) (nodes : List AVLLocalNode) :
    Prog.Ends never (omap.drawLocalLeaves nodes)
      (fun nodes' => nodes'.map AVLLocalNode.key = nodes.map AVLLocalNode.key) := by
  induction nodes with
  | nil => exact Prog.ends_pure rfl
  | cons node rest ih =>
      unfold drawLocalLeaves
      refine Prog.ends_bind ih (fun rest' sameKeys => ?_)
      refine Prog.ends_bind (ends_randomLeaf _) (fun leaf _ => ?_)
      exact Prog.ends_pure (congrArg (node.key :: ·) sameKeys)

theorem keys_pointAt (children nodes : List AVLLocalNode) :
    (children.foldl (fun nodes child => nodes.map (pointAt child)) nodes).map AVLLocalNode.key =
      nodes.map AVLLocalNode.key := by
  induction children generalizing nodes with
  | nil => rfl
  | cons child rest ih =>
      rw [List.foldl_cons, ih, List.map_map]
      rfl

theorem ends_reassignLeaves (idle : omap.Idle) : Prog.Ends never omap.reassignLeaves Idle := by
  unfold reassignLeaves
  refine Prog.ends_bind (omap.ends_drawLocalLeaves _) (fun nodes sameKeys => ?_)
  exact Prog.ends_pure (idle.withLocal rfl rfl ((keys_pointAt _ _).trans sameKeys))

/-- The end of an operation that found nothing. -/
theorem ends_finish (idle : omap.Idle) (opsDone : TeeAvlOmap → Int) :
    Prog.Ends never (do
      let omap ← omap.reassignLeaves
      omap.flushLocalToStash.padOps (opsDone omap)) Idle :=
  Prog.ends_bind (ends_reassignLeaves idle) (fun _ idle' => ends_padOps idle'.flush _)

/-- Changing one entry but not its key. -/
theorem keys_modify (nodes : List AVLLocalNode) (i : Nat) {f : AVLLocalNode → AVLLocalNode}
    (sameKey : ∀ node, (f node).key = node.key) :
    (nodes.modify i f).map AVLLocalNode.key = nodes.map AVLLocalNode.key := by
  induction nodes generalizing i with
  | nil => rw [List.modify_nil]
  | cons node rest ih =>
      cases i with
      | zero => simp [List.modify_zero_cons, sameKey]
      | succ i => rw [List.modify_succ_cons, List.map_cons, ih, List.map_cons]

/-- Changing all entries but not their keys. -/
theorem keys_mapIdx (nodes : List AVLLocalNode) {f : Nat → AVLLocalNode → AVLLocalNode}
    (sameKey : ∀ i node, (f i node).key = node.key) :
    (nodes.mapIdx f).map AVLLocalNode.key = nodes.map AVLLocalNode.key := by
  refine List.ext_getElem? (fun i => ?_)
  rw [List.getElem?_map, List.getElem?_map, List.getElem?_mapIdx]
  cases nodes[i]? with
  | none => rfl
  | some node => exact congrArg some (sameKey i node)

theorem keys_rotateCond (omap : TeeAvlOmap) (idx : Nat) (active dir : Bool) :
    (omap.rotateCond idx active dir).local_.map AVLLocalNode.key =
      omap.local_.map AVLLocalNode.key := by
  unfold rotateCond
  dsimp only
  refine (keys_mapIdx _ ?_).trans (keys_modify _ _ ?_)
  · exact fun _ _ => rfl
  · exact fun _ => rfl

theorem keys_refreshHeights (nodes : List AVLLocalNode) (i : Nat) :
    (refreshHeights nodes i).map AVLLocalNode.key = nodes.map AVLLocalNode.key := by
  unfold refreshHeights
  generalize List.range nodes.length = indices
  induction indices generalizing nodes with
  | nil => rfl
  | cons j rest ih =>
      rw [List.foldl_cons, ih]
      exact keys_modify _ _ (fun _ => rfl)

theorem keys_updateHeights (omap : TeeAvlOmap) :
    omap.updateHeights.local_.map AVLLocalNode.key = omap.local_.map AVLLocalNode.key := by
  unfold updateHeights
  dsimp only
  generalize (List.range omap.local_.length).reverse = indices
  generalize omap.local_ = nodes
  induction indices generalizing nodes with
  | nil => rfl
  | cons i rest ih => rw [List.foldl_cons, ih, keys_refreshHeights]

theorem Idle.modifyLast (idle : omap.Idle) (f : AVLNodeData → AVLNodeData) :
    (omap.modifyLast f).Idle :=
  idle.withLocal rfl rfl (keys_modify _ _ (fun _ => rfl))

theorem Idle.updateHeights (idle : omap.Idle) : omap.updateHeights.Idle :=
  idle.withLocal rfl rfl (keys_updateHeights omap)

theorem Idle.rotateCond (idle : omap.Idle) (idx : Nat) (active dir : Bool) :
    (omap.rotateCond idx active dir).Idle :=
  idle.withLocal rfl rfl (keys_rotateCond omap idx active dir)

theorem Idle.balanceNode (idle : omap.Idle) (idx : Nat) : (omap.balanceNode idx).Idle := by
  unfold TeeAvlOmap.balanceNode
  exact (((idle.rotateCond _ _ _).rotateCond _ _ _).rotateCond _ _ _).rotateCond _ _ _

theorem Idle.rebalance (idle : omap.Idle) : omap.rebalance.Idle := by
  have folded : ∀ (indices : List Nat) (omap : TeeAvlOmap), omap.Idle →
      (indices.foldl (fun omap i => omap.updateHeights.balanceNode i) omap).Idle := by
    intro indices
    induction indices with
    | nil => exact fun _ idle => idle
    | cons i rest ih => exact fun omap idle => ih _ (idle.updateHeights.balanceNode i)
  exact (folded _ omap idle).updateHeights

/-! ## Searching and removing -/

/-- There is nothing to search for below an invalid key. -/
theorem not_searching {curKey : Int} (isInvalid : curKey = invalidKey) (found : Bool) :
    (!oEqual curKey invalidKey && !found) = false := by
  simp [isInvalid]

theorem ends_searchLoop (key : Int) (update : Option Bytes) (count : Nat) (d : Int)
    {state : SearchState} (idle : omap.Idle) (nothing : state.curKey = invalidKey) :
    Prog.Ends never (searchLoop key update count d state omap) (fun result => result.2.Idle) := by
  induction count generalizing d state omap with
  | zero => exact Prog.ends_pure idle
  | succ count ih =>
      unfold searchLoop
      dsimp only
      rw [not_searching nothing]
      refine Prog.ends_bind (ends_oramStep idle _ _ _ _) (fun stepped idle' => ?_)
      cases update with
      | none => exact ih _ idle' rfl
      | some value => exact ih _ (idle'.modifyLast _) rfl

theorem Idle.transform (idle : omap.Idle) (state : SearchState)
    (transform : Option (Bytes → Bytes)) : (match transform with
      | some transform => omap.transformFound state transform
      | none => omap).Idle := by
  cases transform with
  | none => exact idle
  | some transform => exact idle.withLocal rfl rfl (keys_mapIdx _ (fun _ _ => rfl))

theorem ends_search (idle : omap.Idle) (isEmpty : omap.rootKey = invalidKey) (key : Int)
    (update : Option Bytes) (transform : Option (Bytes → Bytes)) :
    Prog.Ends never (omap.search key update transform) (fun _ => True) := by
  have searched : Prog.Ends never (omap.searchOrDummy key true update transform)
      (fun _ => True) := by
    unfold searchOrDummy
    refine Prog.ends_bind (ends_searchLoop key update _ 0 idle.beginOp isEmpty) ?_
    rintro ⟨state, searched⟩ idle'
    dsimp only
    rw [← bind_assoc]
    exact Prog.ends_bind (ends_finish (idle'.transform state transform) (fun omap => omap.maxHeight))
      (fun _ _ => Prog.ends_pure trivial)
  exact Prog.ends_bind searched (fun _ _ => Prog.ends_pure trivial)

theorem ends_targetLoop (key : Int) (count : Nat) (d : Int) {state : TargetState}
    (idle : omap.Idle) (nothing : state.curKey = invalidKey) (notFound : state.found = false) :
    Prog.Ends never (targetLoop key count d state omap)
      (fun result => result.2.Idle ∧ result.1.found = false) := by
  induction count generalizing d state omap with
  | zero => exact Prog.ends_pure ⟨idle, notFound⟩
  | succ count ih =>
      unfold targetLoop
      dsimp only
      rw [not_searching nothing]
      refine Prog.ends_bind (ends_oramStep idle _ _ _ _) (fun stepped idle' => ?_)
      exact ih _ idle' rfl (by rw [notFound]; rfl)

theorem ends_successorLoop (key targetDepth : Int) (count : Nat) (sd : Int)
    {state : SuccessorState} (idle : omap.Idle) (nothing : state.key = invalidKey) :
    Prog.Ends never (successorLoop key targetDepth count sd state omap)
      (fun result => result.2.Idle) := by
  induction count generalizing sd state omap with
  | zero => exact Prog.ends_pure idle
  | succ count ih =>
      unfold successorLoop
      dsimp only
      have notSearching : (!state.found && !oEqual state.key invalidKey) = false := by
        simp [nothing]
      rw [notSearching]
      exact Prog.ends_bind (ends_oramStep idle _ _ _ _) (fun stepped idle' => ih _ idle' rfl)

theorem keys_map (nodes : List AVLLocalNode) {f : AVLLocalNode → AVLLocalNode}
    (sameKey : ∀ node, (f node).key = node.key) :
    (nodes.map f).map AVLLocalNode.key = nodes.map AVLLocalNode.key := by
  rw [List.map_map]
  exact List.map_congr_left (fun node _ => sameKey node)

/-- Without a target nothing is renamed or unlinked. -/
theorem Idle.unlinkNothing (idle : omap.Idle) (targetIdx succIdx delIdx : Int) :
    ((omap.renameTarget false targetIdx succIdx).unlink false delIdx).Idle := by
  have renamed : (omap.renameTarget false targetIdx succIdx).Idle := by
    refine idle.withLocal rfl rfl ?_
    exact (keys_map _ (fun _ => rfl)).trans
      ((keys_map _ (fun _ => rfl)).trans (keys_mapIdx _ (fun _ _ => rfl)))
  refine renamed.withLocal rfl rfl ?_
  exact (keys_map _ (fun _ => rfl)).trans
    ((keys_mapIdx _ (fun _ _ => rfl)).trans (keys_map _ (fun _ => rfl)))

theorem ends_remove (idle : omap.Idle) (isEmpty : omap.rootKey = invalidKey) (key : Int) :
    Prog.Ends never (omap.remove key) (fun _ => True) := by
  unfold remove
  dsimp only
  have isInvalid : omap.beginOp.rootKey = invalidKey := isEmpty
  rw [isInvalid]
  refine Prog.ends_bind (ends_targetLoop key _ 0 idle.beginOp rfl rfl) ?_
  rintro ⟨target, searched⟩ ⟨idle', notFound⟩
  dsimp only at notFound ⊢
  rw [notFound]
  refine Prog.ends_bind (ends_successorLoop key target.targetDepth _ 0 idle' rfl) ?_
  rintro ⟨succ, descended⟩ idle''
  simp only [Bool.false_and, oSelect_false]
  have changed :=
    (idle''.unlinkNothing target.targetIdx succ.idx target.targetIdx).updateHeights.rebalance
  generalize ((descended.renameTarget false target.targetIdx succ.idx).unlink false
    target.targetIdx).updateHeights.rebalance = unlinked at changed ⊢
  exact Prog.Ends.mono (ends_finish changed (fun omap => 2 * omap.maxHeight)) (fun _ _ => trivial)

end Idle

/-! ## The trace differs with more levels above -/

/-- A computation that never throws returns. -/
theorem returns_of_ends {α : Type} {program : TeeRand α} {post : α → Prop}
    (ends : Prog.Ends never program post) (world : TeeWorld) :
    ∃ result world', program.runFrom world = (.ok result, world') := by
  have outcome := ends world trivial
  rcases run : program.runFrom world with ⟨error | result, world'⟩
  · rw [run] at outcome
    exact outcome.elim
  · exact ⟨result, world', rfl⟩

theorem idle_new (capacity : Int) (valueSize : Nat) {bucketSize : Nat} {splitDepth : Int}
    (positive : 0 < bucketSize) (isSplit : 0 < splitDepth) :
    (new capacity valueSize bucketSize splitDepth).Idle := by
  rcases new_shape capacity valueSize bucketSize splitDepth with ⟨high, splitEq⟩
  have upperEq : (new capacity valueSize bucketSize splitDepth).upperOram =
      EnclaveOram.new (max (2 ^ (new capacity valueSize bucketSize splitDepth).splitDepth.toNat - 1) 1)
        (avlHeaderSize + valueSize) bucketSize :=
    if_pos (show 0 < (new capacity valueSize bucketSize splitDepth).splitDepth by omega)
  refine ⟨?_, EnclaveOram.vacant_new _ _ positive, ?_, Nat.le_add_right _ _,
    fun _ mem => (List.not_mem_nil mem).elim⟩
  · rw [upperEq]
    exact EnclaveOram.vacant_new _ _ positive
  · rw [upperEq]
    exact Nat.le_add_right _ _

/-- On an empty map a removal reads the upper ORAM more often than a search does. -/
theorem not_fixedTrace_of_two_le (capacity : Int) (valueSize : Nat) {bucketSize : Nat}
    {splitDepth : Int} (positive : 0 < bucketSize) (manyLevels : 2 ≤ splitDepth) :
    ¬ FixedTrace capacity valueSize bucketSize splitDepth := by
  rintro ⟨upper, lower, total, paced⟩
  rcases new_shape capacity valueSize bucketSize splitDepth with ⟨high, splitEq⟩
  have idle := idle_new capacity valueSize positive (show 0 < splitDepth by omega)
  have reached : Reached capacity valueSize bucketSize splitDepth
      (new capacity valueSize bucketSize splitDepth) := @Reached.init _ _ _ _ [] {} _ _ rfl
  have isEmpty : (new capacity valueSize bucketSize splitDepth).rootKey = invalidKey := rfl
  have fits : (new capacity valueSize bucketSize splitDepth).splitDepth ≤
      (new capacity valueSize bucketSize splitDepth).maxHeight := by omega
  generalize new capacity valueSize bucketSize splitDepth = omap at *
  -- How often the first run of an operation touches the upper ORAM.
  have share : ∀ {op : TeeAvlOp} {count : Int},
      Prog.Ends never (op.call omap) (fun _ => True) →
      Touches (op.call omap) (fun _ names => (names.count .upper : Int) = count) →
      (upper : Int) = count := by
    intro op count ends touches
    rcases returns_of_ends ends {} with ⟨⟨result, omap'⟩, world', run⟩
    rcases touches.returned run with ⟨made, names, stepsEq, touched, countEq⟩
    rcases paced omap reached op result omap' _ _ run with ⟨made', stepsEq', counts⟩
    obtain rfl : made' = made := List.append_cancel_left (stepsEq'.symm.trans stepsEq)
    rw [← (counts false).1, touched, count_rounds]
    exact countEq
  have bySearch : (upper : Int) = omap.splitDepth := by
    refine @share (.search 0 none none) _ ?_ ?_
    · exact Prog.ends_bind (ends_search idle isEmpty 0 none none) (fun _ _ => Prog.ends_pure trivial)
    · refine touches_bind (omap.touches_search fits 0 none none) (fun result names spends => ?_)
      refine touches_pure ?_
      rw [List.append_nil, spends.upper_eq]
      omega
  have byRemove : (upper : Int) = 2 * omap.splitDepth - 1 := by
    refine @share (.remove 0) _ ?_ ?_
    · exact Prog.ends_bind (ends_remove idle isEmpty 0) (fun _ _ => Prog.ends_pure trivial)
    · refine touches_bind (omap.touches_remove fits 0) (fun omap' names => ?_)
      rintro ⟨targetDepth, _, atRoot, spends⟩
      refine touches_pure ?_
      rw [List.append_nil, spends.upper_eq, atRoot isEmpty]
      omega
  omega

section Sample

end Sample

end TeeAvlOmap

end TieredOmap
