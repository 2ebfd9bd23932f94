import TieredOMap.Lib.Trace
import TieredOMap.Tee.TeeAvlOmap

/-!
# Which ORAMs an operation of the enclave's tree touches

A step of the tree reads a path of one ORAM and evicts it again. Which ORAM that is only
depends on the depth of the step: the first loop of an operation goes through all depths,
and padding fills up the budget. The second loop of a removal starts below the target, so
with more than one upper level it may touch the upper ORAM again.
-/

namespace TieredOmap

/-- What is touched, and whether it is evicted. -/
def OramStep.touched : OramStep → OramName × Bool
  | read name => (name, false)
  | evict name _ => (name, true)

/-- A read and an eviction of each of some ORAMs in turn. -/
def rounds (names : List OramName) : List (OramName × Bool) :=
  names.flatMap (fun name => [(name, false), (name, true)])

@[simp]
theorem rounds_append (names names' : List OramName) :
    rounds (names ++ names') = rounds names ++ rounds names' := List.flatMap_append

theorem count_rounds (names : List OramName) (name : OramName) (evicted : Bool) :
    (rounds names).count (name, evicted) = names.count name := by
  induction names with
  | nil => rfl
  | cons head rest ih =>
      have here : [(head, false), (head, true)].count (name, evicted) = [head].count name := by
        cases evicted <;> cases head <;> cases name <;> rfl
      rw [show rounds (head :: rest) = [(head, false), (head, true)] ++ rounds rest from rfl,
        List.count_append, ih, here, ← List.count_append]
      rfl

/-- A run that returns has touched some ORAMs, one after the other. -/
def Touches {Result : Type} (program : TeeRand Result)
    (post : Result → List OramName → Prop) : Prop :=
  Prog.Emits TeeWorld.steps (fun _ => True) program (fun result events =>
    ∃ names, events.map OramStep.touched = rounds names ∧ post result names)

section Touches

variable {α β : Type}

theorem touches_pure {result : α} {post : α → List OramName → Prop} (holds : post result []) :
    Touches (pure result : TeeRand α) post :=
  Prog.emits_pure ⟨[], rfl, holds⟩

theorem touches_bind {program : TeeRand α} {next : α → TeeRand β}
    {Q : α → List OramName → Prop} {post : β → List OramName → Prop} (first : Touches program Q)
    (rest : ∀ result names, Q result names →
      Touches (next result) (fun result' names' => post result' (names ++ names'))) :
    Touches (program >>= next) post := by
  refine Prog.emits_bind first ?_
  rintro result events ⟨names, touched, holds⟩
  refine (rest result names holds).mono ?_
  rintro result' events' ⟨names', touched', holds'⟩
  exact ⟨names ++ names', by rw [List.map_append, touched, touched', rounds_append], holds'⟩

theorem Touches.mono {program : TeeRand α} {post post' : α → List OramName → Prop}
    (touches : Touches program post)
    (imp : ∀ result names, post result names → post' result names) : Touches program post' := by
  refine Prog.Emits.mono touches ?_
  rintro result events ⟨names, touched, holds⟩
  exact ⟨names, touched, imp result names holds⟩

/-- Some events happen, whatever comes back. -/
abbrev Happens (program : TeeRand α) (post : List OramStep → Prop) : Prop :=
  Prog.Emits TeeWorld.steps (fun _ => True) program (fun _ events => post events)

/-- What the client does itself is no step. -/
theorem happens_inTee (program : Rand α) : Happens (inTee program) (· = []) := by
  intro before world start
  rw [runFrom_inTee]
  rcases program.runFrom world.toWorld with ⟨error | result, world'⟩
  · trivial
  · exact ⟨[], start.trans (List.append_nil before).symm, rfl⟩

theorem touches_inTee (program : Rand α) :
    Touches (inTee program) (fun _ names => names = []) := by
  refine (happens_inTee program).mono ?_
  rintro result _ rfl
  exact ⟨[], rfl, rfl⟩

/-- Without a step nothing is touched. -/
theorem touches_silent_bind {program : TeeRand α} {next : α → TeeRand β}
    {post : β → List OramName → Prop} (silent : Touches program (fun _ names => names = []))
    (rest : ∀ result, Touches (next result) post) : Touches (program >>= next) post := by
  refine touches_bind silent ?_
  rintro result _ rfl
  exact rest result

theorem touches_randomLeaf (oram : EnclaveOram) :
    Touches oram.randomLeaf (fun _ names => names = []) :=
  touches_silent_bind (touches_inTee _) (fun _ => touches_pure rfl)

/-- A step touches the ORAM it names. -/
theorem touches_emits {program : TeeRand α} {post : α → List OramName → Prop}
    (emits : Prog.Emits TeeWorld.steps (fun _ => True) program (fun result events =>
      ∃ names, events.map OramStep.touched = rounds names ∧ post result names)) :
    Touches program post := emits

/-- What a run that returned has touched. -/
theorem Touches.returned {program : TeeRand α} {post : α → List OramName → Prop}
    (touches : Touches program post) {world world' : TeeWorld} {result : α}
    (run : program.runFrom world = (.ok result, world')) :
    ∃ made names, world'.steps = world.steps ++ made ∧ made.map OramStep.touched = rounds names ∧
      post result names := by
  rcases Prog.Emits.returned touches run with ⟨made, stepsEq, names, touched, holds⟩
  exact ⟨made, names, stepsEq, touched, holds⟩

end Touches

attribute [irreducible] Touches

namespace TeeAvlOmap

/-- What a sequence of steps leaves alone, and how it counts them. -/
structure Moved (omap omap' : TeeAvlOmap) (names : List OramName) : Prop where
  maxHeight : omap'.maxHeight = omap.maxHeight
  splitDepth : omap'.splitDepth = omap.splitDepth
  upperOps : omap'.upperOps = omap.upperOps + names.count .upper

namespace Moved

variable {omap omap' omap'' : TeeAvlOmap} {names names' : List OramName}

theorem refl (omap : TeeAvlOmap) : Moved omap omap [] := ⟨rfl, rfl, (Int.add_zero _).symm⟩

theorem trans (first : Moved omap omap' names) (second : Moved omap' omap'' names') :
    Moved omap omap'' (names ++ names') := by
  refine ⟨second.maxHeight.trans first.maxHeight, second.splitDepth.trans first.splitDepth, ?_⟩
  rw [second.upperOps, first.upperOps, List.count_append, Int.natCast_add, Int.add_assoc]

theorem inUpper (moved : Moved omap omap' names) (depth : Int) :
    omap'.inUpper depth = omap.inUpper depth := by
  rw [TeeAvlOmap.inUpper, moved.splitDepth]
  rfl

theorem nameForDepth (moved : Moved omap omap' names) (depth : Int) :
    omap'.nameForDepth depth = omap.nameForDepth depth := by
  rw [TeeAvlOmap.nameForDepth, moved.inUpper]
  rfl

/-- What is done between steps counts none. -/
theorem stay (moved : Moved omap omap' names) (still : Moved omap' omap'' []) :
    Moved omap omap'' names := by
  have both := moved.trans still
  rwa [List.append_nil] at both

end Moved

theorem moved_setOram (omap : TeeAvlOmap) (depth : Int) (oram : EnclaveOram) :
    Moved omap (omap.setOram depth oram) [] := by
  unfold setOram
  split <;> exact ⟨rfl, rfl, (Int.add_zero _).symm⟩

theorem moved_countOp (omap : TeeAvlOmap) (depth : Int) :
    Moved omap (omap.countOp depth) [omap.nameForDepth depth] := by
  unfold countOp nameForDepth
  split
  · exact ⟨rfl, rfl, rfl⟩
  · exact ⟨rfl, rfl, (Int.add_zero _).symm⟩

theorem moved_flush (omap : TeeAvlOmap) : Moved omap omap.flushLocalToStash [] := by
  have folded : ∀ (nodes : List AVLLocalNode) (omap : TeeAvlOmap), Moved omap
      (nodes.foldl (fun omap node => omap.setOram node.depth
        ((omap.oramForDepth node.depth).addToStash node.key node.leaf node.avl.encode)) omap) [] := by
    intro nodes
    induction nodes with
    | nil => exact Moved.refl
    | cons node rest ih =>
        intro omap
        exact (omap.moved_setOram node.depth _).trans (ih _)
  have moved := folded omap.local_ omap
  exact ⟨moved.maxHeight, moved.splitDepth, moved.upperOps⟩

theorem moved_updateHeights (omap : TeeAvlOmap) : Moved omap omap.updateHeights [] :=
  ⟨rfl, rfl, (Int.add_zero _).symm⟩

theorem moved_rotateCond (omap : TeeAvlOmap) (idx : Nat) (active dir : Bool) :
    Moved omap (omap.rotateCond idx active dir) [] :=
  ⟨rfl, rfl, (Int.add_zero _).symm⟩

theorem moved_balanceNode (omap : TeeAvlOmap) (idx : Nat) : Moved omap (omap.balanceNode idx) [] := by
  unfold balanceNode
  exact (((omap.moved_rotateCond _ _ _).stay (moved_rotateCond _ _ _ _)).stay
    (moved_rotateCond _ _ _ _)).stay (moved_rotateCond _ _ _ _)

theorem moved_rebalance (omap : TeeAvlOmap) : Moved omap omap.rebalance [] := by
  have folded : ∀ (indices : List Nat) (omap : TeeAvlOmap), Moved omap
      (indices.foldl (fun omap i => omap.updateHeights.balanceNode i) omap) [] := by
    intro indices
    induction indices with
    | nil => exact Moved.refl
    | cons i rest ih =>
        intro omap
        exact (omap.moved_updateHeights.stay (moved_balanceNode _ i)).stay (ih _)
  exact (folded _ omap).stay (moved_updateHeights _)

/-! ## Steps -/

theorem happens_readPathToStash (oram : EnclaveOram) (name : OramName) (leaf : Int) :
    Happens (oram.readPathToStash name leaf) (· = [.read name]) :=
  fun _ _ start => ⟨[.read name], congrArg (· ++ [.read name]) start, rfl⟩

theorem happens_evictOnePath (oram : EnclaveOram) (name : OramName) (leaf : Int) :
    Happens (oram.evictOnePath name leaf) (fun events => ∃ scanned, events = [.evict name scanned]) := by
  unfold EnclaveOram.evictOnePath
  refine Prog.emits_bind (Q := fun _ events => events = [.evict name oram.stash.length])
    (fun _ _ start => ⟨[_], congrArg (· ++ [_]) start, rfl⟩) ?_
  rintro _ _ rfl
  dsimp only
  split_ifs
  · exact Prog.emits_fail trivial
  · exact Prog.emits_pure ⟨_, rfl⟩

theorem moved_step (omap : TeeAvlOmap) (depth : Int) (oram : EnclaveOram) (node : AVLLocalNode) :
    Moved omap (((omap.setOram depth oram).pushLocal node).countOp depth)
      [omap.nameForDepth depth] := by
  have pushed : Moved omap ((omap.setOram depth oram).pushLocal node) [] :=
    (omap.moved_setOram depth oram).stay ⟨rfl, rfl, (Int.add_zero _).symm⟩
  have counted := moved_countOp ((omap.setOram depth oram).pushLocal node) depth
  rw [pushed.nameForDepth] at counted
  exact pushed.trans counted

/-- A step reads and evicts a path of the ORAM for its depth, whether it is real or not. -/
theorem touches_oramStep (omap : TeeAvlOmap) (depth key leaf : Int) (isReal : Bool)
    (parentKey : Int) : Touches (omap.oramStep depth key leaf isReal parentKey)
      (fun omap' names => names = [omap.nameForDepth depth] ∧ Moved omap omap' names) := by
  unfold oramStep
  refine touches_silent_bind (touches_randomLeaf _) (fun draw => touches_emits ?_)
  refine Prog.emits_bind (happens_readPathToStash _ _ _) ?_
  rintro oram _ rfl
  refine Prog.emits_bind (happens_inTee _) ?_
  rintro avl _ rfl
  refine Prog.emits_bind (happens_evictOnePath _ _ _) ?_
  rintro oram' _ ⟨scanned, rfl⟩
  exact Prog.emits_pure ⟨[omap.nameForDepth depth], rfl, rfl, omap.moved_step depth oram' _⟩

theorem touches_padStep (omap : TeeAvlOmap) (depth : Int) : Touches (omap.padStep depth)
    (fun omap' names => names = [omap.nameForDepth depth] ∧ Moved omap omap' names) := by
  unfold padStep
  refine touches_silent_bind (touches_randomLeaf _) (fun leaf => touches_emits ?_)
  refine Prog.emits_bind (happens_readPathToStash _ _ _) ?_
  rintro oram _ rfl
  refine Prog.emits_bind (happens_evictOnePath _ _ _) ?_
  rintro oram' _ ⟨scanned, rfl⟩
  have counted := moved_countOp (omap.setOram depth oram') depth
  have moved := omap.moved_setOram depth oram'
  rw [moved.nameForDepth] at counted
  exact Prog.emits_pure ⟨[omap.nameForDepth depth], rfl, rfl, moved.trans counted⟩

/-- Padding at one depth only touches the ORAM for it. -/
theorem touches_padSteps (depth : Int) (count : Nat) (omap : TeeAvlOmap) :
    Touches (padSteps depth count omap) (fun omap' names =>
      names = List.replicate count (omap.nameForDepth depth) ∧ Moved omap omap' names) := by
  induction count generalizing omap with
  | zero => exact touches_pure ⟨rfl, Moved.refl omap⟩
  | succ count ih =>
      unfold padSteps
      refine touches_bind (omap.touches_padStep depth) ?_
      rintro padded _ ⟨rfl, moved⟩
      refine (ih padded).mono ?_
      rintro omap' _ ⟨rfl, moved'⟩
      rw [moved.nameForDepth] at moved' ⊢
      exact ⟨rfl, moved.trans moved'⟩

/-- The ORAMs for a number of depths from the given one on. -/
def namesFrom (omap : TeeAvlOmap) (depth : Int) (count : Nat) : List OramName :=
  (List.range count).map (fun i : Nat => omap.nameForDepth (depth + i))

theorem namesFrom_succ (omap : TeeAvlOmap) (depth : Int) (count : Nat) :
    omap.namesFrom depth (count + 1) =
      omap.nameForDepth depth :: omap.namesFrom (depth + 1) count := by
  unfold namesFrom
  rw [List.range_succ_eq_map, List.map_cons, List.map_map]
  congr 1
  · simp
  · refine List.map_congr_left (fun i _ => congrArg omap.nameForDepth ?_)
    push_cast
    omega

theorem Moved.namesFrom {omap omap' : TeeAvlOmap} {names : List OramName}
    (moved : Moved omap omap' names) (depth : Int) (count : Nat) :
    omap'.namesFrom depth count = omap.namesFrom depth count :=
  List.map_congr_left (fun _ _ => moved.nameForDepth _)

/-! ## Loops -/

theorem moved_modifyLast (omap : TeeAvlOmap) (f : AVLNodeData → AVLNodeData) :
    Moved omap (omap.modifyLast f) [] := ⟨rfl, rfl, (Int.add_zero _).symm⟩

/-- A loop that makes a step and goes on one level deeper. -/
theorem touches_loop {State : Type} {omap stepped changed : TeeAvlOmap} {d : Int} {count : Nat}
    {next : TeeRand (State × TeeAvlOmap)} (moved : Moved omap stepped [omap.nameForDepth d])
    (still : Moved stepped changed [])
    (rest : Touches next (fun result names =>
      names = changed.namesFrom (d + 1) count ∧ Moved changed result.2 names)) :
    Touches next (fun result names => [omap.nameForDepth d] ++ names =
      omap.namesFrom d (count + 1) ∧ Moved omap result.2 ([omap.nameForDepth d] ++ names)) := by
  refine rest.mono ?_
  rintro result _ ⟨rfl, moved'⟩
  have here := moved.stay still
  rw [here.namesFrom] at moved' ⊢
  rw [namesFrom_succ]
  exact ⟨rfl, here.trans moved'⟩

theorem touches_searchLoop (key : Int) (update : Option Bytes) (count : Nat) (d : Int)
    (state : SearchState) (omap : TeeAvlOmap) :
    Touches (searchLoop key update count d state omap) (fun result names =>
      names = omap.namesFrom d count ∧ Moved omap result.2 names) := by
  induction count generalizing d state omap with
  | zero => exact touches_pure ⟨rfl, Moved.refl omap⟩
  | succ count ih =>
      unfold searchLoop
      refine touches_bind (omap.touches_oramStep _ _ _ _ _) ?_
      rintro stepped _ ⟨rfl, moved⟩
      cases update with
      | none => exact touches_loop moved (Moved.refl stepped) (ih _ _ _)
      | some value => exact touches_loop moved (stepped.moved_modifyLast _) (ih _ _ _)

theorem touches_insertLoop (key : Int) (count : Nat) (d : Int) (state : InsertState)
    (omap : TeeAvlOmap) : Touches (insertLoop key count d state omap) (fun result names =>
      names = omap.namesFrom d count ∧ Moved omap result.2 names) := by
  induction count generalizing d state omap with
  | zero => exact touches_pure ⟨rfl, Moved.refl omap⟩
  | succ count ih =>
      unfold insertLoop
      refine touches_bind (omap.touches_oramStep _ _ _ _ _) ?_
      rintro stepped _ ⟨rfl, moved⟩
      refine touches_silent_bind (touches_randomLeaf _) (fun newLeaf => ?_)
      exact touches_loop moved (stepped.moved_modifyLast _) (ih _ _ _)

theorem touches_targetLoop (key : Int) (count : Nat) {d : Int} (state : TargetState)
    (omap : TeeAvlOmap) (nonneg : 0 ≤ d) (targetNonneg : 0 ≤ state.targetDepth) :
    Touches (targetLoop key count d state omap) (fun result names =>
      (names = omap.namesFrom d count ∧ Moved omap result.2 names) ∧ 0 ≤ result.1.targetDepth ∧
        (state.curKey = invalidKey → result.1.targetDepth = state.targetDepth)) := by
  induction count generalizing d state omap with
  | zero => exact touches_pure ⟨⟨rfl, Moved.refl omap⟩, targetNonneg, fun _ => rfl⟩
  | succ count ih =>
      unfold targetLoop
      refine touches_bind (omap.touches_oramStep _ _ _ _ _) ?_
      rintro stepped _ ⟨rfl, moved⟩
      have depthNonneg : ∀ isMatch : Bool, 0 ≤ oSelect isMatch d state.targetDepth := by
        rintro (_ | _)
        · exact targetNonneg
        · exact nonneg
      refine (ih _ stepped (by omega) (depthNonneg _)).mono ?_
      rintro result _ ⟨⟨rfl, moved'⟩, resultNonneg, kept⟩
      rw [moved.namesFrom] at moved' ⊢
      rw [namesFrom_succ]
      refine ⟨⟨rfl, moved.trans moved'⟩, resultNonneg, ?_⟩
      intro isInvalid
      have notSearching : (!oEqual state.curKey invalidKey && !state.found) = false := by
        simp [isInvalid]
      rw [notSearching] at kept
      exact kept rfl

theorem touches_successorLoop (key targetDepth : Int) (count : Nat) (sd : Int)
    (state : SuccessorState) (omap : TeeAvlOmap) :
    Touches (successorLoop key targetDepth count sd state omap) (fun result names =>
      names = omap.namesFrom (targetDepth + 1 + sd) count ∧ Moved omap result.2 names) := by
  induction count generalizing sd state omap with
  | zero => exact touches_pure ⟨rfl, Moved.refl omap⟩
  | succ count ih =>
      unfold successorLoop
      refine touches_bind (omap.touches_oramStep _ _ _ _ _) ?_
      rintro stepped _ ⟨rfl, moved⟩
      have rest := fun state => ih (sd + 1) state stepped
      rw [show targetDepth + 1 + (sd + 1) = targetDepth + 1 + sd + 1 by omega] at rest
      exact touches_loop moved (Moved.refl stepped) (rest _)

/-! ## Operations -/

theorem touches_drawLocalLeaves (omap : TeeAvlOmap) (nodes : List AVLLocalNode) :
    Touches (omap.drawLocalLeaves nodes) (fun _ names => names = []) := by
  induction nodes with
  | nil => exact touches_pure rfl
  | cons node rest ih =>
      unfold drawLocalLeaves
      refine touches_silent_bind ih (fun rest => ?_)
      exact touches_silent_bind (touches_randomLeaf _) (fun leaf => touches_pure rfl)

theorem touches_reassignLeaves (omap : TeeAvlOmap) :
    Touches omap.reassignLeaves (fun omap' names => names = [] ∧ Moved omap omap' []) := by
  unfold reassignLeaves
  refine touches_silent_bind (omap.touches_drawLocalLeaves _) (fun nodes => ?_)
  exact touches_pure ⟨rfl, rfl, rfl, (Int.add_zero _).symm⟩

/-- How many of the depths from the given one on are in the upper ORAM. -/
theorem count_namesFrom (omap : TeeAvlOmap) {depth : Int} (nonneg : 0 ≤ depth) (count : Nat) :
    ((omap.namesFrom depth count).count .upper : Int) =
      max 0 (min (count : Int) (omap.splitDepth - depth)) := by
  induction count generalizing depth with
  | zero => simp [namesFrom]
  | succ count ih =>
      have here : ([omap.nameForDepth depth].count .upper : Int) =
          if depth < omap.splitDepth then 1 else 0 := by
        unfold nameForDepth inUpper
        by_cases inside : depth < omap.splitDepth
        · have positive : 0 < omap.splitDepth := by omega
          simp [inside, positive]
        · simp [inside]
      rw [namesFrom_succ, ← List.singleton_append, List.count_append, Int.natCast_add, here,
        ih (by omega)]
      split <;> omega

theorem length_namesFrom (omap : TeeAvlOmap) (depth : Int) (count : Nat) :
    (omap.namesFrom depth count).length = count := by
  rw [namesFrom, List.length_map, List.length_range]

theorem nameForDepth_ne_hot (omap : TeeAvlOmap) (depth : Int) :
    omap.nameForDepth depth ≠ .hot := by
  unfold nameForDepth
  split <;> exact fun impossible => by cases impossible

theorem hot_notMem_namesFrom (omap : TeeAvlOmap) (depth : Int) (count : Nat) :
    OramName.hot ∉ omap.namesFrom depth count := by
  intro mem
  rcases List.mem_map.mp mem with ⟨i, _, isHot⟩
  exact omap.nameForDepth_ne_hot _ isHot

/-- What an operation touches: its budget, a part of it in the upper ORAM. -/
structure Spends (omap : TeeAvlOmap) (upper : Int) (omap' : TeeAvlOmap)
    (names : List OramName) : Prop where
  total : names.length = 3 * omap.maxHeight
  upper_eq : (names.count .upper : Int) = upper
  noHot : .hot ∉ names
  maxHeight : omap'.maxHeight = omap.maxHeight
  splitDepth : omap'.splitDepth = omap.splitDepth

/-- Padding fills up the budget; the upper ORAM has had its share. -/
theorem touches_padOps {omap : TeeAvlOmap} {opsDone : Int} (within : opsDone ≤ 3 * omap.maxHeight)
    (fits : omap.splitDepth ≤ omap.maxHeight) (shared : omap.splitDepth ≤ omap.upperOps) :
    Touches (omap.padOps opsDone) (fun omap' names =>
      names.length + opsDone = 3 * omap.maxHeight ∧ names.count .upper = 0 ∧ .hot ∉ names ∧
        omap'.maxHeight = omap.maxHeight ∧ omap'.splitDepth = omap.splitDepth) := by
  have isLower : ∀ depth, omap.splitDepth ≤ depth ∨ omap.splitDepth ≤ 0 →
      omap.nameForDepth depth = .lower := by
    intro depth outside
    unfold nameForDepth inUpper
    rw [if_neg]
    simp only [Bool.and_eq_true, decide_eq_true_eq, not_and]
    omega
  have padded : ∀ (depth : Int) (count : Nat), omap.nameForDepth depth = .lower →
      count + opsDone = 3 * omap.maxHeight → Touches (padSteps depth count omap)
        (fun omap' names => names.length + opsDone = 3 * omap.maxHeight ∧
          names.count .upper = 0 ∧ .hot ∉ names ∧ omap'.maxHeight = omap.maxHeight ∧
            omap'.splitDepth = omap.splitDepth) := by
    intro depth count lower total
    refine (touches_padSteps depth count omap).mono ?_
    rintro omap' _ ⟨rfl, moved⟩
    rw [lower]
    refine ⟨by rw [List.length_replicate, total], ?_, ?_, moved.maxHeight, moved.splitDepth⟩
    · exact List.count_eq_zero.mpr (fun mem => by cases List.eq_of_mem_replicate mem)
    · exact fun mem => by cases List.eq_of_mem_replicate mem
  unfold padOps
  split_ifs with isSplit
  · have noUpper : max 0 (min omap.splitDepth (3 * (omap.maxHeight : Int)) - omap.upperOps) = 0 := by
      omega
    dsimp only
    rw [noUpper]
    have unpadded : Touches (padSteps 0 (0 : Int).toNat omap)
        (fun omap' names => omap' = omap ∧ names = []) := touches_pure ⟨rfl, rfl⟩
    refine touches_bind unpadded ?_
    rintro _ _ ⟨rfl, rfl⟩
    exact padded _ _ (isLower _ (Or.inl (le_refl _))) (by omega)
  · exact padded _ _ (isLower _ (Or.inr (not_lt.mp isSplit))) (by omega)

/-- The steps of an operation before its leaves are drawn anew. -/
structure Walked (omap changed : TeeAvlOmap) (upper : Int) (visited : List OramName) : Prop where
  upper_eq : (visited.count .upper : Int) = upper
  noHot : .hot ∉ visited
  maxHeight : changed.maxHeight = omap.maxHeight
  splitDepth : changed.splitDepth = omap.splitDepth
  upperOps : changed.upperOps = upper

theorem Walked.stay {omap changed changed' : TeeAvlOmap} {upper : Int} {visited : List OramName}
    (walked : Walked omap changed upper visited) (still : Moved changed changed' []) :
    Walked omap changed' upper visited := by
  refine ⟨walked.upper_eq, walked.noHot, still.maxHeight.trans walked.maxHeight,
    still.splitDepth.trans walked.splitDepth, ?_⟩
  rw [still.upperOps, walked.upperOps]
  exact Int.add_zero _

/-- The end of an operation: new leaves, flushing and padding. -/
theorem touches_finish {omap changed : TeeAvlOmap} {visited : List OramName} {upper : Int}
    (opsDone : TeeAvlOmap → Int) (walked : Walked omap changed upper visited)
    (done : ∀ reassigned : TeeAvlOmap, reassigned.maxHeight = omap.maxHeight →
      opsDone reassigned = visited.length)
    (within : visited.length ≤ 3 * omap.maxHeight) (fits : omap.splitDepth ≤ omap.maxHeight)
    (shared : omap.splitDepth ≤ upper) :
    Touches (do
      let omap ← changed.reassignLeaves
      omap.flushLocalToStash.padOps (opsDone omap))
      (fun omap' names => Spends omap upper omap' (visited ++ names)) := by
  refine touches_bind changed.touches_reassignLeaves ?_
  rintro reassigned _ ⟨rfl, moved⟩
  rw [done reassigned (moved.maxHeight.trans walked.maxHeight)]
  have flushed := walked.stay (moved.trans reassigned.moved_flush)
  have sameHeight := flushed.maxHeight
  have sameSplit := flushed.splitDepth
  refine (touches_padOps (by rw [sameHeight]; omega) (by rw [sameHeight, sameSplit]; exact fits)
    (by rw [sameSplit, flushed.upperOps]; exact shared)).mono ?_
  rintro omap' names ⟨total, noUpper, noHot, heightEq, splitEq⟩
  refine ⟨?_, ?_, ?_, heightEq.trans sameHeight, splitEq.trans sameSplit⟩
  · rw [sameHeight] at total
    rw [List.nil_append, List.length_append]
    omega
  · rw [List.nil_append, List.count_append, noUpper, Nat.add_zero]
    exact walked.upper_eq
  · rw [List.nil_append, List.mem_append, not_or]
    exact ⟨walked.noHot, noHot⟩

/-- The share of the upper ORAM in a loop through all depths. -/
theorem count_allDepths {omap : TeeAvlOmap} (fits : omap.splitDepth ≤ omap.maxHeight) :
    ((omap.namesFrom 0 omap.maxHeight).count .upper : Int) = max 0 omap.splitDepth := by
  rw [omap.count_namesFrom (le_refl 0)]
  omega

/-- A loop through all depths at the start of an operation. -/
theorem walked_allDepths {omap changed : TeeAvlOmap} (fits : omap.splitDepth ≤ omap.maxHeight)
    (moved : Moved omap.beginOp changed (omap.beginOp.namesFrom 0 omap.maxHeight)) :
    Walked omap changed (max 0 omap.splitDepth) (omap.namesFrom 0 omap.maxHeight) := by
  refine ⟨count_allDepths fits, omap.hot_notMem_namesFrom _ _, moved.maxHeight, moved.splitDepth, ?_⟩
  rw [← count_allDepths fits]
  exact moved.upperOps.trans (Int.zero_add _)

theorem moved_transform (omap : TeeAvlOmap) (state : SearchState)
    (transform : Option (Bytes → Bytes)) : Moved omap (match transform with
      | some transform => omap.transformFound state transform
      | none => omap) [] := by
  cases transform <;> exact ⟨rfl, rfl, (Int.add_zero _).symm⟩

theorem touches_searchOrDummy (omap : TeeAvlOmap) (fits : omap.splitDepth ≤ omap.maxHeight)
    (key : Int) (real : Bool) (update : Option Bytes) (transform : Option (Bytes → Bytes)) :
    Touches (omap.searchOrDummy key real update transform)
      (fun result names => Spends omap (max 0 omap.splitDepth) result.2 names) := by
  unfold searchOrDummy
  refine touches_bind (touches_searchLoop key update _ 0 _ omap.beginOp) ?_
  rintro ⟨state, searched⟩ _ ⟨rfl, moved⟩
  have walked := (walked_allDepths fits moved).stay (moved_transform searched state transform)
  have finished := touches_finish (fun omap => omap.maxHeight) walked
    (fun _ same => by rw [same, omap.length_namesFrom]) (by rw [omap.length_namesFrom]; omega)
    fits (by omega)
  dsimp only
  rw [← bind_assoc]
  refine touches_bind finished ?_
  intro omap' names spends
  exact touches_pure (by rwa [List.append_nil])

theorem touches_search (omap : TeeAvlOmap) (fits : omap.splitDepth ≤ omap.maxHeight) (key : Int)
    (update : Option Bytes) (transform : Option (Bytes → Bytes)) :
    Touches (omap.search key update transform)
      (fun result names => Spends omap (max 0 omap.splitDepth) result.2 names) := by
  unfold search
  refine touches_bind (omap.touches_searchOrDummy fits key true update transform) ?_
  intro found names spends
  exact touches_pure (by rwa [List.append_nil])

theorem touches_dummyAccess (omap : TeeAvlOmap) (fits : omap.splitDepth ≤ omap.maxHeight) :
    Touches omap.dummyAccess (fun omap' names => Spends omap (max 0 omap.splitDepth) omap' names) := by
  unfold dummyAccess
  refine touches_bind (omap.touches_searchOrDummy fits invalidKey false none none) ?_
  intro found names spends
  exact touches_pure (by rwa [List.append_nil])

theorem touches_insert (omap : TeeAvlOmap) (fits : omap.splitDepth ≤ omap.maxHeight) (key : Int)
    (value : Bytes) : Touches (omap.insert key value)
      (fun omap' names => Spends omap (max 0 omap.splitDepth) omap' names) := by
  unfold insert
  refine touches_bind (touches_insertLoop key _ 0 _ omap.beginOp) ?_
  rintro ⟨state, searched⟩ _ ⟨rfl, moved⟩
  refine touches_silent_bind (touches_randomLeaf _) (fun emptyLeaf => ?_)
  have added : ∀ (entry : AVLLocalNode) (rootKey : Int),
      Moved searched { searched.pushLocal entry with rootKey := rootKey } [] :=
    fun _ _ => ⟨rfl, rfl, (Int.add_zero _).symm⟩
  have visited : (omap.beginOp.namesFrom 0 omap.maxHeight).length = omap.maxHeight :=
    length_namesFrom _ _ _
  exact touches_finish (fun omap => omap.maxHeight)
    ((walked_allDepths fits moved).stay (((added _ _).stay (moved_updateHeights _)).stay (moved_rebalance _)))
    (fun _ same => by rw [same]; exact congrArg _ visited.symm)
    (by rw [show omap.beginOp.maxHeight = omap.maxHeight from rfl, visited]; omega) fits (by omega)

theorem moved_renameTarget (omap : TeeAvlOmap) (hasTwo : Bool) (targetIdx succIdx : Int) :
    Moved omap (omap.renameTarget hasTwo targetIdx succIdx) [] :=
  ⟨rfl, rfl, (Int.add_zero _).symm⟩

theorem moved_unlink (omap : TeeAvlOmap) (found : Bool) (delIdx : Int) :
    Moved omap (omap.unlink found delIdx) [] :=
  ⟨rfl, rfl, (Int.add_zero _).symm⟩

/-- The two loops of a removal. -/
theorem walked_twice {omap searched descended : TeeAvlOmap} {targetDepth : Int}
    (fits : omap.splitDepth ≤ omap.maxHeight) (nonneg : 0 ≤ targetDepth)
    (moved : Moved omap.beginOp searched (omap.namesFrom 0 omap.maxHeight))
    (moved' : Moved searched descended (omap.namesFrom (targetDepth + 1) omap.maxHeight)) :
    Walked omap descended (max 0 omap.splitDepth + max 0 (min (omap.maxHeight : Int)
      (omap.splitDepth - (targetDepth + 1)))) (omap.namesFrom 0 omap.maxHeight ++
        omap.namesFrom (targetDepth + 1) omap.maxHeight) := by
  have both := moved.trans moved'
  have shares : (((omap.namesFrom 0 omap.maxHeight ++
      omap.namesFrom (targetDepth + 1) omap.maxHeight).count .upper : Nat) : Int) =
        max 0 omap.splitDepth + max 0 (min (omap.maxHeight : Int)
          (omap.splitDepth - (targetDepth + 1))) := by
    rw [List.count_append, Int.natCast_add, count_allDepths fits,
      omap.count_namesFrom (by omega)]
  refine ⟨shares, ?_, both.maxHeight, both.splitDepth, ?_⟩
  · rw [List.mem_append, not_or]
    exact ⟨omap.hot_notMem_namesFrom _ _, omap.hot_notMem_namesFrom _ _⟩
  · rw [← shares]
    exact both.upperOps.trans (Int.zero_add _)

/-- The end of a removal. -/
theorem touches_finishRemoval {omap descended : TeeAvlOmap} {upper : Int}
    {visited : List OramName} (walked : Walked omap descended upper visited)
    (length_eq : visited.length = 2 * omap.maxHeight) (fits : omap.splitDepth ≤ omap.maxHeight)
    (shared : omap.splitDepth ≤ upper) (hasTwo found : Bool) (targetIdx succIdx delIdx : Int) :
    Touches (do
      let omap ← ((descended.renameTarget hasTwo targetIdx succIdx).unlink found
        delIdx).updateHeights.rebalance.reassignLeaves
      omap.flushLocalToStash.padOps (2 * omap.maxHeight))
      (fun omap' names => Spends omap upper omap' (visited ++ names)) := by
  have changed : Moved descended ((descended.renameTarget hasTwo targetIdx succIdx).unlink found
      delIdx).updateHeights.rebalance [] :=
    (((descended.moved_renameTarget hasTwo targetIdx succIdx).stay
      (moved_unlink _ found delIdx)).stay (moved_updateHeights _)).stay (moved_rebalance _)
  refine touches_finish (fun omap => 2 * omap.maxHeight) (walked.stay changed) ?_ ?_ fits shared
  · intro reassigned same
    rw [same, length_eq, Int.natCast_mul]
    rfl
  · rw [length_eq]
    omega

/-- A removal also goes through the depths below its target, so the upper ORAM may be read
more often. -/
theorem touches_remove (omap : TeeAvlOmap) (fits : omap.splitDepth ≤ omap.maxHeight) (key : Int) :
    Touches (omap.remove key) (fun omap' names => ∃ targetDepth : Int, 0 ≤ targetDepth ∧
      (omap.rootKey = invalidKey → targetDepth = 0) ∧ Spends omap (max 0 omap.splitDepth +
        max 0 (min (omap.maxHeight : Int) (omap.splitDepth - (targetDepth + 1)))) omap' names) := by
  unfold remove
  refine touches_bind (touches_targetLoop key _ _ omap.beginOp (le_refl 0) (le_refl 0)) ?_
  rintro ⟨target, searched⟩ _ ⟨⟨rfl, moved⟩, nonneg, kept⟩
  dsimp only
  refine touches_bind (touches_successorLoop key target.targetDepth _ 0 _ searched) ?_
  rintro ⟨succ, descended⟩ names' ⟨rfl, moved'⟩
  have visited : searched.namesFrom (target.targetDepth + 1 + 0) searched.maxHeight =
      omap.namesFrom (target.targetDepth + 1) omap.maxHeight := by
    rw [Int.add_zero, moved.namesFrom, moved.maxHeight]
    rfl
  rw [visited] at moved' ⊢
  have walked := walked_twice fits nonneg moved moved'
  have length_eq : (omap.namesFrom 0 omap.maxHeight ++ omap.namesFrom (target.targetDepth + 1)
      omap.maxHeight).length = 2 * omap.maxHeight := by
    rw [List.length_append, length_namesFrom, length_namesFrom]
    omega
  refine Touches.mono (touches_finishRemoval walked length_eq fits (by omega) _ _ _ _ _) ?_
  intro omap' names spends
  refine ⟨target.targetDepth, nonneg, ?_, by rwa [← List.append_assoc]⟩
  intro isEmpty
  refine kept ?_
  rw [show omap.beginOp.rootKey = invalidKey from isEmpty]
  rfl

/-- An operation spends its budget; only a removal may spend more of it on the upper ORAM. -/
theorem touches_call (omap : TeeAvlOmap) (fits : omap.splitDepth ≤ omap.maxHeight) (op : TeeAvlOp) :
    Touches (op.call omap) (fun result names => ∃ upper : Int, 0 ≤ upper ∧
      (omap.splitDepth ≤ 1 → upper = 0) ∧
        Spends omap (max 0 omap.splitDepth + upper) result.2 names) := by
  have searches : ∀ {α : Type} {program : TeeRand (α × TeeAvlOmap)} {result : α → TeeAvlResult},
      Touches program (fun result names => Spends omap (max 0 omap.splitDepth) result.2 names) →
      Touches (do
        let found ← program
        return (result found.1, found.2)) (fun result names => ∃ upper : Int, 0 ≤ upper ∧
          (omap.splitDepth ≤ 1 → upper = 0) ∧
            Spends omap (max 0 omap.splitDepth + upper) result.2 names) := by
    intro α program result touches
    refine touches_bind touches (fun found names spends => touches_pure ?_)
    exact ⟨0, le_refl 0, fun _ => rfl, by rwa [List.append_nil, Int.add_zero]⟩
  have changes : ∀ {program : TeeRand TeeAvlOmap},
      Touches program (fun omap' names => Spends omap (max 0 omap.splitDepth) omap' names) →
      Touches (do
        let omap ← program
        return (TeeAvlResult.done, omap)) (fun result names => ∃ upper : Int, 0 ≤ upper ∧
          (omap.splitDepth ≤ 1 → upper = 0) ∧
            Spends omap (max 0 omap.splitDepth + upper) result.2 names) := by
    intro program touches
    refine touches_bind touches (fun omap' names spends => touches_pure ?_)
    exact ⟨0, le_refl 0, fun _ => rfl, by rwa [List.append_nil, Int.add_zero]⟩
  cases op with
  | search key update transform => exact searches (omap.touches_search fits key update transform)
  | searchOrDummy key real update transform =>
      exact @searches (Bytes × Bool) _ (fun found => .accessed found.1 found.2)
        (omap.touches_searchOrDummy fits key real update transform)
  | insert key value => exact changes (omap.touches_insert fits key value)
  | remove key =>
      refine touches_bind (omap.touches_remove fits key) (fun omap' names => ?_)
      rintro ⟨targetDepth, nonneg, _, spends⟩
      refine touches_pure ⟨_, le_max_left _ _, ?_, by rwa [List.append_nil]⟩
      intro fewLevels
      omega
  | dummyAccess => exact changes (omap.touches_dummyAccess fits)

end TeeAvlOmap

end TieredOmap
