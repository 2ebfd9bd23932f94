import TieredOMap.Omap.Shape

/-!
# The paths an AVL operation visits

Every access of an operation reads and writes back one path of one half. The operations are
followed with the list of the halves they visit, in order, next to their own counters: without a
split all visits are to one store, and an operation never visits more than `3 * max_height_` paths.
-/

namespace TieredOmap

theorem yields_of_sends {Result : Type} {program : Rand Result}
    {post : Result → List StorageReq → Prop} (sends : Sends program post) :
    Yields program (fun result => ∃ sent, post result sent) := by
  intro world _
  rcases run : program.runFrom world with ⟨_ | result, world'⟩
  · trivial
  · rcases sends.returned run with ⟨sent, _, holds⟩
    exact ⟨sent, holds⟩

/-- A program keeps a property and sends nothing. -/
abbrev Silent {Result : Type} (program : Rand Result) (post : Result → Prop) : Prop :=
  Sends program (fun result sent => post result ∧ sent = [])

theorem silent_pure {Result : Type} {result : Result} {post : Result → Prop} (holds : post result) :
    Silent (pure result) post := Prog.emits_pure ⟨holds, rfl⟩

theorem silent_bind {α β : Type} {program : Rand α} {next : α → Rand β} {Q : α → Prop}
    {post : β → Prop} (first : Silent program Q)
    (rest : ∀ result, Q result → Silent (next result) post) : Silent (program >>= next) post := by
  refine Prog.emits_bind first ?_
  rintro result _ ⟨holds, rfl⟩
  exact rest result holds

/-- The requests of accesses to one path in each of some halves. -/
def visitRequests (stores : Half → Nat) (visited : List Half) : List StorageReq :=
  visited.flatMap (fun half => pathAccesses (stores half) 1)

theorem visitRequests_append (stores : Half → Nat) (visited visited' : List Half) :
    visitRequests stores (visited ++ visited') =
      visitRequests stores visited ++ visitRequests stores visited' := List.flatMap_append

/-- Visits to one half. -/
theorem visitRequests_of_forall {stores : Half → Nat} {visited : List Half} {half : Half}
    (same : ∀ half' ∈ visited, half' = half) :
    visitRequests stores visited = pathAccesses (stores half) visited.length := by
  induction visited with
  | nil => rfl
  | cons head rest ih =>
      obtain rfl := same head List.mem_cons_self
      have tail := ih (fun half' mem => same half' (List.mem_cons_of_mem _ mem))
      rw [List.length_cons, Nat.add_comm, pathAccesses_add, ← tail]
      rfl

theorem length_eq_counts (visited : List Half) :
    visited.length = visited.count .upper + visited.count .lower := by
  induction visited with
  | nil => rfl
  | cons half rest ih => cases half <;> simp [ih] <;> omega

/-- The half of a depth. -/
def halfAt (split depth : Int) : Half := if 0 < split ∧ depth < split then .upper else .lower

theorem halfAt_of_noSplit {split : Int} (noSplit : ¬0 < split) (depth : Int) :
    halfAt split depth = .lower :=
  if_neg (fun both => noSplit both.1)

/-- The halves of some depths, one below the other. -/
def halvesBelow (split : Int) : Int → Nat → List Half
  | _, 0 => []
  | depth, steps + 1 => halfAt split depth :: halvesBelow split (depth + 1) steps

@[simp]
theorem length_halvesBelow (split depth : Int) (steps : Nat) :
    (halvesBelow split depth steps).length = steps := by
  induction steps generalizing depth with
  | zero => rfl
  | succ steps ih => simp [halvesBelow, ih]

namespace SplitOram

theorem splitDepth_set (orams : SplitOram) (half : Half) (oram : PathORAM) :
    (orams.set half oram).splitDepth = orams.splitDepth := by
  cases half <;> rfl

/-- What never changes: where the tree is split, and the stores of the halves. -/
structure Between (orams : SplitOram) (split : Int) (stores : Half → Nat) : Prop where
  splitDepth_eq : orams.splitDepth = split
  storeId_eq : ∀ half, (orams.get half).storage.storeId = stores half

variable {orams : SplitOram} {split : Int} {stores : Half → Nat}

theorem Between.halfForDepth (between : orams.Between split stores) (depth : Int) :
    orams.halfForDepth depth = halfAt split depth := by
  rw [SplitOram.halfForDepth, between.splitDepth_eq, halfAt]

theorem Between.set (between : orams.Between split stores) {half : Half} {oram : PathORAM}
    (sameId : oram.storage.storeId = stores half) : (orams.set half oram).Between split stores := by
  refine ⟨?_, ?_⟩
  · rw [splitDepth_set, between.splitDepth_eq]
  · intro half'
    cases half <;> cases half'
    · exact sameId
    · exact between.storeId_eq .lower
    · exact between.storeId_eq .upper
    · exact sameId

theorem Between.addToStash (between : orams.Between split stores) (half : Half) (block : Block) :
    (orams.addToStash half block).Between split stores :=
  between.set (between.storeId_eq half)

theorem Between.sends_assignLeaf (between : orams.Between split stores) (half : Half) (key : Int) :
    Sends (orams.assignLeaf half key) (fun outcome sent =>
      outcome.2.Between split stores ∧ sent = []) := by
  refine Prog.emits_bind (PathORAM.sends_randomLeaf _) ?_
  rintro leaf _ rfl
  exact Prog.emits_pure ⟨between.set (between.storeId_eq half), rfl⟩

variable [Cipher]

theorem Between.sends_dummyAccess (between : orams.Between split stores) (half : Half) :
    Sends (orams.dummyAccess half) (fun orams' sent =>
      orams'.Between split stores ∧ sent = visitRequests stores [half]) := by
  refine Prog.emits_bind (PathORAM.sends_dummyAccess _) ?_
  rintro oram _ ⟨sameId, rfl⟩
  refine Prog.emits_pure ⟨between.set (sameId.trans (between.storeId_eq half)), ?_⟩
  simp [visitRequests, between.storeId_eq]

theorem Between.sends_dummyAccesses (between : orams.Between split stores) (half : Half)
    (count : Nat) :
    Sends (SplitOram.dummyAccesses half count orams) (fun orams' sent =>
      orams'.Between split stores ∧
        sent = visitRequests stores (List.replicate count half)) := by
  induction count generalizing orams with
  | zero => exact Prog.emits_pure ⟨between, rfl⟩
  | succ count ih =>
      refine Prog.emits_bind (between.sends_dummyAccess half) ?_
      rintro orams' _ ⟨between', rfl⟩
      refine (ih between').mono ?_
      rintro orams'' _ ⟨between'', rfl⟩
      exact ⟨between'', (visitRequests_append _ _ _).symm⟩

end SplitOram

/-- What a tree object is set up with. -/
structure TreeSetting where
  split : Int
  stores : Half → Nat
  odsMode : Bool
  maxHeight : Int

namespace AVLOmap

/-- The set-up of the object. -/
structure Fixed (omap : AVLOmap) (setting : TreeSetting) : Prop where
  between : omap.orams.Between setting.split setting.stores
  odsMode_eq : omap.odsMode = setting.odsMode
  maxHeight_eq : omap.maxHeight = setting.maxHeight

/-- The set-up of the object, and its counters after some visits. -/
structure Tallied (omap : AVLOmap) (setting : TreeSetting) (visited : List Half) : Prop
    extends omap.Fixed setting where
  opCount_eq : omap.opCount = if 0 < setting.split then 0 else visited.length
  upperOpCount_eq : omap.upperOpCount = if 0 < setting.split then visited.count .upper else 0
  lowerOpCount_eq : omap.lowerOpCount = if 0 < setting.split then visited.count .lower else 0
  lower_of_noSplit : ¬0 < setting.split → ∀ half ∈ visited, half = .lower

variable {omap : AVLOmap} {setting : TreeSetting} {visited : List Half}

theorem Tallied.withOrams (tallied : omap.Tallied setting visited) {orams : SplitOram}
    (between : orams.Between setting.split setting.stores) :
    { omap with orams }.Tallied setting visited :=
  { tallied with between }

theorem Tallied.withLocal (tallied : omap.Tallied setting visited) (local_ : List AVLLocalNode) :
    { omap with local_ }.Tallied setting visited :=
  { tallied with }

theorem Tallied.withRoot (tallied : omap.Tallied setting visited) (rootKey rootLeaf : Int) :
    { omap with rootKey, rootLeaf }.Tallied setting visited :=
  { tallied with }

theorem Fixed.resetOpCounts (fixed : omap.Fixed setting) :
    omap.resetOpCounts.Tallied setting [] := by
  refine { fixed with
    opCount_eq := ?_, upperOpCount_eq := ?_, lowerOpCount_eq := ?_, lower_of_noSplit := ?_ } <;>
    simp [AVLOmap.resetOpCounts]

theorem Tallied.countOp (tallied : omap.Tallied setting visited) (depth : Int) :
    (omap.countOp depth).Tallied setting (visited ++ [halfAt setting.split depth]) := by
  have splitEq := tallied.between.splitDepth_eq
  have ops := tallied.opCount_eq
  have upper := tallied.upperOpCount_eq
  have lower := tallied.lowerOpCount_eq
  have stillLower : ¬0 < setting.split →
      ∀ half ∈ visited ++ [halfAt setting.split depth], half = .lower := by
    intro noSplit half mem
    rcases List.mem_append.mp mem with before | last
    · exact tallied.lower_of_noSplit noSplit half before
    · rw [List.mem_singleton.mp last, halfAt_of_noSplit noSplit]
  unfold AVLOmap.countOp
  rw [splitEq]
  by_cases split : 0 < setting.split
  · rw [if_pos split] at ops upper lower
    by_cases high : depth < setting.split
    · rw [if_pos split, if_pos high]
      refine { tallied with
        opCount_eq := ?_, upperOpCount_eq := ?_, lowerOpCount_eq := ?_
        lower_of_noSplit := stillLower } <;>
        simp [split, high, halfAt, ops, upper, lower]
    · rw [if_pos split, if_neg high]
      refine { tallied with
        opCount_eq := ?_, upperOpCount_eq := ?_, lowerOpCount_eq := ?_
        lower_of_noSplit := stillLower } <;>
        simp [split, high, halfAt, ops, upper, lower]
  · rw [if_neg split] at ops upper lower
    rw [if_neg split]
    refine { tallied with
      opCount_eq := ?_, upperOpCount_eq := ?_, lowerOpCount_eq := ?_
      lower_of_noSplit := stillLower } <;>
      simp [split, ops, upper, lower]

variable [Cipher]

theorem Tallied.sends_moveToLocal (tallied : omap.Tallied setting visited)
    (key leaf parentKey depth : Int) :
    Sends (omap.moveToLocal key leaf parentKey depth) (fun outcome sent =>
      outcome.2.Tallied setting (visited ++ [halfAt setting.split depth]) ∧
        (∃ node : AVLLocalNode, node.key = key ∧ node.depth = depth ∧
          outcome.2.local_ = omap.local_ ++ [node] ∧ outcome.1 = node) ∧
        sent = visitRequests setting.stores [halfAt setting.split depth]) := by
  unfold moveToLocal
  rw [tallied.between.halfForDepth]
  refine Prog.emits_bind (PathORAM.sends_readPathToStash _ leaf) ?_
  rintro fetched _ ⟨fetchedId, rfl⟩
  refine Prog.emits_bind (fetched.sends_extractFromStash key) ?_
  rintro ⟨block, extracted⟩ _ ⟨extractedId, rfl⟩
  refine Prog.emits_bind (sends_decode _) ?_
  rintro avl _ rfl
  refine Prog.emits_bind (extracted.sends_evictStash [leaf]) ?_
  rintro written _ ⟨writtenId, rfl⟩
  have fetchedStore := fetchedId.trans (tallied.between.storeId_eq (halfAt setting.split depth))
  have extractedStore : extracted.storage.storeId = _ := extractedId.trans fetchedStore
  have writtenStore := writtenId.trans extractedStore
  have moved := ((tallied.withOrams (tallied.between.set writtenStore)).withLocal
    (omap.local_ ++ [{ key, leaf := block.leaf, avl, parentKey, depth }])).countOp depth
  refine Prog.emits_pure ⟨moved, ⟨_, rfl, rfl, ?_, rfl⟩, ?_⟩
  · unfold AVLOmap.countOp
    split
    · split <;> rfl
    · rfl
  · simp [visitRequests, pathAccesses, tallied.between.storeId_eq, extractedStore]

theorem Tallied.sends_trackedDummy (tallied : omap.Tallied setting visited) (depth : Int) :
    Sends (omap.trackedDummy depth) (fun omap' sent =>
      omap'.Tallied setting (visited ++ [halfAt setting.split depth]) ∧
        sent = visitRequests setting.stores [halfAt setting.split depth]) := by
  unfold trackedDummy
  rw [tallied.between.halfForDepth]
  refine Prog.emits_bind (tallied.between.sends_dummyAccess _) ?_
  rintro orams _ ⟨between, rfl⟩
  exact Prog.emits_pure ⟨(tallied.withOrams between).countOp depth, List.append_nil _⟩

/-! ## The ways down -/

omit [Cipher] in
theorem Tallied.modifyLast (tallied : omap.Tallied setting visited)
    (f : AVLLocalNode → AVLLocalNode) : (omap.modifyLast f).Tallied setting visited :=
  tallied.withLocal _

/-- After a way down: one visit to each of some depths, one below the other. -/
def Descended (setting : TreeSetting) (visited : List Half) (depth : Int) (steps : Nat)
    (omap' : AVLOmap) (sent : List StorageReq) : Prop :=
  omap'.Tallied setting (visited ++ halvesBelow setting.split depth steps) ∧
    sent = visitRequests setting.stores (halvesBelow setting.split depth steps)

omit [Cipher] in
theorem Tallied.descended (tallied : omap.Tallied setting visited) (depth : Int) :
    Descended setting visited depth 0 omap [] :=
  ⟨by simpa [halvesBelow] using tallied, rfl⟩

omit [Cipher] in
/-- One more step in front. -/
theorem Descended.cons {depth : Int} {steps : Nat} {omap' : AVLOmap} {sent : List StorageReq}
    (descended : Descended setting (visited ++ [halfAt setting.split depth]) (depth + 1) steps
      omap' sent) :
    Descended setting visited depth (steps + 1) omap'
      (visitRequests setting.stores [halfAt setting.split depth] ++ sent) := by
  rcases descended with ⟨tallied, rfl⟩
  refine ⟨?_, (visitRequests_append _ _ _).symm⟩
  rwa [List.append_assoc] at tallied

theorem Tallied.sends_searchLoop (key : Int) (update : Option Bytes) (count : Nat)
    (d curKey curLeaf : Int) (tallied : omap.Tallied setting visited) :
    Sends (searchLoop key update count d curKey curLeaf omap) (fun outcome sent =>
      ∃ steps ≤ count, Descended setting visited d steps outcome.2 sent) := by
  induction count generalizing d curKey curLeaf omap visited with
  | zero => exact Prog.emits_pure ⟨0, le_refl 0, tallied.descended d⟩
  | succ count ih =>
      unfold searchLoop
      split
      · exact Prog.emits_pure ⟨0, Nat.zero_le _, tallied.descended d⟩
      · refine Prog.emits_bind (tallied.sends_moveToLocal _ _ _ _) ?_
        rintro ⟨node, moved⟩ _ ⟨movedTallied, _, rfl⟩
        dsimp only at movedTallied ⊢
        have goOn : ∀ nextKey nextLeaf, Sends
            (searchLoop key update count (d + 1) nextKey nextLeaf moved) (fun outcome sent =>
              ∃ steps ≤ count + 1, Descended setting visited d steps outcome.2
                (visitRequests setting.stores [halfAt setting.split d] ++ sent)) := by
          intro nextKey nextLeaf
          refine (ih (d + 1) nextKey nextLeaf movedTallied).mono ?_
          rintro outcome sent ⟨steps, within, descended⟩
          exact ⟨steps + 1, by omega, descended.cons⟩
        split
        · exact Prog.emits_pure ⟨1, by omega, ((movedTallied.modifyLast _).descended _).cons⟩
        · split
          · exact goOn _ _
          · exact goOn _ _

omit [Cipher] in
/-- Hanging a new node under the last one visits nothing. -/
theorem Tallied.sends_attachNew (tallied : omap.Tallied setting visited) (key : Int)
    (value : Bytes) (onLeft : Bool) (parentKey depth : Int) :
    Sends (omap.attachNew key value onLeft parentKey depth) (fun omap' sent =>
      omap'.Tallied setting visited ∧ sent = []) := by
  refine Prog.emits_bind (tallied.between.sends_assignLeaf _ _) ?_
  rintro ⟨leaf, orams⟩ _ ⟨between, rfl⟩
  exact Prog.emits_pure ⟨(tallied.withOrams between).withLocal _, rfl⟩

theorem Tallied.sends_insertLoop (key : Int) (value : Bytes) (count : Nat)
    (d curKey curLeaf : Int) (tallied : omap.Tallied setting visited) :
    Sends (insertLoop key value count d curKey curLeaf omap) (fun omap' sent =>
      ∃ steps ≤ count, Descended setting visited d steps omap' sent) := by
  induction count generalizing d curKey curLeaf omap visited with
  | zero => exact Prog.emits_pure ⟨0, le_refl 0, tallied.descended d⟩
  | succ count ih =>
      unfold insertLoop
      split
      · exact Prog.emits_pure ⟨0, Nat.zero_le _, tallied.descended d⟩
      · refine Prog.emits_bind (tallied.sends_moveToLocal _ _ _ _) ?_
        rintro ⟨node, moved⟩ _ ⟨movedTallied, _, rfl⟩
        dsimp only at movedTallied ⊢
        have goOn : ∀ nextKey nextLeaf, Sends
            (insertLoop key value count (d + 1) nextKey nextLeaf moved) (fun omap' sent =>
              ∃ steps ≤ count + 1, Descended setting visited d steps omap'
                (visitRequests setting.stores [halfAt setting.split d] ++ sent)) := by
          intro nextKey nextLeaf
          refine (ih (d + 1) nextKey nextLeaf movedTallied).mono ?_
          rintro omap' sent ⟨steps, within, descended⟩
          exact ⟨steps + 1, by omega, descended.cons⟩
        have attach : ∀ onLeft, Sends (moved.attachNew key value onLeft curKey (d + 1))
            (fun omap' sent => ∃ steps ≤ count + 1, Descended setting visited d steps omap'
              (visitRequests setting.stores [halfAt setting.split d] ++ sent)) := by
          intro onLeft
          refine (movedTallied.sends_attachNew key value onLeft curKey (d + 1)).mono ?_
          rintro omap' _ ⟨attached, rfl⟩
          exact ⟨1, by omega, (attached.descended _).cons⟩
        split
        · split
          · exact attach true
          · exact goOn _ _
        · split
          · exact attach false
          · exact goOn _ _

theorem Tallied.sends_successorLoop (count : Nat) (sd sKey sLeaf : Int)
    (tallied : omap.Tallied setting visited) :
    Sends (successorLoop count sd sKey sLeaf omap) (fun omap' sent =>
      ∃ steps ≤ count, Descended setting visited sd steps omap' sent ∧
        omap'.local_.length = omap.local_.length + steps) := by
  induction count generalizing sd sKey sLeaf omap visited with
  | zero => exact Prog.emits_pure ⟨0, le_refl 0, tallied.descended sd, rfl⟩
  | succ count ih =>
      unfold successorLoop
      refine Prog.emits_bind (tallied.sends_moveToLocal _ _ _ _) ?_
      rintro ⟨node, moved⟩ _ ⟨movedTallied, ⟨_, _, _, grown, _⟩, rfl⟩
      dsimp only at movedTallied grown ⊢
      split
      · exact Prog.emits_pure ⟨1, by omega, (movedTallied.descended _).cons, by simp [grown]⟩
      · refine (ih (sd + 1) node.avl.lKey node.avl.lLeaf movedTallied).mono ?_
        rintro omap' sent ⟨steps, within, descended, longer⟩
        refine ⟨steps + 1, by omega, descended.cons, ?_⟩
        rw [longer, grown, List.length_append, List.length_singleton]
        omega

theorem Tallied.sends_removeLoop (key : Int) (count : Nat) (d curKey curLeaf : Int)
    (tallied : omap.Tallied setting visited) :
    Sends (removeLoop key count d curKey curLeaf omap) (fun outcome sent =>
      ∃ steps ≤ count, Descended setting visited d steps outcome.2 sent ∧
        outcome.2.local_.length = omap.local_.length + steps) := by
  induction count generalizing d curKey curLeaf omap visited with
  | zero => exact Prog.emits_pure ⟨0, le_refl 0, tallied.descended d, rfl⟩
  | succ count ih =>
      unfold removeLoop
      split
      · exact Prog.emits_pure ⟨0, Nat.zero_le _, tallied.descended d, rfl⟩
      · refine Prog.emits_bind (tallied.sends_moveToLocal _ _ _ _) ?_
        rintro ⟨node, moved⟩ _ ⟨movedTallied, ⟨_, _, _, grown, _⟩, rfl⟩
        dsimp only at movedTallied grown ⊢
        have longer : moved.local_.length = omap.local_.length + 1 := by simp [grown]
        have goOn : ∀ nextKey nextLeaf, Sends
            (removeLoop key count (d + 1) nextKey nextLeaf moved) (fun outcome sent =>
              ∃ steps ≤ count + 1, Descended setting visited d steps outcome.2
                (visitRequests setting.stores [halfAt setting.split d] ++ sent) ∧
                outcome.2.local_.length = omap.local_.length + steps) := by
          intro nextKey nextLeaf
          refine (ih (d + 1) nextKey nextLeaf movedTallied).mono ?_
          rintro outcome sent ⟨steps, within, descended, grown'⟩
          exact ⟨steps + 1, by omega, descended.cons, by omega⟩
        split
        · split
          · refine Prog.emits_bind (movedTallied.sends_successorLoop _ _ _ _) ?_
            rintro omap' sent ⟨steps, within, descended, grown'⟩
            refine Prog.emits_pure ⟨steps + 1, by omega, ?_, ?_⟩
            · rw [List.append_nil]
              exact descended.cons
            · dsimp only
              omega
          · exact Prog.emits_pure ⟨1, by omega, (movedTallied.descended _).cons, longer⟩
        · split
          · exact goOn _ _
          · exact goOn _ _

/-! ## The way back up -/

omit [Cipher] in
theorem Tallied.rotate (tallied : omap.Tallied setting visited) (idx : Nat) (left : Bool) :
    (omap.rotate idx left).Tallied setting visited := by
  unfold AVLOmap.rotate
  dsimp only
  split
  · exact tallied
  · exact { tallied with }

omit [Cipher] in
theorem Tallied.balanceNode (tallied : omap.Tallied setting visited) (idx : Nat) :
    (omap.balanceNode idx).Tallied setting visited := by
  have rotateAt : ∀ left found, (omap.rotateAt? left found).Tallied setting visited := by
    intro left found
    cases found with
    | none => exact tallied
    | some idx => exact tallied.rotate idx left
  unfold AVLOmap.balanceNode
  dsimp only
  split
  · exact (rotateAt _ _).rotate _ _
  · split
    · exact (rotateAt _ _).rotate _ _
    · exact tallied

omit [Cipher] in
theorem Tallied.updateHeights (tallied : omap.Tallied setting visited) :
    omap.updateHeights.Tallied setting visited := tallied.withLocal _

omit [Cipher] in
theorem Tallied.balanceFound (tallied : omap.Tallied setting visited) (found : Option Nat) :
    (match found with
      | some idx => omap.balanceNode idx
      | none => omap).Tallied setting visited := by
  cases found with
  | some idx => exact tallied.balanceNode idx
  | none => exact tallied

omit [Cipher] in
theorem Tallied.rebalance (tallied : omap.Tallied setting visited) :
    omap.rebalance.Tallied setting visited := by
  have folded : ∀ (indices : List Nat) (omap : AVLOmap), omap.Tallied setting visited →
      (indices.foldl (fun omap i => omap.updateHeights.balanceNode i) omap).Tallied
        setting visited := by
    intro indices
    induction indices with
    | nil => exact fun _ tallied => tallied
    | cons i rest ih => exact fun _ tallied => ih _ (tallied.updateHeights.balanceNode i)
  exact (folded _ omap tallied).updateHeights

omit [Cipher] in
theorem Tallied.unlink (tallied : omap.Tallied setting visited) (idx : Nat) :
    (omap.unlink idx).Tallied setting visited ∧
      (omap.unlink idx).local_.length ≤ omap.local_.length := by
  have shorter : ∀ nodes : List AVLLocalNode, nodes.length = omap.local_.length →
      (nodes.eraseIdx idx).length ≤ omap.local_.length := by
    intro nodes same
    rw [← same]
    exact List.length_eraseIdx_le _ _
  unfold AVLOmap.unlink
  dsimp only
  split
  · exact ⟨{ tallied with }, shorter _ rfl⟩
  · exact ⟨{ tallied with }, shorter _ (length_modifyFirst _ _ _)⟩

omit [Cipher] in
theorem Tallied.deleteTarget (tallied : omap.Tallied setting visited)
    (target : Option RemoveTarget) :
    (omap.deleteTarget target).Tallied setting visited ∧
      (omap.deleteTarget target).local_.length ≤ omap.local_.length := by
  rcases target with _ | target
  · exact ⟨tallied, le_refl _⟩
  · unfold AVLOmap.deleteTarget
    dsimp only
    split
    · have renamed : (omap.renameTarget target.idx).Tallied setting visited := { tallied with }
      have sameLength : (omap.renameTarget target.idx).local_.length = omap.local_.length := by
        unfold renameTarget
        dsimp only
        split <;> simp [length_modifyFirst]
      rcases renamed.unlink (omap.local_.length - 1) with ⟨unlinked, shorter⟩
      exact ⟨unlinked, sameLength ▸ shorter⟩
    · exact tallied.unlink target.idx

theorem Tallied.sends_fetchUnlessLocal (tallied : omap.Tallied setting visited)
    (key leaf parentKey depth : Int) :
    Sends (omap.fetchUnlessLocal key leaf parentKey depth) (fun omap' sent =>
      omap'.Tallied setting (visited ++ [halfAt setting.split depth]) ∧
        sent = visitRequests setting.stores [halfAt setting.split depth]) := by
  unfold fetchUnlessLocal
  split
  · refine Prog.emits_bind (tallied.sends_moveToLocal key leaf parentKey depth) ?_
    rintro ⟨node, moved⟩ _ ⟨movedTallied, _, rfl⟩
    exact Prog.emits_pure ⟨movedTallied, List.append_nil _⟩
  · exact tallied.sends_trackedDummy depth

/-- Two more visits. -/
def TwoVisits (setting : TreeSetting) (visited : List Half) (omap' : AVLOmap)
    (sent : List StorageReq) : Prop :=
  ∃ first second, omap'.Tallied setting (visited ++ [first, second]) ∧
    sent = visitRequests setting.stores [first, second]

theorem Tallied.sends_dummyTwice (tallied : omap.Tallied setting visited) (depth : Int)
    (depth' : AVLOmap → Int) :
    Sends (do let omap ← omap.trackedDummy depth; omap.trackedDummy (depth' omap))
      (TwoVisits setting visited) := by
  refine Prog.emits_bind (tallied.sends_trackedDummy depth) ?_
  rintro omap' _ ⟨tallied', rfl⟩
  refine (tallied'.sends_trackedDummy (depth' omap')).mono ?_
  rintro omap'' _ ⟨tallied'', rfl⟩
  rw [List.append_assoc] at tallied''
  exact ⟨_, _, tallied'', (visitRequests_append _ _ _).symm⟩

theorem Tallied.sends_fetchAndBalance (tallied : omap.Tallied setting visited)
    (node : AVLLocalNode) :
    Sends (omap.fetchAndBalance node) (TwoVisits setting visited) := by
  unfold fetchAndBalance
  refine Prog.emits_bind (tallied.sends_fetchUnlessLocal _ _ _ _) ?_
  rintro omap' _ ⟨tallied', rfl⟩
  refine Prog.emits_bind (tallied'.sends_fetchUnlessLocal _ _ _ _) ?_
  rintro omap'' _ ⟨tallied'', rfl⟩
  rw [List.append_assoc] at tallied''
  refine Prog.emits_pure ⟨_, _, (tallied''.updateHeights.balanceFound _).updateHeights, ?_⟩
  rw [List.append_nil]
  exact (visitRequests_append _ _ _).symm

theorem Tallied.sends_backUpStep (tallied : omap.Tallied setting visited) (key : Int) :
    Sends (omap.backUpStep key) (TwoVisits setting visited) := by
  unfold backUpStep
  split
  · exact tallied.sends_dummyTwice _ (fun omap => omap.orams.splitDepth)
  · rename_i idx _
    have refreshed := tallied.withLocal (omap.local_.modify idx (refreshHeights omap.local_))
    dsimp only
    split
    · exact refreshed.sends_dummyTwice _ (fun _ => _)
    · exact refreshed.sends_fetchAndBalance _

theorem Tallied.sends_backUp (keys : List Int) (tallied : omap.Tallied setting visited) :
    Sends (backUp keys omap) (fun omap' sent => ∃ more : List Half,
      more.length = 2 * keys.length ∧ omap'.Tallied setting (visited ++ more) ∧
        sent = visitRequests setting.stores more) := by
  induction keys generalizing omap visited with
  | nil => exact Prog.emits_pure ⟨[], rfl, by simpa using tallied, rfl⟩
  | cons key rest ih =>
      refine Prog.emits_bind (tallied.sends_backUpStep key) ?_
      rintro omap' _ ⟨first, second, tallied', rfl⟩
      refine (ih tallied').mono ?_
      rintro omap'' _ ⟨more, lengthEq, tallied'', rfl⟩
      refine ⟨[first, second] ++ more, ?_, ?_, (visitRequests_append _ _ _).symm⟩
      · simp only [List.length_append, List.length_cons, List.length_nil, lengthEq]
        omega
      · rwa [List.append_assoc] at tallied''

/-! ## Padding -/

end AVLOmap

/-- The dummy visits that fill the budgets of an AVL operation up. -/
def TreeSetting.avlPadding (setting : TreeSetting) (visited : List Half) : List Half :=
  if setting.odsMode then []
  else if 0 < setting.split then
    List.replicate (min setting.split (3 * setting.maxHeight) - visited.count .upper).toNat .upper ++
      List.replicate (3 * setting.maxHeight - min setting.split (3 * setting.maxHeight) -
        visited.count .lower).toNat .lower
  else List.replicate (3 * setting.maxHeight - visited.length).toNat .lower

namespace AVLOmap

variable {omap : AVLOmap} {setting : TreeSetting} {visited : List Half} [Cipher]

theorem Tallied.sends_padUnlessOds (tallied : omap.Tallied setting visited) :
    Sends (omap.padUnlessOds (3 * omap.maxHeight)) (fun omap' sent =>
      omap'.Tallied setting (visited ++ setting.avlPadding visited) ∧
        sent = visitRequests setting.stores (setting.avlPadding visited)) := by
  unfold padUnlessOds padToBudget TreeSetting.avlPadding
  rw [tallied.odsMode_eq, tallied.maxHeight_eq, tallied.between.splitDepth_eq,
    tallied.upperOpCount_eq, tallied.lowerOpCount_eq, tallied.opCount_eq]
  split
  · exact Prog.emits_pure ⟨by simpa using tallied, rfl⟩
  · by_cases split : 0 < setting.split
    · simp only [if_pos split]
      set upperPad := min setting.split (3 * setting.maxHeight) - (visited.count .upper : Int)
      set lowerPad := 3 * setting.maxHeight - min setting.split (3 * setting.maxHeight) -
        (visited.count .lower : Int)
      have clipped : ∀ pad : Int, (max 0 pad).toNat = pad.toNat := by
        intro pad
        omega
      rw [clipped, clipped]
      refine Prog.emits_bind (tallied.between.sends_dummyAccesses .upper upperPad.toNat) ?_
      rintro orams _ ⟨between, rfl⟩
      refine Prog.emits_bind (between.sends_dummyAccesses .lower lowerPad.toNat) ?_
      rintro orams' _ ⟨between', rfl⟩
      refine Prog.emits_pure ⟨⟨⟨between', rfl, rfl⟩, ?_, ?_, ?_, fun noSplit => absurd split noSplit⟩,
        ?_⟩
      · simp [split]
      · simp [split, List.count_replicate]
        omega
      · simp [split, List.count_replicate]
        omega
      · rw [visitRequests_append, List.append_nil]
    · simp only [if_neg split, Nat.cast_zero, zero_add]
      set pad := 3 * setting.maxHeight - (visited.length : Int) with padDef
      have clipped : (max 0 pad).toNat = pad.toNat := by omega
      rw [clipped]
      refine Prog.emits_bind (tallied.between.sends_dummyAccesses .lower pad.toNat) ?_
      rintro orams _ ⟨between, rfl⟩
      refine Prog.emits_pure ⟨⟨⟨between, rfl, rfl⟩, ?_, ?_, ?_, ?_⟩, ?_⟩
      · simp only [if_neg split, List.length_append, List.length_replicate]
        omega
      · simp [split]
      · simp [split]
      · intro noSplit half mem
        rcases List.mem_append.mp mem with before | padding
        · exact tallied.lower_of_noSplit noSplit half before
        · exact List.eq_of_mem_replicate padding
      · rw [List.append_nil]

/-! ## Whole operations -/

omit [Cipher] in
theorem sends_drawLocalLeaves (nodes : List AVLLocalNode) {orams : SplitOram}
    (between : orams.Between setting.split setting.stores) :
    Sends (drawLocalLeaves nodes orams) (fun outcome sent =>
      outcome.2.Between setting.split setting.stores ∧ sent = []) := by
  induction nodes with
  | nil => exact Prog.emits_pure ⟨between, rfl⟩
  | cons node rest ih =>
      refine Prog.emits_bind ih ?_
      rintro ⟨drawn, orams'⟩ _ ⟨between', rfl⟩
      refine Prog.emits_bind (between'.sends_assignLeaf _ _) ?_
      rintro ⟨leaf, orams''⟩ _ ⟨between'', rfl⟩
      exact Prog.emits_pure ⟨between'', rfl⟩

omit [Cipher] in
theorem Tallied.sends_reassignLeaves (tallied : omap.Tallied setting visited) :
    Sends omap.reassignLeaves (fun omap' sent => omap'.Tallied setting visited ∧ sent = []) := by
  refine Prog.emits_bind (sends_drawLocalLeaves omap.local_ tallied.between) ?_
  rintro ⟨nodes, orams⟩ _ ⟨between, rfl⟩
  exact Prog.emits_pure ⟨{ tallied with between }, rfl⟩

omit [Cipher] in
theorem Tallied.flushLocalToStash (tallied : omap.Tallied setting visited) :
    omap.flushLocalToStash.Tallied setting visited := by
  have flushed : ∀ (nodes : List AVLLocalNode) (orams : SplitOram),
      orams.Between setting.split setting.stores →
        (nodes.foldl (fun orams node => orams.addToStash (orams.halfForDepth node.depth)
          { key := node.key, leaf := node.leaf, value := node.avl.encode }) orams).Between
            setting.split setting.stores := by
    intro nodes
    induction nodes with
    | nil => exact fun _ between => between
    | cons node rest ih => exact fun _ between => ih _ (between.addToStash _ _)
  exact { tallied with between := flushed omap.local_ omap.orams tallied.between }

/-- After an operation: some visits, not more than `3 * max_height_`, and the padding. -/
def Operated (setting : TreeSetting) (omap' : AVLOmap) (sent : List StorageReq) : Prop :=
  ∃ visited : List Half, visited.length ≤ 3 * setting.maxHeight.toNat ∧
    omap'.Tallied setting (visited ++ setting.avlPadding visited) ∧
      sent = visitRequests setting.stores (visited ++ setting.avlPadding visited)

/-- The end of an operation. -/
theorem Tallied.sends_finish (tallied : omap.Tallied setting visited)
    (within : visited.length ≤ 3 * setting.maxHeight.toNat) {budget : Int}
    (budget_eq : budget = 3 * setting.maxHeight) :
    Sends (omap.padUnlessOds budget) (fun omap' sent =>
      Operated setting omap' (visitRequests setting.stores visited ++ sent)) := by
  rw [budget_eq, ← tallied.maxHeight_eq]
  refine tallied.sends_padUnlessOds.mono ?_
  rintro omap' _ ⟨tallied', rfl⟩
  exact ⟨visited, within, tallied', (visitRequests_append _ _ _).symm⟩

theorem Fixed.sends_search (fixed : omap.Fixed setting) (key : Int)
    (update : Option Bytes) :
    Sends (omap.search key update) (fun outcome sent => Operated setting outcome.2 sent) := by
  have reset := fixed.resetOpCounts
  have budget_eq : 3 * omap.resetOpCounts.maxHeight = 3 * setting.maxHeight := by
    rw [reset.maxHeight_eq]
  unfold search
  dsimp only
  split
  · refine Prog.emits_bind (reset.sends_finish (Nat.zero_le _) budget_eq) ?_
    intro padded sent operated
    refine Prog.emits_pure ?_
    rw [List.append_nil]
    exact operated
  · refine Prog.emits_bind ((reset.withLocal []).sends_searchLoop key update _ _ _ _) ?_
    rintro ⟨result, found⟩ _ ⟨steps, within, foundTallied, rfl⟩
    rw [reset.maxHeight_eq] at within
    refine Prog.emits_bind foundTallied.sends_reassignLeaves ?_
    rintro reassigned _ ⟨reassignedTallied, rfl⟩
    refine Prog.emits_bind (reassignedTallied.flushLocalToStash.sends_finish
      (by rw [List.nil_append, length_halvesBelow]; omega) budget_eq) ?_
    intro padded sent operated
    refine Prog.emits_pure ?_
    rw [List.append_nil, List.nil_append]
    exact operated

theorem Fixed.sends_dummyAccess (fixed : omap.Fixed setting)
    (noOds : setting.odsMode = false) :
    Sends omap.dummyAccess (Operated setting) := by
  have reset := fixed.resetOpCounts
  have padded := reset.sends_finish (Nat.zero_le _) (congrArg (3 * ·) reset.maxHeight_eq)
  rw [padUnlessOds, reset.odsMode_eq, noOds] at padded
  exact padded

theorem Fixed.sends_insert (fixed : omap.Fixed setting) (key : Int)
    (value : Bytes) : Sends (omap.insert key value) (Operated setting) := by
  have reset := fixed.resetOpCounts
  have budget_eq : 3 * omap.resetOpCounts.maxHeight = 3 * setting.maxHeight := by
    rw [reset.maxHeight_eq]
  unfold insert
  dsimp only
  split
  · refine Prog.emits_bind (reset.between.sends_assignLeaf _ _) ?_
    rintro ⟨leaf, orams⟩ _ ⟨between, rfl⟩
    have rooted : Tallied { omap.resetOpCounts with
        orams := orams.addToStash (omap.resetOpCounts.orams.halfForDepth 0)
          { key, leaf, value := ({ data := value } : AVLNodeData).encode }
        rootKey := key
        rootLeaf := leaf } setting [] := { reset with between := between.addToStash _ _ }
    exact rooted.sends_finish (Nat.zero_le _) budget_eq
  · refine Prog.emits_bind ((reset.withLocal []).sends_insertLoop key value _ _ _ _) ?_
    rintro inserted _ ⟨steps, within, insertedTallied, rfl⟩
    rw [reset.maxHeight_eq] at within
    refine Prog.emits_bind insertedTallied.updateHeights.rebalance.sends_reassignLeaves ?_
    rintro reassigned _ ⟨reassignedTallied, rfl⟩
    exact reassignedTallied.flushLocalToStash.sends_finish
      (by rw [List.nil_append, length_halvesBelow]; omega) budget_eq

theorem Fixed.sends_remove (fixed : omap.Fixed setting) (key : Int) :
    Sends (omap.remove key) (Operated setting) := by
  have reset := fixed.resetOpCounts
  have budget_eq : 3 * omap.resetOpCounts.maxHeight = 3 * setting.maxHeight := by
    rw [reset.maxHeight_eq]
  unfold remove
  dsimp only
  split
  · exact reset.sends_finish (Nat.zero_le _) budget_eq
  · refine Prog.emits_bind ((reset.withLocal []).sends_removeLoop key _ _ _ _) ?_
    rintro ⟨target, found⟩ _ ⟨steps, within, ⟨foundTallied, rfl⟩, grown⟩
    dsimp only at foundTallied grown ⊢
    rw [reset.maxHeight_eq] at within
    rw [List.length_nil, zero_add] at grown
    rcases foundTallied.deleteTarget target with ⟨deletedTallied, shorter⟩
    refine Prog.emits_bind (deletedTallied.sends_backUp _) ?_
    rintro balanced _ ⟨more, lengthEq, balancedTallied, rfl⟩
    refine Prog.emits_bind balancedTallied.sends_reassignLeaves ?_
    rintro reassigned _ ⟨reassignedTallied, rfl⟩
    rw [List.length_reverse, List.length_map] at lengthEq
    have withinBudget : ([] ++ halvesBelow setting.split 0 steps ++ more).length ≤
        3 * setting.maxHeight.toNat := by
      simp only [List.nil_append, List.length_append, length_halvesBelow, lengthEq]
      omega
    refine (reassignedTallied.flushLocalToStash.sends_finish withinBudget budget_eq).mono ?_
    intro omap' sent operated
    rw [visitRequests_append, List.nil_append, List.append_assoc] at operated
    exact operated

end AVLOmap

end TieredOmap
