import TieredOMap.Omap.Visits
import TieredOMap.Omap.BplusStep
import TieredOMap.Oram.Stored

/-!
# The paths a B+ operation visits

A traversal visits two paths for each level: the node and a sibling of the child it goes to, or a
dummy. The operations only change nodes locally before they put them back, so these are all visits
besides the padding. How far down a traversal gets depends on the nodes that are stored: `Leads`
says where they lead a key to.
-/

namespace TieredOmap

/-- The visits at some internal nodes, one below the other: the node and the level below it. -/
def pairsBelow (split : Int) : Int → Nat → List Half
  | _, 0 => []
  | depth, steps + 1 =>
      halfAt split depth :: halfAt split (depth + 1) :: pairsBelow split (depth + 1) steps

@[simp]
theorem length_pairsBelow (split depth : Int) (steps : Nat) :
    (pairsBelow split depth steps).length = 2 * steps := by
  induction steps generalizing depth with
  | zero => rfl
  | succ steps ih => simp [pairsBelow, ih, Nat.mul_add]

/-- The visits of a traversal: some internal nodes, and perhaps a tree leaf with a dummy. -/
def traverseVisits (split depth : Int) (steps : Nat) (atLeaf : Bool) : List Half :=
  pairsBelow split depth steps ++
    if atLeaf then [halfAt split (depth + steps), halfAt split (depth + steps)] else []

theorem traverseVisits_succ (split depth : Int) (steps : Nat) (atLeaf : Bool) :
    traverseVisits split depth (steps + 1) atLeaf =
      [halfAt split depth, halfAt split (depth + 1)] ++
        traverseVisits split (depth + 1) steps atLeaf := by
  have shifted : depth + ((steps + 1 : Nat) : Int) = depth + 1 + (steps : Int) := by omega
  rw [traverseVisits, traverseVisits, pairsBelow, shifted]
  rfl

/-- Without a split, a traversal stays in one half. -/
theorem lower_of_mem_traverseVisits {split : Int} (noSplit : ¬0 < split) {depth : Int}
    {steps : Nat} {atLeaf : Bool} : ∀ half ∈ traverseVisits split depth steps atLeaf,
      half = .lower := by
  induction steps generalizing depth with
  | zero =>
      intro half mem
      cases atLeaf <;>
        simp_all [traverseVisits, pairsBelow, halfAt_of_noSplit noSplit]
  | succ steps ih =>
      intro half mem
      rw [traverseVisits_succ, halfAt_of_noSplit noSplit, halfAt_of_noSplit noSplit] at mem
      rcases List.mem_append.mp mem with here | below
      · simpa using here
      · exact ih half below

/-- The depth of the tree leaf that a traversal ends at, if it ends at one. -/
def lastDepth (depth : Int) (steps : Nat) (atLeaf : Bool) : Option Int :=
  if atLeaf then some (depth + steps) else none

theorem lastDepth_succ (depth : Int) (steps : Nat) (atLeaf : Bool) :
    lastDepth depth (steps + 1) atLeaf = lastDepth (depth + 1) steps atLeaf := by
  have shifted : depth + ((steps + 1 : Nat) : Int) = depth + 1 + (steps : Int) := by omega
  rw [lastDepth, lastDepth, shifted]

namespace BPlusOmap

/--
Where the stored nodes lead a key to, from the node `id` at a depth on: the depth of a tree leaf, or
none if there is no node, or none within the height.
-/
inductive Leads [Cipher] (orams : SplitOram) (maxHeight key : Int) :
    (id depth : Int) → Option Int → Prop
  | nowhere {depth : Int} : Leads orams maxHeight key invalidKey depth none
  | bottom {id depth : Int} (deep : maxHeight ≤ depth) : Leads orams maxHeight key id depth none
  | leaf {id depth : Int} {block : Block} (isNode : id ≠ invalidKey) (within : depth < maxHeight)
      (stored : orams.Stored (orams.halfForDepth depth) block) (isBlock : block.key = id)
      (isLeaf : (BPlusNode.decode block.value).isLeaf = true) :
      Leads orams maxHeight key id depth (some depth)
  | down {id depth : Int} {block : Block} {last : Option Int} (isNode : id ≠ invalidKey)
      (within : depth < maxHeight)
      (stored : orams.Stored (orams.halfForDepth depth) block) (isBlock : block.key = id)
      (internal : (BPlusNode.decode block.value).isLeaf = false)
      (below : Leads orams maxHeight key ((BPlusNode.decode block.value).childIds.getD
        ((BPlusNode.decode block.value).findChildIndex key) invalidKey) (depth + 1) last) :
      Leads orams maxHeight key id depth last

/-- The set-up of the object. -/
structure Fixed (omap : BPlusOmap) (setting : TreeSetting) : Prop where
  between : omap.orams.Between setting.split setting.stores
  odsMode_eq : omap.odsMode = setting.odsMode
  maxHeight_eq : omap.maxHeight = setting.maxHeight

/-- The set-up of the object, and its counters after some visits. -/
structure Tallied (omap : BPlusOmap) (setting : TreeSetting) (visited : List Half) : Prop
    extends omap.Fixed setting where
  opCount_eq : omap.opCount = visited.length
  upperOpCount_eq : omap.upperOpCount = visited.count .upper
  lowerOpCount_eq : omap.lowerOpCount = visited.count .lower

variable {omap : BPlusOmap} {setting : TreeSetting} {visited : List Half}

theorem Tallied.withOrams (tallied : omap.Tallied setting visited) {orams : SplitOram}
    (between : orams.Between setting.split setting.stores) :
    { omap with orams }.Tallied setting visited :=
  { tallied with between }

theorem Tallied.withLocal (tallied : omap.Tallied setting visited)
    (local_ : List BPlusLocalNode) : { omap with local_ }.Tallied setting visited :=
  { tallied with }

theorem Fixed.resetOpCounts (fixed : omap.Fixed setting) :
    omap.resetOpCounts.Tallied setting [] :=
  { fixed with opCount_eq := rfl, upperOpCount_eq := rfl, lowerOpCount_eq := rfl }

theorem countOp_orams (omap : BPlusOmap) (depth : Int) :
    (omap.countOp depth).orams = omap.orams := by
  unfold countOp
  split <;> rfl

theorem Tallied.countOp (tallied : omap.Tallied setting visited) (depth : Int) :
    (omap.countOp depth).Tallied setting (visited ++ [halfAt setting.split depth]) := by
  have ops := tallied.opCount_eq
  have upper := tallied.upperOpCount_eq
  have lower := tallied.lowerOpCount_eq
  unfold BPlusOmap.countOp
  rw [tallied.between.halfForDepth]
  rcases halfAt setting.split depth with _ | _
  · refine { tallied with opCount_eq := ?_, upperOpCount_eq := ?_, lowerOpCount_eq := ?_ } <;>
      simp [ops, upper, lower]
  · refine { tallied with opCount_eq := ?_, upperOpCount_eq := ?_, lowerOpCount_eq := ?_ } <;>
      simp [ops, upper, lower]

variable [Cipher]

theorem Tallied.sends_fetchNode (tallied : omap.Tallied setting visited) (id leaf depth : Int) :
    Sends (omap.fetchNode id leaf depth) (fun outcome sent =>
      outcome.2.2.Tallied setting (visited ++ [halfAt setting.split depth]) ∧
        sent = visitRequests setting.stores [halfAt setting.split depth]) := by
  unfold fetchNode
  rw [tallied.between.halfForDepth]
  refine Prog.emits_bind (PathORAM.sends_readPathToStash _ leaf) ?_
  rintro fetched _ ⟨fetchedId, rfl⟩
  refine Prog.emits_bind (fetched.sends_extractFromStash id) ?_
  rintro ⟨block, extracted⟩ _ ⟨extractedId, rfl⟩
  refine Prog.emits_bind (extracted.sends_evictStash [leaf]) ?_
  rintro written _ ⟨writtenId, rfl⟩
  have fetchedStore := fetchedId.trans (tallied.between.storeId_eq (halfAt setting.split depth))
  have extractedStore : extracted.storage.storeId = _ := extractedId.trans fetchedStore
  have writtenStore := writtenId.trans extractedStore
  refine Prog.emits_pure ⟨(tallied.withOrams (tallied.between.set writtenStore)).countOp depth, ?_⟩
  simp [visitRequests, pathAccesses, tallied.between.storeId_eq, extractedStore]

theorem Tallied.sends_moveToLocal (tallied : omap.Tallied setting visited)
    (id leaf parentId depth : Int) :
    Sends (omap.moveToLocal id leaf parentId depth) (fun outcome sent =>
      outcome.2.Tallied setting (visited ++ [halfAt setting.split depth]) ∧
        sent = visitRequests setting.stores [halfAt setting.split depth]) := by
  refine Prog.emits_bind (tallied.sends_fetchNode id leaf depth) ?_
  rintro ⟨leaf', node, fetched⟩ _ ⟨fetchedTallied, rfl⟩
  exact Prog.emits_pure ⟨{ fetchedTallied with }, List.append_nil _⟩

theorem Tallied.sends_dummyAt (tallied : omap.Tallied setting visited) (depth : Int) :
    Sends (omap.dummyAt depth) (fun omap' sent =>
      omap'.Tallied setting (visited ++ [halfAt setting.split depth]) ∧
        sent = visitRequests setting.stores [halfAt setting.split depth]) := by
  unfold dummyAt
  rw [tallied.between.halfForDepth]
  refine Prog.emits_bind (tallied.between.sends_dummyAccess _) ?_
  rintro orams _ ⟨between, rfl⟩
  exact Prog.emits_pure ⟨(tallied.withOrams between).countOp depth, List.append_nil _⟩

theorem Tallied.sends_readSibling (tallied : omap.Tallied setting visited) (node : BPlusNode)
    (idx : Nat) (depth : Int) :
    Sends (omap.readSibling node idx depth) (fun omap' sent =>
      omap'.Tallied setting (visited ++ [halfAt setting.split depth]) ∧
        sent = visitRequests setting.stores [halfAt setting.split depth]) := by
  unfold readSibling
  split
  · refine Prog.emits_bind (tallied.sends_fetchNode _ _ depth) ?_
    rintro ⟨leaf', node', fetched⟩ _ ⟨fetchedTallied, rfl⟩
    exact Prog.emits_pure ⟨{ fetchedTallied with }, List.append_nil _⟩
  · exact tallied.sends_dummyAt depth

/-! ## Where a traversal goes -/

theorem yields_fetchNode (omap : BPlusOmap) (id leaf depth : Int) :
    Yields (omap.fetchNode id leaf depth) (fun outcome =>
      (∃ block, omap.orams.Stored (omap.orams.halfForDepth depth) block ∧ block.key = id ∧
        outcome.2.1 = BPlusNode.decode block.value) ∧
      SplitOram.NothingNew omap.orams outcome.2.2.orams) := by
  unfold fetchNode
  refine Prog.ends_bind (PathORAM.yields_readPathToStash _ leaf) ?_
  intro fetched fetchedSame
  refine Prog.ends_bind (fetched.yields_extractFromStash id) ?_
  rintro ⟨block, extracted⟩ ⟨isBlock, stored, extractedSame⟩
  refine Prog.ends_bind (extracted.yields_evictStash [leaf]) ?_
  intro written writtenSame
  refine Prog.ends_pure ⟨⟨block, fetchedSame block stored, isBlock, rfl⟩, ?_⟩
  have same := SplitOram.nothingNew_set ((fetchedSame.trans extractedSame).trans writtenSame)
  rwa [countOp_orams]

theorem yields_moveToLocal (omap : BPlusOmap) (id leaf parentId depth : Int) :
    Yields (omap.moveToLocal id leaf parentId depth) (fun outcome =>
      (∃ block, omap.orams.Stored (omap.orams.halfForDepth depth) block ∧ block.key = id ∧
        outcome.1 = BPlusNode.decode block.value) ∧
      SplitOram.NothingNew omap.orams outcome.2.orams) := by
  refine Prog.ends_bind (omap.yields_fetchNode id leaf depth) ?_
  rintro ⟨leaf', node, fetched⟩ ⟨taken, same⟩
  exact Prog.ends_pure ⟨taken, same⟩

theorem yields_readSibling (omap : BPlusOmap) (node : BPlusNode) (idx : Nat) (depth : Int) :
    Yields (omap.readSibling node idx depth) (fun omap' =>
      SplitOram.NothingNew omap.orams omap'.orams) := by
  unfold readSibling
  split
  · refine Prog.ends_bind (omap.yields_fetchNode _ _ depth) ?_
    rintro ⟨leaf', node', fetched⟩ ⟨_, same⟩
    exact Prog.ends_pure same
  · refine Prog.ends_bind (omap.orams.yields_dummyAccess _) ?_
    intro orams same
    refine Prog.ends_pure ?_
    rwa [countOp_orams]

/-- After a traversal from a depth, which ends at a depth that `way` allows. -/
def Traversed (setting : TreeSetting) (visited : List Half) (way : Option Int → Prop) (depth : Int)
    (count : Nat) (omap' : BPlusOmap) (sent : List StorageReq) : Prop :=
  ∃ steps atLeaf, steps + atLeaf.toNat ≤ count ∧ way (lastDepth depth steps atLeaf) ∧
    omap'.Tallied setting (visited ++ traverseVisits setting.split depth steps atLeaf) ∧
      sent = visitRequests setting.stores (traverseVisits setting.split depth steps atLeaf)

omit [Cipher] in
theorem Tallied.traversed (tallied : omap.Tallied setting visited) {way : Option Int → Prop}
    (depth : Int) (count : Nat) (endsHere : way none) :
    Traversed setting visited way depth count omap [] :=
  ⟨0, false, Nat.zero_le _, endsHere, by simpa [traverseVisits, pairsBelow] using tallied, rfl⟩

/-- A traversal goes where the nodes that were stored when it began lead it. -/
theorem Tallied.sends_traverseLoop (key : Int) (count : Nat) (d curId curLeaf : Int)
    (tallied : omap.Tallied setting visited) {start : SplitOram}
    (splitEq : start.splitDepth = setting.split)
    (same : SplitOram.NothingNew start omap.orams) (nonneg : 0 ≤ d)
    (inHeight : d + count = (setting.maxHeight.toNat : Int)) :
    Sends (traverseLoop key count d curId curLeaf omap)
      (Traversed setting visited (Leads start setting.maxHeight key curId d) d count) := by
  induction count generalizing d curId curLeaf omap visited with
  | zero => exact Prog.emits_pure (tallied.traversed d 0 (.bottom (by omega)))
  | succ count ih =>
      unfold traverseLoop
      split
      · rename_i nowhere
        exact Prog.emits_pure (tallied.traversed d _ (nowhere ▸ .nowhere))
      · rename_i isNode
        have within : d < setting.maxHeight := by omega
        have sameHalf : omap.orams.halfForDepth d = start.halfForDepth d := by
          rw [SplitOram.halfForDepth, SplitOram.halfForDepth, splitEq,
            tallied.between.splitDepth_eq]
        refine Prog.emits_bind ((tallied.sends_moveToLocal curId curLeaf omap.lastId d).and_ends
          (omap.yields_moveToLocal curId curLeaf omap.lastId d)) ?_
        rintro ⟨node, moved⟩ _ ⟨⟨movedTallied, rfl⟩, ⟨block, stored, isBlock, rfl⟩, movedSame⟩
        rw [sameHalf] at stored
        have storedFirst : start.Stored (start.halfForDepth d) block := same _ block stored
        dsimp only at movedTallied movedSame ⊢
        split
        · rename_i isLeaf
          refine (movedTallied.sends_dummyAt d).mono ?_
          rintro omap' _ ⟨ended, rfl⟩
          rw [List.append_assoc] at ended
          refine ⟨0, true, by simp, ?_, ?_, ?_⟩
          · simpa [lastDepth] using .leaf isNode within storedFirst isBlock isLeaf
          · simpa [traverseVisits, pairsBelow] using ended
          · rw [← visitRequests_append]
            simp [traverseVisits, pairsBelow]
        · rename_i internal
          refine Prog.emits_bind ((movedTallied.sends_readSibling _ _ (d + 1)).and_ends
            (moved.yields_readSibling _ _ (d + 1))) ?_
          rintro read _ ⟨⟨readTallied, rfl⟩, readSame⟩
          rw [List.append_assoc] at readTallied
          refine (ih (d + 1) _ _ readTallied ((same.trans movedSame).trans readSame) (by omega)
            (by omega)).mono ?_
          rintro omap' _ ⟨steps, atLeaf, bounded, below, ended, rfl⟩
          refine ⟨steps + 1, atLeaf, by omega, ?_, ?_, ?_⟩
          · rw [lastDepth_succ]
            exact .down isNode within storedFirst isBlock (by simpa using internal) below
          · rw [List.append_assoc] at ended
            rwa [traverseVisits_succ]
          · rw [traverseVisits_succ, visitRequests_append, ← List.append_assoc,
              ← visitRequests_append]
            rfl

omit [Cipher] in
theorem length_traverseVisits (split depth : Int) (steps : Nat) (atLeaf : Bool) :
    (traverseVisits split depth steps atLeaf).length = 2 * (steps + atLeaf.toNat) := by
  cases atLeaf <;> simp [traverseVisits, Nat.mul_add]

/-! ## Local changes -/

omit [Cipher] in
theorem sends_drawLocalLeaves (nodes : List BPlusLocalNode) {orams : SplitOram}
    (between : orams.Between setting.split setting.stores) :
    Sends (drawLocalLeaves nodes orams) (fun outcome sent =>
      outcome.2.Between setting.split setting.stores ∧ sent = []) := by
  induction nodes with
  | nil => exact Prog.emits_pure ⟨between, rfl⟩
  | cons node rest ih =>
      refine Prog.emits_bind ih ?_
      rintro ⟨drawn, orams'⟩ _ ⟨between', rfl⟩
      refine Prog.emits_bind (between'.sends_assignLeaf _ _) ?_
      rintro ⟨leaf, orams''⟩ _ ⟨between'', rfl⟩
      exact Prog.emits_pure ⟨between'', rfl⟩

omit [Cipher] in
theorem sends_drawSiblingLeaves (siblings : List CachedSibling) {orams : SplitOram}
    (between : orams.Between setting.split setting.stores) :
    Sends (drawSiblingLeaves siblings orams) (fun outcome sent =>
      outcome.2.Between setting.split setting.stores ∧ sent = []) := by
  induction siblings generalizing orams with
  | nil => exact Prog.emits_pure ⟨between, rfl⟩
  | cons sibling rest ih =>
      unfold drawSiblingLeaves
      split
      · refine Prog.emits_bind (ih between) ?_
        rintro ⟨drawn, orams'⟩ _ ⟨between', rfl⟩
        exact Prog.emits_pure ⟨between', rfl⟩
      · refine Prog.emits_bind (between.sends_assignLeaf _ _) ?_
        rintro ⟨leaf, orams'⟩ _ ⟨between', rfl⟩
        refine Prog.emits_bind (ih between') ?_
        rintro ⟨drawn, orams''⟩ _ ⟨between'', rfl⟩
        exact Prog.emits_pure ⟨between'', rfl⟩

/-- A change without a visit: the set-up, the counters and the step operations stay. -/
structure Kept (setting : TreeSetting) (omap omap' : BPlusOmap) : Prop
    extends omap'.Fixed setting where
  sameOpCount : omap'.opCount = omap.opCount
  sameUpperOpCount : omap'.upperOpCount = omap.upperOpCount
  sameLowerOpCount : omap'.lowerOpCount = omap.lowerOpCount
  sameSs : omap'.ss = omap.ss
  samePb : omap'.pb = omap.pb

omit [Cipher] in
theorem Fixed.kept (fixed : omap.Fixed setting) : Kept setting omap omap :=
  ⟨fixed, rfl, rfl, rfl, rfl, rfl⟩

omit [Cipher] in
theorem Kept.trans {omap' omap'' : BPlusOmap} (first : Kept setting omap omap')
    (second : Kept setting omap' omap'') : Kept setting omap omap'' :=
  ⟨second.toFixed, second.sameOpCount.trans first.sameOpCount,
    second.sameUpperOpCount.trans first.sameUpperOpCount,
    second.sameLowerOpCount.trans first.sameLowerOpCount, second.sameSs.trans first.sameSs,
    second.samePb.trans first.samePb⟩

omit [Cipher] in
theorem Tallied.kept (tallied : omap.Tallied setting visited) {omap' : BPlusOmap}
    (kept : Kept setting omap omap') : omap'.Tallied setting visited :=
  { kept with
    opCount_eq := kept.sameOpCount.trans tallied.opCount_eq
    upperOpCount_eq := kept.sameUpperOpCount.trans tallied.upperOpCount_eq
    lowerOpCount_eq := kept.sameLowerOpCount.trans tallied.lowerOpCount_eq }

omit [Cipher] in
theorem Fixed.silent_reassignAllLeaves (fixed : omap.Fixed setting) :
    Silent omap.reassignAllLeaves (Kept setting omap) := by
  refine silent_bind (sends_drawLocalLeaves omap.local_ fixed.between) ?_
  rintro ⟨nodes, orams⟩ between
  refine silent_bind (sends_drawSiblingLeaves omap.siblingCache between) ?_
  rintro ⟨siblings, orams'⟩ between'
  exact silent_pure { fixed.kept with between := between' }

omit [Cipher] in
theorem Fixed.flushAllToStash (fixed : omap.Fixed setting) :
    Kept setting omap omap.flushAllToStash := by
  have nodesFlushed : ∀ (nodes : List BPlusLocalNode) (orams : SplitOram),
      orams.Between setting.split setting.stores →
        (nodes.foldl (fun orams node => orams.addToStash (orams.halfForDepth node.depth)
          { key := node.id, leaf := node.leaf, value := node.node.encode }) orams).Between
            setting.split setting.stores := by
    intro nodes
    induction nodes with
    | nil => exact fun _ between => between
    | cons node rest ih => exact fun _ between => ih _ (between.addToStash _ _)
  have siblingsFlushed : ∀ (siblings : List CachedSibling) (orams : SplitOram),
      orams.Between setting.split setting.stores →
        (siblings.foldl (fun orams sibling => if sibling.id = invalidKey then orams
          else orams.addToStash (orams.halfForDepth sibling.depth)
            { key := sibling.id, leaf := sibling.leaf, value := sibling.node.encode })
            orams).Between setting.split setting.stores := by
    intro siblings
    induction siblings with
    | nil => exact fun _ between => between
    | cons sibling rest ih =>
        intro orams between
        rw [List.foldl_cons]
        split
        · exact ih _ between
        · exact ih _ (between.addToStash _ _)
  exact { fixed.kept with between := siblingsFlushed _ _ (nodesFlushed _ _ fixed.between) }

omit [Cipher] in
theorem Fixed.silent_insertAt (fixed : omap.Fixed setting) (idx : Nat) (key : Int)
    (value : Bytes) : Silent (omap.insertAt idx key value) (Kept setting omap) := by
  unfold insertAt
  dsimp only
  split
  · refine silent_bind (Q := fun outcome => Kept setting omap outcome.2.2) ?_ ?_
    · refine silent_bind (fixed.between.sends_assignLeaf _ _) ?_
      rintro ⟨leaf, orams⟩ between
      exact silent_pure { fixed.kept with between }
    · rintro ⟨newId, newLeaf, halved⟩ halvedKept
      dsimp only at halvedKept ⊢
      split
      · exact silent_pure (halvedKept.trans { halvedKept.toFixed.kept with })
      · refine silent_bind (halvedKept.between.sends_assignLeaf _ _) ?_
        rintro ⟨rootLeaf, orams⟩ between
        exact silent_pure (halvedKept.trans { halvedKept.toFixed.kept with between })
  · exact silent_pure { fixed.kept with }

omit [Cipher] in
theorem Fixed.handleDeleteUnderflow (fixed : omap.Fixed setting) :
    Kept setting omap omap.handleDeleteUnderflow := by
  have one : ∀ (i : Nat) (omap' : BPlusOmap), Kept setting omap omap' →
      Kept setting omap (omap'.underflowAt i) := by
    intro i omap' kept
    unfold underflowAt
    dsimp only
    split
    · exact kept
    · split
      · exact kept.trans { kept.toFixed.kept with }
      · exact kept
  have all : ∀ (indices : List Nat) (omap' : BPlusOmap), Kept setting omap omap' →
      Kept setting omap (indices.foldl underflowAt omap') := by
    intro indices
    induction indices with
    | nil => exact fun _ kept => kept
    | cons i rest ih => exact fun _ kept => ih _ (one i _ kept)
  have balanced := all (List.range (omap.local_.length - 1)).reverse omap fixed.kept
  unfold BPlusOmap.handleDeleteUnderflow collapseRoot
  split
  · exact balanced
  · split
    · split
      · exact balanced.trans { balanced.toFixed.kept with }
      · exact balanced.trans { balanced.toFixed.kept with }
      · exact balanced
    · exact balanced

/-! ## Padding -/

end BPlusOmap

/-- `split_upper_budget`, for the set-up of a tree. -/
def TreeSetting.upperBudget (setting : TreeSetting) : Int :=
  if setting.split ≤ 0 then 0 else min (2 * setting.split - 1) (3 * setting.maxHeight)

/-- The dummy visits that fill the budgets of a B+ operation up. -/
def TreeSetting.bplusPadding (setting : TreeSetting) (visited : List Half) : List Half :=
  if setting.odsMode then []
  else if 0 < setting.split then
    List.replicate (setting.upperBudget - visited.count .upper).toNat .upper ++
      List.replicate (3 * setting.maxHeight - setting.upperBudget -
        visited.count .lower).toNat .lower
  else List.replicate (3 * setting.maxHeight - visited.length).toNat .lower

namespace BPlusOmap

variable {omap : BPlusOmap} {setting : TreeSetting} {visited : List Half} [Cipher]

theorem Tallied.sends_padUnlessOds (tallied : omap.Tallied setting visited) :
    Sends omap.padUnlessOds (fun omap' sent =>
      omap'.Tallied setting (visited ++ setting.bplusPadding visited) ∧
        sent = visitRequests setting.stores (setting.bplusPadding visited)) := by
  have budgetEq : omap.splitUpperBudget = setting.upperBudget := by
    rw [splitUpperBudget, tallied.between.splitDepth_eq, tallied.maxHeight_eq,
      TreeSetting.upperBudget]
  have clipped : ∀ pad : Int, (max 0 pad).toNat = pad.toNat := by
    intro pad
    omega
  unfold padUnlessOds padToBudget TreeSetting.bplusPadding
  rw [tallied.odsMode_eq, budgetEq, tallied.maxHeight_eq, tallied.between.splitDepth_eq,
    tallied.upperOpCount_eq, tallied.lowerOpCount_eq, tallied.opCount_eq]
  split
  · exact Prog.emits_pure ⟨by simpa using tallied, rfl⟩
  · by_cases split : 0 < setting.split
    · simp only [if_pos split]
      set upperPad := setting.upperBudget - (visited.count .upper : Int)
      set lowerPad := 3 * setting.maxHeight - setting.upperBudget - (visited.count .lower : Int)
      rw [clipped, clipped]
      refine Prog.emits_bind (tallied.between.sends_dummyAccesses .upper upperPad.toNat) ?_
      rintro orams _ ⟨between, rfl⟩
      refine Prog.emits_bind (between.sends_dummyAccesses .lower lowerPad.toNat) ?_
      rintro orams' _ ⟨between', rfl⟩
      refine Prog.emits_pure ⟨⟨⟨between', rfl, rfl⟩, ?_, ?_, ?_⟩, ?_⟩
      · have parts := length_eq_counts visited
        simp only [List.length_append, List.length_replicate]
        omega
      · simp [List.count_replicate]
        omega
      · simp [List.count_replicate]
        omega
      · rw [visitRequests_append, List.append_nil]
    · simp only [if_neg split]
      set pad := 3 * setting.maxHeight - (visited.length : Int) with padDef
      rw [clipped]
      refine Prog.emits_bind (tallied.between.sends_dummyAccesses .lower pad.toNat) ?_
      rintro orams _ ⟨between, rfl⟩
      refine Prog.emits_pure ⟨⟨⟨between, rfl, rfl⟩, ?_, ?_, ?_⟩, ?_⟩
      · simp only [List.length_append, List.length_replicate]
        omega
      · simp [List.count_replicate]
      · simp
        omega
      · rw [List.append_nil]

/-! ## Whole operations -/

/--
After an operation: the visits of a traversal, if there was one, and the padding. The traversal
ends at a depth that `way` allows; an operation without one ends at none.
-/
def Operated (setting : TreeSetting) (way : Option Int → Prop) (omap' : BPlusOmap)
    (sent : List StorageReq) : Prop :=
  ∃ steps atLeaf, steps + atLeaf.toNat ≤ setting.maxHeight.toNat ∧
    way (lastDepth 0 steps atLeaf) ∧
    let visited := traverseVisits setting.split 0 steps atLeaf
    omap'.Tallied setting (visited ++ setting.bplusPadding visited) ∧
      sent = visitRequests setting.stores (visited ++ setting.bplusPadding visited)

/-- An operation that pads at once. -/
theorem Tallied.sends_padOnly (tallied : omap.Tallied setting []) {way : Option Int → Prop}
    (nowhere : way none) : Sends omap.padUnlessOds (Operated setting way) := by
  refine tallied.sends_padUnlessOds.mono ?_
  rintro omap' _ ⟨tallied', rfl⟩
  exact ⟨0, false, Nat.zero_le _, nowhere, tallied', rfl⟩

/-- The end of an operation that has traversed the tree. -/
theorem Tallied.sends_finish {steps : Nat} {atLeaf : Bool} {way : Option Int → Prop}
    (within : steps + atLeaf.toNat ≤ setting.maxHeight.toNat)
    (isWay : way (lastDepth 0 steps atLeaf))
    (tallied : omap.Tallied setting (traverseVisits setting.split 0 steps atLeaf)) :
    Sends omap.finish (fun omap' sent => Operated setting way omap'
      (visitRequests setting.stores (traverseVisits setting.split 0 steps atLeaf) ++ sent)) := by
  refine Prog.emits_bind tallied.toFixed.silent_reassignAllLeaves ?_
  rintro reassigned _ ⟨kept, rfl⟩
  have flushed := tallied.kept (kept.trans kept.toFixed.flushAllToStash)
  refine flushed.sends_padUnlessOds.mono ?_
  rintro omap' _ ⟨tallied', rfl⟩
  exact ⟨steps, atLeaf, within, isWay, tallied', (visitRequests_append _ _ _).symm⟩

/-- Where the stored nodes lead a key to, from the root on. -/
def LeadsTo (omap : BPlusOmap) (key : Int) (last : Option Int) : Prop :=
  Leads omap.orams omap.maxHeight key omap.rootId 0 last

theorem Tallied.sends_traverseWithSiblings (tallied : omap.Tallied setting []) (key : Int) :
    Sends (omap.traverseWithSiblings key)
      (Traversed setting [] (omap.LeadsTo key) 0 setting.maxHeight.toNat) := by
  have begun : Tallied { omap with local_ := [], siblingCache := [] } setting [] :=
    { tallied with }
  have loop := begun.sends_traverseLoop key omap.maxHeight.toNat 0 omap.rootId omap.rootLeaf
    tallied.between.splitDepth_eq (SplitOram.NothingNew.refl omap.orams) (le_refl 0)
    (by rw [tallied.maxHeight_eq, zero_add])
  unfold traverseWithSiblings LeadsTo
  rw [tallied.maxHeight_eq] at loop ⊢
  exact loop

theorem leadsTo_none_of_empty {key : Int} (empty : omap.rootId = invalidKey) :
    omap.LeadsTo key none := by
  unfold LeadsTo
  rw [empty]
  exact .nowhere

theorem Fixed.sends_search (fixed : omap.Fixed setting) (key : Int)
    (update : Option Bytes) :
    Sends (omap.search key update) (fun outcome sent =>
      Operated setting (omap.LeadsTo key) outcome.2 sent) := by
  have reset := fixed.resetOpCounts
  unfold search
  dsimp only
  split
  · rename_i empty
    have nowhere : omap.LeadsTo key none := leadsTo_none_of_empty empty
    refine Prog.emits_bind (reset.sends_padOnly nowhere) ?_
    intro padded sent operated
    refine Prog.emits_pure ?_
    rw [List.append_nil]
    exact operated
  · refine Prog.emits_bind (reset.sends_traverseWithSiblings key) ?_
    rintro found _ ⟨steps, atLeaf, within, isWay, foundTallied, rfl⟩
    refine Prog.emits_bind ((foundTallied.withLocal _).sends_finish within isWay) ?_
    intro finished sent operated
    refine Prog.emits_pure ?_
    rw [List.append_nil]
    exact operated

theorem Fixed.sends_dummyAccess (fixed : omap.Fixed setting) :
    Sends omap.dummyAccess (Operated setting (· = none)) :=
  fixed.resetOpCounts.sends_padOnly rfl

theorem Fixed.sends_insert (fixed : omap.Fixed setting) (key : Int)
    (value : Bytes) : Sends (omap.insert key value) (Operated setting (omap.LeadsTo key)) := by
  have reset := fixed.resetOpCounts
  unfold insert
  dsimp only
  split
  · rename_i empty
    refine Prog.emits_bind (Q := fun omap' sent => omap'.Tallied setting [] ∧ sent = []) ?_ ?_
    · refine Prog.emits_bind (reset.between.sends_assignLeaf _ _) ?_
      rintro ⟨leaf, orams⟩ _ ⟨between, rfl⟩
      exact Prog.emits_pure ⟨{ reset with between := between.addToStash _ _ }, rfl⟩
    · rintro rooted _ ⟨rootedTallied, rfl⟩
      exact rootedTallied.sends_padOnly (leadsTo_none_of_empty empty)
  · refine Prog.emits_bind (reset.sends_traverseWithSiblings key) ?_
    rintro found _ ⟨steps, atLeaf, within, isWay, foundTallied, rfl⟩
    refine Prog.emits_bind (Q := fun omap' sent =>
      omap'.Tallied setting (traverseVisits setting.split 0 steps atLeaf) ∧ sent = []) ?_ ?_
    · have inserted : ∀ atLeaf' : Bool, Sends
          (doWhen atLeaf' (found.insertAt (found.local_.length - 1) key value) found)
          (fun omap' sent => omap'.Tallied setting
            (traverseVisits setting.split 0 steps atLeaf) ∧ sent = []) := by
        intro atLeaf'
        cases atLeaf' with
        | true =>
            refine (foundTallied.toFixed.silent_insertAt _ key value).mono ?_
            exact fun _ _ outcome => ⟨foundTallied.kept outcome.1, outcome.2⟩
        | false => exact Prog.emits_pure ⟨foundTallied, rfl⟩
      exact inserted _
    · rintro inserted _ ⟨insertedTallied, rfl⟩
      exact insertedTallied.sends_finish within isWay

theorem Fixed.sends_remove (fixed : omap.Fixed setting) (key : Int) :
    Sends (omap.remove key) (Operated setting (omap.LeadsTo key)) := by
  have reset := fixed.resetOpCounts
  unfold remove
  dsimp only
  split
  · rename_i empty
    exact reset.sends_padOnly (leadsTo_none_of_empty empty)
  · refine Prog.emits_bind (reset.sends_traverseWithSiblings key) ?_
    rintro found _ ⟨steps, atLeaf, within, isWay, foundTallied, rfl⟩
    have erased := foundTallied.withLocal (found.modifyLastLeaf (fun node =>
      node.eraseEntry key)).local_
    exact (erased.kept erased.toFixed.handleDeleteUnderflow).sends_finish within isWay

end BPlusOmap

end TieredOmap
