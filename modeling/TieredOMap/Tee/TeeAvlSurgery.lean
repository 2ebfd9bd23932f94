import TieredOMap.Tee.TeeAvlScans

/-!
# Hanging in and taking out entries

What `insert` and `remove` do to the entries of `local_` between fetching and storing them: the new
node is hung under the last one, the target takes over key and data of its successor, an entry is
unlinked. The successor becomes a dummy last, so for a moment two entries have its key.
-/

namespace TieredOmap

open Links

/-! ## Lists that differ in their dummies -/

/-- The entries are equal, or both are dummies. -/
def Piece.Alike (piece piece' : Piece) : Prop :=
  piece = piece' ∨ piece.key = invalidKey ∧ piece'.key = invalidKey

theorem Piece.Alike.key {piece piece' : Piece} (alike : piece.Alike piece') :
    piece.key = piece'.key := by
  rcases alike with rfl | ⟨isDummy, isDummy'⟩
  · rfl
  · exact isDummy.trans isDummy'.symm

section Alike

variable {pieces pieces' : List Piece}

theorem pieceAt_alike (alike : List.Forall₂ Piece.Alike pieces pieces') :
    pieceAt pieces = pieceAt pieces' := by
  funext key
  unfold pieceAt
  split
  · rfl
  · rename_i isReal
    induction alike with
    | nil => rfl
    | @cons piece piece' rest rest' same _ ih =>
        rw [List.find?_cons, List.find?_cons, ← same.key]
        rcases same with rfl | ⟨isDummy, -⟩
        · cases decide (piece.key = key)
          · exact ih
          · rfl
        · rw [isDummy, decide_eq_false (fun same => isReal same.symm)]
          exact ih

theorem once_alike (alike : List.Forall₂ Piece.Alike pieces pieces') (once : Once pieces) :
    Once pieces' := by
  induction alike with
  | nil => exact List.Pairwise.nil
  | @cons piece piece' rest rest' same others ih =>
      rcases List.pairwise_cons.mp once with ⟨apart, onceRest⟩
      refine List.pairwise_cons.mpr ⟨fun other mem => ?_, ih onceRest⟩
      rcases List.mem_iff_getElem?.mp mem with ⟨i, found⟩
      have bound : i < rest.length := by
        rw [others.length_eq]
        exact (List.getElem?_eq_some_iff.mp found).1
      have alikeAt : Piece.Alike rest[i] other := by
        rcases List.getElem?_eq_some_iff.mp found with ⟨bound', rfl⟩
        exact others.get bound bound'
      rw [← same.key, ← alikeAt.key]
      exact apart _ (List.getElem_mem bound)

theorem Woven.alike {rootKey rootLeaf : Int} {store : Int → Option Piece}
    {tree : BinaryTree (Int × Bytes)} (woven : Woven rootKey rootLeaf pieces store tree)
    (alike : List.Forall₂ Piece.Alike pieces pieces') :
    Woven rootKey rootLeaf pieces' store tree :=
  woven.congr_pieces (pieceAt_alike alike).symm (once_alike alike woven.once)

end Alike

namespace TeeAvlOmap

variable {omap : TeeAvlOmap} {store : Int → Option Piece} {tree : BinaryTree (Int × Bytes)}
  {i : Nat} {node gone : AVLLocalNode} {key : Int}

/-! ## Data -/

/-- The data of every entry has the value size. -/
def DataSized (omap : TeeAvlOmap) : Prop :=
  ∀ node ∈ omap.local_, node.avl.data.length = omap.valueSize

/-! ## Unlinking one entry -/

/-- Nothing is unlinked if the key was not found. -/
theorem unlink_false (omap : TeeAvlOmap) (delIdx : Int) : omap.unlink false delIdx = omap := by
  unfold unlink
  simp only [Bool.false_and, oMov_false]
  have same : ∀ (entries : List AVLLocalNode) (oldKey key leaf height parentKey : Int),
      (((entries.map (replaceChild false oldKey key leaf height)).mapIdx
        (fun _ entry => { entry with key := entry.key })).map
          (setParent false parentKey)) = entries := by
    intro entries oldKey key leaf height parentKey
    refine List.ext_getElem? (fun i => ?_)
    rw [List.getElem?_map, List.getElem?_mapIdx, List.getElem?_map]
    cases entries[i]? <;> rfl
  exact congrArg (fun entries => { omap with local_ := entries }) (same _ _ _ _ _ _)

theorem forall₂_mapIdx {α β : Type} {related : β → β → Prop} {f g : Nat → α → β}
    {items : List α}
    (same : ∀ (i : Nat) item, items[i]? = some item → related (f i item) (g i item)) :
    List.Forall₂ related (items.mapIdx f) (items.mapIdx g) := by
  refine List.forall₂_iff_get.mpr ⟨by simp, fun i bound bound' => ?_⟩
  rw [List.length_mapIdx] at bound
  simp only [List.get_eq_getElem, List.getElem_mapIdx]
  exact same i _ (List.getElem?_eq_getElem bound)

/-- An entry is led past the one that is unlinked. -/
theorem piece_lead (gone entry : AVLLocalNode) {side : Bool}
    (height : Int) {childKey childLeaf : Int}
    (childKey_eq : childKey = gone.piece.childKey side)
    (childLeaf_eq : childLeaf = gone.piece.childLeaf side) :
    (setParent (true && !oEqual childKey invalidKey && isReal (replaceChild
        (true && !oEqual gone.parentKey invalidKey && oEqual entry.key gone.parentKey &&
          isReal entry) gone.key childKey childLeaf height entry) &&
        oEqual entry.key childKey) gone.parentKey (replaceChild
          (true && !oEqual gone.parentKey invalidKey && oEqual entry.key gone.parentKey &&
            isReal entry) gone.key childKey childLeaf height entry)).piece =
      Piece.lead side gone.piece entry.piece := by
  subst childKey_eq childLeaf_eq
  refine piece_flagged ?_ ?_ _ _ _ _ _
  · rw [Bool.eq_iff_iff, Bool.and_eq_true, isReal_iff, decide_eq_true_eq]
    simp only [Bool.true_and, oEqual_eq, Bool.and_eq_true, Bool.not_eq_true', decide_eq_true_eq,
      decide_eq_false_iff_not]
    exact ⟨fun both => ⟨both.1.2, both.2⟩, fun both =>
      ⟨⟨fun isRoot => both.2 (both.1.trans isRoot), both.1⟩, both.2⟩⟩
  · rw [Bool.eq_iff_iff, Bool.and_eq_true, Bool.and_eq_true, isReal_iff, decide_eq_true_eq]
    simp only [Bool.true_and, oEqual_eq, Bool.not_eq_true', decide_eq_true_eq,
      decide_eq_false_iff_not]
    exact ⟨fun both => ⟨both.2, both.1.2⟩, fun both =>
      ⟨⟨fun isNone => both.2 (both.1.trans isNone), both.2⟩, both.1⟩⟩

/-- What is known of the entry that is unlinked. -/
theorem unlinked_parts {idx : Nat} (found : omap.local_[idx]? = some gone) {side : Bool}
    (isSide : side = decide (gone.avl.lKey ≠ invalidKey)) :
    scan (fun i _ => true && oEqual i idx) id omap.local_ noEntry = gone ∧
      (!oEqual gone.avl.lKey invalidKey) = side ∧
      oSelect side gone.avl.lKey gone.avl.rKey = gone.piece.childKey side ∧
      oSelect side gone.avl.lLeaf gone.avl.rLeaf = gone.piece.childLeaf side := by
  refine ⟨?_, by rw [isSide, oEqual_eq, decide_not], by cases side <;> rfl, by cases side <;> rfl⟩
  refine scan_hit found (by simp) (fun j node' found' passes => ?_)
  have same : j = idx := by simpa using passes
  rw [same] at found'
  exact Option.some.inj (found'.symm.trans found)

/-- What becomes of the entries when one is unlinked. -/
theorem pieces_unlink {idx : Nat} (found : omap.local_[idx]? = some gone) {side : Bool}
    (isSide : side = decide (gone.avl.lKey ≠ invalidKey)) :
    List.Forall₂ Piece.Alike (omap.pieces.mapIdx (fun i piece =>
        if i = idx then { piece with key := invalidKey } else Piece.lead side gone.piece piece))
      (omap.unlink true idx).pieces := by
  rcases unlinked_parts found isSide with ⟨deleted, hasLeft, keyIs, leafIs⟩
  unfold pieces unlink
  simp only [deleted, hasLeft, keyIs, leafIs]
  have before : ∀ f : Nat → Piece → Piece, (omap.local_.map AVLLocalNode.piece).mapIdx f =
      omap.local_.mapIdx (fun i entry => f i entry.piece) := by
    intro f
    refine List.ext_getElem? (fun i => ?_)
    rw [List.getElem?_mapIdx, List.getElem?_map, List.getElem?_mapIdx, Option.map_map]
    rfl
  have after : ∀ (f g : AVLLocalNode → AVLLocalNode) (h : Nat → AVLLocalNode → AVLLocalNode),
      (((omap.local_.map f).mapIdx h).map g).map AVLLocalNode.piece =
        omap.local_.mapIdx (fun i entry => (g (h i (f entry))).piece) := by
    intro f g h
    refine List.ext_getElem? (fun i => ?_)
    rw [List.getElem?_map, List.getElem?_map, List.getElem?_mapIdx, List.getElem?_map,
      List.getElem?_mapIdx]
    cases omap.local_[i]? <;> rfl
  rw [before, after]
  refine forall₂_mapIdx (fun i entry _ => ?_)
  by_cases here : i = idx
  · rw [if_pos here]
    refine Or.inr ⟨rfl, ?_⟩
    have deletes : oEqual i idx = true := by simp [here]
    rw [piece_setParent]
    simp only [deletes, Bool.true_and, oMov_true]
    split <;> rfl
  · rw [if_neg here]
    have keeps : oEqual i idx = false := by simp [here]
    simp only [keeps, Bool.and_false, oMov_false]
    exact Or.inl (piece_lead gone entry _ rfl rfl).symm

/-- What becomes of the root when an entry is unlinked. -/
theorem unlink_root {idx : Nat} (found : omap.local_[idx]? = some gone) {side : Bool}
    (isSide : side = decide (gone.avl.lKey ≠ invalidKey)) :
    (omap.unlink true idx).rootKey =
        (if gone.parentKey = invalidKey then gone.piece.childKey side else omap.rootKey) ∧
      (omap.unlink true idx).rootLeaf = if gone.parentKey = invalidKey
        then if gone.piece.childKey side = invalidKey then invalidLeaf
          else gone.piece.childLeaf side
        else omap.rootLeaf := by
  rcases unlinked_parts found isSide with ⟨deleted, hasLeft, keyIs, leafIs⟩
  unfold unlink
  simp only [deleted, hasLeft, keyIs, leafIs]
  by_cases isRoot : gone.parentKey = invalidKey
  · by_cases noChild : gone.piece.childKey side = invalidKey <;> simp [isRoot, noChild]
  · simp [isRoot]

/-! ## Taking over key and data of another entry -/

/-- Between buffers of one size a scan only moves. -/
theorem foldl_oMovBytes {α : Type} {items : List α} {test : α → Bool} {value : α → Bytes}
    {init : Bytes} {size : Nat} (initSized : init.length = size)
    (sized : ∀ item ∈ items, (value item).length = size) :
    items.foldl (fun acc item => oMovBytes (test item) acc (value item)) init =
      items.foldl (fun acc item => oMov (test item) acc (value item)) init := by
  induction items generalizing init with
  | nil => rfl
  | cons item rest ih =>
      have itemSized := sized item List.mem_cons_self
      rw [List.foldl_cons, List.foldl_cons, oMovBytes_of_length (initSized.trans itemSized.symm)]
      refine ih ?_ (fun item' mem => sized item' (List.mem_cons_of_mem _ mem))
      cases test item
      · exact initSized
      · exact itemSized

/-- Without a successor nothing is renamed. -/
theorem renameTarget_false (sized : omap.DataSized) (targetIdx succIdx : Int) :
    omap.renameTarget false targetIdx succIdx = omap := by
  unfold renameTarget
  simp only [Bool.false_and, oMov_false]
  rw [foldl_oMovBytes (List.length_replicate)
    (fun entry mem => sized _ (List.fst_mem_of_mem_zipIdx mem)),
    foldl_oMov_miss (fun _ _ => rfl)]
  have same : (((omap.local_.mapIdx (fun _ entry => { entry with
        key := entry.key
        avl := { entry.avl with
          data := oMovBytes false entry.avl.data (List.replicate omap.valueSize 0) } })).map
      (fun entry => renameChild false (scan (fun _ _ => false) AVLLocalNode.key omap.local_
        invalidKey) (scan (fun _ _ => false) AVLLocalNode.key omap.local_ invalidKey) entry)).map
          (setParent false (scan (fun _ _ => false) AVLLocalNode.key omap.local_ invalidKey))) =
      omap.local_ := by
    refine List.ext_getElem? (fun i => ?_)
    rw [List.getElem?_map, List.getElem?_map, List.getElem?_mapIdx]
    rcases found : omap.local_[i]? with _ | entry
    · rfl
    · have kept := @oMovBytes_of_length false entry.avl.data (List.replicate omap.valueSize 0)
        ((sized entry (List.mem_of_getElem? found)).trans List.length_replicate.symm)
      simp only [Option.map_some, kept]
      rfl
  exact congrArg (fun entries => { omap with local_ := entries }) same

section Rename

variable {target succ : AVLLocalNode} {targetIdx succIdx : Nat}

theorem piece_renameEntry (isTarget : Bool) (oldKey newKey : Int) (data : Bytes)
    (entry : AVLLocalNode) (sized : entry.avl.data.length = data.length)
    (isOld : isTarget = decide (entry.key = oldKey)) :
    let entry' : AVLLocalNode := { entry with
      key := oMov isTarget entry.key newKey
      avl := { entry.avl with data := oMovBytes isTarget entry.avl.data data } }
    let entry'' := renameChild (true && isReal entry') oldKey newKey entry'
    (setParent (true && oEqual entry''.parentKey oldKey) newKey entry'').piece =
      entry.piece.rename oldKey newKey data := by
  subst isOld
  dsimp only
  rw [oMovBytes_of_length sized, piece_setParent]
  have followed : ∀ (active : Bool) (entry : AVLLocalNode),
      (renameChild active oldKey newKey entry).piece = { entry.piece with
        childKey := if active then fun side => Link.aim oldKey newKey (entry.piece.childKey side)
          else entry.piece.childKey } := by
    intro active entry
    cases active with
    | false => rfl
    | true =>
        have moved : ∀ child, oMov (true && oEqual child oldKey) child newKey =
            Link.aim oldKey newKey child := by
          intro child
          by_cases same : child = oldKey <;> simp [same, Link.aim]
        unfold AVLLocalNode.piece renameChild
        simp only [moved]
        congr 1
        · funext side
          cases side <;> rfl
        · funext side
          cases side <;> rfl
  have parents : ∀ piece : Piece, (if (true && oEqual entry.parentKey oldKey) = true
      then { piece with parentKey := newKey } else { piece with parentKey := entry.parentKey }) =
        { piece with parentKey := Link.aim oldKey newKey entry.piece.parentKey } := by
    intro piece
    by_cases same : entry.parentKey = oldKey
    · rw [if_pos (by simp [same]), show entry.piece.parentKey = oldKey from same, Link.aim_self]
    · have other : Link.aim oldKey newKey entry.piece.parentKey = entry.parentKey :=
        Link.aim_of_ne _ same
      rw [if_neg (by simp [same]), other]
  have children : ∀ (node : AVLLocalNode) (ifReal other : Bool → Int),
      (if (true && isReal node) = true then ifReal else other) =
        if node.piece.key = invalidKey then other else ifReal := by
    intro node ifReal other
    by_cases isDummy : node.key = invalidKey
    · have isDummy' : node.piece.key = invalidKey := isDummy
      rw [if_neg (by simp [isReal, isDummy]), if_pos isDummy']
    · have isReal' : node.piece.key ≠ invalidKey := isDummy
      rw [if_pos (by simp [isReal, isDummy]), if_neg isReal']
  rw [followed]
  refine (parents _).trans ?_
  rw [children]
  unfold Piece.rename
  by_cases isOld : entry.key = oldKey
  · have isOld' : entry.piece.key = oldKey := isOld
    simp only [isOld, decide_true, oMov_true, if_pos isOld']
    rfl
  · have notOld : entry.piece.key ≠ oldKey := isOld
    simp only [decide_eq_false isOld, oMov_false, if_neg notOld]

/-- The target takes over key and data of its successor, and the pointers to it follow. -/
theorem pieces_renameTarget (once : Once omap.pieces) (sized : omap.DataSized)
    (foundTarget : omap.local_[targetIdx]? = some target) (targetReal : target.key ≠ invalidKey)
    (foundSucc : omap.local_[succIdx]? = some succ) :
    (omap.renameTarget true targetIdx succIdx).pieces =
        omap.pieces.map (Piece.rename target.key succ.key succ.avl.data) ∧
      (omap.renameTarget true targetIdx succIdx).rootKey =
        Link.aim target.key succ.key omap.rootKey := by
  have atSucc : ∀ {α : Type} (field : AVLLocalNode → α) (init : α),
      scan (fun i _ => true && oEqual i succIdx) field omap.local_ init = field succ := by
    intro α field init
    refine scan_hit foundSucc (by simp) (fun j node found passes => ?_)
    have same : j = succIdx := by simpa using passes
    rw [same] at found
    exact Option.some.inj (found.symm.trans foundSucc)
  have oldKey : scan (fun i _ => true && oEqual i targetIdx) AVLLocalNode.key omap.local_
      invalidKey = target.key := by
    refine scan_hit foundTarget (by simp) (fun j node found passes => ?_)
    have same : j = targetIdx := by simpa using passes
    rw [same] at found
    exact Option.some.inj (found.symm.trans foundTarget)
  have succData : omap.local_.zipIdx.foldl (fun acc entry =>
      oMovBytes (true && oEqual entry.2 succIdx) acc entry.1.avl.data)
        (List.replicate omap.valueSize 0) = succ.avl.data := by
    rw [foldl_oMovBytes (List.length_replicate)
      (fun entry mem => sized _ (List.fst_mem_of_mem_zipIdx mem))]
    exact atSucc (fun node => node.avl.data) _
  unfold renameTarget
  simp only [atSucc, oldKey, succData]
  refine ⟨List.ext_getElem? (fun i => ?_), ?_⟩
  · rw [getElem?_pieces, List.getElem?_map, List.getElem?_map, List.getElem?_mapIdx,
      List.getElem?_map, getElem?_pieces]
    rcases found : omap.local_[i]? with _ | entry
    · rfl
    · simp only [Option.map_some]
      congr 1
      have isTarget : (true && oEqual i targetIdx) = decide (entry.key = target.key) := by
        rw [Bool.eq_iff_iff, decide_eq_true_eq, Bool.true_and, oEqual_eq, decide_eq_true_eq]
        constructor
        · intro same
          rw [Int.natCast_inj.mp same] at found
          rw [Option.some.inj (found.symm.trans foundTarget)]
        · intro same
          rw [(index_unique once foundTarget found same.symm targetReal).1]
      refine piece_renameEntry _ _ _ _ _ ?_ isTarget
      rw [sized entry (List.mem_of_getElem? found), sized succ (List.mem_of_getElem? foundSucc)]
  · unfold Link.aim oMov
    simp only [Bool.true_and, oEqual_eq, decide_eq_true_eq]

end Rename

/-! ## Removing the target -/

section Remove

variable {target succ : AVLLocalNode} {targetIdx succIdx : Nat}

theorem isGone_iff (once : Once omap.pieces) {idx : Nat} (found : omap.local_[idx]? = some gone)
    (isReal : gone.key ≠ invalidKey) (foundNode : omap.local_[i]? = some node) :
    node.piece.key = gone.piece.key ↔ i = idx := by
  constructor
  · exact fun same => (index_unique once found foundNode same.symm isReal).1.symm
  · rintro rfl
    rw [Option.some.inj (found.symm.trans foundNode)]

/-- A target with at most one child is taken out of the tree. -/
theorem Weaves.unlink_one (weaves : omap.Weaves store tree)
    (found : omap.local_[targetIdx]? = some target) (isReal : target.key ≠ invalidKey)
    (single : target.avl.lKey = invalidKey ∨ target.avl.rKey = invalidKey) :
    ∃ tree', (omap.unlink true targetIdx).Weaves store tree' ∧ ∃ lower upper,
      tree.toList = lower ++ (target.key, target.avl.data) :: upper ∧
        tree'.toList = lower ++ upper := by
  have once := weaves.once
  have isGone : pieceAt omap.pieces target.piece.key = some target.piece :=
    pieceAt_of_mem once (List.mem_map_of_mem (List.mem_of_getElem? found)) isReal
  have bypassed : omap.pieces.mapIdx (fun i piece => if i = targetIdx
        then { piece with key := invalidKey }
        else Piece.lead (decide (target.avl.lKey ≠ invalidKey)) target.piece piece) =
      omap.pieces.map (Piece.bypass (decide (target.avl.lKey ≠ invalidKey)) target.piece) := by
    refine List.ext_getElem? (fun i => ?_)
    rw [List.getElem?_mapIdx, List.getElem?_map, getElem?_pieces]
    rcases foundEntry : omap.local_[i]? with _ | entry
    · rfl
    · simp only [Option.map_some, Piece.bypass, isGone_iff once found isReal foundEntry]
  have noOther : target.piece.childKey (!decide (target.avl.lKey ≠ invalidKey)) = invalidKey := by
    by_cases noLeft : target.avl.lKey = invalidKey
    · rw [decide_eq_false (not_not.mpr noLeft)]
      exact noLeft
    · rw [decide_eq_true noLeft]
      exact single.resolve_left noLeft
  have entries := pieces_unlink found rfl
  rw [bypassed] at entries
  rcases unlink_root found rfl with ⟨sameKey, sameLeaf⟩
  have rootLeaf_eq : if target.piece.parentKey = invalidKey then
      target.piece.childKey (decide (target.avl.lKey ≠ invalidKey)) ≠ invalidKey →
        (omap.unlink true targetIdx).rootLeaf =
          target.piece.childLeaf (decide (target.avl.lKey ≠ invalidKey))
      else (omap.unlink true targetIdx).rootLeaf = omap.rootLeaf := by
    rw [sameLeaf]
    split
    · rename_i isRoot
      intro hasChild
      exact (if_pos isRoot).trans (if_neg hasChild)
    · rename_i notRoot
      exact if_neg notRoot
  rcases weaves.unlink isGone noOther rootLeaf_eq with ⟨tree', woven, lower, upper, split, split'⟩
  refine ⟨tree', ?_, lower, upper, split, split'⟩
  rw [Weaves, sameKey]
  exact woven.alike entries

/-- A target with two children takes over key and data of its successor, which is taken out. -/
theorem Weaves.unlink_two (weaves : omap.Weaves store tree) (sized : omap.DataSized)
    (foundTarget : omap.local_[targetIdx]? = some target) (targetReal : target.key ≠ invalidKey)
    (foundSucc : omap.local_[succIdx]? = some succ) (succReal : succ.key ≠ invalidKey)
    (noLeft : succ.avl.lKey = invalidKey) {lower upper : List (Int × Bytes)}
    (adjacent : tree.toList = lower ++
      (target.key, target.avl.data) :: (succ.key, succ.avl.data) :: upper) :
    ∃ tree', ((omap.renameTarget true targetIdx succIdx).unlink true succIdx).Weaves store tree' ∧
      tree'.toList = lower ++ (succ.key, succ.avl.data) :: upper := by
  have once := weaves.once
  have isTarget : pieceAt omap.pieces target.piece.key = some target.piece :=
    pieceAt_of_mem once (List.mem_map_of_mem (List.mem_of_getElem? foundTarget)) targetReal
  have isSucc : pieceAt omap.pieces succ.piece.key = some succ.piece :=
    pieceAt_of_mem once (List.mem_map_of_mem (List.mem_of_getElem? foundSucc)) succReal
  have ordered := weaves.ordered
  rw [BinaryTree.Ordered, adjacent, List.map_append, List.map_cons, List.map_cons,
    List.pairwise_append, List.pairwise_cons, List.pairwise_cons] at ordered
  rcases ordered with ⟨-, ⟨aboveTarget, aboveSucc, -⟩, belowTarget⟩
  have less : target.key < succ.key := aboveTarget _ List.mem_cons_self
  -- No key is between those of the two.
  have between : ∀ other ∈ keysOf tree, other ≤ target.key ∨ succ.key ≤ other := by
    intro other mem
    rw [keysOf, adjacent, List.map_append, List.map_cons, List.map_cons, List.mem_append,
      List.mem_cons, List.mem_cons] at mem
    rcases mem with inLower | rfl | rfl | inUpper
    · exact Or.inl (belowTarget other inLower _ List.mem_cons_self).le
    · exact Or.inl le_rfl
    · exact Or.inr le_rfl
    · exact Or.inr (aboveSucc other inUpper).le
  have notRoot : succ.piece.parentKey ≠ invalidKey := by
    intro isRoot
    have inTree : target.key ∈ keysOf tree := weaves.all _ _ (nodeOf?_local isTarget)
    exact (weaves.root_least isSucc noLeft ((weaves.isRoot_iff isSucc).mp isRoot)
      inTree).not_gt less
  have notBack : succ.piece.childKey false ≠ target.key ∧ succ.piece.childKey false ≠ succ.key := by
    by_cases isNone : succ.piece.childKey false = invalidKey
    · rw [isNone]
      exact ⟨targetReal.symm, succReal.symm⟩
    · rcases weaves.child_side (nodeOf?_local isSucc) isNone with ⟨side, apart⟩
      have greater : ¬succ.piece.childKey false < succ.key := of_decide_eq_false side.symm
      exact ⟨fun same => greater (same ▸ less), apart⟩
  rcases (weaves.parents _ _ isSucc).resolve_left (fun root => notRoot root.1) with
    ⟨parent, side, isParent, leads⟩
  have parentNode := @nodeOf?_local _ store _ _ isParent
  have succSide := weaves.child_side parentNode (leads.trans_ne succReal)
  have away : ∀ side', parent.childKey side' ≠ target.key := by
    intro side' toTarget
    have targetSide := weaves.child_side parentNode (toTarget.trans_ne targetReal)
    have inTree := weaves.all _ _ parentNode
    rw [leads] at succSide
    rw [toTarget] at targetSide
    have sameSide : side = side' := by
      rw [succSide.1, targetSide.1, decide_eq_decide]
      change succ.key < succ.piece.parentKey ↔ target.key < succ.piece.parentKey
      rcases between _ inTree with below | above
      · exact ⟨fun beyond => absurd (less.trans beyond) below.not_gt, fun beyond =>
          absurd beyond below.not_gt⟩
      · exact ⟨less.trans, fun _ => lt_of_le_of_ne above succSide.2⟩
    rw [← sameSide, leads] at toTarget
    exact less.ne' toTarget
  have notOwn : succ.piece.parentKey ≠ succ.key := fun same =>
    succSide.2 (leads.trans same.symm)
  -- Take out the successor first, and rename the target then.
  have rootLeaf_eq : if succ.piece.parentKey = invalidKey
      then succ.piece.childKey false ≠ invalidKey →
      omap.rootLeaf = succ.piece.childLeaf false else omap.rootLeaf = omap.rootLeaf := by
    rw [if_neg notRoot]
  have noOther : succ.piece.childKey (!false) = invalidKey := noLeft
  rcases weaves.unlink isSucc noOther rootLeaf_eq with
    ⟨tree₁, woven₁, lower₁, upper₁, split₁, split₁'⟩
  rw [if_neg notRoot] at woven₁
  have adjacent' : tree.toList = (lower ++ [(target.key, target.avl.data)]) ++
      (succ.key, succ.avl.data) :: upper := by
    rw [adjacent, List.append_assoc]
    rfl
  rcases split_unique weaves.ordered split₁ adjacent' with ⟨rfl, -, rfl⟩
  rw [List.append_assoc, List.singleton_append] at split₁'
  have memTree₁ : ∀ other, other ∈ keysOf tree₁ ↔ other ∈ keysOf tree ∧ other ≠ succ.key := by
    intro other
    simp only [keysOf, split₁', adjacent, List.map_append, List.map_cons, List.mem_append,
      List.mem_cons]
    constructor
    · rintro (inLower | rfl | inUpper)
      · exact ⟨Or.inl inLower, ((belowTarget other inLower _ List.mem_cons_self).trans less).ne⟩
      · exact ⟨Or.inr (Or.inl rfl), less.ne⟩
      · exact ⟨Or.inr (Or.inr (Or.inr inUpper)), (aboveSucc other inUpper).ne'⟩
    · rintro ⟨inLower | rfl | rfl | inUpper, other⟩
      · exact Or.inl inLower
      · exact Or.inr (Or.inl rfl)
      · exact absurd rfl other
      · exact Or.inr (Or.inr inUpper)
  have isTarget₁ : pieceAt (omap.pieces.map (Piece.bypass false succ.piece)) target.key =
      some (Piece.bypass false succ.piece target.piece) := by
    have differs : target.key ≠ succ.piece.key := less.ne
    rw [Woven.pieceAt_bypass once, if_neg differs]
    exact congrArg _ isTarget
  rcases woven₁.renamed isTarget₁
    (fun mem => ((memTree₁ _).mp mem).2 rfl) succReal (fun other mem => by
      refine ⟨fun beyond => beyond.trans less, fun beyond => ?_⟩
      rcases between other ((memTree₁ other).mp mem).1 with below | above
      · exact absurd beyond below.not_gt
      · exact lt_of_le_of_ne above ((memTree₁ other).mp mem).2.symm) with
    ⟨tree₂, woven₂, lower₂, upper₂, split₂, split₂'⟩
  rcases split_unique woven₁.ordered split₂ split₁' with ⟨rfl, -, rfl⟩
  refine ⟨tree₂, ?_, split₂'⟩
  rcases pieces_renameTarget once sized foundTarget targetReal foundSucc with
    ⟨renamedPieces, renamedRoot⟩
  have succRenamed : (omap.renameTarget true targetIdx succIdx).pieces[succIdx]? =
      some (succ.piece.rename target.key succ.key succ.avl.data) := by
    rw [renamedPieces, List.getElem?_map, getElem?_pieces, foundSucc]
    rfl
  rw [getElem?_pieces] at succRenamed
  rcases Option.map_eq_some_iff.mp succRenamed with ⟨gone, foundGone, isGone⟩
  have goneReal : (succ.piece.rename target.key succ.key succ.avl.data).key ≠ invalidKey :=
    (Woven.rename_real succReal).2 succReal
  rcases Woven.rename_links goneReal with ⟨goneChildren, -, goneParent⟩
  have goneLeft : gone.avl.lKey = invalidKey := by
    have isLeft : gone.piece.childKey true = Link.aim target.key succ.key
        (succ.piece.childKey true) :=
      (congrFun (congrArg Piece.childKey isGone) true).trans (congrFun goneChildren true)
    rw [show succ.piece.childKey true = invalidKey from noLeft,
      Link.aim_of_ne _ targetReal.symm] at isLeft
    exact isLeft
  have isSide : false = decide (gone.avl.lKey ≠ invalidKey) :=
    (decide_eq_false (not_not.mpr goneLeft)).symm
  have entries := pieces_unlink foundGone isSide
  rcases unlink_root foundGone isSide with ⟨sameKey, sameLeaf⟩
  have goneNotRoot : gone.parentKey ≠ invalidKey := by
    have isParent' : gone.parentKey = Link.aim target.key succ.key succ.piece.parentKey :=
      (congrArg Piece.parentKey isGone).trans goneParent
    rw [isParent']
    unfold Link.aim
    split
    · exact succReal
    · exact notRoot
  rw [if_neg goneNotRoot] at sameKey sameLeaf
  rw [Weaves, sameKey, sameLeaf, renamedRoot]
  refine (woven₂.alike ?_).alike entries
  have before : (omap.pieces.map (Piece.bypass false succ.piece)).map
        (Piece.rename target.key succ.key succ.avl.data) =
      omap.local_.mapIdx (fun _ entry => (Piece.bypass false succ.piece entry.piece).rename
        target.key succ.key succ.avl.data) := by
    refine List.ext_getElem? (fun i => ?_)
    rw [List.getElem?_map, List.getElem?_map, getElem?_pieces, List.getElem?_mapIdx]
    cases omap.local_[i]? <;> rfl
  have after : (omap.renameTarget true targetIdx succIdx).pieces.mapIdx (fun i piece =>
        if i = succIdx then { piece with key := invalidKey }
        else Piece.lead false gone.piece piece) =
      omap.local_.mapIdx (fun i entry => if i = succIdx
        then { entry.piece.rename target.key succ.key succ.avl.data with key := invalidKey }
        else Piece.lead false gone.piece
          (entry.piece.rename target.key succ.key succ.avl.data)) := by
    refine List.ext_getElem? (fun i => ?_)
    rw [List.getElem?_mapIdx, renamedPieces, List.getElem?_map, getElem?_pieces,
      List.getElem?_mapIdx]
    cases omap.local_[i]? <;> rfl
  rw [before, after]
  refine forall₂_mapIdx (fun i entry found => ?_)
  have isSucc_iff := isGone_iff once foundSucc succReal found
  by_cases here : i = succIdx
  · rw [if_pos here]
    have isDummy := @Woven.bypass_gone _ false _ (isSucc_iff.mpr here)
    exact Or.inr ⟨(Woven.rename_other (isDummy.trans_ne targetReal.symm)).1.trans isDummy, rfl⟩
  · have other : entry.piece.key ≠ succ.piece.key := fun same => here (isSucc_iff.mp same)
    rw [if_neg here, isGone, Piece.bypass, if_neg other]
    refine Or.inl (Woven.lead_rename rfl succReal targetReal less.ne notBack notOwn other ?_).symm
    intro isAbove side'
    have entryIs : entry.piece = parent := by
      have entryAt : pieceAt omap.pieces entry.piece.key = some entry.piece :=
        pieceAt_of_mem once (List.mem_map_of_mem (List.mem_of_getElem? found))
          (isAbove.trans_ne notRoot)
      rw [isAbove] at entryAt
      exact Option.some.inj (entryAt.symm.trans isParent)
    rw [entryIs]
    exact away side'

end Remove

end TeeAvlOmap

end TieredOmap
