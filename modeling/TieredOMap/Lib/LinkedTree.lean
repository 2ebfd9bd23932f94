import TieredOMap.Lib.AvlTree

/-!
# Trees linked by keys

A store of nodes gives each key a value and the keys of its two children. The store spells out a
tree from the key of its root; one key stands for no node. A subtree can be changed in its place
by redirecting the one link that leads to it: rotations, insertions and removals of a search
tree are such changes.
-/

universe u v

/-- A value with the keys of its children (`true` is left). -/
structure Link (κ : Type u) (ν : Type v) where
  value : ν
  child : Bool → κ

/-- The nodes under their keys. -/
abbrev Links (κ : Type u) (ν : Type v) := κ → Option (Link κ ν)

namespace Link

variable {κ : Type u} {ν : Type v} [DecidableEq κ]

/-- Follow a change of one key. -/
def aim (old new key : κ) : κ := if key = old then new else key

@[simp]
theorem aim_self (old new : κ) : aim old new old = new := if_pos rfl

theorem aim_of_ne {old key : κ} (new : κ) (other : key ≠ old) : aim old new key = key :=
  if_neg other

/-- Keys that are not the new one are told apart afterwards, too. -/
theorem aim_inj {old new key key' : κ} (other : key ≠ new) (other' : key' ≠ new)
    (same : aim old new key = aim old new key') : key = key' := by
  unfold aim at same
  split at same
  · rename_i isOld
    split at same
    · rename_i isOld'
      exact isOld.trans isOld'.symm
    · exact absurd same.symm other'
  · split at same
    · exact absurd same other
    · exact same

@[simp]
theorem aim_same (old key : κ) : aim old old key = key := by
  unfold aim
  split
  · rename_i same
    exact same.symm
  · rfl

/-- Lead to another node instead of an old one. -/
def redirect (old new : κ) (link : Link κ ν) : Link κ ν :=
  { link with child := fun side => aim old new (link.child side) }

theorem redirect_of_ne {old : κ} (new : κ) {link : Link κ ν}
    (others : ∀ side, link.child side ≠ old) : link.redirect old new = link := by
  unfold redirect
  simp only [aim_of_ne new (others _)]

@[simp]
theorem redirect_same (old : κ) (link : Link κ ν) : link.redirect old old = link := by
  unfold redirect
  simp only [aim_same]

/-- Lead to another node on one side. -/
def setChild (side : Bool) (key : κ) (link : Link κ ν) : Link κ ν :=
  { link with child := Function.update link.child side key }

end Link

namespace Links

open BinaryTree

variable {κ : Type u} {ν : Type v}

/-- The keys of a tree from left to right. -/
def keysOf (tree : BinaryTree (κ × ν)) : List κ := tree.toList.map Prod.fst

@[simp]
theorem keysOf_nil : keysOf (nil : BinaryTree (κ × ν)) = [] := rfl

theorem keysOf_node (entry : κ × ν) (left right : BinaryTree (κ × ν)) :
    keysOf (node entry left right) = keysOf left ++ entry.1 :: keysOf right := by
  simp [keysOf, toList]

theorem mem_keysOf_node {key : κ} {entry : κ × ν} {left right : BinaryTree (κ × ν)} :
    key ∈ keysOf (node entry left right) ↔
      key = entry.1 ∨ key ∈ keysOf left ∨ key ∈ keysOf right := by
  rw [keysOf_node, List.mem_append, List.mem_cons]
  tauto

/-- The nodes spell out a tree from a root. -/
def Spells (links : Links κ ν) (null : κ) : κ → BinaryTree (κ × ν) → Prop
  | key, nil => key = null
  | key, node entry left right => key = entry.1 ∧ key ≠ null ∧ ∃ link, links key = some link ∧
      link.value = entry.2 ∧ links.Spells null (link.child true) left ∧
      links.Spells null (link.child false) right

variable {links links' : Links κ ν} {null key x z : κ} {link : Link κ ν}
  {tree sub : BinaryTree (κ × ν)} {before after : List (κ × ν)}

theorem Spells.ne_null (spells : links.Spells null key tree) (mem : x ∈ keysOf tree) :
    x ≠ null := by
  induction tree generalizing key with
  | nil => cases mem
  | node entry left right ihLeft ihRight =>
      rcases spells with ⟨rfl, real, link, -, -, spellsLeft, spellsRight⟩
      rcases mem_keysOf_node.mp mem with rfl | inLeft | inRight
      · exact real
      · exact ihLeft spellsLeft inLeft
      · exact ihRight spellsRight inRight

theorem Spells.root_mem (spells : links.Spells null key tree) (real : key ≠ null) :
    key ∈ keysOf tree := by
  cases tree with
  | nil => exact absurd spells real
  | node entry left right =>
      rcases spells with ⟨rfl, -⟩
      exact mem_keysOf_node.mpr (Or.inl rfl)

theorem Spells.found (spells : links.Spells null key tree) (mem : x ∈ keysOf tree) :
    ∃ link, links x = some link ∧ (x, link.value) ∈ tree.toList := by
  induction tree generalizing key with
  | nil => cases mem
  | node entry left right ihLeft ihRight =>
      rcases spells with ⟨rfl, real, link, found, value, spellsLeft, spellsRight⟩
      simp only [toList, List.mem_append, List.mem_cons]
      rcases mem_keysOf_node.mp mem with rfl | inLeft | inRight
      · exact ⟨link, found, Or.inr (Or.inl (Prod.ext rfl value))⟩
      · rcases ihLeft spellsLeft inLeft with ⟨link', found', mem'⟩
        exact ⟨link', found', Or.inl mem'⟩
      · rcases ihRight spellsRight inRight with ⟨link', found', mem'⟩
        exact ⟨link', found', Or.inr (Or.inr mem')⟩

/-- Only the nodes of the tree matter. -/
theorem Spells.congr (spells : links.Spells null key tree)
    (same : ∀ x ∈ keysOf tree, links' x = links x) : links'.Spells null key tree := by
  induction tree generalizing key with
  | nil => exact spells
  | node entry left right ihLeft ihRight =>
      rcases spells with ⟨rfl, real, link, found, value, spellsLeft, spellsRight⟩
      refine ⟨rfl, real, link, ?_, value, ?_, ?_⟩
      · rw [same entry.1 (mem_keysOf_node.mpr (Or.inl rfl)), found]
      · exact ihLeft spellsLeft (fun x mem => same x (mem_keysOf_node.mpr (Or.inr (Or.inl mem))))
      · exact ihRight spellsRight (fun x mem => same x (mem_keysOf_node.mpr (Or.inr (Or.inr mem))))

/-- The children of a node are in the tree. -/
theorem Spells.child_mem (spells : links.Spells null key tree) (mem : x ∈ keysOf tree)
    (found : links x = some link) (side : Bool) (real : link.child side ≠ null) :
    link.child side ∈ keysOf tree := by
  induction tree generalizing key with
  | nil => cases mem
  | node entry left right ihLeft ihRight =>
      rcases spells with ⟨rfl, -, link', found', -, spellsLeft, spellsRight⟩
      rw [mem_keysOf_node]
      rcases mem_keysOf_node.mp mem with rfl | inLeft | inRight
      · cases found.symm.trans found'
        cases side with
        | true => exact Or.inr (Or.inl (spellsLeft.root_mem real))
        | false => exact Or.inr (Or.inr (spellsRight.root_mem real))
      · exact Or.inr (Or.inl (ihLeft spellsLeft inLeft))
      · exact Or.inr (Or.inr (ihRight spellsRight inRight))

/-- Every node but the root is the child of one. -/
theorem Spells.parent (spells : links.Spells null key tree) (mem : x ∈ keysOf tree) :
    x = key ∨ ∃ y ∈ keysOf tree, ∃ link side, links y = some link ∧ link.child side = x := by
  induction tree generalizing key with
  | nil => cases mem
  | node entry left right ihLeft ihRight =>
      rcases spells with ⟨rfl, -, link, found, -, spellsLeft, spellsRight⟩
      have within : ∀ {side child}, links.Spells null (link.child side) child →
          (∀ y ∈ keysOf child, y ∈ keysOf (node entry left right)) →
          (x = link.child side ∨ ∃ y ∈ keysOf child, ∃ link side, links y = some link ∧
            link.child side = x) →
          ∃ y ∈ keysOf (node entry left right), ∃ link side, links y = some link ∧
            link.child side = x := by
        rintro side child - inTree (isRoot | ⟨y, inChild, link', side', found', isChild⟩)
        · exact ⟨entry.1, mem_keysOf_node.mpr (Or.inl rfl), link, side, found, isRoot.symm⟩
        · exact ⟨y, inTree y inChild, link', side', found', isChild⟩
      rcases mem_keysOf_node.mp mem with isRoot | inLeft | inRight
      · exact Or.inl isRoot
      · exact Or.inr (within spellsLeft (fun y mem => mem_keysOf_node.mpr (Or.inr (Or.inl mem)))
          (ihLeft spellsLeft inLeft))
      · exact Or.inr (within spellsRight (fun y mem => mem_keysOf_node.mpr (Or.inr (Or.inr mem)))
          (ihRight spellsRight inRight))

theorem nodup_node {entry : κ × ν} {left right : BinaryTree (κ × ν)}
    (nodup : (keysOf (node entry left right)).Nodup) :
    (keysOf left).Nodup ∧ (keysOf right).Nodup ∧ entry.1 ∉ keysOf left ∧
      entry.1 ∉ keysOf right ∧ ∀ x ∈ keysOf left, x ∉ keysOf right := by
  rw [keysOf_node, List.nodup_append', List.nodup_cons] at nodup
  rcases nodup with ⟨nodupLeft, ⟨notRight, nodupRight⟩, apart⟩
  refine ⟨nodupLeft, nodupRight, fun mem => apart mem List.mem_cons_self, notRight, ?_⟩
  exact fun x inLeft inRight => apart inLeft (List.mem_cons_of_mem _ inRight)

/-- No node leads to the root. -/
theorem Spells.root_no_child (spells : links.Spells null key tree) (nodup : (keysOf tree).Nodup)
    (mem : x ∈ keysOf tree) (found : links x = some link) (side : Bool)
    (real : link.child side ≠ null) : link.child side ≠ key := by
  cases tree with
  | nil => cases mem
  | node entry left right =>
      rcases spells with ⟨rfl, isReal, link', found', -, spellsLeft, spellsRight⟩
      rcases nodup_node nodup with ⟨-, -, notLeft, notRight, -⟩
      intro toRoot
      rcases mem_keysOf_node.mp mem with rfl | inLeft | inRight
      · cases found.symm.trans found'
        cases side with
        | true => exact notLeft (toRoot ▸ spellsLeft.root_mem real)
        | false => exact notRight (toRoot ▸ spellsRight.root_mem real)
      · exact notLeft (toRoot ▸ spellsLeft.child_mem inLeft found side real)
      · exact notRight (toRoot ▸ spellsRight.child_mem inRight found side real)

/-- A node has one parent. -/
theorem Spells.parent_unique (spells : links.Spells null key tree) (nodup : (keysOf tree).Nodup)
    {x' : κ} {link' : Link κ ν} {side side' : Bool} (mem : x ∈ keysOf tree)
    (mem' : x' ∈ keysOf tree) (found : links x = some link) (found' : links x' = some link')
    (real : link.child side ≠ null) (same : link'.child side' = link.child side) : x = x' := by
  induction tree generalizing key with
  | nil => cases mem
  | node entry left right ihLeft ihRight =>
      rcases spells with ⟨rfl, isReal, root, foundRoot, -, spellsLeft, spellsRight⟩
      rcases nodup_node nodup with ⟨nodupLeft, nodupRight, notLeft, notRight, apart⟩
      have real' : link'.child side' ≠ null := same ▸ real
      -- A child of the root is the root of one side, to which nothing else leads.
      have ofRoot : ∀ {y : κ} {other : Link κ ν} {sideRoot sideOther : Bool},
          (y ∈ keysOf left ∨ y ∈ keysOf right) → links y = some other →
            other.child sideOther ≠ null → other.child sideOther ≠ root.child sideRoot := by
        intro y other sideRoot sideOther inside foundOther realOther toChild
        have realRoot : root.child sideRoot ≠ null := toChild ▸ realOther
        rcases inside with inLeft | inRight
        · cases sideRoot with
          | true =>
              exact spellsLeft.root_no_child nodupLeft inLeft foundOther sideOther realOther toChild
          | false =>
              have inOther := spellsLeft.child_mem inLeft foundOther sideOther realOther
              exact apart _ inOther (toChild ▸ spellsRight.root_mem realRoot)
        · cases sideRoot with
          | true =>
              have inOther := spellsRight.child_mem inRight foundOther sideOther realOther
              rw [toChild] at inOther
              exact apart _ (spellsLeft.root_mem realRoot) inOther
          | false =>
              exact spellsRight.root_no_child nodupRight inRight foundOther sideOther realOther
                toChild
      rcases mem_keysOf_node.mp mem with rfl | inside
      · rcases mem_keysOf_node.mp mem' with rfl | inside'
        · rfl
        · cases found.symm.trans foundRoot
          exact absurd same (ofRoot inside' found' real')
      · rcases mem_keysOf_node.mp mem' with rfl | inside'
        · cases found'.symm.trans foundRoot
          exact absurd same.symm (ofRoot inside found real)
        · rcases inside with inLeft | inRight
          · rcases inside' with inLeft' | inRight'
            · exact ihLeft spellsLeft nodupLeft inLeft inLeft'
            · exact absurd (same ▸ spellsRight.child_mem inRight' found' side' real')
                (apart _ (spellsLeft.child_mem inLeft found side real))
          · rcases inside' with inLeft' | inRight'
            · exact absurd (spellsRight.child_mem inRight found side real)
                (apart _ (same ▸ spellsLeft.child_mem inLeft' found' side' real'))
            · exact ihRight spellsRight nodupRight inRight inRight'

theorem Spells.root_ne (spells : links.Spells null key tree) (away : x ∉ keysOf tree)
    (real : x ≠ null) : key ≠ x := by
  rintro rfl
  exact away (spells.root_mem real)

/-! ## Both sides at once -/

theorem spells_nodeOn {side : Bool} {entry : κ × ν} {child other : BinaryTree (κ × ν)} :
    links.Spells null key (nodeOn side entry child other) ↔ key = entry.1 ∧ key ≠ null ∧
      ∃ link, links key = some link ∧ link.value = entry.2 ∧
        links.Spells null (link.child side) child ∧ links.Spells null (link.child !side) other := by
  cases side with
  | true => rfl
  | false =>
      refine and_congr_right (fun _ => and_congr_right (fun _ => exists_congr (fun link => ?_)))
      exact and_congr_right (fun _ => and_congr_right (fun _ => And.comm))

theorem mem_keysOf_nodeOn {side : Bool} {y : κ} {entry : κ × ν} {child other : BinaryTree (κ × ν)} :
    y ∈ keysOf (nodeOn side entry child other) ↔
      y = entry.1 ∨ y ∈ keysOf child ∨ y ∈ keysOf other := by
  cases side with
  | true => exact mem_keysOf_node
  | false => exact mem_keysOf_node.trans (or_congr_right Or.comm)

theorem nodup_nodeOn {side : Bool} {entry : κ × ν} {child other : BinaryTree (κ × ν)}
    (nodup : (keysOf (nodeOn side entry child other)).Nodup) :
    (keysOf child).Nodup ∧ (keysOf other).Nodup ∧ entry.1 ∉ keysOf child ∧
      entry.1 ∉ keysOf other ∧ ∀ x ∈ keysOf child, x ∉ keysOf other := by
  cases side with
  | true => exact nodup_node nodup
  | false =>
      rcases nodup_node nodup with ⟨nodupOther, nodupChild, notOther, notChild, apart⟩
      exact ⟨nodupChild, nodupOther, notChild, notOther, fun x inChild inOther =>
        apart x inOther inChild⟩

/-- What is before a child, from what is before its node. -/
def beforeChild (side : Bool) (entry : κ × ν) (other : BinaryTree (κ × ν))
    (before : List (κ × ν)) : List (κ × ν) :=
  if side then before else before ++ (other.toList ++ [entry])

/-- What is after a child, from what is after its node. -/
def afterChild (side : Bool) (entry : κ × ν) (other : BinaryTree (κ × ν))
    (after : List (κ × ν)) : List (κ × ν) :=
  if side then entry :: other.toList ++ after else after

theorem toList_nodeOn_between (side : Bool) (entry : κ × ν) (child other : BinaryTree (κ × ν))
    (before after : List (κ × ν)) :
    before ++ (nodeOn side entry child other).toList ++ after =
      beforeChild side entry other before ++ child.toList ++ afterChild side entry other after := by
  cases side <;> simp [nodeOn, toList, beforeChild, afterChild]

/-! ## Changes in place -/

variable [DecidableEq κ]

/-- A part to which no redirected link belongs is as before. -/
theorem Spells.elsewhere (spells : links.Spells null key tree) (away : x ∉ keysOf tree)
    (real : x ≠ null)
    (redirected : ∀ y ∈ keysOf tree, links' y = (links y).map (Link.redirect x z)) :
    links'.Spells null key tree := by
  refine spells.congr (fun y mem => ?_)
  rcases spells.found mem with ⟨link, found, -⟩
  rw [redirected y mem, found, Option.map_some, Link.redirect_of_ne]
  intro side toX
  by_cases isNull : link.child side = null
  · exact real (toX.symm.trans isNull)
  · exact away (toX ▸ spells.child_mem mem found side isNull)

/-- A subtree of the tree, with the values before and after it. Another tree may be put in its
place, if its root is what the link to the subtree leads to then. -/
structure Focus (links : Links κ ν) (null key : κ) (tree : BinaryTree (κ × ν)) (x : κ)
    (sub : BinaryTree (κ × ν)) (before after : List (κ × ν)) : Prop where
  spells : links.Spells null x sub
  real : x ≠ null
  split : tree.toList = before ++ sub.toList ++ after
  put : ∀ (links' : Links κ ν) z sub', links'.Spells null z sub' →
    (∀ y ∈ keysOf tree, y ∉ keysOf sub → links' y = (links y).map (Link.redirect x z)) →
    ∃ tree', links'.Spells null (Link.aim x z key) tree' ∧
      tree'.toList = before ++ sub'.toList ++ after

theorem Focus.inside (focus : Focus links null key tree x sub before after) {y : κ}
    (mem : y ∈ keysOf sub) : y ∈ keysOf tree := by
  rw [keysOf, focus.split, List.map_append, List.map_append]
  exact List.mem_append_left _ (List.mem_append_right _ mem)

/-- The whole tree is a subtree. -/
theorem Spells.focus_root (spells : links.Spells null key tree) (real : key ≠ null) :
    Focus links null key tree key tree [] [] := by
  refine ⟨spells, real, by simp, fun links' z sub' spells' _ => ⟨sub', ?_, by simp⟩⟩
  rw [Link.aim_self]
  exact spells'

/-- Every node is the root of a subtree. -/
theorem Spells.focus (spells : links.Spells null key tree) (nodup : (keysOf tree).Nodup)
    (mem : x ∈ keysOf tree) : ∃ sub before after, Focus links null key tree x sub before after := by
  induction tree generalizing key with
  | nil => cases mem
  | node entry left right ihLeft ihRight =>
      have isTree := spells
      rcases spells with ⟨rfl, isReal, link, found, value, spellsLeft, spellsRight⟩
      rcases nodup_node nodup with ⟨nodupLeft, nodupRight, notLeft, notRight, apart⟩
      have real := isTree.ne_null mem
      rcases mem_keysOf_node.mp mem with rfl | inLeft | inRight
      · exact ⟨_, _, _, isTree.focus_root isReal⟩
      · rcases ihLeft spellsLeft nodupLeft inLeft with ⟨sub, before, after, focus⟩
        have away := apart x inLeft
        have rootOther : entry.1 ≠ x := fun same => notLeft (same ▸ inLeft)
        have rootOutside : entry.1 ∉ keysOf sub := fun inSub => notLeft (focus.inside inSub)
        refine ⟨sub, before, after ++ entry :: right.toList, focus.spells, real, ?_, ?_⟩
        · rw [toList, focus.split]
          simp
        · intro links' z sub' spells' redirected
          rcases focus.put links' z sub' spells' (fun y inLeft' => redirected y
            (mem_keysOf_node.mpr (Or.inr (Or.inl inLeft')))) with ⟨left', spellsLeft', split'⟩
          have spellsRight' := spellsRight.elsewhere away real (fun y inRight' => redirected y
            (mem_keysOf_node.mpr (Or.inr (Or.inr inRight')))
            (fun inSub => apart y (focus.inside inSub) inRight'))
          refine ⟨node entry left' right, ?_, ?_⟩
          · rw [Link.aim_of_ne z rootOther]
            refine ⟨rfl, isReal, link.redirect x z, ?_, value, spellsLeft', ?_⟩
            · rw [redirected _ (mem_keysOf_node.mpr (Or.inl rfl)) rootOutside, found]
              rfl
            · change links'.Spells null (Link.aim x z (link.child false)) right
              rw [Link.aim_of_ne z (spellsRight.root_ne away real)]
              exact spellsRight'
          · rw [toList, split']
            simp
      · rcases ihRight spellsRight nodupRight inRight with ⟨sub, before, after, focus⟩
        have away : x ∉ keysOf left := fun inLeft => apart x inLeft inRight
        have rootOther : entry.1 ≠ x := fun same => notRight (same ▸ inRight)
        refine ⟨sub, left.toList ++ entry :: before, after, focus.spells, real, ?_, ?_⟩
        · rw [toList, focus.split]
          simp
        · intro links' z sub' spells' redirected
          rcases focus.put links' z sub' spells' (fun y inRight' => redirected y
            (mem_keysOf_node.mpr (Or.inr (Or.inr inRight')))) with ⟨right', spellsRight', split'⟩
          have spellsLeft' := spellsLeft.elsewhere away real (fun y inLeft' => redirected y
            (mem_keysOf_node.mpr (Or.inr (Or.inl inLeft')))
            (fun inSub => apart y inLeft' (focus.inside inSub)))
          refine ⟨node entry left right', ?_, ?_⟩
          · rw [Link.aim_of_ne z rootOther]
            refine ⟨rfl, isReal, link.redirect x z, ?_, value, ?_, spellsRight'⟩
            · rw [redirected _ (mem_keysOf_node.mpr (Or.inl rfl))
                (fun inSub => notRight (focus.inside inSub)), found]
              rfl
            · change links'.Spells null (Link.aim x z (link.child true)) left
              rw [Link.aim_of_ne z (spellsLeft.root_ne away real)]
              exact spellsLeft'
          · rw [toList, split']
            simp

section Focus

variable {side : Bool} {entry : κ × ν} {child other : BinaryTree (κ × ν)}

theorem Focus.nodup (focus : Focus links null key tree x sub before after)
    (nodup : (keysOf tree).Nodup) : (keysOf sub).Nodup := by
  rw [keysOf, focus.split, List.map_append, List.map_append] at nodup
  exact nodup.of_append_left.of_append_right

/-- Go down to a child. -/
theorem Focus.down (focus : Focus links null key tree x
    (nodeOn side entry child other) before after)
    (spells : links.Spells null key tree) (nodup : (keysOf tree).Nodup)
    (found : links x = some link) (real : link.child side ≠ null) :
    Focus links null key tree (link.child side) child (beforeChild side entry other before)
      (afterChild side entry other after) := by
  rcases spells_nodeOn.mp focus.spells with ⟨isEntry, -, link', found', value, spellsChild,
      spellsOther⟩
  cases found.symm.trans found'
  have nodupSub := focus.nodup nodup
  rcases nodup_nodeOn nodupSub with ⟨-, -, notChild, notOther, apart⟩
  have childMem := spellsChild.root_mem real
  have xMem : x ∈ keysOf (nodeOn side entry child other) :=
    mem_keysOf_nodeOn.mpr (Or.inl isEntry)
  have childAway := apart _ childMem
  refine ⟨spellsChild, real, ?_, fun links' z sub' spells' redirected => ?_⟩
  · rw [focus.split, toList_nodeOn_between]
  · have spellsOther' := spellsOther.elsewhere childAway real (fun y inOther => redirected y
      (focus.inside (mem_keysOf_nodeOn.mpr (Or.inr (Or.inr inOther))))
      (fun inChild => apart y inChild inOther))
    have foundHere : links' x = some (link.redirect (link.child side) z) := by
      rw [redirected x (focus.inside xMem) (isEntry ▸ notChild), found]
      rfl
    have sub'' : links'.Spells null x (nodeOn side entry sub' other) := by
      refine spells_nodeOn.mpr ⟨isEntry, focus.real, _, foundHere, value, ?_, ?_⟩
      · change links'.Spells null (Link.aim (link.child side) z (link.child side)) sub'
        rw [Link.aim_self]
        exact spells'
      · change links'.Spells null (Link.aim (link.child side) z (link.child !side)) other
        rw [Link.aim_of_ne z (spellsOther.root_ne childAway real)]
        exact spellsOther'
    have elsewhere : ∀ y ∈ keysOf tree, y ∉ keysOf (nodeOn side entry child other) →
        links' y = (links y).map (Link.redirect x x) := by
      intro y mem outside
      have outsideChild : y ∉ keysOf child :=
        fun inChild => outside (mem_keysOf_nodeOn.mpr (Or.inr (Or.inl inChild)))
      rcases spells.found mem with ⟨link', foundY, -⟩
      rw [redirected y mem outsideChild, foundY, Option.map_some, Option.map_some,
        Link.redirect_same, Link.redirect_of_ne]
      intro side' toChild
      have isParent := spells.parent_unique nodup (focus.inside xMem) mem found foundY real toChild
      exact outside (isParent ▸ xMem)
    rcases focus.put links' x _ sub'' elsewhere with ⟨tree', spellsTree', split'⟩
    refine ⟨tree', ?_, ?_⟩
    · rw [Link.aim_same] at spellsTree'
      rw [Link.aim_of_ne z (spells.root_no_child nodup (focus.inside xMem) found side real).symm]
      exact spellsTree'
    · rw [split', toList_nodeOn_between]

/-- A subtree that has a root, from either side. -/
theorem Focus.root (focus : Focus links null key tree x sub before after) (side : Bool) :
    ∃ entry child other link, sub = nodeOn side entry child other ∧ x = entry.1 ∧
      links x = some link ∧ link.value = entry.2 ∧ links.Spells null (link.child side) child ∧
      links.Spells null (link.child !side) other := by
  have spells := focus.spells
  have nonempty : sub ≠ nil := by
    rintro rfl
    exact focus.real spells
  rcases exists_nodeOn side nonempty with ⟨entry, child, other, rfl⟩
  rcases spells_nodeOn.mp spells with ⟨isEntry, -, link, found, value, spellsChild, spellsOther⟩
  exact ⟨entry, child, other, link, rfl, isEntry, found, value, spellsChild, spellsOther⟩

/-- A subtree changes and keeps its root. -/
theorem Focus.replace (focus : Focus links null key tree x sub before after)
    {sub' : BinaryTree (κ × ν)} (spells' : links'.Spells null x sub')
    (same : ∀ y ∈ keysOf tree, y ∉ keysOf sub → links' y = links y) :
    ∃ tree', links'.Spells null key tree' ∧ tree'.toList = before ++ sub'.toList ++ after := by
  have elsewhere : ∀ y ∈ keysOf tree, y ∉ keysOf sub →
      links' y = (links y).map (Link.redirect x x) := by
    intro y mem outside
    rw [same y mem outside]
    cases links y with
    | none => rfl
    | some link => rw [Option.map_some, Link.redirect_same]
  rcases focus.put links' x sub' spells' elsewhere with ⟨tree', spellsTree', split'⟩
  rw [Link.aim_same] at spellsTree'
  exact ⟨tree', spellsTree', split'⟩

end Focus

/-- A node is not its own child. -/
theorem Spells.child_ne (spells : links.Spells null key tree) (nodup : (keysOf tree).Nodup)
    (mem : x ∈ keysOf tree) (found : links x = some link) (side : Bool)
    (real : link.child side ≠ null) : link.child side ≠ x := by
  rcases spells.focus nodup mem with ⟨sub, before, after, focus⟩
  exact focus.spells.root_no_child (focus.nodup nodup) (focus.spells.root_mem focus.real) found side
    real

/-- A child does not lead back to its parent. -/
theorem Spells.grandchild_ne (spells : links.Spells null key tree) (nodup : (keysOf tree).Nodup)
    (mem : x ∈ keysOf tree) (found : links x = some link) {side : Bool}
    (real : link.child side ≠ null) {link' : Link κ ν}
    (found' : links (link.child side) = some link') (side' : Bool)
    (real' : link'.child side' ≠ null) : link'.child side' ≠ x := by
  rcases spells.focus nodup mem with ⟨sub, before, after, focus⟩
  have rootMem := focus.spells.root_mem focus.real
  exact focus.spells.root_no_child (focus.nodup nodup)
    (focus.spells.child_mem rootMem found side real) found' side' real'

/-! ## Rotation, insertion and removal -/

section Changes

variable {side : Bool} {down up : Link κ ν} {value : ν}

/-- A rotation keeps the order: a child takes over from its parent. -/
theorem Spells.rotate (spells : links.Spells null key tree) (nodup : (keysOf tree).Nodup)
    (mem : x ∈ keysOf tree) (foundDown : links x = some down) (real : down.child side ≠ null)
    (foundUp : links (down.child side) = some up)
    (atDown : links' x = some (down.setChild side (up.child !side)))
    (atUp : links' (down.child side) = some (up.setChild (!side) x))
    (others : ∀ y ∈ keysOf tree, y ≠ x → y ≠ down.child side →
      links' y = (links y).map (Link.redirect x (down.child side))) :
    ∃ tree', links'.Spells null (Link.aim x (down.child side) key) tree' ∧
      tree'.toList = tree.toList := by
  rcases spells.focus nodup mem with ⟨sub, before, after, focus⟩
  have nodupSub := focus.nodup nodup
  rcases focus.root side with ⟨entry, child, other, link, rfl, rfl, found, value, spellsChild,
    spellsOther⟩
  cases foundDown.symm.trans found
  have childFocus := spellsChild.focus_root real
  rcases childFocus.root (!side) with ⟨pivot, inner, outer, link, rfl, isPivot, found', value',
    spellsInner, spellsOuter⟩
  cases foundUp.symm.trans found'
  rw [Bool.not_not] at spellsOuter
  rcases nodup_nodeOn nodupSub with ⟨nodupChild, -, notChild, notOther, apart⟩
  rcases nodup_nodeOn nodupChild with ⟨-, -, notInner, notOuter, -⟩
  have entryReal := focus.real
  -- The three subtrees below do not lead to the two nodes, and stay as they are.
  have kept : ∀ {z : κ} {part : BinaryTree (κ × ν)}, links.Spells null z part →
      (∀ y ∈ keysOf part, y ∈ keysOf tree ∧ y ≠ entry.1 ∧ y ≠ down.child side) →
        links'.Spells null z part := by
    intro z part spellsPart inside
    exact spellsPart.elsewhere (fun inPart => (inside _ inPart).2.1 rfl) entryReal
      (fun y inPart => others y (inside y inPart).1 (inside y inPart).2.1 (inside y inPart).2.2)
  have innerKept := kept spellsInner (fun y inInner => by
    have inChild : y ∈ keysOf (nodeOn (!side) pivot inner outer) :=
      mem_keysOf_nodeOn.mpr (Or.inr (Or.inl inInner))
    exact ⟨focus.inside (mem_keysOf_nodeOn.mpr (Or.inr (Or.inl inChild))),
      fun same => notChild (same ▸ inChild), fun same => notInner (isPivot ▸ same ▸ inInner)⟩)
  have outerKept := kept spellsOuter (fun y inOuter => by
    have inChild : y ∈ keysOf (nodeOn (!side) pivot inner outer) :=
      mem_keysOf_nodeOn.mpr (Or.inr (Or.inr inOuter))
    exact ⟨focus.inside (mem_keysOf_nodeOn.mpr (Or.inr (Or.inl inChild))),
      fun same => notChild (same ▸ inChild), fun same => notOuter (isPivot ▸ same ▸ inOuter)⟩)
  have otherKept := kept spellsOther (fun y inOther => by
    refine ⟨focus.inside (mem_keysOf_nodeOn.mpr (Or.inr (Or.inr inOther))),
      fun same => notOther (same ▸ inOther), fun same => ?_⟩
    exact apart _ (spellsChild.root_mem real) (same ▸ inOther))
  have flipped : (!side) ≠ side := by simp
  have spellsDown : links'.Spells null entry.1 (nodeOn side entry inner other) := by
    refine spells_nodeOn.mpr ⟨rfl, entryReal, _, atDown, value, ?_, ?_⟩
    · change links'.Spells null (Function.update down.child side _ side) inner
      rw [Function.update_self]
      exact innerKept
    · change links'.Spells null (Function.update down.child side _ (!side)) other
      rw [Function.update_of_ne flipped]
      exact otherKept
  have spellsUp : links'.Spells null (down.child side)
      (nodeOn (!side) pivot (nodeOn side entry inner other) outer) := by
    refine spells_nodeOn.mpr ⟨isPivot, real, _, atUp, value', ?_, ?_⟩
    · change links'.Spells null (Function.update up.child (!side) _ (!side)) _
      rw [Function.update_self]
      exact spellsDown
    · change links'.Spells null (Function.update up.child (!side) _ (!(!side))) outer
      rw [Bool.not_not, Function.update_of_ne flipped.symm]
      exact outerKept
  rcases focus.put links' (down.child side) _ spellsUp (fun y mem outside => by
    rw [mem_keysOf_nodeOn, not_or, not_or] at outside
    refine others y mem outside.1 (fun same => outside.2.1 ?_)
    exact same ▸ spellsChild.root_mem real) with ⟨tree', spellsTree', split'⟩
  refine ⟨tree', spellsTree', split'.trans ?_⟩
  rw [focus.split, ← rotate_nodeOn, toList_rotate]

/-- A node gets another value, and maybe another key. -/
theorem Spells.relabel (spells : links.Spells null key tree) (nodup : (keysOf tree).Nodup)
    (mem : x ∈ keysOf tree) (found : links x = some link) (real : z ≠ null)
    (here : links' z = some { link with value })
    (others : ∀ y ∈ keysOf tree, y ≠ x → links' y = (links y).map (Link.redirect x z)) :
    ∃ tree', links'.Spells null (Link.aim x z key) tree' ∧ ∃ lower upper,
      tree.toList = lower ++ (x, link.value) :: upper ∧
      tree'.toList = lower ++ (z, value) :: upper := by
  rcases spells.focus nodup mem with ⟨sub, before, after, focus⟩
  have nodupSub := focus.nodup nodup
  rcases focus.root true with ⟨⟨_, value'⟩, left, right, link', rfl, rfl, found', rfl, spellsLeft,
    spellsRight⟩
  cases found.symm.trans found'
  rcases nodup_nodeOn nodupSub with ⟨-, -, notLeft, notRight, -⟩
  have leftKept := spellsLeft.elsewhere (z := z) notLeft focus.real
    (fun y inLeft => others y
      (focus.inside (mem_keysOf_nodeOn.mpr (Or.inr (Or.inl inLeft))))
      (fun same => notLeft (same ▸ inLeft)))
  have rightKept := spellsRight.elsewhere (z := z) notRight focus.real
    (fun y inRight => others y
      (focus.inside (mem_keysOf_nodeOn.mpr (Or.inr (Or.inr inRight))))
      (fun same => notRight (same ▸ inRight)))
  have spells' : links'.Spells null z (nodeOn true (z, value) left right) :=
    spells_nodeOn.mpr ⟨rfl, real, _, here, rfl, leftKept, rightKept⟩
  rcases focus.put links' z _ spells' (fun y mem outside => by
    rw [mem_keysOf_nodeOn, not_or] at outside
    exact others y mem outside.1) with ⟨tree', spellsTree', split'⟩
  refine ⟨tree', spellsTree', before ++ left.toList, right.toList ++ after, ?_, ?_⟩
  · rw [focus.split]
    simp [nodeOn, toList]
  · rw [split']
    simp [nodeOn, toList]

/-- A node with at most one child is taken out. -/
theorem Spells.remove (spells : links.Spells null key tree) (nodup : (keysOf tree).Nodup)
    (mem : x ∈ keysOf tree) (found : links x = some link) (side : Bool)
    (single : link.child (!side) = null)
    (others : ∀ y ∈ keysOf tree, y ≠ x →
      links' y = (links y).map (Link.redirect x (link.child side))) :
    ∃ tree', links'.Spells null (Link.aim x (link.child side) key) tree' ∧ ∃ lower upper,
      tree.toList = lower ++ (x, link.value) :: upper ∧ tree'.toList = lower ++ upper := by
  rcases spells.focus nodup mem with ⟨sub, before, after, focus⟩
  have nodupSub := focus.nodup nodup
  rcases focus.root side with ⟨⟨_, value'⟩, child, other, link', rfl, rfl, found', rfl, spellsChild,
    spellsOther⟩
  cases found.symm.trans found'
  rcases nodup_nodeOn nodupSub with ⟨-, -, notChild, -, -⟩
  have noOther : other = nil := by
    cases other with
    | nil => rfl
    | node entry left right =>
        rw [single] at spellsOther
        exact absurd rfl spellsOther.2.1
  subst noOther
  have childKept := spellsChild.elsewhere (z := link.child side) notChild
    focus.real (fun y inChild => others y
      (focus.inside (mem_keysOf_nodeOn.mpr (Or.inr (Or.inl inChild))))
      (fun same => notChild (same ▸ inChild)))
  rcases focus.put links' (link.child side) child childKept (fun y mem outside => by
    rw [mem_keysOf_nodeOn, not_or] at outside
    exact others y mem outside.1) with ⟨tree', spellsTree', split'⟩
  refine ⟨tree', spellsTree', ?_⟩
  rw [focus.split, split']
  cases side with
  | true => exact ⟨before ++ child.toList, after, by simp [nodeOn, toList], by simp⟩
  | false => exact ⟨before, child.toList ++ after, by simp [nodeOn, toList], by simp⟩

/-- A new node is hung in the place of a missing child. -/
theorem Focus.insert (focus : Focus links null key tree x
    (nodeOn side entry nil other) before after)
    (nodup : (keysOf tree).Nodup) (found : links x = some link)
    (real : z ≠ null) (here : links' x = some (link.setChild side z))
    (leaf : links' z = some ⟨value, fun _ => null⟩)
    (others : ∀ y ∈ keysOf tree, y ≠ x → links' y = links y) :
    ∃ tree', links'.Spells null key tree' ∧
      tree.toList = beforeChild side entry other before ++ afterChild side entry other after ∧
      tree'.toList = beforeChild side entry other before ++
        (z, value) :: afterChild side entry other after := by
  rcases spells_nodeOn.mp focus.spells with ⟨isEntry, -, link', found', value', -, spellsOther⟩
  cases found.symm.trans found'
  rcases nodup_nodeOn (focus.nodup nodup) with ⟨-, -, -, notOther, -⟩
  have flipped : (!side) ≠ side := by simp
  have otherKept : links'.Spells null (link.child !side) other :=
    spellsOther.congr (fun y inOther => others y
      (focus.inside (mem_keysOf_nodeOn.mpr (Or.inr (Or.inr inOther))))
      (fun same => notOther (isEntry ▸ same ▸ inOther)))
  have spells' : links'.Spells null x (nodeOn side entry (node (z, value) nil nil) other) := by
    refine spells_nodeOn.mpr ⟨isEntry, focus.real, _, here, value', ?_, ?_⟩
    · change links'.Spells null (Function.update link.child side z side) _
      rw [Function.update_self]
      exact ⟨rfl, real, _, leaf, rfl, rfl, rfl⟩
    · change links'.Spells null (Function.update link.child side z (!side)) other
      rw [Function.update_of_ne flipped]
      exact otherKept
  rcases focus.replace spells' (fun y mem outside => by
    rw [mem_keysOf_nodeOn, not_or] at outside
    exact others y mem (isEntry ▸ outside.1)) with ⟨tree', spellsTree', split'⟩
  refine ⟨tree', spellsTree', ?_, ?_⟩
  · rw [focus.split, toList_nodeOn_between]
    simp [toList]
  · rw [split', toList_nodeOn_between]
    simp [toList]

end Changes

/-! ## Searching -/

section Search

variable {κ : Type u} {ν : Type v} [LinearOrder κ] {tree child other sub : BinaryTree (κ × ν)}
  {key : κ} {before after : List (κ × ν)} {entry : κ × ν} {side : Bool}

/-- A key belongs between the values before and after. -/
def Encloses (key : κ) (before after : List (κ × ν)) : Prop :=
  (∀ entry ∈ before, entry.1 < key) ∧ ∀ entry ∈ after, key < entry.1

theorem encloses_nil (key : κ) : Encloses key ([] : List (κ × ν)) [] :=
  ⟨fun _ mem => absurd mem List.not_mem_nil, fun _ mem => absurd mem List.not_mem_nil⟩

/-- There is one way to split an ordered tree at a key. -/
theorem split_unique {value value' : ν} {before' after' : List (κ × ν)} (ordered : tree.Ordered)
    (split : tree.toList = before ++ (key, value) :: after)
    (split' : tree.toList = before' ++ (key, value') :: after') :
    before = before' ∧ value = value' ∧ after = after' := by
  rw [Ordered, split', List.map_append, List.map_cons, List.pairwise_append,
    List.pairwise_cons] at ordered
  rcases ordered with ⟨-, ⟨above, -⟩, below⟩
  have notBefore : (key, value) ∉ before' := fun mem =>
    lt_irrefl key (below key (List.mem_map_of_mem mem) key List.mem_cons_self)
  have notAfter : (key, value) ∉ after' := fun mem =>
    lt_irrefl key (above key (List.mem_map_of_mem mem))
  rcases (List.append_cons_inj_of_notMem notBefore notAfter).mp (split'.symm.trans split) with
    ⟨sameBefore, sameEntry, sameAfter⟩
  exact ⟨sameBefore.symm, (Prod.ext_iff.mp sameEntry).2.symm, sameAfter.symm⟩

/-- A key of the tree is in the subtree where it belongs. -/
theorem Encloses.mem_sub (encloses : Encloses key before after)
    (split : tree.toList = before ++ sub.toList ++ after) (mem : key ∈ keysOf tree) :
    key ∈ keysOf sub := by
  rw [keysOf, split, List.map_append, List.map_append, List.mem_append, List.mem_append] at mem
  rcases mem with (inBefore | inSub) | inAfter
  · rcases List.mem_map.mp inBefore with ⟨entry, entryMem, rfl⟩
    exact absurd (encloses.1 entry entryMem) (lt_irrefl _)
  · exact inSub
  · rcases List.mem_map.mp inAfter with ⟨entry, entryMem, rfl⟩
    exact absurd (encloses.2 entry entryMem) (lt_irrefl _)

/-- The comparison with the root tells on which side a key belongs. -/
theorem Encloses.down (encloses : Encloses key before after) (ordered : tree.Ordered)
    (split : tree.toList = before ++ (nodeOn side entry child other).toList ++ after)
    (isSide : side = decide (key < entry.1)) (away : key ≠ entry.1) :
    Encloses key (beforeChild side entry other before) (afterChild side entry other after) := by
  rw [Ordered, split, List.map_append, List.map_append, List.pairwise_append,
    List.pairwise_append] at ordered
  rcases ordered with ⟨⟨-, inSub, -⟩, -⟩
  cases side with
  | true =>
      have less : key < entry.1 := of_decide_eq_true isSide.symm
      refine ⟨encloses.1, fun entry' mem => ?_⟩
      simp only [afterChild, if_true, List.cons_append, List.mem_cons, List.mem_append] at mem
      rcases mem with rfl | inOther | inAfter
      · exact less
      · refine less.trans ?_
        simp only [nodeOn, toList, List.map_append, List.map_cons, List.pairwise_append,
          List.pairwise_cons] at inSub
        exact inSub.2.1.1 entry'.1 (List.mem_map_of_mem inOther)
      · exact encloses.2 entry' inAfter
  | false =>
      have greater : entry.1 < key :=
        lt_of_le_of_ne (not_lt.mp (of_decide_eq_false isSide.symm)) away.symm
      refine ⟨fun entry' mem => ?_, encloses.2⟩
      simp only [beforeChild, Bool.false_eq_true, if_false, List.mem_append,
        List.mem_singleton] at mem
      rcases mem with inBefore | inOther | rfl
      · exact encloses.1 entry' inBefore
      · refine lt_trans ?_ greater
        simp only [nodeOn, toList, List.map_append, List.map_cons, List.pairwise_append] at inSub
        exact inSub.2.2 entry'.1 (List.mem_map_of_mem inOther) entry.1 List.mem_cons_self
      · exact greater

end Search

end Links
