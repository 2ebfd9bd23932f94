import TieredOMap.Oram.DaOram
import TieredOMap.Oram.Labelled

/-!
# What a DAORAM holds

`Plan` is what never changes in a DAORAM. Its state is the counters of every
group of every stage and the values of the data blocks: these determine each
block of each tree, its leaf included (`Represents`).

While an access is on its way down, the counters of a stage are ahead of the
leaves there. `Holding` lets the leaves lag behind, and `Due` says that the moves
the access knows of bring them up to date.
-/

namespace TieredOmap

open BinaryTreeStorage

/-- What never changes in a DAORAM, by stage. -/
structure Plan where
  numIc : Nat
  icMax : Nat
  prf : Prf
  top : Nat
  sizes : Nat → Nat
  levels : Nat → Nat

/-- The counters of every group of every stage. -/
abbrev Counters := Nat → Nat → CounterBlock

namespace Plan

/-- The number of leaves of a stage. -/
def leafRange (plan : Plan) (stage : Nat) : Nat := 2 ^ (plan.levels stage - 1)

/-- The number of groups of a stage. -/
def groups (plan : Plan) (stage : Nat) : Nat := groupCount plan.numIc (plan.sizes stage)

/-- The key of a stage on the way to a data key. -/
def keyAt (plan : Plan) (key stage : Nat) : Nat := ancestor plan.numIc key stage

/-- The counters are compressed as the construction promises, and each stage manages the one below. -/
structure Valid (plan : Plan) : Prop where
  numIcPos : 0 < plan.numIc
  fewIc : plan.numIc ≤ plan.icMax + 1
  smallMax : plan.icMax ≤ 256
  manages : ∀ stage < plan.top, plan.sizes (stage + 1) = plan.groups stage

/-- The leaves that the counters give to the keys of a stage. -/
def labelsOf (plan : Plan) (counters : Counters) (stage key : Nat) : Int :=
  CounterBlock.label plan.prf plan.numIc (plan.leafRange stage)
    (counters stage (key / plan.numIc)) key

/-- The values of the blocks of a stage. -/
def valueAt (counters : Counters) (values : Nat → Bytes) : Nat → Nat → Bytes
  | 0 => values
  | level + 1 => fun group => (counters level group).encode

/-- The counters of a stage after an access to a data key has used them. -/
def touchGroup (plan : Plan) (key stage : Nat) (groups : Nat → CounterBlock) :
    Nat → CounterBlock :=
  Function.update groups (plan.keyAt key stage / plan.numIc)
    ((groups (plan.keyAt key stage / plan.numIc)).touched plan.prf plan.icMax plan.numIc
      (plan.keyAt key stage) (plan.sizes stage) (plan.leafRange stage))

variable {plan : Plan}

theorem leafRange_pos (plan : Plan) (stage : Nat) : 0 < plan.leafRange stage :=
  Nat.two_pow_pos _

theorem div_lt_groups (valid : plan.Valid) {stage key : Nat} (keyLt : key < plan.sizes stage) :
    key / plan.numIc < plan.groups stage := by
  have positive := valid.numIcPos
  have rounded : plan.sizes stage + plan.numIc - 1 = (plan.sizes stage - 1) + plan.numIc := by omega
  rw [groups, groupCount, rounded, Nat.add_div_right _ positive]
  exact Nat.lt_succ_of_le (Nat.div_le_div_right (by omega))

theorem keyAt_lt (valid : plan.Valid) {key : Nat} (keyLt : key < plan.sizes 0) {stage : Nat}
    (stageLe : stage ≤ plan.top) : plan.keyAt key stage < plan.sizes stage := by
  induction stage with
  | zero => exact keyLt
  | succ stage ih =>
      rw [valid.manages stage (by omega)]
      exact div_lt_groups valid (ih (by omega))

theorem labelsOf_isLeaf (plan : Plan) (counters : Counters) (stage key : Nat) :
    IsLeaf (plan.levels stage) (plan.labelsOf counters stage key) := by
  have range := prfLeaf_range plan.prf key (if (counters stage (key / plan.numIc)).backup.getD
    (key % plan.numIc) 0 = 1 then (counters stage (key / plan.numIc)).gc - 1
      else (counters stage (key / plan.numIc)).gc) ((counters stage (key / plan.numIc)).ic.getD
        (key % plan.numIc) 0) (plan.leafRange stage)
  rw [Nat.max_eq_left (plan.leafRange_pos stage)] at range
  exact ⟨range.1, by exact_mod_cast range.2⟩

theorem valueAt_update (counters : Counters) (values : Nat → Bytes) (level : Nat)
    (groups : Nat → CounterBlock) (stage : Nat) :
    valueAt (Function.update counters level groups) values stage =
      if stage = level + 1 then fun group => (groups group).encode
      else valueAt counters values stage := by
  cases stage with
  | zero => rfl
  | succ level' =>
      by_cases here : level' = level
      · simp [valueAt, here]
      · simp [valueAt, here]

/-! ## Moves that are due -/

/-- The leaves of a stage after the moves that an access knows of. -/
def relabelled (cur : PosMapResult) (key : Nat) (label : Nat → Int) : Nat → Int :=
  match cur.rKey with
  | some rKey => Function.update (Function.update label key cur.newLeaf) rKey cur.rNewLeaf
  | none => Function.update label key cur.newLeaf

/--
`cur` tells where the blocks that it moves are under the leaves `old` and where
they go under the leaves `new`; no other block of the stage moves.
-/
structure Due (plan : Plan) (stage key : Nat) (old new : Nat → Int) (cur : PosMapResult) :
    Prop where
  leaf1 : cur.leaf1 = old (plan.keyAt key stage)
  isLeaf2 : IsLeaf (plan.levels stage) cur.leaf2
  newIsLeaf : IsLeaf (plan.levels stage) cur.newLeaf
  reset : ∀ rKey, cur.rKey = some rKey → rKey ≠ plan.keyAt key stage ∧
    rKey < plan.sizes stage ∧ cur.leaf2 = old rKey ∧ IsLeaf (plan.levels stage) cur.rNewLeaf
  moved : ∀ k < plan.sizes stage, relabelled cur (plan.keyAt key stage) old k = new k

/-- Using a group makes moves due. -/
theorem due_of_moves {stage key : Nat} {counters counters' : Counters} {cur : PosMapResult}
    (moves : CounterBlock.Moves plan.prf plan.numIc (plan.sizes stage) (plan.leafRange stage)
      (counters stage (plan.keyAt key stage / plan.numIc))
      (counters' stage (plan.keyAt key stage / plan.numIc)) (plan.keyAt key stage) cur)
    (frame : ∀ group, group ≠ plan.keyAt key stage / plan.numIc →
      counters' stage group = counters stage group) :
    plan.Due stage key (plan.labelsOf counters stage) (plan.labelsOf counters' stage) cur := by
  have untouched : ∀ k < plan.sizes stage, k ≠ plan.keyAt key stage → cur.rKey ≠ some k →
      plan.labelsOf counters stage k = plan.labelsOf counters' stage k := by
    intro k kLt other notReset
    by_cases inGroup : k / plan.numIc = plan.keyAt key stage / plan.numIc
    · rw [labelsOf, labelsOf, inGroup]
      exact (moves.others k inGroup kLt other notReset).symm
    · rw [labelsOf, labelsOf, frame _ inGroup]
  have newLeafEq : cur.newLeaf = plan.labelsOf counters' stage (plan.keyAt key stage) :=
    moves.newLeaf
  have leaf2Range := moves.leaf2
  rw [Nat.max_eq_left (plan.leafRange_pos stage)] at leaf2Range
  refine ⟨moves.leaf1, ⟨leaf2Range.1, by exact_mod_cast leaf2Range.2⟩,
    newLeafEq ▸ plan.labelsOf_isLeaf counters' stage _, ?_, ?_⟩
  · intro rKey isReset
    rcases moves.reset rKey isReset with ⟨other, inGroup, rLt, leaf2Eq, rNewLeafEq⟩
    refine ⟨other, rLt, ?_, ?_⟩
    · rw [labelsOf, inGroup, leaf2Eq]
    · have isLeaf := plan.labelsOf_isLeaf counters' stage rKey
      rw [labelsOf, inGroup, ← rNewLeafEq] at isLeaf
      exact isLeaf
  · intro k kLt
    rcases isReset : cur.rKey with _ | rKey
    · simp only [relabelled, isReset]
      by_cases isKey : k = plan.keyAt key stage
      · rw [isKey, Function.update_self, newLeafEq]
      · rw [Function.update_of_ne isKey]
        exact untouched k kLt isKey (by simp [isReset])
    · rcases moves.reset rKey isReset with ⟨other, inGroup, _, _, rNewLeafEq⟩
      simp only [relabelled, isReset]
      by_cases isR : k = rKey
      · rw [isR, Function.update_self, rNewLeafEq, labelsOf, inGroup]
      · rw [Function.update_of_ne isR]
        by_cases isKey : k = plan.keyAt key stage
        · rw [isKey, Function.update_self, newLeafEq]
        · rw [Function.update_of_ne isKey]
          exact untouched k kLt isKey (by rw [isReset]; exact fun same => isR (by simpa using same.symm))

end Plan

namespace DAOram

section Visit

variable {cipher : Cipher} {tree : PathORAM} {level size : Nat} {nodes : Finset Nat}
  {label : Nat → Int} {value : Nat → Bytes} {cur : PosMapResult}

theorem inStash_relabelReset {key : Nat} :
    (relabelReset tree cur).InStash key ↔ tree.InStash key := by
  unfold relabelReset
  split
  · rw [PathORAM.inStash_updateInStash]
    exact fun _ => rfl
  · exact Iff.rfl

/-- Both moves of a visit. -/
theorem labelled_visit (labelled : tree.Labelled level nodes size label value) {key : Nat}
    (inStash : tree.InStash key) (newIsLeaf : IsLeaf level cur.newLeaf)
    (resets : ∀ rKey, cur.rKey = some rKey → tree.InStash rKey ∧ IsLeaf level cur.rNewLeaf)
    {f : Block → Block} {content : Bytes} (sameKey : ∀ block, (f block).key = block.key)
    (changed : f ⟨key, label key, value key⟩ = ⟨key, cur.newLeaf, content⟩) :
    (relabelReset (tree.updateInStash key f) cur).Labelled level nodes size
      (Plan.relabelled cur key label) (Function.update value key content) := by
  have updated := labelled.updateInStash inStash newIsLeaf changed
  unfold relabelReset Plan.relabelled
  rcases isReset : cur.rKey with _ | rKey
  · exact updated
  · rcases resets rKey isReset with ⟨rInStash, rIsLeaf⟩
    have relabelled := updated.updateInStash ((PathORAM.inStash_updateInStash sameKey).mpr rInStash)
      rIsLeaf (f := fun block => { block with leaf := cur.rNewLeaf }) rfl
    rwa [Function.update_eq_self] at relabelled

end Visit

/-- The DAORAM is built after the plan. -/
structure Follows (da : DAOram) (plan : Plan) : Prop where
  numIc : da.numIc = plan.numIc
  icMax : da.icMax = plan.icMax
  prf : da.prf = plan.prf
  top : da.numPosLevels = plan.top
  trees : da.posMaps.length = plan.top
  sizes : ∀ stage ≤ plan.top, da.sizeAt stage = plan.sizes stage

variable [Cipher]

/-- The DAORAM holds counters and values, each block under the leaf that `labels` gives it. -/
structure Holding (da : DAOram) (plan : Plan) (counters : Counters) (labels : Nat → Nat → Int)
    (out : Nat → Finset Nat) (values : Nat → Bytes) : Prop where
  follows : da.Follows plan
  onChip : da.onChip = (List.range (plan.groups plan.top)).map (counters plan.top)
  sound : ∀ stage ≤ plan.top, ∀ group < plan.groups stage,
    (counters stage group).Sound plan.numIc (group * plan.numIc) (plan.sizes stage)
  labelled : ∀ stage ≤ plan.top, @PathORAM.Labelled (cipherAt stage) (da.treeAt stage)
    (plan.levels stage) (out stage) (plan.sizes stage) (labels stage)
    (Plan.valueAt counters values stage)

/-- The DAORAM holds counters and values, each block under the leaf of its counters. -/
def Represents (da : DAOram) (plan : Plan) (counters : Counters) (values : Nat → Bytes) : Prop :=
  da.Holding plan counters (plan.labelsOf counters) (fun _ => ∅) values

variable {da : DAOram} {plan : Plan} {counters : Counters} {labels : Nat → Nat → Int}
  {out : Nat → Finset Nat} {values : Nat → Bytes}

omit [Cipher] in
theorem treeAt_setTreeAt (tree : PathORAM) {stage : Nat} (stageLe : stage ≤ da.posMaps.length)
    (stage' : Nat) :
    (da.setTreeAt tree stage).treeAt stage' = if stage' = stage then tree else da.treeAt stage' := by
  cases stage with
  | zero => cases stage' <;> simp [setTreeAt, treeAt]
  | succ level =>
      cases stage' with
      | zero => simp [setTreeAt, treeAt]
      | succ level' =>
          simp only [setTreeAt, treeAt, Nat.succ_inj]
          by_cases here : level' = level
          · subst here
            simp [List.getD_eq_getElem?_getD, show level' < da.posMaps.length by omega]
          · simp [List.getD_eq_getElem?_getD, List.getElem?_set_ne (Ne.symm here), here]

omit [Cipher] in
theorem setTreeAt_keeps (da : DAOram) (tree : PathORAM) (stage : Nat) :
    (da.setTreeAt tree stage).numData = da.numData ∧ (da.setTreeAt tree stage).numIc = da.numIc ∧
      (da.setTreeAt tree stage).icMax = da.icMax ∧ (da.setTreeAt tree stage).prf = da.prf ∧
      (da.setTreeAt tree stage).levelSizes = da.levelSizes ∧
      (da.setTreeAt tree stage).posMaps.length = da.posMaps.length ∧
      (da.setTreeAt tree stage).onChip = da.onChip ∧
      (da.setTreeAt tree stage).step = da.step ∧ (da.setTreeAt tree stage).pbStep = da.pbStep := by
  cases stage with
  | zero => simp [setTreeAt]
  | succ level => simp [setTreeAt]

omit [Cipher] in
theorem Follows.setTreeAt (follows : da.Follows plan) (tree : PathORAM) (stage : Nat) :
    (da.setTreeAt tree stage).Follows plan := by
  rcases da.setTreeAt_keeps tree stage with
    ⟨numData, numIc, icMax, prf, levelSizes, length, _, _, _⟩
  refine ⟨numIc.trans follows.numIc, icMax.trans follows.icMax, prf.trans follows.prf, ?_,
    length.trans follows.trees, ?_⟩
  · rw [numPosLevels, levelSizes]
    exact follows.top
  · intro stage' stageLe
    rw [← follows.sizes stage' stageLe]
    cases stage' with
    | zero => exact numData
    | succ level => exact congrArg (fun sizes => sizes.getD level 0) levelSizes

theorem Holding.leafRangeAt_eq (holding : da.Holding plan counters labels out values) {stage : Nat}
    (stageLe : stage ≤ plan.top) : da.leafRangeAt stage = plan.leafRange stage :=
  (holding.labelled stage stageLe).leafRange_eq

/-- Replace the tree of a stage together with what its blocks stand for. -/
theorem Holding.replace (holding : da.Holding plan counters labels out values) {stage : Nat}
    (stageLe : stage ≤ plan.top) {tree : PathORAM} {nodes : Finset Nat} {label : Nat → Int}
    {counters' : Counters} {values' : Nat → Bytes}
    (labelled : @PathORAM.Labelled (cipherAt stage) tree (plan.levels stage) nodes
      (plan.sizes stage) label (Plan.valueAt counters' values' stage))
    (others : ∀ stage' ≤ plan.top, stage' ≠ stage →
      Plan.valueAt counters' values' stage' = Plan.valueAt counters values stage')
    (sameTop : counters' plan.top = counters plan.top)
    (sound : ∀ stage ≤ plan.top, ∀ group < plan.groups stage,
      (counters' stage group).Sound plan.numIc (group * plan.numIc) (plan.sizes stage)) :
    (da.setTreeAt tree stage).Holding plan counters' (Function.update labels stage label)
      (Function.update out stage nodes) values' := by
  refine ⟨holding.follows.setTreeAt tree stage, ?_, sound, ?_⟩
  · rw [(da.setTreeAt_keeps tree stage).2.2.2.2.2.2.1, sameTop]
    exact holding.onChip
  · intro stage' stageLe'
    rw [treeAt_setTreeAt tree (by rw [holding.follows.trees]; exact stageLe)]
    by_cases here : stage' = stage
    · subst here
      simpa using labelled
    · simp only [here, if_false, Function.update_of_ne here, others stage' stageLe' here]
      exact holding.labelled stage' stageLe'

/-- Replace the tree of a stage by one that stands for the same. -/
theorem Holding.setTreeAt (holding : da.Holding plan counters labels out values) {stage : Nat}
    (stageLe : stage ≤ plan.top) {tree : PathORAM} {nodes : Finset Nat} {label : Nat → Int}
    (labelled : @PathORAM.Labelled (cipherAt stage) tree (plan.levels stage) nodes
      (plan.sizes stage) label (Plan.valueAt counters values stage)) :
    (da.setTreeAt tree stage).Holding plan counters (Function.update labels stage label)
      (Function.update out stage nodes) values :=
  holding.replace stageLe labelled (fun _ _ _ => rfl) rfl holding.sound

/-- Replace the tree of a position-map level together with the counters that it stores. -/
theorem Holding.setGroups (holding : da.Holding plan counters labels out values) {level : Nat}
    (levelLt : level < plan.top) {groups : Nat → CounterBlock}
    (sound : ∀ group < plan.groups level,
      (groups group).Sound plan.numIc (group * plan.numIc) (plan.sizes level))
    {tree : PathORAM} {nodes : Finset Nat} {label : Nat → Int}
    (labelled : @PathORAM.Labelled (cipherAt (level + 1)) tree (plan.levels (level + 1)) nodes
      (plan.sizes (level + 1)) label (fun group => (groups group).encode)) :
    (da.setTreeAt tree (level + 1)).Holding plan (Function.update counters level groups)
      (Function.update labels (level + 1) label) (Function.update out (level + 1) nodes) values := by
  refine holding.replace levelLt ?_ ?_ (Function.update_of_ne (Nat.ne_of_gt levelLt) _ _) ?_
  · rwa [Plan.valueAt_update, if_pos rfl]
  · intro stage _ other
    rw [Plan.valueAt_update, if_neg other]
  · intro stage stageLe group groupLt
    by_cases here : stage = level
    · subst here
      rw [Function.update_self]
      exact sound group groupLt
    · rw [Function.update_of_ne here]
      exact holding.sound stage stageLe group groupLt

/-! ## Using the counters -/

omit [Cipher] in
theorem sound_touchGroup {stage key : Nat} {groups : Nat → CounterBlock}
    (sound : ∀ group < plan.groups stage,
      (groups group).Sound plan.numIc (group * plan.numIc) (plan.sizes stage))
    (usedSound : (plan.touchGroup key stage groups (plan.keyAt key stage / plan.numIc)).Sound
      plan.numIc (plan.keyAt key stage / plan.numIc * plan.numIc) (plan.sizes stage)) (group : Nat)
    (groupLt : group < plan.groups stage) :
    (plan.touchGroup key stage groups group).Sound plan.numIc (group * plan.numIc)
      (plan.sizes stage) := by
  by_cases here : group = plan.keyAt key stage / plan.numIc
  · rwa [here]
  · rw [Plan.touchGroup, Function.update_of_ne here]
    exact sound group groupLt

omit [Cipher] in
theorem map_range_set {α : Type} (f : Nat → α) (count i : Nat) (value : α) :
    ((List.range count).map f).set i value = (List.range count).map (Function.update f i value) := by
  refine List.ext_getElem (by simp) ?_
  intro j _ _
  by_cases here : i = j
  · subst here
    simp
  · rw [List.getElem_set_ne here]
    simp [Function.update_of_ne (Ne.symm here)]

omit [Cipher] in
theorem Follows.keyAt_eq (follows : da.Follows plan) (key stage : Nat) :
    da.keyAt key stage = plan.keyAt key stage := by
  rw [keyAt, Plan.keyAt, follows.numIc]

/-- Using the group of a key. -/
theorem Holding.ends_touch (holding : da.Holding plan counters labels out values)
    (valid : plan.Valid) {key stage : Nat} (keyLt : key < plan.sizes 0)
    (stageLe : stage ≤ plan.top) :
    Ends ((counters stage (plan.keyAt key stage / plan.numIc)).touch da.prf da.icMax da.numIc
        (da.keyAt key stage) (da.sizeAt stage) (da.leafRangeAt stage)) (fun outcome =>
      outcome.2 = plan.touchGroup key stage (counters stage) (plan.keyAt key stage / plan.numIc) ∧
      outcome.2.Sound plan.numIc (plan.keyAt key stage / plan.numIc * plan.numIc)
        (plan.sizes stage) ∧
      CounterBlock.Moves plan.prf plan.numIc (plan.sizes stage) (plan.leafRange stage)
        (counters stage (plan.keyAt key stage / plan.numIc)) outcome.2 (plan.keyAt key stage)
        outcome.1) := by
  have managedLt := Plan.keyAt_lt valid keyLt stageLe
  have groupLt := Plan.div_lt_groups valid managedLt
  rw [holding.follows.prf, holding.follows.icMax, holding.follows.numIc,
    holding.follows.keyAt_eq, holding.follows.sizes stage stageLe, holding.leafRangeAt_eq stageLe,
    Plan.touchGroup, Function.update_self]
  exact (holding.sound stage stageLe _ groupLt).ends_touch valid.numIcPos managedLt valid.fewIc
    valid.smallMax

/-- Using a group on the chip makes moves due at the last stage. -/
theorem Holding.ends_touchOnChip (holding : da.Holding plan counters labels out values)
    (valid : plan.Valid) {key : Nat} (keyLt : key < plan.sizes 0) :
    Ends (da.touchOnChip key) (fun outcome =>
      outcome.2.Holding plan
        (Function.update counters plan.top (plan.touchGroup key plan.top (counters plan.top)))
        labels out values ∧
      plan.Due plan.top key (plan.labelsOf counters plan.top)
        (plan.labelsOf (Function.update counters plan.top
          (plan.touchGroup key plan.top (counters plan.top))) plan.top) outcome.1 ∧
      ∃ onChip, outcome.2 = { da with onChip }) := by
  have groupLt := Plan.div_lt_groups valid (Plan.keyAt_lt valid keyLt (Nat.le_refl plan.top))
  have onChipAt : da.onChip[da.keyAt key plan.top / da.numIc]? =
      some (counters plan.top (plan.keyAt key plan.top / plan.numIc)) := by
    rw [holding.onChip, holding.follows.keyAt_eq, holding.follows.numIc]
    simp [groupLt]
  unfold DAOram.touchOnChip
  dsimp only
  rw [holding.follows.top, onChipAt]
  refine Prog.ends_bind (holding.ends_touch valid keyLt (Nat.le_refl plan.top)) ?_
  rintro ⟨cur, cb⟩ ⟨rfl, cbSound, moves⟩
  refine Prog.ends_pure ⟨⟨⟨holding.follows.numIc, holding.follows.icMax, holding.follows.prf,
    holding.follows.top, holding.follows.trees, holding.follows.sizes⟩, ?_, ?_, ?_⟩, ?_, _, rfl⟩
  · dsimp only
    rw [holding.onChip, holding.follows.keyAt_eq, holding.follows.numIc, Function.update_self]
    rw [map_range_set, Plan.touchGroup, Function.update_self]
  · intro stage stageLe group groupLt'
    by_cases here : stage = plan.top
    · subst here
      rw [Function.update_self]
      exact sound_touchGroup (holding.sound plan.top (Nat.le_refl _)) cbSound group groupLt'
    · rw [Function.update_of_ne here]
      exact holding.sound stage stageLe group groupLt'
  · intro stage stageLe
    rw [Plan.valueAt_update, if_neg (by omega)]
    exact holding.labelled stage stageLe
  · refine Plan.due_of_moves ?_ ?_
    · rw [Function.update_self]
      exact moves
    · intro group other
      rw [Function.update_self, Plan.touchGroup, Function.update_of_ne other]

/-! ## Visiting a tree -/

/-- The blocks that an access moves at a stage are in the stash. -/
def Fetched (da : DAOram) (plan : Plan) (key stage : Nat) (cur : PosMapResult) : Prop :=
  (da.treeAt stage).InStash (plan.keyAt key stage) ∧
    ∀ rKey, cur.rKey = some rKey → (da.treeAt stage).InStash rKey

/-- Visiting a position-map block moves what is due at its stage and makes moves due below. -/
theorem Holding.ends_visitPosMap (holding : da.Holding plan counters labels out values)
    (valid : plan.Valid) {key level : Nat} (keyLt : key < plan.sizes 0)
    (levelLt : level < plan.top) {old new : Nat → Int} {cur : PosMapResult}
    (due : plan.Due (level + 1) key old new cur) (fetched : da.Fetched plan key (level + 1) cur) :
    Ends (da.visitPosMap key level cur) (fun outcome =>
      outcome.2.Holding plan
        (Function.update counters level (plan.touchGroup key level (counters level)))
        (Function.update labels (level + 1)
          (Plan.relabelled cur (plan.keyAt key (level + 1)) (labels (level + 1)))) out values ∧
      plan.Due level key (plan.labelsOf counters level)
        (plan.labelsOf (Function.update counters level
          (plan.touchGroup key level (counters level))) level) outcome.1 ∧
      ∃ tree, outcome.2 = da.setTreeAt tree (level + 1) ∧
        ∀ k, tree.InStash k ↔ (da.treeAt (level + 1)).InStash k) := by
  have groupLt := Plan.div_lt_groups valid (Plan.keyAt_lt valid keyLt (Nat.le_of_lt levelLt))
  have labelled := holding.labelled (level + 1) levelLt
  have found := (labelled.found fetched.1).2
  have sound := holding.sound level (Nat.le_of_lt levelLt) _ groupLt
  have decoded : CounterBlock.decode (Plan.valueAt counters values (level + 1)
      (plan.keyAt key (level + 1))) da.numIc =
        counters level (plan.keyAt key level / plan.numIc) := by
    rw [holding.follows.numIc]
    exact CounterBlock.decode_encode sound.icLength sound.backupLength
  unfold DAOram.visitPosMap
  dsimp only
  rw [holding.follows.keyAt_eq key (level + 1), found]
  dsimp only
  rw [decoded]
  refine Prog.ends_bind (holding.ends_touch valid keyLt (Nat.le_of_lt levelLt)) ?_
  rintro ⟨next, cb⟩ ⟨rfl, cbSound, moves⟩
  refine Prog.ends_pure ⟨?_, ?_, _, rfl, ?_⟩
  · have usedSound := sound_touchGroup (holding.sound level (Nat.le_of_lt levelLt)) cbSound
    have visited := labelled_visit labelled fetched.1 due.newIsLeaf
      (fun rKey isReset => ⟨fetched.2 rKey isReset, (due.reset rKey isReset).2.2.2⟩)
      (f := fun block => { block with
        value := (plan.touchGroup key level (counters level)
          (plan.keyAt key level / plan.numIc)).encode
        leaf := cur.newLeaf }) (fun _ => rfl) rfl
    have stored : Function.update (Plan.valueAt counters values (level + 1))
        (plan.keyAt key (level + 1)) (plan.touchGroup key level (counters level)
          (plan.keyAt key level / plan.numIc)).encode =
            fun group => (plan.touchGroup key level (counters level) group).encode := by
      funext group
      by_cases here : group = plan.keyAt key level / plan.numIc
      · subst here
        exact Function.update_self _ _ _
      · rw [Plan.touchGroup, Function.update_of_ne here]
        exact Function.update_of_ne here _ _
    rw [stored] at visited
    have set := holding.setGroups levelLt usedSound visited
    rwa [Function.update_eq_self] at set
  · refine Plan.due_of_moves ?_ ?_
    · rw [Function.update_self]
      exact moves
    · intro group other
      rw [Function.update_self, Plan.touchGroup, Function.update_of_ne other]
  · intro k
    rw [inStash_relabelReset, PathORAM.inStash_updateInStash]
    exact fun _ => rfl

/-- Visiting a data block returns its value, replaces it and moves what is due. -/
theorem Holding.ends_visitData (holding : da.Holding plan counters labels out values) {key : Nat}
    {old new : Nat → Int} {cur : PosMapResult} (due : plan.Due 0 key old new cur)
    (fetched : da.Fetched plan key 0 cur) (newValue : Option Bytes) :
    Ends (da.visitData key newValue cur) (fun outcome =>
      outcome.1 = values key ∧
      outcome.2.Holding plan counters
        (Function.update labels 0 (Plan.relabelled cur key (labels 0))) out
        (Function.update values key (newValue.getD (values key))) ∧
      ∃ tree, outcome.2 = da.setTreeAt tree 0 ∧
        ∀ k, tree.InStash k ↔ (da.treeAt 0).InStash k) := by
  have labelled := holding.labelled 0 (Nat.zero_le _)
  have found := (labelled.found fetched.1).2
  unfold DAOram.visitData
  rw [show da.dataOram.findInStash key = some ⟨key, labels 0 key, values key⟩ from found]
  refine Prog.ends_pure ⟨rfl, ?_, _, rfl, ?_⟩
  · have visited := labelled_visit labelled fetched.1 due.newIsLeaf
      (fun rKey isReset => ⟨fetched.2 rKey isReset, (due.reset rKey isReset).2.2.2⟩)
      (f := fun block => { block with
        value := newValue.getD block.value, leaf := cur.newLeaf }) (fun _ => rfl) rfl
    have others : ∀ stage ≤ plan.top, stage ≠ 0 → Plan.valueAt counters (Function.update values key
        (newValue.getD (values key))) stage = Plan.valueAt counters values stage := by
      intro stage _ other
      cases stage with
      | zero => exact absurd rfl other
      | succ level => rfl
    have replaced := holding.replace (Nat.zero_le _) visited others rfl holding.sound
    rwa [Function.update_eq_self] at replaced
  · intro k
    rw [inStash_relabelReset, PathORAM.inStash_updateInStash]
    · rfl
    · exact fun _ => rfl

/-- Fetching the paths of some leaves at a stage. -/
theorem Holding.ends_readPaths (holding : da.Holding plan counters labels out values)
    {stage : Nat} (stageLe : stage ≤ plan.top) (calm : out stage = ∅) {leaves : List Int}
    (areLeaves : ∀ leaf ∈ leaves, IsLeaf (plan.levels stage) leaf) :
    Ends (da.readPaths stage leaves) (fun da' =>
      da'.Holding plan counters labels
        (Function.update out stage (pathSet (plan.levels stage) leaves)) values ∧
      ∀ k < plan.sizes stage, labels stage k ∈ leaves → (da'.treeAt stage).InStash k) := by
  have labelled := holding.labelled stage stageLe
  rw [calm] at labelled
  refine Prog.ends_bind (labelled.ends_read areLeaves) ?_
  intro tree fetched
  refine Prog.ends_pure ⟨?_, ?_⟩
  · have set := holding.setTreeAt stageLe fetched
    rwa [Function.update_eq_self] at set
  · intro k kLt leafMem
    rw [treeAt_setTreeAt tree (by rw [holding.follows.trees]; exact stageLe), if_pos rfl]
    exact fetched.inStash_of_fetched kLt leafMem

/-- Evicting along the paths that were fetched at a stage. -/
theorem Holding.ends_evictPaths {stage : Nat} {leaves : List Int}
    (holding : da.Holding plan counters labels
      (Function.update out stage (pathSet (plan.levels stage) leaves)) values)
    (stageLe : stage ≤ plan.top)
    (areLeaves : ∀ leaf ∈ leaves, IsLeaf (plan.levels stage) leaf) :
    Ends (da.evictPaths stage leaves) (fun da' =>
      da'.Holding plan counters labels (Function.update out stage ∅) values) := by
  have labelled := holding.labelled stage stageLe
  rw [Function.update_self] at labelled
  refine Prog.ends_bind (labelled.ends_evictStash areLeaves) ?_
  intro tree evicted
  refine Prog.ends_pure ?_
  have set := holding.setTreeAt stageLe evicted
  rwa [Function.update_eq_self, Function.update_idem] at set

/-- Only the leaves of the blocks that exist matter. -/
theorem Holding.congrLabels (holding : da.Holding plan counters labels out values)
    {labels' : Nat → Nat → Int}
    (same : ∀ stage ≤ plan.top, ∀ k < plan.sizes stage, labels stage k = labels' stage k) :
    da.Holding plan counters labels' out values := by
  refine ⟨holding.follows, holding.onChip, holding.sound, ?_⟩
  intro stage stageLe
  exact (holding.labelled stage stageLe).congr (same stage stageLe) (fun _ _ => rfl)

end DAOram

end TieredOmap
