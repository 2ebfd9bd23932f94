import TieredOMap.Omap.Visits
import TieredOMap.Oram.DaOram

/-!
# The requests of a DAORAM

An access goes through the stages from the top level down to the data, and reads and writes back
the paths of each stage at once. A dummy access does the same.
-/

namespace TieredOmap

namespace DAOram

/-- Where the blocks of a stage are stored. -/
def storeAt (da : DAOram) (stage : Nat) : Nat := (da.treeAt stage).storage.storeId

/-- The requests of an access from a stage on. -/
def requestsFrom (da : DAOram) : Nat → List StorageReq
  | 0 => [.readPaths (da.storeAt 0), .writePaths (da.storeAt 0)]
  | level + 1 =>
      [.readPaths (da.storeAt (level + 1)), .writePaths (da.storeAt (level + 1))] ++
        da.requestsFrom level

theorem requestsFrom_succ (da : DAOram) (level : Nat) :
    da.requestsFrom (level + 1) =
      [.readPaths (da.storeAt (level + 1)), .writePaths (da.storeAt (level + 1))] ++
        da.requestsFrom level := rfl

/-- The requests of an access. -/
def accessRequests (da : DAOram) : List StorageReq := da.requestsFrom da.numPosLevels

/-- The levels and their stores are the same. -/
structure SameStores (da da' : DAOram) : Prop where
  numPosLevels : da'.numPosLevels = da.numPosLevels
  storeAt : ∀ stage, da'.storeAt stage = da.storeAt stage

variable {da da' : DAOram}

theorem SameStores.refl (da : DAOram) : SameStores da da := ⟨rfl, fun _ => rfl⟩

theorem SameStores.trans {da'' : DAOram} (first : SameStores da da')
    (second : SameStores da' da'') : SameStores da da'' :=
  ⟨second.numPosLevels.trans first.numPosLevels,
    fun stage => (second.storeAt stage).trans (first.storeAt stage)⟩

theorem SameStores.requestsFrom (same : SameStores da da') (stage : Nat) :
    da'.requestsFrom stage = da.requestsFrom stage := by
  induction stage with
  | zero => simp only [DAOram.requestsFrom, same.storeAt]
  | succ level ih => simp only [DAOram.requestsFrom, same.storeAt, ih]

theorem sameStores_setTreeAt {tree : PathORAM} {stage : Nat}
    (sameId : tree.storage.storeId = da.storeAt stage) :
    SameStores da (da.setTreeAt tree stage) := by
  cases stage with
  | zero =>
      refine ⟨rfl, ?_⟩
      rintro (_ | level)
      · exact sameId
      · rfl
  | succ level =>
      refine ⟨rfl, ?_⟩
      rintro (_ | other)
      · rfl
      · unfold DAOram.storeAt
        simp only [treeAt, setTreeAt]
        rcases Nat.lt_or_ge level da.posMaps.length with inRange | beyond
        · rcases eq_or_ne level other with rfl | differs
          · rw [CounterBlock.getD_set _ inRange, if_pos rfl]
            exact sameId
          · rw [CounterBlock.getD_set _ inRange, if_neg (Ne.symm differs)]
        · rw [List.set_eq_of_length_le beyond]

variable [Cipher]

/-! ## Fetching and writing back -/

theorem sends_readPaths (da : DAOram) (stage : Nat) (leaves : List Int) :
    Sends (da.readPaths stage leaves) (fun da' sent =>
      SameStores da da' ∧ sent = [.readPaths (da.storeAt stage)]) := by
  unfold readPaths
  refine Prog.emits_bind (Q := fun tree sent => tree.storage.storeId = da.storeAt stage ∧
    sent = [.readPaths (da.storeAt stage)]) ?_ ?_
  · refine Prog.emits_bind (sends_send _) ?_
    rintro _ _ rfl
    exact Prog.emits_pure ⟨rfl, rfl⟩
  · rintro tree _ ⟨sameId, rfl⟩
    exact Prog.emits_pure ⟨sameStores_setTreeAt sameId, rfl⟩

theorem sends_evictPaths (da : DAOram) (stage : Nat) (leaves : List Int) :
    Sends (da.evictPaths stage leaves) (fun da' sent =>
      SameStores da da' ∧ sent = [.writePaths (da.storeAt stage)]) := by
  unfold evictPaths
  refine Prog.emits_bind (@PathORAM.sends_evictStash (cipherAt stage) (da.treeAt stage) leaves) ?_
  rintro tree _ ⟨sameId, rfl⟩
  exact Prog.emits_pure ⟨sameStores_setTreeAt sameId, rfl⟩

/-! ## Counters -/

omit [Cipher] in
theorem silent_randBelow (bound : Nat) : Silent (randBelow bound) (fun _ => True) :=
  (sends_randBelow bound).mono (fun _ _ none => ⟨trivial, none⟩)

omit [Cipher] in
theorem silent_touch (prf : Prf) (icMax numIc : Nat) (cb : CounterBlock)
    (managedKey numManaged leafRange : Nat) :
    Silent (cb.touch prf icMax numIc managedKey numManaged leafRange) (fun _ => True) := by
  unfold CounterBlock.touch
  refine silent_bind (Q := fun _ => True) ?_ (fun _ _ => silent_pure trivial)
  unfold CounterBlock.performResetIn
  split
  · exact silent_pure trivial
  · exact silent_bind (silent_randBelow _) (fun _ _ => silent_pure trivial)

omit [Cipher] in
theorem silent_touchOnChip (da : DAOram) (key : Nat) :
    Silent (da.touchOnChip key) (fun outcome => SameStores da outcome.2) := by
  unfold touchOnChip
  dsimp only
  split
  · exact Prog.emits_fail (by decide)
  · refine silent_bind (silent_touch _ _ _ _ _ _ _) ?_
    rintro ⟨cur, cb⟩ _
    exact silent_pure ⟨rfl, fun _ => rfl⟩

omit [Cipher] in
theorem storeId_relabelReset (tree : PathORAM) (cur : PosMapResult) :
    (relabelReset tree cur).storage.storeId = tree.storage.storeId := by
  unfold relabelReset
  split <;> rfl

omit [Cipher] in
/-- Moving blocks of the stash leaves the stores alone. -/
theorem sameStores_moved (da : DAOram) (key : Int) (f : Block → Block) (cur : PosMapResult)
    (stage : Nat) :
    SameStores da
      (da.setTreeAt (relabelReset ((da.treeAt stage).updateInStash key f) cur) stage) :=
  sameStores_setTreeAt (storeId_relabelReset ((da.treeAt stage).updateInStash key f) cur)

omit [Cipher] in
theorem silent_visitPosMap (da : DAOram) (key level : Nat) (cur : PosMapResult) :
    Silent (da.visitPosMap key level cur) (fun outcome => SameStores da outcome.2) := by
  unfold visitPosMap
  dsimp only
  split
  · exact Prog.emits_fail (by decide)
  · refine silent_bind (silent_touch _ _ _ _ _ _ _) ?_
    rintro ⟨next, cb⟩ _
    exact silent_pure (da.sameStores_moved _ _ cur (level + 1))

omit [Cipher] in
theorem silent_visitData (da : DAOram) (key : Nat) (newValue : Option Bytes)
    (cur : PosMapResult) :
    Silent (da.visitData key newValue cur) (fun outcome => SameStores da outcome.2) := by
  unfold visitData
  split
  · exact Prog.emits_fail (by decide)
  · exact silent_pure (da.sameStores_moved _ _ cur 0)

omit [Cipher] in
theorem silent_randomLeaves (da : DAOram) (stage : Nat) :
    Silent (da.randomLeaves stage) (fun _ => True) :=
  silent_bind (silent_randBelow _) (fun _ _ =>
    silent_bind (silent_randBelow _) (fun _ _ => silent_pure trivial))

/-! ## Accesses -/

theorem sends_traverseBelow (key : Nat) (level : Nat) (cur : PosMapResult) (da : DAOram) :
    Sends (da.traverseBelow key level cur) (fun outcome sent => SameStores da outcome.2 ∧
      sent ++ da.requestsFrom 0 = da.requestsFrom level) := by
  induction level generalizing da cur with
  | zero => exact Prog.emits_pure ⟨SameStores.refl da, rfl⟩
  | succ level ih =>
      refine Prog.emits_bind (da.sends_readPaths _ _) ?_
      rintro fetched _ ⟨same, rfl⟩
      refine Prog.emits_bind (fetched.silent_visitPosMap key level cur) ?_
      rintro ⟨next, visited⟩ _ ⟨same', rfl⟩
      have visitedSame := same.trans same'
      refine Prog.emits_bind (visited.sends_evictPaths _ _) ?_
      rintro written _ ⟨same'', rfl⟩
      have writtenSame := visitedSame.trans same''
      refine (ih next written).mono ?_
      rintro ⟨last, below⟩ sent ⟨belowSame, sentEq⟩
      refine ⟨writtenSame.trans belowSame, ?_⟩
      rw [writtenSame.requestsFrom, writtenSame.requestsFrom] at sentEq
      rw [visitedSame.storeAt, requestsFrom_succ, ← sentEq]
      simp

theorem sends_traverseDummyBelow (level : Nat) (da : DAOram) :
    Sends (da.traverseDummyBelow level) (fun da' sent => SameStores da da' ∧
      sent ++ da.requestsFrom 0 = da.requestsFrom level) := by
  induction level generalizing da with
  | zero => exact Prog.emits_pure ⟨SameStores.refl da, rfl⟩
  | succ level ih =>
      refine Prog.emits_bind (PathORAM.sends_randomLeaf _) ?_
      rintro leaf1 _ rfl
      refine Prog.emits_bind (PathORAM.sends_randomLeaf _) ?_
      rintro leaf2 _ rfl
      refine Prog.emits_bind (da.sends_readPaths _ _) ?_
      rintro fetched _ ⟨same, rfl⟩
      refine Prog.emits_bind (fetched.sends_evictPaths _ _) ?_
      rintro written _ ⟨same', rfl⟩
      have writtenSame := same.trans same'
      refine (ih written).mono ?_
      rintro below sent ⟨belowSame, sentEq⟩
      refine ⟨writtenSame.trans belowSame, ?_⟩
      rw [writtenSame.requestsFrom, writtenSame.requestsFrom] at sentEq
      rw [same.storeAt, requestsFrom_succ, ← sentEq]
      simp

theorem sends_access (da : DAOram) (key : Nat) (newValue : Option Bytes) :
    Sends (da.access key newValue) (fun outcome sent =>
      SameStores da outcome.2 ∧ sent = da.accessRequests) := by
  unfold access
  refine Prog.emits_bind (Q := fun outcome sent => SameStores da outcome.2 ∧
    sent ++ da.requestsFrom 0 = da.accessRequests) ?_ ?_
  · refine Prog.emits_bind (da.silent_touchOnChip key) ?_
    rintro ⟨cur, touched⟩ _ ⟨same, rfl⟩
    refine (sends_traverseBelow key _ cur touched).mono ?_
    rintro ⟨last, below⟩ sent ⟨belowSame, sentEq⟩
    rw [same.requestsFrom, same.requestsFrom, same.numPosLevels] at sentEq
    exact ⟨same.trans belowSame, sentEq⟩
  · rintro ⟨cur, below⟩ before ⟨same, beforeEq⟩
    refine Prog.emits_bind (below.sends_readPaths _ _) ?_
    rintro fetched _ ⟨same', rfl⟩
    refine Prog.emits_bind (fetched.silent_visitData key newValue cur) ?_
    rintro ⟨result, visited⟩ _ ⟨same'', rfl⟩
    have visitedSame := (same.trans same').trans same''
    refine Prog.emits_bind (visited.sends_evictPaths _ _) ?_
    rintro written _ ⟨sameEnd, rfl⟩
    refine Prog.emits_pure ⟨visitedSame.trans sameEnd, ?_⟩
    rw [← beforeEq, same.storeAt, visitedSame.storeAt]
    rfl

theorem sends_dummyAccess (da : DAOram) :
    Sends da.dummyAccess (fun da' sent => SameStores da da' ∧ sent = da.accessRequests) := by
  unfold dummyAccess
  refine Prog.emits_bind (sends_traverseDummyBelow _ da) ?_
  rintro below before ⟨same, beforeEq⟩
  refine Prog.emits_bind (below.silent_randomLeaves 0) ?_
  rintro cur _ ⟨_, rfl⟩
  refine Prog.emits_bind (below.sends_readPaths _ _) ?_
  rintro fetched _ ⟨same', rfl⟩
  refine (fetched.sends_evictPaths _ _).mono ?_
  rintro written _ ⟨same'', rfl⟩
  refine ⟨(same.trans same').trans same'', ?_⟩
  rw [accessRequests, ← beforeEq, same.storeAt, (same.trans same').storeAt]
  rfl

end DAOram

end TieredOmap
