import TieredOMap.Network.SnapshotMaps

/-!
# A snapshot restores the map

`export_omap`, `detach_register_patch_omap` and `restore_by_backend` for each backend, and
the round trip: a map between two operations is exported, its trees are handed to the
server, their ids are written into the snapshot, and what is read back is the same map over
the same trees.
-/

namespace TieredOmap

open Decoder

/-- A map of one of the backends. -/
inductive BackendOmap where
  | avl (omap : AVLOmap)
  | bPlus (omap : BPlusOmap)
  | daAvl (omap : DaOstOmap AVLOmap)
  | daBplus (omap : DaOstOmap BPlusOmap)

/-- What a map keeps besides the fields of the model. -/
structure BackendSecrets where
  split : SplitSecrets := {}
  da : DaOstSecrets := {}

/-- A restored map. -/
inductive NetworkOmap where
  | avl (net : NetworkAvl)
  | bplus (net : NetworkBplus)
  | daOst (net : NetworkDaOst)

namespace BackendOmap

/-- The backend of a map. -/
def backend : BackendOmap → OmapBackend
  | .avl _ => .avl
  | .bPlus _ => .bPlus
  | .daAvl _ => .daAvl
  | .daBplus _ => .daBplus

/-- `export_omap`. -/
def exportOmap (secrets : BackendSecrets) : BackendOmap → Bytes
  | .avl omap => omap.exportState secrets.split
  | .bPlus omap => omap.exportState secrets.split
  | .daAvl omap => omap.exportState secrets.da
  | .daBplus omap => omap.exportState secrets.da

/-- `detach_register_patch_omap`. -/
def detachRegisterPatchOmap (server : ClientState) (blob : Bytes) (base : Nat) :
    BackendOmap → ClientState × Bytes
  | .avl omap => detachRegisterPatchAvl server omap blob base
  | .bPlus omap => detachRegisterPatchBplus server omap blob base
  | .daAvl omap => detachRegisterPatchDaost server omap blob base
  | .daBplus omap => detachRegisterPatchDaost server omap blob base

/-- The map without what the last operation has left. -/
def settled : BackendOmap → BackendOmap
  | .avl omap => .avl omap.settled
  | .bPlus omap => .bPlus omap.settled
  | .daAvl omap => .daAvl omap.settled
  | .daBplus omap => .daBplus omap.settled

/-- The server with the trees of the map. -/
def register (server : ClientState) : BackendOmap → ClientState
  | .avl omap => omap.orams.register server
  | .bPlus omap => omap.orams.register server
  | .daAvl omap => omap.register server
  | .daBplus omap => omap.register server

/-- The map with its trees at the server, each under the id that it was registered with. -/
def detached (secrets : BackendSecrets) (server : ClientState) : BackendOmap → NetworkOmap
  | .avl omap => .avl (omap.detached secrets.split server.nextId (server.nextId + 1))
  | .bPlus omap => .bplus (omap.detached secrets.split server.nextId (server.nextId + 1))
  | .daAvl omap => .daOst (omap.detached secrets.da (omap.newIds server))
  | .daBplus omap => .daOst (omap.detached secrets.da (omap.newIds server))

/-- The fields are ones the source's types can hold. -/
def IntState (secrets : BackendSecrets) : BackendOmap → Prop
  | .avl omap => omap.IntState secrets.split
  | .bPlus omap => omap.IntState secrets.split
  | .daAvl omap => omap.IntState secrets.da
  | .daBplus omap => omap.IntState secrets.da

/-- The hash and the pseudo-random function of a DA map are those under its seeds. -/
def Seeded (hashOf : UInt64 → Int → Nat) (prfOf : UInt64 → Prf) (secrets : BackendSecrets) :
    BackendOmap → Prop
  | .avl _ | .bPlus _ => True
  | .daAvl omap => omap.Seeded hashOf prfOf secrets.da
  | .daBplus omap => omap.Seeded hashOf prfOf secrets.da

variable [Cipher]

/-- A state that `init` and the operations of the map lead to. -/
def Reached : BackendOmap → Prop
  | .avl omap => omap.Reached
  | .bPlus omap => omap.Reached
  | .daAvl omap => omap.InUse
  | .daBplus omap => omap.InUse

end BackendOmap

/-- `restore_by_backend`. -/
def restoreByBackend : OmapBackend → Deser NetworkOmap
  | .avl => do
      let net ← NetworkAvl.fromState
      return .avl net
  | .bPlus => do
      let net ← NetworkBplus.fromState
      return .bplus net
  | .daAvl | .daBplus => do
      let net ← NetworkDaOst.fromState
      return .daOst net

/-- The map with the trees that the server has for it. -/
def NetworkOmap.attach (hashOf : UInt64 → Int → Nat) (prfOf : UInt64 → Prf)
    (server : ClientState) : NetworkOmap → Option BackendOmap
  | .avl net => (net.attach server).map .avl
  | .bplus net => (net.attach server).map .bPlus
  | .daOst net =>
      match net.ods with
      | .avl _ => (net.attach hashOf prfOf server).map .daAvl
      | .bplus _ => (net.attach hashOf prfOf server).map .daBplus

section Restore

variable {secrets : BackendSecrets} {server : ClientState}

/-- A DA map between its operations writes everything that `from_state` needs. -/
theorem DaOstOmap.Intact.complete [Cipher] {Ω : Type} [RestState Ω] [RestingOds Ω]
    {config : DaOstConfig} {omap : DaOstOmap Ω} (intact : omap.Intact config) : omap.Complete := by
  rcases intact.settled.accounted with ⟨_, plan, counters, _, _, represents⟩
  refine ⟨?_, represents.follows.trees.trans represents.follows.top.symm, ?_⟩
  · have positions := intact.numPositions
    have capacity := intact.capacity
    unfold DaOstOmap.positionsOf at positions
    split at positions <;> omega
  · intro block mem
    rw [represents.onChip, List.mem_map] at mem
    rcases mem with ⟨group, inRange, rfl⟩
    have sound := represents.sound plan.top (le_refl _) group (List.mem_range.mp inRange)
    rw [represents.follows.numIc]
    exact ⟨sound.icLength, sound.backupLength⟩

theorem nextId_register_le (orams : SplitOram) (server : ClientState) :
    server.nextId + 1 ≤ (orams.register server).nextId := by
  unfold SplitOram.register
  dsimp only
  split
  · change server.nextId + 1 ≤ server.nextId + 1 + 1
    omega
  · exact le_refl _

theorem isInt_between {low id high : Int} (lowInt : IsInt low) (highInt : IsInt high)
    (above : low ≤ id) (below : id ≤ high) : IsInt id :=
  ⟨lowInt.1.trans above, below.trans_lt highInt.2⟩

theorem restore_avl {omap : AVLOmap} (isInt : omap.IntState secrets.split)
    (firstId : IsInt server.nextId) (lastId : IsInt (omap.orams.register server).nextId)
    (short : (omap.exportState secrets.split).length < 2 ^ 31) :
    ∃ blob, detachRegisterPatchAvl server omap (omap.exportState secrets.split) 0 =
        (omap.orams.register server, blob) ∧
      NetworkAvl.fromState.run blob =
        .ok (omap.detached secrets.split server.nextId (server.nextId + 1), []) := by
  have patched := @detachRegisterPatchAvl_eq omap secrets.split server (-1) (-1) isInt [] [] short
  have nextInt := isInt_between firstId lastId (by omega) (nextId_register_le omap.orams server)
  have read := isInt.reads_state firstId nextInt (by
    rw [length_snapshot_avl, length_exportOrams _ _ (-1) (-1), ← length_snapshot_avl]
    exact short)
  rw [List.append_nil, List.append_nil] at patched
  exact ⟨_, patched, read.run⟩

theorem restore_bplus {omap : BPlusOmap} (isInt : omap.IntState secrets.split)
    (firstId : IsInt server.nextId) (lastId : IsInt (omap.orams.register server).nextId)
    (short : (omap.exportState secrets.split).length < 2 ^ 31) :
    ∃ blob, detachRegisterPatchBplus server omap (omap.exportState secrets.split) 0 =
        (omap.orams.register server, blob) ∧
      NetworkBplus.fromState.run blob =
        .ok (omap.detached secrets.split server.nextId (server.nextId + 1), []) := by
  have patched := @detachRegisterPatchBplus_eq omap secrets.split server (-1) (-1) isInt [] [] short
  have nextInt := isInt_between firstId lastId (by omega) (nextId_register_le omap.orams server)
  have read := isInt.reads_state firstId nextInt (by
    rw [length_snapshot_bplus, length_exportOrams _ _ (-1) (-1), ← length_snapshot_bplus]
    exact short)
  rw [List.append_nil, List.append_nil] at patched
  exact ⟨_, patched, read.run⟩

theorem restore_daost {Ω : Type} [RestState Ω] [SnapshotOds Ω] {omap : DaOstOmap Ω}
    (isInt : omap.IntState secrets.da) (complete : omap.Complete) (firstId : IsInt server.nextId)
    (lastId : IsInt (omap.register server).nextId)
    (short : (omap.exportState secrets.da).length < 2 ^ 31) :
    ∃ blob, detachRegisterPatchDaost server omap (omap.exportState secrets.da) 0 =
        (omap.register server, blob) ∧
      NetworkDaOst.fromState.run blob = .ok (omap.detached secrets.da (omap.newIds server), []) := by
  have patched := @detachRegisterPatchDaost_eq Ω _ _ omap secrets.da server {} isInt complete [] []
    short
  have daNext := nextId_registerDa omap.daoram server
  have daLevels := complete.daoram.posMaps
  have odsNext := nextId_register_le (SnapshotOds.orams omap.ods) (omap.daoram.register server)
  have odsNext : (omap.daoram.register server).nextId + 1 ≤ (omap.register server).nextId := odsNext
  have read := @DaOstOmap.IntState.reads_state Ω _ _ omap secrets.da (omap.newIds server) isInt
    complete firstId
    (fun i below => isInt_between firstId lastId (by dsimp only [DaOstOmap.newIds]; omega)
      (by dsimp only [DaOstOmap.newIds]; omega))
    (isInt_between firstId lastId (by dsimp only [DaOstOmap.newIds]; omega)
      (by dsimp only [DaOstOmap.newIds]; omega))
    (isInt_between firstId lastId (by dsimp only [DaOstOmap.newIds]; omega)
      (by dsimp only [DaOstOmap.newIds]; omega))
    (by
      rw [length_snapshot_daost _ {}]
      exact short)
  rw [List.append_nil, List.append_nil] at patched
  exact ⟨_, patched, read.run⟩

/--
Exporting a map that is between two operations, handing its trees to the server and reading
the patched snapshot back loses nothing. All of the snapshot is read, every ORAM is bound to
the tree that was taken from it, and over these trees the restored map is the exported one,
apart from what the last operation left for its caller.
-/
theorem restore_export [Cipher] {omap : BackendOmap} {hashOf : UInt64 → Int → Nat}
    {prfOf : UInt64 → Prf} (reached : omap.Reached) (isInt : omap.IntState secrets)
    (seeded : omap.Seeded hashOf prfOf secrets) (firstId : IsInt server.nextId)
    (lastId : IsInt (omap.register server).nextId)
    (short : (omap.exportOmap secrets).length < 2 ^ 31) :
    ∃ blob, omap.detachRegisterPatchOmap server (omap.exportOmap secrets) 0 =
        (omap.register server, blob) ∧
      (restoreByBackend omap.backend).run blob = .ok (omap.detached secrets server, []) ∧
      ∀ server', (omap.register server).Extends server' →
        (omap.detached secrets server).attach hashOf prfOf server' = some omap.settled := by
  cases omap with
  | avl omap =>
      rcases restore_avl isInt firstId lastId short with ⟨blob, patched, read⟩
      refine ⟨blob, patched, ?_, fun server' grows => ?_⟩
      · rw [BackendOmap.backend, restoreByBackend, StateT.run_bind, read]
        rfl
      · exact congrArg (Option.map _) (attach_avl (AVLOmap.Reached.atRest reached) grows)
  | bPlus omap =>
      rcases restore_bplus isInt firstId lastId short with ⟨blob, patched, read⟩
      have atRest := BPlusOmap.Reached.atRest reached
      refine ⟨blob, patched, ?_, fun server' grows => ?_⟩
      · rw [BackendOmap.backend, restoreByBackend, StateT.run_bind, read]
        rfl
      · exact congrArg (Option.map _) (attach_bplus atRest.1 atRest.2 grows)
  | daAvl omap =>
      rcases DaOstOmap.InUse.intact reached with ⟨config, intact⟩
      rcases restore_daost isInt intact.complete firstId lastId short with ⟨blob, patched, read⟩
      refine ⟨blob, patched, ?_, fun server' grows => ?_⟩
      · rw [BackendOmap.backend, restoreByBackend, StateT.run_bind, read]
        rfl
      · exact congrArg (Option.map _) (attach_daost seeded intact.atRest grows)
  | daBplus omap =>
      rcases DaOstOmap.InUse.intact reached with ⟨config, intact⟩
      rcases restore_daost isInt intact.complete firstId lastId short with ⟨blob, patched, read⟩
      refine ⟨blob, patched, ?_, fun server' grows => ?_⟩
      · rw [BackendOmap.backend, restoreByBackend, StateT.run_bind, read]
        rfl
      · exact congrArg (Option.map _) (attach_daost seeded intact.atRest grows)

end Restore

section Sample

attribute [local instance] clearCipher

/-- A map with one record. -/
def restoreSample : Rand AVLOmap := AVLOmap.create { capacity := 2 } [(1, [5])]

/-- What `IntState` says of a map without a split, as far as it depends on the run. -/
def SmallState (omap : AVLOmap) : Prop :=
  (IsInt omap.capacity ∧ IsInt omap.maxHeight ∧ IsInt omap.rootKey ∧ IsInt omap.rootLeaf) ∧
    omap.orams.splitDepth = 0 ∧ IsInt omap.orams.oram.storage.level ∧
    IsInt omap.orams.oram.storage.leafRange ∧ IsInt omap.orams.oram.numData ∧
    IsInt omap.orams.oram.bucketSize ∧ IsInt omap.orams.oram.stashMaxSize ∧
    (∀ entry ∈ omap.orams.oram.posMap.entries, IsInt entry.1 ∧ IsInt entry.2) ∧
    (∀ block ∈ omap.orams.oram.stash, IsInt block.key ∧ IsInt block.leaf) ∧
    (omap.exportState {}).length < 2 ^ 31

instance : DecidablePred SmallState := fun _ => inferInstanceAs (Decidable (_ ∧ _))

theorem SmallState.intState {omap : AVLOmap} (small : SmallState omap) : omap.IntState {} := by
  rcases small with ⟨⟨capacity, maxHeight, rootKey, rootLeaf⟩, whole, level, leafRange, numData,
    bucketSize, stashMaxSize, posMap, stash, _⟩
  refine ⟨capacity, maxHeight, rootKey, rootLeaf, ⟨by rw [whole]; decide, ?_, fun split => ?_⟩⟩
  · exact ⟨level, leafRange, numData, bucketSize, stashMaxSize, by decide, posMap,
      fun block mem => ⟨(stash block mem).1, (stash block mem).2⟩⟩
  · rw [whole] at split
    cases split

theorem restore_export_sample : ∃ (omap : AVLOmap) (blob : Bytes),
    omap.rootKey = 1 ∧
    BackendOmap.detachRegisterPatchOmap {} (omap.exportState {}) 0 (.avl omap) =
      (omap.orams.register {}, blob) ∧
    (restoreByBackend .avl).run blob = .ok (BackendOmap.detached {} {} (.avl omap), []) := by
  have returns : (restoreSample.runFrom {}).1.toOption.any (fun omap =>
      decide (omap.rootKey = 1 ∧ SmallState omap)) = true := by decide +kernel
  rcases run : restoreSample.runFrom {} with ⟨error | omap, world⟩
  · rw [run] at returns
    cases returns
  · rw [run] at returns
    have known : omap.rootKey = 1 ∧ SmallState omap := of_decide_eq_true returns
    have whole : omap.orams.splitDepth = 0 := known.2.2.1
    have lastId : IsInt (omap.orams.register {}).nextId := by
      rw [SplitOram.register, whole, if_neg (lt_irrefl _)]
      exact show IsInt 1 by decide
    have reached : BackendOmap.Reached (.avl omap) := ⟨_, InUse.init run⟩
    rcases @restore_export {} {} _ _ (fun _ _ => 0) (fun _ _ _ _ _ => 0) reached
      known.2.intState trivial (by decide) lastId known.2.2.2.2.2.2.2.2.2.2 with
      ⟨blob, patched, read, _⟩
    exact ⟨omap, blob, known.1, patched, read⟩

end Sample

end TieredOmap
