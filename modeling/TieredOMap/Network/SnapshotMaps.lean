import TieredOMap.Network.SnapshotDa
import TieredOMap.Omap.AtRest

/-!
# Snapshots lose nothing

`DaOstOmap::export_state` and `from_state`, the switch over the backends, and the round
trip: exporting a map, handing its trees to the server, writing the ids into the snapshot
and reading it back gives the same map over the same trees.
-/

namespace TieredOmap

open Decoder RestState

/-! ## The tree object of a DA map -/

/-- The restored tree object. -/
inductive NetworkOds where
  | avl (net : NetworkAvl)
  | bplus (net : NetworkBplus)

/-- `OdsTreeType` as an `int`. -/
def treeCode (isBplus : Bool) : Int := if isBplus then 1 else 0

/-- The part of `DaOstOmap::from_state` that reads the tree object. -/
def NetworkOds.fromState (treeType : Int) : Deser NetworkOds :=
  if treeType = 0 then do
    let net ← NetworkAvl.fromState
    return .avl net
  else do
    let net ← NetworkBplus.fromState
    return .bplus net

/-- A tree object with its snapshots. -/
class SnapshotOds (Ω : Type) [RestState Ω] where
  isBplus : Bool
  orams : Ω → SplitOram
  snapshot : Ω → SplitSecrets → Int → Int → Bytes
  settled : Ω → Ω
  IntState : Ω → SplitSecrets → Prop
  detached : Ω → SplitSecrets → Int → Int → NetworkOds
  attach : ClientState → NetworkOds → Option Ω
  detachRegisterPatch : ClientState → Ω → Bytes → Nat → ClientState × Bytes
  length_eq : ∀ {ods : Ω} {secrets : SplitSecrets} (lowerId upperId lowerId' upperId' : Int),
    (snapshot ods secrets lowerId upperId).length = (snapshot ods secrets lowerId' upperId').length
  reads_state : ∀ {ods : Ω} {secrets : SplitSecrets} {lowerId upperId : Int},
    IntState ods secrets → IsInt lowerId → IsInt upperId →
    (snapshot ods secrets lowerId upperId).length < 2 ^ 31 →
    Reads (NetworkOds.fromState (treeCode isBplus)) (detached ods secrets lowerId upperId)
      (snapshot ods secrets lowerId upperId)
  detach_eq : ∀ {ods : Ω} {secrets : SplitSecrets} {server : ClientState} {lowerId upperId : Int}
    (front back : Bytes), IntState ods secrets →
    (snapshot ods secrets lowerId upperId).length < 2 ^ 31 →
    detachRegisterPatch server ods (front ++ (snapshot ods secrets lowerId upperId ++ back))
        front.length =
      ((orams ods).register server,
        front ++ (snapshot ods secrets server.nextId (server.nextId + 1) ++ back))
  attach_eq : ∀ {ods : Ω} {secrets : SplitSecrets} {server server' : ClientState},
    AtRest ods → ((orams ods).register server).Extends server' →
    attach server' (detached ods secrets server.nextId (server.nextId + 1)) = some (settled ods)

instance : SnapshotOds AVLOmap where
  isBplus := false
  orams := AVLOmap.orams
  snapshot := AVLOmap.snapshot
  settled := AVLOmap.settled
  IntState := AVLOmap.IntState
  detached ods secrets lowerId upperId := .avl (ods.detached secrets lowerId upperId)
  attach server
    | .avl net => net.attach server
    | .bplus _ => none
  detachRegisterPatch := detachRegisterPatchAvl
  length_eq lowerId upperId lowerId' upperId' := by
    rw [length_snapshot_avl, length_snapshot_avl,
      length_exportOrams lowerId upperId lowerId' upperId']
  reads_state isInt lowerInt upperInt short :=
    reads_bind_pure (isInt.reads_state lowerInt upperInt short) rfl
  detach_eq front back isInt short := detachRegisterPatchAvl_eq isInt front back short
  attach_eq atRest grows := attach_avl atRest grows

instance : SnapshotOds BPlusOmap where
  isBplus := true
  orams := BPlusOmap.orams
  snapshot := BPlusOmap.snapshot
  settled := BPlusOmap.settled
  IntState := BPlusOmap.IntState
  detached ods secrets lowerId upperId := .bplus (ods.detached secrets lowerId upperId)
  attach server
    | .avl _ => none
    | .bplus net => net.attach server
  detachRegisterPatch := detachRegisterPatchBplus
  length_eq lowerId upperId lowerId' upperId' := by
    rw [length_snapshot_bplus, length_snapshot_bplus,
      length_exportOrams lowerId upperId lowerId' upperId']
  reads_state isInt lowerInt upperInt short :=
    reads_bind_pure (isInt.reads_state lowerInt upperInt short) rfl
  detach_eq front back isInt short := detachRegisterPatchBplus_eq isInt front back short
  attach_eq atRest grows := attach_bplus atRest.1 atRest.2 grows

/-! ## The DA map -/

/-- What a `DaOstOmap` keeps besides its counters, blocks and roots. -/
structure DaOstSecrets where
  treeHeightBound : Int := 0
  bucketSize : Int := 4
  bplusOrder : Int := 8
  hashSeed : UInt64 := 0
  daoram : DaSecrets := {}
  ods : SplitSecrets := {}

/-- A `DaOstOmap` with its trees at the server. -/
structure NetworkDaOst where
  capacity : Int
  numPositions : Nat
  treeHeightBound : Int
  odsBudget : Nat
  bucketSize : Int
  bplusOrder : Int
  hashSeed : UInt64
  rootCache : KeyMap Int (Int × Int)
  daoram : NetworkDaOram
  ods : NetworkOds

/-- An entry of `root_cache_`. -/
def serRoot (entry : Int × Int × Int) : Bytes :=
  serInt entry.1 ++ (serInt entry.2.1 ++ serInt entry.2.2)

/-- An entry of `root_cache_`. -/
def deserRoot : Deser (Int × Int × Int) := do
  let pos ← deserInt
  let key ← deserInt
  let leaf ← deserInt
  return (pos, key, leaf)

/-- The ids of the stores in a snapshot. -/
structure DaOstIds where
  data : Int := -1
  posMaps : Nat → Int := fun _ => -1
  lower : Int := -1
  upper : Int := -1

namespace DaOstOmap

variable {Ω : Type} [RestState Ω] [SnapshotOds Ω]

/-- What `export_state` writes before the root cache. -/
def exportHead (omap : DaOstOmap Ω) (secrets : DaOstSecrets) : Bytes :=
  serInt omap.capacity ++ (serInt omap.numPositions ++ (serInt secrets.treeHeightBound ++
    (serInt omap.odsBudget ++ (serInt (treeCode (SnapshotOds.isBplus Ω)) ++
      (serInt secrets.bucketSize ++ (serInt secrets.bplusOrder ++ serWord secrets.hashSeed))))))

/-- The snapshot, with the ids of the stores in it. -/
def snapshot (omap : DaOstOmap Ω) (secrets : DaOstSecrets) (ids : DaOstIds) : Bytes :=
  omap.exportHead secrets ++ (serInt omap.rootCache.entries.length ++
    (omap.rootCache.entries.flatMap serRoot ++
      (serBytes (omap.daoram.snapshot secrets.daoram ids.data ids.posMaps) ++
        serBytes (SnapshotOds.snapshot omap.ods secrets.ods ids.lower ids.upper))))

/-- `export_state`. -/
def exportState (omap : DaOstOmap Ω) (secrets : DaOstSecrets) : Bytes := omap.snapshot secrets {}

/-- The map without what the last operation has left, its scan at the first position. -/
def settled (omap : DaOstOmap Ω) : DaOstOmap Ω :=
  { omap with
    daoram := omap.daoram.settled, ods := SnapshotOds.settled omap.ods
    scanPos := 0, ss := {}, pb := {} }

/-- The map with its trees at the server. -/
def detached (omap : DaOstOmap Ω) (secrets : DaOstSecrets) (ids : DaOstIds) : NetworkDaOst where
  capacity := omap.capacity
  numPositions := omap.numPositions
  treeHeightBound := secrets.treeHeightBound
  odsBudget := omap.odsBudget
  bucketSize := secrets.bucketSize
  bplusOrder := secrets.bplusOrder
  hashSeed := secrets.hashSeed
  rootCache := omap.rootCache
  daoram := omap.daoram.detached secrets.daoram ids.data ids.posMaps
  ods := SnapshotOds.detached omap.ods secrets.ods ids.lower ids.upper

/-- The fields are ones the source's types can hold. -/
structure IntState (omap : DaOstOmap Ω) (secrets : DaOstSecrets) : Prop where
  capacity : IsInt omap.capacity
  numPositions : IsInt omap.numPositions
  treeHeightBound : IsInt secrets.treeHeightBound
  odsBudget : IsInt omap.odsBudget
  bucketSize : IsInt secrets.bucketSize
  bplusOrder : IsInt secrets.bplusOrder
  rootCache : ∀ entry ∈ omap.rootCache.entries,
    IsInt entry.1 ∧ IsInt entry.2.1 ∧ IsInt entry.2.2
  daoram : omap.daoram.IntState secrets.daoram
  ods : SnapshotOds.IntState omap.ods secrets.ods

/-- The number of positions is one the constructor chooses, and the DAORAM is complete. -/
structure Complete (omap : DaOstOmap Ω) : Prop where
  numPositions : 0 < omap.numPositions ∨ omap.capacity ≤ 0
  daoram : omap.daoram.Complete

/-- Register the trees of the map. -/
def register (omap : DaOstOmap Ω) (server : ClientState) : ClientState :=
  (SnapshotOds.orams omap.ods).register (omap.daoram.register server)

/-- The ids that the trees of the map get. -/
def newIds (omap : DaOstOmap Ω) (server : ClientState) : DaOstIds where
  data := server.nextId
  posMaps i := server.nextId + 1 + i
  lower := (omap.daoram.register server).nextId
  upper := (omap.daoram.register server).nextId + 1

/-- The hash and the pseudo-random function are those under the seeds. -/
structure Seeded (hashOf : UInt64 → Int → Nat) (prfOf : UInt64 → Prf) (omap : DaOstOmap Ω)
    (secrets : DaOstSecrets) : Prop where
  hash : omap.hash = hashOf secrets.hashSeed
  prf : omap.daoram.prf = prfOf secrets.daoram.prfSeed

end DaOstOmap

namespace NetworkDaOst

/-- `DaOstOmap::from_state`. -/
def fromState : Deser NetworkDaOst := do
  let capacity ← deserInt
  let numPositions ← deserInt
  let treeHeightBound ← deserInt
  let odsBudget ← deserInt
  let treeType ← deserInt
  let bucketSize ← deserInt
  let bplusOrder ← deserInt
  let hashSeed ← deserWord
  let rootCacheSize ← deserInt
  let entries ← deserRoot.times rootCacheSize.toNat
  let _ ← deserInt
  let daoram ← NetworkDaOram.fromState
  let _ ← deserInt
  let ods ← NetworkOds.fromState treeType
  return { capacity, numPositions := (if 0 < numPositions then numPositions else capacity).toNat
           treeHeightBound, odsBudget := odsBudget.toNat, bucketSize, bplusOrder, hashSeed
           rootCache := entries.foldl (fun rootCache entry => rootCache.set entry.1 entry.2) ∅
           daoram, ods }

/-- The map with the trees that the server has for it. -/
def attach {Ω : Type} [RestState Ω] [SnapshotOds Ω] (hashOf : UInt64 → Int → Nat) (prfOf : UInt64 → Prf)
    (server : ClientState) (net : NetworkDaOst) : Option (DaOstOmap Ω) := do
  let daoram ← net.daoram.attach prfOf server
  let ods ← SnapshotOds.attach server net.ods
  return { capacity := net.capacity, numPositions := net.numPositions, odsBudget := net.odsBudget
           hash := hashOf net.hashSeed, daoram, ods, rootCache := net.rootCache }

end NetworkDaOst

/-- `detach_register_patch_daost`. -/
def detachRegisterPatchDaost {Ω : Type} [RestState Ω] [SnapshotOds Ω] (server : ClientState) (omap : DaOstOmap Ω)
    (blob : Bytes) (base : Nat) : ClientState × Bytes :=
  let scan := base + (7 * 4 + 8)
  let rcSize := (intAt blob scan).toNat
  let scan := scan + 4 + rcSize * 3 * 4
  let daLen := (intAt blob scan).toNat
  let scan := scan + 4
  let (server, blob) := detachRegisterPatchDaOram server omap.daoram blob scan
  let odsOff := scan + daLen
  SnapshotOds.detachRegisterPatch server omap.ods blob (odsOff + 4)

section DaOst

variable {Ω : Type} [RestState Ω] [SnapshotOds Ω] {omap : DaOstOmap Ω} {secrets : DaOstSecrets}
  {server : ClientState} {ids : DaOstIds}

theorem reads_root {entry : Int × Int × Int}
    (isInt : IsInt entry.1 ∧ IsInt entry.2.1 ∧ IsInt entry.2.2) :
    Reads deserRoot entry (serRoot entry) :=
  reads_bind (reads_int isInt.1) (reads_bind (reads_int isInt.2.1)
    (reads_bind_pure (reads_int isInt.2.2) rfl))

theorem length_serRoot (entry : Int × Int × Int) : (serRoot entry).length = 12 := by
  simp only [serRoot, List.length_append, length_serInt]

theorem length_roots (entries : List (Int × Int × Int)) :
    (entries.flatMap serRoot).length = entries.length * 3 * 4 := by
  induction entries with
  | nil => rfl
  | cons entry rest ih =>
      rw [List.flatMap_cons, List.length_append, ih, length_serRoot, List.length_cons]
      omega

theorem isInt_treeCode (isBplus : Bool) : IsInt (treeCode isBplus) := by
  cases isBplus <;> decide

/-- A snapshot is read back. -/
theorem DaOstOmap.IntState.reads_state (isInt : omap.IntState secrets) (complete : omap.Complete)
    (dataInt : IsInt ids.data) (posMapsInt : ∀ i < omap.daoram.numPosLevels, IsInt (ids.posMaps i))
    (lowerInt : IsInt ids.lower) (upperInt : IsInt ids.upper)
    (short : (omap.snapshot secrets ids).length < 2 ^ 31) :
    Reads NetworkDaOst.fromState (omap.detached secrets ids) (omap.snapshot secrets ids) := by
  have rootsLength := length_roots omap.rootCache.entries
  have positions : (if 0 < (omap.numPositions : Int) then (omap.numPositions : Int)
      else omap.capacity).toNat = omap.numPositions := by
    rcases complete.numPositions with some | none
    · rw [if_pos (by omega), Int.toNat_natCast]
    · split <;> omega
  simp only [DaOstOmap.snapshot, DaOstOmap.exportHead, serBytes, List.length_append,
    length_serInt, length_serWord] at short ⊢
  unfold NetworkDaOst.fromState
  simp only [List.append_assoc]
  refine reads_bind (reads_int isInt.capacity) (reads_bind (reads_int isInt.numPositions)
    (reads_bind (reads_int isInt.treeHeightBound) (reads_bind (reads_int isInt.odsBudget)
      (reads_bind (reads_int (isInt_treeCode _)) (reads_bind (reads_int isInt.bucketSize)
        (reads_bind (reads_int isInt.bplusOrder) (reads_bind (reads_word _) ?_)))))))
  refine reads_bind (reads_size (by omega)) ?_
  rw [Int.toNat_natCast]
  refine reads_bind (reads_times (fun entry mem => reads_root (isInt.rootCache entry mem))) ?_
  refine reads_bind (reads_size (by omega)) ?_
  refine reads_bind (isInt.daoram.reads_state complete.daoram dataInt posMapsInt (by omega)) ?_
  refine reads_bind (reads_size (by omega)) ?_
  refine reads_bind_pure (SnapshotOds.reads_state isInt.ods lowerInt upperInt (by omega)) ?_
  rw [KeyMap.foldl_set_entries, positions]
  rfl

/-- The ids in the snapshot of a DA map become those of the registered trees. -/
theorem detachRegisterPatchDaost_eq (isInt : omap.IntState secrets) (complete : omap.Complete)
    {front back : Bytes} (short : (omap.snapshot secrets ids).length < 2 ^ 31) :
    detachRegisterPatchDaost server omap (front ++ (omap.snapshot secrets ids ++ back))
        front.length =
      (omap.register server, front ++ (omap.snapshot secrets (omap.newIds server) ++ back)) := by
  have rootsLength := length_roots omap.rootCache.entries
  have headLength : (omap.exportHead secrets).length = 7 * 4 + 8 := by
    simp only [DaOstOmap.exportHead, List.length_append, length_serInt, length_serWord]
  unfold DaOstOmap.snapshot at short ⊢
  set head := omap.exportHead secrets
  set roots := omap.rootCache.entries.flatMap serRoot
  set newIds := omap.newIds server with newIdsEq
  have daLength := @length_snapshot_da omap.daoram secrets.daoram ids.data newIds.data ids.posMaps
    newIds.posMaps
  have odsLength := @SnapshotOds.length_eq Ω _ _ omap.ods secrets.ods ids.lower ids.upper
    newIds.lower newIds.upper
  set da := omap.daoram.snapshot secrets.daoram ids.data ids.posMaps with daEq
  set ods := SnapshotOds.snapshot omap.ods secrets.ods ids.lower ids.upper with odsEq
  simp only [serBytes, List.length_append, length_serInt] at short
  have rootsInt : IsInt (omap.rootCache.entries.length : Int) := ⟨by omega, by omega⟩
  have daInt : IsInt (da.length : Int) := ⟨by omega, by omega⟩
  unfold detachRegisterPatchDaost
  dsimp only
  rw [@intAt_append _ (front ++ head) _ (omap.rootCache.entries.length : Int) _
    (by simp only [List.append_assoc]; rfl) (by rw [List.length_append, headLength]) rootsInt]
  rw [@intAt_append _ (front ++ (head ++ (serInt omap.rootCache.entries.length ++ roots))) _
    (da.length : Int) _ (by simp only [serBytes, List.append_assoc]; rfl)
    (by
      simp only [List.length_append, length_serInt, headLength, rootsLength, Int.toNat_natCast]
      omega) daInt]
  simp only [Int.toNat_natCast]
  -- everything in front of the snapshot of the DAORAM
  set lead := front ++ (head ++ (serInt omap.rootCache.entries.length ++ (roots ++
    serInt da.length))) with leadEq
  have leadLength : front.length + (7 * 4 + 8) + 4 + omap.rootCache.entries.length * 3 * 4 + 4 =
      lead.length := by
    simp only [leadEq, List.length_append, length_serInt, headLength, rootsLength]
    omega
  have patched := @detachRegisterPatchDaOram_eq omap.daoram secrets.daoram server ids.data
    ids.posMaps complete.daoram lead (serBytes ods ++ back) newIds.posMaps (fun _ _ => rfl)
    (by rw [← daEq]; omega)
  have patchedOds := @SnapshotOds.detach_eq Ω _ _ omap.ods secrets.ods (omap.daoram.register server)
    ids.lower ids.upper (lead ++ (omap.daoram.snapshot secrets.daoram newIds.data newIds.posMaps ++
      serInt ods.length)) back isInt.ods (by rw [← odsEq]; omega)
  have odsStart : lead.length + da.length + 4 = (lead ++ (omap.daoram.snapshot secrets.daoram
      newIds.data newIds.posMaps ++ serInt ods.length)).length := by
    clear_value lead
    rw [List.length_append, List.length_append, length_serInt, ← daLength]
    omega
  have blobEq : front ++ (head ++ (serInt omap.rootCache.entries.length ++ (roots ++
      (serBytes da ++ serBytes ods))) ++ back) = lead ++ (da ++ (serBytes ods ++ back)) := by
    simp only [leadEq, serBytes, List.append_assoc]
  have dataId : newIds.data = server.nextId := rfl
  rw [← daEq, ← dataId] at patched
  rw [← odsEq] at patchedOds
  rw [leadLength, blobEq, patched, odsStart]
  simp only [serBytes, List.append_assoc] at patchedOds ⊢
  rw [patchedOds, leadEq]
  simp only [newIdsEq, DaOstOmap.newIds, DaOstOmap.register, List.append_assoc, daLength, odsLength]

theorem length_snapshot_daost (ids ids' : DaOstIds) :
    (omap.snapshot secrets ids).length = (omap.snapshot secrets ids').length := by
  simp only [DaOstOmap.snapshot, serBytes, List.length_append, length_serInt,
    length_snapshot_da ids.data ids'.data ids.posMaps ids'.posMaps,
    SnapshotOds.length_eq ids.lower ids.upper ids'.lower ids'.upper]

theorem extends_registerDaost (omap : DaOstOmap Ω) (server : ClientState) :
    server.Extends (omap.register server) :=
  (extends_registerDa _ _).trans (extends_register _ _)

/-- Every ORAM of a DA map finds its own tree. -/
theorem attach_daost {hashOf : UInt64 → Int → Nat} {prfOf : UInt64 → Prf} {server' : ClientState}
    (seeded : omap.Seeded hashOf prfOf secrets) (atRest : AtRest omap.ods)
    (grows : (omap.register server).Extends server') :
    (omap.detached secrets (omap.newIds server)).attach hashOf prfOf server' =
      some omap.settled := by
  have daGrows : (omap.daoram.register server).Extends server' :=
    (extends_register _ _).trans grows
  have dataHolds : server'.Holds (omap.newIds server).data omap.daoram.dataOram.storage :=
    (holds_registerStore server _).extend ((extends_registerAll _ _).trans daGrows)
  have posMapsHold : ∀ i (posMap : PathORAM), omap.daoram.posMaps[i]? = some posMap →
      server'.Holds ((omap.newIds server).posMaps i) posMap.storage := by
    intro i posMap found
    have mapped : (omap.daoram.posMaps.map PathORAM.storage)[i]? = some posMap.storage := by
      rw [List.getElem?_map, found]
      rfl
    exact (@holds_registerAll (server.registerStore omap.daoram.dataOram.storage).2 _ i _
      mapped).extend daGrows
  have daoram := attach_daoram seeded.prf dataHolds posMapsHold
  have ods : SnapshotOds.attach server' (SnapshotOds.detached omap.ods secrets.ods
      (omap.newIds server).lower (omap.newIds server).upper) =
      some (SnapshotOds.settled omap.ods) :=
    @SnapshotOds.attach_eq Ω _ _ omap.ods secrets.ods (omap.daoram.register server) server' atRest
      grows
  unfold NetworkDaOst.attach DaOstOmap.detached
  dsimp only
  rw [daoram, ods, ← seeded.hash]
  rfl

end DaOst

end TieredOmap
