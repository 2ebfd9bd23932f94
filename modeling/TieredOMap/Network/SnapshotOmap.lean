import TieredOMap.Network.Snapshot
import TieredOMap.Omap.Avl
import TieredOMap.Omap.Bplus

/-!
# Snapshots of the tree maps

`export_state` and `from_state` of `AVLOmap` and `BPlusOmap`, and the functions of
`bench_setup.cpp` that hand the trees of a map to the server and write the ids of the new
stores into its snapshot. Both maps write a header and then one or two ORAMs.
-/

namespace TieredOmap

open Decoder

/-! ## Servers that only grow -/

/-- The stores of a server stay when others are registered. -/
structure ClientState.Extends (server server' : ClientState) : Prop where
  nextId : server.nextId ≤ server'.nextId
  stores : ∀ id < server.nextId, server'.stores.get? id = server.stores.get? id

section Extends

variable {server server' server'' : ClientState}

theorem ClientState.Extends.refl (server : ClientState) : server.Extends server :=
  ⟨le_refl _, fun _ _ => rfl⟩

theorem ClientState.Extends.trans (first : server.Extends server')
    (second : server'.Extends server'') : server.Extends server'' :=
  ⟨first.nextId.trans second.nextId, fun id below =>
    (second.stores id (below.trans_le first.nextId)).trans (first.stores id below)⟩

theorem extends_registerStore (server : ClientState) (tree : BinaryTreeStorage) :
    server.Extends (server.registerStore tree).2 where
  nextId := by
    change server.nextId ≤ server.nextId + 1
    omega
  stores id below := KeyMap.get?_set_of_ne _ _ (by omega)

/-- The server holds a tree under an id, and keeps it. -/
def ClientState.Holds (server : ClientState) (id : Int) (tree : BinaryTreeStorage) : Prop :=
  id < server.nextId ∧ server.stores.get? id = some tree

theorem holds_registerStore (server : ClientState) (tree : BinaryTreeStorage) :
    (server.registerStore tree).2.Holds server.nextId tree :=
  ⟨Int.lt_succ _, KeyMap.get?_set_self _ _ _⟩

theorem ClientState.Holds.extend {id : Int} {tree : BinaryTreeStorage}
    (holds : server.Holds id tree) (grows : server.Extends server') : server'.Holds id tree :=
  ⟨holds.1.trans_le grows.nextId, (grows.stores id holds.1).trans holds.2⟩

theorem ClientState.Holds.attach {oram : PathORAM} {secrets : OramSecrets} {id : Int}
    (holds : server.Holds id oram.storage) :
    (oram.detached secrets id).attach server = some oram := attach_detached holds.2

end Extends

/-! ## One or two ORAMs -/

/-- What the ORAMs of a map keep besides their blocks. -/
structure SplitSecrets where
  lower : OramSecrets := {}
  upper : OramSecrets := {}
deriving DecidableEq, Repr, Inhabited

/-- The ORAMs of a map with their trees at the server. -/
structure NetworkOrams where
  splitDepth : Int
  oram : NetworkOram
  upperOram : Option NetworkOram

namespace SplitOram

/-- The part of `export_state` that writes the ORAMs; the upper one only in a split map. -/
def exportOrams (orams : SplitOram) (secrets : SplitSecrets) (lowerId upperId : Int) : Bytes :=
  serBytes (orams.oram.exportState secrets.lower lowerId) ++
    (if 0 < orams.splitDepth then serBytes (orams.upperOram.exportState secrets.upper upperId)
    else [])

/-- The ORAMs with their trees at the server. -/
def detached (orams : SplitOram) (secrets : SplitSecrets) (lowerId upperId : Int) :
    NetworkOrams where
  splitDepth := orams.splitDepth
  oram := orams.oram.detached secrets.lower lowerId
  upperOram := if 0 < orams.splitDepth then some (orams.upperOram.detached secrets.upper upperId)
    else none

/-- The ORAMs that are in use. -/
def used (orams : SplitOram) : SplitOram :=
  { orams with upperOram := if 0 < orams.splitDepth then orams.upperOram else {} }

/-- The fields are ones the source's types can hold. -/
structure IntState (orams : SplitOram) (secrets : SplitSecrets) : Prop where
  splitDepth : IsInt orams.splitDepth
  lower : orams.oram.IntState secrets.lower
  upper : 0 < orams.splitDepth → orams.upperOram.IntState secrets.upper

/-- Register the trees of the ORAMs. -/
def register (orams : SplitOram) (server : ClientState) : ClientState :=
  let server := (server.registerStore orams.oram.storage).2
  if 0 < orams.splitDepth then (server.registerStore orams.upperOram.storage).2 else server

end SplitOram

namespace NetworkOrams

/-- The part of `from_state` that reads the ORAMs. -/
def fromState (splitDepth : Int) : Deser NetworkOrams := do
  let _ ← deserInt
  let oram ← NetworkOram.fromState
  if 0 < splitDepth then do
    let _ ← deserInt
    let upperOram ← NetworkOram.fromState
    return { splitDepth, oram, upperOram := some upperOram }
  else return { splitDepth, oram, upperOram := none }

/-- The ORAMs with the trees that the server has for them. -/
def attach (server : ClientState) (net : NetworkOrams) : Option SplitOram := do
  let oram ← net.oram.attach server
  let upperOram ← match net.upperOram with
    | some upperOram => upperOram.attach server
    | none => some {}
  return { splitDepth := net.splitDepth, upperOram, oram }

end NetworkOrams

/--
Hand the trees of a map to the server and write their ids into the snapshot that starts at
`base`: `hdr` is the length of its header and `splitOffset` where it has `split_depth`.
-/
def detachRegisterPatchOrams (hdr splitOffset : Nat) (server : ClientState) (orams : SplitOram)
    (blob : Bytes) (base : Nat) : ClientState × Bytes :=
  let b0Len := intAt blob (base + hdr)
  let (sid0, server) := server.registerStore orams.oram.storage
  let blob := patchSid blob (base + hdr + 4) sid0
  let splitDepth := intAt blob (base + splitOffset)
  if 0 < splitDepth then
    let b1Offset := base + hdr + 4 + b0Len.toNat
    let (sid1, server) := server.registerStore orams.upperOram.storage
    (server, patchSid blob (b1Offset + 4) sid1)
  else (server, blob)

section Orams

variable {orams : SplitOram} {secrets : SplitSecrets} {server : ClientState} {lowerId upperId : Int}

theorem extends_register (orams : SplitOram) (server : ClientState) :
    server.Extends (orams.register server) := by
  unfold SplitOram.register
  dsimp only
  split
  · exact (extends_registerStore _ _).trans (extends_registerStore _ _)
  · exact extends_registerStore _ _

/-- Each ORAM finds its own tree. -/
theorem attach_register {server' : ClientState}
    (grows : (orams.register server).Extends server') :
    (orams.detached secrets server.nextId (server.nextId + 1)).attach server' =
      some orams.used := by
  have lower : ((server.registerStore orams.oram.storage).2).Extends (orams.register server) := by
    unfold SplitOram.register
    dsimp only
    split
    · exact extends_registerStore _ _
    · exact ClientState.Extends.refl _
  have lowerHolds := (holds_registerStore server orams.oram.storage).extend (lower.trans grows)
  unfold NetworkOrams.attach SplitOram.detached
  dsimp only
  rw [lowerHolds.attach, SplitOram.used]
  by_cases split : 0 < orams.splitDepth
  · have upper : (orams.register server).Holds (server.nextId + 1) orams.upperOram.storage := by
      unfold SplitOram.register
      rw [if_pos split]
      exact holds_registerStore (server.registerStore orams.oram.storage).2 _
    simp only [split, if_true, Option.bind_eq_bind, Option.bind_some]
    rw [(upper.extend grows).attach]
    rfl
  · simp only [split, if_false, Option.bind_eq_bind, Option.bind_some]
    rfl

theorem length_exportOrams (lowerId upperId lowerId' upperId' : Int) :
    (orams.exportOrams secrets lowerId upperId).length =
      (orams.exportOrams secrets lowerId' upperId').length := by
  unfold SplitOram.exportOrams
  split <;> simp only [List.length_append, serBytes, length_serInt, length_exportState]

/-- The ORAMs in a snapshot with everything but the ids named. -/
theorem exportOrams_parts (lowerId upperId : Int) :
    orams.exportOrams secrets lowerId upperId =
      serInt (4 + (orams.oram.exportClient secrets.lower).length : Nat) ++ (serInt lowerId ++
        (orams.oram.exportClient secrets.lower ++ (if 0 < orams.splitDepth then
          serInt (4 + (orams.upperOram.exportClient secrets.upper).length : Nat) ++
            (serInt upperId ++ orams.upperOram.exportClient secrets.upper) else []))) := by
  unfold SplitOram.exportOrams serBytes
  rw [length_exportState, length_exportState, PathORAM.exportState, PathORAM.exportState]
  simp only [List.append_assoc]

/-- The ids in a snapshot become those of the registered trees. -/
theorem detachRegisterPatchOrams_eq {hdr splitOffset : Nat} {front headFront headBack back : Bytes}
    (splitAt : headFront.length = splitOffset) (hdrEq : headFront.length + 4 + headBack.length = hdr)
    (isInt : IsInt orams.splitDepth)
    (short : (orams.exportOrams secrets lowerId upperId).length < 2 ^ 31) :
    detachRegisterPatchOrams hdr splitOffset server orams
        (front ++ (headFront ++ (serInt orams.splitDepth ++ (headBack ++
          (orams.exportOrams secrets lowerId upperId ++ back))))) front.length =
      (orams.register server, front ++ (headFront ++ (serInt orams.splitDepth ++ (headBack ++
        (orams.exportOrams secrets server.nextId (server.nextId + 1) ++ back))))) := by
  rw [exportOrams_parts] at short ⊢
  rw [exportOrams_parts]
  set client := orams.oram.exportClient secrets.lower
  set upperClient := orams.upperOram.exportClient secrets.upper
  set size : Int := ((4 + client.length : Nat) : Int) with sizeEq
  have sizeInt : IsInt size := by
    simp only [List.length_append, length_serInt] at short
    exact ⟨by omega, by omega⟩
  -- everything in front of the first ORAM's id
  set head := front ++ (headFront ++ (serInt orams.splitDepth ++ headBack)) with headEq
  have headLength : head.length = front.length + hdr := by
    simp only [headEq, List.length_append, length_serInt]
    omega
  unfold detachRegisterPatchOrams
  rw [@intAt_append _ head _ size _ (by simp only [headEq, List.append_assoc]; rfl) headLength.symm
    sizeInt]
  dsimp only [ClientState.registerStore]
  rw [@patchSid_append _ (head ++ serInt size) _ lowerId _ _
    (by simp only [headEq, List.append_assoc]; rfl)
    (by simp only [List.length_append, length_serInt, headLength])]
  rw [@intAt_append _ (front ++ headFront) _ orams.splitDepth _
    (by simp only [headEq, List.append_assoc]; rfl)
    (by rw [List.length_append, splitAt]) isInt]
  unfold SplitOram.register
  by_cases split : 0 < orams.splitDepth
  · simp only [split, if_true]
    rw [@patchSid_append _ (head ++ (serInt size ++ (serInt server.nextId ++ (client ++
        serInt ((4 + upperClient.length : Nat) : Int))))) _ upperId _ _
      (by simp only [List.append_assoc]; rfl)
      (by simp only [List.length_append, length_serInt, headLength]; omega)]
    simp only [headEq, List.append_assoc]
    rfl
  · simp only [split, if_false, headEq, List.append_assoc]
    rfl

theorem reads_orams (isInt : orams.IntState secrets) (lowerInt : IsInt lowerId)
    (upperInt : IsInt upperId)
    (short : (orams.exportOrams secrets lowerId upperId).length < 2 ^ 31) :
    Reads (NetworkOrams.fromState orams.splitDepth) (orams.detached secrets lowerId upperId)
      (orams.exportOrams secrets lowerId upperId) := by
  unfold NetworkOrams.fromState SplitOram.detached
  unfold SplitOram.exportOrams at short ⊢
  by_cases split : 0 < orams.splitDepth
  · simp only [split, if_true, List.length_append, serBytes, length_serInt] at short ⊢
    rw [List.append_assoc]
    refine reads_bind (reads_size (by omega)) ?_
    refine reads_bind (isInt.lower.reads_state lowerInt (by omega)) ?_
    refine reads_bind (reads_size (by omega)) ?_
    exact reads_bind_pure ((isInt.upper split).reads_state upperInt (by omega)) rfl
  · simp only [split, if_false, List.length_append, serBytes, length_serInt, List.append_nil]
      at short ⊢
    refine reads_bind (reads_size (by omega)) ?_
    exact reads_bind_pure (isInt.lower.reads_state lowerInt (by omega)) rfl

end Orams

/-- A flag. -/
def serFlag (flag : Bool) : Bytes := serInt (if flag then 1 else 0)

/-- A flag. -/
def deserFlag : Deser Bool := do
  let value ← deserInt
  return value != 0

theorem reads_flag (flag : Bool) : Reads deserFlag flag (serFlag flag) := by
  have isInt : IsInt (if flag then 1 else 0) := by cases flag <;> decide
  exact reads_bind_pure (reads_int isInt) (by cases flag <;> rfl)

theorem length_serFlag (flag : Bool) : (serFlag flag).length = 4 := length_serInt _

/-! ## AVL maps -/

/-- An `AVLOmap` with its trees at the server. -/
structure NetworkAvl where
  capacity : Int
  maxHeight : Int
  rootKey : Int
  rootLeaf : Int
  odsMode : Bool
  orams : NetworkOrams

namespace AVLOmap

/-- The snapshot, with the ids of the stores in it. -/
def snapshot (omap : AVLOmap) (secrets : SplitSecrets) (lowerId upperId : Int) : Bytes :=
  serInt omap.capacity ++ (serInt omap.maxHeight ++ (serInt omap.rootKey ++
    (serInt omap.rootLeaf ++ (serInt omap.orams.splitDepth ++ (serFlag omap.odsMode ++
      omap.orams.exportOrams secrets lowerId upperId)))))

/-- `export_state`. -/
def exportState (omap : AVLOmap) (secrets : SplitSecrets) : Bytes := omap.snapshot secrets (-1) (-1)

/-- The map without what the last operation has left for its caller. -/
def settled (omap : AVLOmap) : AVLOmap :=
  { omap with
    ss := {}, pb := {}, orams := omap.orams.used
    opCount := 0, upperOpCount := 0, lowerOpCount := 0 }

/-- The map with its trees at the server. -/
def detached (omap : AVLOmap) (secrets : SplitSecrets) (lowerId upperId : Int) : NetworkAvl where
  capacity := omap.capacity
  maxHeight := omap.maxHeight
  rootKey := omap.rootKey
  rootLeaf := omap.rootLeaf
  odsMode := omap.odsMode
  orams := omap.orams.detached secrets lowerId upperId

/-- The fields are ones the source's types can hold. -/
structure IntState (omap : AVLOmap) (secrets : SplitSecrets) : Prop where
  capacity : IsInt omap.capacity
  maxHeight : IsInt omap.maxHeight
  rootKey : IsInt omap.rootKey
  rootLeaf : IsInt omap.rootLeaf
  orams : omap.orams.IntState secrets

end AVLOmap

namespace NetworkAvl

/-- `AVLOmap::from_state`. -/
def fromState : Deser NetworkAvl := do
  let capacity ← deserInt
  let maxHeight ← deserInt
  let rootKey ← deserInt
  let rootLeaf ← deserInt
  let splitDepth ← deserInt
  let odsMode ← deserFlag
  let orams ← NetworkOrams.fromState splitDepth
  return { capacity, maxHeight, rootKey, rootLeaf, odsMode, orams }

/-- The map with the trees that the server has for it. -/
def attach (server : ClientState) (net : NetworkAvl) : Option AVLOmap := do
  let orams ← net.orams.attach server
  return { capacity := net.capacity, maxHeight := net.maxHeight, rootKey := net.rootKey
           rootLeaf := net.rootLeaf, orams, odsMode := net.odsMode }

end NetworkAvl

/-- `detach_register_patch_avl`. -/
def detachRegisterPatchAvl (server : ClientState) (omap : AVLOmap) (blob : Bytes) (base : Nat) :
    ClientState × Bytes :=
  detachRegisterPatchOrams 24 16 server omap.orams blob base

section Avl

variable {omap : AVLOmap} {secrets : SplitSecrets} {server : ClientState} {lowerId upperId : Int}

theorem length_snapshot_avl (lowerId upperId : Int) :
    (omap.snapshot secrets lowerId upperId).length =
      24 + (omap.orams.exportOrams secrets lowerId upperId).length := by
  simp only [AVLOmap.snapshot, List.length_append, length_serInt, length_serFlag]
  omega

theorem AVLOmap.IntState.reads_state (isInt : omap.IntState secrets) (lowerInt : IsInt lowerId)
    (upperInt : IsInt upperId) (short : (omap.snapshot secrets lowerId upperId).length < 2 ^ 31) :
    Reads NetworkAvl.fromState (omap.detached secrets lowerId upperId)
      (omap.snapshot secrets lowerId upperId) := by
  rw [length_snapshot_avl] at short
  refine reads_bind (reads_int isInt.capacity) (reads_bind (reads_int isInt.maxHeight)
    (reads_bind (reads_int isInt.rootKey) (reads_bind (reads_int isInt.rootLeaf)
      (reads_bind (reads_int isInt.orams.splitDepth) (reads_bind (reads_flag _) ?_)))))
  exact reads_bind_pure (reads_orams isInt.orams lowerInt upperInt (by omega)) rfl

theorem detachRegisterPatchAvl_eq (isInt : omap.IntState secrets) (front back : Bytes)
    (short : (omap.snapshot secrets lowerId upperId).length < 2 ^ 31) :
    detachRegisterPatchAvl server omap
        (front ++ (omap.snapshot secrets lowerId upperId ++ back)) front.length =
      (omap.orams.register server,
        front ++ (omap.snapshot secrets server.nextId (server.nextId + 1) ++ back)) := by
  rw [length_snapshot_avl] at short
  have patched := @detachRegisterPatchOrams_eq omap.orams secrets server lowerId upperId 24 16 front
    (serInt omap.capacity ++ (serInt omap.maxHeight ++ (serInt omap.rootKey ++
      serInt omap.rootLeaf))) (serFlag omap.odsMode) back
    (by simp only [List.length_append, length_serInt])
    (by simp only [List.length_append, length_serInt, length_serFlag])
    isInt.orams.splitDepth (by omega)
  simpa only [detachRegisterPatchAvl, AVLOmap.snapshot, List.append_assoc] using patched

theorem attach_avl {server' : ClientState} (noLocal : omap.local_ = [])
    (grows : (omap.orams.register server).Extends server') :
    (omap.detached secrets server.nextId (server.nextId + 1)).attach server' =
      some omap.settled := by
  unfold NetworkAvl.attach AVLOmap.detached AVLOmap.settled
  dsimp only
  rw [attach_register grows, noLocal]
  rfl

end Avl

/-! ## B+ maps -/

/-- A `BPlusOmap` with its trees at the server. -/
structure NetworkBplus where
  order : Nat
  maxHeight : Int
  indexMode : Bool
  rootId : Int
  rootLeaf : Int
  nextBlockId : Int
  odsMode : Bool
  orams : NetworkOrams

namespace BPlusOmap

/-- The snapshot, with the ids of the stores in it. -/
def snapshot (omap : BPlusOmap) (secrets : SplitSecrets) (lowerId upperId : Int) : Bytes :=
  serInt omap.rootId ++ (serInt omap.rootLeaf ++ (serInt omap.nextBlockId ++ (serInt omap.order ++
    (serInt omap.maxHeight ++ (serFlag omap.odsMode ++ (serInt omap.orams.splitDepth ++
      (serFlag omap.indexMode ++ omap.orams.exportOrams secrets lowerId upperId)))))))

/-- `export_state`. -/
def exportState (omap : BPlusOmap) (secrets : SplitSecrets) : Bytes :=
  omap.snapshot secrets (-1) (-1)

/-- The map without what the last operation has left for its caller. -/
def settled (omap : BPlusOmap) : BPlusOmap :=
  { omap with
    ss := {}, pb := {}, orams := omap.orams.used
    opCount := 0, upperOpCount := 0, lowerOpCount := 0 }

/-- The map with its trees at the server. -/
def detached (omap : BPlusOmap) (secrets : SplitSecrets) (lowerId upperId : Int) : NetworkBplus where
  order := omap.order
  maxHeight := omap.maxHeight
  indexMode := omap.indexMode
  rootId := omap.rootId
  rootLeaf := omap.rootLeaf
  nextBlockId := omap.nextBlockId
  odsMode := omap.odsMode
  orams := omap.orams.detached secrets lowerId upperId

/-- The fields are ones the source's types can hold. -/
structure IntState (omap : BPlusOmap) (secrets : SplitSecrets) : Prop where
  rootId : IsInt omap.rootId
  rootLeaf : IsInt omap.rootLeaf
  nextBlockId : IsInt omap.nextBlockId
  order : IsInt omap.order
  maxHeight : IsInt omap.maxHeight
  orams : omap.orams.IntState secrets

end BPlusOmap

namespace NetworkBplus

/-- `BPlusOmap::from_state`. -/
def fromState : Deser NetworkBplus := do
  let rootId ← deserInt
  let rootLeaf ← deserInt
  let nextBlockId ← deserInt
  let order ← deserInt
  let maxHeight ← deserInt
  let odsMode ← deserFlag
  let splitDepth ← deserInt
  let indexMode ← deserFlag
  let orams ← NetworkOrams.fromState splitDepth
  return { order := order.toNat, maxHeight, indexMode, rootId, rootLeaf, nextBlockId, odsMode, orams }

/-- The map with the trees that the server has for it. -/
def attach (server : ClientState) (net : NetworkBplus) : Option BPlusOmap := do
  let orams ← net.orams.attach server
  return { order := net.order, maxHeight := net.maxHeight, indexMode := net.indexMode
           rootId := net.rootId, rootLeaf := net.rootLeaf, nextBlockId := net.nextBlockId, orams
           odsMode := net.odsMode }

end NetworkBplus

/-- `detach_register_patch_bplus`. -/
def detachRegisterPatchBplus (server : ClientState) (omap : BPlusOmap) (blob : Bytes) (base : Nat) :
    ClientState × Bytes :=
  detachRegisterPatchOrams 32 24 server omap.orams blob base

section Bplus

variable {omap : BPlusOmap} {secrets : SplitSecrets} {server : ClientState} {lowerId upperId : Int}

theorem length_snapshot_bplus (lowerId upperId : Int) :
    (omap.snapshot secrets lowerId upperId).length =
      32 + (omap.orams.exportOrams secrets lowerId upperId).length := by
  simp only [BPlusOmap.snapshot, List.length_append, length_serInt, length_serFlag]
  omega

theorem BPlusOmap.IntState.reads_state (isInt : omap.IntState secrets) (lowerInt : IsInt lowerId)
    (upperInt : IsInt upperId) (short : (omap.snapshot secrets lowerId upperId).length < 2 ^ 31) :
    Reads NetworkBplus.fromState (omap.detached secrets lowerId upperId)
      (omap.snapshot secrets lowerId upperId) := by
  rw [length_snapshot_bplus] at short
  refine reads_bind (reads_int isInt.rootId) (reads_bind (reads_int isInt.rootLeaf)
    (reads_bind (reads_int isInt.nextBlockId) (reads_bind (reads_int isInt.order)
      (reads_bind (reads_int isInt.maxHeight) (reads_bind (reads_flag _)
        (reads_bind (reads_int isInt.orams.splitDepth) (reads_bind (reads_flag _) ?_)))))))
  exact reads_bind_pure (reads_orams isInt.orams lowerInt upperInt (by omega)) rfl

theorem detachRegisterPatchBplus_eq (isInt : omap.IntState secrets) (front back : Bytes)
    (short : (omap.snapshot secrets lowerId upperId).length < 2 ^ 31) :
    detachRegisterPatchBplus server omap
        (front ++ (omap.snapshot secrets lowerId upperId ++ back)) front.length =
      (omap.orams.register server,
        front ++ (omap.snapshot secrets server.nextId (server.nextId + 1) ++ back)) := by
  rw [length_snapshot_bplus] at short
  have patched := @detachRegisterPatchOrams_eq omap.orams secrets server lowerId upperId 32 24 front
    (serInt omap.rootId ++ (serInt omap.rootLeaf ++ (serInt omap.nextBlockId ++
      (serInt omap.order ++ (serInt omap.maxHeight ++ serFlag omap.odsMode)))))
    (serFlag omap.indexMode) back
    (by simp only [List.length_append, length_serInt, length_serFlag])
    (by simp only [List.length_append, length_serInt, length_serFlag])
    isInt.orams.splitDepth (by omega)
  simpa only [detachRegisterPatchBplus, BPlusOmap.snapshot, List.append_assoc] using patched

theorem attach_bplus {server' : ClientState} (noLocal : omap.local_ = [])
    (noSiblings : omap.siblingCache = []) (grows : (omap.orams.register server).Extends server') :
    (omap.detached secrets server.nextId (server.nextId + 1)).attach server' =
      some omap.settled := by
  unfold NetworkBplus.attach BPlusOmap.detached BPlusOmap.settled
  dsimp only
  rw [attach_register grows, noLocal, noSiblings]
  rfl

end Bplus

end TieredOmap
