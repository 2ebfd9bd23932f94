import TieredOMap.Network.SnapshotOmap
import TieredOMap.Omap.DaOst

/-!
# Snapshots of the DA map

`export_state` and `from_state` of `DAOram` and `DaOstOmap`. A DAORAM has a tree for its
data and one for each position-map level; the functions of `bench_setup.cpp` walk through
the snapshot to find where their ids stand. `prfOf` and `hashOf` stand for the
pseudo-random function and the hash under a seed.
-/

namespace TieredOmap

open Decoder

/-! ## Values -/

/-- A `uint64_t`. -/
def serWord (value : UInt64) : Bytes := littleEndian 8 value.toNat

/-- A `uint64_t`. -/
def deserWord : Deser UInt64 := do
  let bytes ← takeBytes 8
  return UInt64.ofNat (ofLittleEndian bytes)

/-- Read a value from a byte string of its own. -/
def deserNested {α : Type} (decoder : Deser α) : Deser α := do
  let blob ← deserBytes
  match decoder.run blob with
  | .ok (value, _) => return value
  | .error error => throw error

theorem length_serWord (value : UInt64) : (serWord value).length = 8 := length_littleEndian _ _

theorem reads_word (value : UInt64) : Reads deserWord value (serWord value) := by
  have eight : (8 : Int) = (serWord value).length := by rw [length_serWord]; rfl
  refine reads_bind_pure (eight ▸ reads_takeBytes (serWord value)) ?_
  rw [serWord, ofLittleEndian_littleEndian,
    Nat.mod_eq_of_lt (by have := value.toNat_lt; omega)]
  exact UInt64.ofNat_toNat

theorem reads_nested {α : Type} {decoder : Deser α} {value : α} {blob : Bytes}
    (reads : Reads decoder value blob) (short : blob.length < 2 ^ 31) :
    Reads (deserNested decoder) value (serBytes blob) := by
  intro rest
  unfold deserNested
  rw [StateT.run_bind, reads_bytes short, ok_bind]
  dsimp only
  rw [reads.run]
  rfl

/-! ## Counters -/

/-- An on-chip counter block. -/
def serCounters (block : CounterBlock) : Bytes := serBytes block.encode

/-- An on-chip counter block. -/
def deserCounters (numIc : Nat) : Deser CounterBlock := do
  let bytes ← deserBytes
  return CounterBlock.decode bytes numIc

/-- A counter block for groups of `numIc` keys. -/
def CounterBlock.HasSize (block : CounterBlock) (numIc : Nat) : Prop :=
  block.ic.length = numIc ∧ block.backup.length = numIc

theorem reads_counters {block : CounterBlock} {numIc : Nat} (size : block.HasSize numIc)
    (short : (serCounters block).length < 2 ^ 31) :
    Reads (deserCounters numIc) block (serCounters block) := by
  rw [serCounters, serBytes, List.length_append, length_serInt] at short
  exact reads_bind_pure (reads_bytes (by omega)) (CounterBlock.decode_encode size.1 size.2)

/-! ## The DAORAM -/

/-- What a `DAOram` keeps besides its counters and blocks. -/
structure DaSecrets where
  prfSeed : UInt64 := 0
  blockSizeBytes : Int := 0
  pendingLeaves : List Int := []
  posMaps : Nat → OramSecrets := fun _ => {}

/-- A `DAOram` with its trees at the server. -/
structure NetworkDaOram where
  numData : Nat
  bucketSize : Int
  stashMaxSize : Int
  numIc : Nat
  icMax : Nat
  onChipMem : Nat
  blockSizeBytes : Int
  prfSeed : UInt64
  levelSizes : List Nat
  onChip : List CounterBlock
  posMaps : List NetworkOram
  stash : List Block
  pendingLeaves : List Int
  storage : NetworkStorage

namespace DAOram

/-- The position-map part of `export_state`, from level `i` on. -/
def exportPosMaps (secrets : DaSecrets) (ids : Nat → Int) : Nat → List PathORAM → Bytes
  | _, [] => []
  | i, posMap :: rest =>
      serBytes (posMap.exportState (secrets.posMaps i) (ids i)) ++
        exportPosMaps secrets ids (i + 1) rest

/-- What `export_state` writes between the id of the data tree and the counters. -/
def exportHead (da : DAOram) (secrets : DaSecrets) : Bytes :=
  serInt da.dataOram.storage.level ++ (serInt da.dataOram.storage.leafRange ++
    (serInt da.numData ++ (serInt da.bucketSize ++ (serInt da.dataOram.stashMaxSize ++
      (serInt da.numIc ++ (serInt da.icMax ++ (serInt da.onChipMem ++
        (serInt secrets.blockSizeBytes ++ serWord secrets.prfSeed))))))))

/-- What `export_state` writes after the position maps. -/
def exportTail (da : DAOram) (secrets : DaSecrets) : Bytes :=
  serInt da.dataOram.stash.length ++ (da.dataOram.stash.flatMap serBlock ++
    (serInt secrets.pendingLeaves.length ++ secrets.pendingLeaves.flatMap serInt))

/-- The sizes of the position-map levels, as `int`s. -/
def sizes (da : DAOram) : List Int := da.levelSizes.map (fun (size : Nat) => (size : Int))

/-- The snapshot, with the ids of the stores in it. -/
def snapshot (da : DAOram) (secrets : DaSecrets) (dataId : Int) (ids : Nat → Int) : Bytes :=
  serInt dataId ++ (da.exportHead secrets ++
    (serInt da.numPosLevels ++ (da.sizes.flatMap serInt ++
      (serInt da.onChip.length ++ (da.onChip.flatMap serCounters ++
        (exportPosMaps secrets ids 0 da.posMaps ++ da.exportTail secrets))))))

/-- `export_state`. -/
def exportState (da : DAOram) (secrets : DaSecrets) (storeId : Int) : Bytes :=
  da.snapshot secrets storeId (fun _ => -1)

/--
The DAORAM without what the last operation has left. Its data level is no ORAM of its own in
the source: it has neither a position map nor its own sizes.
-/
def settled (da : DAOram) : DAOram :=
  { da with
    dataOram := { da.dataOram with numData := da.numData, bucketSize := da.bucketSize, posMap := ∅ }
    step := {}, pbStep := {} }

/-- The position maps with their trees at the server, from level `i` on. -/
def detachedPosMaps (secrets : DaSecrets) (ids : Nat → Int) : Nat → List PathORAM → List NetworkOram
  | _, [] => []
  | i, posMap :: rest =>
      posMap.detached (secrets.posMaps i) (ids i) :: detachedPosMaps secrets ids (i + 1) rest

/-- The DAORAM with its trees at the server. -/
def detached (da : DAOram) (secrets : DaSecrets) (dataId : Int) (ids : Nat → Int) :
    NetworkDaOram where
  numData := da.numData
  bucketSize := da.bucketSize
  stashMaxSize := da.dataOram.stashMaxSize
  numIc := da.numIc
  icMax := da.icMax
  onChipMem := da.onChipMem
  blockSizeBytes := secrets.blockSizeBytes
  prfSeed := secrets.prfSeed
  levelSizes := da.levelSizes
  onChip := da.onChip
  posMaps := detachedPosMaps secrets ids 0 da.posMaps
  stash := da.dataOram.stash
  pendingLeaves := secrets.pendingLeaves
  storage := { storeId := dataId, level := da.dataOram.storage.level
               leafRange := da.dataOram.storage.leafRange, bucketSize := da.bucketSize }

/-- The fields are ones the source's types can hold. -/
structure IntState (da : DAOram) (secrets : DaSecrets) : Prop where
  level : IsInt da.dataOram.storage.level
  leafRange : IsInt da.dataOram.storage.leafRange
  numData : IsInt da.numData
  bucketSize : IsInt da.bucketSize
  stashMaxSize : IsInt da.dataOram.stashMaxSize
  numIc : IsInt da.numIc
  icMax : IsInt da.icMax
  onChipMem : IsInt da.onChipMem
  blockSizeBytes : IsInt secrets.blockSizeBytes
  levelSizes : ∀ size ∈ da.sizes, IsInt size
  posMaps : ∀ i (posMap : PathORAM), da.posMaps[i]? = some posMap →
    posMap.IntState (secrets.posMaps i)
  stash : ∀ block ∈ da.dataOram.stash, IntBlock block
  pendingLeaves : ∀ leaf ∈ secrets.pendingLeaves, IsInt leaf

/-- There is a position map for each level, and every group has its counters. -/
structure Complete (da : DAOram) : Prop where
  posMaps : da.posMaps.length = da.numPosLevels
  onChip : ∀ block ∈ da.onChip, block.HasSize da.numIc

end DAOram

namespace NetworkDaOram

/-- `DAOram::from_state_network`. -/
def fromState : Deser NetworkDaOram := do
  let storeId ← deserInt
  let level ← deserInt
  let leafRange ← deserInt
  let numData ← deserInt
  let bucketSize ← deserInt
  let stashMaxSize ← deserInt
  let numIc ← deserInt
  let icMax ← deserInt
  let onChipMem ← deserInt
  let blockSizeBytes ← deserInt
  let prfSeed ← deserWord
  let numPosLevels ← deserInt
  let levelSizes ← deserInt.times numPosLevels.toNat
  let onChipSize ← deserInt
  let onChip ← (deserCounters numIc.toNat).times onChipSize.toNat
  let posMaps ← (deserNested NetworkOram.fromState).times numPosLevels.toNat
  let stashSize ← deserInt
  let stash ← deserBlock.times stashSize.toNat
  let pendingSize ← deserInt
  let pendingLeaves ← deserInt.times pendingSize.toNat
  return { numData := numData.toNat, bucketSize, stashMaxSize, numIc := numIc.toNat
           icMax := icMax.toNat, onChipMem := onChipMem.toNat, blockSizeBytes, prfSeed
           levelSizes := levelSizes.map Int.toNat, onChip, posMaps, stash, pendingLeaves
           storage := { storeId, level, leafRange, bucketSize } }

/-- The position maps with the trees that the server has for them. -/
def attachPosMaps (server : ClientState) : List NetworkOram → Option (List PathORAM)
  | [] => some []
  | net :: rest => do
      let posMap ← net.attach server
      let posMaps ← attachPosMaps server rest
      return posMap :: posMaps

/-- The data level as an ORAM. -/
def dataNet (net : NetworkDaOram) : NetworkOram where
  numData := net.numData
  bucketSize := net.bucketSize
  stashMaxSize := net.stashMaxSize
  secrets := { blockSizeBytes := net.blockSizeBytes }
  posMap := ∅
  stash := net.stash
  storage := net.storage

/-- The DAORAM with the trees that the server has for it. -/
def attach (prfOf : UInt64 → Prf) (server : ClientState) (net : NetworkDaOram) :
    Option DAOram := do
  let dataOram ← net.dataNet.attach server
  let posMaps ← attachPosMaps server net.posMaps
  return { numData := net.numData, bucketSize := net.bucketSize, numIc := net.numIc
           icMax := net.icMax, onChipMem := net.onChipMem, prf := prfOf net.prfSeed, dataOram
           levelSizes := net.levelSizes, posMaps, onChip := net.onChip }

end NetworkDaOram

section DaOram

variable {da : DAOram} {secrets : DaSecrets} {dataId : Int} {ids : Nat → Int}

theorem reads_posMaps {i : Nat} {posMaps : List PathORAM}
    (isInt : ∀ j (posMap : PathORAM), posMaps[j]? = some posMap →
      posMap.IntState (secrets.posMaps (i + j)))
    (idsInt : ∀ j < posMaps.length, IsInt (ids (i + j)))
    (short : (DAOram.exportPosMaps secrets ids i posMaps).length < 2 ^ 31) :
    Reads ((deserNested NetworkOram.fromState).times posMaps.length)
      (DAOram.detachedPosMaps secrets ids i posMaps) (DAOram.exportPosMaps secrets ids i posMaps) := by
  induction posMaps generalizing i with
  | nil => exact reads_pure _
  | cons posMap rest ih =>
      simp only [DAOram.exportPosMaps, serBytes, List.length_append, length_serInt] at short
      have firstShort : (posMap.exportState (secrets.posMaps i) (ids i)).length < 2 ^ 31 := by omega
      have first := (isInt 0 posMap rfl).reads_state (idsInt 0 (Nat.succ_pos _)) firstShort
      refine reads_bind (reads_nested first firstShort) ?_
      refine reads_bind_pure (ih (fun j other found => ?_) (fun j below => ?_) (by omega)) rfl
      · rw [Nat.add_assoc, Nat.add_comm 1 j]
        exact isInt (j + 1) other found
      · rw [Nat.add_assoc, Nat.add_comm 1 j]
        exact idsInt (j + 1) (Nat.succ_lt_succ below)

/-- A snapshot is read back. -/
theorem DAOram.IntState.reads_state (isInt : da.IntState secrets) (complete : da.Complete)
    (dataInt : IsInt dataId) (idsInt : ∀ i < da.numPosLevels, IsInt (ids i))
    (short : (da.snapshot secrets dataId ids).length < 2 ^ 31) :
    Reads NetworkDaOram.fromState (da.detached secrets dataId ids)
      (da.snapshot secrets dataId ids) := by
  have stashLe := length_blocks_le da.dataOram.stash
  have countersLe : da.onChip.length ≤ (da.onChip.flatMap serCounters).length :=
    length_le_flatMap (fun block _ => by
      rw [serCounters, serBytes, List.length_append, length_serInt]
      omega)
  have levelsLe : da.numPosLevels ≤ (da.sizes.flatMap serInt).length := by
    have le := @length_le_flatMap _ serInt da.sizes (fun size _ => by rw [length_serInt]; omega)
    rwa [DAOram.sizes, List.length_map] at le
  have pendingLe : secrets.pendingLeaves.length ≤ (secrets.pendingLeaves.flatMap serInt).length :=
    length_le_flatMap (fun leaf _ => by rw [length_serInt]; omega)
  have levels := @reads_times _ _ _ deserInt serInt da.sizes
    (fun size mem => reads_int (isInt.levelSizes size mem))
  rw [DAOram.sizes, List.length_map, ← DAOram.sizes] at levels
  have maps := @reads_posMaps secrets ids 0 da.posMaps
    (fun j posMap found => (Nat.zero_add j).symm ▸ isInt.posMaps j posMap found)
    (fun j below => (Nat.zero_add j).symm ▸ idsInt j (complete.posMaps ▸ below))
  rw [complete.posMaps] at maps
  have restored : da.sizes.map Int.toNat = da.levelSizes := by
    simp [DAOram.sizes, List.map_map, Function.comp_def]
  simp only [DAOram.snapshot, DAOram.exportHead, DAOram.exportTail,
    List.length_append, length_serInt, length_serWord] at short ⊢
  unfold NetworkDaOram.fromState
  simp only [List.append_assoc]
  refine reads_bind (reads_int dataInt) (reads_bind (reads_int isInt.level)
    (reads_bind (reads_int isInt.leafRange) (reads_bind (reads_int isInt.numData)
      (reads_bind (reads_int isInt.bucketSize) (reads_bind (reads_int isInt.stashMaxSize)
        (reads_bind (reads_int isInt.numIc) (reads_bind (reads_int isInt.icMax)
          (reads_bind (reads_int isInt.onChipMem) (reads_bind (reads_int isInt.blockSizeBytes)
            (reads_bind (reads_word _) ?_))))))))))
  refine reads_bind (reads_size (by omega)) ?_
  simp only [Int.toNat_natCast]
  refine reads_bind levels (reads_bind (reads_size (by omega)) ?_)
  simp only [Int.toNat_natCast]
  refine reads_bind (reads_times (fun block mem => reads_counters (complete.onChip block mem) ?_)) ?_
  · have part := @length_part_le _ serCounters _ _ mem
    omega
  refine reads_bind (maps (by omega)) (reads_bind (reads_size (by omega)) ?_)
  simp only [Int.toNat_natCast]
  refine reads_bind (reads_blocks isInt.stash (by omega)) (reads_bind (reads_size (by omega)) ?_)
  simp only [Int.toNat_natCast]
  refine reads_bind_pure
    (reads_times (fun leaf mem => reads_int (isInt.pendingLeaves leaf mem))) ?_
  rw [restored]
  rfl

/-- The DAORAM finds its own trees. -/
theorem attach_posMaps {server : ClientState} {i : Nat} {posMaps : List PathORAM}
    (holds : ∀ j (posMap : PathORAM), posMaps[j]? = some posMap →
      server.Holds (ids (i + j)) posMap.storage) :
    NetworkDaOram.attachPosMaps server (DAOram.detachedPosMaps secrets ids i posMaps) =
      some posMaps := by
  induction posMaps generalizing i with
  | nil => rfl
  | cons posMap rest ih =>
      have others := @ih (i + 1) (fun j other found => by
        rw [Nat.add_assoc, Nat.add_comm 1 j]
        exact holds (j + 1) other found)
      have here : server.Holds (ids i) posMap.storage := holds 0 posMap rfl
      unfold DAOram.detachedPosMaps NetworkDaOram.attachPosMaps
      rw [here.attach, others]
      rfl

theorem attach_daoram {server : ClientState} {prfOf : UInt64 → Prf}
    (seeded : da.prf = prfOf secrets.prfSeed) (dataHolds : server.Holds dataId da.dataOram.storage)
    (holds : ∀ i (posMap : PathORAM), da.posMaps[i]? = some posMap →
      server.Holds (ids i) posMap.storage) :
    (da.detached secrets dataId ids).attach prfOf server = some da.settled := by
  have maps := @attach_posMaps secrets ids server 0 da.posMaps
    (fun j posMap found => (Nat.zero_add j).symm ▸ holds j posMap found)
  have dataNet : (da.detached secrets dataId ids).dataNet.attach server =
      some da.settled.dataOram := by
    unfold NetworkOram.attach NetworkDaOram.dataNet DAOram.detached
    dsimp only
    rw [dataHolds.2]
    exact if_pos ⟨rfl, rfl⟩
  unfold NetworkDaOram.attach
  rw [dataNet]
  simp only [DAOram.detached, Option.bind_eq_bind, Option.bind_some, maps, DAOram.settled, seeded]
  rfl

end DaOram

/-! ## Handing over the trees of a DAORAM -/

/-- Register trees, one after the other. -/
def ClientState.registerAll (server : ClientState) (trees : List BinaryTreeStorage) : ClientState :=
  trees.foldl (fun server tree => (server.registerStore tree).2) server

/-- The loop over the on-chip counters: where the position maps start. -/
def skipCounters (blob : Bytes) : Nat → Nat → Nat
  | 0, scan => scan
  | count + 1, scan => skipCounters blob count (scan + 4 + (intAt blob scan).toNat)

/-- The loop over the position maps. -/
def detachPosMaps : Nat → List PathORAM → ClientState → Bytes → Nat → ClientState × Bytes
  | count + 1, posMap :: rest, server, blob, scan =>
      let pmLen := intAt blob scan
      let (pmSid, server) := server.registerStore posMap.storage
      detachPosMaps count rest server (patchSid blob (scan + 4) pmSid) (scan + 4 + pmLen.toNat)
  | _, _, server, blob, _ => (server, blob)

/-- The part of `detach_register_patch_daost` for the DAORAM whose snapshot starts at `start`. -/
def detachRegisterPatchDaOram (server : ClientState) (da : DAOram) (blob : Bytes) (start : Nat) :
    ClientState × Bytes :=
  let (sidDa, server) := server.registerStore da.dataOram.storage
  let blob := patchSid blob start sidDa
  let scan := start + (4 + 4 + 4) + 7 * 4 + 8
  let numPosLevels := (intAt blob scan).toNat
  let scan := scan + 4 + numPosLevels * 4
  let ocSize := (intAt blob scan).toNat
  detachPosMaps numPosLevels da.posMaps server blob (skipCounters blob ocSize (scan + 4))

/-- Register the trees of a DAORAM. -/
def DAOram.register (da : DAOram) (server : ClientState) : ClientState :=
  (server.registerStore da.dataOram.storage).2.registerAll (da.posMaps.map PathORAM.storage)

section Detach

variable {da : DAOram} {secrets : DaSecrets} {server : ClientState} {dataId : Int} {ids : Nat → Int}

theorem extends_registerAll (server : ClientState) (trees : List BinaryTreeStorage) :
    server.Extends (server.registerAll trees) := by
  induction trees generalizing server with
  | nil => exact ClientState.Extends.refl _
  | cons tree rest ih => exact (extends_registerStore server tree).trans (ih _)

theorem nextId_registerAll (server : ClientState) (trees : List BinaryTreeStorage) :
    (server.registerAll trees).nextId = server.nextId + trees.length := by
  induction trees generalizing server with
  | nil => exact (Int.add_zero _).symm
  | cons tree rest ih =>
      change ((server.registerStore tree).2.registerAll rest).nextId = _
      rw [ih, List.length_cons, ClientState.registerStore]
      dsimp only
      omega

/-- Each tree is held under the id that was next when it was registered. -/
theorem holds_registerAll {trees : List BinaryTreeStorage} {i : Nat} {tree : BinaryTreeStorage}
    (found : trees[i]? = some tree) :
    (server.registerAll trees).Holds (server.nextId + i) tree := by
  induction trees generalizing server i with
  | nil => cases found
  | cons first rest ih =>
      change ((server.registerStore first).2.registerAll rest).Holds _ _
      cases i with
      | zero =>
          cases found
          have holds := (holds_registerStore server tree).extend (extends_registerAll _ rest)
          simpa using holds
      | succ i =>
          have holds := @ih (server.registerStore first).2 i found
          have same : (server.registerStore first).2.nextId + (i : Int) =
              server.nextId + ((i + 1 : Nat) : Int) := by
            simp only [ClientState.registerStore]
            omega
          rwa [same] at holds

theorem extends_registerDa (da : DAOram) (server : ClientState) :
    server.Extends (da.register server) :=
  (extends_registerStore server _).trans (extends_registerAll _ _)

theorem nextId_registerDa (da : DAOram) (server : ClientState) :
    (da.register server).nextId = server.nextId + 1 + da.posMaps.length := by
  rw [DAOram.register, nextId_registerAll, List.length_map]
  rfl

theorem skipCounters_eq {front back : Bytes} {blocks : List CounterBlock}
    (short : (blocks.flatMap serCounters).length < 2 ^ 31) :
    skipCounters (front ++ (blocks.flatMap serCounters ++ back)) blocks.length front.length =
      (front ++ blocks.flatMap serCounters).length := by
  induction blocks generalizing front with
  | nil => simp [skipCounters]
  | cons block rest ih =>
      rw [List.flatMap_cons, List.length_append] at short
      have blockLength : (serCounters block).length = 4 + block.encode.length := by
        rw [serCounters, serBytes, List.length_append, length_serInt]
      have size : IsInt (block.encode.length : Int) := ⟨by omega, by omega⟩
      rw [List.length_cons, skipCounters, @intAt_append _ front _ (block.encode.length : Int) _
        (by simp only [List.flatMap_cons, serCounters, serBytes, List.append_assoc]; rfl) rfl size]
      have skipped := @ih (front ++ serCounters block) (by omega)
      have nextScan : front.length + 4 + ((block.encode.length : Nat) : Int).toNat =
          (front ++ serCounters block).length := by
        rw [List.length_append, blockLength, Int.toNat_natCast, Nat.add_assoc]
      rw [nextScan, List.flatMap_cons, List.append_assoc, ← List.append_assoc front, skipped,
        List.append_assoc]

/-- The ids of the position maps become those of the registered trees. -/
theorem detachPosMaps_eq {i : Nat} {ids' : Nat → Int} {front back : Bytes}
    {posMaps : List PathORAM} (newIds : ∀ j < posMaps.length, ids' (i + j) = server.nextId + j)
    (short : (DAOram.exportPosMaps secrets ids i posMaps).length < 2 ^ 31) :
    detachPosMaps posMaps.length posMaps server
        (front ++ (DAOram.exportPosMaps secrets ids i posMaps ++ back)) front.length =
      (server.registerAll (posMaps.map PathORAM.storage),
        front ++ (DAOram.exportPosMaps secrets ids' i posMaps ++ back)) := by
  induction posMaps generalizing i front server with
  | nil => rfl
  | cons posMap rest ih =>
      set client := posMap.exportClient (secrets.posMaps i) with clientEq
      have exported : ∀ ids : Nat → Int, DAOram.exportPosMaps secrets ids i (posMap :: rest) =
          serInt (4 + client.length : Nat) ++ (serInt (ids i) ++ (client ++
            DAOram.exportPosMaps secrets ids (i + 1) rest)) := by
        intro ids
        rw [DAOram.exportPosMaps, serBytes, length_exportState, PathORAM.exportState]
        simp only [List.append_assoc, clientEq]
      rw [exported] at short ⊢
      rw [exported]
      simp only [List.length_append, length_serInt] at short
      have size : IsInt ((4 + client.length : Nat) : Int) := ⟨by omega, by omega⟩
      have firstId : ids' i = server.nextId := by simpa using newIds 0 (Nat.succ_pos _)
      rw [List.length_cons, detachPosMaps, @intAt_append _ front _ _ _
        (by simp only [List.append_assoc]; rfl) rfl size]
      dsimp only [ClientState.registerStore]
      rw [@patchSid_append _ (front ++ serInt ((4 + client.length : Nat) : Int)) _ (ids i) _ _
        (by simp only [List.append_assoc]; rfl) (by rw [List.length_append, length_serInt])]
      have others := @ih (server.registerStore posMap.storage).2 (i + 1)
        (front ++ (serInt ((4 + client.length : Nat) : Int) ++ (serInt server.nextId ++ client)))
        (fun j below => ?_) (by omega)
      · have nextScan : front.length + 4 + ((4 + client.length : Nat) : Int).toNat =
            (front ++ (serInt ((4 + client.length : Nat) : Int) ++
              (serInt server.nextId ++ client))).length := by
          simp only [List.length_append, length_serInt, Int.toNat_natCast]
          omega
        simp only [List.append_assoc, firstId] at others ⊢
        rw [nextScan]
        exact others
      · rw [Nat.add_assoc, Nat.add_comm 1 j]
        have next := newIds (j + 1) (Nat.succ_lt_succ below)
        rw [next, ClientState.registerStore]
        dsimp only
        omega

/-- The ids in the snapshot of a DAORAM become those of the registered trees. -/
theorem detachRegisterPatchDaOram_eq (complete : da.Complete) {front back : Bytes} {ids' : Nat → Int}
    (newIds : ∀ i < da.numPosLevels, ids' i = server.nextId + 1 + i)
    (short : (da.snapshot secrets dataId ids).length < 2 ^ 31) :
    detachRegisterPatchDaOram server da (front ++ (da.snapshot secrets dataId ids ++ back))
        front.length =
      (da.register server, front ++ (da.snapshot secrets server.nextId ids' ++ back)) := by
  have sizesLength : (da.sizes.flatMap serInt).length = da.numPosLevels * 4 := by
    rw [length_flatMap_serInt, DAOram.sizes, List.length_map, DAOram.numPosLevels, Nat.mul_comm]
  have headLength : (da.exportHead secrets).length = (4 + 4 + 7 * 4 + 8 : Nat) := by
    simp only [DAOram.exportHead, List.length_append, length_serInt, length_serWord]
  have countersLe : da.onChip.length ≤ (da.onChip.flatMap serCounters).length :=
    length_le_flatMap (fun block _ => by
      rw [serCounters, serBytes, List.length_append, length_serInt]
      omega)
  unfold DAOram.snapshot at short ⊢
  set maps : (Nat → Int) → Bytes := fun ids => DAOram.exportPosMaps secrets ids 0 da.posMaps
  set head := da.exportHead secrets
  set tail := da.exportTail secrets
  set sizes := da.sizes.flatMap serInt
  set counters := da.onChip.flatMap serCounters with countersEq
  simp only [List.length_append, length_serInt] at short
  have levelsInt : IsInt (da.numPosLevels : Int) := ⟨by omega, by omega⟩
  have countersInt : IsInt (da.onChip.length : Int) := ⟨by omega, by omega⟩
  unfold detachRegisterPatchDaOram
  dsimp only [ClientState.registerStore]
  rw [@patchSid_append _ front _ dataId _ _ (by simp only [List.append_assoc]; rfl) rfl]
  rw [@intAt_append _ (front ++ (serInt server.nextId ++ head)) _ (da.numPosLevels : Int) _
    (by simp only [List.append_assoc]; rfl)
    (by simp only [List.length_append, length_serInt, headLength, Nat.add_assoc]) levelsInt]
  rw [@intAt_append _ (front ++ (serInt server.nextId ++ (head ++ (serInt da.numPosLevels ++ sizes))))
    _ (da.onChip.length : Int) _ (by simp only [List.append_assoc]; rfl)
    (by simp only [List.length_append, length_serInt, headLength, sizesLength, Int.toNat_natCast,
      Nat.add_assoc]) countersInt]
  simp only [Int.toNat_natCast]
  have countersShort : (da.onChip.flatMap serCounters).length < 2 ^ 31 := by
    rw [← countersEq]
    omega
  have skipped := @skipCounters_eq (front ++ (serInt server.nextId ++ (head ++
    (serInt da.numPosLevels ++ (sizes ++ serInt da.onChip.length))))) (maps ids ++ (tail ++ back))
    da.onChip countersShort
  have patched := @detachPosMaps_eq secrets (server.registerStore da.dataOram.storage).2 ids 0 ids'
    (front ++ (serInt server.nextId ++ (head ++ (serInt da.numPosLevels ++ (sizes ++
      (serInt da.onChip.length ++ counters)))))) (tail ++ back) da.posMaps (fun i below => by
        rw [Nat.zero_add, newIds i (complete.posMaps ▸ below)]
        rfl) (by omega)
  rw [complete.posMaps] at patched
  have scanEq : front.length + (4 + 4 + 4) + 7 * 4 + 8 + 4 + da.numPosLevels * 4 + 4 =
      (front ++ (serInt server.nextId ++ (head ++
        (serInt da.numPosLevels ++ (sizes ++ serInt da.onChip.length))))).length := by
    simp only [List.length_append, length_serInt, headLength, sizesLength]
    omega
  rw [scanEq]
  simp only [List.append_assoc] at skipped patched ⊢
  rw [skipped]
  exact patched

theorem length_exportPosMaps (ids ids' : Nat → Int) (i : Nat) (posMaps : List PathORAM) :
    (DAOram.exportPosMaps secrets ids i posMaps).length =
      (DAOram.exportPosMaps secrets ids' i posMaps).length := by
  induction posMaps generalizing i with
  | nil => rfl
  | cons posMap rest ih =>
      simp only [DAOram.exportPosMaps, serBytes, List.length_append, length_serInt,
        length_exportState, ih (i + 1)]

theorem length_snapshot_da (dataId dataId' : Int) (ids ids' : Nat → Int) :
    (da.snapshot secrets dataId ids).length = (da.snapshot secrets dataId' ids').length := by
  simp only [DAOram.snapshot, List.length_append, length_serInt,
    length_exportPosMaps ids ids' 0 da.posMaps]

end Detach

end TieredOmap
