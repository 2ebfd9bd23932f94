import Mathlib.Data.Int.Bitwise
import Mathlib.Tactic.Common
import TieredOMap.Lib.Demonic
import TieredOMap.Lib.KeyMap

/-!
# Bytes, blocks and the world of a run

The data every component shares (`common.h`): byte strings, the four-byte
codec of an `int`, ORAM blocks, the epoch metadata kept at the tail of a
record, and the random source. A C++ `int` is an `Int`; its four-byte image
is taken modulo `2 ^ 32`, as `memcpy` does.

A run draws leaves from `World.draws`, one number for each draw, and writes the
requests it sends to storage to `World.log`.
-/

namespace TieredOmap

/-- A byte buffer, `std::vector<uint8_t>`. -/
abbrev Bytes := List UInt8

/-- `INVALID_KEY`. -/
abbrev invalidKey : Int := -1

/-- `INVALID_LEAF`. -/
abbrev invalidLeaf : Int := -1

/-- The values a C++ `int` can take. -/
def IsInt (value : Int) : Prop := -2 ^ 31 ≤ value ∧ value < 2 ^ 31

instance (value : Int) : Decidable (IsInt value) := inferInstanceAs (Decidable (_ ∧ _))

/-- An ORAM block. -/
structure Block where
  key : Int := invalidKey
  leaf : Int := invalidLeaf
  value : Bytes := []
deriving DecidableEq, Repr, Inhabited

/-- A block that only fills a bucket. -/
def Block.isDummy (block : Block) : Bool := block.key == invalidKey

/-! ## Integers as bytes -/

/-- The four little-endian bytes of an `int`. -/
def intToBytes (value : Int) : Bytes :=
  let word := (value % 2 ^ 32).toNat
  [UInt8.ofNat word, UInt8.ofNat (word / 2 ^ 8), UInt8.ofNat (word / 2 ^ 16),
    UInt8.ofNat (word / 2 ^ 24)]

/-- The `int` in the first four bytes, or `0` when there are fewer. -/
def bytesToInt : Bytes → Int
  | b0 :: b1 :: b2 :: b3 :: _ =>
      Int.bmod (b0.toNat + b1.toNat * 2 ^ 8 + b2.toNat * 2 ^ 16 + b3.toNat * 2 ^ 24 : Nat) (2 ^ 32)
  | _ => 0

@[simp]
theorem length_intToBytes (value : Int) : (intToBytes value).length = 4 := rfl

theorem intToBytes_ne_nil (value : Int) : intToBytes value ≠ [] := by
  simp [intToBytes]

/-- Reading back four written bytes wraps the integer to thirty-two bits. -/
theorem bytesToInt_intToBytes_append (value : Int) (rest : Bytes) :
    bytesToInt (intToBytes value ++ rest) = Int.bmod value (2 ^ 32) := by
  have wordNonneg : 0 ≤ value % 2 ^ 32 := Int.emod_nonneg value (by decide)
  have wordCast : (((value % 2 ^ 32).toNat : Nat) : Int) = value % 2 ^ 32 :=
    Int.toNat_of_nonneg wordNonneg
  have wordLt : (value % 2 ^ 32).toNat < 2 ^ 32 := by
    rw [Int.toNat_lt wordNonneg]
    exact Int.emod_lt_of_pos value (by decide)
  have bytesSum : ∀ word : Nat, word < 2 ^ 32 →
      (UInt8.ofNat word).toNat + (UInt8.ofNat (word / 2 ^ 8)).toNat * 2 ^ 8 +
        (UInt8.ofNat (word / 2 ^ 16)).toNat * 2 ^ 16 +
        (UInt8.ofNat (word / 2 ^ 24)).toNat * 2 ^ 24 = word := by
    intro word bound
    simp only [UInt8.toNat_ofNat']
    omega
  have decoded : bytesToInt (intToBytes value ++ rest) =
      Int.bmod (((value % 2 ^ 32).toNat : Nat) : Int) (2 ^ 32) := by
    conv_rhs => rw [← bytesSum _ wordLt]
    rfl
  rw [decoded, wordCast]
  have wrapped := Int.emod_bmod value (2 ^ 32)
  push_cast at wrapped
  exact wrapped

@[simp]
theorem bytesToInt_intToBytes_bmod (value : Int) :
    bytesToInt (intToBytes value) = Int.bmod value (2 ^ 32) := by
  simpa using bytesToInt_intToBytes_append value []

theorem bmod_of_isInt {value : Int} (inRange : IsInt value) : Int.bmod value (2 ^ 32) = value := by
  rcases inRange with ⟨lower, upper⟩
  apply Int.bmod_eq_of_le <;> omega

theorem bytesToInt_intToBytes {value : Int} (inRange : IsInt value) :
    bytesToInt (intToBytes value) = value := by
  rw [bytesToInt_intToBytes_bmod, bmod_of_isInt inRange]

/-- `pad_bytes`: extend with zeros to the target size, never truncate. -/
def padBytes (bytes : Bytes) (targetSize : Nat) : Bytes :=
  bytes ++ List.replicate (targetSize - bytes.length) 0

/-! ## Epoch metadata -/

/-- Access counters kept at the tail of a record. -/
structure EpochMeta where
  cnt : Int := 0
  ep : Int := -1
  fp : Int := 0
deriving DecidableEq, Repr, Inhabited

/-- `EPOCH_META_SIZE`. -/
abbrev epochMetaSize : Nat := 12

/-- The record followed by its metadata. -/
def encodeWithEpoch (value : Bytes) (epochMeta : EpochMeta) : Bytes :=
  value ++ (intToBytes epochMeta.cnt ++ (intToBytes epochMeta.ep ++ intToBytes epochMeta.fp))

/-- Split a stored record; a buffer too short to hold metadata is all record. -/
def decodeEpoch (raw : Bytes) : Bytes × EpochMeta :=
  if raw.length < epochMetaSize then (raw, {})
  else
    let valLen := raw.length - epochMetaSize
    let tail := raw.drop valLen
    (raw.take valLen,
      { cnt := bytesToInt tail, ep := bytesToInt (tail.drop 4), fp := bytesToInt (tail.drop 8) })

/-- Metadata after a trip through memory. -/
def EpochMeta.wrap (epochMeta : EpochMeta) : EpochMeta :=
  { cnt := Int.bmod epochMeta.cnt (2 ^ 32), ep := Int.bmod epochMeta.ep (2 ^ 32),
    fp := Int.bmod epochMeta.fp (2 ^ 32) }

@[simp]
theorem decodeEpoch_encodeWithEpoch (value : Bytes) (epochMeta : EpochMeta) :
    decodeEpoch (encodeWithEpoch value epochMeta) = (value, epochMeta.wrap) := by
  have tailLength : (encodeWithEpoch value epochMeta).length - epochMetaSize = value.length := by
    simp [encodeWithEpoch, epochMetaSize]
  have longEnough : ¬(encodeWithEpoch value epochMeta).length < epochMetaSize := by
    simp [encodeWithEpoch, epochMetaSize]
  have fields : (encodeWithEpoch value epochMeta).drop value.length =
      intToBytes epochMeta.cnt ++ (intToBytes epochMeta.ep ++ intToBytes epochMeta.fp) := by
    simp [encodeWithEpoch]
  have taken : (encodeWithEpoch value epochMeta).take value.length = value := by
    simp [encodeWithEpoch]
  have second : (intToBytes epochMeta.cnt ++
      (intToBytes epochMeta.ep ++ intToBytes epochMeta.fp)).drop 4 =
        intToBytes epochMeta.ep ++ intToBytes epochMeta.fp := List.drop_left' rfl
  have third : (intToBytes epochMeta.cnt ++
      (intToBytes epochMeta.ep ++ intToBytes epochMeta.fp)).drop 8 = intToBytes epochMeta.fp := by
    rw [← List.append_assoc]
    exact List.drop_left' rfl
  simp only [decodeEpoch, longEnough, if_false, tailLength, fields, taken, second, third,
    bytesToInt_intToBytes_append, bytesToInt_intToBytes_bmod, EpochMeta.wrap]

/-- An integer read from memory is in range. -/
theorem bmod_bytesToInt (raw : Bytes) :
    Int.bmod (bytesToInt raw) (2 ^ 32) = bytesToInt raw := by
  unfold bytesToInt
  split
  · exact Int.bmod_bmod
  · rfl

/-- Frequencies and counts read from memory survive a trip back. -/
theorem bmod_decodeEpoch (raw : Bytes) :
    Int.bmod (decodeEpoch raw).2.cnt (2 ^ 32) = (decodeEpoch raw).2.cnt ∧
      Int.bmod (decodeEpoch raw).2.fp (2 ^ 32) = (decodeEpoch raw).2.fp := by
  unfold decodeEpoch
  split
  · exact ⟨rfl, rfl⟩
  · exact ⟨bmod_bytesToInt _, bmod_bytesToInt _⟩

/-! ## Runs -/

/-- What the source throws. -/
inductive Err where
  | stashOverflow
  | keyNotFound
  | outOfRange
  | bufferTooSmall
  | lengthError
  | outOfFuel
deriving DecidableEq, Repr

/-- A request to the storage server. -/
inductive StorageReq where
  | readPath (store : Nat)
  | readPaths (store : Nat)
  | writePaths (store : Nat)
  | batchRead (stores : List Nat)
  | batchWrite (stores : List Nat)
deriving DecidableEq, Repr

/-- What is going on between the tiers (`maintenance.h`). -/
inductive SwapState where
  | idle
  | hotPend
  | coldPend
deriving DecidableEq, Repr

/--
The random draws still to come, the requests sent so far and the next free
store id. `pendingStores` records, each time an entry is stored into the pending
slot of a tiered map, the swap state and the pending key found there.
-/
structure World where
  draws : List Nat := []
  log : List StorageReq := []
  nextStore : Nat := 0
  pendingStores : List (SwapState × Int) := []
deriving DecidableEq, Repr

/-- A computation of the client. -/
abbrev Rand (Result : Type) := Prog World Err Result

/-- Every outcome of the draws that does not overflow a stash returns a result satisfying `post`. -/
abbrev Ends {Result : Type} (program : Rand Result) (post : Result → Prop) : Prop :=
  Prog.Ends (· = Err.stashOverflow) program post

/-- A step that is only taken when it is due. -/
def doWhen {Result : Type} (due : Bool) (step : Rand Result) (otherwise : Result) : Rand Result :=
  if due then step else pure otherwise

/-- `SecureRandom::rand_below`. -/
def randBelow (bound : Nat) : Rand Nat := fun world =>
  match bound, world.draws with
  | 0, _ => (.ok 0, world)
  | _ + 1, [] => (.ok 0, world)
  | bound + 1, draw :: draws => (.ok (draw % (bound + 1)), { world with draws := draws })

/-- Append a request to the log. -/
def send (request : StorageReq) : Rand Unit := fun world =>
  (.ok (), { world with log := world.log ++ [request] })

/-- A fresh store id, as the server hands one out for each created store. -/
def freshStore : Rand Nat := fun world =>
  (.ok world.nextStore, { world with nextStore := world.nextStore + 1 })

/-- Record what an entry stored into the pending slot finds there. -/
def notePendingStore (swapState : SwapState) (pendingKey : Int) : Rand Unit := fun world =>
  (.ok (), { world with pendingStores := world.pendingStores ++ [(swapState, pendingKey)] })

theorem doWhen_of_not {Result : Type} {due : Bool} {step : Rand Result} {otherwise : Result}
    (notDue : due = false) : doWhen due step otherwise = pure otherwise := by
  rw [notDue]
  rfl

theorem ends_doWhen {Result : Type} {due : Bool} {step : Rand Result} {otherwise : Result}
    {P : Result → Prop} (taken : due = true → Ends step P)
    (skipped : due = false → P otherwise) : Ends (doWhen due step otherwise) P := by
  cases due with
  | true => exact taken rfl
  | false => exact Prog.ends_pure (skipped rfl)

/-- Any error is allowed: what a program returns, if it returns, satisfies `post`. -/
abbrev Yields {Result : Type} (program : Rand Result) (post : Result → Prop) : Prop :=
  Prog.Ends (fun _ => True) program post

theorem yields_of_ends {Result : Type} {program : Rand Result} {post : Result → Prop}
    (ends : Ends program post) : Yields program post :=
  ends.allow (fun _ _ => trivial)

theorem yields_any {Result : Type} (program : Rand Result) : Yields program (fun _ => True) := by
  intro world _
  rcases run : program.runFrom world with ⟨_ | _, _⟩ <;> trivial

theorem yields_doWhen {Result : Type} {due : Bool} {step : Rand Result} {otherwise : Result}
    {P : Result → Prop} (taken : due = true → Yields step P)
    (skipped : due = false → P otherwise) : Yields (doWhen due step otherwise) P := by
  cases due with
  | true => exact taken rfl
  | false => exact Prog.ends_pure (skipped rfl)

theorem ends_randBelow {bound : Nat} (positive : 0 < bound) :
    Ends (randBelow bound) (fun leaf => leaf < bound) := by
  intro world _
  rcases bound with _ | bound
  · omega
  · rcases draws : world.draws with _ | ⟨draw, rest⟩
    · simp [Prog.runFrom, randBelow, draws]
    · simp only [Prog.runFrom, randBelow, draws]
      exact Nat.mod_lt _ (by omega)

theorem ends_send (request : StorageReq) : Ends (send request) (fun _ => True) :=
  fun _ _ => trivial

theorem ends_freshStore : Ends freshStore (fun _ => True) :=
  fun _ _ => trivial

theorem ends_notePendingStore (swapState : SwapState) (pendingKey : Int) :
    Ends (notePendingStore swapState pendingKey) (fun _ => True) :=
  fun _ _ => trivial

end TieredOmap
