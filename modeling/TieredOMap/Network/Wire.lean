import TieredOMap.Lib.Codec
import TieredOMap.Oram.BinaryTreeStorage

/-!
# The wire format

Messages between client and storage server (`tcp_channel.cpp`): a message is a length, a
type and a payload; payloads are built of integers, byte strings, blocks and paths. A path
is written as its buckets in the order of the map that holds them. Reading beyond the end
of a payload, which the source does not guard against, is an error here.
-/

namespace TieredOmap

open Decoder

/-- What can go wrong with a message. -/
inductive WireErr where
  | outOfBounds
  | lengthError
  | serverError (message : Bytes)
deriving DecidableEq, Repr

/-- A reader of a payload. -/
abbrev Deser := Decoder UInt8 WireErr

/-! ## Values -/

/-- `ser_int`. -/
def serInt (value : Int) : Bytes := intToBytes value

/-- `deser_int`. -/
def deserInt : Deser Int := fun bytes =>
  if bytes.length < 4 then .error .outOfBounds else .ok (bytesToInt bytes, bytes.drop 4)

/-- A number of bytes. -/
def takeBytes (count : Int) : Deser Bytes := fun bytes =>
  if count < 0 then .error .lengthError
  else if bytes.length < count then .error .outOfBounds
  else .ok (bytes.take count.toNat, bytes.drop count.toNat)

/-- `ser_bytes`. -/
def serBytes (data : Bytes) : Bytes := serInt data.length ++ data

/-- `deser_bytes`. -/
def deserBytes : Deser Bytes := do
  let len ← deserInt
  takeBytes len

/-- `ser_block`. -/
def serBlock (block : Block) : Bytes := serInt block.key ++ (serInt block.leaf ++ serBytes block.value)

/-- `deser_block`. -/
def deserBlock : Deser Block := do
  let key ← deserInt
  let leaf ← deserInt
  let value ← deserBytes
  return { key, leaf, value }

/-- One bucket of a path. -/
def serBucket (entry : Nat × List Block) : Bytes :=
  serInt entry.1 ++ (serInt entry.2.length ++ entry.2.flatMap serBlock)

/-- `ser_path`. -/
def serPath (path : PathData) : Bytes := serInt path.length ++ path.flatMap serBucket

/-- One bucket of a path; a negative number is no node. -/
def deserBucket : Deser (Nat × List Block) := do
  let node ← deserInt
  let count ← deserInt
  let bucket ← deserBlock.times count.toNat
  if node < 0 then throw .outOfBounds else return (node.toNat, bucket)

/-- Append blocks to the bucket of a node. -/
def addBucket (path : PathData) (entry : Nat × List Block) : PathData :=
  if entry.1 ∈ path.map Prod.fst then
    path.map (fun other => if other.1 = entry.1 then (other.1, other.2 ++ entry.2) else other)
  else path ++ [entry]

/-- `deser_path`. -/
def deserPath : Deser PathData := do
  let count ← deserInt
  let entries ← deserBucket.times count.toNat
  return entries.foldl addBucket []

/-! ## Messages -/

/-- `MsgType`. -/
inductive MsgType where
  | create
  | reset
  | fillData
  | bulkLoad
  | readPath
  | writePath
  | readMulti
  | writeMulti
  | destroy
  | setupBench
  | batchRead
  | batchWrite
  | ok
  | error
deriving DecidableEq, Repr

namespace MsgType

/-- The byte that stands for a type. -/
def code : MsgType → UInt8
  | create => 0x01
  | reset => 0x02
  | fillData => 0x03
  | bulkLoad => 0x04
  | readPath => 0x05
  | writePath => 0x06
  | readMulti => 0x07
  | writeMulti => 0x08
  | destroy => 0x09
  | setupBench => 0x10
  | batchRead => 0x11
  | batchWrite => 0x12
  | ok => 0x80
  | error => 0x81

/-- The types a message can have. -/
def all : List MsgType :=
  [create, reset, fillData, bulkLoad, readPath, writePath, readMulti, writeMulti, destroy,
    setupBench, batchRead, batchWrite, ok, error]

/-- The type a byte stands for, if any. -/
def ofCode (byte : UInt8) : Option MsgType := all.find? (fun type => type.code == byte)

theorem ofCode_code (type : MsgType) : ofCode type.code = some type := by
  cases type <;> decide

end MsgType

/-- `send_msg`. -/
def sendMsg (type : MsgType) (payload : Bytes) : Bytes :=
  serInt (payload.length + 1) ++ (type.code :: payload)

/-- The type byte of a message. -/
def deserCode : Deser UInt8 := fun bytes =>
  match bytes with
  | [] => .error .outOfBounds
  | byte :: rest => .ok (byte, rest)

/-- `recv_msg`: the type byte and the payload. -/
def recvMsg : Deser (UInt8 × Bytes) := do
  let total ← deserInt
  let byte ← deserCode
  -- The length is unsigned.
  let payload ← takeBytes (max 0 (total % 2 ^ 32 - 1))
  return (byte, payload)

/-! ## Reading values back -/

theorem length_serInt (value : Int) : (serInt value).length = 4 := length_intToBytes value

theorem length_flatMap_serInt (values : List Int) :
    (values.flatMap serInt).length = 4 * values.length := by
  induction values with
  | nil => rfl
  | cons value rest ih =>
      rw [List.flatMap_cons, List.length_append, ih, length_serInt, List.length_cons]
      omega

/-- Four bytes are read back as an `int`. -/
theorem reads_int_bmod (value : Int) : Reads deserInt (Int.bmod value (2 ^ 32)) (serInt value) := by
  intro rest
  have long : ¬(serInt value ++ rest).length < 4 := by
    rw [List.length_append, serInt, length_intToBytes]
    omega
  change deserInt (serInt value ++ rest) = _
  rw [deserInt, if_neg long, serInt, bytesToInt_intToBytes_append,
    List.drop_left' (length_intToBytes value)]

theorem reads_int {value : Int} (inRange : IsInt value) : Reads deserInt value (serInt value) := by
  have wrapped := reads_int_bmod value
  rwa [bmod_of_isInt inRange] at wrapped

/-- A size that fits into an `int`. -/
theorem reads_size {size : Nat} (small : size < 2 ^ 31) :
    Reads deserInt (size : Int) (serInt size) := by
  refine reads_int ⟨by omega, ?_⟩
  exact_mod_cast small

theorem reads_takeBytes (bytes : Bytes) : Reads (takeBytes bytes.length) bytes bytes := by
  intro rest
  change takeBytes bytes.length (bytes ++ rest) = _
  rw [takeBytes, if_neg (by omega), if_neg (by rw [List.length_append]; omega), Int.toNat_natCast,
    List.take_left, List.drop_left]

theorem reads_bytes {data : Bytes} (short : data.length < 2 ^ 31) :
    Reads deserBytes data (serBytes data) :=
  reads_bind (reads_size short) (reads_takeBytes data)

/-- A block the source can hold: its fields are integers. -/
structure IntBlock (block : Block) : Prop where
  key : IsInt block.key
  leaf : IsInt block.leaf

/-- A path the source can hold: distinct nodes, and blocks it can hold. -/
structure IntPath (path : PathData) : Prop where
  nodup : (path.map Prod.fst).Nodup
  nodes : ∀ entry ∈ path, entry.1 < 2 ^ 31
  blocks : ∀ entry ∈ path, ∀ block ∈ entry.2, IntBlock block

/-- An encoding is at least as long as the number of its parts. -/
theorem length_le_flatMap {α : Type} {encode : α → Bytes} {values : List α}
    (nonempty : ∀ value ∈ values, 0 < (encode value).length) :
    values.length ≤ (values.flatMap encode).length := by
  induction values with
  | nil => exact Nat.zero_le _
  | cons value rest ih =>
      have here := nonempty value List.mem_cons_self
      have there := ih (fun value mem => nonempty value (List.mem_cons_of_mem _ mem))
      rw [List.flatMap_cons, List.length_append, List.length_cons]
      omega

/-- A part is no longer than the whole encoding. -/
theorem length_part_le {α : Type} {encode : α → Bytes} {values : List α} {value : α}
    (mem : value ∈ values) : (encode value).length ≤ (values.flatMap encode).length := by
  rcases List.append_of_mem mem with ⟨front, back, rfl⟩
  rw [List.flatMap_append, List.flatMap_cons, List.length_append, List.length_append]
  omega

theorem length_serBlock (block : Block) : (serBlock block).length = 12 + block.value.length := by
  simp only [serBlock, serBytes, serInt, List.length_append, length_intToBytes]
  omega

theorem length_blocks_le (blocks : List Block) :
    blocks.length ≤ (blocks.flatMap serBlock).length :=
  length_le_flatMap (fun block _ => by rw [length_serBlock]; omega)

theorem length_serBucket (entry : Nat × List Block) :
    (serBucket entry).length = 8 + (entry.2.flatMap serBlock).length := by
  simp only [serBucket, serInt, List.length_append, length_intToBytes]
  omega

theorem length_serPath (path : PathData) :
    (serPath path).length = 4 + (path.flatMap serBucket).length := by
  simp only [serPath, serInt, List.length_append, length_intToBytes]

theorem reads_block {block : Block} (isInt : IntBlock block)
    (short : (serBlock block).length < 2 ^ 31) : Reads deserBlock block (serBlock block) := by
  rw [length_serBlock] at short
  refine reads_bind (reads_int isInt.key) (reads_bind (reads_int isInt.leaf) ?_)
  exact reads_bind_pure (reads_bytes (by omega)) rfl

theorem reads_blocks {blocks : List Block} (areInt : ∀ block ∈ blocks, IntBlock block)
    (short : (blocks.flatMap serBlock).length < 2 ^ 31) :
    Reads (deserBlock.times blocks.length) blocks (blocks.flatMap serBlock) := by
  refine reads_times (fun block mem => reads_block (areInt block mem) ?_)
  have part := @length_part_le _ serBlock _ _ mem
  omega

theorem reads_bucket {entry : Nat × List Block} (node : entry.1 < 2 ^ 31)
    (areInt : ∀ block ∈ entry.2, IntBlock block) (short : (serBucket entry).length < 2 ^ 31) :
    Reads deserBucket entry (serBucket entry) := by
  have count := length_blocks_le entry.2
  rw [length_serBucket] at short
  refine reads_bind (reads_size node) (reads_bind (reads_size (by omega)) ?_)
  rw [Int.toNat_natCast]
  intro rest
  rw [StateT.run_bind, reads_blocks areInt (by omega)]
  change StateT.run (if (entry.1 : Int) < 0 then throw WireErr.outOfBounds
    else pure ((entry.1 : Int).toNat, entry.2) : Deser (Nat × List Block)) rest = _
  rw [if_neg (by omega), Int.toNat_natCast]
  rfl

/-- Buckets of new nodes are appended. -/
theorem foldl_addBucket {path entries : PathData}
    (nodup : ((path ++ entries).map Prod.fst).Nodup) :
    entries.foldl addBucket path = path ++ entries := by
  induction entries generalizing path with
  | nil => exact (List.append_nil path).symm
  | cons entry rest ih =>
      have isNew : entry.1 ∉ path.map Prod.fst := by
        intro old
        rw [List.map_append, List.nodup_append] at nodup
        exact nodup.2.2 entry.1 old entry.1 List.mem_cons_self rfl
      have added : addBucket path entry = path ++ [entry] := if_neg isNew
      have same : path ++ entry :: rest = path ++ [entry] ++ rest := by simp
      rw [List.foldl_cons, added, ih (same ▸ nodup), same]

/-- A path is read back with its buckets in the same order. -/
theorem reads_path {path : PathData} (isInt : IntPath path)
    (short : (serPath path).length < 2 ^ 31) : Reads deserPath path (serPath path) := by
  have count : path.length ≤ (path.flatMap serBucket).length :=
    length_le_flatMap (fun entry _ => by rw [length_serBucket]; omega)
  rw [length_serPath] at short
  refine reads_bind (reads_size (by omega)) ?_
  rw [Int.toNat_natCast]
  refine reads_bind_pure (reads_times (fun entry mem => ?_)) ?_
  · have part := @length_part_le _ serBucket _ _ mem
    exact reads_bucket (isInt.nodes entry mem) (isInt.blocks entry mem) (by omega)
  · exact @foldl_addBucket [] path isInt.nodup

/-- A message is read back. -/
theorem reads_msg (type : MsgType) {payload : Bytes} (short : payload.length < 2 ^ 31) :
    Reads recvMsg (type.code, payload) (sendMsg type payload) := by
  have code : Reads deserCode type.code [type.code] := fun _ => rfl
  have size : max 0 (Int.bmod ((payload.length : Int) + 1) (2 ^ 32) % 2 ^ 32 - 1) =
      (payload.length : Int) := by
    have wraps : Int.bmod ((payload.length : Int) + 1) (2 ^ 32) % 2 ^ 32 =
        ((payload.length : Int) + 1) % 2 ^ 32 := Int.bmod_emod
    rw [wraps]
    omega
  refine reads_bind (reads_int_bmod _) ?_
  rw [← List.singleton_append]
  refine reads_bind code ?_
  rw [size]
  exact reads_bind_pure (reads_takeBytes payload) rfl

end TieredOmap
