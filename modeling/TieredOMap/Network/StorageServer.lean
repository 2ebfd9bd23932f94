import Mathlib.Data.Finset.Basic
import TieredOMap.Network.Wire

/-!
# The storage server and its client

`StorageServer::dispatch` for one connection, and `NetworkStorage` with the two batch
helpers at the other end of it. The channel delivers the bytes of a message in order, so a
request runs the server on the bytes the client sent, and the client reads the bytes the
server sent back. `SETUP_BENCH` is left out.
-/

namespace TieredOmap

open Decoder

/-! ## The server -/

/-- `StorageServer::ClientState`. -/
structure ClientState where
  stores : KeyMap Int BinaryTreeStorage := ∅
  nextId : Int := 0

namespace ClientState

/-- Put a store in the place of the one with its id. -/
def setStore (state : ClientState) (id : Int) (store : BinaryTreeStorage) : ClientState :=
  { state with stores := state.stores.set id store }

end ClientState

/-- What the server sends back. -/
abbrev Reply := MsgType × Bytes

/-- `send_ok`. -/
def sendOk (data : Bytes) : Reply := (.ok, data)

/-- `send_err`. -/
def sendErr (message : String) : Reply := (.error, message.toUTF8.toList)

/-- Answer a request for one store. -/
def withStore (state : ClientState) (id : Int)
    (answer : BinaryTreeStorage → Bytes × BinaryTreeStorage) : Reply × ClientState :=
  match state.stores.get? id with
  | none => (sendErr "bad store id", state)
  | some store => (sendOk (answer store).1, state.setStore id (answer store).2)

/-- The keys of an `unordered_set`, in the order of its iteration. -/
def serKeys (keys : List Int) : Bytes := serInt keys.length ++ keys.flatMap serInt

/-- The loop of `BATCH_READ`: the paths, or nothing at a bad store id. -/
def batchRead (state : ClientState) : Nat → Deser (Option Bytes)
  | 0 => return some []
  | count + 1 => do
      let id ← deserInt
      let leaf ← deserInt
      match state.stores.get? id with
      | none => return none
      | some store => do
          let rest ← batchRead state count
          return rest.map (serPath (store.readPath leaf) ++ ·)

/-- The loop of `BATCH_WRITE`, which stops at a bad store id. -/
def batchWrite : Nat → ClientState → Deser (Bool × ClientState)
  | 0, state => return (true, state)
  | count + 1, state => do
      let id ← deserInt
      let path ← deserPath
      match state.stores.get? id with
      | none => return (false, state)
      | some store => batchWrite count (state.setStore id (store.writeMultiplePaths path))

/-- `dispatch` on a known type: read the payload, answer and change the stores. -/
def dispatchType (state : ClientState) : MsgType → Deser (Reply × ClientState)
  | .create => do
      let numData ← deserInt
      let bucketSize ← deserInt
      let store := BinaryTreeStorage.new 0 numData bucketSize
      return (sendOk (serInt state.nextId ++ (serInt store.level ++ serInt store.leafRange)),
        { stores := state.stores.set state.nextId store, nextId := state.nextId + 1 })
  | .reset => do
      let id ← deserInt
      let numData ← deserInt
      let bucketSize ← deserInt
      return withStore state id (fun store =>
        let store := store.reset numData bucketSize
        (serInt store.level ++ serInt store.leafRange, store))
  | .fillData => do
      let id ← deserInt
      let block ← deserBlock
      return withStore state id (fun store => ([], store.fillDataToLeaf block))
  | .bulkLoad => do
      let id ← deserInt
      let count ← deserInt
      let blocks ← deserBlock.times count.toNat
      return withStore state id (fun store =>
        let loaded := store.bulkLoad blocks
        (serKeys loaded.1.dedup, loaded.2))
  | .readPath => do
      let id ← deserInt
      let leaf ← deserInt
      return withStore state id (fun store => (serPath (store.readPath leaf), store))
  | .writePath => do
      let id ← deserInt
      let _ ← deserInt
      let path ← deserPath
      return withStore state id (fun store => ([], store.writeMultiplePaths path))
  | .readMulti => do
      let id ← deserInt
      let count ← deserInt
      let leaves ← deserInt.times count.toNat
      return withStore state id (fun store => (serPath (store.readMultiplePaths leaves), store))
  | .writeMulti => do
      let id ← deserInt
      let path ← deserPath
      return withStore state id (fun store => ([], store.writeMultiplePaths path))
  | .batchRead => do
      let count ← deserInt
      let paths ← batchRead state count.toNat
      return match paths with
        | none => (sendErr "bad store id in BATCH_READ", state)
        | some paths => (sendOk (serInt count ++ paths), state)
  | .batchWrite => do
      let count ← deserInt
      let (done, state) ← batchWrite count.toNat state
      return (if done then sendOk [] else sendErr "bad store id in BATCH_WRITE", state)
  | .destroy => do
      let id ← deserInt
      return (sendOk [], { state with stores := state.stores.erase id })
  | .setupBench | .ok | .error => return (sendErr "unknown message type", state)

/-- `dispatch`. -/
def dispatch (state : ClientState) (code : UInt8) (payload : Bytes) :
    Except WireErr (Reply × ClientState) :=
  match MsgType.ofCode code with
  | none => .ok (sendErr "unknown message type", state)
  | some type => Prod.fst <$> (dispatchType state type).run payload

/-- One round of `handle_client`: the bytes sent back for the bytes received. -/
def handleClient (state : ClientState) (received : Bytes) : Except WireErr (Bytes × ClientState) := do
  let (message, _) ← recvMsg.run received
  let (reply, state) ← dispatch state message.1 message.2
  return (sendMsg reply.1 reply.2, state)

/-! ## The client -/

/-- A computation of the client, with the server at the far end of the channel. -/
abbrev Remote := StateT ClientState (Except WireErr)

/-- `TcpChannel::request`. -/
def request (type : MsgType) (payload : Bytes) : Remote Bytes := fun server => do
  let (received, server) ← handleClient server (sendMsg type payload)
  let (reply, _) ← recvMsg.run received
  if reply.1 = MsgType.error.code then .error (.serverError reply.2) else .ok (reply.2, server)

/-- Read a reply. -/
def deser {α : Type} (decoder : Deser α) (reply : Bytes) : Remote α := fun server => do
  let (value, _) ← decoder.run reply
  return (value, server)

/-- `NetworkStorage`. -/
structure NetworkStorage where
  storeId : Int := -1
  level : Int := 0
  leafRange : Int := 0
  bucketSize : Int := 0
deriving DecidableEq, Repr, Inhabited

namespace NetworkStorage

/-- The constructor. -/
def new (numData bucketSize : Int) : Remote NetworkStorage := do
  let resp ← request .create (serInt numData ++ serInt bucketSize)
  deser (do
    let storeId ← deserInt
    let level ← deserInt
    let leafRange ← deserInt
    return { storeId, level, leafRange, bucketSize }) resp

/-- The destructor; an error of the server is swallowed. -/
def destroy (storage : NetworkStorage) : Remote Unit := fun server =>
  if 0 ≤ storage.storeId then
    match (request .destroy (serInt storage.storeId)).run server with
    | .ok (_, server) => .ok ((), server)
    | .error _ => .ok ((), server)
  else .ok ((), server)

/-- `reset`. -/
def reset (storage : NetworkStorage) (numData bucketSize : Int) : Remote NetworkStorage := do
  let resp ← request .reset (serInt storage.storeId ++ (serInt numData ++ serInt bucketSize))
  deser (do
    let level ← deserInt
    let leafRange ← deserInt
    return { storage with level, leafRange, bucketSize }) resp

/-- `fill_data_to_leaf`. -/
def fillDataToLeaf (storage : NetworkStorage) (block : Block) : Remote Unit := do
  let _ ← request .fillData (serInt storage.storeId ++ serBlock block)
  return ()

/-- `bulk_load`. -/
def bulkLoad (storage : NetworkStorage) (blocks : List Block) : Remote (Finset Int) := do
  let resp ← request .bulkLoad
    (serInt storage.storeId ++ (serInt blocks.length ++ blocks.flatMap serBlock))
  deser (do
    let count ← deserInt
    let placed ← deserInt.times count.toNat
    return placed.toFinset) resp

/-- `read_path`. -/
def readPath (storage : NetworkStorage) (leaf : Int) : Remote PathData := do
  let resp ← request .readPath (serInt storage.storeId ++ serInt leaf)
  deser deserPath resp

/-- `write_path`. -/
def writePath (storage : NetworkStorage) (leaf : Int) (buckets : PathData) : Remote Unit := do
  let _ ← request .writePath (serInt storage.storeId ++ (serInt leaf ++ serPath buckets))
  return ()

/-- `read_multiple_paths`. -/
def readMultiplePaths (storage : NetworkStorage) (leaves : List Int) : Remote PathData := do
  let resp ← request .readMulti
    (serInt storage.storeId ++ (serInt leaves.length ++ leaves.flatMap serInt))
  deser deserPath resp

/-- `write_multiple_paths`. -/
def writeMultiplePaths (storage : NetworkStorage) (buckets : PathData) : Remote Unit := do
  let _ ← request .writeMulti (serInt storage.storeId ++ serPath buckets)
  return ()

end NetworkStorage

/-- `batch_read_paths`; a request is a store id and a leaf. -/
def batchReadPaths (reqs : List (Int × Int)) : Remote (List PathData) := do
  let resp ← request .batchRead
    (serInt reqs.length ++ reqs.flatMap (fun req => serInt req.1 ++ serInt req.2))
  deser (do
    let count ← deserInt
    deserPath.times count.toNat) resp

/-- `batch_write_paths`; a request is a store id and the buckets to write. -/
def batchWritePaths (reqs : List (Int × PathData)) : Remote Unit := do
  let _ ← request .batchWrite
    (serInt reqs.length ++ reqs.flatMap (fun req => serInt req.1 ++ serPath req.2))
  return ()

/-! ## What a request does -/

theorem ok_bind {α β : Type} (value : α) (next : α → Except WireErr β) :
    (Except.ok value >>= next) = next value := rfl

/-- A request the server can read is answered. -/
theorem request_ok {type : MsgType} {payload reply : Bytes} {server server' : ClientState}
    (reads : Reads (dispatchType server type) (sendOk reply, server') payload)
    (short : payload.length < 2 ^ 31) (replyShort : reply.length < 2 ^ 31) :
    (request type payload).run server = .ok (reply, server') := by
  have dispatched : dispatch server type.code payload = .ok (sendOk reply, server') := by
    unfold dispatch
    rw [MsgType.ofCode_code]
    dsimp only
    rw [reads.run]
    rfl
  have handled : handleClient server (sendMsg type payload) =
      .ok (sendMsg .ok reply, server') := by
    unfold handleClient
    rw [(reads_msg type short).run, ok_bind]
    dsimp only
    rw [dispatched, ok_bind]
    rfl
  have noError : MsgType.ok.code ≠ MsgType.error.code := by decide
  change request type payload server = _
  unfold request
  rw [handled, ok_bind]
  dsimp only
  rw [(reads_msg .ok replyShort).run, ok_bind, if_neg noError]

theorem deser_ok {α : Type} {decoder : Deser α} {value : α} {reply : Bytes}
    (reads : Reads decoder value reply) (server : ClientState) :
    (deser decoder reply).run server = .ok (value, server) := by
  change deser decoder reply server = _
  unfold deser
  rw [reads.run]
  rfl

end TieredOmap
