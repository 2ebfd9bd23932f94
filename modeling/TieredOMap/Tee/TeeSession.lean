import TieredOMap.Tee.TeeOmap
import TieredOMap.Tee.TeeServer

/-!
# A session with the TEE server

The loop of a connection reads requests from a byte stream and sends two responses for each
(`handle_connection` in `tee_server.cpp`). The stream holds what the client sends before it
leaves, and a read beyond its end fails.
-/

namespace TieredOmap

/-- The value that a request writes. -/
def TeeRequest.newValue (req : TeeRequest) : Option Bytes :=
  if req.op = 87 then some req.value else none

namespace TeeServer

variable {Ω : Type} [ColdMap Ω] {s : TeeOmap Ω} {stream rest data : Bytes} {fuel : Nat}
  {reqs : List TeeRequest} {results : List TeeAccessResult}

/-! ## Messages on a stream -/

/-- `send_msg`: the bytes that are sent; the length is a `uint32_t`. -/
def sendMsg (msg : Bytes) : Bytes := intToBytes msg.length ++ msg.take (msg.length % 2 ^ 32)

/-- `recv_msg`: the message and what comes after it. -/
def recvMsg (stream : Bytes) : Option (Bytes × Bytes) :=
  if stream.length < 4 then none
  else
    let len := (bytesToInt stream % 2 ^ 32).toNat
    let rest := stream.drop 4
    if rest.length < len then none else some (rest.take len, rest.drop len)

theorem recvMsg_shorter (received : recvMsg stream = some (data, rest)) :
    rest.length + 4 ≤ stream.length := by
  unfold recvMsg at received
  dsimp only at received
  split at received
  · cases received
  · split at received
    · cases received
    · cases received
      simp only [List.length_drop]
      omega

theorem recvMsg_sendMsg {msg : Bytes} (short : msg.length < 2 ^ 32) (rest : Bytes) :
    recvMsg (sendMsg msg ++ rest) = some (msg, rest) := by
  have len : (bytesToInt (sendMsg msg ++ rest) % 2 ^ 32).toNat = msg.length := by
    have wraps : (msg.length : Int).bmod (2 ^ 32) % 2 ^ 32 = (msg.length : Int) % 2 ^ 32 :=
      Int.bmod_emod
    rw [sendMsg, List.append_assoc, bytesToInt_intToBytes_append, wraps]
    omega
  have body : (sendMsg msg ++ rest).drop 4 = msg ++ rest := by
    rw [sendMsg, Nat.mod_eq_of_lt short, List.take_length, List.append_assoc]
    rfl
  have long : ¬(sendMsg msg ++ rest).length < 4 := by
    rw [sendMsg, List.append_assoc, List.length_append, length_intToBytes]
    omega
  unfold recvMsg
  dsimp only
  rw [if_neg long, len, body, if_neg (by simp), List.take_left, List.drop_left]

/-! ## The server -/

/-- The responses to a request. -/
def responses (result : TeeAccessResult) : TeeResponse × TeeResponse :=
  ({ phase := 72, found := result.early.found, value := result.early.value },
    { phase := 70, found := result.final.found, value := result.final.value })

/-- What the two callbacks of an access send. -/
def answer (result : TeeAccessResult) : Bytes :=
  sendMsg (serializeResponse (responses result).1) ++
    sendMsg (serializeResponse (responses result).2)

/-- `handle_connection`: what it sends, and the map afterwards. -/
def handleConnection : Nat → Bytes → TeeOmap Ω → TeeRand (Bytes × TeeOmap Ω)
  | 0, _, _ => Prog.fail .outOfFuel
  | fuel + 1, stream, s =>
      match recvMsg stream with
      | none => return ([], s)
      | some (data, rest) =>
          match deserializeRequest data with
          | .error _ => Prog.fail .outOfRange
          | .ok req => do
              let (result, s) ← s.access req.key req.newValue
              let (sent, s) ← handleConnection fuel rest s
              return (answer result ++ sent, s)

/-- The requests in a stream, up to a message that is cut off. -/
def requestsIn : Nat → Bytes → List TeeRequest
  | 0, _ => []
  | fuel + 1, stream =>
      match recvMsg stream with
      | none => []
      | some (data, rest) =>
          match deserializeRequest data with
          | .error _ => []
          | .ok req => req :: requestsIn fuel rest

theorem requestsIn_of_message {req : TeeRequest} (received : recvMsg stream = some (data, rest))
    (isRequest : deserializeRequest data = .ok req) :
    requestsIn (fuel + 1) stream = req :: requestsIn fuel rest := by
  simp only [requestsIn, received, isRequest]

/-- Accesses, one after the other. -/
def accessAll : List TeeRequest → TeeOmap Ω → TeeRand (List TeeAccessResult × TeeOmap Ω)
  | [], s => return ([], s)
  | req :: reqs, s => do
      let (result, s) ← s.access req.key req.newValue
      let (results, s) ← accessAll reqs s
      return (result :: results, s)

/-- Whatever the stream holds, a connection makes the accesses that are in it, and answers each
of them. -/
theorem handleConnection_eq (enough : stream.length < fuel) :
    handleConnection fuel stream s = (do
      let (results, s) ← accessAll (requestsIn fuel stream) s
      return (results.flatMap answer, s)) := by
  induction fuel generalizing stream s with
  | zero => omega
  | succ fuel ih =>
      unfold handleConnection requestsIn
      rcases received : recvMsg stream with _ | ⟨data, rest⟩
      · rfl
      · have shorter := recvMsg_shorter received
        rcases deserializeRequest_inside data with ⟨req, isRequest, -⟩
        simp only [isRequest, accessAll, bind_assoc]
        refine bind_congr (fun accessed => ?_)
        rw [ih (by omega)]
        simp only [bind_assoc, pure_bind, List.flatMap_cons]

/-! ## The client -/

/-- What `send_request` sends. -/
def request (req : TeeRequest) : Bytes := sendMsg (serializeRequest req)

/-- What `send_request` receives. -/
def receive (incoming : Bytes) : Option ((TeeResponse × TeeResponse) × Bytes) := do
  let (data, incoming) ← recvMsg incoming
  let early ← (deserializeResponse data).toOption
  let (data, incoming) ← recvMsg incoming
  let final ← (deserializeResponse data).toOption
  return ((early, final), incoming)

/-- What a number of requests receive. -/
def receiveAll : Nat → Bytes → Option (List (TeeResponse × TeeResponse) × Bytes)
  | 0, incoming => some ([], incoming)
  | count + 1, incoming => do
      let (first, incoming) ← receive incoming
      let (others, incoming) ← receiveAll count incoming
      return (first :: others, incoming)

/-- A request that the client can write down. -/
def Writable (req : TeeRequest) : Prop := IsInt req.key ∧ req.value.length < 2 ^ 31

/-- Both responses fit a message. -/
def Sendable (result : TeeAccessResult) : Prop :=
  result.early.value.length < 2 ^ 31 ∧ result.final.value.length < 2 ^ 31

theorem short_serializeRequest {req : TeeRequest} (short : req.value.length < 2 ^ 31) :
    (serializeRequest req).length < 2 ^ 32 := by
  simp only [serializeRequest, List.length_cons, List.length_append, length_intToBytes]
  omega

theorem short_serializeResponse {resp : TeeResponse} (short : resp.value.length < 2 ^ 31) :
    (serializeResponse resp).length < 2 ^ 32 := by
  simp only [serializeResponse, List.length_cons, List.length_append, length_intToBytes]
  omega

theorem length_le_flatMap (reqs : List TeeRequest) :
    reqs.length ≤ (reqs.flatMap request).length := by
  induction reqs with
  | nil => rfl
  | cons req reqs ih =>
      simp only [List.flatMap_cons, List.length_append, List.length_cons, request, sendMsg,
        length_intToBytes]
      omega

/-- The server reads the requests that the client has sent. -/
theorem requestsIn_request (writable : ∀ req ∈ reqs, Writable req) (cut : recvMsg rest = none)
    (enough : reqs.length < fuel) : requestsIn fuel (reqs.flatMap request ++ rest) = reqs := by
  induction reqs generalizing fuel with
  | nil =>
      cases fuel with
      | zero => rfl
      | succ fuel => simp [requestsIn, cut]
  | cons req reqs ih =>
      rcases List.forall_mem_cons.mp writable with ⟨⟨isInt, short⟩, others⟩
      cases fuel with
      | zero => simp at enough
      | succ fuel =>
          have received := recvMsg_sendMsg (short_serializeRequest short)
            (reqs.flatMap request ++ rest)
          rw [List.flatMap_cons, request, List.append_assoc]
          refine (requestsIn_of_message received
            (deserializeRequest_serializeRequest isInt short)).trans ?_
          rw [ih others (Nat.lt_of_succ_lt_succ enough)]

theorem receive_of_messages {incoming data' rest' : Bytes} {early final : TeeResponse}
    (first : recvMsg incoming = some (data, rest))
    (isEarly : deserializeResponse data = .ok early) (second : recvMsg rest = some (data', rest'))
    (isFinal : deserializeResponse data' = .ok final) :
    receive incoming = some ((early, final), rest') := by
  simp only [receive, first, isEarly, second, isFinal, Except.toOption, Option.bind_eq_bind,
    Option.bind_some, Option.pure_def]

theorem receive_answer {result : TeeAccessResult} (sendable : Sendable result) (rest : Bytes) :
    receive (answer result ++ rest) = some (responses result, rest) := by
  rw [answer, List.append_assoc]
  refine @receive_of_messages _ _ _ _ _ (responses result).1 (responses result).2
    (recvMsg_sendMsg (short_serializeResponse ?_) _)
    (deserializeResponse_serializeResponse ?_) (recvMsg_sendMsg (short_serializeResponse ?_) _)
    (deserializeResponse_serializeResponse ?_)
  · exact sendable.1
  · exact sendable.1
  · exact sendable.2
  · exact sendable.2

/-- The client reads the responses that the server has sent. -/
theorem receiveAll_answer (sendable : ∀ result ∈ results, Sendable result) (rest : Bytes) :
    receiveAll results.length (results.flatMap answer ++ rest) =
      some (results.map responses, rest) := by
  induction results with
  | nil => rfl
  | cons result results ih =>
      rcases List.forall_mem_cons.mp sendable with ⟨first, others⟩
      rw [List.length_cons, receiveAll, List.flatMap_cons, List.append_assoc,
        receive_answer first]
      simp only [Option.bind_eq_bind, Option.bind_some, ih others]
      rfl

/--
A session is the accesses of its requests, one after the other: the server makes exactly these
accesses to the map, a message that is cut off ends the session, and from the bytes that come
back the client reads the early and the final answer of each access, in order.
-/
theorem session_eq_accesses (writable : ∀ req ∈ reqs, Writable req) (cut : recvMsg rest = none)
    (enough : (reqs.flatMap request ++ rest).length < fuel) :
    (handleConnection fuel (reqs.flatMap request ++ rest) s = do
      let (results, s) ← accessAll reqs s
      return (results.flatMap answer, s)) ∧
    ∀ results : List TeeAccessResult, (∀ result ∈ results, Sendable result) →
      receiveAll results.length (results.flatMap answer) = some (results.map responses, []) := by
  constructor
  · have few : reqs.length < fuel := by
      refine lt_of_le_of_lt ?_ enough
      rw [List.length_append]
      exact (length_le_flatMap reqs).trans (Nat.le_add_right _ _)
    rw [handleConnection_eq enough, requestsIn_request writable cut few]
  · intro results sendable
    simpa using receiveAll_answer sendable []

/-- A key is written and read. -/
def writeRead : List TeeRequest := [{ op := 87, key := 2, value := [9] }, { op := 82, key := 2 }]

theorem session_writeRead :
    (handleConnection 40 (writeRead.flatMap request ++ [4, 0])
        ({ config := {}, coldOmap := default } : TeeOmap TeeAvlOmap) = do
      let (results, s) ← accessAll writeRead { config := {}, coldOmap := default }
      return (results.flatMap answer, s)) ∧
    ∀ results : List TeeAccessResult, (∀ result ∈ results, Sendable result) →
      receiveAll results.length (results.flatMap answer) = some (results.map responses, []) :=
  session_eq_accesses (by simp [writeRead, Writable, IsInt]) (by decide) (by decide)

end TeeServer

end TieredOmap
