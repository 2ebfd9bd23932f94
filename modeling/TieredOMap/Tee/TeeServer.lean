import TieredOMap.Network.Wire

/-!
# The wire format of the TEE server

Requests and responses as bytes (`tee_server.cpp`). A deserialiser gets a buffer from the
network, so every read of it is checked against the end of the buffer here; a read that
goes past it, which the source would not notice, is the error `outOfBounds`.
-/

namespace TieredOmap

/-! ## Reading a buffer -/

/-- The byte at an offset. -/
def byteAt (data : Bytes) (offset : Nat) : Except WireErr UInt8 :=
  if offset < data.length then .ok (data.getD offset 0) else .error .outOfBounds

/-- `memcpy` of an `int`. -/
def copyInt (data : Bytes) (offset : Nat) : Except WireErr Int :=
  if offset + 4 ≤ data.length then .ok (bytesToInt (data.drop offset)) else .error .outOfBounds

/-- `assign` of the bytes from one offset to another. -/
def assignRange (data : Bytes) (first last : Int) : Except WireErr Bytes :=
  if 0 ≤ first ∧ first ≤ last ∧ last ≤ data.length then
    .ok ((data.drop first.toNat).take (last - first).toNat)
  else .error .outOfBounds

/-- The value behind a header of `header` bytes that announces `vlen` bytes. -/
def announcedValue (data : Bytes) (header : Nat) (vlen : Int) : Except WireErr Bytes :=
  if 0 < vlen ∧ header + vlen ≤ data.length then assignRange data header (header + vlen)
  else .ok []

/-! ## Requests -/

/-- `TeeRequest`; an `op` is the byte of `'R'` or of `'W'`. -/
structure TeeRequest where
  op : UInt8 := 82
  key : Int := invalidKey
  value : Bytes := []
deriving DecidableEq, Repr

/-- `serialize_request`. -/
def serializeRequest (req : TeeRequest) : Bytes :=
  req.op :: (intToBytes req.key ++ (intToBytes req.value.length ++ req.value))

/-- `deserialize_request`. -/
def deserializeRequest (data : Bytes) : Except WireErr TeeRequest :=
  if data.length < 1 + 4 + 4 then .ok {}
  else do
    let op ← byteAt data 0
    let key ← copyInt data 1
    let vlen ← copyInt data (1 + 4)
    let value ← announcedValue data (1 + 2 * 4) vlen
    return { op, key, value }

/-! ## Responses -/

/-- `TeeResponse`; a `phase` is the byte of `'H'` or of `'F'`. -/
structure TeeResponse where
  phase : UInt8 := 72
  found : Bool := false
  value : Bytes := []
deriving DecidableEq, Repr

/-- `serialize_response`. -/
def serializeResponse (resp : TeeResponse) : Bytes :=
  resp.phase :: (if resp.found then 1 else 0) ::
    (intToBytes resp.value.length ++ resp.value)

/-- `deserialize_response`. -/
def deserializeResponse (data : Bytes) : Except WireErr TeeResponse :=
  if data.length < 2 + 4 then .ok {}
  else do
    let phase ← byteAt data 0
    let found ← byteAt data 1
    let vlen ← copyInt data 2
    let value ← announcedValue data (2 + 4) vlen
    return { phase, found := found != 0, value }

/-! ## Reads stay inside the buffer -/

/-- Nothing, or exactly the announced bytes behind the header. -/
def Announced (data : Bytes) (header : Nat) (vlen : Int) (value : Bytes) : Prop :=
  value = [] ∨ ((value.length : Int) = vlen ∧ header + value.length ≤ data.length ∧
    value = (data.drop header).take value.length)

theorem announcedValue_inside (data : Bytes) (header : Nat) (vlen : Int) :
    ∃ value, announcedValue data header vlen = .ok value ∧ Announced data header vlen value := by
  unfold announcedValue
  split
  · rename_i fits
    obtain ⟨count, rfl⟩ := Int.eq_ofNat_of_zero_le (by omega : 0 ≤ vlen)
    refine ⟨(data.drop header).take count, ?_, .inr ?_⟩
    · rw [assignRange, if_pos (by omega), Int.toNat_natCast,
        show (header + (count : Int) - header).toNat = count by omega]
    · have lengthEq : ((data.drop header).take count).length = count := by
        rw [List.length_take, List.length_drop]
        omega
      rw [lengthEq]
      exact ⟨rfl, by omega, rfl⟩
  · exact ⟨[], rfl, .inl rfl⟩

theorem byteAt_inside {data : Bytes} {offset : Nat} (inside : offset < data.length) :
    byteAt data offset = .ok (data.getD offset 0) := if_pos inside

theorem copyInt_inside {data : Bytes} {offset : Nat} (inside : offset + 4 ≤ data.length) :
    copyInt data offset = .ok (bytesToInt (data.drop offset)) := if_pos inside

/-- Whatever comes in, a request is read without leaving the buffer. -/
theorem deserializeRequest_inside (data : Bytes) : ∃ request,
    deserializeRequest data = .ok request ∧
      Announced data 9 (bytesToInt (data.drop 5)) request.value := by
  unfold deserializeRequest
  split
  · exact ⟨{}, rfl, .inl rfl⟩
  · rcases announcedValue_inside data (1 + 2 * 4) (bytesToInt (data.drop (1 + 4))) with
      ⟨value, read, announced⟩
    rw [byteAt_inside (by omega), copyInt_inside (by omega), copyInt_inside (by omega)]
    refine ⟨{ op := data.getD 0 0, key := bytesToInt (data.drop 1), value }, ?_, announced⟩
    change (do
      let value ← announcedValue data (1 + 2 * 4) (bytesToInt (data.drop (1 + 4)))
      return _ : Except WireErr TeeRequest) = _
    rw [read]
    rfl

/-- So is a response. -/
theorem deserializeResponse_inside (data : Bytes) : ∃ response,
    deserializeResponse data = .ok response ∧
      Announced data 6 (bytesToInt (data.drop 2)) response.value := by
  unfold deserializeResponse
  split
  · exact ⟨{}, rfl, .inl rfl⟩
  · rcases announcedValue_inside data (2 + 4) (bytesToInt (data.drop 2)) with
      ⟨value, read, announced⟩
    rw [byteAt_inside (by omega), byteAt_inside (by omega), copyInt_inside (by omega)]
    refine ⟨{ phase := data.getD 0 0, found := data.getD 1 0 != 0, value }, ?_, announced⟩
    change (do
      let value ← announcedValue data (2 + 4) (bytesToInt (data.drop 2))
      return _ : Except WireErr TeeResponse) = _
    rw [read]
    rfl

/-! ## What was written is read -/

/-- A value is read from behind a header that announces its length. -/
theorem announcedValue_append {front value : Bytes} {header : Nat}
    (headerEq : front.length = header) :
    announcedValue (front ++ value) header value.length = .ok value := by
  subst headerEq
  unfold announcedValue
  split
  · rename_i fits
    have range : 0 ≤ (front.length : Int) ∧
        (front.length : Int) ≤ front.length + value.length ∧
          (front.length : Int) + value.length ≤ (front ++ value).length := by
      rw [List.length_append]
      omega
    rw [assignRange, if_pos range, Int.toNat_natCast, List.drop_left, List.take_of_length_le]
    omega
  · rename_i tooLong
    have empty : value = [] := by
      rw [List.length_append] at tooLong
      exact List.length_eq_zero_iff.mp (by omega)
    rw [empty]

theorem copyInt_append {front rest : Bytes} {value : Int} {offset : Nat}
    (offsetEq : front.length = offset) (isInt : IsInt value) :
    copyInt (front ++ (intToBytes value ++ rest)) offset = .ok value := by
  subst offsetEq
  rw [copyInt_inside (by simp), List.drop_left, bytesToInt_intToBytes_append, bmod_of_isInt isInt]

theorem isInt_length {value : Bytes} (short : value.length < 2 ^ 31) :
    IsInt (value.length : Int) := ⟨by omega, by omega⟩

theorem deserializeRequest_serializeRequest {req : TeeRequest} (isInt : IsInt req.key)
    (short : req.value.length < 2 ^ 31) :
    deserializeRequest (serializeRequest req) = .ok req := by
  have long : ¬(serializeRequest req).length < 1 + 4 + 4 := by
    simp only [serializeRequest, List.length_cons, List.length_append, length_intToBytes]
    omega
  have op : byteAt (serializeRequest req) 0 = .ok req.op := byteAt_inside (by omega)
  have key : copyInt (serializeRequest req) 1 = .ok req.key :=
    @copyInt_append [req.op] _ _ 1 rfl isInt
  have vlen : copyInt (serializeRequest req) (1 + 4) = .ok req.value.length :=
    @copyInt_append (req.op :: intToBytes req.key) _ _ (1 + 4) rfl (isInt_length short)
  have value : announcedValue (serializeRequest req) (1 + 2 * 4) req.value.length =
      .ok req.value :=
    @announcedValue_append (req.op :: (intToBytes req.key ++ intToBytes req.value.length))
      req.value (1 + 2 * 4) rfl
  rw [deserializeRequest, if_neg long, op, key, vlen]
  change (do
    let value ← announcedValue (serializeRequest req) (1 + 2 * 4) req.value.length
    return { op := req.op, key := req.key, value } : Except WireErr TeeRequest) = _
  rw [value]
  rfl

theorem deserializeResponse_serializeResponse {resp : TeeResponse}
    (short : resp.value.length < 2 ^ 31) :
    deserializeResponse (serializeResponse resp) = .ok resp := by
  have long : ¬(serializeResponse resp).length < 2 + 4 := by
    simp only [serializeResponse, List.length_cons, List.length_append, length_intToBytes]
    omega
  have phase : byteAt (serializeResponse resp) 0 = .ok resp.phase := byteAt_inside (by omega)
  have found : byteAt (serializeResponse resp) 1 = .ok (if resp.found then 1 else 0) :=
    byteAt_inside (by omega)
  have vlen : copyInt (serializeResponse resp) 2 = .ok resp.value.length :=
    @copyInt_append [resp.phase, if resp.found then 1 else 0] _ _ 2 rfl (isInt_length short)
  have value : announcedValue (serializeResponse resp) (2 + 4) resp.value.length =
      .ok resp.value :=
    @announcedValue_append (resp.phase :: (if resp.found then 1 else 0) ::
      intToBytes resp.value.length) resp.value (2 + 4) rfl
  have flag : ((if resp.found then 1 else 0 : UInt8) != 0) = resp.found := by
    cases resp.found <;> rfl
  rw [deserializeResponse, if_neg long, phase, found, vlen]
  change (do
    let value ← announcedValue (serializeResponse resp) (2 + 4) resp.value.length
    return { phase := resp.phase, found := (if resp.found then 1 else 0 : UInt8) != 0, value } :
      Except WireErr TeeResponse) = _
  rw [value, flag]
  rfl

/--
What was written is read back in every field, and no buffer makes a deserialiser read past
its end or take anything but the announced bytes.
-/
theorem tee_wire_codec :
    (∀ req : TeeRequest, IsInt req.key → req.value.length < 2 ^ 31 →
      deserializeRequest (serializeRequest req) = .ok req) ∧
    (∀ resp : TeeResponse, resp.value.length < 2 ^ 31 →
      deserializeResponse (serializeResponse resp) = .ok resp) ∧
    (∀ data : Bytes, ∃ req, deserializeRequest data = .ok req ∧
      Announced data 9 (bytesToInt (data.drop 5)) req.value) ∧
    (∀ data : Bytes, ∃ resp, deserializeResponse data = .ok resp ∧
      Announced data 6 (bytesToInt (data.drop 2)) resp.value) :=
  ⟨fun _ isInt short => deserializeRequest_serializeRequest isInt short,
    fun _ short => deserializeResponse_serializeResponse short,
    deserializeRequest_inside, deserializeResponse_inside⟩

theorem tee_wire_codec_sample :
    deserializeRequest (serializeRequest { op := 87, key := -5, value := [1, 2] }) =
      .ok { op := 87, key := -5, value := [1, 2] } :=
  tee_wire_codec.1 _ (by decide) (by decide)

/-- A negative length is rejected. -/
example : deserializeRequest [82, 0, 0, 0, 0, 255, 255, 255, 255, 7] =
    .ok { op := 82, key := 0, value := [] } := by decide

end TieredOmap
