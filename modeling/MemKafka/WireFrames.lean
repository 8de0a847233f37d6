import MemKafka.GroupMessages
import MemKafka.RecordMessages

/-!
# Frames of messages

The APIs whose messages are modelled, as a `Schema` (`wireSchema`) in which the other APIs are left to another one. A `ClientCall` is a
request of a client, with the frame that the vendored crate writes for it; `decode_frame` reads the call from it, as seen at its version.
-/

namespace MemKafka.Wire
open Kit Kit.Format

/-! ### Headers -/

structure RequestHeader where
  requestApiKey : Int16
  requestApiVersion : Int16
  correlationId : Int32
  clientId : Option String
  unknownTaggedFields : TaggedFields
deriving DecidableEq, Repr

namespace RequestHeader

def format (version : Int) : Format RequestHeader RequestHeader :=
  within 1 2 version (mk <$> of requestApiKey Types.int16 <*> of requestApiVersion Types.int16 <*>
    of correlationId Types.int32 <*> of clientId Types.string <*> of unknownTaggedFields (tagged (2 ≤ version)))

def Written (header : RequestHeader) : Prop := header.unknownTaggedFields.Written

def seenAt (version : Int) (header : RequestHeader) : RequestHeader :=
  { header with
    unknownTaggedFields := if 2 ≤ version then header.unknownTaggedFields else ∅ }

instance (version : Int) : (format version).Lawful Written (seenAt version) := by
  refine .weaken (f := within 1 2 version _) _ _ (fun header h => ?_) fun header => ?_
  · simpa [Written] using h
  · simp [seenAt]

end RequestHeader

structure ResponseHeader where
  correlationId : Int32
  unknownTaggedFields : TaggedFields
deriving DecidableEq, Repr

namespace ResponseHeader

def format (version : Int) : Format ResponseHeader ResponseHeader :=
  within 0 1 version (mk <$> of correlationId Types.int32 <*> of unknownTaggedFields (tagged (1 ≤ version)))

def Written (header : ResponseHeader) : Prop := header.unknownTaggedFields.Written

def seenAt (version : Int) (header : ResponseHeader) : ResponseHeader :=
  { header with
    unknownTaggedFields := if 1 ≤ version then header.unknownTaggedFields else ∅ }

instance (version : Int) : (format version).Lawful Written (seenAt version) := by
  refine .weaken (f := within 0 1 version _) _ _ (fun header h => ?_) fun header => ?_
  · simpa [Written] using h
  · simp [seenAt]

end ResponseHeader

end MemKafka.Wire

namespace MemKafka
open Kit

/-! ### APIs -/

/-- A message with what it is written as, and what is read of it. -/
structure MessageType where
  Value : Type
  format : (version : Int) → Format Value Value
  Written : Value → Prop
  seenAt : (version : Int) → Value → Value
  lawful : ∀ version, (format version).Lawful Written (seenAt version)

inductive Api where
  | produce | listOffsets | offsetCommit | joinGroup | heartbeat | leaveGroup | syncGroup
deriving DecidableEq, Repr

namespace Api

def key : Api → ApiKey
  | .produce => .produce
  | .listOffsets => .listOffsets
  | .offsetCommit => .offsetCommit
  | .joinGroup => .joinGroup
  | .heartbeat => .heartbeat
  | .leaveGroup => .leaveGroup
  | .syncGroup => .syncGroup

@[reducible] def request : Api → MessageType
  | .produce => ⟨Wire.ProduceRequest, Wire.ProduceRequest.format, _, _, fun _ => inferInstance⟩
  | .listOffsets => ⟨Wire.ListOffsetsRequest, Wire.ListOffsetsRequest.format, _, _, fun _ => inferInstance⟩
  | .offsetCommit => ⟨Wire.OffsetCommitRequest, Wire.OffsetCommitRequest.format, _, _, fun _ => inferInstance⟩
  | .joinGroup => ⟨Wire.JoinGroupRequest, Wire.JoinGroupRequest.format, _, _, fun _ => inferInstance⟩
  | .heartbeat => ⟨Wire.HeartbeatRequest, Wire.HeartbeatRequest.format, _, _, fun _ => inferInstance⟩
  | .leaveGroup => ⟨Wire.LeaveGroupRequest, Wire.LeaveGroupRequest.format, _, _, fun _ => inferInstance⟩
  | .syncGroup => ⟨Wire.SyncGroupRequest, Wire.SyncGroupRequest.format, _, _, fun _ => inferInstance⟩

@[reducible] def response : Api → MessageType
  | .produce => ⟨Wire.ProduceResponse, Wire.ProduceResponse.format, _, _, fun _ => inferInstance⟩
  | .listOffsets => ⟨Wire.ListOffsetsResponse, Wire.ListOffsetsResponse.format, _, _, fun _ => inferInstance⟩
  | .offsetCommit => ⟨Wire.OffsetCommitResponse, Wire.OffsetCommitResponse.format, _, _, fun _ => inferInstance⟩
  | .joinGroup => ⟨Wire.JoinGroupResponse, Wire.JoinGroupResponse.format, _, _, fun _ => inferInstance⟩
  | .heartbeat => ⟨Wire.HeartbeatResponse, Wire.HeartbeatResponse.format, _, _, fun _ => inferInstance⟩
  | .leaveGroup => ⟨Wire.LeaveGroupResponse, Wire.LeaveGroupResponse.format, _, _, fun _ => inferInstance⟩
  | .syncGroup => ⟨Wire.SyncGroupResponse, Wire.SyncGroupResponse.format, _, _, fun _ => inferInstance⟩

def ofKey : ApiKey → Option Api
  | .produce => some .produce
  | .listOffsets => some .listOffsets
  | .offsetCommit => some .offsetCommit
  | .joinGroup => some .joinGroup
  | .heartbeat => some .heartbeat
  | .leaveGroup => some .leaveGroup
  | .syncGroup => some .syncGroup
  | _ => none

end Api

/-- The messages of the modelled APIs, and of the others those of `P`. -/
def wireSchema (P : Schema) : Schema where
  Request key := match Api.ofKey key with
    | some api => api.request.Value
    | none => P.Request key
  Response key := match Api.ofKey key with
    | some api => api.response.Value
    | none => P.Response key
  decodeRequest key version := match Api.ofKey key with
    | some api => (api.request.format version).decode
    | none => P.decodeRequest key version
  encodeBody key version := match Api.ofKey key with
    | some api => fun response => ((api.response.format version).encode response).getD []
    | none => P.encodeBody key version
  acks (request : Wire.ProduceRequest) := request.acks.toInt

/-! ### Calls -/

/-- A request of a client. -/
structure ClientCall where
  api : Api
  version : Int16
  correlationId : Int32
  clientId : Option String
  unknownTaggedFields : TaggedFields
  request : api.request.Value

namespace ClientCall

def header (call : ClientCall) : Wire.RequestHeader :=
  ⟨Int16.ofInt call.api.key.code, call.version, call.correlationId, call.clientId, call.unknownTaggedFields⟩

def headerFormat (call : ClientCall) : Format Wire.RequestHeader Wire.RequestHeader :=
  Wire.RequestHeader.format (call.api.key.requestHeaderVersion call.version.toInt)

def bodyFormat (call : ClientCall) : Format call.api.request.Value call.api.request.Value := call.api.request.format call.version.toInt

/-- `encode_request_header_into_buffer`, and the body. -/
def frame (call : ClientCall) : Option Bytes := do
  let header ← call.headerFormat.encode call.header
  let body ← call.bodyFormat.encode call.request
  some (header ++ body)

def computeSize (call : ClientCall) : Option Nat := do
  let header ← call.headerFormat.computeSize call.header
  let body ← call.bodyFormat.computeSize call.request
  some (header + body)

def Written (call : ClientCall) : Prop := call.unknownTaggedFields.Written ∧ call.api.request.Written call.request

end ClientCall

section
variable (P : Schema)

def Api.requestBody : (api : Api) → api.request.Value → (wireSchema P).Request api.key
  | .produce => id
  | .listOffsets => id
  | .offsetCommit => id
  | .joinGroup => id
  | .heartbeat => id
  | .leaveGroup => id
  | .syncGroup => id

/-- What is to be read of a call. -/
def ClientCall.decoded (call : ClientCall) : DecodedRequest (wireSchema P) where
  header := ⟨call.api.key.code, call.version.toInt, call.correlationId.toInt, call.clientId⟩
  apiKey := call.api.key
  body := ⟨call.api.key, call.api.requestBody P (call.api.request.seenAt call.version.toInt call.request)⟩

end

/-! ### Both decoders of the header -/

theorem string_decode (buf : Bytes) : Types.string.decode buf = decodeString buf := by
  change ((((Types.signedLength 2 32767).decode buf).bind _).bind _) = _
  rw [decodeString]
  cases hget : tryGet 2 buf with
  | none => simp [Types.signedLength, hget]
  | some read =>
    simp only [Types.signedLength, hget, Option.bind_eq_bind, Option.bind_some]
    split
    · rfl
    split
    · rfl
    simp only [Option.bind_some, tryGet]
    split
    · rfl
    simp [Types.fromUtf8]
    cases String.fromUTF8? _ <;> rfl

theorem field_decode (buf : Bytes) : TaggedFields.field.decode buf = (unsignedVarInt buf).bind fun (tag, buf) =>
    (unsignedVarInt buf).bind fun (size, buf) => (tryGet size buf).bind fun (value, buf) =>
      some (((UInt32.ofNat tag).toInt32, value), buf) := rfl

theorem skipTaggedFields_eq (count : Nat) (buf : Bytes) :
    skipTaggedFields count buf = (Format.decodeAll TaggedFields.field count buf).map Prod.snd := by
  induction count generalizing buf with
  | zero => rfl
  | succ count ih =>
    simp only [skipTaggedFields, Format.decodeAll, field_decode, ih, Option.bind_eq_bind, Option.map_bind, Option.bind_assoc,
      Option.bind_some, Function.comp_def]
    simp [Option.map_eq_bind]

def fixedFields (header : Wire.RequestHeader) : RequestHeader where
  requestApiKey := header.requestApiKey.toInt
  requestApiVersion := header.requestApiVersion.toInt
  correlationId := header.correlationId.toInt
  clientId := header.clientId

theorem length_of_tryGet {k : Nat} {buf word rest : Bytes} (h : tryGet k buf = some (word, rest)) : word.length = k := by
  unfold tryGet at h
  split at h
  · cases h
  · cases h
    rw [List.length_take]
    omega

theorem beInt_bounds {k : Nat} {buf word rest : Bytes} (h : tryGet k buf = some (word, rest)) :
    -(256 ^ k : Nat) ≤ 2 * beInt word ∧ 2 * beInt word < (256 ^ k : Nat) := length_of_tryGet h ▸ beInt_range word

theorem RequestHeader.decode_eq (buf : Bytes) (version : Int) :
    RequestHeader.decode buf version = ((Wire.RequestHeader.format version).decode buf).map fun (header, rest) => (fixedFields header, rest) := by
  rw [RequestHeader.decode]
  simp only [Wire.RequestHeader.format, Format.within, Format.of, Format.decode_seq, Format.decode_map, Types.int16, Types.int32, Types.simpleInt,
    string_decode]
  split
  · rfl
  cases hkey : tryGet 2 buf with
  | none => rfl
  | some key =>
  simp only [Option.bind_eq_bind, Option.bind_some]
  cases hversion : tryGet 2 key.2 with
  | none => rfl
  | some apiVersion =>
  simp only [Option.bind_some]
  cases hcorrelation : tryGet 4 apiVersion.2 with
  | none => rfl
  | some correlation =>
  simp only [Option.bind_some]
  cases hclient : decodeString correlation.2 with
  | none => rfl
  | some clientId =>
  have hkey' := beInt_bounds hkey
  have hversion' := beInt_bounds hversion
  have hcorrelation' := beInt_bounds hcorrelation
  have h₁ : (Int16.ofInt (beInt key.1)).toInt = beInt key.1 := Int16.toInt_ofInt_of_le (by omega) (by omega)
  have h₂ : (Int16.ofInt (beInt apiVersion.1)).toInt = beInt apiVersion.1 := Int16.toInt_ofInt_of_le (by omega) (by omega)
  have h₃ : (Int32.ofInt (beInt correlation.1)).toInt = beInt correlation.1 := Int32.toInt_ofInt_of_le (by omega) (by omega)
  simp only [Option.bind_some, Wire.tagged, Format.whenever, Format.choose]
  by_cases hflexible : version < 2
  · rw [if_pos hflexible, if_neg (by omega)]
    simp only [Format.skip, Option.bind_some, Option.map_some, fixedFields, h₁, h₂, h₃]
  · rw [if_neg hflexible, if_pos (by omega)]
    simp only [TaggedFields.format, Option.bind_eq_bind, Types.unsignedVarInt, skipTaggedFields_eq]
    cases unsignedVarInt clientId.2 with
    | none => rfl
    | some count =>
    simp only [Option.bind_some]
    cases Format.decodeAll TaggedFields.field count.1 count.2 with
    | none => rfl
    | some read => simp only [Option.map_some, Option.bind_some, fixedFields, h₁, h₂, h₃]


/-! ### The frame of a call is read as the call -/

theorem Api.ofKey_key (api : Api) : ofKey api.key = some api := by
  cases api <;> rfl

theorem versions_of_within {σ α : Type} {min max version : Int} {f : Format σ α} {s : σ} {bytes : Bytes}
    (h : (Format.within min max version f).encode s = some bytes) : min ≤ version ∧ version ≤ max := by
  have := (Option.ite_none_left_eq_some.1 h).1
  omega

/-- A request is written in the versions of its API. -/
theorem Api.contains_of_encode {api : Api} {version : Int} {request : api.request.Value} {bytes : Bytes}
    (h : (api.request.format version).encode request = some bytes) : api.key.validVersions.contains version = true := by
  have hrange : api.key.validVersions.min ≤ version ∧ version ≤ api.key.validVersions.max := by
    cases api <;> exact versions_of_within h
  simp only [VersionRange.contains, Bool.and_eq_true, decide_eq_true_eq, hrange, and_self]

theorem Api.decodeRequest_key (P : Schema) (api : Api) (version : Int) (buf : Bytes) :
    (wireSchema P).decodeRequest api.key version buf =
      ((api.request.format version).decode buf).map fun (request, buf) => (api.requestBody P request, buf) := by
  cases api <;> exact Option.map_id'.symm

theorem le_of_tryGet {k : Nat} {buf word rest : Bytes} (h : tryGet k buf = some (word, rest)) : k ≤ buf.length := by
  unfold tryGet at h
  split at h
  · cases h
  · omega

theorem RequestHeader.length_of_decode {buf rest : Bytes} {version : Int} {header : RequestHeader}
    (h : RequestHeader.decode buf version = some (header, rest)) : 8 ≤ buf.length := by
  unfold RequestHeader.decode at h
  split at h
  · cases h
  obtain ⟨⟨key, buf₁⟩, hkey, h⟩ := Option.bind_eq_some_iff.1 h
  obtain ⟨⟨apiVersion, buf₂⟩, hversion, h⟩ := Option.bind_eq_some_iff.1 h
  obtain ⟨⟨correlation, buf₃⟩, hcorrelation, -⟩ := Option.bind_eq_some_iff.1 h
  have hkey' := le_of_tryGet hkey
  have hversion' := le_of_tryGet hversion
  have hcorrelation' := le_of_tryGet hcorrelation
  obtain ⟨-, rfl⟩ := eq_of_tryGet hkey
  obtain ⟨-, rfl⟩ := eq_of_tryGet hversion
  simp only [List.length_drop] at hversion' hcorrelation'
  omega

namespace ClientCall

variable {call : ClientCall} {frame : Bytes}

theorem headerFormat_lawful (call : ClientCall) : call.headerFormat.Lawful Wire.RequestHeader.Written
    (Wire.RequestHeader.seenAt (call.api.key.requestHeaderVersion call.version.toInt)) :=
  inferInstanceAs ((Wire.RequestHeader.format _).Lawful _ _)

theorem frame_eq_some (h : call.frame = some frame) : ∃ header body, call.headerFormat.encode call.header = some header ∧
    call.bodyFormat.encode call.request = some body ∧ frame = header ++ body := by
  obtain ⟨header, hheader, h⟩ := Option.bind_eq_some_iff.1 h
  obtain ⟨body, hbody, h⟩ := Option.bind_eq_some_iff.1 h
  exact ⟨header, body, hheader, hbody, (Option.some.inj h).symm⟩

theorem decode_header {header : Bytes} (h : call.headerFormat.encode call.header = some header) (written : call.Written)
    (rest : Bytes) : RequestHeader.decode (header ++ rest) (call.api.key.requestHeaderVersion call.version.toInt) =
      some (⟨call.api.key.code, call.version.toInt, call.correlationId.toInt, call.clientId⟩, rest) := by
  have hread := call.headerFormat_lawful.decode call.header header written.1 h rest
  have hkey : (Int16.ofInt call.api.key.code).toInt = call.api.key.code := by
    cases call.api <;> rfl
  rw [RequestHeader.decode_eq, ← headerFormat, hread]
  simp only [Option.map_some, fixedFields, Wire.RequestHeader.seenAt, ClientCall.header, hkey]

end ClientCall

/-- The frame that is written for a call of a modelled API, in any version, has the computed size, and `decode_frame` reads from it the call
as seen at its version, if no tagged field has a tag that is counted but not written. -/
theorem frames_are_read (P : Schema) (call : ClientCall) (written : call.Written) {frame : Bytes} (h : call.frame = some frame) :
    call.computeSize = some frame.length ∧ decodeFrame (wireSchema P) frame = .ok (.request (call.decoded P)) := by
  obtain ⟨header, body, hheader, hbody, rfl⟩ := ClientCall.frame_eq_some h
  have hlawful := call.api.request.lawful call.version.toInt
  have hheaderSize := call.headerFormat_lawful.size call.header header written.1 hheader
  refine ⟨?_, ?_⟩
  · simp only [ClientCall.computeSize, hheaderSize, ClientCall.bodyFormat, hlawful.size _ body written.2 hbody, Option.bind_eq_bind, Option.bind_some,
      List.length_append]
  · have hdecode := ClientCall.decode_header hheader written body
    have hfields := RequestHeader.decode_fields hdecode
    have hread := hlawful.decode call.request body written.2 hbody []
    have hinside := Api.contains_of_encode hbody
    rw [List.append_nil] at hread
    unfold decodeFrame
    rw [if_neg (Nat.not_lt.2 (RequestHeader.length_of_decode hdecode))]
    simp only [← hfields, ApiKey.tryFrom_code, hinside, hdecode, RequestKind.decode, Api.decodeRequest_key, hread]
    simp [ClientCall.decoded]

def noSchema : Schema := ⟨fun _ => Unit, fun _ => Unit, fun _ _ _ => none, fun _ _ _ => [], fun _ => 0⟩

/-- A produce request in a flexible version, with a tagged field behind its header. -/
def flexibleCall : ClientCall where
  api := .produce
  version := 9
  correlationId := 7
  clientId := some "c"
  unknownTaggedFields := (∅ : TaggedFields).insert 3 [1, 2]
  request := ⟨none, -1, 1000, [⟨"t", 5, [⟨0, some [8], ∅⟩], ∅⟩], ∅⟩

/-- The topic id, which version 9 does not have, is not read. -/
theorem frames_are_read_flexible : ∃ frame, flexibleCall.frame = some frame ∧ frame.length = 36 ∧
    decodeFrame (wireSchema noSchema) frame = .ok (.request ⟨⟨0, 9, 7, some "c"⟩, .produce, .produce,
      (⟨none, -1, 1000, [⟨"t", 0, [⟨0, some [8], ∅⟩], ∅⟩], ∅⟩ : Wire.ProduceRequest)⟩) := by
  have hframe : (flexibleCall.frame.map List.length) = some 36 := by decide +kernel
  obtain ⟨frame, hframe, hlength⟩ := Option.map_eq_some_iff.1 hframe
  have hempty := TaggedFields.writtenFrom_empty 0
  have hwritten : flexibleCall.Written := by
    refine ⟨by decide, ?_⟩
    simpa [flexibleCall, Wire.ProduceRequest.Written, Wire.TopicProduceData.Written, Wire.PartitionProduceData.Written]
  exact ⟨frame, hframe, hlength, (frames_are_read noSchema flexibleCall hwritten hframe).2⟩

end MemKafka
