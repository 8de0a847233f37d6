import MemKafka.ApiKeys
import MemKafka.Records

/-!
# Request and response frames (`kafka/codec.rs`)

The fixed fields of a request frame are read twice, for `RequestPrefix` and by the header decoder of the vendored crate.
The bodies of the messages are the generated types of that crate: they and their codecs are a parameter, `Schema`. That
`RequestKind::decode` returns the variant of its API is how it is written.
-/

namespace MemKafka
open Kit

/-- The generated types of the messages, one request and one response for each API. `decodeRequest` returns the buffer
behind the body, and `none` for an error; encoding is taken to succeed. -/
structure Schema where
  Request : ApiKey → Type
  Response : ApiKey → Type
  decodeRequest : (key : ApiKey) → (version : Int) → Bytes → Option (Request key × Bytes)
  encodeBody : (key : ApiKey) → (version : Int) → Response key → Bytes
  acks : Request .produce → Int

/-! ### The vendored decoders -/

/-- The loop of `UnsignedVarInt`, from its byte `5 - left` on. -/
def unsignedVarIntLoop : (left : Nat) → (value : BitVec 32) → Bytes → Option (BitVec 32 × Bytes)
  | 0, value, buf => some (value, buf)
  | left + 1, value, buf => do
    let (word, buf) ← tryGet 1 buf
    let b := BitVec.ofNat 32 (beNat word)
    let value := value ||| ((b &&& 0x7f#32) <<< ((4 - left) * 7))
    if b < 0x80#32 then some (value, buf) else unsignedVarIntLoop left value buf

def unsignedVarInt (buf : Bytes) : Option (Nat × Bytes) := do
  let (value, buf) ← unsignedVarIntLoop 5 0 buf
  some (value.toNat, buf)

/-- `types::String`, which may be null. -/
def decodeString (buf : Bytes) : Option (Option String × Bytes) := do
  let (length, buf) ← tryGet 2 buf
  if beInt length = -1 then some (none, buf) else
  if beInt length < 0 then none else
  let (strbuf, buf) ← tryGet (beInt length).toNat buf
  let string ← String.fromUTF8? ⟨strbuf.toArray⟩
  some (some string, buf)

/-- The loop over the tagged fields of a header. Nothing reads the fields, so only the buffer behind them is left. -/
def skipTaggedFields : (count : Nat) → Bytes → Option Bytes
  | 0, buf => some buf
  | count + 1, buf => do
    let (_tag, buf) ← unsignedVarInt buf
    let (size, buf) ← unsignedVarInt buf
    let (_value, buf) ← tryGet size buf
    skipTaggedFields count buf

structure RequestHeader where
  requestApiKey : Int
  requestApiVersion : Int
  correlationId : Int
  clientId : Option String
deriving DecidableEq, Repr

/-- `RequestHeader::decode`. -/
def RequestHeader.decode (buf : Bytes) (version : Int) : Option (RequestHeader × Bytes) := do
  if version < 1 ∨ 2 < version then none else
  let (requestApiKey, buf) ← tryGet 2 buf
  let (requestApiVersion, buf) ← tryGet 2 buf
  let (correlationId, buf) ← tryGet 4 buf
  let (clientId, buf) ← decodeString buf
  let header : RequestHeader := ⟨beInt requestApiKey, beInt requestApiVersion, beInt correlationId, clientId⟩
  if version < 2 then some (header, buf) else
  let (count, buf) ← unsignedVarInt buf
  let buf ← skipTaggedFields count buf
  some (header, buf)

section
variable (P : Schema)

structure RequestKind where
  key : ApiKey
  body : P.Request key

structure ResponseKind where
  key : ApiKey
  body : P.Response key

def RequestKind.decode (key : ApiKey) (buf : Bytes) (version : Int) : Option (RequestKind P × Bytes) := do
  let (body, buf) ← P.decodeRequest key version buf
  some (⟨key, body⟩, buf)

end

/-! ### `decode_frame` -/

structure DecodedRequest (P : Schema) where
  header : RequestHeader
  apiKey : ApiKey
  body : RequestKind P

section
variable {P : Schema}

/-- The body, if it is the variant of `key`. -/
def RequestKind.as (kind : RequestKind P) (key : ApiKey) : Option (P.Request key) :=
  if h : kind.key = key then some (h ▸ kind.body) else none

def DecodedRequest.expectsResponse (request : DecodedRequest P) : Bool :=
  match request.body.as .produce with
  | some body => P.acks body ≠ 0
  | none => true

end

structure RequestPrefix where
  rawApiKey : Int
  apiVersion : Int
  correlationId : Int
deriving DecidableEq, Repr

inductive DecodedFrame (P : Schema) where
  | request (request : DecodedRequest P)
  | unsupportedApiVersions (header : RequestHeader) (requestedVersion : Int)

inductive DecodeStage where
  | header
  | body
  | trailingBytes
deriving DecidableEq, Repr

inductive RequestDecodeError where
  | truncatedPrefix
  | unknownApiKey (head : RequestPrefix)
  | versionOutOfSchema (head : RequestPrefix) (apiKey : ApiKey)
  | malformed (head : Option RequestPrefix) (apiKey : Option ApiKey) (stage : DecodeStage)
deriving DecidableEq, Repr

/-- The eight bytes that every request starts with. -/
def requestPrefix (frame : Bytes) : RequestPrefix :=
  ⟨beInt (wordAt frame 0 2), beInt (wordAt frame 2 2), beInt (wordAt frame 4 4)⟩

def decodeFrame (P : Schema) (frame : Bytes) : Except RequestDecodeError (DecodedFrame P) :=
  if frame.length < 8 then .error .truncatedPrefix else
  let head := requestPrefix frame
  match ApiKey.tryFrom head.rawApiKey with
  | none => .error (.unknownApiKey head)
  | some apiKey =>
    let inSchema := apiKey.validVersions.contains head.apiVersion
    if apiKey ≠ .apiVersions ∧ ¬ inSchema then .error (.versionOutOfSchema head apiKey) else
    match RequestHeader.decode frame (apiKey.requestHeaderVersion head.apiVersion) with
    | none => .error (.malformed (some head) (some apiKey) .header)
    | some (header, frame) =>
      if apiKey = .apiVersions ∧ ¬ inSchema then .ok (.unsupportedApiVersions header head.apiVersion) else
      match RequestKind.decode P apiKey frame head.apiVersion with
      | none => .error (.malformed (some head) (some apiKey) .body)
      | some (body, frame) =>
        if frame ≠ [] then .error (.malformed (some head) (some apiKey) .trailingBytes) else
        .ok (.request ⟨header, apiKey, body⟩)

/-! ### `encode_response` -/

/-- What a response is written from (`ResponseEnvelope` in `kafka/request_router.rs`). -/
structure ResponseEnvelope (P : Schema) where
  apiKey : ApiKey
  encodingVersion : Int
  correlationId : Int
  body : ResponseKind P

/-- A header without tagged fields, and the body. -/
def encodeResponse {P : Schema} (envelope : ResponseEnvelope P) : Bytes :=
  beOfInt 4 envelope.correlationId ++
    (if 1 ≤ envelope.apiKey.responseHeaderVersion envelope.encodingVersion then [0] else []) ++
    P.encodeBody envelope.body.key envelope.encodingVersion envelope.body.body

/-! ### What is decoded -/

section
variable {P : Schema} {frame rest : Bytes} {header : RequestHeader} {version : Int}

theorem eq_of_tryGet {k : Nat} {buf word rest : Bytes} (h : tryGet k buf = some (word, rest)) :
    word = buf.take k ∧ rest = buf.drop k := by
  unfold tryGet at h
  split at h
  · cases h
  · obtain ⟨rfl, rfl⟩ := Prod.mk.inj (Option.some.inj h)
    exact ⟨rfl, rfl⟩

/-- The header decoder reads the fields that the frame's fixed bytes have. -/
theorem RequestHeader.decode_fields (h : RequestHeader.decode frame version = some (header, rest)) :
    (⟨header.requestApiKey, header.requestApiVersion, header.correlationId⟩ : RequestPrefix) = requestPrefix frame := by
  unfold RequestHeader.decode at h
  split at h
  · cases h
  obtain ⟨⟨key, buf₁⟩, hkey, h₁⟩ := Option.bind_eq_some_iff.1 h
  obtain ⟨⟨apiVersion, buf₂⟩, hversion, h₂⟩ := Option.bind_eq_some_iff.1 h₁
  obtain ⟨⟨correlation, buf₃⟩, hcorrelation, h₃⟩ := Option.bind_eq_some_iff.1 h₂
  obtain ⟨⟨clientId, buf₄⟩, -, h₄⟩ := Option.bind_eq_some_iff.1 h₃
  obtain rfl : (⟨beInt key, beInt apiVersion, beInt correlation, clientId⟩ : RequestHeader) = header := by
    dsimp only at h₄
    split at h₄
    · exact (Prod.mk.inj (Option.some.inj h₄)).1
    · obtain ⟨⟨count, buf₅⟩, -, h₅⟩ := Option.bind_eq_some_iff.1 h₄
      obtain ⟨buf₆, -, h₆⟩ := Option.bind_eq_some_iff.1 h₅
      exact (Prod.mk.inj (Option.some.inj h₆)).1
  obtain ⟨rfl, rfl⟩ := eq_of_tryGet hkey
  obtain ⟨rfl, rfl⟩ := eq_of_tryGet hversion
  obtain ⟨rfl, rfl⟩ := eq_of_tryGet hcorrelation
  simp only [requestPrefix, wordAt, List.drop_zero, List.drop_drop, Nat.reduceAdd]

/-- What `decode_frame` accepts: a request within its schema with a body of its API, or an `ApiVersions` request
outside it. -/
inductive Decoded (P : Schema) (frame : Bytes) : DecodedFrame P → Prop
  | request (request : DecodedRequest P) (key : ApiKey.tryFrom (requestPrefix frame).rawApiKey = some request.apiKey)
      (inSchema : request.apiKey.validVersions.contains (requestPrefix frame).apiVersion)
      (variant : request.body.key = request.apiKey)
      (version : request.header.requestApiVersion = (requestPrefix frame).apiVersion)
      (correlation : request.header.correlationId = (requestPrefix frame).correlationId) : Decoded P frame (.request request)
  | unsupportedApiVersions (header : RequestHeader)
      (key : ApiKey.tryFrom (requestPrefix frame).rawApiKey = some .apiVersions)
      (outside : ¬ ApiKey.apiVersions.validVersions.contains (requestPrefix frame).apiVersion)
      (correlation : header.correlationId = (requestPrefix frame).correlationId) :
      Decoded P frame (.unsupportedApiVersions header (requestPrefix frame).apiVersion)

theorem decodeFrame_decoded {decoded : DecodedFrame P} (h : decodeFrame P frame = .ok decoded) : Decoded P frame decoded := by
  unfold decodeFrame at h
  split at h
  · cases h
  dsimp only at h
  match hkey : ApiKey.tryFrom (requestPrefix frame).rawApiKey with
  | none =>
    simp only [hkey] at h
    cases h
  | some apiKey =>
    simp only [hkey] at h
    split at h
    · cases h
    rename_i hschema
    match hheader : RequestHeader.decode frame (apiKey.requestHeaderVersion (requestPrefix frame).apiVersion) with
    | none =>
      simp only [hheader] at h
      cases h
    | some (header, rest) =>
      simp only [hheader] at h
      have hfields := RequestHeader.decode_fields hheader
      have hversion : header.requestApiVersion = (requestPrefix frame).apiVersion := congrArg RequestPrefix.apiVersion hfields
      have hcorrelation : header.correlationId = (requestPrefix frame).correlationId :=
        congrArg RequestPrefix.correlationId hfields
      split at h
      · obtain ⟨rfl, houtside⟩ := ‹_ ∧ _›
        cases h
        exact .unsupportedApiVersions header hkey houtside hcorrelation
      rename_i hinside
      match hbody : RequestKind.decode P apiKey rest (requestPrefix frame).apiVersion with
      | none =>
        simp only [hbody] at h
        cases h
      | some (body, rest') =>
        simp only [hbody] at h
        split at h
        · cases h
        cases h
        have hvariant : body.key = apiKey := by
          obtain ⟨⟨message, buf⟩, -, heq⟩ := Option.bind_eq_some_iff.1 hbody
          obtain ⟨rfl, -⟩ := Prod.mk.inj (Option.some.inj heq)
          rfl
        refine .request _ hkey ?_ hvariant hversion hcorrelation
        by_contra hout
        by_cases hversions : apiKey = .apiVersions
        · exact hinside ⟨hversions, hout⟩
        · exact hschema ⟨hversions, hout⟩

end

end MemKafka
