import MemKafka.Connection
import MemKafka.WireFrames

/-!
# Calls over a connection

A `Service` answers the calls of a client one after the other with the handlers, without any bytes. A connection that receives the frames of
these calls does the same: its handlers are given what the client has written, and the client reads what they returned.
-/

namespace MemKafka
open Kit

section
variable (P : Schema)

def Api.responseBody : (api : Api) → api.response.Value → (wireSchema P).Response api.key
  | .produce => id
  | .listOffsets => id
  | .offsetCommit => id
  | .joinGroup => id
  | .heartbeat => id
  | .leaveGroup => id
  | .syncGroup => id

/-- What a client makes of a response to its call. -/
def ClientCall.readResponse (call : ClientCall) (buf : Bytes) : Option (Int32 × call.api.response.Value) := do
  let (header, buf) ← (Wire.ResponseHeader.format (call.api.key.responseHeaderVersion call.version.toInt)).decode buf
  let (response, buf) ← (call.api.response.format call.version.toInt).decode buf
  if buf ≠ [] then none else
  some (header.correlationId, response)

/-- Whether a call is a produce request with `acks = 0`. -/
def Api.silent : (api : Api) → api.request.Value → Bool
  | .produce, request => request.acks.toInt = 0
  | _, _ => false

end

/-! ### Answers without bytes -/

structure Answer where
  call : ClientCall
  response : call.api.response.Value

structure Service (σ : Type) where
  broker : σ
  isOpen : Bool
  answers : List Answer

inductive ServiceLabel (σ : Type) where
  | call (call : ClientCall)
  | finish
  | shutdown
  /-- the broker is changed by others -/
  | change (broker : σ)

section
variable {P : Schema} {σ : Type} (handlers : Handlers (wireSchema P) σ)

/-- The handler of an API. -/
def Api.serve : (api : Api) → api.request.Value → (version : Int) → (clientId : Option String) → σ → api.response.Value × σ
  | .produce, request, _, _ => handlers.produce request
  | .listOffsets, request, _, _ => handlers.listOffsets request
  | .offsetCommit, request, _, _ => handlers.offsetCommit request
  | .joinGroup, request, version, clientId => handlers.joinGroup request version clientId
  | .heartbeat, request, _, _ => handlers.heartbeat request
  | .leaveGroup, request, version, _ => handlers.leaveGroup request version
  | .syncGroup, request, _, _ => handlers.syncGroup request

def ClientCall.serve (call : ClientCall) (broker : σ) : call.api.response.Value × σ :=
  call.api.serve handlers (call.api.request.seenAt call.version.toInt call.request) call.version.toInt call.clientId broker

def Service.step (s : Service σ) : ServiceLabel σ → Option (Unit × Service σ)
  | .call call =>
    if s.isOpen then
      let (response, broker) := call.serve handlers s.broker
      let answers := if call.api.silent call.request then [] else [⟨call, response⟩]
      some ((), { s with broker := broker, answers := s.answers ++ answers })
    else none
  | .finish => if s.isOpen then some ((), { s with isOpen := false }) else none
  | .shutdown => if s.isOpen then some ((), { s with isOpen := false }) else none
  | .change broker => some ((), { s with broker := broker })

/-- What the connection is given for it. -/
def ServiceLabel.onWire : ServiceLabel σ → ConnectionLabel σ
  | .call sent => .receive sent.frame
  | .finish => .receive none
  | .shutdown => .shutdown
  | .change broker => .change broker

end

/-- A call that can be written, to an API in a version that is served. -/
structure ClientCall.Sendable (call : ClientCall) : Prop where
  advertised : Advertised call.api.key call.version.toInt
  written : call.Written
  frame : call.frame.isSome

/-- An answer that can be written. -/
structure Answer.Sendable (answer : Answer) : Prop where
  written : answer.call.api.response.Written answer.response
  encoded : ((answer.call.api.response.format answer.call.version.toInt).encode answer.response).isSome

/-- The client reads the answer from this frame, as seen at its version. -/
def Answer.ReadFrom (answer : Answer) (frame : Bytes) : Prop :=
  answer.call.readResponse frame =
    some (answer.call.correlationId, answer.call.api.response.seenAt answer.call.version.toInt answer.response)

/-! ### One call -/

section
variable {P : Schema} {σ : Type} {texts : Unsupported (wireSchema P)} {handlers : Handlers (wireSchema P) σ}

def Answer.envelope (P : Schema) (answer : Answer) : ResponseEnvelope (wireSchema P) where
  apiKey := answer.call.api.key
  encodingVersion := answer.call.version.toInt
  correlationId := answer.call.correlationId.toInt
  body := ⟨answer.call.api.key, answer.call.api.responseBody P answer.response⟩

theorem Api.encodeBody_key (api : Api) (version : Int) (response : api.response.Value) :
    (wireSchema P).encodeBody api.key version (api.responseBody P response) =
      ((api.response.format version).encode response).getD [] := by
  cases api <;> rfl

theorem dispatch_call (call : ClientCall) (advertised : Advertised call.api.key call.version.toInt) (broker : σ) :
    dispatch handlers ⟨call.decoded P, advertised⟩ broker =
      (.ok ⟨call.api.key, call.api.responseBody P (call.serve handlers broker).1⟩, (call.serve handlers broker).2) := by
  obtain ⟨api, version, correlationId, clientId, unknownTaggedFields, request⟩ := call
  cases api <;> rfl

theorem expectsResponse_call (call : ClientCall) : (call.decoded P).expectsResponse = !call.api.silent call.request := by
  obtain ⟨api, version, correlationId, clientId, unknownTaggedFields, request⟩ := call
  cases api with
  | produce => exact decide_not
  | _ => rfl

/-- A served call is given to its handler. -/
theorem route_call (texts : Unsupported (wireSchema P)) (call : ClientCall) (advertised : Advertised call.api.key call.version.toInt) :
    route texts (.request (call.decoded P)) = .ok (.dispatch ⟨call.decoded P, advertised⟩) := by
  have hrouted := route_routed texts (show (call.decoded P).body.key = (call.decoded P).apiKey from rfl)
  generalize hroute : route texts (.request (call.decoded P)) = routed at hrouted
  cases hrouted with
  | dispatch _ => rfl
  | unsupportedApi error missing =>
    obtain ⟨window, hwindow, -⟩ := advertised
    exact absurd (missing.symm.trans hwindow) (by simp)
  | noResponse outside silent => exact absurd advertised outside
  | respond body variant outside expects => exact absurd advertised outside

theorem handleOne_call (texts : Unsupported (wireSchema P)) (handlers : Handlers (wireSchema P) σ) {call : ClientCall} (h : call.Sendable)
    (s : Connection σ) :
    handleOne texts handlers call.frame s = (.ok true,
      let served : Connection σ := { s with broker := (call.serve handlers s.broker).2 }
      if call.api.silent call.request then served
      else writeResponse served (Answer.envelope P ⟨call, (call.serve handlers s.broker).1⟩)) := by
  obtain ⟨frame, hframe⟩ := Option.isSome_iff_exists.1 h.frame
  have hdecode := (frames_are_read P call h.written hframe).2
  simp only [handleOne, hframe, hdecode, route_call texts call h.advertised, dispatch_call call h.advertised, expectsResponse_call]
  cases call.api.silent call.request <;> rfl

theorem encode_responseHeader {version : Int} (h : 0 ≤ version ∧ version ≤ 1) (correlationId : Int32) :
    (Wire.ResponseHeader.format version).encode ⟨correlationId, ∅⟩ =
      some (beOfInt 4 correlationId.toInt ++ if 1 ≤ version then [0] else []) := by
  refine (if_neg (by omega)).trans ?_
  rw [Format.encode_seq, Format.encode_map]
  by_cases hflexible : 1 ≤ version
  · simp only [Wire.tagged, Format.whenever, Format.choose, if_pos hflexible]
    rfl
  · simp only [Wire.tagged, Format.whenever, Format.choose, if_neg hflexible]
    rfl

theorem responseHeaderVersion_range (key : ApiKey) (version : Int) :
    0 ≤ key.responseHeaderVersion version ∧ key.responseHeaderVersion version ≤ 1 := by
  unfold ApiKey.responseHeaderVersion
  split <;> decide

theorem Answer.readFrom_encodeResponse (P : Schema) {answer : Answer} (h : answer.Sendable) :
    answer.ReadFrom (encodeResponse (answer.envelope P)) := by
  obtain ⟨call, response⟩ := answer
  obtain ⟨body, hbody⟩ := Option.isSome_iff_exists.1 h.encoded
  have hheader := encode_responseHeader (responseHeaderVersion_range call.api.key call.version.toInt) call.correlationId
  have hread := Format.Lawful.decode (f := Wire.ResponseHeader.format _) _ _ (by rintro _ ⟨⟩) hheader body
  have hresponse := (call.api.response.lawful call.version.toInt).decode response body h.written hbody []
  rw [List.append_nil] at hresponse
  rw [ReadFrom, ClientCall.readResponse, encodeResponse, envelope, Api.encodeBody_key, hbody, Option.getD_some, hread]
  simp only [Option.bind_eq_bind, Option.bind_some, hresponse, Wire.ResponseHeader.seenAt]
  rfl

/-! ### Runs -/

theorem step_receive (texts : Unsupported (wireSchema P)) (handlers : Handlers (wireSchema P) σ) {s : Connection σ}
    (hopen : s.isOpen = true) (frame : Option Bytes) : Connection.step texts handlers s (.receive frame) =
      some (some (handleOne texts handlers frame s).1,
        { (handleOne texts handlers frame s).2 with isOpen := goesOn (handleOne texts handlers frame s).1 }) := by
  rw [Connection.step, if_pos hopen]

/-- What the service does in a step. -/
inductive ServiceStep (handlers : Handlers (wireSchema P) σ) (s : Service σ) : ServiceLabel σ → Service σ → Prop
  | call (sent : ClientCall) (opened : s.isOpen = true) : ServiceStep handlers s (.call sent)
      { s with
        broker := (sent.serve handlers s.broker).2
        answers := s.answers ++ if sent.api.silent sent.request then [] else [⟨sent, (sent.serve handlers s.broker).1⟩] }
  | finish (opened : s.isOpen = true) : ServiceStep handlers s .finish { s with isOpen := false }
  | shutdown (opened : s.isOpen = true) : ServiceStep handlers s .shutdown { s with isOpen := false }
  | change (broker : σ) : ServiceStep handlers s (.change broker) { s with broker := broker }

theorem Service.step_cases {s s' : Service σ} {label : ServiceLabel σ} {o : Unit}
    (h : Service.step handlers s label = some (o, s')) : ServiceStep handlers s label s' := by
  cases label with
  | call sent =>
    obtain ⟨hopen, h⟩ := Option.ite_none_right_eq_some.1 h
    cases h
    exact .call sent hopen
  | finish =>
    obtain ⟨hopen, h⟩ := Option.ite_none_right_eq_some.1 h
    cases h
    exact .finish hopen
  | shutdown =>
    obtain ⟨hopen, h⟩ := Option.ite_none_right_eq_some.1 h
    cases h
    exact .shutdown hopen
  | change broker =>
    cases h
    exact .change broker

/-- A connection that has done what the service has. -/
structure Transports (s : Service σ) (t : Connection σ) : Prop where
  broker : t.broker = s.broker
  isOpen : t.isOpen = s.isOpen
  read : List.Forall₂ (fun frame answer => Answer.ReadFrom answer frame) t.written s.answers

theorem Transports.step (texts : Unsupported (wireSchema P)) {s s' : Service σ} {label : ServiceLabel σ} {t : Connection σ}
    (hstep : ServiceStep handlers s label s') (h : Transports s t) (hcall : ∀ call, label = .call call → call.Sendable)
    (hanswers : ∀ answer ∈ s'.answers, answer.Sendable) :
    ∃ o t', Connection.step texts handlers t label.onWire = some (o, t') ∧ Transports s' t' := by
  cases hstep with
  | call sent opened =>
    have hone := handleOne_call texts handlers (hcall sent rfl) t
    rw [h.broker] at hone
    refine ⟨_, _, step_receive texts handlers (h.isOpen.trans opened) sent.frame, ?_⟩
    rw [hone]
    cases hsilent : sent.api.silent sent.request with
    | true => exact ⟨rfl, opened.symm, by simpa [hsilent] using h.read⟩
    | false =>
      have hanswer : (Answer.mk sent (sent.serve handlers s.broker).1).Sendable := hanswers _ (by simp [hsilent])
      refine ⟨rfl, opened.symm, ?_⟩
      simpa [hsilent, writeResponse] using List.rel_append h.read (.cons (Answer.readFrom_encodeResponse P hanswer) .nil)
  | finish opened => exact ⟨_, _, if_pos (h.isOpen.trans opened), h.broker, rfl, h.read⟩
  | shutdown opened => exact ⟨_, _, if_pos (h.isOpen.trans opened), h.broker, rfl, h.read⟩
  | change broker => exact ⟨_, _, rfl, rfl, h.isOpen, h.read⟩

end

end MemKafka
