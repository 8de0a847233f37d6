import MemKafka.Lib.Machine
import MemKafka.Routing

/-!
# One connection (`kafka/connection.rs`)

`serve` handles one frame after the other. Each step says what became of one frame (`Handles`): it is rejected and ends
the connection, is handled without a response, or gets the response of its own fixed bytes. So the responses written
are those expected of the frames received, in their order (`responses_correspond`).
-/

namespace MemKafka
open Kit

inductive ConnectionError where
  | decode (error : RequestDecodeError)
  | route (error : RouteError)
  | dispatch (error : DispatchError)
deriving DecidableEq, Repr

/-- A connection, with the state of the broker and the frames written so far. -/
structure Connection (σ : Type) where
  broker : σ
  isOpen : Bool
  written : List Bytes

inductive ConnectionLabel (σ : Type) where
  /-- `read_frame` returns a frame, or the end of the stream -/
  | receive (frame : Option Bytes)
  | shutdown
  /-- the broker is changed by others -/
  | change (broker : σ)

section
variable {P : Schema} {σ : Type}

def writeResponse (s : Connection σ) (envelope : ResponseEnvelope P) : Connection σ :=
  { s with written := s.written ++ [encodeResponse envelope] }

/-- `handle_one`, once a frame has been read. -/
def handleOne (texts : Unsupported P) (handlers : Handlers P σ) (frame : Option Bytes) (s : Connection σ) :
    Except ConnectionError Bool × Connection σ :=
  match frame with
  | none => (.ok false, s)
  | some frame =>
    match decodeFrame P frame with
    | .error error => (.error (.decode error), s)
    | .ok decoded =>
      match route texts decoded with
      | .error error => (.error (.route error), s)
      | .ok (.dispatch request) =>
        let expectsResponse := request.expectsResponse
        match dispatch handlers request s.broker with
        | (.error error, broker) => (.error (.dispatch error), { s with broker := broker })
        | (.ok body, broker) =>
          let s := { s with broker := broker }
          let envelope : ResponseEnvelope P :=
            ⟨request.apiKey, request.header.requestApiVersion, request.header.correlationId, body⟩
          if ¬ expectsResponse then (.ok true, s) else (.ok true, writeResponse s envelope)
      | .ok (.respond envelope) => (.ok true, writeResponse s envelope)
      | .ok .noResponse => (.ok true, s)

/-- Whether `serve` goes on. -/
def goesOn (handled : Except ConnectionError Bool) : Bool :=
  match handled with
  | .ok handled => handled
  | .error _ => false

variable (texts : Unsupported P) (handlers : Handlers P σ)

/-- The loop of `serve`, which ends with the first frame that is not handled or at a shutdown. -/
def Connection.step (s : Connection σ) : ConnectionLabel σ → Option (Option (Except ConnectionError Bool) × Connection σ)
  | .receive frame =>
    if s.isOpen then
      let (handled, s) := handleOne texts handlers frame s
      some (some handled, { s with isOpen := goesOn handled })
    else none
  | .shutdown => if s.isOpen then some (none, { s with isOpen := false }) else none
  | .change broker => some (none, { s with broker := broker })

def connection (broker : σ) : Machine (Connection σ) (ConnectionLabel σ) (Option (Except ConnectionError Bool)) where
  init := ⟨broker, true, []⟩
  step := Connection.step texts handlers

abbrev ConnectionEvent (σ : Type) := Event (Connection σ) (ConnectionLabel σ) (Option (Except ConnectionError Bool))

end

/-! ### What is expected of a frame -/

section
variable {P : Schema} {σ : Type}

/-- Whether neither `decode_frame` nor `route` rejects a frame. -/
def accepts (texts : Unsupported P) (frame : Bytes) : Bool :=
  match decodeFrame P frame with
  | .error _ => false
  | .ok decoded =>
    match route texts decoded with
    | .error _ => false
    | .ok _ => true

/-- Whether a frame is a produce request with `acks = 0`. -/
def acksZero (P : Schema) (frame : Bytes) : Bool :=
  match decodeFrame P frame with
  | .ok (.request request) => (request.body.as .produce).any (P.acks · = 0)
  | _ => false

/-- The API, the version and the correlation id of a response. -/
def ResponseEnvelope.head (envelope : ResponseEnvelope P) : RequestPrefix :=
  ⟨envelope.apiKey.code, envelope.encodingVersion, envelope.correlationId⟩

/-- Those of the response to a request, by its fixed bytes. -/
def answerTo (head : RequestPrefix) : RequestPrefix :=
  if head.rawApiKey = ApiKey.apiVersions.code ∧ ¬ ApiKey.apiVersions.validVersions.contains head.apiVersion then
    { head with apiVersion := 0 }
  else head

def expected (P : Schema) (frame : Bytes) : Option RequestPrefix :=
  if acksZero P frame then none else some (answerTo (requestPrefix frame))

/-- Whether the API and the version that a frame names are served. -/
def InWindow (frame : Bytes) : Prop :=
  ∃ apiKey, ApiKey.tryFrom (requestPrefix frame).rawApiKey = some apiKey ∧ Advertised apiKey (requestPrefix frame).apiVersion

/-- The frames that were received, in order. -/
def received (tr : List (ConnectionEvent σ)) : List Bytes :=
  tr.filterMap fun e =>
    match e.label with
    | .receive frame => frame
    | _ => none

variable {texts : Unsupported P} {handlers : Handlers P σ} {frame : Bytes}

theorem acksZero_of_request {request : DecodedRequest P} (h : decodeFrame P frame = .ok (.request request)) :
    acksZero P frame = !request.expectsResponse := by
  simp only [acksZero, h, DecodedRequest.expectsResponse]
  cases request.body.as .produce <;> simp

/-- What becomes of a frame. -/
inductive Handles (texts : Unsupported P) (frame : Bytes) (s : Connection σ) :
    Except ConnectionError Bool → Connection σ → Prop
  | rejected (error : ConnectionError) (rejects : accepts texts frame = false)
      (not_dispatch : ∀ e, error ≠ .dispatch e) : Handles texts frame s (.error error) s
  | silent (broker : σ) (accepted : accepts texts frame = true) (unanswered : expected P frame = none)
      (kept : ¬ InWindow frame → broker = s.broker) : Handles texts frame s (.ok true) { s with broker := broker }
  | answered (broker : σ) (envelope : ResponseEnvelope P) (accepted : accepts texts frame = true)
      (answer : expected P frame = some envelope.head) (variant : envelope.body.key = envelope.apiKey)
      (kept : ¬ InWindow frame → broker = s.broker) :
      Handles texts frame s (.ok true) (writeResponse { s with broker := broker } envelope)

/-- A request asks for a response with the fields of its own header. -/
theorem Decoded.answerTo {request : DecodedRequest P} (h : Decoded P frame (.request request)) :
    answerTo (requestPrefix frame) =
      ⟨request.apiKey.code, request.header.requestApiVersion, request.header.correlationId⟩ := by
  cases h with
  | request _ key inSchema variant version correlation =>
    have hcode := ApiKey.code_of_tryFrom key
    rw [MemKafka.answerTo, if_neg, version, correlation, hcode]
    rintro ⟨hraw, houtside⟩
    have hapi : request.apiKey = .apiVersions := ApiKey.code_injective (hcode.trans hraw)
    exact houtside (hapi ▸ inSchema)

theorem Decoded.inWindow {request : DecodedRequest P} (h : Decoded P frame (.request request))
    (hadvertised : Advertised request.apiKey request.header.requestApiVersion) : InWindow frame := by
  cases h with
  | request _ key inSchema variant version correlation => exact ⟨request.apiKey, key, version ▸ hadvertised⟩

theorem Decoded.variant {request : DecodedRequest P} (h : Decoded P frame (.request request)) :
    request.body.key = request.apiKey := by
  cases h with
  | request _ key inSchema variant version correlation => exact variant

theorem expected_of_request {request : DecodedRequest P} (hdecode : decodeFrame P frame = .ok (.request request)) :
    expected P frame = if request.expectsResponse then
      some ⟨request.apiKey.code, request.header.requestApiVersion, request.header.correlationId⟩ else none := by
  rw [expected, acksZero_of_request hdecode, (decodeFrame_decoded hdecode).answerTo]
  cases request.expectsResponse <;> rfl

theorem handleOne_request (texts : Unsupported P) (handlers : Handlers P σ) (s : Connection σ)
    {request : DecodedRequest P} (hdecode : decodeFrame P frame = .ok (.request request)) :
    Handles texts frame s (handleOne texts handlers (some frame) s).1 (handleOne texts handlers (some frame) s).2 := by
  have hdecoded := decodeFrame_decoded hdecode
  have hexpected := expected_of_request hdecode
  have hrouted := route_routed texts hdecoded.variant
  simp only [handleOne, hdecode]
  cases hroute : route texts (.request request) with
  | error error => exact .rejected _ (by simp only [accepts, hdecode, hroute]) (by rintro e ⟨⟩)
  | ok routed =>
    have haccepts : accepts texts frame = true := by simp only [accepts, hdecode, hroute]
    rw [hroute] at hrouted
    cases hrouted with
    | dispatch advertised =>
      have hvariant : (SupportedRequest.mk request advertised).body.key = request.apiKey := hdecoded.variant
      obtain ⟨body, hbody, hkey⟩ := dispatch_ok handlers hvariant s.broker
      have hwindow := hdecoded.inWindow advertised
      dsimp only
      rw [show dispatch handlers ⟨request, advertised⟩ s.broker = (.ok body, _) from Prod.ext hbody rfl]
      dsimp only
      by_cases hexpects : request.expectsResponse = true
      · rw [if_neg (not_not.2 hexpects)]
        rw [if_pos hexpects] at hexpected
        exact .answered _ _ haccepts hexpected hkey fun h => absurd hwindow h
      · rw [if_pos hexpects]
        rw [if_neg hexpects] at hexpected
        exact .silent _ haccepts hexpected fun h => absurd hwindow h
    | noResponse outside silent =>
      rw [silent] at hexpected
      exact .silent s.broker haccepts hexpected fun _ => rfl
    | respond body variant outside expects =>
      rw [expects] at hexpected
      exact .answered s.broker _ haccepts hexpected variant fun _ => rfl

theorem handleOne_handles (texts : Unsupported P) (handlers : Handlers P σ) (frame : Bytes) (s : Connection σ) :
    Handles texts frame s (handleOne texts handlers (some frame) s).1 (handleOne texts handlers (some frame) s).2 := by
  match hdecode : decodeFrame P frame with
  | .error error =>
    simp only [handleOne, hdecode]
    exact .rejected _ (by simp only [accepts, hdecode]) (by rintro e ⟨⟩)
  | .ok (.request request) => exact handleOne_request texts handlers s hdecode
  | .ok (.unsupportedApiVersions header version) =>
    have hroute : route texts (.unsupportedApiVersions header version) =
      .ok (.respond ⟨.apiVersions, 0, header.correlationId, unsupportedApiVersions texts⟩) := rfl
    simp only [handleOne, hdecode, hroute]
    cases decodeFrame_decoded hdecode with
    | unsupportedApiVersions _ key outside correlation =>
      have hcode := ApiKey.code_of_tryFrom key
      refine .answered s.broker _ (by simp only [accepts, hdecode, hroute]) ?_ rfl fun _ => rfl
      rw [expected, if_neg (by simp [acksZero, hdecode]), answerTo, if_pos ⟨hcode.symm, outside⟩]
      simp only [ResponseEnvelope.head, correlation, hcode]

/-! ### Runs -/

theorem received_append (tr tr' : List (ConnectionEvent σ)) : received (tr ++ tr') = received tr ++ received tr' :=
  List.filterMap_append ..

theorem received_frame {e : ConnectionEvent σ} (h : e.label = .receive (some frame)) : received [e] = [frame] := by
  simp [received, h]

theorem received_other {e : ConnectionEvent σ} (h : ∀ frame, e.label ≠ .receive (some frame)) : received [e] = [] := by
  match hlabel : e.label with
  | .receive (some frame) => exact absurd hlabel (h frame)
  | .receive none => simp [received, hlabel]
  | .shutdown => simp [received, hlabel]
  | .change broker => simp [received, hlabel]

variable {broker : σ} {tr : List (ConnectionEvent σ)} {s s' : Connection σ}

/-- A step handles a frame that it receives, and otherwise writes nothing. -/
inductive ConnectionStep (texts : Unsupported P) (e : ConnectionEvent σ) : Prop
  | frame (frame : Bytes) (handled : Except ConnectionError Bool) (s : Connection σ) (label : e.label = .receive (some frame))
      (opened : e.pre.isOpen = true) (handles : Handles texts frame e.pre handled s) (out : e.out = some handled)
      (post : e.post = { s with isOpen := goesOn handled }) : ConnectionStep texts e
  | other (label : ∀ frame, e.label ≠ .receive (some frame)) (out : ∀ error, e.out ≠ some (.error error))
      (written : e.post.written = e.pre.written) (closed : e.pre.isOpen = false → e.post.isOpen = false) :
      ConnectionStep texts e

theorem connectionStep {e : ConnectionEvent σ} (he : (connection texts handlers broker).Takes e) :
    ConnectionStep texts e := by
  have h : Connection.step texts handlers e.pre e.label = some (e.out, e.post) := he
  match hlabel : e.label with
  | .receive frame =>
    simp only [hlabel, Connection.step] at h
    split at h
    · rename_i hopen
      obtain ⟨hout, hpost⟩ := Prod.mk.inj (Option.some.inj h)
      match frame with
      | some frame => exact .frame frame _ _ hlabel hopen (handleOne_handles texts handlers frame e.pre) hout.symm hpost.symm
      | none =>
        refine .other (by simp [hlabel]) ?_ (by rw [← hpost]; rfl) (by simp [hopen])
        rw [← hout]
        rintro error ⟨⟩
    · cases h
  | .shutdown =>
    simp only [hlabel, Connection.step] at h
    split at h
    · obtain ⟨hout, hpost⟩ := Prod.mk.inj (Option.some.inj h)
      refine .other (by simp [hlabel]) ?_ (by rw [← hpost]) (by rw [← hpost]; exact fun _ => rfl)
      rw [← hout]
      rintro error ⟨⟩
    · cases h
  | .change broker' =>
    simp only [hlabel, Connection.step] at h
    obtain ⟨hout, hpost⟩ := Prod.mk.inj (Option.some.inj h)
    refine .other (by simp [hlabel]) ?_ (by rw [← hpost]) (by rw [← hpost]; exact id)
    rw [← hout]
    rintro error ⟨⟩

/-- What becomes of a frame that is received. -/
theorem ConnectionStep.of_frame {e : ConnectionEvent σ} (h : ConnectionStep texts e)
    (hlabel : e.label = .receive (some frame)) : ∃ handled s, Handles texts frame e.pre handled s ∧
      e.out = some handled ∧ e.post = { s with isOpen := goesOn handled } := by
  cases h with
  | frame frame' handled s label opened handles out post =>
    obtain rfl : frame = frame' := by simpa using hlabel.symm.trans label
    exact ⟨handled, s, handles, out, post⟩
  | other label out written closed => exact absurd hlabel (label frame)

/-- A step writes the responses that are expected of what it receives. -/
theorem ConnectionStep.writes {e : ConnectionEvent σ} (h : ConnectionStep texts e) : ∃ envelopes : List (ResponseEnvelope P),
    e.post.written = e.pre.written ++ envelopes.map encodeResponse ∧
      envelopes.map (·.head) = ((received [e]).filter (accepts texts)).filterMap (expected P) ∧
      ∀ envelope ∈ envelopes, envelope.body.key = envelope.apiKey := by
  cases h with
  | frame frame handled s' label opened handles out post =>
    rw [received_frame label, post]
    cases handles with
    | rejected error rejects not_dispatch => exact ⟨[], by simp, by simp [rejects], by simp⟩
    | silent broker accepted unanswered kept => exact ⟨[], by simp, by simp [accepted, unanswered], by simp⟩
    | answered broker envelope accepted answer variant kept => exact ⟨[envelope], rfl, by simp [accepted, answer], by simpa using variant⟩
  | other label out written closed =>
    exact ⟨[], by simp [written], by simp [received_other label], by simp⟩

/-- The frames written by a run are the responses expected of those it received. -/
theorem connection_written (h : (connection texts handlers broker).Run tr s) : ∃ envelopes : List (ResponseEnvelope P),
    s.written = envelopes.map encodeResponse ∧
      envelopes.map (·.head) = ((received tr).filter (accepts texts)).filterMap (expected P) ∧
      ∀ envelope ∈ envelopes, envelope.body.key = envelope.apiKey := by
  refine Machine.Run.induction (M := connection texts handlers broker) (P := fun tr s =>
    ∃ envelopes : List (ResponseEnvelope P), s.written = envelopes.map encodeResponse ∧
      envelopes.map (·.head) = ((received tr).filter (accepts texts)).filterMap (expected P) ∧
      ∀ envelope ∈ envelopes, envelope.body.key = envelope.apiKey) ⟨[], rfl, rfl, by simp⟩ ?_ h
  rintro tr e - ⟨envelopes, hwritten, hheads, hvariants⟩ he
  obtain ⟨envelopes', hwritten', hheads', hvariants'⟩ := (connectionStep he).writes
  refine ⟨envelopes ++ envelopes', ?_, ?_, ?_⟩
  · rw [hwritten', hwritten, List.map_append]
  · rw [List.map_append, hheads, hheads', received_append, List.filter_append, List.filterMap_append]
  · exact fun envelope hmem => (List.mem_append.1 hmem).elim (hvariants envelope) (hvariants' envelope)

/-- A closed connection stays as it is. -/
theorem connection_closed (h : (connection texts handlers broker).Path s tr s') (hclosed : s.isOpen = false) :
    received tr = [] ∧ s'.written = s.written := by
  have hpath := Machine.Path.induction (M := connection texts handlers broker) (P := fun tr s' =>
    s'.isOpen = false ∧ received tr = [] ∧ s'.written = s.written) ⟨hclosed, rfl, rfl⟩ ?_ h
  · exact hpath.2
  rintro tr e - ⟨hopen, hreceived, hwritten⟩ he
  cases connectionStep he with
  | frame frame handled s' label opened handles out post => exact absurd opened (by simp [hopen])
  | other label out written closed =>
    exact ⟨closed hopen, by rw [received_append, hreceived, received_other label, List.nil_append], written.trans hwritten⟩

/-- A rejected frame closes the connection and does nothing else. -/
theorem ConnectionStep.of_rejected {e : ConnectionEvent σ} (h : ConnectionStep texts e)
    (hlabel : e.label = .receive (some frame)) (hrejects : accepts texts frame = false) :
    e.post = { e.pre with isOpen := false } ∧ e.post.isOpen = false := by
  obtain ⟨handled, s, handles, -, post⟩ := h.of_frame hlabel
  rw [post]
  cases handles with
  | rejected error rejects not_dispatch => exact ⟨rfl, rfl⟩
  | silent broker accepted unanswered kept => exact absurd accepted (by simp [hrejects])
  | answered broker envelope accepted answer variant kept => exact absurd accepted (by simp [hrejects])

theorem ConnectionStep.keeps {e : ConnectionEvent σ} (h : ConnectionStep texts e)
    (hlabel : e.label = .receive (some frame)) (hwindow : ¬ InWindow frame) : e.post.broker = e.pre.broker := by
  obtain ⟨handled, s, handles, -, post⟩ := h.of_frame hlabel
  rw [post]
  cases handles with
  | rejected error rejects not_dispatch => rfl
  | silent broker accepted unanswered kept => exact kept hwindow
  | answered broker envelope accepted answer variant kept => exact kept hwindow

theorem ConnectionStep.dispatches {e : ConnectionEvent σ} (h : ConnectionStep texts e) (error : DispatchError) :
    e.out ≠ some (.error (.dispatch error)) := by
  intro hout
  cases h with
  | frame frame handled s label opened handles out post =>
    rw [out] at hout
    cases handles with
    | rejected error' rejects not_dispatch => exact not_dispatch error (by simpa using hout)
    | silent broker accepted unanswered kept => cases hout
    | answered broker envelope accepted answer variant kept => cases hout
  | other label out written closed => exact out _ hout

theorem not_dispatched {decoded : DecodedFrame P} (hdecode : decodeFrame P frame = .ok decoded)
    (hwindow : ¬ InWindow frame) (request : SupportedRequest P) : route texts decoded ≠ .ok (.dispatch request) := by
  intro hroute
  have hdecoded := decodeFrame_decoded hdecode
  match decoded with
  | .unsupportedApiVersions header version => cases hroute
  | .request decoded =>
    have hrouted := route_routed texts hdecoded.variant
    rw [hroute] at hrouted
    cases hrouted with
    | dispatch advertised => exact hwindow (hdecoded.inWindow advertised)

end

/-- Requests and responses of one connection, for any broker. Up to the frame that is rejected, which is the last one
received, every request has its response, in order and with its API, version and correlation id, except those that want
none. A request outside the window of its API is not dispatched and does not change the broker, and no dispatch fails. -/
theorem responses_correspond {P : Schema} {σ : Type} (texts : Unsupported P) (handlers : Handlers P σ) (broker : σ)
    {tr : List (ConnectionEvent σ)} {s : Connection σ} (hrun : (connection texts handlers broker).Run tr s) :
    (∃ envelopes : List (ResponseEnvelope P), s.written = envelopes.map encodeResponse ∧
      envelopes.map (·.head) = ((received tr).filter (accepts texts)).filterMap (expected P) ∧
      ∀ envelope ∈ envelopes, envelope.body.key = envelope.apiKey) ∧
    (∀ tr₁ e tr₂ frame, tr = tr₁ ++ e :: tr₂ → e.label = .receive (some frame) → accepts texts frame = false →
      received tr₂ = [] ∧ s.written = e.pre.written ∧ e.post.broker = e.pre.broker) ∧
    (∀ e ∈ tr, ∀ frame, e.label = .receive (some frame) → ¬ InWindow frame →
      e.post.broker = e.pre.broker ∧ ∀ decoded, decodeFrame P frame = .ok decoded →
        ∀ request, route texts decoded ≠ .ok (.dispatch request)) ∧
    ∀ e ∈ tr, ∀ error, e.out ≠ some (.error (.dispatch error)) := by
  refine ⟨connection_written hrun, ?_, fun e he frame hlabel hwindow => ⟨?_, ?_⟩, fun e he => ?_⟩
  · rintro tr₁ e tr₂ frame rfl hlabel hrejects
    obtain ⟨-, he, hrest⟩ := Machine.Path.split hrun
    obtain ⟨hpost, hclosed⟩ := (connectionStep he).of_rejected hlabel hrejects
    obtain ⟨hreceived, hwritten⟩ := connection_closed hrest hclosed
    exact ⟨hreceived, by rw [hwritten, hpost], by rw [hpost]⟩
  · exact (connectionStep (hrun.2 e he)).keeps hlabel hwindow
  · exact fun decoded hdecode request => not_dispatched hdecode hwindow request
  · exact (connectionStep (hrun.2 e he)).dispatches

/-! ### Three frames -/

/-- A schema with produce requests without topics, and the response to `ApiVersions` in its version 0. -/
def sampleSchema : Schema where
  Request
    | .produce => Int
    | _ => Unit
  Response _ := Unit
  decodeRequest
    | .produce => fun _ buf => do
      let (_transactionalId, buf) ← decodeString buf
      let (acks, buf) ← tryGet 2 buf
      let (_timeoutMs, buf) ← tryGet 4 buf
      let (topics, buf) ← tryGet 4 buf
      if beInt topics = 0 then some (beInt acks, buf) else none
    | _ => fun _ _ => none
  encodeBody key _ _ := if key = .apiVersions then [0, 35, 0, 0, 0, 1, 0, 18, 0, 0, 0, 4] else []
  acks acks := acks

def sampleTexts : Unsupported sampleSchema :=
  ⟨fun _ _ => (), fun _ => (), fun _ => (), fun _ => (), fun _ => (), fun _ _ => (), fun _ _ => (), (), (), (), (),
    fun _ => (), (), (), fun _ => (), (), fun _ => (), (), fun _ => ()⟩

def sampleHandlers : Handlers sampleSchema Nat :=
  ⟨(), fun _ _ n => ((), n), fun _ n => ((), n), fun _ n => ((), n + 1), fun _ n => ((), n), fun _ n => ((), n),
    fun _ n => ((), n), fun _ _ _ n => ((), n), fun _ n => ((), n), fun _ n => ((), n), fun _ _ n => ((), n),
    fun _ n => ((), n), fun _ n => ((), n), fun n => ((), n), fun _ n => ((), n), fun _ n => ((), n),
    fun _ n => ((), n), fun _ n => ((), n), fun _ n => ((), n)⟩

def silentProduce : Bytes := [0, 0, 0, 7, 0, 0, 0, 1, 255, 255, 255, 255, 0, 0, 0, 0, 117, 48, 0, 0, 0, 0]
def newerApiVersions : Bytes := [0, 18, 0, 9, 0, 0, 0, 2, 255, 255, 0]
def unknownApi : Bytes := [127, 255, 0, 0, 0, 0, 0, 3]

/-- A produce request without acknowledgements is handled, an `ApiVersions` request from outside the schema is answered in
version 0, and an unknown API ends the connection. -/
theorem responses_correspond_pipelined : ∃ tr s, (connection sampleTexts sampleHandlers 0).exec ⟨0, true, []⟩
    [.receive (some silentProduce), .receive (some newerApiVersions), .receive (some unknownApi)] = some (tr, s) ∧
    s.broker = 1 ∧ ∃ envelope : ResponseEnvelope sampleSchema,
      s.written = [encodeResponse envelope] ∧ envelope.head = ⟨18, 0, 2⟩ := by
  have hout : (((connection sampleTexts sampleHandlers 0).exec ⟨0, true, []⟩
      [.receive (some silentProduce), .receive (some newerApiVersions), .receive (some unknownApi)]).map fun r =>
        (received r.1, r.2.broker)) = some ([silentProduce, newerApiVersions, unknownApi], 1) := by decide +kernel
  have hexpected : (([silentProduce, newerApiVersions, unknownApi].filter (accepts sampleTexts)).filterMap
      (expected sampleSchema)) = [⟨18, 0, 2⟩] := by decide +kernel
  simp only [Option.map_eq_some_iff, Prod.mk.injEq, Prod.exists] at hout
  obtain ⟨tr, s, hx, hreceived, hbroker⟩ := hout
  obtain ⟨⟨envelopes, hwritten, hheads, -⟩, -⟩ :=
    responses_correspond sampleTexts sampleHandlers 0 (Machine.exec_path hx).1
  rw [hreceived, hexpected] at hheads
  obtain ⟨envelope, rfl, hhead⟩ := List.map_eq_singleton_iff.1 hheads
  exact ⟨tr, s, hx, hbroker, envelope, hwritten, hhead⟩

end MemKafka
