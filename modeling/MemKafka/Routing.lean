import MemKafka.Codec

/-!
# Routing and dispatching requests (`kafka/request_router.rs`, `kafka/dispatcher.rs`)

A request whose version is in the window of its API's capability is dispatched to the handler of its API. Outside of it
a response says so, except to a produce request that expects none; and an API without a capability ends the connection.
The handlers may do anything, over any state of the broker, and the texts of the error responses are left open: both
are parameters.
-/

namespace MemKafka
open Kit

/-! ### `kafka/capabilities.rs` -/

structure ApiCapability where
  apiKey : ApiKey
  supported : VersionRange
deriving DecidableEq, Repr

def capabilities : List ApiCapability :=
  [⟨.produce, ⟨7, 7⟩⟩, ⟨.fetch, ⟨4, 4⟩⟩, ⟨.listOffsets, ⟨3, 3⟩⟩, ⟨.metadata, ⟨4, 13⟩⟩, ⟨.offsetCommit, ⟨7, 7⟩⟩,
   ⟨.offsetFetch, ⟨5, 5⟩⟩, ⟨.findCoordinator, ⟨2, 2⟩⟩, ⟨.joinGroup, ⟨5, 5⟩⟩, ⟨.heartbeat, ⟨3, 3⟩⟩, ⟨.leaveGroup, ⟨1, 3⟩⟩,
   ⟨.syncGroup, ⟨3, 3⟩⟩, ⟨.describeGroups, ⟨0, 0⟩⟩, ⟨.listGroups, ⟨0, 0⟩⟩, ⟨.apiVersions, ⟨3, 4⟩⟩, ⟨.createTopics, ⟨4, 7⟩⟩,
   ⟨.initProducerId, ⟨0, 0⟩⟩, ⟨.describeConfigs, ⟨1, 1⟩⟩, ⟨.describeCluster, ⟨2, 2⟩⟩, ⟨.describeTopicPartitions, ⟨0, 0⟩⟩]

/-- What the binary search in `capability` relies on. -/
theorem pairwise_capabilities : capabilities.Pairwise fun a b => a.apiKey.code < b.apiKey.code := by decide

def capability (apiKey : ApiKey) : Option ApiCapability := capabilities.find? (·.apiKey.code = apiKey.code)

/-- Whether a version of an API is served. -/
def Advertised (apiKey : ApiKey) (version : Int) : Prop :=
  ∃ window, capability apiKey = some window ∧ window.supported.contains version

/-- A request within its window: there is no other way to get one. -/
structure SupportedRequest (P : Schema) extends DecodedRequest P where
  advertised : Advertised apiKey header.requestApiVersion

/-! ### `kafka/error_response.rs` -/

inductive ErrorResponseError where
  | bodyMismatch (apiKey : ApiKey)
deriving DecidableEq, Repr

/-- The bodies that report an unsupported version. -/
structure Unsupported (P : Schema) where
  produce : P.Request .produce → (version : Int) → P.Response .produce
  fetch : P.Request .fetch → P.Response .fetch
  listOffsets : P.Request .listOffsets → P.Response .listOffsets
  metadata : P.Request .metadata → P.Response .metadata
  offsetCommit : P.Request .offsetCommit → P.Response .offsetCommit
  offsetFetch : P.Request .offsetFetch → (version : Int) → P.Response .offsetFetch
  findCoordinator : P.Request .findCoordinator → (version : Int) → P.Response .findCoordinator
  joinGroup : P.Response .joinGroup
  heartbeat : P.Response .heartbeat
  leaveGroup : P.Response .leaveGroup
  syncGroup : P.Response .syncGroup
  describeGroups : P.Request .describeGroups → P.Response .describeGroups
  listGroups : P.Response .listGroups
  apiVersions : P.Response .apiVersions
  createTopics : P.Request .createTopics → P.Response .createTopics
  initProducerId : P.Response .initProducerId
  describeConfigs : P.Request .describeConfigs → P.Response .describeConfigs
  describeCluster : P.Response .describeCluster
  describeTopicPartitions : P.Request .describeTopicPartitions → P.Response .describeTopicPartitions

section
variable {P : Schema}

/-- The arm for the API `key` and its variant. -/
def DecodedRequest.unsupported (request : DecodedRequest P) (key : ApiKey) (body : P.Request key → P.Response key) :
    Except ErrorResponseError (ResponseKind P) :=
  match request.body.as key with
  | some request => .ok ⟨key, body request⟩
  | none => .error (.bodyMismatch request.apiKey)

def unsupportedVersion (texts : Unsupported P) (request : DecodedRequest P) : Except ErrorResponseError (ResponseKind P) :=
  let version := request.header.requestApiVersion
  match request.apiKey with
  | .produce => request.unsupported .produce (texts.produce · version)
  | .fetch => request.unsupported .fetch texts.fetch
  | .listOffsets => request.unsupported .listOffsets texts.listOffsets
  | .metadata => request.unsupported .metadata texts.metadata
  | .offsetCommit => request.unsupported .offsetCommit texts.offsetCommit
  | .offsetFetch => request.unsupported .offsetFetch (texts.offsetFetch · version)
  | .findCoordinator => request.unsupported .findCoordinator (texts.findCoordinator · version)
  | .joinGroup => request.unsupported .joinGroup fun _ => texts.joinGroup
  | .heartbeat => request.unsupported .heartbeat fun _ => texts.heartbeat
  | .leaveGroup => request.unsupported .leaveGroup fun _ => texts.leaveGroup
  | .syncGroup => request.unsupported .syncGroup fun _ => texts.syncGroup
  | .describeGroups => request.unsupported .describeGroups texts.describeGroups
  | .listGroups => request.unsupported .listGroups fun _ => texts.listGroups
  | .apiVersions => request.unsupported .apiVersions fun _ => texts.apiVersions
  | .createTopics => request.unsupported .createTopics texts.createTopics
  | .initProducerId => request.unsupported .initProducerId fun _ => texts.initProducerId
  | .describeConfigs => request.unsupported .describeConfigs texts.describeConfigs
  | .describeCluster => request.unsupported .describeCluster fun _ => texts.describeCluster
  | .describeTopicPartitions => request.unsupported .describeTopicPartitions texts.describeTopicPartitions
  | apiKey => .error (.bodyMismatch apiKey)

def unsupportedApiVersions (texts : Unsupported P) : ResponseKind P := ⟨.apiVersions, texts.apiVersions⟩

end

/-! ### `route` -/

inductive Route (P : Schema) where
  | dispatch (request : SupportedRequest P)
  | respond (envelope : ResponseEnvelope P)
  | noResponse

inductive RouteError where
  | unsupportedApi (apiKey : ApiKey) (version correlationId : Int)
  | errorResponse (error : ErrorResponseError)
deriving DecidableEq, Repr

section
variable {P : Schema} {σ : Type}

def route (texts : Unsupported P) : DecodedFrame P → Except RouteError (Route P)
  | .request request =>
    let version := request.header.requestApiVersion
    let correlationId := request.header.correlationId
    match hwindow : capability request.apiKey with
    | none => .error (.unsupportedApi request.apiKey version correlationId)
    | some window =>
      if h : window.supported.contains version then .ok (.dispatch ⟨request, window, hwindow, h⟩) else
      if request.apiKey = .produce ∧ ¬ request.expectsResponse then .ok .noResponse else
      match unsupportedVersion texts request with
      | .error error => .error (.errorResponse error)
      | .ok body => .ok (.respond ⟨request.apiKey, version, correlationId, body⟩)
  | .unsupportedApiVersions header _ =>
    .ok (.respond ⟨.apiVersions, 0, header.correlationId, unsupportedApiVersions texts⟩)

/-! ### `dispatch` -/

inductive DispatchError where
  | bodyMismatch (apiKey : ApiKey)
deriving DecidableEq, Repr

/-- The handlers of the APIs, with what each of them is given. A handler that does not return is a run that ends. -/
structure Handlers (P : Schema) (σ : Type) where
  apiVersions : P.Response .apiVersions
  metadata : P.Request .metadata → (version : Int) → σ → P.Response .metadata × σ
  createTopics : P.Request .createTopics → σ → P.Response .createTopics × σ
  produce : P.Request .produce → σ → P.Response .produce × σ
  listOffsets : P.Request .listOffsets → σ → P.Response .listOffsets × σ
  fetch : P.Request .fetch → σ → P.Response .fetch × σ
  findCoordinator : P.Request .findCoordinator → σ → P.Response .findCoordinator × σ
  joinGroup : P.Request .joinGroup → (version : Int) → (clientId : Option String) → σ → P.Response .joinGroup × σ
  syncGroup : P.Request .syncGroup → σ → P.Response .syncGroup × σ
  heartbeat : P.Request .heartbeat → σ → P.Response .heartbeat × σ
  leaveGroup : P.Request .leaveGroup → (version : Int) → σ → P.Response .leaveGroup × σ
  offsetCommit : P.Request .offsetCommit → σ → P.Response .offsetCommit × σ
  offsetFetch : P.Request .offsetFetch → σ → P.Response .offsetFetch × σ
  listGroups : σ → P.Response .listGroups × σ
  describeGroups : P.Request .describeGroups → σ → P.Response .describeGroups × σ
  initProducerId : P.Request .initProducerId → σ → P.Response .initProducerId × σ
  describeConfigs : P.Request .describeConfigs → σ → P.Response .describeConfigs × σ
  describeCluster : P.Request .describeCluster → σ → P.Response .describeCluster × σ
  describeTopicPartitions : P.Request .describeTopicPartitions → σ → P.Response .describeTopicPartitions × σ

/-- The arm for the API `key`. -/
def SupportedRequest.handle (request : SupportedRequest P) (key : ApiKey) (broker : σ)
    (response : P.Request key → σ → P.Response key × σ) : Except DispatchError (ResponseKind P) × σ :=
  match request.body.as key with
  | some body =>
    let (response, broker) := response body broker
    (.ok ⟨key, response⟩, broker)
  | none => (.error (.bodyMismatch request.apiKey), broker)

def dispatch (handlers : Handlers P σ) (request : SupportedRequest P) (broker : σ) :
    Except DispatchError (ResponseKind P) × σ :=
  let version := request.header.requestApiVersion
  match request.apiKey with
  | .apiVersions => request.handle .apiVersions broker fun _ broker => (handlers.apiVersions, broker)
  | .metadata => request.handle .metadata broker (handlers.metadata · version)
  | .createTopics => request.handle .createTopics broker handlers.createTopics
  | .produce => request.handle .produce broker handlers.produce
  | .listOffsets => request.handle .listOffsets broker handlers.listOffsets
  | .fetch => request.handle .fetch broker handlers.fetch
  | .findCoordinator => request.handle .findCoordinator broker handlers.findCoordinator
  | .joinGroup => request.handle .joinGroup broker (handlers.joinGroup · version request.header.clientId)
  | .syncGroup => request.handle .syncGroup broker handlers.syncGroup
  | .heartbeat => request.handle .heartbeat broker handlers.heartbeat
  | .leaveGroup => request.handle .leaveGroup broker (handlers.leaveGroup · version)
  | .offsetCommit => request.handle .offsetCommit broker handlers.offsetCommit
  | .offsetFetch => request.handle .offsetFetch broker handlers.offsetFetch
  | .listGroups => request.handle .listGroups broker fun _ => handlers.listGroups
  | .describeGroups => request.handle .describeGroups broker handlers.describeGroups
  | .initProducerId => request.handle .initProducerId broker handlers.initProducerId
  | .describeConfigs => request.handle .describeConfigs broker handlers.describeConfigs
  | .describeCluster => request.handle .describeCluster broker handlers.describeCluster
  | .describeTopicPartitions => request.handle .describeTopicPartitions broker handlers.describeTopicPartitions
  | apiKey => (.error (.bodyMismatch apiKey), broker)

end

/-! ### What becomes of a request -/

/-- An API has at most one window, whose entry is its own. -/
theorem mem_of_capability {apiKey : ApiKey} {window : ApiCapability} (h : capability apiKey = some window) :
    window ∈ capabilities ∧ window.apiKey = apiKey :=
  ⟨List.mem_of_find?_eq_some h, ApiKey.code_injective (by simpa using List.find?_some h)⟩

section
variable {P : Schema} {σ : Type} {texts : Unsupported P} {handlers : Handlers P σ}

theorem RequestKind.as_of_key {kind : RequestKind P} {key : ApiKey} (h : kind.key = key) :
    ∃ body, kind.as key = some body := ⟨_, dif_pos h⟩

/-- Only a produce request may expect no response. -/
theorem DecodedRequest.key_of_silent {request : DecodedRequest P} (h : request.expectsResponse = false) :
    request.body.key = .produce := by
  by_contra hne
  rw [expectsResponse, RequestKind.as, dif_neg hne] at h
  cases h

theorem DecodedRequest.unsupported_ok {request : DecodedRequest P} {key : ApiKey} (h : request.body.key = key)
    (body : P.Request key → P.Response key) : ∃ response, request.unsupported key body = .ok response ∧ response.key = key := by
  obtain ⟨message, hmessage⟩ := RequestKind.as_of_key h
  exact ⟨_, by rw [unsupported, hmessage], rfl⟩

theorem SupportedRequest.handle_ok {request : SupportedRequest P} {key : ApiKey} (h : request.body.key = key) (broker : σ)
    (response : P.Request key → σ → P.Response key × σ) :
    ∃ body, (request.handle key broker response).1 = .ok body ∧ body.key = key := by
  obtain ⟨message, hmessage⟩ := RequestKind.as_of_key h
  exact ⟨_, by rw [handle, hmessage], rfl⟩

/-- Every API with a capability has an arm in `unsupported_version`. -/
theorem unsupportedVersion_ok (texts : Unsupported P) {request : DecodedRequest P} {window : ApiCapability}
    (hwindow : capability request.apiKey = some window) (hvariant : request.body.key = request.apiKey) :
    ∃ body, unsupportedVersion texts request = .ok body ∧ body.key = request.apiKey := by
  have harms : ∀ window ∈ capabilities, window.apiKey = request.apiKey →
      ∃ body, unsupportedVersion texts request = .ok body ∧ body.key = request.apiKey := by
    simp only [capabilities, List.forall_mem_cons]
    and_intros
    all_goals first
      | intro hkey
        simp only [unsupportedVersion, ← hkey]
        exact DecodedRequest.unsupported_ok (hvariant.trans hkey.symm) _
      | simp
  exact harms window (mem_of_capability hwindow).1 (mem_of_capability hwindow).2

/-- Every API with a capability has an arm in `dispatch`. -/
theorem dispatch_ok (handlers : Handlers P σ) {request : SupportedRequest P} (hvariant : request.body.key = request.apiKey)
    (broker : σ) : ∃ body, (dispatch handlers request broker).1 = .ok body ∧ body.key = request.apiKey := by
  have harms : ∀ window ∈ capabilities, window.apiKey = request.apiKey →
      ∃ body, (dispatch handlers request broker).1 = .ok body ∧ body.key = request.apiKey := by
    simp only [capabilities, List.forall_mem_cons]
    and_intros
    all_goals first
      | intro hkey
        simp only [dispatch, ← hkey]
        exact SupportedRequest.handle_ok (hvariant.trans hkey.symm) broker _
      | simp
  obtain ⟨window, hwindow, -⟩ := request.advertised
  exact harms window (mem_of_capability hwindow).1 (mem_of_capability hwindow).2

/-- What `route` makes of a request with a body of its API. -/
inductive Routed (request : DecodedRequest P) : Except RouteError (Route P) → Prop
  | unsupportedApi (error : RouteError) (missing : capability request.apiKey = none) : Routed request (.error error)
  | dispatch (advertised : Advertised request.apiKey request.header.requestApiVersion) :
      Routed request (.ok (.dispatch ⟨request, advertised⟩))
  | noResponse (outside : ¬ Advertised request.apiKey request.header.requestApiVersion)
      (silent : request.expectsResponse = false) : Routed request (.ok .noResponse)
  | respond (body : ResponseKind P) (variant : body.key = request.apiKey) (outside : ¬ Advertised request.apiKey request.header.requestApiVersion)
      (expects : request.expectsResponse = true) :
      Routed request (.ok (.respond ⟨request.apiKey, request.header.requestApiVersion, request.header.correlationId, body⟩))

theorem route_routed (texts : Unsupported P) {request : DecodedRequest P} (hvariant : request.body.key = request.apiKey) :
    Routed request (route texts (.request request)) := by
  unfold route
  dsimp only
  split
  · exact .unsupportedApi _ ‹_›
  rename_i window hwindow
  split
  · exact .dispatch _
  rename_i hcontains
  have houtside : ¬ Advertised request.apiKey request.header.requestApiVersion := by
    rintro ⟨window', hwindow', hcontains'⟩
    obtain rfl : window = window' := Option.some.inj (hwindow.symm.trans hwindow')
    exact hcontains hcontains'
  by_cases hexpects : request.expectsResponse = true
  · rw [if_neg fun h => h.2 hexpects]
    obtain ⟨body, hbody, hkey⟩ := unsupportedVersion_ok texts hwindow hvariant
    simp only [hbody]
    exact .respond body hkey houtside hexpects
  · have hsilent : request.expectsResponse = false := by simpa using hexpects
    rw [if_pos ⟨hvariant.symm.trans (DecodedRequest.key_of_silent hsilent), hexpects⟩]
    exact .noResponse houtside hsilent

end

end MemKafka
