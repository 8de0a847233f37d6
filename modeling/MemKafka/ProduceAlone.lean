import MemKafka.ProduceFold

/-!
# A Produce call on its own

A call that nobody interrupts (`runProduce`). Its entries share the logs and the states of their producers, yet
what it leaves is told by its response alone: the record sets of the entries answered with code 0, appended
one after the other.
-/

namespace MemKafka
open Kit Outcome

/-! ### A call in progress -/

/-- The answers of a topic that are settled: an append has been made before its answer is pushed. -/
def PartitionPoint.answers (responses : List PartitionProduceResponse) : PartitionPoint → List PartitionProduceResponse
  | .notify response => responses ++ [response]
  | _ => responses

/-- The entries of a call that are stored. -/
def ProduceCall.accepted (call : ProduceCall) : List (String × PartitionProduceData) :=
  acceptedEntries call.request call.responses ++
    match call.request.topicData[call.responses.length]?, call.point with
    | some topic, .partitions _ responses point => acceptedOf topic (point.answers responses)
    | _, _ => []

/-- The shape of a request and of its answers. -/
def TopicProduceData.shape (topic : TopicProduceData) : String × List Int :=
  (topic.name, topic.partitionData.map (·.index))
def TopicProduceResponse.shape (answer : TopicProduceResponse) : String × List Int :=
  (answer.name, answer.partitionResponses.map (·.index))

/-- All entries so far are answered with this error. -/
def Refused (error : ResponseError) (responses : List TopicProduceResponse) : Prop :=
  ∀ topic ∈ responses, ∀ answer ∈ topic.partitionResponses, answer.errorCode = error.code

def ProducePoint.Refused (error : ResponseError) : ProducePoint → Prop
  | .topic => True
  | .createTopic => False
  | .partitions topicError responses point =>
    topicError = some error ∧ point = .lookup ∧ ∀ answer ∈ responses, answer.errorCode = error.code

/-- What a call that started in `start` and ran alone has done. -/
structure Alone (crc32c : Bytes → UInt32) (start : DataState) (state : DataState) (call : ProduceCall) : Prop where
  logs : state.topics.LogsInv crc32c
  ok : call.Ok crc32c state.topics
  producers : state.producers = start.producers
  grown : start.topics.Extends state.topics
  topics : Follows TopicProduceData.shape TopicProduceResponse.shape call.request.topicData call.responses
  answers : ∀ topic topicError responses point, call.request.topicData[call.responses.length]? = some topic →
    call.point = .partitions topicError responses point →
    Follows PartitionProduceData.index PartitionProduceResponse.index topic.partitionData (point.answers responses) ∧
      (topicError ≠ none → point = .lookup)
  folded : Folded crc32c start.topics.logs state.topics call.accepted
  refused : ∀ error, requestError call.request = some error →
    state = start ∧ Refused error call.responses ∧ call.point.Refused error

/-- What is left when it is done. -/
structure Done (crc32c : Bytes → UInt32) (start : DataState) (request : ProduceRequest) (state : DataState)
    (response : ProduceResponse) : Prop where
  producers : state.producers = start.producers
  grown : start.topics.Extends state.topics
  shape : response.responses.map TopicProduceResponse.shape = request.topicData.map TopicProduceData.shape
  folded : Folded crc32c start.topics.logs state.topics (acceptedEntries request response.responses)
  refused : ∀ error, requestError request = some error → state = start ∧ Refused error response.responses
  answered : ResponsesAnswered crc32c state.topics request response.responses

section
variable {crc32c : Bytes → UInt32} {config : BrokerConfig} {initial state state' : DataState} {call : ProduceCall}
  {draws : List Uuid} {topic : TopicProduceData}

theorem acceptedOf_snoc {responses : List PartitionProduceResponse} {entry : PartitionProduceData}
    {response : PartitionProduceResponse} (hentry : topic.partitionData[responses.length]? = some entry) :
    acceptedOf topic (responses ++ [response]) =
      acceptedOf topic responses ++ if response.errorCode = 0 then [(topic.name, entry)] else [] := by
  rw [acceptedOf, zip_snoc hentry, List.filter_append, List.map_append]
  by_cases h : response.errorCode = 0 <;> simp [h, acceptedOf]

theorem acceptedOf_error {responses : List PartitionProduceResponse} {entry : PartitionProduceData} {index : Int}
    (error : ResponseError) (hentry : topic.partitionData[responses.length]? = some entry) :
    acceptedOf topic (responses ++ [errorPartition index error]) = acceptedOf topic responses := by
  rw [acceptedOf_snoc hentry, if_neg (show (errorPartition index error).errorCode ≠ 0 from error.code_ne_zero),
    List.append_nil]

theorem acceptedEntries_snoc {request : ProduceRequest} {responses : List TopicProduceResponse}
    {response : TopicProduceResponse} (ht : request.topicData[responses.length]? = some topic) :
    acceptedEntries request (responses ++ [response]) =
      acceptedEntries request responses ++ acceptedOf topic response.partitionResponses := by
  rw [acceptedEntries, zip_snoc ht, List.flatMap_append]
  simp [acceptedEntries]

theorem ProduceCall.accepted_partitions (ht : call.request.topicData[call.responses.length]? = some topic)
    {topicError : Option ResponseError} {responses : List PartitionProduceResponse} {point : PartitionPoint}
    (hpt : call.point = .partitions topicError responses point) :
    call.accepted = acceptedEntries call.request call.responses ++ acceptedOf topic (point.answers responses) := by
  simp only [ProduceCall.accepted, ht, hpt]

theorem ProduceCall.accepted_at (ht : call.request.topicData[call.responses.length]? = some topic)
    (topicError : Option ResponseError) (responses : List PartitionProduceResponse) (point : PartitionPoint) :
    ({ call with point := .partitions topicError responses point } : ProduceCall).accepted =
      acceptedEntries call.request call.responses ++ acceptedOf topic (point.answers responses) := by
  simp only [ProduceCall.accepted, ht]

theorem ProduceCall.accepted_between (hpt : call.point = .topic ∨ call.point = .createTopic) :
    call.accepted = acceptedEntries call.request call.responses := by
  unfold ProduceCall.accepted
  split
  · rename_i hpt'
    rcases hpt with hpt | hpt <;> rw [hpt] at hpt' <;> cases hpt'
  · simp

theorem Alone.start (hlogs : state.topics.LogsInv crc32c) (request : ProduceRequest) :
    Alone crc32c state state (.start request) where
  logs := hlogs
  ok := .start request _
  producers := rfl
  grown := .refl _
  topics := .nil _
  answers topic topicError responses point _ hpt := by cases hpt
  folded := by
    have hnone : acceptedEntries request [] = [] := by simp [acceptedEntries]
    rw [ProduceCall.accepted_between (.inl rfl), ProduceCall.start, hnone]
    exact .refl _
  refused error _ := ⟨rfl, fun _ h => (by cases h), trivial⟩

/-- What a step of `produce_partition` adds to the settled answers. -/
structure AnswersStep (crc32c : Bytes → UInt32) (initial state state' : DataState) (topic : TopicProduceData)
    (before : List (String × PartitionProduceData)) (answers : List PartitionProduceResponse) : Prop where
  producers : state'.producers = state.producers
  folded : Folded crc32c initial.topics.logs state'.topics (before ++ acceptedOf topic answers)
  follows : Follows PartitionProduceData.index PartitionProduceResponse.index topic.partitionData answers

/-- The answers that are settled after a step. -/
def settledAnswers (responses : List PartitionProduceResponse) :
    PartitionPoint ⊕ PartitionProduceResponse → List PartitionProduceResponse
  | .inl point => point.answers responses
  | .inr response => responses ++ [response]

theorem PartitionMove.answers {entry : PartitionProduceData} {responses : List PartitionProduceResponse}
    {before : List (String × PartitionProduceData)} {point : PartitionPoint}
    {next : PartitionPoint ⊕ PartitionProduceResponse} (hinv : state.topics.LogsInv crc32c)
    (hp : point.Ok crc32c state.topics topic.name entry)
    (h : AnswersStep crc32c initial state state topic before (point.answers responses))
    (hentry : topic.partitionData[responses.length]? = some entry)
    (hmove : PartitionMove crc32c state topic.name entry point state' next) :
    AnswersStep crc32c initial state state' topic before (settledAnswers responses next) := by
  -- a successful append and its answer
  have success : ∀ {log records inner inner' result}, state.topics.logs[log]? = some inner →
      append crc32c inner records = some (.ok result, inner') →
      AnswersStep crc32c initial state state topic before responses →
      (PartitionPoint.append log records).Ok crc32c state.topics topic.name entry →
      AnswersStep crc32c initial state { state with topics := { state.topics with logs := state.topics.logs.set log inner' } }
        topic before (responses ++ [⟨entry.index, 0, result.baseOffset, -1, 0⟩]) := by
    rintro log records inner inner' result hinner happ h ⟨hlog, hrecords⟩
    refine ⟨rfl, ?_, h.follows.snoc hentry rfl⟩
    rw [acceptedOf_snoc hentry, if_pos rfl, ← List.append_assoc]
    exact h.folded.snoc hlog hrecords hinner happ
  have failure : ∀ error, AnswersStep crc32c initial state state topic before responses →
      AnswersStep crc32c initial state state topic before (responses ++ [errorPartition entry.index error]) := by
    intro error h
    refine ⟨rfl, ?_, h.follows.snoc hentry rfl⟩
    rw [acceptedOf_error error hentry]
    exact h.folded
  cases hmove with
  | refuse early error =>
    cases point with
    | notify response => exact absurd rfl (early response)
    | _ => exact failure error h
  | identify _ _ _ => exact h
  | pass _ _ _ => exact h
  | validate _ => exact h
  | reject hinner happ code =>
    rw [append_nothing hinv hinner happ (by simp)]
    exact failure code h
  | store hinner happ _ => exact success hinner happ h hp
  | replay hinner happ _ => exact success hinner happ h hp
  | notify response => exact ⟨rfl, h.folded, h.follows⟩

/-- A move that stays in a topic. -/
theorem Alone.stay (h : Alone crc32c initial state call) {point : ProducePoint}
    (hok : ProduceStepOk crc32c call.request state state' (.inl { call with point := point }))
    (hproducers : state'.producers = state.producers)
    (hanswers : ∀ topic topicError responses p, call.request.topicData[call.responses.length]? = some topic →
      point = .partitions topicError responses p →
      Follows PartitionProduceData.index PartitionProduceResponse.index topic.partitionData (p.answers responses) ∧
        (topicError ≠ none → p = .lookup))
    (hfolded : Folded crc32c initial.topics.logs state'.topics ({ call with point := point } : ProduceCall).accepted)
    (hrefused : ∀ error, requestError call.request = some error → state' = initial ∧ point.Refused error) :
    Alone crc32c initial state' { call with point := point } where
  logs := hok.logs
  ok := (hok.call _ rfl).2
  producers := hproducers.trans h.producers
  grown := h.grown.trans hok.grown
  topics := h.topics
  answers := hanswers
  folded := hfolded
  refused error herr := ⟨(hrefused error herr).1, (h.refused error herr).2.1, (hrefused error herr).2⟩

/-- The first entry of a topic is next, and nothing of it is answered yet. -/
theorem Alone.opens (h : Alone crc32c initial state call) {topicError : Option ResponseError}
    (ht : call.request.topicData[call.responses.length]? = some topic)
    (hpt : call.point = .topic ∨ call.point = .createTopic)
    (hok : ProduceStepOk crc32c call.request state state' (.inl { call with point := .partitions topicError [] .lookup }))
    (hproducers : state'.producers = state.producers)
    (hfolded : Folded crc32c initial.topics.logs state'.topics call.accepted)
    (hrefused : ∀ error, requestError call.request = some error → state' = initial ∧ topicError = some error) :
    Alone crc32c initial state' { call with point := .partitions topicError [] .lookup } := by
  refine h.stay hok hproducers ?_ ?_ ?_
  · rintro _ _ _ _ _ ⟨⟩
    exact ⟨.nil _, fun _ => rfl⟩
  · rw [ProduceCall.accepted_between hpt] at hfolded
    rw [ProduceCall.accepted_at ht]
    simpa [acceptedOf, PartitionPoint.answers] using hfolded
  · intro error herr
    obtain ⟨hstate, heq⟩ := hrefused error herr
    exact ⟨hstate, heq, rfl, by simp⟩

/-- The topic has to be created first. -/
theorem Alone.misses (h : Alone crc32c initial state call) (hpt : call.point = .topic)
    (hvalid : requestError call.request = none)
    (hok : ProduceStepOk crc32c call.request state state (.inl { call with point := .createTopic })) :
    Alone crc32c initial state { call with point := .createTopic } := by
  refine h.stay hok rfl (by rintro _ _ _ _ _ ⟨⟩) ?_ ?_
  · have hfolded := h.folded
    rw [ProduceCall.accepted_between (.inl hpt)] at hfolded
    rw [ProduceCall.accepted_between (.inr rfl)]
    exact hfolded
  · intro error herr
    rw [hvalid] at herr
    cases herr

/-- Where all entries of a topic are answered no answer is waiting for its notification. -/
theorem Alone.settled (h : Alone crc32c initial state call)
    (ht : call.request.topicData[call.responses.length]? = some topic)
    {topicError : Option ResponseError} {responses : List PartitionProduceResponse} {p : PartitionPoint}
    (hpt : call.point = .partitions topicError responses p) (hrest : topic.partitionData[responses.length]? = none) :
    p.answers responses = responses := by
  cases p with
  | notify response =>
    have hle := (h.answers _ _ _ _ ht hpt).1.length_le
    rw [PartitionPoint.answers, List.length_append, List.length_singleton] at hle
    exact absurd (List.getElem?_eq_none_iff.1 hrest) (by omega)
  | _ => rfl

/-- The answers of a topic are complete. -/
theorem Alone.closes (h : Alone crc32c initial state call)
    (ht : call.request.topicData[call.responses.length]? = some topic)
    {topicError : Option ResponseError} {responses : List PartitionProduceResponse} {p : PartitionPoint}
    (hpt : call.point = .partitions topicError responses p) (hrest : topic.partitionData[responses.length]? = none)
    (hok : ProduceStepOk crc32c call.request state state (.inl { call with
      responses := call.responses ++ [⟨topic.name, responses⟩], point := .topic })) :
    Alone crc32c initial state { call with responses := call.responses ++ [⟨topic.name, responses⟩], point := .topic } := by
  have hsettled := h.settled ht hpt hrest
  obtain ⟨hfollows, -⟩ := h.answers _ _ _ _ ht hpt
  rw [hsettled] at hfollows
  refine ⟨hok.logs, (hok.call _ rfl).2, h.producers, h.grown, ?_, by rintro _ _ _ _ _ ⟨⟩, ?_, ?_⟩
  · refine h.topics.snoc ht ?_
    rw [TopicProduceResponse.shape, TopicProduceData.shape, hfollows.complete hrest]
  · have hfolded := h.folded
    rw [ProduceCall.accepted_partitions ht hpt, hsettled] at hfolded
    rw [ProduceCall.accepted_between (.inl rfl), acceptedEntries_snoc ht]
    exact hfolded
  · intro error herr
    obtain ⟨hstate, hdone, hpoint⟩ := h.refused error herr
    rw [hpt] at hpoint
    refine ⟨hstate, ?_, trivial⟩
    intro answered hmem
    rcases List.mem_append.1 hmem with hmem | hmem
    · exact hdone answered hmem
    · rw [List.mem_singleton.1 hmem]
      exact hpoint.2.2

/-- An entry is refused with its topic. -/
theorem Alone.refusesEntry (h : Alone crc32c initial state call)
    (ht : call.request.topicData[call.responses.length]? = some topic) {error : ResponseError}
    {responses : List PartitionProduceResponse} {p : PartitionPoint} {entry : PartitionProduceData}
    (hpt : call.point = .partitions (some error) responses p)
    (hentry : topic.partitionData[responses.length]? = some entry)
    (hok : ProduceStepOk crc32c call.request state state (.inl { call with
      point := .partitions (some error) (responses ++ [errorPartition entry.index error]) .lookup })) :
    Alone crc32c initial state { call with
      point := .partitions (some error) (responses ++ [errorPartition entry.index error]) .lookup } := by
  obtain ⟨hfollows, hlookup⟩ := h.answers _ _ _ _ ht hpt
  obtain rfl := hlookup (by simp)
  refine h.stay hok rfl ?_ ?_ ?_
  · rintro topic' _ _ _ ht' ⟨⟩
    obtain rfl := Option.some.inj (ht.symm.trans ht')
    exact ⟨hfollows.snoc hentry rfl, fun _ => rfl⟩
  · have hfolded := h.folded
    rw [ProduceCall.accepted_partitions ht hpt] at hfolded
    have hsame : acceptedOf topic (PartitionPoint.lookup.answers (responses ++ [errorPartition entry.index error])) =
        acceptedOf topic (PartitionPoint.lookup.answers responses) := acceptedOf_error error hentry
    rw [ProduceCall.accepted_at ht, hsame]
    exact hfolded
  · intro error' herr
    obtain ⟨hstate, -, hpoint⟩ := h.refused error' herr
    rw [hpt] at hpoint
    refine ⟨hstate, hpoint.1, rfl, ?_⟩
    intro answer hmem
    rcases List.mem_append.1 hmem with hmem | hmem
    · exact hpoint.2.2 answer hmem
    · rw [List.mem_singleton.1 hmem]
      exact congrArg ResponseError.code (Option.some.inj hpoint.1)

/-- A step of `produce_partition`, after which the answers `responses'` are given. -/
theorem Alone.entry (h : Alone crc32c initial state call)
    (ht : call.request.topicData[call.responses.length]? = some topic)
    {responses responses' : List PartitionProduceResponse} {p p' : PartitionPoint} {entry : PartitionProduceData}
    {next : PartitionPoint ⊕ PartitionProduceResponse} (hpt : call.point = .partitions none responses p)
    (hentry : topic.partitionData[responses.length]? = some entry)
    (hmove : PartitionMove crc32c state topic.name entry p state' next)
    (hnext : p'.answers responses' = settledAnswers responses next)
    (hok : ProduceStepOk crc32c call.request state state' (.inl { call with point := .partitions none responses' p' })) :
    Alone crc32c initial state' { call with point := .partitions none responses' p' } := by
  have hpoint := h.ok.point topic ht
  rw [hpt] at hpoint
  have hfolded := h.folded
  rw [ProduceCall.accepted_partitions ht hpt] at hfolded
  have hstep := hmove.answers h.logs (hpoint.2 entry hentry) ⟨rfl, hfolded, (h.answers _ _ _ _ ht hpt).1⟩ hentry
  rw [← hnext] at hstep
  refine h.stay hok hstep.producers ?_ ?_ ?_
  · rintro topic' _ _ _ ht' ⟨⟩
    obtain rfl := Option.some.inj (ht.symm.trans ht')
    exact ⟨hstep.follows, fun hne => absurd rfl hne⟩
  · rw [ProduceCall.accepted_at ht]
    exact hstep.folded
  · -- a request that is refused as a whole has no entry without an error
    intro error herr
    have hrefused := (h.refused error herr).2.2
    rw [hpt] at hrefused
    cases hrefused.1

/-- What a step of a call that runs alone leaves: the call, further on, or what it has done. -/
def AloneNext (crc32c : Bytes → UInt32) (initial : DataState) (request : ProduceRequest) (state : DataState) :
    ProduceCall ⊕ ProduceResponse → Prop
  | .inl call => call.request = request ∧ Alone crc32c initial state call
  | .inr response => Done crc32c initial request state response

theorem ProduceMove.alone (h : Alone crc32c initial state call) {next : ProduceCall ⊕ ProduceResponse}
    (hmove : ProduceMove crc32c config state call draws state' next) :
    AloneNext crc32c initial call.request state' next := by
  have hok := hmove.ok h.logs h.ok
  cases hmove with
  | finish hrest =>
    refine ⟨h.producers, h.grown, h.topics.complete hrest, ?_, ?_, h.ok.answered⟩
    · have hfolded := h.folded
      simpa only [ProduceCall.accepted, hrest, List.append_nil] using hfolded
    · intro error herr
      exact ⟨(h.refused error herr).1, (h.refused error herr).2.1⟩
  | refuse ht hpt error why =>
    refine ⟨rfl, h.opens ht (.inl hpt) hok rfl h.folded ?_⟩
    intro error' herr
    refine ⟨(h.refused error' herr).1, ?_⟩
    rcases why with why | why
    · exact why.symm.trans herr
    · rw [why] at herr
      cases herr
  | found ht hpt hvalid =>
    refine ⟨rfl, h.opens ht (.inl hpt) hok rfl h.folded ?_⟩
    intro error herr
    rw [hvalid] at herr
    cases herr
  | miss ht hpt hvalid => exact ⟨rfl, h.misses hpt hvalid hok⟩
  | create ht hpt hw =>
    refine ⟨rfl, h.opens ht (.inr hpt) hok rfl (h.folded.catalogStep (getOrAutoCreateWrite_step hw)) ?_⟩
    intro error herr
    have hpoint := (h.refused error herr).2.2
    rw [hpt] at hpoint
    exact hpoint.elim
  | close ht hpt hrest => exact ⟨rfl, h.closes ht hpt hrest hok⟩
  | refuseEntry ht hpt hentry => exact ⟨rfl, h.refusesEntry ht hpt hentry hok⟩
  | entry ht hpt hentry hp => exact ⟨rfl, h.entry ht hpt hentry hp rfl hok⟩
  | answer ht hpt hentry hp => exact ⟨rfl, h.entry ht hpt hentry hp rfl hok⟩

/-- A call from its point to its response, when no other call steps in between; each step takes the ids drawn
in it. -/
def runProduce (crc32c : Bytes → UInt32) (config : BrokerConfig) :
    List (List Uuid) → DataState → ProduceCall → Option (DataState × ProduceResponse)
  | [], _, _ => none
  | draws :: rest, state, call =>
    match produceStep crc32c config state call draws with
    | none => none
    | some (state, .inl call) => runProduce crc32c config rest state call
    | some (state, .inr response) => some (state, response)

theorem runProduce_done {response : ProduceResponse} {draws : List (List Uuid)} (h : Alone crc32c initial state call)
    (hrun : runProduce crc32c config draws state call = some (state', response)) :
    Done crc32c initial call.request state' response := by
  induction draws generalizing state call with
  | nil => cases hrun
  | cons d draws ih =>
    unfold runProduce at hrun
    split at hrun
    · cases hrun
    · rename_i state₁ call₁ hstep
      obtain ⟨hrequest, h₁⟩ := (produceStep_cases hstep).alone h
      rw [← hrequest]
      exact ih h₁ hrun
    · rename_i hstep
      cases hrun
      exact (produceStep_cases hstep).alone h

end

end MemKafka
