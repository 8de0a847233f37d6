import MemKafka.Lib.Assoc
import MemKafka.Produce

/-!
# Acknowledged entries of a Produce response

An entry with error code 0 is `Answered`: its record set lies in the log of its partition from the base
offset of the entry on. That is true when the entry is pushed and stays true, since stores only
grow. `CallOk` carries it from entry to entry of a call in progress.
-/

namespace MemKafka
open Kit Outcome

section
variable (crc32c : Bytes → UInt32)

def TopicStore.LogsInv (store : TopicStore) : Prop :=
  ∀ inner ∈ store.logs, LogInv crc32c inner ∧ WindowInv crc32c inner

/-- If the entry reports success, its record set is in the log at its base offset. -/
def Answered (store : TopicStore) (topic : String) (request : PartitionProduceData)
    (response : PartitionProduceResponse) : Prop :=
  response.errorCode = 0 → ∃ records vs log inner, request.records = some records ∧
    validateRecordSet crc32c records = ok vs ∧ store.catalog.partition topic request.index = some log ∧
    store.logs[log]? = some inner ∧ Backs inner response.baseOffset vs

def TopicAnswered (store : TopicStore) (topic : TopicProduceData)
    (partitionResponses : List PartitionProduceResponse) : Prop :=
  ∀ (i : Nat) request response, topic.partitionData[i]? = some request → partitionResponses[i]? = some response →
    Answered crc32c store topic.name request response

def ResponsesAnswered (store : TopicStore) (request : ProduceRequest) (responses : List TopicProduceResponse) : Prop :=
  ∀ (i : Nat) topic response, request.topicData[i]? = some topic → responses[i]? = some response →
    TopicAnswered crc32c store topic response.partitionResponses

/-- What a call of `produce_partition` holds at each of its points. -/
def PartitionPoint.Ok (store : TopicStore) (topic : String) (request : PartitionProduceData) : PartitionPoint → Prop
  | .lookup => True
  | .validate log records _ => store.catalog.partition topic request.index = some log ∧ request.records = some records
  | .append log records => store.catalog.partition topic request.index = some log ∧ request.records = some records
  | .notify response => Answered crc32c store topic request response

def ProducePoint.Ok (store : TopicStore) (topic : TopicProduceData) : ProducePoint → Prop
  | .topic => True
  | .createTopic => True
  | .partitions _ partitionResponses point => TopicAnswered crc32c store topic partitionResponses ∧
      ∀ request, topic.partitionData[partitionResponses.length]? = some request →
        point.Ok crc32c store topic.name request

structure ProduceCall.Ok (store : TopicStore) (call : ProduceCall) : Prop where
  answered : ResponsesAnswered crc32c store call.request call.responses
  point : ∀ topic, call.request.topicData[call.responses.length]? = some topic → call.point.Ok crc32c store topic

end

variable {crc32c : Bytes → UInt32} {store store' : TopicStore}

/-! ### Entries stay answered -/

theorem Answered.error (store : TopicStore) (topic : String) (request : PartitionProduceData) (index : Int)
    (error : ResponseError) : Answered crc32c store topic request (errorPartition index error) :=
  fun h => absurd h error.code_ne_zero

section Mono
variable (hext : store.Extends store')
include hext

theorem Answered.mono {topic : String} {request : PartitionProduceData} {response : PartitionProduceResponse}
    (h : Answered crc32c store topic request response) : Answered crc32c store' topic request response := by
  intro hcode
  obtain ⟨records, vs, log, inner, hrecords, hvs, hlog, hinner, hbacks⟩ := h hcode
  obtain ⟨inner', hinner', hprefix⟩ := hext.logs log inner hinner
  exact ⟨records, vs, log, inner', hrecords, hvs, hext.partition _ _ _ hlog, hinner', hbacks.mono hprefix⟩

theorem TopicAnswered.mono {topic : TopicProduceData} {responses : List PartitionProduceResponse}
    (h : TopicAnswered crc32c store topic responses) : TopicAnswered crc32c store' topic responses :=
  fun i request response hi hr => (h i request response hi hr).mono hext

theorem ResponsesAnswered.mono {request : ProduceRequest} {responses : List TopicProduceResponse}
    (h : ResponsesAnswered crc32c store request responses) : ResponsesAnswered crc32c store' request responses :=
  fun i topic response hi hr => (h i topic response hi hr).mono hext

theorem PartitionPoint.Ok.mono {topic : String} {request : PartitionProduceData} {point : PartitionPoint}
    (h : point.Ok crc32c store topic request) : point.Ok crc32c store' topic request := by
  cases point with
  | lookup => exact trivial
  | validate log records producer => exact ⟨hext.partition _ _ _ h.1, h.2⟩
  | append log records => exact ⟨hext.partition _ _ _ h.1, h.2⟩
  | notify response => exact Answered.mono hext h

theorem ProduceCall.Ok.mono {call : ProduceCall} (h : call.Ok crc32c store) : call.Ok crc32c store' where
  answered := h.answered.mono hext
  point topic ht := by
    have hp := h.point topic ht
    cases hpt : call.point with
    | topic => exact trivial
    | createTopic => exact trivial
    | partitions topicError responses point =>
      rw [hpt] at hp
      exact ⟨hp.1.mono hext, fun request hr => (hp.2 request hr).mono hext⟩

end Mono

/-- One more answer, to the next entry of the topic. -/
theorem TopicAnswered.snoc {topic : TopicProduceData} {responses : List PartitionProduceResponse}
    {request : PartitionProduceData} {response : PartitionProduceResponse}
    (h : TopicAnswered crc32c store topic responses)
    (hr : topic.partitionData[responses.length]? = some request)
    (ha : Answered crc32c store topic.name request response) :
    TopicAnswered crc32c store topic (responses ++ [response]) := by
  intro i request' response' hi hresp
  rcases getElem?_snoc.1 hresp with hresp | ⟨rfl, rfl⟩
  · exact h i request' response' hi hresp
  · obtain rfl : request = request' := Option.some.inj (hr.symm.trans hi)
    exact ha

theorem ResponsesAnswered.snoc {request : ProduceRequest} {responses : List TopicProduceResponse}
    {topic : TopicProduceData}
    {response : TopicProduceResponse} (h : ResponsesAnswered crc32c store request responses)
    (ht : request.topicData[responses.length]? = some topic)
    (ha : TopicAnswered crc32c store topic response.partitionResponses) :
    ResponsesAnswered crc32c store request (responses ++ [response]) := by
  intro i topic' response' hi hresp
  rcases getElem?_snoc.1 hresp with hresp | ⟨rfl, rfl⟩
  · exact h i topic' response' hi hresp
  · obtain rfl : topic = topic' := Option.some.inj (ht.symm.trans hi)
    exact ha

/-! ### What a step can do -/

section
variable (crc32c : Bytes → UInt32)

/-- The steps of `produce_partition`. -/
inductive PartitionMove (state : DataState) (topic : String) (request : PartitionProduceData) :
    PartitionPoint → DataState → PartitionPoint ⊕ PartitionProduceResponse → Prop
  | refuse {point : PartitionPoint} (early : ∀ response, point ≠ .notify response) (error : ResponseError) :
      PartitionMove state topic request point state (.inr (errorPartition request.index error))
  | identify {log : LogRef} {records : Bytes} {producer : RecordSetProducer}
      (partition : state.topics.catalog.partition topic request.index = some log)
      (hrecords : request.records = some records) (set : recordSetProducer crc32c records = ok (some producer)) :
      PartitionMove state topic request .lookup state (.inl (.validate log records producer))
  | pass {log : LogRef} {records : Bytes} (partition : state.topics.catalog.partition topic request.index = some log)
      (hrecords : request.records = some records) (set : recordSetProducer crc32c records = ok none) :
      PartitionMove state topic request .lookup state (.inl (.append log records))
  | validate {log : LogRef} {records : Bytes} {producer : RecordSetProducer}
      (valid : state.producers.validate producer.producerId producer.producerEpoch = .ok ()) :
      PartitionMove state topic request (.validate log records producer) state (.inl (.append log records))
  | reject {log : LogRef} {records : Bytes} {inner inner' : PartitionLogInner} {error : AppendError}
      (hlog : state.topics.logs[log]? = some inner) (happ : append crc32c inner records = some (.error error, inner'))
      (code : ResponseError) :
      PartitionMove state topic request (.append log records)
        { state with topics := { state.topics with logs := state.topics.logs.set log inner' } }
        (.inr (errorPartition request.index code))
  | store {log : LogRef} {records : Bytes} {inner inner' : PartitionLogInner} {result : AppendResult}
      (hlog : state.topics.logs[log]? = some inner) (happ : append crc32c inner records = some (.ok result, inner'))
      (new : result.appended = true) :
      PartitionMove state topic request (.append log records)
        { state with topics := { state.topics with logs := state.topics.logs.set log inner' } }
        (.inl (.notify ⟨request.index, 0, result.baseOffset, -1, 0⟩))
  | replay {log : LogRef} {records : Bytes} {inner inner' : PartitionLogInner} {result : AppendResult}
      (hlog : state.topics.logs[log]? = some inner) (happ : append crc32c inner records = some (.ok result, inner'))
      (old : result.appended = false) :
      PartitionMove state topic request (.append log records)
        { state with topics := { state.topics with logs := state.topics.logs.set log inner' } }
        (.inr ⟨request.index, 0, result.baseOffset, -1, 0⟩)
  | notify (response : PartitionProduceResponse) :
      PartitionMove state topic request (.notify response)
        { state with appendNotifications := state.appendNotifications + 1 } (.inr response)

/-- The steps of `response` and `produce_topic`. -/
inductive ProduceMove (config : BrokerConfig) (state : DataState) (call : ProduceCall) (draws : List Uuid) :
    DataState → ProduceCall ⊕ ProduceResponse → Prop
  | finish (rest : call.request.topicData[call.responses.length]? = none) :
      ProduceMove config state call draws state (.inr ⟨call.responses, 0⟩)
  | refuse {topic : TopicProduceData} (next : call.request.topicData[call.responses.length]? = some topic)
      (point : call.point = .topic) (error : ResponseError)
      (why : requestError call.request = some error ∨ requestError call.request = none) :
      ProduceMove config state call draws state (.inl { call with point := .partitions (some error) [] .lookup })
  | found {topic : TopicProduceData} (next : call.request.topicData[call.responses.length]? = some topic)
      (point : call.point = .topic) (valid : requestError call.request = none) :
      ProduceMove config state call draws state (.inl { call with point := .partitions none [] .lookup })
  | miss {topic : TopicProduceData} (next : call.request.topicData[call.responses.length]? = some topic)
      (point : call.point = .topic) (valid : requestError call.request = none) :
      ProduceMove config state call draws state (.inl { call with point := .createTopic })
  | create {topic : TopicProduceData} {metadata : TopicMetadata} {topics : TopicStore}
      (next : call.request.topicData[call.responses.length]? = some topic) (point : call.point = .createTopic)
      (write : getOrAutoCreateWrite config.defaultPartitions state.topics topic.name draws = some (metadata, topics)) :
      ProduceMove config state call draws { state with topics := topics } (.inl { call with point := .partitions none [] .lookup })
  | close {topic : TopicProduceData} {topicError : Option ResponseError} {responses : List PartitionProduceResponse}
      {p : PartitionPoint} (next : call.request.topicData[call.responses.length]? = some topic)
      (point : call.point = .partitions topicError responses p) (rest : topic.partitionData[responses.length]? = none) :
      ProduceMove config state call draws state
        (.inl { call with responses := call.responses ++ [⟨topic.name, responses⟩], point := .topic })
  | refuseEntry {topic : TopicProduceData} {error : ResponseError} {responses : List PartitionProduceResponse}
      {p : PartitionPoint} {entry : PartitionProduceData}
      (next : call.request.topicData[call.responses.length]? = some topic)
      (point : call.point = .partitions (some error) responses p)
      (hentry : topic.partitionData[responses.length]? = some entry) :
      ProduceMove config state call draws state (.inl { call with
        point := .partitions (some error) (responses ++ [errorPartition entry.index error]) .lookup })
  | entry {topic : TopicProduceData} {responses : List PartitionProduceResponse} {p p' : PartitionPoint}
      {entry : PartitionProduceData} {state' : DataState}
      (next : call.request.topicData[call.responses.length]? = some topic)
      (point : call.point = .partitions none responses p) (hentry : topic.partitionData[responses.length]? = some entry)
      (move : PartitionMove crc32c state topic.name entry p state' (.inl p')) :
      ProduceMove config state call draws state' (.inl { call with point := .partitions none responses p' })
  | answer {topic : TopicProduceData} {responses : List PartitionProduceResponse} {p : PartitionPoint}
      {entry : PartitionProduceData} {response : PartitionProduceResponse} {state' : DataState}
      (next : call.request.topicData[call.responses.length]? = some topic)
      (point : call.point = .partitions none responses p) (hentry : topic.partitionData[responses.length]? = some entry)
      (move : PartitionMove crc32c state topic.name entry p state' (.inr response)) :
      ProduceMove config state call draws state' (.inl { call with point := .partitions none (responses ++ [response]) .lookup })

end

theorem producePartitionStep_cases {crc32c : Bytes → UInt32} {state state' : DataState} {topic : String}
    {request : PartitionProduceData} {point : PartitionPoint} {next : PartitionPoint ⊕ PartitionProduceResponse}
    (h : producePartitionStep crc32c state topic request point = some (state', next)) :
    PartitionMove crc32c state topic request point state' next := by
  cases point with
  | lookup =>
    simp only [producePartitionStep] at h
    split at h
    · cases h; exact .refuse (by simp) _
    rename_i log hlog
    split at h
    · cases h; exact .refuse (by simp) _
    rename_i records hrecords
    split at h <;> cases h
    · exact .refuse (by simp) _
    · exact .refuse (by simp) _
    · exact .refuse (by simp) _
    · exact .pass hlog hrecords ‹_›
    · exact .identify hlog hrecords ‹_›
  | validate log records producer =>
    simp only [producePartitionStep] at h
    split at h <;> cases h
    · exact .validate ‹_›
    all_goals exact .refuse (by simp) _
  | append log records =>
    simp only [producePartitionStep, Option.bind_eq_bind, Option.bind_eq_some_iff, Prod.exists] at h
    obtain ⟨inner, hinner, out, inner', happ, h⟩ := h
    split at h
    · split at h <;> cases h
      · exact .store hinner happ ‹_›
      · exact .replay hinner happ (Bool.eq_false_iff.2 ‹_›)
    all_goals cases h; exact .reject hinner happ _
  | notify response =>
    cases h
    exact .notify response

theorem produceStep_cases {crc32c : Bytes → UInt32} {config : BrokerConfig} {state state' : DataState}
    {call : ProduceCall} {draws : List Uuid} {next : ProduceCall ⊕ ProduceResponse}
    (h : produceStep crc32c config state call draws = some (state', next)) :
    ProduceMove crc32c config state call draws state' next := by
  unfold produceStep at h
  split at h
  · cases h; exact .finish ‹_›
  rename_i topic ht
  cases hpt : call.point with
  | topic =>
    simp only [hpt] at h
    split at h
    · cases h; exact .refuse ht hpt _ (.inl ‹_›)
    rename_i hvalid
    split at h <;> cases h
    · exact .miss ht hpt hvalid
    · exact .found ht hpt hvalid
    · exact .refuse ht hpt _ (.inr hvalid)
    · exact .refuse ht hpt _ (.inr hvalid)
  | createTopic =>
    simp only [hpt, Option.bind_eq_bind, Option.bind_eq_some_iff, Prod.exists] at h
    obtain ⟨metadata, topics, hw, h⟩ := h
    cases h
    exact .create ht hpt hw
  | partitions topicError responses point =>
    simp only [hpt] at h
    split at h
    · cases h; exact .close ht hpt ‹_›
    rename_i entry hentry
    split at h
    · cases h; exact .refuseEntry ht hpt hentry
    simp only [Option.bind_eq_bind, Option.bind_eq_some_iff, Prod.exists] at h
    obtain ⟨state₁, next', hstep, h⟩ := h
    split at h <;> cases h
    · exact .entry ht hpt hentry (producePartitionStep_cases hstep)
    · exact .answer ht hpt hentry (producePartitionStep_cases hstep)

/-! ### The steps -/

theorem CatalogStep.logsInv (h : CatalogStep store store') (hinv : store.LogsInv crc32c) : store'.LogsInv crc32c := by
  intro inner hi
  rcases h.mem_logs hi with hi | rfl
  · exact hinv inner hi
  · exact ⟨LogInv.default, WindowInv.default⟩

/-- One append on the log of a store. -/
theorem append_store {log : LogRef} {inner inner' : PartitionLogInner} {records : Bytes}
    {out : Except AppendError AppendResult}
    (hinv : store.LogsInv crc32c) (hlog : store.logs[log]? = some inner)
    (h : append crc32c inner records = some (out, inner')) :
    store.Extends { store with logs := store.logs.set log inner' } ∧
      TopicStore.LogsInv crc32c { store with logs := store.logs.set log inner' } := by
  obtain ⟨inv, win⟩ := hinv inner (List.mem_of_getElem? hlog)
  refine ⟨⟨fun _ _ _ hp => hp, ?_⟩, ?_⟩
  · intro other inner₀ hother
    by_cases heq : log = other
    · subst heq
      obtain rfl : inner = inner₀ := Option.some.inj (hlog.symm.trans hother)
      refine ⟨inner', ?_, append_batches inv h⟩
      rw [List.getElem?_set_self (List.getElem?_eq_some_iff.1 hlog).1]
    · exact ⟨inner₀, by rw [List.getElem?_set_ne heq]; exact hother, List.prefix_rfl⟩
  · intro inner₀ hi
    rcases List.mem_or_eq_of_mem_set hi with hi | rfl
    · exact hinv inner₀ hi
    · exact ⟨inv.step h, win.step inv h⟩

/-- An append that appends nothing leaves the logs as they are. -/
theorem append_nothing {log : LogRef} {inner inner' : PartitionLogInner} {records : Bytes}
    {out : Except AppendError AppendResult} (hinv : store.LogsInv crc32c) (hlog : store.logs[log]? = some inner)
    (h : append crc32c inner records = some (out, inner'))
    (hold : ∀ result, out = .ok result → result.appended = false) :
    store.logs.set log inner' = store.logs := by
  obtain ⟨inv, -⟩ := hinv inner (List.mem_of_getElem? hlog)
  obtain rfl : inner' = inner := by
    cases append_step inv.range h with
    | rejected => rfl
    | replayed => rfl
    | appended _ _ _ => cases hold _ rfl
  obtain ⟨hlt, heq⟩ := List.getElem?_eq_some_iff.1 hlog
  rw [← heq]
  exact List.set_getElem_self hlt

section
variable {state state' : DataState} {topic : String} {request : PartitionProduceData}

/-- What a step of `produce_partition` leaves: the store grown, and the next point or the answer. -/
structure PartitionStepOk (crc32c : Bytes → UInt32) (topic : String) (request : PartitionProduceData)
    (state state' : DataState) (next : PartitionPoint ⊕ PartitionProduceResponse) : Prop where
  grown : state.topics.Extends state'.topics
  logs : state'.topics.LogsInv crc32c
  point : ∀ point, next = .inl point → point.Ok crc32c state'.topics topic request
  answer : ∀ response, next = .inr response → Answered crc32c state'.topics topic request response

theorem PartitionStepOk.point_same (hinv : state.topics.LogsInv crc32c) {point : PartitionPoint}
    (h : point.Ok crc32c state.topics topic request) : PartitionStepOk crc32c topic request state state (.inl point) :=
  ⟨.refl _, hinv, by rintro _ ⟨⟩; exact h, by rintro _ ⟨⟩⟩

theorem PartitionStepOk.answer_error (hinv : state'.topics.LogsInv crc32c) (hext : state.topics.Extends state'.topics)
    (index : Int) (error : ResponseError) :
    PartitionStepOk crc32c topic request state state' (.inr (errorPartition index error)) :=
  ⟨hext, hinv, by rintro _ ⟨⟩, by rintro _ ⟨⟩; exact Answered.error _ _ _ _ _⟩

theorem PartitionMove.ok {point : PartitionPoint} {next : PartitionPoint ⊕ PartitionProduceResponse}
    (hinv : state.topics.LogsInv crc32c) (hp : point.Ok crc32c state.topics topic request)
    (h : PartitionMove crc32c state topic request point state' next) :
    PartitionStepOk crc32c topic request state state' next := by
  -- the two ways out of a successful append
  have success : ∀ {log records inner inner' result}, state.topics.logs[log]? = some inner →
      append crc32c inner records = some (.ok result, inner') →
      (PartitionPoint.append log records).Ok crc32c state.topics topic request →
      Answered crc32c { state.topics with logs := state.topics.logs.set log inner' } topic request
        ⟨request.index, 0, result.baseOffset, -1, 0⟩ := by
    rintro log records inner inner' result hinner happ ⟨hlog, hrecords⟩ -
    obtain ⟨inv, win⟩ := hinv inner (List.mem_of_getElem? hinner)
    obtain ⟨vs, hvs, hbacks⟩ := append_backs inv win happ
    refine ⟨records, vs, log, inner', hrecords, hvs, hlog, ?_, hbacks⟩
    exact List.getElem?_set_self (List.getElem?_eq_some_iff.1 hinner).1
  cases h with
  | refuse _ error => exact .answer_error hinv (.refl _) _ _
  | identify hlog hrecords _ => exact .point_same hinv ⟨hlog, hrecords⟩
  | pass hlog hrecords _ => exact .point_same hinv ⟨hlog, hrecords⟩
  | validate _ => exact .point_same hinv hp
  | reject hinner happ code =>
    obtain ⟨hext, hlogs⟩ := append_store hinv hinner happ
    exact .answer_error hlogs hext _ _
  | store hinner happ _ =>
    obtain ⟨hext, hlogs⟩ := append_store hinv hinner happ
    exact ⟨hext, hlogs, by rintro _ ⟨⟩; exact success hinner happ hp, by rintro _ ⟨⟩⟩
  | replay hinner happ _ =>
    obtain ⟨hext, hlogs⟩ := append_store hinv hinner happ
    exact ⟨hext, hlogs, by rintro _ ⟨⟩, by rintro _ ⟨⟩; exact success hinner happ hp⟩
  | notify response => exact ⟨.refl _, hinv, by rintro _ ⟨⟩, by rintro _ ⟨⟩; exact hp⟩

end

/-- What a step of a call leaves: the store grown, and the next point or the whole response. -/
structure ProduceStepOk (crc32c : Bytes → UInt32) (request : ProduceRequest) (state state' : DataState)
    (next : ProduceCall ⊕ ProduceResponse) : Prop where
  grown : state.topics.Extends state'.topics
  logs : state'.topics.LogsInv crc32c
  call : ∀ call, next = .inl call → call.request = request ∧ call.Ok crc32c state'.topics
  response : ∀ response, next = .inr response → ResponsesAnswered crc32c state'.topics request response.responses

section
variable {config : BrokerConfig} {state state' : DataState} {call : ProduceCall} {draws : List Uuid}

theorem ProduceMove.ok {next : ProduceCall ⊕ ProduceResponse} (hinv : state.topics.LogsInv crc32c)
    (hcall : call.Ok crc32c state.topics) (h : ProduceMove crc32c config state call draws state' next) :
    ProduceStepOk crc32c call.request state state' next := by
  obtain ⟨hanswered, hpoint⟩ := hcall
  -- a step that moves the call to another point of the same topic
  have move : ∀ {state' topic}, call.request.topicData[call.responses.length]? = some topic →
      state.topics.Extends state'.topics → state'.topics.LogsInv crc32c → ∀ point : ProducePoint,
      point.Ok crc32c state'.topics topic → ProduceStepOk crc32c call.request state state' (.inl { call with point := point }) := by
    intro state' topic ht hext hlogs point hp
    refine ⟨hext, hlogs, ?_, by rintro _ ⟨⟩⟩
    rintro _ ⟨⟩
    refine ⟨rfl, hanswered.mono hext, ?_⟩
    intro topic' ht'
    obtain rfl : topic = topic' := Option.some.inj (ht.symm.trans ht')
    exact hp
  have start : ∀ {state' topic}, call.request.topicData[call.responses.length]? = some topic →
      state.topics.Extends state'.topics → state'.topics.LogsInv crc32c → ∀ topicError,
      ProduceStepOk crc32c call.request state state' (.inl { call with point := .partitions topicError [] .lookup }) :=
    fun ht hext hlogs topicError => move ht hext hlogs _ ⟨fun i _ _ _ hr => by simp at hr, fun _ _ => trivial⟩
  cases h with
  | finish _ => exact ⟨.refl _, hinv, by rintro _ ⟨⟩, by rintro _ ⟨⟩; exact hanswered⟩
  | refuse ht _ error _ => exact start ht (.refl _) hinv _
  | found ht _ _ => exact start ht (.refl _) hinv _
  | miss ht _ _ => exact move ht (.refl _) hinv _ trivial
  | create ht _ hw =>
    have hstep := getOrAutoCreateWrite_step hw
    exact start ht hstep.extends (hstep.logsInv hinv) _
  | close ht hpt _ =>
    replace hpoint := hpoint _ ht
    rw [hpt] at hpoint
    refine ⟨.refl _, hinv, ?_, by rintro _ ⟨⟩⟩
    rintro _ ⟨⟩
    exact ⟨rfl, hanswered.snoc ht hpoint.1, fun _ _ => trivial⟩
  | refuseEntry ht hpt hentry =>
    replace hpoint := hpoint _ ht
    rw [hpt] at hpoint
    exact move ht (.refl _) hinv _ ⟨hpoint.1.snoc hentry (Answered.error _ _ _ _ _), fun _ _ => trivial⟩
  | entry ht hpt hentry hmove =>
    replace hpoint := hpoint _ ht
    rw [hpt] at hpoint
    obtain ⟨hext, hlogs, hnext, -⟩ := hmove.ok hinv (hpoint.2 _ hentry)
    refine move ht hext hlogs _ ⟨hpoint.1.mono hext, ?_⟩
    intro request hr
    obtain rfl := Option.some.inj (hentry.symm.trans hr)
    exact hnext _ rfl
  | answer ht hpt hentry hmove =>
    replace hpoint := hpoint _ ht
    rw [hpt] at hpoint
    obtain ⟨hext, hlogs, -, hanswer⟩ := hmove.ok hinv (hpoint.2 _ hentry)
    exact move ht hext hlogs _ ⟨(hpoint.1.mono hext).snoc hentry (hanswer _ rfl), fun _ _ => trivial⟩

end

end MemKafka
