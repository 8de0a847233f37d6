import MemKafka.Coordinator
import MemKafka.ProduceSpec

/-!
# The broker (`broker/mod.rs`)

The whole state the requests share, as one machine: Produce calls and the calls of the group coordinator
step section by section in any order, topics are created explicitly and by Metadata requests, producer
ids are handed out and logs are read. Nothing ever takes a record away, so an
acknowledged record set can be fetched in every later state.
-/

namespace MemKafka
open Kit Outcome

structure BrokerState where
  data : DataState
  groups : Coordinator
  produceCalls : Assoc Nat ProduceCall

def BrokerState.new : BrokerState := ⟨.init, .new, ∅⟩

inductive BrokerLabel where
  | produce (call : Nat) (request : ProduceRequest)
  | resume (call : Nat) (draws : List Uuid)
  | drop (call : Nat)
  | createTopic (name : String) (partitions replicationFactor : Int) (draws : List Uuid)
  | autoCreateTopic (name : String) (draws : List Uuid)
  | initProducerId
  | fetch (topic : String) (index offset : Int) (partitionMaxBytes : Nat)
  | group (label : CoordinatorLabel)
deriving DecidableEq, Repr

inductive BrokerReply where
  | progress
  | produced (request : ProduceRequest) (response : ProduceResponse)
  | topic (result : Except TopicError TopicMetadata)
  | producer (result : Except ProducerError ProducerIdentity)
  | fetched (result : Option (Except FetchError FetchSnapshot))
  | group (reply : CoordinatorReply)
deriving DecidableEq

section
variable (crc32c : Bytes → UInt32) (config : BrokerConfig)

/-- A Produce call from one section to the next. -/
def BrokerState.resumeProduce (s : BrokerState) (call : Nat) (produce : ProduceCall) (draws : List Uuid) :
    Option (BrokerReply × BrokerState) := do
  let (data, next) ← produceStep crc32c config s.data produce draws
  match next with
  | .inl produce => some (.progress, { s with data := data, produceCalls := s.produceCalls.insert call produce })
  | .inr response =>
    some (.produced produce.request response, { s with data := data, produceCalls := s.produceCalls.erase call })

def BrokerState.step (s : BrokerState) : BrokerLabel → Option (BrokerReply × BrokerState)
  | .produce call request =>
    if call ∈ s.produceCalls then none
    else some (.progress, { s with produceCalls := s.produceCalls.insert call (.start request) })
  | .resume call draws => do
    let produce ← s.produceCalls.lookup call
    s.resumeProduce crc32c config call produce draws
  | .drop call => some (.progress, { s with produceCalls := s.produceCalls.erase call })
  | .createTopic name partitions replicationFactor draws => do
    let (result, topics) ← createExplicit s.data.topics name partitions replicationFactor draws
    some (.topic result, { s with data := { s.data with topics := topics } })
  -- the write lock of `get_or_auto_create`, which a Metadata request takes for a name that passed the check
  | .autoCreateTopic name draws =>
    if config.autoCreateTopics = false ∨ validateName name ≠ .ok () then none else do
    let (metadata, topics) ← getOrAutoCreateWrite config.defaultPartitions s.data.topics name draws
    some (.topic (.ok metadata), { s with data := { s.data with topics := topics } })
  | .initProducerId =>
    let (result, producers) := s.data.producers.allocate
    some (.producer result, { s with data := { s.data with producers := producers } })
  | .fetch topic index offset partitionMaxBytes =>
    match (s.data.topics.catalog.partition topic index).bind (s.data.topics.logs[·]?) with
    | none => some (.fetched none, s)
    | some inner => (fetch inner offset partitionMaxBytes).map fun result => (.fetched (some result), s)
  | .group label => (s.groups.step label).map fun (reply, groups) => (.group reply, { s with groups := groups })

def broker : Machine BrokerState BrokerLabel BrokerReply where
  init := .new
  step := BrokerState.step crc32c config

/-! ### What a step can do -/

/-- The steps of the broker. -/
inductive BrokerMove (s : BrokerState) : BrokerLabel → BrokerReply → BrokerState → Prop
  | begins (call : Nat) (request : ProduceRequest) (new : call ∉ s.produceCalls) :
      BrokerMove s (.produce call request) .progress
        { s with produceCalls := s.produceCalls.insert call (.start request) }
  | goesOn {call : Nat} {draws : List Uuid} {produce produce' : ProduceCall} {data : DataState}
      (stood : s.produceCalls.lookup call = some produce)
      (move : ProduceMove crc32c config s.data produce draws data (.inl produce')) :
      BrokerMove s (.resume call draws) .progress
        { s with data := data, produceCalls := s.produceCalls.insert call produce' }
  | ends {call : Nat} {draws : List Uuid} {produce : ProduceCall} {data : DataState} {response : ProduceResponse}
      (stood : s.produceCalls.lookup call = some produce)
      (move : ProduceMove crc32c config s.data produce draws data (.inr response)) :
      BrokerMove s (.resume call draws) (.produced produce.request response)
        { s with data := data, produceCalls := s.produceCalls.erase call }
  | drops (call : Nat) :
      BrokerMove s (.drop call) .progress { s with produceCalls := s.produceCalls.erase call }
  | catalog (label : BrokerLabel) (result : Except TopicError TopicMetadata) {topics : TopicStore}
      (step : CatalogStep s.data.topics topics) :
      BrokerMove s label (.topic result) { s with data := { s.data with topics := topics } }
  | allocates {result : Except ProducerError ProducerIdentity} {producers : ProducerCoordinatorInner}
      (allocation : s.data.producers.allocate = (result, producers)) :
      BrokerMove s .initProducerId (.producer result) { s with data := { s.data with producers := producers } }
  | reads (label : BrokerLabel) (result : Option (Except FetchError FetchSnapshot)) :
      BrokerMove s label (.fetched result) s
  | groups {label : CoordinatorLabel} {reply : CoordinatorReply} {groups : Coordinator}
      (step : s.groups.step label = some (reply, groups)) :
      BrokerMove s (.group label) (.group reply) { s with groups := groups }

structure BrokerInv (s : BrokerState) : Prop where
  logs : s.data.topics.LogsInv crc32c
  calls : ∀ call produce, s.produceCalls.lookup call = some produce → produce.Ok crc32c s.data.topics

/-- What a step leaves: the store grown, the invariant, and the entries of a response that it sends answered. -/
structure BrokerStepOk (s : BrokerState) (reply : BrokerReply) (s' : BrokerState) : Prop where
  grown : s.data.topics.Extends s'.data.topics
  inv : BrokerInv crc32c s'
  answered : ∀ request response, reply = .produced request response →
    ResponsesAnswered crc32c s'.data.topics request response.responses

end

variable {crc32c : Bytes → UInt32} {config : BrokerConfig} {s s' : BrokerState} {reply : BrokerReply}

theorem BrokerState.step_cases {label : BrokerLabel} (h : s.step crc32c config label = some (reply, s')) :
    BrokerMove crc32c config s label reply s' := by
  cases label with
  | produce call request =>
    simp only [step] at h
    split at h <;> cases h
    exact .begins call request ‹_›
  | resume call draws =>
    simp only [step, resumeProduce, Option.bind_eq_bind, Option.bind_eq_some_iff, Prod.exists] at h
    obtain ⟨produce, hcall, data, next, hstep, h⟩ := h
    split at h <;> cases h
    · exact .goesOn hcall (produceStep_cases hstep)
    · exact .ends hcall (produceStep_cases hstep)
  | drop call =>
    cases h
    exact .drops call
  | createTopic name partitions replicationFactor draws =>
    simp only [step, Option.bind_eq_bind, Option.bind_eq_some_iff, Prod.exists] at h
    obtain ⟨result, topics, hcreate, h⟩ := h
    cases h
    exact .catalog _ _ (createExplicit_step hcreate)
  | autoCreateTopic name draws =>
    simp only [step] at h
    split at h
    · cases h
    simp only [Option.bind_eq_bind, Option.bind_eq_some_iff, Prod.exists] at h
    obtain ⟨metadata, topics, hcreate, h⟩ := h
    cases h
    exact .catalog _ _ (getOrAutoCreateWrite_step hcreate)
  | initProducerId =>
    cases h
    exact .allocates rfl
  | fetch topic index offset partitionMaxBytes =>
    simp only [step] at h
    split at h
    · cases h
      exact .reads _ _
    · obtain ⟨result, -, heq⟩ := Option.map_eq_some_iff.1 h
      cases heq
      exact .reads _ _
  | group label =>
    obtain ⟨⟨reply', groups⟩, hstep, heq⟩ := Option.map_eq_some_iff.1 h
    cases heq
    exact .groups hstep

/-! ### What every step keeps -/

theorem BrokerInv.new : BrokerInv crc32c .new :=
  ⟨fun _ h => (by cases h), fun _ _ h => (by cases h)⟩

theorem ProduceCall.Ok.start (request : ProduceRequest) (store : TopicStore) :
    (ProduceCall.start request).Ok crc32c store :=
  ⟨fun _ _ _ _ h => by simp [ProduceCall.start] at h, fun _ _ => trivial⟩

/-- A step that leaves the calls alone. -/
theorem BrokerStepOk.of_calls (inv : BrokerInv crc32c s) (hgrown : s.data.topics.Extends s'.data.topics)
    (hlogs : s'.data.topics.LogsInv crc32c) (hcalls : ∀ call produce, s'.produceCalls.lookup call = some produce →
      s.produceCalls.lookup call = some produce ∨ produce.Ok crc32c s'.data.topics)
    (hreply : ∀ request response, reply ≠ .produced request response) : BrokerStepOk crc32c s reply s' := by
  refine ⟨hgrown, ⟨hlogs, ?_⟩, fun request response h => absurd h (hreply request response)⟩
  intro call produce hl
  rcases hcalls call produce hl with hl | hok
  · exact (inv.calls call produce hl).mono hgrown
  · exact hok

theorem BrokerState.step_ok (inv : BrokerInv crc32c s) {label : BrokerLabel}
    (h : s.step crc32c config label = some (reply, s')) : BrokerStepOk crc32c s reply s' := by
  cases step_cases h with
  | begins call request _ =>
    refine .of_calls inv (.refl _) inv.logs ?_ (by simp)
    intro call' produce hl
    rcases lookup_of_insert hl with ⟨-, rfl⟩ | hl
    · exact .inr (.start request _)
    · exact .inl hl
  | goesOn hcall hmove =>
    obtain ⟨hgrown, hlogs, hnext, -⟩ := hmove.ok inv.logs (inv.calls _ _ hcall)
    refine .of_calls inv hgrown hlogs ?_ (by simp)
    intro call' produce' hl
    rcases lookup_of_insert hl with ⟨-, rfl⟩ | hl
    · exact .inr (hnext _ rfl).2
    · exact .inl hl
  | ends hcall hmove =>
    obtain ⟨hgrown, hlogs, -, hresponse⟩ := hmove.ok inv.logs (inv.calls _ _ hcall)
    refine ⟨hgrown, ⟨hlogs, fun call' produce' hl => ?_⟩, ?_⟩
    · exact (inv.calls call' produce' (lookup_of_erase hl)).mono hgrown
    · rintro _ _ ⟨⟩
      exact hresponse _ rfl
  | drops call => exact .of_calls inv (.refl _) inv.logs (fun _ _ h => .inl (lookup_of_erase h)) (by simp)
  | catalog _ _ hstep =>
    exact .of_calls inv hstep.extends (hstep.logsInv inv.logs) (fun _ _ h => .inl h) (by simp)
  | allocates _ => exact .of_calls inv (.refl _) inv.logs (fun _ _ h => .inl h) (by simp)
  | reads _ _ => exact .of_calls inv (.refl _) inv.logs (fun _ _ h => .inl h) (by simp)
  | groups _ => exact .of_calls inv (.refl _) inv.logs (fun _ _ h => .inl h) (by simp)

/-! ### Runs -/

abbrev BrokerEvent := Event BrokerState BrokerLabel BrokerReply

/-- Every response of a run stays answered. -/
theorem broker_answered {tr : List BrokerEvent} (hrun : (broker crc32c config).Run tr s) :
    BrokerInv crc32c s ∧ ∀ e ∈ tr, ∀ request response, e.out = .produced request response →
      ResponsesAnswered crc32c s.data.topics request response.responses := by
  refine Machine.Run.induction (M := broker crc32c config) (P := fun tr s => BrokerInv crc32c s ∧
    ∀ e ∈ tr, ∀ request response, e.out = .produced request response →
      ResponsesAnswered crc32c s.data.topics request response.responses) ⟨.new, by simp⟩ ?_ hrun
  rintro tr e - ⟨inv, hanswered⟩ he
  obtain ⟨hgrown, inv', hnew⟩ := BrokerState.step_ok inv he
  refine ⟨inv', ?_⟩
  intro f hf request response hout
  rcases List.mem_append.1 hf with hf | hf
  · exact (hanswered f hf request response hout).mono hgrown
  · obtain rfl := List.mem_singleton.1 hf
    exact hnew request response hout

/-- Acknowledged records stay fetchable. If a Produce call answers an entry with error code 0, then from that state on
the log of its partition serves every offset of its record set, whatever the limit: the records returned begin
with the batch of the set that covers the offset, unchanged but for the eight bytes of its base offset,
and can be cut at the headers of their frames into a run of stored batches. -/
theorem acknowledged_records_stay_fetchable (crc32c : Bytes → UInt32) (config : BrokerConfig) (tr : List BrokerEvent)
    (s : BrokerState) (hrun : (broker crc32c config).Run tr s) (e : BrokerEvent) (he : e ∈ tr)
    (request : ProduceRequest)
    (response : ProduceResponse) (hout : e.out = .produced request response) (i j : Nat) (topic : TopicProduceData)
    (topicResponse : TopicProduceResponse) (entry : PartitionProduceData) (answer : PartitionProduceResponse)
    (htopic : request.topicData[i]? = some topic) (hresponse : response.responses[i]? = some topicResponse)
    (hentry : topic.partitionData[j]? = some entry) (hanswer : topicResponse.partitionResponses[j]? = some answer)
    (hcode : answer.errorCode = 0) :
    ∃ records vs log inner, entry.records = some records ∧ validateRecordSet crc32c records = ok vs ∧
      (vs.map (·.bytes)).flatten = records ∧ s.data.topics.catalog.partition topic.name entry.index = some log ∧
      s.data.topics.logs[log]? = some inner ∧
      ∀ o, answer.baseOffset ≤ o → o ≤ answer.baseOffset + recordSum vs - 1 → ∀ partitionMaxBytes,
        ∃ snapshot before v after b, fetch inner o partitionMaxBytes = some (.ok snapshot) ∧ vs = before ++ v :: after ∧
          b.baseOffset = answer.baseOffset + recordSum before ∧ b.recordCount = v.recordCount ∧
          b.baseOffset ≤ o ∧ o < b.baseOffset + b.recordCount ∧
          b.bytes = beOfInt 8 (answer.baseOffset + recordSum before) ++ v.bytes.drop 8 ∧ FetchRun inner b snapshot := by
  obtain ⟨inv, hanswered⟩ := broker_answered hrun
  obtain ⟨records, vs, log, inner, hrecords, hvs, hlog, hinner, hbacks⟩ :=
    hanswered e he request response hout i topic topicResponse htopic hresponse j entry answer hentry hanswer hcode
  obtain ⟨linv, -⟩ := inv.logs inner (List.mem_of_getElem? hinner)
  refine ⟨records, vs, log, inner, hrecords, hvs, (validateRecordSet_eq_ok.1 hvs).flatten, hlog, hinner, ?_⟩
  intro o ho ho' max
  exact fetch_backed linv hbacks ho (by omega) max

/-- One record set, sent to the same partition twice by an idempotent producer. -/
def sampleProduce : ProduceRequest :=
  ⟨-1, none, [⟨"events", [⟨0, some (sampleFrame 1 0 0 2)⟩, ⟨0, some (sampleFrame 1 0 0 2)⟩]⟩]⟩

def sampleProduceRun : List BrokerLabel :=
  [.createTopic "events" 1 1 [1], .initProducerId, .produce 0 sampleProduce] ++ List.replicate 10 (.resume 0 [])

theorem acknowledged_records_stay_fetchable_replay :
    ∃ tr s log inner, (broker castagnoli ⟨true, 1⟩).exec .new sampleProduceRun = some (tr, s) ∧
      s.data.topics.catalog.partition "events" 0 = some log ∧ s.data.topics.logs[log]? = some inner ∧
      ∀ partitionMaxBytes, ∃ snapshot, fetch inner 1 partitionMaxBytes = some (.ok snapshot) ∧
        snapshot.highWatermark = inner.nextOffset := by
  have hsome : (((broker castagnoli ⟨true, 1⟩).exec .new sampleProduceRun).map fun r => (r.1.map Event.out).getLast?) =
      some (some (.produced sampleProduce ⟨[⟨"events", [⟨0, 0, 0, -1, 0⟩, ⟨0, 0, 0, -1, 0⟩]⟩], 0⟩)) := by decide +kernel
  have hset : validateRecordSet castagnoli (sampleFrame 1 0 0 2) = ok [ofFrame (sampleFrame 1 0 0 2)] := by
    show (validateRecordSet castagnoli (sampleFrame 1 0 0 2)).run = some (.ok [ofFrame (sampleFrame 1 0 0 2)])
    decide +kernel
  obtain ⟨⟨tr, s⟩, hx, hlast⟩ := Option.map_eq_some_iff.1 hsome
  obtain ⟨e, he, hout⟩ := List.mem_map.1 (List.mem_of_getLast? hlast)
  -- the second entry is the replay
  obtain ⟨records, vs, log, inner, hrecords, hvs, -, hlog, hinner, hfetch⟩ :=
    acknowledged_records_stay_fetchable castagnoli ⟨true, 1⟩ tr s (Machine.exec_path hx).1 e he _ _ hout 0 1 _ _ _ _ rfl rfl rfl rfl rfl
  obtain rfl : sampleFrame 1 0 0 2 = records := Option.some.inj hrecords
  obtain rfl : [ofFrame (sampleFrame 1 0 0 2)] = vs := ok_inj.1 (hset.symm.trans hvs)
  refine ⟨tr, s, log, inner, hx, hlog, hinner, ?_⟩
  intro partitionMaxBytes
  have hsum : recordSum [ofFrame (sampleFrame 1 0 0 2)] = 2 := by decide +kernel
  obtain ⟨snapshot, _, _, _, _, hok, -, -, -, -, -, -, hrun⟩ :=
    hfetch 1 (by decide) (by rw [hsum]; decide) partitionMaxBytes
  exact ⟨snapshot, hok, hrun.highWatermark⟩

end MemKafka
