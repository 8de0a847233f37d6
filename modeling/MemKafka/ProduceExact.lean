import MemKafka.ProduceAlone

/-!
# Produce calls end, and are exact

Every step of a call leaves fewer to make (`ProduceCall.left`), and none of them panics in a state the broker can reach:
the logs that the catalog points to are there. So a call that runs alone comes to its response.
-/

namespace MemKafka
open Kit Outcome

section
variable {crc32c : Bytes → UInt32} {config : BrokerConfig} {initial state state' : DataState} {call : ProduceCall}
  {draws : List Uuid} {topic : TopicProduceData}

/-! ### Calls end -/

/-- The logs that the catalog points to are there. -/
def TopicStore.LogsThere (store : TopicStore) : Prop :=
  ∀ topic index log, store.catalog.partition topic index = some log → log < store.logs.length

/-- How many steps `produce_partition` has made for its entry. -/
def PartitionPoint.made : PartitionPoint → Nat
  | .lookup => 0
  | .validate _ _ _ => 1
  | .append _ _ => 2
  | .notify _ => 3

/-- At most as many steps are left in a topic. -/
def ProducePoint.left (topic : TopicProduceData) : ProducePoint → Nat
  | .topic => 4 * topic.partitionData.length + 3
  | .createTopic => 4 * topic.partitionData.length + 2
  | .partitions _ responses point => 4 * (topic.partitionData.length - responses.length) - point.made + 1

/-- At most as many steps are left in a call. -/
def ProduceCall.left (call : ProduceCall) : Nat :=
  match call.request.topicData.drop call.responses.length with
  | [] => 1
  | topic :: topics => call.point.left topic + (topics.map ProducePoint.topic.left).sum + 1

theorem drop_eq_of_getElem? {α : Type} {l : List α} {n : Nat} {a : α} (h : l[n]? = some a) :
    l.drop n = a :: l.drop (n + 1) := by
  obtain ⟨hlt, rfl⟩ := List.getElem?_eq_some_iff.1 h
  exact List.drop_eq_getElem_cons hlt

theorem ProduceCall.left_of_topic (ht : call.request.topicData[call.responses.length]? = some topic) :
    call.left = call.point.left topic +
      ((call.request.topicData.drop (call.responses.length + 1)).map ProducePoint.topic.left).sum + 1 := by
  simp only [ProduceCall.left, drop_eq_of_getElem? ht]

theorem ProduceCall.left_between (hpt : call.point = .topic) :
    call.left = ((call.request.topicData.drop call.responses.length).map ProducePoint.topic.left).sum + 1 := by
  unfold ProduceCall.left
  split <;> rename_i h <;> simp [h, hpt]

theorem PartitionMove.made_lt {entry : PartitionProduceData} {name : String} {point point' : PartitionPoint}
    (h : PartitionMove crc32c state name entry point state' (.inl point')) : point.made < point'.made := by
  cases h <;> simp [PartitionPoint.made]

theorem PartitionPoint.made_le (point : PartitionPoint) : point.made ≤ 3 := by
  cases point <;> simp [PartitionPoint.made]

/-- A step inside a topic. -/
theorem ProduceCall.left_inside {point : ProducePoint}
    (ht : call.request.topicData[call.responses.length]? = some topic)
    (hlt : point.left topic < call.point.left topic) : ({ call with point := point } : ProduceCall).left < call.left := by
  have hleft := ProduceCall.left_of_topic ht
  have hleft' := @ProduceCall.left_of_topic { call with point := point } topic ht
  dsimp only at hleft'
  omega

theorem ProduceMove.left_lt {call' : ProduceCall}
    (h : ProduceMove crc32c config state call draws state' (.inl call')) : call'.left < call.left := by
  cases h with
  | refuse ht hpt _ _ =>
    refine ProduceCall.left_inside ht ?_
    rw [hpt, ProducePoint.left, ProducePoint.left, PartitionPoint.made]
    simp
  | found ht hpt _ =>
    refine ProduceCall.left_inside ht ?_
    rw [hpt, ProducePoint.left, ProducePoint.left, PartitionPoint.made]
    simp
  | miss ht hpt _ =>
    refine ProduceCall.left_inside ht ?_
    rw [hpt, ProducePoint.left, ProducePoint.left]
    omega
  | create ht hpt _ =>
    refine ProduceCall.left_inside ht ?_
    rw [hpt, ProducePoint.left, ProducePoint.left, PartitionPoint.made]
    simp
  | close ht hpt _ =>
    rw [ProduceCall.left_of_topic ht, ProduceCall.left_between rfl, hpt, ProducePoint.left]
    simp only [List.length_append, List.length_singleton]
    omega
  | @refuseEntry _ _ _ p _ ht hpt hentry =>
    refine ProduceCall.left_inside ht ?_
    have := (List.getElem?_eq_some_iff.1 hentry).1
    have := p.made_le
    rw [hpt, ProducePoint.left, ProducePoint.left, PartitionPoint.made, List.length_append, List.length_singleton]
    omega
  | @entry _ _ p p' _ _ ht hpt hentry hp =>
    refine ProduceCall.left_inside ht ?_
    have := (List.getElem?_eq_some_iff.1 hentry).1
    have := hp.made_lt
    have := p'.made_le
    rw [hpt, ProducePoint.left, ProducePoint.left]
    omega
  | @answer _ _ p _ _ _ ht hpt hentry _ =>
    refine ProduceCall.left_inside ht ?_
    have := (List.getElem?_eq_some_iff.1 hentry).1
    have := p.made_le
    rw [hpt, ProducePoint.left, ProducePoint.left, PartitionPoint.made, List.length_append, List.length_singleton]
    omega

/-- An id that a topic can get. -/
def FreeId (catalog : CatalogState) (id : Uuid) : Prop := id ≠ 0 ∧ id ∉ catalog.namesById

theorem insertTopic_total {store : TopicStore} (name : String) (count : Nat)
    (h : ∃ id ∈ draws, FreeId store.catalog id) :
    ∃ metadata store', insertTopic store name count draws = some (metadata, store') := by
  obtain ⟨id, hid, hfree⟩ := h
  have hfound : (nextTopicId store.catalog draws).isSome := by
    rw [nextTopicId, List.find?_isSome]
    exact ⟨id, hid, decide_eq_true hfree⟩
  obtain ⟨id', hid'⟩ := Option.isSome_iff_exists.1 hfound
  simp only [insertTopic, hid']
  exact ⟨_, _, rfl⟩

theorem producePartitionStep_total {name : String} {entry : PartitionProduceData} {point : PartitionPoint}
    (hlogs : state.topics.LogsInv crc32c) (hthere : state.topics.LogsThere)
    (hp : point.Ok crc32c state.topics name entry) :
    ∃ state' next, producePartitionStep crc32c state name entry point = some (state', next) := by
  cases point with
  | lookup =>
    unfold producePartitionStep
    dsimp only
    split
    · exact ⟨_, _, rfl⟩
    split
    · exact ⟨_, _, rfl⟩
    rename_i records _
    rcases recordSetProducer_cases crc32c records with ⟨producer, hset⟩ | hset | hset
    · rw [hset]
      cases producer <;> exact ⟨_, _, rfl⟩
    · rw [hset]
      exact ⟨_, _, rfl⟩
    · rw [hset]
      exact ⟨_, _, rfl⟩
  | validate log records producer =>
    unfold producePartitionStep
    dsimp only
    split <;> exact ⟨_, _, rfl⟩
  | append log records =>
    have hinner := List.getElem?_eq_getElem (hthere name entry.index log hp.1)
    obtain ⟨inv, -⟩ := hlogs _ (List.mem_of_getElem? hinner)
    obtain ⟨out, inner', happ, -⟩ := inv.total records
    simp only [producePartitionStep, hinner, Option.bind_eq_bind, Option.bind_some, happ]
    cases out with
    | ok result => dsimp only; split <;> exact ⟨_, _, rfl⟩
    | error error => cases error <;> exact ⟨_, _, rfl⟩
  | notify response => exact ⟨_, _, rfl⟩

variable (config) in
/-- A call can always take its next step, if there is an id for a topic that it may create. -/
theorem produceStep_total (hlogs : state.topics.LogsInv crc32c) (hthere : state.topics.LogsThere)
    (hok : call.Ok crc32c state.topics) (hfree : ∃ id ∈ draws, FreeId state.topics.catalog id) :
    ∃ state' next, produceStep crc32c config state call draws = some (state', next) := by
  cases ht : call.request.topicData[call.responses.length]? with
  | none =>
    simp only [produceStep, ht]
    exact ⟨_, _, rfl⟩
  | some topic =>
    cases hpt : call.point with
    | topic =>
      simp only [produceStep, ht, hpt]
      cases requestError call.request with
      | some error => exact ⟨_, _, rfl⟩
      | none =>
        dsimp only
        rcases getOrAutoCreateRead_cases state.topics.catalog topic.name config.autoCreateTopics with
          hread | ⟨-, ⟨entry, -, hread⟩ | ⟨-, hread⟩⟩ <;> rw [hread]
        · exact ⟨_, _, rfl⟩
        · exact ⟨_, _, rfl⟩
        · cases config.autoCreateTopics <;> exact ⟨_, _, rfl⟩
    | createTopic =>
      simp only [produceStep, ht, hpt]
      unfold getOrAutoCreateWrite
      split
      · exact ⟨_, _, rfl⟩
      · obtain ⟨metadata, store', hinsert⟩ := insertTopic_total topic.name config.defaultPartitions hfree
        rw [hinsert]
        exact ⟨_, _, rfl⟩
    | partitions topicError responses point =>
      simp only [produceStep, ht, hpt]
      cases hentry : topic.partitionData[responses.length]? with
      | none => exact ⟨_, _, rfl⟩
      | some entry =>
        cases topicError with
        | some error => exact ⟨_, _, rfl⟩
        | none =>
          have hpoint := hok.point topic ht
          rw [hpt] at hpoint
          obtain ⟨state₁, next, hstep⟩ := producePartitionStep_total hlogs hthere (hpoint.2 entry hentry)
          simp only [hstep, Option.bind_eq_bind, Option.bind_some]
          cases next <;> exact ⟨_, _, rfl⟩

/-- A step uses up no id but those it draws. -/
theorem ProduceMove.ids {next : ProduceCall ⊕ ProduceResponse}
    (h : ProduceMove crc32c config state call draws state' next) {id : Uuid}
    (hid : id ∈ state'.topics.catalog.namesById) : id ∈ state.topics.catalog.namesById ∨ id ∈ draws := by
  have partition : ∀ {name entry p next}, PartitionMove crc32c state name entry p state' next →
      id ∈ state.topics.catalog.namesById := by
    rintro name entry p next (_ | _ | _ | _ | _ | _ | _ | _) <;> exact hid
  cases h with
  | create ht hpt hw =>
    unfold getOrAutoCreateWrite at hw
    split at hw
    · cases hw
      exact .inl hid
    · obtain ⟨drawn, hdrawn, -, rfl⟩ := insertTopic_eq_some hw
      rcases (AList.mem_insert _).1 hid with rfl | hid
      · exact .inr (List.mem_of_find?_eq_some hdrawn)
      · exact .inl hid
  | entry _ _ _ hp => exact .inl (partition hp)
  | answer _ _ _ hp => exact .inl (partition hp)
  | _ => exact .inl hid

theorem CatalogStep.logsThere {store store' : TopicStore} (h : CatalogStep store store') (hthere : store.LogsThere) :
    store'.LogsThere := by
  cases h with
  | same => exact hthere
  | insert name count draws metadata hnew h =>
    obtain ⟨id, -, -, rfl⟩ := insertTopic_eq_some h
    intro topic index log hlog
    rw [List.length_append, List.length_replicate]
    simp only [CatalogState.partition, lookup_insert_eq] at hlog
    split at hlog
    · cases hlog
    rename_i hindex
    split at hlog
    · have hmem := List.mem_range'_1.1 (List.mem_of_getElem? hlog)
      exact hmem.2
    · have hold := hthere topic index log (by rw [CatalogState.partition, if_neg hindex]; exact hlog)
      exact hold.trans_le (Nat.le_add_right _ _)

theorem ProduceMove.logsThere {next : ProduceCall ⊕ ProduceResponse}
    (h : ProduceMove crc32c config state call draws state' next) (hthere : state.topics.LogsThere) :
    state'.topics.LogsThere := by
  have partition : ∀ {name entry p next}, PartitionMove crc32c state name entry p state' next →
      state'.topics.LogsThere := by
    rintro name entry p next (_ | _ | _ | _ | _ | _ | _ | _)
    all_goals first | exact hthere | skip
    all_goals
      intro topic index log hlog
      rw [List.length_set]
      exact hthere topic index log hlog
  cases h with
  | create ht hpt hw => exact (getOrAutoCreateWrite_step hw).logsThere hthere
  | entry _ _ _ hp => exact partition hp
  | answer _ _ _ hp => exact partition hp
  | _ => exact hthere

/-- With enough ids that are free and differ from each other, a call comes to its end. -/
theorem runProduce_total {ids : List Uuid} (hthere : state.topics.LogsThere) (h : Alone crc32c initial state call)
    (hleft : call.left ≤ ids.length) (hnodup : ids.Nodup) (hfree : ∀ id ∈ ids, FreeId state.topics.catalog id) :
    ∃ state' response, runProduce crc32c config (ids.map fun id => [id]) state call = some (state', response) := by
  induction ids generalizing state call with
  | nil =>
    have hpos : 0 < call.left := by
      unfold ProduceCall.left
      split <;> simp
    simp at hleft
    omega
  | cons id ids ih =>
    obtain ⟨hid, hnodup⟩ := List.nodup_cons.1 hnodup
    obtain ⟨state₁, next, hstep⟩ := produceStep_total config h.logs hthere h.ok
      ⟨id, List.mem_singleton_self id, hfree id (by simp)⟩
    have hmove := produceStep_cases hstep
    rw [List.map_cons, runProduce, hstep]
    cases next with
    | inr response => exact ⟨state₁, response, rfl⟩
    | inl call₁ =>
      have hlt := hmove.left_lt
      rw [List.length_cons] at hleft
      refine ih (hmove.logsThere hthere) (hmove.alone h).2 (by omega) hnodup ?_
      intro id' hid'
      obtain ⟨hne, hnew⟩ := hfree id' (by simp [hid'])
      refine ⟨hne, fun hmem => ?_⟩
      rcases hmove.ids hmem with hmem | hmem
      · exact hnew hmem
      · rw [List.mem_singleton.1 hmem] at hid'
        exact hid hid'

end

/-! ### Reachable states -/

theorem BrokerState.step_logsThere {crc32c : Bytes → UInt32} {config : BrokerConfig} {s s' : BrokerState}
    {label : BrokerLabel} {reply : BrokerReply} (hthere : s.data.topics.LogsThere)
    (h : s.step crc32c config label = some (reply, s')) : s'.data.topics.LogsThere := by
  cases step_cases h with
  | goesOn _ hmove => exact hmove.logsThere hthere
  | ends _ hmove => exact hmove.logsThere hthere
  | catalog _ _ hstep => exact hstep.logsThere hthere
  | _ => exact hthere

theorem broker_logsThere {crc32c : Bytes → UInt32} {config : BrokerConfig} {tr : List BrokerEvent} {s : BrokerState}
    (hrun : (broker crc32c config).Run tr s) : s.data.topics.LogsThere := by
  refine Machine.Run.invariant (M := broker crc32c config) (P := fun s => s.data.topics.LogsThere) ?_ ?_ hrun
  · intro topic index log h
    simp [broker, BrokerState.new, DataState.init, TopicStore.default, CatalogState.partition] at h
  · exact fun e he hthere => BrokerState.step_logsThere hthere he

/-- Partial failure of Produce. From every state of the broker, a call that runs alone ends, and its response has one
entry for each entry of the request, in its order. A request refused as a whole changes nothing. Otherwise
the logs are those of before, and empty ones for the topics it created, with the record sets of exactly the
entries answered with code 0 appended in the order of the request, at the base offsets reported. -/
theorem produce_is_exact (crc32c : Bytes → UInt32) (config : BrokerConfig) (tr : List BrokerEvent) (s : BrokerState)
    (hrun : (broker crc32c config).Run tr s) (request : ProduceRequest) :
    (∃ n, ∀ ids : List Uuid, n ≤ ids.length → ids.Nodup → (∀ id ∈ ids, FreeId s.data.topics.catalog id) →
      ∃ state response, runProduce crc32c config (ids.map fun id => [id]) s.data (.start request) = some (state, response)) ∧
    ∀ draws state response, runProduce crc32c config draws s.data (.start request) = some (state, response) →
      response.responses.map (fun topic => (topic.name, topic.partitionResponses.map (·.index))) =
        request.topicData.map (fun topic => (topic.name, topic.partitionData.map (·.index))) ∧
      (¬ (-1 ≤ request.acks ∧ request.acks ≤ 1) ∨ request.transactionalId ≠ none → state = s.data ∧
        ∀ topic ∈ response.responses, ∀ answer ∈ topic.partitionResponses, answer.errorCode ≠ 0) ∧
      state.producers = s.data.producers ∧
      (acceptedEntries request response.responses).foldlM (storeEntry crc32c state.topics.catalog)
        (s.data.topics.logs ++ List.replicate (state.topics.logs.length - s.data.topics.logs.length) .default) =
          some state.topics.logs ∧
      (∀ topic index log, s.data.topics.catalog.partition topic index = some log →
        state.topics.catalog.partition topic index = some log) ∧
      ∀ (i j : Nat) topic topicResponse entry answer, request.topicData[i]? = some topic →
        response.responses[i]? = some topicResponse → topic.partitionData[j]? = some entry →
        topicResponse.partitionResponses[j]? = some answer → answer.errorCode = 0 →
        ∃ records vs log inner, entry.records = some records ∧ validateRecordSet crc32c records = ok vs ∧
          state.topics.catalog.partition topic.name entry.index = some log ∧ state.topics.logs[log]? = some inner ∧
          storedBatches answer.baseOffset vs <:+: inner.batches := by
  have hstart : Alone crc32c s.data s.data (.start request) := .start (broker_answered hrun).1.logs request
  refine ⟨⟨(ProduceCall.start request).left, ?_⟩, ?_⟩
  · exact fun ids hleft hnodup hfree => runProduce_total (broker_logsThere hrun) hstart hleft hnodup hfree
  · intro draws state response hproduce
    have hdone := runProduce_done hstart hproduce
    refine ⟨hdone.shape, ?_, hdone.producers, hdone.folded.created, hdone.grown.partition, ?_⟩
    · intro hbad
      obtain ⟨error, herror⟩ : ∃ error, requestError request = some error := by
        unfold requestError
        split
        · exact ⟨_, rfl⟩
        · rename_i hacks
          rw [if_pos (Option.isSome_iff_ne_none.2 (hbad.resolve_left hacks))]
          exact ⟨_, rfl⟩
      obtain ⟨hstate, hrefused⟩ := hdone.refused error herror
      refine ⟨hstate, fun topic htopic answer hanswer => ?_⟩
      rw [hrefused topic htopic answer hanswer]
      exact error.code_ne_zero
    · intro i j topic topicResponse entry answer htopic hresponse hentry hanswer hcode
      exact hdone.answered i topic topicResponse htopic hresponse j entry answer hentry hanswer hcode

/-- A record set, an entry for a partition that is not there, and the record set again. -/
def sampleMixed : ProduceRequest :=
  ⟨1, none, [⟨"events", [⟨0, some (sampleFrame 1 0 0 2)⟩, ⟨5, some (sampleFrame 1 0 0 2)⟩, ⟨0, some (sampleFrame 1 0 0 2)⟩]⟩]⟩

theorem produce_is_exact_mixed : ∃ tr s state response,
    (broker castagnoli ⟨true, 1⟩).exec .new (sampleProduceRun.take 2) = some (tr, s) ∧
    runProduce castagnoli ⟨true, 1⟩ (List.replicate 12 []) s.data (.start sampleMixed) = some (state, response) ∧
    response.responses = [⟨"events", [⟨0, 0, 0, -1, 0⟩, ⟨5, 3, -1, -1, 0⟩, ⟨0, 0, 0, -1, 0⟩]⟩] ∧
    acceptedEntries sampleMixed response.responses =
      [("events", ⟨0, some (sampleFrame 1 0 0 2)⟩), ("events", ⟨0, some (sampleFrame 1 0 0 2)⟩)] ∧
    (acceptedEntries sampleMixed response.responses).foldlM (storeEntry castagnoli state.topics.catalog)
      (s.data.topics.logs ++ List.replicate (state.topics.logs.length - s.data.topics.logs.length) .default) =
        some state.topics.logs := by
  have hsome : ((broker castagnoli ⟨true, 1⟩).exec .new (sampleProduceRun.take 2)).bind (fun r =>
      (runProduce castagnoli ⟨true, 1⟩ (List.replicate 12 []) r.2.data (.start sampleMixed)).map fun p => p.2.responses) =
      some [⟨"events", [⟨0, 0, 0, -1, 0⟩, ⟨5, 3, -1, -1, 0⟩, ⟨0, 0, 0, -1, 0⟩]⟩] := by decide +kernel
  obtain ⟨⟨tr, s⟩, hx, hbind⟩ := Option.bind_eq_some_iff.1 hsome
  obtain ⟨⟨state, response⟩, hproduce, hresponses⟩ := Option.map_eq_some_iff.1 hbind
  obtain ⟨-, hexact⟩ := produce_is_exact castagnoli ⟨true, 1⟩ tr s (Machine.exec_path hx).1 sampleMixed
  obtain ⟨-, -, -, hfold, -⟩ := hexact _ state response hproduce
  refine ⟨tr, s, state, response, hx, hproduce, hresponses, ?_, hfold⟩
  rw [show response.responses = _ from hresponses]
  decide +kernel

end MemKafka
