import MemKafka.Broker

/-!
# Producer identities

Produce asks the producer coordinator about the identity of a record set under one lock and appends the record
set under another. Identities are never taken back, so that what the coordinator confirmed still holds at the
append: every identity in a log is one the coordinator handed out (`LogIdentities`), and so is the one a
call is about to append (`PartitionPoint.Identified`).
-/

namespace MemKafka
open Kit Outcome

/-- The coordinator holds this epoch for the producer. -/
def ProducerCoordinatorInner.Holds (producers : ProducerCoordinatorInner) (producerId producerEpoch : Int) : Prop :=
  producers.epochs.lookup producerId = some producerEpoch

/-- The identities in a log: of its batches and of the states it keeps. -/
structure LogIdentities (producers : ProducerCoordinatorInner) (inner : PartitionLogInner) : Prop where
  batches : ∀ b ∈ inner.batches, frameProducerId b.bytes ≠ noProducerId →
    producers.Holds (frameProducerId b.bytes) (frameProducerEpoch b.bytes)
  states : ∀ p state, inner.producerStates.lookup p = some state → producers.Holds p state.producerEpoch

section
variable (crc32c : Bytes → UInt32) (producers : ProducerCoordinatorInner)

/-- The identity of a record set, if it has one, is held. -/
def RecordsIdentified (records : Bytes) : Prop :=
  ∀ producer, recordSetProducer crc32c records = ok (some producer) →
    producers.Holds producer.producerId producer.producerEpoch

def PartitionPoint.Identified : PartitionPoint → Prop
  | .lookup => True
  | .validate _ records producer => recordSetProducer crc32c records = ok (some producer)
  | .append _ records => RecordsIdentified crc32c producers records
  | .notify _ => True

def ProducePoint.Identified : ProducePoint → Prop
  | .topic => True
  | .createTopic => True
  | .partitions _ _ point => point.Identified crc32c producers

/-- Every identity in the logs and in the calls under way is held. -/
structure IdentityInv (s : BrokerState) : Prop where
  logs : ∀ inner ∈ s.data.topics.logs, LogIdentities s.data.producers inner
  calls : ∀ call produce, s.produceCalls.lookup call = some produce →
    produce.point.Identified crc32c s.data.producers

end

variable {crc32c : Bytes → UInt32} {producers producers' : ProducerCoordinatorInner}

/-- The branch of `append` for a record set whose epoch is not the one of its producer's state. -/
def EpochMismatch (inner : PartitionLogInner) (request : PreparedAppend) : Prop :=
  ∃ producer state, request.producer = some producer ∧
    inner.producerStates.lookup producer.producerId = some state ∧ state.producerEpoch ≠ producer.producerEpoch

/-! ### Appends -/

section
variable {inner inner' : PartitionLogInner} {records : Bytes} {request : PreparedAppend}
  {out : Except AppendError AppendResult}

theorem LogIdentities.default : LogIdentities producers .default where
  batches b hb := by cases hb
  states p state h := by cases h

theorem LogIdentities.mono (h : LogIdentities producers inner)
    (hmono : ∀ id epoch, producers.Holds id epoch → producers'.Holds id epoch) : LogIdentities producers' inner :=
  ⟨fun b hb hid => hmono _ _ (h.batches b hb hid), fun p state hs => hmono _ _ (h.states p state hs)⟩

theorem ProducePoint.Identified.mono {point : ProducePoint} (h : point.Identified crc32c producers)
    (hmono : ∀ id epoch, producers.Holds id epoch → producers'.Holds id epoch) :
    point.Identified crc32c producers' := by
  cases point with
  | topic => trivial
  | createTopic => trivial
  | partitions topicError responses point =>
    cases point with
    | lookup => trivial
    | validate log records producer => exact h
    | append log records => exact fun producer hproducer => hmono _ _ (h producer hproducer)
    | notify response => trivial

/-- The identity of the batches that a record set is stored as. -/
theorem IsPrepared.stored_identity (hq : IsPrepared crc32c records request) {o : Int} {b : StoredBatch}
    (hb : b ∈ storedBatches o request.validated) (hid : frameProducerId b.bytes ≠ noProducerId) :
    request.producer = some ⟨frameProducerId b.bytes, frameProducerEpoch b.bytes⟩ := by
  obtain ⟨v, hv, hstores⟩ := forall₂_mem_left (storedBatches_stores (fun v hv => (hq.set.frames v hv).2) o) hb
  rw [hq.producer v hv, hstores.producerId, hstores.producerEpoch]
  rw [hstores.producerId] at hid
  exact if_pos hid

theorem LogIdentities.step (h : LogIdentities producers inner) (hr : RecordsIdentified crc32c producers records)
    (hs : AppendStep crc32c inner records out inner') : LogIdentities producers inner' := by
  cases hs with
  | rejected => exact h
  | replayed => exact h
  | @appended request next hq ha hle =>
    have hheld : ∀ producer, request.producer = some producer →
        producers.Holds producer.producerId producer.producerEpoch := by
      intro producer hp
      exact hr producer (by rw [hq.recordSetProducer_eq, hp])
    refine ⟨?_, ?_⟩
    · intro b hb hid
      rcases List.mem_append.1 hb with hb | hb
      · exact h.batches b hb hid
      · exact hheld _ (hq.stored_identity hb hid)
    · intro p state hl
      rcases admission_fresh ha with ⟨hprod, rfl⟩ | ⟨producer, expected, hprod, hexp, -, rfl⟩
      · rw [appendTo_states_none hprod] at hl
        exact h.states p state hl
      rw [appendTo_states_some hprod, lookup_recordAppend] at hl
      split at hl
      · subst p
        obtain rfl := Option.some.inj hl
        cases hold : inner.producerStates.lookup producer.producerId with
        | none => exact hheld producer hprod
        | some state => exact h.states _ state hold
      · exact h.states p state hl

/-- A record set whose identity is held never meets a state with another epoch. -/
theorem LogIdentities.no_mismatch (h : LogIdentities producers inner) (hr : RecordsIdentified crc32c producers records)
    (hq : prepareAppend crc32c records = ok request) : ¬ EpochMismatch inner request := by
  rintro ⟨producer, state, hp, hl, hne⟩
  have hheld := hr producer (by rw [(prepareAppend_ok hq).recordSetProducer_eq, hp])
  exact hne (Option.some.inj ((h.states _ state hl).symm.trans hheld))

end

/-! ### Produce calls -/

section
variable {state state' : DataState} {topic : String} {request : PartitionProduceData} {config : BrokerConfig}

/-- What a step of a call leaves: the same coordinator, and logs that still have its identities only. -/
structure KeepsIdentities (state state' : DataState) : Prop where
  producers : state'.producers = state.producers
  logs : ∀ inner ∈ state'.topics.logs, LogIdentities state.producers inner

theorem validate_ok_iff {producerId producerEpoch : Int} :
    producers.validate producerId producerEpoch = .ok () ↔ producers.Holds producerId producerEpoch := by
  unfold ProducerCoordinatorInner.validate ProducerCoordinatorInner.Holds
  cases producers.epochs.lookup producerId with
  | none => simp
  | some epoch => simp

theorem PartitionMove.identities {point : PartitionPoint} {next : PartitionPoint ⊕ PartitionProduceResponse}
    (hinv : state.topics.LogsInv crc32c) (hlogs : ∀ inner ∈ state.topics.logs, LogIdentities state.producers inner)
    (hp : point.Identified crc32c state.producers) (h : PartitionMove crc32c state topic request point state' next) :
    KeepsIdentities state state' ∧ ∀ point, next = .inl point → point.Identified crc32c state.producers := by
  have hset : ∀ {log records inner inner' out}, state.topics.logs[log]? = some inner →
      append crc32c inner records = some (out, inner') → RecordsIdentified crc32c state.producers records →
      ∀ other ∈ state.topics.logs.set log inner', LogIdentities state.producers other := by
    intro log records inner inner' out hinner happ hr other hother
    have hmem := List.mem_of_getElem? hinner
    rcases List.mem_or_eq_of_mem_set hother with hother | rfl
    · exact hlogs other hother
    · exact (hlogs inner hmem).step hr (append_step (hinv inner hmem).1.range happ)
  cases h with
  | refuse _ error => exact ⟨⟨rfl, hlogs⟩, by rintro _ ⟨⟩⟩
  | identify _ _ hproducer => exact ⟨⟨rfl, hlogs⟩, by rintro _ ⟨⟩; exact hproducer⟩
  | pass _ _ hnone =>
    refine ⟨⟨rfl, hlogs⟩, ?_⟩
    rintro _ ⟨⟩ producer hproducer
    cases ok_inj.1 (hnone.symm.trans hproducer)
  | validate hvalid =>
    refine ⟨⟨rfl, hlogs⟩, ?_⟩
    rintro _ ⟨⟩ producer hproducer
    obtain rfl := Option.some.inj (ok_inj.1 (hp.symm.trans hproducer))
    exact validate_ok_iff.1 hvalid
  | reject hinner happ code => exact ⟨⟨rfl, hset hinner happ hp⟩, by rintro _ ⟨⟩⟩
  | store hinner happ _ => exact ⟨⟨rfl, hset hinner happ hp⟩, by rintro _ ⟨⟩; trivial⟩
  | replay hinner happ _ => exact ⟨⟨rfl, hset hinner happ hp⟩, by rintro _ ⟨⟩⟩
  | notify response => exact ⟨⟨rfl, hlogs⟩, by rintro _ ⟨⟩⟩

/-- New logs have no identities. -/
theorem CatalogStep.identities {topics : TopicStore} (h : CatalogStep state.topics topics)
    (hlogs : ∀ inner ∈ state.topics.logs, LogIdentities state.producers inner) :
    ∀ inner ∈ topics.logs, LogIdentities state.producers inner := by
  intro inner hi
  rcases h.mem_logs hi with hi | rfl
  · exact hlogs inner hi
  · exact .default

theorem ProduceMove.identities {call : ProduceCall} {draws : List Uuid} {next : ProduceCall ⊕ ProduceResponse}
    (h : ProduceMove crc32c config state call draws state' next) (hinv : state.topics.LogsInv crc32c)
    (hlogs : ∀ inner ∈ state.topics.logs, LogIdentities state.producers inner)
    (hp : call.point.Identified crc32c state.producers) :
    KeepsIdentities state state' ∧ ∀ call, next = .inl call → call.point.Identified crc32c state.producers := by
  -- a step that moves the call to a point without an identity
  have move : ∀ {state'} {call' : ProduceCall}, KeepsIdentities state state' →
      call'.point.Identified crc32c state.producers →
      KeepsIdentities state state' ∧ ∀ call, Sum.inl call' = (.inl call : ProduceCall ⊕ ProduceResponse) →
        call.point.Identified crc32c state.producers := by
    rintro state' call' hkeeps hpoint
    exact ⟨hkeeps, by rintro _ ⟨⟩; exact hpoint⟩
  have same : KeepsIdentities state state := ⟨rfl, hlogs⟩
  cases h with
  | finish _ => exact ⟨same, by rintro _ ⟨⟩⟩
  | refuse _ _ _ _ => exact move same trivial
  | found _ _ _ => exact move same trivial
  | miss _ _ _ => exact move same trivial
  | create _ _ hw => exact move ⟨rfl, (getOrAutoCreateWrite_step hw).identities hlogs⟩ trivial
  | close _ _ _ => exact move same trivial
  | refuseEntry _ _ _ => exact move same trivial
  | entry _ hpt _ hmove =>
    rw [hpt] at hp
    obtain ⟨hkeeps, hpoint⟩ := hmove.identities hinv hlogs hp
    exact move hkeeps (hpoint _ rfl)
  | answer _ hpt _ hmove =>
    rw [hpt] at hp
    exact move (hmove.identities hinv hlogs hp).1 trivial

end

/-! ### The coordinator -/

/-- The ids that the successful allocations of a run returned, oldest first. -/
def allocatedIds (tr : List BrokerEvent) : List Int :=
  tr.filterMap fun e => match e.out with
    | .producer (.ok identity) => some identity.producerId
    | _ => none

/-- The coordinator after the allocations of `ids`. -/
structure AllocatedInv (ids : List Int) (producers : ProducerCoordinatorInner) : Prop where
  nonneg : 0 ≤ producers.nextId
  range : ∀ id ∈ ids, 0 < id ∧ id ≤ producers.nextId
  distinct : ids.Nodup
  held : ∀ id epoch, producers.Holds id epoch → id ∈ ids

theorem AllocatedInv.new : AllocatedInv [] .new where
  nonneg := le_rfl
  range id h := by cases h
  distinct := List.nodup_nil
  held id epoch h := by cases h

/-- An allocation returns a new id, and every identity stays held. -/
theorem AllocatedInv.allocate {ids : List Int} (h : AllocatedInv ids producers)
    {result : Except ProducerError ProducerIdentity} (ha : producers.allocate = (result, producers')) :
    (∀ id epoch, producers.Holds id epoch → producers'.Holds id epoch) ∧
      ((∃ error, result = .error error) ∧ AllocatedInv ids producers' ∨
      ∃ identity, result = .ok identity ∧ AllocatedInv (ids ++ [identity.producerId]) producers') := by
  unfold ProducerCoordinatorInner.allocate at ha
  split at ha
  · cases ha
    exact ⟨fun _ _ h => h, .inl ⟨⟨_, rfl⟩, h⟩⟩
  rename_i producerId hid
  obtain rfl : producerId = producers.nextId + 1 := by
    unfold addI64 at hid
    split at hid
    · exact (Option.some.inj hid).symm
    · cases hid
  cases ha
  have hfresh : producers.nextId + 1 ∉ ids := by
    intro hmem
    have := (h.range _ hmem).2
    omega
  have hnonneg := h.nonneg
  have hlookup : ∀ id, (producers.epochs.insert (producers.nextId + 1) 0).lookup id =
      if id = producers.nextId + 1 then some 0 else producers.epochs.lookup id :=
    fun id => lookup_insert_eq
  refine ⟨?_, .inr ⟨_, rfl, ?_, ?_, ?_, ?_⟩⟩
  · intro id epoch hheld
    refine (hlookup id).trans ?_
    rw [if_neg]
    · exact hheld
    · rintro rfl
      exact hfresh (h.held _ _ hheld)
  · show 0 ≤ producers.nextId + 1
    omega
  · intro id hid
    show 0 < id ∧ id ≤ producers.nextId + 1
    rcases List.mem_append.1 hid with hid | hid
    · have := h.range id hid
      omega
    · rw [List.mem_singleton.1 hid]
      show 0 < producers.nextId + 1 ∧ producers.nextId + 1 ≤ producers.nextId + 1
      omega
  · rw [List.nodup_append]
    refine ⟨h.distinct, List.nodup_singleton _, ?_⟩
    rintro a ha b hb rfl
    have heq : a = producers.nextId + 1 := List.mem_singleton.1 hb
    exact hfresh (heq ▸ ha)
  · intro id epoch hheld
    replace hheld := (hlookup id).symm.trans hheld
    split at hheld
    · subst id; simp
    · exact List.mem_append_left _ (h.held id epoch hheld)

/-! ### Runs -/

section
variable {config : BrokerConfig} {s s' : BrokerState} {reply : BrokerReply}

/-- The ids that a reply adds to those of the run. -/
def replyIds : BrokerReply → List Int
  | .producer (.ok identity) => [identity.producerId]
  | _ => []

theorem allocatedIds_snoc (tr : List BrokerEvent) (e : BrokerEvent) :
    allocatedIds (tr ++ [e]) = allocatedIds tr ++ replyIds e.out := by
  rw [allocatedIds, List.filterMap_append]
  congr 1
  unfold replyIds
  simp only [List.filterMap_cons, List.filterMap_nil]
  split <;> rename_i h
  · split at h
    · cases h
    · rfl
  · split at h
    · cases h
      rfl
    · cases h

theorem BrokerState.step_identities (binv : BrokerInv crc32c s) {ids : List Int} (inv : IdentityInv crc32c s)
    (hids : AllocatedInv ids s.data.producers) {label : BrokerLabel}
    (h : s.step crc32c config label = some (reply, s')) :
    IdentityInv crc32c s' ∧ AllocatedInv (ids ++ replyIds reply) s'.data.producers := by
  have quiet : replyIds reply = [] → s'.data.producers = s.data.producers →
      AllocatedInv (ids ++ replyIds reply) s'.data.producers := by
    intro hreply hproducers
    rw [hreply, hproducers, List.append_nil]
    exact hids
  cases BrokerState.step_cases h with
  | begins call request _ =>
    refine ⟨⟨inv.logs, ?_⟩, quiet rfl rfl⟩
    intro call' produce hl
    rcases lookup_of_insert hl with ⟨-, rfl⟩ | hl
    · exact trivial
    · exact inv.calls call' produce hl
  | goesOn hcall hmove =>
    obtain ⟨⟨hproducers, hlogs⟩, hpoint⟩ := hmove.identities binv.logs inv.logs (inv.calls _ _ hcall)
    refine ⟨⟨by rw [hproducers]; exact hlogs, ?_⟩, quiet rfl hproducers⟩
    intro call' produce' hl
    rw [hproducers]
    rcases lookup_of_insert hl with ⟨-, rfl⟩ | hl
    · exact hpoint _ rfl
    · exact inv.calls call' produce' hl
  | ends hcall hmove =>
    obtain ⟨⟨hproducers, hlogs⟩, -⟩ := hmove.identities binv.logs inv.logs (inv.calls _ _ hcall)
    refine ⟨⟨by rw [hproducers]; exact hlogs, ?_⟩, quiet rfl hproducers⟩
    intro call' produce' hl
    rw [hproducers]
    exact inv.calls call' produce' (lookup_of_erase hl)
  | drops call =>
    exact ⟨⟨inv.logs, fun call' produce hl => inv.calls call' produce (lookup_of_erase hl)⟩, quiet rfl rfl⟩
  | catalog _ _ hstep => exact ⟨⟨hstep.identities inv.logs, inv.calls⟩, quiet rfl rfl⟩
  | allocates ha =>
    obtain ⟨hmono, hresult⟩ := hids.allocate ha
    refine ⟨⟨fun inner hi => (inv.logs inner hi).mono hmono, ?_⟩, ?_⟩
    · exact fun call produce hl => (inv.calls call produce hl).mono hmono
    · rcases hresult with ⟨⟨error, rfl⟩, hids'⟩ | ⟨identity, rfl, hids'⟩
      · simpa [replyIds] using hids'
      · exact hids'
  | reads _ _ => exact ⟨inv, quiet rfl rfl⟩
  | groups _ => exact ⟨⟨inv.logs, inv.calls⟩, quiet rfl rfl⟩

theorem broker_identities {tr : List BrokerEvent} (hrun : (broker crc32c config).Run tr s) :
    IdentityInv crc32c s ∧ AllocatedInv (allocatedIds tr) s.data.producers := by
  refine Machine.Run.induction (M := broker crc32c config)
    (P := fun tr s => IdentityInv crc32c s ∧ AllocatedInv (allocatedIds tr) s.data.producers)
    ⟨⟨fun _ h => (by cases h), fun _ _ h => (by cases h)⟩, .new⟩ ?_ hrun
  rintro tr e hrun ⟨inv, hids⟩ he
  rw [allocatedIds_snoc]
  exact BrokerState.step_identities (broker_answered hrun).1 inv hids he

end

/-- Producer-identity containment. The ids handed out in a run are positive and distinct; every identity in a log is one
of them, with the epoch the coordinator holds for it; and no call of Produce that is about to append a record
set meets a state of its producer with another epoch. -/
theorem identities_are_contained (crc32c : Bytes → UInt32) (config : BrokerConfig) (tr : List BrokerEvent)
    (s : BrokerState) (hrun : (broker crc32c config).Run tr s) :
    (∀ id ∈ allocatedIds tr, 0 < id) ∧ (allocatedIds tr).Nodup ∧
    (∀ inner ∈ s.data.topics.logs,
      (∀ b ∈ inner.batches, frameProducerId b.bytes ≠ -1 → frameProducerId b.bytes ∈ allocatedIds tr ∧
        s.data.producers.epochs.lookup (frameProducerId b.bytes) = some (frameProducerEpoch b.bytes)) ∧
      ∀ p state, inner.producerStates.lookup p = some state → p ∈ allocatedIds tr ∧
        s.data.producers.epochs.lookup p = some state.producerEpoch) ∧
    ∀ call produce topicError responses log records inner request, s.produceCalls.lookup call = some produce →
      produce.point = .partitions topicError responses (.append log records) →
      s.data.topics.logs[log]? = some inner → prepareAppend crc32c records = ok request →
      ¬ EpochMismatch inner request := by
  obtain ⟨inv, hids⟩ := broker_identities hrun
  refine ⟨fun id hid => (hids.range id hid).1, hids.distinct, ?_, ?_⟩
  · intro inner hi
    have hlog := inv.logs inner hi
    refine ⟨?_, ?_⟩
    · intro b hb hid
      have hheld := hlog.batches b hb hid
      exact ⟨hids.held _ _ hheld, hheld⟩
    · intro p state hl
      have hheld := hlog.states p state hl
      exact ⟨hids.held _ _ hheld, hheld⟩
  · intro call produce topicError responses log records inner request hcall hpoint hinner hq
    have hp := inv.calls call produce hcall
    rw [hpoint] at hp
    exact (inv.logs inner (List.mem_of_getElem? hinner)).no_mismatch hp hq

/-- The run of `sampleProduceRun` up to the second append, which finds the state that the first one left. -/
theorem identities_are_contained_replay :
    ∃ tr s, (broker castagnoli ⟨true, 1⟩).exec .new (sampleProduceRun.take 10) = some (tr, s) ∧ allocatedIds tr = [1] ∧
      ∃ produce responses inner request, s.produceCalls.lookup 0 = some produce ∧
        produce.point = .partitions none responses (.append 0 (sampleFrame 1 0 0 2)) ∧
        s.data.topics.logs[0]? = some inner ∧ inner.producerStates.lookup 1 ≠ none ∧
        prepareAppend castagnoli (sampleFrame 1 0 0 2) = ok request ∧ ¬ EpochMismatch inner request := by
  have hsome : (((broker castagnoli ⟨true, 1⟩).exec .new (sampleProduceRun.take 10)).map fun r =>
      (allocatedIds r.1, (r.2.produceCalls.lookup 0).map (·.point),
        r.2.data.topics.logs[0]?.map fun inner => (inner.producerStates.lookup 1).isSome)) =
      some ([1], some (.partitions none [⟨0, 0, 0, -1, 0⟩] (.append 0 (sampleFrame 1 0 0 2))), some true) := by
    decide +kernel
  obtain ⟨⟨tr, s⟩, hx, heq⟩ := Option.map_eq_some_iff.1 hsome
  simp only [Prod.mk.injEq, Option.map_eq_some_iff] at heq
  obtain ⟨hids, ⟨produce, hcall, hpoint⟩, inner, hinner, hstate⟩ := heq
  have hprepared : ((prepareAppend castagnoli (sampleFrame 1 0 0 2)).run.map fun r => r.toOption.isSome) = some true := by
    decide +kernel
  obtain ⟨result, hrun, hok⟩ := Option.map_eq_some_iff.1 hprepared
  obtain ⟨request, rfl⟩ : ∃ request, result = .ok request := by
    cases result with
    | error error => cases hok
    | ok request => exact ⟨request, rfl⟩
  obtain ⟨-, -, -, hno⟩ := identities_are_contained castagnoli ⟨true, 1⟩ tr s (Machine.exec_path hx).1
  exact ⟨tr, s, hx, hids, produce, _, inner, request, hcall, hpoint, hinner,
    Option.isSome_iff_ne_none.1 hstate, hrun, hno 0 produce none _ 0 _ inner request hcall hpoint hinner hrun⟩

end MemKafka
