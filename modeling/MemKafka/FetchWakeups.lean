import MemKafka.FetchBytes

/-!
# A parked Fetch misses nothing

What a Fetch call has read is compared with reading it again now. As long as the notification has not come and no Produce
call stands between its append and its notification, no log was written since the notification was enabled, and
reading the partitions again gives as many bytes (`FetchCall.Ok`).
-/

namespace MemKafka
open Kit

/-! ### Broker steps -/

/-- No notification has come since the ticket was taken, and none is owed. -/
structure Undisturbed (b : BrokerState) (ticket : Nat) : Prop where
  silent : b.data.appendNotifications = ticket
  idle : ∀ call produce, b.produceCalls.lookup call = some produce → produce.notifying = false

/-- A call stands before a notification only where its next step is that notification. -/
def ProduceCall.Poised (call : ProduceCall) : Prop :=
  ∀ topicError responses response, call.point = .partitions topicError responses (.notify response) →
    topicError = none ∧ ∃ topic entry, call.request.topicData[call.responses.length]? = some topic ∧
      topic.partitionData[responses.length]? = some entry

/-- What a broker step does to a call that waits. -/
structure Disturbs (b b' : BrokerState) : Prop where
  notifications : b.data.appendNotifications ≤ b'.data.appendNotifications
  partition : ∀ topic index log, b.data.topics.catalog.partition topic index = some log →
    b'.data.topics.catalog.partition topic index = some log
  undisturbed : ∀ ticket, ticket ≤ b.data.appendNotifications → Undisturbed b' ticket →
    Undisturbed b ticket ∧ Unwritten b.data.topics b'.data.topics

section
variable {crc32c : Bytes → UInt32} {config : BrokerConfig} {state state' : DataState} {call : ProduceCall}
  {draws : List Uuid}

theorem not_notifying {call : ProduceCall}
    (h : ∀ topicError responses response, call.point ≠ .partitions topicError responses (.notify response)) :
    call.notifying = false := by
  unfold ProduceCall.notifying
  split
  · exact absurd ‹_› (h _ _ _)
  · rfl

theorem PartitionMove.written {name : String} {entry : PartitionProduceData} {point : PartitionPoint}
    {next : PartitionPoint ⊕ PartitionProduceResponse} (hinv : state.topics.LogsInv crc32c)
    (h : PartitionMove crc32c state name entry point state' next) :
    ((∃ response, point = .notify response) ∧ state'.appendNotifications = state.appendNotifications + 1) ∨
    (∃ response, next = .inl (.notify response)) ∧ state'.appendNotifications = state.appendNotifications ∨
    state' = state ∧ (∀ response, point ≠ .notify response) ∧ ∀ response, next ≠ .inl (.notify response) := by
  cases h with
  | refuse early error => exact .inr (.inr ⟨rfl, early, by simp⟩)
  | identify _ _ _ => exact .inr (.inr ⟨rfl, by simp, by simp⟩)
  | pass _ _ _ => exact .inr (.inr ⟨rfl, by simp, by simp⟩)
  | validate _ => exact .inr (.inr ⟨rfl, by simp, by simp⟩)
  | reject hinner happ code =>
    rw [append_nothing hinv hinner happ (by simp)]
    exact .inr (.inr ⟨rfl, by simp, by simp⟩)
  | store _ _ _ => exact .inr (.inl ⟨⟨_, rfl⟩, rfl⟩)
  | replay hinner happ hold =>
    rw [append_nothing hinv hinner happ (by rintro _ ⟨⟩; exact hold)]
    exact .inr (.inr ⟨rfl, by simp, by simp⟩)
  | notify response => exact .inl ⟨⟨response, rfl⟩, rfl⟩

/-- The steps of a Produce call: a notification that was owed, an append after which one is owed, or neither. -/
theorem ProduceMove.written {next : ProduceCall ⊕ ProduceResponse} (hinv : state.topics.LogsInv crc32c)
    (hpoised : call.Poised) (h : ProduceMove crc32c config state call draws state' next) :
    (call.notifying = true ∧ state'.appendNotifications = state.appendNotifications + 1) ∨
    (∃ call', next = .inl call' ∧ call'.notifying = true) ∧ state'.appendNotifications = state.appendNotifications ∨
    state'.appendNotifications = state.appendNotifications ∧ Unwritten state.topics state'.topics ∧
      call.notifying = false := by
  have partition : ∀ {topicError responses p}, call.point = .partitions topicError responses p →
      (∀ response, p ≠ .notify response) → call.notifying = false := by
    intro topicError responses p hpt hp
    refine not_notifying ?_
    rintro _ _ response hpt'
    rw [hpt] at hpt'
    cases hpt'
    exact hp response rfl
  cases h with
  | finish hrest =>
    refine .inr (.inr ⟨rfl, .refl _, not_notifying ?_⟩)
    intro topicError responses response hpt
    obtain ⟨-, topic, entry, ht, -⟩ := hpoised _ _ _ hpt
    rw [hrest] at ht; cases ht
  | refuse _ hpt _ _ => exact .inr (.inr ⟨rfl, .refl _, not_notifying (by simp [hpt])⟩)
  | found _ hpt _ => exact .inr (.inr ⟨rfl, .refl _, not_notifying (by simp [hpt])⟩)
  | miss _ hpt _ => exact .inr (.inr ⟨rfl, .refl _, not_notifying (by simp [hpt])⟩)
  | create _ hpt hw =>
    exact .inr (.inr ⟨rfl, (getOrAutoCreateWrite_step hw).unwritten, not_notifying (by simp [hpt])⟩)
  | close ht hpt hrest =>
    refine .inr (.inr ⟨rfl, .refl _, partition hpt ?_⟩)
    rintro response rfl
    obtain ⟨-, topic, entry, ht', hentry⟩ := hpoised _ _ _ hpt
    obtain rfl := Option.some.inj (ht.symm.trans ht')
    rw [hrest] at hentry; cases hentry
  | refuseEntry _ hpt _ =>
    refine .inr (.inr ⟨rfl, .refl _, partition hpt ?_⟩)
    rintro response rfl
    cases (hpoised _ _ _ hpt).1
  | entry _ hpt _ hp =>
    rcases hp.written hinv with ⟨⟨response, rfl⟩, hcount⟩ | ⟨⟨response, hnext⟩, hcount⟩ | ⟨rfl, hearly, -⟩
    · exact .inl ⟨by simp only [ProduceCall.notifying, hpt], hcount⟩
    · cases hnext
      exact .inr (.inl ⟨⟨_, rfl, rfl⟩, hcount⟩)
    · exact .inr (.inr ⟨rfl, .refl _, partition hpt hearly⟩)
  | answer _ hpt _ hp =>
    rcases hp.written hinv with ⟨⟨response, rfl⟩, hcount⟩ | ⟨⟨response, hnext⟩, -⟩ | ⟨rfl, hearly, -⟩
    · exact .inl ⟨by simp only [ProduceCall.notifying, hpt], hcount⟩
    · cases hnext
    · exact .inr (.inr ⟨rfl, .refl _, partition hpt hearly⟩)

theorem ProduceMove.poised {next : ProduceCall ⊕ ProduceResponse}
    (h : ProduceMove crc32c config state call draws state' next) : ∀ call', next = .inl call' → call'.Poised := by
  rintro call' rfl topicError responses response hpt
  cases h with
  | entry ht _ hentry _ =>
    cases hpt
    exact ⟨rfl, _, _, ht, hentry⟩
  | _ => cases hpt

/-! ### The broker -/

variable {s s' : BrokerState} {reply : BrokerReply}

theorem Disturbs.of_data (hdata : s'.data = s.data)
    (hcalls : ∀ call produce, s.produceCalls.lookup call = some produce → produce.notifying = true →
      s'.produceCalls.lookup call = some produce) : Disturbs s s' := by
  refine ⟨by rw [hdata], fun topic index log h => by rw [hdata]; exact h, ?_⟩
  intro ticket _ h
  refine ⟨⟨by rw [← hdata]; exact h.silent, ?_⟩, by rw [hdata]; exact .refl _⟩
  intro call produce hl
  by_contra hne
  have hnotifying : produce.notifying = true := by simpa using hne
  exact absurd hnotifying (by simp [h.idle call produce (hcalls call produce hl hnotifying)])

theorem Disturbs.of_catalog {topics : TopicStore} (h : CatalogStep s.data.topics topics) :
    Disturbs s { s with data := { s.data with topics := topics } } :=
  ⟨le_rfl, h.extends.partition, fun _ _ hu => ⟨⟨hu.silent, hu.idle⟩, h.unwritten⟩⟩

/-- A step of a Produce call, which is then `next`. -/
theorem Disturbs.of_move {call : Nat} {produce : ProduceCall} {next : ProduceCall ⊕ ProduceResponse}
    (hcall : s.produceCalls.lookup call = some produce)
    (hmove : ProduceMove crc32c config s.data produce draws s'.data next) (inv : BrokerInv crc32c s)
    (hpoised : produce.Poised)
    (hothers : ∀ call', call' ≠ call → s'.produceCalls.lookup call' = s.produceCalls.lookup call')
    (hown : ∀ produce', next = .inl produce' → s'.produceCalls.lookup call = some produce') : Disturbs s s' := by
  have hgrown := (hmove.ok inv.logs (inv.calls call produce hcall)).grown
  rcases hmove.written inv.logs hpoised with ⟨-, hcount⟩ | ⟨⟨produce', hnext, hnotifying⟩, hcount⟩ | ⟨hcount, hunwritten, hquiet⟩
  · refine ⟨by omega, hgrown.partition, ?_⟩
    intro ticket hle h
    have := h.silent
    omega
  · refine ⟨by omega, hgrown.partition, ?_⟩
    intro ticket _ h
    exact absurd hnotifying (by simp [h.idle call produce' (hown produce' hnext)])
  · refine ⟨by omega, hgrown.partition, ?_⟩
    intro ticket _ h
    refine ⟨⟨hcount.symm.trans h.silent, ?_⟩, hunwritten⟩
    intro call' produce' hl
    by_cases heq : call' = call
    · subst heq
      obtain rfl := Option.some.inj (hcall.symm.trans hl)
      exact hquiet
    · exact h.idle call' produce' ((hothers call' heq).trans hl)

theorem stepBroker_step {f : FetchingBroker} {label : BrokerLabel}
    (h : f.stepBroker crc32c config label = some (reply, s')) :
    f.broker.step crc32c config label = some (reply, s') := by
  unfold FetchingBroker.stepBroker at h
  split at h
  · split at h
    · cases h
    · exact h
  · exact h

/-- A step of the broker that drops no call before its notification. -/
theorem stepBroker_disturbs {f : FetchingBroker} {label : BrokerLabel} (inv : BrokerInv crc32c f.broker)
    (hpoised : ∀ call produce, f.broker.produceCalls.lookup call = some produce → produce.Poised)
    (h : f.stepBroker crc32c config label = some (reply, s')) :
    Disturbs f.broker s' ∧ ∀ call produce, s'.produceCalls.lookup call = some produce → produce.Poised := by
  cases BrokerState.step_cases (stepBroker_step h) with
  | begins call request hnew =>
    refine ⟨.of_data rfl ?_, ?_⟩
    · intro call' produce hl _
      rw [lookup_insert_eq, if_neg]
      · exact hl
      · rintro rfl
        exact hnew (mem_iff_lookup.2 ⟨produce, hl⟩)
    · intro call' produce hl
      rcases lookup_of_insert hl with ⟨-, rfl⟩ | hl
      · rintro _ _ _ ⟨⟩
      · exact hpoised call' produce hl
  | @goesOn call draws produce produce' data hcall hmove =>
    refine ⟨.of_move hcall hmove inv (hpoised call produce hcall) ?_ ?_, ?_⟩
    · exact fun call' hne => by rw [lookup_insert_eq, if_neg hne]
    · rintro _ ⟨⟩
      rw [lookup_insert_eq, if_pos rfl]
    · intro call' other hl
      rcases lookup_of_insert hl with ⟨-, rfl⟩ | hl
      · exact hmove.poised _ rfl
      · exact hpoised call' other hl
  | @ends call draws produce data response hcall hmove =>
    refine ⟨.of_move hcall hmove inv (hpoised call produce hcall) ?_ (by rintro _ ⟨⟩), ?_⟩
    · exact fun call' hne => AList.lookup_erase_ne hne
    · exact fun call' other hl => hpoised call' other (lookup_of_erase hl)
  | drops call =>
    -- only a call that does not owe a notification may be dropped
    obtain ⟨hdrop, -⟩ := Option.ite_none_left_eq_some.1 h
    refine ⟨.of_data rfl ?_, fun call' produce hl => hpoised call' produce (lookup_of_erase hl)⟩
    intro call' produce hl hnotifying
    refine (AList.lookup_erase_ne ?_).trans hl
    rintro rfl
    rw [hl] at hdrop
    exact hdrop hnotifying
  | catalog _ _ hstep => exact ⟨.of_catalog hstep, hpoised⟩
  | allocates _ => exact ⟨⟨le_rfl, fun _ _ _ h => h, fun _ _ hu => ⟨⟨hu.silent, hu.idle⟩, .refl _⟩⟩, hpoised⟩
  | reads _ _ => exact ⟨.of_data rfl fun _ _ h _ => h, hpoised⟩
  | groups _ => exact ⟨.of_data rfl fun _ _ h _ => h, hpoised⟩

end

/-! ### What a call has read -/

/-- The partitions that a snapshot in progress has read. -/
def doneReads (request : FetchRequest) (progress : SnapshotProgress) : List (String × FetchPartition) :=
  (request.topics.take progress.responses.length).flatMap FetchTopic.reads ++
    match request.topics[progress.responses.length]? with
    | none => []
    | some topic => topic.reads.take progress.partitions.length

/-- Reading them again gives as many bytes. -/
def Reread (request : FetchRequest) (topics : TopicStore) (progress : SnapshotProgress) : Prop :=
  (doneReads request progress).foldlM (readBytes request topics) 0 = some progress.recordBytes

def FetchPoint.Ok (b : BrokerState) (request : FetchRequest) : FetchPoint → Prop
  | .enable => True
  | .lookup ticket progress => ticket ≤ b.data.appendNotifications ∧
      (Undisturbed b ticket → Reread request b.data.topics progress)
  | .read ticket progress log => ticket ≤ b.data.appendNotifications ∧
      (∀ topic partition, request.topics[progress.responses.length]? = some topic →
        topic.partitions[progress.partitions.length]? = some partition →
        b.data.topics.catalog.partition topic.topic partition.partition = some log) ∧
      (Undisturbed b ticket → Reread request b.data.topics progress)
  | .test ticket snapshot => ticket ≤ b.data.appendNotifications ∧
      (Undisturbed b ticket → request.reads.foldlM (readBytes request b.data.topics) 0 = some snapshot.recordBytes)
  | .parked ticket snapshot => ticket ≤ b.data.appendNotifications ∧
      (Undisturbed b ticket → request.reads.foldlM (readBytes request b.data.topics) 0 = some snapshot.recordBytes) ∧
      snapshot.recordBytes < request.minBytes.toNat

section
variable {request : FetchRequest} {b b' : BrokerState} {progress : SnapshotProgress}

theorem FetchPoint.Ok.disturbs {point : FetchPoint} (h : point.Ok b request) (hd : Disturbs b b') :
    point.Ok b' request := by
  have reread : ∀ {ticket reads bytes}, ticket ≤ b.data.appendNotifications →
      (Undisturbed b ticket → List.foldlM (readBytes request b.data.topics) 0 reads = some bytes) →
      Undisturbed b' ticket → List.foldlM (readBytes request b'.data.topics) 0 reads = some bytes := by
    intro ticket reads bytes hle h hu
    obtain ⟨hu, hunwritten⟩ := hd.undisturbed ticket hle hu
    exact hunwritten.foldlM_readBytes (h hu)
  cases point with
  | enable => trivial
  | lookup ticket progress => exact ⟨h.1.trans hd.notifications, reread h.1 h.2⟩
  | read ticket progress log =>
    exact ⟨h.1.trans hd.notifications, fun topic partition ht hp => hd.partition _ _ _ (h.2.1 topic partition ht hp), reread h.1 h.2.2⟩
  | test ticket snapshot => exact ⟨h.1.trans hd.notifications, reread h.1 h.2⟩
  | parked ticket snapshot => exact ⟨h.1.trans hd.notifications, reread h.1 h.2.1, h.2.2⟩

theorem push_responses (response : PartitionData) :
    (progress.push request response).responses = progress.responses := by
  unfold SnapshotProgress.push
  cases response.records with
  | none => rfl
  | some records => dsimp only; split <;> rfl

theorem push_partitions_length (response : PartitionData) :
    (progress.push request response).partitions.length = progress.partitions.length + 1 := by
  unfold SnapshotProgress.push
  cases response.records with
  | none => simp
  | some records => dsimp only; split <;> simp

theorem doneReads_push {topic : FetchTopic} {partition : FetchPartition} (response : PartitionData)
    (ht : request.topics[progress.responses.length]? = some topic)
    (hp : topic.partitions[progress.partitions.length]? = some partition) :
    doneReads request (progress.push request response) = doneReads request progress ++ [(topic.topic, partition)] := by
  have hread : topic.reads[progress.partitions.length]? = some (topic.topic, partition) := by
    rw [FetchTopic.reads, List.getElem?_map, hp]; rfl
  simp only [doneReads, push_responses, push_partitions_length, ht, List.take_add_one, hread, Option.toList_some,
    List.append_assoc]

theorem doneReads_closeTopic {topic : FetchTopic} (ht : request.topics[progress.responses.length]? = some topic)
    (hrest : topic.partitions[progress.partitions.length]? = none) :
    doneReads request (progress.closeTopic topic) = doneReads request progress := by
  have hall : topic.reads.take progress.partitions.length = topic.reads := by
    refine List.take_of_length_le ?_
    rw [FetchTopic.reads, List.length_map]
    exact List.getElem?_eq_none_iff.1 hrest
  simp only [doneReads, SnapshotProgress.closeTopic, List.length_append, List.length_singleton,
    List.take_add_one, ht, hall,
    Option.toList_some, List.flatMap_append, List.flatMap_singleton, List.length_nil, List.take_zero]
  split <;> simp

theorem doneReads_finish (hrest : request.topics[progress.responses.length]? = none) :
    doneReads request progress = request.reads := by
  simp only [doneReads, hrest, List.append_nil, List.take_of_length_le (List.getElem?_eq_none_iff.1 hrest),
    FetchRequest.reads]

/-- One more partition read. -/
theorem Reread.push {topics : TopicStore} (h : Reread request topics progress) {topic : FetchTopic}
    {partition : FetchPartition}
    {response : PartitionData} (ht : request.topics[progress.responses.length]? = some topic)
    (hp : topic.partitions[progress.partitions.length]? = some partition)
    (hread : partitionResponse topics topic.topic partition (readLimit request progress.recordBytes partition) = some response) :
    Reread request topics (progress.push request response) := by
  have hbytes : readBytes request topics progress.recordBytes (topic.topic, partition) =
      some (nextBytes request progress.recordBytes response) := by
    rw [readBytes, hread]; rfl
  rw [Reread, doneReads_push response ht hp, List.foldlM_append, show List.foldlM _ 0 _ = some _ from h]
  simp [hbytes, push_recordBytes]

/-- The call's own steps. -/
theorem fetchStep_ok {call call' : FetchCall} {now : Nat} (h : call.point.Ok b call.request)
    (hstep : fetchStep b.data call now = some (.inl call')) :
    call'.request = call.request ∧ call'.point.Ok b call.request := by
  unfold fetchStep at hstep
  dsimp only at hstep
  cases hpt : call.point with
  | enable =>
    simp only [hpt] at hstep
    cases hstep
    refine ⟨rfl, le_rfl, fun _ => ?_⟩
    show (doneReads call.request .start).foldlM _ 0 = some 0
    have hnone : doneReads call.request .start = [] := by
      simp only [doneReads, SnapshotProgress.start, List.length_nil, List.take_zero, List.flatMap_nil, List.nil_append]
      split <;> rfl
    rw [hnone]
    rfl
  | lookup ticket progress =>
    rw [hpt] at h
    obtain ⟨hle, hread⟩ := h
    simp only [hpt] at hstep
    split at hstep
    · rename_i hrest
      cases hstep
      refine ⟨rfl, hle, fun hu => ?_⟩
      have := hread hu
      rwa [Reread, doneReads_finish hrest] at this
    rename_i topic ht
    split at hstep
    · rename_i hrest
      cases hstep
      refine ⟨rfl, hle, fun hu => ?_⟩
      have := hread hu
      rw [Reread] at this ⊢
      rw [doneReads_closeTopic ht hrest]
      exact this
    rename_i partition hp
    split at hstep
    · rename_i hmissing
      cases hstep
      refine ⟨rfl, hle, fun hu => (hread hu).push ht hp ?_⟩
      simp only [partitionResponse, hmissing]
    · rename_i log hlog
      cases hstep
      refine ⟨rfl, hle, ?_, hread⟩
      intro topic' partition' ht' hp'
      obtain rfl := Option.some.inj (ht.symm.trans ht')
      obtain rfl := Option.some.inj (hp.symm.trans hp')
      exact hlog
  | read ticket progress log =>
    rw [hpt] at h
    obtain ⟨hle, hlog, hread⟩ := h
    simp only [hpt, Option.bind_eq_bind, Option.bind_eq_some_iff] at hstep
    obtain ⟨topic, ht, partition, hp, inner, hinner, response, hresponse, hstep⟩ := hstep
    cases hstep
    refine ⟨rfl, hle, fun hu => (hread hu).push ht hp ?_⟩
    simp only [partitionResponse, hlog topic partition ht hp, hinner, Option.bind_eq_bind, Option.bind_some, hresponse]
  | test ticket snapshot =>
    rw [hpt] at h
    obtain ⟨hle, hread⟩ := h
    simp only [hpt] at hstep
    split at hstep
    · cases hstep
    rename_i hwait
    cases hstep
    refine ⟨rfl, hle, hread, ?_⟩
    by_contra hge
    exact hwait (decide_eq_true (.inl (not_lt.1 hge)))
  | parked ticket snapshot =>
    simp only [hpt] at hstep
    cases hstep

end

/-! ### Runs -/

structure FetchingInv (crc32c : Bytes → UInt32) (s : FetchingBroker) : Prop where
  broker : BrokerInv crc32c s.broker
  poised : ∀ call produce, s.broker.produceCalls.lookup call = some produce → produce.Poised
  fetches : ∀ call fetch, s.fetches.lookup call = some fetch → fetch.point.Ok s.broker fetch.request

section
variable {crc32c : Bytes → UInt32} {config : BrokerConfig} {s s' : FetchingBroker} {reply : FetchingReply}

/-- A step of a call, which leaves the broker alone. -/
theorem FetchingInv.insert (inv : FetchingInv crc32c s) {call : Nat} {fetch : FetchCall}
    (h : fetch.point.Ok s.broker fetch.request) :
    FetchingInv crc32c { s with fetches := s.fetches.insert call fetch } := by
  refine ⟨inv.broker, inv.poised, ?_⟩
  intro call' fetch' hl
  rcases lookup_of_insert hl with ⟨-, rfl⟩ | hl
  · exact h
  · exact inv.fetches call' fetch' hl

theorem FetchingInv.erase (inv : FetchingInv crc32c s) (call : Nat) :
    FetchingInv crc32c { s with fetches := s.fetches.erase call } :=
  ⟨inv.broker, inv.poised, fun call' fetch hl => inv.fetches call' fetch (lookup_of_erase hl)⟩

theorem FetchingInv.step (inv : FetchingInv crc32c s) {label : FetchingLabel}
    (h : s.step crc32c config label = some (reply, s')) : FetchingInv crc32c s' := by
  cases label with
  | broker label =>
    obtain ⟨⟨r, b⟩, hstep, heq⟩ := Option.map_eq_some_iff.1 h
    cases heq
    obtain ⟨hdisturbs, hpoised⟩ := stepBroker_disturbs inv.broker inv.poised hstep
    exact ⟨(BrokerState.step_ok inv.broker (stepBroker_step hstep)).inv, hpoised,
      fun call fetch hl => (inv.fetches call fetch hl).disturbs hdisturbs⟩
  | fetch call request now =>
    simp only [FetchingBroker.step] at h
    split at h <;> cases h
    exact inv.insert trivial
  | resume call now =>
    simp only [FetchingBroker.step, Option.bind_eq_bind, Option.bind_eq_some_iff] at h
    obtain ⟨fetch, hl, next, hstep, h⟩ := h
    split at h <;> cases h
    · obtain ⟨hrequest, hok⟩ := fetchStep_ok (inv.fetches call fetch hl) hstep
      exact inv.insert (hrequest ▸ hok)
    · exact inv.erase call
  | wake call =>
    simp only [FetchingBroker.step, Option.bind_eq_bind, Option.bind_eq_some_iff] at h
    obtain ⟨fetch, hl, h⟩ := h
    split at h
    · split at h <;> cases h
      exact inv.insert trivial
    · cases h
  | expire call now =>
    simp only [FetchingBroker.step, Option.bind_eq_bind, Option.bind_eq_some_iff] at h
    obtain ⟨fetch, hl, h⟩ := h
    split at h
    · split at h <;> cases h
      exact inv.erase call
    · cases h
  | drop call =>
    cases h
    exact inv.erase call

theorem FetchingInv.of_run {tr : List (Event FetchingBroker FetchingLabel FetchingReply)}
    (hrun : (fetchingBroker crc32c config).Run tr s) : FetchingInv crc32c s := by
  refine Machine.Run.invariant (M := fetchingBroker crc32c config) ?_ (fun e he inv => inv.step he) hrun
  exact ⟨.new, fun _ _ h => (by cases h), fun _ _ h => (by cases h)⟩

end

/-- Long polling loses no wake-up. Whenever a Fetch call is parked, its notification has not come, and no Produce call stands
between a successful append and its notification, reading its partitions again gives as many bytes as the
snapshot it parked on, fewer than it waits for. -/
theorem parked_fetch_misses_nothing (crc32c : Bytes → UInt32) (config : BrokerConfig)
    (tr : List (Event FetchingBroker FetchingLabel FetchingReply)) (s : FetchingBroker)
    (hrun : (fetchingBroker crc32c config).Run tr s) (call : Nat) (fetch : FetchCall) (ticket : Nat)
    (parkedOn : Snapshot)
    (hcall : s.fetches.lookup call = some fetch) (hparked : fetch.point = .parked ticket parkedOn)
    (hsilent : ¬ ticket < s.broker.data.appendNotifications)
    (hidle : ∀ producer produce, s.broker.produceCalls.lookup producer = some produce → produce.notifying = false) :
    ∃ again, snapshot fetch.request s.broker.data.topics = some again ∧ again.recordBytes = parkedOn.recordBytes ∧
      again.recordBytes < fetch.request.minBytes.toNat := by
  have hok := (FetchingInv.of_run hrun).fetches call fetch hcall
  rw [hparked] at hok
  obtain ⟨hle, hread, hfew⟩ := hok
  have hbytes := hread ⟨le_antisymm (not_lt.1 hsilent) hle, hidle⟩
  rw [← snapshot_recordBytes] at hbytes
  obtain ⟨again, hagain, heq⟩ := Option.map_eq_some_iff.1 hbytes
  exact ⟨again, hagain, heq, heq.trans_lt hfew⟩

/-- A call that parks on an empty partition; then a topic is created that it asks for as well. -/
def sampleFetching : List FetchingLabel :=
  [.broker (.createTopic "events" 1 1 [1]), .fetch 0 ⟨1000, 1, 1000, [⟨"events", [⟨0, 0, 100⟩]⟩, ⟨"later", [⟨0, 0, 100⟩]⟩]⟩ 0] ++
    List.replicate 8 (.resume 0 0) ++ [.broker (.createTopic "later" 1 1 [2])]

theorem parked_fetch_misses_nothing_new_topic : ∃ tr s fetch ticket parkedOn,
    (fetchingBroker castagnoli ⟨true, 1⟩).exec .new sampleFetching = some (tr, s) ∧ s.fetches.lookup 0 = some fetch ∧
    fetch.point = .parked ticket parkedOn ∧ parkedOn.validPartitions = 1 ∧
    ∃ again, snapshot fetch.request s.broker.data.topics = some again ∧ again.recordBytes = parkedOn.recordBytes := by
  have hsome : ((fetchingBroker castagnoli ⟨true, 1⟩).exec .new sampleFetching).map (fun r =>
      ((r.2.fetches.lookup 0).map (·.point), r.2.broker.data.appendNotifications, r.2.broker.produceCalls.entries.length)) =
      some (some (.parked 0 ⟨⟨0, [⟨"events", [⟨0, 0, 0, 0, some [], some []⟩]⟩, ⟨"later", [⟨0, 3, -1, -1, some [], some []⟩]⟩]⟩,
        0, 1⟩), 0, 0) := by decide +kernel
  obtain ⟨⟨tr, s⟩, hx, hmap⟩ := Option.map_eq_some_iff.1 hsome
  simp only [Prod.mk.injEq, Option.map_eq_some_iff] at hmap
  obtain ⟨⟨fetch, hfetch, hpoint⟩, hcount, hcalls⟩ := hmap
  have hidle : ∀ producer produce, s.broker.produceCalls.lookup producer = some produce →
      produce.notifying = false := by
    intro producer produce hl
    have hmem := lookup_eq_some_iff.1 hl
    rw [List.length_eq_zero_iff.1 hcalls] at hmem
    cases hmem
  obtain ⟨again, hagain, heq, -⟩ := parked_fetch_misses_nothing castagnoli ⟨true, 1⟩ tr s (Machine.exec_path hx).1 0 fetch 0 _
    hfetch hpoint (by rw [hcount]; decide) hidle
  exact ⟨tr, s, fetch, 0, _, hx, hfetch, hpoint, rfl, again, hagain, heq⟩

end MemKafka
