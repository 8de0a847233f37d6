import MemKafka.Catalog
import MemKafka.CreateTopics

/-!
# Dry runs of CreateTopics

A dry run checks every topic of a request against the catalog the request came to (`dryResult`); the real run checks each of
them against the catalog its predecessors left, in which there are the names that were there and those of the topics it
has created (`createTopics_real`). So the two differ in one place only: at a name the request has created itself.
-/

namespace MemKafka
open Kit

/-- A result says what is expected; it may have an id. -/
structure AgreesWith (expected result : CreatableTopicResult) : Prop where
  name : result.name = expected.name
  errorCode : result.errorCode = expected.errorCode
  errorMessage : result.errorMessage = expected.errorMessage
  numPartitions : result.numPartitions = expected.numPartitions
  replicationFactor : result.replicationFactor = expected.replicationFactor
  configs : result.configs = expected.configs

theorem AgreesWith.refl (result : CreatableTopicResult) : AgreesWith result result := ⟨rfl, rfl, rfl, rfl, rfl, rfl⟩

/-- The dry run accepts the topic at `i`, and one of the same name before it. -/
def Repeats (topics : List CreatableTopic) (dry : List CreatableTopicResult) (i : Nat) : Prop :=
  ∃ j topic topic' d d', j < i ∧ topics[j]? = some topic ∧ topics[i]? = some topic' ∧ topic.name = topic'.name ∧
    dry[j]? = some d ∧ dry[i]? = some d' ∧ d.errorCode = 0 ∧ d'.errorCode = 0

/-- The topics before one of them have been created, and no id that was drawn for it is free. -/
def OutOfIds (topics : List CreatableTopic) (store : TopicStore) (draws : List (List Uuid)) : Prop :=
  ∃ i results store', i < topics.length ∧ createTopics false (topics.take i) store draws = .ok (results, store') ∧
    ∀ id ∈ (draws.drop i).headD [], id = 0 ∨ id ∈ store'.catalog.namesById

/-- What a dry run says of a topic. -/
def dryResult (catalog : CatalogState) (topic : CreatableTopic) : CreatableTopicResult :=
  if topic.assignments ≠ [] then
    errorResult topic.name .invalidReplicaAssignment "manual replica assignments are not supported"
  else if topic.configs ≠ [] then
    errorResult topic.name .invalidConfig "custom topic configurations are not supported"
  else
    match validateExplicit catalog topic.name topic.numPartitions.toInt topic.replicationFactor.toInt with
    | .ok () => validationSuccessResult topic.name topic.numPartitions.toInt
    | .error error => topicErrorResult topic.name error

section
variable {topic : CreatableTopic} {topics : List CreatableTopic} {store store' : TopicStore} {draws : List Uuid}
  {result : CreatableTopicResult}

/-! ### The dry run -/

theorem createOne_dry (topic : CreatableTopic) (store : TopicStore) (draws : List Uuid) :
    createOne topic true store draws = .ok (dryResult store.catalog topic, store) := by
  unfold createOne dryResult
  split
  · rfl
  split
  · rfl
  rw [if_pos rfl]
  match validateExplicit store.catalog topic.name topic.numPartitions.toInt topic.replicationFactor.toInt with
  | .ok () => rfl
  | .error error => rfl

theorem createTopics_dry (topics : List CreatableTopic) (store : TopicStore) (draws : List (List Uuid)) :
    createTopics true topics store draws = .ok (topics.map (dryResult store.catalog), store) := by
  induction topics generalizing draws with
  | nil => rfl
  | cons topic topics ih =>
    rw [createTopics, createOne_dry, Outcome.ok_bind]
    dsimp only
    rw [ih, Outcome.ok_bind, List.map_cons]

theorem response_dry (topics : List CreatableTopic) (store : TopicStore) (draws : List (List Uuid)) :
    CreateTopicsRequest.response ⟨topics, true⟩ store draws =
      .ok ({ topics := topics.map (dryResult store.catalog) }, store) := by
  rw [CreateTopicsRequest.response, createTopics_dry]
  rfl

theorem errorResult_errorCode (name : String) (error : ResponseError) (message : String) :
    (errorResult name error message).errorCode ≠ 0 := ResponseError.code_ne_zero error

/-- Of the catalog only whether the name is there counts, and it counts for topics that are accepted otherwise. -/
theorem dryResult_eq (catalog catalog' : CatalogState)
    (h : topic.name ∈ catalog.topicsByName → topic.name ∈ catalog'.topicsByName) :
    dryResult catalog' topic = if topic.name ∈ catalog'.topicsByName ∧ (dryResult catalog topic).errorCode = 0 then
      topicErrorResult topic.name .alreadyExists else dryResult catalog topic := by
  by_cases hassignments : topic.assignments = []
  swap
  · rw [dryResult, if_pos hassignments, dryResult, if_pos hassignments, if_neg fun h => errorResult_errorCode _ _ _ h.2]
  by_cases hconfigs : topic.configs = []
  swap
  · simp only [dryResult, hassignments, hconfigs, ne_eq, not_true_eq_false, not_false_eq_true, if_true, if_false]
    exact (if_neg fun h => errorResult_errorCode _ _ _ h.2).symm
  simp only [dryResult, hassignments, hconfigs, ne_eq, not_true_eq_false, if_false, validateExplicit]
  match validateExplicitDefinition topic.name topic.numPartitions.toInt topic.replicationFactor.toInt with
  | .error error => exact (if_neg fun h => errorResult_errorCode _ _ _ h.2).symm
  | .ok count =>
    by_cases hmem : topic.name ∈ catalog.topicsByName
    · simp only [if_pos hmem, if_pos (h hmem)]
      exact (if_neg fun h => errorResult_errorCode _ _ _ h.2).symm
    · simp only [if_neg hmem]
      by_cases hmem' : topic.name ∈ catalog'.topicsByName
      · rw [if_pos hmem', if_pos ⟨hmem', rfl⟩]
      · rw [if_neg hmem', if_neg fun h => hmem' h.1]

/-! ### The real run -/

/-- A creation fails as the validation does. -/
theorem createExplicit_validates {name : String} {partitions replicationFactor : Int}
    {out : Except TopicError TopicMetadata}
    (h : createExplicit store name partitions replicationFactor draws = some (out, store')) :
    validateExplicit store.catalog name partitions replicationFactor = out.map fun _ => () := by
  match hdef : validateExplicitDefinition name partitions replicationFactor with
  | .error error =>
    simp only [createExplicit, hdef] at h
    cases h
    simp only [validateExplicit, hdef]
    rfl
  | .ok count =>
    simp only [createExplicit, hdef] at h
    simp only [validateExplicit, hdef]
    by_cases hmem : name ∈ store.catalog.topicsByName
    · rw [if_pos hmem] at h ⊢
      cases h
      rfl
    · rw [if_neg hmem] at h ⊢
      obtain ⟨⟨metadata, store₁⟩, -, h⟩ := Option.map_eq_some_iff.1 h
      cases h
      rfl

theorem createExplicit_eq_none {name : String} {partitions replicationFactor : Int}
    (h : createExplicit store name partitions replicationFactor draws = none) :
    ∀ id ∈ draws, id = 0 ∨ id ∈ store.catalog.namesById := by
  unfold createExplicit at h
  split at h
  · cases h
  split at h
  · cases h
  exact insertTopic_eq_none (Option.map_eq_none_iff.1 h)

theorem Inserts.mem_iff {metadata : TopicMetadata} (h : Inserts store metadata store') (name : String) :
    name ∈ store'.catalog.topicsByName ↔ name = metadata.name ∨ name ∈ store.catalog.topicsByName := by
  obtain ⟨-, -, -, -, -⟩ := h
  exact AList.mem_insert _

/-- A count given as an `i32` can be converted back. -/
theorem successResult_eq {metadata : TopicMetadata} {partitions : Int32} (h : (metadata.partitionCount : Int) = partitions.toInt)
    (name : String) : successResult name metadata =
      some { validationSuccessResult name partitions.toInt with topicId := metadata.id } := by
  have hle : (metadata.partitionCount : Int) ≤ i32Max := by
    have := partitions.toInt_le
    rw [h]
    exact this
  rw [successResult, i32OfUsize, if_pos hle, h]
  rfl

/-- A real run of one topic: it does not panic, agrees with the dry run, and adds the name that is accepted. -/
theorem createOne_real (topic : CreatableTopic) (store : TopicStore) (draws : List Uuid) :
    (createOne topic false store draws = .err .noFreeId ∧ ∀ id ∈ draws, id = 0 ∨ id ∈ store.catalog.namesById) ∨
      ∃ result store', createOne topic false store draws = .ok (result, store') ∧
        AgreesWith (dryResult store.catalog topic) result ∧
        ∀ name, name ∈ store'.catalog.topicsByName ↔ name ∈ store.catalog.topicsByName ∨
          name = topic.name ∧ (dryResult store.catalog topic).errorCode = 0 := by
  by_cases hassignments : topic.assignments = []
  swap
  · refine .inr ⟨_, store, if_pos hassignments, ?_⟩
    rw [dryResult, if_pos hassignments]
    exact ⟨.refl _, fun name => (or_iff_left fun h => errorResult_errorCode _ _ _ h.2).symm⟩
  by_cases hconfigs : topic.configs = []
  swap
  · refine .inr ⟨_, store, (if_neg (not_not.2 hassignments)).trans (if_pos hconfigs), ?_⟩
    rw [dryResult, if_neg (not_not.2 hassignments), if_pos hconfigs]
    exact ⟨.refl _, fun name => (or_iff_left fun h => errorResult_errorCode _ _ _ h.2).symm⟩
  simp only [createOne, dryResult, hassignments, hconfigs, ne_eq, not_true_eq_false, if_false, Bool.false_eq_true]
  cases hcreate : createExplicit store topic.name topic.numPartitions.toInt topic.replicationFactor.toInt draws with
  | none => exact .inl ⟨rfl, createExplicit_eq_none hcreate⟩
  | some created =>
    obtain ⟨out, store₁⟩ := created
    rw [createExplicit_validates hcreate]
    rcases createExplicit_cases hcreate with ⟨⟨error, rfl⟩, rfl⟩ | ⟨metadata, rfl, hname, hcount, hins⟩
    · exact .inr ⟨_, _, rfl, .refl _, fun name => (or_iff_left fun h => errorResult_errorCode _ _ _ h.2).symm⟩
    · refine .inr ⟨{ validationSuccessResult topic.name topic.numPartitions.toInt with topicId := metadata.id }, store₁,
        ?_, ⟨rfl, rfl, rfl, rfl, rfl, rfl⟩, fun name => ?_⟩
      · simp only [successResult_eq hcount]
        rfl
      · rw [hins.mem_iff, hname, or_comm]
        exact or_congr_right (and_iff_left rfl).symm

/-- The names that are there when topics have been created. -/
def Created (start : CatalogState) (earlier : List CreatableTopic) (store : TopicStore) : Prop :=
  ∀ name, name ∈ store.catalog.topicsByName ↔ name ∈ start.topicsByName ∨
    ∃ topic ∈ earlier, topic.name = name ∧ (dryResult start topic).errorCode = 0

/-- The dry run accepts a topic, and one of the same name before it. -/
def RepeatsIn (start : CatalogState) (earlier : List CreatableTopic) (topic : CreatableTopic) : Prop :=
  (dryResult start topic).errorCode = 0 ∧
    ∃ topic' ∈ earlier, topic'.name = topic.name ∧ (dryResult start topic').errorCode = 0

instance (start : CatalogState) (earlier : List CreatableTopic) (topic : CreatableTopic) :
    Decidable (RepeatsIn start earlier topic) := inferInstanceAs (Decidable (_ ∧ ∃ topic' ∈ earlier, _))

section
variable {start : CatalogState} {earlier : List CreatableTopic}

/-- The dry run accepts new names only. -/
theorem dryResult_new {catalog : CatalogState} (h : (dryResult catalog topic).errorCode = 0) :
    topic.name ∉ catalog.topicsByName := by
  intro hmem
  have heq : dryResult catalog topic = _ := dryResult_eq catalog catalog id
  rw [if_pos ⟨hmem, h⟩] at heq
  exact errorResult_errorCode _ _ _ (heq ▸ h)

theorem Created.repeats (hc : Created start earlier store) (h : (dryResult start topic).errorCode = 0) :
    topic.name ∈ store.catalog.topicsByName ↔ RepeatsIn start earlier topic := by
  rw [hc topic.name, or_iff_right (dryResult_new h)]
  exact (and_iff_right h).symm

/-- What a dry run would say after the topics that have been created. -/
theorem Created.dryResult_eq (hc : Created start earlier store) (topic : CreatableTopic) :
    dryResult store.catalog topic = if RepeatsIn start earlier topic then
      topicErrorResult topic.name .alreadyExists else dryResult start topic := by
  rw [MemKafka.dryResult_eq start store.catalog fun hmem => (hc topic.name).2 (.inl hmem)]
  refine if_congr ⟨fun h => (hc.repeats h.2).1 h.1, fun h => ⟨(hc.repeats h.1).2 h, h.1⟩⟩ rfl rfl

theorem Created.snoc (hc : Created start earlier store)
    (hnames : ∀ name, name ∈ store'.catalog.topicsByName ↔ name ∈ store.catalog.topicsByName ∨
      name = topic.name ∧ (dryResult store.catalog topic).errorCode = 0) : Created start (earlier ++ [topic]) store' := by
  intro name
  rw [hnames, hc name, hc.dryResult_eq topic]
  simp only [List.mem_append, List.mem_singleton]
  constructor
  · rintro ((hmem | ⟨topic', hmem, heq, hcode⟩) | ⟨rfl, hcode⟩)
    · exact .inl hmem
    · exact .inr ⟨topic', .inl hmem, heq, hcode⟩
    · split at hcode
      · exact absurd hcode (errorResult_errorCode _ _ _)
      · exact .inr ⟨topic, .inr rfl, rfl, hcode⟩
  · rintro (hmem | ⟨topic', hmem | rfl, rfl, hcode⟩)
    · exact .inl (.inl hmem)
    · exact .inl (.inr ⟨topic', hmem, rfl, hcode⟩)
    · by_cases hrepeats : RepeatsIn start earlier topic'
      · exact .inl (.inr hrepeats.2)
      · exact .inr ⟨rfl, by rwa [if_neg hrepeats]⟩

/-- The real run of topics that come after others: it does not panic, and what it says is known. -/
theorem createTopics_real (topics : List CreatableTopic) (draws : List (List Uuid)) (hc : Created start earlier store) :
    (createTopics false topics store draws = .err .noFreeId ∧ OutOfIds topics store draws) ∨
      ∃ results store', createTopics false topics store draws = .ok (results, store') ∧
        results.length = topics.length ∧
        ∀ i topic result, topics[i]? = some topic → results[i]? = some result →
          AgreesWith (if RepeatsIn start (earlier ++ topics.take i) topic then topicErrorResult topic.name .alreadyExists
            else dryResult start topic) result := by
  induction topics generalizing earlier store draws with
  | nil => exact .inr ⟨[], store, rfl, rfl, by simp⟩
  | cons topic topics ih =>
    rcases createOne_real topic store (draws.headD []) with ⟨herr, hdrawn⟩ | ⟨result, store₁, hone, hagrees, hnames⟩
    · exact .inl ⟨by rw [createTopics, herr]; rfl, 0, [], store, Nat.succ_pos _, rfl, hdrawn⟩
    rw [hc.dryResult_eq topic] at hagrees
    rcases ih draws.tail (hc.snoc hnames) with ⟨herr, i, results, store', hi, hrest, hdrawn⟩ |
      ⟨results, store', hrest, hlength, hresults⟩
    · refine .inl ⟨by simp only [createTopics, hone, Outcome.ok_bind, herr]; rfl, i + 1, result :: results, store',
        Nat.succ_lt_succ hi, ?_, ?_⟩
      · simp only [List.take_succ_cons, createTopics, hone, hrest, Outcome.ok_bind]
      · rwa [← List.drop_one, List.drop_drop, Nat.add_comm 1] at hdrawn
    refine .inr ⟨result :: results, store', ?_, by simp [hlength], ?_⟩
    · simp only [createTopics, hone, hrest, Outcome.ok_bind]
    · rintro (_ | i) topic' result' htopic hresult
      · obtain ⟨rfl, rfl⟩ : topic = topic' ∧ result = result' := by simpa using And.intro htopic hresult
        rwa [List.take_zero, List.append_nil]
      · rw [List.take_succ_cons, List.append_cons]
        exact hresults i topic' result' htopic hresult

theorem repeats_iff {i : Nat} (htopic : topics[i]? = some topic) :
    Repeats topics (topics.map (dryResult start)) i ↔ RepeatsIn start (topics.take i) topic := by
  constructor
  · rintro ⟨j, topic', topic'', d, d', hlt, hj, hi, hname, hd, hd', hcode, hcode'⟩
    obtain rfl : topic = topic'' := Option.some.inj (htopic.symm.trans hi)
    rw [List.getElem?_map, hj] at hd
    rw [List.getElem?_map, hi] at hd'
    obtain rfl := Option.some.inj hd
    obtain rfl := Option.some.inj hd'
    refine ⟨hcode', topic', List.mem_iff_getElem?.2 ⟨j, ?_⟩, hname, hcode⟩
    rwa [List.getElem?_take_of_lt hlt]
  · rintro ⟨hcode', topic', hmem, hname, hcode⟩
    obtain ⟨j, hj⟩ := List.mem_iff_getElem?.1 hmem
    have hlt : j < i := by
      by_contra hle
      rw [List.getElem?_take_eq_none (not_lt.1 hle)] at hj
      cases hj
    rw [List.getElem?_take_of_lt hlt] at hj
    exact ⟨j, topic', topic, _, _, hlt, hj, htopic, hname, by rw [List.getElem?_map, hj]; rfl,
      by rw [List.getElem?_map, htopic]; rfl, hcode, hcode'⟩

end

end

/-- Dry runs predict real runs. A dry run leaves the catalog unchanged, and unless an id has still to be drawn the real run
of the same topics on the same catalog reports for each of them what the dry run reports. There is one exception: if
the dry run accepts a topic and one of the same name before it, the real run says of the later one that it exists. -/
theorem dry_run_predicts (topics : List CreatableTopic) (store : TopicStore) (draws : List (List Uuid)) :
    ∃ dry, CreateTopicsRequest.response ⟨topics, true⟩ store draws = .ok (dry, store) ∧
      dry.topics.length = topics.length ∧
      ((CreateTopicsRequest.response ⟨topics, false⟩ store draws = .err .noFreeId ∧ OutOfIds topics store draws) ∨
      ∃ real store', CreateTopicsRequest.response ⟨topics, false⟩ store draws = .ok (real, store') ∧
        real.topics.length = topics.length ∧
        ∀ i topic d r, topics[i]? = some topic → dry.topics[i]? = some d → real.topics[i]? = some r →
          (¬ Repeats topics dry.topics i → AgreesWith d r) ∧
          (Repeats topics dry.topics i → AgreesWith (topicErrorResult topic.name .alreadyExists) r)) := by
  refine ⟨_, response_dry topics store draws, List.length_map _, ?_⟩
  have hstart : Created store.catalog [] store := by simp [Created]
  rcases createTopics_real topics draws hstart with ⟨herr, hout⟩ | ⟨results, store', hreal, hlength, hresults⟩
  · exact .inl ⟨by rw [CreateTopicsRequest.response, herr]; rfl, hout⟩
  refine .inr ⟨{ topics := results }, store', ?_, hlength, fun i topic d r htopic hd hr => ?_⟩
  · simp only [CreateTopicsRequest.response, hreal, Outcome.ok_bind]
  rw [List.getElem?_map, htopic] at hd
  obtain rfl := Option.some.inj hd
  have hagrees := hresults i topic r htopic hr
  rw [List.nil_append] at hagrees
  simp only [repeats_iff htopic]
  exact ⟨fun h => by rwa [if_neg h] at hagrees, fun h => by rwa [if_pos h] at hagrees⟩

/-- A request that lists a new name twice: the dry run accepts both topics, the real run creates the first one. -/
theorem dry_run_accepts_twice : ∃ dry real store',
    CreateTopicsRequest.response ⟨[⟨"orders", 3, 1, [], []⟩, ⟨"orders", 3, 1, [], []⟩], true⟩ .default [[7], [8]] =
      .ok (dry, .default) ∧
    CreateTopicsRequest.response ⟨[⟨"orders", 3, 1, [], []⟩, ⟨"orders", 3, 1, [], []⟩], false⟩ .default [[7], [8]] =
      .ok (real, store') ∧
    dry.topics.map (fun r => (r.errorCode, r.numPartitions, r.replicationFactor)) = [(0, 3, 1), (0, 3, 1)] ∧
    real.topics.map (fun r => (r.errorCode, r.numPartitions, r.replicationFactor)) = [(0, 3, 1), (36, -1, -1)] := by
  have hdry : (([⟨"orders", 3, 1, [], []⟩, ⟨"orders", 3, 1, [], []⟩] : List CreatableTopic).map
      (dryResult TopicStore.default.catalog)).map (fun r => (r.errorCode, r.numPartitions, r.replicationFactor)) =
        [(0, 3, 1), (0, 3, 1)] := by decide +kernel
  have hreal : ((CreateTopicsRequest.response ⟨[⟨"orders", 3, 1, [], []⟩, ⟨"orders", 3, 1, [], []⟩], false⟩ .default
      [[7], [8]]).run.bind Except.toOption).map (fun p => p.1.topics.map fun r =>
        (r.errorCode, r.numPartitions, r.replicationFactor)) = some [(0, 3, 1), (36, -1, -1)] := by decide +kernel
  obtain ⟨⟨real, store'⟩, hok, hreal⟩ := Option.map_eq_some_iff.1 hreal
  obtain ⟨out, hresponse, hout⟩ := Option.bind_eq_some_iff.1 hok
  cases out with
  | error error => cases hout
  | ok out =>
    obtain rfl : out = (real, store') := Option.some.inj hout
    exact ⟨_, real, store', response_dry _ _ _, hresponse, hdry, hreal⟩

end MemKafka
