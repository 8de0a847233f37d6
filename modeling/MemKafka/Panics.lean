import MemKafka.AutoCreation
import MemKafka.DryRun

/-!
# Panics of the discovery requests

The builders of `kafka/metadata.rs`, `kafka/create_topics.rs` and `kafka/describe_topic_partitions.rs` assert that counts,
indices and cursors fit. A cursor is checked before it is used and an explicit count came as an `i32`; what is
asserted of a topic then follows from its count, and a count is an `i32` or the default (`Reachable.indexable`).
-/

namespace MemKafka
open Kit

/-- An explicit creation has an `i32` for its count. -/
def CatalogLabel.Wire : CatalogLabel → Prop
  | .createExplicit _ partitions _ _ => partitions ≤ i32Max
  | _ => True

/-- A catalog that calls can lead to. -/
def Reachable (defaultPartitions : ℕ+) (store : TopicStore) : Prop :=
  ∃ tr s, (topicCatalog defaultPartitions).Run tr s ∧ (∀ e ∈ tr, e.label.Wire) ∧ s.store = store

/-- No assertion fails for a discovery request. The lock is released between two lookups, so each of them may see another
catalog; a Metadata request that does not return has an id to draw. -/
structure NeverPanics (defaultPartitions : ℕ+) : Prop where
  metadata : ∀ (config : Metadata.MetadataConfig) (request : Metadata.MetadataRequest) (version : Int) (store : TopicStore)
    (draws : List (List Uuid)), config.defaultPartitions = defaultPartitions → Reachable defaultPartitions store →
    Metadata.response config request version store draws = none →
    ∃ requested, Metadata.Creating config request version requested ∧
      Metadata.Drawing defaultPartitions requested store draws
  byName : ∀ looked : String → TopicStore, (∀ name, Reachable defaultPartitions (looked name)) →
    ∀ brokerId requested, Metadata.topicsByName brokerId (fun name => (looked name).catalog.get name) [] requested ≠ none
  byId : ∀ looked : Uuid → TopicStore, (∀ id, Reachable defaultPartitions (looked id)) →
    ∀ brokerId requested, Metadata.topicsById brokerId (fun id => (looked id).catalog.getById id) requested ≠ none
  createTopics : ∀ (request : CreateTopicsRequest) (store : TopicStore) (draws : List (List Uuid)),
    (request.response store draws).Safe
  describe : ∀ (store : TopicStore) (looked : String → TopicStore), Reachable defaultPartitions store →
    (∀ name, Reachable defaultPartitions (looked name)) → ∀ (request : DescribeTopicPartitionsRequest) (brokerId : Int),
    request.response brokerId store.catalog.list (fun name => (looked name).catalog.get name) ≠ none

/-! ### Counts -/

section
variable {defaultPartitions : ℕ+} {store store' : TopicStore}

theorem Inserts.indexable {metadata : TopicMetadata} (h : Inserts store metadata store')
    (hcount : (metadata.partitionCount : Int) ≤ i32Max + 1) (hindexable : Metadata.Indexable store) :
    Metadata.Indexable store' := by
  rintro name _ ⟨entry, hl, rfl⟩
  rcases h.lookup name entry hl with hold | ⟨-, rfl⟩
  · exact hindexable name entry.metadata ⟨entry, hold, rfl⟩
  · exact hcount

theorem Catalog.step_indexable {s s' : Catalog} {label : CatalogLabel} {reply : CatalogReply}
    (hcount : ((defaultPartitions : ℕ) : Int) ≤ i32Max + 1) (hwire : label.Wire)
    (hcalls : ∀ call name, s.calls.lookup call = some name → validateName name = .ok ())
    (h : s.step defaultPartitions label = some (reply, s')) (hindexable : Metadata.Indexable s.store) :
    Metadata.Indexable s'.store := by
  cases label with
  | createExplicit name partitions replicationFactor draws =>
    have hwire : partitions ≤ i32Max := hwire
    simp only [Catalog.step, Option.bind_eq_bind, Option.bind_eq_some_iff, Prod.exists] at h
    obtain ⟨result, store, hcreate, h⟩ := h
    cases h
    rcases createExplicit_cases hcreate with ⟨-, rfl⟩ | ⟨metadata, -, -, hpartitions, hins⟩
    · exact hindexable
    · exact hins.indexable (by omega) hindexable
  | resume call draws =>
    simp only [Catalog.step, Catalog.resume, Option.bind_eq_bind, Option.bind_eq_some_iff, Prod.exists] at h
    obtain ⟨name, hcall, metadata, store, hwrite, h⟩ := h
    cases h
    rcases getOrAutoCreateWrite_cases (hcalls call name hcall) hwrite with ⟨-, rfl⟩ | ⟨-, hdefault, hins⟩
    · exact hindexable
    · exact hins.indexable (hdefault ▸ hcount) hindexable
  | getOrAutoCreate call name allowAutoCreate =>
    simp only [Catalog.step] at h
    split at h
    · cases h
    split at h <;> cases h <;> exact hindexable
  | validateExplicit name partitions replicationFactor => cases h; exact hindexable
  | get name => cases h; exact hindexable
  | getById id => cases h; exact hindexable
  | drop call => cases h; exact hindexable
  | list => cases h; exact hindexable

theorem Reachable.inv (h : Reachable defaultPartitions store) : CatalogInv store := by
  obtain ⟨tr, s, hrun, -, rfl⟩ := h
  exact (catalog_history hrun).1.1

/-- The counts of a reachable catalog are `i32`s, or the default. -/
theorem Reachable.indexable (h : Reachable defaultPartitions store)
    (hcount : ((defaultPartitions : ℕ) : Int) ≤ i32Max + 1) : Metadata.Indexable store := by
  obtain ⟨tr, s, hrun, hwire, rfl⟩ := h
  refine (Machine.Run.induction (M := topicCatalog defaultPartitions) (P := fun tr s =>
    (∀ call name, s.calls.lookup call = some name → validateName name = .ok ()) ∧
      ((∀ e ∈ tr, e.label.Wire) → Metadata.Indexable s.store)) ⟨fun _ _ h => (by cases h), ?_⟩ ?_ hrun).2 hwire
  · rintro - name metadata ⟨entry, hl, -⟩
    cases hl
  · rintro tr e - ⟨hcalls, hindexable⟩ he
    refine ⟨(Catalog.step_ok hcalls he).calls, fun hwire => ?_⟩
    simp only [List.forall_mem_append, List.forall_mem_singleton] at hwire
    exact Catalog.step_indexable hcount hwire.2 hcalls he (hindexable hwire.1)

/-! ### The builders -/

theorem Metadata.tryEntry_ne_none {brokerId : Int} {get : String → Except TopicError (Option TopicMetadata)}
    (hget : ∀ name, ∃ store, get name = store.catalog.get name ∧ Metadata.Indexable store) (name : Option String) :
    Metadata.tryEntry brokerId get name ≠ none := by
  cases name with
  | none => exact Option.some_ne_none _
  | some name =>
    obtain ⟨store, heq, hindexable⟩ := hget name
    have hentry : Metadata.tryEntry brokerId store.catalog.get (some name) = _ := Metadata.tryEntry_eq hindexable _
    rw [Metadata.tryEntry, heq]
    rw [Metadata.tryEntry] at hentry
    rw [hentry]
    exact Option.some_ne_none _

theorem Metadata.topicsByIdLoop_ne_none {brokerId : Int} {getById : Uuid → Option TopicMetadata}
    (hget : ∀ id metadata, getById id = some metadata → (metadata.partitionCount : Int) ≤ i32Max + 1) (seen : List Uuid)
    (requested : List Metadata.MetadataRequestTopic) : Metadata.topicsByIdLoop brokerId getById seen requested ≠ none := by
  induction requested generalizing seen with
  | nil => exact Option.some_ne_none _
  | cons topic rest ih =>
    rw [Metadata.topicsByIdLoop]
    split
    · exact ih seen
    obtain ⟨_, hrest⟩ := Option.ne_none_iff_exists'.1 (ih (topic.topicId :: seen))
    cases hfound : getById topic.topicId with
    | some metadata =>
      simp only [Metadata.successTopic_eq (hget _ _ hfound), hrest]
      exact Option.some_ne_none _
    | none =>
      simp only [hrest]
      exact Option.some_ne_none _

theorem createTopics_safe (request : CreateTopicsRequest) (store : TopicStore) (draws : List (List Uuid)) :
    (request.response store draws).Safe := by
  obtain ⟨topics, validateOnly⟩ := request
  match validateOnly with
  | true =>
    rw [response_dry]
    exact Outcome.safe_ok _
  | false =>
    have hstart : Created store.catalog [] store := by simp [Created]
    unfold CreateTopicsRequest.response
    rcases createTopics_real topics draws hstart with ⟨herr, -⟩ | ⟨results, store', hreal, -, -⟩
    · exact Outcome.Safe.bind (herr ▸ Outcome.safe_err _) fun _ _ => Outcome.safe_ok _
    · exact Outcome.Safe.bind (hreal ▸ Outcome.safe_ok _) fun _ _ => Outcome.safe_ok _

theorem describe_ne_none {request : DescribeTopicPartitionsRequest} {brokerId : Int} {catalogTopics : List TopicMetadata}
    {get : String → Except TopicError (Option TopicMetadata)} (hfound : ∀ name, Found get name) :
    request.response brokerId catalogTopics get ≠ none := by
  unfold DescribeTopicPartitionsRequest.response
  cases hnames : selectedNames request catalogTopics with
  | error error => exact Option.some_ne_none _
  | ok names =>
    have hroom : 0 < (max request.responsePartitionLimit 1).toNat := by omega
    obtain ⟨topics, next, heq, -⟩ := describeTopics_page request.cursor brokerId (selectedNames_cursor hnames)
      (fun name (_ : name ∈ names) => hfound name) (.inl hroom)
    simp only [usizeOfI32_max, heq, Option.bind_eq_bind, Option.bind_some]
    exact Option.some_ne_none _

/-! ### A count that does not fit -/

theorem Metadata.successTopic_none {metadata : TopicMetadata} {brokerId : Int}
    (h : i32Max + 1 < (metadata.partitionCount : Int)) : Metadata.successTopic metadata brokerId = none := by
  have hmem : (i32Max + 1).toNat ∈ List.range metadata.partitionCount := List.mem_range.2 ((Int.toNat_lt (by decide)).2 h)
  have hnone : i32OfUsize (i32Max + 1).toNat = none := if_neg (by decide)
  rw [Metadata.successTopic, mapM_eq_none hmem hnone]
  rfl

/-- A request for a topic that is then created, on an empty catalog. -/
def firstRequest : Metadata.MetadataRequest := ⟨some [⟨0, some "orders"⟩], true, false, false⟩

def firstConfig (defaultPartitions : ℕ+) : Metadata.MetadataConfig := ⟨1, true, false, defaultPartitions, "localhost", 9092⟩

theorem firstRequest_panics (h : i32Max + 1 < ((defaultPartitions : ℕ) : Int)) :
    Metadata.response (firstConfig defaultPartitions) firstRequest 9 .default [[7]] = none ∧
      ¬ Metadata.Drawing defaultPartitions [⟨0, some "orders"⟩] .default [[7]] := by
  constructor
  · cases hresponse : Metadata.response (firstConfig defaultPartitions) firstRequest 9 .default [[7]] with
    | none => rfl
    | some answered =>
      obtain ⟨response, store'⟩ := answered
      obtain ⟨hcreated, hnames⟩ := Metadata.response_some hresponse
      have hcreating : Metadata.Creating (firstConfig defaultPartitions) firstRequest 9 [⟨0, some "orders"⟩] :=
        ⟨rfl, .inl rfl, rfl, by decide, by decide⟩
      obtain ⟨id, logs, hl, -⟩ := (Metadata.autoCreate_adds
        ((Metadata.createdStore_creating hcreating).symm.trans hcreated)).added "orders" (by decide) (by decide) (by decide)
      obtain ⟨topics, htopics, -⟩ := hnames _ rfl (by decide) (by decide)
      have hget : store'.catalog.get "orders" = .ok (some ⟨id, "orders", defaultPartitions⟩) := by
        have hvalid : validateName "orders" = .ok () := by decide
        simp only [CatalogState.get, hvalid, hl, Option.map_some]
        rfl
      have hnone : Metadata.tryEntry 1 store'.catalog.get (some "orders") = none := by
        simp only [Metadata.tryEntry, hget]
        exact Metadata.successTopic_none h
      rw [Metadata.topicsByName_mapM] at htopics
      have hmem : some "orders" ∈ [some "orders"] := by decide
      exact absurd (htopics.symm.trans (mapM_eq_none hmem hnone)) (Option.some_ne_none _)
  · intro hdrawing
    cases hdrawing with
    | here name named valid new drawn => exact absurd (drawn 7 (by decide)) (by decide)
    | skip done later => exact absurd (done "orders" rfl (by decide)) (by decide)
    | insert name metadata store₁ named valid new h later => cases later

theorem Reachable.default : Reachable defaultPartitions .default := ⟨[], .new, Machine.Path.nil, by simp, rfl⟩

theorem not_neverPanics (h : i32Max + 1 < ((defaultPartitions : ℕ) : Int)) : ¬ NeverPanics defaultPartitions := by
  intro hnever
  obtain ⟨hnone, hdrawn⟩ := firstRequest_panics h
  obtain ⟨requested, hcreating, hdrawing⟩ := hnever.metadata _ _ _ _ _ rfl .default hnone
  obtain rfl : [⟨0, some "orders"⟩] = requested := Option.some.inj hcreating.present
  exact hdrawn hdrawing

end

/-- Discovery responses never panic, whatever the requests and however the catalog came about, if and only if the indices of
as many partitions as a topic has by default fit. -/
theorem discovery_never_panics (defaultPartitions : ℕ+) :
    NeverPanics defaultPartitions ↔ (defaultPartitions : ℕ) ≤ 2 ^ 31 := by
  have hbound : ((defaultPartitions : ℕ) : Int) ≤ i32Max + 1 ↔ (defaultPartitions : ℕ) ≤ 2 ^ 31 := by
    rw [show i32Max + 1 = ((2 ^ 31 : ℕ) : Int) by decide, Int.ofNat_le]
  rw [← hbound]
  refine ⟨fun hnever => not_lt.1 fun hlt => not_neverPanics hlt hnever, fun hcount => ?_⟩
  have hindexable : ∀ store, Reachable defaultPartitions store → Metadata.Indexable store :=
    fun store hstore => hstore.indexable hcount
  refine ⟨?_, ?_, ?_, createTopics_safe, ?_⟩
  · rintro config request version _ draws rfl ⟨tr, s, hrun, hwire, rfl⟩ hnone
    exact Metadata.response_drawing hrun (hindexable _ ⟨tr, s, hrun, hwire, rfl⟩) hcount hnone
  · intro looked hlooked brokerId requested
    rw [Metadata.topicsByName_mapM]
    exact mapM_ne_none fun name _ =>
      Metadata.tryEntry_ne_none (fun name => ⟨looked name, rfl, hindexable _ (hlooked name)⟩) name
  · intro looked hlooked brokerId requested
    have hloop : Metadata.topicsByIdLoop brokerId (fun id => (looked id).catalog.getById id) [] requested ≠ none :=
      Metadata.topicsByIdLoop_ne_none (fun id metadata hget =>
        hindexable _ (hlooked id) _ metadata (Metadata.getById_hasTopic (hlooked id).inv hget).1) [] requested
    obtain ⟨_, heq⟩ := Option.ne_none_iff_exists'.1 hloop
    rw [Metadata.topicsById, heq]
    exact Option.some_ne_none _
  · intro store looked _ hlooked request brokerId
    refine describe_ne_none fun name => ?_
    exact (hlooked name).inv.found rfl fun entry hl => hindexable _ (hlooked name) name entry.metadata ⟨entry, hl, rfl⟩

/-- With one partition more by default a topic that is created for a request cannot be shown in its response. -/
theorem discovery_panics_above :
    Metadata.response (firstConfig 2147483649) firstRequest 9 .default [[7]] = none ∧
      ¬ Metadata.Drawing 2147483649 [⟨0, some "orders"⟩] .default [[7]] ∧ ¬ NeverPanics 2147483649 := by
  have h : i32Max + 1 < (((2147483649 : ℕ+) : ℕ) : Int) := by decide
  exact ⟨(firstRequest_panics h).1, (firstRequest_panics h).2, not_neverPanics h⟩

end MemKafka
