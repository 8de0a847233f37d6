import MemKafka.Metadata
import MemKafka.Paging

/-!
# One view of the topics

A client learns of topics by name, by id, from the list of all of them, or page by page. `TopicView` is what each of these
says about a topic: its name, its id and the indices of its partitions. The loops of the builders are maps over
the distinct names or ids asked for (`topicsByName_eq`, `topicsByIdLoop_eq`), and all of them show the catalog's view
(`discovery_views_agree`).
-/

namespace MemKafka.Metadata
open Kit

structure TopicView where
  name : Option String
  topicId : Uuid
  partitions : List Int
deriving DecidableEq, Repr

def viewOf (topic : TopicMetadata) : TopicView :=
  ⟨some topic.name, topic.id, (List.range topic.partitionCount).map fun n : Nat => (n : Int)⟩

def MetadataResponseTopic.view (topic : MetadataResponseTopic) : TopicView :=
  ⟨topic.name, topic.topicId, topic.partitions.map (·.partitionIndex)⟩

/-- An entry of a topic. -/
structure Shows (topic : MetadataResponseTopic) (metadata : TopicMetadata) : Prop where
  errorCode : topic.errorCode = 0
  view : topic.view = viewOf metadata

/-- What a list of all topics says. -/
structure ShowsAll (store : TopicStore) (topics : List MetadataResponseTopic) : Prop where
  shown : ∀ name metadata, HasTopic store name metadata → ∃ topic ∈ topics, Shows topic metadata
  only : ∀ topic ∈ topics, ∃ name metadata, HasTopic store name metadata ∧ Shows topic metadata
  once : (topics.map (·.name)).Nodup

/-- What the topics of some names are said to be. -/
structure ShowsNames (store : TopicStore) (names : List (Option String)) (topics : List MetadataResponseTopic) : Prop where
  names : topics.map (·.name) = names.eraseDups
  known : ∀ topic ∈ topics, ∀ name metadata, topic.name = some name → HasTopic store name metadata → Shows topic metadata
  unknown : ∀ topic ∈ topics, (∀ name metadata, topic.name = some name → ¬ HasTopic store name metadata) →
    topic.errorCode ≠ 0

/-- The error code of a name. -/
inductive Answers (store : TopicStore) : Option String → Int → Prop
  | success (name : String) (valid : validateName name = .ok ()) (there : name ∈ store.catalog.topicsByName) :
      Answers store (some name) 0
  | invalid {name : Option String} (invalid : ∀ name', name = some name' → validateName name' ≠ .ok ()) :
      Answers store name ResponseError.invalidTopicException.code
  | unknown (name : String) (valid : validateName name = .ok ()) (absent : name ∉ store.catalog.topicsByName) :
      Answers store (some name) ResponseError.unknownTopicOrPartition.code

/-- What the topics of some ids are said to be. -/
structure ShowsIds (store : TopicStore) (ids : List Uuid) (topics : List MetadataResponseTopic) : Prop where
  ids : topics.map (·.topicId) = ids.eraseDups.filter (fun id => (store.catalog.getById id).isNone) ++
    ids.eraseDups.filter fun id => (store.catalog.getById id).isSome
  known : ∀ topic ∈ topics, ∀ name metadata, HasTopic store name metadata → metadata.id = topic.topicId →
    Shows topic metadata
  unknown : ∀ topic ∈ topics, topic.errorCode = ResponseError.unknownTopicId.code ↔
    ∀ name metadata, HasTopic store name metadata → metadata.id ≠ topic.topicId

/-- What the entries of a topic on all pages say together. -/
structure Describes (topics : List DescribedTopic) (metadata : TopicMetadata) : Prop where
  shown : entriesOf metadata.name topics ≠ []
  entries : ∀ topic ∈ entriesOf metadata.name topics, topic.errorCode = 0 ∧ topic.topicId = metadata.id
  partitions : indicesOf metadata.name topics = (viewOf metadata).partitions

/-- The partition counts fit. -/
def Fits (store : TopicStore) : Prop :=
  ∀ name metadata, HasTopic store name metadata → (metadata.partitionCount : Int) ≤ i32Max

/-- The partition indices fit. -/
def Indexable (store : TopicStore) : Prop :=
  ∀ name metadata, HasTopic store name metadata → (metadata.partitionCount : Int) ≤ i32Max + 1

theorem Fits.indexable {store : TopicStore} (h : Fits store) : Indexable store :=
  fun name metadata htopic => (h name metadata htopic).trans (by decide)

section
variable {brokerId : Int} {store store' : TopicStore} {name : String} {metadata : TopicMetadata}

/-! ### Entries -/

/-- The entry of a topic. -/
def wholeTopic (topic : TopicMetadata) (brokerId : Int) : MetadataResponseTopic where
  name := some topic.name
  topicId := topic.id
  partitions := (List.range topic.partitionCount).map fun index : Nat => partitionOf brokerId index

@[simp] theorem view_wholeTopic : (wholeTopic metadata brokerId).view = viewOf metadata := by
  simp [MetadataResponseTopic.view, wholeTopic, viewOf, partitionOf, Function.comp_def]

theorem successTopic_eq (h : (metadata.partitionCount : Int) ≤ i32Max + 1) :
    successTopic metadata brokerId = some (wholeTopic metadata brokerId) := by
  have hmap := mapM_i32OfUsize (l := List.range metadata.partitionCount) fun n hn => by
    have := List.mem_range.1 hn
    omega
  simp [successTopic, hmap, wholeTopic, Function.comp_def]

theorem eq_wholeTopic {topic : MetadataResponseTopic} (h : successTopic metadata brokerId = some topic) :
    topic = wholeTopic metadata brokerId := by
  obtain ⟨indices, hmap, h⟩ := Option.bind_eq_some_iff.1 h
  obtain rfl : indices = (List.range metadata.partitionCount).map fun n : Nat => (n : Int) :=
    eq_map_of_mapM (fun n _ index hn => (Option.some.inj (Option.ite_none_right_eq_some.1 hn).2).symm) hmap
  obtain rfl := Option.some.inj h
  simp [wholeTopic, Function.comp_def]

/-- The entry of a name. -/
def nameEntry (store : TopicStore) (brokerId : Int) : Option String → MetadataResponseTopic
  | none => errorTopic none 0 .invalidTopicException
  | some name =>
    match store.catalog.get name with
    | .ok (some metadata) => wholeTopic metadata brokerId
    | .ok none => errorTopic (some name) 0 .unknownTopicOrPartition
    | .error _ => errorTopic (some name) 0 .invalidTopicException

/-- The entry of an id. -/
def idEntry (store : TopicStore) (brokerId : Int) (id : Uuid) : MetadataResponseTopic :=
  match store.catalog.getById id with
  | some metadata => wholeTopic metadata brokerId
  | none => errorTopic none id .unknownTopicId

theorem get_hasTopic (h : store.catalog.get name = .ok (some metadata)) : HasTopic store name metadata := by
  unfold CatalogState.get at h
  split at h
  · cases h
  · obtain ⟨entry, hl, heq⟩ := Option.map_eq_some_iff.1 (Except.ok.inj h)
    exact ⟨entry, hl, heq⟩

theorem get_error {error : TopicError} (h : store.catalog.get name = .error error) : error = .invalidName := by
  unfold CatalogState.get at h
  split at h
  · rename_i hname
    exact validateName_error (hname.trans (congrArg Except.error (Except.error.inj h)))
  · cases h

theorem getById_hasTopic {id : Uuid} (inv : CatalogInv store) (h : store.catalog.getById id = some metadata) :
    HasTopic store metadata.name metadata ∧ metadata.id = id := by
  obtain ⟨name, hname, h⟩ := Option.bind_eq_some_iff.1 h
  obtain ⟨entry, hl, rfl⟩ := Option.map_eq_some_iff.1 h
  obtain ⟨entry', hl', hid⟩ := inv.names id name hname
  obtain rfl : entry = entry' := Option.some.inj (hl.symm.trans hl')
  exact ⟨⟨entry, (inv.entries name entry hl).keyed ▸ hl, rfl⟩, hid⟩

theorem nameEntry_name (inv : CatalogInv store) (name : Option String) : (nameEntry store brokerId name).name = name := by
  match name with
  | none => rfl
  | some name =>
    match hget : store.catalog.get name with
    | .ok (some metadata) =>
      obtain ⟨entry, hl, rfl⟩ := get_hasTopic hget
      simp only [nameEntry, hget]
      exact congrArg some (inv.entries name entry hl).keyed
    | .ok none => simp only [nameEntry, hget, errorTopic]
    | .error error => simp only [nameEntry, hget, errorTopic]

theorem idEntry_topicId (inv : CatalogInv store) (id : Uuid) : (idEntry store brokerId id).topicId = id := by
  unfold idEntry
  split
  · rename_i metadata hget
    exact (getById_hasTopic inv hget).2
  · rfl

/-! ### The loops -/

/-- Skipping what was seen before is keeping first occurrences. -/
theorem eraseDups_unseen {α : Type} [BEq α] [LawfulBEq α] {seen : List α} {a : α} {l : List α} (hnew : a ∉ seen) :
    ((a :: l).filter (· ∉ seen)).eraseDups = a :: (l.filter (· ∉ a :: seen)).eraseDups := by
  rw [List.filter_cons_of_pos (by simp [hnew]), List.eraseDups_cons, List.filter_filter]
  congr 2
  refine List.filter_congr fun b _ => ?_
  by_cases hb : b = a <;> simp [hb]

/-- The entry of a name, if it does not panic. -/
def tryEntry (brokerId : Int) (get : String → Except TopicError (Option TopicMetadata)) :
    Option String → Option MetadataResponseTopic
  | none => some (errorTopic none 0 .invalidTopicException)
  | some name =>
    match get name with
    | .ok (some metadata) => successTopic metadata brokerId
    | .ok none => some (errorTopic (some name) 0 .unknownTopicOrPartition)
    | .error .invalidName => some (errorTopic (some name) 0 .invalidTopicException)
    | .error _ => none

theorem topicsByName_mapM (get : String → Except TopicError (Option TopicMetadata)) (seen : List (Option String))
    (requested : List MetadataRequestTopic) : topicsByName brokerId get seen requested =
      ((requested.map (·.name)).filter (· ∉ seen)).eraseDups.mapM (tryEntry brokerId get) := by
  induction requested generalizing seen with
  | nil => rfl
  | cons topic rest ih =>
    by_cases hseen : topic.name ∈ seen
    · rw [topicsByName, if_pos hseen, ih, List.map_cons, List.filter_cons_of_neg (by simpa using hseen)]
    · rw [topicsByName, if_neg hseen, ih, List.map_cons, eraseDups_unseen hseen, List.mapM_cons]
      match topic.name with
      | none => rfl
      | some name =>
        match hget : get name with
        | .ok none => simp only [tryEntry, hget]; rfl
        | .ok (some metadata) => simp only [tryEntry, hget]; rfl
        | .error error => cases error <;> simp only [tryEntry, hget] <;> rfl

theorem tryEntry_eq (hindexable : Indexable store) (name : Option String) :
    tryEntry brokerId store.catalog.get name = some (nameEntry store brokerId name) := by
  match name with
  | none => rfl
  | some name =>
    match hget : store.catalog.get name with
    | .ok none => simp only [tryEntry, nameEntry, hget]
    | .ok (some metadata) => simp only [tryEntry, nameEntry, hget, successTopic_eq (hindexable _ _ (get_hasTopic hget))]
    | .error error =>
      obtain rfl := get_error hget
      simp only [tryEntry, nameEntry, hget]

theorem eq_nameEntry {name : Option String} {topic : MetadataResponseTopic}
    (h : tryEntry brokerId store.catalog.get name = some topic) : topic = nameEntry store brokerId name := by
  match name with
  | none => exact (Option.some.inj h).symm
  | some name =>
    match hget : store.catalog.get name with
    | .ok none =>
      simp only [tryEntry, hget] at h
      simpa only [nameEntry, hget] using (Option.some.inj h).symm
    | .ok (some metadata) =>
      simp only [tryEntry, hget] at h
      simpa only [nameEntry, hget] using eq_wholeTopic h
    | .error error =>
      obtain rfl := get_error hget
      simp only [tryEntry, hget] at h
      simpa only [nameEntry, hget] using (Option.some.inj h).symm

theorem topicsByName_eq (hindexable : Indexable store) (requested : List MetadataRequestTopic) :
    topicsByName brokerId store.catalog.get [] requested =
      some ((requested.map (·.name)).eraseDups.map (nameEntry store brokerId)) := by
  rw [topicsByName_mapM, mapM_eq_map fun name _ => tryEntry_eq hindexable name]
  simp

theorem eq_topicsByName {requested : List MetadataRequestTopic} {topics : List MetadataResponseTopic}
    (h : topicsByName brokerId store.catalog.get [] requested = some topics) :
    topics = (requested.map (·.name)).eraseDups.map (nameEntry store brokerId) := by
  rw [topicsByName_mapM] at h
  simpa using eq_map_of_mapM (fun name _ topic => eq_nameEntry) h

/-- The ids a request is about. -/
def idsOf (requested : List MetadataRequestTopic) : List Uuid := (requested.map (·.topicId)).filter (· ≠ 0)

theorem topicsByIdLoop_eq (inv : CatalogInv store) (hindexable : Indexable store) (seen : List Uuid)
    (requested : List MetadataRequestTopic) :
    topicsByIdLoop brokerId store.catalog.getById seen requested =
      some ((((idsOf requested).filter (· ∉ seen)).eraseDups.filter (fun id => (store.catalog.getById id).isNone)).map
          (idEntry store brokerId),
        (((idsOf requested).filter (· ∉ seen)).eraseDups.filter (fun id => (store.catalog.getById id).isSome)).map
          (idEntry store brokerId)) := by
  induction requested generalizing seen with
  | nil => simp [topicsByIdLoop, idsOf]
  | cons topic rest ih =>
    by_cases hnil : topic.topicId = 0
    · have hids : idsOf (topic :: rest) = idsOf rest := List.filter_cons_of_neg (by simpa using hnil)
      rw [topicsByIdLoop, if_pos (.inl hnil), ih, hids]
    have hids : idsOf (topic :: rest) = topic.topicId :: idsOf rest :=
      List.filter_cons_of_pos (decide_eq_true hnil)
    by_cases hseen : topic.topicId ∈ seen
    · rw [topicsByIdLoop, if_pos (.inr hseen), ih, hids, List.filter_cons_of_neg (by simpa using hseen)]
    · rw [topicsByIdLoop, if_neg (not_or.2 ⟨hnil, hseen⟩), ih, hids, eraseDups_unseen hseen]
      match hget : store.catalog.getById topic.topicId with
      | none =>
        simp only [hget, Option.bind_eq_bind, Option.bind_some, List.filter_cons, Option.isNone_none, Option.isSome_none,
          if_true, List.map_cons, idEntry]
        rfl
      | some metadata =>
        have hsuccess : successTopic metadata brokerId = some (wholeTopic metadata brokerId) :=
          successTopic_eq (hindexable _ _ (getById_hasTopic inv hget).1)
        simp only [hget, hsuccess, Option.bind_eq_bind, Option.bind_some, List.filter_cons, Option.isNone_some,
          Option.isSome_some, if_true, List.map_cons, idEntry]
        rfl

/-! ### Creations -/

/-- What the loop does for a first topic: nothing, or an insertion. -/
inductive AutoCreates (defaultPartitions : ℕ+) (topic : MetadataRequestTopic) (rest : List MetadataRequestTopic)
    (store : TopicStore) (draws : List (List Uuid)) : Prop
  | skip (done : ∀ name, topic.name = some name → validateName name = .ok () → name ∈ store.catalog.topicsByName)
      (h : autoCreate defaultPartitions (topic :: rest) store draws = autoCreate defaultPartitions rest store draws)
  | insert (name : String) (named : topic.name = some name) (valid : validateName name = .ok ())
      (new : store.catalog.topicsByName.lookup name = none)
      (h : autoCreate defaultPartitions (topic :: rest) store draws =
        (insertTopic store name defaultPartitions (draws.headD [])).bind fun created =>
          autoCreate defaultPartitions rest created.2 draws.tail)

theorem autoCreate_cons (defaultPartitions : ℕ+) (topic : MetadataRequestTopic) (rest : List MetadataRequestTopic)
    (store : TopicStore) (draws : List (List Uuid)) : AutoCreates defaultPartitions topic rest store draws := by
  match hname : topic.name with
  | none => exact .skip (by simp [hname]) (by simp only [autoCreate, hname])
  | some name =>
    match hvalid : validateName name with
    | .error error =>
      obtain rfl := validateName_error hvalid
      refine .skip (fun name' h h' => ?_) (by simp only [autoCreate, hname, getOrAutoCreateRead, hvalid])
      obtain rfl : name = name' := Option.some.inj (hname.symm.trans h)
      rw [hvalid] at h'
      cases h'
    | .ok () =>
      match hl : store.catalog.topicsByName.lookup name with
      | some entry =>
        refine .skip (fun name' h _ => ?_) (by simp only [autoCreate, hname, getOrAutoCreateRead, hvalid, hl])
        obtain rfl : name = name' := Option.some.inj (hname.symm.trans h)
        exact mem_iff_lookup.2 ⟨entry, hl⟩
      | none =>
        refine .insert name hname hvalid hl ?_
        simp only [autoCreate, hname, getOrAutoCreateRead, hvalid, hl, if_true, getOrAutoCreateWrite]
        rfl

/-- What is created for a request is created by calls to the catalog. -/
theorem autoCreate_path {defaultPartitions : ℕ+} {requested : List MetadataRequestTopic} {draws : List (List Uuid)}
    {s : Catalog} (h : autoCreate defaultPartitions requested s.store draws = some store') :
    ∃ tr s', (topicCatalog defaultPartitions).Path s tr s' ∧ s'.store = store' := by
  induction requested generalizing s draws with
  | nil => exact ⟨[], s, Machine.Path.nil, Option.some.inj h⟩
  | cons topic rest ih =>
    cases autoCreate_cons defaultPartitions topic rest s.store draws with
    | skip _ heq => exact ih (heq ▸ h)
    | insert name _ hvalid hl heq =>
      rw [heq] at h
      obtain ⟨⟨metadata, store₁⟩, hinsert, h⟩ := Option.bind_eq_some_iff.1 h
      obtain ⟨call, hcall⟩ := Infinite.exists_notMem_finset s.calls.keys.toFinset
      rw [List.mem_toFinset, ← AList.mem_keys] at hcall
      have hstart : (topicCatalog defaultPartitions).Takes ⟨s, .getOrAutoCreate call name true, .progress,
          ⟨s.store, s.calls.insert call name⟩⟩ := by
        unfold Machine.Takes topicCatalog
        simp only [Catalog.step, if_neg hcall, getOrAutoCreateRead, hvalid, hl, if_true]
      have hresume : (topicCatalog defaultPartitions).Takes ⟨⟨s.store, s.calls.insert call name⟩,
          .resume call (draws.headD []), .getOrAutoCreate name (.ok (some metadata)),
          ⟨store₁, (s.calls.insert call name).erase call⟩⟩ := by
        unfold Machine.Takes topicCatalog
        simp only [Catalog.step, Catalog.resume, AList.lookup_insert, getOrAutoCreateWrite, hl, hinsert,
          Option.bind_eq_bind, Option.bind_some]
      obtain ⟨tr, s', hpath, heq⟩ := ih (s := ⟨store₁, (s.calls.insert call name).erase call⟩) h
      exact ⟨_, s', Machine.Path.cons hstart (Machine.Path.cons hresume hpath), heq⟩

/-- The store when the topics of a request have been created. -/
def createdStore (config : MetadataConfig) (request : MetadataRequest) (version : Int) (store : TopicStore)
    (draws : List (List Uuid)) : Option TopicStore :=
  match requestError request version, request.topics with
  | none, some requested =>
    if uuidMode version requested ∨ ¬ allowAutoCreate config request then some store
    else autoCreate config.defaultPartitions requested store draws
  | _, _ => some store

theorem createdStore_path {config : MetadataConfig} {request : MetadataRequest} {version : Int}
    {draws : List (List Uuid)} {s : Catalog} (h : createdStore config request version s.store draws = some store') :
    ∃ tr s', (topicCatalog config.defaultPartitions).Path s tr s' ∧ s'.store = store' := by
  unfold createdStore at h
  split at h
  · split at h
    · exact ⟨[], s, Machine.Path.nil, Option.some.inj h⟩
    · exact autoCreate_path h
  · exact ⟨[], s, Machine.Path.nil, Option.some.inj h⟩

/-! ### Responses -/

/-- The entries of a response that is not an error. -/
def entriesFor (brokerId : Int) (request : MetadataRequest) (version : Int) (store : TopicStore) :
    List MetadataResponseTopic :=
  match request.topics with
  | none => store.catalog.list.map (wholeTopic · brokerId)
  | some requested =>
    if uuidMode version requested then
      ((idsOf requested).eraseDups.filter (fun id => (store.catalog.getById id).isNone) ++
        (idsOf requested).eraseDups.filter fun id => (store.catalog.getById id).isSome).map (idEntry store brokerId)
    else (requested.map (·.name)).eraseDups.map (nameEntry store brokerId)

theorem mem_list : metadata ∈ store.catalog.list ↔ ∃ name, HasTopic store name metadata := by
  rw [CatalogState.list, List.mem_map]
  constructor
  · rintro ⟨⟨name, entry⟩, hmem, rfl⟩
    exact ⟨name, entry, mem_sortedEntries.1 hmem, rfl⟩
  · rintro ⟨name, entry, hl, rfl⟩
    exact ⟨(name, entry), mem_sortedEntries.2 hl, rfl⟩

section
variable {config : MetadataConfig} {request : MetadataRequest} {version : Int} {draws : List (List Uuid)}

theorem topicsForRequest_eq (inv : CatalogInv store') (hindexable : Indexable store')
    (herror : requestError request version = none)
    (h : createdStore config request version store draws = some store') :
    topicsForRequest config request version store draws = some (entriesFor config.brokerId request version store', store') := by
  unfold topicsForRequest entriesFor
  match htopics : request.topics with
  | none =>
    simp only [createdStore, herror, htopics, Option.some.injEq] at h
    subst h
    have hlist : store.catalog.list.mapM (successTopic · config.brokerId) = some _ := mapM_eq_map fun metadata hmem =>
      have ⟨name, htopic⟩ := mem_list.1 hmem
      successTopic_eq (hindexable name metadata htopic)
    simp only [hlist, Option.bind_eq_bind, Option.bind_some]
  | some requested =>
    simp only [createdStore, herror, htopics] at h
    by_cases hnil : requested = []
    · subst hnil
      obtain rfl : store = store' := by simpa [autoCreate] using h
      simp [uuidMode]
    by_cases huuid : uuidMode version requested
    · obtain rfl : store = store' := by simpa [huuid] using h
      simp only [if_neg hnil, if_pos huuid, topicsById, topicsByIdLoop_eq inv hindexable, Option.bind_eq_bind, Option.bind_some,
        List.map_append, List.not_mem_nil, not_false_eq_true, decide_true, List.filter_true]
    · have hnames : topicsByName config.brokerId store'.catalog.get [] requested = _ := topicsByName_eq hindexable requested
      by_cases hallow : allowAutoCreate config request
      · have hcreated : autoCreate config.defaultPartitions requested store draws = some store' := by
          simpa [huuid, hallow] using h
        simp only [if_neg hnil, if_neg huuid, if_pos hallow, hcreated, hnames, Option.bind_eq_bind, Option.bind_some]
      · obtain rfl : store = store' := by simpa [hallow] using h
        simp only [if_neg hnil, if_neg huuid, if_neg hallow, hnames, Option.bind_eq_bind, Option.bind_some]

/-- A request with an id that is not nil is not rejected from version 12 on, whatever its names are. -/
theorem requestError_of_uuidMode {requested : List MetadataRequestTopic} (hrequested : request.topics = some requested)
    (huuid : uuidMode version requested) : requestError request version = none := by
  obtain ⟨hversion, topic, htopic, hid⟩ : 12 ≤ version ∧ ∃ topic ∈ requested, topic.topicId ≠ 0 := by
    simpa [uuidMode] using huuid
  have hold : ¬ (10 ≤ version ∧ version ≤ 11) := by omega
  have hids : ¬ ∀ topic ∈ requested, topic.topicId = 0 := fun h => hid (h topic htopic)
  simpa [requestError, hrequested, hold] using fun _ h => absurd h hids

theorem response_entries (inv : CatalogInv store') (hindexable : Indexable store')
    (h : createdStore config request version store draws = some store') :
    ∃ response, Metadata.response config request version store draws = some (response, store') ∧
      (requestError request version = none → response.topics =
        (entriesFor config.brokerId request version store').map (withAuthorizedOperations request)) := by
  unfold Metadata.response
  match herror : requestError request version with
  | some error =>
    simp only [createdStore, herror, Option.some.injEq] at h
    exact ⟨requestErrorResponse request version error, by rw [h], by rintro ⟨⟩⟩
  | none =>
    simp only [topicsForRequest_eq inv hindexable herror h, Option.bind_eq_bind, Option.bind_some]
    exact ⟨_, rfl, fun _ => rfl⟩

end

/-! ### What the entries show -/

section
variable {request : MetadataRequest} {version : Int} {topics : List MetadataResponseTopic}

theorem Shows.authorized {topic : MetadataResponseTopic} (h : Shows topic metadata) :
    Shows (withAuthorizedOperations request topic) metadata := by
  unfold withAuthorizedOperations
  split
  · exact ⟨h.errorCode, h.view⟩
  · exact h

@[simp] theorem authorized_errorCode {topic : MetadataResponseTopic} :
    (withAuthorizedOperations request topic).errorCode = topic.errorCode := by
  unfold withAuthorizedOperations
  split <;> rfl

@[simp] theorem authorized_name {topic : MetadataResponseTopic} :
    (withAuthorizedOperations request topic).name = topic.name := by
  unfold withAuthorizedOperations
  split <;> rfl

@[simp] theorem authorized_topicId {topic : MetadataResponseTopic} :
    (withAuthorizedOperations request topic).topicId = topic.topicId := by
  unfold withAuthorizedOperations
  split <;> rfl

theorem shows_wholeTopic : Shows (wholeTopic metadata brokerId) metadata := ⟨rfl, view_wholeTopic⟩

theorem nameEntry_known (inv : CatalogInv store) (h : HasTopic store name metadata) :
    Shows (nameEntry store brokerId (some name)) metadata := by
  simp only [nameEntry, (h.found inv).1]
  exact shows_wholeTopic

theorem nameEntry_answers (brokerId : Int) (name : Option String) :
    Answers store name (nameEntry store brokerId name).errorCode := by
  cases name with
  | none => exact .invalid (by simp)
  | some name =>
    cases hvalid : validateName name with
    | error error =>
      have hcode : (nameEntry store brokerId (some name)).errorCode = ResponseError.invalidTopicException.code := by
        simp only [nameEntry, CatalogState.get, hvalid, errorTopic]
      rw [hcode]
      refine .invalid ?_
      rintro _ ⟨⟩
      simp [hvalid]
    | ok u =>
      cases hl : store.catalog.topicsByName.lookup name with
      | some entry =>
        have hcode : (nameEntry store brokerId (some name)).errorCode = 0 := by
          simp only [nameEntry, CatalogState.get, hvalid, hl, Option.map_some, wholeTopic]
        rw [hcode]
        exact .success name hvalid (mem_iff_lookup.2 ⟨entry, hl⟩)
      | none =>
        have hcode : (nameEntry store brokerId (some name)).errorCode = ResponseError.unknownTopicOrPartition.code := by
          simp only [nameEntry, CatalogState.get, hvalid, hl, Option.map_none, errorTopic]
        rw [hcode]
        exact .unknown name hvalid (AList.lookup_eq_none.1 hl)

theorem nameEntry_unknown {name : Option String}
    (h : ∀ name' metadata, name = some name' → ¬ HasTopic store name' metadata) :
    (nameEntry store brokerId name).errorCode ≠ 0 := by
  generalize hcode : (nameEntry store brokerId name).errorCode = code
  have hanswers : Answers store name code := hcode ▸ nameEntry_answers brokerId name
  cases hanswers with
  | success name valid there =>
    obtain ⟨entry, hl⟩ := mem_iff_lookup.1 there
    exact absurd ⟨entry, hl, rfl⟩ (h name entry.metadata rfl)
  | invalid invalid => exact ResponseError.code_ne_zero _
  | unknown name valid absent => exact ResponseError.code_ne_zero _

theorem idEntry_known (inv : CatalogInv store) (h : HasTopic store name metadata) :
    Shows (idEntry store brokerId metadata.id) metadata := by
  simp only [idEntry, (h.found inv).2]
  exact shows_wholeTopic

theorem idEntry_unknown (inv : CatalogInv store) (id : Uuid) :
    (idEntry store brokerId id).errorCode = ResponseError.unknownTopicId.code ↔
      ∀ name metadata, HasTopic store name metadata → metadata.id ≠ id := by
  match hget : store.catalog.getById id with
  | none =>
    simp only [idEntry, hget]
    refine ⟨fun _ name metadata htopic heq => ?_, fun _ => rfl⟩
    rw [← heq, (htopic.found inv).2] at hget
    cases hget
  | some metadata =>
    obtain ⟨htopic, hid⟩ := getById_hasTopic inv hget
    simp only [idEntry, hget]
    refine ⟨fun h => ?_, fun h => absurd hid (h _ metadata htopic)⟩
    exact absurd (show 0 = ResponseError.unknownTopicId.code from h) (by decide)

theorem showsNames (inv : CatalogInv store) (names : List (Option String)) : ShowsNames store names
    ((names.eraseDups.map (nameEntry store brokerId)).map (withAuthorizedOperations request)) where
  names := by simp [Function.comp_def, nameEntry_name inv]
  known := by
    simp only [List.mem_map, forall_exists_index, and_imp, forall_apply_eq_imp_iff₂, authorized_name, nameEntry_name inv]
    rintro _ - name metadata rfl htopic
    exact (nameEntry_known inv htopic).authorized
  unknown := by
    simp only [List.mem_map, forall_exists_index, and_imp, forall_apply_eq_imp_iff₂, authorized_name, nameEntry_name inv,
      authorized_errorCode]
    exact fun name _ h => nameEntry_unknown h

theorem showsIds (inv : CatalogInv store) (ids : List Uuid) : ShowsIds store ids
    (((ids.eraseDups.filter (fun id => (store.catalog.getById id).isNone) ++
      ids.eraseDups.filter fun id => (store.catalog.getById id).isSome).map (idEntry store brokerId)).map
        (withAuthorizedOperations request)) where
  ids := by simp [Function.comp_def, idEntry_topicId inv]
  known := by
    intro topic htopic name metadata h heq
    obtain ⟨entry, hentry, rfl⟩ := List.mem_map.1 htopic
    obtain ⟨id, -, rfl⟩ := List.mem_map.1 hentry
    rw [authorized_topicId, idEntry_topicId inv] at heq
    exact heq ▸ (idEntry_known inv h).authorized
  unknown := by
    intro topic htopic
    obtain ⟨entry, hentry, rfl⟩ := List.mem_map.1 htopic
    obtain ⟨id, -, rfl⟩ := List.mem_map.1 hentry
    rw [authorized_errorCode, authorized_topicId, idEntry_topicId inv]
    exact idEntry_unknown inv id

theorem showsAll (inv : CatalogInv store) :
    ShowsAll store ((store.catalog.list.map (wholeTopic · brokerId)).map (withAuthorizedOperations request)) where
  shown name metadata htopic :=
    ⟨_, List.mem_map_of_mem (List.mem_map_of_mem (mem_list.2 ⟨name, htopic⟩)), shows_wholeTopic.authorized⟩
  only topic htopic := by
    obtain ⟨entry, hentry, rfl⟩ := List.mem_map.1 htopic
    obtain ⟨metadata, hmem, rfl⟩ := List.mem_map.1 hentry
    obtain ⟨name, htopic⟩ := mem_list.1 hmem
    exact ⟨name, metadata, htopic, shows_wholeTopic.authorized⟩
  once := by
    have hnames : ((store.catalog.list.map (wholeTopic · brokerId)).map (withAuthorizedOperations request)).map (·.name) =
        (sortedEntries store.catalog.topicsByName).map fun e => some e.1 := by
      rw [List.map_map, List.map_map, CatalogState.list, List.map_map]
      refine List.map_congr_left fun e he => ?_
      have hkeyed := (inv.entries e.1 e.2 (mem_sortedEntries.1 he)).keyed
      show (withAuthorizedOperations request _).name = _
      rw [authorized_name]
      exact congrArg some hkeyed
    rw [hnames, List.nodup_iff_pairwise_ne, List.pairwise_map]
    exact (pairwise_sortedEntries _).imp fun h heq => h.ne (Option.some.inj heq)

end

/-- Paging over a catalog in which no topic is created shows each of its topics as it is. -/
theorem browse_describes (inv : CatalogInv store) (hfits : Fits store) (brokerId : Int) (topics : List String)
    (limits : Nat → Int) : ∃ fuel pages,
    Session.browse ⟨fun _ => store, fun _ _ => store⟩ brokerId topics limits fuel 0 none = some pages ∧
      ∀ name metadata, name ∈ topics ∨ topics = [] → HasTopic store name metadata →
        Describes (Session.topicsOf pages) metadata := by
  have hgrows : Session.Grows ⟨fun _ => store, fun _ _ => store⟩ :=
    ⟨fun _ => inv, fun _ _ => inv, fun _ _ => .refl store, fun _ _ => .refl store,
      fun _ _ name entry hl => hfits name entry.metadata ⟨entry, hl, rfl⟩⟩
  obtain ⟨fuel, pages, hbrowse, hpages⟩ : Session.Ends _ brokerId topics limits 0 none :=
    hgrows.ends (fun page (_ : 0 ≤ page) => rfl) (by rintro _ ⟨⟩)
  refine ⟨fuel, pages, hbrowse, fun name metadata hname htopic => ?_⟩
  obtain ⟨entry, hl, rfl⟩ := htopic
  have hentry := inv.entries name entry hl
  obtain rfl : entry.metadata.name = name := hentry.keyed
  have htopic : HasTopic store entry.metadata.name entry.metadata := ⟨entry, hl, rfl⟩
  have hindices := hpages.known _ _ hname htopic
  rw [leftOf_whole rfl rfl] at hindices
  refine ⟨fun hnil => ?_, Session.Browsed.entry_known hgrows hbrowse hpages fun _ => (htopic.found inv).1, hindices⟩
  -- a topic has at least one partition
  have hlength := congrArg List.length hindices
  simp only [indicesOf, hnil, List.flatMap_nil, List.length_nil, List.length_map, List.length_range] at hlength
  exact absurd hentry.count_pos (by omega)

end

/-- One view of the topics. A request is answered from a catalog that is reachable as the one it came to is, with the topics
it may create. A response by name has each name once, one by id each id that is not nil once, the unknown ones first; and
in these, in a list of all topics and on the pages of descriptions together, a topic has the same name, id and partitions. -/
theorem discovery_views_agree (config : MetadataConfig) {tr : List CatalogEvent} {s : Catalog}
    (hrun : (topicCatalog config.defaultPartitions).Run tr s) (request : MetadataRequest) (version : Int)
    (draws : List (List Uuid)) (store' : TopicStore)
    (hcreated : createdStore config request version s.store draws = some store') (hfits : Fits store') :
    (∃ tr' s', (topicCatalog config.defaultPartitions).Path s tr' s' ∧ s'.store = store') ∧
    (∃ response, Metadata.response config request version s.store draws = some (response, store') ∧
      (request.topics = none → ShowsAll store' response.topics) ∧
      ∀ requested, request.topics = some requested →
        (uuidMode version requested → ShowsIds store' (idsOf requested) response.topics) ∧
        (¬ uuidMode version requested → requestError request version = none →
          ShowsNames store' (requested.map (·.name)) response.topics)) ∧
    ∀ (topics : List String) (limits : Nat → Int), ∃ fuel pages,
      Session.browse ⟨fun _ => store', fun _ _ => store'⟩ config.brokerId topics limits fuel 0 none = some pages ∧
        ∀ name metadata, name ∈ topics ∨ topics = [] → HasTopic store' name metadata →
          Describes (Session.topicsOf pages) metadata := by
  obtain ⟨tr', s', hpath, rfl⟩ := createdStore_path hcreated
  have inv : CatalogInv s'.store := (catalog_history (Machine.Path.append hrun hpath)).1.1
  refine ⟨⟨tr', s', hpath, rfl⟩, ?_, browse_describes inv hfits config.brokerId⟩
  obtain ⟨response, hresponse, htopics⟩ := response_entries inv hfits.indexable hcreated
  refine ⟨response, hresponse, fun hall => ?_, fun requested hrequested => ⟨fun huuid => ?_, fun hnames herror => ?_⟩⟩
  · have herror : requestError request version = none := by
      rw [requestError, hall]
      rfl
    rw [htopics herror, entriesFor, hall]
    exact showsAll inv
  · rw [htopics (requestError_of_uuidMode hrequested huuid), entriesFor, hrequested]
    simp only [if_pos huuid]
    exact showsIds inv (idsOf requested)
  · rw [htopics herror, entriesFor, hrequested]
    simp only [if_neg hnames]
    exact showsNames inv (requested.map (·.name))

/-- One topic is there and another one is created, which is asked for twice. -/
theorem discovery_views_agree_created : ∃ tr s store' response,
    (topicCatalog 2).exec .new [.createExplicit "orders" 3 1 [7]] = some (tr, s) ∧
    Metadata.response ⟨1, true, false, 2, "localhost", 9092⟩
      ⟨some [⟨0, some "audit"⟩, ⟨0, some "orders"⟩, ⟨0, some "audit"⟩], true, false, false⟩ 9 s.store [[8]] =
        some (response, store') ∧
    response.topics.map (·.name) = [some "audit", some "orders"] ∧
    (∀ topic ∈ response.topics, topic.name = some "audit" → topic.view = ⟨some "audit", 8, [0, 1]⟩) := by
  have hout : (((topicCatalog 2).exec .new [.createExplicit "orders" 3 1 [7]]).bind fun r =>
      (createdStore ⟨1, true, false, 2, "localhost", 9092⟩
        ⟨some [⟨0, some "audit"⟩, ⟨0, some "orders"⟩, ⟨0, some "audit"⟩], true, false, false⟩ 9 r.2.store [[8]]).map
          fun store' => (store'.catalog.topicsByName.entries.all (fun e => e.2.metadata.partitionCount ≤ 3),
            (store'.catalog.topicsByName.lookup "audit").map (·.metadata))) =
      some (true, some ⟨8, "audit", 2⟩) := by decide +kernel
  simp only [Option.bind_eq_some_iff, Option.map_eq_some_iff, Prod.mk.injEq, Prod.exists] at hout
  obtain ⟨tr, s, hx, store', hcreated, hsmall, entry, hl, hentry⟩ := hout
  have hfits : Fits store' := by
    rintro name metadata ⟨entry, hl, rfl⟩
    have := of_decide_eq_true (List.all_eq_true.1 hsmall _ (lookup_eq_some_iff.1 hl))
    exact le_trans (Int.ofNat_le.2 this) (by decide)
  obtain ⟨-, ⟨response, hresponse, -, hnames⟩, -⟩ := discovery_views_agree ⟨1, true, false, 2, "localhost", 9092⟩
    (Machine.exec_path hx).1 _ 9 [[8]] store' hcreated hfits
  have hshows : ShowsNames store' _ response.topics := (hnames _ rfl).2 (by decide) rfl
  refine ⟨tr, s, store', response, hx, hresponse, hshows.names, fun topic htopic hname => ?_⟩
  exact (hshows.known topic htopic "audit" ⟨8, "audit", 2⟩ hname ⟨entry, hl, hentry⟩).view

end MemKafka.Metadata
