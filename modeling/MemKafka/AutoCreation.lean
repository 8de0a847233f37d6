import MemKafka.Discovery

/-!
# What a Metadata request creates

The loop of `topics_for_request` does nothing for a name that is null, invalid or there, and inserts every other one
(`AutoCreates`): what it adds to the catalog is told by the set of the requested names (`Adds`), in whatever order and
however often they are requested. A response by name is then read off the catalog it leaves (`AnswersNames`).
-/

namespace MemKafka.Metadata
open Kit

/-- What is added to a catalog: the names of a list that are valid and absent, each with `count` new empty logs. -/
structure Adds (count : Nat) (names : List String) (store store' : TopicStore) : Prop where
  added : ∀ name ∈ names, validateName name = .ok () → name ∉ store.catalog.topicsByName →
    ∃ id logs, store'.catalog.topicsByName.lookup name = some ⟨⟨id, name, count⟩, logs⟩ ∧ id ≠ 0 ∧
      id ∉ store.catalog.namesById ∧ logs.length = count ∧
      ∀ log ∈ logs, store.logs.length ≤ log ∧ store'.logs[log]? = some .default
  others : ∀ name, (name ∈ names → validateName name = .ok () → name ∈ store.catalog.topicsByName) →
    store'.catalog.topicsByName.lookup name = store.catalog.topicsByName.lookup name
  ids : ∀ id name, store.catalog.namesById.lookup id = some name → store'.catalog.namesById.lookup id = some name
  logs : ∃ n, store'.logs = store.logs ++ List.replicate n .default

/-- The request is one for which topics are created. -/
structure Creating (config : MetadataConfig) (request : MetadataRequest) (version : Int)
    (requested : List MetadataRequestTopic) : Prop where
  enabled : config.autoCreateTopics
  allowed : request.allowAutoTopicCreation ∨ config.forceAutoCreateTopics
  present : request.topics = some requested
  accepted : requestError request version = none
  by_name : ¬ uuidMode version requested

/-- What a response by name says: for each name once, whether it is in the catalog. -/
structure AnswersNames (store : TopicStore) (names : List (Option String)) (topics : List MetadataResponseTopic) : Prop where
  names : topics.map (·.name) = names.eraseDups
  success : ∀ topic ∈ topics, topic.errorCode = 0 ↔
    ∃ name, topic.name = some name ∧ name ∈ store.catalog.topicsByName
  invalid : ∀ topic ∈ topics, topic.errorCode = ResponseError.invalidTopicException.code ↔
    ∀ name, topic.name = some name → validateName name ≠ .ok ()
  unknown : ∀ topic ∈ topics, topic.errorCode = ResponseError.unknownTopicOrPartition.code ↔
    ∃ name, topic.name = some name ∧ validateName name = .ok () ∧ name ∉ store.catalog.topicsByName

/-- No id that was drawn for a topic is free, so that the next one has to be drawn. -/
inductive Drawing (defaultPartitions : ℕ+) : List MetadataRequestTopic → TopicStore → List (List Uuid) → Prop
  | here {topic rest store draws} (name : String) (named : topic.name = some name) (valid : validateName name = .ok ())
      (new : name ∉ store.catalog.topicsByName) (drawn : ∀ id ∈ draws.headD [], id = 0 ∨ id ∈ store.catalog.namesById) :
      Drawing defaultPartitions (topic :: rest) store draws
  | skip {topic rest store draws}
      (done : ∀ name, topic.name = some name → validateName name = .ok () → name ∈ store.catalog.topicsByName)
      (later : Drawing defaultPartitions rest store draws) : Drawing defaultPartitions (topic :: rest) store draws
  | insert {topic rest store draws} (name : String) (metadata : TopicMetadata) (store₁ : TopicStore)
      (named : topic.name = some name) (valid : validateName name = .ok ()) (new : name ∉ store.catalog.topicsByName)
      (h : insertTopic store name defaultPartitions (draws.headD []) = some (metadata, store₁))
      (later : Drawing defaultPartitions rest store₁ draws.tail) : Drawing defaultPartitions (topic :: rest) store draws

/-- The names in a request. -/
def namesOf (requested : List MetadataRequestTopic) : List String := requested.filterMap (·.name)

section
variable {count : Nat} {names names' : List String} {store store' : TopicStore}

/-! ### Additions -/

/-- Names that are there or not valid add nothing. -/
theorem Adds.same (h : ∀ name ∈ names, validateName name = .ok () → name ∈ store.catalog.topicsByName) :
    Adds count names store store where
  added name hname hvalid hnew := absurd (h name hname hvalid) hnew
  others _ _ := rfl
  ids _ _ h := h
  logs := ⟨0, by simp⟩

theorem Adds.insert {name : String} {draws : List Uuid} {metadata : TopicMetadata}
    (hnew : store.catalog.topicsByName.lookup name = none)
    (h : insertTopic store name count draws = some (metadata, store')) (hvalid : validateName name = .ok ()) :
    Adds count [name] store store' := by
  obtain ⟨id, hid, -, rfl⟩ := insertTopic_eq_some h
  have hfound : id ≠ 0 ∧ id ∉ store.catalog.namesById := by simpa using List.find?_some hid
  refine ⟨?_, ?_, ?_, ⟨count, rfl⟩⟩
  · intro name' hname' _ _
    obtain rfl := List.mem_singleton.1 hname'
    refine ⟨id, List.range' store.logs.length count, AList.lookup_insert _, hfound.1, hfound.2, List.length_range', ?_⟩
    intro log hlog
    obtain ⟨hle, hlt⟩ := List.mem_range'_1.1 hlog
    refine ⟨hle, ?_⟩
    rw [List.getElem?_append_right hle, List.getElem?_replicate_of_lt (by omega)]
  · intro name' hname'
    refine AList.lookup_insert_ne ?_
    rintro rfl
    exact AList.lookup_eq_none.1 hnew (hname' (List.mem_singleton_self _) hvalid)
  · intro id' name' hl
    show (store.catalog.namesById.insert id name).lookup id' = some name'
    rwa [AList.lookup_insert_ne]
    rintro rfl
    exact hfound.2 (mem_iff_lookup.2 ⟨name', hl⟩)

theorem Adds.append {a b c : TopicStore} (h : Adds count names a b) (h' : Adds count names' b c) :
    Adds count (names ++ names') a c := by
  obtain ⟨n, hn⟩ := h.logs
  obtain ⟨m, hm⟩ := h'.logs
  refine ⟨?_, ?_, fun id name hl => h'.ids id name (h.ids id name hl), n + m, ?_⟩
  · intro name hname hvalid hnew
    by_cases hfirst : name ∈ names
    · -- it is there when the others are added
      obtain ⟨id, logs, hl, hid, hfree, hlength, hlogs⟩ := h.added name hfirst hvalid hnew
      have hkept := h'.others name fun _ _ => mem_iff_lookup.2 ⟨_, hl⟩
      refine ⟨id, logs, hkept.trans hl, hid, hfree, hlength, fun log hlog => ?_⟩
      obtain ⟨hle, hget⟩ := hlogs log hlog
      refine ⟨hle, ?_⟩
      rw [hm, List.getElem?_append_left (List.getElem?_eq_some_iff.1 hget).1]
      exact hget
    · have hsame := h.others name fun hname => absurd hname hfirst
      have hnew' : name ∉ b.catalog.topicsByName := by
        rwa [← AList.lookup_eq_none, hsame, AList.lookup_eq_none]
      obtain ⟨id, logs, hl, hid, hfree, hlength, hlogs⟩ :=
        h'.added name ((List.mem_append.1 hname).resolve_left hfirst) hvalid hnew'
      refine ⟨id, logs, hl, hid, fun hmem => hfree ?_, hlength, fun log hlog => ?_⟩
      · obtain ⟨name', hl⟩ := mem_iff_lookup.1 hmem
        exact mem_iff_lookup.2 ⟨name', h.ids id name' hl⟩
      · have := congrArg List.length hn
        rw [List.length_append] at this
        exact ⟨by have := (hlogs log hlog).1; omega, (hlogs log hlog).2⟩
  · intro name hname
    have hsame := h.others name fun hfirst => hname (List.mem_append_left _ hfirst)
    refine (h'.others name fun hsecond hvalid => ?_).trans hsame
    obtain ⟨entry, hl⟩ := mem_iff_lookup.1 (hname (List.mem_append_right _ hsecond) hvalid)
    exact mem_iff_lookup.2 ⟨entry, hsame.trans hl⟩
  · rw [hm, hn, List.append_assoc, List.replicate_append_replicate]

/-! ### The loop -/

variable {defaultPartitions : ℕ+} {requested : List MetadataRequestTopic} {draws : List (List Uuid)}

theorem autoCreate_adds (h : autoCreate defaultPartitions requested store draws = some store') :
    Adds defaultPartitions (namesOf requested) store store' := by
  induction requested generalizing store draws with
  | nil =>
    obtain rfl := Option.some.inj h
    exact .same (by simp [namesOf])
  | cons topic rest ih =>
    have hnames : namesOf (topic :: rest) = namesOf [topic] ++ namesOf rest := by simp [namesOf, ← List.filterMap_append]
    rw [hnames]
    cases autoCreate_cons defaultPartitions topic rest store draws with
    | skip hdone heq => exact .append (.same (by simpa [namesOf] using hdone)) (ih (heq ▸ h))
    | insert name hname hvalid hnew heq =>
      rw [heq] at h
      obtain ⟨⟨metadata, store₁⟩, hinsert, h⟩ := Option.bind_eq_some_iff.1 h
      have hfirst : namesOf [topic] = [name] := by simp [namesOf, hname]
      exact hfirst ▸ (Adds.insert hnew hinsert hvalid).append (ih h)

/-- The loop only fails to end when an id has to be drawn. -/
theorem autoCreate_drawing (h : autoCreate defaultPartitions requested store draws = none) :
    Drawing defaultPartitions requested store draws := by
  induction requested generalizing store draws with
  | nil => cases h
  | cons topic rest ih =>
    cases autoCreate_cons defaultPartitions topic rest store draws with
    | skip hdone heq => exact .skip hdone (ih (heq ▸ h))
    | insert name hname hvalid hnew heq =>
      rw [heq] at h
      match hinsert : insertTopic store name defaultPartitions (draws.headD []) with
      | none =>
        exact .here name hname hvalid (AList.lookup_eq_none.1 hnew) (insertTopic_eq_none hinsert)
      | some (metadata, store₁) =>
        rw [hinsert] at h
        exact .insert name metadata store₁ hname hvalid (AList.lookup_eq_none.1 hnew) hinsert (ih h)

/-! ### Responses -/

variable {config : MetadataConfig} {request : MetadataRequest} {version : Int} {response : MetadataResponse}

theorem createdStore_creating (h : Creating config request version requested) :
    createdStore config request version store draws = autoCreate config.defaultPartitions requested store draws := by
  have hallow : allowAutoCreate config request = true := by simpa [allowAutoCreate, h.enabled] using h.allowed
  simp [createdStore, h.accepted, h.present, h.by_name, hallow]

theorem createdStore_other (h : ∀ requested, ¬ Creating config request version requested) :
    createdStore config request version store draws = some store := by
  unfold createdStore
  split
  · rename_i requested herror hrequested
    refine if_pos ?_
    by_contra hneither
    rw [not_or, not_not, allowAutoCreate, Bool.and_eq_true, Bool.or_eq_true] at hneither
    obtain ⟨huuid, henabled, hallowed⟩ := hneither
    exact h requested ⟨henabled, hallowed, hrequested, herror, huuid⟩
  · rfl

theorem topicsForRequest_some {topics : List MetadataResponseTopic} (herror : requestError request version = none)
    (h : topicsForRequest config request version store draws = some (topics, store')) :
    createdStore config request version store draws = some store' ∧
      ∀ requested, request.topics = some requested → ¬ uuidMode version requested →
        topicsByName config.brokerId store'.catalog.get [] requested = some topics := by
  unfold topicsForRequest at h
  match htopics : request.topics with
  | none =>
    simp only [htopics] at h
    obtain ⟨_, -, h⟩ := Option.bind_eq_some_iff.1 h
    cases h
    exact ⟨by simp only [createdStore, herror, htopics], by rintro _ ⟨⟩⟩
  | some requested =>
    simp only [htopics] at h
    by_cases hnil : requested = []
    · subst hnil
      cases h
      refine ⟨by simp [createdStore, herror, htopics, autoCreate], ?_⟩
      rintro _ ⟨⟩ -
      rfl
    rw [if_neg hnil] at h
    by_cases huuid : uuidMode version requested
    · rw [if_pos huuid] at h
      obtain ⟨_, -, h⟩ := Option.bind_eq_some_iff.1 h
      cases h
      refine ⟨by simp [createdStore, herror, htopics, huuid], ?_⟩
      rintro _ ⟨⟩ hnames
      exact absurd huuid hnames
    · rw [if_neg huuid] at h
      by_cases hallow : allowAutoCreate config request
      · rw [if_pos hallow] at h
        obtain ⟨store₁, hcreated, h⟩ := Option.bind_eq_some_iff.1 h
        obtain ⟨_, hnames, h⟩ := Option.bind_eq_some_iff.1 h
        cases h
        refine ⟨by simpa [createdStore, herror, htopics, huuid, hallow] using hcreated, ?_⟩
        rintro _ ⟨⟩ -
        exact hnames
      · rw [if_neg hallow, Option.bind_eq_bind, Option.bind_some] at h
        obtain ⟨_, hnames, h⟩ := Option.bind_eq_some_iff.1 h
        cases h
        refine ⟨by simp [createdStore, herror, htopics, hallow], ?_⟩
        rintro _ ⟨⟩ -
        exact hnames

theorem response_some (h : Metadata.response config request version store draws = some (response, store')) :
    createdStore config request version store draws = some store' ∧
      ∀ requested, request.topics = some requested → requestError request version = none → ¬ uuidMode version requested →
        ∃ topics, topicsByName config.brokerId store'.catalog.get [] requested = some topics ∧
          response.topics = topics.map (withAuthorizedOperations request) := by
  unfold Metadata.response at h
  match herror : requestError request version with
  | some error =>
    simp only [herror, Option.some.injEq, Prod.mk.injEq] at h
    exact ⟨by simp only [createdStore, herror, h.2], by rintro _ - ⟨⟩⟩
  | none =>
    simp only [herror] at h
    obtain ⟨⟨topics, store₁⟩, htopics, h⟩ := Option.bind_eq_some_iff.1 h
    cases h
    obtain ⟨hcreated, hnames⟩ := topicsForRequest_some herror htopics
    exact ⟨hcreated, fun requested hrequested _ huuid => ⟨topics, hnames requested hrequested huuid, rfl⟩⟩

theorem Adds.indexable (h : Adds count names store store') (hcount : (count : Int) ≤ i32Max + 1)
    (hindexable : Indexable store) : Indexable store' := by
  rintro name metadata ⟨entry, hl, rfl⟩
  by_cases hnew : name ∈ names ∧ validateName name = .ok () ∧ name ∉ store.catalog.topicsByName
  · obtain ⟨id, logs, hadded, -⟩ := h.added name hnew.1 hnew.2.1 hnew.2.2
    obtain rfl := Option.some.inj (hadded.symm.trans hl)
    exact hcount
  · have hsame := h.others name fun hname hvalid => not_not.1 fun habsent => hnew ⟨hname, hvalid, habsent⟩
    exact hindexable name entry.metadata ⟨entry, hsame.symm.trans hl, rfl⟩

theorem createdStore_none (h : createdStore config request version store draws = none) :
    ∃ requested, Creating config request version requested ∧ Drawing config.defaultPartitions requested store draws := by
  by_cases hcreating : ∃ requested, Creating config request version requested
  · obtain ⟨requested, hcreating⟩ := hcreating
    exact ⟨requested, hcreating, autoCreate_drawing ((createdStore_creating hcreating).symm.trans h)⟩
  · rw [createdStore_other (not_exists.1 hcreating)] at h
    cases h

theorem createdStore_indexable (hindexable : Indexable store)
    (hcount : ((config.defaultPartitions : ℕ) : Int) ≤ i32Max + 1)
    (h : createdStore config request version store draws = some store') : Indexable store' := by
  by_cases hcreating : ∃ requested, Creating config request version requested
  · obtain ⟨requested, hcreating⟩ := hcreating
    rw [createdStore_creating hcreating] at h
    exact (autoCreate_adds h).indexable hcount hindexable
  · rw [createdStore_other (not_exists.1 hcreating)] at h
    cases h
    exact hindexable

/-- Where every index fits a response is returned, unless an id has to be drawn. -/
theorem response_drawing {tr : List CatalogEvent} {s : Catalog} (hrun : (topicCatalog config.defaultPartitions).Run tr s)
    (hindexable : Indexable s.store) (hcount : ((config.defaultPartitions : ℕ) : Int) ≤ i32Max + 1)
    (h : Metadata.response config request version s.store draws = none) :
    ∃ requested, Creating config request version requested ∧
      Drawing config.defaultPartitions requested s.store draws := by
  match hcreated : createdStore config request version s.store draws with
  | none => exact createdStore_none hcreated
  | some store' =>
    obtain ⟨tr', s', hpath, rfl⟩ := createdStore_path hcreated
    obtain ⟨response, hresponse, -⟩ := response_entries (catalog_history (Machine.Path.append hrun hpath)).1.1
      (createdStore_indexable hindexable hcount hcreated) hcreated
    rw [hresponse] at h
    cases h

/-! ### Answers -/

theorem Answers.success_iff {name : Option String} {code : Int} (h : Answers store name code)
    (inv : CatalogInv store) : code = 0 ↔ ∃ name', name = some name' ∧ name' ∈ store.catalog.topicsByName := by
  cases h with
  | success name valid there => exact ⟨fun _ => ⟨name, rfl, there⟩, fun _ => rfl⟩
  | invalid invalid =>
    refine ⟨fun h => absurd h (by decide), ?_⟩
    rintro ⟨name', rfl, hmem⟩
    obtain ⟨entry, hl⟩ := mem_iff_lookup.1 hmem
    exact absurd (inv.entries name' entry hl).valid (invalid name' rfl)
  | unknown name valid absent =>
    refine ⟨fun h => absurd h (by decide), ?_⟩
    rintro ⟨name', ⟨⟩, hmem⟩
    exact absurd hmem absent

theorem Answers.invalid_iff {name : Option String} {code : Int} (h : Answers store name code) :
    code = ResponseError.invalidTopicException.code ↔ ∀ name', name = some name' → validateName name' ≠ .ok () := by
  cases h with
  | success name valid there => exact ⟨fun h => absurd h (by decide), fun h => absurd valid (h name rfl)⟩
  | invalid invalid => exact ⟨fun _ => invalid, fun _ => rfl⟩
  | unknown name valid absent => exact ⟨fun h => absurd h (by decide), fun h => absurd valid (h name rfl)⟩

theorem Answers.unknown_iff {name : Option String} {code : Int} (h : Answers store name code) :
    code = ResponseError.unknownTopicOrPartition.code ↔
      ∃ name', name = some name' ∧ validateName name' = .ok () ∧ name' ∉ store.catalog.topicsByName := by
  cases h with
  | success name valid there =>
    refine ⟨fun h => absurd h (by decide), ?_⟩
    rintro ⟨name', ⟨⟩, -, habsent⟩
    exact absurd there habsent
  | invalid invalid =>
    refine ⟨fun h => absurd h (by decide), ?_⟩
    rintro ⟨name', rfl, hvalid, -⟩
    exact absurd hvalid (invalid name' rfl)
  | unknown name valid absent => exact ⟨fun _ => ⟨name, rfl, valid, absent⟩, fun _ => rfl⟩

theorem answersNames (inv : CatalogInv store) (brokerId : Int) (request : MetadataRequest) (names : List (Option String)) :
    AnswersNames store names
      ((names.eraseDups.map (nameEntry store brokerId)).map (withAuthorizedOperations request)) := by
  have hentry : ∀ topic ∈ (names.eraseDups.map (nameEntry store brokerId)).map (withAuthorizedOperations request),
      Answers store topic.name topic.errorCode := by
    intro topic htopic
    obtain ⟨entry, hentry, rfl⟩ := List.mem_map.1 htopic
    obtain ⟨name, -, rfl⟩ := List.mem_map.1 hentry
    rw [authorized_name, authorized_errorCode, nameEntry_name inv]
    exact nameEntry_answers brokerId name
  exact ⟨(showsNames inv names).names, fun topic htopic => (hentry topic htopic).success_iff inv,
    fun topic htopic => (hentry topic htopic).invalid_iff, fun topic htopic => (hentry topic htopic).unknown_iff⟩

end

/-- Auto-creation is exact. A response leaves the catalog it came to with exactly the requested names that are valid and
absent added, each with the default partition count, if topics are to be created for it, and unchanged in every other
case; what was there stays as it was, and the two indexes remain inverse to each other. A response by name says of each
name once whether it is in the catalog then, invalid or unknown. Where every partition index fits, a response is
returned unless an id has still to be drawn. -/
theorem auto_creation_is_exact (config : MetadataConfig) {tr : List CatalogEvent} {s : Catalog}
    (hrun : (topicCatalog config.defaultPartitions).Run tr s) (request : MetadataRequest) (version : Int)
    (draws : List (List Uuid)) :
    (∀ response store', Metadata.response config request version s.store draws = some (response, store') →
      (∀ requested, Creating config request version requested →
        Adds config.defaultPartitions (namesOf requested) s.store store') ∧
      ((∀ requested, ¬ Creating config request version requested) → store' = s.store) ∧
      CatalogKeeps s.store store' ∧
      (∀ id name, store'.catalog.namesById.lookup id = some name ↔
        ∃ entry, store'.catalog.topicsByName.lookup name = some entry ∧ entry.metadata.id = id) ∧
      ∀ requested, request.topics = some requested → requestError request version = none → ¬ uuidMode version requested →
        AnswersNames store' (requested.map (·.name)) response.topics) ∧
    (Indexable s.store → ((config.defaultPartitions : ℕ) : Int) ≤ i32Max + 1 →
      (∀ requested, Creating config request version requested →
        ¬ Drawing config.defaultPartitions requested s.store draws) →
      ∃ response store', Metadata.response config request version s.store draws = some (response, store')) := by
  refine ⟨fun response store' hresponse => ?_, fun hindexable hcount hdrawn => ?_⟩
  · obtain ⟨hcreated, hnames⟩ := response_some hresponse
    obtain ⟨tr', s', hpath, rfl⟩ := createdStore_path hcreated
    have inv : CatalogInv s'.store := (catalog_history (Machine.Path.append hrun hpath)).1.1
    refine ⟨fun requested hcreating => ?_, fun hother => ?_, Catalog.path_keeps hrun hpath, fun id name => ?_, ?_⟩
    · exact autoCreate_adds ((createdStore_creating hcreating).symm.trans hcreated)
    · exact Option.some.inj (hcreated.symm.trans (createdStore_other hother))
    · refine ⟨inv.names id name, ?_⟩
      rintro ⟨entry, hl, rfl⟩
      exact (inv.entries name entry hl).indexed
    · intro requested hrequested herror huuid
      obtain ⟨topics, htopics, heq⟩ := hnames requested hrequested herror huuid
      rw [heq, eq_topicsByName htopics]
      exact answersNames inv config.brokerId request _
  · match hresponse : Metadata.response config request version s.store draws with
    | some (response, store') => exact ⟨response, store', rfl⟩
    | none =>
      obtain ⟨requested, hcreating, hdrawing⟩ := response_drawing hrun hindexable hcount hresponse
      exact absurd hdrawing (hdrawn requested hcreating)

/-- A name that is absent and asked for twice, one that is there, an invalid one and null; the first id drawn is in use. -/
theorem auto_creation_is_exact_mixed : ∃ tr s response store',
    (topicCatalog 2).exec .new [.createExplicit "orders" 3 1 [7]] = some (tr, s) ∧
    Metadata.response ⟨1, true, false, 2, "localhost", 9092⟩ ⟨some [⟨0, some "audit"⟩, ⟨0, some "orders"⟩,
      ⟨0, some "no/name"⟩, ⟨0, none⟩, ⟨0, some "audit"⟩], true, false, false⟩ 9 s.store [[7, 8]] =
        some (response, store') ∧
    response.topics.map (·.name) = [some "audit", some "orders", some "no/name", none] ∧
    response.topics.map (·.errorCode) = [0, 0, 17, 17] ∧
    store'.catalog.topicsByName.lookup "orders" = s.store.catalog.topicsByName.lookup "orders" ∧
    ∃ id logs, store'.catalog.topicsByName.lookup "audit" = some ⟨⟨id, "audit", 2⟩, logs⟩ ∧ id ≠ 0 := by
  have hout : (((topicCatalog 2).exec .new [.createExplicit "orders" 3 1 [7]]).bind fun r =>
      (Metadata.response ⟨1, true, false, 2, "localhost", 9092⟩ ⟨some [⟨0, some "audit"⟩, ⟨0, some "orders"⟩,
        ⟨0, some "no/name"⟩, ⟨0, none⟩, ⟨0, some "audit"⟩], true, false, false⟩ 9 r.2.store [[7, 8]]).map fun p =>
          (p.1.topics.map (·.errorCode), decide ("audit" ∈ r.2.store.catalog.topicsByName),
            decide ("orders" ∈ r.2.store.catalog.topicsByName))) =
      some ([0, 0, 17, 17], false, true) := by decide +kernel
  simp only [Option.bind_eq_some_iff, Option.map_eq_some_iff, Prod.mk.injEq, Prod.exists] at hout
  obtain ⟨tr, s, hx, response, store', hresponse, hcodes, habsent, hthere⟩ := hout
  obtain ⟨hexact, -⟩ := auto_creation_is_exact ⟨1, true, false, 2, "localhost", 9092⟩ (Machine.exec_path hx).1
    ⟨some [⟨0, some "audit"⟩, ⟨0, some "orders"⟩, ⟨0, some "no/name"⟩, ⟨0, none⟩, ⟨0, some "audit"⟩], true, false, false⟩
    9 [[7, 8]]
  obtain ⟨hadds, -, -, -, hnames⟩ := hexact response store' hresponse
  have hadds : Adds 2 _ s.store store' := hadds _ ⟨rfl, .inl rfl, rfl, by decide, by decide⟩
  have hanswers : AnswersNames store' _ response.topics := hnames _ rfl (by decide) (by decide)
  obtain ⟨id, logs, hl, hid, -⟩ := hadds.added "audit" (by decide) (by decide) (of_decide_eq_false habsent)
  exact ⟨tr, s, response, store', hx, hresponse, hanswers.names, hcodes,
    hadds.others "orders" fun _ _ => of_decide_eq_true hthere, id, logs, hl, hid⟩

end MemKafka.Metadata
