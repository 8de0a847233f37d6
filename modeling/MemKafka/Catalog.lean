import MemKafka.Lib.Machine
import MemKafka.Topics

/-!
# The topic catalog as a machine (`TopicCatalog` in `broker/topics.rs`)

Any number of calls, each taking the catalog's lock once; `get_or_auto_create` takes it twice, first to
read and then to write, and stands in `calls` in between. The catalog changes in one way only: a valid name
that is not there is inserted into both indexes, with a new id and new logs (`Inserts`).
-/

namespace MemKafka
open Kit

structure Catalog where
  store : TopicStore
  /-- the names for which `get_or_auto_create` is about to take the write lock -/
  calls : Assoc Nat String

def Catalog.new : Catalog := ⟨.default, ∅⟩

inductive CatalogLabel where
  | createExplicit (name : String) (partitions replicationFactor : Int) (draws : List Uuid)
  | validateExplicit (name : String) (partitions replicationFactor : Int)
  | get (name : String)
  | getById (id : Uuid)
  | getOrAutoCreate (call : Nat) (name : String) (allowAutoCreate : Bool)
  | resume (call : Nat) (draws : List Uuid)
  | drop (call : Nat)
  | list
deriving DecidableEq, Repr

/-- What a call returns in the step that ends it; `progress` if no call ends. -/
inductive CatalogReply where
  | progress
  | createExplicit (name : String) (result : Except TopicError TopicMetadata)
  | validateExplicit (result : Except TopicError Unit)
  | get (name : String) (result : Except TopicError (Option TopicMetadata))
  | getById (id : Uuid) (result : Option TopicMetadata)
  | getOrAutoCreate (name : String) (result : Except TopicError (Option TopicMetadata))
  | list (topics : List TopicMetadata)
deriving DecidableEq

/-- The second half of `get_or_auto_create`. -/
def Catalog.resume (defaultPartitions : ℕ+) (s : Catalog) (call : Nat) (draws : List Uuid) :
    Option (CatalogReply × Catalog) := do
  let name ← s.calls.lookup call
  let (metadata, store) ← getOrAutoCreateWrite defaultPartitions s.store name draws
  some (.getOrAutoCreate name (.ok (some metadata)), ⟨store, s.calls.erase call⟩)

def Catalog.step (defaultPartitions : ℕ+) (s : Catalog) : CatalogLabel → Option (CatalogReply × Catalog)
  | .createExplicit name partitions replicationFactor draws => do
    let (result, store) ← createExplicit s.store name partitions replicationFactor draws
    some (.createExplicit name result, { s with store := store })
  | .validateExplicit name partitions replicationFactor =>
    some (.validateExplicit (validateExplicit s.store.catalog name partitions replicationFactor), s)
  | .get name => some (.get name (s.store.catalog.get name), s)
  | .getById id => some (.getById id (s.store.catalog.getById id), s)
  | .getOrAutoCreate call name allowAutoCreate =>
    if call ∈ s.calls then none else
    match getOrAutoCreateRead s.store.catalog name allowAutoCreate with
    | some result => some (.getOrAutoCreate name result, s)
    | none => some (.progress, { s with calls := s.calls.insert call name })
  | .resume call draws => s.resume defaultPartitions call draws
  | .drop call => some (.progress, { s with calls := s.calls.erase call })
  | .list => some (.list s.store.catalog.list, s)

def topicCatalog (defaultPartitions : ℕ+) : Machine Catalog CatalogLabel CatalogReply where
  init := .new
  step := Catalog.step defaultPartitions

abbrev CatalogEvent := Event Catalog CatalogLabel CatalogReply

/-! ### What a section can do to the store -/

/-- A new topic in both indexes. -/
inductive Inserts (store : TopicStore) (metadata : TopicMetadata) : TopicStore → Prop
  | insert (name : validateName metadata.name = .ok ()) (new : metadata.name ∉ store.catalog.topicsByName)
      (nil : metadata.id ≠ 0) (free : metadata.id ∉ store.catalog.namesById) (count : 1 ≤ metadata.partitionCount) :
      Inserts store metadata
        ⟨⟨store.catalog.topicsByName.insert metadata.name
            ⟨metadata, List.range' store.logs.length metadata.partitionCount⟩,
          store.catalog.namesById.insert metadata.id metadata.name⟩,
          store.logs ++ List.replicate metadata.partitionCount .default⟩

section
variable {store store' : TopicStore} {name : String} {draws : List Uuid} {metadata : TopicMetadata}

theorem insertTopic_inserts {count : Nat} (hname : validateName name = .ok ()) (hcount : 1 ≤ count)
    (hnew : name ∉ store.catalog.topicsByName) (h : insertTopic store name count draws = some (metadata, store')) :
    metadata.name = name ∧ metadata.partitionCount = count ∧ Inserts store metadata store' := by
  obtain ⟨id, hid, rfl, rfl⟩ := insertTopic_eq_some h
  have hfound : id ≠ 0 ∧ id ∉ store.catalog.namesById := by simpa using List.find?_some hid
  exact ⟨rfl, rfl, .insert hname hnew hfound.1 hfound.2 hcount⟩

/-- `validate_explicit_definition` passes valid names and positive counts. -/
theorem validateExplicitDefinition_ok {partitions replicationFactor : Int} {count : Nat}
    (h : validateExplicitDefinition name partitions replicationFactor = .ok count) :
    validateName name = .ok () ∧ 1 ≤ count ∧ (count : Int) = partitions := by
  unfold validateExplicitDefinition at h
  cases hname : validateName name with
  | error error => rw [hname] at h; cases h
  | ok u =>
    rw [hname] at h
    simp only [bind, Except.bind, pure, Except.pure, throw, throwThe, MonadExceptOf.throw] at h
    split at h
    · cases h
    split at h
    · cases h
    split at h
    · cases h
    · obtain rfl : partitions.toNat = count := Except.ok.inj h
      exact ⟨rfl, by omega, by omega⟩

/-- An explicit creation fails and changes nothing, or inserts the topic it returns. -/
theorem createExplicit_cases {partitions replicationFactor : Int} {result : Except TopicError TopicMetadata}
    (h : createExplicit store name partitions replicationFactor draws = some (result, store')) :
    ((∃ error, result = .error error) ∧ store' = store) ∨
    ∃ metadata, result = .ok metadata ∧ metadata.name = name ∧ (metadata.partitionCount : Int) = partitions ∧
      Inserts store metadata store' := by
  unfold createExplicit at h
  split at h
  · cases h
    exact .inl ⟨⟨_, rfl⟩, rfl⟩
  rename_i count hdef
  obtain ⟨hname, hcount, hpartitions⟩ := validateExplicitDefinition_ok hdef
  split at h
  · cases h
    exact .inl ⟨⟨_, rfl⟩, rfl⟩
  rename_i hnew
  simp only [Option.map_eq_some_iff, Prod.mk.injEq, Prod.exists] at h
  obtain ⟨metadata, store₁, hinsert, rfl, rfl⟩ := h
  obtain ⟨hmeta, rfl, hins⟩ := insertTopic_inserts hname hcount hnew hinsert
  exact .inr ⟨metadata, rfl, hmeta, hpartitions, hins⟩

/-- The write section of `get_or_auto_create` returns the topic that is there, or inserts the one it returns. -/
theorem getOrAutoCreateWrite_cases {defaultPartitions : ℕ+} (hname : validateName name = .ok ())
    (h : getOrAutoCreateWrite defaultPartitions store name draws = some (metadata, store')) :
    ((∃ entry, store.catalog.topicsByName.lookup name = some entry ∧ entry.metadata = metadata) ∧ store' = store) ∨
    metadata.name = name ∧ metadata.partitionCount = defaultPartitions ∧ Inserts store metadata store' := by
  unfold getOrAutoCreateWrite at h
  split at h
  · rename_i entry hl
    cases h
    exact .inl ⟨⟨entry, hl, rfl⟩, rfl⟩
  · rename_i hnone
    exact .inr (insertTopic_inserts hname defaultPartitions.pos (AList.lookup_eq_none.1 hnone) h)

end

/-! ### The invariant -/

structure EntryInv (store : TopicStore) (name : String) (entry : TopicEntry) : Prop where
  keyed : entry.metadata.name = name
  valid : validateName name = .ok ()
  indexed : store.catalog.namesById.lookup entry.metadata.id = some name
  id_ne : entry.metadata.id ≠ 0
  count : entry.partitions.length = entry.metadata.partitionCount
  count_pos : 1 ≤ entry.metadata.partitionCount
  logs : ∀ log ∈ entry.partitions, log < store.logs.length
  distinct : entry.partitions.Nodup

structure CatalogInv (store : TopicStore) : Prop where
  entries : ∀ name entry, store.catalog.topicsByName.lookup name = some entry → EntryInv store name entry
  names : ∀ id name, store.catalog.namesById.lookup id = some name →
    ∃ entry, store.catalog.topicsByName.lookup name = some entry ∧ entry.metadata.id = id
  disjoint : ∀ name entry name' entry', store.catalog.topicsByName.lookup name = some entry →
    store.catalog.topicsByName.lookup name' = some entry' → name ≠ name' →
    List.Disjoint entry.partitions entry'.partitions

/-- What a later store keeps of an earlier one: every topic, its metadata, its logs and what is in them. -/
structure CatalogKeeps (store store' : TopicStore) : Prop where
  entries : ∀ name entry, store.catalog.topicsByName.lookup name = some entry →
    store'.catalog.topicsByName.lookup name = some entry
  logs : store.logs <+: store'.logs

theorem CatalogKeeps.refl (store : TopicStore) : CatalogKeeps store store := ⟨fun _ _ h => h, List.prefix_rfl⟩

theorem CatalogKeeps.trans {a b c : TopicStore} (h : CatalogKeeps a b) (h' : CatalogKeeps b c) : CatalogKeeps a c :=
  ⟨fun name entry hl => h'.entries name entry (h.entries name entry hl), h.logs.trans h'.logs⟩

theorem CatalogInv.default : CatalogInv .default where
  entries name entry h := by cases h
  names id name h := by cases h
  disjoint name entry name' entry' h := by cases h

section
variable {store store' : TopicStore} {metadata : TopicMetadata}

/-- An entry stays well formed in a store that kept its index and its logs. -/
theorem EntryInv.mono {name : String} {entry : TopicEntry} (h : EntryInv store name entry)
    (hid : store'.catalog.namesById.lookup entry.metadata.id = some name)
    (hlogs : store.logs.length ≤ store'.logs.length) :
    EntryInv store' name entry :=
  ⟨h.keyed, h.valid, hid, h.id_ne, h.count, h.count_pos, fun log hl => (h.logs log hl).trans_le hlogs, h.distinct⟩

theorem Inserts.notMem (h : Inserts store metadata store') : metadata.name ∉ store.catalog.topicsByName := by
  obtain ⟨-, hnew, -, -, -⟩ := h
  exact hnew

theorem Inserts.keeps (h : Inserts store metadata store') : CatalogKeeps store store' := by
  obtain ⟨-, hnew, -, -, -⟩ := h
  refine ⟨?_, List.prefix_append _ _⟩
  intro name entry hl
  show (store.catalog.topicsByName.insert _ _).lookup name = _
  rw [lookup_insert_eq, if_neg]
  · exact hl
  · rintro rfl
    exact hnew (mem_iff_lookup.2 ⟨entry, hl⟩)

/-- The entries after an insertion: the old ones and the new one. -/
theorem Inserts.lookup (h : Inserts store metadata store') (name : String) (entry : TopicEntry)
    (hl : store'.catalog.topicsByName.lookup name = some entry) :
    store.catalog.topicsByName.lookup name = some entry ∨
      name = metadata.name ∧ entry = ⟨metadata, List.range' store.logs.length metadata.partitionCount⟩ := by
  obtain ⟨-, -, -, -, -⟩ := h
  replace hl : (store.catalog.topicsByName.insert _ _).lookup name = some entry := hl
  exact (lookup_of_insert hl).symm

theorem Inserts.inv (h : Inserts store metadata store') (inv : CatalogInv store) : CatalogInv store' := by
  have hlookup := h.lookup
  obtain ⟨hname, hnew, hnil, hfree, hcount⟩ := h
  have hids : ∀ id, (store.catalog.namesById.insert metadata.id metadata.name).lookup id =
      if id = metadata.id then some metadata.name else store.catalog.namesById.lookup id := fun _ => lookup_insert_eq
  refine ⟨?_, ?_, ?_⟩
  · intro name entry hl
    rcases hlookup _ _ hl with hl | ⟨rfl, rfl⟩
    · refine (inv.entries name entry hl).mono ?_ (by simp)
      show (store.catalog.namesById.insert _ _).lookup _ = _
      have hold := (inv.entries name entry hl).indexed
      rw [hids, if_neg]
      · exact hold
      · intro heq
        exact hfree (heq ▸ mem_iff_lookup.2 ⟨name, hold⟩)
    · refine ⟨rfl, hname, (hids _).trans (if_pos rfl), hnil, by simp, hcount, ?_, List.nodup_range'⟩
      intro log hlog
      have := (List.mem_range'_1.1 hlog).2
      simpa using this
  · intro id name hid
    replace hid : (store.catalog.namesById.insert _ _).lookup id = some name := hid
    show ∃ entry, (store.catalog.topicsByName.insert _ _).lookup name = some entry ∧ _
    rw [hids] at hid
    split at hid
    · obtain rfl := Option.some.inj hid
      exact ⟨_, by rw [lookup_insert_eq, if_pos rfl], Eq.symm ‹_›⟩
    · obtain ⟨entry, hl, heq⟩ := inv.names id name hid
      refine ⟨entry, ?_, heq⟩
      rw [lookup_insert_eq, if_neg]
      · exact hl
      · rintro rfl
        exact hnew (mem_iff_lookup.2 ⟨entry, hl⟩)
  · -- the logs of the new topic come after all others
    have hold : ∀ {name entry}, store.catalog.topicsByName.lookup name = some entry →
        List.Disjoint entry.partitions (List.range' store.logs.length metadata.partitionCount) := by
      intro name entry hl log h1 h2
      exact absurd ((inv.entries name entry hl).logs log h1) (not_lt.2 (List.mem_range'_1.1 h2).1)
    intro name entry name' entry' hl hl' hne
    rcases hlookup _ _ hl with hl | ⟨rfl, rfl⟩
    · rcases hlookup _ _ hl' with hl' | ⟨rfl, rfl⟩
      · exact inv.disjoint name entry name' entry' hl hl' hne
      · exact hold hl
    · rcases hlookup _ _ hl' with hl' | ⟨rfl, rfl⟩
      · exact (hold hl').symm
      · exact absurd rfl hne

end

/-! ### Steps -/

/-- The topic of a name, as a call may report it. -/
def HasTopic (store : TopicStore) (name : String) (metadata : TopicMetadata) : Prop :=
  ∃ entry, store.catalog.topicsByName.lookup name = some entry ∧ entry.metadata = metadata

theorem HasTopic.keeps {store store' : TopicStore} {name : String} {metadata : TopicMetadata}
    (h : HasTopic store name metadata) (hk : CatalogKeeps store store') : HasTopic store' name metadata := by
  obtain ⟨entry, hl, heq⟩ := h
  exact ⟨entry, hk.entries name entry hl, heq⟩

theorem HasTopic.unique {store : TopicStore} {name : String} {metadata metadata' : TopicMetadata}
    (h : HasTopic store name metadata) (h' : HasTopic store name metadata') : metadata = metadata' := by
  obtain ⟨entry, hl, rfl⟩ := h
  obtain ⟨entry', hl', rfl⟩ := h'
  rw [Option.some.inj (hl.symm.trans hl')]

theorem Inserts.hasTopic {store store' : TopicStore} {metadata : TopicMetadata} (h : Inserts store metadata store') :
    HasTopic store' metadata.name metadata := by
  obtain ⟨-, -, -, -, -⟩ := h
  refine ⟨⟨metadata, List.range' store.logs.length metadata.partitionCount⟩, ?_, rfl⟩
  show (store.catalog.topicsByName.insert _ _).lookup _ = _
  rw [lookup_insert_eq, if_pos rfl]

/-- A step that inserts a topic returns its metadata; every other step leaves the store alone. -/
def Creates (pre : TopicStore) (reply : CatalogReply) (post : TopicStore) : Prop :=
  ∃ metadata, Inserts pre metadata post ∧ (reply = .createExplicit metadata.name (.ok metadata) ∨
    reply = .getOrAutoCreate metadata.name (.ok (some metadata)))

structure CatalogStepOk (s : Catalog) (reply : CatalogReply) (s' : Catalog) : Prop where
  change : s'.store = s.store ∨ Creates s.store reply s'.store
  calls : ∀ call name, s'.calls.lookup call = some name → validateName name = .ok ()
  created : ∀ name metadata, reply = .createExplicit name (.ok metadata) →
    HasTopic s'.store name metadata ∧ name ∉ s.store.catalog.topicsByName
  autoCreated : ∀ name metadata, reply = .getOrAutoCreate name (.ok (some metadata)) → HasTopic s'.store name metadata
  got : ∀ name result, reply = .get name result → result = s'.store.catalog.get name
  gotById : ∀ id result, reply = .getById id result → result = s'.store.catalog.getById id

section
variable {s s' : Catalog} {reply : CatalogReply} {defaultPartitions : ℕ+}

theorem Catalog.step_ok (hcalls : ∀ call name, s.calls.lookup call = some name → validateName name = .ok ())
    {label : CatalogLabel} (h : s.step defaultPartitions label = some (reply, s')) : CatalogStepOk s reply s' := by
  cases label with
  | createExplicit name partitions replicationFactor draws =>
    simp only [Catalog.step, Option.bind_eq_bind, Option.bind_eq_some_iff, Prod.exists] at h
    obtain ⟨result, store, hcreate, h⟩ := h
    cases h
    rcases createExplicit_cases hcreate with ⟨⟨error, rfl⟩, rfl⟩ | ⟨metadata, rfl, rfl, -, hins⟩
    · exact ⟨.inl rfl, hcalls, by simp, by simp, by simp, by simp⟩
    · refine ⟨.inr ⟨metadata, hins, .inl rfl⟩, hcalls, ?_, by simp, by simp, by simp⟩
      rintro _ _ ⟨⟩
      exact ⟨hins.hasTopic, hins.notMem⟩
  | validateExplicit name partitions replicationFactor =>
    cases h
    exact ⟨.inl rfl, hcalls, by simp, by simp, by simp, by simp⟩
  | get name =>
    cases h
    refine ⟨.inl rfl, hcalls, by simp, by simp, ?_, by simp⟩
    rintro _ _ ⟨⟩; rfl
  | getById id =>
    cases h
    refine ⟨.inl rfl, hcalls, by simp, by simp, by simp, ?_⟩
    rintro _ _ ⟨⟩; rfl
  | getOrAutoCreate call name allowAutoCreate =>
    simp only [Catalog.step] at h
    split at h
    · cases h
    rcases getOrAutoCreateRead_cases s.store.catalog name allowAutoCreate with
      hread | ⟨hname, ⟨entry, hl, hread⟩ | ⟨-, hread⟩⟩ <;> rw [hread] at h
    · cases h
      exact ⟨.inl rfl, hcalls, by simp, by simp, by simp, by simp⟩
    · cases h
      refine ⟨.inl rfl, hcalls, by simp, ?_, by simp, by simp⟩
      rintro _ _ ⟨⟩; exact ⟨entry, hl, rfl⟩
    · cases allowAutoCreate with
      | true =>
        cases h
        refine ⟨.inl rfl, ?_, by simp, by simp, by simp, by simp⟩
        intro call' name' hl'
        rcases lookup_of_insert hl' with ⟨-, rfl⟩ | hl'
        · exact hname
        · exact hcalls call' name' hl'
      | false =>
        cases h
        exact ⟨.inl rfl, hcalls, by simp, by simp, by simp, by simp⟩
  | resume call draws =>
    simp only [Catalog.step, Catalog.resume, Option.bind_eq_bind, Option.bind_eq_some_iff, Prod.exists] at h
    obtain ⟨name, hcall, metadata, store, hwrite, h⟩ := h
    cases h
    have hname := hcalls call name hcall
    have hcalls' : ∀ call' name', (s.calls.erase call).lookup call' = some name' → validateName name' = .ok () :=
      fun call' name' hl => hcalls call' name' (lookup_of_erase hl)
    rcases getOrAutoCreateWrite_cases hname hwrite with ⟨htopic, rfl⟩ | ⟨rfl, -, hins⟩
    · refine ⟨.inl rfl, hcalls', by simp, ?_, by simp, by simp⟩
      rintro _ _ ⟨⟩; exact htopic
    · refine ⟨.inr ⟨metadata, hins, .inr rfl⟩, hcalls', by simp, ?_, by simp, by simp⟩
      rintro _ _ ⟨⟩; exact hins.hasTopic
  | drop call =>
    cases h
    exact ⟨.inl rfl, fun call' name hl => hcalls call' name (lookup_of_erase hl), by simp, by simp, by simp, by simp⟩
  | list =>
    cases h
    exact ⟨.inl rfl, hcalls, by simp, by simp, by simp, by simp⟩

theorem CatalogStepOk.keeps (h : CatalogStepOk s reply s') : CatalogKeeps s.store s'.store := by
  rcases h.change with heq | ⟨metadata, hins, -⟩
  · rw [heq]; exact .refl _
  · exact hins.keeps

theorem CatalogStepOk.inv (h : CatalogStepOk s reply s') (inv : CatalogInv s.store) : CatalogInv s'.store := by
  rcases h.change with heq | ⟨metadata, hins, -⟩
  · rw [heq]; exact inv
  · exact hins.inv inv

end

/-! ### Runs -/

section
variable {defaultPartitions : ℕ+} {tr : List CatalogEvent} {s : Catalog}

theorem catalog_history (h : (topicCatalog defaultPartitions).Run tr s) :
    (CatalogInv s.store ∧ ∀ call name, s.calls.lookup call = some name → validateName name = .ok ()) ∧
      ∀ e ∈ tr, CatalogStepOk e.pre e.out e.post ∧ CatalogInv e.post.store ∧ CatalogKeeps e.post.store s.store := by
  refine Machine.Run.induction (M := topicCatalog defaultPartitions) (P := fun tr s =>
    (CatalogInv s.store ∧ ∀ call name, s.calls.lookup call = some name → validateName name = .ok ()) ∧
      ∀ e ∈ tr, CatalogStepOk e.pre e.out e.post ∧ CatalogInv e.post.store ∧ CatalogKeeps e.post.store s.store)
    ⟨⟨.default, fun _ _ h => by cases h⟩, by simp⟩ ?_ h
  rintro tr e - ⟨⟨inv, hcalls⟩, hevents⟩ he
  have hstep := Catalog.step_ok hcalls he
  refine ⟨⟨hstep.inv inv, hstep.calls⟩, ?_⟩
  intro f hf
  rcases List.mem_append.1 hf with hf | hf
  · obtain ⟨hok, hinv, hkeeps⟩ := hevents f hf
    exact ⟨hok, hinv, hkeeps.trans hstep.keeps⟩
  · obtain rfl := List.mem_singleton.1 hf
    exact ⟨hstep, hstep.inv inv, .refl _⟩

/-- The two ways to look a topic up. -/
theorem HasTopic.found {store : TopicStore} {name : String} {metadata : TopicMetadata}
    (h : HasTopic store name metadata) (inv : CatalogInv store) :
    store.catalog.get name = .ok (some metadata) ∧ store.catalog.getById metadata.id = some metadata := by
  obtain ⟨entry, hl, rfl⟩ := h
  have he := inv.entries name entry hl
  refine ⟨?_, ?_⟩
  · simp only [CatalogState.get, he.valid, hl, Option.map_some]
  · rw [CatalogState.getById, he.indexed, Option.bind_some, hl, Option.map_some]

/-- With creation allowed `get_or_auto_create` never answers that there is no such topic. -/
theorem autoCreate_some {e : CatalogEvent} (he : (topicCatalog defaultPartitions).Takes e)
    (hallow : ∀ call name, e.label ≠ .getOrAutoCreate call name false) {name : String} {result : Option TopicMetadata}
    (hout : e.out = .getOrAutoCreate name (.ok result)) : ∃ metadata, result = some metadata := by
  obtain ⟨pre, label, out, post⟩ := e
  change pre.step defaultPartitions label = some (out, post) at he
  subst hout
  cases label with
  | getOrAutoCreate call name' allowAutoCreate =>
    cases allowAutoCreate with
    | false => exact absurd rfl (hallow call name')
    | true =>
      simp only [Catalog.step] at he
      split at he
      · cases he
      rcases getOrAutoCreateRead_cases pre.store.catalog name' true with
        hread | ⟨-, ⟨entry, -, hread⟩ | ⟨-, hread⟩⟩ <;> rw [hread] at he <;> cases he
      exact ⟨_, rfl⟩
  | resume call draws =>
    simp only [Catalog.step, Catalog.resume, Option.bind_eq_bind, Option.bind_eq_some_iff, Prod.exists] at he
    obtain ⟨_, -, metadata, _, -, he⟩ := he
    cases he
    exact ⟨metadata, rfl⟩
  | createExplicit name' partitions replicationFactor draws =>
    simp only [Catalog.step, Option.bind_eq_bind, Option.bind_eq_some_iff, Prod.exists] at he
    obtain ⟨_, _, -, he⟩ := he
    cases he
  | validateExplicit name' partitions replicationFactor => cases he
  | get name' => cases he
  | getById id => cases he
  | drop call => cases he
  | list => cases he

end

/-- Catalog consistency. At every release of the lock the two indexes are inverse to each other, names are valid
and ids not nil, and every topic has as many logs, its own, as partitions. A topic keeps its metadata and its
logs for ever; every call that returned its metadata, and every later lookup by its name or its id,
agree on it; and the store changes only in the step of a call that returns the topic it created. -/
theorem catalog_stays_consistent (defaultPartitions : ℕ+) (tr : List CatalogEvent) (s : Catalog)
    (hrun : (topicCatalog defaultPartitions).Run tr s) :
    (∀ id name, s.store.catalog.namesById.lookup id = some name ↔
      ∃ entry, s.store.catalog.topicsByName.lookup name = some entry ∧ entry.metadata.id = id) ∧
    (∀ name entry, s.store.catalog.topicsByName.lookup name = some entry → entry.metadata.name = name ∧
      entry.metadata.id ≠ 0 ∧ validateName name = .ok () ∧ entry.partitions.length = entry.metadata.partitionCount ∧
      1 ≤ entry.metadata.partitionCount ∧ entry.partitions.Nodup ∧
      (∀ log ∈ entry.partitions, ∃ inner, s.store.logs[log]? = some inner) ∧
      ∀ name' entry', s.store.catalog.topicsByName.lookup name' = some entry' → name ≠ name' →
        entry.metadata.id ≠ entry'.metadata.id ∧ List.Disjoint entry.partitions entry'.partitions) ∧
    (∀ e ∈ tr, ∀ name entry, e.post.store.catalog.topicsByName.lookup name = some entry →
      s.store.catalog.topicsByName.lookup name = some entry ∧
      ∀ log ∈ entry.partitions, s.store.logs[log]? = e.post.store.logs[log]?) ∧
    (∀ e ∈ tr, ∀ name result, (∀ call name, e.label ≠ .getOrAutoCreate call name false) →
      e.out = .getOrAutoCreate name (.ok result) → ∃ metadata, result = some metadata) ∧
    (∀ before e after, tr = before ++ e :: after → ∀ name metadata,
      e.out = .getOrAutoCreate name (.ok (some metadata)) ∨ e.out = .createExplicit name (.ok metadata) →
      ∀ f ∈ after, (∀ result, f.out = .getOrAutoCreate name (.ok (some result)) → result = metadata) ∧
        (∀ result, f.out = .get name result → result = .ok (some metadata)) ∧
        ∀ result, f.out = .getById metadata.id result → result = some metadata) ∧
    ∀ e ∈ tr, e.post.store = e.pre.store ∨ ∃ metadata, metadata.name ∉ e.pre.store.catalog.topicsByName ∧
      (e.out = .createExplicit metadata.name (.ok metadata) ∨
        e.out = .getOrAutoCreate metadata.name (.ok (some metadata))) := by
  obtain ⟨⟨inv, -⟩, hevents⟩ := catalog_history hrun
  refine ⟨?_, ?_, ?_, ?_, ?_, ?_⟩
  · intro id name
    refine ⟨inv.names id name, ?_⟩
    rintro ⟨entry, hl, rfl⟩
    exact (inv.entries name entry hl).indexed
  · intro name entry hl
    have he := inv.entries name entry hl
    refine ⟨he.keyed, he.id_ne, he.valid, he.count, he.count_pos, he.distinct, ?_, ?_⟩
    · exact fun log hlog => ⟨_, List.getElem?_eq_getElem (he.logs log hlog)⟩
    · intro name' entry' hl' hne
      refine ⟨fun heq => hne ?_, inv.disjoint name entry name' entry' hl hl' hne⟩
      have hid := he.indexed
      rw [heq, (inv.entries name' entry' hl').indexed] at hid
      exact (Option.some.inj hid).symm
  · intro e he name entry hl
    obtain ⟨-, einv, hkeeps⟩ := hevents e he
    refine ⟨hkeeps.entries name entry hl, ?_⟩
    intro log hlog
    obtain ⟨rest, hrest⟩ := hkeeps.logs
    rw [← hrest, List.getElem?_append_left ((einv.entries name entry hl).logs log hlog)]
  · exact fun e he name result hallow hout => autoCreate_some (hrun.2 e he) hallow hout
  · rintro before e after rfl name metadata hout f hf
    obtain ⟨after₁, after₂, rfl⟩ := List.append_of_mem hf
    -- the run up to and including `f`
    have hrun' : (topicCatalog defaultPartitions).Run ((before ++ e :: after₁) ++ [f]) f.post := by
      have hsplit : (topicCatalog defaultPartitions).Run ((before ++ e :: after₁) ++ f :: after₂) s := by
        simpa using hrun
      obtain ⟨h₁, h₂, -⟩ := Machine.Run.split hsplit
      exact Machine.Run.snoc h₁ h₂
    obtain ⟨⟨finv, -⟩, hevents'⟩ := catalog_history hrun'
    obtain ⟨hok, -, hkeeps⟩ := hevents' e (by simp)
    obtain ⟨fok, -, -⟩ := hevents' f (by simp)
    have htopic : HasTopic f.post.store name metadata := by
      rcases hout with hout | hout
      · exact (hok.autoCreated name metadata hout).keeps hkeeps
      · exact (hok.created name metadata hout).1.keeps hkeeps
    obtain ⟨hget, hgetById⟩ := htopic.found finv
    refine ⟨?_, ?_, ?_⟩
    · exact fun result hf => (fok.autoCreated name result hf).unique htopic
    · exact fun result hf => (fok.got name result hf).trans hget
    · exact fun result hf => (fok.gotById _ result hf).trans hgetById
  · intro e he
    obtain ⟨hok, -, -⟩ := hevents e he
    refine hok.change.imp_right ?_
    rintro ⟨metadata, hins, hout⟩
    exact ⟨metadata, hins.notMem, hout⟩

/-- Two calls pass the read lock before either of them creates the topic. -/
theorem catalog_stays_consistent_race : ∃ tr s,
    (topicCatalog 2).exec .new [.getOrAutoCreate 0 "orders" true, .getOrAutoCreate 1 "orders" true, .resume 0 [0, 7],
      .resume 1 [9], .get "orders"] = some (tr, s) ∧
    tr.map (·.out) = [.progress, .progress, .getOrAutoCreate "orders" (.ok (some ⟨7, "orders", 2⟩)),
      .getOrAutoCreate "orders" (.ok (some ⟨7, "orders", 2⟩)), .get "orders" (.ok (some ⟨7, "orders", 2⟩))] ∧
    ∃ entry, s.store.catalog.topicsByName.lookup "orders" = some entry ∧ entry.metadata.id = 7 := by
  have hout : (((topicCatalog 2).exec .new [.getOrAutoCreate 0 "orders" true, .getOrAutoCreate 1 "orders" true,
      .resume 0 [0, 7], .resume 1 [9], .get "orders"]).map fun r =>
        (r.1.map (·.out), r.2.store.catalog.namesById.lookup 7)) =
      some ([.progress, .progress, .getOrAutoCreate "orders" (.ok (some ⟨7, "orders", 2⟩)),
        .getOrAutoCreate "orders" (.ok (some ⟨7, "orders", 2⟩)), .get "orders" (.ok (some ⟨7, "orders", 2⟩))],
        some "orders") := by decide +kernel
  obtain ⟨⟨tr, s⟩, hx, hmap⟩ := Option.map_eq_some_iff.1 hout
  simp only [Prod.mk.injEq] at hmap
  obtain ⟨hinverse, -⟩ := catalog_stays_consistent 2 tr s (Machine.exec_path hx).1
  exact ⟨tr, s, hx, hmap.1, (hinverse 7 "orders").1 hmap.2⟩

end MemKafka
