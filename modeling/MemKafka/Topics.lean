import MemKafka.Lib.Assoc
import MemKafka.Partition

/-!
# The topic catalog (`broker/topics.rs`)

`CatalogState` is what the catalog's lock protects. An `Arc<PartitionLog>` is a `LogRef`: an index into the
list of all partition logs ever allocated, so that a caller can hold a log after it has released the
lock. A topic id comes from a generator of random ids, so each section that may create a topic takes
the ids it draws.
-/

namespace MemKafka

abbrev Uuid := BitVec 128

structure TopicMetadata where
  id : Uuid
  name : String
  partitionCount : Nat
deriving DecidableEq, Repr

inductive TopicError where
  | alreadyExists
  | invalidName
  | invalidPartitions
  | invalidReplicationFactor
deriving DecidableEq, Repr

abbrev LogRef := Nat

structure TopicEntry where
  metadata : TopicMetadata
  partitions : List LogRef
deriving DecidableEq, Repr

structure CatalogState where
  topicsByName : AList fun _ : String => TopicEntry
  namesById : AList fun _ : Uuid => String
deriving DecidableEq

/-- The catalog and the partition logs its entries point to. -/
structure TopicStore where
  catalog : CatalogState
  logs : List PartitionLogInner
deriving DecidableEq

def TopicStore.default : TopicStore := ⟨⟨∅, ∅⟩, []⟩

/-- `TopicEntry::new`: as many new empty logs as the topic has partitions. -/
def newTopicEntry (logs : List PartitionLogInner) (metadata : TopicMetadata) : TopicEntry × List PartitionLogInner :=
  (⟨metadata, List.range' logs.length metadata.partitionCount⟩,
    logs ++ List.replicate metadata.partitionCount .default)

def validateName (name : String) : Except TopicError Unit :=
  let valid := name ≠ "" ∧ name.utf8ByteSize ≤ 249 ∧ name ≠ "." ∧ name ≠ ".." ∧
    name.toList.all fun c => c.isAlphanum ∨ c = '.' ∨ c = '_' ∨ c = '-'
  if valid then .ok () else .error .invalidName

def validateExplicitDefinition (name : String) (partitions replicationFactor : Int) : Except TopicError Nat := do
  validateName name
  if partitions < 0 then throw .invalidPartitions
  if partitions = 0 then throw .invalidPartitions
  if replicationFactor ≠ 1 then throw .invalidReplicationFactor
  pure partitions.toNat

/-- The first id drawn that is neither nil nor in use; `none` while there is none among them. -/
def nextTopicId (catalog : CatalogState) (draws : List Uuid) : Option Uuid :=
  draws.find? fun candidate => candidate ≠ 0 ∧ candidate ∉ catalog.namesById

def insertTopic (store : TopicStore) (name : String) (partitionCount : Nat) (draws : List Uuid) :
    Option (TopicMetadata × TopicStore) := do
  let id ← nextTopicId store.catalog draws
  let metadata : TopicMetadata := ⟨id, name, partitionCount⟩
  let (entry, logs) := newTopicEntry store.logs metadata
  some (metadata, ⟨⟨store.catalog.topicsByName.insert name entry, store.catalog.namesById.insert id name⟩, logs⟩)

/-- `create_explicit`, under the write lock. -/
def createExplicit (store : TopicStore) (name : String) (partitions replicationFactor : Int) (draws : List Uuid) :
    Option (Except TopicError TopicMetadata × TopicStore) :=
  match validateExplicitDefinition name partitions replicationFactor with
  | .error error => some (.error error, store)
  | .ok partitionCount =>
    if name ∈ store.catalog.topicsByName then some (.error .alreadyExists, store) else
    (insertTopic store name partitionCount draws).map fun (metadata, store) => (.ok metadata, store)

/-- `validate_explicit`; the definition is checked before the read lock. -/
def validateExplicit (catalog : CatalogState) (name : String) (partitions replicationFactor : Int) :
    Except TopicError Unit :=
  match validateExplicitDefinition name partitions replicationFactor with
  | .error error => .error error
  | .ok _ => if name ∈ catalog.topicsByName then .error .alreadyExists else .ok ()

/-- `TopicCatalog::get`. -/
def CatalogState.get (catalog : CatalogState) (name : String) : Except TopicError (Option TopicMetadata) :=
  match validateName name with
  | .error error => .error error
  | .ok () => .ok ((catalog.topicsByName.lookup name).map (·.metadata))

/-- `TopicCatalog::get_by_id`. -/
def CatalogState.getById (catalog : CatalogState) (id : Uuid) : Option TopicMetadata :=
  (catalog.namesById.lookup id).bind fun name => (catalog.topicsByName.lookup name).map (·.metadata)

/-- `TopicCatalog::list`, in the order of the names. -/
def CatalogState.list (catalog : CatalogState) : List TopicMetadata :=
  (Kit.sortedEntries catalog.topicsByName).map (·.2.metadata)

/-- The first half of `get_or_auto_create`: the name check and the section under the read lock. `none` when
it goes on to the write lock. -/
def getOrAutoCreateRead (catalog : CatalogState) (name : String) (allowAutoCreate : Bool) :
    Option (Except TopicError (Option TopicMetadata)) :=
  match validateName name with
  | .error error => some (.error error)
  | .ok () =>
    match catalog.topicsByName.lookup name with
    | some entry => some (.ok (some entry.metadata))
    | none => if allowAutoCreate then none else some (.ok none)

/-- The section of `get_or_auto_create` under the write lock, where the name is looked up again. -/
def getOrAutoCreateWrite (defaultPartitions : Nat) (store : TopicStore) (name : String) (draws : List Uuid) :
    Option (TopicMetadata × TopicStore) :=
  match store.catalog.topicsByName.lookup name with
  | some entry => some (entry.metadata, store)
  | none => insertTopic store name defaultPartitions draws

/-- `TopicCatalog::partition`. -/
def CatalogState.partition (catalog : CatalogState) (topic : String) (index : Int) : Option LogRef :=
  if index < 0 then none else (catalog.topicsByName.lookup topic).bind (·.partitions[index.toNat]?)

/-! ### Stores only grow -/

/-- What a later store keeps of an earlier one. -/
structure TopicStore.Extends (store store' : TopicStore) : Prop where
  partition : ∀ topic index log, store.catalog.partition topic index = some log →
    store'.catalog.partition topic index = some log
  logs : ∀ (log : LogRef) inner, store.logs[log]? = some inner →
    ∃ inner', store'.logs[log]? = some inner' ∧ inner.batches <+: inner'.batches

theorem TopicStore.Extends.refl (store : TopicStore) : store.Extends store :=
  ⟨fun _ _ _ h => h, fun _ inner h => ⟨inner, h, List.prefix_rfl⟩⟩

theorem TopicStore.Extends.trans {a b c : TopicStore} (h : a.Extends b) (h' : b.Extends c) : a.Extends c where
  partition topic index log hl := h'.partition topic index log (h.partition topic index log hl)
  logs log inner hl := by
    obtain ⟨inner₁, hl₁, hprefix⟩ := h.logs log inner hl
    obtain ⟨inner₂, hl₂, hprefix'⟩ := h'.logs log inner₁ hl₁
    exact ⟨inner₂, hl₂, hprefix.trans hprefix'⟩

section
variable {store store' : TopicStore} {name : String} {count : Nat} {draws : List Uuid} {metadata : TopicMetadata}

theorem insertTopic_eq_some (h : insertTopic store name count draws = some (metadata, store')) :
    ∃ id, nextTopicId store.catalog draws = some id ∧ metadata = ⟨id, name, count⟩ ∧
      store' = ⟨⟨store.catalog.topicsByName.insert name ⟨⟨id, name, count⟩, List.range' store.logs.length count⟩,
        store.catalog.namesById.insert id name⟩, store.logs ++ List.replicate count .default⟩ := by
  simp only [insertTopic, Option.bind_eq_bind, Option.bind_eq_some_iff, newTopicEntry, Option.some.injEq,
    Prod.mk.injEq] at h
  obtain ⟨id, hid, rfl, rfl⟩ := h
  exact ⟨id, hid, rfl, rfl⟩

/-- A topic is not inserted while no id that was drawn is free. -/
theorem insertTopic_eq_none (h : insertTopic store name count draws = none) :
    ∀ id ∈ draws, id = 0 ∨ id ∈ store.catalog.namesById := by
  have hnone : nextTopicId store.catalog draws = none := by
    match hid : nextTopicId store.catalog draws with
    | none => rfl
    | some id =>
      rw [insertTopic, hid] at h
      cases h
  intro id hid
  by_contra hfree
  rw [not_or] at hfree
  exact List.find?_eq_none.1 hnone id hid (decide_eq_true hfree)

/-- A topic is only inserted under a name that is not in the catalog. -/
theorem insertTopic_extends (hnew : store.catalog.topicsByName.lookup name = none)
    (h : insertTopic store name count draws = some (metadata, store')) : store.Extends store' := by
  obtain ⟨id, -, -, rfl⟩ := insertTopic_eq_some h
  refine ⟨?_, fun log inner hl => ⟨inner, ?_, List.prefix_rfl⟩⟩
  · intro topic index log hl
    have hne : topic ≠ name := by
      rintro rfl
      simp [CatalogState.partition, hnew] at hl
    simpa [CatalogState.partition, AList.lookup_insert_ne hne] using hl
  · rw [List.getElem?_append_left (List.getElem?_eq_some_iff.1 hl).1]
    exact hl

theorem insertTopic_logs (h : insertTopic store name count draws = some (metadata, store')) :
    store'.logs = store.logs ++ List.replicate count .default := by
  obtain ⟨id, -, -, rfl⟩ := insertTopic_eq_some h
  rfl

/-- How a section of the catalog changes the store. -/
inductive CatalogStep (store : TopicStore) : TopicStore → Prop
  | same : CatalogStep store store
  | insert {store' : TopicStore} (name : String) (count : Nat) (draws : List Uuid) (metadata : TopicMetadata)
      (new : store.catalog.topicsByName.lookup name = none)
      (h : insertTopic store name count draws = some (metadata, store')) : CatalogStep store store'

/-- The name check fails in one way only. -/
theorem validateName_error {error : TopicError} (h : validateName name = .error error) : error = .invalidName := by
  simp only [validateName] at h
  split at h
  · cases h
  · exact (Except.error.inj h).symm

/-- What `get_or_auto_create` finds under the read lock. -/
theorem getOrAutoCreateRead_cases (catalog : CatalogState) (name : String) (allow : Bool) :
    (getOrAutoCreateRead catalog name allow = some (.error .invalidName)) ∨ validateName name = .ok () ∧
      ((∃ entry, catalog.topicsByName.lookup name = some entry ∧
        getOrAutoCreateRead catalog name allow = some (.ok (some entry.metadata))) ∨
      catalog.topicsByName.lookup name = none ∧
        getOrAutoCreateRead catalog name allow = if allow then none else some (.ok none)) := by
  unfold getOrAutoCreateRead
  cases hname : validateName name with
  | error error => exact .inl (by rw [validateName_error hname])
  | ok u =>
    cases hl : catalog.topicsByName.lookup name with
    | some entry => exact .inr ⟨rfl, .inl ⟨entry, rfl, rfl⟩⟩
    | none => exact .inr ⟨rfl, .inr ⟨rfl, rfl⟩⟩

theorem createExplicit_step {partitions replicationFactor : Int} {out : Except TopicError TopicMetadata}
    (h : createExplicit store name partitions replicationFactor draws = some (out, store')) :
    CatalogStep store store' := by
  unfold createExplicit at h
  split at h
  · obtain ⟨-, rfl⟩ : _ ∧ store = store' := by simpa using h
    exact .same
  split at h
  · obtain ⟨-, rfl⟩ : _ ∧ store = store' := by simpa using h
    exact .same
  · rename_i hnew
    simp only [Option.map_eq_some_iff, Prod.mk.injEq, Prod.exists] at h
    obtain ⟨metadata, s, h, -, rfl⟩ := h
    exact .insert _ _ _ _ (AList.lookup_eq_none.2 hnew) h

theorem getOrAutoCreateWrite_step {defaultPartitions : Nat}
    (h : getOrAutoCreateWrite defaultPartitions store name draws = some (metadata, store')) :
    CatalogStep store store' := by
  unfold getOrAutoCreateWrite at h
  split at h
  · obtain ⟨-, rfl⟩ : _ ∧ store = store' := by simpa using h
    exact .same
  · exact .insert _ _ _ _ ‹_› h

theorem CatalogStep.extends (h : CatalogStep store store') : store.Extends store' := by
  cases h with
  | same => exact .refl store
  | insert name count draws metadata hnew h => exact insertTopic_extends hnew h

/-- New logs are empty ones. -/
theorem CatalogStep.mem_logs (h : CatalogStep store store') {inner : PartitionLogInner} (hi : inner ∈ store'.logs) :
    inner ∈ store.logs ∨ inner = .default := by
  cases h with
  | same => exact .inl hi
  | insert name count draws metadata hnew h =>
    rw [insertTopic_logs h, List.mem_append] at hi
    exact hi.imp_right List.eq_of_mem_replicate

end

end MemKafka
