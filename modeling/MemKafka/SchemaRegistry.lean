import MemKafka.Lib.Assoc
import MemKafka.Lib.Bytes
import MemKafka.Lib.Machine

/-!
# The schema registry (`schema_registry.rs`)

The store behind the registry's lock. `register` holds the write lock for the whole call and each query the
read lock, so that one call is one step. A schema gets one id, however many subjects it is
registered under; a subject numbers its own schemas. The two `expect`s of `register` panic: `none`.
-/

namespace MemKafka
open Kit

structure RegisteredSchema where
  subject : String
  version : Int
  id : Int
  schema : String
deriving DecidableEq, Repr

structure RegistryStore where
  nextSchemaId : Int
  schemasByText : Assoc String Int
  schemasById : Assoc Int String
  subjects : Assoc String (List RegisteredSchema)
deriving DecidableEq

inductive RegistryError where
  | subjectNotFound
  | versionNotFound
  | schemaNotFound
deriving DecidableEq, Repr

namespace RegistryStore

def default : RegistryStore := ⟨1, ∅, ∅, ∅⟩

/-- The id of a text, a new one if it has none yet. -/
def schemaId (store : RegistryStore) (schema : String) : Option (Int × RegistryStore) :=
  match store.schemasByText.lookup schema with
  | some id => some (id, store)
  | none => do
    let id := store.nextSchemaId
    let next ← addI32 store.nextSchemaId 1
    some (id, { store with
      nextSchemaId := next
      schemasByText := store.schemasByText.insert schema id
      schemasById := store.schemasById.insert id schema })

def register (store : RegistryStore) (subject schema : String) : Option (RegisteredSchema × RegistryStore) :=
  match (store.subjects.lookup subject).bind (·.find? (·.schema = schema)) with
  | some existing => some (existing, store)
  | none => do
    let (id, store) ← store.schemaId schema
    let versions := (store.subjects.lookup subject).getD []
    -- `i32::try_from(versions.len() + 1)`
    let version ← addI32 versions.length 1
    let registered : RegisteredSchema := ⟨subject, version, id, schema⟩
    some (registered, { store with subjects := store.subjects.insert subject (versions ++ [registered]) })

def versions (store : RegistryStore) (subject : String) : Except RegistryError (List Int) :=
  match store.subjects.lookup subject with
  | none => .error .subjectNotFound
  | some versions => .ok (versions.map (·.version))

def lookup (store : RegistryStore) (subject schema : String) : Except RegistryError RegisteredSchema :=
  match store.subjects.lookup subject with
  | none => .error .subjectNotFound
  | some versions =>
    match versions.find? (·.schema = schema) with
    | none => .error .schemaNotFound
    | some registered => .ok registered

def version (store : RegistryStore) (subject : String) (version : Int) : Except RegistryError RegisteredSchema :=
  match store.subjects.lookup subject with
  | none => .error .subjectNotFound
  | some versions =>
    match versions.find? (·.version = version) with
    | none => .error .versionNotFound
    | some registered => .ok registered

def latest (store : RegistryStore) (subject : String) : Except RegistryError RegisteredSchema :=
  match store.subjects.lookup subject with
  | none => .error .subjectNotFound
  | some versions =>
    match versions.getLast? with
    | none => .error .subjectNotFound
    | some registered => .ok registered

def schemaById (store : RegistryStore) (id : Int) : Except RegistryError String :=
  match store.schemasById.lookup id with
  | none => .error .schemaNotFound
  | some schema => .ok schema

def schemaVersionsById (store : RegistryStore) (id : Int) : Except RegistryError (List RegisteredSchema) :=
  if id ∉ store.schemasById then .error .schemaNotFound
  else .ok ((sortedEntries store.subjects).flatMap fun e => e.2.filter (·.id = id))

end RegistryStore

/-- The registry from its start on; a label is the subject and the text of one registration. -/
def registry : Machine RegistryStore (String × String) RegisteredSchema where
  init := .default
  step store label := store.register label.1 label.2

/-! ### What one registration does -/

/-- The three ways out of `register`. -/
inductive Registration (store : RegistryStore) (subject schema : String) :
    RegisteredSchema → RegistryStore → Prop
  | known {versions : List RegisteredSchema} {existing : RegisteredSchema}
      (hs : store.subjects.lookup subject = some versions)
      (hf : versions.find? (·.schema = schema) = some existing) : Registration store subject schema existing store
  | shared {id : Int} (hnew : ∀ v ∈ (store.subjects.lookup subject).getD [], v.schema ≠ schema)
      (hid : store.schemasByText.lookup schema = some id) :
      Registration store subject schema
        ⟨subject, ((store.subjects.lookup subject).getD []).length + 1, id, schema⟩
        { store with subjects := store.subjects.insert subject ((store.subjects.lookup subject).getD [] ++
            [⟨subject, ((store.subjects.lookup subject).getD []).length + 1, id, schema⟩]) }
  | fresh (hnew : ∀ v ∈ (store.subjects.lookup subject).getD [], v.schema ≠ schema)
      (hid : store.schemasByText.lookup schema = none) :
      Registration store subject schema
        ⟨subject, ((store.subjects.lookup subject).getD []).length + 1, store.nextSchemaId, schema⟩
        ⟨store.nextSchemaId + 1, store.schemasByText.insert schema store.nextSchemaId,
          store.schemasById.insert store.nextSchemaId schema,
          store.subjects.insert subject ((store.subjects.lookup subject).getD [] ++
            [⟨subject, ((store.subjects.lookup subject).getD []).length + 1, store.nextSchemaId, schema⟩])⟩

section
variable {store store' : RegistryStore} {subject schema : String} {registered : RegisteredSchema}

theorem register_cases (h : store.register subject schema = some (registered, store')) :
    Registration store subject schema registered store' := by
  unfold RegistryStore.register at h
  split at h
  · rename_i existing hfound
    obtain ⟨versions, hs, hf⟩ := Option.bind_eq_some_iff.1 hfound
    cases h
    exact .known hs hf
  rename_i hnone
  have hnew : ∀ v ∈ (store.subjects.lookup subject).getD [], v.schema ≠ schema := by
    intro v hv heq
    cases hs : store.subjects.lookup subject with
    | none => simp [hs] at hv
    | some versions =>
      rw [hs, Option.bind_some, List.find?_eq_none] at hnone
      rw [hs, Option.getD_some] at hv
      exact hnone v hv (by simpa using heq)
  simp only [Option.bind_eq_bind, Option.bind_eq_some_iff, Prod.exists] at h
  obtain ⟨id, store₁, hid, version, hv, h⟩ := h
  obtain rfl := eq_of_addI32 hv
  unfold RegistryStore.schemaId at hid
  split at hid
  · rename_i hknown
    cases hid
    cases h
    exact .shared hnew hknown
  · rename_i hunknown
    simp only [Option.bind_eq_bind, Option.bind_eq_some_iff] at hid
    obtain ⟨next, hnext, hid⟩ := hid
    obtain rfl := eq_of_addI32 hnext
    cases hid
    cases h
    exact .fresh hnew hunknown

theorem schemaId_isSome (hid : store.nextSchemaId < i32Max) (hpos : 1 ≤ store.nextSchemaId) (schema : String) :
    ∃ id store₁, store.schemaId schema = some (id, store₁) ∧ store₁.subjects = store.subjects := by
  have hnext : addI32 store.nextSchemaId 1 = some (store.nextSchemaId + 1) :=
    addI32_eq (by omega) (Int.add_one_le_iff.2 hid)
  unfold RegistryStore.schemaId
  split
  · exact ⟨_, _, rfl, rfl⟩
  · rw [hnext]
    exact ⟨_, _, rfl, rfl⟩

/-- A registration returns while ids and versions fit. -/
theorem register_isSome (hid : store.nextSchemaId < i32Max) (hpos : 1 ≤ store.nextSchemaId)
    (hlen : ∀ versions, store.subjects.lookup subject = some versions → (versions.length : Int) < i32Max) :
    ∃ registered store', store.register subject schema = some (registered, store') := by
  have hversion : addI32 ((store.subjects.lookup subject).getD []).length 1 =
      some (((store.subjects.lookup subject).getD []).length + 1) := by
    refine addI32_eq (by omega) ?_
    cases hs : store.subjects.lookup subject with
    | none => simp [i32Max]
    | some versions => exact Int.add_one_le_iff.2 (hlen versions hs)
  obtain ⟨id, store₁, hschema, hsubjects⟩ := schemaId_isSome hid hpos schema
  rw [← hsubjects] at hversion
  unfold RegistryStore.register
  cases (store.subjects.lookup subject).bind (·.find? (·.schema = schema)) with
  | some existing => exact ⟨_, _, rfl⟩
  | none =>
    dsimp only
    rw [hschema, Option.bind_eq_bind, Option.bind_some]
    dsimp only
    rw [hversion]
    exact ⟨_, _, rfl⟩

end

end MemKafka
