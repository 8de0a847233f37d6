import MemKafka.Broker

/-!
# What the response of a Produce call says of the logs

The entries answered with code 0 (`acceptedEntries`), and the logs after their record sets (`Folded`): the topics
that a call creates come with empty logs behind the old ones, which change nothing for the entries before.
-/

namespace MemKafka
open Kit Outcome

/-! ### Answers in the order of the questions -/

/-- The elements of `answers` are for the first elements of `l`, in order. -/
def Follows {α β γ : Type} (f : α → γ) (g : β → γ) (l : List α) (answers : List β) : Prop :=
  answers.map g = (l.take answers.length).map f

section
variable {α β γ : Type} {f : α → γ} {g : β → γ} {l : List α} {answers : List β}

theorem Follows.nil (l : List α) : Follows f g l [] := rfl

theorem Follows.snoc (h : Follows f g l answers) {a : α} {b : β} (ha : l[answers.length]? = some a) (hb : g b = f a) :
    Follows f g l (answers ++ [b]) := by
  rw [Follows, List.length_append, List.length_singleton, List.take_add_one, ha, List.map_append, List.map_append, h]
  simp [hb]

theorem Follows.length_le (h : Follows f g l answers) : answers.length ≤ l.length := by
  have := congrArg List.length h
  simp only [List.length_map, List.length_take] at this
  omega

theorem Follows.complete (h : Follows f g l answers) (hrest : l[answers.length]? = none) : answers.map g = l.map f := by
  rw [h, List.take_of_length_le (List.getElem?_eq_none_iff.1 hrest)]

theorem zip_snoc {a : α} {b : β} (ha : l[answers.length]? = some a) :
    l.zip (answers ++ [b]) = l.zip answers ++ [(a, b)] := by
  induction answers generalizing l with
  | nil =>
    cases l with
    | nil => cases ha
    | cons x l => obtain rfl : x = a := Option.some.inj ha; simp
  | cons y answers ih =>
    cases l with
    | nil => cases ha
    | cons x l => simpa using ih (by simpa using ha)

end

/-! ### What a response says of the logs -/

/-- The entries of a topic that are answered with code 0. -/
def acceptedOf (topic : TopicProduceData) (answers : List PartitionProduceResponse) :
    List (String × PartitionProduceData) :=
  ((topic.partitionData.zip answers).filter fun e => e.2.errorCode = 0).map fun e => (topic.name, e.1)

/-- The entries of a request that are answered with code 0, in its order. -/
def acceptedEntries (request : ProduceRequest) (responses : List TopicProduceResponse) :
    List (String × PartitionProduceData) :=
  (request.topicData.zip responses).flatMap fun e => acceptedOf e.1 e.2.partitionResponses

section
variable (crc32c : Bytes → UInt32)

/-- `append` of one entry, on the log that the catalog has for it; `none` if it is not stored. -/
def storeEntry (catalog : CatalogState) (logs : List PartitionLogInner) (entry : String × PartitionProduceData) :
    Option (List PartitionLogInner) := do
  let log ← catalog.partition entry.1 entry.2.index
  let records ← entry.2.records
  let inner ← logs[log]?
  let (result, inner) ← append crc32c inner records
  match result with
  | .ok _ => some (logs.set log inner)
  | .error _ => none

/-- The logs of the store are `logs`, and some empty ones, after the record sets of `entries`. -/
def Folded (logs : List PartitionLogInner) (store : TopicStore)
    (entries : List (String × PartitionProduceData)) : Prop :=
  ∃ created, entries.foldlM (storeEntry crc32c store.catalog) (logs ++ List.replicate created .default) = some store.logs

end

section
variable {crc32c : Bytes → UInt32} {catalog catalog' : CatalogState} {logs logs' : List PartitionLogInner}

theorem storeEntry_eq_some {entry : String × PartitionProduceData} : storeEntry crc32c catalog logs entry = some logs' ↔
    ∃ log records inner result inner', catalog.partition entry.1 entry.2.index = some log ∧
      entry.2.records = some records ∧ logs[log]? = some inner ∧
      append crc32c inner records = some (.ok result, inner') ∧ logs' = logs.set log inner' := by
  simp only [storeEntry, Option.bind_eq_bind, Option.bind_eq_some_iff, Prod.exists]
  constructor
  · rintro ⟨log, hlog, records, hrecords, inner, hinner, out, inner', happ, h⟩
    split at h <;> cases h
    exact ⟨log, records, inner, _, inner', hlog, hrecords, hinner, happ, rfl⟩
  · rintro ⟨log, records, inner, result, inner', hlog, hrecords, hinner, happ, rfl⟩
    exact ⟨log, hlog, records, hrecords, inner, hinner, _, inner', happ, rfl⟩

/-- More topics, and more logs behind, change nothing. -/
theorem storeEntry_mono {entry : String × PartitionProduceData} (more : List PartitionLogInner)
    (hcat : ∀ topic index log, catalog.partition topic index = some log → catalog'.partition topic index = some log)
    (h : storeEntry crc32c catalog logs entry = some logs') :
    storeEntry crc32c catalog' (logs ++ more) entry = some (logs' ++ more) := by
  obtain ⟨log, records, inner, result, inner', hlog, hrecords, hinner, happ, rfl⟩ := storeEntry_eq_some.1 h
  have hlt := (List.getElem?_eq_some_iff.1 hinner).1
  refine storeEntry_eq_some.2 ⟨log, records, inner, result, inner', hcat _ _ _ hlog, hrecords, ?_, happ, ?_⟩
  · rw [List.getElem?_append_left hlt]
    exact hinner
  · rw [List.set_append_left _ _ hlt]

theorem foldlM_storeEntry_mono {entries : List (String × PartitionProduceData)} (more : List PartitionLogInner)
    (hcat : ∀ topic index log, catalog.partition topic index = some log → catalog'.partition topic index = some log)
    (h : entries.foldlM (storeEntry crc32c catalog) logs = some logs') :
    entries.foldlM (storeEntry crc32c catalog') (logs ++ more) = some (logs' ++ more) := by
  induction entries generalizing logs with
  | nil =>
    obtain rfl : logs = logs' := Option.some.inj h
    rfl
  | cons entry entries ih =>
    rw [List.foldlM_cons] at h ⊢
    obtain ⟨logs₁, h₁, h⟩ := Option.bind_eq_some_iff.1 h
    exact Option.bind_eq_some_iff.2 ⟨_, storeEntry_mono more hcat h₁, ih h⟩

theorem foldlM_storeEntry_length {entries : List (String × PartitionProduceData)}
    (h : entries.foldlM (storeEntry crc32c catalog) logs = some logs') : logs'.length = logs.length := by
  induction entries generalizing logs with
  | nil =>
    obtain rfl : logs = logs' := Option.some.inj h
    rfl
  | cons entry entries ih =>
    rw [List.foldlM_cons] at h
    obtain ⟨logs₁, h₁, h⟩ := Option.bind_eq_some_iff.1 h
    obtain ⟨log, _, _, _, _, -, -, -, -, rfl⟩ := storeEntry_eq_some.1 h₁
    rw [ih h, List.length_set]

variable {store store' : TopicStore} {entries : List (String × PartitionProduceData)}

theorem Folded.refl (store : TopicStore) : Folded crc32c store.logs store [] :=
  ⟨0, by simp⟩

theorem Folded.catalogStep (h : Folded crc32c logs store entries) (hstep : CatalogStep store store') :
    Folded crc32c logs store' entries := by
  obtain ⟨created, h⟩ := h
  cases hstep with
  | same => exact ⟨created, h⟩
  | insert name count draws metadata hnew hinsert =>
    refine ⟨created + count, ?_⟩
    rw [insertTopic_logs hinsert, List.replicate_add, ← List.append_assoc]
    exact foldlM_storeEntry_mono _ (insertTopic_extends hnew hinsert).partition h

theorem Folded.snoc (h : Folded crc32c logs store entries) {topic : String} {entry : PartitionProduceData}
    {log : LogRef} {records : Bytes} {inner inner' : PartitionLogInner} {result : AppendResult}
    (hlog : store.catalog.partition topic entry.index = some log) (hrecords : entry.records = some records)
    (hinner : store.logs[log]? = some inner) (happ : append crc32c inner records = some (.ok result, inner')) :
    Folded crc32c logs { store with logs := store.logs.set log inner' } (entries ++ [(topic, entry)]) := by
  obtain ⟨created, h⟩ := h
  refine ⟨created, ?_⟩
  rw [List.foldlM_append, h]
  refine Option.bind_eq_some_iff.2 ⟨store.logs, rfl, ?_⟩
  rw [List.foldlM_cons]
  refine Option.bind_eq_some_iff.2 ⟨_, storeEntry_eq_some.2 ⟨log, records, inner, result, inner', hlog, hrecords, hinner, happ, rfl⟩, rfl⟩

/-- The empty logs are those the store has in addition. -/
theorem Folded.created (h : Folded crc32c logs store entries) : entries.foldlM (storeEntry crc32c store.catalog)
    (logs ++ List.replicate (store.logs.length - logs.length) .default) = some store.logs := by
  obtain ⟨created, h⟩ := h
  have hlength := foldlM_storeEntry_length h
  rw [List.length_append, List.length_replicate] at hlength
  rwa [hlength, Nat.add_sub_cancel_left]

end

end MemKafka
