import MemKafka.Fetch
import MemKafka.Lib.Partial

/-!
# The bytes of a snapshot

Of what a Fetch call reads only the number of bytes counts for when it returns. As long as no log is written the
partitions read again give as many: a topic that is created in the meantime has empty logs (`Unwritten`).
-/

namespace MemKafka
open Kit

/-! ### Bytes -/

def FetchTopic.reads (topic : FetchTopic) : List (String × FetchPartition) :=
  topic.partitions.map fun p => (topic.topic, p)

/-- The partitions of a request, in the order of the loops of `snapshot`. -/
def FetchRequest.reads (request : FetchRequest) : List (String × FetchPartition) :=
  request.topics.flatMap FetchTopic.reads

/-- `record_bytes` after one more partition. -/
def nextBytes (request : FetchRequest) (bytes : Nat) (response : PartitionData) : Nat :=
  match response.records with
  | none => bytes
  | some records => if exceedsRequestLimit request bytes records then bytes else saturatingAdd bytes records.length

def readBytes (request : FetchRequest) (topics : TopicStore) (bytes : Nat)
    (read : String × FetchPartition) : Option Nat :=
  (partitionResponse topics read.1 read.2 (readLimit request bytes read.2)).map (nextBytes request bytes)

section
variable {request : FetchRequest} {topics topics' : TopicStore}

theorem push_recordBytes (progress : SnapshotProgress) (response : PartitionData) :
    (progress.push request response).recordBytes = nextBytes request progress.recordBytes response := by
  unfold SnapshotProgress.push nextBytes
  cases response.records with
  | none => rfl
  | some records => dsimp only; split <;> rfl

theorem snapshotPartition_recordBytes (topic : String) (progress : SnapshotProgress) (partition : FetchPartition) :
    (snapshotPartition request topics topic progress partition).map SnapshotProgress.recordBytes =
      readBytes request topics progress.recordBytes (topic, partition) := by
  rw [snapshotPartition, Option.map_map]
  exact congrArg (fun f => Option.map f _) (funext (push_recordBytes progress))

theorem snapshotTopic_recordBytes (progress : SnapshotProgress) (topic : FetchTopic) :
    (snapshotTopic request topics progress topic).map SnapshotProgress.recordBytes =
      topic.reads.foldlM (readBytes request topics) progress.recordBytes := by
  rw [snapshotTopic, Option.map_map, FetchTopic.reads, List.foldlM_map]
  exact foldlM_proj (snapshotPartition_recordBytes topic.topic) topic.partitions progress

/-- The bytes of a snapshot. -/
theorem snapshot_recordBytes (request : FetchRequest) (topics : TopicStore) :
    (snapshot request topics).map Snapshot.recordBytes = request.reads.foldlM (readBytes request topics) 0 := by
  rw [snapshot, Option.map_map, FetchRequest.reads, foldlM_flatMap]
  exact foldlM_proj snapshotTopic_recordBytes request.topics SnapshotProgress.start

/-! ### No log written -/

/-- No log was written from the one store to the other, and new topics have empty logs. -/
structure Unwritten (topics topics' : TopicStore) : Prop where
  partition : ∀ topic index log, topics.catalog.partition topic index = some log →
    topics'.catalog.partition topic index = some log
  logs : ∀ (log : LogRef) inner, topics.logs[log]? = some inner → topics'.logs[log]? = some inner
  new : ∀ topic index log, topics'.catalog.partition topic index = some log →
    topics.catalog.partition topic index = some log ∨ topics'.logs[log]? = some .default

theorem Unwritten.refl (topics : TopicStore) : Unwritten topics topics :=
  ⟨fun _ _ _ h => h, fun _ _ h => h, fun _ _ _ h => .inl h⟩

theorem CatalogStep.unwritten (h : CatalogStep topics topics') : Unwritten topics topics' := by
  cases h with
  | same => exact .refl _
  | insert name count draws metadata hnew h =>
    have hlogs := insertTopic_logs h
    refine ⟨(insertTopic_extends hnew h).partition, ?_, ?_⟩
    · intro log inner hlog
      rw [hlogs, List.getElem?_append_left (List.getElem?_eq_some_iff.1 hlog).1]
      exact hlog
    · obtain ⟨id, -, -, rfl⟩ := insertTopic_eq_some h
      intro topic index log hlog
      simp only [CatalogState.partition, lookup_insert_eq] at hlog ⊢
      split at hlog
      · cases hlog
      rename_i hindex
      rw [if_neg hindex]
      split at hlog
      · obtain ⟨hle, hlt⟩ := List.mem_range'_1.1 (List.mem_of_getElem? hlog)
        refine .inr ?_
        rw [List.getElem?_append_right hle, List.getElem?_replicate, if_pos]
        exact Nat.sub_lt_left_of_lt_add hle hlt
      · exact .inl hlog

theorem readPartition_default (partition : FetchPartition) (maxBytes : Nat) :
    ∃ response, readPartition .default partition maxBytes = some response ∧ response.records = some [] := by
  unfold readPartition fetch
  split
  · exact ⟨_, rfl, rfl⟩
  · exact ⟨_, rfl, rfl⟩

/-- Reading a partition again gives as many bytes. -/
theorem Unwritten.readBytes_eq (h : Unwritten topics topics') {bytes bytes' : Nat} {read : String × FetchPartition}
    (hread : readBytes request topics bytes read = some bytes') :
    readBytes request topics' bytes read = some bytes' := by
  obtain ⟨response, hresponse, rfl⟩ := Option.map_eq_some_iff.1 hread
  unfold partitionResponse at hresponse
  cases hlog : topics.catalog.partition read.1 read.2.partition with
  | some log =>
    simp only [hlog, Option.bind_eq_bind, Option.bind_eq_some_iff] at hresponse
    obtain ⟨inner, hinner, hresponse⟩ := hresponse
    rw [readBytes, partitionResponse, h.partition _ _ _ hlog]
    simp only [h.logs log inner hinner, Option.bind_eq_bind, Option.bind_some, hresponse, Option.map_some]
  | none =>
    simp only [hlog] at hresponse
    cases hresponse
    rw [readBytes, partitionResponse]
    cases hlog' : topics'.catalog.partition read.1 read.2.partition with
    | none => rfl
    | some log =>
      have hdefault := (h.new _ _ _ hlog').resolve_left (by rw [hlog]; simp)
      obtain ⟨response, hresponse, hrecords⟩ := readPartition_default read.2 (readLimit request bytes read.2)
      simp only [hdefault, Option.bind_eq_bind, Option.bind_some, hresponse, Option.map_some, nextBytes, hrecords]
      rfl

theorem Unwritten.foldlM_readBytes (h : Unwritten topics topics') {bytes bytes' : Nat}
    {reads : List (String × FetchPartition)}
    (hread : reads.foldlM (readBytes request topics) bytes = some bytes') :
    reads.foldlM (readBytes request topics') bytes = some bytes' := by
  induction reads generalizing bytes with
  | nil => exact hread
  | cons read reads ih =>
    rw [List.foldlM_cons] at hread ⊢
    obtain ⟨bytes₁, h₁, hread⟩ := Option.bind_eq_some_iff.1 hread
    exact Option.bind_eq_some_iff.2 ⟨bytes₁, h.readBytes_eq h₁, ih hread⟩

end


end MemKafka
