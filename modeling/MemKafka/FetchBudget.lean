import MemKafka.FetchBytes
import MemKafka.Consumer
import MemKafka.ProduceExact

/-!
# The size limits of a Fetch request

`snapshot` reads its partitions one after another, and each read leaves less of the request's limit to those behind it.
`ReadOk` says what one read puts into the response and onto `record_bytes`; `Reads` is a row of reads. Only the first
batch that is returned at all may be over the limit, and then nothing else is returned (`Reads.spent`, `Reads.budget`).
-/

namespace MemKafka
open Kit

def FetchTopic.shape (topic : FetchTopic) : String × List Int := (topic.topic, topic.partitions.map (·.partition))

def FetchableTopicResponse.shape (answer : FetchableTopicResponse) : String × List Int :=
  (answer.topic, answer.partitions.map (·.partitionIndex))

/-- The entries of a response, in the order of the loops of `snapshot`. -/
def FetchResponse.entries (response : FetchResponse) : List PartitionData :=
  response.responses.flatMap (·.partitions)

def PartitionData.bytes (entry : PartitionData) : Bytes := entry.records.getD []

/-- The log that a read goes to. -/
def TopicStore.readLog (topics : TopicStore) (read : String × FetchPartition) : Option PartitionLogInner :=
  (topics.catalog.partition read.1 read.2.partition).bind fun log => topics.logs[log]?

/-- The partition has records at the offset asked for. -/
def HoldsData (topics : TopicStore) (read : String × FetchPartition) : Prop :=
  ∃ inner, topics.readLog read = some inner ∧ 0 ≤ read.2.fetchOffset ∧ read.2.fetchOffset < inner.nextOffset

/-- The entry is the given run of the batches of its partition, from the one that covers the offset asked for on. -/
structure EntryRun (topics : TopicStore) (read : String × FetchPartition) (entry : PartitionData) (first : StoredBatch)
    (rest : List StoredBatch) : Prop where
  stored : ∃ inner before after, topics.readLog read = some inner ∧ inner.batches = before ++ first :: rest ++ after
  covers : first.baseOffset ≤ read.2.fetchOffset ∧ read.2.fetchOffset ≤ first.lastOffset
  records : entry.records = some (storedBytes (first :: rest))
  fits : entry.bytes.length ≤ read.2.partitionMaxBytes.toNat ∨ rest = []

/-- What one read makes of `record_bytes` and puts into the response. -/
structure ReadOk (request : FetchRequest) (topics : TopicStore) (bytes : Nat) (read : String × FetchPartition)
    (entry : PartitionData) (bytes' : Nat) : Prop where
  index : entry.partitionIndex = read.2.partition
  run : entry.bytes ≠ [] → ∃ first rest, EntryRun topics read entry first rest
  counted : bytes' = bytes + entry.bytes.length
  budget : bytes' ≤ request.maxBytes.toNat ∨ entry.bytes = [] ∨ bytes = 0 ∧ ∃ b, EntryRun topics read entry b []
  progress : bytes = 0 → HoldsData topics read → entry.bytes ≠ []

/-- One read after another. -/
inductive Reads (request : FetchRequest) (topics : TopicStore) :
    Nat → List (String × FetchPartition) → List PartitionData → Nat → Prop
  | nil (bytes : Nat) : Reads request topics bytes [] [] bytes
  | cons {bytes bytes₁ bytes' : Nat} {read : String × FetchPartition} {reads : List (String × FetchPartition)}
      {entry : PartitionData} {entries : List PartitionData} (head : ReadOk request topics bytes read entry bytes₁)
      (tail : Reads request topics bytes₁ reads entries bytes') :
      Reads request topics bytes (read :: reads) (entry :: entries) bytes'

section
variable {request : FetchRequest} {topics : TopicStore} {bytes bytes₁ bytes' : Nat}
  {reads reads' : List (String × FetchPartition)} {entries entries' : List PartitionData}

theorem Reads.append (h : Reads request topics bytes reads entries bytes₁)
    (h' : Reads request topics bytes₁ reads' entries' bytes') :
    Reads request topics bytes (reads ++ reads') (entries ++ entries') bytes' := by
  induction h with
  | nil => exact h'
  | cons head _ ih => exact .cons head (ih h')

theorem Reads.length_eq (h : Reads request topics bytes reads entries bytes') : entries.length = reads.length := by
  induction h with
  | nil => rfl
  | cons _ _ ih => rw [List.length_cons, List.length_cons, ih]

theorem Reads.sum (h : Reads request topics bytes reads entries bytes') :
    bytes' = bytes + (entries.map fun entry => entry.bytes.length).sum := by
  induction h with
  | nil => simp
  | cons head _ ih =>
    rw [ih, head.counted, List.map_cons, List.sum_cons, Nat.add_assoc]

theorem Reads.run (h : Reads request topics bytes reads entries bytes') :
    List.Forall₂ (fun read entry => entry.partitionIndex = read.2.partition ∧
      (entry.bytes ≠ [] → ∃ first rest, EntryRun topics read entry first rest)) reads entries := by
  induction h with
  | nil => exact .nil
  | cons head _ ih => exact .cons ⟨head.index, head.run⟩ ih

/-- Once something is returned, what comes behind it is within the limit or empty. -/
theorem Reads.spent (h : Reads request topics bytes reads entries bytes') (hpos : 0 < bytes) :
    bytes' ≤ request.maxBytes.toNat ∨ bytes' = bytes ∧ ∀ entry ∈ entries, entry.bytes = [] := by
  induction h with
  | nil bytes => exact .inr ⟨rfl, by simp⟩
  | @cons bytes bytes₁ bytes' read reads entry entries head tail ih =>
    have hbytes := head.counted
    rcases ih (by omega) with hle | ⟨heq, hempty⟩
    · exact .inl hle
    · rcases head.budget with hle | hnone | ⟨hzero, -⟩
      · exact .inl (heq ▸ hle)
      · rw [hnone, List.length_nil, Nat.add_zero] at hbytes
        exact .inr ⟨heq.trans hbytes, List.forall_mem_cons.2 ⟨hnone, hempty⟩⟩
      · omega

/-- All that is returned is within the limit, or it is one batch. -/
theorem Reads.budget (h : Reads request topics 0 reads entries bytes') :
    bytes' ≤ request.maxBytes.toNat ∨ ∃ i read entry b, reads[i]? = some read ∧ entries[i]? = some entry ∧
      EntryRun topics read entry b [] ∧ ∀ (j : Nat) other, j ≠ i → entries[j]? = some other → other.bytes = [] := by
  generalize hzero : 0 = bytes at h
  induction h with
  | nil bytes => exact .inl (by omega)
  | @cons bytes bytes₁ bytes' read reads entry entries head tail ih =>
    have hbytes := head.counted
    by_cases hnone : entry.bytes = []
    · rw [hnone, List.length_nil, Nat.add_zero] at hbytes
      rcases ih (by omega) with hle | ⟨i, read', entry', b, hread, hentry, hrun, hothers⟩
      · exact .inl hle
      · refine .inr ⟨i + 1, read', entry', b, hread, hentry, hrun, fun j other hj hother => ?_⟩
        cases j with
        | zero =>
          obtain rfl : entry = other := Option.some.inj hother
          exact hnone
        | succ j => exact hothers j other (by omega) hother
    · have hpos : 0 < entry.bytes.length := List.length_pos_of_ne_nil hnone
      rcases tail.spent (by omega) with hle | ⟨heq, hempty⟩
      · exact .inl hle
      rcases head.budget with hle | hnone' | ⟨-, b, hrun⟩
      · exact .inl (heq ▸ hle)
      · exact absurd hnone' hnone
      · refine .inr ⟨0, read, entry, b, rfl, rfl, hrun, fun j other hj hother => ?_⟩
        obtain ⟨j, rfl⟩ := Nat.exists_eq_succ_of_ne_zero hj
        exact hempty other (List.mem_of_getElem? hother)

/-- The first partition that holds data is read with nothing spent. -/
theorem Reads.progress (h : Reads request topics 0 reads entries bytes') {read : String × FetchPartition}
    (hread : read ∈ reads) (hdata : HoldsData topics read) : ∃ entry ∈ entries, entry.bytes ≠ [] := by
  generalize hzero : 0 = bytes at h
  induction h with
  | nil => simp at hread
  | @cons bytes bytes₁ bytes' read' reads entry entries head tail ih =>
    by_cases hnone : entry.bytes = []
    · have hbytes := head.counted
      rw [hnone, List.length_nil, Nat.add_zero] at hbytes
      rcases List.mem_cons.1 hread with rfl | hread
      · exact absurd hnone (head.progress hzero.symm hdata)
      · obtain ⟨found, hfound, hne⟩ := ih hread (by omega)
        exact ⟨found, List.mem_cons_of_mem _ hfound, hne⟩
    · exact ⟨entry, by simp, hnone⟩

end

/-! ### One read -/

section
variable {crc32c : Bytes → UInt32} {request : FetchRequest} {topics : TopicStore} {inner : PartitionLogInner}

/-- No size is over the largest `usize`, so a larger limit than that limits nothing more. -/
theorem collectBatches_min (limit : Nat) (records : Bytes) (batches : List StoredBatch) :
    collectBatches (min limit (2 ^ 64 - 1)) records batches = collectBatches limit records batches := by
  have hexceeds : ∀ records batchBytes, exceedsLimit (min limit (2 ^ 64 - 1)) records batchBytes =
      exceedsLimit limit records batchBytes := by
    intro records batchBytes
    unfold exceedsLimit addUsize
    by_cases hsize : records.length + batchBytes.length < 18446744073709551616
    · simp only [if_pos hsize, decide_eq_decide]
      omega
    · simp only [if_neg hsize]
  induction batches generalizing records with
  | nil => rfl
  | cons b batches ih => simp only [collectBatches, hexceeds, ih]

theorem Served.run {limit : Nat} {remaining taken : List StoredBatch} (h : Served limit remaining taken) :
    taken <+: remaining ∧ ((taken.map StoredBatch.size).sum ≤ limit ∨ taken.length ≤ 1) ∧
      (remaining ≠ [] → taken ≠ []) := by
  unfold Served at h
  split at h
  · rename_i hfits
    refine ⟨h.isPrefix, .inl h.fits, fun hne hnil => ?_⟩
    obtain ⟨first, rest, rfl⟩ := List.exists_cons_of_ne_nil hne
    have hfirst := h.longest [first] (by simp) (by simpa using hfits)
    simp [hnil] at hfirst
  · subst h
    exact ⟨List.take_prefix .., .inr (by simp), fun hne => by simpa using hne⟩

theorem storedBytes_length (batches : List StoredBatch) :
    (storedBytes batches).length = (batches.map StoredBatch.size).sum := by
  simp [storedBytes, List.length_flatten, Function.comp_def]

/-- The length of a frame is in one of its words. -/
theorem IsStored.length_lt {b : StoredBatch} (h : IsStored crc32c b) : b.bytes.length < 2 ^ 32 := by
  have hframed := h.framed
  have hword : frameBatchLength b.bytes < 2 ^ 31 := by
    have hrange := (beInt_range (wordAt b.bytes 8 4)).2
    have hfour : (256 ^ (wordAt b.bytes 8 4).length : Nat) = 256 ^ 4 := by rw [length_wordAt (by omega)]
    rw [hfour] at hrange
    show beInt (wordAt b.bytes 8 4) < 2 ^ 31
    omega
  omega

/-- What `fetch` returns, for any limit: nothing, or a run of batches from the one that covers the offset on. -/
theorem fetch_cases (inv : LogInv crc32c inner) (offset : Int) (limit : Nat) :
    (offset < 0 ∨ inner.nextOffset < offset) ∧ fetch inner offset limit = some (.error .outOfRange) ∨
    ∃ taken, fetch inner offset limit = some (.ok ⟨storedBytes taken, inner.nextOffset⟩) ∧
      (storedBytes taken).length < 2 ^ 64 ∧ (offset < inner.nextOffset → taken ≠ []) ∧
      ∀ first rest, taken = first :: rest → (∃ before after, inner.batches = before ++ first :: rest ++ after) ∧
        (first.baseOffset ≤ offset ∧ offset ≤ first.lastOffset) ∧
        ((storedBytes taken).length ≤ limit ∨ rest = []) := by
  by_cases hrange : offset < 0 ∨ inner.nextOffset < offset
  · exact .inl ⟨hrange, if_pos hrange⟩
  obtain ⟨h0, hle⟩ : 0 ≤ offset ∧ offset ≤ inner.nextOffset := by omega
  obtain ⟨remaining, hdrop, hremaining⟩ := inv.remaining h0 hle
  obtain ⟨taken, hserved, hfetch⟩ := fetch_served inv h0 hle (min_lt_of_right_lt (by decide : 2 ^ 64 - 1 < 2 ^ 64)) hdrop
  have hfetch' : fetch inner offset limit = some (.ok ⟨storedBytes taken, inner.nextOffset⟩) := by
    rw [← hfetch, fetch, fetch, collectBatches_min]
  obtain ⟨hrun, hsize, hne⟩ := hserved.run
  rw [← storedBytes_length] at hsize
  obtain ⟨before, hbefore, -⟩ := hremaining.suffix
  refine .inr ⟨taken, hfetch', ?_, fun hlt => hne ?_, ?_⟩
  · rcases hsize with hsize | hone
    · omega
    · rcases taken with _ | ⟨b, _ | ⟨c, rest⟩⟩
      · simp [storedBytes]
      · have hb : b ∈ inner.batches := by
          rw [hbefore]
          exact List.mem_append_right _ (hrun.subset (by simp))
        have hlength := (inv.stored b hb).length_lt
        simp only [storedBytes, List.map_singleton, List.flatten_singleton]
        omega
      · exact absurd hone (by simp)
  · obtain ⟨b, rest, rfl, -⟩ := hremaining.covers hlt
    simp
  · rintro first rest rfl
    obtain ⟨after, hafter⟩ := hrun
    refine ⟨⟨before, after, by rw [hbefore, ← hafter, List.append_assoc]⟩, ?_, ?_⟩
    · have hlt : offset < inner.nextOffset := by
        by_contra hnot
        rw [hremaining.done (by omega)] at hafter
        simp at hafter
      obtain ⟨b, rest', rfl, hcovers⟩ := hremaining.covers hlt
      obtain ⟨rfl, -⟩ := List.cons.inj hafter
      exact hcovers
    · rcases hsize with hsize | hone
      · exact .inl (by omega)
      · exact .inr (List.length_eq_zero_iff.1 (by simpa using hone))

/-- What `partition_response` answers at a limit that both the partition's and the request's bound. -/
theorem partitionResponse_ok (hlogs : topics.LogsInv crc32c) (hthere : topics.LogsThere)
    (read : String × FetchPartition) (remaining : Nat) :
    ∃ response records, partitionResponse topics read.1 read.2 (min read.2.partitionMaxBytes.toNat remaining) = some response ∧
      response.records = some records ∧ response.partitionIndex = read.2.partition ∧ records.length < 2 ^ 64 ∧
      (HoldsData topics read → records ≠ []) ∧
      (records ≠ [] → ∃ first rest, EntryRun topics read response first rest ∧
        (records.length ≤ remaining ∨ rest = [])) := by
  unfold partitionResponse
  cases hpartition : topics.catalog.partition read.1 read.2.partition with
  | none =>
    refine ⟨_, [], rfl, rfl, rfl, by simp, ?_, fun h => absurd rfl h⟩
    rintro ⟨inner, hread, -⟩
    simp [TopicStore.readLog, hpartition] at hread
  | some log =>
    obtain ⟨inner, hlog⟩ : ∃ inner, topics.logs[log]? = some inner :=
      ⟨_, List.getElem?_eq_getElem (hthere _ _ _ hpartition)⟩
    have hread : topics.readLog read = some inner := by
      rw [TopicStore.readLog, hpartition, Option.bind_some, hlog]
    have inv := hlogs inner (List.mem_of_getElem? hlog)
    simp only [hlog, Option.bind_eq_bind, Option.bind_some, readPartition]
    rcases fetch_cases inv.1 read.2.fetchOffset (min read.2.partitionMaxBytes.toNat remaining) with
      ⟨hrange, hfetch⟩ | ⟨taken, hfetch, hlen, hne, hrun⟩
    · rw [hfetch]
      refine ⟨_, [], rfl, rfl, rfl, by simp, ?_, fun h => absurd rfl h⟩
      rintro ⟨inner', hread', h0, hlt⟩
      obtain rfl : inner = inner' := Option.some.inj (hread.symm.trans hread')
      omega
    · rw [hfetch]
      refine ⟨_, storedBytes taken, rfl, rfl, rfl, hlen, ?_, fun hsome => ?_⟩
      · rintro ⟨inner', hread', -, hlt⟩
        obtain rfl : inner = inner' := Option.some.inj (hread.symm.trans hread')
        obtain ⟨first, rest, rfl⟩ := List.exists_cons_of_ne_nil (hne hlt)
        obtain ⟨⟨before, after, hbatches⟩, -⟩ := hrun first rest rfl
        have hframed := (inv.1.stored first (by rw [hbatches]; simp)).framed.1
        refine List.ne_nil_of_length_pos ?_
        rw [storedBytes_length, List.map_cons, List.sum_cons]
        have : 12 ≤ first.size := hframed
        omega
      · obtain ⟨first, rest, rfl⟩ := List.exists_cons_of_ne_nil (show taken ≠ [] from fun h => hsome (by rw [h]; rfl))
        obtain ⟨⟨before, after, hbatches⟩, hcovers, hfits⟩ := hrun first rest rfl
        refine ⟨first, rest, ⟨⟨inner, before, after, hread, hbatches⟩, hcovers, rfl, ?_⟩, ?_⟩
        · exact hfits.imp_left fun h => h.trans (min_le_left _ _)
        · exact hfits.imp_left fun h => h.trans (min_le_right _ _)

/-- One turn of the inner loop. -/
theorem snapshotPartition_ok (request : FetchRequest) (hlogs : topics.LogsInv crc32c) (hthere : topics.LogsThere) (topic : String)
    (partition : FetchPartition) {progress : SnapshotProgress} (hbytes : progress.recordBytes < 2 ^ 64) :
    ∃ entry bytes' valid, snapshotPartition request topics topic progress partition =
        some ⟨bytes', valid, progress.responses, progress.partitions ++ [entry]⟩ ∧
      ReadOk request topics progress.recordBytes (topic, partition) entry bytes' ∧ bytes' < 2 ^ 64 := by
  obtain ⟨response, records, hresponse, hrecords, hindex, hlen, hdata, hrun⟩ := partitionResponse_ok hlogs hthere
    (topic, partition) (request.maxBytes.toNat - progress.recordBytes)
  have hlen' : response.bytes.length = records.length := by rw [PartitionData.bytes, hrecords]; rfl
  have hbytes' : response.bytes = records := by rw [PartitionData.bytes, hrecords]; rfl
  rw [snapshotPartition, readLimit, hresponse, Option.map_some, SnapshotProgress.push, hrecords]
  dsimp only
  by_cases hexceeds : exceedsRequestLimit request progress.recordBytes records = true
  · -- the entry is emptied after the fact
    rw [if_pos hexceeds]
    have hpos : 0 < progress.recordBytes := (of_decide_eq_true hexceeds).1
    refine ⟨_, _, _, rfl, ⟨hindex, fun h => absurd rfl h, by simp [PartitionData.bytes], .inr (.inl rfl), ?_⟩, hbytes⟩
    intro hzero
    omega
  · rw [if_neg hexceeds]
    have hsum : progress.recordBytes = 0 ∨
        progress.recordBytes + records.length < 2 ^ 64 ∧ progress.recordBytes + records.length ≤ request.maxBytes.toNat := by
      unfold exceedsRequestLimit addUsize at hexceeds
      by_cases hsize : progress.recordBytes + records.length < 18446744073709551616
      · simp only [if_pos hsize, Option.all_some, decide_eq_true_eq] at hexceeds
        omega
      · simp only [if_neg hsize, Option.all_none, and_true, decide_eq_true_eq] at hexceeds
        omega
    have hadd : saturatingAdd progress.recordBytes records.length = progress.recordBytes + records.length := by
      rw [saturatingAdd, addUsize, if_pos (by omega)]
      rfl
    refine ⟨response, _, _, rfl, ⟨hindex, fun h => ?_, by rw [hadd, hlen'], ?_, fun _ hholds => ?_⟩, by omega⟩
    · obtain ⟨first, rest, hentry, -⟩ := hrun (hbytes' ▸ h)
      exact ⟨first, rest, hentry⟩
    · rw [hadd]
      rcases hsum with hzero | ⟨-, hle⟩
      · by_cases hne : records = []
        · exact .inr (.inl (hbytes'.trans hne))
        · obtain ⟨first, rest, hentry, hfits | rfl⟩ := hrun hne
          · exact .inl (by omega)
          · exact .inr (.inr ⟨hzero, first, hentry⟩)
      · exact .inl hle
    · rw [hbytes']
      exact hdata hholds

/-! ### The loops -/

theorem snapshotPartitions_ok (request : FetchRequest) (hlogs : topics.LogsInv crc32c) (hthere : topics.LogsThere) (topic : String)
    (partitions : List FetchPartition) {progress : SnapshotProgress} (hbytes : progress.recordBytes < 2 ^ 64) :
    ∃ entries bytes' valid, partitions.foldlM (snapshotPartition request topics topic) progress =
        some ⟨bytes', valid, progress.responses, progress.partitions ++ entries⟩ ∧
      Reads request topics progress.recordBytes (partitions.map fun p => (topic, p)) entries bytes' ∧
      bytes' < 2 ^ 64 := by
  induction partitions generalizing progress with
  | nil => exact ⟨[], _, _, by simp; rfl, .nil _, hbytes⟩
  | cons partition partitions ih =>
    obtain ⟨entry, bytes₁, valid, hstep, hread, hlt⟩ := snapshotPartition_ok request hlogs hthere topic partition hbytes
    obtain ⟨entries, bytes', valid', hrest, hreads, hlt'⟩ :=
      ih (show (⟨bytes₁, valid, progress.responses, progress.partitions ++ [entry]⟩ : SnapshotProgress).recordBytes < _ from hlt)
    refine ⟨entry :: entries, bytes', valid', ?_, .cons hread hreads, hlt'⟩
    rw [List.foldlM_cons, hstep]
    show partitions.foldlM _ _ = _
    rw [hrest, List.append_assoc]
    rfl

theorem map_index_of_reads {bytes bytes' : Nat} {partitions : List FetchPartition} {entries : List PartitionData}
    {topic : String} (h : Reads request topics bytes (partitions.map fun p => (topic, p)) entries bytes') :
    entries.map (·.partitionIndex) = partitions.map (·.partition) := by
  induction partitions generalizing bytes entries with
  | nil => cases h; rfl
  | cons partition partitions ih =>
    cases h with
    | cons head tail => rw [List.map_cons, List.map_cons, head.index, ih tail]

/-- The turns of the outer loop, which start and end between two topics. -/
theorem snapshotTopics_ok (request : FetchRequest) (hlogs : topics.LogsInv crc32c) (hthere : topics.LogsThere) (asked : List FetchTopic)
    {progress : SnapshotProgress} (hbytes : progress.recordBytes < 2 ^ 64) (hbetween : progress.partitions = []) :
    ∃ answers bytes' valid, asked.foldlM (snapshotTopic request topics) progress =
        some ⟨bytes', valid, progress.responses ++ answers, []⟩ ∧
      answers.map (·.shape) = asked.map (·.shape) ∧
      Reads request topics progress.recordBytes (asked.flatMap FetchTopic.reads) (answers.flatMap (·.partitions)) bytes' := by
  induction asked generalizing progress with
  | nil => exact ⟨[], _, _, by simp [← hbetween]; rfl, rfl, .nil _⟩
  | cons topic asked ih =>
    obtain ⟨entries, bytes₁, valid, hstep, hread, hlt⟩ :=
      snapshotPartitions_ok request hlogs hthere topic.topic topic.partitions hbytes
    rw [hbetween, List.nil_append] at hstep
    obtain ⟨answers, bytes', valid', hrest, hshape, hreads⟩ :=
      ih (show (⟨bytes₁, valid, progress.responses ++ [⟨topic.topic, entries⟩], []⟩ : SnapshotProgress).recordBytes < _
        from hlt) rfl
    refine ⟨⟨topic.topic, entries⟩ :: answers, bytes', valid', ?_, ?_, ?_⟩
    · rw [List.foldlM_cons, snapshotTopic, hstep]
      show asked.foldlM (snapshotTopic request topics)
        ⟨bytes₁, valid, progress.responses ++ [⟨topic.topic, entries⟩], []⟩ = _
      rw [hrest, List.append_assoc]
      rfl
    · rw [List.map_cons, List.map_cons, hshape, FetchTopic.shape, FetchableTopicResponse.shape, map_index_of_reads hread]
    · rw [List.flatMap_cons, List.flatMap_cons]
      exact hread.append hreads

/-- A snapshot is a row of reads. -/
theorem snapshot_reads (hlogs : topics.LogsInv crc32c) (hthere : topics.LogsThere) (request : FetchRequest) :
    ∃ result, snapshot request topics = some result ∧
      result.response.responses.map (·.shape) = request.topics.map (·.shape) ∧
      Reads request topics 0 request.reads result.response.entries result.recordBytes := by
  obtain ⟨answers, bytes', valid, hloop, hshape, hreads⟩ :=
    snapshotTopics_ok request hlogs hthere request.topics
      (show SnapshotProgress.start.recordBytes < 2 ^ 64 by decide) rfl
  refine ⟨⟨⟨0, answers⟩, bytes', valid⟩, ?_, hshape, hreads⟩
  rw [snapshot, hloop]
  rfl

end

/-- The size limits of a Fetch request. In every state of the broker a snapshot has one entry for each partition asked
for, in the order of the request, and counts the bytes of all of them. They are within `max_bytes`, or one entry has one
batch and the others have nothing. What an entry has is a run of its partition's batches, from the one that covers the
offset asked for on, within the partition's limit or of one batch. And some entry has something if there is anything to
return. -/
theorem fetch_keeps_to_its_limits (crc32c : Bytes → UInt32) (config : BrokerConfig) (tr : List BrokerEvent)
    (s : BrokerState) (hrun : (broker crc32c config).Run tr s) (request : FetchRequest) :
    ∃ result, snapshot request s.data.topics = some result ∧
      result.response.responses.map (·.shape) = request.topics.map (·.shape) ∧
      result.recordBytes = (result.response.entries.map fun entry => entry.bytes.length).sum ∧
      (result.recordBytes ≤ request.maxBytes.toNat ∨
        ∃ i read entry b, request.reads[i]? = some read ∧ result.response.entries[i]? = some entry ∧
          EntryRun s.data.topics read entry b [] ∧
          ∀ (j : Nat) other, j ≠ i → result.response.entries[j]? = some other → other.bytes = []) ∧
      List.Forall₂ (fun read entry => entry.partitionIndex = read.2.partition ∧
        (entry.bytes ≠ [] → ∃ first rest, EntryRun s.data.topics read entry first rest))
        request.reads result.response.entries ∧
      ∀ read ∈ request.reads, HoldsData s.data.topics read → ∃ entry ∈ result.response.entries, entry.bytes ≠ [] := by
  obtain ⟨result, hresult, hshape, hreads⟩ :=
    snapshot_reads (broker_answered hrun).1.logs (broker_logsThere hrun) request
  have hsum := hreads.sum
  rw [Nat.zero_add] at hsum
  exact ⟨result, hresult, hshape, hsum, hreads.budget, hreads.run, fun read hread hdata => hreads.progress hread hdata⟩

/-- A partition asked for twice, with limits that no batch fits into. -/
def sampleFetch : FetchRequest :=
  ⟨0, 1, 10, [⟨"events", [⟨0, 1, -1⟩, ⟨5, 0, 100⟩]⟩, ⟨"events", [⟨0, 0, 100⟩]⟩]⟩

theorem fetch_keeps_to_its_limits_oversize :
    ∃ tr s result i entry, (broker castagnoli ⟨true, 1⟩).exec .new sampleProduceRun = some (tr, s) ∧
      snapshot sampleFetch s.data.topics = some result ∧ 10 < result.recordBytes ∧
      result.response.entries[i]? = some entry ∧
      ∀ (j : Nat) other, j ≠ i → result.response.entries[j]? = some other → other.bytes = [] := by
  have hsome : (((broker castagnoli ⟨true, 1⟩).exec .new sampleProduceRun).bind fun r =>
      (snapshot sampleFetch r.2.data.topics).map fun result => decide (10 < result.recordBytes)) = some true := by
    decide +kernel
  obtain ⟨⟨tr, s⟩, hx, hbind⟩ := Option.bind_eq_some_iff.1 hsome
  obtain ⟨result, hresult, hbytes⟩ := Option.map_eq_some_iff.1 hbind
  obtain ⟨result', hresult', -, -, hbudget, -⟩ :=
    fetch_keeps_to_its_limits castagnoli ⟨true, 1⟩ tr s (Machine.exec_path hx).1 sampleFetch
  obtain rfl : result = result' := Option.some.inj (hresult.symm.trans hresult')
  have hover := of_decide_eq_true hbytes
  obtain ⟨i, read, entry, b, -, hentry, -, hothers⟩ := hbudget.resolve_left (Nat.not_le.2 hover)
  exact ⟨tr, s, result, i, entry, hx, hresult, hover, hentry, hothers⟩

end MemKafka
