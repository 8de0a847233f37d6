import MemKafka.Agreement

/-!
# Committed offsets (`kafka/offset_fetch.rs`)

The offsets of a group are written by successful commits only, so that over a whole run the last write of a key is
what is read (`lookup_committedOffsets`). OffsetFetch sorts what it reads and collects it by topic, which
neither drops nor merges an entry.
-/

namespace MemKafka
open Kit

/-! ### OffsetFetch -/

structure OffsetFetchRequestTopic where
  name : String
  partitionIndexes : List Int
deriving DecidableEq, Repr

structure OffsetFetchRequest where
  groupId : String
  topics : Option (List OffsetFetchRequestTopic)
deriving DecidableEq, Repr

structure OffsetFetchResponsePartition where
  partitionIndex : Int
  committedOffset : Int
  committedLeaderEpoch : Int
  metadata : Option String
  errorCode : Int
deriving DecidableEq, Repr

structure OffsetFetchResponseTopic where
  name : String
  partitions : List OffsetFetchResponsePartition
deriving DecidableEq, Repr

structure OffsetFetchResponse where
  throttleTimeMs : Int
  errorCode : Int
  topics : List OffsetFetchResponseTopic
deriving DecidableEq, Repr

def responsePartition (offset : FetchedOffset) : OffsetFetchResponsePartition :=
  ⟨offset.partition, offset.offset.getD (-1), -1, offset.metadata, 0⟩

def groupByTopic (offsets : List FetchedOffset) : List OffsetFetchResponseTopic :=
  (sortedEntries (groupOn FetchedOffset.topic responsePartition offsets)).map fun e => ⟨e.1, e.2⟩

/-- The keys a request asks for. -/
def requestedKeys (topics : List OffsetFetchRequestTopic) : List TopicPartition :=
  topics.flatMap fun topic => topic.partitionIndexes.map fun partition => ⟨topic.name, partition⟩

/-- `offset_fetch::response`. -/
def offsetFetchResponse (s : Coordinator) (request : OffsetFetchRequest) : OffsetFetchResponse :=
  ⟨0, 0, groupByTopic (s.fetchOffsets request.groupId (request.topics.map requestedKeys))⟩

/-! ### Writes -/

/-- A commit as a write of the store. -/
def OffsetCommit.write (commit : OffsetCommit) : TopicPartition × StoredOffset :=
  (⟨commit.topic, commit.partition⟩, ⟨commit.offset, commit.metadata⟩)

/-- What a step of the coordinator commits in a group: the entries of a `commit_offsets` that succeeds. -/
def committedBy (groupId : String) (e : CoordinatorEvent) : List OffsetCommit :=
  match e.label, e.out with
  | .commitOffsets groupId' _ _ offsets _, .commitOffsets (.ok ()) => if groupId' = groupId then offsets else []
  | _, _ => []

/-- The last entry for a key in the successful commits of a run. -/
def lastCommitted (groupId : String) (tr : List CoordinatorEvent) (key : TopicPartition) : Option StoredOffset :=
  lastFor ((tr.flatMap (committedBy groupId)).map OffsetCommit.write) key

/-- What is reported for a key. -/
def fetchedOffset (key : TopicPartition) (stored : Option StoredOffset) : FetchedOffset :=
  ⟨key.topic, key.partition, stored.map (·.offset), stored.bind (·.metadata)⟩

section
variable {group : Group} {clock : Clock}

theorem storeOffsets_lookup (group : Group) (offsets : List OffsetCommit) (key : TopicPartition) :
    (storeOffsets group offsets).committedOffsets.lookup key =
      (lastFor (offsets.map OffsetCommit.write) key).or (group.committedOffsets.lookup key) := by
  rw [← lookup_foldl_insert, List.foldl_map]
  rfl

/-! ### The sections write nothing else -/

theorem removeMembers_offsets (group : Group) (ids : List String) (begun : Nat) :
    (removeMembers group ids begun).committedOffsets = group.committedOffsets := by
  rcases removeMembers_cases group ids begun with ⟨-, h⟩ | ⟨leader, -, -, ⟨-, h⟩ | ⟨-, h⟩⟩ <;> rw [h]

theorem addMember_offsets (mayAddMember : Bool) (request : JoinRequest) :
    (addMember group mayAddMember request clock).committedOffsets = group.committedOffsets := by
  obtain ⟨leader, -, ⟨-, h⟩ | ⟨deadline, -, h, -⟩⟩ := addMember_cases group mayAddMember request clock <;> rw [h]

theorem expireStaleMembers_offsets (group : Group) (clock : Clock) (active : Option String) :
    (expireStaleMembers group clock active).committedOffsets = group.committedOffsets := by
  rcases expireStaleMembers_cases group clock active with h | ⟨ids, -, -, h⟩ <;> rw [h]
  exact removeMembers_offsets ..

theorem completeRebalanceIfReady_offsets (group : Group) (completed : Nat) :
    (completeRebalanceIfReady group completed).2.committedOffsets = group.committedOffsets := by
  rcases completeRebalanceIfReady_cases group completed with ⟨out, h, -⟩ | ⟨selected, -, -, h⟩ <;> rw [h]
  rfl

theorem clearRebalanceDeadline_offsets (group : Group) :
    (clearRebalanceDeadlineIfAllSynced group).committedOffsets = group.committedOffsets := by
  unfold clearRebalanceDeadlineIfAllSynced
  split <;> rfl

/-- A completion after an expiry pass. -/
theorem expire_complete_offsets (group : Group) (clock : Clock) (active : Option String) :
    (completeRebalanceIfReady (expireStaleMembers group clock active) clock.completed).2.committedOffsets =
      group.committedOffsets :=
  (completeRebalanceIfReady_offsets ..).trans (expireStaleMembers_offsets ..)

theorem enter_offsets (mayAddMember : Bool) (request : JoinRequest) :
    (enter group clock mayAddMember request).2.committedOffsets = group.committedOffsets := by
  have hexp := expireStaleMembers_offsets group clock none
  obtain ⟨body, rfl, ⟨error, h⟩ | ⟨result, -, h⟩ | ⟨selected, after, out, -, hcomplete, h⟩⟩ :=
    enter_cases group clock mayAddMember request
  · rw [h]; exact hexp
  · rw [h]; exact hexp
  · have := completeRebalanceIfReady_offsets (addMember (expireStaleMembers group clock none) mayAddMember request clock)
      clock.completed
    rw [hcomplete, addMember_offsets, hexp] at this
    rcases h with ⟨error, -, h⟩ | ⟨-, h⟩ <;> rw [h] <;> exact this

theorem wait_offsets (memberId : String) (target : Nat) :
    (wait group clock memberId target).2.committedOffsets = group.committedOffsets := by
  rcases wait_cases group clock memberId target with ⟨result, -, h⟩ | ⟨error, h⟩ | ⟨after, out, -, -, -, hcomplete, h⟩
  · rw [h]
  · rw [h]
  · have := expire_complete_offsets group clock (some memberId)
    rw [hcomplete] at this
    rcases h with ⟨error, -, h⟩ | ⟨result, -, h⟩ | ⟨-, -, h⟩ <;> rw [h] <;> exact this

theorem sync_offsets (generationId : Int) (memberId : String) (assignments : List SyncAssignment) (refresh : Bool) :
    (sync group clock generationId memberId assignments refresh).2.committedOffsets = group.committedOffsets := by
  have hexp := expireStaleMembers_offsets group clock (if refresh then none else some memberId)
  obtain ⟨body, rfl, ⟨error, -, h⟩ | ⟨touched, htouched, -, -, h⟩⟩ :=
    sync_cases group clock generationId memberId assignments refresh
  · rw [h]; exact hexp
  have htouch : touched.committedOffsets = group.committedOffsets := by
    rw [← htouched]
    cases refresh <;> exact hexp
  rcases h with ⟨-, h⟩ | ⟨-, h⟩ | ⟨-, -, -, h⟩ | ⟨-, -, -, h⟩ | ⟨-, -, h⟩ <;> rw [h]
  · exact (clearRebalanceDeadline_offsets _).trans htouch
  · exact htouch
  · exact htouch
  · exact (clearRebalanceDeadline_offsets _).trans htouch
  · exact htouch

theorem leave_offsets (memberId : String) :
    (leave group clock memberId).2.committedOffsets = group.committedOffsets := by
  have hexp := expireStaleMembers_offsets group clock none
  unfold leave
  dsimp only
  split
  · exact hexp
  have := completeRebalanceIfReady_offsets (removeMembers (expireStaleMembers group clock none) [memberId] clock.begun)
    clock.completed
  rw [removeMembers_offsets, hexp] at this
  split <;> rename_i heq <;> rwa [heq] at this

/-- Only a commit that succeeds writes. -/
theorem run_offsets (op : GroupOp) (hop : ∀ generationId memberId offsets, op ≠ .commitOffsets generationId memberId offsets) :
    (op.run group clock).2.committedOffsets = group.committedOffsets := by
  cases op with
  | enter mayAddMember request => exact enter_offsets ..
  | wait memberId targetEpoch => exact wait_offsets ..
  | sync generationId memberId assignments refresh => exact sync_offsets ..
  | heartbeat generationId memberId =>
    have hexp := expireStaleMembers_offsets group clock none
    simp only [GroupOp.run, heartbeat]
    split
    · exact hexp
    split <;> exact hexp
  | leave memberId => exact leave_offsets ..
  | commitOffsets generationId memberId offsets => exact absurd rfl (hop _ _ _)
  | describe groupId => exact expireStaleMembers_offsets ..
  | drive => exact expire_complete_offsets ..

theorem commitOffsets_offsets (group : Group) (clock : Clock) (generationId : Int) (memberId : String)
    (offsets : List OffsetCommit) :
    (commitOffsets group clock generationId memberId offsets).1 = .done ∧
      (∀ key, (commitOffsets group clock generationId memberId offsets).2.committedOffsets.lookup key =
        (lastFor (offsets.map OffsetCommit.write) key).or (group.committedOffsets.lookup key)) ∨
    (∃ error, (commitOffsets group clock generationId memberId offsets).1 = .failed error) ∧
      (commitOffsets group clock generationId memberId offsets).2.committedOffsets = group.committedOffsets := by
  have hexp := expireStaleMembers_offsets group clock none
  unfold commitOffsets
  dsimp only
  split
  · exact .inr ⟨⟨_, rfl⟩, hexp⟩
  split
  · exact .inr ⟨⟨_, rfl⟩, hexp⟩
  · refine .inl ⟨rfl, fun key => ?_⟩
    rw [storeOffsets_lookup, hexp]

end

/-! ### Runs -/

section
variable {s s' : Coordinator} {label : CoordinatorLabel} {answer : CoordinatorReply} {groupId : String}

/-- A section of a group that commits is the section of a commit. -/
theorem sectionFor_commit {generationId : Int} {memberId : String} {offsets : List OffsetCommit} {clock : Clock}
    (h : s.sectionFor groupId label = some (.commitOffsets generationId memberId offsets, clock)) :
    label = .commitOffsets groupId generationId memberId offsets clock := by
  obtain ⟨⟨groupId', op, clock'⟩, hsection, hif⟩ := Option.bind_eq_some_iff.1 h
  obtain ⟨⟨rfl, -⟩, heq⟩ := Option.ite_none_right_eq_some.1 hif
  cases heq
  unfold Coordinator.sectionOf at hsection
  split at hsection
  · split at hsection <;> cases hsection
  all_goals cases hsection
  rfl

/-- The reply to a commit says whether its section succeeded. -/
theorem committedBy_eq {e : CoordinatorEvent} (he : coordinator.Takes e) {generationId : Int} {memberId : String}
    {offsets : List OffsetCommit} {clock : Clock}
    (hsection : e.pre.sectionFor groupId e.label = some (.commitOffsets generationId memberId offsets, clock)) :
    committedBy groupId e = if (commitOffsets (e.pre.group groupId) clock generationId memberId offsets).1 = .done
      then offsets else [] := by
  have hlabel := sectionFor_commit hsection
  have hmem : groupId ∈ e.pre.groups := by
    obtain ⟨⟨groupId', op, clock'⟩, -, hif⟩ := Option.bind_eq_some_iff.1 hsection
    exact (Option.ite_none_right_eq_some.1 hif).1.2
  obtain ⟨pre, label, out, post⟩ := e
  obtain rfl : label = _ := hlabel
  have hturn : Turn pre (.commitOffsets groupId generationId memberId offsets clock) out post := step_turn he
  cases hturn with
  | commitOffsets turn =>
    cases turn with
    | missing missing => exact absurd hmem missing
    | done ran => exact (if_pos rfl).trans (if_pos (runSection_reply ran).symm).symm
    | fails ran =>
      refine (if_neg fun hdone => ?_).symm
      cases (runSection_reply ran).trans hdone

theorem committedBy_of_ne {e : CoordinatorEvent}
    (h : ∀ generationId memberId offsets clock, e.label ≠ .commitOffsets groupId generationId memberId offsets clock) :
    committedBy groupId e = [] := by
  unfold committedBy
  split
  · rename_i hlabel _
    refine if_neg ?_
    rintro rfl
    exact h _ _ _ _ hlabel
  · rfl

theorem mem_committedBy {e : CoordinatorEvent} {commit : OffsetCommit} (h : commit ∈ committedBy groupId e) :
    ∃ generationId memberId offsets clock, e.label = .commitOffsets groupId generationId memberId offsets clock ∧
      e.out = .commitOffsets (.ok ()) ∧ commit ∈ offsets := by
  unfold committedBy at h
  split at h
  · rename_i groupId' generationId memberId offsets clock hlabel hout
    split at h
    · subst groupId'
      exact ⟨generationId, memberId, offsets, clock, hlabel, hout, h⟩
    · cases h
  · cases h

/-- A step that runs no section of the group commits nothing there. -/
theorem committedBy_of_none {e : CoordinatorEvent} (he : coordinator.Takes e)
    (hnone : e.pre.sectionFor groupId e.label = none) : committedBy groupId e = [] := by
  by_cases h : ∃ generationId memberId offsets clock, e.label = .commitOffsets groupId generationId memberId offsets clock
  · obtain ⟨generationId, memberId, offsets, clock, hlabel⟩ := h
    obtain ⟨pre, label, out, post⟩ := e
    obtain rfl : label = _ := hlabel
    have hmissing : groupId ∉ pre.groups := by
      intro hmem
      exact absurd (hnone.symm.trans (if_pos ⟨rfl, hmem⟩)) (by simp)
    have hturn : Turn pre (.commitOffsets _ generationId memberId offsets clock) out post := step_turn he
    cases hturn with
    | commitOffsets turn =>
      cases turn with
      | missing missing => rfl
      | done ran => exact absurd (runSection_mem ran) hmissing
      | fails ran => exact absurd (runSection_mem ran) hmissing
  · push Not at h
    exact committedBy_of_ne h

/-- A step writes what it commits. -/
theorem step_offsets {e : CoordinatorEvent} (he : coordinator.Takes e) (groupId : String) (key : TopicPartition) :
    (e.post.group groupId).committedOffsets.lookup key =
      (lastFor ((committedBy groupId e).map OffsetCommit.write) key).or
        ((e.pre.group groupId).committedOffsets.lookup key) := by
  rcases step_sectionFor he groupId with ⟨hnone, heq⟩ | ⟨op, clock, reply, hsome, hstep⟩
  · rw [committedBy_of_none he hnone, Coordinator.group, Coordinator.group, heq]
    rfl
  · have hpost : e.post.group groupId = (op.run (e.pre.group groupId) clock).2 :=
      (groupMachine_takes (e := ⟨_, (op, clock), reply, _⟩) hstep).2.2.2.1
    rw [hpost]
    by_cases hop : ∃ generationId memberId offsets, op = .commitOffsets generationId memberId offsets
    · obtain ⟨generationId, memberId, offsets, rfl⟩ := hop
      rw [committedBy_eq he hsome]
      rcases commitOffsets_offsets (e.pre.group groupId) clock generationId memberId offsets with
        ⟨hdone, hlookup⟩ | ⟨⟨error, hfailed⟩, hsame⟩
      · rw [if_pos hdone]
        exact hlookup key
      · rw [if_neg (by rw [hfailed]; simp)]
        exact congrArg (fun offsets => offsets.lookup key) hsame
    · push Not at hop
      rw [run_offsets op hop, committedBy_of_ne]
      · rfl
      · intro generationId memberId offsets clock' hlabel
        obtain ⟨⟨groupId', op', clock''⟩, hsection, hif⟩ := Option.bind_eq_some_iff.1 hsome
        obtain ⟨-, heq⟩ := Option.ite_none_right_eq_some.1 hif
        rw [hlabel] at hsection
        cases hsection
        cases heq
        exact hop _ _ _ rfl

/-- The last write of a run is what the group holds. -/
theorem lookup_committedOffsets {tr : List CoordinatorEvent} (hrun : coordinator.Run tr s) (groupId : String)
    (key : TopicPartition) : (s.group groupId).committedOffsets.lookup key = lastCommitted groupId tr key := by
  refine Machine.Run.induction (M := coordinator)
    (P := fun tr s => (s.group groupId).committedOffsets.lookup key = lastCommitted groupId tr key) rfl ?_ hrun
  intro tr e _ ih he
  rw [step_offsets he, ih, lastCommitted, lastCommitted, List.flatMap_append, List.map_append, lastFor_append]
  simp

/-! ### Reads -/

theorem fetchOffsets_requested (s : Coordinator) (groupId : String) (requested : List TopicPartition) :
    (s.fetchOffsets groupId (some requested)).Perm
      (requested.map fun key => fetchedOffset key ((s.group groupId).committedOffsets.lookup key)) := by
  unfold Coordinator.fetchOffsets Coordinator.group Coordinator.timed
  cases s.groups.lookup groupId with
  | none => exact .refl _
  | some cell => exact List.perm_insertionSort _ _

theorem fetchOffsets_single (s : Coordinator) (groupId : String) (key : TopicPartition) :
    s.fetchOffsets groupId (some [key]) = [fetchedOffset key ((s.group groupId).committedOffsets.lookup key)] :=
  List.perm_singleton.1 (fetchOffsets_requested s groupId [key])

/-- The key that a reported offset is for. -/
def FetchedOffset.key (offset : FetchedOffset) : String ×ₗ Int := toLex (offset.topic, offset.partition)

theorem mem_fetchOffsets_none {offset : FetchedOffset} : offset ∈ s.fetchOffsets groupId none ↔
    ∃ key stored, (s.group groupId).committedOffsets.lookup key = some stored ∧
      offset = fetchedOffset key (some stored) := by
  unfold Coordinator.fetchOffsets Coordinator.group Coordinator.timed
  cases s.groups.lookup groupId with
  | none =>
    constructor
    · intro h
      cases h
    · rintro ⟨key, stored, h, -⟩
      cases h
  | some cell =>
    simp only [Coordinator.readOffsets, List.mem_insertionSort, List.mem_map]
    constructor
    · rintro ⟨e, he, rfl⟩
      exact ⟨e.1, e.2, lookup_eq_some_iff.2 he, rfl⟩
    · rintro ⟨key, stored, hl, rfl⟩
      exact ⟨⟨key, stored⟩, lookup_eq_some_iff.1 hl, rfl⟩

theorem fetchOffsets_none_sorted (s : Coordinator) (groupId : String) :
    (s.fetchOffsets groupId none).Pairwise fun left right => left.key < right.key := by
  unfold Coordinator.fetchOffsets
  cases s.groups.lookup groupId with
  | none => exact .nil
  | some cell =>
    refine pairwise_insertionSort_key (f := FetchedOffset.key) (fun left right => ?_) ?_
    · exact (Prod.Lex.le_iff (x := left.key) (y := right.key)).symm
    · rw [List.pairwise_map]
      refine (List.nodupKeys_iff_pairwise.1 cell.timed.group.committedOffsets.nodupKeys).imp ?_
      rintro ⟨⟨topic, partition⟩, stored⟩ ⟨⟨topic', partition'⟩, stored'⟩ hne heq
      obtain ⟨rfl, rfl⟩ := Prod.mk.inj (toLex.injective heq)
      exact hne rfl

/-! ### The response -/

/-- The entries of a response, with the topics they are listed under. -/
def OffsetFetchResponse.entries (response : OffsetFetchResponse) : List (String × OffsetFetchResponsePartition) :=
  response.topics.flatMap fun topic => topic.partitions.map fun partition => (topic.name, partition)

theorem groupByTopic_names (offsets : List FetchedOffset) :
    (groupByTopic offsets).map (·.name) =
      (sortedEntries (groupOn FetchedOffset.topic responsePartition offsets)).map Prod.fst := by
  rw [groupByTopic, List.map_map]
  rfl

theorem groupByTopic_names_sorted (offsets : List FetchedOffset) :
    ((groupByTopic offsets).map (·.name)).Pairwise (· < ·) := by
  rw [groupByTopic_names, List.pairwise_map]
  exact pairwise_sortedEntries _

theorem mem_groupByTopic_names {offsets : List FetchedOffset} {name : String} :
    name ∈ (groupByTopic offsets).map (·.name) ↔ ∃ offset ∈ offsets, offset.topic = name := by
  rw [groupByTopic_names]
  exact mem_keys_sorted_groupOn

theorem groupByTopic_entries (offsets : List FetchedOffset) :
    (OffsetFetchResponse.entries ⟨0, 0, groupByTopic offsets⟩).Perm
      (offsets.map fun offset => (offset.topic, responsePartition offset)) := by
  rw [OffsetFetchResponse.entries, groupByTopic, List.flatMap_map]
  exact flatMap_sorted_groupOn_perm

end

/-- The store of committed offsets. After every run, what is reported for a key is the last entry for it in the
successful commits of the group; a step changes it only as such a commit with an entry for the key; a read of all
offsets lists every committed key once, in order; and the response to an explicit list has each of its topics
once, in order, with exactly the pairs of the list. -/
theorem committed_offsets_are_last_writes (tr : List CoordinatorEvent) (s : Coordinator) (hrun : coordinator.Run tr s)
    (groupId : String) :
    (∀ requested, (s.fetchOffsets groupId (some requested)).Perm
      (requested.map fun key => fetchedOffset key (lastCommitted groupId tr key))) ∧
    (∀ e ∈ tr, ∀ key, e.post.fetchOffsets groupId (some [key]) ≠ e.pre.fetchOffsets groupId (some [key]) →
      ∃ generationId memberId offsets clock, e.label = .commitOffsets groupId generationId memberId offsets clock ∧
        e.out = .commitOffsets (.ok ()) ∧ ∃ commit ∈ offsets, (⟨commit.topic, commit.partition⟩ : TopicPartition) = key) ∧
    ((s.fetchOffsets groupId none).Pairwise fun left right => left.topic < right.topic ∨
      left.topic = right.topic ∧ left.partition < right.partition) ∧
    (∀ offset, offset ∈ s.fetchOffsets groupId none ↔
      ∃ key stored, lastCommitted groupId tr key = some stored ∧ offset = fetchedOffset key (some stored)) ∧
    ∀ topics, ∃ response, offsetFetchResponse s ⟨groupId, some topics⟩ = response ∧
      response.throttleTimeMs = 0 ∧ response.errorCode = 0 ∧ (response.topics.map (·.name)).Pairwise (· < ·) ∧
      (∀ name, name ∈ response.topics.map (·.name) ↔
        ∃ topic ∈ topics, topic.name = name ∧ topic.partitionIndexes ≠ []) ∧
      response.entries.Perm ((requestedKeys topics).map fun key =>
        (key.topic, ⟨key.partition, ((lastCommitted groupId tr key).map (·.offset)).getD (-1), -1,
          (lastCommitted groupId tr key).bind (·.metadata), 0⟩)) := by
  have hread : ∀ requested, (s.fetchOffsets groupId (some requested)).Perm
      (requested.map fun key => fetchedOffset key (lastCommitted groupId tr key)) := by
    intro requested
    simpa only [lookup_committedOffsets hrun] using fetchOffsets_requested s groupId requested
  refine ⟨hread, ?_, ?_, ?_, ?_⟩
  · intro e he key hchanged
    have hwritten : lastFor ((committedBy groupId e).map OffsetCommit.write) key ≠ none := by
      intro hnone
      refine hchanged ?_
      rw [fetchOffsets_single, fetchOffsets_single, step_offsets (hrun.2 e he), hnone, Option.none_or]
    rw [ne_eq, lastFor_eq_none] at hwritten
    push Not at hwritten
    obtain ⟨_, hwrite, hkey⟩ := hwritten
    obtain ⟨commit, hcommit, rfl⟩ := List.mem_map.1 hwrite
    obtain ⟨generationId, memberId, offsets, clock, hlabel, hout, hmem⟩ := mem_committedBy hcommit
    exact ⟨generationId, memberId, offsets, clock, hlabel, hout, commit, hmem, hkey⟩
  · refine (fetchOffsets_none_sorted s groupId).imp fun {left right} h => ?_
    exact (Prod.Lex.lt_iff (x := left.key) (y := right.key)).1 h
  · intro offset
    simp only [mem_fetchOffsets_none, lookup_committedOffsets hrun]
  · intro topics
    refine ⟨_, rfl, rfl, rfl, groupByTopic_names_sorted _, ?_, ?_⟩
    · intro name
      rw [offsetFetchResponse, mem_groupByTopic_names]
      constructor
      · rintro ⟨offset, hoffset, rfl⟩
        obtain ⟨key, hkey, rfl⟩ := List.mem_map.1 ((hread (requestedKeys topics)).mem_iff.1 hoffset)
        obtain ⟨topic, htopic, hlisted⟩ := List.mem_flatMap.1 hkey
        obtain ⟨partition, hpartition, rfl⟩ := List.mem_map.1 hlisted
        exact ⟨topic, htopic, rfl, List.ne_nil_of_mem hpartition⟩
      · rintro ⟨topic, htopic, rfl, hne⟩
        obtain ⟨partition, hpartition⟩ := List.exists_mem_of_ne_nil _ hne
        have hkey : (⟨topic.name, partition⟩ : TopicPartition) ∈ requestedKeys topics :=
          List.mem_flatMap.2 ⟨topic, htopic, List.mem_map.2 ⟨partition, hpartition, rfl⟩⟩
        exact ⟨_, (hread (requestedKeys topics)).mem_iff.2 (List.mem_map.2 ⟨_, hkey, rfl⟩), rfl⟩
    · refine (groupByTopic_entries _).trans (((hread (requestedKeys topics)).map _).trans (.of_eq ?_))
      rw [List.map_map]
      rfl

/-- Two commits of one request to the same key, after which the group is left by its members. -/
def sampleCommits : List CoordinatorLabel :=
  twoMembers ++ [.commitOffsets "g" 2 "a-1" [⟨"t", 1, 5, none⟩, ⟨"s", 0, 7, some "m"⟩, ⟨"t", 1, 6, none⟩] ⟨0, 0, 0⟩,
    .commitOffsets "g" 1 "a-1" [⟨"t", 1, 9, none⟩] ⟨0, 0, 0⟩, .leave "g" "a-1" ⟨0, 0, 0⟩, .leave "g" "b-2" ⟨0, 0, 0⟩]

theorem committed_offsets_are_last_writes_left_group : ∃ tr s, coordinator.exec .new sampleCommits = some (tr, s) ∧
    (s.group "g").state = .empty ∧ lastCommitted "g" tr ⟨"t", 1⟩ = some ⟨6, none⟩ ∧
    s.fetchOffsets "g" (some [⟨"t", 1⟩]) = [⟨"t", 1, some 6, none⟩] ∧
    (offsetFetchResponse s ⟨"g", some [⟨"t", [1, 1]⟩, ⟨"s", [0]⟩, ⟨"t", [2]⟩]⟩).entries.Perm
      [("t", ⟨1, 6, -1, none, 0⟩), ("t", ⟨1, 6, -1, none, 0⟩), ("s", ⟨0, 7, -1, some "m", 0⟩), ("t", ⟨2, -1, -1, none, 0⟩)] := by
  have hsome : ((coordinator.exec .new sampleCommits).map fun r => ((r.2.group "g").state,
      lastCommitted "g" r.1 ⟨"t", 1⟩, lastCommitted "g" r.1 ⟨"s", 0⟩, lastCommitted "g" r.1 ⟨"t", 2⟩)) =
      some (.empty, some ⟨6, none⟩, some ⟨7, some "m"⟩, none) := by decide +kernel
  obtain ⟨⟨tr, s⟩, hx, hmap⟩ := Option.map_eq_some_iff.1 hsome
  simp only [Prod.mk.injEq] at hmap
  obtain ⟨hstate, ht, hs, hnone⟩ := hmap
  obtain ⟨hread, -, -, -, hresponse⟩ :=
    committed_offsets_are_last_writes tr s (Machine.exec_path hx).1 "g"
  refine ⟨tr, s, hx, hstate, ht, ?_, ?_⟩
  · have hfetched := List.perm_singleton.1 (hread [⟨"t", 1⟩])
    simp only [ht] at hfetched
    exact hfetched
  · obtain ⟨response, rfl, -, -, -, -, hentries⟩ := hresponse [⟨"t", [1, 1]⟩, ⟨"s", [0]⟩, ⟨"t", [2]⟩]
    have hkeys : requestedKeys [⟨"t", [1, 1]⟩, ⟨"s", [0]⟩, ⟨"t", [2]⟩] = [⟨"t", 1⟩, ⟨"t", 1⟩, ⟨"s", 0⟩, ⟨"t", 2⟩] := rfl
    rw [hkeys] at hentries
    simp only [List.map_cons, List.map_nil, ht, hs, hnone] at hentries
    exact hentries

end MemKafka
