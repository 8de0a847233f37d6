import MemKafka.CoordinatorSteps

/-!
# Agreement on generations and assignments

What the members of a group learn from the coordinator. All joins of one generation report the
completion that started it, and all syncs of one generation hand out one accepted submission of its
leader. Both follow from `History`: a call returns what is in the group when its section ends.
-/

namespace MemKafka
open Kit Relation

/-- Every group of a run satisfies the representation invariant, as long as its generation can still grow. -/
theorem GroupInv.of_coordinator {tr : List CoordinatorEvent} {s : Coordinator} (h : coordinator.Run tr s)
    (groupId : String) (hgen : (s.group groupId).generationId < i32Max) :
    GroupInv (s.group groupId) ∧ History (groupEvents groupId tr) (s.group groupId) :=
  History.of_run (coordinator_groupRun h groupId) hgen

theorem GroupInv.completes {group body : Group} {clock : Clock} (h : GroupInv group)
    (path : ReflTransGen (Steady clock) group body) (completed : Nat) (error : GroupError) :
    (completeRebalanceIfReady body completed).1 ≠ .error error := by
  have inv := h.of_path path
  rcases completeRebalanceIfReady_cases body completed with ⟨out, heq, hout⟩ | ⟨selected, -, -, heq⟩
  · rw [heq]
    rcases hout with ⟨rfl, -⟩ | ⟨error', rfl, hselect⟩
    · simp
    · -- without members the rebalance is not even ready
      unfold completeRebalanceIfReady at heq
      split at heq
      · cases heq
      · rename_i hready
        obtain ⟨selected, hs⟩ := inv.select (ready_iff.1 (by simpa using hready)).2.1
        rw [hs] at hselect; cases hselect
  · rw [heq]; simp

/-- A join of group `g`. -/
def sampleJoin (memberId clientId : String) : JoinRequest :=
  ⟨"g", memberId, clientId, 10, 10, "consumer", [⟨"range", [1]⟩]⟩

/-- Two members of one group. The second one joins when the generation of the first is complete and sleeps until the
first has joined again; its sync sleeps until the leader has sent the assignments. -/
def twoMembers : List CoordinatorLabel :=
  let clock : Clock := ⟨0, 0, 0⟩
  [.join 0 (sampleJoin "" "a") false, .resume 0 clock, .resume 0 clock, .resume 0 clock, .resume 0 clock,
    .join 1 (sampleJoin "" "b") false, .resume 1 clock, .resume 1 clock, .resume 1 clock, .resume 1 clock,
    .drive "g" clock,
    .join 2 (sampleJoin "a-1" "a") false, .resume 2 clock, .resume 2 clock, .resume 2 clock, .resume 2 clock,
    .resume 2 clock,
    .resume 2 clock, .resume 1 clock,
    .sync 3 ⟨"g", 2, "b-2", []⟩, .resume 3 clock, .sync 4 ⟨"g", 2, "a-1", [⟨"a-1", [1]⟩, ⟨"b-2", [2]⟩]⟩,
    .resume 4 clock,
    .resume 3 clock, .heartbeat "g" 2 "b-2" clock]

theorem twoMembers_run : ∃ tr s, coordinator.exec .new twoMembers = some (tr, s) ∧ coordinator.Run tr s ∧
    (s.group "g").state = .stable ∧ (s.group "g").generationId = 2 ∧
    (tr.map Event.out).filter (· ≠ .progress) =
      [.join (sampleJoin "a-1" "a") (.ok (.joined ⟨1, "consumer", "range", "a-1", "a-1", [⟨"a-1", [1]⟩]⟩)),
        .join (sampleJoin "a-1" "a") (.ok (.joined ⟨2, "consumer", "range", "a-1", "a-1", [⟨"a-1", [1]⟩, ⟨"b-2", [1]⟩]⟩)),
        .join (sampleJoin "b-2" "b") (.ok (.joined ⟨2, "consumer", "range", "a-1", "b-2", []⟩)),
        .sync ⟨"g", 2, "a-1", [⟨"a-1", [1]⟩, ⟨"b-2", [2]⟩]⟩ (.ok [1]), .sync ⟨"g", 2, "b-2", []⟩ (.ok [2]), .heartbeat (.ok ())] := by
  have hsome : ((coordinator.exec .new twoMembers).map fun r => ((r.2.group "g").state, (r.2.group "g").generationId,
      (r.1.map Event.out).filter (· ≠ .progress))) = some (.stable, 2,
      [.join (sampleJoin "a-1" "a") (.ok (.joined ⟨1, "consumer", "range", "a-1", "a-1", [⟨"a-1", [1]⟩]⟩)),
        .join (sampleJoin "a-1" "a") (.ok (.joined ⟨2, "consumer", "range", "a-1", "a-1", [⟨"a-1", [1]⟩, ⟨"b-2", [1]⟩]⟩)),
        .join (sampleJoin "b-2" "b") (.ok (.joined ⟨2, "consumer", "range", "a-1", "b-2", []⟩)),
        .sync ⟨"g", 2, "a-1", [⟨"a-1", [1]⟩, ⟨"b-2", [2]⟩]⟩ (.ok [1]), .sync ⟨"g", 2, "b-2", []⟩ (.ok [2]),
        .heartbeat (.ok ())]) := by decide +kernel
  obtain ⟨⟨tr, s⟩, hx, hmap⟩ := Option.map_eq_some_iff.1 hsome
  simp only [Prod.mk.injEq] at hmap
  exact ⟨tr, s, hx, (Machine.exec_path hx).1, hmap⟩

/-- A reply of a run is the reply of one of its steps. -/
theorem exists_event_of_reply {tr : List CoordinatorEvent} {outs : List CoordinatorReply} {reply : CoordinatorReply}
    (h : (tr.map Event.out).filter (· ≠ .progress) = outs) (hreply : reply ∈ outs) : ∃ e ∈ tr, e.out = reply := by
  rw [← h] at hreply
  exact List.mem_map.1 (List.mem_of_mem_filter hreply)

/-- The representation invariant of groups: it holds of every group at every release of its lock, and
inside every section the completion of a rebalance finds a protocol. -/
theorem groups_stay_well_formed (tr : List CoordinatorEvent) (s : Coordinator) (hrun : coordinator.Run tr s)
    (groupId : String) (hgen : (s.group groupId).generationId < i32Max) :
    GroupInv (s.group groupId) ∧
    ((s.group groupId).members ≠ ∅ → ∃ selected, selectProtocol (s.group groupId).members = .ok selected) ∧
    ∀ clock body, ReflTransGen (Steady clock) (s.group groupId) body →
      ∀ completed error, (completeRebalanceIfReady body completed).1 ≠ .error error := by
  obtain ⟨inv, -⟩ := GroupInv.of_coordinator hrun groupId hgen
  exact ⟨inv, inv.select, fun _ _ path completed error => inv.completes path completed error⟩

theorem groups_stay_well_formed_two_members :
    ∃ tr s, coordinator.exec .new twoMembers = some (tr, s) ∧ (s.group "g").state = .stable ∧
      GroupInv (s.group "g") := by
  obtain ⟨tr, s, hx, hrun, hstate, hgen, -⟩ := twoMembers_run
  exact ⟨tr, s, hx, hstate, (groups_stay_well_formed tr s hrun "g" (by rw [hgen]; decide)).1⟩

/-! ### What a call returns -/

section
variable {group : Group} {clock : Clock}

/-- A join returns a completed join of its member. -/
theorem run_joined {op : GroupOp} {id : String} {result : JoinedGroup}
    (hop : (∃ mayAddMember request, op = .enter mayAddMember request ∧ request.memberId = id) ∨ ∃ target, op = .wait id target)
    (h : (op.run group clock).1 = .joined result) :
    ∃ member epoch, (op.run group clock).2.members.lookup id = some member ∧
      member.completedJoin = some ⟨epoch, result⟩ := by
  rcases hop with ⟨mayAddMember, request, rfl, rfl⟩ | ⟨target, rfl⟩
  · simp only [GroupOp.run] at h ⊢
    obtain ⟨body, -, ⟨error, heq⟩ | ⟨cached, hcached, heq⟩ | ⟨selected, after, out, -, -, ⟨error, -, heq⟩ | ⟨-, heq⟩⟩⟩ :=
      enter_cases group clock mayAddMember request
    all_goals rw [heq] at h
    all_goals cases h
    obtain ⟨-, member, hl, hj⟩ := cachedJoin_eq_some hcached
    rw [heq]
    refine ⟨{ member with lastHeartbeat := clock.now }, _, ?_, hj⟩
    rw [touchMember, lookup_update_map, hl, Option.map_some, if_pos rfl]
  · simp only [GroupOp.run] at h ⊢
    have found : ∀ {after}, completedJoin after id target = some result →
        ∃ member epoch, after.members.lookup id = some member ∧ member.completedJoin = some ⟨epoch, result⟩ := by
      intro after hfound
      obtain ⟨member, hl, hj⟩ := completedJoin_eq_some.1 hfound
      exact ⟨member, target, hl, hj⟩
    rcases wait_cases group clock id target with ⟨result', hfound, heq⟩ | ⟨error, heq⟩ | ⟨after, out, -, -, -, -,
      ⟨error, -, heq⟩ | ⟨result', hfound, heq⟩ | ⟨-, -, heq⟩⟩
    all_goals rw [heq] at h
    all_goals cases h
    all_goals rw [heq]
    · exact found hfound
    · exact found hfound

/-- A sync returns the caller's own entry of a stable group of its generation. -/
theorem run_assigned {generationId : Int} {memberId : String} {assignments : List SyncAssignment}
    {refresh : Bool} {bytes : Bytes}
    (h : ((GroupOp.sync generationId memberId assignments refresh).run group clock).1 = .assigned bytes) :
    ∃ after, ((GroupOp.sync generationId memberId assignments refresh).run group clock).2 = after ∧
      after.state = .stable ∧
      after.generationId = generationId ∧ memberId ∈ after.members ∧
      after.assignments.lookup memberId = some bytes := by
  have own : ∀ {after : Group}, ownAssignment after memberId = .assigned bytes →
      after.assignments.lookup memberId = some bytes := by
    intro after hown
    unfold ownAssignment at hown
    split at hown <;> cases hown
    assumption
  simp only [GroupOp.run] at h ⊢
  refine ⟨_, rfl, ?_⟩
  obtain ⟨body, -, ⟨error, -, heq⟩ | ⟨touched, htouched, hmem, hgen, heq⟩⟩ :=
    sync_cases group clock generationId memberId assignments refresh
  · rw [heq] at h; cases h
  obtain ⟨-, hmem', hgen'⟩ := touched_steady htouched hmem
  obtain rfl : touched.generationId = generationId := hgen'.trans hgen
  rcases heq with ⟨hstate, heq⟩ | ⟨-, heq⟩ | ⟨-, -, -, heq⟩ | ⟨hstate, rfl, -, heq⟩ | ⟨-, -, heq⟩
  all_goals rw [heq] at h
  all_goals try cases h
  · obtain ⟨deadline, hclear, -⟩ := clearRebalanceDeadline_eq (markSynced touched memberId touched.generationId)
    have hown := own h
    simp only [syncStable, hclear] at hown
    rw [heq]
    simp only [syncStable, hclear]
    exact ⟨hstate, rfl, mem_update.2 hmem', hown⟩
  · obtain ⟨members, deadline, hinstall, hm, -⟩ := installAssignments_eq touched assignments clock.now
    have hown := own h
    rw [hinstall] at hown
    rw [heq, hinstall]
    exact ⟨rfl, rfl, (mem_map_iff hm).2 hmem', hown⟩

/-- The fallback for a missing assignment: in a stable group there is none. -/
theorem run_sync_failed {generationId : Int} {memberId : String} {assignments : List SyncAssignment} {refresh : Bool}
    (inv : GroupInv ((GroupOp.sync generationId memberId assignments refresh).run group clock).2)
    (h : ((GroupOp.sync generationId memberId assignments refresh).run group clock).1 = .failed .rebalanceInProgress) :
    ((GroupOp.sync generationId memberId assignments refresh).run group clock).2.state ≠ .stable := by
  have own : ∀ {after : Group}, GroupInv after → after.state = .stable → memberId ∈ after.members →
      ownAssignment after memberId ≠ .failed .rebalanceInProgress := by
    intro after inv hstate hmem hown
    obtain ⟨bytes, hb⟩ := mem_iff_lookup.1 ((inv.assigned hstate memberId).2 hmem)
    rw [ownAssignment, hb] at hown
    cases hown
  simp only [GroupOp.run] at inv h ⊢
  intro hstable
  obtain ⟨body, -, ⟨error, hvalid, heq⟩ | ⟨touched, htouched, hmem, hgen, heq⟩⟩ :=
    sync_cases group clock generationId memberId assignments refresh
  · rw [heq] at h
    cases h
    unfold validateMemberAndGeneration at hvalid
    split at hvalid
    · cases hvalid
    · split at hvalid <;> cases hvalid
  obtain ⟨-, hmem', hgen'⟩ := touched_steady htouched hmem
  obtain rfl : touched.generationId = generationId := hgen'.trans hgen
  rcases heq with ⟨hstate, heq⟩ | ⟨hstate, heq⟩ | ⟨-, -, -, heq⟩ | ⟨hstate, rfl, -, heq⟩ | ⟨-, -, heq⟩
  all_goals rw [heq] at h hstable inv
  · refine own inv hstable ?_ h
    obtain ⟨deadline, hclear, -⟩ := clearRebalanceDeadline_eq (markSynced touched memberId touched.generationId)
    simp only [syncStable, hclear]
    exact mem_update.2 hmem'
  · exact hstate (.inr hstable)
  · cases h
  · refine own inv hstable ?_ h
    obtain ⟨members, deadline, hinstall, hm, -⟩ := installAssignments_eq touched assignments clock.now
    rw [hinstall]
    exact (mem_map_iff hm).2 hmem'
  · cases h

end

/-! ### The members a leader is told of -/

section
variable {cohort : Group}

theorem mem_membersForLeader {joined : JoinedMember} : joined ∈ membersForLeader cohort ↔
    ∃ member protocol, cohort.members.lookup joined.memberId = some member ∧
      member.protocols.find? (·.name = cohort.selectedProtocol) = some protocol ∧
      joined.metadata = protocol.metadata := by
  rw [membersForLeader, List.mem_insertionSort, List.mem_filterMap]
  constructor
  · rintro ⟨e, he, h⟩
    obtain ⟨protocol, hp, rfl⟩ := Option.map_eq_some_iff.1 h
    exact ⟨e.2, protocol, lookup_eq_some_iff.2 he, hp, rfl⟩
  · rintro ⟨member, protocol, hl, hp, hm⟩
    exact ⟨⟨joined.memberId, member⟩, lookup_eq_some_iff.1 hl, by rw [hp, Option.map_some, ← hm]⟩

/-- The list of a leader is sorted by id and names nobody twice. -/
theorem membersForLeader_sorted (cohort : Group) :
    (membersForLeader cohort).Pairwise fun a b => a.memberId < b.memberId := by
  have hkeys := List.nodupKeys_iff_pairwise.1 cohort.members.nodupKeys
  rw [membersForLeader]
  refine pairwise_insertionSort_key (fun _ _ => Iff.rfl) ?_
  rw [List.pairwise_filterMap]
  refine hkeys.imp fun {a b} hne joined hjoined joined' hjoined' => ?_
  obtain ⟨protocol, -, rfl⟩ := Option.map_eq_some_iff.1 hjoined
  obtain ⟨protocol', -, rfl⟩ := Option.map_eq_some_iff.1 hjoined'
  exact hne

/-- Everybody advertises the selected protocol, so that nobody is left out. -/
theorem IsCohort.mem_membersForLeader_iff (h : IsCohort cohort) (id : String) :
    id ∈ (membersForLeader cohort).map (·.memberId) ↔ id ∈ cohort.members := by
  rw [List.mem_map]
  constructor
  · rintro ⟨joined, hj, rfl⟩
    obtain ⟨member, -, hl, -⟩ := mem_membersForLeader.1 hj
    exact mem_iff_lookup.2 ⟨member, hl⟩
  · intro hid
    obtain ⟨member, hl⟩ := mem_iff_lookup.1 hid
    obtain ⟨protocol, hp⟩ := Option.isSome_iff_exists.1 (List.find?_isSome.2 (List.any_eq_true.1 (h.advertised id member hl)))
    exact ⟨⟨id, protocol.metadata⟩, mem_membersForLeader.2 ⟨member, protocol, hl, hp, rfl⟩, rfl⟩

end

/-! ### Joins -/

section
variable {tr : List CoordinatorEvent} {s : Coordinator} {e : CoordinatorEvent}

/-- A step that ran a section of a group, with what the call returned. -/
theorem event_of_answer (h : coordinator.Takes e)
    (hnot : ¬ ((∀ request result, e.out ≠ .join request (.ok (.joined result))) ∧ ∀ request bytes, e.out ≠ .sync request (.ok bytes))) :
    ∃ groupId op clock, e.pre.sectionFor groupId e.label = some (op, clock) ∧
      Answers groupId op (op.run (e.pre.group groupId) clock).1 e.out ∧
      (e.post.group groupId) = (op.run (e.pre.group groupId) clock).2 := by
  rcases step_cases h with ⟨hidle, -⟩ | ⟨groupId, op, clock, hsection, cell, timed, reply, driver, hl, hs, hgroups, -, -, ha⟩
  · exact absurd ⟨hidle.noJoin, hidle.noSync⟩ hnot
  · have hpre : e.pre.timed groupId = cell.timed := timed_of_lookup hl
    have hpost : e.post.timed groupId = timed :=
      timed_of_lookup (show e.post.groups.lookup groupId = some ⟨timed, driver⟩ by rw [hgroups, lookup_insert_eq, if_pos rfl])
    have htakes := groupMachine_takes (e := ⟨cell.timed, (op, clock), reply, timed⟩) hs
    refine ⟨groupId, op, clock, ?_, ?_, ?_⟩
    · rw [Coordinator.sectionFor, hsection]
      exact if_pos ⟨rfl, mem_iff_lookup.2 ⟨cell, hl⟩⟩
    · rw [Coordinator.group, hpre, ← htakes.2.2.1]; exact ha
    · rw [Coordinator.group, Coordinator.group, hpre, hpost]; exact htakes.2.2.2.1

theorem takes_generation_le (he : coordinator.Takes e) (groupId : String) :
    (e.pre.group groupId).generationId ≤ (e.post.group groupId).generationId := by
  rcases step_sectionFor he groupId with ⟨-, heq⟩ | ⟨op, clock, reply, -, hs⟩
  · exact le_of_eq (by rw [Coordinator.group, Coordinator.group, heq])
  · exact (groupMachine_section (e := ⟨e.pre.timed groupId, (op, clock), reply, e.post.timed groupId⟩) hs).generation_le

theorem generation_le_of_mem (hrun : coordinator.Run tr s) (he : e ∈ tr) (groupId : String) :
    (e.post.group groupId).generationId ≤ (s.group groupId).generationId := by
  obtain ⟨before, after, rfl⟩ := List.append_of_mem he
  obtain ⟨-, -, hpath⟩ := hrun.split
  exact Machine.Path.invariant (M := coordinator) (P := fun s => (e.post.group groupId).generationId ≤ (s.group groupId).generationId)
    (fun f hf hle => hle.trans (takes_generation_le hf groupId)) le_rfl hpath

/-- The history of a group up to a step of the run. -/
theorem history_at (hrun : coordinator.Run tr s) (he : e ∈ tr) (groupId : String)
    (hgen : (s.group groupId).generationId < i32Max) :
    GroupInv (e.post.group groupId) ∧
      ∃ tr₁ tr₂, groupEvents groupId tr = tr₁ ++ tr₂ ∧ History tr₁ (e.post.group groupId) := by
  have hle := generation_le_of_mem hrun he groupId
  obtain ⟨before, after, rfl⟩ := List.append_of_mem he
  obtain ⟨hbefore, htakes, -⟩ := hrun.split
  obtain ⟨inv, hist⟩ := GroupInv.of_coordinator (Machine.Run.snoc hbefore htakes) groupId (lt_of_le_of_lt hle hgen)
  refine ⟨inv, _, groupEvents groupId after, ?_, hist⟩
  rw [groupEvents, groupEvents, groupEvents, ← List.filterMap_append, List.append_assoc, List.singleton_append]

theorem completionOf_append {g : Int} {tr₁ tr₂ : List GroupEvent} {cohort : Group}
    (h : completionOf g tr₁ = some cohort) :
    completionOf g (tr₁ ++ tr₂) = some cohort := by
  rw [completionOf, List.findSome?_append]
  exact Option.or_eq_some_iff.2 (.inl h)

theorem submissionOf_append {g : Int} {tr₁ tr₂ : List GroupEvent} {submission : String × List SyncAssignment}
    (h : submissionOf g tr₁ = some submission) : submissionOf g (tr₁ ++ tr₂) = some submission := by
  rw [submissionOf, List.findSome?_append]
  exact Option.or_eq_some_iff.2 (.inl h)

/-- What a join of a run returned is what the completion of its generation gave to its member. -/
theorem joined_agrees (hrun : coordinator.Run tr s) (he : e ∈ tr) {request : JoinRequest} {result : JoinedGroup}
    (hout : e.out = .join request (.ok (.joined result)))
    (hgen : (s.group request.groupId).generationId < i32Max) :
    ∃ cohort, completionOf result.generationId (groupEvents request.groupId tr) = some cohort ∧ IsCohort cohort ∧
      Agrees cohort request.memberId result := by
  obtain ⟨groupId, op, clock, -, ha, hpost⟩ := event_of_answer (hrun.2 e he) (fun h => h.1 _ _ hout)
  obtain ⟨rfl, hreply, hop⟩ := ha.join request result hout
  obtain ⟨-, tr₁, tr₂, htr, hist⟩ := history_at hrun he request.groupId hgen
  have hcaller : (∃ mayAddMember request', op = .enter mayAddMember request' ∧ request'.memberId = request.memberId) ∨
      ∃ target, op = .wait request.memberId target :=
    hop.imp_left fun ⟨mayAddMember, hop⟩ => ⟨mayAddMember, request, hop, rfl⟩
  obtain ⟨member, epoch, hl, hj⟩ := run_joined hcaller hreply
  rw [← hpost] at hl
  obtain ⟨cohort, hc, hagrees⟩ := hist.joins _ member _ hl hj
  exact ⟨cohort, by rw [htr]; exact completionOf_append hc, (hist.past _ cohort hc).2, hagrees⟩

end

/-- Join agreement. Two joins of a group that return the same generation report the same leader and
protocol; each reports the completion of that generation, whose members all advertise the protocol and
include the caller; and the leader alone is told the members, all of them, sorted, with their metadata. -/
theorem joins_agree_on_generation (tr : List CoordinatorEvent) (s : Coordinator) (hrun : coordinator.Run tr s)
    (groupId : String) (hgen : (s.group groupId).generationId < i32Max) :
    (∀ e₁ ∈ tr, ∀ e₂ ∈ tr, ∀ request₁ result₁ request₂ result₂,
      e₁.out = .join request₁ (.ok (.joined result₁)) → e₂.out = .join request₂ (.ok (.joined result₂)) →
      request₁.groupId = groupId → request₂.groupId = groupId → result₁.generationId = result₂.generationId →
      result₁.leader = result₂.leader ∧ result₁.protocolType = result₂.protocolType ∧
        result₁.protocolName = result₂.protocolName) ∧
    ∀ e ∈ tr, ∀ request result, e.out = .join request (.ok (.joined result)) → request.groupId = groupId →
      ∃ cohort, completionOf result.generationId (groupEvents groupId tr) = some cohort ∧
        result.memberId = request.memberId ∧ request.memberId ∈ cohort.members ∧
        result.leader = cohort.leaderMemberId ∧ result.protocolType = cohort.protocolType ∧
        (∀ id member, cohort.members.lookup id = some member → member.advertises result.protocolName = true) ∧
        (result.memberId ≠ result.leader → result.members = []) ∧
        (result.memberId = result.leader → result.members ≠ [] ∧
          (result.members.Pairwise fun a b => a.memberId < b.memberId) ∧
          (∀ id, id ∈ result.members.map (·.memberId) ↔ id ∈ cohort.members) ∧
          ∀ joined ∈ result.members, ∃ member protocol, cohort.members.lookup joined.memberId = some member ∧
            member.protocols.find? (·.name = result.protocolName) = some protocol ∧
            joined.metadata = protocol.metadata) := by
  refine ⟨?_, ?_⟩
  · rintro e₁ he₁ e₂ he₂ request₁ result₁ request₂ result₂ hout₁ hout₂ rfl hgroup hsame
    obtain ⟨cohort₁, hc₁, -, ha₁⟩ := joined_agrees hrun he₁ hout₁ hgen
    obtain ⟨cohort₂, hc₂, -, ha₂⟩ := joined_agrees hrun he₂ hout₂ (by rw [hgroup]; exact hgen)
    rw [hgroup, ← hsame, hc₁] at hc₂
    obtain rfl := Option.some.inj hc₂
    exact ⟨ha₁.leader.trans ha₂.leader.symm, ha₁.protocolType.trans ha₂.protocolType.symm,
      ha₁.protocolName.trans ha₂.protocolName.symm⟩
  · rintro e he request result hout rfl
    obtain ⟨cohort, hc, hcohort, ha⟩ := joined_agrees hrun he hout hgen
    refine ⟨cohort, hc, ha.memberId, ha.mem, ha.leader, ha.protocolType, ?_, ?_, ?_⟩
    · rw [ha.protocolName]; exact hcohort.advertised
    · intro hne
      rw [ha.memberId, ha.leader] at hne
      rw [ha.members, if_neg hne]
    · intro heq
      rw [ha.memberId, ha.leader] at heq
      rw [ha.members, if_pos heq, ha.protocolName]
      refine ⟨fun hnil => ?_, membersForLeader_sorted cohort, hcohort.mem_membersForLeader_iff,
        fun joined hj => mem_membersForLeader.1 hj⟩
      have := (hcohort.mem_membersForLeader_iff _).2 ha.mem
      rw [hnil] at this
      cases this

theorem joins_agree_on_generation_two_members : ∃ tr s cohort, coordinator.exec .new twoMembers = some (tr, s) ∧
    completionOf 2 (groupEvents "g" tr) = some cohort ∧ "a-1" ∈ cohort.members ∧ "b-2" ∈ cohort.members ∧
    cohort.leaderMemberId = "a-1" := by
  obtain ⟨tr, s, hx, hrun, -, hgen, houts⟩ := twoMembers_run
  obtain ⟨e₁, he₁, hout₁⟩ := exists_event_of_reply houts (List.mem_of_getElem? (i := 1) rfl)
  obtain ⟨e₂, he₂, hout₂⟩ := exists_event_of_reply houts (List.mem_of_getElem? (i := 2) rfl)
  obtain ⟨-, h⟩ := joins_agree_on_generation tr s hrun "g" (by rw [hgen]; decide)
  obtain ⟨cohort, hcohort, -, hmem₁, hleader, -⟩ := h e₁ he₁ _ _ hout₁ rfl
  obtain ⟨cohort', hcohort', -, hmem₂, -⟩ := h e₂ he₂ _ _ hout₂ rfl
  obtain rfl : cohort = cohort' := Option.some.inj (hcohort.symm.trans hcohort')
  exact ⟨tr, s, cohort, hx, hcohort, hmem₁, hmem₂, hleader.symm⟩

/-! ### Syncs -/

section
variable {tr : List CoordinatorEvent} {s : Coordinator} {e : CoordinatorEvent}

theorem synced_agrees (hrun : coordinator.Run tr s) (he : e ∈ tr) {request : SyncRequest} {bytes : Bytes}
    (hout : e.out = .sync request (.ok bytes)) (hgen : (s.group request.groupId).generationId < i32Max) :
    ∃ leader submission cohort, submissionOf request.generationId (groupEvents request.groupId tr) = some (leader, submission) ∧
      completionOf request.generationId (groupEvents request.groupId tr) = some cohort ∧
      leader = cohort.leaderMemberId ∧
      (submission.map (·.memberId)).Nodup ∧ (∀ id, id ∈ submission.map (·.memberId) ↔ id ∈ cohort.members) ∧
      ⟨request.memberId, bytes⟩ ∈ submission := by
  obtain ⟨groupId, op, clock, -, ha, hpost⟩ := event_of_answer (hrun.2 e he) (fun h => h.2 _ _ hout)
  obtain ⟨rfl, hreply, refresh, rfl⟩ := ha.sync request bytes hout
  obtain ⟨-, tr₁, tr₂, htr, hist⟩ := history_at hrun he request.groupId hgen
  obtain ⟨after, hafter, hstable, hg, -, hb⟩ := run_assigned hreply
  rw [← hpost] at hafter
  subst hafter
  obtain ⟨leader, submission, hsub, hmap⟩ := hist.installed hstable
  rw [hg] at hsub
  obtain ⟨-, -, cohort, hc, hleader, hnodup, hnames⟩ := hist.submitted _ leader submission hsub
  exact ⟨leader, submission, cohort, by rw [htr]; exact submissionOf_append hsub, by rw [htr]; exact completionOf_append hc,
    hleader, hnodup, hnames, (hmap _ _).1 hb⟩

end

/-- Assignment agreement. All successful syncs of a generation hand out one submission, that of its
leader, which names every member of the cohort once and nobody else, and each caller gets its own entry.
While the group is stable its assignments are that submission and outside that state there are none; and
no sync of a stable group fails for want of an assignment. -/
theorem syncs_agree_on_assignment (tr : List CoordinatorEvent) (s : Coordinator) (hrun : coordinator.Run tr s)
    (groupId : String) (hgen : (s.group groupId).generationId < i32Max) :
    (∀ e ∈ tr, ∀ request bytes, e.out = .sync request (.ok bytes) → request.groupId = groupId →
      ∃ leader submission cohort, submissionOf request.generationId (groupEvents groupId tr) = some (leader, submission) ∧
        completionOf request.generationId (groupEvents groupId tr) = some cohort ∧ leader = cohort.leaderMemberId ∧
        (submission.map (·.memberId)).Nodup ∧ (∀ id, id ∈ submission.map (·.memberId) ↔ id ∈ cohort.members) ∧
        ⟨request.memberId, bytes⟩ ∈ submission) ∧
    (∀ e ∈ tr, ((e.post.group groupId).state = .stable → ∃ leader submission,
        submissionOf (e.post.group groupId).generationId (groupEvents groupId tr) = some (leader, submission) ∧
        ∀ id bytes, (e.post.group groupId).assignments.lookup id = some bytes ↔ ⟨id, bytes⟩ ∈ submission) ∧
      ((e.post.group groupId).state ≠ .stable → (e.post.group groupId).assignments = ∅)) ∧
    ∀ e ∈ groupEvents groupId tr, ∀ generationId memberId assignments refresh,
      e.label.1 = .sync generationId memberId assignments refresh → e.out = .failed .rebalanceInProgress →
      e.post.group.state ≠ .stable := by
  refine ⟨?_, ?_, ?_⟩
  · rintro e he request bytes hout rfl
    exact synced_agrees hrun he hout hgen
  · intro e he
    obtain ⟨inv, tr₁, tr₂, htr, hist⟩ := history_at hrun he groupId hgen
    refine ⟨?_, inv.unassigned⟩
    intro hstable
    obtain ⟨leader, submission, hsub, hmap⟩ := hist.installed hstable
    exact ⟨leader, submission, by rw [htr]; exact submissionOf_append hsub, hmap⟩
  · intro e' he' generationId memberId assignments refresh hop hout
    obtain ⟨e, he, hev⟩ := List.mem_filterMap.1 he'
    obtain ⟨⟨op, clock⟩, hsection, rfl⟩ := Option.map_eq_some_iff.1 hev
    obtain rfl : op = .sync generationId memberId assignments refresh := hop
    have hpost : e.post.group groupId =
        ((GroupOp.sync generationId memberId assignments refresh).run (e.pre.group groupId) clock).2 :=
      (groupMachine_takes ((coordinator_groupRun hrun groupId).2 _ he')).2.2.2.1
    obtain ⟨inv, -⟩ := history_at hrun he groupId hgen
    rw [hpost] at inv
    show (e.post.group groupId).state ≠ .stable
    rw [hpost]
    exact run_sync_failed inv hout

theorem syncs_agree_on_assignment_two_members :
    ∃ tr s leader submission, coordinator.exec .new twoMembers = some (tr, s) ∧
    submissionOf 2 (groupEvents "g" tr) = some (leader, submission) ∧ ⟨"a-1", [1]⟩ ∈ submission ∧
    ⟨"b-2", [2]⟩ ∈ submission := by
  obtain ⟨tr, s, hx, hrun, -, hgen, houts⟩ := twoMembers_run
  obtain ⟨e₁, he₁, hout₁⟩ := exists_event_of_reply houts (List.mem_of_getElem? (i := 3) rfl)
  obtain ⟨e₂, he₂, hout₂⟩ := exists_event_of_reply houts (List.mem_of_getElem? (i := 4) rfl)
  obtain ⟨h, -⟩ := syncs_agree_on_assignment tr s hrun "g" (by rw [hgen]; decide)
  obtain ⟨leader, submission, -, hsub, -, -, -, -, hmem₁⟩ := h e₁ he₁ _ _ hout₁ rfl
  obtain ⟨leader', submission', -, hsub', -, -, -, -, hmem₂⟩ := h e₂ he₂ _ _ hout₂ rfl
  obtain ⟨rfl, rfl⟩ := Prod.mk.inj (Option.some.inj (hsub.symm.trans hsub'))
  exact ⟨tr, s, leader, submission, hx, hsub, hmem₁, hmem₂⟩

end MemKafka
