import MemKafka.GroupSteps

/-!
# The mutations of a group

What each function that runs under a group's lock does to the fields it writes: the protocol it selects, the members it
removes, adds, completes and installs, and the deadline it leaves.
-/

namespace MemKafka
open Kit Relation

/-! ### Protocol selection -/

theorem mem_commonProtocols {members : Members} {name : String} :
    name ∈ commonProtocols members ↔ (∃ id member, members.lookup id = some member ∧ member.advertises name = true) ∧
      ∀ id member, members.lookup id = some member → member.advertises name = true := by
  simp only [commonProtocols, List.mem_filter, List.mem_flatMap, List.mem_map, List.all_eq_true]
  refine and_congr ?_ (forall_entries (P := fun (_ : String) (member : Member) => member.advertises name = true))
  rw [← exists_entries (P := fun (_ : String) (member : Member) => member.advertises name = true)]
  simp [Member.advertises]

theorem Member.preferred_mem {common : List String} {member : Member} {name : String}
    (h : member.preferred common = some name) : name ∈ common := by
  obtain ⟨protocol, hp, rfl⟩ := Option.map_eq_some_iff.1 h
  simpa using List.find?_some hp

theorem Member.preferred_isSome {common : List String} {member : Member} {name : String} (h : name ∈ common)
    (ha : member.advertises name = true) : (member.preferred common).isSome := by
  obtain ⟨protocol, hp, hn⟩ := List.any_eq_true.1 ha
  have hn : protocol.name = name := by simpa using hn
  unfold Member.preferred
  rw [Option.isSome_map]
  exact List.find?_isSome.2 ⟨protocol, hp, by simpa [hn] using h⟩

theorem countVotes_mem {common : List String} {ms : List Member} {votes votes' : Assoc String Nat}
    (h : countVotes common ms votes = .ok votes') {name : String} (hn : name ∈ votes') :
    name ∈ votes ∨ name ∈ common := by
  induction ms generalizing votes with
  | nil => obtain rfl : votes = votes' := by simpa [countVotes] using h
           exact .inl hn
  | cons member ms ih =>
    unfold countVotes at h
    split at h
    · cases h
    · rename_i preferred hp
      rcases ih h with hv | hc
      · rcases (AList.mem_insert votes).1 hv with rfl | hv
        · exact .inr (Member.preferred_mem hp)
        · exact .inl hv
      · exact .inr hc

theorem countVotes_total {common : List String} {ms : List Member} (h : ∀ member ∈ ms, (member.preferred common).isSome)
    (votes : Assoc String Nat) :
    ∃ votes', countVotes common ms votes = .ok votes' ∧ ((∃ name, name ∈ votes) ∨ ms ≠ [] → ∃ name, name ∈ votes') := by
  induction ms generalizing votes with
  | nil => exact ⟨votes, rfl, fun h => h.elim id fun h => absurd rfl h⟩
  | cons member ms ih =>
    obtain ⟨name, hp⟩ := Option.isSome_iff_exists.1 (h member (by simp))
    obtain ⟨votes', hv, hne⟩ := ih (fun m hm => h m (by simp [hm])) (votes.insert name ((votes.lookup name).getD 0 + 1))
    refine ⟨votes', by simp only [countVotes, hp, hv], fun _ => hne (.inl ⟨name, ?_⟩)⟩
    exact (AList.mem_insert votes).2 (.inl rfl)

/-- The election picks one of the candidates, if there is any. -/
theorem electedOf_spec (votes : List (String × Nat)) :
    (votes ≠ [] → ∃ vote, electedOf votes = some vote) ∧ ∀ vote, electedOf votes = some vote → vote ∈ votes := by
  unfold electedOf
  induction votes using List.reverseRecOn with
  | nil => exact ⟨fun h => absurd rfl h, by simp⟩
  | append_singleton votes last ih =>
    rw [List.foldl_append, List.foldl_cons, List.foldl_nil]
    refine ⟨fun _ => ?_, fun vote h => ?_⟩
    · split
      · exact ⟨_, rfl⟩
      · split <;> exact ⟨_, rfl⟩
    · split at h
      · obtain rfl : last = vote := by simpa using h
        simp
      · rename_i best hbest
        have hmem := ih.2 best hbest
        split at h
        · obtain rfl : best = vote := by simpa using h
          simp [hmem]
        · obtain rfl : last = vote := by simpa using h
          simp

theorem selectProtocol_ok {members : Members} {selected : String} (h : selectProtocol members = .ok selected) :
    members ≠ ∅ ∧ ∀ id member, members.lookup id = some member → member.advertises selected = true := by
  unfold selectProtocol at h
  split at h
  · cases h
  rename_i hne
  refine ⟨hne, ?_⟩
  split at h
  · cases h
  rename_i votes hv
  split at h
  · rename_i name count he
    obtain rfl : name = selected := by simpa using h
    obtain ⟨e, hmem, heq⟩ := List.mem_map.1 ((electedOf_spec _).2 _ he)
    obtain rfl : e.1 = name := congrArg Prod.fst heq
    have hname : e.1 ∈ votes := mem_iff_lookup.2 ⟨e.2, lookup_eq_some_iff.2 hmem⟩
    rcases countVotes_mem hv hname with h | h
    · exact absurd h (AList.notMem_empty _)
    · exact (mem_commonProtocols.1 h).2
  · cases h

theorem selectProtocol_of_common {members : Members} (hne : members ≠ ∅) {name : String}
    (h : ∀ id member, members.lookup id = some member → member.advertises name = true) :
    ∃ selected, selectProtocol members = .ok selected := by
  obtain ⟨id₀, h₀⟩ := ne_empty_iff.1 hne
  obtain ⟨member₀, hl₀⟩ := mem_iff_lookup.1 h₀
  have hcommon : name ∈ commonProtocols members := mem_commonProtocols.2 ⟨⟨id₀, member₀, hl₀, h id₀ member₀ hl₀⟩, h⟩
  have hpreferred : ∀ member ∈ members.entries.map (·.2), (member.preferred (commonProtocols members)).isSome := by
    intro member hm
    obtain ⟨e, he, rfl⟩ := List.mem_map.1 hm
    exact Member.preferred_isSome hcommon (h e.1 e.2 (lookup_eq_some_iff.2 he))
  obtain ⟨votes, hv, hvotes⟩ := countVotes_total hpreferred ∅
  have hentries : members.entries.map (·.2) ≠ [] := by
    rw [ne_eq, List.map_eq_nil_iff]
    exact List.ne_nil_of_mem (lookup_eq_some_iff.1 hl₀)
  obtain ⟨key, hkey⟩ := hvotes (.inr hentries)
  obtain ⟨count, hcount⟩ := mem_iff_lookup.1 hkey
  obtain ⟨vote, he⟩ := (electedOf_spec (votes.entries.map fun e => (e.1, e.2))).1
    (by rw [ne_eq, List.map_eq_nil_iff]; exact List.ne_nil_of_mem (lookup_eq_some_iff.1 hcount))
  exact ⟨vote.1, by rw [selectProtocol, if_neg hne]; simp only [hv, he]⟩

/-! ### What the mutations do -/

section
variable {group : Group} {clock : Clock}

theorem min_mem_keys {members : Members} (h : members ≠ ∅) : members.keys.min?.getD "" ∈ members := by
  obtain ⟨id, hid⟩ := ne_empty_iff.1 h
  have hne : members.keys ≠ [] := List.ne_nil_of_mem (AList.mem_keys.1 hid)
  obtain ⟨least, hl⟩ := Option.isSome_iff_exists.1 (List.isSome_min?_of_ne_nil hne)
  rw [hl]
  exact AList.mem_keys.2 (List.min?_mem hl)

/-- The three ways out of a removal: nobody is left, a rebalance begins, or one goes on. -/
theorem removeMembers_cases (group : Group) (ids : List String) (begun : Nat) :
    (eraseAll group.members ids = ∅ ∧ removeMembers group ids begun =
      { group with state := .empty, leaderMemberId := "", protocolType := "", selectedProtocol := "", members := ∅,
                   assignments := ∅, rebalanceDeadline := none, change := group.change + 1 }) ∨
    ∃ leader ∈ eraseAll group.members ids,
      (group.leaderMemberId ∈ eraseAll group.members ids → leader = group.leaderMemberId) ∧
      ((group.state ≠ .preparingRebalance ∧ removeMembers group ids begun =
        { group with state := .preparingRebalance, rebalanceEpoch := nextEpoch group.rebalanceEpoch, leaderMemberId := leader,
                     members := eraseAll group.members ids, assignments := ∅,
                     rebalanceDeadline := some (begun + groupRebalanceTimeout (eraseAll group.members ids)),
                     change := group.change + 1 }) ∨
      (group.state = .preparingRebalance ∧ removeMembers group ids begun =
        { group with leaderMemberId := leader, members := eraseAll group.members ids, assignments := ∅,
                     change := group.change + 1 })) := by
  unfold removeMembers transitionAfterRemoval
  by_cases hempty : eraseAll group.members ids = ∅
  · exact .inl ⟨hempty, by simp only [hempty, if_true]⟩
  simp only [hempty, if_false]
  by_cases hleader : group.leaderMemberId ∈ eraseAll group.members ids
  · refine .inr ⟨group.leaderMemberId, hleader, fun _ => rfl, ?_⟩
    by_cases hstate : group.state = .preparingRebalance
    · exact .inr ⟨hstate, by simp [hleader, hstate]⟩
    · exact .inl ⟨hstate, by simp [hleader, hstate, beginRebalance]⟩
  · refine .inr ⟨_, min_mem_keys hempty, fun h => absurd h hleader, ?_⟩
    by_cases hstate : group.state = .preparingRebalance
    · exact .inr ⟨hstate, by simp [hleader, hstate]⟩
    · exact .inl ⟨hstate, by simp [hleader, hstate, beginRebalance]⟩

theorem removeMembers_members (group : Group) (ids : List String) (begun : Nat) :
    (removeMembers group ids begun).members = eraseAll group.members ids := by
  rcases removeMembers_cases group ids begun with ⟨hempty, heq⟩ | ⟨leader, -, -, ⟨-, heq⟩ | ⟨-, heq⟩⟩ <;> rw [heq]
  exact hempty.symm

theorem extendRebalanceDeadline_eq (group : Group) (now : Nat) :
    ∃ deadline, extendRebalanceDeadline group now = { group with rebalanceDeadline := some deadline } ∧
      ∀ d, group.rebalanceDeadline = some d → d ≤ deadline := by
  unfold extendRebalanceDeadline
  cases h : group.rebalanceDeadline with
  | none => exact ⟨_, rfl, by simp⟩
  | some d =>
    dsimp only
    split
    · exact ⟨_, rfl, by rintro _ ⟨⟩; omega⟩
    · exact ⟨d, by rw [← h], by rintro _ ⟨⟩; exact le_rfl⟩

/-- The two ways a join goes on: it begins a rebalance, or it joins the one that is prepared. -/
theorem addMember_cases (group : Group) (mayAddMember : Bool) (request : JoinRequest) (clock : Clock) :
    ∃ leader, (leader = request.memberId ∨ leader = group.leaderMemberId ∧ group.leaderMemberId ≠ "") ∧
      ((group.state ≠ .preparingRebalance ∧ addMember group mayAddMember request clock =
        { group with state := .preparingRebalance, rebalanceEpoch := nextEpoch group.rebalanceEpoch,
                     protocolType := request.protocolType, leaderMemberId := leader,
                     members := prospectiveMembers group request clock.now, assignments := ∅,
                     rebalanceDeadline := some (clock.begun + groupRebalanceTimeout (prospectiveMembers group request clock.now)),
                     change := group.change + 1 }) ∨
      ∃ deadline, group.state = .preparingRebalance ∧ addMember group mayAddMember request clock =
          { group with protocolType := request.protocolType, leaderMemberId := leader,
                       members := prospectiveMembers group request clock.now, rebalanceDeadline := deadline } ∧
        ∀ d, group.rebalanceDeadline = some d → ∃ d', deadline = some d' ∧ d ≤ d') := by
  refine ⟨if group.leaderMemberId = "" then request.memberId else group.leaderMemberId, ?_, ?_⟩
  · split
    · exact .inl rfl
    · exact .inr ⟨rfl, ‹_›⟩
  by_cases hstate : group.state = .preparingRebalance
  · refine .inr ?_
    cases mayAddMember with
    | false => exact ⟨group.rebalanceDeadline, hstate, by simp [addMember, hstate], fun d hd => ⟨d, hd, le_rfl⟩⟩
    | true =>
      obtain ⟨deadline, heq, hle⟩ := extendRebalanceDeadline_eq
        { group with members := prospectiveMembers group request clock.now } clock.now
      refine ⟨some deadline, hstate, ?_, fun d hd => ⟨deadline, rfl, hle d hd⟩⟩
      rw [addMember, if_neg (not_not.2 hstate), if_pos rfl, heq]
  · exact .inl ⟨hstate, by simp [addMember, hstate, beginRebalance]⟩

theorem addMember_members (group : Group) (mayAddMember : Bool) (request : JoinRequest) (clock : Clock) :
    (addMember group mayAddMember request clock).members = prospectiveMembers group request clock.now := by
  obtain ⟨leader, -, ⟨-, heq⟩ | ⟨deadline, -, heq, -⟩⟩ := addMember_cases group mayAddMember request clock <;> rw [heq]

theorem clearRebalanceDeadline_eq (group : Group) :
    ∃ deadline, clearRebalanceDeadlineIfAllSynced group = { group with rebalanceDeadline := deadline } ∧
      (deadline = group.rebalanceDeadline ∨ deadline = none ∧
        ∀ id member, group.members.lookup id = some member → member.syncedGeneration = group.generationId) := by
  unfold clearRebalanceDeadlineIfAllSynced
  split
  · rename_i h
    refine ⟨none, rfl, .inr ⟨rfl, ?_⟩⟩
    rw [List.all_eq_true] at h
    exact forall_entries.1 fun e he => by simpa using h e he
  · exact ⟨group.rebalanceDeadline, rfl, .inl rfl⟩

theorem ready_iff : group.ready = true ↔ group.state = .preparingRebalance ∧ group.members ≠ ∅ ∧
    ∀ id member, group.members.lookup id = some member → member.joinedEpoch = group.rebalanceEpoch := by
  unfold Group.ready
  rw [decide_eq_true_eq, List.all_eq_true]
  refine and_congr_right fun _ => and_congr_right fun _ => ?_
  rw [← forall_entries (P := fun (_ : String) (member : Member) => member.joinedEpoch = group.rebalanceEpoch)]
  simp

end

/-- What the completion of a rebalance makes of a member. -/
def completedMember (group : Group) (selected : String) (id : String) (member : Member) : Member :=
  { member with
    completedJoin := some ⟨group.rebalanceEpoch,
      { generationId := nextGeneration group.generationId
        protocolType := group.protocolType
        protocolName := selected
        leader := group.leaderMemberId
        memberId := id
        members := if id = group.leaderMemberId then membersForLeader { group with selectedProtocol := selected } else [] }⟩ }

theorem lookup_completeRebalance (group : Group) (selected : String) (completed : Nat) (id : String) :
    (completeRebalance group selected completed).members.lookup id =
      (group.members.lookup id).map (completedMember group selected id) :=
  lookup_mapVal

/-! ### Installed assignments -/

theorem namesEveryMember_iff {group : Group} {assignments : List SyncAssignment} :
    namesEveryMember group assignments = true ↔ (assignments.map (·.memberId)).Nodup ∧
      ∀ id, id ∈ assignments.map (·.memberId) ↔ id ∈ group.members := by
  unfold namesEveryMember
  rw [decide_eq_true_eq, List.all_eq_true]
  simp only [List.mem_dedup, decide_eq_true_eq]
  have hkeys : group.members.keys.length = group.members.entries.length := List.length_map ..
  constructor
  · rintro ⟨hlen, hcount, hall⟩
    have hnodup : (assignments.map (·.memberId)).Nodup := by
      rw [← List.dedup_eq_self]
      exact (List.dedup_sublist _).eq_of_length (by rw [hlen, List.length_map])
    rw [hnodup.dedup, ← hkeys] at hcount
    -- as many distinct names as members, and all members among them
    have hperm := ((List.Nodup.subperm group.members.keys_nodup hall).perm_of_length_le (le_of_eq hcount))
    exact ⟨hnodup, fun id => by rw [← hperm.mem_iff, AList.mem_keys]⟩
  · rintro ⟨hnodup, hmem⟩
    have hperm : (assignments.map (·.memberId)).Perm group.members.keys :=
      (List.perm_ext_iff_of_nodup hnodup group.members.keys_nodup).2 fun id => by rw [hmem, AList.mem_keys]
    rw [hnodup.dedup, ← hkeys]
    exact ⟨List.length_map .., hperm.length_eq, fun id hid => hperm.mem_iff.2 hid⟩

theorem lookup_collectAssignments {assignments : List SyncAssignment} (h : (assignments.map (·.memberId)).Nodup)
    {id : String}
    {bytes : Bytes} : (collect (assignments.map fun assignment => (assignment.memberId, assignment.assignment))).lookup id =
      some bytes ↔ ⟨id, bytes⟩ ∈ assignments := by
  rw [lookup_collect (by simpa [List.map_map, Function.comp_def] using h), List.mem_map]
  constructor
  · rintro ⟨assignment, hmem, heq⟩
    obtain ⟨rfl, rfl⟩ := Prod.mk.inj heq
    exact hmem
  · intro hmem; exact ⟨_, hmem, rfl⟩

theorem mem_collectAssignments {assignments : List SyncAssignment} (h : (assignments.map (·.memberId)).Nodup)
    {id : String} :
    id ∈ collect (assignments.map fun assignment => (assignment.memberId, assignment.assignment)) ↔
      id ∈ assignments.map (·.memberId) := by
  simp only [mem_iff_lookup, lookup_collectAssignments h, List.mem_map]
  exact ⟨fun ⟨bytes, hmem⟩ => ⟨_, hmem, rfl⟩, fun ⟨assignment, hmem, heq⟩ => ⟨assignment.assignment, heq ▸ hmem⟩⟩

/-- What the installation makes of a member. -/
def installedMember (group : Group) (now : Nat) (id : String) (member : Member) : Member :=
  let member := if id = group.leaderMemberId then { member with syncedGeneration := group.generationId } else member
  if member.syncedGeneration = group.generationId then { member with lastHeartbeat := now } else member

theorem lookup_installAssignments (group : Group) (now : Nat) (id : String) :
    (mapVal (fun _ member => if member.syncedGeneration = group.generationId then { member with lastHeartbeat := now }
      else member) (markSynced group group.leaderMemberId group.generationId).members).lookup id =
      (group.members.lookup id).map (installedMember group now id) := by
  rw [lookup_mapVal, markSynced, lookup_update_map, Option.map_map]
  rfl

theorem installedMember_spec (group : Group) (now : Nat) (id : String) (member : Member) :
    (installedMember group now id member).protocols = member.protocols ∧
    (installedMember group now id member).joinedEpoch = member.joinedEpoch ∧
    (installedMember group now id member).completedJoin = member.completedJoin ∧
    ((installedMember group now id member).syncedGeneration = member.syncedGeneration ∨
      (installedMember group now id member).syncedGeneration = group.generationId) := by
  unfold installedMember
  dsimp only
  by_cases h : id = group.leaderMemberId
  · rw [if_pos h, if_pos rfl]; exact ⟨rfl, rfl, rfl, .inr rfl⟩
  · rw [if_neg h]
    split <;> exact ⟨rfl, rfl, rfl, .inl rfl⟩

theorem installAssignments_eq (group : Group) (assignments : List SyncAssignment) (now : Nat) :
    ∃ members deadline,
      installAssignments group group.generationId group.leaderMemberId assignments now = { group with
        state := .stable
        assignments := collect (assignments.map fun assignment => (assignment.memberId, assignment.assignment))
        members := members
        rebalanceDeadline := deadline
        change := group.change + 1 } ∧
      (∀ id, members.lookup id = (group.members.lookup id).map (installedMember group now id)) ∧
      (deadline = group.rebalanceDeadline ∨ deadline = none) := by
  unfold installAssignments
  dsimp only
  generalize hg : ({ markSynced group group.leaderMemberId group.generationId with
    assignments := collect (assignments.map fun assignment => (assignment.memberId, assignment.assignment))
    members := mapVal (fun _ member =>
      if member.syncedGeneration = group.generationId then { member with lastHeartbeat := now } else member)
        (markSynced group group.leaderMemberId group.generationId).members
    state := .stable } : Group) = marked
  obtain ⟨deadline, heq, hdeadline⟩ := clearRebalanceDeadline_eq marked
  rw [heq, ← hg]
  refine ⟨_, deadline, rfl, lookup_installAssignments group now, ?_⟩
  rw [← hg] at hdeadline
  exact hdeadline.imp_right And.left

theorem nextGeneration_lt {generationId : Int} (h : nextGeneration generationId < i32Max) : generationId < i32Max := by
  unfold nextGeneration at h
  split at h
  · assumption
  · exact h


/-! ### Notifications -/

section
variable {group group' : Group} {clock : Clock}

theorem Steady.change_le (h : Steady clock group group') : group.change ≤ group'.change := by
  cases h with
  | remove ids _ =>
    rcases removeMembers_cases group ids clock.begun with ⟨-, heq⟩ | ⟨leader, -, -, ⟨-, heq⟩ | ⟨-, heq⟩⟩ <;> rw [heq] <;>
      exact Nat.le_succ _
  | touch id _ => exact le_rfl
  | add mayAddMember request _ =>
    obtain ⟨leader, -, ⟨-, heq⟩ | ⟨deadline, -, heq, -⟩⟩ :=
      addMember_cases group mayAddMember request clock <;> rw [heq]
    exact Nat.le_succ _
  | mark id _ _ _ => exact le_rfl
  | syncStable id _ _ =>
    obtain ⟨deadline, heq, -⟩ := clearRebalanceDeadline_eq (markSynced group id group.generationId)
    rw [MemKafka.syncStable, heq]
    exact Nat.le_succ _
  | commit offsets => exact le_rfl

theorem change_le_of_path (h : ReflTransGen (Steady clock) group group') : group.change ≤ group'.change := by
  induction h with
  | refl => exact le_rfl
  | tail _ hstep ih => exact ih.trans hstep.change_le

end

end MemKafka
