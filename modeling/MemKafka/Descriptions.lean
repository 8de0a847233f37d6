import MemKafka.GroupHandlers
import MemKafka.MemberIds

/-!
# What the group listings say is true

`Described` says of an answer of DescribeGroups what it has to do with the group it was taken from and with what the
members of that group were told, in joins and syncs, before and after. A member keeps the `profile` it joined with, so
that the description of a completed generation lists what the leader of that generation was given.
-/

namespace MemKafka
open Kit Relation

/-! ### Profiles -/

/-- What a join tells of its member. -/
def Member.profile (member : Member) : String × List JoinProtocol := (member.clientId, member.protocols)

/-- Whoever is in the second group was in the first, with the same profile. -/
def KeepsProfiles (group group' : Group) : Prop := ∀ id member', group'.members.lookup id = some member' →
  ∃ member, group.members.lookup id = some member ∧ member.profile = member'.profile

namespace KeepsProfiles
variable {group group' : Group} {clock : Clock}

theorem refl (group : Group) : KeepsProfiles group group := fun _ member hl => ⟨member, hl, rfl⟩

theorem trans {g₁ g₂ g₃ : Group} (h : KeepsProfiles g₁ g₂) (h' : KeepsProfiles g₂ g₃) : KeepsProfiles g₁ g₃ := by
  intro id member₃ hl₃
  obtain ⟨member₂, hl₂, heq⟩ := h' id member₃ hl₃
  obtain ⟨member₁, hl₁, heq'⟩ := h id member₂ hl₂
  exact ⟨member₁, hl₁, heq'.trans heq⟩

theorem of_map {f : String → Member → Member} (hm : ∀ id, group'.members.lookup id = (group.members.lookup id).map (f id))
    (hf : ∀ id member, (f id member).profile = member.profile) : KeepsProfiles group group' := by
  intro id member' hl
  obtain ⟨member, hl₀, rfl⟩ := (lookup_map_eq_some hm).1 hl
  exact ⟨member, hl₀, (hf id member).symm⟩

theorem remove (group : Group) (ids : List String) (begun : Nat) : KeepsProfiles group (removeMembers group ids begun) := by
  intro id member' hl
  rw [removeMembers_members, lookup_eraseAll] at hl
  split at hl
  · cases hl
  · exact ⟨member', hl, rfl⟩

theorem expire (group : Group) (clock : Clock) (active : Option String) :
    KeepsProfiles group (expireStaleMembers group clock active) := by
  rcases expireStaleMembers_cases group clock active with h | ⟨ids, -, -, h⟩
  · rw [h]
    exact refl group
  · rw [h]
    exact remove group ids _

theorem touch (group : Group) (id : String) (now : Nat) : KeepsProfiles group (touchMember group id now) :=
  of_map (lookup_update_map id) fun _ _ => by split <;> rfl

theorem mark (group : Group) (id : String) (generationId : Int) : KeepsProfiles group (markSynced group id generationId) :=
  of_map (lookup_update_map id) fun _ _ => by split <;> rfl

theorem syncStable (group : Group) (generationId : Int) (id : String) :
    KeepsProfiles group (syncStable group generationId id) := by
  obtain ⟨deadline, heq, -⟩ := clearRebalanceDeadline_eq (markSynced group id generationId)
  simp only [MemKafka.syncStable, heq]
  exact mark group id generationId

theorem complete (group : Group) (completed : Nat) : KeepsProfiles group (completeRebalanceIfReady group completed).2 := by
  rcases completeRebalanceIfReady_cases group completed with ⟨out, h, -⟩ | ⟨selected, -, -, h⟩
  · rw [h]
    exact refl group
  · rw [h]
    exact of_map (lookup_completeRebalance group selected completed) fun _ _ => rfl

theorem install (group : Group) (assignments : List SyncAssignment) (now : Nat) :
    KeepsProfiles group (installAssignments group group.generationId group.leaderMemberId assignments now) := by
  obtain ⟨members, deadline, heq, hm, -⟩ := installAssignments_eq group assignments now
  rw [heq]
  refine of_map hm fun id member => ?_
  unfold installedMember Member.profile
  dsimp only
  split <;> split <;> rfl

/-- A mutation after which a generation is complete adds nobody. -/
theorem steady (h : Steady clock group group') (hc : group'.completed) : KeepsProfiles group group' := by
  cases h with
  | remove ids _ => exact remove group ids _
  | touch id _ => exact touch group id _
  | add mayAddMember request _ =>
    obtain ⟨leader, -, ⟨-, heq⟩ | ⟨deadline, hstate, heq, -⟩⟩ := addMember_cases group mayAddMember request clock
    · rw [heq] at hc
      rcases hc with h | h <;> cases h
    · rw [heq] at hc
      rcases hc with h | h <;> cases hstate.symm.trans h
  | mark id _ _ _ => exact mark group id _
  | syncStable id _ _ => exact syncStable group _ id
  | commit offsets => exact refl group

theorem path (h : ReflTransGen (Steady clock) group group') (hc : group'.completed) : KeepsProfiles group group' := by
  induction h with
  | refl => exact refl group
  | tail _ hstep ih =>
    have hstate := ((Carries.of_steady hstep).cohort hc).1
    exact (ih (by rw [Group.completed, hstate]; exact hc)).trans (steady hstep hc)

end KeepsProfiles

/-- Whoever is in a group after a section was there before, with the same profile, or has just joined. -/
theorem run_profile {op : GroupOp} {group : Group} {clock : Clock} {id : String} {member' : Member}
    (h : (op.run group clock).2.members.lookup id = some member') :
    (∃ member, group.members.lookup id = some member ∧ member.profile = member'.profile) ∨
      ∃ mayAddMember request, op = .enter mayAddMember request ∧ request.memberId = id ∧
        (request.clientId, request.protocols) = member'.profile := by
  have hexpire := KeepsProfiles.expire group clock
  cases op with
  | enter mayAddMember request =>
    change (enter group clock mayAddMember request).2.members.lookup id = some member' at h
    obtain ⟨body, rfl, ⟨error, heq⟩ | ⟨result, -, heq⟩ | ⟨selected, after, out, -, hcomplete, heq⟩⟩ :=
      enter_cases group clock mayAddMember request
    · rw [heq] at h
      exact .inl (hexpire none id member' h)
    · rw [heq] at h
      exact .inl ((hexpire none).trans (.touch _ request.memberId clock.now) id member' h)
    · have hafter : after.members.lookup id = some member' := by
        rcases heq with ⟨error, -, heq⟩ | ⟨-, heq⟩ <;> rwa [heq] at h
      have hcompletes := KeepsProfiles.complete (addMember (expireStaleMembers group clock none) mayAddMember request clock)
        clock.completed
      rw [hcomplete] at hcompletes
      obtain ⟨added, hl, hprofile⟩ := hcompletes id member' hafter
      rw [addMember_members] at hl
      rcases lookup_of_insert hl with ⟨rfl, rfl⟩ | hl
      · exact .inr ⟨mayAddMember, request, rfl, rfl, hprofile⟩
      · obtain ⟨member, hl₀, heq⟩ := hexpire none id added hl
        exact .inl ⟨member, hl₀, heq.trans hprofile⟩
  | wait memberId target =>
    refine .inl ?_
    change (wait group clock memberId target).2.members.lookup id = some member' at h
    rcases wait_cases group clock memberId target with ⟨result, -, heq⟩ | ⟨error, heq⟩ | ⟨after, out, -, -, -, hcomplete, heq⟩
    · rw [heq] at h
      exact ⟨member', h, rfl⟩
    · rw [heq] at h
      exact ⟨member', h, rfl⟩
    · have hcompletes := (hexpire (some memberId)).trans (.complete _ clock.completed)
      rw [hcomplete] at hcompletes
      rcases heq with ⟨error, -, heq⟩ | ⟨result, -, heq⟩ | ⟨-, -, heq⟩ <;> rw [heq] at h <;> exact hcompletes id member' h
  | sync generationId memberId assignments refresh =>
    refine .inl ?_
    change (sync group clock generationId memberId assignments refresh).2.members.lookup id = some member' at h
    obtain ⟨body, rfl, ⟨error, -, heq⟩ | ⟨touched, htouched, -, hgen, heq⟩⟩ :=
      sync_cases group clock generationId memberId assignments refresh
    · rw [heq] at h
      exact hexpire _ id member' h
    have htouch : KeepsProfiles group touched := by
      rw [← htouched]
      split
      · exact (hexpire _).trans (.touch _ memberId clock.now)
      · exact hexpire _
    obtain rfl : touched.generationId = generationId := by rw [← hgen, ← htouched]; split <;> rfl
    rcases heq with ⟨-, heq⟩ | ⟨-, heq⟩ | ⟨-, -, -, heq⟩ | ⟨-, rfl, -, heq⟩ | ⟨-, -, heq⟩ <;> rw [heq] at h
    · exact htouch.trans (.syncStable touched _ memberId) id member' h
    · exact htouch id member' h
    · exact htouch id member' h
    · exact htouch.trans (.install touched assignments clock.now) id member' h
    · exact htouch.trans (.mark touched memberId _) id member' h
  | heartbeat generationId memberId =>
    refine .inl ?_
    simp only [GroupOp.run, heartbeat] at h
    split at h
    · exact hexpire none id member' h
    · have htouch := (hexpire none).trans (.touch _ memberId clock.now)
      split at h <;> exact htouch id member' h
  | leave memberId =>
    refine .inl ?_
    simp only [GroupOp.run, leave] at h
    split at h
    · exact hexpire none id member' h
    have hremoved := ((hexpire none).trans (.remove _ [memberId] clock.begun)).trans (.complete _ clock.completed)
    split at h <;> rename_i heq <;> rw [heq] at hremoved <;> exact hremoved id member' h
  | commitOffsets generationId memberId offsets =>
    refine .inl ?_
    simp only [GroupOp.run, commitOffsets] at h
    split at h
    · exact hexpire none id member' h
    · split at h <;> exact hexpire none id member' h
  | describe groupId => exact .inl (hexpire none id member' h)
  | drive => exact .inl ((hexpire none).trans (.complete _ _) id member' h)

/-! ### Runs -/

section
variable {tr : List GroupEvent} {s : TimedGroup} {id : String} {member : Member}

/-- A join of this member in the run had this profile. -/
def JoinedWith (tr : List GroupEvent) (id : String) (profile : String × List JoinProtocol) : Prop :=
  ∃ e ∈ tr, ∃ mayAddMember request, e.label.1 = .enter mayAddMember request ∧ request.memberId = id ∧
    (request.clientId, request.protocols) = profile

theorem joinedWith_of_run (h : groupMachine.Run tr s) (hl : s.group.members.lookup id = some member) :
    JoinedWith tr id member.profile := by
  revert id member
  refine Machine.Run.induction (M := groupMachine)
    (P := fun tr s => ∀ {id member}, s.group.members.lookup id = some member → JoinedWith tr id member.profile) ?_ ?_ h
  · intro id member hl
    cases hl
  · intro tr e _ ih he id member hl
    rw [(groupMachine_takes he).2.2.2.1] at hl
    rcases run_profile hl with ⟨member₀, hl₀, heq⟩ | ⟨mayAddMember, request, hop, hid, heq⟩
    · obtain ⟨f, hf, hjoined⟩ := ih hl₀
      rw [heq] at hjoined
      exact ⟨f, by simp [hf], hjoined⟩
    · exact ⟨e, by simp, mayAddMember, request, hop, hid, heq⟩

/-- The section that raises the generation is its completion. -/
theorem History.completion_of_lt {e : GroupEvent} (h : History tr e.pre.group)
    (hlt : e.pre.group.generationId < e.post.group.generationId) :
    completionOf e.post.group.generationId (tr ++ [e]) = some e.post.group := by
  have hnone : completionOf e.post.group.generationId tr = none := by
    rw [Option.eq_none_iff_forall_ne_some]
    intro cohort hcohort
    have := (h.past _ cohort hcohort).1
    omega
  rw [completionOf_snoc, hnone, Option.none_or, if_pos ⟨by omega, rfl⟩]

/-- In a complete generation everybody has the profile the generation was completed with. -/
theorem cohort_keepsProfiles (h : groupMachine.Run tr s) (hgen : s.group.generationId < i32Max) (hc : s.group.completed) :
    ∃ cohort, completionOf s.group.generationId tr = some cohort ∧ KeepsProfiles cohort s.group := by
  revert hgen hc
  refine Machine.Run.induction (M := groupMachine) (P := fun tr s => s.group.generationId < i32Max → s.group.completed →
    ∃ cohort, completionOf s.group.generationId tr = some cohort ∧ KeepsProfiles cohort s.group) ?_ ?_ h
  · intro _ hc
    rcases hc with h | h <;> cases h
  intro tr e hrun ih he hgen hc
  have hsection := groupMachine_section he
  obtain ⟨-, hist⟩ := History.of_run hrun (lt_of_le_of_lt hsection.generation_le hgen)
  -- the sections that complete nothing
  have hsame : ∀ body, ReflTransGen (Steady e.label.2) e.pre.group body → body.completed →
      e.post.group.generationId = body.generationId → KeepsProfiles body e.post.group →
      ∃ cohort, completionOf e.post.group.generationId (tr ++ [e]) = some cohort ∧ KeepsProfiles cohort e.post.group := by
    intro body path hbody hpost hkeeps
    have hcarries := Carries.of_path path
    have hsame := hpost.trans hcarries.generation
    obtain ⟨cohort, hcohort, hprofiles⟩ := ih (by rw [← hsame]; exact hgen)
      (by rw [Group.completed, (hcarries.cohort hbody).1]; exact hbody)
    refine ⟨cohort, ?_, (hprofiles.trans (.path path hbody)).trans hkeeps⟩
    rw [completionOf_same hsame, hsame]
    exact hcohort
  generalize hpost : e.post.group = post at hsection hsame hgen hc
  cases hsection with
  | steady path => exact hsame _ path hc rfl (.refl _)
  | @completes body path selected ready select =>
    have hlt : e.pre.group.generationId < e.post.group.generationId := by
      rw [hpost, ← (Carries.of_path path).generation]
      have hstep : (completeRebalance body selected e.label.2.completed).generationId = body.generationId + 1 :=
        if_pos (nextGeneration_lt hgen)
      omega
    refine ⟨_, ?_, .refl _⟩
    rw [← hpost]
    exact hist.completion_of_lt hlt
  | @installs body path assignments refresh hi hop =>
    obtain ⟨members, deadline, heq, hm, -⟩ := installAssignments_eq body assignments e.label.2.now
    refine hsame body path (.inl hi.completing) ?_ (.install body assignments _)
    rw [heq]

end

/-! ### One description -/

/-- What DescribeGroups says of a group agrees with the group as a step of the run left it, and with what the calls of
the run returned. -/
structure Described (tr : List CoordinatorEvent) (groupId : String) (group : Group) (described : DescribedGroup) : Prop where
  errorCode : described.errorCode = 0
  named : described.groupId = groupId
  state : described.groupState = group.state.text
  sorted : described.members.Pairwise fun a b => a.memberId < b.memberId
  members : ∀ id, id ∈ described.members.map (·.memberId) ↔ id ∈ group.members
  empty : described.groupState = "Empty" ↔ described.members = []
  cleared : described.members = [] → described.protocolType = "" ∧ described.protocolData = ""
  unassigned : described.groupState ≠ "Stable" → ∀ m ∈ described.members, m.memberAssignment = []
  joined : ∀ m ∈ described.members, ∃ protocols, JoinedWith (groupEvents groupId tr) m.memberId (m.clientId, protocols) ∧
    m.memberMetadata = ((protocols.find? (·.name = described.protocolData)).map (·.metadata)).getD []
  joins : described.groupState = "CompletingRebalance" ∨ described.groupState = "Stable" →
    ∀ e ∈ tr, ∀ request result, e.out = .join request (.ok (.joined result)) → request.groupId = groupId →
      result.generationId = group.generationId →
      result.protocolType = described.protocolType ∧ result.protocolName = described.protocolData ∧
        request.memberId ∈ described.members.map (·.memberId) ∧
        (result.memberId = result.leader → result.members = described.members.map fun m => ⟨m.memberId, m.memberMetadata⟩)
  syncs : described.groupState = "Stable" → ∀ e ∈ tr, ∀ request bytes, e.out = .sync request (.ok bytes) →
    request.groupId = groupId → request.generationId = group.generationId →
    ∃ m ∈ described.members, m.memberId = request.memberId ∧ m.memberAssignment = bytes

section
variable {groupId : String} {group : Group}

theorem GroupState.text_inj {s s' : GroupState} : s.text = s'.text ↔ s = s' := by
  cases s <;> cases s' <;> decide

/-- The description of a member. -/
def describedMember (group : Group) (id : String) (member : Member) : DescribedGroupMember where
  memberId := id
  groupInstanceId := none
  clientId := member.clientId
  clientHost := ""
  memberMetadata := ((member.protocols.find? (·.name = group.selectedProtocol)).map (·.metadata)).getD []
  memberAssignment := (group.assignments.lookup id).getD []

theorem mem_describedGroup {m : DescribedGroupMember} :
    m ∈ (DescribeGroups.describedGroup (describeGroup groupId group)).members ↔
      ∃ member, group.members.lookup m.memberId = some member ∧ m = describedMember group m.memberId member := by
  simp only [DescribeGroups.describedGroup, describeGroup, List.mem_map, List.mem_insertionSort]
  constructor
  · rintro ⟨_, ⟨e, he, rfl⟩, rfl⟩
    exact ⟨e.2, lookup_eq_some_iff.2 he, rfl⟩
  · rintro ⟨member, hl, heq⟩
    exact ⟨_, ⟨⟨m.memberId, member⟩, lookup_eq_some_iff.1 hl, rfl⟩, heq.symm⟩

theorem describedGroup_sorted : (DescribeGroups.describedGroup (describeGroup groupId group)).members.Pairwise
    fun a b => a.memberId < b.memberId := by
  simp only [DescribeGroups.describedGroup, describeGroup]
  rw [List.pairwise_map]
  refine pairwise_insertionSort_key (fun _ _ => Iff.rfl) ?_
  rw [List.pairwise_map]
  exact List.nodupKeys_iff_pairwise.1 group.members.nodupKeys

theorem mem_describedGroup_ids {id : String} :
    id ∈ (DescribeGroups.describedGroup (describeGroup groupId group)).members.map (·.memberId) ↔ id ∈ group.members := by
  rw [List.mem_map, mem_iff_lookup]
  constructor
  · rintro ⟨m, hm, rfl⟩
    obtain ⟨member, hl, -⟩ := mem_describedGroup.1 hm
    exact ⟨member, hl⟩
  · rintro ⟨member, hl⟩
    exact ⟨describedMember group id member, mem_describedGroup.2 ⟨member, hl, rfl⟩, rfl⟩

theorem describedGroup_eq_nil : (DescribeGroups.describedGroup (describeGroup groupId group)).members = [] ↔
    group.members = ∅ := by
  rw [eq_empty_iff, ← List.map_eq_nil_iff (f := (·.memberId)), List.eq_nil_iff_forall_not_mem]
  exact forall_congr' fun id => not_congr mem_describedGroup_ids

/-- The leader of a generation was told the list of members that the description of the generation has. -/
theorem membersForLeader_described {cohort : Group} (hcohort : IsCohort cohort) (hsame : SameCohort cohort group)
    (hprofiles : KeepsProfiles cohort group) : membersForLeader cohort =
      (DescribeGroups.describedGroup (describeGroup groupId group)).members.map fun m => ⟨m.memberId, m.memberMetadata⟩ := by
  have hirrefl : Std.Irrefl fun a b : JoinedMember => a.memberId < b.memberId := ⟨fun _ => lt_irrefl _⟩
  have hantisymm : Std.Antisymm fun a b : JoinedMember => a.memberId < b.memberId :=
    ⟨fun _ _ h h' => absurd h' (lt_asymm h)⟩
  refine List.Pairwise.eq_of_mem_iff (membersForLeader_sorted cohort)
    (List.pairwise_map.2 (@describedGroup_sorted groupId group)) fun joined => ?_
  rw [mem_membersForLeader, List.mem_map]
  constructor
  · rintro ⟨member₀, protocol, hl₀, hp, hm⟩
    obtain ⟨member, hl⟩ := mem_iff_lookup.1 ((hsame.members _).2 (mem_iff_lookup.2 ⟨member₀, hl₀⟩))
    obtain ⟨member₁, hl₁, heq⟩ := hprofiles _ member hl
    obtain rfl : member₀ = member₁ := Option.some.inj (hl₀.symm.trans hl₁)
    refine ⟨describedMember group joined.memberId member, mem_describedGroup.2 ⟨member, hl, rfl⟩, ?_⟩
    have hprotocols : member.protocols = member₀.protocols := (Prod.mk.inj heq).2.symm
    obtain ⟨id, metadata⟩ := joined
    dsimp only at hm
    simp only [describedMember, hprotocols, hsame.selectedProtocol, hp, Option.map_some, Option.getD_some, hm]
  · rintro ⟨m, hm, rfl⟩
    obtain ⟨member, hl, hdescribed⟩ := mem_describedGroup.1 hm
    obtain ⟨member₀, hl₀, heq⟩ := hprofiles _ member hl
    have hprotocols : member.protocols = member₀.protocols := (Prod.mk.inj heq).2.symm
    obtain ⟨protocol, hp⟩ := Option.isSome_iff_exists.1
      (List.find?_isSome.2 (List.any_eq_true.1 (hcohort.advertised _ member₀ hl₀)))
    refine ⟨member₀, protocol, hl₀, hp, ?_⟩
    rw [hdescribed]
    simp only [describedMember, hprotocols, hsame.selectedProtocol, hp, Option.map_some, Option.getD_some]

end

section
variable {tr : List CoordinatorEvent} {s : Coordinator} {e : CoordinatorEvent} {groupId : String}

/-- The group as a step of a run left it, with what came before. -/
theorem past_of_mem (hrun : coordinator.Run tr s) (he : e ∈ tr) (hgen : (s.group groupId).generationId < i32Max) :
    ∃ past rest, groupEvents groupId tr = past ++ rest ∧ groupMachine.Run past (e.post.timed groupId) ∧
      (e.post.group groupId).generationId < i32Max := by
  have hle := generation_le_of_mem hrun he groupId
  obtain ⟨before, after, rfl⟩ := List.append_of_mem he
  obtain ⟨hbefore, htakes, -⟩ := hrun.split
  refine ⟨_, groupEvents groupId after, ?_, coordinator_groupRun (Machine.Run.snoc hbefore htakes) groupId,
    lt_of_le_of_lt hle hgen⟩
  rw [groupEvents, groupEvents, groupEvents, ← List.filterMap_append, List.append_assoc, List.singleton_append]

theorem Described.of_run (hrun : coordinator.Run tr s) (he : e ∈ tr) (hgen : (s.group groupId).generationId < i32Max) :
    Described tr groupId (e.post.group groupId)
      (DescribeGroups.describedGroup (describeGroup groupId (e.post.group groupId))) := by
  obtain ⟨past, rest, htr, hpast, hgen'⟩ := past_of_mem hrun he hgen
  obtain ⟨inv, hist⟩ := History.of_run hpast hgen'
  change GroupInv (e.post.group groupId) at inv
  change History past (e.post.group groupId) at hist
  have hstate : ∀ state : GroupState, (DescribeGroups.describedGroup (describeGroup groupId (e.post.group groupId))).groupState =
      state.text ↔ (e.post.group groupId).state = state := fun _ => GroupState.text_inj
  refine ⟨rfl, rfl, rfl, describedGroup_sorted, fun _ => mem_describedGroup_ids, ?empty, ?cleared, ?unassigned, ?joined,
    ?joins, ?syncs⟩
  case empty => rw [describedGroup_eq_nil, ← inv.empty_iff]; exact hstate .empty
  case cleared =>
    intro hnil
    obtain ⟨-, htype, hselected, -⟩ := inv.cleared (inv.empty_iff.2 (describedGroup_eq_nil.1 hnil))
    exact ⟨htype, hselected⟩
  case unassigned =>
    intro hne m hm
    obtain ⟨member, -, heq⟩ := mem_describedGroup.1 hm
    rw [heq, describedMember, inv.unassigned (mt (hstate .stable).2 hne)]
    rfl
  case joined =>
    intro m hm
    obtain ⟨member, hl, heq⟩ := mem_describedGroup.1 hm
    obtain ⟨f, hf, hjoined⟩ := joinedWith_of_run hpast hl
    refine ⟨member.protocols, ⟨f, by rw [htr]; exact List.mem_append_left _ hf, ?_⟩, by rw [heq]; rfl⟩
    rw [heq]
    exact hjoined
  case joins =>
    rintro hcomplete f hf request result hout rfl hsame
    have hc : (e.post.group request.groupId).completed := hcomplete.imp (hstate .completingRebalance).1 (hstate .stable).1
    obtain ⟨cohort, hcohort, hprofiles⟩ := cohort_keepsProfiles hpast hgen' hc
    change completionOf (e.post.group request.groupId).generationId past = some cohort at hcohort
    obtain ⟨cohort', hcohort', hcohortSame⟩ := hist.current hc
    obtain rfl := Option.some.inj (hcohort.symm.trans hcohort')
    obtain ⟨cohort', hfound, hisCohort, hagrees⟩ := joined_agrees hrun hf hout hgen
    rw [htr, hsame, completionOf_append hcohort] at hfound
    obtain rfl := Option.some.inj hfound
    refine ⟨hagrees.protocolType.trans hcohortSame.protocolType.symm,
      hagrees.protocolName.trans hcohortSame.selectedProtocol.symm,
      mem_describedGroup_ids.2 ((hcohortSame.members _).2 hagrees.mem), fun hleader => ?_⟩
    rw [hagrees.members, if_pos (by rw [← hagrees.memberId, hleader, hagrees.leader])]
    exact membersForLeader_described hisCohort hcohortSame hprofiles
  case syncs =>
    rintro hstable f hf request bytes hout rfl hsame
    replace hstable := (hstate .stable).1 hstable
    obtain ⟨leader, assignments, hsub, hinstalled⟩ := hist.installed hstable
    obtain ⟨leader', submission, cohort, hsub', -, -, -, -, hmem⟩ := synced_agrees hrun hf hout hgen
    rw [htr, hsame, submissionOf_append hsub] at hsub'
    obtain ⟨rfl, rfl⟩ := Prod.mk.inj (Option.some.inj hsub')
    have hbytes := (hinstalled _ _).2 hmem
    obtain ⟨member, hl⟩ := mem_iff_lookup.1 ((inv.assigned hstable request.memberId).1 (mem_iff_lookup.2 ⟨bytes, hbytes⟩))
    refine ⟨describedMember _ request.memberId member, mem_describedGroup.2 ⟨member, hl, rfl⟩, rfl, ?_⟩
    simp only [describedMember, hbytes, Option.getD_some]

end

/-! ### The handlers -/

section
variable {s s' : Coordinator} {tr : List CoordinatorEvent} {groupId : String}

theorem groups_kept_path (h : coordinator.Path s tr s') (hmem : groupId ∈ s.groups) : groupId ∈ s'.groups :=
  Machine.Path.invariant (M := coordinator) (P := fun s => groupId ∈ s.groups) (fun _ he hmem => groups_kept he hmem) hmem h

/-- A call of `describe` finds no group, or describes it as its step leaves it. -/
theorem describe_asked {result : Option GroupDescription}
    (h : Client.Asked coordinator GroupCall.Answered (.describe groupId) s tr s' result) :
    (result = none ∧ groupId ∉ s.groups) ∨
      groupId ∈ s'.groups ∧ ∃ e ∈ tr, result = some (describeGroup groupId (e.post.group groupId)) := by
  obtain ⟨before, ⟨pre, label, out, post⟩, after, clock, rfl, hbefore, htakes, hafter, hlabel, hout⟩ := asked_step h fun _ _ h => h
  dsimp only at hbefore hafter hlabel hout
  subst hlabel hout
  change pre.step (.describe groupId clock) = some (.describe result, post) at htakes
  cases step_turn htakes with
  | undescribed missing => exact .inl ⟨rfl, fun hmem => missing (groups_kept_path hbefore hmem)⟩
  | @described _ _ description _ ran =>
    obtain ⟨cell, timed, hl, -, -⟩ := runSection_eq_some ran
    refine .inr ⟨groups_kept_path hafter (groups_kept htakes (mem_iff_lookup.2 ⟨cell, hl⟩)), _,
      List.mem_append_right _ (List.mem_cons_self ..), ?_⟩
    have hreply := runSection_reply ran
    rw [GroupOp.run, describe] at hreply
    rw [runSection_group ran]
    exact congrArg some (GroupReply.described.inj hreply)

/-- A served DescribeGroups, group by group. -/
theorem describeGroups_served {before : List CoordinatorEvent} (hrun : coordinator.Run before s) {groups : List String}
    {response : DescribeGroupsResponse} (hserved : (DescribeGroups.response groups).Serves s tr s' response)
    (hgen : ∀ groupId ∈ groups, (s'.group groupId).generationId < i32Max) : response.throttleTimeMs = 0 ∧
    List.Forall₂ (fun groupId described =>
      (described = DescribeGroups.missingGroup groupId ∧ groupId ∉ s.groups) ∨
        ∃ e ∈ tr, Described (before ++ tr) groupId (e.post.group groupId) described) groups response.groups := by
  have hrun' := Machine.Path.append hrun hserved.path
  obtain ⟨tr₁, s₁, tr₂, described, rfl, heach, hpath, rfl⟩ := Client.serves_bind.1 hserved
  refine ⟨rfl, heach.each ?_⟩
  rintro groupId hmem tr₃ s₃ tr₄ s₄ tr₅ result rfl h₃ hone h₅
  obtain ⟨tr₆, s₆, tr₇, answer, rfl, hasked, hrest⟩ := Client.serves_bind.1 hone
  rcases describe_asked (Client.serves_ask.1 hasked) with ⟨rfl, hmissing⟩ | ⟨-, e, he, rfl⟩
  · obtain ⟨-, rfl⟩ := hrest
    exact .inl ⟨rfl, fun hmem => hmissing (groups_kept_path h₃ hmem)⟩
  · obtain ⟨-, rfl⟩ := hrest
    exact .inr ⟨e, by simp [he], .of_run hrun' (by simp [he]) (hgen groupId hmem)⟩

end

/-- Descriptions tell the truth. Let DescribeGroups be served beside any other calls, in a run from the start of the
coordinator. It answers for every group of the request, in order, that the group does not exist, and then it did not
exist when the request came, or with a description that is true of the group at one step of the call. -/
theorem descriptions_tell_the_truth (before : List CoordinatorEvent) (s : Coordinator) (hrun : coordinator.Run before s)
    (groups : List String) (tr : List CoordinatorEvent) (s' : Coordinator) (response : DescribeGroupsResponse)
    (hserved : (DescribeGroups.response groups).Serves s tr s' response)
    (hgen : ∀ groupId ∈ groups, (s'.group groupId).generationId < i32Max) :
    response.throttleTimeMs = 0 ∧
    List.Forall₂ (fun groupId described =>
      (described = DescribeGroups.missingGroup groupId ∧ groupId ∉ s.groups) ∨
        ∃ e ∈ tr, Described (before ++ tr) groupId (e.post.group groupId) described) groups response.groups :=
  describeGroups_served hrun hserved hgen

theorem descriptions_tell_the_truth_two_members : ∃ before s tr s' response, coordinator.exec .new twoMembers = some (before, s) ∧
    (DescribeGroups.response ["g", "h"]).Serves s tr s' response ∧ response.groups =
      [⟨0, none, "g", "Stable", "consumer", "range", [⟨"a-1", none, "a", "", [1], [1]⟩, ⟨"b-2", none, "b", "", [1], [2]⟩],
        -2147483648⟩, ⟨69, none, "h", "", "", "", [], -2147483648⟩] ∧
    ∃ e ∈ tr, ∃ described ∈ response.groups, Described (before ++ tr) "g" (e.post.group "g") described := by
  have hsome : ((coordinator.exec .new twoMembers).bind fun r =>
      (coordinator.step r.2 (.describe "g" ⟨1, 1, 1⟩)).bind fun r₁ =>
        (coordinator.step r₁.2 (.describe "h" ⟨1, 1, 1⟩)).map fun r₂ =>
        (r₁.1, r₂.1, (r₂.2.group "g").generationId, (r₂.2.group "h").generationId)) =
      some (.describe (some ⟨"g", "Stable", "consumer", "range", [⟨"a-1", "a", [1], [1]⟩, ⟨"b-2", "b", [1], [2]⟩]⟩),
        .describe none, 2, 0) := by decide +kernel
  obtain ⟨⟨before, s⟩, hx, hsome⟩ := Option.bind_eq_some_iff.1 hsome
  obtain ⟨⟨out₁, s₁⟩, h₁, hsome⟩ := Option.bind_eq_some_iff.1 hsome
  obtain ⟨⟨out₂, s₂⟩, h₂, hsome⟩ := Option.map_eq_some_iff.1 hsome
  simp only [Prod.mk.injEq] at hsome
  obtain ⟨rfl, rfl, hgen₁, hgen₂⟩ := hsome
  have hrun := (Machine.exec_path hx).1
  have hserved : (DescribeGroups.response ["g", "h"]).Serves s _ s₂ ⟨0, [_, _]⟩ :=
    Client.serves_step h₁ ⟨_, _, rfl, rfl, rfl⟩ (Client.serves_step h₂ ⟨_, _, rfl, rfl, rfl⟩ (Client.serves_pure.2 ⟨.nil, rfl⟩))
  refine ⟨before, s, _, s₂, _, hx, hserved, rfl, ?_⟩
  obtain ⟨-, hdescribed⟩ := descriptions_tell_the_truth before s hrun ["g", "h"] _ s₂ _ hserved (by simp [hgen₁, hgen₂, i32Max])
  rcases (List.forall₂_cons.1 hdescribed).1 with ⟨hmissing, -⟩ | ⟨e, he, h⟩
  · cases hmissing
  · exact ⟨e, he, _, List.mem_cons_self .., h⟩

/-! ### Listing -/

section
variable {s s' : Coordinator} {tr : List CoordinatorEvent} {groupId : String}

/-- A group that is listed: it is there afterwards, and has been seen with its protocol type. -/
structure Listed (s : Coordinator) (tr : List CoordinatorEvent) (s' : Coordinator) (group : GroupSummary) : Prop where
  there : group.groupId ∈ s'.groups
  seen : ∃ tr₁ s₁ tr₂, tr = tr₁ ++ tr₂ ∧ coordinator.Path s tr₁ s₁ ∧ coordinator.Path s₁ tr₂ s' ∧
    group.protocolType = (s₁.group group.groupId).protocolType

theorem list_served {groups : List GroupSummary} (h : GroupCoordinator.list.Serves s tr s' groups) :
    (groups.Pairwise fun a b => a.groupId < b.groupId) ∧ (∀ groupId ∈ s.groups, groupId ∈ groups.map (·.groupId)) ∧
      ∀ group ∈ groups, Listed s tr s' group := by
  obtain ⟨tr₁, s₁, tr₂, ids, rfl, hids, heach⟩ := Client.serves_bind.1 h
  obtain ⟨tr₃, s₂, _, s₃, tr₄, rfl, h₃, hnil, ⟨rfl, rfl⟩, h₄⟩ := Client.serves_ask.1 hids
  obtain rfl : s₂ = s₃ := hnil.1
  have hall : List.Forall₂ (fun groupId (group : GroupSummary) => group.groupId = groupId ∧
      (groupId ∈ s₂.groups → Listed s (tr₃ ++ [] ++ tr₄ ++ tr₂) s' group)) (s₂.groups.keys.insertionSort (· ≤ ·)) groups := by
    refine heach.each ?_
    rintro groupId - tr₅ s₅ tr₆ s₆ tr₇ group rfl h₅ hone h₇
    obtain ⟨tr₈, s₈, tr₉, protocolType, rfl, hasked, hrest, rfl⟩ := Client.serves_bind.1 hone
    obtain ⟨tr₁₀, s₁₀, _, s₁₁, tr₁₁, rfl, h₁₀, hnil, ⟨rfl, rfl⟩, h₁₁⟩ := Client.serves_ask.1 hasked
    obtain rfl : s₁₀ = s₁₁ := hnil.1
    have hpast := (h₄.append h₅).append h₁₀
    have hrest := (h₁₁.append hrest).append h₇
    refine ⟨rfl, fun hmem => ⟨groups_kept_path (hpast.append hrest) hmem, _, s₁₀, _, ?_, h₃.append hpast, hrest, rfl⟩⟩
    simp only [List.append_assoc, List.nil_append]
  have hids : groups.map (·.groupId) = s₂.groups.keys.insertionSort (· ≤ ·) := by
    have hsame := List.forall₂_map_right_iff.2 (hall.imp fun groupId group h => show groupId = group.groupId from h.1.symm)
    rw [List.forall₂_eq_eq_eq] at hsame
    exact hsame.symm
  refine ⟨?_, fun groupId hmem => ?_, fun group hmem => ?_⟩
  · have hsorted : (groups.map (·.groupId)).Pairwise (· < ·) := by
      rw [hids]
      exact pairwise_insertionSort_key (f := id) (fun _ _ => Iff.rfl) s₂.groups.keys_nodup
    exact List.pairwise_map.1 hsorted
  · rw [hids, List.mem_insertionSort]
    exact AList.mem_keys.1 (groups_kept_path h₃ hmem)
  · obtain ⟨groupId, hid, rfl, h⟩ := forall₂_mem_left hall.flip hmem
    exact h (AList.mem_keys.2 ((List.mem_insertionSort _).1 hid))

end

/-- A client that describes whatever is listed. -/
def listThenDescribe : GroupHandler (ListGroupsResponse × DescribeGroupsResponse) := do
  let listed ← ListGroups.response
  let described ← DescribeGroups.response (listed.groups.map (·.groupId))
  pure (listed, described)

/-- Listing and describing agree. A list of groups is sorted and has every group that existed when it was asked for, each
with the protocol type it had at some point of the call; and if the groups of a list are described, beside any other calls,
none of them is missing, and each description is true of its group. -/
theorem listed_groups_are_described (before : List CoordinatorEvent) (s : Coordinator) (hrun : coordinator.Run before s)
    (tr : List CoordinatorEvent) (s' : Coordinator) (listed : ListGroupsResponse) (described : DescribeGroupsResponse)
    (hserved : listThenDescribe.Serves s tr s' (listed, described))
    (hgen : ∀ groupId, (s'.group groupId).generationId < i32Max) :
    listed.errorCode = 0 ∧ (listed.groups.Pairwise fun a b => a.groupId < b.groupId) ∧
    (∀ groupId ∈ s.groups, groupId ∈ listed.groups.map (·.groupId)) ∧
    (∀ group ∈ listed.groups, ∃ tr₁ s₁ tr₂, tr = tr₁ ++ tr₂ ∧ coordinator.Path s tr₁ s₁ ∧ coordinator.Path s₁ tr₂ s' ∧
      group.protocolType = (s₁.group group.groupId).protocolType) ∧
    List.Forall₂ (fun group described => ∃ e ∈ tr, Described (before ++ tr) group.groupId (e.post.group group.groupId) described)
      listed.groups described.groups := by
  obtain ⟨tr₁, s₁, tr₂, listed', rfl, hlist, hrest⟩ := Client.serves_bind.1 hserved
  obtain ⟨tr₃, s₂, tr₄, described', rfl, hdescribe, hpath, heq⟩ := Client.serves_bind.1 hrest
  obtain ⟨rfl, rfl⟩ := Prod.mk.inj heq
  replace hdescribe := hdescribe.append hpath
  obtain ⟨tr₅, s₃, tr₆, groups, rfl, hgroups, hpath', rfl⟩ := Client.serves_bind.1 hlist
  replace hgroups := hgroups.append hpath'
  obtain ⟨hsorted, hall, hlisted⟩ := list_served hgroups
  obtain ⟨-, hdescribed⟩ := describeGroups_served (hrun.append hgroups.path) hdescribe fun groupId _ => hgen groupId
  refine ⟨rfl, List.pairwise_map.2 hsorted, fun groupId hmem => ?_, ?_, ?_⟩
  · simpa using hall groupId hmem
  · intro group hmem
    obtain ⟨summary, hsummary, rfl⟩ := List.mem_map.1 hmem
    obtain ⟨tr₇, s₄, tr₈, htr, h₇, h₈, htype⟩ := (hlisted summary hsummary).seen
    exact ⟨tr₇, s₄, tr₈ ++ (tr₃ ++ tr₄), by rw [htr, List.append_assoc], h₇, h₈.append hdescribe.path, htype⟩
  · rw [List.append_assoc] at hdescribed
    rw [List.map_map, List.forall₂_map_left_iff] at hdescribed
    rw [List.forall₂_map_left_iff]
    refine ((List.forall₂_and_left _ _).2 ⟨hlisted, hdescribed⟩).imp fun summary described h => ?_
    obtain ⟨hlisted, ⟨-, hmissing⟩ | ⟨e, he, hdescribed⟩⟩ := h
    · exact absurd hlisted.there hmissing
    · exact ⟨e, List.mem_append_right _ he, hdescribed⟩

theorem listed_groups_are_described_two_members : ∃ before s tr s' listed described,
    coordinator.exec .new twoMembers = some (before, s) ∧ listThenDescribe.Serves s tr s' (listed, described) ∧
    listed.groups = [⟨"g", "consumer", "", ""⟩] ∧ ∃ group ∈ described.groups, ∃ e ∈ tr,
      Described (before ++ tr) "g" (e.post.group "g") group := by
  have hsome : ((coordinator.exec .new twoMembers).bind fun r =>
      (coordinator.step r.2 (.describe "g" ⟨1, 1, 1⟩)).map fun r₁ =>
        (r.2.groups.keys, (r.2.group "g").protocolType, r₁.1, r₁.2.groups.entries.map fun e => (e.1, e.2.timed.group.generationId))) =
      some (["g"], "consumer",
        .describe (some ⟨"g", "Stable", "consumer", "range", [⟨"a-1", "a", [1], [1]⟩, ⟨"b-2", "b", [1], [2]⟩]⟩), [("g", 2)]) := by
    decide +kernel
  obtain ⟨⟨before, s⟩, hx, hsome⟩ := Option.bind_eq_some_iff.1 hsome
  obtain ⟨⟨out₁, s₁⟩, h₁, hsome⟩ := Option.map_eq_some_iff.1 hsome
  simp only [Prod.mk.injEq] at hsome
  obtain ⟨hkeys, htype, rfl, hgens⟩ := hsome
  have hrun := (Machine.exec_path hx).1
  have hgen : ∀ groupId, (s₁.group groupId).generationId < i32Max := by
    intro groupId
    cases hl : s₁.groups.lookup groupId with
    | none =>
      rw [Coordinator.group, Coordinator.timed, hl]
      decide
    | some cell =>
      rw [Coordinator.group, timed_of_lookup hl]
      have hmem := List.mem_map_of_mem (f := fun e => (e.1, e.2.timed.group.generationId)) (lookup_eq_some_iff.1 hl)
      rw [hgens, List.mem_singleton] at hmem
      rw [(Prod.mk.inj hmem).2]
      decide
  have hserved : listThenDescribe.Serves s _ s₁ (⟨0, 0, [⟨"g", "consumer", "", ""⟩]⟩, ⟨0, [_]⟩) :=
    ⟨[], s, [], s, _, ["g"], rfl, .nil, .nil, ⟨rfl, hkeys.symm⟩, [], s, [], s, _, "consumer", rfl, .nil, .nil, ⟨rfl, htype.symm⟩,
      Client.serves_step h₁ ⟨_, _, rfl, rfl, rfl⟩ (Client.serves_pure.2 ⟨.nil, rfl⟩)⟩
  refine ⟨before, s, _, s₁, _, _, hx, hserved, rfl, ?_⟩
  obtain ⟨-, -, -, -, hdescribed⟩ := listed_groups_are_described before s hrun _ s₁ _ _ hserved hgen
  obtain ⟨e, he, h⟩ := (List.forall₂_cons.1 hdescribed).1
  exact ⟨_, List.mem_cons_self .., e, he, h⟩

end MemKafka
