import MemKafka.GroupMutations

/-!
# The representation invariant of a group

`GroupInv` says how the fields of a group hang together at every release of its lock: what is set in
which state, that the leader is a member, that the members share a protocol, and that in a completed
generation every member carries the result of that generation. Each mutation keeps it.
-/

namespace MemKafka
open Kit Relation

structure GroupInv (group : Group) : Prop where
  empty_iff : group.state = .empty ↔ group.members = ∅
  cleared : group.state = .empty → group.leaderMemberId = "" ∧ group.protocolType = "" ∧ group.selectedProtocol = "" ∧
    group.assignments = ∅ ∧ group.rebalanceDeadline = none
  leader : group.members ≠ ∅ → group.leaderMemberId ∈ group.members
  common : group.members ≠ ∅ → ∃ name, ∀ id member, group.members.lookup id = some member →
    member.advertises name = true
  deadline : group.state = .preparingRebalance ∨ group.state = .completingRebalance → group.rebalanceDeadline.isSome
  unassigned : group.state ≠ .stable → group.assignments = ∅
  assigned : group.state = .stable → ∀ id, id ∈ group.assignments ↔ id ∈ group.members
  joined : group.state = .completingRebalance ∨ group.state = .stable →
    ∀ id member, group.members.lookup id = some member →
    member.joinedEpoch = group.rebalanceEpoch ∧ ∃ result, member.completedJoin = some ⟨group.rebalanceEpoch, result⟩ ∧
      result.generationId = group.generationId ∧ result.leader = group.leaderMemberId ∧
      result.protocolName = group.selectedProtocol
  leader_unsynced : group.state = .completingRebalance → ∀ member, group.members.lookup group.leaderMemberId = some member →
    member.syncedGeneration ≠ group.generationId
  nonneg : 0 ≤ group.generationId
  synced : ∀ id member, group.members.lookup id = some member → member.syncedGeneration ≤ group.generationId
  pending : group.state = .stable → ∀ id member, group.members.lookup id = some member →
    member.syncedGeneration ≠ group.generationId → group.rebalanceDeadline.isSome

namespace GroupInv
variable {group : Group} {clock : Clock}

/-- A group without members. -/
theorem of_empty (hstate : group.state = .empty) (hmembers : group.members = ∅) (hleader : group.leaderMemberId = "")
    (htype : group.protocolType = "") (hselected : group.selectedProtocol = "") (hassign : group.assignments = ∅)
    (hdeadline : group.rebalanceDeadline = none) (hnonneg : 0 ≤ group.generationId) : GroupInv group where
  empty_iff := ⟨fun _ => hmembers, fun _ => hstate⟩
  cleared _ := ⟨hleader, htype, hselected, hassign, hdeadline⟩
  leader h := absurd hmembers h
  common h := absurd hmembers h
  deadline h := by rw [hstate] at h; rcases h with h | h <;> cases h
  unassigned _ := hassign
  assigned h := by rw [hstate] at h; cases h
  joined h := by rw [hstate] at h; rcases h with h | h <;> cases h
  leader_unsynced h := by rw [hstate] at h; cases h
  nonneg := hnonneg
  synced id member h := by rw [hmembers] at h; cases h
  pending h := by rw [hstate] at h; cases h

theorem new : GroupInv .new := of_empty rfl rfl rfl rfl rfl rfl rfl le_rfl

theorem ne_empty_of_mem {id : String} (h : id ∈ group.members) : group.members ≠ ∅ := ne_empty_iff.2 ⟨id, h⟩

/-- Members that share a protocol can select one. -/
theorem select (h : GroupInv group) (hne : group.members ≠ ∅) :
    ∃ selected, selectProtocol group.members = .ok selected := by
  obtain ⟨name, hname⟩ := h.common hne
  exact selectProtocol_of_common hne hname

/-- A group with members in which a rebalance is prepared. -/
theorem of_preparing (hstate : group.state = .preparingRebalance) (hleader : group.leaderMemberId ∈ group.members)
    (hcommon : ∃ name, ∀ id member, group.members.lookup id = some member → member.advertises name = true)
    (hdeadline : group.rebalanceDeadline.isSome) (hassign : group.assignments = ∅) (hnonneg : 0 ≤ group.generationId)
    (hsynced : ∀ id member, group.members.lookup id = some member → member.syncedGeneration ≤ group.generationId) :
    GroupInv group where
  empty_iff := ⟨fun h => (by rw [hstate] at h; cases h), fun h => absurd h (ne_empty_of_mem hleader)⟩
  cleared h := by rw [hstate] at h; cases h
  leader _ := hleader
  common _ := hcommon
  deadline _ := hdeadline
  unassigned _ := hassign
  assigned h := by rw [hstate] at h; cases h
  joined h := by rw [hstate] at h; rcases h with h | h <;> cases h
  leader_unsynced h := by rw [hstate] at h; cases h
  nonneg := hnonneg
  synced := hsynced
  pending h := by rw [hstate] at h; cases h

theorem remove (h : GroupInv group) {ids : List String} (hids : ∃ id ∈ ids, id ∈ group.members) (begun : Nat) :
    GroupInv (removeMembers group ids begun) := by
  obtain ⟨id₀, -, hid₀⟩ := hids
  obtain ⟨name, hname⟩ := h.common (ne_empty_of_mem hid₀)
  have back : ∀ id member, (eraseAll group.members ids).lookup id = some member →
      group.members.lookup id = some member := by
    intro id member hl
    rw [lookup_eraseAll] at hl
    split at hl
    · cases hl
    · exact hl
  have hcommon : ∃ name, ∀ id member, (eraseAll group.members ids).lookup id = some member →
      member.advertises name = true :=
    ⟨name, fun id member hl => hname id member (back id member hl)⟩
  have hsynced := fun id member hl => h.synced id member (back id member hl)
  rcases removeMembers_cases group ids begun with ⟨-, heq⟩ | ⟨leader, hleader, -, ⟨-, heq⟩ | ⟨hstate, heq⟩⟩
  · rw [heq]; exact of_empty rfl rfl rfl rfl rfl rfl rfl h.nonneg
  · rw [heq]; exact of_preparing rfl hleader hcommon rfl rfl h.nonneg hsynced
  · rw [heq]; exact of_preparing hstate hleader hcommon (h.deadline (.inl hstate)) rfl h.nonneg hsynced

theorem add (h : GroupInv group) (mayAddMember : Bool) {request : JoinRequest} {selected : String}
    (hselect : selectProtocol (prospectiveMembers group request clock.now) = .ok selected) :
    GroupInv (addMember group mayAddMember request clock) := by
  have hcommon := (selectProtocol_ok hselect).2
  have hsynced : ∀ id member, (prospectiveMembers group request clock.now).lookup id = some member →
      member.syncedGeneration ≤ group.generationId := by
    intro id member hl
    rcases lookup_of_insert hl with ⟨-, rfl⟩ | hl
    · have := h.nonneg
      cases hp : group.members.lookup request.memberId with
      | none => simp only [joiningMember, hp, Option.map_none, Option.getD_none]; omega
      | some prior => simp only [joiningMember, hp, Option.map_some, Option.getD_some]; exact h.synced _ prior hp
    · exact h.synced id member hl
  obtain ⟨leader, hl, hcases⟩ := addMember_cases group mayAddMember request clock
  have hleader : leader ∈ prospectiveMembers group request clock.now := by
    refine (AList.mem_insert _).2 ?_
    rcases hl with rfl | ⟨rfl, hne⟩
    · exact .inl rfl
    · by_cases hempty : group.members = ∅
      · exact absurd (h.cleared (h.empty_iff.2 hempty)).1 hne
      · exact .inr (h.leader hempty)
  rcases hcases with ⟨-, heq⟩ | ⟨deadline, hstate, heq, hd⟩
  · rw [heq]; exact of_preparing rfl hleader ⟨selected, hcommon⟩ rfl rfl h.nonneg hsynced
  · obtain ⟨d, hsome⟩ := Option.isSome_iff_exists.1 (h.deadline (.inl hstate))
    obtain ⟨d', rfl, -⟩ := hd d hsome
    rw [heq]
    exact of_preparing hstate hleader ⟨selected, hcommon⟩ rfl (h.unassigned (by rw [hstate]; decide)) h.nonneg hsynced

/-- Rewriting members without touching what they joined; a sync mark may be set, but not the leader's
while the generation is still being completed. -/
theorem map (h : GroupInv group) {members : Members} {f : String → Member → Member}
    (hm : ∀ id, members.lookup id = (group.members.lookup id).map (f id))
    (hf : ∀ id member, (f id member).protocols = member.protocols ∧ (f id member).joinedEpoch = member.joinedEpoch ∧
      (f id member).completedJoin = member.completedJoin)
    (hs : ∀ id member, (f id member).syncedGeneration = member.syncedGeneration ∨
      (f id member).syncedGeneration = group.generationId ∧
        (group.state = .completingRebalance → id ≠ group.leaderMemberId)) :
    GroupInv { group with members := members } := by
  have hmem : ∀ id, id ∈ members ↔ id ∈ group.members := fun id => mem_map_iff hm
  have hempty : members = ∅ ↔ group.members = ∅ := by simp only [eq_empty_iff, hmem]
  refine ⟨?_, h.cleared, ?_, ?_, h.deadline, h.unassigned, ?_, ?_, ?_, h.nonneg, ?_, ?_⟩
  · rw [hempty]; exact h.empty_iff
  · intro hne; exact (hmem _).2 (h.leader (mt hempty.2 hne))
  · intro hne
    obtain ⟨name, hname⟩ := h.common (mt hempty.2 hne)
    refine ⟨name, ?_⟩
    intro id member hl
    obtain ⟨member₀, hl₀, rfl⟩ := (lookup_map_eq_some hm).1 hl
    have := hname id member₀ hl₀
    rwa [Member.advertises, ← (hf id member₀).1] at this
  · intro hstate id; rw [hmem]; exact h.assigned hstate id
  · intro hstate id member hl
    obtain ⟨member₀, hl₀, rfl⟩ := (lookup_map_eq_some hm).1 hl
    rw [(hf id member₀).2.1, (hf id member₀).2.2]
    exact h.joined hstate id member₀ hl₀
  · intro hstate member hl
    obtain ⟨member₀, hl₀, rfl⟩ := (lookup_map_eq_some hm).1 hl
    rcases hs group.leaderMemberId member₀ with heq | ⟨-, hne⟩
    · rw [heq]; exact h.leader_unsynced hstate member₀ hl₀
    · exact absurd rfl (hne hstate)
  · intro id member hl
    obtain ⟨member₀, hl₀, rfl⟩ := (lookup_map_eq_some hm).1 hl
    rcases hs id member₀ with heq | ⟨heq, -⟩
    · rw [heq]; exact h.synced id member₀ hl₀
    · exact le_of_eq heq
  · intro hstate id member hl hne
    obtain ⟨member₀, hl₀, rfl⟩ := (lookup_map_eq_some hm).1 hl
    rcases hs id member₀ with heq | ⟨heq, -⟩
    · rw [heq] at hne; exact h.pending hstate id member₀ hl₀ hne
    · exact absurd heq hne

theorem touch (h : GroupInv group) (id : String) (now : Nat) : GroupInv (touchMember group id now) :=
  h.map (lookup_update_map id) (fun _ _ => by split <;> exact ⟨rfl, rfl, rfl⟩) fun _ _ => .inl (by split <;> rfl)

theorem mark (h : GroupInv group) {id : String} (hid : group.state = .completingRebalance → id ≠ group.leaderMemberId) :
    GroupInv (markSynced group id group.generationId) := by
  refine h.map (lookup_update_map id) (fun _ _ => by split <;> exact ⟨rfl, rfl, rfl⟩) fun id' member => ?_
  by_cases heq : id' = id
  · subst heq; exact .inr ⟨by rw [if_pos rfl], hid⟩
  · exact .inl (by rw [if_neg heq])

/-- In a stable group the deadline may go once everybody has synced. -/
theorem clear (h : GroupInv group) (hstate : group.state = .stable) (n : Nat) :
    GroupInv { clearRebalanceDeadlineIfAllSynced group with change := n } := by
  obtain ⟨deadline, heq, hd⟩ := clearRebalanceDeadline_eq group
  rw [heq]
  have hno : ∀ {s : GroupState}, s ≠ .stable → group.state ≠ s := fun hs h => hs (h.symm.trans hstate)
  refine ⟨h.empty_iff, fun he => absurd he (hno (by decide)), h.leader, h.common,
    fun he => he.elim (fun he => absurd he (hno (by decide))) (fun he => absurd he (hno (by decide))),
    h.unassigned, h.assigned, h.joined, h.leader_unsynced, h.nonneg, h.synced, fun _ id member hl hne => ?_⟩
  rcases hd with rfl | ⟨-, hall⟩
  · exact h.pending hstate id member hl hne
  · exact absurd (hall id member hl) hne

theorem syncStable (h : GroupInv group) (hstate : group.state = .stable) (id : String) :
    GroupInv (syncStable group group.generationId id) := by
  have hmarked : GroupInv (markSynced group id group.generationId) := h.mark fun hc => by rw [hstate] at hc; cases hc
  exact hmarked.clear hstate _

theorem steady {group' : Group} (h : GroupInv group) (hs : Steady clock group group') : GroupInv group' := by
  cases hs with
  | remove ids hids => exact h.remove hids _
  | touch id _ => exact h.touch id _
  | add mayAddMember request hselect => exact h.add mayAddMember hselect
  | mark id _ _ hfollower => exact h.mark fun _ => hfollower
  | syncStable id _ hstate => exact h.syncStable hstate id
  | commit offsets =>
    obtain ⟨h1, h2, h3, h4, h5, h6, h7, h8, h9, h10, h11, h12⟩ := h
    exact ⟨h1, h2, h3, h4, h5, h6, h7, h8, h9, h10, h11, h12⟩

theorem complete (h : GroupInv group) {selected : String} (hready : group.ready = true)
    (hselect : selectProtocol group.members = .ok selected) (hgen : group.generationId < i32Max) (completed : Nat) :
    GroupInv (completeRebalance group selected completed) := by
  obtain ⟨hstate, hne, hjoined⟩ := ready_iff.1 hready
  obtain ⟨id₀, h₀⟩ := ne_empty_iff.1 hne
  have hnext : nextGeneration group.generationId = group.generationId + 1 := if_pos hgen
  have back := fun id member => (lookup_map_eq_some (k := id) (v := member) (lookup_completeRebalance group selected completed)).1
  refine ⟨⟨fun hs => (by cases hs), fun hm => ?_⟩, fun hs => (by cases hs), fun _ => mem_mapVal.2 (h.leader hne), fun _ => ?_,
    fun _ => rfl, fun _ => rfl, fun hs => (by cases hs), fun _ id member hl => ?_, fun _ member hl => ?_, ?_,
    fun id member hl => ?_, fun hs => (by cases hs)⟩
  · exact absurd (mem_mapVal.2 h₀) (eq_empty_iff.1 hm id₀)
  · refine ⟨selected, ?_⟩
    intro id member hl
    obtain ⟨member₀, hl₀, rfl⟩ := back id member hl
    exact (selectProtocol_ok hselect).2 id member₀ hl₀
  · obtain ⟨member₀, hl₀, rfl⟩ := back id member hl
    exact ⟨hjoined id member₀ hl₀, _, rfl, rfl, rfl, rfl⟩
  · -- every sync mark is of an earlier generation
    obtain ⟨member₀, hl₀, rfl⟩ := back _ member hl
    show member₀.syncedGeneration ≠ nextGeneration group.generationId
    have := h.synced _ member₀ hl₀
    omega
  · show 0 ≤ nextGeneration group.generationId
    have := h.nonneg
    omega
  · obtain ⟨member₀, hl₀, rfl⟩ := back id member hl
    show member₀.syncedGeneration ≤ nextGeneration group.generationId
    have := h.synced id member₀ hl₀
    omega

theorem install (h : GroupInv group) {assignments : List SyncAssignment} (hi : Installs group assignments) (now : Nat) :
    GroupInv (installAssignments group group.generationId group.leaderMemberId assignments now) := by
  obtain ⟨hstate, hleader, hnames⟩ := hi
  obtain ⟨hnodup, hmem⟩ := namesEveryMember_iff.1 hnames
  obtain ⟨name, hname⟩ := h.common (ne_empty_of_mem hleader)
  -- the members with the leader's mark, and fresh heartbeats for all who have synced
  let members := mapVal (fun _ member => if member.syncedGeneration = group.generationId then { member with lastHeartbeat := now }
    else member) (markSynced group group.leaderMemberId group.generationId).members
  have hm : ∀ id, members.lookup id = (group.members.lookup id).map (installedMember group now id) :=
    lookup_installAssignments group now
  have hf := installedMember_spec group now
  have hmem' : ∀ id, id ∈ members ↔ id ∈ group.members := fun id => mem_map_iff hm
  have back := fun id member => (lookup_map_eq_some (k := id) (v := member) hm).1
  have stable : GroupInv { group with
      assignments := collect (assignments.map fun assignment => (assignment.memberId, assignment.assignment))
      members := members
      state := .stable } := by
    refine ⟨⟨fun hs => (by cases hs), fun he => ?_⟩, fun hs => (by cases hs), fun _ => (hmem' _).2 hleader, fun _ => ?_,
      fun hs => (by rcases hs with hs | hs <;> cases hs), fun hs => absurd rfl hs, fun _ id => ?_, fun _ id member hl => ?_,
      fun hs => (by cases hs), h.nonneg, fun id member hl => ?_, fun _ _ _ _ _ => h.deadline (.inr hstate)⟩
    · exact absurd ((hmem' _).2 hleader) (eq_empty_iff.1 he _)
    · refine ⟨name, ?_⟩
      intro id member hl
      obtain ⟨member₀, hl₀, rfl⟩ := back id member hl
      rw [Member.advertises, (hf id member₀).1]
      exact hname id member₀ hl₀
    · rw [hmem', mem_collectAssignments hnodup, hmem]
    · obtain ⟨member₀, hl₀, rfl⟩ := back id member hl
      rw [(hf id member₀).2.1, (hf id member₀).2.2.1]
      exact h.joined (.inl hstate) id member₀ hl₀
    · obtain ⟨member₀, hl₀, rfl⟩ := back id member hl
      rcases (hf id member₀).2.2.2 with heq | heq
      · rw [heq]; exact h.synced id member₀ hl₀
      · exact le_of_eq heq
  exact stable.clear rfl _

theorem of_path {group' : Group} (h : GroupInv group) (path : ReflTransGen (Steady clock) group group') :
    GroupInv group' := by
  induction path with
  | refl => exact h
  | tail _ hstep ih => exact ih.steady hstep

/-- A section keeps the invariant, as long as the generation has not reached its limit. -/
theorem of_section {op : GroupOp} {group' : Group} (h : GroupInv group) (hs : Section clock op group group')
    (hgen : group'.generationId < i32Max) : GroupInv group' := by
  cases hs with
  | steady path => exact h.of_path path
  | completes path ready select => exact (h.of_path path).complete ready select (nextGeneration_lt hgen) _
  | installs path assignments refresh hi hop => exact (h.of_path path).install hi _

end GroupInv

end MemKafka
