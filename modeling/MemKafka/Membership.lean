import MemKafka.GroupHistory

/-!
# Who comes and goes

A section moves members in its expiry pass and in what it is for: a leave removes the member it names, and a join adds
its own, if it may (`run_moves`). Whoever else disappears was stale.
-/

namespace MemKafka
open Kit Relation

section
variable {id : String} {member : Member}

theorem mem_completeRebalanceIfReady {group : Group} {completed : Nat} :
    id ∈ (completeRebalanceIfReady group completed).2.members ↔ id ∈ group.members := by
  rcases completeRebalanceIfReady_cases group completed with ⟨out, h, -⟩ | ⟨selected, -, -, h⟩ <;> rw [h]
  exact mem_map_iff (lookup_completeRebalance group selected completed)

theorem mem_addMember {group : Group} {mayAddMember : Bool} {request : JoinRequest} {clock : Clock} :
    id ∈ (addMember group mayAddMember request clock).members ↔ id = request.memberId ∨ id ∈ group.members := by
  rw [addMember_members, prospectiveMembers, AList.mem_insert]

/-- The members after a section, told from those its expiry pass leaves. -/
structure Moves (op : GroupOp) (body after : Group) : Prop where
  kept : ∀ id ∈ body.members, op = .leave id ∨ id ∈ after.members
  added : ∀ id ∈ after.members, id ∈ body.members ∨ ∃ request, op = .enter true request ∧ request.memberId = id

theorem Moves.same {op : GroupOp} {body after : Group} (h : ∀ id, id ∈ after.members ↔ id ∈ body.members) :
    Moves op body after :=
  ⟨fun id hid => .inr ((h id).2 hid), fun id hid => .inl ((h id).1 hid)⟩

theorem enter_moves (group : Group) (clock : Clock) (mayAddMember : Bool) (request : JoinRequest) :
    Moves (.enter mayAddMember request) (expireStaleMembers group clock none) (enter group clock mayAddMember request).2 := by
  by_cases hunknown : ¬ mayAddMember ∧ request.memberId ∉ (expireStaleMembers group clock none).members
  · rw [show enter group clock mayAddMember request = (.failed .unknownMemberId, expireStaleMembers group clock none) from
      if_pos hunknown]
    exact .same fun _ => Iff.rfl
  obtain ⟨body, rfl, ⟨error, h⟩ | ⟨result, -, h⟩ | ⟨selected, after, out, -, hcomplete, h⟩⟩ :=
    enter_cases group clock mayAddMember request
  · rw [h]; exact .same fun _ => Iff.rfl
  · rw [h]; exact .same fun _ => mem_update
  have hafter : ∀ id, id ∈ after.members ↔ id = request.memberId ∨
      id ∈ (expireStaleMembers group clock none).members := by
    intro id
    rw [show after = (completeRebalanceIfReady (addMember (expireStaleMembers group clock none) mayAddMember request
      clock) clock.completed).2 by rw [hcomplete], mem_completeRebalanceIfReady, mem_addMember]
  rw [show (enter group clock mayAddMember request).2 = after by rcases h with ⟨error, -, h⟩ | ⟨-, h⟩ <;> rw [h]]
  refine ⟨fun id hid => .inr ((hafter id).2 (.inr hid)), fun id hid => ?_⟩
  rcases (hafter id).1 hid with rfl | hid
  · cases mayAddMember with
    | true => exact .inr ⟨request, rfl, rfl⟩
    | false => exact .inl (by simpa using hunknown)
  · exact .inl hid

theorem wait_moves (group : Group) (clock : Clock) (memberId : String) (target : Nat) :
    Moves (.wait memberId target) group (wait group clock memberId target).2 ∨
      Moves (.wait memberId target) (expireStaleMembers group clock (some memberId)) (wait group clock memberId target).2 := by
  rcases wait_cases group clock memberId target with ⟨result, -, h⟩ | ⟨error, h⟩ | ⟨after, out, -, -, -, hcomplete, h⟩
  · rw [h]; exact .inl (.same fun _ => Iff.rfl)
  · rw [h]; exact .inl (.same fun _ => Iff.rfl)
  · rw [show (wait group clock memberId target).2 = (completeRebalanceIfReady (expireStaleMembers group clock (some memberId))
      clock.completed).2 by rw [hcomplete]; rcases h with ⟨error, -, h⟩ | ⟨result, -, h⟩ | ⟨-, -, h⟩ <;> rw [h]]
    exact .inr (.same fun _ => mem_completeRebalanceIfReady)

theorem sync_moves (group : Group) (clock : Clock) (generationId : Int) (memberId : String)
    (assignments : List SyncAssignment) (refresh : Bool) :
    Moves (.sync generationId memberId assignments refresh)
      (expireStaleMembers group clock (if refresh then none else some memberId))
      (sync group clock generationId memberId assignments refresh).2 := by
  obtain ⟨body, rfl, ⟨error, -, h⟩ | ⟨touched, htouched, -, hgen, h⟩⟩ :=
    sync_cases group clock generationId memberId assignments refresh
  · rw [h]; exact .same fun _ => Iff.rfl
  have htouch : ∀ id, id ∈ touched.members ↔
      id ∈ (expireStaleMembers group clock (if refresh then none else some memberId)).members := by
    intro id
    rw [← htouched]
    split
    · exact mem_update
    · exact Iff.rfl
  obtain rfl : touched.generationId = generationId := by rw [← hgen, ← htouched]; split <;> rfl
  rcases h with ⟨-, h⟩ | ⟨-, h⟩ | ⟨-, -, -, h⟩ | ⟨-, rfl, -, h⟩ | ⟨-, -, h⟩ <;> rw [h]
  · obtain ⟨deadline, heq, -⟩ := clearRebalanceDeadline_eq (markSynced touched memberId touched.generationId)
    rw [syncStable, heq]
    exact .same fun id => mem_update.trans (htouch id)
  · exact .same htouch
  · exact .same htouch
  · obtain ⟨members, deadline, heq, hm, -⟩ := installAssignments_eq touched assignments clock.now
    rw [heq]
    exact .same fun id => (mem_map_iff hm).trans (htouch id)
  · exact .same fun id => mem_update.trans (htouch id)

theorem leave_moves (group : Group) (clock : Clock) (memberId : String) :
    Moves (.leave memberId) (expireStaleMembers group clock none) (leave group clock memberId).2 := by
  unfold leave
  dsimp only
  split
  · exact .same fun _ => Iff.rfl
  have hafter : ∀ id, id ∈ (completeRebalanceIfReady (removeMembers (expireStaleMembers group clock none) [memberId]
      clock.begun) clock.completed).2.members ↔ id ∈ (expireStaleMembers group clock none).members ∧ id ∉ [memberId] := by
    intro id
    rw [mem_completeRebalanceIfReady, removeMembers_members, mem_eraseAll]
  split <;> rename_i heq <;> rw [heq] at hafter
  all_goals
    refine ⟨fun id hid => ?_, fun id hid => .inl ((hafter id).1 hid).1⟩
    by_cases hleft : id = memberId
    · exact .inl (by rw [hleft])
    · exact .inr ((hafter id).2 ⟨hid, by simpa using hleft⟩)

/-- A section moves members only in its expiry pass, and in what it is for. -/
theorem run_moves (op : GroupOp) (group : Group) (clock : Clock) :
    (∀ id, op ≠ .leave id) ∧ Moves op group (op.run group clock).2 ∨
      ∃ active, (∀ id, op = .leave id → active = none) ∧
        Moves op (expireStaleMembers group clock active) (op.run group clock).2 := by
  cases op with
  | enter mayAddMember request => exact .inr ⟨none, fun _ _ => rfl, enter_moves ..⟩
  | wait memberId target =>
    rcases wait_moves group clock memberId target with h | h
    · exact .inl ⟨by simp, h⟩
    · exact .inr ⟨some memberId, by simp, h⟩
  | sync generationId memberId assignments refresh => exact .inr ⟨_, by simp, sync_moves ..⟩
  | heartbeat generationId memberId =>
    refine .inr ⟨none, fun _ _ => rfl, .same fun id => ?_⟩
    simp only [GroupOp.run, heartbeat]
    split
    · exact Iff.rfl
    · split <;> exact mem_update
  | leave memberId => exact .inr ⟨none, fun _ _ => rfl, leave_moves ..⟩
  | commitOffsets generationId memberId offsets =>
    refine .inr ⟨none, fun _ _ => rfl, .same fun id => ?_⟩
    simp only [GroupOp.run, commitOffsets]
    split
    · exact Iff.rfl
    · split <;> exact Iff.rfl
  | describe groupId => exact .inr ⟨none, fun _ _ => rfl, .same fun _ => Iff.rfl⟩
  | drive => exact .inr ⟨none, fun _ _ => rfl, .same fun _ => mem_completeRebalanceIfReady⟩

/-- Whoever disappears in a section leaves in it, or is removed by its expiry pass. -/
theorem run_removes {op : GroupOp} {group : Group} {clock : Clock} (hmem : id ∈ group.members)
    (hgone : id ∉ (op.run group clock).2.members) :
    op = .leave id ∧ id ∈ (expireStaleMembers group clock none).members ∨
      ∃ active, id ∉ (expireStaleMembers group clock active).members := by
  rcases run_moves op group clock with ⟨hop, hmoves⟩ | ⟨active, hactive, hmoves⟩
  · exact absurd ((hmoves.kept id hmem).resolve_right hgone) (hop id)
  · by_cases hkept : id ∈ (expireStaleMembers group clock active).members
    · have hleave := (hmoves.kept id hkept).resolve_right hgone
      rw [hactive id hleave] at hkept
      exact .inl ⟨hleave, hkept⟩
    · exact .inr ⟨active, hkept⟩

/-- Whoever an expiry pass removes is stale. -/
theorem stale_of_expired {group : Group} {clock : Clock} {active : Option String}
    (hl : group.members.lookup id = some member)
    (hgone : id ∉ (expireStaleMembers group clock active).members) :
    group.isStale clock.now active id member = true := by
  unfold expireStaleMembers at hgone
  dsimp only at hgone
  have hmem : id ∈ group.members := mem_iff_lookup.2 ⟨member, hl⟩
  split at hgone
  · exact absurd hmem hgone
  rw [removeMembers_members, mem_eraseAll, not_and, not_not] at hgone
  obtain ⟨member', hl', hstale⟩ := mem_staleMembers.1 (hgone hmem)
  rwa [Option.some.inj (hl.symm.trans hl')]

end


end MemKafka
