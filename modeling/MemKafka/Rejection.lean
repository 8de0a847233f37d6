import MemKafka.Election
import MemKafka.MemberIds

/-!
# Rejected requests

A section that fails has done no more than an expiry pass and, for a known member, noted that it was heard of
(`run_failed`). Some of its checks come after its writes; `Answerable` is the part of a group's invariant on which these
checks rest, and it holds at any generation.

A join opens its group before it takes the lock. A group it has opened accepts it unless somebody else got in first
(`rejected_requests_are_atomic`), which does happen (`rejected_join_opens_group`).
-/

namespace MemKafka
open Kit Relation

/-- Members can select a protocol, and in a stable group each has its assignment. -/
structure Answerable (group : Group) : Prop where
  common : group.members ≠ ∅ → ∃ name, Common group.members name
  assigned : group.state = .stable → ∀ id ∈ group.members, id ∈ group.assignments

section
variable {group group' : Group} {clock : Clock}

theorem Common.map {members members' : Members} {name : String} {f : String → Member → Member} (h : Common members name)
    (hm : ∀ id, members'.lookup id = (members.lookup id).map (f id))
    (hf : ∀ id member, (f id member).protocols = member.protocols) : Common members' name := by
  intro id member' hl
  obtain ⟨member, hl₀, rfl⟩ := (lookup_map_eq_some hm).1 hl
  rw [Member.advertises, hf]
  exact h id member hl₀

namespace Answerable

/-- Rewriting members without touching their protocols. -/
theorem map (h : Answerable group) {f : String → Member → Member}
    (hm : ∀ id, group'.members.lookup id = (group.members.lookup id).map (f id))
    (hf : ∀ id member, (f id member).protocols = member.protocols)
    (hassigned : group'.state = .stable → ∀ id ∈ group.members, id ∈ group'.assignments) : Answerable group' := by
  refine ⟨fun hne => ?_, fun hstate id hid => hassigned hstate id ((mem_map_iff hm).1 hid)⟩
  obtain ⟨id, hid⟩ := ne_empty_iff.1 hne
  obtain ⟨name, hname⟩ := h.common (ne_empty_iff.2 ⟨id, (mem_map_iff hm).1 hid⟩)
  exact ⟨name, hname.map hm hf⟩

theorem remove (h : Answerable group) (ids : List String) (begun : Nat) :
    Answerable (removeMembers group ids begun) := by
  refine ⟨fun hne => ?_, fun hstate => ?_⟩
  · rw [removeMembers_members] at hne ⊢
    obtain ⟨id, hid⟩ := ne_empty_iff.1 hne
    obtain ⟨name, hname⟩ := h.common (ne_empty_iff.2 ⟨id, (mem_eraseAll.1 hid).1⟩)
    refine ⟨name, fun id member hl => ?_⟩
    rw [lookup_eraseAll] at hl
    split at hl
    · cases hl
    · exact hname id member hl
  · rcases removeMembers_cases group ids begun with ⟨-, heq⟩ | ⟨leader, -, -, ⟨-, heq⟩ | ⟨hpre, heq⟩⟩ <;> rw [heq] at hstate
    · cases hstate
    · cases hstate
    · exact absurd (hpre.symm.trans hstate) (by simp)

theorem touch (h : Answerable group) (id : String) (now : Nat) : Answerable (touchMember group id now) := by
  refine h.map (lookup_update_map id) (fun id' member => ?_) h.assigned
  split <;> rfl

theorem mark (h : Answerable group) (id : String) (generationId : Int) : Answerable (markSynced group id generationId) := by
  refine h.map (lookup_update_map id) (fun id' member => ?_) h.assigned
  split <;> rfl

theorem steady (h : Answerable group) (hs : Steady clock group group') : Answerable group' := by
  cases hs with
  | remove ids _ => exact h.remove ids _
  | touch id _ => exact h.touch id _
  | add mayAddMember request select =>
    obtain ⟨leader, -, ⟨-, heq⟩ | ⟨deadline, hpre, heq, -⟩⟩ := addMember_cases group mayAddMember request clock <;> rw [heq]
    · exact ⟨fun _ => ⟨_, (selectProtocol_ok select).2⟩, fun hstate => (by cases hstate)⟩
    · exact ⟨fun _ => ⟨_, (selectProtocol_ok select).2⟩, fun hstate => absurd (hpre.symm.trans hstate) (by simp)⟩
  | mark id _ _ _ => exact h.mark id _
  | syncStable id _ _ =>
    obtain ⟨deadline, heq, -⟩ := clearRebalanceDeadline_eq (markSynced group id group.generationId)
    rw [MemKafka.syncStable, heq]
    exact ⟨(h.mark id _).common, (h.mark id _).assigned⟩
  | commit offsets => exact ⟨h.common, h.assigned⟩

theorem mutation (h : Answerable group) (hm : Mutation clock group group') : Answerable group' := by
  cases hm with
  | steady hs => exact h.steady hs
  | complete ready select =>
    exact h.map (lookup_completeRebalance group _ clock.completed) (fun _ _ => rfl) fun hstate => (by cases hstate)
  | install assignments hi =>
    obtain ⟨hnodup, hmem⟩ := namesEveryMember_iff.1 hi.names
    obtain ⟨members, deadline, heq, hm, -⟩ := installAssignments_eq group assignments clock.now
    rw [heq]
    refine h.map hm (fun id member => (installedMember_spec group clock.now id member).1) fun _ id hid => ?_
    exact (mem_collectAssignments hnodup).2 ((hmem id).2 hid)

theorem of_mutations (h : Answerable group) (path : ReflTransGen (Mutation clock) group group') : Answerable group' := by
  induction path with
  | refl => exact h
  | tail _ hstep ih => exact ih.mutation hstep

theorem expire (h : Answerable group) (clock : Clock) (active : Option String) :
    Answerable (expireStaleMembers group clock active) := by
  rcases expireStaleMembers_cases group clock active with heq | ⟨ids, -, -, heq⟩ <;> rw [heq]
  · exact h
  · exact h.remove ids _

theorem of_groupRun {evs : List GroupEvent} {t : TimedGroup} (h : groupMachine.Run evs t) : Answerable t.group := by
  refine Machine.Run.invariant (M := groupMachine) (P := fun t => Answerable t.group) ?_ (fun e he hp => ?_) h
  · exact ⟨fun hne => absurd rfl hne, fun hstate => (by cases hstate)⟩
  · exact hp.of_mutations (groupMachine_section he).mutations

/-- No completion of a rebalance fails. -/
theorem completes (h : Answerable group) {completed : Nat} {out : Except GroupError Bool}
    (heq : completeRebalanceIfReady group completed = (out, group')) (error : GroupError) : out ≠ .error error := by
  rcases completeRebalanceIfReady_cases group completed with ⟨out', hsame, hout⟩ | ⟨selected, -, -, hdone⟩
  · obtain ⟨rfl, -⟩ := Prod.mk.inj (hsame.symm.trans heq)
    rcases hout with ⟨rfl, -⟩ | ⟨error', rfl, hselect⟩
    · simp
    · intro _
      have hready : group.ready = true := by
        by_contra hnot
        rw [completeRebalanceIfReady, if_pos (by simpa using hnot)] at hsame
        cases hsame
      have hne := (ready_iff.1 hready).2.1
      obtain ⟨selected, hs⟩ := (selectProtocol_isOk group.members).2 ⟨hne, h.common hne⟩
      rw [hs] at hselect
      cases hselect
  · obtain ⟨rfl, -⟩ := Prod.mk.inj (hdone.symm.trans heq)
    simp

end Answerable

/-! ### Sections that fail -/

/-- The member whose request a section answers, if it is the first section of its call. -/
def GroupOp.asker : GroupOp → Option String
  | .enter _ request => some request.memberId
  | .sync _ memberId _ true => some memberId
  | .heartbeat _ memberId => some memberId
  | .leave memberId => some memberId
  | .commitOffsets _ memberId _ => some memberId
  | _ => none

/-- A group after a rejected request of a member: its stale members are gone, and at most the member's last heartbeat
is another. -/
def Spared (memberId : String) (clock : Clock) (group group' : Group) : Prop :=
  group' = expireStaleMembers group clock none ∨
    group' = touchMember (expireStaleMembers group clock none) memberId clock.now

/-- The members a join adds were checked before they were written. -/
theorem addMember_completes {mayAddMember : Bool} {request : JoinRequest} {selected : String}
    (hselect : selectProtocol (prospectiveMembers group request clock.now) = .ok selected)
    {out : Except GroupError Bool}
    (h : completeRebalanceIfReady (addMember group mayAddMember request clock) clock.completed = (out, group'))
    (error : GroupError) : out ≠ .error error := by
  rintro rfl
  rcases completeRebalanceIfReady_cases (addMember group mayAddMember request clock) clock.completed with
    ⟨out, hsame, hout⟩ | ⟨selected', -, -, hdone⟩
  · obtain ⟨rfl, -⟩ := Prod.mk.inj (hsame.symm.trans h)
    rcases hout with ⟨hok, -⟩ | ⟨error', -, hfail⟩
    · cases hok
    · rw [addMember_members, hselect] at hfail
      cases hfail
  · cases hdone.symm.trans h

theorem enter_failed {mayAddMember : Bool} {request : JoinRequest} {error : GroupError}
    (h : (enter group clock mayAddMember request).1 = .failed error) :
    (enter group clock mayAddMember request).2 = expireStaleMembers group clock none := by
  obtain ⟨body, rfl, ⟨error', heq⟩ | ⟨result, -, heq⟩ | ⟨selected, after, out, hselect, hcomplete, hout⟩⟩ :=
    enter_cases group clock mayAddMember request
  · rw [heq]
  · rw [heq] at h; cases h
  · rcases hout with ⟨error', rfl, -⟩ | ⟨-, heq⟩
    · exact absurd rfl (addMember_completes hselect hcomplete error')
    · rw [heq] at h; cases h

/-- A group without members accepts whoever may be added. -/
theorem enter_accepts {request : JoinRequest} (hempty : group.members = ∅) (hprotocols : request.protocols ≠ [])
    (error : GroupError) : (enter group clock true request).1 ≠ .failed error := by
  have hempty' : (expireStaleMembers group clock none).members = ∅ :=
    eq_empty_iff.2 fun id hid => eq_empty_iff.1 hempty id (mem_of_expire hid)
  obtain ⟨protocol, hprotocol⟩ := List.exists_mem_of_ne_nil _ hprotocols
  have hcommon : Common (prospectiveMembers (expireStaleMembers group clock none) request clock.now) protocol.name := by
    intro id member hl
    rcases lookup_of_insert hl with ⟨-, rfl⟩ | hl
    · exact List.any_eq_true.2 ⟨protocol, hprotocol, by simp⟩
    · rw [hempty'] at hl; cases hl
  have hne : prospectiveMembers (expireStaleMembers group clock none) request clock.now ≠ ∅ :=
    ne_empty_iff.2 ⟨request.memberId, (AList.mem_insert _).2 (.inl rfl)⟩
  obtain ⟨selected, hselect⟩ := selectProtocol_of_common hne hcommon
  rw [enter, if_neg (by simp), if_neg (by simp [hempty'])]
  split
  · simp
  · rw [hselect]
    dsimp only
    split
    · rename_i hcomplete
      exact absurd rfl (addMember_completes hselect hcomplete _)
    · simp

theorem sync_failed (inv : Answerable group) {generationId : Int} {memberId : String} {assignments : List SyncAssignment}
    {error : GroupError} (h : (sync group clock generationId memberId assignments true).1 = .failed error) :
    Spared memberId clock group (sync group clock generationId memberId assignments true).2 := by
  have hassigned : ∀ {after : Group}, memberId ∈ after.assignments → ownAssignment after memberId ≠ .failed error := by
    intro after hmem
    obtain ⟨assignment, hl⟩ := mem_iff_lookup.1 hmem
    rw [ownAssignment, hl]
    simp
  obtain ⟨body, rfl, ⟨error', -, heq⟩ | ⟨touched, rfl, hmem, hgen, heq⟩⟩ :=
    sync_cases group clock generationId memberId assignments true
  · rw [heq]; exact .inl rfl
  have hinv := (inv.expire clock none).touch memberId clock.now
  simp only [if_true] at heq hmem hgen
  have hmem' : memberId ∈ (touchMember (expireStaleMembers group clock none) memberId clock.now).members :=
    mem_update.2 hmem
  rcases heq with ⟨hstate, heq⟩ | ⟨-, heq⟩ | ⟨-, -, -, heq⟩ | ⟨hstate, hleader, hnames, heq⟩ | ⟨-, -, heq⟩
  · -- the mark of a stable group is set before the assignment is looked up, but the assignment is there
    rw [heq] at h
    refine absurd h (hassigned ?_)
    obtain ⟨deadline, hclear, -⟩ := clearRebalanceDeadline_eq
      (markSynced (touchMember (expireStaleMembers group clock none) memberId clock.now) memberId generationId)
    rw [MemKafka.syncStable, hclear]
    exact hinv.assigned hstate memberId hmem'
  · rw [heq]; exact .inr rfl
  · rw [heq]; exact .inr rfl
  · rw [heq] at h
    refine absurd h (hassigned ?_)
    obtain ⟨hnodup, hnamed⟩ := namesEveryMember_iff.1 hnames
    obtain rfl : (touchMember (expireStaleMembers group clock none) memberId clock.now).generationId = generationId := hgen
    obtain ⟨members, deadline, hinstall, -⟩ := installAssignments_eq
      (touchMember (expireStaleMembers group clock none) memberId clock.now) assignments clock.now
    rw [← hleader] at hinstall
    rw [hinstall]
    exact (mem_collectAssignments hnodup).2 ((hnamed memberId).2 hmem')
  · rw [heq] at h; cases h

/-- A request that fails in its first section has changed nothing but what an expiry pass and a heartbeat change. -/
theorem run_failed (inv : Answerable group) {op : GroupOp} {memberId : String} (hop : op.asker = some memberId)
    {error : GroupError} (h : (op.run group clock).1 = .failed error) :
    Spared memberId clock group (op.run group clock).2 := by
  cases op with
  | enter mayAddMember request => exact .inl (enter_failed h)
  | wait id target => cases hop
  | sync generationId id assignments refresh =>
    cases refresh <;> cases hop
    exact sync_failed inv h
  | heartbeat generationId id =>
    obtain rfl := Option.some.inj hop
    simp only [GroupOp.run, heartbeat] at h ⊢
    split at h
    · exact .inl rfl
    · split at h <;> cases h
      all_goals exact .inr rfl
  | leave id =>
    simp only [GroupOp.run, leave] at h ⊢
    split at h
    · rw [if_pos ‹_›]; exact .inl rfl
    · split at h
      · rename_i hcomplete
        exact absurd rfl (((inv.expire clock none).remove [id] clock.begun).completes hcomplete _)
      · cases h
  | commitOffsets generationId id offsets =>
    simp only [GroupOp.run, commitOffsets] at h ⊢
    split at h
    · exact .inl rfl
    · split at h
      · rw [if_pos ‹_›]; exact .inl rfl
      · cases h
  | describe groupId => cases hop
  | drive => cases hop

end

/-! ### Rejecting steps -/

/-- A step that rejects a request of a member to a group: a join up to its first locked section, the first pass of a
sync, or a call that takes one lock. -/
inductive Rejects (s : Coordinator) : String → String → CoordinatorLabel → CoordinatorReply → Prop
  | start (call : Nat) (request : JoinRequest) (requireKnownMemberId : Bool) (error : GroupError) :
      Rejects s request.groupId request.memberId (.join call request requireKnownMemberId) (.join request (.error error))
  | join {call : Nat} {request : JoinRequest} {point : JoinPoint} (clock : Clock) (error : GroupError)
      (stood : s.calls.lookup call = some (.join ⟨request, point⟩)) (first : ∀ target sleep, point ≠ .wait target sleep) :
      Rejects s request.groupId request.memberId (.resume call clock) (.join request (.error error))
  | sync {call : Nat} {request : SyncRequest} (clock : Clock) (error : GroupError)
      (stood : s.calls.lookup call = some (.sync ⟨request, none⟩)) :
      Rejects s request.groupId request.memberId (.resume call clock) (.sync request (.error error))
  | heartbeat (groupId : String) (generationId : Int) (memberId : String) (clock : Clock) (error : GroupError) :
      Rejects s groupId memberId (.heartbeat groupId generationId memberId clock) (.heartbeat (.error error))
  | leave (groupId memberId : String) (clock : Clock) (error : GroupError) :
      Rejects s groupId memberId (.leave groupId memberId clock) (.leave (.error error))
  | commitOffsets (groupId : String) (generationId : Int) (memberId : String) (offsets : List OffsetCommit) (clock : Clock)
      (error : GroupError) :
      Rejects s groupId memberId (.commitOffsets groupId generationId memberId offsets clock) (.commitOffsets (.error error))

/-- What the clock says in the section a label runs. -/
def CoordinatorLabel.clock? : CoordinatorLabel → Option Clock
  | .resume _ clock => some clock
  | .heartbeat _ _ _ clock => some clock
  | .leave _ _ clock => some clock
  | .commitOffsets _ _ _ _ clock => some clock
  | .describe _ clock => some clock
  | .drive _ clock => some clock
  | _ => none

/-- What a rejected request of a member leaves of the groups. -/
structure Atomic (s : Coordinator) (groupId memberId : String) (label : CoordinatorLabel) (s' : Coordinator) : Prop where
  groups : ∀ id, id ∈ s'.groups ↔ id ∈ s.groups
  others : ∀ id, id ≠ groupId → s'.groups.lookup id = s.groups.lookup id
  group : s'.group groupId = s.group groupId ∨
    ∃ clock, label.clock? = some clock ∧ Spared memberId clock (s.group groupId) (s'.group groupId)

section
variable {s s' s₁ : Coordinator} {label : CoordinatorLabel} {answer : CoordinatorReply} {groupId memberId : String}

theorem Atomic.same (h : s'.groups = s.groups) : Atomic s groupId memberId label s' :=
  ⟨fun _ => by rw [h], fun _ _ => by rw [h], .inl (by rw [Coordinator.group, Coordinator.group, Coordinator.timed, h]; rfl)⟩

theorem runSection_failed (inv : Answerable (s.group groupId)) {op : GroupOp} (hop : op.asker = some memberId)
    {clock : Clock} {error : GroupError} (hclock : label.clock? = some clock)
    (h : s.runSection groupId op clock = some (.failed error, s₁)) (hgroups : s'.groups = s₁.groups) :
    Atomic s groupId memberId label s' := by
  obtain ⟨cell, timed, hl, hstep, rfl⟩ := runSection_eq_some h
  obtain ⟨-, -, hout, hpost, -⟩ :=
    groupMachine_takes (e := ⟨cell.timed, (op, clock), .failed error, timed⟩) hstep
  have hl' : s'.groups.lookup groupId = some ⟨timed, cell.driver⟩ := by rw [hgroups, lookup_insert_eq, if_pos rfl]
  refine ⟨fun id => ?_, fun id hne => ?_, .inr ⟨clock, hclock, ?_⟩⟩
  · rw [hgroups, AList.mem_insert]
    exact or_iff_right_of_imp fun heq => heq ▸ mem_iff_lookup.2 ⟨cell, hl⟩
  · rw [hgroups, lookup_insert_eq, if_neg hne]
  · rw [Coordinator.group, timed_of_lookup hl] at inv
    rw [Coordinator.group, Coordinator.group, timed_of_lookup hl, timed_of_lookup hl',
      show timed.group = (op.run cell.timed.group clock).2 from hpost]
    exact run_failed inv hop hout.symm

theorem GroupTurn.failed (inv : Answerable (s.group groupId)) {op : GroupOp} (hop : op.asker = some memberId)
    {clock : Clock} {error : GroupError} (hclock : label.clock? = some clock)
    (h : GroupTurn s groupId op clock (.error error) s') : Atomic s groupId memberId label s' := by
  cases h with
  | missing missing => exact .same rfl
  | fails ran => exact runSection_failed inv hop hclock ran rfl

theorem JoinTurn.failed {call : Nat} {request : JoinRequest} {point : JoinPoint} {clock : Clock} {error : GroupError}
    (inv : Answerable (s.group request.groupId)) (hfirst : ∀ target sleep, point ≠ .wait target sleep)
    (h : JoinTurn s call request clock point (.join request (.error error)) s') :
    Atomic s request.groupId request.memberId (.resume call clock) s' := by
  cases h with
  | unknown unknown => exact .same rfl
  | fails runs ran =>
    cases runs with
    | enter mayAddMember => exact runSection_failed inv rfl rfl ran rfl
    | wait targetEpoch sleep awake => exact absurd rfl (hfirst targetEpoch sleep)

theorem SyncTurn.failed {call : Nat} {request : SyncRequest} {clock : Clock} {error : GroupError}
    (inv : Answerable (s.group request.groupId))
    (h : SyncTurn s call ⟨request, none⟩ clock (.sync request (.error error)) s') :
    Atomic s request.groupId request.memberId (.resume call clock) s' := by
  cases h with
  | missing missing => exact .same rfl
  | fails awake ran => exact runSection_failed inv rfl rfl ran rfl

theorem Rejects.atomic (h : Rejects s groupId memberId label answer) (inv : Answerable (s.group groupId))
    (hstep : s.step label = some (answer, s')) : Atomic s groupId memberId label s' := by
  cases h with
  | start call request requireKnownMemberId error =>
    cases step_turn hstep with
    | invalid free invalid => exact .same rfl
  | join clock error stood first =>
    cases step_turn hstep with
    | resumeJoin stood' turn =>
      cases stood.symm.trans stood'
      exact turn.failed inv first
    | resumeSync stood' turn => cases stood.symm.trans stood'
  | sync clock error stood =>
    cases step_turn hstep with
    | resumeJoin stood' turn => cases stood.symm.trans stood'
    | resumeSync stood' turn =>
      cases stood.symm.trans stood'
      exact turn.failed inv
  | heartbeat groupId generationId memberId clock error =>
    cases step_turn hstep with
    | heartbeat turn => exact turn.failed inv rfl rfl
  | leave groupId memberId clock error =>
    cases step_turn hstep with
    | leave turn => exact turn.failed inv rfl rfl
  | commitOffsets groupId generationId memberId offsets clock error =>
    cases step_turn hstep with
    | commitOffsets turn => exact turn.failed inv rfl rfl

end

/-! ### The calls under way -/

def CoordinatorLabel.call? : CoordinatorLabel → Option Nat
  | .join call _ _ => some call
  | .sync call _ => some call
  | .resume call _ => some call
  | .drop call => some call
  | _ => none

/-- A join that a step puts at a point is new and has protocols, or it goes on with its request; it goes on without the
right to add its member only if its group is there. -/
def Call.Follows (s : Coordinator) (call : Nat) : Call → Prop
  | .join ⟨request, point⟩ =>
    (request.protocols ≠ [] ∨ ∃ point₀, s.calls.lookup call = some (.join ⟨request, point₀⟩)) ∧
      (point = .openGroup false → request.groupId ∈ s.groups)
  | .sync _ => True

/-- A step leaves every call but its own alone. -/
inductive CallStep (s : Coordinator) (label : CoordinatorLabel) (s' : Coordinator) : Prop
  | same (calls : s'.calls = s.calls)
  | ends {call : Nat} (own : label.call? = some call) (calls : s'.calls = s.calls.erase call)
  | goes {call : Nat} (own : label.call? = some call) {c : Call} (calls : s'.calls = s.calls.insert call c)
      (follows : c.Follows s call)

section
variable {s s' s₁ : Coordinator} {label : CoordinatorLabel} {answer : CoordinatorReply} {groupId : String}

theorem SameCalls.callSet (h : SameCalls s s₁) {call : Nat} {c : Call} (own : label.call? = some call)
    (follows : c.Follows s call) : CallStep s label (s₁.setCall call c) :=
  .goes own (by rw [Coordinator.setCall, h.calls]) follows

theorem SameCalls.callEnded (h : SameCalls s s₁) {call : Nat} (own : label.call? = some call) :
    CallStep s label (s₁.endCall call) :=
  .ends own (by rw [Coordinator.endCall, h.calls])

theorem JoinTurn.callStep {call : Nat} {request : JoinRequest} {point : JoinPoint} {clock : Clock}
    (stood : s.calls.lookup call = some (.join ⟨request, point⟩))
    (h : JoinTurn s call request clock point answer s') : CallStep s (.resume call clock) s' := by
  have hstood : ∃ point₀, s.calls.lookup call = some (.join ⟨request, point₀⟩) := ⟨point, stood⟩
  cases h with
  | reserves => exact .ends rfl rfl
  | pending pending => exact .goes rfl rfl ⟨.inr hstood, by simp⟩
  | notPending absent => exact .goes rfl rfl ⟨.inr hstood, by simp⟩
  | known there known => exact .goes rfl rfl ⟨.inr hstood, fun _ => mem_iff_lookup.2 ⟨_, there⟩⟩
  | unknown unknown => exact .ends rfl rfl
  | opens mayAddMember => exact (openGroup_sameCalls s request.groupId).1.callSet rfl ⟨.inr hstood, by simp⟩
  | enters ran => exact (runSection_sameCalls ran).1.callSet rfl ⟨.inr hstood, by simp⟩
  | clears targetEpoch => exact .goes rfl rfl ⟨.inr hstood, by simp⟩
  | parks awake ran => exact (runSection_sameCalls ran).1.callSet rfl ⟨.inr hstood, by simp⟩
  | returns runs ran => exact (runSection_sameCalls ran).1.callEnded rfl
  | fails runs ran => exact (runSection_sameCalls ran).1.callEnded rfl

theorem SyncTurn.callStep {call : Nat} {sync : SyncCall} {clock : Clock}
    (h : SyncTurn s call sync clock answer s') : CallStep s (.resume call clock) s' := by
  cases h with
  | missing missing => exact .ends rfl rfl
  | parks awake ran => exact (runSection_sameCalls ran).1.callSet rfl trivial
  | returns awake ran => exact (runSection_sameCalls ran).1.callEnded rfl
  | fails awake ran => exact (runSection_sameCalls ran).1.callEnded rfl

theorem step_callStep (h : s.step label = some (answer, s')) : CallStep s label s' := by
  cases step_turn h with
  | invalid free invalid => exact .same rfl
  | @mints call request requireKnownMemberId free valid unnamed =>
    refine .goes rfl rfl ⟨.inl fun hnil => valid (.inl hnil), ?_⟩
    cases requireKnownMemberId <;> simp
  | starts free valid named => exact .goes rfl rfl ⟨.inl fun hnil => valid (.inl hnil), by simp⟩
  | sync request free => exact .goes rfl rfl trivial
  | resumeJoin stood turn => exact turn.callStep stood
  | resumeSync stood turn => exact turn.callStep
  | drop call => exact .ends rfl rfl
  | heartbeat turn => exact .same turn.sameCalls.calls
  | leave turn => exact .same turn.sameCalls.calls
  | commitOffsets turn => exact .same turn.sameCalls.calls
  | undescribed missing => exact .same rfl
  | described ran => exact .same (runSection_sameCalls ran).1.calls
  | fetchOffsets groupId requested => exact .same rfl
  | drive there awake ran => exact .same rfl

/-- A call stands still while others take their steps. -/
theorem CallStep.lookup_eq (h : CallStep s label s') {call : Nat} (hne : label.call? ≠ some call) :
    s'.calls.lookup call = s.calls.lookup call := by
  have hother : ∀ {k}, label.call? = some k → call ≠ k := fun hown heq => hne (heq ▸ hown)
  cases h with
  | same calls => rw [calls]
  | ends own calls => rw [calls, AList.lookup_erase_ne (hother own)]
  | goes own calls follows => rw [calls, AList.lookup_insert_ne (hother own)]

/-- Every join under way has protocols, and one without the right to add its member has found its group. -/
structure Underway (s : Coordinator) : Prop where
  protocols : ∀ call join, s.calls.lookup call = some (.join join) → join.request.protocols ≠ []
  there : ∀ call request, s.calls.lookup call = some (.join ⟨request, .openGroup false⟩) → request.groupId ∈ s.groups

theorem Underway.step (h : Underway s) (hstep : s.step label = some (answer, s')) : Underway s' := by
  have hkept : ∀ {groupId : String}, groupId ∈ s.groups → groupId ∈ s'.groups := groups_kept hstep
  cases step_callStep hstep with
  | same calls =>
    exact ⟨fun call join hl => h.protocols call join (calls ▸ hl),
      fun call request hl => hkept (h.there call request (calls ▸ hl))⟩
  | ends own calls =>
    refine ⟨fun call join hl => ?_, fun call request hl => ?_⟩ <;> rw [calls] at hl
    · exact h.protocols call join (lookup_of_erase hl)
    · exact hkept (h.there call request (lookup_of_erase hl))
  | goes own calls follows =>
    refine ⟨fun call join hl => ?_, fun call request hl => ?_⟩ <;> rw [calls] at hl <;>
      rcases lookup_of_insert hl with ⟨rfl, heq⟩ | hl
    · subst heq
      rcases follows.1 with hnew | ⟨point, stood⟩
      · exact hnew
      · exact h.protocols _ ⟨join.request, point⟩ stood
    · exact h.protocols call join hl
    · subst heq
      exact hkept (follows.2 rfl)
    · exact hkept (h.there call request hl)

theorem Underway.of_run {tr : List CoordinatorEvent} (h : coordinator.Run tr s) : Underway s := by
  refine Machine.Run.invariant (M := coordinator) (P := Underway) ?_ (fun e ht h => h.step ht) h
  exact ⟨fun _ _ hl => (by cases hl), fun _ _ hl => (by cases hl)⟩

/-- A call stands where it stood while the steps are those of others. -/
theorem lookup_of_others {between : List CoordinatorEvent} {s s' : Coordinator} (hpath : coordinator.Path s between s')
    {call : Nat} (hothers : ∀ e ∈ between, e.label.call? ≠ some call) : s'.calls.lookup call = s.calls.lookup call := by
  refine Machine.Path.induction (M := coordinator) (P := fun tr s' => (∀ e ∈ tr, e.label.call? ≠ some call) →
    s'.calls.lookup call = s.calls.lookup call) (fun _ => rfl) ?_ hpath hothers
  intro tr e _ ih he hothers
  rw [(step_callStep he).lookup_eq (hothers e (by simp))]
  exact ih fun f hf => hothers f (by simp [hf])

/-- A join that opened its group and is rejected by it was overtaken. -/
theorem overtaken {before between : List CoordinatorEvent} {opened rejected : CoordinatorEvent}
    (hrun : coordinator.Run (before ++ opened :: (between ++ [rejected])) s) {call : Nat} {clock clock' : Clock}
    {request : JoinRequest} {mayAddMember : Bool} {error : GroupError} (hopened : opened.label = .resume call clock)
    (hpoint : opened.pre.calls.lookup call = some (.join ⟨request, .openGroup mayAddMember⟩))
    (hnew : request.groupId ∉ opened.pre.groups) (hothers : ∀ e ∈ between, e.label.call? ≠ some call)
    (hrejected : rejected.label = .resume call clock') (hout : rejected.out = .join request (.error error)) :
    ∃ e ∈ between, ∃ other request', e.pre.calls.lookup other = some (.join ⟨request', .enter true⟩) ∧
      request'.groupId = request.groupId ∧ request'.memberId ∉ (e.pre.group request.groupId).members ∧
      request'.memberId ∈ (e.post.group request.groupId).members := by
  obtain ⟨hbefore, htakes, hpath⟩ := hrun.split
  have hrun' : coordinator.Run ((before ++ opened :: between) ++ rejected :: []) s := by simpa using hrun
  obtain ⟨hbetween, hlast, -⟩ := hrun'.split
  have hwalk : coordinator.Path opened.post between rejected.pre := (Machine.Path.split hpath).1
  -- the call was let in without its group, so it may add its member
  obtain rfl : mayAddMember = true := by
    cases mayAddMember with
    | true => rfl
    | false => exact absurd ((Underway.of_run hbefore).there call request hpoint) hnew
  have hpost : opened.post.calls.lookup call = some (.join ⟨request, .enter true⟩) ∧
      (opened.post.group request.groupId).members = ∅ := by
    have hstep : coordinator.step opened.pre opened.label = some (opened.out, opened.post) := htakes
    rw [hopened] at hstep
    simp only [coordinator, Coordinator.step, hpoint, Coordinator.resumeJoin, Option.some.injEq, Prod.mk.injEq] at hstep
    obtain ⟨-, heq⟩ := hstep
    have hidle : Idle opened.pre .progress opened.post := heq ▸ openGroup_idle opened.pre request.groupId call id
    rw [Coordinator.group, hidle.timed_eq, Coordinator.timed, AList.lookup_eq_none.2 hnew]
    exact ⟨heq ▸ lookup_setCall_self, rfl⟩
  -- it stands there until it is rejected
  have hstands : rejected.pre.calls.lookup call = some (.join ⟨request, .enter true⟩) :=
    (lookup_of_others hwalk hothers).trans hpost.1
  have hmembers : (rejected.pre.group request.groupId).members ≠ ∅ := by
    intro hempty
    have hturn : Turn rejected.pre rejected.label rejected.out rejected.post := step_turn hlast
    rw [hrejected, hout] at hturn
    generalize rejected.post = post at hturn
    cases hturn with
    | resumeJoin stood turn =>
      cases hstands.symm.trans stood
      cases turn with
      | fails runs ran =>
        cases runs
        exact enter_accepts hempty ((Underway.of_run hbetween).protocols call _ hstands) _ (runSection_reply ran).symm
    | resumeSync stood turn => cases hstands.symm.trans stood
  obtain ⟨id, hid⟩ := ne_empty_iff.1 hmembers
  obtain ⟨e, he, hetakes, hpre, hpost'⟩ := Machine.Path.crosses (P := fun s => id ∈ (s.group request.groupId).members) hwalk
    (eq_empty_iff.1 hpost.2 id) hid
  obtain ⟨other, request', hother, hgroupId, rfl⟩ := step_admits hetakes hpost' hpre
  exact ⟨e, he, other, request', hother, hgroupId, hpre, hpost'⟩

end

/-- Rejected requests are atomic. A step that rejects a request adds no group, leaves the others alone, and of the group
of the request it has at most expired the stale members and noted the caller's heartbeat. A join that itself opened the
group that rejects it was overtaken: another join was let into the group in between. -/
theorem rejected_requests_are_atomic (tr : List CoordinatorEvent) (s : Coordinator) (hrun : coordinator.Run tr s) :
    (∀ (groupId memberId : String) (label : CoordinatorLabel) (answer : CoordinatorReply) (s' : Coordinator),
      Rejects s groupId memberId label answer → s.step label = some (answer, s') →
      Atomic s groupId memberId label s') ∧
    ∀ (before : List CoordinatorEvent) (opened : CoordinatorEvent) (between : List CoordinatorEvent)
      (rejected : CoordinatorEvent) (call : Nat) (clock clock' : Clock) (request : JoinRequest) (mayAddMember : Bool)
      (error : GroupError), tr = before ++ opened :: (between ++ [rejected]) → opened.label = .resume call clock →
      opened.pre.calls.lookup call = some (.join ⟨request, .openGroup mayAddMember⟩) →
      request.groupId ∉ opened.pre.groups → (∀ e ∈ between, e.label.call? ≠ some call) →
      rejected.label = .resume call clock' → rejected.out = .join request (.error error) →
      ∃ e ∈ between, ∃ other request', e.pre.calls.lookup other = some (.join ⟨request', .enter true⟩) ∧
        request'.groupId = request.groupId ∧ request'.memberId ∉ (e.pre.group request.groupId).members ∧
        request'.memberId ∈ (e.post.group request.groupId).members := by
  refine ⟨fun groupId memberId label answer s' hrejects hstep => ?_, ?_⟩
  · exact hrejects.atomic (Answerable.of_groupRun (coordinator_groupRun hrun groupId)) hstep
  · rintro before opened between rejected call clock clock' request mayAddMember error rfl hopened hpoint hnew hothers
      hrejected hout
    exact overtaken hrun hopened hpoint hnew hothers hrejected hout

/-- A join of another protocol type. -/
def connectJoin (memberId clientId : String) : JoinRequest :=
  ⟨"g", memberId, clientId, 10, 10, "connect", [⟨"range", [1]⟩]⟩

/-- A join of another protocol type, rejected by a group that is there. -/
theorem rejected_requests_are_atomic_other_type : ∃ tr s answer s',
    coordinator.exec .new (twoMembers ++ [.join 5 (connectJoin "" "c") false, .resume 5 ⟨0, 0, 0⟩]) = some (tr, s) ∧
    coordinator.step s (.resume 5 ⟨0, 0, 0⟩) = some (answer, s') ∧
    answer = .join (connectJoin "c-3" "c") (.error .inconsistentGroupProtocol) ∧
    Atomic s "g" "c-3" (.resume 5 ⟨0, 0, 0⟩) s' := by
  have hout : ((coordinator.exec .new (twoMembers ++ [.join 5 (connectJoin "" "c") false, .resume 5 ⟨0, 0, 0⟩])).bind fun r =>
      (coordinator.step r.2 (.resume 5 ⟨0, 0, 0⟩)).map fun r' => (r'.1, r.2.calls.lookup 5)) =
      some (.join (connectJoin "c-3" "c") (.error .inconsistentGroupProtocol),
        some (.join ⟨connectJoin "c-3" "c", .enter true⟩)) := by decide +kernel
  simp only [Option.bind_eq_some_iff, Option.map_eq_some_iff, Prod.mk.injEq, Prod.exists] at hout
  obtain ⟨tr, s, hx, answer, s', hstep, rfl, hcall⟩ := hout
  refine ⟨tr, s, _, s', hx, hstep, rfl, ?_⟩
  exact (rejected_requests_are_atomic tr s (Machine.exec_path hx).1).1 "g" "c-3" _ _ s'
    (.join ⟨0, 0, 0⟩ _ hcall (by simp)) hstep

/-- Two first joins of one group with different protocol types; the second one gets in before the one that opened it. -/
def racingJoins : List CoordinatorLabel × List CoordinatorLabel :=
  ([.join 0 (sampleJoin "" "a") false],
    [.join 1 (connectJoin "" "b") false, .resume 1 ⟨0, 0, 0⟩, .resume 1 ⟨0, 0, 0⟩])

/-- A join opens a group, is overtaken and rejected. -/
theorem rejected_join_opens_group : ∃ before s opened between s' rejected,
    coordinator.exec .new racingJoins.1 = some (before, s) ∧ opened.pre = s ∧ coordinator.Takes opened ∧
    coordinator.exec opened.post racingJoins.2 = some (between, s') ∧ rejected.pre = s' ∧ coordinator.Takes rejected ∧
    opened.label = .resume 0 ⟨0, 0, 0⟩ ∧ "g" ∉ opened.pre.groups ∧ "g" ∈ opened.post.groups ∧
    (∀ e ∈ between, e.label.call? ≠ some 0) ∧ rejected.label = .resume 0 ⟨0, 0, 0⟩ ∧
    rejected.out = .join (sampleJoin "a-1" "a") (.error .inconsistentGroupProtocol) := by
  have hout : ((coordinator.exec .new racingJoins.1).bind fun r =>
      (coordinator.step r.2 (.resume 0 ⟨0, 0, 0⟩)).bind fun opened =>
        (coordinator.exec opened.2 racingJoins.2).bind fun r' =>
          (coordinator.step r'.2 (.resume 0 ⟨0, 0, 0⟩)).map fun rejected =>
            (decide ("g" ∈ r.2.groups), decide ("g" ∈ opened.2.groups), decide (∀ e ∈ r'.1, e.label.call? ≠ some 0),
              rejected.1)) =
      some (false, true, true, .join (sampleJoin "a-1" "a") (.error .inconsistentGroupProtocol)) := by decide +kernel
  simp only [Option.bind_eq_some_iff, Option.map_eq_some_iff, Prod.mk.injEq, Prod.exists, decide_eq_true_eq,
    decide_eq_false_iff_not] at hout
  obtain ⟨before, s, hx, answer, s₁, hopened, between, s', hx', answer', s₂, hrejected, hnew, hthere, hothers, hanswer⟩ := hout
  exact ⟨before, s, ⟨s, _, answer, s₁⟩, between, s', ⟨s', _, answer', s₂⟩, hx, rfl, hopened, hx', rfl, hrejected, rfl, hnew,
    hthere, hothers, rfl, hanswer⟩

end MemKafka
