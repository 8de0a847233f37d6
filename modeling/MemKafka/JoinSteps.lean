import MemKafka.CoordinatorSteps
import MemKafka.Lib.Text
import MemKafka.Membership

/-!
# The steps of a join

A join may add a member under an id that is pending, and forgets the pending id only after it has released the group:
until then another join of the same id is let through as well (`Claimed`). `JoinStep` says what a step of the
coordinator can do to the joins under way and to the ids they carry. A new id is never one that was given out before.
-/

namespace MemKafka
open Kit Relation

/-! ### New ids are new -/

theorem memberIdOf_injective {clientId clientId' : String} {sequence sequence' : Nat}
    (h : Coordinator.memberIdOf clientId sequence = Coordinator.memberIdOf clientId' sequence') :
    sequence = sequence' := by
  have hlist := congrArg String.toList h
  simp only [Coordinator.memberIdOf, String.toList_append] at hlist
  have hdigits : ∀ n : Nat, '-' ∉ (toString n).toList := by
    intro n hmem
    have : Char.isDigit '-' = true := Nat.isDigit_of_mem_toDigits (b := 10) (by decide) (by decide) (by simpa using hmem)
    exact absurd this (by decide)
  have hrepr : (toString sequence).toList = (toString sequence').toList :=
    eq_of_append_cons (by simpa using hlist) (hdigits sequence) (hdigits sequence')
  exact Nat.repr_injective (String.toList_inj.1 hrepr)

/-! ### Who is added by a section -/

section
variable {group : Group} {clock : Clock} {id : String}

theorem mem_of_expire {active : Option String} (h : id ∈ (expireStaleMembers group clock active).members) :
    id ∈ group.members := by
  unfold expireStaleMembers at h
  dsimp only at h
  split at h
  · exact h
  · rw [removeMembers_members, mem_eraseAll] at h
    exact h.1

/-- A join that may not add its member is refused when it is not there. -/
theorem enter_unknown {request : JoinRequest} (h : request.memberId ∉ group.members) :
    enter group clock false request = (.failed .unknownMemberId, expireStaleMembers group clock none) :=
  if_pos ⟨by simp, fun hmem => h (mem_of_expire hmem)⟩

theorem wait_unknown {target : Nat} (h : id ∉ group.members) :
    wait group clock id target = (.failed .unknownMemberId, group) := by
  have hnone : completedJoin group id target = none := by
    rw [completedJoin, AList.lookup_eq_none.2 h]
    rfl
  rw [wait, hnone]
  exact if_pos h

/-- A section adds nobody but the member of a join that may. -/
theorem run_adds {op : GroupOp} (h : id ∈ (op.run group clock).2.members) :
    id ∈ group.members ∨ ∃ request, op = .enter true request ∧ request.memberId = id := by
  rcases run_moves op group clock with ⟨-, hmoves⟩ | ⟨active, -, hmoves⟩
  · exact hmoves.added id h
  · exact (hmoves.added id h).imp_left mem_of_expire

end

/-! ### The way of a join -/

/-- How a join comes to stand where it stands after a step. -/
inductive JoinMove (s s' : Coordinator) : JoinCall → Prop
  | stays {call : Nat} {join : JoinCall} (stood : s.calls.lookup call = some (.join join)) : JoinMove s s' join
  | starts (request : JoinRequest) : JoinMove s s' ⟨request, .checkPending⟩
  | mints (request : JoinRequest) (clientId : String) (point : JoinPoint)
      (new : request.memberId = Coordinator.memberIdOf clientId s.nextMemberId)
      (counted : s'.nextMemberId = (s.nextMemberId + 1) % 2 ^ 64)
      (next : point = .reserveMemberId ∨ point = .openGroup true) : JoinMove s s' ⟨request, point⟩
  | admits (request : JoinRequest) (pending : (request.groupId, request.memberId) ∈ s.pendingMemberIds) :
      JoinMove s s' ⟨request, .openGroup true⟩
  | asks (request : JoinRequest) : JoinMove s s' ⟨request, .checkMember⟩
  | knows (request : JoinRequest) : JoinMove s s' ⟨request, .openGroup false⟩
  | opens {call : Nat} (request : JoinRequest) (mayAddMember : Bool)
      (stood : s.calls.lookup call = some (.join ⟨request, .openGroup mayAddMember⟩))
      (there : request.groupId ∈ s'.groups) : JoinMove s s' ⟨request, .enter mayAddMember⟩
  | enters (request : JoinRequest) (targetEpoch : Nat) (there : request.groupId ∈ s'.groups) :
      JoinMove s s' ⟨request, .clearPending targetEpoch⟩
  | waits {call : Nat} (request : JoinRequest) (targetEpoch : Nat) (sleep : Option Sleep) {point : JoinPoint}
      (stood : s.calls.lookup call = some (.join ⟨request, point⟩))
      (before : point = .clearPending targetEpoch ∨ ∃ sleep, point = .wait targetEpoch sleep) :
      JoinMove s s' ⟨request, .wait targetEpoch sleep⟩

structure JoinStep (s s' : Coordinator) : Prop where
  calls : ∀ call join, s'.calls.lookup call = some (.join join) → JoinMove s s' join
  pending : ∀ groupId memberId, (groupId, memberId) ∈ s'.pendingMemberIds → (groupId, memberId) ∈ s.pendingMemberIds ∨
    ∃ call request, s.calls.lookup call = some (.join ⟨request, .reserveMemberId⟩) ∧ request.groupId = groupId ∧
      request.memberId = memberId
  counter : s'.nextMemberId = s.nextMemberId ∨ s'.nextMemberId = (s.nextMemberId + 1) % 2 ^ 64

/-- What a step leaves alone that runs a section or opens a group. -/
structure SameCalls (s s' : Coordinator) : Prop where
  counter : s'.nextMemberId = s.nextMemberId
  pending : s'.pendingMemberIds = s.pendingMemberIds
  calls : s'.calls = s.calls

/-- A step that allocates no id. -/
structure QuietStep (s s' : Coordinator) : Prop where
  joins : JoinStep s s'
  counter : s'.nextMemberId = s.nextMemberId

section
variable {s s' s₁ : Coordinator} {label : CoordinatorLabel} {answer : CoordinatorReply} {groupId memberId : String}

theorem SameCalls.refl (s : Coordinator) : SameCalls s s := ⟨rfl, rfl, rfl⟩

theorem runSection_sameCalls {op : GroupOp} {clock : Clock} {reply : GroupReply}
    (h : s.runSection groupId op clock = some (reply, s₁)) : SameCalls s s₁ ∧ groupId ∈ s₁.groups := by
  obtain ⟨_, _, -, -, rfl⟩ := runSection_eq_some h
  exact ⟨⟨rfl, rfl, rfl⟩, (AList.mem_insert _).2 (.inl rfl)⟩

theorem openGroup_sameCalls (s : Coordinator) (groupId : String) :
    SameCalls s (s.openGroup groupId) ∧ groupId ∈ (s.openGroup groupId).groups := by
  unfold Coordinator.openGroup
  split
  · exact ⟨.refl s, ‹_›⟩
  · exact ⟨⟨rfl, rfl, rfl⟩, (AList.mem_insert _).2 (.inl rfl)⟩

theorem SameCalls.quietStep (h : SameCalls s s') : QuietStep s s' :=
  ⟨⟨fun _ _ hl => .stays (h.calls ▸ hl), fun _ _ hp => .inl (h.pending ▸ hp), .inl h.counter⟩, h.counter⟩

theorem SameCalls.ends (h : SameCalls s s₁) (call : Nat) : QuietStep s (s₁.endCall call) :=
  ⟨⟨fun _ _ hl => .stays (h.calls ▸ lookup_of_erase hl), fun _ _ hp => .inl (h.pending ▸ hp), .inl h.counter⟩, h.counter⟩

theorem SameCalls.goes (h : SameCalls s s₁) {call : Nat} {c : Call}
    (hmove : ∀ join, c = .join join → JoinMove s (s₁.setCall call c) join) : QuietStep s (s₁.setCall call c) := by
  refine ⟨⟨fun k join hl => ?_, fun _ _ hp => .inl (h.pending ▸ hp), .inl h.counter⟩, h.counter⟩
  rcases lookup_setCall hl with hl | heq
  · exact .stays (h.calls ▸ hl)
  · exact hmove join heq.symm

theorem JoinTurn.quietStep {call : Nat} {request : JoinRequest} {point : JoinPoint} {clock : Clock}
    (stood : s.calls.lookup call = some (.join ⟨request, point⟩))
    (h : JoinTurn s call request clock point answer s') : QuietStep s s' := by
  have same := SameCalls.refl s
  cases h with
  | reserves =>
    refine ⟨⟨fun _ _ hl => .stays (lookup_of_erase hl), fun groupId memberId hp => ?_, .inl rfl⟩, rfl⟩
    rcases Finset.mem_insert.1 hp with heq | hp
    · cases heq
      exact .inr ⟨call, request, stood, rfl, rfl⟩
    · exact .inl hp
  | pending pending => exact same.goes (by rintro _ ⟨⟩; exact .admits request pending)
  | notPending absent => exact same.goes (by rintro _ ⟨⟩; exact .asks request)
  | known there known => exact same.goes (by rintro _ ⟨⟩; exact .knows request)
  | unknown unknown => exact same.ends call
  | opens mayAddMember =>
    obtain ⟨hsame, hthere⟩ := openGroup_sameCalls s request.groupId
    exact hsame.goes (by rintro _ ⟨⟩; exact .opens request mayAddMember stood hthere)
  | enters ran =>
    obtain ⟨hsame, hthere⟩ := runSection_sameCalls ran
    exact hsame.goes (by rintro _ ⟨⟩; exact .enters request _ hthere)
  | clears targetEpoch =>
    refine ⟨⟨fun k join hl => ?_, fun _ _ hp => .inl (Finset.mem_of_mem_erase hp), .inl rfl⟩, rfl⟩
    rcases lookup_setCall hl with hl | heq
    · exact .stays hl
    · cases heq
      exact .waits request targetEpoch none stood (.inl rfl)
  | parks awake ran =>
    exact (runSection_sameCalls ran).1.goes (by rintro _ ⟨⟩; exact .waits request _ _ stood (.inr ⟨_, rfl⟩))
  | returns runs ran => exact (runSection_sameCalls ran).1.ends call
  | fails runs ran => exact (runSection_sameCalls ran).1.ends call

theorem SyncTurn.quietStep {call : Nat} {sync : SyncCall} {clock : Clock}
    (h : SyncTurn s call sync clock answer s') : QuietStep s s' := by
  cases h with
  | missing missing => exact (SameCalls.refl s).ends call
  | parks awake ran => exact (runSection_sameCalls ran).1.goes (by rintro _ ⟨⟩)
  | returns awake ran => exact (runSection_sameCalls ran).1.ends call
  | fails awake ran => exact (runSection_sameCalls ran).1.ends call

theorem GroupTurn.sameCalls {op : GroupOp} {clock : Clock} {result : Except GroupError Unit}
    (h : GroupTurn s groupId op clock result s') : SameCalls s s' := by
  cases h with
  | missing missing => exact .refl s
  | done ran => exact (runSection_sameCalls ran).1
  | fails ran => exact (runSection_sameCalls ran).1

/-- Only a join that starts allocates an id. -/
theorem step_quietStep (h : s.step label = some (answer, s'))
    (hlabel : ∀ call request requireKnownMemberId, label ≠ .join call request requireKnownMemberId) : QuietStep s s' := by
  have same := SameCalls.refl s
  cases step_turn h with
  | invalid free invalid => exact absurd rfl (hlabel _ _ _)
  | mints free valid unnamed => exact absurd rfl (hlabel _ _ _)
  | starts free valid named => exact absurd rfl (hlabel _ _ _)
  | sync request free => exact same.goes (by rintro _ ⟨⟩)
  | resumeJoin stood turn => exact turn.quietStep stood
  | resumeSync stood turn => exact turn.quietStep
  | drop call => exact same.ends call
  | heartbeat turn => exact turn.sameCalls.quietStep
  | leave turn => exact turn.sameCalls.quietStep
  | commitOffsets turn => exact turn.sameCalls.quietStep
  | undescribed missing => exact same.quietStep
  | described ran => exact (runSection_sameCalls ran).1.quietStep
  | fetchOffsets groupId requested => exact same.quietStep
  | drive there awake ran => exact SameCalls.quietStep ⟨rfl, rfl, rfl⟩

/-- What a step can do to the joins and to the ids. -/
theorem step_joinStep (h : s.step label = some (answer, s')) : JoinStep s s' := by
  by_cases hlabel : ∀ call request requireKnownMemberId, label ≠ .join call request requireKnownMemberId
  · exact (step_quietStep h hlabel).joins
  simp only [not_forall, not_not] at hlabel
  obtain ⟨call, request, requireKnownMemberId, rfl⟩ := hlabel
  cases step_turn h with
  | invalid free invalid => exact (SameCalls.refl s).quietStep.joins
  | mints free valid unnamed =>
    refine ⟨fun k join hl => ?_, fun _ _ hp => .inl hp, .inr rfl⟩
    rcases lookup_setCall hl with hl | heq
    · exact .stays hl
    · cases heq
      refine .mints _ request.clientId _ rfl rfl ?_
      cases requireKnownMemberId
      · exact .inr rfl
      · exact .inl rfl
  | starts free valid named => exact ((SameCalls.refl s).goes (by rintro _ ⟨⟩; exact .starts request)).joins

end

/-! ### Claims to an id -/

/-- The call is about to make its id pending, or may add its member. -/
def JoinPoint.admits : JoinPoint → Bool
  | .reserveMemberId => true
  | .openGroup mayAddMember => mayAddMember
  | .enter mayAddMember => mayAddMember
  | _ => false

/-- The id is pending, or a call got past that check with it. -/
def Claimed (s : Coordinator) (groupId memberId : String) : Prop :=
  (groupId, memberId) ∈ s.pendingMemberIds ∨ ∃ call join, s.calls.lookup call = some (.join join) ∧
    join.point.admits = true ∧ join.request.groupId = groupId ∧ join.request.memberId = memberId

def Call.claims (groupId memberId : String) : Call → Bool
  | .join ⟨request, point⟩ => point.admits ∧ request.groupId = groupId ∧ request.memberId = memberId
  | .sync _ => false

instance (s : Coordinator) (groupId memberId : String) : Decidable (Claimed s groupId memberId) :=
  decidable_of_iff ((groupId, memberId) ∈ s.pendingMemberIds ∨ ∃ c ∈ s.calls.entries, c.2.claims groupId memberId = true) (by
    refine or_congr_right ((exists_entries (P := fun _ (c : Call) => c.claims groupId memberId = true)).trans ?_)
    constructor
    · rintro ⟨call, c, hl, hc⟩
      cases c with
      | join join => exact ⟨call, join, hl, of_decide_eq_true hc⟩
      | sync sync => cases hc
    · rintro ⟨call, join, hl, hc⟩
      exact ⟨call, .join join, hl, decide_eq_true hc⟩)

section
variable {s s' s₁ : Coordinator} {label : CoordinatorLabel} {answer : CoordinatorReply} {groupId memberId : String}

/-- A step leaves no claims but those there were, and that to a new id. -/
theorem JoinStep.claimed (h : JoinStep s s') (hc : Claimed s' groupId memberId) : Claimed s groupId memberId ∨
    s'.nextMemberId = (s.nextMemberId + 1) % 2 ^ 64 ∧
      ∃ clientId, memberId = Coordinator.memberIdOf clientId s.nextMemberId := by
  rcases hc with hp | ⟨call, join, hl, hadmits, rfl, rfl⟩
  · rcases h.pending groupId memberId hp with hp | ⟨call, request, hl, rfl, rfl⟩
    · exact .inl (.inl hp)
    · exact .inl (.inr ⟨call, _, hl, rfl, rfl, rfl⟩)
  cases h.calls call join hl with
  | stays stood => exact .inl (.inr ⟨_, join, stood, hadmits, rfl, rfl⟩)
  | mints request clientId point new counted next => exact .inr ⟨counted, clientId, new⟩
  | admits request pending => exact .inl (.inl pending)
  | opens request mayAddMember stood there => exact .inl (.inr ⟨_, _, stood, hadmits, rfl, rfl⟩)
  | starts request => cases hadmits
  | asks request => cases hadmits
  | knows request => cases hadmits
  | enters request targetEpoch there => cases hadmits
  | waits request targetEpoch sleep stood before => cases hadmits

/-- The section of a join that may add its member is run by a call that stands there. -/
theorem sectionFor_enter {clock : Clock} {request : JoinRequest} {mayAddMember : Bool}
    (h : s.sectionFor groupId label = some (.enter mayAddMember request, clock)) :
    ∃ call, s.calls.lookup call = some (.join ⟨request, .enter mayAddMember⟩) ∧ request.groupId = groupId := by
  obtain ⟨⟨groupId', ran⟩, hsection, hif⟩ := Option.bind_eq_some_iff.1 h
  obtain ⟨⟨rfl, -⟩, hran⟩ := Option.ite_none_right_eq_some.1 hif
  obtain rfl : ran = (.enter mayAddMember request, clock) := Option.some.inj hran
  unfold Coordinator.sectionOf at hsection
  split at hsection
  · rename_i call _
    split at hsection <;> cases hsection
    exact ⟨call, ‹_›, rfl⟩
  all_goals cases hsection

/-- A member that is new after a step was added by a join that could add it. -/
theorem step_admits (h : s.step label = some (answer, s')) (hmem : memberId ∈ (s'.group groupId).members)
    (hnew : memberId ∉ (s.group groupId).members) :
    ∃ call request, s.calls.lookup call = some (.join ⟨request, .enter true⟩) ∧ request.groupId = groupId ∧
      request.memberId = memberId := by
  rcases step_sectionFor h groupId with ⟨-, heq⟩ | ⟨op, clock, reply, hsection, hstep⟩
  · rw [Coordinator.group, heq] at hmem
    exact absurd hmem hnew
  obtain ⟨-, -, -, hpost, -⟩ :=
    groupMachine_takes (e := ⟨s.timed groupId, (op, clock), reply, s'.timed groupId⟩) hstep
  replace hpost : s'.group groupId = (op.run (s.group groupId) clock).2 := hpost
  rw [hpost] at hmem
  obtain ⟨request, rfl, rfl⟩ := (run_adds hmem).resolve_left hnew
  obtain ⟨call, hcall, hgroup⟩ := sectionFor_enter hsection
  exact ⟨call, request, hcall, hgroup, rfl⟩

/-- A step adds no member to whose id there was no claim. -/
theorem step_adds (h : s.step label = some (answer, s')) (hmem : memberId ∈ (s'.group groupId).members) :
    memberId ∈ (s.group groupId).members ∨ Claimed s groupId memberId := by
  by_cases hnew : memberId ∈ (s.group groupId).members
  · exact .inl hnew
  · obtain ⟨call, request, hcall, hgroup, hid⟩ := step_admits h hmem hnew
    exact .inr (.inr ⟨call, _, hcall, rfl, hgroup, hid⟩)

/-- A join whose id is no member's and is not claimed is refused. -/
theorem step_refuses {request : JoinRequest} {result : Except GroupError JoinResult}
    (h : s.step label = some (.join request result, s')) (hvalid : ¬ (request.protocols = [] ∨ request.protocolType = ""))
    (hmem : request.memberId ∉ (s.group request.groupId).members)
    (hclaim : ¬ Claimed s request.groupId request.memberId) : result = .error .unknownMemberId := by
  have hadmits : ∀ {call point}, s.calls.lookup call = some (.join ⟨request, point⟩) → point.admits = false := by
    intro call point hl
    by_contra hne
    exact hclaim (.inr ⟨call, _, hl, by simpa using hne, rfl, rfl⟩)
  -- the section of such a join fails
  have hfails : ∀ {call point op clock}, s.calls.lookup call = some (.join ⟨request, point⟩) →
      point.Runs s request clock op → (op.run (s.group request.groupId) clock).1 = .failed .unknownMemberId := by
    intro call point op clock hl hruns
    cases hruns with
    | enter mayAddMember =>
      obtain rfl : mayAddMember = false := hadmits hl
      rw [GroupOp.run, enter_unknown hmem]
    | wait targetEpoch sleep awake => rw [GroupOp.run, wait_unknown hmem]
  cases step_turn h with
  | invalid free invalid => exact absurd invalid hvalid
  | resumeJoin stood turn =>
    cases turn with
    | reserves => exact absurd (hadmits stood) (by decide)
    | unknown unknown => rfl
    | returns runs ran => cases (runSection_reply ran).trans (hfails stood runs)
    | fails runs ran =>
      cases (runSection_reply ran).trans (hfails stood runs)
      rfl
  | resumeSync stood turn => cases turn

end

end MemKafka
