import MemKafka.Coordinator

/-!
# The branches of the coordinator

What a step can do, branch by branch (`step_turn`). A `JoinTurn`, `SyncTurn` or `GroupTurn` is one way through
`resumeJoin`, `resumeSync` or `callGroup`; what holds of every step is shown by cases on them.
-/

namespace MemKafka
open Kit

/-- The section that a join runs at a point, once it is awake. -/
inductive JoinPoint.Runs (s : Coordinator) (request : JoinRequest) (clock : Clock) : JoinPoint → GroupOp → Prop
  | enter (mayAddMember : Bool) : Runs s request clock (.enter mayAddMember) (.enter mayAddMember request)
  | wait (targetEpoch : Nat) (sleep : Option Sleep)
      (awake : Coordinator.wakes sleep (s.group request.groupId) clock.now = true) :
      Runs s request clock (.wait targetEpoch sleep) (.wait request.memberId targetEpoch)

/-- The branches of `resumeJoin`, each with what it requires. -/
inductive JoinTurn (s : Coordinator) (call : Nat) (request : JoinRequest) (clock : Clock) :
    JoinPoint → CoordinatorReply → Coordinator → Prop
  | reserves : JoinTurn s call request clock .reserveMemberId (.join request (.ok (.memberIdRequired request.memberId)))
      (Coordinator.endCall { s with pendingMemberIds := insert (request.groupId, request.memberId) s.pendingMemberIds } call)
  | pending (pending : (request.groupId, request.memberId) ∈ s.pendingMemberIds) :
      JoinTurn s call request clock .checkPending .progress (s.setCall call (.join ⟨request, .openGroup true⟩))
  | notPending (absent : (request.groupId, request.memberId) ∉ s.pendingMemberIds) :
      JoinTurn s call request clock .checkPending .progress (s.setCall call (.join ⟨request, .checkMember⟩))
  | known {cell : GroupCell} (there : s.groups.lookup request.groupId = some cell)
      (known : request.memberId ∈ cell.timed.group.members) :
      JoinTurn s call request clock .checkMember .progress (s.setCall call (.join ⟨request, .openGroup false⟩))
  | unknown (unknown : ∀ cell, s.groups.lookup request.groupId = some cell → request.memberId ∉ cell.timed.group.members) :
      JoinTurn s call request clock .checkMember (.join request (.error .unknownMemberId)) (s.endCall call)
  | opens (mayAddMember : Bool) : JoinTurn s call request clock (.openGroup mayAddMember) .progress
      ((s.openGroup request.groupId).setCall call (.join ⟨request, .enter mayAddMember⟩))
  | enters {mayAddMember : Bool} {targetEpoch : Nat} {s₁ : Coordinator}
      (ran : s.runSection request.groupId (.enter mayAddMember request) clock = some (.waiting targetEpoch, s₁)) :
      JoinTurn s call request clock (.enter mayAddMember) .progress (s₁.setCall call (.join ⟨request, .clearPending targetEpoch⟩))
  | clears (targetEpoch : Nat) : JoinTurn s call request clock (.clearPending targetEpoch) .progress
      (Coordinator.setCall { s with pendingMemberIds := s.pendingMemberIds.erase (request.groupId, request.memberId) } call
        (.join ⟨request, .wait targetEpoch none⟩))
  | parks {targetEpoch : Nat} {sleep : Option Sleep} {next : Sleep} {s₁ : Coordinator}
      (awake : Coordinator.wakes sleep (s.group request.groupId) clock.now = true)
      (ran : s.runSection request.groupId (.wait request.memberId targetEpoch) clock = some (.parked next, s₁)) :
      JoinTurn s call request clock (.wait targetEpoch sleep) .progress
        (s₁.setCall call (.join ⟨request, .wait targetEpoch (some next)⟩))
  | returns {point : JoinPoint} {op : GroupOp} {result : JoinedGroup} {s₁ : Coordinator}
      (runs : point.Runs s request clock op) (ran : s.runSection request.groupId op clock = some (.joined result, s₁)) :
      JoinTurn s call request clock point (.join request (.ok (.joined result))) (s₁.endCall call)
  | fails {point : JoinPoint} {op : GroupOp} {error : GroupError} {s₁ : Coordinator}
      (runs : point.Runs s request clock op) (ran : s.runSection request.groupId op clock = some (.failed error, s₁)) :
      JoinTurn s call request clock point (.join request (.error error)) (s₁.endCall call)

/-- The section that a pass of `sync` runs. -/
def SyncCall.op (sync : SyncCall) : GroupOp :=
  .sync sync.request.generationId sync.request.memberId sync.request.assignments sync.sleep.isNone

/-- The branches of `resumeSync`. -/
inductive SyncTurn (s : Coordinator) (call : Nat) (sync : SyncCall) (clock : Clock) :
    CoordinatorReply → Coordinator → Prop
  | missing (missing : sync.request.groupId ∉ s.groups) :
      SyncTurn s call sync clock (.sync sync.request (.error .unknownMemberId)) (s.endCall call)
  | parks {next : Sleep} {s₁ : Coordinator}
      (awake : Coordinator.wakes sync.sleep (s.group sync.request.groupId) clock.now = true)
      (ran : s.runSection sync.request.groupId sync.op clock = some (.parked next, s₁)) :
      SyncTurn s call sync clock .progress (s₁.setCall call (.sync ⟨sync.request, some next⟩))
  | returns {assignment : Bytes} {s₁ : Coordinator}
      (awake : Coordinator.wakes sync.sleep (s.group sync.request.groupId) clock.now = true)
      (ran : s.runSection sync.request.groupId sync.op clock = some (.assigned assignment, s₁)) :
      SyncTurn s call sync clock (.sync sync.request (.ok assignment)) (s₁.endCall call)
  | fails {error : GroupError} {s₁ : Coordinator}
      (awake : Coordinator.wakes sync.sleep (s.group sync.request.groupId) clock.now = true)
      (ran : s.runSection sync.request.groupId sync.op clock = some (.failed error, s₁)) :
      SyncTurn s call sync clock (.sync sync.request (.error error)) (s₁.endCall call)

/-- The branches of `callGroup`. -/
inductive GroupTurn (s : Coordinator) (groupId : String) (op : GroupOp) (clock : Clock) :
    Except GroupError Unit → Coordinator → Prop
  | missing (missing : groupId ∉ s.groups) : GroupTurn s groupId op clock (.error .unknownMemberId) s
  | done {s' : Coordinator} (ran : s.runSection groupId op clock = some (.done, s')) :
      GroupTurn s groupId op clock (.ok ()) s'
  | fails {error : GroupError} {s' : Coordinator} (ran : s.runSection groupId op clock = some (.failed error, s')) :
      GroupTurn s groupId op clock (.error error) s'

/-- The branches of `step`. -/
inductive Turn (s : Coordinator) : CoordinatorLabel → CoordinatorReply → Coordinator → Prop
  | invalid {call : Nat} {request : JoinRequest} {requireKnownMemberId : Bool} (free : call ∉ s.calls)
      (invalid : request.protocols = [] ∨ request.protocolType = "") :
      Turn s (.join call request requireKnownMemberId) (.join request (.error .inconsistentGroupProtocol)) s
  | mints {call : Nat} {request : JoinRequest} {requireKnownMemberId : Bool} (free : call ∉ s.calls)
      (valid : ¬ (request.protocols = [] ∨ request.protocolType = "")) (unnamed : request.memberId = "") :
      Turn s (.join call request requireKnownMemberId) .progress
        (Coordinator.setCall { s with nextMemberId := (s.nextMemberId + 1) % 2 ^ 64 } call (.join
          ⟨{ request with memberId := Coordinator.memberIdOf request.clientId s.nextMemberId },
            if requireKnownMemberId then .reserveMemberId else .openGroup true⟩))
  | starts {call : Nat} {request : JoinRequest} {requireKnownMemberId : Bool} (free : call ∉ s.calls)
      (valid : ¬ (request.protocols = [] ∨ request.protocolType = "")) (named : request.memberId ≠ "") :
      Turn s (.join call request requireKnownMemberId) .progress (s.setCall call (.join ⟨request, .checkPending⟩))
  | sync {call : Nat} (request : SyncRequest) (free : call ∉ s.calls) :
      Turn s (.sync call request) .progress (s.setCall call (.sync ⟨request, none⟩))
  | resumeJoin {call : Nat} {request : JoinRequest} {point : JoinPoint} {clock : Clock} {answer : CoordinatorReply}
      {s' : Coordinator} (stood : s.calls.lookup call = some (.join ⟨request, point⟩))
      (turn : JoinTurn s call request clock point answer s') : Turn s (.resume call clock) answer s'
  | resumeSync {call : Nat} {sync : SyncCall} {clock : Clock} {answer : CoordinatorReply} {s' : Coordinator}
      (stood : s.calls.lookup call = some (.sync sync)) (turn : SyncTurn s call sync clock answer s') :
      Turn s (.resume call clock) answer s'
  | drop (call : Nat) : Turn s (.drop call) .progress (s.endCall call)
  | heartbeat {groupId memberId : String} {generationId : Int} {clock : Clock} {result : Except GroupError Unit}
      {s' : Coordinator} (turn : GroupTurn s groupId (.heartbeat generationId memberId) clock result s') :
      Turn s (.heartbeat groupId generationId memberId clock) (.heartbeat result) s'
  | leave {groupId memberId : String} {clock : Clock} {result : Except GroupError Unit} {s' : Coordinator}
      (turn : GroupTurn s groupId (.leave memberId) clock result s') :
      Turn s (.leave groupId memberId clock) (.leave result) s'
  | commitOffsets {groupId memberId : String} {generationId : Int} {offsets : List OffsetCommit} {clock : Clock}
      {result : Except GroupError Unit} {s' : Coordinator}
      (turn : GroupTurn s groupId (.commitOffsets generationId memberId offsets) clock result s') :
      Turn s (.commitOffsets groupId generationId memberId offsets clock) (.commitOffsets result) s'
  | undescribed {groupId : String} {clock : Clock} (missing : groupId ∉ s.groups) :
      Turn s (.describe groupId clock) (.describe none) s
  | described {groupId : String} {clock : Clock} {description : GroupDescription} {s' : Coordinator}
      (ran : s.runSection groupId (.describe groupId) clock = some (.described description, s')) :
      Turn s (.describe groupId clock) (.describe (some description)) s'
  | fetchOffsets (groupId : String) (requested : Option (List TopicPartition)) :
      Turn s (.fetchOffsets groupId requested) (.fetchOffsets (s.fetchOffsets groupId requested)) s
  | drive {groupId : String} {clock : Clock} {cell : GroupCell} {timed : TimedGroup} {next : Sleep}
      (there : s.groups.lookup groupId = some cell)
      (awake : Coordinator.wakes cell.driver cell.timed.group clock.now = true)
      (ran : groupMachine.step cell.timed (.drive, clock) = some (.parked next, timed)) :
      Turn s (.drive groupId clock) .progress { s with groups := s.groups.insert groupId ⟨timed, some next⟩ }

section
variable {s s' : Coordinator} {label : CoordinatorLabel} {answer : CoordinatorReply} {call : Nat} {clock : Clock}

theorem startJoin_turn {request : JoinRequest} {requireKnownMemberId : Bool} (hfree : call ∉ s.calls)
    (h : s.startJoin call request requireKnownMemberId = (answer, s')) :
    Turn s (.join call request requireKnownMemberId) answer s' := by
  unfold Coordinator.startJoin at h
  split at h
  · cases h
    exact .invalid hfree ‹_›
  · split at h <;> cases h
    · exact .mints hfree ‹_› ‹_›
    · exact .starts hfree ‹_› ‹_›

theorem resumeJoin_turn {request : JoinRequest} {point : JoinPoint}
    (h : s.resumeJoin call ⟨request, point⟩ clock = some (answer, s')) : JoinTurn s call request clock point answer s' := by
  unfold Coordinator.resumeJoin at h
  cases point with
  | reserveMemberId =>
    cases h
    exact .reserves
  | checkPending =>
    dsimp only at h
    split at h <;> cases h
    · exact .pending ‹_›
    · exact .notPending ‹_›
  | checkMember =>
    dsimp only at h
    split at h
    · rename_i hmissing
      cases h
      exact .unknown fun cell hl => by cases hmissing.symm.trans hl
    · rename_i hthere
      split at h <;> cases h
      · exact .known hthere ‹_›
      · rename_i hunknown
        exact .unknown fun cell hl => Option.some.inj (hthere.symm.trans hl) ▸ hunknown
  | openGroup mayAddMember =>
    cases h
    exact .opens mayAddMember
  | enter mayAddMember =>
    simp only [Option.bind_eq_bind, Option.bind_eq_some_iff, Prod.exists] at h
    obtain ⟨reply, s₁, hrun, h⟩ := h
    split at h <;> cases h
    · exact .enters hrun
    · exact .returns (.enter mayAddMember) hrun
    · exact .fails (.enter mayAddMember) hrun
  | clearPending targetEpoch =>
    cases h
    exact .clears targetEpoch
  | wait targetEpoch sleep =>
    dsimp only at h
    split at h
    · cases h
    rename_i hawake
    replace hawake := Bool.of_not_eq_false hawake
    simp only [Option.bind_eq_bind, Option.bind_eq_some_iff, Prod.exists] at h
    obtain ⟨reply, s₁, hrun, h⟩ := h
    split at h <;> cases h
    · exact .parks hawake hrun
    · exact .returns (.wait targetEpoch sleep hawake) hrun
    · exact .fails (.wait targetEpoch sleep hawake) hrun

theorem resumeSync_turn {sync : SyncCall} (h : s.resumeSync call sync clock = some (answer, s')) :
    SyncTurn s call sync clock answer s' := by
  unfold Coordinator.resumeSync at h
  dsimp only at h
  split at h
  · cases h
    exact .missing ‹_›
  split at h
  · cases h
  rename_i hawake
  replace hawake := Bool.of_not_eq_false hawake
  simp only [Option.bind_eq_bind, Option.bind_eq_some_iff, Prod.exists] at h
  obtain ⟨reply, s₁, hrun, h⟩ := h
  split at h <;> cases h
  · exact .parks hawake hrun
  · exact .returns hawake hrun
  · exact .fails hawake hrun

theorem callGroup_turn {groupId : String} {op : GroupOp} {result : Except GroupError Unit}
    (h : s.callGroup groupId op clock = some (result, s')) : GroupTurn s groupId op clock result s' := by
  unfold Coordinator.callGroup at h
  split at h
  · cases h
    exact .missing ‹_›
  simp only [Option.bind_eq_bind, Option.bind_eq_some_iff, Prod.exists] at h
  obtain ⟨reply, s₁, hrun, h⟩ := h
  split at h <;> cases h
  · exact .done hrun
  · exact .fails hrun

/-- A step takes one of its branches. -/
theorem step_turn (h : s.step label = some (answer, s')) : Turn s label answer s' := by
  cases label with
  | join call request requireKnownMemberId =>
    simp only [Coordinator.step] at h
    split at h
    · cases h
    · exact startJoin_turn ‹_› (Option.some.inj h)
  | sync call request =>
    simp only [Coordinator.step] at h
    split at h <;> cases h
    exact .sync request ‹_›
  | resume call clock =>
    simp only [Coordinator.step] at h
    split at h
    · cases h
    · exact .resumeJoin ‹_› (resumeJoin_turn h)
    · exact .resumeSync ‹_› (resumeSync_turn h)
  | drop call =>
    cases h
    exact .drop call
  | heartbeat groupId generationId memberId clock =>
    obtain ⟨⟨result, s₁⟩, hcall, heq⟩ := Option.map_eq_some_iff.1 h
    cases heq
    exact .heartbeat (callGroup_turn hcall)
  | leave groupId memberId clock =>
    obtain ⟨⟨result, s₁⟩, hcall, heq⟩ := Option.map_eq_some_iff.1 h
    cases heq
    exact .leave (callGroup_turn hcall)
  | commitOffsets groupId generationId memberId offsets clock =>
    obtain ⟨⟨result, s₁⟩, hcall, heq⟩ := Option.map_eq_some_iff.1 h
    cases heq
    exact .commitOffsets (callGroup_turn hcall)
  | describe groupId clock =>
    simp only [Coordinator.step] at h
    split at h
    · cases h
      exact .undescribed ‹_›
    simp only [Option.bind_eq_bind, Option.bind_eq_some_iff, Prod.exists] at h
    obtain ⟨reply, s₁, hrun, h⟩ := h
    split at h <;> cases h
    exact .described hrun
  | fetchOffsets groupId requested =>
    cases h
    exact .fetchOffsets groupId requested
  | drive groupId clock =>
    obtain ⟨s₁, hdrive, heq⟩ := Option.map_eq_some_iff.1 h
    cases heq
    simp only [Coordinator.driveGroup, Option.bind_eq_bind, Option.bind_eq_some_iff] at hdrive
    obtain ⟨cell, hthere, hdrive⟩ := hdrive
    split at hdrive
    · cases hdrive
    rename_i hawake
    simp only [Option.bind_eq_some_iff, Prod.exists] at hdrive
    obtain ⟨reply, timed, hran, hdrive⟩ := hdrive
    split at hdrive <;> cases hdrive
    exact .drive hthere (Bool.of_not_eq_false hawake) hran

end

end MemKafka
