import MemKafka.Lib.Client
import MemKafka.Offsets

/-!
# The handlers of group requests

`join_group.rs`, `sync_group.rs`, `heartbeat.rs`, `leave_group.rs`, `offset_commit.rs`, `offset_fetch.rs`,
`describe_groups.rs` and `list_groups.rs` in `kafka`, with `GroupCoordinator::list`. A handler is a client of the
coordinator: between two of its calls, and between the locks of one call, any other step may happen. A `GroupCall` is one
call of a method, and `GroupCall.Answered` tells its steps in a run.
-/

namespace MemKafka
open Kit

/-- The variants of `ResponseError` these handlers answer with. -/
inductive GroupResponseError where
  | illegalGeneration
  | inconsistentGroupProtocol
  | unknownMemberId
  | rebalanceInProgress
  | unsupportedVersion
  | invalidRequest
  | groupIdNotFound
  | memberIdRequired
deriving DecidableEq, Repr

def GroupResponseError.code : GroupResponseError → Int
  | .illegalGeneration => 22
  | .inconsistentGroupProtocol => 23
  | .unknownMemberId => 25
  | .rebalanceInProgress => 27
  | .unsupportedVersion => 35
  | .invalidRequest => 42
  | .groupIdNotFound => 69
  | .memberIdRequired => 79

/-- `group_error::response_error`. -/
def responseError : GroupError → GroupResponseError
  | .unknownMemberId => .unknownMemberId
  | .illegalGeneration => .illegalGeneration
  | .rebalanceInProgress => .rebalanceInProgress
  | .inconsistentGroupProtocol => .inconsistentGroupProtocol
  | .invalidAssignment => .invalidRequest

/-- `.err().map_or(0, |error| response_error(error).code())`. -/
def resultCode : Except GroupError Unit → Int
  | .ok () => 0
  | .error error => (responseError error).code

/-! ### Calls of the coordinator -/

inductive GroupCall where
  | join (request : JoinRequest) (requireKnownMemberId : Bool)
  | sync (request : SyncRequest)
  | heartbeat (groupId : String) (generationId : Int) (memberId : String)
  | leave (groupId memberId : String)
  | commitOffsets (groupId : String) (generationId : Int) (memberId : String) (offsets : List OffsetCommit)
  | fetchOffsets (groupId : String) (requested : Option (List TopicPartition))
  | describe (groupId : String)
  /-- The locks of `list`: of the map of groups, and of one group. -/
  | groupIds
  | protocolType (groupId : String)
deriving DecidableEq, Repr

@[reducible] def GroupCall.Answer : GroupCall → Type
  | .join _ _ => Except GroupError JoinResult
  | .sync _ => Except GroupError Bytes
  | .heartbeat _ _ _ => Except GroupError Unit
  | .leave _ _ => Except GroupError Unit
  | .commitOffsets _ _ _ _ => Except GroupError Unit
  | .fetchOffsets _ _ => List FetchedOffset
  | .describe _ => Option GroupDescription
  | .groupIds => List String
  | .protocolType _ => String

/-- The call goes on in a step that is its own. -/
def CoordinatorEvent.Resumes (e : CoordinatorEvent) (call : Nat) : Prop := ∃ clock, e.label = .resume call clock

/-- The steps of a join or sync from its start to its return; in between it is neither dropped nor does it return. -/
def CallReturns (start : Nat → CoordinatorLabel) (tr : List CoordinatorEvent) (last : CoordinatorEvent) : Prop :=
  ∃ call first between, tr = first :: (between ++ [last]) ∧ first.label = start call ∧ first.out = .progress ∧
    last.Resumes call ∧ last.out ≠ .progress ∧
    ∀ e ∈ between, e.label ≠ .drop call ∧ (e.Resumes call → e.out = .progress)

/-- The call is one step of the coordinator, with one reading of the clock if it needs any. -/
def OneStep (label : Clock → CoordinatorLabel) (out : CoordinatorReply) (tr : List CoordinatorEvent) : Prop :=
  ∃ e clock, tr = [e] ∧ e.label = label clock ∧ e.out = out

/-- These steps, from `s` on, are those of a call that returns the answer. -/
def GroupCall.Answered : (c : GroupCall) → Coordinator → List CoordinatorEvent → c.Answer → Prop
  | .join request requireKnownMemberId, _, tr, result =>
    (∃ e call, tr = [e] ∧ e.label = .join call request requireKnownMemberId ∧ e.out = .join request result) ∨
      ∃ last request', CallReturns (.join · request requireKnownMemberId) tr last ∧ last.out = .join request' result
  | .sync request, _, tr, result => ∃ last, CallReturns (.sync · request) tr last ∧ last.out = .sync request result
  | .heartbeat groupId generationId memberId, _, tr, result =>
    OneStep (.heartbeat groupId generationId memberId) (.heartbeat result) tr
  | .leave groupId memberId, _, tr, result => OneStep (.leave groupId memberId) (.leave result) tr
  | .commitOffsets groupId generationId memberId offsets, _, tr, result =>
    OneStep (.commitOffsets groupId generationId memberId offsets) (.commitOffsets result) tr
  | .fetchOffsets groupId requested, _, tr, result =>
    OneStep (fun _ => .fetchOffsets groupId requested) (.fetchOffsets result) tr
  | .describe groupId, _, tr, result => OneStep (.describe groupId) (.describe result) tr
  | .groupIds, s, tr, result => tr = [] ∧ result = s.groups.keys
  | .protocolType groupId, s, tr, result => tr = [] ∧ result = (s.group groupId).protocolType

abbrev GroupHandler (ρ : Type) := Client GroupCall.Answer ρ

def GroupHandler.Serves {ρ : Type} (handler : GroupHandler ρ) (s : Coordinator) (tr : List CoordinatorEvent)
    (s' : Coordinator) (response : ρ) : Prop :=
  Client.Serves coordinator GroupCall.Answered handler s tr s' response

structure GroupSummary where
  groupId : String
  protocolType : String
deriving DecidableEq, Repr

namespace GroupCoordinator

def join (request : JoinRequest) (requireKnownMemberId : Bool) : GroupHandler (Except GroupError JoinResult) :=
  .ask (GroupCall.join request requireKnownMemberId)

def sync (request : SyncRequest) : GroupHandler (Except GroupError Bytes) := .ask (GroupCall.sync request)

def heartbeat (groupId : String) (generationId : Int) (memberId : String) : GroupHandler (Except GroupError Unit) :=
  .ask (GroupCall.heartbeat groupId generationId memberId)

def leave (groupId memberId : String) : GroupHandler (Except GroupError Unit) := .ask (GroupCall.leave groupId memberId)

def commitOffsets (groupId : String) (generationId : Int) (memberId : String) (offsets : List OffsetCommit) :
    GroupHandler (Except GroupError Unit) :=
  .ask (GroupCall.commitOffsets groupId generationId memberId offsets)

def fetchOffsets (groupId : String) (requested : Option (List TopicPartition)) : GroupHandler (List FetchedOffset) :=
  .ask (GroupCall.fetchOffsets groupId requested)

def describe (groupId : String) : GroupHandler (Option GroupDescription) := .ask (GroupCall.describe groupId)

def groupIds : GroupHandler (List String) := .ask GroupCall.groupIds

def protocolType (groupId : String) : GroupHandler String := .ask (GroupCall.protocolType groupId)

/-- `list`, the summary of one group after the other in the order of their ids. -/
def list : GroupHandler (List GroupSummary) := do
  let groups ← groupIds
  .each (fun groupId => do
    let protocolType ← protocolType groupId
    pure ⟨groupId, protocolType⟩) (groups.insertionSort (· ≤ ·))

end GroupCoordinator

/-- The error code of a call that is not made for a static member. -/
def unlessStatic (groupInstanceId : Option String) (call : GroupHandler (Except GroupError Unit)) : GroupHandler Int :=
  if groupInstanceId.isSome then pure GroupResponseError.unsupportedVersion.code
  else do
    let result ← call
    pure (resultCode result)

/-! ### JoinGroup -/

structure JoinGroupRequestProtocol where
  name : String
  metadata : Bytes
deriving DecidableEq, Repr

structure JoinGroupRequest where
  groupId : String
  sessionTimeoutMs : Int
  rebalanceTimeoutMs : Int
  memberId : String
  groupInstanceId : Option String
  protocolType : String
  protocols : List JoinGroupRequestProtocol
deriving DecidableEq, Repr

structure JoinGroupResponseMember where
  memberId : String
  groupInstanceId : Option String
  metadata : Bytes
deriving DecidableEq, Repr

structure JoinGroupResponse where
  throttleTimeMs : Int
  errorCode : Int
  generationId : Int
  protocolType : Option String
  protocolName : Option String
  leader : String
  skipAssignment : Bool
  memberId : String
  members : List JoinGroupResponseMember
deriving DecidableEq, Repr

def effectiveRebalanceTimeoutMs (version sessionTimeoutMs rebalanceTimeoutMs : Int) : Int :=
  if version = 0 then sessionTimeoutMs else rebalanceTimeoutMs

namespace JoinGroup

def joinRequest (request : JoinGroupRequest) (version : Int) (clientId : Option String) : JoinRequest where
  groupId := request.groupId
  memberId := request.memberId
  clientId := clientId.getD "consumer"
  sessionTimeoutMs := request.sessionTimeoutMs
  rebalanceTimeoutMs := effectiveRebalanceTimeoutMs version request.sessionTimeoutMs request.rebalanceTimeoutMs
  protocolType := request.protocolType
  protocols := request.protocols.map fun protocol => ⟨protocol.name, protocol.metadata⟩

def errorResponse (error : GroupResponseError) (memberId : String) : JoinGroupResponse :=
  ⟨0, error.code, -1, none, some "", "", false, memberId, []⟩

def joinedResponse (joined : JoinedGroup) : JoinGroupResponse :=
  ⟨0, 0, joined.generationId, none, some joined.protocolName, joined.leader, false, joined.memberId,
    joined.members.map fun member => ⟨member.memberId, none, member.metadata⟩⟩

/-- `join_group::response`. -/
def response (request : JoinGroupRequest) (version : Int) (clientId : Option String) : GroupHandler JoinGroupResponse :=
  if request.groupInstanceId.isSome then pure (errorResponse .unsupportedVersion request.memberId)
  else do
    match ← GroupCoordinator.join (joinRequest request version clientId) (4 ≤ version) with
    | .ok (.memberIdRequired memberId) => pure (errorResponse .memberIdRequired memberId)
    | .ok (.joined joined) => pure (joinedResponse joined)
    | .error error => pure (errorResponse (responseError error) request.memberId)

end JoinGroup

/-! ### SyncGroup -/

structure SyncGroupRequestAssignment where
  memberId : String
  assignment : Bytes
deriving DecidableEq, Repr

structure SyncGroupRequest where
  groupId : String
  generationId : Int
  memberId : String
  groupInstanceId : Option String
  assignments : List SyncGroupRequestAssignment
deriving DecidableEq, Repr

structure SyncGroupResponse where
  throttleTimeMs : Int
  errorCode : Int
  protocolType : Option String
  protocolName : Option String
  assignment : Bytes
deriving DecidableEq, Repr

namespace SyncGroup

/-- `sync_group::response`. -/
def response (request : SyncGroupRequest) : GroupHandler SyncGroupResponse :=
  if request.groupInstanceId.isSome then pure ⟨0, GroupResponseError.unsupportedVersion.code, none, none, []⟩
  else do
    let assignments : List SyncAssignment :=
      request.assignments.map fun assignment => ⟨assignment.memberId, assignment.assignment⟩
    match ← GroupCoordinator.sync ⟨request.groupId, request.generationId, request.memberId, assignments⟩ with
    | .ok assignment => pure ⟨0, 0, none, none, assignment⟩
    | .error error => pure ⟨0, (responseError error).code, none, none, []⟩

end SyncGroup

/-! ### Heartbeat -/

structure HeartbeatRequest where
  groupId : String
  generationId : Int
  memberId : String
  groupInstanceId : Option String
deriving DecidableEq, Repr

structure HeartbeatResponse where
  throttleTimeMs : Int
  errorCode : Int
deriving DecidableEq, Repr

/-- `heartbeat::response`. -/
def Heartbeat.response (request : HeartbeatRequest) : GroupHandler HeartbeatResponse := do
  let errorCode ← unlessStatic request.groupInstanceId
    (GroupCoordinator.heartbeat request.groupId request.generationId request.memberId)
  pure ⟨0, errorCode⟩

/-! ### LeaveGroup -/

structure MemberIdentity where
  memberId : String
  groupInstanceId : Option String
deriving DecidableEq, Repr

structure LeaveGroupRequest where
  groupId : String
  memberId : String
  members : List MemberIdentity
deriving DecidableEq, Repr

structure MemberResponse where
  memberId : String
  groupInstanceId : Option String
  errorCode : Int
deriving DecidableEq, Repr

structure LeaveGroupResponse where
  throttleTimeMs : Int
  errorCode : Int
  members : List MemberResponse
deriving DecidableEq, Repr

namespace LeaveGroup

/-- The body of the loop over the members of a request. -/
def leaveOne (groupId : String) (member : MemberIdentity) : GroupHandler MemberResponse := do
  let errorCode ← unlessStatic member.groupInstanceId (GroupCoordinator.leave groupId member.memberId)
  pure ⟨member.memberId, none, errorCode⟩

/-- `leave_group::response`. -/
def response (request : LeaveGroupRequest) (version : Int) : GroupHandler LeaveGroupResponse :=
  if version ≤ 2 then do
    let result ← GroupCoordinator.leave request.groupId request.memberId
    pure ⟨0, resultCode result, []⟩
  else do
    let members ← .each (leaveOne request.groupId) request.members
    pure ⟨0, 0, members⟩

end LeaveGroup

/-! ### OffsetCommit and OffsetFetch -/

structure OffsetCommitRequestPartition where
  partitionIndex : Int
  committedOffset : Int
  committedMetadata : Option String
deriving DecidableEq, Repr

structure OffsetCommitRequestTopic where
  name : String
  partitions : List OffsetCommitRequestPartition
deriving DecidableEq, Repr

structure OffsetCommitRequest where
  groupId : String
  generationIdOrMemberEpoch : Int
  memberId : String
  groupInstanceId : Option String
  topics : List OffsetCommitRequestTopic
deriving DecidableEq, Repr

structure OffsetCommitResponsePartition where
  partitionIndex : Int
  errorCode : Int
deriving DecidableEq, Repr

structure OffsetCommitResponseTopic where
  name : String
  partitions : List OffsetCommitResponsePartition
deriving DecidableEq, Repr

structure OffsetCommitResponse where
  throttleTimeMs : Int
  topics : List OffsetCommitResponseTopic
deriving DecidableEq, Repr

namespace OffsetCommit

def commits (request : OffsetCommitRequest) : List OffsetCommit :=
  request.topics.flatMap fun topic => topic.partitions.map fun partition =>
    ⟨topic.name, partition.partitionIndex, partition.committedOffset, partition.committedMetadata⟩

/-- The response gives every entry of the request the one error code. -/
def answer (request : OffsetCommitRequest) (errorCode : Int) : OffsetCommitResponse :=
  ⟨0, request.topics.map fun topic => ⟨topic.name, topic.partitions.map fun partition => ⟨partition.partitionIndex, errorCode⟩⟩⟩

/-- `offset_commit::response`. -/
def response (request : OffsetCommitRequest) : GroupHandler OffsetCommitResponse := do
  let errorCode ← unlessStatic request.groupInstanceId
    (GroupCoordinator.commitOffsets request.groupId request.generationIdOrMemberEpoch request.memberId (commits request))
  pure (answer request errorCode)

end OffsetCommit

/-- `offset_fetch::response`, as a client. -/
def OffsetFetch.response (request : OffsetFetchRequest) : GroupHandler OffsetFetchResponse := do
  let fetched ← GroupCoordinator.fetchOffsets request.groupId (request.topics.map requestedKeys)
  pure ⟨0, 0, groupByTopic fetched⟩

/-! ### DescribeGroups and ListGroups -/

structure DescribedGroupMember where
  memberId : String
  groupInstanceId : Option String
  clientId : String
  clientHost : String
  memberMetadata : Bytes
  memberAssignment : Bytes
deriving DecidableEq, Repr

structure DescribedGroup where
  errorCode : Int
  errorMessage : Option String
  groupId : String
  groupState : String
  protocolType : String
  protocolData : String
  members : List DescribedGroupMember
  authorizedOperations : Int
deriving DecidableEq, Repr

structure DescribeGroupsResponse where
  throttleTimeMs : Int
  groups : List DescribedGroup
deriving DecidableEq, Repr

namespace DescribeGroups

def describedGroup (description : GroupDescription) : DescribedGroup :=
  ⟨0, none, description.groupId, description.state, description.protocolType, description.protocolName,
    description.members.map fun member => ⟨member.memberId, none, member.clientId, "", member.metadata, member.assignment⟩,
    -2147483648⟩

def missingGroup (groupId : String) : DescribedGroup :=
  ⟨GroupResponseError.groupIdNotFound.code, none, groupId, "", "", "", [], -2147483648⟩

/-- `describe_groups::response`, of the groups of a request. -/
def response (groups : List String) : GroupHandler DescribeGroupsResponse := do
  let groups ← .each (fun groupId => do
    match ← GroupCoordinator.describe groupId with
    | some description => pure (describedGroup description)
    | none => pure (missingGroup groupId)) groups
  pure ⟨0, groups⟩

end DescribeGroups

structure ListedGroup where
  groupId : String
  protocolType : String
  groupState : String
  groupType : String
deriving DecidableEq, Repr

structure ListGroupsResponse where
  throttleTimeMs : Int
  errorCode : Int
  groups : List ListedGroup
deriving DecidableEq, Repr

/-- `list_groups::response`. -/
def ListGroups.response : GroupHandler ListGroupsResponse := do
  let groups ← GroupCoordinator.list
  pure ⟨0, 0, groups.map fun group => ⟨group.groupId, group.protocolType, "", ""⟩⟩

/-! ### Calls in a run -/

section
variable {s s' : Coordinator} {tr : List CoordinatorEvent}

/-- A call of one step is a step of the run. -/
theorem asked_step {c : GroupCall} {a : c.Answer} {label : Clock → CoordinatorLabel} {out : CoordinatorReply}
    (h : Client.Asked coordinator GroupCall.Answered c s tr s' a)
    (hone : ∀ s tr, c.Answered s tr a → OneStep label out tr) :
    ∃ before e after clock, tr = before ++ e :: after ∧ coordinator.Path s before e.pre ∧ coordinator.Takes e ∧
      coordinator.Path e.post after s' ∧ e.label = label clock ∧ e.out = out := by
  obtain ⟨tr₁, s₁, tr₂, s₂, tr₃, rfl, h₁, h₂, ha, h₃⟩ := h
  obtain ⟨e, clock, rfl, hlabel, hout⟩ := hone _ _ ha
  obtain ⟨⟨rfl, rfl⟩, htakes⟩ := h₂
  exact ⟨tr₁, e, tr₃, clock, by simp, h₁, htakes e (by simp), h₃, hlabel, hout⟩

/-- A section that was run leaves the group as its operation does. -/
theorem runSection_group {groupId : String} {op : GroupOp} {clock : Clock} {reply : GroupReply}
    (h : s.runSection groupId op clock = some (reply, s')) : s'.group groupId = (op.run (s.group groupId) clock).2 := by
  obtain ⟨cell, timed, hl, hstep, rfl⟩ := runSection_eq_some h
  rw [Coordinator.group, Coordinator.group, timed_of_lookup hl, timed_of_lookup (by rw [lookup_insert_eq, if_pos rfl])]
  exact (groupMachine_takes (e := ⟨cell.timed, (op, clock), reply, timed⟩) hstep).2.2.2.1

end

end MemKafka
