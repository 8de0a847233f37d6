import MemKafka.Groups
import MemKafka.Lib.Machine

/-!
# The locked sections of the coordinator (`broker/groups.rs`)

Each `GroupOp` is what one call does between taking and releasing the group's mutex. `join` has two:
`enter`, which may add the member, and `wait`, which its loop runs until the join is completed. `sync`
runs one section per pass of its loop, `refresh` telling the first pass from the later ones. A section
that ends with the call going to sleep returns the `Sleep` it sleeps on.
-/

namespace MemKafka
open Kit

/-- A `Notified` and the deadline of the sleep on it. -/
structure Sleep where
  ticket : Nat
  deadline : Option Nat
deriving DecidableEq, Repr

structure GroupMemberDescription where
  memberId : String
  clientId : String
  metadata : Bytes
  assignment : Bytes
deriving DecidableEq, Repr

structure GroupDescription where
  groupId : String
  state : String
  protocolType : String
  protocolName : String
  members : List GroupMemberDescription
deriving DecidableEq, Repr

inductive GroupOp where
  | enter (mayAddMember : Bool) (request : JoinRequest)
  | wait (memberId : String) (targetEpoch : Nat)
  | sync (generationId : Int) (memberId : String) (assignments : List SyncAssignment) (refresh : Bool)
  | heartbeat (generationId : Int) (memberId : String)
  | leave (memberId : String)
  | commitOffsets (generationId : Int) (memberId : String) (offsets : List OffsetCommit)
  | describe (groupId : String)
  | drive
deriving DecidableEq, Repr

inductive GroupReply where
  | failed (error : GroupError)
  | waiting (targetEpoch : Nat)
  | joined (result : JoinedGroup)
  | assigned (assignment : Bytes)
  | parked (sleep : Sleep)
  | done
  | described (description : GroupDescription)
deriving DecidableEq, Repr

/-! ### `join` -/

def joinMatches (member : Member) (request : JoinRequest) : Bool :=
  member.clientId = request.clientId ∧ member.sessionTimeoutMs = request.sessionTimeoutMs ∧
    member.rebalanceTimeoutMs = request.rebalanceTimeoutMs ∧ member.protocols = request.protocols

/-- The completed join a repeated request is answered with. -/
def cachedJoin (group : Group) (request : JoinRequest) : Option JoinedGroup :=
  let canReuseCompletedJoin := group.state = .completingRebalance ∨
    (group.state = .stable ∧ group.leaderMemberId ≠ request.memberId)
  if canReuseCompletedJoin then
    ((((group.members.lookup request.memberId).filter (joinMatches · request)).bind (·.completedJoin)).filter
      (·.rebalanceEpoch = group.rebalanceEpoch)).map (·.result)
  else none

def targetEpoch (group : Group) : Nat :=
  if group.state ≠ .preparingRebalance then nextEpoch group.rebalanceEpoch else group.rebalanceEpoch

/-- The member a join writes; a completed join and a sync mark of its predecessor are kept. -/
def joiningMember (group : Group) (request : JoinRequest) (now : Nat) : Member :=
  let prior := group.members.lookup request.memberId
  { clientId := request.clientId
    sessionTimeoutMs := request.sessionTimeoutMs
    rebalanceTimeoutMs := request.rebalanceTimeoutMs
    lastHeartbeat := now
    protocols := request.protocols
    joinedEpoch := targetEpoch group
    syncedGeneration := (prior.map (·.syncedGeneration)).getD (-1)
    completedJoin := prior.bind (·.completedJoin) }

def prospectiveMembers (group : Group) (request : JoinRequest) (now : Nat) : Members :=
  group.members.insert request.memberId (joiningMember group request now)

/-- `enter` from `group.members = prospective_members` to the completion. -/
def addMember (group : Group) (mayAddMember : Bool) (request : JoinRequest) (clock : Clock) : Group :=
  let startsRebalance := group.state ≠ .preparingRebalance
  let group := { group with members := prospectiveMembers group request clock.now }
  let group := if startsRebalance then beginRebalance group clock.begun
    else if mayAddMember then extendRebalanceDeadline group clock.now
    else group
  { group with
    protocolType := request.protocolType
    leaderMemberId := if group.leaderMemberId = "" then request.memberId else group.leaderMemberId }

def enter (group : Group) (clock : Clock) (mayAddMember : Bool) (request : JoinRequest) : GroupReply × Group :=
  let group := expireStaleMembers group clock none
  if ¬ mayAddMember ∧ request.memberId ∉ group.members then (.failed .unknownMemberId, group)
  else if group.members ≠ ∅ ∧ group.protocolType ≠ request.protocolType then (.failed .inconsistentGroupProtocol, group)
  else match cachedJoin group request with
  | some result => (.joined result, touchMember group request.memberId clock.now)
  | none =>
    match selectProtocol (prospectiveMembers group request clock.now) with
    | .error error => (.failed error, group)
    | .ok _ =>
      match completeRebalanceIfReady (addMember group mayAddMember request clock) clock.completed with
      | (.error error, group) => (.failed error, group)
      | (.ok _, after) => (.waiting (targetEpoch group), after)

def wait (group : Group) (clock : Clock) (memberId : String) (targetEpoch : Nat) : GroupReply × Group :=
  match completedJoin group memberId targetEpoch with
  | some result => (.joined result, group)
  | none =>
    if memberId ∉ group.members then (.failed .unknownMemberId, group)
    else if group.rebalanceEpoch ≠ targetEpoch then (.failed .rebalanceInProgress, group)
    else match completeRebalanceIfReady (expireStaleMembers group clock (some memberId)) clock.completed with
    | (.error error, group) => (.failed error, group)
    | (.ok _, group) =>
      match completedJoin group memberId targetEpoch with
      | some result => (.joined result, group)
      | none => (.parked ⟨group.change, nextExpiryDeadline group (some memberId)⟩, group)

/-! ### `sync` -/

/-- The leader's assignments name every member once and nobody else. -/
def namesEveryMember (group : Group) (assignments : List SyncAssignment) : Bool :=
  let assignedMembers := (assignments.map (·.memberId)).dedup
  assignedMembers.length = assignments.length ∧ assignedMembers.length = group.members.entries.length ∧
    group.members.keys.all (· ∈ assignedMembers)

/-- The leader's sync: the assignments are installed and the group is stable. -/
def installAssignments (group : Group) (generationId : Int) (memberId : String) (assignments : List SyncAssignment)
    (now : Nat) : Group :=
  let group := markSynced group memberId generationId
  let group := clearRebalanceDeadlineIfAllSynced { group with
    assignments := collect (assignments.map fun assignment => (assignment.memberId, assignment.assignment))
    members := mapVal (fun _ member =>
      if member.syncedGeneration = generationId then { member with lastHeartbeat := now } else member) group.members
    state := .stable }
  { group with change := group.change + 1 }

/-- The sync of a member of a stable group. -/
def syncStable (group : Group) (generationId : Int) (memberId : String) : Group :=
  let group := clearRebalanceDeadlineIfAllSynced (markSynced group memberId generationId)
  { group with change := group.change + 1 }

/-- `group.assignments.get(member_id).cloned().ok_or(RebalanceInProgress)`. -/
def ownAssignment (group : Group) (memberId : String) : GroupReply :=
  match group.assignments.lookup memberId with
  | some assignment => .assigned assignment
  | none => .failed .rebalanceInProgress

def sync (group : Group) (clock : Clock) (generationId : Int) (memberId : String) (assignments : List SyncAssignment)
    (refresh : Bool) : GroupReply × Group :=
  let group := expireStaleMembers group clock (if refresh then none else some memberId)
  match validateMemberAndGeneration group generationId memberId with
  | .error error => (.failed error, group)
  | .ok () =>
    let group := if refresh then touchMember group memberId clock.now else group
    match group.state with
    | .stable =>
      let group := syncStable group generationId memberId
      (ownAssignment group memberId, group)
    | .preparingRebalance => (.failed .rebalanceInProgress, group)
    | .empty => (.failed .rebalanceInProgress, group)
    | .completingRebalance =>
      if memberId = group.leaderMemberId then
        if namesEveryMember group assignments = false then (.failed .invalidAssignment, group) else
        let group := installAssignments group generationId memberId assignments clock.now
        (ownAssignment group memberId, group)
      else
        let group := markSynced group memberId generationId
        (.parked ⟨group.change, nextExpiryDeadline group (some memberId)⟩, group)

/-! ### The other calls -/

def heartbeat (group : Group) (clock : Clock) (generationId : Int) (memberId : String) : GroupReply × Group :=
  let group := expireStaleMembers group clock none
  match validateMemberAndGeneration group generationId memberId with
  | .error error => (.failed error, group)
  | .ok () =>
    let group := touchMember group memberId clock.now
    match group.state with
    | .completingRebalance => (.done, group)
    | .stable => (.done, group)
    | .empty => (.failed .rebalanceInProgress, group)
    | .preparingRebalance => (.failed .rebalanceInProgress, group)

def leave (group : Group) (clock : Clock) (memberId : String) : GroupReply × Group :=
  let group := expireStaleMembers group clock none
  if memberId ∉ group.members then (.failed .unknownMemberId, group) else
  match completeRebalanceIfReady (removeMembers group [memberId] clock.begun) clock.completed with
  | (.error error, group) => (.failed error, group)
  | (.ok _, group) => (.done, group)

def storeOffsets (group : Group) (offsets : List OffsetCommit) : Group :=
  { group with committedOffsets := offsets.foldl (fun committed offset =>
      committed.insert ⟨offset.topic, offset.partition⟩ ⟨offset.offset, offset.metadata⟩) group.committedOffsets }

def commitOffsets (group : Group) (clock : Clock) (generationId : Int) (memberId : String)
    (offsets : List OffsetCommit) : GroupReply × Group :=
  let group := expireStaleMembers group clock none
  match validateMemberAndGeneration group generationId memberId with
  | .error error => (.failed error, group)
  | .ok () =>
    if group.state ≠ .stable then (.failed .rebalanceInProgress, group)
    else (.done, storeOffsets group offsets)

def GroupState.text : GroupState → String
  | .empty => "Empty"
  | .preparingRebalance => "PreparingRebalance"
  | .completingRebalance => "CompletingRebalance"
  | .stable => "Stable"

def describeGroup (groupId : String) (group : Group) : GroupDescription where
  groupId := groupId
  state := group.state.text
  protocolType := group.protocolType
  protocolName := group.selectedProtocol
  members := (group.members.entries.map fun e =>
    { memberId := e.1
      clientId := e.2.clientId
      metadata := ((e.2.protocols.find? (·.name = group.selectedProtocol)).map (·.metadata)).getD []
      assignment := (group.assignments.lookup e.1).getD [] : GroupMemberDescription }).insertionSort
        fun left right => left.memberId ≤ right.memberId

def describe (group : Group) (clock : Clock) (groupId : String) : GroupReply × Group :=
  let group := expireStaleMembers group clock none
  (.described (describeGroup groupId group), group)

/-- One pass of `drive_group_deadlines`. An error of the completion is only logged. -/
def drive (group : Group) (clock : Clock) : GroupReply × Group :=
  let group := (completeRebalanceIfReady (expireStaleMembers group clock none) clock.completed).2
  (.parked ⟨group.change, nextExpiryDeadline group none⟩, group)

def GroupOp.run (op : GroupOp) (group : Group) (clock : Clock) : GroupReply × Group :=
  match op with
  | .enter mayAddMember request => MemKafka.enter group clock mayAddMember request
  | .wait memberId targetEpoch => MemKafka.wait group clock memberId targetEpoch
  | .sync generationId memberId assignments refresh =>
    MemKafka.sync group clock generationId memberId assignments refresh
  | .heartbeat generationId memberId => MemKafka.heartbeat group clock generationId memberId
  | .leave memberId => MemKafka.leave group clock memberId
  | .commitOffsets generationId memberId offsets => MemKafka.commitOffsets group clock generationId memberId offsets
  | .describe groupId => MemKafka.describe group clock groupId
  | .drive => MemKafka.drive group clock

/-! ### The group as a machine -/

/-- A group and the last reading of the clock under its lock. -/
structure TimedGroup where
  group : Group
  clock : Nat
deriving DecidableEq

def TimedGroup.new : TimedGroup := ⟨.new, 0⟩

/-- The sections of one group, in the order in which they hold its lock. The clock never goes back. -/
def groupMachine : Machine TimedGroup (GroupOp × Clock) GroupReply where
  init := .new
  step s label :=
    if s.clock ≤ label.2.now ∧ label.2.Ordered then
      some ((label.1.run s.group label.2).1, ⟨(label.1.run s.group label.2).2, label.2.completed⟩)
    else none

end MemKafka
