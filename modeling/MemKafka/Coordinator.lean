import MemKafka.GroupSections

/-!
# The group coordinator (`GroupCoordinator` in `broker/groups.rs`)

A machine whose steps are the locked sections of any number of concurrent calls. `join` and `sync` take
several locks and go to sleep between them, so each has an entry in `calls` that says where it stands; a
sleeping call can be resumed once its `Notified` has fired or its deadline is reached, and a call whose
connection is gone is dropped wherever it stands. Groups are never removed, so that looking a group up
and then taking its lock is one step, and the group id serves as the reference to it. Each group has
one deadline driver, spawned with it.
-/

namespace MemKafka
open Kit

inductive JoinResult where
  | memberIdRequired (memberId : String)
  | joined (result : JoinedGroup)
deriving DecidableEq, Repr

structure SyncRequest where
  groupId : String
  generationId : Int
  memberId : String
  assignments : List SyncAssignment
deriving DecidableEq, Repr

structure FetchedOffset where
  topic : String
  partition : Int
  offset : Option Int
  metadata : Option String
deriving DecidableEq, Repr

/-- The point of a `join` before its next lock. -/
inductive JoinPoint where
  | reserveMemberId
  | checkPending
  | checkMember
  | openGroup (mayAddMember : Bool)
  | enter (mayAddMember : Bool)
  | clearPending (targetEpoch : Nat)
  | wait (targetEpoch : Nat) (sleep : Option Sleep)
deriving DecidableEq, Repr

structure JoinCall where
  request : JoinRequest
  point : JoinPoint
deriving DecidableEq, Repr

/-- A `sync` before a pass of its loop; the first pass refreshes the member, the others follow a sleep. -/
structure SyncCall where
  request : SyncRequest
  sleep : Option Sleep
deriving DecidableEq, Repr

inductive Call where
  | join (call : JoinCall)
  | sync (call : SyncCall)
deriving DecidableEq, Repr

/-- A group with its driver: before its next pass, or asleep. -/
structure GroupCell where
  timed : TimedGroup
  driver : Option Sleep
deriving DecidableEq

structure Coordinator where
  groups : Assoc String GroupCell
  pendingMemberIds : Finset (String × String)
  nextMemberId : Nat
  calls : Assoc Nat Call

def Coordinator.new : Coordinator := ⟨∅, ∅, 1, ∅⟩

inductive CoordinatorLabel where
  | join (call : Nat) (request : JoinRequest) (requireKnownMemberId : Bool)
  | sync (call : Nat) (request : SyncRequest)
  | resume (call : Nat) (clock : Clock)
  | drop (call : Nat)
  | heartbeat (groupId : String) (generationId : Int) (memberId : String) (clock : Clock)
  | leave (groupId memberId : String) (clock : Clock)
  | commitOffsets (groupId : String) (generationId : Int) (memberId : String) (offsets : List OffsetCommit) (clock : Clock)
  | describe (groupId : String) (clock : Clock)
  | fetchOffsets (groupId : String) (requested : Option (List TopicPartition))
  | drive (groupId : String) (clock : Clock)
deriving DecidableEq, Repr

/-- What a call returns in the step that ends it; `progress` if no call ends. -/
inductive CoordinatorReply where
  | progress
  | join (request : JoinRequest) (result : Except GroupError JoinResult)
  | sync (request : SyncRequest) (result : Except GroupError Bytes)
  | heartbeat (result : Except GroupError Unit)
  | leave (result : Except GroupError Unit)
  | commitOffsets (result : Except GroupError Unit)
  | describe (result : Option GroupDescription)
  | fetchOffsets (result : List FetchedOffset)
deriving DecidableEq

namespace Coordinator

/-- `format!("{client_id}-{sequence}")`. -/
def memberIdOf (clientId : String) (sequence : Nat) : String := clientId ++ "-" ++ toString sequence

/-- The group of an id; a group that is not there yet is a new one. -/
def timed (s : Coordinator) (groupId : String) : TimedGroup := ((s.groups.lookup groupId).map (·.timed)).getD .new

def group (s : Coordinator) (groupId : String) : Group := (s.timed groupId).group

def setCall (s : Coordinator) (call : Nat) (c : Call) : Coordinator := { s with calls := s.calls.insert call c }

def endCall (s : Coordinator) (call : Nat) : Coordinator := { s with calls := s.calls.erase call }

/-- Whether a sleep may end: there is none, its notification has come, or its deadline is reached. -/
def wakes (sleep : Option Sleep) (group : Group) (now : Nat) : Bool :=
  sleep.all fun sleep => sleep.ticket < group.change ∨ sleep.deadline.any (· ≤ now)

/-- Runs a section of a group that is there. -/
def runSection (s : Coordinator) (groupId : String) (op : GroupOp) (clock : Clock) :
    Option (GroupReply × Coordinator) := do
  let cell ← s.groups.lookup groupId
  let (reply, timed) ← groupMachine.step cell.timed (op, clock)
  some (reply, { s with groups := s.groups.insert groupId { cell with timed := timed } })

/-- `group_or_insert`. -/
def openGroup (s : Coordinator) (groupId : String) : Coordinator :=
  if groupId ∈ s.groups then s else { s with groups := s.groups.insert groupId ⟨.new, none⟩ }

/-- `join` up to its first lock. -/
def startJoin (s : Coordinator) (call : Nat) (request : JoinRequest) (requireKnownMemberId : Bool) :
    CoordinatorReply × Coordinator :=
  if request.protocols = [] ∨ request.protocolType = "" then (.join request (.error .inconsistentGroupProtocol), s)
  else if request.memberId = "" then
    let request := { request with memberId := memberIdOf request.clientId s.nextMemberId }
    let s := { s with nextMemberId := (s.nextMemberId + 1) % 2 ^ 64 }
    (.progress, s.setCall call (.join ⟨request, if requireKnownMemberId then .reserveMemberId else .openGroup true⟩))
  else (.progress, s.setCall call (.join ⟨request, .checkPending⟩))

/-- `join` from one lock to the next. -/
def resumeJoin (s : Coordinator) (call : Nat) (join : JoinCall) (clock : Clock) :
    Option (CoordinatorReply × Coordinator) :=
  let groupId := join.request.groupId
  let memberId := join.request.memberId
  let goto (point : JoinPoint) (s : Coordinator) :=
    some (CoordinatorReply.progress, s.setCall call (.join ⟨join.request, point⟩))
  let finish (result : Except GroupError JoinResult) (s : Coordinator) :=
    some (.join join.request result, s.endCall call)
  match join.point with
  | .reserveMemberId =>
    finish (.ok (.memberIdRequired memberId)) { s with pendingMemberIds := insert (groupId, memberId) s.pendingMemberIds }
  | .checkPending => if (groupId, memberId) ∈ s.pendingMemberIds then goto (.openGroup true) s else goto .checkMember s
  | .checkMember =>
    match s.groups.lookup groupId with
    | none => finish (.error .unknownMemberId) s
    | some cell =>
      if memberId ∈ cell.timed.group.members then goto (.openGroup false) s else finish (.error .unknownMemberId) s
  | .openGroup mayAddMember => goto (.enter mayAddMember) (s.openGroup groupId)
  | .enter mayAddMember => do
    let (reply, s) ← s.runSection groupId (.enter mayAddMember join.request) clock
    match reply with
    | .waiting targetEpoch => goto (.clearPending targetEpoch) s
    | .joined result => finish (.ok (.joined result)) s
    | .failed error => finish (.error error) s
    | _ => none
  | .clearPending targetEpoch =>
    goto (.wait targetEpoch none) { s with pendingMemberIds := s.pendingMemberIds.erase (groupId, memberId) }
  | .wait targetEpoch sleep =>
    if wakes sleep (s.group groupId) clock.now = false then none else do
    let (reply, s) ← s.runSection groupId (.wait memberId targetEpoch) clock
    match reply with
    | .parked sleep => goto (.wait targetEpoch (some sleep)) s
    | .joined result => finish (.ok (.joined result)) s
    | .failed error => finish (.error error) s
    | _ => none

/-- One pass of the loop of `sync`. -/
def resumeSync (s : Coordinator) (call : Nat) (sync : SyncCall) (clock : Clock) :
    Option (CoordinatorReply × Coordinator) :=
  let request := sync.request
  let finish (result : Except GroupError Bytes) (s : Coordinator) := some (.sync request result, s.endCall call)
  if request.groupId ∉ s.groups then finish (.error .unknownMemberId) s
  else if wakes sync.sleep (s.group request.groupId) clock.now = false then none else do
  let op := .sync request.generationId request.memberId request.assignments sync.sleep.isNone
  let (reply, s) ← s.runSection request.groupId op clock
  match reply with
  | .parked sleep => some (.progress, s.setCall call (.sync ⟨request, some sleep⟩))
  | .assigned assignment => finish (.ok assignment) s
  | .failed error => finish (.error error) s
  | _ => none

/-- A call that takes the lock of an existing group once and returns nothing but success or an error. -/
def callGroup (s : Coordinator) (groupId : String) (op : GroupOp) (clock : Clock) :
    Option (Except GroupError Unit × Coordinator) :=
  if groupId ∉ s.groups then some (.error .unknownMemberId, s) else do
  let (reply, s) ← s.runSection groupId op clock
  match reply with
  | .done => some (.ok (), s)
  | .failed error => some (.error error, s)
  | _ => none

/-- `fetch_offsets` on the group it found. -/
def readOffsets (group : Group) (requested : Option (List TopicPartition)) : List FetchedOffset :=
  let offsets : List FetchedOffset := match requested with
    | some requested => requested.map fun key =>
      let stored : Option StoredOffset := group.committedOffsets.lookup key
      ⟨key.topic, key.partition, stored.map (·.offset), stored.bind (·.metadata)⟩
    | none => group.committedOffsets.entries.map fun e => ⟨e.1.topic, e.1.partition, some e.2.offset, e.2.metadata⟩
  offsets.insertionSort fun left right =>
    left.topic < right.topic ∨ left.topic = right.topic ∧ left.partition ≤ right.partition

def fetchOffsets (s : Coordinator) (groupId : String) (requested : Option (List TopicPartition)) : List FetchedOffset :=
  match s.groups.lookup groupId with
  | none => (requested.getD []).map fun key => ⟨key.topic, key.partition, none, none⟩
  | some cell => readOffsets cell.timed.group requested

/-- One pass of the driver of a group, after which it sleeps. -/
def driveGroup (s : Coordinator) (groupId : String) (clock : Clock) : Option Coordinator := do
  let cell ← s.groups.lookup groupId
  if wakes cell.driver cell.timed.group clock.now = false then none else
  let (reply, timed) ← groupMachine.step cell.timed (.drive, clock)
  match reply with
  | .parked sleep => some { s with groups := s.groups.insert groupId ⟨timed, some sleep⟩ }
  | _ => none

def step (s : Coordinator) : CoordinatorLabel → Option (CoordinatorReply × Coordinator)
  | .join call request requireKnownMemberId =>
    if call ∈ s.calls then none else some (s.startJoin call request requireKnownMemberId)
  | .sync call request => if call ∈ s.calls then none else some (.progress, s.setCall call (.sync ⟨request, none⟩))
  | .resume call clock =>
    match s.calls.lookup call with
    | none => none
    | some (.join join) => s.resumeJoin call join clock
    | some (.sync sync) => s.resumeSync call sync clock
  | .drop call => some (.progress, s.endCall call)
  | .heartbeat groupId generationId memberId clock =>
    (s.callGroup groupId (.heartbeat generationId memberId) clock).map fun (result, s) => (.heartbeat result, s)
  | .leave groupId memberId clock =>
    (s.callGroup groupId (.leave memberId) clock).map fun (result, s) => (.leave result, s)
  | .commitOffsets groupId generationId memberId offsets clock =>
    (s.callGroup groupId (.commitOffsets generationId memberId offsets) clock).map fun (result, s) => (.commitOffsets result, s)
  | .describe groupId clock =>
    if groupId ∉ s.groups then some (.describe none, s) else do
    let (reply, s) ← s.runSection groupId (.describe groupId) clock
    match reply with
    | .described description => some (.describe (some description), s)
    | _ => none
  | .fetchOffsets groupId requested => some (.fetchOffsets (s.fetchOffsets groupId requested), s)
  | .drive groupId clock => (s.driveGroup groupId clock).map fun s => (.progress, s)

end Coordinator

/-- The coordinator from its start on. -/
def coordinator : Machine Coordinator CoordinatorLabel CoordinatorReply where
  init := .new
  step := Coordinator.step

end MemKafka
