import MemKafka.Lib.Bytes
import MemKafka.Lib.Assoc

/-!
# Consumer groups (`broker/groups.rs`)

The data behind a group's mutex and the functions that run under it. An instant is a number of
nanoseconds. Under one lock the code reads the clock up to three times: at the head of the section,
in `begin_rebalance` and in `complete_rebalance_if_ready`; a `Clock` holds these readings, in order.
`change` counts the calls of `notify_waiters`: a `Notified` is the value it had when it was created,
and has fired once the counter is larger. Iteration over the member map is in the order of the
`AList`; no result depends on it.
-/

namespace MemKafka
open Kit

/-- `Duration::from_millis` of a millisecond count clamped at zero. -/
def fromMillis (ms : Int) : Nat := ms.toNat * 1000000

structure Clock where
  now : Nat
  begun : Nat
  completed : Nat
deriving DecidableEq, Repr

structure Clock.Ordered (clock : Clock) : Prop where
  begun : clock.now ≤ clock.begun
  completed : clock.begun ≤ clock.completed

instance (clock : Clock) : Decidable clock.Ordered :=
  decidable_of_iff (clock.now ≤ clock.begun ∧ clock.begun ≤ clock.completed) ⟨fun h => ⟨h.1, h.2⟩, fun h => ⟨h.1, h.2⟩⟩

def u64Max : Nat := 18446744073709551615

/-- `saturating_add(1)` on an `i32` and on a `u64`. -/
def nextGeneration (generationId : Int) : Int := if generationId < i32Max then generationId + 1 else generationId
def nextEpoch (rebalanceEpoch : Nat) : Nat := if rebalanceEpoch < u64Max then rebalanceEpoch + 1 else rebalanceEpoch

inductive GroupState where
  | empty
  | preparingRebalance
  | completingRebalance
  | stable
deriving DecidableEq, Repr

structure JoinProtocol where
  name : String
  metadata : Bytes
deriving DecidableEq, Repr

structure JoinRequest where
  groupId : String
  memberId : String
  clientId : String
  sessionTimeoutMs : Int
  rebalanceTimeoutMs : Int
  protocolType : String
  protocols : List JoinProtocol
deriving DecidableEq, Repr

structure JoinedMember where
  memberId : String
  metadata : Bytes
deriving DecidableEq, Repr

structure JoinedGroup where
  generationId : Int
  protocolType : String
  protocolName : String
  leader : String
  memberId : String
  members : List JoinedMember
deriving DecidableEq, Repr

structure CompletedJoin where
  rebalanceEpoch : Nat
  result : JoinedGroup
deriving DecidableEq, Repr

structure Member where
  clientId : String
  sessionTimeoutMs : Int
  rebalanceTimeoutMs : Int
  lastHeartbeat : Nat
  protocols : List JoinProtocol
  joinedEpoch : Nat
  syncedGeneration : Int
  completedJoin : Option CompletedJoin
deriving DecidableEq, Repr

structure SyncAssignment where
  memberId : String
  assignment : Bytes
deriving DecidableEq, Repr

structure TopicPartition where
  topic : String
  partition : Int
deriving DecidableEq, Repr

structure StoredOffset where
  offset : Int
  metadata : Option String
deriving DecidableEq, Repr

structure OffsetCommit where
  topic : String
  partition : Int
  offset : Int
  metadata : Option String
deriving DecidableEq, Repr

inductive GroupError where
  | unknownMemberId
  | illegalGeneration
  | rebalanceInProgress
  | inconsistentGroupProtocol
  | invalidAssignment
deriving DecidableEq, Repr

abbrev Members := Assoc String Member

structure Group where
  state : GroupState
  generationId : Int
  rebalanceEpoch : Nat
  protocolType : String
  selectedProtocol : String
  leaderMemberId : String
  members : Members
  assignments : Assoc String Bytes
  committedOffsets : Assoc TopicPartition StoredOffset
  rebalanceDeadline : Option Nat
  change : Nat
deriving DecidableEq

def Group.new : Group := ⟨.empty, 0, 0, "", "", "", ∅, ∅, ∅, none, 0⟩

/-! ### Protocol selection -/

def Member.advertises (member : Member) (name : String) : Bool := member.protocols.any (·.name = name)

/-- The candidates of `select_protocol`; the set is only asked for membership. -/
def commonProtocols (members : Members) : List String :=
  (members.entries.flatMap fun e => e.2.protocols.map (·.name)).filter fun candidate =>
    members.entries.all fun e => e.2.advertises candidate

def Member.preferred (common : List String) (member : Member) : Option String :=
  (member.protocols.find? (·.name ∈ common)).map (·.name)

/-- One vote for each member's first common protocol. -/
def countVotes (common : List String) : List Member → Assoc String Nat → Except GroupError (Assoc String Nat)
  | [], votes => .ok votes
  | member :: members, votes =>
    match member.preferred common with
    | none => .error .inconsistentGroupProtocol
    | some name => countVotes common members (votes.insert name ((votes.lookup name).getD 0 + 1))

/-- The order of `max_by`: more votes first, the smaller name among equals. -/
def beats (left right : String × Nat) : Bool :=
  right.2 < left.2 ∨ (right.2 = left.2 ∧ left.1 < right.1)

def electedOf (votes : List (String × Nat)) : Option (String × Nat) :=
  votes.foldl (fun best vote => match best with
    | none => some vote
    | some best => if beats best vote then some best else some vote) none

def selectProtocol (members : Members) : Except GroupError String :=
  if members = ∅ then .error .inconsistentGroupProtocol else
  match countVotes (commonProtocols members) (members.entries.map (·.2)) ∅ with
  | .error error => .error error
  | .ok votes =>
    match electedOf (votes.entries.map fun e => (e.1, e.2)) with
    | some (name, _) => .ok name
    | none => .error .inconsistentGroupProtocol

/-! ### Deadlines -/

def groupRebalanceTimeout (members : Members) : Nat :=
  fromMillis ((members.entries.map fun e => e.2.rebalanceTimeoutMs).max?.getD 0)

def memberDeadline (member : Member) : Nat := member.lastHeartbeat + fromMillis member.sessionTimeoutMs

/-- The members the rebalance deadline is for. -/
def Group.isPending (group : Group) (member : Member) : Bool :=
  match group.state with
  | .empty => false
  | .preparingRebalance => member.joinedEpoch ≠ group.rebalanceEpoch
  | .completingRebalance => member.syncedGeneration ≠ group.generationId
  | .stable => member.syncedGeneration ≠ group.generationId

/-- The smaller of two optional instants, if there is one. -/
def earliest : Option Nat → Option Nat → Option Nat
  | none, d => d
  | d, none => d
  | some a, some b => some (min a b)

def nextExpiryDeadline (group : Group) (activeMemberId : Option String) : Option Nat :=
  let rebalanceDeadline := group.rebalanceDeadline.filter fun _ =>
    group.members.entries.any fun e => activeMemberId ≠ some e.1 ∧ group.isPending e.2
  let sessionDeadline := if group.state = .stable then
      ((group.members.entries.filter fun e => activeMemberId ≠ some e.1 ∧ e.2.syncedGeneration = group.generationId).map
        fun e => memberDeadline e.2).min?
    else none
  earliest rebalanceDeadline sessionDeadline

def extendRebalanceDeadline (group : Group) (now : Nat) : Group :=
  let candidate := now + groupRebalanceTimeout group.members
  match group.rebalanceDeadline with
  | none => { group with rebalanceDeadline := some candidate }
  | some deadline => if deadline < candidate then { group with rebalanceDeadline := some candidate } else group

def clearRebalanceDeadlineIfAllSynced (group : Group) : Group :=
  if group.members.entries.all fun e => e.2.syncedGeneration = group.generationId then
    { group with rebalanceDeadline := none }
  else group

/-! ### Rebalances -/

def beginRebalance (group : Group) (begun : Nat) : Group :=
  { group with
    rebalanceEpoch := nextEpoch group.rebalanceEpoch
    state := .preparingRebalance
    assignments := ∅
    rebalanceDeadline := some (begun + groupRebalanceTimeout group.members)
    change := group.change + 1 }

/-- The members the leader is told of, sorted by id. -/
def membersForLeader (group : Group) : List JoinedMember :=
  (group.members.entries.filterMap fun e =>
    (e.2.protocols.find? (·.name = group.selectedProtocol)).map fun protocol => ⟨e.1, protocol.metadata⟩).insertionSort
      fun left right => left.memberId ≤ right.memberId

/-- The rebalance is prepared, somebody is there and everybody has joined it. -/
def Group.ready (group : Group) : Bool :=
  group.state = .preparingRebalance ∧ group.members ≠ ∅ ∧
    group.members.entries.all fun e => e.2.joinedEpoch = group.rebalanceEpoch

/-- `complete_rebalance_if_ready` once the protocol is selected. -/
def completeRebalance (group : Group) (selectedProtocol : String) (completed : Nat) : Group :=
  let group := { group with
    selectedProtocol := selectedProtocol
    generationId := nextGeneration group.generationId
    assignments := ∅
    state := .completingRebalance
    rebalanceDeadline := some (completed + groupRebalanceTimeout group.members) }
  let leaderMembers := membersForLeader group
  { group with
    members := mapVal (fun id member => { member with
      completedJoin := some ⟨group.rebalanceEpoch,
        { generationId := group.generationId
          protocolType := group.protocolType
          protocolName := group.selectedProtocol
          leader := group.leaderMemberId
          memberId := id
          members := if id = group.leaderMemberId then leaderMembers else [] }⟩ }) group.members
    change := group.change + 1 }

def completeRebalanceIfReady (group : Group) (completed : Nat) : Except GroupError Bool × Group :=
  if group.ready = false then (.ok false, group) else
  match selectProtocol group.members with
  | .error error => (.error error, group)
  | .ok selectedProtocol => (.ok true, completeRebalance group selectedProtocol completed)

def completedJoin (group : Group) (memberId : String) (rebalanceEpoch : Nat) : Option JoinedGroup :=
  (((group.members.lookup memberId).bind (·.completedJoin)).filter (·.rebalanceEpoch = rebalanceEpoch)).map (·.result)

def transitionAfterRemoval (group : Group) (begun : Nat) : Group :=
  if group.members = ∅ then
    { group with
      state := .empty
      leaderMemberId := ""
      protocolType := ""
      selectedProtocol := ""
      assignments := ∅
      rebalanceDeadline := none
      change := group.change + 1 }
  else
    let group := if group.leaderMemberId ∈ group.members then group
      else { group with leaderMemberId := group.members.keys.min?.getD "" }
    if group.state ≠ .preparingRebalance then beginRebalance group begun
    else { group with assignments := ∅, change := group.change + 1 }

/-- Removes members and their assignments; what follows is the transition of every removal. -/
def removeMembers (group : Group) (ids : List String) (begun : Nat) : Group :=
  transitionAfterRemoval
    { group with members := eraseAll group.members ids, assignments := eraseAll group.assignments ids } begun

def Group.isStale (group : Group) (now : Nat) (activeMemberId : Option String) (id : String) (member : Member) : Bool :=
  if activeMemberId = some id then false else
  let rebalanceExpired := group.rebalanceDeadline.any (· ≤ now)
  match group.state with
  | .empty => false
  | .preparingRebalance => rebalanceExpired ∧ member.joinedEpoch ≠ group.rebalanceEpoch
  | .completingRebalance => rebalanceExpired ∧ member.syncedGeneration ≠ group.generationId
  | .stable =>
    let pendingSync : Bool := member.syncedGeneration ≠ group.generationId
    (rebalanceExpired ∧ pendingSync) ∨ (¬ pendingSync ∧ memberDeadline member ≤ now)

def staleMembers (group : Group) (now : Nat) (activeMemberId : Option String) : List String :=
  (group.members.entries.filter fun e => group.isStale now activeMemberId e.1 e.2).map (·.1)

def expireStaleMembers (group : Group) (clock : Clock) (activeMemberId : Option String) : Group :=
  let expired := staleMembers group clock.now activeMemberId
  if expired = [] then group else removeMembers group expired clock.begun

def validateMemberAndGeneration (group : Group) (generationId : Int) (memberId : String) : Except GroupError Unit :=
  if memberId ∉ group.members then .error .unknownMemberId
  else if group.generationId ≠ generationId then .error .illegalGeneration
  else .ok ()

/-- `get_mut(..).expect(..).last_heartbeat = now`, on a member just looked up. -/
def touchMember (group : Group) (memberId : String) (now : Nat) : Group :=
  { group with members := update group.members memberId fun member => { member with lastHeartbeat := now } }

/-- `get_mut(..).expect(..).synced_generation = generation_id`, on a member just validated. -/
def markSynced (group : Group) (memberId : String) (generationId : Int) : Group :=
  { group with members := update group.members memberId fun member => { member with syncedGeneration := generationId } }

end MemKafka
