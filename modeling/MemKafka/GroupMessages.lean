import MemKafka.TaggedFields

/-!
# Messages of the group protocol (`kafka-protocol/src/messages`)

Each message is its fields in the order in which it writes them. A field that a version does not have is left out (`whenever`), or
must not be set (`only`). What is read of a message is the message as seen at its version.
-/

namespace MemKafka.Wire
open Kit Kit.Format

/-! ### Heartbeat -/

structure HeartbeatRequest where
  groupId : String
  generationId : Int32
  memberId : String
  groupInstanceId : Option String
  unknownTaggedFields : TaggedFields
deriving DecidableEq, Repr

namespace HeartbeatRequest

def format (version : Int) : Format HeartbeatRequest HeartbeatRequest :=
  within 0 4 version (mk <$> of groupId (text (4 ≤ version)) <*> of generationId Types.int32 <*>
    of memberId (text (4 ≤ version)) <*>
    of groupInstanceId (only (3 ≤ version) (nullableText (4 ≤ version)) Option.isNone none) <*>
    of unknownTaggedFields (tagged (4 ≤ version)))

def Written (request : HeartbeatRequest) : Prop := request.unknownTaggedFields.Written

def seenAt (version : Int) (request : HeartbeatRequest) : HeartbeatRequest :=
  { request with
    groupInstanceId := if 3 ≤ version then request.groupInstanceId else none
    unknownTaggedFields := if 4 ≤ version then request.unknownTaggedFields else ∅ }

instance (version : Int) : (format version).Lawful Written (seenAt version) := by
  refine .weaken (f := within 0 4 version _) _ _ (fun request h => ?_) fun request => ?_
  · simpa [Written] using h
  · simp [seenAt]

end HeartbeatRequest

structure HeartbeatResponse where
  throttleTimeMs : Int32
  errorCode : Int16
  unknownTaggedFields : TaggedFields
deriving DecidableEq, Repr

namespace HeartbeatResponse

def format (version : Int) : Format HeartbeatResponse HeartbeatResponse :=
  within 0 4 version (mk <$> of throttleTimeMs (whenever (1 ≤ version) Types.int32 0) <*> of errorCode Types.int16 <*>
    of unknownTaggedFields (tagged (4 ≤ version)))

def Written (response : HeartbeatResponse) : Prop := response.unknownTaggedFields.Written

def seenAt (version : Int) (response : HeartbeatResponse) : HeartbeatResponse :=
  { response with
    throttleTimeMs := if 1 ≤ version then response.throttleTimeMs else 0
    unknownTaggedFields := if 4 ≤ version then response.unknownTaggedFields else ∅ }

instance (version : Int) : (format version).Lawful Written (seenAt version) := by
  refine .weaken (f := within 0 4 version _) _ _ (fun response h => ?_) fun response => ?_
  · simpa [Written] using h
  · simp [seenAt]

end HeartbeatResponse

/-! ### JoinGroup -/

structure JoinGroupRequestProtocol where
  name : String
  metadata : Bytes
  unknownTaggedFields : TaggedFields
deriving DecidableEq, Repr

namespace JoinGroupRequestProtocol

def format (version : Int) : Format JoinGroupRequestProtocol JoinGroupRequestProtocol :=
  within 0 9 version (mk <$> of name (text (6 ≤ version)) <*> of metadata (data (6 ≤ version)) <*>
    of unknownTaggedFields (tagged (6 ≤ version)))

def Written (request : JoinGroupRequestProtocol) : Prop := request.unknownTaggedFields.Written

def seenAt (version : Int) (request : JoinGroupRequestProtocol) : JoinGroupRequestProtocol :=
  { request with
    unknownTaggedFields := if 6 ≤ version then request.unknownTaggedFields else ∅ }

instance (version : Int) : (format version).Lawful Written (seenAt version) := by
  refine .weaken (f := within 0 9 version _) _ _ (fun request h => ?_) fun request => ?_
  · simpa [Written] using h
  · simp [seenAt]

end JoinGroupRequestProtocol

structure JoinGroupRequest where
  groupId : String
  sessionTimeoutMs : Int32
  rebalanceTimeoutMs : Int32
  memberId : String
  groupInstanceId : Option String
  protocolType : String
  protocols : List JoinGroupRequestProtocol
  reason : Option String
  unknownTaggedFields : TaggedFields
deriving DecidableEq, Repr

namespace JoinGroupRequest

def format (version : Int) : Format JoinGroupRequest JoinGroupRequest :=
  within 0 9 version (mk <$> of groupId (text (6 ≤ version)) <*> of sessionTimeoutMs Types.int32 <*>
    of rebalanceTimeoutMs (whenever (1 ≤ version) Types.int32 (-1)) <*> of memberId (text (6 ≤ version)) <*>
    of groupInstanceId (only (5 ≤ version) (nullableText (6 ≤ version)) Option.isNone none) <*>
    of protocolType (text (6 ≤ version)) <*> of protocols (list (6 ≤ version) (JoinGroupRequestProtocol.format version)) <*>
    of reason (whenever (8 ≤ version) Types.compactString none) <*> of unknownTaggedFields (tagged (6 ≤ version)))

def Written (request : JoinGroupRequest) : Prop :=
  (∀ protocol ∈ request.protocols, protocol.Written) ∧ request.unknownTaggedFields.Written

def seenAt (version : Int) (request : JoinGroupRequest) : JoinGroupRequest :=
  { request with
    rebalanceTimeoutMs := if 1 ≤ version then request.rebalanceTimeoutMs else (-1)
    groupInstanceId := if 5 ≤ version then request.groupInstanceId else none
    protocols := request.protocols.map (·.seenAt version)
    reason := if 8 ≤ version then request.reason else none
    unknownTaggedFields := if 6 ≤ version then request.unknownTaggedFields else ∅ }

instance (version : Int) : (format version).Lawful Written (seenAt version) := by
  refine .weaken (f := within 0 9 version _) _ _ (fun request h => ?_) fun request => ?_
  · simpa [Written] using h
  · simp [seenAt]

end JoinGroupRequest

structure JoinGroupResponseMember where
  memberId : String
  groupInstanceId : Option String
  metadata : Bytes
  unknownTaggedFields : TaggedFields
deriving DecidableEq, Repr

namespace JoinGroupResponseMember

def format (version : Int) : Format JoinGroupResponseMember JoinGroupResponseMember :=
  within 0 9 version (mk <$> of memberId (text (6 ≤ version)) <*>
    of groupInstanceId (whenever (5 ≤ version) (nullableText (6 ≤ version)) none) <*> of metadata (data (6 ≤ version)) <*>
    of unknownTaggedFields (tagged (6 ≤ version)))

def Written (response : JoinGroupResponseMember) : Prop := response.unknownTaggedFields.Written

def seenAt (version : Int) (response : JoinGroupResponseMember) : JoinGroupResponseMember :=
  { response with
    groupInstanceId := if 5 ≤ version then response.groupInstanceId else none
    unknownTaggedFields := if 6 ≤ version then response.unknownTaggedFields else ∅ }

instance (version : Int) : (format version).Lawful Written (seenAt version) := by
  refine .weaken (f := within 0 9 version _) _ _ (fun response h => ?_) fun response => ?_
  · simpa [Written] using h
  · simp [seenAt]

end JoinGroupResponseMember

structure JoinGroupResponse where
  throttleTimeMs : Int32
  errorCode : Int16
  generationId : Int32
  protocolType : Option String
  protocolName : Option String
  leader : String
  skipAssignment : Bool
  memberId : String
  members : List JoinGroupResponseMember
  unknownTaggedFields : TaggedFields
deriving DecidableEq, Repr

namespace JoinGroupResponse

def format (version : Int) : Format JoinGroupResponse JoinGroupResponse :=
  within 0 9 version (mk <$> of throttleTimeMs (whenever (2 ≤ version) Types.int32 0) <*> of errorCode Types.int16 <*>
    of generationId Types.int32 <*> of protocolType (whenever (7 ≤ version) Types.compactString none) <*>
    of protocolName (nullableText (6 ≤ version)) <*> of leader (text (6 ≤ version)) <*>
    of skipAssignment (only (9 ≤ version) Types.boolean not false) <*> of memberId (text (6 ≤ version)) <*>
    of members (list (6 ≤ version) (JoinGroupResponseMember.format version)) <*>
    of unknownTaggedFields (tagged (6 ≤ version)))

def Written (response : JoinGroupResponse) : Prop :=
  (∀ member ∈ response.members, member.Written) ∧ response.unknownTaggedFields.Written

def seenAt (version : Int) (response : JoinGroupResponse) : JoinGroupResponse :=
  { response with
    throttleTimeMs := if 2 ≤ version then response.throttleTimeMs else 0
    protocolType := if 7 ≤ version then response.protocolType else none
    skipAssignment := if 9 ≤ version then response.skipAssignment else false
    members := response.members.map (·.seenAt version)
    unknownTaggedFields := if 6 ≤ version then response.unknownTaggedFields else ∅ }

instance (version : Int) : (format version).Lawful Written (seenAt version) := by
  refine .weaken (f := within 0 9 version _) _ _ (fun response h => ?_) fun response => ?_
  · simpa [Written] using h
  · simp [seenAt]

end JoinGroupResponse

/-! ### SyncGroup -/

structure SyncGroupRequestAssignment where
  memberId : String
  assignment : Bytes
  unknownTaggedFields : TaggedFields
deriving DecidableEq, Repr

namespace SyncGroupRequestAssignment

def format (version : Int) : Format SyncGroupRequestAssignment SyncGroupRequestAssignment :=
  within 0 5 version (mk <$> of memberId (text (4 ≤ version)) <*> of assignment (data (4 ≤ version)) <*>
    of unknownTaggedFields (tagged (4 ≤ version)))

def Written (request : SyncGroupRequestAssignment) : Prop := request.unknownTaggedFields.Written

def seenAt (version : Int) (request : SyncGroupRequestAssignment) : SyncGroupRequestAssignment :=
  { request with
    unknownTaggedFields := if 4 ≤ version then request.unknownTaggedFields else ∅ }

instance (version : Int) : (format version).Lawful Written (seenAt version) := by
  refine .weaken (f := within 0 5 version _) _ _ (fun request h => ?_) fun request => ?_
  · simpa [Written] using h
  · simp [seenAt]

end SyncGroupRequestAssignment

structure SyncGroupRequest where
  groupId : String
  generationId : Int32
  memberId : String
  groupInstanceId : Option String
  protocolType : Option String
  protocolName : Option String
  assignments : List SyncGroupRequestAssignment
  unknownTaggedFields : TaggedFields
deriving DecidableEq, Repr

namespace SyncGroupRequest

def format (version : Int) : Format SyncGroupRequest SyncGroupRequest :=
  within 0 5 version (mk <$> of groupId (text (4 ≤ version)) <*> of generationId Types.int32 <*>
    of memberId (text (4 ≤ version)) <*>
    of groupInstanceId (only (3 ≤ version) (nullableText (4 ≤ version)) Option.isNone none) <*>
    of protocolType (whenever (5 ≤ version) Types.compactString none) <*>
    of protocolName (whenever (5 ≤ version) Types.compactString none) <*>
    of assignments (list (4 ≤ version) (SyncGroupRequestAssignment.format version)) <*>
    of unknownTaggedFields (tagged (4 ≤ version)))

def Written (request : SyncGroupRequest) : Prop :=
  (∀ assignment ∈ request.assignments, assignment.Written) ∧ request.unknownTaggedFields.Written

def seenAt (version : Int) (request : SyncGroupRequest) : SyncGroupRequest :=
  { request with
    groupInstanceId := if 3 ≤ version then request.groupInstanceId else none
    protocolType := if 5 ≤ version then request.protocolType else none
    protocolName := if 5 ≤ version then request.protocolName else none
    assignments := request.assignments.map (·.seenAt version)
    unknownTaggedFields := if 4 ≤ version then request.unknownTaggedFields else ∅ }

instance (version : Int) : (format version).Lawful Written (seenAt version) := by
  refine .weaken (f := within 0 5 version _) _ _ (fun request h => ?_) fun request => ?_
  · simpa [Written] using h
  · simp [seenAt]

end SyncGroupRequest

structure SyncGroupResponse where
  throttleTimeMs : Int32
  errorCode : Int16
  protocolType : Option String
  protocolName : Option String
  assignment : Bytes
  unknownTaggedFields : TaggedFields
deriving DecidableEq, Repr

namespace SyncGroupResponse

def format (version : Int) : Format SyncGroupResponse SyncGroupResponse :=
  within 0 5 version (mk <$> of throttleTimeMs (whenever (1 ≤ version) Types.int32 0) <*> of errorCode Types.int16 <*>
    of protocolType (whenever (5 ≤ version) Types.compactString none) <*>
    of protocolName (whenever (5 ≤ version) Types.compactString none) <*> of assignment (data (4 ≤ version)) <*>
    of unknownTaggedFields (tagged (4 ≤ version)))

def Written (response : SyncGroupResponse) : Prop := response.unknownTaggedFields.Written

def seenAt (version : Int) (response : SyncGroupResponse) : SyncGroupResponse :=
  { response with
    throttleTimeMs := if 1 ≤ version then response.throttleTimeMs else 0
    protocolType := if 5 ≤ version then response.protocolType else none
    protocolName := if 5 ≤ version then response.protocolName else none
    unknownTaggedFields := if 4 ≤ version then response.unknownTaggedFields else ∅ }

instance (version : Int) : (format version).Lawful Written (seenAt version) := by
  refine .weaken (f := within 0 5 version _) _ _ (fun response h => ?_) fun response => ?_
  · simpa [Written] using h
  · simp [seenAt]

end SyncGroupResponse

/-! ### LeaveGroup -/

structure MemberIdentity where
  memberId : String
  groupInstanceId : Option String
  reason : Option String
  unknownTaggedFields : TaggedFields
deriving DecidableEq, Repr

namespace MemberIdentity

def format (version : Int) : Format MemberIdentity MemberIdentity :=
  within 0 5 version (mk <$> of memberId (only (3 ≤ version) (text (4 ≤ version)) (· = "") "") <*>
    of groupInstanceId (only (3 ≤ version) (nullableText (4 ≤ version)) Option.isNone none) <*>
    of reason (whenever (5 ≤ version) Types.compactString none) <*> of unknownTaggedFields (tagged (4 ≤ version)))

def Written (message : MemberIdentity) : Prop := message.unknownTaggedFields.Written

def seenAt (version : Int) (message : MemberIdentity) : MemberIdentity :=
  { message with
    memberId := if 3 ≤ version then message.memberId else ""
    groupInstanceId := if 3 ≤ version then message.groupInstanceId else none
    reason := if 5 ≤ version then message.reason else none
    unknownTaggedFields := if 4 ≤ version then message.unknownTaggedFields else ∅ }

instance (version : Int) : (format version).Lawful Written (seenAt version) := by
  refine .weaken (f := within 0 5 version _) _ _ (fun message h => ?_) fun message => ?_
  · simpa [Written] using h
  · simp [seenAt]

end MemberIdentity

structure LeaveGroupRequest where
  groupId : String
  memberId : String
  members : List MemberIdentity
  unknownTaggedFields : TaggedFields
deriving DecidableEq, Repr

namespace LeaveGroupRequest

def format (version : Int) : Format LeaveGroupRequest LeaveGroupRequest :=
  within 0 5 version (mk <$> of groupId (text (4 ≤ version)) <*>
    of memberId (only (version ≤ 2) (required Types.string) (· = "") "") <*>
    of members (only (3 ≤ version) (list (4 ≤ version) (MemberIdentity.format version)) List.isEmpty []) <*>
    of unknownTaggedFields (tagged (4 ≤ version)))

def Written (request : LeaveGroupRequest) : Prop :=
  (∀ member ∈ request.members, member.Written) ∧ request.unknownTaggedFields.Written

def seenAt (version : Int) (request : LeaveGroupRequest) : LeaveGroupRequest :=
  { request with
    memberId := if version ≤ 2 then request.memberId else ""
    members := if 3 ≤ version then request.members.map (·.seenAt version) else []
    unknownTaggedFields := if 4 ≤ version then request.unknownTaggedFields else ∅ }

instance (version : Int) : (format version).Lawful Written (seenAt version) := by
  refine .weaken (f := within 0 5 version _) _ _ (fun request h => ?_) fun request => ?_
  · simpa using ⟨fun _ : 3 ≤ version => h.1, h.2⟩
  · simp [seenAt]

end LeaveGroupRequest

structure MemberResponse where
  memberId : String
  groupInstanceId : Option String
  errorCode : Int16
  unknownTaggedFields : TaggedFields
deriving DecidableEq, Repr

namespace MemberResponse

def format (version : Int) : Format MemberResponse MemberResponse :=
  within 0 5 version (mk <$> of memberId (only (3 ≤ version) (text (4 ≤ version)) (· = "") "") <*>
    of groupInstanceId (only (3 ≤ version) (nullableText (4 ≤ version)) (· = some "") (some "")) <*>
    of errorCode (only (3 ≤ version) Types.int16 (· = 0) 0) <*> of unknownTaggedFields (tagged (4 ≤ version)))

def Written (response : MemberResponse) : Prop := response.unknownTaggedFields.Written

def seenAt (version : Int) (response : MemberResponse) : MemberResponse :=
  { response with
    memberId := if 3 ≤ version then response.memberId else ""
    groupInstanceId := if 3 ≤ version then response.groupInstanceId else (some "")
    errorCode := if 3 ≤ version then response.errorCode else 0
    unknownTaggedFields := if 4 ≤ version then response.unknownTaggedFields else ∅ }

instance (version : Int) : (format version).Lawful Written (seenAt version) := by
  refine .weaken (f := within 0 5 version _) _ _ (fun response h => ?_) fun response => ?_
  · simpa [Written] using h
  · simp [seenAt]

end MemberResponse

structure LeaveGroupResponse where
  throttleTimeMs : Int32
  errorCode : Int16
  members : List MemberResponse
  unknownTaggedFields : TaggedFields
deriving DecidableEq, Repr

namespace LeaveGroupResponse

def format (version : Int) : Format LeaveGroupResponse LeaveGroupResponse :=
  within 0 5 version (mk <$> of throttleTimeMs (whenever (1 ≤ version) Types.int32 0) <*> of errorCode Types.int16 <*>
    of members (only (3 ≤ version) (list (4 ≤ version) (MemberResponse.format version)) List.isEmpty []) <*>
    of unknownTaggedFields (tagged (4 ≤ version)))

def Written (response : LeaveGroupResponse) : Prop :=
  (∀ member ∈ response.members, member.Written) ∧ response.unknownTaggedFields.Written

def seenAt (version : Int) (response : LeaveGroupResponse) : LeaveGroupResponse :=
  { response with
    throttleTimeMs := if 1 ≤ version then response.throttleTimeMs else 0
    members := if 3 ≤ version then response.members.map (·.seenAt version) else []
    unknownTaggedFields := if 4 ≤ version then response.unknownTaggedFields else ∅ }

instance (version : Int) : (format version).Lawful Written (seenAt version) := by
  refine .weaken (f := within 0 5 version _) _ _ (fun response h => ?_) fun response => ?_
  · simpa using ⟨fun _ : 3 ≤ version => h.1, h.2⟩
  · simp [seenAt]

end LeaveGroupResponse

/-! ### OffsetCommit -/

structure OffsetCommitRequestPartition where
  partitionIndex : Int32
  committedOffset : Int64
  committedLeaderEpoch : Int32
  committedMetadata : Option String
  unknownTaggedFields : TaggedFields
deriving DecidableEq, Repr

namespace OffsetCommitRequestPartition

def format (version : Int) : Format OffsetCommitRequestPartition OffsetCommitRequestPartition :=
  within 2 10 version (mk <$> of partitionIndex Types.int32 <*> of committedOffset Types.int64 <*>
    of committedLeaderEpoch (whenever (6 ≤ version) Types.int32 (-1)) <*> of committedMetadata (nullableText (8 ≤ version)) <*>
    of unknownTaggedFields (tagged (8 ≤ version)))

def Written (request : OffsetCommitRequestPartition) : Prop := request.unknownTaggedFields.Written

def seenAt (version : Int) (request : OffsetCommitRequestPartition) : OffsetCommitRequestPartition :=
  { request with
    committedLeaderEpoch := if 6 ≤ version then request.committedLeaderEpoch else (-1)
    unknownTaggedFields := if 8 ≤ version then request.unknownTaggedFields else ∅ }

instance (version : Int) : (format version).Lawful Written (seenAt version) := by
  refine .weaken (f := within 2 10 version _) _ _ (fun request h => ?_) fun request => ?_
  · simpa [Written] using h
  · simp [seenAt]

end OffsetCommitRequestPartition

structure OffsetCommitRequestTopic where
  name : String
  topicId : Uuid
  partitions : List OffsetCommitRequestPartition
  unknownTaggedFields : TaggedFields
deriving DecidableEq, Repr

namespace OffsetCommitRequestTopic

def format (version : Int) : Format OffsetCommitRequestTopic OffsetCommitRequestTopic :=
  within 2 10 version (mk <$> of name (whenever (version ≤ 9) (text (8 ≤ version)) "") <*>
    of topicId (whenever (10 ≤ version) Types.uuid 0) <*>
    of partitions (list (8 ≤ version) (OffsetCommitRequestPartition.format version)) <*>
    of unknownTaggedFields (tagged (8 ≤ version)))

def Written (request : OffsetCommitRequestTopic) : Prop :=
  (∀ partition ∈ request.partitions, partition.Written) ∧ request.unknownTaggedFields.Written

def seenAt (version : Int) (request : OffsetCommitRequestTopic) : OffsetCommitRequestTopic :=
  { request with
    name := if version ≤ 9 then request.name else ""
    topicId := if 10 ≤ version then request.topicId else 0
    partitions := request.partitions.map (·.seenAt version)
    unknownTaggedFields := if 8 ≤ version then request.unknownTaggedFields else ∅ }

instance (version : Int) : (format version).Lawful Written (seenAt version) := by
  refine .weaken (f := within 2 10 version _) _ _ (fun request h => ?_) fun request => ?_
  · simpa [Written] using h
  · simp [seenAt]

end OffsetCommitRequestTopic

structure OffsetCommitRequest where
  groupId : String
  generationIdOrMemberEpoch : Int32
  memberId : String
  groupInstanceId : Option String
  retentionTimeMs : Int64
  topics : List OffsetCommitRequestTopic
  unknownTaggedFields : TaggedFields
deriving DecidableEq, Repr

namespace OffsetCommitRequest

def format (version : Int) : Format OffsetCommitRequest OffsetCommitRequest :=
  within 2 10 version (mk <$> of groupId (text (8 ≤ version)) <*> of generationIdOrMemberEpoch Types.int32 <*>
    of memberId (text (8 ≤ version)) <*>
    of groupInstanceId (only (7 ≤ version) (nullableText (8 ≤ version)) Option.isNone none) <*>
    of retentionTimeMs (whenever (version ≤ 4) Types.int64 (-1)) <*>
    of topics (list (8 ≤ version) (OffsetCommitRequestTopic.format version)) <*>
    of unknownTaggedFields (tagged (8 ≤ version)))

def Written (request : OffsetCommitRequest) : Prop :=
  (∀ topic ∈ request.topics, topic.Written) ∧ request.unknownTaggedFields.Written

def seenAt (version : Int) (request : OffsetCommitRequest) : OffsetCommitRequest :=
  { request with
    groupInstanceId := if 7 ≤ version then request.groupInstanceId else none
    retentionTimeMs := if version ≤ 4 then request.retentionTimeMs else (-1)
    topics := request.topics.map (·.seenAt version)
    unknownTaggedFields := if 8 ≤ version then request.unknownTaggedFields else ∅ }

instance (version : Int) : (format version).Lawful Written (seenAt version) := by
  refine .weaken (f := within 2 10 version _) _ _ (fun request h => ?_) fun request => ?_
  · simpa [Written] using h
  · simp [seenAt]

end OffsetCommitRequest

structure OffsetCommitResponsePartition where
  partitionIndex : Int32
  errorCode : Int16
  unknownTaggedFields : TaggedFields
deriving DecidableEq, Repr

namespace OffsetCommitResponsePartition

def format (version : Int) : Format OffsetCommitResponsePartition OffsetCommitResponsePartition :=
  within 2 10 version (mk <$> of partitionIndex Types.int32 <*> of errorCode Types.int16 <*>
    of unknownTaggedFields (tagged (8 ≤ version)))

def Written (response : OffsetCommitResponsePartition) : Prop := response.unknownTaggedFields.Written

def seenAt (version : Int) (response : OffsetCommitResponsePartition) : OffsetCommitResponsePartition :=
  { response with
    unknownTaggedFields := if 8 ≤ version then response.unknownTaggedFields else ∅ }

instance (version : Int) : (format version).Lawful Written (seenAt version) := by
  refine .weaken (f := within 2 10 version _) _ _ (fun response h => ?_) fun response => ?_
  · simpa [Written] using h
  · simp [seenAt]

end OffsetCommitResponsePartition

structure OffsetCommitResponseTopic where
  name : String
  topicId : Uuid
  partitions : List OffsetCommitResponsePartition
  unknownTaggedFields : TaggedFields
deriving DecidableEq, Repr

namespace OffsetCommitResponseTopic

def format (version : Int) : Format OffsetCommitResponseTopic OffsetCommitResponseTopic :=
  within 2 10 version (mk <$> of name (whenever (version ≤ 9) (text (8 ≤ version)) "") <*>
    of topicId (whenever (10 ≤ version) Types.uuid 0) <*>
    of partitions (list (8 ≤ version) (OffsetCommitResponsePartition.format version)) <*>
    of unknownTaggedFields (tagged (8 ≤ version)))

def Written (response : OffsetCommitResponseTopic) : Prop :=
  (∀ partition ∈ response.partitions, partition.Written) ∧ response.unknownTaggedFields.Written

def seenAt (version : Int) (response : OffsetCommitResponseTopic) : OffsetCommitResponseTopic :=
  { response with
    name := if version ≤ 9 then response.name else ""
    topicId := if 10 ≤ version then response.topicId else 0
    partitions := response.partitions.map (·.seenAt version)
    unknownTaggedFields := if 8 ≤ version then response.unknownTaggedFields else ∅ }

instance (version : Int) : (format version).Lawful Written (seenAt version) := by
  refine .weaken (f := within 2 10 version _) _ _ (fun response h => ?_) fun response => ?_
  · simpa [Written] using h
  · simp [seenAt]

end OffsetCommitResponseTopic

structure OffsetCommitResponse where
  throttleTimeMs : Int32
  topics : List OffsetCommitResponseTopic
  unknownTaggedFields : TaggedFields
deriving DecidableEq, Repr

namespace OffsetCommitResponse

def format (version : Int) : Format OffsetCommitResponse OffsetCommitResponse :=
  within 2 10 version (mk <$> of throttleTimeMs (whenever (3 ≤ version) Types.int32 0) <*>
    of topics (list (8 ≤ version) (OffsetCommitResponseTopic.format version)) <*>
    of unknownTaggedFields (tagged (8 ≤ version)))

def Written (response : OffsetCommitResponse) : Prop :=
  (∀ topic ∈ response.topics, topic.Written) ∧ response.unknownTaggedFields.Written

def seenAt (version : Int) (response : OffsetCommitResponse) : OffsetCommitResponse :=
  { response with
    throttleTimeMs := if 3 ≤ version then response.throttleTimeMs else 0
    topics := response.topics.map (·.seenAt version)
    unknownTaggedFields := if 8 ≤ version then response.unknownTaggedFields else ∅ }

instance (version : Int) : (format version).Lawful Written (seenAt version) := by
  refine .weaken (f := within 2 10 version _) _ _ (fun response h => ?_) fun response => ?_
  · simpa [Written] using h
  · simp [seenAt]

end OffsetCommitResponse

end MemKafka.Wire
