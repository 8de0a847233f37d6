import MemKafka.TaggedFields

/-!
# Messages about records (`kafka-protocol/src/messages`)

`Produce`, whose responses have fields of their schema among the tagged ones, and `ListOffsets`.
-/

namespace MemKafka.Wire
open Kit Kit.Format

/-! ### ListOffsets -/

structure ListOffsetsPartition where
  partitionIndex : Int32
  currentLeaderEpoch : Int32
  timestamp : Int64
  unknownTaggedFields : TaggedFields
deriving DecidableEq, Repr

namespace ListOffsetsPartition

def format (version : Int) : Format ListOffsetsPartition ListOffsetsPartition :=
  within 1 11 version (mk <$> of partitionIndex Types.int32 <*>
    of currentLeaderEpoch (whenever (4 ≤ version) Types.int32 (-1)) <*> of timestamp Types.int64 <*>
    of unknownTaggedFields (tagged (6 ≤ version)))

def Written (message : ListOffsetsPartition) : Prop := message.unknownTaggedFields.Written

def seenAt (version : Int) (message : ListOffsetsPartition) : ListOffsetsPartition :=
  { message with
    currentLeaderEpoch := if 4 ≤ version then message.currentLeaderEpoch else (-1)
    unknownTaggedFields := if 6 ≤ version then message.unknownTaggedFields else ∅ }

instance (version : Int) : (format version).Lawful Written (seenAt version) := by
  refine .weaken (f := within 1 11 version _) _ _ (fun message h => ?_) fun message => ?_
  · simpa [Written] using h
  · simp [seenAt]

end ListOffsetsPartition

structure ListOffsetsTopic where
  name : String
  partitions : List ListOffsetsPartition
  unknownTaggedFields : TaggedFields
deriving DecidableEq, Repr

namespace ListOffsetsTopic

def format (version : Int) : Format ListOffsetsTopic ListOffsetsTopic :=
  within 1 11 version (mk <$> of name (text (6 ≤ version)) <*>
    of partitions (list (6 ≤ version) (ListOffsetsPartition.format version)) <*>
    of unknownTaggedFields (tagged (6 ≤ version)))

def Written (message : ListOffsetsTopic) : Prop :=
  (∀ partition ∈ message.partitions, partition.Written) ∧ message.unknownTaggedFields.Written

def seenAt (version : Int) (message : ListOffsetsTopic) : ListOffsetsTopic :=
  { message with
    partitions := message.partitions.map (·.seenAt version)
    unknownTaggedFields := if 6 ≤ version then message.unknownTaggedFields else ∅ }

instance (version : Int) : (format version).Lawful Written (seenAt version) := by
  refine .weaken (f := within 1 11 version _) _ _ (fun message h => ?_) fun message => ?_
  · simpa [Written] using h
  · simp [seenAt]

end ListOffsetsTopic

structure ListOffsetsRequest where
  replicaId : Int32
  isolationLevel : Int8
  topics : List ListOffsetsTopic
  timeoutMs : Int32
  unknownTaggedFields : TaggedFields
deriving DecidableEq, Repr

namespace ListOffsetsRequest

def format (version : Int) : Format ListOffsetsRequest ListOffsetsRequest :=
  within 1 11 version (mk <$> of replicaId Types.int32 <*> of isolationLevel (only (2 ≤ version) Types.int8 (· = 0) 0) <*>
    of topics (list (6 ≤ version) (ListOffsetsTopic.format version)) <*>
    of timeoutMs (whenever (10 ≤ version) Types.int32 0) <*> of unknownTaggedFields (tagged (6 ≤ version)))

def Written (request : ListOffsetsRequest) : Prop := (∀ topic ∈ request.topics, topic.Written) ∧ request.unknownTaggedFields.Written

def seenAt (version : Int) (request : ListOffsetsRequest) : ListOffsetsRequest :=
  { request with
    isolationLevel := if 2 ≤ version then request.isolationLevel else 0
    topics := request.topics.map (·.seenAt version)
    timeoutMs := if 10 ≤ version then request.timeoutMs else 0
    unknownTaggedFields := if 6 ≤ version then request.unknownTaggedFields else ∅ }

instance (version : Int) : (format version).Lawful Written (seenAt version) := by
  refine .weaken (f := within 1 11 version _) _ _ (fun request h => ?_) fun request => ?_
  · simpa [Written] using h
  · simp [seenAt]

end ListOffsetsRequest

structure ListOffsetsPartitionResponse where
  partitionIndex : Int32
  errorCode : Int16
  timestamp : Int64
  offset : Int64
  leaderEpoch : Int32
  unknownTaggedFields : TaggedFields
deriving DecidableEq, Repr

namespace ListOffsetsPartitionResponse

def format (version : Int) : Format ListOffsetsPartitionResponse ListOffsetsPartitionResponse :=
  within 1 11 version (mk <$> of partitionIndex Types.int32 <*> of errorCode Types.int16 <*> of timestamp Types.int64 <*>
    of offset Types.int64 <*> of leaderEpoch (only (4 ≤ version) Types.int32 (· = -1) (-1)) <*>
    of unknownTaggedFields (tagged (6 ≤ version)))

def Written (response : ListOffsetsPartitionResponse) : Prop := response.unknownTaggedFields.Written

def seenAt (version : Int) (response : ListOffsetsPartitionResponse) : ListOffsetsPartitionResponse :=
  { response with
    leaderEpoch := if 4 ≤ version then response.leaderEpoch else (-1)
    unknownTaggedFields := if 6 ≤ version then response.unknownTaggedFields else ∅ }

instance (version : Int) : (format version).Lawful Written (seenAt version) := by
  refine .weaken (f := within 1 11 version _) _ _ (fun response h => ?_) fun response => ?_
  · simpa [Written] using h
  · simp [seenAt]

end ListOffsetsPartitionResponse

structure ListOffsetsTopicResponse where
  name : String
  partitions : List ListOffsetsPartitionResponse
  unknownTaggedFields : TaggedFields
deriving DecidableEq, Repr

namespace ListOffsetsTopicResponse

def format (version : Int) : Format ListOffsetsTopicResponse ListOffsetsTopicResponse :=
  within 1 11 version (mk <$> of name (text (6 ≤ version)) <*>
    of partitions (list (6 ≤ version) (ListOffsetsPartitionResponse.format version)) <*>
    of unknownTaggedFields (tagged (6 ≤ version)))

def Written (response : ListOffsetsTopicResponse) : Prop :=
  (∀ partition ∈ response.partitions, partition.Written) ∧ response.unknownTaggedFields.Written

def seenAt (version : Int) (response : ListOffsetsTopicResponse) : ListOffsetsTopicResponse :=
  { response with
    partitions := response.partitions.map (·.seenAt version)
    unknownTaggedFields := if 6 ≤ version then response.unknownTaggedFields else ∅ }

instance (version : Int) : (format version).Lawful Written (seenAt version) := by
  refine .weaken (f := within 1 11 version _) _ _ (fun response h => ?_) fun response => ?_
  · simpa [Written] using h
  · simp [seenAt]

end ListOffsetsTopicResponse

structure ListOffsetsResponse where
  throttleTimeMs : Int32
  topics : List ListOffsetsTopicResponse
  unknownTaggedFields : TaggedFields
deriving DecidableEq, Repr

namespace ListOffsetsResponse

def format (version : Int) : Format ListOffsetsResponse ListOffsetsResponse :=
  within 1 11 version (mk <$> of throttleTimeMs (whenever (2 ≤ version) Types.int32 0) <*>
    of topics (list (6 ≤ version) (ListOffsetsTopicResponse.format version)) <*>
    of unknownTaggedFields (tagged (6 ≤ version)))

def Written (response : ListOffsetsResponse) : Prop :=
  (∀ topic ∈ response.topics, topic.Written) ∧ response.unknownTaggedFields.Written

def seenAt (version : Int) (response : ListOffsetsResponse) : ListOffsetsResponse :=
  { response with
    throttleTimeMs := if 2 ≤ version then response.throttleTimeMs else 0
    topics := response.topics.map (·.seenAt version)
    unknownTaggedFields := if 6 ≤ version then response.unknownTaggedFields else ∅ }

instance (version : Int) : (format version).Lawful Written (seenAt version) := by
  refine .weaken (f := within 1 11 version _) _ _ (fun response h => ?_) fun response => ?_
  · simpa [Written] using h
  · simp [seenAt]

end ListOffsetsResponse

/-! ### Produce -/

structure PartitionProduceData where
  index : Int32
  records : Option Bytes
  unknownTaggedFields : TaggedFields
deriving DecidableEq, Repr

namespace PartitionProduceData

def format (version : Int) : Format PartitionProduceData PartitionProduceData :=
  within 3 13 version (mk <$> of index Types.int32 <*> of records (nullableData (9 ≤ version)) <*>
    of unknownTaggedFields (tagged (9 ≤ version)))

def Written (message : PartitionProduceData) : Prop := message.unknownTaggedFields.Written

def seenAt (version : Int) (message : PartitionProduceData) : PartitionProduceData :=
  { message with
    unknownTaggedFields := if 9 ≤ version then message.unknownTaggedFields else ∅ }

instance (version : Int) : (format version).Lawful Written (seenAt version) := by
  refine .weaken (f := within 3 13 version _) _ _ (fun message h => ?_) fun message => ?_
  · simpa [Written] using h
  · simp [seenAt]

end PartitionProduceData

structure TopicProduceData where
  name : String
  topicId : Uuid
  partitionData : List PartitionProduceData
  unknownTaggedFields : TaggedFields
deriving DecidableEq, Repr

namespace TopicProduceData

def format (version : Int) : Format TopicProduceData TopicProduceData :=
  within 3 13 version (mk <$> of name (whenever (version ≤ 12) (text (9 ≤ version)) "") <*>
    of topicId (whenever (13 ≤ version) Types.uuid 0) <*>
    of partitionData (list (9 ≤ version) (PartitionProduceData.format version)) <*>
    of unknownTaggedFields (tagged (9 ≤ version)))

def Written (message : TopicProduceData) : Prop :=
  (∀ partition ∈ message.partitionData, partition.Written) ∧ message.unknownTaggedFields.Written

def seenAt (version : Int) (message : TopicProduceData) : TopicProduceData :=
  { message with
    name := if version ≤ 12 then message.name else ""
    topicId := if 13 ≤ version then message.topicId else 0
    partitionData := message.partitionData.map (·.seenAt version)
    unknownTaggedFields := if 9 ≤ version then message.unknownTaggedFields else ∅ }

instance (version : Int) : (format version).Lawful Written (seenAt version) := by
  refine .weaken (f := within 3 13 version _) _ _ (fun message h => ?_) fun message => ?_
  · simpa [Written] using h
  · simp [seenAt]

end TopicProduceData

structure ProduceRequest where
  transactionalId : Option String
  acks : Int16
  timeoutMs : Int32
  topicData : List TopicProduceData
  unknownTaggedFields : TaggedFields
deriving DecidableEq, Repr

namespace ProduceRequest

def format (version : Int) : Format ProduceRequest ProduceRequest :=
  within 3 13 version (mk <$> of transactionalId (nullableText (9 ≤ version)) <*> of acks Types.int16 <*>
    of timeoutMs Types.int32 <*> of topicData (list (9 ≤ version) (TopicProduceData.format version)) <*>
    of unknownTaggedFields (tagged (9 ≤ version)))

def Written (request : ProduceRequest) : Prop := (∀ topic ∈ request.topicData, topic.Written) ∧ request.unknownTaggedFields.Written

def seenAt (version : Int) (request : ProduceRequest) : ProduceRequest :=
  { request with
    topicData := request.topicData.map (·.seenAt version)
    unknownTaggedFields := if 9 ≤ version then request.unknownTaggedFields else ∅ }

instance (version : Int) : (format version).Lawful Written (seenAt version) := by
  refine .weaken (f := within 3 13 version _) _ _ (fun request h => ?_) fun request => ?_
  · simpa [Written] using h
  · simp [seenAt]

end ProduceRequest

structure BatchIndexAndErrorMessage where
  batchIndex : Int32
  batchIndexErrorMessage : Option String
  unknownTaggedFields : TaggedFields
deriving DecidableEq, Repr

namespace BatchIndexAndErrorMessage

def format (version : Int) : Format BatchIndexAndErrorMessage BatchIndexAndErrorMessage :=
  within 3 13 version (mk <$> of batchIndex (only (8 ≤ version) Types.int32 (· = 0) 0) <*>
    of batchIndexErrorMessage (only (8 ≤ version) (nullableText (9 ≤ version)) Option.isNone none) <*>
    of unknownTaggedFields (tagged (9 ≤ version)))

def Written (message : BatchIndexAndErrorMessage) : Prop := message.unknownTaggedFields.Written

def seenAt (version : Int) (message : BatchIndexAndErrorMessage) : BatchIndexAndErrorMessage :=
  { message with
    batchIndex := if 8 ≤ version then message.batchIndex else 0
    batchIndexErrorMessage := if 8 ≤ version then message.batchIndexErrorMessage else none
    unknownTaggedFields := if 9 ≤ version then message.unknownTaggedFields else ∅ }

instance (version : Int) : (format version).Lawful Written (seenAt version) := by
  refine .weaken (f := within 3 13 version _) _ _ (fun message h => ?_) fun message => ?_
  · simpa [Written] using h
  · simp [seenAt]

end BatchIndexAndErrorMessage

structure LeaderIdAndEpoch where
  leaderId : Int32
  leaderEpoch : Int32
  unknownTaggedFields : TaggedFields
deriving DecidableEq, Repr

namespace LeaderIdAndEpoch

def format (version : Int) : Format LeaderIdAndEpoch LeaderIdAndEpoch :=
  within 3 13 version (mk <$> of leaderId (only (10 ≤ version) Types.int32 (· = -1) (-1)) <*>
    of leaderEpoch (only (10 ≤ version) Types.int32 (· = -1) (-1)) <*> of unknownTaggedFields (tagged (9 ≤ version)))

def Written (message : LeaderIdAndEpoch) : Prop := message.unknownTaggedFields.Written

def seenAt (version : Int) (message : LeaderIdAndEpoch) : LeaderIdAndEpoch :=
  { message with
    leaderId := if 10 ≤ version then message.leaderId else (-1)
    leaderEpoch := if 10 ≤ version then message.leaderEpoch else (-1)
    unknownTaggedFields := if 9 ≤ version then message.unknownTaggedFields else ∅ }

instance (version : Int) : (format version).Lawful Written (seenAt version) := by
  refine .weaken (f := within 3 13 version _) _ _ (fun message h => ?_) fun message => ?_
  · simpa [Written] using h
  · simp [seenAt]

end LeaderIdAndEpoch

instance : Inhabited LeaderIdAndEpoch := ⟨-1, -1, ∅⟩

structure NodeEndpoint where
  nodeId : Int32
  host : String
  port : Int32
  rack : Option String
  unknownTaggedFields : TaggedFields
deriving DecidableEq, Repr

namespace NodeEndpoint

def format (version : Int) : Format NodeEndpoint NodeEndpoint :=
  within 3 13 version (mk <$> of nodeId (only (10 ≤ version) Types.int32 (· = 0) 0) <*>
    of host (only (10 ≤ version) (required Types.compactString) (· = "") "") <*>
    of port (only (10 ≤ version) Types.int32 (· = 0) 0) <*>
    of rack (only (10 ≤ version) Types.compactString Option.isNone none) <*> of unknownTaggedFields (tagged (9 ≤ version)))

def Written (message : NodeEndpoint) : Prop := message.unknownTaggedFields.Written

def seenAt (version : Int) (message : NodeEndpoint) : NodeEndpoint :=
  { message with
    nodeId := if 10 ≤ version then message.nodeId else 0
    host := if 10 ≤ version then message.host else ""
    port := if 10 ≤ version then message.port else 0
    rack := if 10 ≤ version then message.rack else none
    unknownTaggedFields := if 9 ≤ version then message.unknownTaggedFields else ∅ }

instance (version : Int) : (format version).Lawful Written (seenAt version) := by
  refine .weaken (f := within 3 13 version _) _ _ (fun message h => ?_) fun message => ?_
  · simpa [Written] using h
  · simp [seenAt]

end NodeEndpoint

structure PartitionProduceResponse where
  index : Int32
  errorCode : Int16
  baseOffset : Int64
  logAppendTimeMs : Int64
  logStartOffset : Int64
  recordErrors : List BatchIndexAndErrorMessage
  errorMessage : Option String
  currentLeader : LeaderIdAndEpoch
  unknownTaggedFields : TaggedFields
deriving DecidableEq, Repr

namespace PartitionProduceResponse

def format (version : Int) : Format PartitionProduceResponse PartitionProduceResponse :=
  within 3 13 version ((fun index errorCode baseOffset logAppendTimeMs logStartOffset recordErrors errorMessage written =>
      ⟨index, errorCode, baseOffset, logAppendTimeMs, logStartOffset, recordErrors, errorMessage, written.1, written.2⟩) <$>
    of index Types.int32 <*> of errorCode Types.int16 <*> of baseOffset Types.int64 <*> of logAppendTimeMs Types.int64 <*>
    of logStartOffset (whenever (5 ≤ version) Types.int64 (-1)) <*>
    of recordErrors (whenever (8 ≤ version) (list (9 ≤ version) (BatchIndexAndErrorMessage.format version)) []) <*>
    of errorMessage (whenever (8 ≤ version) (nullableText (9 ≤ version)) none) <*>
    of (fun response => (response.currentLeader, response.unknownTaggedFields))
      (taggedWith (9 ≤ version) (10 ≤ version) (LeaderIdAndEpoch.format version) default))

def Written (response : PartitionProduceResponse) : Prop :=
  (∀ error ∈ response.recordErrors, error.Written) ∧ response.currentLeader.Written ∧ response.unknownTaggedFields.WrittenFrom 1

def seenAt (version : Int) (response : PartitionProduceResponse) : PartitionProduceResponse :=
  { response with
    logStartOffset := if 5 ≤ version then response.logStartOffset else (-1)
    recordErrors := if 8 ≤ version then response.recordErrors.map (·.seenAt version) else []
    errorMessage := if 8 ≤ version then response.errorMessage else none
    currentLeader := if 10 ≤ version then response.currentLeader.seenAt version else default
    unknownTaggedFields := if 9 ≤ version then response.unknownTaggedFields else ∅ }

instance (version : Int) : (format version).Lawful Written (seenAt version) := by
  have hdefault : LeaderIdAndEpoch.seenAt version default = default := by simp [LeaderIdAndEpoch.seenAt, default]
  have := taggedWith_lawful (9 ≤ version) (10 ≤ version) (LeaderIdAndEpoch.format version) hdefault
  refine .weaken (f := within 3 13 version _) _ _ (fun response h => ?_) fun response => ?_
  · simpa using ⟨fun _ : 8 ≤ version => h.1, h.2⟩
  · by_cases hflexible : 9 ≤ version
    · simp [seenAt, hflexible]
    · simp [seenAt, hflexible, show ¬ 10 ≤ version by omega]

end PartitionProduceResponse

structure TopicProduceResponse where
  name : String
  topicId : Uuid
  partitionResponses : List PartitionProduceResponse
  unknownTaggedFields : TaggedFields
deriving DecidableEq, Repr

namespace TopicProduceResponse

def format (version : Int) : Format TopicProduceResponse TopicProduceResponse :=
  within 3 13 version (mk <$> of name (whenever (version ≤ 12) (text (9 ≤ version)) "") <*>
    of topicId (whenever (13 ≤ version) Types.uuid 0) <*>
    of partitionResponses (list (9 ≤ version) (PartitionProduceResponse.format version)) <*>
    of unknownTaggedFields (tagged (9 ≤ version)))

def Written (response : TopicProduceResponse) : Prop :=
  (∀ partition ∈ response.partitionResponses, partition.Written) ∧ response.unknownTaggedFields.Written

def seenAt (version : Int) (response : TopicProduceResponse) : TopicProduceResponse :=
  { response with
    name := if version ≤ 12 then response.name else ""
    topicId := if 13 ≤ version then response.topicId else 0
    partitionResponses := response.partitionResponses.map (·.seenAt version)
    unknownTaggedFields := if 9 ≤ version then response.unknownTaggedFields else ∅ }

instance (version : Int) : (format version).Lawful Written (seenAt version) := by
  refine .weaken (f := within 3 13 version _) _ _ (fun response h => ?_) fun response => ?_
  · simpa [Written] using h
  · simp [seenAt]

end TopicProduceResponse

structure ProduceResponse where
  responses : List TopicProduceResponse
  throttleTimeMs : Int32
  nodeEndpoints : List NodeEndpoint
  unknownTaggedFields : TaggedFields
deriving DecidableEq, Repr

namespace ProduceResponse

def format (version : Int) : Format ProduceResponse ProduceResponse :=
  within 3 13 version ((fun responses throttleTimeMs written => ⟨responses, throttleTimeMs, written.1, written.2⟩) <$>
    of responses (list (9 ≤ version) (TopicProduceResponse.format version)) <*> of throttleTimeMs Types.int32 <*>
    of (fun response => (response.nodeEndpoints, response.unknownTaggedFields))
      (taggedWith (9 ≤ version) (10 ≤ version) (required (Types.compactArray (NodeEndpoint.format version))) []))

def Written (response : ProduceResponse) : Prop :=
  (∀ topic ∈ response.responses, topic.Written) ∧ (∀ endpoint ∈ response.nodeEndpoints, endpoint.Written) ∧
    response.unknownTaggedFields.WrittenFrom 1

def seenAt (version : Int) (response : ProduceResponse) : ProduceResponse :=
  { response with
    responses := response.responses.map (·.seenAt version)
    nodeEndpoints := if 10 ≤ version then response.nodeEndpoints.map (·.seenAt version) else []
    unknownTaggedFields := if 9 ≤ version then response.unknownTaggedFields else ∅ }

instance (version : Int) : (format version).Lawful Written (seenAt version) := by
  have := taggedWith_lawful (9 ≤ version) (10 ≤ version) (required (Types.compactArray (NodeEndpoint.format version))) List.map_nil
  refine .weaken (f := within 3 13 version _) _ _ (fun response h => ?_) fun response => ?_
  · simpa [Written] using h
  · by_cases hflexible : 9 ≤ version
    · simp [seenAt, hflexible]
    · simp [seenAt, hflexible, show ¬ 10 ≤ version by omega]

end ProduceResponse

end MemKafka.Wire
