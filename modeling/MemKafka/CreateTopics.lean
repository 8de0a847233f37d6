import MemKafka.Lib.Outcome
import MemKafka.DescribeTopicPartitions

/-!
# Creating topics (`kafka/create_topics.rs`)

The topics of a request are created or validated one after the other, each in one section of the catalog's lock. A request
gives the numbers of partitions as an `i32`; the catalog stores a `u32`, and what is returned is converted back. A topic that
is created takes the ids drawn for it; without a free one among them the creation does not end (`NoFreeId`).
-/

namespace MemKafka
open Kit

structure CreatableReplicaAssignment where
  partitionIndex : Int
  brokerIds : List Int
deriving DecidableEq, Repr

structure CreatableTopicConfig where
  name : String
  value : Option String
deriving DecidableEq, Repr

structure CreatableTopic where
  name : String
  numPartitions : Int32
  replicationFactor : Int16
  assignments : List CreatableReplicaAssignment := []
  configs : List CreatableTopicConfig := []
deriving DecidableEq

structure CreateTopicsRequest where
  topics : List CreatableTopic
  validateOnly : Bool
deriving DecidableEq

structure CreatableTopicConfigs where
  name : String
  value : Option String
  readOnly : Bool
  configSource : Int
  isSensitive : Bool
deriving DecidableEq, Repr

structure CreatableTopicResult where
  name : String
  topicId : Uuid := 0
  errorCode : Int := 0
  errorMessage : Option String := some ""
  topicConfigErrorCode : Int := 0
  numPartitions : Int := -1
  replicationFactor : Int := -1
  configs : Option (List CreatableTopicConfigs) := some []
deriving DecidableEq, Repr

structure CreateTopicsResponse where
  throttleTimeMs : Int := 0
  topics : List CreatableTopicResult
deriving DecidableEq, Repr

/-- None of the ids that were drawn is free, so that the next one has to be drawn. -/
inductive NoFreeId where
  | noFreeId
deriving DecidableEq, Repr

/-! ### Results -/

def successResultWithPartitionCount (name : String) (partitionCount : Int) : CreatableTopicResult where
  name := name
  errorMessage := none
  numPartitions := partitionCount
  replicationFactor := 1
  configs := some []

def successResult (name : String) (metadata : TopicMetadata) : Option CreatableTopicResult := do
  let partitionCount ← i32OfUsize metadata.partitionCount
  some { successResultWithPartitionCount name partitionCount with topicId := metadata.id }

def validationSuccessResult (name : String) (partitionCount : Int) : CreatableTopicResult :=
  successResultWithPartitionCount name partitionCount

def errorResult (name : String) (error : ResponseError) (message : String) : CreatableTopicResult where
  name := name
  errorCode := error.code
  errorMessage := some message

/-- How a `TopicError` is displayed. -/
def TopicError.message : TopicError → String
  | .alreadyExists => "topic already exists"
  | .invalidName => "invalid topic name"
  | .invalidPartitions => "partition count must be positive"
  | .invalidReplicationFactor => "replication factor must be 1"

def TopicError.responseError : TopicError → ResponseError
  | .alreadyExists => .topicAlreadyExists
  | .invalidName => .invalidTopicException
  | .invalidPartitions => .invalidPartitions
  | .invalidReplicationFactor => .invalidReplicationFactor

def topicErrorResult (name : String) (error : TopicError) : CreatableTopicResult :=
  errorResult name error.responseError error.message

/-! ### `response` -/

def createOne (topic : CreatableTopic) (validateOnly : Bool) (store : TopicStore) (draws : List Uuid) :
    Outcome NoFreeId (CreatableTopicResult × TopicStore) :=
  if topic.assignments ≠ [] then
    .ok (errorResult topic.name .invalidReplicaAssignment "manual replica assignments are not supported", store)
  else if topic.configs ≠ [] then
    .ok (errorResult topic.name .invalidConfig "custom topic configurations are not supported", store)
  else if validateOnly then
    match validateExplicit store.catalog topic.name topic.numPartitions.toInt topic.replicationFactor.toInt with
    | .ok () => .ok (validationSuccessResult topic.name topic.numPartitions.toInt, store)
    | .error error => .ok (topicErrorResult topic.name error, store)
  else
    match createExplicit store topic.name topic.numPartitions.toInt topic.replicationFactor.toInt draws with
    | none => .err .noFreeId
    | some (.ok metadata, store) => do
      let result ← .orPanic (successResult topic.name metadata)
      .ok (result, store)
    | some (.error error, store) => .ok (topicErrorResult topic.name error, store)

/-- The loop of `response`, with the ids drawn for each topic. -/
def createTopics (validateOnly : Bool) : List CreatableTopic → TopicStore → List (List Uuid) →
    Outcome NoFreeId (List CreatableTopicResult × TopicStore)
  | [], store, _ => .ok ([], store)
  | topic :: topics, store, draws => do
    let (result, store) ← createOne topic validateOnly store (draws.headD [])
    let (results, store) ← createTopics validateOnly topics store draws.tail
    .ok (result :: results, store)

def CreateTopicsRequest.response (request : CreateTopicsRequest) (store : TopicStore) (draws : List (List Uuid)) :
    Outcome NoFreeId (CreateTopicsResponse × TopicStore) := do
  let (results, store) ← createTopics request.validateOnly request.topics store draws
  .ok ({ topics := results }, store)

end MemKafka
