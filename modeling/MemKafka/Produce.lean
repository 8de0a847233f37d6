import MemKafka.FetchSpec
import MemKafka.Topics

/-!
# Produce requests (`broker/producers.rs`, `kafka/produce.rs`)

A Produce request takes several locks one after another, so its call is a small machine: a
`ProduceCall` stands at a point between two locked sections, with the responses it has already
pushed, and `produceStep` runs it to its next point. Its place in the request is the number of responses pushed so far.
-/

namespace MemKafka
open Kit Outcome

/-! ### Producer identities -/

structure ProducerIdentity where
  producerId : Int
  producerEpoch : Int
deriving DecidableEq, Repr

inductive ProducerError where
  | idExhausted
  | unknownProducerId
  | invalidProducerEpoch
deriving DecidableEq, Repr

structure ProducerCoordinatorInner where
  nextId : Int
  epochs : AList fun _ : Int => Int
deriving DecidableEq

def ProducerCoordinatorInner.new : ProducerCoordinatorInner := ⟨0, ∅⟩

def ProducerCoordinatorInner.allocate (inner : ProducerCoordinatorInner) :
    Except ProducerError ProducerIdentity × ProducerCoordinatorInner :=
  match addI64 inner.nextId 1 with
  | none => (.error .idExhausted, inner)
  | some producerId => (.ok ⟨producerId, 0⟩, ⟨producerId, inner.epochs.insert producerId 0⟩)

def ProducerCoordinatorInner.validate (inner : ProducerCoordinatorInner) (producerId producerEpoch : Int) :
    Except ProducerError Unit :=
  match inner.epochs.lookup producerId with
  | none => .error .unknownProducerId
  | some expectedEpoch => if expectedEpoch = producerEpoch then .ok () else .error .invalidProducerEpoch

/-! ### Requests and responses -/

inductive ResponseError where
  | unknownServerError
  | offsetOutOfRange
  | corruptMessage
  | unknownTopicOrPartition
  | invalidTopicException
  | invalidRequiredAcks
  | topicAlreadyExists
  | invalidPartitions
  | invalidReplicationFactor
  | invalidReplicaAssignment
  | invalidConfig
  | invalidRequest
  | unsupportedForMessageFormat
  | outOfOrderSequenceNumber
  | duplicateSequenceNumber
  | invalidProducerEpoch
  | unknownProducerId
  | unknownTopicId
deriving DecidableEq, Repr

def ResponseError.code : ResponseError → Int
  | .unknownServerError => -1
  | .offsetOutOfRange => 1
  | .corruptMessage => 2
  | .unknownTopicOrPartition => 3
  | .invalidTopicException => 17
  | .invalidRequiredAcks => 21
  | .topicAlreadyExists => 36
  | .invalidPartitions => 37
  | .invalidReplicationFactor => 38
  | .invalidReplicaAssignment => 39
  | .invalidConfig => 40
  | .invalidRequest => 42
  | .unsupportedForMessageFormat => 43
  | .outOfOrderSequenceNumber => 45
  | .duplicateSequenceNumber => 46
  | .invalidProducerEpoch => 47
  | .unknownProducerId => 59
  | .unknownTopicId => 100

theorem ResponseError.code_ne_zero (error : ResponseError) : error.code ≠ 0 := by
  cases error <;> decide

structure PartitionProduceData where
  index : Int
  records : Option Bytes
deriving DecidableEq, Repr

structure TopicProduceData where
  name : String
  partitionData : List PartitionProduceData
deriving DecidableEq, Repr

structure ProduceRequest where
  acks : Int
  transactionalId : Option String
  topicData : List TopicProduceData
deriving DecidableEq, Repr

structure PartitionProduceResponse where
  index : Int
  errorCode : Int
  baseOffset : Int
  logAppendTimeMs : Int
  logStartOffset : Int
deriving DecidableEq, Repr

structure TopicProduceResponse where
  name : String
  partitionResponses : List PartitionProduceResponse
deriving DecidableEq, Repr

structure ProduceResponse where
  responses : List TopicProduceResponse
  throttleTimeMs : Int
deriving DecidableEq, Repr

def errorPartition (index : Int) (error : ResponseError) : PartitionProduceResponse :=
  ⟨index, error.code, -1, -1, 0⟩

def requestError (request : ProduceRequest) : Option ResponseError :=
  if ¬ (-1 ≤ request.acks ∧ request.acks ≤ 1) then some .invalidRequiredAcks
  else if request.transactionalId.isSome then some .unsupportedForMessageFormat
  else none

/-! ### The call -/

/-- The state the requests share, and how often `notify_append` has run. -/
structure DataState where
  topics : TopicStore
  producers : ProducerCoordinatorInner
  appendNotifications : Nat
deriving DecidableEq

def DataState.init : DataState := ⟨.default, .new, 0⟩

structure BrokerConfig where
  autoCreateTopics : Bool
  defaultPartitions : Nat
deriving DecidableEq, Repr

/-- Where `produce_partition` stands: before the catalog lookup, before the identity check, before the
append, or between a successful append and its notification. -/
inductive PartitionPoint where
  | lookup
  | validate (log : LogRef) (records : Bytes) (producer : RecordSetProducer)
  | append (log : LogRef) (records : Bytes)
  | notify (response : PartitionProduceResponse)
deriving DecidableEq

/-- Where `response` and `produce_topic` stand. -/
inductive ProducePoint where
  | topic
  | createTopic
  | partitions (topicError : Option ResponseError) (partitionResponses : List PartitionProduceResponse) (point : PartitionPoint)
deriving DecidableEq

structure ProduceCall where
  request : ProduceRequest
  responses : List TopicProduceResponse
  point : ProducePoint
deriving DecidableEq

def ProduceCall.start (request : ProduceRequest) : ProduceCall := ⟨request, [], .topic⟩

/-- `produce_partition` from one point to the next, or to its response. -/
def producePartitionStep (crc32c : Bytes → UInt32) (state : DataState) (topic : String)
    (request : PartitionProduceData) :
    PartitionPoint → Option (DataState × (PartitionPoint ⊕ PartitionProduceResponse))
  | .lookup =>
    match state.topics.catalog.partition topic request.index with
    | none => some (state, .inr (errorPartition request.index .unknownTopicOrPartition))
    | some log =>
      match request.records with
      | none => some (state, .inr (errorPartition request.index .corruptMessage))
      | some records =>
        match (recordSetProducer crc32c records).run with
        | none => none
        | some (.error .unsupportedBatch) => some (state, .inr (errorPartition request.index .unsupportedForMessageFormat))
        | some (.error .malformed) => some (state, .inr (errorPartition request.index .corruptMessage))
        | some (.error .offsetOverflow) => some (state, .inr (errorPartition request.index .corruptMessage))
        -- `unreachable!`
        | some (.error .outOfOrderSequence) => none
        | some (.error .duplicateSequence) => none
        | some (.ok none) => some (state, .inl (.append log records))
        | some (.ok (some producer)) => some (state, .inl (.validate log records producer))
  | .validate log records producer =>
    match state.producers.validate producer.producerId producer.producerEpoch with
    | .ok () => some (state, .inl (.append log records))
    | .error .unknownProducerId => some (state, .inr (errorPartition request.index .unknownProducerId))
    | .error .invalidProducerEpoch => some (state, .inr (errorPartition request.index .invalidProducerEpoch))
    | .error .idExhausted => some (state, .inr (errorPartition request.index .unknownServerError))
  | .append log records => do
    let inner ← state.topics.logs[log]?
    let (result, inner) ← append crc32c inner records
    let state := { state with topics := { state.topics with logs := state.topics.logs.set log inner } }
    match result with
    | .ok result =>
      let response : PartitionProduceResponse := ⟨request.index, 0, result.baseOffset, -1, 0⟩
      if result.appended then some (state, .inl (.notify response)) else some (state, .inr response)
    | .error .unsupportedBatch => some (state, .inr (errorPartition request.index .unsupportedForMessageFormat))
    | .error .malformed => some (state, .inr (errorPartition request.index .corruptMessage))
    | .error .offsetOverflow => some (state, .inr (errorPartition request.index .corruptMessage))
    | .error .outOfOrderSequence => some (state, .inr (errorPartition request.index .outOfOrderSequenceNumber))
    | .error .duplicateSequence => some (state, .inr (errorPartition request.index .duplicateSequenceNumber))
  | .notify response => some ({ state with appendNotifications := state.appendNotifications + 1 }, .inr response)

/-- `response` from one point to the next, or to the end of the call; `none` is a panic. -/
def produceStep (crc32c : Bytes → UInt32) (config : BrokerConfig) (state : DataState) (call : ProduceCall)
    (draws : List Uuid) :
    Option (DataState × (ProduceCall ⊕ ProduceResponse)) :=
  match call.request.topicData[call.responses.length]? with
  | none => some (state, .inr ⟨call.responses, 0⟩)
  | some topic =>
    match call.point with
    | .topic =>
      match requestError call.request with
      | some error => some (state, .inl { call with point := .partitions (some error) [] .lookup })
      | none =>
        match getOrAutoCreateRead state.topics.catalog topic.name config.autoCreateTopics with
        | none => some (state, .inl { call with point := .createTopic })
        | some (.ok (some _)) => some (state, .inl { call with point := .partitions none [] .lookup })
        | some (.ok none) =>
          some (state, .inl { call with point := .partitions (some .unknownTopicOrPartition) [] .lookup })
        | some (.error .invalidName) =>
          some (state, .inl { call with point := .partitions (some .invalidTopicException) [] .lookup })
        -- `unreachable!`
        | some (.error _) => none
    | .createTopic => do
      let (_, topics) ← getOrAutoCreateWrite config.defaultPartitions state.topics topic.name draws
      some ({ state with topics := topics }, .inl { call with point := .partitions none [] .lookup })
    | .partitions topicError partitionResponses point =>
      match topic.partitionData[partitionResponses.length]? with
      | none => some (state, .inl { call with responses := call.responses ++ [⟨topic.name, partitionResponses⟩], point := .topic })
      | some partition =>
        match topicError with
        | some error =>
          some (state, .inl { call with
            point := .partitions topicError (partitionResponses ++ [errorPartition partition.index error]) .lookup })
        | none => do
          let (state, next) ← producePartitionStep crc32c state topic.name partition point
          match next with
          | .inl point => some (state, .inl { call with point := .partitions none partitionResponses point })
          | .inr response =>
            some (state, .inl { call with point := .partitions none (partitionResponses ++ [response]) .lookup })

end MemKafka
