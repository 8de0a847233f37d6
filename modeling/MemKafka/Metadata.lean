import MemKafka.DescribeTopicPartitions

/-!
# Metadata requests (`kafka/metadata.rs`)

`response` takes the catalog's lock once for the list of all topics, once for each topic it may create, and once for each
topic it looks up by name or by id. The creations change the catalog; the names and the ids that are looked up are
distinct, so a lookup is a function of them. `none` is a panic, or a creation without a free id among its draws.
-/

namespace MemKafka.Metadata
open Kit

structure MetadataRequestTopic where
  topicId : Uuid
  name : Option String
deriving DecidableEq, Repr

structure MetadataRequest where
  topics : Option (List MetadataRequestTopic)
  allowAutoTopicCreation : Bool
  includeClusterAuthorizedOperations : Bool
  includeTopicAuthorizedOperations : Bool
deriving DecidableEq, Repr

structure MetadataResponseBroker where
  nodeId : Int
  host : String
  port : Int
  rack : Option String := none
deriving DecidableEq, Repr

structure MetadataResponsePartition where
  errorCode : Int := 0
  partitionIndex : Int
  leaderId : Int
  leaderEpoch : Int
  replicaNodes : List Int
  isrNodes : List Int
  offlineReplicas : List Int
deriving DecidableEq, Repr

structure MetadataResponseTopic where
  errorCode : Int := 0
  name : Option String
  topicId : Uuid
  isInternal : Bool := false
  partitions : List MetadataResponsePartition
  topicAuthorizedOperations : Int := -2147483648
deriving DecidableEq, Repr

structure MetadataResponse where
  throttleTimeMs : Int := 0
  brokers : List MetadataResponseBroker := []
  clusterId : Option String := none
  controllerId : Int := -1
  topics : List MetadataResponseTopic
  clusterAuthorizedOperations : Int := -2147483648
  errorCode : Int := 0
deriving DecidableEq, Repr

/-- What `response` reads of the broker's configuration, and the advertised address. -/
structure MetadataConfig where
  brokerId : Int
  autoCreateTopics : Bool
  forceAutoCreateTopics : Bool
  defaultPartitions : ℕ+
  host : String
  port : Nat
deriving DecidableEq

/-! ### Constants of `kafka/discovery.rs` -/

def clusterId : String := "memkafka"
def clusterAuthorizedOperations : Int := 8096

def optionalAuthorizedOperations (included : Bool) (value : Int) : Int := if included then value else -2147483648

/-! ### Entries -/

def partitionOf (brokerId index : Int) : MetadataResponsePartition where
  partitionIndex := index
  leaderId := brokerId
  leaderEpoch := 0
  replicaNodes := [brokerId]
  isrNodes := [brokerId]
  offlineReplicas := []

def successTopic (topic : TopicMetadata) (brokerId : Int) : Option MetadataResponseTopic := do
  let indices ← (List.range topic.partitionCount).mapM i32OfUsize
  some { name := some topic.name, topicId := topic.id, partitions := indices.map (partitionOf brokerId) }

def errorTopic (name : Option String) (topicId : Uuid) (error : ResponseError) : MetadataResponseTopic where
  errorCode := error.code
  name := name
  topicId := topicId
  partitions := []

/-- The loop of `topics_by_name`, with the names it has seen. -/
def topicsByName (brokerId : Int) (get : String → Except TopicError (Option TopicMetadata)) :
    (seen : List (Option String)) → List MetadataRequestTopic → Option (List MetadataResponseTopic)
  | _, [] => some []
  | seen, requested :: rest =>
    if requested.name ∈ seen then topicsByName brokerId get seen rest else do
    let topic ← match requested.name with
      | none => some (errorTopic none 0 .invalidTopicException)
      | some name =>
        match get name with
        | .ok (some metadata) => successTopic metadata brokerId
        | .ok none => some (errorTopic (some name) 0 .unknownTopicOrPartition)
        | .error .invalidName => some (errorTopic (some name) 0 .invalidTopicException)
        | .error _ => none
    let topics ← topicsByName brokerId get (requested.name :: seen) rest
    some (topic :: topics)

/-- The loop of `topics_by_id`: its unknown and its known topics. -/
def topicsByIdLoop (brokerId : Int) (getById : Uuid → Option TopicMetadata) :
    (seen : List Uuid) → List MetadataRequestTopic → Option (List MetadataResponseTopic × List MetadataResponseTopic)
  | _, [] => some ([], [])
  | seen, requested :: rest =>
    if requested.topicId = 0 ∨ requested.topicId ∈ seen then topicsByIdLoop brokerId getById seen rest else
    match getById requested.topicId with
    | some metadata => do
      let topic ← successTopic metadata brokerId
      let (unknownTopics, knownTopics) ← topicsByIdLoop brokerId getById (requested.topicId :: seen) rest
      some (unknownTopics, topic :: knownTopics)
    | none => do
      let (unknownTopics, knownTopics) ← topicsByIdLoop brokerId getById (requested.topicId :: seen) rest
      some (errorTopic none requested.topicId .unknownTopicId :: unknownTopics, knownTopics)

def topicsById (brokerId : Int) (getById : Uuid → Option TopicMetadata) (requested : List MetadataRequestTopic) :
    Option (List MetadataResponseTopic) := do
  let (unknownTopics, knownTopics) ← topicsByIdLoop brokerId getById [] requested
  some (unknownTopics ++ knownTopics)

/-! ### `response` -/

/-- The loop that creates the topics that are named and not there, each with the ids drawn for it. -/
def autoCreate (defaultPartitions : ℕ+) : List MetadataRequestTopic → TopicStore → List (List Uuid) → Option TopicStore
  | [], store, _ => some store
  | requested :: rest, store, draws =>
    match requested.name with
    | none => autoCreate defaultPartitions rest store draws
    | some name =>
      match getOrAutoCreateRead store.catalog name true with
      | some (.ok _) | some (.error .invalidName) => autoCreate defaultPartitions rest store draws
      | some (.error _) => none
      | none => do
        let (_, store) ← getOrAutoCreateWrite defaultPartitions store name (draws.headD [])
        autoCreate defaultPartitions rest store draws.tail

section
variable (config : MetadataConfig) (request : MetadataRequest) (version : Int)

def allowAutoCreate : Bool :=
  config.autoCreateTopics && (request.allowAutoTopicCreation || config.forceAutoCreateTopics)

def uuidMode (requested : List MetadataRequestTopic) : Bool := 12 ≤ version && requested.any (·.topicId ≠ 0)

def topicsForRequest (store : TopicStore) (draws : List (List Uuid)) : Option (List MetadataResponseTopic × TopicStore) :=
  match request.topics with
  | none => do
    let topics ← store.catalog.list.mapM (successTopic · config.brokerId)
    some (topics, store)
  | some requested =>
    if requested = [] then some ([], store) else
    if uuidMode version requested then do
      let topics ← topicsById config.brokerId store.catalog.getById requested
      some (topics, store)
    else do
      let store ←
        if allowAutoCreate config request then autoCreate config.defaultPartitions requested store draws else some store
      let topics ← topicsByName config.brokerId store.catalog.get [] requested
      some (topics, store)

def requestError : Option ResponseError := do
  let requested ← request.topics
  let hasNonZeroTopicId : Bool := requested.any (·.topicId ≠ 0)
  let hasNullTopicName : Bool := requested.any (·.name.isNone)
  if (10 ≤ version ∧ version ≤ 11) ∧ (hasNonZeroTopicId || hasNullTopicName) then some .invalidRequest else
  if 12 ≤ version ∧ ¬ hasNonZeroTopicId ∧ hasNullTopicName then some .unknownServerError else
  none

def requestErrorResponse (error : ResponseError) : MetadataResponse where
  topics := (request.topics.getD []).map fun topic => errorTopic (some (topic.name.getD "")) topic.topicId error
  errorCode := if 13 ≤ version then error.code else 0

/-- The loop over the entries at the end of `response`. -/
def withAuthorizedOperations (topic : MetadataResponseTopic) : MetadataResponseTopic :=
  if topic.errorCode ≠ ResponseError.unknownTopicId.code then
    { topic with topicAuthorizedOperations :=
        optionalAuthorizedOperations request.includeTopicAuthorizedOperations topicAuthorizedOperations }
  else topic

def response (store : TopicStore) (draws : List (List Uuid)) : Option (MetadataResponse × TopicStore) :=
  match requestError request version with
  | some error => some (requestErrorResponse request version error, store)
  | none => do
    let (topics, store) ← topicsForRequest config request version store draws
    some ({ brokers := [{ nodeId := config.brokerId, host := config.host, port := config.port }]
            clusterId := some clusterId
            controllerId := config.brokerId
            topics := topics.map (withAuthorizedOperations request)
            clusterAuthorizedOperations :=
              optionalAuthorizedOperations request.includeClusterAuthorizedOperations clusterAuthorizedOperations }, store)

end

end MemKafka.Metadata
