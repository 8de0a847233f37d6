import MemKafka.Produce
import MemKafka.Topics

/-!
# Describing topics page by page (`kafka/describe_topic_partitions.rs`)

`response` takes the catalog's lock once for the list of all topics and once more for each name it looks up, and
other calls may create topics in between: what the list returned and what each lookup finds are
separate arguments. The names it goes through are distinct, so a lookup is a function of the name. `none` is a panic.
-/

namespace MemKafka
open Kit

structure Cursor where
  topicName : String
  partitionIndex : Int
deriving DecidableEq, Repr

structure DescribeTopicPartitionsRequest where
  topics : List String
  responsePartitionLimit : Int
  cursor : Option Cursor
deriving DecidableEq, Repr

structure DescribeTopicPartitionsResponsePartition where
  errorCode : Int := 0
  partitionIndex : Int
  leaderId : Int
  leaderEpoch : Int
  replicaNodes : List Int
  isrNodes : List Int
  eligibleLeaderReplicas : Option (List Int)
  lastKnownElr : Option (List Int)
  offlineReplicas : List Int
deriving DecidableEq, Repr

structure DescribeTopicPartitionsResponseTopic where
  errorCode : Int := 0
  name : Option String
  topicId : Uuid
  isInternal : Bool
  partitions : List DescribeTopicPartitionsResponsePartition
  /-- the protocol's default says that the operations were not asked for -/
  topicAuthorizedOperations : Int := -2147483648
deriving DecidableEq, Repr

structure DescribeTopicPartitionsResponse where
  throttleTimeMs : Int := 0
  topics : List DescribeTopicPartitionsResponseTopic := []
  nextCursor : Option Cursor := none
deriving DecidableEq, Repr

/-- `TOPIC_AUTHORIZED_OPERATIONS` in `kafka/discovery.rs`. -/
def topicAuthorizedOperations : Int := 3576

/-- `i32::try_from` of a `usize`. -/
def i32OfUsize (n : Nat) : Option Int := if (n : Int) ≤ i32Max then some n else none

/-- `usize::try_from` of an `i32`. -/
def usizeOfI32 (n : Int) : Option Nat := if 0 ≤ n then some n.toNat else none

/-- `n - m` for `usize`. -/
def subUsize (n m : Nat) : Option Nat := if m ≤ n then some (n - m) else none

/-- The names a request is about, all of the catalog's if it names none. -/
def DescribeTopicPartitionsRequest.names (request : DescribeTopicPartitionsRequest)
    (catalogTopics : List TopicMetadata) : List String :=
  if request.topics ≠ [] then ascending request.topics else ascending (catalogTopics.map (·.name))

/-- Whether a page that starts at `cursor` comes to `name`. -/
def reaches (cursor : Option Cursor) (name : String) : Bool := cursor.all fun cursor => cursor.topicName ≤ name

def selectedNames (request : DescribeTopicPartitionsRequest) (catalogTopics : List TopicMetadata) :
    Except ResponseError (List String) :=
  if request.cursor.any (·.partitionIndex < 0) then .error .invalidRequest else
  if request.topics ≠ [] ∧ request.cursor.any (·.topicName ∉ request.names catalogTopics) then .error .invalidRequest else
  .ok ((request.names catalogTopics).filter (reaches request.cursor))

def partitionAt (brokerId index : Int) : DescribeTopicPartitionsResponsePartition where
  partitionIndex := index
  leaderId := brokerId
  leaderEpoch := 0
  replicaNodes := [brokerId]
  isrNodes := [brokerId]
  eligibleLeaderReplicas := some []
  lastKnownElr := some []
  offlineReplicas := []

/-- The partitions from `start` on, `take` of them. -/
def successTopic (metadata : TopicMetadata) (start take : Nat) (brokerId : Int) :
    Option DescribeTopicPartitionsResponseTopic := do
  let indices ← (List.range' start take).mapM i32OfUsize
  some { name := some metadata.name
         topicId := metadata.id
         isInternal := false
         partitions := indices.map (partitionAt brokerId)
         topicAuthorizedOperations := topicAuthorizedOperations }

def errorTopic (name : String) (error : ResponseError) : DescribeTopicPartitionsResponseTopic where
  errorCode := error.code
  name := some name
  topicId := 0
  isInternal := false
  partitions := []

def requestErrorTopics (requested : List String) (error : ResponseError) : List DescribeTopicPartitionsResponseTopic :=
  requested.map (errorTopic · error)

def resourceErrorTopic (name : String) (error : ResponseError) : DescribeTopicPartitionsResponseTopic :=
  { errorTopic name error with topicAuthorizedOperations := topicAuthorizedOperations }

def cursor (name : String) (partitionIndex : Nat) : Option Cursor := do
  let index ← i32OfUsize partitionIndex
  some ⟨name, index⟩

/-- The first partition of a topic that a page shows. -/
def startPartition (cursor : Option Cursor) (name : String) : Option Nat :=
  match cursor.filter (·.topicName == name) with
  | some cursor => usizeOfI32 cursor.partitionIndex
  | none => some 0

section
variable (requested : Option Cursor) (brokerId : Int) (get : String → Except TopicError (Option TopicMetadata))

/-- The loop of `response` over the names, with the partitions the page may still show. -/
def describeTopics : (remaining : Nat) → List String →
    Option (List DescribeTopicPartitionsResponseTopic × Option Cursor)
  | _, [] => some ([], none)
  | remaining, name :: names =>
    match get name with
    | .ok none => do
      let (topics, nextCursor) ← describeTopics remaining names
      some (resourceErrorTopic name .unknownTopicOrPartition :: topics, nextCursor)
    | .error .invalidName => do
      let (topics, nextCursor) ← describeTopics remaining names
      some (resourceErrorTopic name .invalidTopicException :: topics, nextCursor)
    | .error _ => none
    | .ok (some metadata) => do
      let start ← startPartition requested metadata.name
      let stop := metadata.partitionCount
      let take := min (stop - start) remaining
      let topic ← successTopic metadata start take brokerId
      let remaining ← subUsize remaining take
      if start + take < stop then
        let next ← cursor name (start + take)
        some ([topic], some next)
      else
        match if remaining = 0 then names.head? else none with
        | some following => do
          let next ← cursor following 0
          some ([topic], some next)
        | none => do
          let (topics, nextCursor) ← describeTopics remaining names
          some (topic :: topics, nextCursor)

end

def DescribeTopicPartitionsRequest.response (request : DescribeTopicPartitionsRequest) (brokerId : Int)
    (catalogTopics : List TopicMetadata) (get : String → Except TopicError (Option TopicMetadata)) :
    Option DescribeTopicPartitionsResponse :=
  match selectedNames request catalogTopics with
  | .error error => some { topics := requestErrorTopics request.topics error }
  | .ok names => do
    let remaining ← usizeOfI32 (max request.responsePartitionLimit 1)
    let (topics, nextCursor) ← describeTopics request.cursor brokerId get remaining names
    some { topics := topics, nextCursor := nextCursor }

end MemKafka
