import MemKafka.Broker

/-!
# Fetch requests (`kafka/fetch.rs`)

A Fetch request is a loop: it enables a `Notified` of the append notification, reads its partitions one by one
(`snapshot`), and returns or parks until the notification comes or its deadline is reached. `FetchCall` stands
at a point between two of its locks, and `FetchingBroker` is the broker with any number of such calls.
`DataState.appendNotifications` counts the calls of `notify_append`: a `Notified` enabled at one value has
fired once the counter is larger.
-/

namespace MemKafka
open Kit

structure FetchPartition where
  partition : Int
  fetchOffset : Int
  partitionMaxBytes : Int
deriving DecidableEq, Repr

structure FetchTopic where
  topic : String
  partitions : List FetchPartition
deriving DecidableEq, Repr

structure FetchRequest where
  maxWaitMs : Int
  minBytes : Int
  maxBytes : Int
  topics : List FetchTopic
deriving DecidableEq, Repr

structure AbortedTransaction where
  producerId : Int
  firstOffset : Int
deriving DecidableEq, Repr

structure PartitionData where
  partitionIndex : Int
  errorCode : Int
  highWatermark : Int
  lastStableOffset : Int
  abortedTransactions : Option (List AbortedTransaction)
  records : Option Bytes
deriving DecidableEq, Repr

structure FetchableTopicResponse where
  topic : String
  partitions : List PartitionData
deriving DecidableEq, Repr

structure FetchResponse where
  throttleTimeMs : Int
  responses : List FetchableTopicResponse
deriving DecidableEq, Repr

/-- `FetchSnapshot` of `kafka/fetch.rs`. -/
structure Snapshot where
  response : FetchResponse
  recordBytes : Nat
  validPartitions : Nat
deriving DecidableEq, Repr

/-! ### `snapshot` -/

def fetchErrorPartition (index : Int) (error : ResponseError) : PartitionData :=
  ⟨index, error.code, -1, -1, some [], some []⟩

/-- `partition_response` on the log it has found. -/
def readPartition (inner : PartitionLogInner) (request : FetchPartition) (maxBytes : Nat) : Option PartitionData :=
  (fetch inner request.fetchOffset maxBytes).map fun
    | .ok snapshot =>
      ⟨request.partition, 0, snapshot.highWatermark, snapshot.highWatermark, some [], some snapshot.records⟩
    | .error .outOfRange => fetchErrorPartition request.partition .offsetOutOfRange

/-- `partition_response`, when nothing happens between its two locks. -/
def partitionResponse (topics : TopicStore) (topic : String) (request : FetchPartition) (maxBytes : Nat) :
    Option PartitionData :=
  match topics.catalog.partition topic request.partition with
  | none => some (fetchErrorPartition request.partition .unknownTopicOrPartition)
  | some log => do
    let inner ← topics.logs[log]?
    readPartition inner request maxBytes

/-- `usize::saturating_add`. -/
def saturatingAdd (a b : Nat) : Nat := (addUsize a b).getD (2 ^ 64 - 1)

/-- The variables of `snapshot`; `partitions` are those of the topic it is at. -/
structure SnapshotProgress where
  recordBytes : Nat
  validPartitions : Nat
  responses : List FetchableTopicResponse
  partitions : List PartitionData
deriving DecidableEq, Repr

def SnapshotProgress.start : SnapshotProgress := ⟨0, 0, [], []⟩

/-- `partition_max.min(remaining)`. -/
def readLimit (request : FetchRequest) (recordBytes : Nat) (partition : FetchPartition) : Nat :=
  min partition.partitionMaxBytes.toNat (request.maxBytes.toNat - recordBytes)

def exceedsRequestLimit (request : FetchRequest) (recordBytes : Nat) (records : Bytes) : Bool :=
  0 < recordBytes ∧ (addUsize recordBytes records.length).all (request.maxBytes.toNat < ·)

/-- The rest of the body of the inner loop, after a partition is read. -/
def SnapshotProgress.push (request : FetchRequest) (progress : SnapshotProgress) (response : PartitionData) :
    SnapshotProgress :=
  let validPartitions := if response.errorCode = 0 then progress.validPartitions + 1 else progress.validPartitions
  match response.records with
  | none => { progress with validPartitions := validPartitions, partitions := progress.partitions ++ [response] }
  | some records =>
    if exceedsRequestLimit request progress.recordBytes records then
      { progress with
        validPartitions := validPartitions
        partitions := progress.partitions ++ [{ response with records := some [] }] }
    else
      { progress with
        recordBytes := saturatingAdd progress.recordBytes records.length
        validPartitions := validPartitions
        partitions := progress.partitions ++ [response] }

/-- The end of the body of the outer loop. -/
def SnapshotProgress.closeTopic (progress : SnapshotProgress) (topic : FetchTopic) : SnapshotProgress :=
  { progress with responses := progress.responses ++ [⟨topic.topic, progress.partitions⟩], partitions := [] }

def SnapshotProgress.finish (progress : SnapshotProgress) : Snapshot :=
  ⟨⟨0, progress.responses⟩, progress.recordBytes, progress.validPartitions⟩

/-- The body of the inner loop of `snapshot`, and of the outer one, when nothing happens while it reads. -/
def snapshotPartition (request : FetchRequest) (topics : TopicStore) (topic : String) (progress : SnapshotProgress)
    (partition : FetchPartition) : Option SnapshotProgress :=
  (partitionResponse topics topic partition (readLimit request progress.recordBytes partition)).map (progress.push request)

def snapshotTopic (request : FetchRequest) (topics : TopicStore) (progress : SnapshotProgress) (topic : FetchTopic) :
    Option SnapshotProgress :=
  (topic.partitions.foldlM (snapshotPartition request topics topic.topic) progress).map (·.closeTopic topic)

def snapshot (request : FetchRequest) (topics : TopicStore) : Option Snapshot :=
  (request.topics.foldlM (snapshotTopic request topics) .start).map (·.finish)

/-! ### The call -/

/-- Where `response` stands: before it enables the notification, before the lookup of its next partition, before the
read of the log found, before the test of the return condition, or parked. -/
inductive FetchPoint where
  | enable
  | lookup (ticket : Nat) (progress : SnapshotProgress)
  | read (ticket : Nat) (progress : SnapshotProgress) (log : LogRef)
  | test (ticket : Nat) (snapshot : Snapshot)
  | parked (ticket : Nat) (snapshot : Snapshot)
deriving DecidableEq, Repr

structure FetchCall where
  request : FetchRequest
  deadline : Nat
  point : FetchPoint
deriving DecidableEq, Repr

def FetchCall.start (request : FetchRequest) (now : Nat) : FetchCall :=
  ⟨request, now + fromMillis request.maxWaitMs, .enable⟩

/-- The condition to return without waiting. -/
def returnsNow (request : FetchRequest) (snapshot : Snapshot) (deadline now : Nat) : Bool :=
  request.minBytes.toNat ≤ snapshot.recordBytes ∨ request.minBytes.toNat = 0 ∨ request.maxWaitMs.toNat = 0 ∨
    snapshot.validPartitions = 0 ∨ deadline ≤ now

/-- `response` from one point to the next, or to its end; `none` is a panic, or a call that is parked. -/
def fetchStep (state : DataState) (call : FetchCall) (now : Nat) : Option (FetchCall ⊕ FetchResponse) :=
  let goto (point : FetchPoint) : Option (FetchCall ⊕ FetchResponse) := some (.inl { call with point := point })
  match call.point with
  | .enable => goto (.lookup state.appendNotifications .start)
  | .lookup ticket progress =>
    match call.request.topics[progress.responses.length]? with
    | none => goto (.test ticket progress.finish)
    | some topic =>
      match topic.partitions[progress.partitions.length]? with
      | none => goto (.lookup ticket (progress.closeTopic topic))
      | some partition =>
        match state.topics.catalog.partition topic.topic partition.partition with
        | none =>
          let response := fetchErrorPartition partition.partition .unknownTopicOrPartition
          goto (.lookup ticket (progress.push call.request response))
        | some log => goto (.read ticket progress log)
  | .read ticket progress log => do
    let topic ← call.request.topics[progress.responses.length]?
    let partition ← topic.partitions[progress.partitions.length]?
    let inner ← state.topics.logs[log]?
    let response ← readPartition inner partition (readLimit call.request progress.recordBytes partition)
    goto (.lookup ticket (progress.push call.request response))
  | .test ticket snapshot =>
    if returnsNow call.request snapshot call.deadline now then some (.inr snapshot.response)
    else goto (.parked ticket snapshot)
  | .parked _ _ => none

structure FetchingBroker where
  broker : BrokerState
  fetches : Assoc Nat FetchCall

def FetchingBroker.new : FetchingBroker := ⟨.new, ∅⟩

inductive FetchingLabel where
  | broker (label : BrokerLabel)
  | fetch (call : Nat) (request : FetchRequest) (now : Nat)
  | resume (call : Nat) (now : Nat)
  | wake (call : Nat)
  | expire (call : Nat) (now : Nat)
  | drop (call : Nat)
deriving DecidableEq, Repr

inductive FetchingReply where
  | progress
  | broker (reply : BrokerReply)
  | fetched (request : FetchRequest) (response : FetchResponse)
deriving DecidableEq

/-- The call has made an append and not yet the notification of it. -/
def ProduceCall.notifying (call : ProduceCall) : Bool :=
  match call.point with
  | .partitions _ _ (.notify _) => true
  | _ => false

section
variable (crc32c : Bytes → UInt32) (config : BrokerConfig)

/-- A broker step. Between an append and its notification a Produce call does not await, so it is not
dropped there. -/
def FetchingBroker.stepBroker (s : FetchingBroker) (label : BrokerLabel) : Option (BrokerReply × BrokerState) :=
  match label with
  | .drop call => if (s.broker.produceCalls.lookup call).any (·.notifying) then none else s.broker.step crc32c config label
  | label => s.broker.step crc32c config label

def FetchingBroker.step (s : FetchingBroker) : FetchingLabel → Option (FetchingReply × FetchingBroker)
  | .broker label => (s.stepBroker crc32c config label).map fun (reply, broker) => (.broker reply, { s with broker := broker })
  | .fetch call request now =>
    if call ∈ s.fetches then none
    else some (.progress, { s with fetches := s.fetches.insert call (.start request now) })
  | .resume call now => do
    let fetch ← s.fetches.lookup call
    match ← fetchStep s.broker.data fetch now with
    | .inl next => some (.progress, { s with fetches := s.fetches.insert call next })
    | .inr response => some (.fetched fetch.request response, { s with fetches := s.fetches.erase call })
  -- the two branches of `select!`
  | .wake call => do
    let fetch ← s.fetches.lookup call
    match fetch.point with
    | .parked ticket _ =>
      if ticket < s.broker.data.appendNotifications then
        some (.progress, { s with fetches := s.fetches.insert call { fetch with point := .enable } })
      else none
    | _ => none
  | .expire call now => do
    let fetch ← s.fetches.lookup call
    match fetch.point with
    | .parked _ snapshot =>
      if fetch.deadline ≤ now then
        some (.fetched fetch.request snapshot.response, { s with fetches := s.fetches.erase call })
      else none
    | _ => none
  | .drop call => some (.progress, { s with fetches := s.fetches.erase call })

def fetchingBroker : Machine FetchingBroker FetchingLabel FetchingReply where
  init := .new
  step := FetchingBroker.step crc32c config

end

end MemKafka
