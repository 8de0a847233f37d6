import MemKafka.GroupHandlers
import MemKafka.ProduceExact

/-!
# Handlers of the whole broker

A `BrokerCall` is a lock that a handler of the broker takes, or a call of the group coordinator, whose handlers are served
here as in a run of their own (`GroupHandler.atBroker`). `kafka/list_offsets.rs` is the handler that reads the catalog and the logs.
-/

namespace MemKafka
open Kit

inductive BrokerCall where
  /-- `TopicCatalog::partition`. -/
  | partition (topic : String) (index : Int)
  /-- `PartitionLog::next_offset`. -/
  | nextOffset (log : LogRef)
  | fetch (topic : String) (index offset : Int) (partitionMaxBytes : Nat)
  | group (call : GroupCall)
deriving DecidableEq, Repr

@[reducible] def BrokerCall.Answer : BrokerCall → Type
  | .partition _ _ => Option LogRef
  | .nextOffset _ => Int
  | .fetch _ _ _ _ => Option (Except FetchError FetchSnapshot)
  | .group call => call.Answer

/-- The step of the group coordinator that a step of the broker is. -/
def groupStep (e : BrokerEvent) : Option CoordinatorEvent :=
  match e.label, e.out with
  | .group label, .group out => some ⟨e.pre.groups, label, out, e.post.groups⟩
  | _, _ => none

def BrokerCall.Answered : (c : BrokerCall) → BrokerState → List BrokerEvent → c.Answer → Prop
  | .partition topic index, s, tr, log => tr = [] ∧ log = s.data.topics.catalog.partition topic index
  | .nextOffset log, s, tr, offset => tr = [] ∧ (s.data.topics.logs[log]?).map (·.nextOffset) = some offset
  | .fetch topic index offset partitionMaxBytes, _, tr, result =>
    ∃ e, tr = [e] ∧ e.label = .fetch topic index offset partitionMaxBytes ∧ e.out = .fetched result
  | .group call, s, tr, result => call.Answered s.groups (tr.filterMap groupStep) result

abbrev BrokerHandler (ρ : Type) := Client BrokerCall.Answer ρ

section
variable (crc32c : Bytes → UInt32) (config : BrokerConfig)

def BrokerHandler.Serves {ρ : Type} (handler : BrokerHandler ρ) (s : BrokerState) (tr : List BrokerEvent) (s' : BrokerState)
    (response : ρ) : Prop :=
  Client.Serves (broker crc32c config) BrokerCall.Answered handler s tr s' response

end

/-! ### ListOffsets -/

structure ListOffsetsPartition where
  partitionIndex : Int
  timestamp : Int
deriving DecidableEq, Repr

structure ListOffsetsTopic where
  name : String
  partitions : List ListOffsetsPartition
deriving DecidableEq, Repr

structure ListOffsetsRequest where
  topics : List ListOffsetsTopic
deriving DecidableEq, Repr

structure ListOffsetsPartitionResponse where
  partitionIndex : Int
  errorCode : Int
  timestamp : Int
  offset : Int
  leaderEpoch : Int
deriving DecidableEq, Repr

structure ListOffsetsTopicResponse where
  name : String
  partitions : List ListOffsetsPartitionResponse
deriving DecidableEq, Repr

structure ListOffsetsResponse where
  throttleTimeMs : Int
  topics : List ListOffsetsTopicResponse
deriving DecidableEq, Repr

namespace ListOffsets

def errorPartition (index : Int) (error : ResponseError) : ListOffsetsPartitionResponse :=
  ⟨index, error.code, -1, -1, -1⟩

def offsetPartition (index offset : Int) : ListOffsetsPartitionResponse := ⟨index, 0, -1, offset, -1⟩

/-- `partition_response`. -/
def partitionResponse (topic : String) (partition : ListOffsetsPartition) : BrokerHandler ListOffsetsPartitionResponse := do
  match ← Client.ask (BrokerCall.partition topic partition.partitionIndex) with
  | none => pure (errorPartition partition.partitionIndex .unknownTopicOrPartition)
  | some log =>
    if partition.timestamp = -2 then pure (offsetPartition partition.partitionIndex 0)
    else if partition.timestamp = -1 then do
      let offset ← Client.ask (BrokerCall.nextOffset log)
      pure (offsetPartition partition.partitionIndex offset)
    else pure (errorPartition partition.partitionIndex .unsupportedForMessageFormat)

/-- The body of the loop over the topics of a request. -/
def topicResponse (topic : ListOffsetsTopic) : BrokerHandler ListOffsetsTopicResponse := do
  let partitions ← .each (partitionResponse topic.name) topic.partitions
  pure ⟨topic.name, partitions⟩

/-- `list_offsets::response`. -/
def response (request : ListOffsetsRequest) : BrokerHandler ListOffsetsResponse := do
  let topics ← .each topicResponse request.topics
  pure ⟨0, topics⟩

end ListOffsets

/-! ### Serving the broker's handlers -/

section
variable {crc32c : Bytes → UInt32} {config : BrokerConfig} {s s' : BrokerState} {tr : List BrokerEvent}

theorem extends_path (hpath : (broker crc32c config).Path s tr s') (inv : BrokerInv crc32c s) :
    s.data.topics.Extends s'.data.topics ∧ BrokerInv crc32c s' := by
  refine Machine.Path.invariant (M := broker crc32c config)
    (P := fun t => s.data.topics.Extends t.data.topics ∧ BrokerInv crc32c t) ?_ ⟨.refl _, inv⟩ hpath
  rintro e he ⟨hgrown, inv⟩
  have hstep := BrokerState.step_ok inv he
  exact ⟨hgrown.trans hstep.grown, hstep.inv⟩

end

end MemKafka
