import MemKafka.Records

/-!
# Partition logs (`broker/partition.rs`)

`PartitionLog::append` and `PartitionLog::fetch` on the state behind the partition mutex. The record set
is validated before the lock is taken and everything after it runs under the lock, so one call is one
step on `PartitionLogInner`. Unchecked `i64` arithmetic and the debug assertion of `fetch` panic: the
outer `Option` of both results is `none` then.
-/

namespace MemKafka
open Kit Outcome

def recentAppendLimit : Nat := 5
def sequenceModulus : Int := i32Max + 1

structure AppendResult where
  baseOffset : Int
  lastOffset : Int
  recordCount : Int
  appended : Bool
deriving DecidableEq, Repr

inductive FetchError where
  | outOfRange
deriving DecidableEq, Repr

structure FetchSnapshot where
  records : Bytes
  highWatermark : Int
deriving DecidableEq, Repr

structure RetryFingerprint where
  batchLength : Int
  recordCount : Int
  crc : Nat
deriving DecidableEq, Repr

structure RecentAppend where
  baseSequence : Int
  fingerprints : List RetryFingerprint
  encodedBatches : List Bytes
  result : AppendResult
deriving DecidableEq, Repr

structure ProducerPartitionState where
  producerEpoch : Int
  nextSequence : Int
  recent : List RecentAppend
deriving DecidableEq, Repr

structure StoredBatch where
  baseOffset : Int
  lastOffset : Int
  recordCount : Int
  bytes : Bytes
deriving DecidableEq, Repr

structure PartitionLogInner where
  nextOffset : Int
  batches : List StoredBatch
  producerStates : AList fun _ : Int => ProducerPartitionState
deriving DecidableEq

def PartitionLogInner.default : PartitionLogInner := ⟨0, [], ∅⟩

/-! ### Sequences -/

/-- The `%` of the source is the truncated one; its value always fits an `i32`. -/
def nextSequence (baseSequence recordCount : Int) : Int :=
  (baseSequence + recordCount).tmod sequenceModulus

def classifySequenceMismatch (received expected : Int) : AppendError :=
  if (received - expected) % sequenceModulus < sequenceModulus / 2 then .outOfOrderSequence else .duplicateSequence

def validateSequences : List ValidatedBatch → Int → Except AppendError Unit
  | [], _ => .ok ()
  | batch :: validated, expected =>
    if batch.baseSequence ≠ expected then .error (classifySequenceMismatch batch.baseSequence expected)
    else validateSequences validated (nextSequence expected batch.recordCount)

/-! ### `append` -/

/-- `try_fold` with `checked_add` over the record counts; `none` on overflow. -/
def totalRecordCount (validated : List ValidatedBatch) : Option Int :=
  validated.foldlM (fun total batch => addI32 total batch.recordCount) 0

def fingerprint (batch : ValidatedBatch) : RetryFingerprint :=
  ⟨batch.batchLength, batch.recordCount, batch.crc⟩

/-- What `append` computes from the record set before it takes the lock. -/
structure PreparedAppend where
  validated : List ValidatedBatch
  totalRecordCount : Int
  producer : Option RecordSetProducer
  baseSequence : Int
  fingerprints : List RetryFingerprint
  encodedBatches : List Bytes

def prepareAppend (crc32c : Bytes → UInt32) (records : Bytes) : Outcome AppendError PreparedAppend := do
  let validated ← validateRecordSet crc32c records
  match totalRecordCount validated with
  | none => throw .offsetOverflow
  | some total =>
  let first ← orPanic validated[0]?
  pure { validated := validated
         totalRecordCount := total
         producer := setProducer first
         baseSequence := first.baseSequence
         fingerprints := validated.map fingerprint
         encodedBatches := validated.map (·.bytes) }

/-- The three ways out of the producer check of `append`. -/
inductive Admission where
  | reject (error : AppendError)
  | replay (result : AppendResult)
  | fresh (nextSequence : Option Int)

/-- An entry of the recent window that the record set retries. -/
def RecentAppend.isRetry (request : PreparedAppend) (recent : RecentAppend) : Bool :=
  recent.baseSequence = request.baseSequence ∧ recent.fingerprints = request.fingerprints ∧
    recent.encodedBatches = request.encodedBatches

def checkSequences (request : PreparedAppend) (expected : Int) : Admission :=
  match validateSequences request.validated expected with
  | .error error => .reject error
  | .ok () => .fresh (some (nextSequence request.baseSequence request.totalRecordCount))

def admission (inner : PartitionLogInner) (request : PreparedAppend) : Admission :=
  match request.producer with
  | none => .fresh none
  | some producer =>
    match inner.producerStates.lookup producer.producerId with
    | some state =>
      if state.producerEpoch ≠ producer.producerEpoch then .reject .outOfOrderSequence else
      match state.recent.find? (·.isRetry request) with
      | some recent => .replay { recent.result with appended := false }
      | none => checkSequences request state.nextSequence
    | none =>
      if request.baseSequence ≠ 0 then .reject .outOfOrderSequence else checkSequences request 0

/-- `bytes[..8].copy_from_slice(&offset.to_be_bytes())`. -/
def withBaseOffset (bytes : Bytes) (offset : Int) : Option Bytes :=
  if 8 ≤ bytes.length then some (beOfInt 8 offset ++ bytes.drop 8) else none

/-- The loop that assigns offsets; its additions are unchecked. -/
def assignOffsets : Int → List ValidatedBatch → Option (List StoredBatch)
  | _, [] => some []
  | assigned, batch :: validated => do
    let stop ← addI64 assigned batch.recordCount
    let last ← addI64 stop (-1)
    let bytes ← withBaseOffset batch.bytes assigned
    let next ← addI64 last 1
    let stored ← assignOffsets next validated
    some (⟨assigned, last, batch.recordCount, bytes⟩ :: stored)

/-- `while recent.len() >= RECENT_APPEND_LIMIT { recent.pop_front() }`. -/
def evict : List RecentAppend → List RecentAppend
  | [] => []
  | recent :: window => if recentAppendLimit ≤ (recent :: window).length then evict window else recent :: window

/-- `entry(..).or_insert_with(..)`, the new sequence and the new entry of the window. -/
def recordAppend (inner : PartitionLogInner) (producer : RecordSetProducer) (next : Int) (entry : RecentAppend) :
    AList fun _ : Int => ProducerPartitionState :=
  let state := (inner.producerStates.lookup producer.producerId).getD ⟨producer.producerEpoch, next, []⟩
  inner.producerStates.insert producer.producerId
    { state with nextSequence := next, recent := evict state.recent ++ [entry] }

/-- `append` from the point where it holds the lock. -/
def appendLocked (inner : PartitionLogInner) (request : PreparedAppend) :
    Option (Except AppendError AppendResult × PartitionLogInner) :=
  match admission inner request with
  | .reject error => some (.error error, inner)
  | .replay result => some (.ok result, inner)
  | .fresh nextSequence =>
    let baseOffset := inner.nextOffset
    match addI64 baseOffset request.totalRecordCount with
    | none => some (.error .offsetOverflow, inner)
    | some nextOffset => do
      let lastOffset ← addI64 nextOffset (-1)
      let stored ← assignOffsets baseOffset request.validated
      let result : AppendResult := ⟨baseOffset, lastOffset, request.totalRecordCount, true⟩
      let producerStates := match request.producer, nextSequence with
        | some producer, some next =>
          recordAppend inner producer next ⟨request.baseSequence, request.fingerprints, request.encodedBatches, result⟩
        | _, _ => inner.producerStates
      some (.ok result, ⟨nextOffset, inner.batches ++ stored, producerStates⟩)

/-- `PartitionLog::append`; `none` is a panic. -/
def append (crc32c : Bytes → UInt32) (inner : PartitionLogInner) (records : Bytes) :
    Option (Except AppendError AppendResult × PartitionLogInner) :=
  (prepareAppend crc32c records).run.bind fun
    | .error error => some (.error error, inner)
    | .ok request => appendLocked inner request

/-! ### `fetch` -/

/-- `records.len().checked_add(batch.bytes.len()).is_none_or(|size| size > partition_max_bytes)`. -/
def exceedsLimit (partitionMaxBytes : Nat) (records batchBytes : Bytes) : Bool :=
  match addUsize records.length batchBytes.length with
  | none => true
  | some size => partitionMaxBytes < size

/-- The loop of `fetch` over the batches from the first that reaches the offset. -/
def collectBatches (partitionMaxBytes : Nat) : Bytes → List StoredBatch → Option Bytes
  | records, [] => some records
  | records, batch :: batches => do
    let span ← addI64 (← addI64 batch.lastOffset (-batch.baseOffset)) 1
    -- `debug_assert_eq!`
    if span ≠ batch.recordCount then none else
    if records ≠ [] ∧ exceedsLimit partitionMaxBytes records batch.bytes then some records
    else collectBatches partitionMaxBytes (records ++ batch.bytes) batches

/-- `PartitionLog::fetch`; `none` is a panic. -/
def fetch (inner : PartitionLogInner) (offset : Int) (partitionMaxBytes : Nat) :
    Option (Except FetchError FetchSnapshot) :=
  if offset < 0 ∨ inner.nextOffset < offset then some (.error .outOfRange) else do
    let records ← collectBatches partitionMaxBytes [] (inner.batches.dropWhile fun batch => batch.lastOffset < offset)
    some (.ok ⟨records, inner.nextOffset⟩)

end MemKafka
