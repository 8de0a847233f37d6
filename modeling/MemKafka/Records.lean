import MemKafka.Lib.Bytes
import MemKafka.Lib.Outcome

/-!
# Record sets (`broker/partition.rs`, `crates/kafka-protocol/src/records.rs`)

The record-batch header decoder of the vendored crate and `validate_record_set`, which cuts a record
set into frames and checks each of them. `crc32c` comes from outside the repository and is a parameter
throughout. Slicing panics when it leaves its string, so the checks run in `Outcome AppendError`.
-/

namespace MemKafka
open Kit Outcome

def fixedBatchSize : Nat := 61
def batchLengthOffset : Nat := 8
def magicOffset : Nat := 16
def crcOffset : Nat := 17
def lastOffsetDeltaOffset : Nat := 23
def recordCountOffset : Nat := 57

def noProducerId : Int := -1
def noProducerEpoch : Int := -1
def noSequence : Int := -1

inductive AppendError where
  | malformed
  | unsupportedBatch
  | offsetOverflow
  | outOfOrderSequence
  | duplicateSequence
deriving DecidableEq, Repr

inductive Compression where
  | none
  | gzip
  | snappy
  | lz4
  | zstd
deriving DecidableEq, Repr

inductive TimestampType where
  | creation
  | logAppend
deriving DecidableEq, Repr

/-- Metadata of a record batch header. -/
structure BatchDecodeInfo where
  recordCount : Int
  timestampType : TimestampType
  minOffset : Int
  minTimestamp : Int
  baseSequence : Int
  transactional : Bool
  control : Bool
  deleteHorizon : Bool
  partitionLeaderEpoch : Int
  producerId : Int
  producerEpoch : Int
  compression : Compression
  version : Int
deriving DecidableEq, Repr

structure ValidatedBatch where
  batchLength : Int
  recordCount : Int
  producerId : Int
  producerEpoch : Int
  baseSequence : Int
  crc : Nat
  bytes : Bytes
deriving DecidableEq, Repr

structure RecordSetProducer where
  producerId : Int
  producerEpoch : Int
deriving DecidableEq, Repr

/-! ### The vendored header decoder -/

/-- `try_get_bytes` and the `try_get_*` readers: `none` when fewer than `k` bytes remain. -/
def tryGet (k : Nat) (buf : Bytes) : Option (Bytes × Bytes) :=
  if buf.length < k then none else some (buf.take k, buf.drop k)

def decodeCompression (attributes : BitVec 16) : Option Compression :=
  match (attributes &&& 0x7#16).toNat with
  | 0 => some .none
  | 1 => some .gzip
  | 2 => some .snappy
  | 3 => some .lz4
  | 4 => some .zstd
  | _ => none

/-- `RecordBatchDecoder::decode_batch_header_inner`: the header and the buffer behind the batch; `none`
is an error. -/
def decodeBatchHeaderInner (crc32c : Bytes → UInt32) (version : Int) (buf : Bytes) :
    Option (BatchDecodeInfo × Bytes) := do
  let (minOffset, buf) ← tryGet 8 buf
  let (batchLength, buf) ← tryGet 4 buf
  if beInt batchLength < 0 then none else
  let (body, rest) ← tryGet (beInt batchLength).toNat buf
  let (partitionLeaderEpoch, body) ← tryGet 4 body
  let (magic, body) ← tryGet 1 body
  if beInt magic ≠ version then none else
  let (suppliedCrc, body) ← tryGet 4 body
  if beNat suppliedCrc ≠ (crc32c body).toNat then none else
  let (attributes, body) ← tryGet 2 body
  let attributes := BitVec.ofNat 16 (beNat attributes)
  let compression ← decodeCompression attributes
  let (_maxOffsetDelta, body) ← tryGet 4 body
  let (minTimestamp, body) ← tryGet 8 body
  let (_maxTimestamp, body) ← tryGet 8 body
  let (producerId, body) ← tryGet 8 body
  let (producerEpoch, body) ← tryGet 2 body
  let (baseSequence, body) ← tryGet 4 body
  let (recordCount, _records) ← tryGet 4 body
  if beInt recordCount < 0 then none else
  some ({ recordCount := beInt recordCount
          timestampType := if attributes &&& 0x8#16 ≠ 0 then .logAppend else .creation
          minOffset := beInt minOffset
          minTimestamp := beInt minTimestamp
          baseSequence := beInt baseSequence
          transactional := attributes &&& 0x10#16 ≠ 0
          control := attributes &&& 0x20#16 ≠ 0
          deleteHorizon := attributes &&& 0x40#16 ≠ 0
          partitionLeaderEpoch := beInt partitionLeaderEpoch
          producerId := beInt producerId
          producerEpoch := beInt producerEpoch
          compression := compression
          version := version }, rest)

/-- The loop of `RecordBatchDecoder::decode_batch_info`. A batch has at least twelve bytes, so fuel of
the buffer's length is never used up. -/
def decodeBatchInfoLoop (crc32c : Bytes → UInt32) : Nat → Bytes → Option (List BatchDecodeInfo × Bytes)
  | 0, buf => some ([], buf)
  | fuel + 1, buf =>
    if buf = [] then some ([], buf) else do
      let magic ← buf[magicOffset]?
      let version := beInt [magic]
      if version ≠ 2 then some ([], buf) else
      let (header, buf) ← decodeBatchHeaderInner crc32c version buf
      let (headers, buf) ← decodeBatchInfoLoop crc32c fuel buf
      some (header :: headers, buf)

def decodeBatchInfo (crc32c : Bytes → UInt32) (buf : Bytes) : Option (List BatchDecodeInfo × Bytes) :=
  decodeBatchInfoLoop crc32c buf.length buf

/-! ### `validate_record_set` -/

/-- The body of the loop of `validate_record_set`, on `&records[position..]`. -/
def validateBatch (crc32c : Bytes → UInt32) (remaining : Bytes) : Outcome AppendError ValidatedBatch := do
  if remaining.length < fixedBatchSize then throw .malformed else
  let encodedBatchLength := beInt (← orPanic <| slice remaining batchLengthOffset (batchLengthOffset + 4))
  -- `usize::try_from`
  if encodedBatchLength < 0 then throw .malformed else
  match addUsize 12 encodedBatchLength.toNat with
  | none => throw .malformed
  | some totalLength =>
  if totalLength < fixedBatchSize ∨ remaining.length < totalLength then throw .malformed else
  let batch ← orPanic <| slice remaining 0 totalLength
  let magic ← orPanic batch[magicOffset]?
  if magic ≠ 2 then throw .unsupportedBatch else
  match decodeBatchInfo crc32c batch with
  | none => throw .malformed
  | some (info, decodeInput) =>
  if decodeInput ≠ [] ∨ info.length ≠ 1 then throw .malformed else
  let info ← orPanic info[0]?
  if info.transactional ∨ info.control then throw .unsupportedBatch else
  -- legacy inputs may carry an unused base sequence of zero
  let nonIdempotent := info.producerId = noProducerId ∧ info.producerEpoch = noProducerEpoch ∧
    (info.baseSequence = noSequence ∨ info.baseSequence = 0)
  let idempotent := info.producerId ≠ noProducerId ∧ 0 ≤ info.producerEpoch ∧ 0 ≤ info.baseSequence
  if ¬ nonIdempotent ∧ ¬ idempotent then throw .malformed else
  let lastOffsetDelta := beInt (← orPanic <| slice batch lastOffsetDeltaOffset (lastOffsetDeltaOffset + 4))
  let recordCount := beInt (← orPanic <| slice batch recordCountOffset (recordCountOffset + 4))
  if recordCount ≤ 0 ∨ info.recordCount ≠ recordCount ∨ lastOffsetDelta ≠ recordCount - 1 then
    throw .malformed
  else
  let crc := beNat (← orPanic <| slice batch crcOffset (crcOffset + 4))
  pure { batchLength := encodedBatchLength
         recordCount := recordCount
         producerId := info.producerId
         producerEpoch := info.producerEpoch
         baseSequence := info.baseSequence
         crc := crc
         bytes := batch }

/-- The loop itself: `position` advances by the length of each frame, so at least `fixedBatchSize`
bytes go with every turn and fuel of the record set's length is never used up. -/
def validateLoop (crc32c : Bytes → UInt32) : Nat → Bytes → Outcome AppendError (List ValidatedBatch)
  | 0, _ => pure []
  | fuel + 1, remaining =>
    if remaining = [] then pure [] else do
      let batch ← validateBatch crc32c remaining
      let validated ← validateLoop crc32c fuel (remaining.drop batch.bytes.length)
      pure (batch :: validated)

def validateRecordSet (crc32c : Bytes → UInt32) (records : Bytes) : Outcome AppendError (List ValidatedBatch) :=
  if records = [] then throw .malformed else do
    let validated ← validateLoop crc32c records.length records
    let first ← orPanic validated[0]?
    if validated.any (fun batch => batch.producerId ≠ first.producerId ∨ batch.producerEpoch ≠ first.producerEpoch) then
      throw .malformed
    else pure validated

/-- The identity a validated record set carries; `none` for `NO_PRODUCER_ID`. -/
def setProducer (first : ValidatedBatch) : Option RecordSetProducer :=
  if first.producerId ≠ noProducerId then
    some { producerId := first.producerId, producerEpoch := first.producerEpoch }
  else none

def recordSetProducer (crc32c : Bytes → UInt32) (records : Bytes) : Outcome AppendError (Option RecordSetProducer) :=
  do
  let validated ← validateRecordSet crc32c records
  let first ← orPanic validated[0]?
  pure (setProducer first)

end MemKafka
