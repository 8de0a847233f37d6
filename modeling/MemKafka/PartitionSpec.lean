import MemKafka.Partition
import MemKafka.RecordsSpec
import MemKafka.Lib.Links

/-!
# What one `append` does

`appendPure` is `append` without its panics; `append_eq` says that the two agree on every log whose next
offset is a valid one, so the unchecked additions of `append` do not overflow there. `AppendStep` lists
the three effects a call can have and `append_step` is the inversion every run property goes through.
-/

namespace MemKafka
open Kit Outcome

/-! ### Preparing a record set -/

def recordSum (vs : List ValidatedBatch) : Int := (vs.map (·.recordCount)).sum

@[simp] theorem recordSum_nil : recordSum [] = 0 := rfl

@[simp] theorem recordSum_cons (v : ValidatedBatch) (vs : List ValidatedBatch) :
    recordSum (v :: vs) = v.recordCount + recordSum vs := by
  simp [recordSum]

theorem recordSum_nonneg {vs : List ValidatedBatch} (h : ∀ v ∈ vs, 1 ≤ v.recordCount) : 0 ≤ recordSum vs := by
  induction vs with
  | nil => simp
  | cons v vs ih =>
    have h1 := h v (by simp)
    have h2 := ih fun w hw => h w (by simp [hw])
    rw [recordSum_cons]; omega

theorem foldlM_counts {vs : List ValidatedBatch} (h : ∀ v ∈ vs, 1 ≤ v.recordCount) {a : Int} (ha : 0 ≤ a)
    (ha' : a ≤ i32Max) :
    vs.foldlM (fun total batch => addI32 total batch.recordCount) a =
      if a + recordSum vs ≤ i32Max then some (a + recordSum vs) else none := by
  induction vs generalizing a with
  | nil => simp [ha']
  | cons v vs ih =>
    have h1 := h v (by simp)
    have hs : 0 ≤ recordSum vs := recordSum_nonneg fun w hw => h w (by simp [hw])
    rw [List.foldlM_cons, recordSum_cons, addI32]
    by_cases hle : a + v.recordCount ≤ i32Max
    · rw [if_pos ⟨by omega, hle⟩, Option.bind_eq_bind, Option.bind_some,
        ih (fun w hw => h w (by simp [hw])) (by omega) hle, Int.add_assoc]
    · rw [if_neg (fun hc => hle hc.2), if_neg (by omega)]; rfl

theorem totalRecordCount_eq {vs : List ValidatedBatch} (h : ∀ v ∈ vs, 1 ≤ v.recordCount) :
    totalRecordCount vs = if recordSum vs ≤ i32Max then some (recordSum vs) else none := by
  rw [totalRecordCount, foldlM_counts h le_rfl (by decide), Int.zero_add]

namespace IsRecordSet
variable {crc32c : Bytes → UInt32} {records : Bytes} {vs : List ValidatedBatch}

theorem count (h : IsRecordSet crc32c records vs) : ∀ v ∈ vs, 1 ≤ v.recordCount := by
  intro v hv
  obtain ⟨f, hof⟩ := h.frames v hv
  rw [hof]; exact f.count

theorem long (h : IsRecordSet crc32c records vs) : ∀ v ∈ vs, 61 ≤ v.bytes.length :=
  fun v hv => (h.frames v hv).1.long

end IsRecordSet

/-- `request` is the prepared form of `records`. -/
structure IsPrepared (crc32c : Bytes → UInt32) (records : Bytes) (request : PreparedAppend) : Prop where
  set : IsRecordSet crc32c records request.validated
  total : request.totalRecordCount = recordSum request.validated
  total_le : request.totalRecordCount ≤ i32Max
  producer : ∀ v ∈ request.validated, request.producer = setProducer v
  head : ∃ first rest, request.validated = first :: rest ∧ request.baseSequence = first.baseSequence
  fingerprints : request.fingerprints = request.validated.map fingerprint
  encoded : request.encodedBatches = request.validated.map (·.bytes)

theorem setProducer_congr {v w : ValidatedBatch} (h : v.producerId = w.producerId ∧ v.producerEpoch = w.producerEpoch) :
    setProducer v = setProducer w := by
  unfold setProducer; rw [h.1, h.2]

theorem prepareAppend_ok {crc32c : Bytes → UInt32} {records : Bytes} {request : PreparedAppend}
    (h : prepareAppend crc32c records = ok request) : IsPrepared crc32c records request := by
  unfold prepareAppend at h
  obtain ⟨vs, hvs, h⟩ := bind_eq_ok.1 h
  have hset := validateRecordSet_eq_ok.1 hvs
  rw [totalRecordCount_eq hset.count] at h
  by_cases hle : recordSum vs ≤ i32Max
  · rw [if_pos hle] at h
    obtain ⟨first, hfirst, h⟩ := bind_eq_ok.1 h
    rw [orPanic_eq_ok] at hfirst
    obtain ⟨first', rest, rfl⟩ := List.exists_cons_of_ne_nil hset.ne_nil
    obtain rfl : first' = first := by simpa using hfirst
    obtain rfl := ok_inj.1 h
    exact ⟨hset, rfl, hle, fun v hv => setProducer_congr (hset.identity _ (by simp) v hv), ⟨_, _, rfl, rfl⟩, rfl, rfl⟩
  · rw [if_neg hle] at h; exact absurd h err_ne_ok

theorem prepareAppend_safe (crc32c : Bytes → UInt32) (records : Bytes) : (prepareAppend crc32c records).Safe := by
  unfold prepareAppend
  refine (validateRecordSet_safe crc32c records).bind ?_
  intro vs hvs
  have hset := validateRecordSet_eq_ok.1 hvs
  obtain ⟨first, rest, rfl⟩ := List.exists_cons_of_ne_nil hset.ne_nil
  cases totalRecordCount (first :: rest) with
  | none => exact safe_err _
  | some total => simp

/-- A record set that is accepted, with a total that fits, is prepared. -/
theorem prepareAppend_of_set {crc32c : Bytes → UInt32} {records : Bytes} {vs : List ValidatedBatch}
    (h : IsRecordSet crc32c records vs) (hle : recordSum vs ≤ i32Max) :
    ∃ request, prepareAppend crc32c records = ok request ∧ request.validated = vs := by
  obtain ⟨first, rest, rfl⟩ := List.exists_cons_of_ne_nil h.ne_nil
  unfold prepareAppend
  rw [validateRecordSet_eq_ok.2 h, ok_bind, totalRecordCount_eq h.count, if_pos hle]
  exact ⟨_, rfl, rfl⟩

namespace IsPrepared
variable {crc32c : Bytes → UInt32} {records : Bytes} {request : PreparedAppend}

theorem total_pos (h : IsPrepared crc32c records request) : 1 ≤ request.totalRecordCount := by
  obtain ⟨first, rest, hv, -⟩ := h.head
  have hc := h.set.count
  rw [h.total, hv, recordSum_cons]
  have h1 := hc first (by simp [hv])
  have h2 : 0 ≤ recordSum rest := recordSum_nonneg fun w hw => hc w (by simp [hv, hw])
  omega

end IsPrepared

/-! ### Assigning offsets -/

/-- The batches a record set is stored as from offset `o` on. -/
def storedBatches : Int → List ValidatedBatch → List StoredBatch
  | _, [] => []
  | o, v :: vs =>
    ⟨o, o + v.recordCount - 1, v.recordCount, beOfInt 8 o ++ v.bytes.drop 8⟩ :: storedBatches (o + v.recordCount) vs

theorem assignOffsets_eq {vs : List ValidatedBatch} {o : Int} (hc : ∀ v ∈ vs, 1 ≤ v.recordCount)
    (hb : ∀ v ∈ vs, 61 ≤ v.bytes.length) (ho : 0 ≤ o) (hle : o + recordSum vs ≤ i64Max) :
    assignOffsets o vs = some (storedBatches o vs) := by
  induction vs generalizing o with
  | nil => rfl
  | cons v vs ih =>
    have h1 := hc v (by simp)
    have h2 := hb v (by simp)
    have hs : 0 ≤ recordSum vs := recordSum_nonneg fun w hw => hc w (by simp [hw])
    rw [recordSum_cons] at hle
    have hmin : i64Min ≤ 0 := by decide
    have a1 : addI64 o v.recordCount = some (o + v.recordCount) := by rw [addI64, if_pos (by omega)]
    have a2 : addI64 (o + v.recordCount) (-1) = some (o + v.recordCount - 1) := by
      rw [addI64, if_pos (by omega)]; rfl
    have a3 : addI64 (o + v.recordCount - 1) 1 = some (o + v.recordCount) := by
      rw [addI64, if_pos (by omega), Int.sub_add_cancel]
    have a4 : withBaseOffset v.bytes o = some (beOfInt 8 o ++ v.bytes.drop 8) := by
      rw [withBaseOffset, if_pos (by omega)]
    have a5 := ih (o := o + v.recordCount) (fun w hw => hc w (by simp [hw])) (fun w hw => hb w (by simp [hw]))
      (by omega) (by omega)
    simp only [assignOffsets, a1, a2, a3, a4, a5, Option.bind_eq_bind, Option.bind_some, storedBatches]

/-! ### The normal form of `append` -/

/-- The entry a stored record set leaves in its producer's window. -/
def appendEntry (inner : PartitionLogInner) (request : PreparedAppend) : RecentAppend :=
  ⟨request.baseSequence, request.fingerprints, request.encodedBatches,
    ⟨inner.nextOffset, inner.nextOffset + request.totalRecordCount - 1, request.totalRecordCount, true⟩⟩

/-- The log after a record set was stored. -/
def appendTo (inner : PartitionLogInner) (request : PreparedAppend) (next : Option Int) : PartitionLogInner where
  nextOffset := inner.nextOffset + request.totalRecordCount
  batches := inner.batches ++ storedBatches inner.nextOffset request.validated
  producerStates := match request.producer, next with
    | some producer, some next => recordAppend inner producer next (appendEntry inner request)
    | _, _ => inner.producerStates

theorem appendTo_states_none {inner : PartitionLogInner} {request : PreparedAppend} {next : Option Int}
    (h : request.producer = none) : (appendTo inner request next).producerStates = inner.producerStates := by
  simp [appendTo, h]

theorem appendTo_states_some {inner : PartitionLogInner} {request : PreparedAppend}
    {producer : RecordSetProducer} {next : Int}
    (h : request.producer = some producer) : (appendTo inner request (some next)).producerStates =
      recordAppend inner producer next (appendEntry inner request) := by
  simp [appendTo, h]

theorem lookup_recordAppend (inner : PartitionLogInner) (producer : RecordSetProducer) (next : Int)
    (entry : RecentAppend) (p : Int) : (recordAppend inner producer next entry).lookup p =
      if p = producer.producerId then
        let state := (inner.producerStates.lookup p).getD ⟨producer.producerEpoch, next, []⟩
        some { state with nextSequence := next, recent := evict state.recent ++ [entry] }
      else inner.producerStates.lookup p := by
  unfold recordAppend
  split
  · subst p; exact AList.lookup_insert _
  · exact AList.lookup_insert_ne ‹_›

/-- `append` with the panics left out. -/
def appendPure (crc32c : Bytes → UInt32) (inner : PartitionLogInner) (records : Bytes) :
    Except AppendError AppendResult × PartitionLogInner :=
  match (prepareAppend crc32c records).run with
  | none => (.error .malformed, inner)
  | some (.error error) => (.error error, inner)
  | some (.ok request) =>
    match admission inner request with
    | .reject error => (.error error, inner)
    | .replay result => (.ok result, inner)
    | .fresh next =>
      if inner.nextOffset + request.totalRecordCount ≤ i64Max then
        (.ok ⟨inner.nextOffset, inner.nextOffset + request.totalRecordCount - 1, request.totalRecordCount, true⟩,
          appendTo inner request next)
      else (.error .offsetOverflow, inner)

/-- Logs whose next offset is a valid one. -/
def InRange (inner : PartitionLogInner) : Prop := 0 ≤ inner.nextOffset ∧ inner.nextOffset ≤ i64Max

theorem appendLocked_fresh {crc32c : Bytes → UInt32} {records : Bytes} {inner : PartitionLogInner}
    {request : PreparedAppend} {next : Option Int} (hr : InRange inner) (hq : IsPrepared crc32c records request)
    (ha : admission inner request = .fresh next) :
    appendLocked inner request =
      if inner.nextOffset + request.totalRecordCount ≤ i64Max then
        some (.ok ⟨inner.nextOffset, inner.nextOffset + request.totalRecordCount - 1, request.totalRecordCount, true⟩,
          appendTo inner request next)
      else some (.error .offsetOverflow, inner) := by
  have hpos := hq.total_pos
  have hmin : i64Min ≤ 0 := by decide
  obtain ⟨h0, -⟩ := hr
  unfold appendLocked
  simp only [ha]
  by_cases hle : inner.nextOffset + request.totalRecordCount ≤ i64Max
  · have a1 : addI64 inner.nextOffset request.totalRecordCount = some (inner.nextOffset + request.totalRecordCount) := by
      rw [addI64, if_pos (by omega)]
    have a2 : addI64 (inner.nextOffset + request.totalRecordCount) (-1) =
        some (inner.nextOffset + request.totalRecordCount - 1) := by
      rw [addI64, if_pos (by omega)]; rfl
    have a3 := assignOffsets_eq (o := inner.nextOffset) hq.set.count hq.set.long h0 (by rw [← hq.total]; exact hle)
    simp only [a1, a2, a3, Option.bind_eq_bind, Option.bind_some, if_pos hle]
    rfl
  · have a1 : addI64 inner.nextOffset request.totalRecordCount = none := by
      rw [addI64, if_neg (fun h => hle h.2)]
    simp only [a1, if_neg hle]

/-- On a log in range nothing in `append` panics: the unchecked additions do not overflow, and every
slice stays inside its batch. -/
theorem append_eq {inner : PartitionLogInner} (hr : InRange inner) (crc32c : Bytes → UInt32) (records : Bytes) :
    append crc32c inner records = some (appendPure crc32c inner records) := by
  unfold append appendPure
  rcases (prepareAppend_safe crc32c records).cases with ⟨request, hq⟩ | ⟨error, he⟩
  · rw [hq]
    show appendLocked inner request = _
    simp only [ok, ExceptT.run]
    cases ha : admission inner request with
    | reject error => simp [appendLocked, ha]
    | replay result => simp [appendLocked, ha]
    | fresh next =>
      rw [appendLocked_fresh hr (prepareAppend_ok hq) ha]
      split <;> rfl
  · rw [he]; rfl

/-! ### The three effects of a call -/

inductive AppendStep (crc32c : Bytes → UInt32) (inner : PartitionLogInner) (records : Bytes) :
    Except AppendError AppendResult → PartitionLogInner → Prop
  | rejected (error : AppendError) : AppendStep crc32c inner records (.error error) inner
  | replayed {request : PreparedAppend} {producer : RecordSetProducer} {state : ProducerPartitionState}
      {recent : RecentAppend} (prepared : IsPrepared crc32c records request) (hp : request.producer = some producer)
      (hs : inner.producerStates.lookup producer.producerId = some state)
      (he : state.producerEpoch = producer.producerEpoch)
      (hf : state.recent.find? (·.isRetry request) = some recent) :
      AppendStep crc32c inner records (.ok { recent.result with appended := false }) inner
  | appended {request : PreparedAppend} {next : Option Int} (prepared : IsPrepared crc32c records request)
      (ha : admission inner request = .fresh next) (hle : inner.nextOffset + request.totalRecordCount ≤ i64Max) :
      AppendStep crc32c inner records
        (.ok ⟨inner.nextOffset, inner.nextOffset + request.totalRecordCount - 1, request.totalRecordCount, true⟩)
        (appendTo inner request next)

theorem admission_replay {inner : PartitionLogInner} {request : PreparedAppend} {result : AppendResult}
    (h : admission inner request = .replay result) :
    ∃ producer state recent, request.producer = some producer ∧
      inner.producerStates.lookup producer.producerId = some state ∧ state.producerEpoch = producer.producerEpoch ∧
      state.recent.find? (·.isRetry request) = some recent ∧ result = { recent.result with appended := false } := by
  have hcheck : ∀ expected, checkSequences request expected ≠ .replay result := by
    intro expected h
    unfold checkSequences at h
    split at h <;> cases h
  unfold admission at h
  cases hp : request.producer with
  | none => simp [hp] at h
  | some producer =>
    simp only [hp] at h
    cases hs : inner.producerStates.lookup producer.producerId with
    | none =>
      simp only [hs] at h
      split at h
      · cases h
      · exact absurd h (hcheck _)
    | some state =>
      simp only [hs] at h
      split at h
      · cases h
      rename_i he
      cases hf : state.recent.find? (·.isRetry request) with
      | none => simp only [hf] at h; exact absurd h (hcheck _)
      | some recent =>
        simp only [hf, Admission.replay.injEq] at h
        exact ⟨producer, state, recent, rfl, hs, not_not.1 he, hf, h.symm⟩

/-- The state a fresh record set of `producer` meets, and the sequence expected there. -/
def Expects (inner : PartitionLogInner) (request : PreparedAppend) (producer : RecordSetProducer)
    (expected : Int) : Prop :=
  (inner.producerStates.lookup producer.producerId = none ∧ request.baseSequence = 0 ∧ expected = 0) ∨
  ∃ state, inner.producerStates.lookup producer.producerId = some state ∧
    state.producerEpoch = producer.producerEpoch ∧ state.recent.find? (·.isRetry request) = none ∧
    expected = state.nextSequence

theorem checkSequences_fresh {request : PreparedAppend} {expected : Int} {next : Option Int}
    (h : checkSequences request expected = .fresh next) :
    validateSequences request.validated expected = .ok () ∧
      next = some (nextSequence request.baseSequence request.totalRecordCount) := by
  unfold checkSequences at h
  split at h
  · cases h
  · rename_i hv
    simp only [Admission.fresh.injEq] at h
    exact ⟨hv, h.symm⟩

theorem admission_fresh {inner : PartitionLogInner} {request : PreparedAppend} {next : Option Int}
    (h : admission inner request = .fresh next) :
    (request.producer = none ∧ next = none) ∨
    ∃ producer expected, request.producer = some producer ∧ Expects inner request producer expected ∧
      validateSequences request.validated expected = .ok () ∧
      next = some (nextSequence request.baseSequence request.totalRecordCount) := by
  unfold admission at h
  cases hp : request.producer with
  | none =>
    simp only [hp, Admission.fresh.injEq] at h
    exact .inl ⟨rfl, h.symm⟩
  | some producer =>
    refine .inr ⟨producer, ?_⟩
    simp only [hp] at h
    cases hs : inner.producerStates.lookup producer.producerId with
    | none =>
      simp only [hs] at h
      split at h
      · cases h
      rename_i h0
      exact ⟨0, rfl, .inl ⟨hs, not_not.1 h0, rfl⟩, checkSequences_fresh h⟩
    | some state =>
      simp only [hs] at h
      split at h
      · cases h
      rename_i he
      cases hf : state.recent.find? (·.isRetry request) with
      | none =>
        simp only [hf] at h
        exact ⟨state.nextSequence, rfl, .inr ⟨state, hs, not_not.1 he, hf, rfl⟩, checkSequences_fresh h⟩
      | some recent => simp [hf] at h

theorem appendPure_step (crc32c : Bytes → UInt32) (inner : PartitionLogInner) (records : Bytes) :
    AppendStep crc32c inner records (appendPure crc32c inner records).1 (appendPure crc32c inner records).2 := by
  unfold appendPure
  rcases (prepareAppend_safe crc32c records).cases with ⟨request, hq⟩ | ⟨error, he⟩
  · rw [hq]
    simp only [ok, ExceptT.run]
    cases ha : admission inner request with
    | reject error => exact .rejected error
    | replay result =>
      obtain ⟨producer, state, recent, hp, hs, he, hf, rfl⟩ := admission_replay ha
      exact .replayed (prepareAppend_ok hq) hp hs he hf
    | fresh next =>
      by_cases hle : inner.nextOffset + request.totalRecordCount ≤ i64Max
      · simp only [if_pos hle]
        exact .appended (prepareAppend_ok hq) ha hle
      · simp only [if_neg hle]
        exact .rejected _
  · rw [he]
    exact .rejected error

/-- Inversion of a call on a log in range. -/
theorem append_step {crc32c : Bytes → UInt32} {inner inner' : PartitionLogInner} {records : Bytes}
    {out : Except AppendError AppendResult} (hr : InRange inner)
    (h : append crc32c inner records = some (out, inner')) : AppendStep crc32c inner records out inner' := by
  rw [append_eq hr] at h
  have hstep := appendPure_step crc32c inner records
  rwa [Option.some.inj h] at hstep

end MemKafka
