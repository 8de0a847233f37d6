import MemKafka.PartitionSpec

/-!
# The grammar of record sets

`InFormat` describes one frame by the numbers in it, in its own words and not in those of the decoder, and `InGrammar` a
record set: frames end to end, all of one producer identity. `validate_record_set` accepts exactly these
(`record_sets_are_parsed_exactly`). Its loop and the decoder's end by themselves: any fuel that covers the input gives the
same answer.
-/

namespace MemKafka
open Kit Outcome

/-- A frame of the format. Bits 0 to 2 of its attributes are the compression, bit 4 marks a transactional batch and bit 5
a control batch. -/
structure InFormat (crc32c : Bytes → UInt32) (f : Bytes) : Prop where
  long : 61 ≤ f.length
  length : (f.length : Int) = 12 + beInt (wordAt f 8 4)
  magic : f[16]? = some 2
  crc : beNat (wordAt f 17 4) = (crc32c (f.drop 21)).toNat
  compression : beNat (wordAt f 21 2) % 8 ≤ 4
  transactional : beNat (wordAt f 21 2) / 16 % 2 = 0
  control : beNat (wordAt f 21 2) / 32 % 2 = 0
  count : 1 ≤ beInt (wordAt f 57 4)
  delta : beInt (wordAt f 23 4) = beInt (wordAt f 57 4) - 1
  identity :
    beInt (wordAt f 43 8) = -1 ∧ beInt (wordAt f 51 2) = -1 ∧ (beInt (wordAt f 53 4) = -1 ∨ beInt (wordAt f 53 4) = 0) ∨
    beInt (wordAt f 43 8) ≠ -1 ∧ 0 ≤ beInt (wordAt f 51 2) ∧ 0 ≤ beInt (wordAt f 53 4)

/-- A record set and its frames. -/
structure InGrammar (crc32c : Bytes → UInt32) (records : Bytes) (frames : List Bytes) : Prop where
  ne_nil : frames ≠ []
  flatten : frames.flatten = records
  format : ∀ f ∈ frames, InFormat crc32c f
  identity : ∃ producerId producerEpoch, ∀ f ∈ frames, beInt (wordAt f 43 8) = producerId ∧ beInt (wordAt f 51 2) = producerEpoch

section
variable {crc32c : Bytes → UInt32}

/-! ### Frames -/

theorem decodeCompression_isSome (attributes : BitVec 16) :
    (decodeCompression attributes).isSome ↔ attributes.toNat % 8 ≤ 4 := by
  have hmod : (attributes &&& 0x7#16).toNat = attributes.toNat % 8 := Nat.and_two_pow_sub_one_eq_mod attributes.toNat 3
  have hlt : attributes.toNat % 8 < 8 := Nat.mod_lt _ (by decide)
  unfold decodeCompression
  rw [hmod]
  generalize attributes.toNat % 8 = n at hlt
  interval_cases n <;> simp

/-- A bit of the attributes, as the decoder tests it. -/
theorem bit_eq_zero (attributes : BitVec 16) {i : Nat} (hi : i < 16) :
    attributes &&& BitVec.twoPow 16 i = 0 ↔ attributes.toNat / 2 ^ i % 2 = 0 := by
  have hset : BitVec.twoPow 16 i ≠ 0#16 := by
    intro hzero
    have hbit := congrArg (fun bits => bits.getLsbD i) hzero
    simp [hi] at hbit
  rw [BitVec.and_twoPow, BitVec.getLsbD, Nat.testBit_eq_decide_div_mod_eq]
  rcases Nat.mod_two_eq_zero_or_one (attributes.toNat / 2 ^ i) with hbit | hbit
  · simp [hbit]
  · simpa [hbit] using hset

theorem isFrame_iff {f : Bytes} : IsFrame crc32c f ↔ InFormat crc32c f := by
  have hattributes : (frameAttributes f).toNat = beNat (wordAt f 21 2) := by
    have hlt := beNat_lt (wordAt f 21 2)
    have hlen : (wordAt f 21 2).length ≤ 2 := List.length_take_le ..
    have hpow : 256 ^ (wordAt f 21 2).length ≤ 256 ^ 2 := Nat.pow_le_pow_right (by decide) hlen
    rw [frameAttributes, BitVec.toNat_ofNat]
    exact Nat.mod_eq_of_lt (by omega)
  have htransactional := bit_eq_zero (frameAttributes f) (show 4 < 16 by decide)
  have hcontrol := bit_eq_zero (frameAttributes f) (show 5 < 16 by decide)
  have hcompression := decodeCompression_isSome (frameAttributes f)
  rw [hattributes] at htransactional hcontrol hcompression
  constructor
  · intro h
    exact ⟨h.long, h.length, h.magic, h.crc, hcompression.1 h.compression, htransactional.1 h.transactional,
      hcontrol.1 h.control, h.count, h.delta, h.identity⟩
  · intro h
    exact ⟨h.long, h.length, h.magic, h.crc, hcompression.2 h.compression, htransactional.2 h.transactional,
      hcontrol.2 h.control, h.count, h.delta, h.identity⟩

/-- A record set of the grammar is one that is validated, with the fields of its frames. -/
theorem inGrammar_iff {records : Bytes} {frames : List Bytes} :
    InGrammar crc32c records frames ↔ IsRecordSet crc32c records (frames.map ofFrame) := by
  constructor
  · intro h
    obtain ⟨producerId, producerEpoch, hsame⟩ := h.identity
    refine ⟨by simpa using h.ne_nil, ?_, ?_, ?_⟩
    · intro v hv
      obtain ⟨f, hf, rfl⟩ := List.mem_map.1 hv
      exact ⟨isFrame_iff.2 (h.format f hf), rfl⟩
    · rw [List.map_map]
      show (frames.map id).flatten = records
      rw [List.map_id, h.flatten]
    · intro v hv w hw
      obtain ⟨f, hf, rfl⟩ := List.mem_map.1 hv
      obtain ⟨g, hg, rfl⟩ := List.mem_map.1 hw
      exact ⟨(hsame f hf).1.trans (hsame g hg).1.symm, (hsame f hf).2.trans (hsame g hg).2.symm⟩
  · intro h
    obtain ⟨first, hfirst⟩ := List.exists_mem_of_ne_nil frames (by simpa using h.ne_nil)
    refine ⟨by simpa using h.ne_nil, ?_, ?_, frameProducerId first, frameProducerEpoch first, ?_⟩
    · have hflat := h.flatten
      rw [List.map_map] at hflat
      change (frames.map id).flatten = records at hflat
      rwa [List.map_id] at hflat
    · exact fun f hf => isFrame_iff.1 (h.frames _ (List.mem_map_of_mem hf)).1
    · exact fun f hf => h.identity _ (List.mem_map_of_mem hf) _ (List.mem_map_of_mem hfirst)

/-! ### The loops end -/

/-- Whatever is decoded, this is what it leaves of the buffer. -/
def Leaves (rest : Bytes) (decoded : Option (BatchDecodeInfo × Bytes)) : Prop := ∀ x, decoded = some x → x.2 = rest

theorem Leaves.bind {α : Type} {rest : Bytes} {o : Option α} {f : α → Option (BatchDecodeInfo × Bytes)}
    (h : ∀ a, Leaves rest (f a)) : Leaves rest (o >>= f) := by
  intro x hx
  obtain ⟨a, -, ha⟩ := Option.bind_eq_some_iff.1 hx
  exact h a x ha

theorem Leaves.guard {rest : Bytes} {c : Prop} [Decidable c] {decoded : Option (BatchDecodeInfo × Bytes)}
    (h : Leaves rest decoded) : Leaves rest (if c then none else decoded) := by
  intro x hx
  rw [Option.ite_none_left_eq_some] at hx
  exact h x hx.2

theorem tryGet_length {k : Nat} {buf word rest : Bytes} (h : tryGet k buf = some (word, rest)) :
    rest.length + k = buf.length := by
  unfold tryGet at h
  split at h
  · cases h
  · obtain ⟨rfl, rfl⟩ := Prod.mk.inj (Option.some.inj h)
    rw [List.length_drop]
    omega

/-- A batch that is decoded is taken off the buffer. -/
theorem decodeBatchHeaderInner_shorter {version : Int} {buf : Bytes} {decoded : BatchDecodeInfo × Bytes}
    (h : decodeBatchHeaderInner crc32c version buf = some decoded) : decoded.2.length + 12 ≤ buf.length := by
  unfold decodeBatchHeaderInner at h
  obtain ⟨⟨minOffset, buf₁⟩, h₁, h⟩ := Option.bind_eq_some_iff.1 h
  obtain ⟨⟨batchLength, buf₂⟩, h₂, h⟩ := Option.bind_eq_some_iff.1 h
  obtain ⟨-, h⟩ := Option.ite_none_left_eq_some.1 h
  obtain ⟨⟨body, rest⟩, h₃, h⟩ := Option.bind_eq_some_iff.1 h
  -- the rest of the reads are from the body
  have hleaves : Leaves rest (some decoded) := by
    rw [← h]
    refine .bind fun _ => .bind fun _ => .guard <| .bind fun _ => .guard <| .bind fun _ => .bind fun _ => ?_
    refine .bind fun _ => .bind fun _ => .bind fun _ => .bind fun _ => .bind fun _ => .bind fun _ => .bind fun _ => .guard ?_
    rintro x hx
    rw [← Option.some.inj hx]
  have l₁ := tryGet_length h₁
  have l₂ := tryGet_length h₂
  have l₃ := tryGet_length h₃
  rw [hleaves decoded rfl]
  omega

/-- The decoder's loop has the same answer for any fuel that covers the buffer. -/
theorem decodeBatchInfoLoop_fuel {fuel : Nat} {buf : Bytes} (h : buf.length ≤ fuel) :
    decodeBatchInfoLoop crc32c fuel buf = decodeBatchInfo crc32c buf := by
  suffices ∀ fuel fuel' buf, buf.length ≤ fuel → buf.length ≤ fuel' →
      decodeBatchInfoLoop crc32c fuel buf = decodeBatchInfoLoop crc32c fuel' buf from this _ _ _ h le_rfl
  intro fuel
  induction fuel with
  | zero =>
    intro fuel' buf hle hle'
    obtain rfl : buf = [] := List.length_eq_zero_iff.1 (by omega)
    cases fuel' <;> rfl
  | succ fuel ih =>
    intro fuel' buf hle hle'
    by_cases hnil : buf = []
    · subst hnil
      cases fuel' <;> rfl
    obtain ⟨fuel', rfl⟩ : ∃ n, fuel' = n + 1 := ⟨fuel' - 1, by have := List.length_pos_of_ne_nil hnil; omega⟩
    unfold decodeBatchInfoLoop
    rw [if_neg hnil, if_neg hnil]
    refine congrArg _ (funext fun magic => ?_)
    dsimp only
    split
    · rfl
    cases hheader : decodeBatchHeaderInner crc32c (beInt [magic]) buf with
    | none => rfl
    | some decoded =>
      have hshorter := decodeBatchHeaderInner_shorter hheader
      simp only [Option.bind_eq_bind, Option.bind_some]
      rw [ih fuel' decoded.2 (by omega) (by omega)]

/-- The validator's loop has the same answer for any fuel that covers the record set. -/
theorem validateLoop_fuel {fuel : Nat} {remaining : Bytes} (h : remaining.length ≤ fuel) :
    validateLoop crc32c fuel remaining = validateLoop crc32c remaining.length remaining := by
  suffices ∀ fuel fuel' remaining, remaining.length ≤ fuel → remaining.length ≤ fuel' →
      validateLoop crc32c fuel remaining = validateLoop crc32c fuel' remaining from this _ _ _ h le_rfl
  intro fuel
  induction fuel with
  | zero =>
    intro fuel' remaining hle hle'
    obtain rfl : remaining = [] := List.length_eq_zero_iff.1 (by omega)
    cases fuel' <;> rfl
  | succ fuel ih =>
    intro fuel' remaining hle hle'
    by_cases hnil : remaining = []
    · subst hnil
      cases fuel' <;> rfl
    obtain ⟨fuel', rfl⟩ : ∃ n, fuel' = n + 1 := ⟨fuel' - 1, by have := List.length_pos_of_ne_nil hnil; omega⟩
    unfold validateLoop
    rw [if_neg hnil, if_neg hnil]
    rcases (validateBatch_safe crc32c remaining).cases with ⟨v, hv⟩ | ⟨error, herror⟩
    · obtain ⟨n, hn, hframe, rfl⟩ := validateBatch_eq_ok.1 hv
      have hlen : (remaining.take n).length = n := by rw [List.length_take]; omega
      have hlong : 61 ≤ (remaining.take n).length := hframe.long
      rw [hv, ok_bind, ok_bind, IsFrame.ofFrame_bytes, hlen,
        ih fuel' (remaining.drop n) (by rw [List.length_drop]; omega) (by rw [List.length_drop]; omega)]
    · rw [herror]
      rfl

/-! ### The structural check -/

theorem validateSequences_error {vs : List ValidatedBatch} {expected : Int} {error : AppendError}
    (h : validateSequences vs expected = .error error) : error = .outOfOrderSequence ∨ error = .duplicateSequence := by
  induction vs generalizing expected with
  | nil => cases h
  | cons v vs ih =>
    unfold validateSequences at h
    split at h
    · cases h
      unfold classifySequenceMismatch
      split
      · exact .inl rfl
      · exact .inr rfl
    · exact ih h

/-- A record set that is refused for its producer is refused for its sequence. -/
theorem admission_reject {inner : PartitionLogInner} {request : PreparedAppend} {error : AppendError}
    (h : admission inner request = .reject error) : error = .outOfOrderSequence ∨ error = .duplicateSequence := by
  have hcheck : ∀ expected, checkSequences request expected = .reject error →
      error = .outOfOrderSequence ∨ error = .duplicateSequence := by
    intro expected h
    unfold checkSequences at h
    split at h
    · rename_i error' herror
      obtain rfl : error' = error := Admission.reject.inj h
      exact validateSequences_error herror
    · cases h
  unfold admission at h
  repeat' split at h
  all_goals first | exact hcheck _ h | exact .inl (Admission.reject.inj h).symm | cases h

theorem appendLocked_error {inner inner' : PartitionLogInner} {request : PreparedAppend} {error : AppendError}
    (h : appendLocked inner request = some (.error error, inner')) : ¬ error.Structural := by
  unfold appendLocked at h
  split at h
  · rename_i error' hreject
    obtain rfl : error' = error := by simpa using congrArg (Option.map Prod.fst) h
    rcases admission_reject hreject with rfl | rfl <;> simp [AppendError.Structural]
  · simp at h
  · cases hnext : addI64 inner.nextOffset request.totalRecordCount with
    | none =>
      simp only [hnext] at h
      obtain rfl : AppendError.offsetOverflow = error := by simpa using congrArg (Option.map Prod.fst) h
      simp [AppendError.Structural]
    | some nextOffset =>
      simp only [hnext, Option.bind_eq_bind, Option.bind_eq_some_iff] at h
      obtain ⟨_, _, _, _, h⟩ := h
      simp at h

/-- An append fails structurally just when its record set is not validated. -/
theorem append_structural (inner : PartitionLogInner) (records : Bytes) :
    (∃ vs, validateRecordSet crc32c records = ok vs) ↔
      ∀ error inner', append crc32c inner records = some (.error error, inner') → ¬ error.Structural := by
  constructor
  · rintro ⟨vs, hvs⟩ error inner' h
    obtain ⟨prepared, hprepared, h⟩ := Option.bind_eq_some_iff.1 h
    unfold prepareAppend at hprepared
    rw [hvs, ok_bind] at hprepared
    split at hprepared
    · obtain rfl : Except.error AppendError.offsetOverflow = prepared := Option.some.inj hprepared
      obtain rfl : AppendError.offsetOverflow = error := by simpa using congrArg (Option.map Prod.fst) h
      simp [AppendError.Structural]
    · obtain ⟨first, rest, rfl⟩ := List.exists_cons_of_ne_nil (validateRecordSet_eq_ok.1 hvs).ne_nil
      obtain rfl := Option.some.inj hprepared
      exact appendLocked_error h
  · intro h
    rcases (validateRecordSet_safe crc32c records).cases with hvs | ⟨error, herror⟩
    · exact hvs
    · refine absurd (validateRecordSet_fails crc32c records error herror) (h error inner ?_)
      rw [append, prepareAppend, herror]
      rfl

/-- The inspection of a record set gives the identity that all of its batches carry. -/
theorem recordSetProducer_eq_ok {records : Bytes} {producer : Option RecordSetProducer} :
    recordSetProducer crc32c records = ok producer ↔
      ∃ vs, validateRecordSet crc32c records = ok vs ∧ ∀ v ∈ vs, producer = setProducer v := by
  unfold recordSetProducer
  rw [bind_eq_ok]
  refine exists_congr fun vs => and_congr_right fun hvs => ?_
  have hset := validateRecordSet_eq_ok.1 hvs
  obtain ⟨first, rest, rfl⟩ := List.exists_cons_of_ne_nil hset.ne_nil
  rw [List.getElem?_cons_zero, orPanic_some, ok_bind, pure_eq, ok_inj]
  constructor
  · rintro rfl v hv
    exact setProducer_congr (hset.identity _ (by simp) v hv)
  · exact fun h => (h first (by simp)).symm

end

/-- The grammar of record sets. For every byte string the two loops end and nothing is read out of range;
`validate_record_set` accepts exactly the record sets of the grammar and returns their frames, with the fields that stand
there; and the inspection of a record set succeeds exactly where no append fails structurally, with the identity that all
frames carry. -/
theorem record_sets_are_parsed_exactly (crc32c : Bytes → UInt32) (records : Bytes) :
    (∀ fuel, records.length ≤ fuel → validateLoop crc32c fuel records = validateLoop crc32c records.length records) ∧
    (∀ (batch : Bytes) (fuel : Nat), batch.length ≤ fuel →
      decodeBatchInfoLoop crc32c fuel batch = decodeBatchInfo crc32c batch) ∧
    (validateRecordSet crc32c records).Safe ∧
    ((∃ vs, validateRecordSet crc32c records = ok vs) ↔ ∃ frames, InGrammar crc32c records frames) ∧
    (∀ vs, validateRecordSet crc32c records = ok vs → (vs.map (·.bytes)).flatten = records ∧ ∀ v ∈ vs,
      v.batchLength = beInt (wordAt v.bytes 8 4) ∧ v.crc = beNat (wordAt v.bytes 17 4) ∧
      v.producerId = beInt (wordAt v.bytes 43 8) ∧ v.producerEpoch = beInt (wordAt v.bytes 51 2) ∧
      v.baseSequence = beInt (wordAt v.bytes 53 4) ∧ v.recordCount = beInt (wordAt v.bytes 57 4)) ∧
    (∀ producer, recordSetProducer crc32c records = ok producer ↔
      ∃ vs, validateRecordSet crc32c records = ok vs ∧
        ∀ v ∈ vs, producer = if v.producerId = -1 then none else some ⟨v.producerId, v.producerEpoch⟩) ∧
    ∀ inner : PartitionLogInner, (∃ producer, recordSetProducer crc32c records = ok producer) ↔
      ∀ error inner', append crc32c inner records = some (.error error, inner') → ¬ error.Structural := by
  refine ⟨fun fuel hfuel => validateLoop_fuel hfuel, fun batch fuel hfuel => decodeBatchInfoLoop_fuel hfuel,
    validateRecordSet_safe crc32c records, ?_, ?_, ?_, fun inner => ?_⟩
  · constructor
    · rintro ⟨vs, hvs⟩
      have hset := validateRecordSet_eq_ok.1 hvs
      have hof : (vs.map (·.bytes)).map ofFrame = vs := by
        rw [List.map_map]
        conv_rhs => rw [← List.map_id vs]
        exact List.map_congr_left fun v hv => (hset.frames v hv).2.symm
      exact ⟨vs.map (·.bytes), inGrammar_iff.2 (hof.symm ▸ hset)⟩
    · rintro ⟨frames, hframes⟩
      exact ⟨_, validateRecordSet_eq_ok.2 (inGrammar_iff.1 hframes)⟩
  · intro vs hvs
    have hset := validateRecordSet_eq_ok.1 hvs
    refine ⟨hset.flatten, fun v hv => ?_⟩
    have hof := (hset.frames v hv).2
    generalize v.bytes = f at hof ⊢
    subst hof
    exact ⟨rfl, rfl, rfl, rfl, rfl, rfl⟩
  · intro producer
    rw [recordSetProducer_eq_ok]
    refine exists_congr fun vs => and_congr_right fun _ => forall₂_congr fun v _ => ?_
    rw [setProducer, ite_not]
    rfl
  · rw [← append_structural inner]
    constructor
    · rintro ⟨producer, h⟩
      obtain ⟨vs, hvs, -⟩ := recordSetProducer_eq_ok.1 h
      exact ⟨vs, hvs⟩
    · rintro ⟨vs, hvs⟩
      have hset := validateRecordSet_eq_ok.1 hvs
      obtain ⟨first, hfirst⟩ := List.exists_mem_of_ne_nil vs hset.ne_nil
      exact ⟨setProducer first, recordSetProducer_eq_ok.2
        ⟨vs, hvs, fun v hv => setProducer_congr (hset.identity first hfirst v hv)⟩⟩

end MemKafka
