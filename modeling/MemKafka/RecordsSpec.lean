import MemKafka.Records

/-!
# What `validate_record_set` accepts

`IsFrame` is the grammar of one record batch, by the positions of its header fields; `ofFrame` reads
those fields. `validateBatch` accepts exactly the strings with a frame in front and
`validateRecordSet` exactly the non-empty concatenations of frames of one producer identity; neither
ever slices out of range.
-/

namespace MemKafka
open Kit Outcome

/-! ### Header fields by position -/

def frameBaseOffset (bs : Bytes) : Int := beInt (wordAt bs 0 8)
def frameBatchLength (bs : Bytes) : Int := beInt (wordAt bs 8 4)
def frameCrc (bs : Bytes) : Nat := beNat (wordAt bs 17 4)
def frameAttributes (bs : Bytes) : BitVec 16 := BitVec.ofNat 16 (beNat (wordAt bs 21 2))
def frameLastOffsetDelta (bs : Bytes) : Int := beInt (wordAt bs 23 4)
def frameProducerId (bs : Bytes) : Int := beInt (wordAt bs 43 8)
def frameProducerEpoch (bs : Bytes) : Int := beInt (wordAt bs 51 2)
def frameBaseSequence (bs : Bytes) : Int := beInt (wordAt bs 53 4)
def frameRecordCount (bs : Bytes) : Int := beInt (wordAt bs 57 4)

/-- A non-idempotent batch, or one that carries a producer identity and a sequence. -/
def IdentityOk (producerId producerEpoch baseSequence : Int) : Prop :=
  (producerId = noProducerId ∧ producerEpoch = noProducerEpoch ∧ (baseSequence = noSequence ∨ baseSequence = 0)) ∨
  (producerId ≠ noProducerId ∧ 0 ≤ producerEpoch ∧ 0 ≤ baseSequence)

instance (producerId producerEpoch baseSequence : Int) : Decidable (IdentityOk producerId producerEpoch baseSequence) :=
  inferInstanceAs (Decidable (_ ∨ _))

/-- One record batch the broker stores. -/
structure IsFrame (crc32c : Bytes → UInt32) (bs : Bytes) : Prop where
  long : fixedBatchSize ≤ bs.length
  length : (bs.length : Int) = 12 + frameBatchLength bs
  magic : bs[magicOffset]? = some 2
  crc : frameCrc bs = (crc32c (bs.drop 21)).toNat
  compression : (decodeCompression (frameAttributes bs)).isSome
  transactional : frameAttributes bs &&& 0x10#16 = 0
  control : frameAttributes bs &&& 0x20#16 = 0
  count : 1 ≤ frameRecordCount bs
  delta : frameLastOffsetDelta bs = frameRecordCount bs - 1
  identity : IdentityOk (frameProducerId bs) (frameProducerEpoch bs) (frameBaseSequence bs)

/-- The validated batch of a frame. -/
def ofFrame (bs : Bytes) : ValidatedBatch where
  batchLength := frameBatchLength bs
  recordCount := frameRecordCount bs
  producerId := frameProducerId bs
  producerEpoch := frameProducerEpoch bs
  baseSequence := frameBaseSequence bs
  crc := frameCrc bs
  bytes := bs

/-! ### The header decoder on one frame -/

theorem tryGet_of_le {k : Nat} {buf : Bytes} (h : k ≤ buf.length) : tryGet k buf = some (buf.take k, buf.drop k) := by
  simp [tryGet, not_lt.2 h]

/-- The header of a string cut to its own batch length. -/
def frameInfo (bs : Bytes) (compression : Compression) : BatchDecodeInfo where
  recordCount := frameRecordCount bs
  timestampType := if frameAttributes bs &&& 0x8#16 ≠ 0 then .logAppend else .creation
  minOffset := frameBaseOffset bs
  minTimestamp := beInt (wordAt bs 27 8)
  baseSequence := frameBaseSequence bs
  transactional := frameAttributes bs &&& 0x10#16 ≠ 0
  control := frameAttributes bs &&& 0x20#16 ≠ 0
  deleteHorizon := frameAttributes bs &&& 0x40#16 ≠ 0
  partitionLeaderEpoch := beInt (wordAt bs 12 4)
  producerId := frameProducerId bs
  producerEpoch := frameProducerEpoch bs
  compression := compression
  version := 2

theorem decodeBatchHeaderInner_frame {crc32c : Bytes → UInt32} {bs : Bytes} (hlong : fixedBatchSize ≤ bs.length)
    (hlen : (bs.length : Int) = 12 + frameBatchLength bs) (hmagic : bs[magicOffset]? = some 2) :
    decodeBatchHeaderInner crc32c 2 bs =
      if frameCrc bs ≠ (crc32c (bs.drop 21)).toNat then none else
      (decodeCompression (frameAttributes bs)).bind fun compression =>
        if frameRecordCount bs < 0 then none else some (frameInfo bs compression, []) := by
  have h61 : 61 ≤ bs.length := hlong
  have hmagic' : beInt (wordAt bs 16 1) = 2 := by
    have : wordAt bs 16 1 = [2] := by
      rw [wordAt, List.take_one, List.head?_drop, show bs[16]? = some 2 from hmagic]; rfl
    rw [this]; decide
  have hnn : ¬ beInt (wordAt bs 8 4) < 0 := by
    have : frameBatchLength bs = beInt (wordAt bs 8 4) := rfl
    omega
  -- the body is everything behind the twelve bytes of offset and length
  have hbody : (beInt (wordAt bs 8 4)).toNat = bs.length - 12 := by
    have : frameBatchLength bs = beInt (wordAt bs 8 4) := rfl
    omega
  have hcut : tryGet (beInt (wordAt bs 8 4)).toNat (bs.drop 12) = some (bs.drop 12, []) := by
    rw [tryGet_of_le (by rw [hbody, List.length_drop]), hbody, ← List.length_drop, List.take_length, List.drop_length]
  have get : ∀ i k, i + k ≤ bs.length → tryGet k (bs.drop i) = some (wordAt bs i k, bs.drop (i + k)) := by
    intro i k h
    rw [tryGet_of_le (by rw [List.length_drop]; omega), List.drop_drop]; rfl
  have g0 : tryGet 8 bs = some (wordAt bs 0 8, bs.drop 8) := by rw [tryGet_of_le (by omega)]; rfl
  have g8 : tryGet 4 (bs.drop 8) = some (wordAt bs 8 4, bs.drop 12) := get 8 4 (by omega)
  have g12 : tryGet 4 (bs.drop 12) = some (wordAt bs 12 4, bs.drop 16) := get 12 4 (by omega)
  have g16 : tryGet 1 (bs.drop 16) = some (wordAt bs 16 1, bs.drop 17) := get 16 1 (by omega)
  have g17 : tryGet 4 (bs.drop 17) = some (wordAt bs 17 4, bs.drop 21) := get 17 4 (by omega)
  have g21 : tryGet 2 (bs.drop 21) = some (wordAt bs 21 2, bs.drop 23) := get 21 2 (by omega)
  have g23 : tryGet 4 (bs.drop 23) = some (wordAt bs 23 4, bs.drop 27) := get 23 4 (by omega)
  have g27 : tryGet 8 (bs.drop 27) = some (wordAt bs 27 8, bs.drop 35) := get 27 8 (by omega)
  have g35 : tryGet 8 (bs.drop 35) = some (wordAt bs 35 8, bs.drop 43) := get 35 8 (by omega)
  have g43 : tryGet 8 (bs.drop 43) = some (wordAt bs 43 8, bs.drop 51) := get 43 8 (by omega)
  have g51 : tryGet 2 (bs.drop 51) = some (wordAt bs 51 2, bs.drop 53) := get 51 2 (by omega)
  have g53 : tryGet 4 (bs.drop 53) = some (wordAt bs 53 4, bs.drop 57) := get 53 4 (by omega)
  have g57 : tryGet 4 (bs.drop 57) = some (wordAt bs 57 4, bs.drop 61) := get 57 4 (by omega)
  unfold decodeBatchHeaderInner
  rw [g0]; dsimp only [Option.bind_eq_bind, Option.bind_some]
  rw [g8]; dsimp only [Option.bind_some]
  rw [if_neg hnn, hcut]; dsimp only [Option.bind_some]
  rw [g12]; dsimp only [Option.bind_some]
  rw [g16]; dsimp only [Option.bind_some]
  rw [hmagic', if_neg (by decide), g17]; dsimp only [Option.bind_some]
  rw [g21]; dsimp only [Option.bind_some]
  rw [g23]; dsimp only [Option.bind_some]
  rw [g27]; dsimp only [Option.bind_some]
  rw [g35]; dsimp only [Option.bind_some]
  rw [g43]; dsimp only [Option.bind_some]
  rw [g51]; dsimp only [Option.bind_some]
  rw [g53]; dsimp only [Option.bind_some]
  rw [g57]; rfl

theorem decodeBatchInfo_frame {crc32c : Bytes → UInt32} {bs : Bytes} (hlong : fixedBatchSize ≤ bs.length)
    (hlen : (bs.length : Int) = 12 + frameBatchLength bs) (hmagic : bs[magicOffset]? = some 2) :
    decodeBatchInfo crc32c bs =
      if frameCrc bs ≠ (crc32c (bs.drop 21)).toNat then none else
      (decodeCompression (frameAttributes bs)).bind fun compression =>
        if frameRecordCount bs < 0 then none else some ([frameInfo bs compression], []) := by
  have h61 : 61 ≤ bs.length := hlong
  obtain ⟨n, hn⟩ : ∃ n, bs.length = n + 2 := ⟨bs.length - 2, by omega⟩
  have hne : bs ≠ [] := by rintro rfl; simp at h61
  have hv : beInt [(2 : UInt8)] = 2 := by decide
  rw [decodeBatchInfo, hn]
  simp only [decodeBatchInfoLoop, if_neg hne, hmagic, Option.bind_eq_bind, Option.bind_some, hv, ne_eq,
    not_true_eq_false, ↓reduceIte, decodeBatchHeaderInner_frame hlong hlen hmagic]
  split
  · rfl
  · cases decodeCompression (frameAttributes bs) with
    | none => rfl
    | some c => simp only [Option.bind_some]; split <;> simp

/-! ### One frame -/

/-- The checks of `validateBatch` behind the cut to the frame's own length. -/
def validateFrame (crc32c : Bytes → UInt32) (bs : Bytes) : Outcome AppendError ValidatedBatch :=
  if bs[magicOffset]? ≠ some 2 then err .unsupportedBatch else
  if frameCrc bs ≠ (crc32c (bs.drop 21)).toNat ∨ (decodeCompression (frameAttributes bs)).isNone ∨
    frameRecordCount bs < 0 then err .malformed else
  if frameAttributes bs &&& 0x10#16 ≠ 0 ∨ frameAttributes bs &&& 0x20#16 ≠ 0 then err .unsupportedBatch else
  if ¬ IdentityOk (frameProducerId bs) (frameProducerEpoch bs) (frameBaseSequence bs) then err .malformed else
  if frameRecordCount bs ≤ 0 ∨ frameLastOffsetDelta bs ≠ frameRecordCount bs - 1 then err .malformed else
  ok (ofFrame bs)

theorem slice_frame {bs : Bytes} (h : fixedBatchSize ≤ bs.length) {i k : Nat} (hi : i + k ≤ 61) :
    slice bs i (i + k) = some (wordAt bs i k) := by
  have h61 : 61 ≤ bs.length := h
  rw [slice_of_le (by omega) (by omega), Nat.add_sub_cancel_left]

/-- `validateBatch` from the cut of the frame on. -/
def checkFrame (crc32c : Bytes → UInt32) (encodedBatchLength : Int) (batch : Bytes) :
    Outcome AppendError ValidatedBatch := do
  let magic ← orPanic batch[magicOffset]?
  if magic ≠ 2 then throw .unsupportedBatch else
  match decodeBatchInfo crc32c batch with
  | none => throw .malformed
  | some (info, decodeInput) =>
  if decodeInput ≠ [] ∨ info.length ≠ 1 then throw .malformed else
  let info ← orPanic info[0]?
  if info.transactional ∨ info.control then throw .unsupportedBatch else
  let nonIdempotent := info.producerId = noProducerId ∧ info.producerEpoch = noProducerEpoch ∧
    (info.baseSequence = noSequence ∨ info.baseSequence = 0)
  let idempotent := info.producerId ≠ noProducerId ∧ 0 ≤ info.producerEpoch ∧ 0 ≤ info.baseSequence
  if ¬ nonIdempotent ∧ ¬ idempotent then throw .malformed else
  let lastOffsetDelta := beInt (← orPanic <| slice batch lastOffsetDeltaOffset (lastOffsetDeltaOffset + 4))
  let recordCount := beInt (← orPanic <| slice batch recordCountOffset (recordCountOffset + 4))
  if recordCount ≤ 0 ∨ info.recordCount ≠ recordCount ∨ lastOffsetDelta ≠ recordCount - 1 then
    throw .malformed
  else
  let crc := beNat (← orPanic <| slice batch crcOffset (crcOffset + 4))
  pure { batchLength := encodedBatchLength
         recordCount := recordCount
         producerId := info.producerId
         producerEpoch := info.producerEpoch
         baseSequence := info.baseSequence
         crc := crc
         bytes := batch }

theorem checkFrame_eq {crc32c : Bytes → UInt32} {bs : Bytes} (hlong : fixedBatchSize ≤ bs.length)
    (hlength : (bs.length : Int) = 12 + frameBatchLength bs) :
    checkFrame crc32c (frameBatchLength bs) bs = validateFrame crc32c bs := by
  have h61 : 61 ≤ bs.length := hlong
  obtain ⟨magic, hmagic⟩ : ∃ m, bs[magicOffset]? = some m :=
    ⟨_, List.getElem?_eq_getElem (show 16 < bs.length by omega)⟩
  unfold checkFrame validateFrame
  simp only [hmagic, orPanic_some, ok_bind, ne_eq, Option.some.injEq]
  by_cases hm : magic = 2
  swap
  · simp [hm]
  subst hm
  have hdec := @decodeBatchInfo_frame crc32c bs hlong hlength hmagic
  simp only [not_true_eq_false, if_false]
  by_cases hcrc : frameCrc bs = (crc32c (bs.drop 21)).toNat
  swap
  · rw [if_pos hcrc] at hdec
    simp [hdec, hcrc]
  rw [if_neg (not_not.2 hcrc)] at hdec
  cases hcomp : decodeCompression (frameAttributes bs) with
  | none =>
    rw [hcomp, Option.bind_none] at hdec
    simp [hdec]
  | some c =>
    rw [hcomp, Option.bind_some] at hdec
    by_cases hcount : frameRecordCount bs < 0
    · rw [if_pos hcount] at hdec
      simp [hdec, hcount]
    rw [if_neg hcount] at hdec
    have hd : slice bs lastOffsetDeltaOffset (lastOffsetDeltaOffset + 4) = some (wordAt bs 23 4) :=
      slice_frame hlong (by decide)
    have hc : slice bs recordCountOffset (recordCountOffset + 4) = some (wordAt bs 57 4) :=
      slice_frame hlong (by decide)
    have hx : slice bs crcOffset (crcOffset + 4) = some (wordAt bs 17 4) := slice_frame hlong (by decide)
    have hid : (¬ ((frameInfo bs c).producerId = noProducerId ∧ (frameInfo bs c).producerEpoch = noProducerEpoch ∧
          ((frameInfo bs c).baseSequence = noSequence ∨ (frameInfo bs c).baseSequence = 0)) ∧
        ¬ ((frameInfo bs c).producerId ≠ noProducerId ∧ 0 ≤ (frameInfo bs c).producerEpoch ∧
          0 ≤ (frameInfo bs c).baseSequence)) ↔
        ¬ IdentityOk (frameProducerId bs) (frameProducerEpoch bs) (frameBaseSequence bs) := by
      rw [IdentityOk, not_or]; rfl
    have hpass : ¬ (¬ frameCrc bs = (crc32c (bs.drop 21)).toNat ∨ (some c).isNone = true ∨ frameRecordCount bs < 0) := by
      simp [hcrc, hcount]
    rw [hdec, if_neg hpass]
    simp only [List.length_singleton, List.getElem?_cons_zero, orPanic_some, ok_bind, hd, hc, hx, hid,
      not_true_eq_false,
      or_self, if_false, ← ne_eq]
    by_cases htc : frameAttributes bs &&& 0x10#16 ≠ 0 ∨ frameAttributes bs &&& 0x20#16 ≠ 0
    · have : (frameInfo bs c).transactional = true ∨ (frameInfo bs c).control = true := by
        simpa [frameInfo] using htc
      rw [if_pos this, if_pos htc, throw_eq]
    have htc' : ¬ ((frameInfo bs c).transactional = true ∨ (frameInfo bs c).control = true) := by
      simpa [frameInfo] using htc
    simp only [htc, htc', if_false]
    by_cases hident : IdentityOk (frameProducerId bs) (frameProducerEpoch bs) (frameBaseSequence bs)
    swap
    · simp [hident]
    have hrc : (beInt (wordAt bs 57 4) ≤ 0 ∨ (frameInfo bs c).recordCount ≠ beInt (wordAt bs 57 4) ∨
        beInt (wordAt bs 23 4) ≠ beInt (wordAt bs 57 4) - 1) ↔
        (frameRecordCount bs ≤ 0 ∨ frameLastOffsetDelta bs ≠ frameRecordCount bs - 1) := by
      simp [frameInfo, frameRecordCount, frameLastOffsetDelta]
    simp only [hident, not_true_eq_false, if_false, hrc]
    split
    · rfl
    · rfl

/-- `validateBatch` cuts the frame in front and checks it. -/
theorem validateBatch_eq (crc32c : Bytes → UInt32) (remaining : Bytes) :
    validateBatch crc32c remaining =
      if remaining.length < fixedBatchSize then err .malformed else
      if frameBatchLength remaining < 0 ∨ 12 + (frameBatchLength remaining).toNat < fixedBatchSize ∨
        remaining.length < 12 + (frameBatchLength remaining).toNat then err .malformed else
      validateFrame crc32c (remaining.take (12 + (frameBatchLength remaining).toNat)) := by
  unfold validateBatch
  by_cases hlong : remaining.length < fixedBatchSize
  · simp [hlong]
  have hlong' : fixedBatchSize ≤ remaining.length := not_lt.1 hlong
  have hslice : slice remaining batchLengthOffset (batchLengthOffset + 4) = some (wordAt remaining 8 4) :=
    slice_frame hlong' (by decide)
  simp only [hlong, if_false, hslice, orPanic_some, ok_bind, show beInt (wordAt remaining 8 4) = frameBatchLength remaining from rfl]
  by_cases hneg : frameBatchLength remaining < 0
  · simp [hneg]
  have hword : frameBatchLength remaining < 2147483648 := by
    have := (beInt_range (wordAt remaining 8 4)).2
    rw [length_wordAt (by have : 61 ≤ remaining.length := hlong'; omega)] at this
    have e : frameBatchLength remaining = beInt (wordAt remaining 8 4) := rfl
    norm_num at this; omega
  set n := 12 + (frameBatchLength remaining).toNat with hn
  have hadd : addUsize 12 (frameBatchLength remaining).toNat = some n := by
    rw [addUsize, if_pos (by omega)]
  simp only [hneg, if_false, hadd, false_or]
  by_cases hcut : n < fixedBatchSize ∨ remaining.length < n
  · simp [hcut]
  obtain ⟨hn61, hnl⟩ := not_or.1 hcut
  simp only [hcut, if_false]
  have hbatch : slice remaining 0 n = some (remaining.take n) := by
    rw [slice_of_le (Nat.zero_le _) (not_lt.1 hnl)]; rfl
  simp only [hbatch, orPanic_some, ok_bind]
  set bs := remaining.take n with hbs
  have hlen : bs.length = n := by rw [hbs, List.length_take]; omega
  have hbl : frameBatchLength bs = frameBatchLength remaining := by
    have h61 : 61 ≤ n := not_lt.1 hn61
    rw [frameBatchLength, frameBatchLength, hbs, wordAt_take (by omega)]
  have hlong'' : fixedBatchSize ≤ bs.length := by rw [hlen]; exact not_lt.1 hn61
  have hlength : (bs.length : Int) = 12 + frameBatchLength bs := by rw [hlen, hbl]; omega
  rw [← checkFrame_eq hlong'' hlength, hbl]
  rfl

theorem validateFrame_eq_ok {crc32c : Bytes → UInt32} {bs : Bytes} {v : ValidatedBatch}
    (hlong : fixedBatchSize ≤ bs.length) (hlength : (bs.length : Int) = 12 + frameBatchLength bs) :
    validateFrame crc32c bs = ok v ↔ IsFrame crc32c bs ∧ v = ofFrame bs := by
  constructor
  · intro h
    unfold validateFrame at h
    split_ifs at h with hm hd ht hi hc
    all_goals simp only [err_ne_ok, ok_inj] at h
    push Not at hm hd ht hc
    refine ⟨⟨hlong, hlength, hm, hd.1, ?_, ht.1, ht.2, by omega, hc.2, hi⟩, h.symm⟩
    simpa [Option.isSome_iff_ne_none] using hd.2.1
  · rintro ⟨f, rfl⟩
    have hcount := f.count
    have hcomp : ¬ (decodeCompression (frameAttributes bs)).isNone = true := by
      have := f.compression
      simpa [Option.isSome_iff_ne_none] using this
    unfold validateFrame
    rw [if_neg (not_not.2 f.magic), if_neg, if_neg (by simp [f.transactional, f.control]),
      if_neg (not_not.2 f.identity),
      if_neg]
    · simp only [f.delta, ne_eq, not_true_eq_false, or_false]; omega
    · simp only [f.crc, ne_eq, not_true_eq_false, hcomp, Bool.false_eq_true, false_or]; omega

/-- `validateBatch` accepts exactly the strings with a frame in front. -/
theorem validateBatch_eq_ok {crc32c : Bytes → UInt32} {remaining : Bytes} {v : ValidatedBatch} :
    validateBatch crc32c remaining = ok v ↔
      ∃ n ≤ remaining.length, IsFrame crc32c (remaining.take n) ∧ v = ofFrame (remaining.take n) := by
  have hframe : ∀ n, fixedBatchSize ≤ n → frameBatchLength (remaining.take n) = frameBatchLength remaining := by
    intro n hn
    rw [frameBatchLength, frameBatchLength, wordAt_take (le_trans (by decide) hn)]
  rw [validateBatch_eq]
  constructor
  · intro h
    split_ifs at h with hlong hcut
    all_goals try exact absurd h err_ne_ok
    push Not at hcut
    obtain ⟨hneg, h61, hle⟩ := hcut
    set n := 12 + (frameBatchLength remaining).toNat
    have hlen : (remaining.take n).length = n := by rw [List.length_take]; omega
    refine ⟨n, hle, (validateFrame_eq_ok ?_ ?_).1 h⟩
    · rw [hlen]; exact h61
    · rw [hlen, hframe n h61]; omega
  · rintro ⟨n, hle, f, rfl⟩
    have hlen : (remaining.take n).length = n := by rw [List.length_take]; omega
    have h61 : fixedBatchSize ≤ n := by rw [← hlen]; exact f.long
    have hl : (n : Int) = 12 + frameBatchLength remaining := by rw [← hframe n h61, ← f.length, hlen]
    have hn : 12 + (frameBatchLength remaining).toNat = n := by
      have : (61 : Nat) ≤ n := h61
      omega
    rw [hn, if_neg (by omega), if_neg]
    · exact (validateFrame_eq_ok f.long f.length).2 ⟨f, rfl⟩
    · have : (61 : Nat) ≤ n := h61
      rintro (h | h | h) <;> omega

theorem validateBatch_safe (crc32c : Bytes → UInt32) (remaining : Bytes) : (validateBatch crc32c remaining).Safe := by
  rw [validateBatch_eq]
  unfold validateFrame
  split_ifs <;> simp

/-- The errors of the structural check. -/
def AppendError.Structural (error : AppendError) : Prop := error = .malformed ∨ error = .unsupportedBatch

theorem validateBatch_fails (crc32c : Bytes → UInt32) (remaining : Bytes) :
    (validateBatch crc32c remaining).Fails AppendError.Structural := by
  have malformed := fails_err (α := ValidatedBatch) (P := AppendError.Structural) (.inl rfl)
  have unsupported := fails_err (α := ValidatedBatch) (P := AppendError.Structural) (.inr rfl)
  rw [validateBatch_eq]
  unfold validateFrame
  split_ifs
  all_goals first | exact malformed | exact unsupported | exact fails_ok _ _

/-! ### Whole record sets -/

theorem IsFrame.ofFrame_bytes (bs : Bytes) : (ofFrame bs).bytes = bs := rfl

theorem validateLoop_safe (crc32c : Bytes → UInt32) (fuel : Nat) (remaining : Bytes) :
    (validateLoop crc32c fuel remaining).Safe := by
  induction fuel generalizing remaining with
  | zero => exact safe_ok _
  | succ fuel ih =>
    unfold validateLoop
    split_ifs
    · exact safe_ok _
    · exact (validateBatch_safe crc32c remaining).bind fun b _ => (ih _).bind fun _ _ => safe_ok _

theorem validateLoop_fails (crc32c : Bytes → UInt32) (fuel : Nat) (remaining : Bytes) :
    (validateLoop crc32c fuel remaining).Fails AppendError.Structural := by
  induction fuel generalizing remaining with
  | zero => exact fails_ok _ _
  | succ fuel ih =>
    unfold validateLoop
    split_ifs
    · exact fails_ok _ _
    · exact (validateBatch_fails crc32c remaining).bind fun b _ => (ih _).bind fun _ _ => fails_ok _ _

/-- With enough fuel the loop returns exactly the frames the string is a concatenation of. -/
theorem validateLoop_eq_ok {crc32c : Bytes → UInt32} {fuel : Nat} {remaining : Bytes} {vs : List ValidatedBatch}
    (hfuel : remaining.length ≤ fuel) :
    validateLoop crc32c fuel remaining = ok vs ↔
      (∀ v ∈ vs, IsFrame crc32c v.bytes ∧ v = ofFrame v.bytes) ∧ (vs.map (·.bytes)).flatten = remaining := by
  induction fuel generalizing remaining vs with
  | zero =>
    obtain rfl : remaining = [] := List.length_eq_zero_iff.1 (by omega)
    rw [validateLoop, pure_eq, ok_inj]
    constructor
    · rintro rfl; simp
    · rintro ⟨hv, hf⟩
      cases vs with
      | nil => rfl
      | cons v vs =>
        have h61 := (hv v (by simp)).1.long
        simp only [List.map_cons, List.flatten_cons, List.append_eq_nil_iff] at hf
        rw [hf.1] at h61
        exact absurd h61 (by decide)
  | succ fuel ih =>
    unfold validateLoop
    by_cases hnil : remaining = []
    · rw [if_pos hnil, pure_eq, ok_inj]
      constructor
      · rintro rfl; simp [hnil]
      · rintro ⟨hv, hf⟩
        cases vs with
        | nil => rfl
        | cons v vs =>
          have h61 := (hv v (by simp)).1.long
          simp only [List.map_cons, List.flatten_cons, hnil, List.append_eq_nil_iff] at hf
          rw [hf.1] at h61
          exact absurd h61 (by decide)
    rw [if_neg hnil, bind_eq_ok]
    constructor
    · rintro ⟨v, hv, h⟩
      obtain ⟨vs', hvs, h⟩ := bind_eq_ok.1 h
      obtain rfl := ok_inj.1 h
      obtain ⟨n, hle, f, rfl⟩ := validateBatch_eq_ok.1 hv
      have hlen : (remaining.take n).length = n := by rw [List.length_take]; omega
      have h61 : 61 ≤ n := by rw [← hlen]; exact f.long
      rw [IsFrame.ofFrame_bytes, hlen] at hvs
      obtain ⟨hall, hflat⟩ := (ih (by rw [List.length_drop]; omega)).1 hvs
      constructor
      · intro v hv
        rcases List.mem_cons.1 hv with rfl | hv
        · exact ⟨f, rfl⟩
        · exact hall v hv
      · rw [List.map_cons, List.flatten_cons, hflat]
        exact List.take_append_drop n remaining
    · rintro ⟨hv, hf⟩
      cases vs with
      | nil => exact absurd hf.symm hnil
      | cons v vs =>
        obtain ⟨f, hof⟩ := hv v (by simp)
        rw [List.map_cons, List.flatten_cons] at hf
        have htake : remaining.take v.bytes.length = v.bytes := by rw [← hf]; simp
        have h61 : 61 ≤ v.bytes.length := f.long
        have hlen := congrArg List.length hf
        rw [List.length_append] at hlen
        refine ⟨v, validateBatch_eq_ok.2 ⟨v.bytes.length, by omega, by rwa [htake], by rwa [htake]⟩, ?_⟩
        refine bind_eq_ok.2 ⟨vs, (ih (by rw [List.length_drop]; omega)).2 ⟨fun w hw => hv w (by simp [hw]), ?_⟩, rfl⟩
        rw [← hf]; simp

/-- The record sets the broker accepts: non-empty concatenations of frames of one producer identity. -/
structure IsRecordSet (crc32c : Bytes → UInt32) (records : Bytes) (vs : List ValidatedBatch) : Prop where
  ne_nil : vs ≠ []
  frames : ∀ v ∈ vs, IsFrame crc32c v.bytes ∧ v = ofFrame v.bytes
  flatten : (vs.map (·.bytes)).flatten = records
  identity : ∀ v ∈ vs, ∀ w ∈ vs, v.producerId = w.producerId ∧ v.producerEpoch = w.producerEpoch

theorem validateRecordSet_eq_ok {crc32c : Bytes → UInt32} {records : Bytes} {vs : List ValidatedBatch} :
    validateRecordSet crc32c records = ok vs ↔ IsRecordSet crc32c records vs := by
  unfold validateRecordSet
  by_cases hnil : records = []
  · rw [if_pos hnil, throw_eq]
    refine ⟨fun h => absurd h err_ne_ok, ?_⟩
    intro h
    obtain ⟨v, hv⟩ := List.exists_mem_of_ne_nil _ h.ne_nil
    have h61 := (h.frames v hv).1.long
    have hflat := h.flatten
    rw [hnil, List.flatten_eq_nil_iff] at hflat
    rw [hflat v.bytes (List.mem_map.2 ⟨v, hv, rfl⟩)] at h61
    exact absurd h61 (by decide)
  rw [if_neg hnil, bind_eq_ok]
  constructor
  · rintro ⟨vs', hloop, h⟩
    obtain ⟨hframes, hflat⟩ := (validateLoop_eq_ok le_rfl).1 hloop
    obtain ⟨first, hfirst, h⟩ := bind_eq_ok.1 h
    rw [orPanic_eq_ok] at hfirst
    split_ifs at h with hany
    · exact absurd h err_ne_ok
    obtain rfl := ok_inj.1 h
    have hsame : ∀ v ∈ vs', v.producerId = first.producerId ∧ v.producerEpoch = first.producerEpoch := by
      intro v hv
      by_contra hne
      refine hany (List.any_eq_true.2 ⟨v, hv, ?_⟩)
      rw [not_and_or] at hne
      simpa using hne
    refine ⟨?_, hframes, hflat, ?_⟩
    · rintro rfl; simp at hfirst
    · intro v hv w hw
      exact ⟨(hsame v hv).1.trans (hsame w hw).1.symm, (hsame v hv).2.trans (hsame w hw).2.symm⟩
  · intro h
    refine ⟨vs, (validateLoop_eq_ok le_rfl).2 ⟨h.frames, h.flatten⟩, ?_⟩
    obtain ⟨first, rest, rfl⟩ := List.exists_cons_of_ne_nil h.ne_nil
    refine bind_eq_ok.2 ⟨first, by rw [orPanic_eq_ok]; rfl, ?_⟩
    rw [if_neg]
    · rfl
    · rw [List.any_eq_true]
      rintro ⟨v, hv, hne⟩
      obtain ⟨h1, h2⟩ := h.identity v hv first (by simp)
      simp [h1, h2] at hne

/-- A frame determines its batch. -/
theorem eq_of_map_bytes {crc32c : Bytes → UInt32} {vs ws : List ValidatedBatch}
    (hv : ∀ v ∈ vs, IsFrame crc32c v.bytes ∧ v = ofFrame v.bytes)
    (hw : ∀ w ∈ ws, IsFrame crc32c w.bytes ∧ w = ofFrame w.bytes)
    (h : vs.map (·.bytes) = ws.map (·.bytes)) : vs = ws := by
  have hof : ∀ us : List ValidatedBatch, (∀ u ∈ us, IsFrame crc32c u.bytes ∧ u = ofFrame u.bytes) →
      us = (us.map (·.bytes)).map ofFrame := by
    intro us hu
    rw [List.map_map]
    conv_lhs => rw [← List.map_id us]
    exact List.map_congr_left fun u h => (hu u h).2
  rw [hof vs hv, hof ws hw, h]

theorem validateRecordSet_safe (crc32c : Bytes → UInt32) (records : Bytes) :
    (validateRecordSet crc32c records).Safe := by
  unfold validateRecordSet
  split_ifs with hnil
  · exact safe_err _
  refine (validateLoop_safe crc32c _ _).bind ?_
  intro vs hvs
  obtain ⟨-, hflat⟩ := (validateLoop_eq_ok le_rfl).1 hvs
  obtain ⟨v, vs', rfl⟩ : ∃ v vs', vs = v :: vs' := by
    refine List.exists_cons_of_ne_nil fun h => hnil ?_
    rw [← hflat, h]; rfl
  simp only [List.getElem?_cons_zero, orPanic_some, ok_bind]
  split_ifs <;> simp

theorem validateRecordSet_fails (crc32c : Bytes → UInt32) (records : Bytes) :
    (validateRecordSet crc32c records).Fails AppendError.Structural := by
  unfold validateRecordSet
  split_ifs
  · exact fails_err (.inl rfl)
  refine (validateLoop_fails crc32c _ _).bind fun vs _ => (fails_orPanic _ _).bind fun first _ => ?_
  split_ifs
  · exact fails_err (.inl rfl)
  · exact fails_ok _ _

/-- The inspection of a record set returns, or fails structurally. -/
theorem recordSetProducer_cases (crc32c : Bytes → UInt32) (records : Bytes) :
    (∃ producer, recordSetProducer crc32c records = ok producer) ∨ recordSetProducer crc32c records = err .malformed ∨
      recordSetProducer crc32c records = err .unsupportedBatch := by
  have hsafe : (recordSetProducer crc32c records).Safe := by
    refine (validateRecordSet_safe crc32c records).bind fun vs hvs => ?_
    obtain ⟨first, rest, rfl⟩ := List.exists_cons_of_ne_nil (validateRecordSet_eq_ok.1 hvs).ne_nil
    exact safe_ok _
  have hfails : (recordSetProducer crc32c records).Fails AppendError.Structural :=
    (validateRecordSet_fails crc32c records).bind fun vs _ => (fails_orPanic _ _).bind fun first _ => fails_ok _ _
  refine hsafe.cases.imp_right ?_
  rintro ⟨error, herr⟩
  rcases hfails error herr with rfl | rfl
  · exact .inl herr
  · exact .inr herr

end MemKafka
