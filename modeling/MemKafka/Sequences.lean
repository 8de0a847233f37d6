import MemKafka.PartitionTiling

/-!
# Producer sequences

The batches of one producer, read in log order, carry contiguous sequences modulo `2^31`, and the
state kept for the producer is the successor of the last of them. The check of `append` walks batch by
batch while the state is advanced once from the first sequence and the total count;
`sequenceEnd_eq` is why the two agree.
-/

namespace MemKafka
open Kit Outcome

theorem sequenceModulus_eq : sequenceModulus = 2147483648 := rfl

theorem nextSequence_eq {a b : Int} (ha : 0 ≤ a) (hb : 0 ≤ b) : nextSequence a b = (a + b) % 2147483648 := by
  rw [nextSequence, sequenceModulus_eq, Int.tmod_eq_emod_of_nonneg (by omega)]

/-- The sequence expected behind `vs` when `expected` was expected in front of it. -/
def sequenceEnd (expected : Int) (vs : List ValidatedBatch) : Int :=
  vs.foldl (fun e v => nextSequence e v.recordCount) expected

abbrev BatchSequences : Int → List ValidatedBatch → Int → Prop :=
  Links ValidatedBatch.baseSequence fun v => nextSequence v.baseSequence v.recordCount

theorem validateSequences_ok {vs : List ValidatedBatch} {expected : Int}
    (h : validateSequences vs expected = .ok ()) : BatchSequences expected vs (sequenceEnd expected vs) := by
  induction vs generalizing expected with
  | nil => rfl
  | cons v vs ih =>
    unfold validateSequences at h
    split at h
    · cases h
    rename_i he
    have he : v.baseSequence = expected := not_not.1 he
    subst he
    exact ⟨rfl, ih h⟩

/-- Advancing batch by batch is advancing by the total count. -/
theorem sequenceEnd_eq {vs : List ValidatedBatch} {e : Int} (hc : ∀ v ∈ vs, 1 ≤ v.recordCount) (h0 : 0 ≤ e)
    (h1 : e < 2147483648) : sequenceEnd e vs = nextSequence e (recordSum vs) := by
  induction vs generalizing e with
  | nil =>
    rw [recordSum_nil, nextSequence_eq h0 le_rfl, Int.add_zero, Int.emod_eq_of_lt h0 h1]; rfl
  | cons v vs ih =>
    have hv := hc v (by simp)
    have hs : 0 ≤ recordSum vs := recordSum_nonneg fun w hw => hc w (by simp [hw])
    have hn : nextSequence e v.recordCount = (e + v.recordCount) % 2147483648 := nextSequence_eq h0 (by omega)
    have hn0 : 0 ≤ nextSequence e v.recordCount := by rw [hn]; exact Int.emod_nonneg _ (by decide)
    have hn1 : nextSequence e v.recordCount < 2147483648 := by rw [hn]; exact Int.emod_lt_of_pos _ (by decide)
    calc sequenceEnd e (v :: vs) = sequenceEnd (nextSequence e v.recordCount) vs := rfl
      _ = nextSequence (nextSequence e v.recordCount) (recordSum vs) := ih (fun w hw => hc w (by simp [hw])) hn0 hn1
      _ = ((e + v.recordCount) % 2147483648 + recordSum vs) % 2147483648 := by rw [nextSequence_eq hn0 hs, hn]
      _ = (e + (v.recordCount + recordSum vs)) % 2147483648 := by rw [Int.emod_add_emod, Int.add_assoc]
      _ = nextSequence e (recordSum (v :: vs)) := by rw [recordSum_cons, nextSequence_eq h0 (by omega)]

/-! ### Header fields of stored batches -/

/-- `b` stores `v`. -/
structure Stores (b : StoredBatch) (v : ValidatedBatch) : Prop where
  count : b.recordCount = v.recordCount
  producerId : frameProducerId b.bytes = v.producerId
  producerEpoch : frameProducerEpoch b.bytes = v.producerEpoch
  baseSequence : frameBaseSequence b.bytes = v.baseSequence

theorem storedBatches_stores {vs : List ValidatedBatch} (hv : ∀ v ∈ vs, v = ofFrame v.bytes) (o : Int) :
    List.Forall₂ Stores (storedBatches o vs) vs := by
  induction vs generalizing o with
  | nil => exact .nil
  | cons v vs ih =>
    refine .cons ?_ (ih (fun w hw => hv w (by simp [hw])) _)
    have word : ∀ i k, 8 ≤ i → wordAt (beOfInt 8 o ++ v.bytes.drop 8) i k = wordAt v.bytes i k := by
      intro i k hi
      have hlen : (beOfInt 8 o).length = 8 := length_beOfInt ..
      have := @wordAt_append_drop _ v.bytes i k (hlen.le.trans hi)
      rwa [hlen] at this
    have hof := hv v (by simp)
    refine ⟨rfl, ?_, ?_, ?_⟩
    · rw [frameProducerId, word _ _ (by decide), hof]; rfl
    · rw [frameProducerEpoch, word _ _ (by decide), hof]; rfl
    · rw [frameBaseSequence, word _ _ (by decide), hof]; rfl

/-- The stored batches that carry producer id `p`, in log order. -/
def producerBatches (p : Int) (batches : List StoredBatch) : List StoredBatch :=
  batches.filter fun b => frameProducerId b.bytes = p

abbrev StoredSequences : Int → List StoredBatch → Int → Prop :=
  Links (fun b => frameBaseSequence b.bytes) fun b => nextSequence (frameBaseSequence b.bytes) b.recordCount

theorem BatchSequences.stored {bs : List StoredBatch} {vs : List ValidatedBatch} {e e' : Int}
    (h : List.Forall₂ Stores bs vs) (hv : BatchSequences e vs e') : StoredSequences e bs e' :=
  Links.of_forall₂ (R := fun v b => Stores b v) h.flip
    (fun v b hb => ⟨hb.baseSequence, by rw [hb.baseSequence, hb.count]⟩) hv

theorem producerBatches_stored {bs : List StoredBatch} {vs : List ValidatedBatch} (h : List.Forall₂ Stores bs vs)
    {p q : Int} (hq : ∀ v ∈ vs, v.producerId = q) : producerBatches p bs = if q = p then bs else [] := by
  have hall : ∀ b ∈ bs, frameProducerId b.bytes = q := by
    intro b hb
    obtain ⟨v, hv, hs⟩ := forall₂_mem_left h hb
    rw [hs.producerId, hq v hv]
  split
  · exact List.filter_eq_self.2 fun b hb => by simpa using (hall b hb).trans ‹_›
  · exact List.filter_eq_nil_iff.2 fun b hb => by simpa using fun h => ‹¬ q = p› ((hall b hb).symm.trans h)

/-! ### The invariant -/

/-- The state kept for a producer matches the batches it has in the log. -/
structure StateMatches (state : ProducerPartitionState) (bs : List StoredBatch) : Prop where
  ne_nil : bs ≠ []
  sequences : StoredSequences 0 bs state.nextSequence
  epoch : ∀ b ∈ bs, frameProducerEpoch b.bytes = state.producerEpoch

def SeqInv (inner : PartitionLogInner) : Prop :=
  ∀ p, p ≠ noProducerId → match inner.producerStates.lookup p with
    | none => producerBatches p inner.batches = []
    | some state => StateMatches state (producerBatches p inner.batches)

theorem setProducer_eq_some {v : ValidatedBatch} {producer : RecordSetProducer} (h : setProducer v = some producer) :
    v.producerId = producer.producerId ∧ v.producerEpoch = producer.producerEpoch ∧
    producer.producerId ≠ noProducerId := by
  unfold setProducer at h
  split at h
  · rename_i hne
    simp only [Option.some.injEq] at h
    rw [← h]; exact ⟨rfl, rfl, hne⟩
  · cases h

theorem setProducer_eq_none {v : ValidatedBatch} (h : setProducer v = none) : v.producerId = noProducerId := by
  unfold setProducer at h
  split at h
  · cases h
  · exact not_not.1 ‹_›

namespace IsPrepared
variable {crc32c : Bytes → UInt32} {records : Bytes} {request : PreparedAppend} {producer : RecordSetProducer}

/-- The first sequence of an idempotent record set is a non-negative `i32`. -/
theorem sequence_range (h : IsPrepared crc32c records request) (hp : request.producer = some producer) :
    0 ≤ request.baseSequence ∧ request.baseSequence < 2147483648 := by
  obtain ⟨first, rest, hv, hb⟩ := h.head
  have hmem : first ∈ request.validated := by simp [hv]
  obtain ⟨f, hof⟩ := h.set.frames first hmem
  obtain ⟨hid, -, hne⟩ := setProducer_eq_some ((h.producer first hmem).symm.trans hp)
  have hseq : first.baseSequence = frameBaseSequence first.bytes := by rw [hof]; rfl
  have hpid : first.producerId = frameProducerId first.bytes := by rw [hof]; rfl
  have h61 : 61 ≤ first.bytes.length := f.long
  rw [hb, hseq]
  constructor
  · rcases f.identity with h | h
    · exact absurd (hid.symm.trans (hpid.trans h.1)) hne
    · exact h.2.2
  · have hr := (beInt_range (wordAt first.bytes 53 4)).2
    rw [length_wordAt (by omega)] at hr
    have e : frameBaseSequence first.bytes = beInt (wordAt first.bytes 53 4) := rfl
    norm_num at hr
    omega

/-- What a checked record set is stored as: contiguous sequences from the expected one to the one the
producer's state is advanced to. -/
theorem stored_sequences (h : IsPrepared crc32c records request) (hp : request.producer = some producer)
    {expected : Int} (hv : validateSequences request.validated expected = .ok ()) (o : Int) :
    StoredSequences expected (storedBatches o request.validated)
      (nextSequence request.baseSequence request.totalRecordCount) := by
  have hlinks := validateSequences_ok hv
  obtain ⟨h0, h1⟩ := h.sequence_range hp
  obtain ⟨first, rest, hval, hb⟩ := h.head
  have he : expected = request.baseSequence := by
    rw [hval] at hlinks
    rw [hb]; exact hlinks.1.symm
  rw [h.total, ← sequenceEnd_eq h.set.count h0 h1, ← he]
  exact hlinks.stored (storedBatches_stores (fun v hv => (h.set.frames v hv).2) o)

end IsPrepared

theorem SeqInv.appendTo {crc32c : Bytes → UInt32} {inner : PartitionLogInner} {records : Bytes}
    {request : PreparedAppend} {next : Option Int} (h : SeqInv inner) (hq : IsPrepared crc32c records request)
    (ha : admission inner request = .fresh next) : SeqInv (appendTo inner request next) := by
  have hstores := storedBatches_stores (fun v hv => (hq.set.frames v hv).2) inner.nextOffset
  intro p hp
  show match (MemKafka.appendTo inner request next).producerStates.lookup p with
    | none => producerBatches p (inner.batches ++ storedBatches inner.nextOffset request.validated) = []
    | some state => StateMatches state (producerBatches p (inner.batches ++ storedBatches inner.nextOffset request.validated))
  have hsplit : producerBatches p (inner.batches ++ storedBatches inner.nextOffset request.validated) =
      producerBatches p inner.batches ++ producerBatches p (storedBatches inner.nextOffset request.validated) :=
    List.filter_append ..
  have hold := h p hp
  rw [hsplit]
  rcases admission_fresh ha with ⟨hprod, rfl⟩ | ⟨producer, expected, hprod, hexp, hseq, rfl⟩
  · -- a non-idempotent record set
    have hid : ∀ v ∈ request.validated, v.producerId = noProducerId := fun v hv =>
      setProducer_eq_none ((hq.producer v hv).symm.trans hprod)
    rw [producerBatches_stored hstores hid, if_neg (fun h => hp h.symm), List.append_nil]
    rw [appendTo_states_none hprod]; exact hold
  · have hid : ∀ v ∈ request.validated, v.producerId = producer.producerId := fun v hv =>
      (setProducer_eq_some ((hq.producer v hv).symm.trans hprod)).1
    rw [producerBatches_stored hstores hid, appendTo_states_some hprod, lookup_recordAppend]
    by_cases hpp : p = producer.producerId
    swap
    · rw [if_neg hpp, if_neg (fun h => hpp h.symm), List.append_nil]; exact hold
    rw [if_pos hpp, if_pos hpp.symm]
    have hsq := hq.stored_sequences hprod hseq inner.nextOffset
    have hne : storedBatches inner.nextOffset request.validated ≠ [] := by
      obtain ⟨first, rest, hval, -⟩ := hq.head
      rw [hval]; exact List.cons_ne_nil _ _
    have hep : ∀ b ∈ storedBatches inner.nextOffset request.validated, frameProducerEpoch b.bytes = producer.producerEpoch := by
      intro b hb
      obtain ⟨v, hv, hs⟩ := forall₂_mem_left hstores hb
      rw [hs.producerEpoch]
      exact (setProducer_eq_some ((hq.producer v hv).symm.trans hprod)).2.1
    rcases hexp with ⟨hnone, -, rfl⟩ | ⟨state, hsome, hepoch, -, rfl⟩
    · rw [← hpp] at hnone
      rw [hnone] at hold ⊢
      rw [show producerBatches p inner.batches = [] from hold, List.nil_append]
      exact ⟨hne, hsq, hep⟩
    · rw [← hpp] at hsome
      rw [hsome] at hold ⊢
      refine ⟨by simp [hne], hold.sequences.append hsq, ?_⟩
      intro b hb
      rcases List.mem_append.1 hb with hb | hb
      · exact hold.epoch b hb
      · exact (hep b hb).trans hepoch.symm

theorem SeqInv.of_run {crc32c : Bytes → UInt32} {tr : List AppendEvent} {s : PartitionLogInner}
    (h : (partitionLog crc32c).Run tr s) : SeqInv s := by
  refine Machine.Run.induction (M := partitionLog crc32c) (P := fun _ s => SeqInv s) (fun p _ => rfl) ?_ h
  rintro tr ⟨s, records, out, s'⟩ hrun ih he
  change append crc32c s records = some (out, s') at he
  have inv : LogInv crc32c s := LogInv.of_run hrun
  cases append_step inv.range he with
  | rejected => exact ih
  | replayed => exact ih
  | appended hq ha _ => exact SeqInv.appendTo ih hq ha

/-- Stored sequences are those of non-negative `i32` values, so the truncated remainder of the source is
the remainder modulo `2^31`. -/
theorem StoredSequences.emod {bs : List StoredBatch} {e e' : Int} (h : StoredSequences e bs e')
    (hb : ∀ b ∈ bs, 0 ≤ frameBaseSequence b.bytes ∧ 1 ≤ b.recordCount) :
    Links (fun b => frameBaseSequence b.bytes) (fun b => (frameBaseSequence b.bytes + b.recordCount) % 2147483648) e bs e' := by
  induction bs generalizing e with
  | nil => exact Links.nil_iff.2 (Links.nil_iff.1 h)
  | cons b bs ih =>
    obtain ⟨h0, h1⟩ := hb b (by simp)
    refine ⟨h.1, ?_⟩
    have hn : nextSequence (frameBaseSequence b.bytes) b.recordCount = (frameBaseSequence b.bytes + b.recordCount) % 2147483648 :=
      nextSequence_eq h0 (by omega)
    have h2 : StoredSequences (nextSequence (frameBaseSequence b.bytes) b.recordCount) bs e' := h.2
    rw [hn] at h2
    exact ih h2 fun c hc => hb c (by simp [hc])

theorem IsStored.sequence_nonneg {crc32c : Bytes → UInt32} {b : StoredBatch} (h : IsStored crc32c b)
    (hp : frameProducerId b.bytes ≠ noProducerId) : 0 ≤ frameBaseSequence b.bytes := by
  obtain ⟨-, -, f, hf, -, hh⟩ := h
  have word : ∀ i k, 8 ≤ i → wordAt b.bytes i k = wordAt f i k := by
    intro i k hi
    have e : ∀ bs : Bytes, wordAt bs i k = wordAt (bs.drop 8) (i - 8) k := fun bs => by
      rw [wordAt_drop, Nat.add_sub_cancel' hi]
    rw [e, e f, hh.rest]
  have hid : frameProducerId b.bytes = frameProducerId f := by rw [frameProducerId, word _ _ (by decide)]; rfl
  have hsq : frameBaseSequence b.bytes = frameBaseSequence f := by rw [frameBaseSequence, word _ _ (by decide)]; rfl
  rw [hid] at hp
  rw [hsq]
  rcases hf.identity with h | h
  · exact absurd h.1 hp
  · exact h.2.2

/-- Idempotent exactly-once ordering. After any sequence of `append` calls, the batches of a producer
carry base sequences that start at zero and continue, each at its predecessor's sequence plus record
count modulo `2^31`, up to the producer's `nextSequence`, all under one epoch; a producer has a state
exactly if it has a batch. -/
theorem producer_sequences_contiguous (crc32c : Bytes → UInt32) (calls : List Bytes) (p : Int) (hp : p ≠ noProducerId) :
    ∃ tr s, (partitionLog crc32c).exec .default calls = some (tr, s) ∧
      match s.producerStates.lookup p with
      | none => producerBatches p s.batches = []
      | some state => producerBatches p s.batches ≠ [] ∧
          Links (fun b => frameBaseSequence b.bytes) (fun b => (frameBaseSequence b.bytes + b.recordCount) % 2147483648) 0
            (producerBatches p s.batches) state.nextSequence ∧
          ∀ b ∈ producerBatches p s.batches, frameProducerEpoch b.bytes = state.producerEpoch := by
  obtain ⟨tr, s, hx⟩ := Machine.exec_total (M := partitionLog crc32c) (P := LogInv crc32c) calls
    (fun s l _ hs => hs.total l) LogInv.default
  have hrun : (partitionLog crc32c).Run tr s := (Machine.exec_path hx).1
  have inv := LogInv.of_run hrun
  have seq := SeqInv.of_run hrun p hp
  refine ⟨tr, s, hx, ?_⟩
  cases hs : s.producerStates.lookup p with
  | none => simpa only [hs] using seq
  | some state =>
    have seq : StateMatches state (producerBatches p s.batches) := by simpa only [hs] using seq
    refine ⟨seq.ne_nil, seq.sequences.emod ?_, seq.epoch⟩
    intro b hb
    obtain ⟨hmem, hid⟩ := List.mem_filter.1 hb
    have hid : frameProducerId b.bytes = p := by simpa using hid
    exact ⟨(inv.stored b hmem).sequence_nonneg (by rw [hid]; exact hp), (inv.stored b hmem).count⟩

/-- A frame with an empty payload. -/
def sampleFrame (producerId producerEpoch baseSequence recordCount : Int) : Bytes :=
  let body := beBytes 2 0 ++ beOfInt 4 (recordCount - 1) ++ beBytes 16 0 ++ beOfInt 8 producerId ++
    beOfInt 2 producerEpoch ++ beOfInt 4 baseSequence ++ beOfInt 4 recordCount
  beBytes 8 0 ++ beOfInt 4 49 ++ beBytes 4 0 ++ [2] ++ beBytes 4 (castagnoli body).toNat ++ body

theorem producer_sequences_contiguous_two_calls :
    ∃ tr s state, (partitionLog castagnoli).exec .default [sampleFrame 7 0 0 2, sampleFrame (-1) (-1) 0 4, sampleFrame 7 0 2 1] =
        some (tr, s) ∧ s.producerStates.lookup 7 = some state ∧
      Links (fun b => frameBaseSequence b.bytes) (fun b => (frameBaseSequence b.bytes + b.recordCount) % 2147483648) 0
        (producerBatches 7 s.batches) state.nextSequence := by
  obtain ⟨tr, s, hx, h⟩ := producer_sequences_contiguous castagnoli
    [sampleFrame 7 0 0 2, sampleFrame (-1) (-1) 0 4, sampleFrame 7 0 2 1] 7 (by decide)
  have hstate : (((partitionLog castagnoli).exec .default
      [sampleFrame 7 0 0 2, sampleFrame (-1) (-1) 0 4, sampleFrame 7 0 2 1]).bind
        fun r => r.2.producerStates.lookup 7).isSome := by decide +kernel
  rw [hx, Option.bind_some, Option.isSome_iff_exists] at hstate
  obtain ⟨state, hstate⟩ := hstate
  rw [hstate] at h
  exact ⟨tr, s, state, hx, hstate, h.2.1⟩

end MemKafka
