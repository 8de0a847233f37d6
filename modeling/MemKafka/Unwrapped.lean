import MemKafka.Retry

/-!
# Sequences and the records behind them

The code keeps a producer's sequence modulo `2^31`. Behind it stands the number of records that the producer has appended
in all (`producerRecords`), and the sequences of its window are those of its last record sets, end to end (`Counted`).
Against that number a sequence that is not expected is classified right as long as it is less than half a turn off
(`sequences_are_classified`). A record set that is due can be taken for a retry only after whole turns, and then is if its
bytes are in the window (`due_record_set_is_stored`).
-/

namespace MemKafka
open Kit Outcome

/-- How many records the calls of `tr` have stored for producer `p`. -/
def producerRecords (crc32c : Bytes → UInt32) (p : Int) (tr : List AppendEvent) : Int :=
  ((appendedResults (tr.filter fun e => producedBy crc32c p e.label)).map (·.recordCount)).sum

/-- The sequence behind an entry of the window. -/
def RecentAppend.stop (entry : RecentAppend) : Int := (entry.baseSequence + entry.result.recordCount) % 2147483648

/-- The records of a window, or of a part of it. -/
def windowRecords (recent : List RecentAppend) : Int := (recent.map (·.result.recordCount)).sum

/-- The entry is that of a record set the log has taken. -/
def Entered (crc32c : Bytes → UInt32) (entry : RecentAppend) : Prop :=
  ∃ records request, IsPrepared crc32c records request ∧ entry.baseSequence = request.baseSequence ∧
    entry.encodedBatches = request.encodedBatches ∧ entry.result.recordCount = request.totalRecordCount

/-- The state of a producer that has appended `n` records. -/
structure Counted (crc32c : Bytes → UInt32) (state : ProducerPartitionState) (n : Int) : Prop where
  pos : 1 ≤ n
  next : state.nextSequence = n % 2147483648
  window : ∃ start, Links RecentAppend.baseSequence RecentAppend.stop start state.recent state.nextSequence
  entered : ∀ entry ∈ state.recent, Entered crc32c entry

def CountInv (crc32c : Bytes → UInt32) (p n : Int) (inner : PartitionLogInner) : Prop :=
  match inner.producerStates.lookup p with
  | none => n = 0
  | some state => Counted crc32c state n

/-- What one call adds to the records of producer `p`. -/
def addedRecords (crc32c : Bytes → UInt32) (p : Int) (records : Bytes) (out : Except AppendError AppendResult) : Int :=
  if producedBy crc32c p records then ((appendedResult out).map (·.recordCount)).getD 0 else 0

section
variable {crc32c : Bytes → UInt32} {inner inner' : PartitionLogInner} {records : Bytes} {request : PreparedAppend}
  {out : Except AppendError AppendResult} {producer : RecordSetProducer} {p n : Int} {state : ProducerPartitionState}

theorem producerRecords_snoc (tr : List AppendEvent) (e : AppendEvent) :
    producerRecords crc32c p (tr ++ [e]) = producerRecords crc32c p tr + addedRecords crc32c p e.label e.out := by
  unfold producerRecords appendedResults addedRecords
  by_cases hp : producedBy crc32c p e.label = true
  · cases hout : appendedResult e.out <;> simp [List.filter_append, hp, hout]
  · simp [List.filter_append, hp]

/-! ### One call -/

theorem Entered.appendEntry (hq : IsPrepared crc32c records request) : Entered crc32c (appendEntry inner request) :=
  ⟨records, request, hq, rfl, rfl, rfl⟩

/-- A record set that is stored starts where the producer's records end. -/
theorem CountInv.expects (h : CountInv crc32c producer.producerId n inner) {expected : Int}
    (hexp : Expects inner request producer expected) : expected = n % 2147483648 ∧ 0 ≤ n := by
  unfold CountInv at h
  rcases hexp with ⟨hnone, -, rfl⟩ | ⟨state, hsome, -, -, rfl⟩
  · rw [hnone] at h
    simp [show n = 0 from h]
  · rw [hsome] at h
    have hpos : 1 ≤ n := Counted.pos h
    exact ⟨Counted.next h, by omega⟩

theorem evict_links {recent : List RecentAppend} {start stop : Int}
    (h : Links RecentAppend.baseSequence RecentAppend.stop start recent stop) :
    ∃ start', Links RecentAppend.baseSequence RecentAppend.stop start' (evict recent) stop := by
  rw [evict_eq]
  rw [← List.take_append_drop (recent.length - 4) recent] at h
  obtain ⟨m, -, hdrop⟩ := Links.append_iff.1 h
  exact ⟨m, hdrop⟩

/-- The producer's state after its record set is stored. -/
theorem CountInv.stored (h : CountInv crc32c producer.producerId n inner) (hq : IsPrepared crc32c records request)
    (hp : request.producer = some producer) {expected : Int} (hexp : Expects inner request producer expected)
    (hseq : validateSequences request.validated expected = .ok ()) :
    CountInv crc32c producer.producerId (n + request.totalRecordCount)
      (appendTo inner request (some (nextSequence request.baseSequence request.totalRecordCount))) := by
  obtain ⟨hexpected, h0⟩ := h.expects hexp
  have hbase : request.baseSequence = n % 2147483648 := by
    obtain ⟨first, rest, hval, hb⟩ := hq.head
    have hlinks := validateSequences_ok hseq
    rw [hval] at hlinks
    rw [hb, hlinks.1, hexpected]
  have hpos := hq.total_pos
  have hnext : nextSequence request.baseSequence request.totalRecordCount = (n + request.totalRecordCount) % 2147483648 := by
    rw [nextSequence_eq (hq.sequence_range hp).1 (by omega), hbase, Int.emod_add_emod]
  have hstop : (appendEntry inner request).stop = (n + request.totalRecordCount) % 2147483648 := by
    show (request.baseSequence + request.totalRecordCount) % 2147483648 = _
    rw [hbase, Int.emod_add_emod]
  unfold CountInv at h ⊢
  rw [appendTo_states_some hp, lookup_recordAppend, if_pos rfl]
  dsimp only
  rcases hexp with ⟨hnone, -, -⟩ | ⟨state, hsome, -, -, hexpected'⟩
  · rw [hnone]
    refine ⟨by omega, hnext, ⟨request.baseSequence, rfl, ?_⟩, ?_⟩
    · exact hstop.trans hnext.symm
    · intro entry hentry
      obtain rfl : entry = appendEntry inner request := List.mem_singleton.1 hentry
      exact .appendEntry hq
  · rw [hsome] at h ⊢
    have h : Counted crc32c state n := h
    obtain ⟨start, hwindow⟩ := h.window
    obtain ⟨start', hkept⟩ := evict_links hwindow
    refine ⟨by omega, hnext, ⟨start', hkept.append ⟨?_, ?_⟩⟩, ?_⟩
    · show request.baseSequence = state.nextSequence
      rw [hbase, h.next]
    · exact hstop.trans hnext.symm
    · intro entry hentry
      rcases List.mem_append.1 hentry with hentry | hentry
      · exact h.entered entry ((evict_sublist _).subset hentry)
      · rw [List.mem_singleton.1 hentry]
        exact .appendEntry hq

theorem addedRecords_of_none (h : appendedResult out = none) : addedRecords crc32c p records out = 0 := by
  simp [addedRecords, h]

theorem CountInv.step (h : CountInv crc32c p n inner) (hs : AppendStep crc32c inner records out inner') :
    CountInv crc32c p (n + addedRecords crc32c p records out) inner' := by
  cases hs with
  | rejected => rwa [addedRecords_of_none rfl, Int.add_zero]
  | replayed => rwa [addedRecords_of_none rfl, Int.add_zero]
  | appended hq ha hle =>
    rename_i request next
    rcases admission_fresh ha with ⟨hprod, rfl⟩ | ⟨producer, expected, hprod, hexp, hseq, rfl⟩
    · -- a record set without a producer
      have hnot : producedBy crc32c p records = false := by
        rw [producedBy, hq.recordSetProducer_eq, hprod]
        rfl
      unfold CountInv at h ⊢
      rw [appendTo_states_none hprod, addedRecords, hnot]
      simpa using h
    · by_cases hpp : producer.producerId = p
      · subst hpp
        have hadd : addedRecords crc32c producer.producerId records (.ok ⟨inner.nextOffset,
            inner.nextOffset + request.totalRecordCount - 1, request.totalRecordCount, true⟩) = request.totalRecordCount := by
          simp [addedRecords, hq.producedBy_eq hprod, appendedResult]
        rw [hadd]
        exact h.stored hq hprod hexp hseq
      · unfold CountInv at h ⊢
        rw [appendTo_states_some hprod, lookup_recordAppend, if_neg fun heq => hpp heq.symm, addedRecords,
          hq.producedBy_eq hprod]
        simpa [hpp] using h

end

theorem CountInv.of_run {crc32c : Bytes → UInt32} {tr : List AppendEvent} {s : PartitionLogInner}
    (h : (partitionLog crc32c).Run tr s) (p : Int) : CountInv crc32c p (producerRecords crc32c p tr) s := by
  refine Machine.Run.induction (M := partitionLog crc32c)
    (P := fun tr s => CountInv crc32c p (producerRecords crc32c p tr) s) rfl ?_ h
  rintro tr ⟨s₁, records, out, s₂⟩ hrun ih he
  change append crc32c s₁ records = some (out, s₂) at he
  rw [producerRecords_snoc]
  exact ih.step (append_step (LogInv.of_run hrun).range he)

/-! ### Classification -/

/-- At most half a turn behind what is expected. -/
theorem classify_behind {n a : Int} (hle : n - 1073741824 ≤ a) (hlt : a < n) :
    classifySequenceMismatch (a % 2147483648) (n % 2147483648) = .duplicateSequence := by
  rw [classifySequenceMismatch, sequenceModulus_eq, if_neg (by omega)]

/-- Less than half a turn ahead of what is expected. -/
theorem classify_ahead {n a : Int} (hlt : n < a) (hle : a < n + 1073741824) :
    classifySequenceMismatch (a % 2147483648) (n % 2147483648) = .outOfOrderSequence := by
  rw [classifySequenceMismatch, sequenceModulus_eq, if_pos (by omega)]

section
variable {crc32c : Bytes → UInt32} {inner : PartitionLogInner} {records : Bytes} {request : PreparedAppend}
  {producer : RecordSetProducer} {state : ProducerPartitionState} {vs : List ValidatedBatch}

/-- A record set of a producer, prepared. -/
theorem prepared_of_producer (hvs : validateRecordSet crc32c records = ok vs)
    (hproducer : recordSetProducer crc32c records = ok (some producer)) (hle : recordSum vs ≤ i32Max) :
    ∃ request, prepareAppend crc32c records = ok request ∧ IsPrepared crc32c records request ∧ request.validated = vs ∧
      request.producer = some producer := by
  obtain ⟨request, hprep, hval⟩ := prepareAppend_of_set (validateRecordSet_eq_ok.1 hvs) hle
  have hq := prepareAppend_ok hprep
  exact ⟨request, hprep, hq, hval, ok_inj.1 (hq.recordSetProducer_eq.symm.trans hproducer)⟩

theorem append_reject (hr : InRange inner) (hprep : prepareAppend crc32c records = ok request) {error : AppendError}
    (h : admission inner request = .reject error) : append crc32c inner records = some (.error error, inner) := by
  rw [append_eq hr, appendPure, hprep]
  simp only [ok, ExceptT.run, h]

/-- A record set that is not in its producer's window goes to the sequence check. -/
theorem admission_check (hp : request.producer = some producer)
    (hs : inner.producerStates.lookup producer.producerId = some state) (he : state.producerEpoch = producer.producerEpoch)
    (hf : state.recent.find? (·.isRetry request) = none) :
    admission inner request = checkSequences request state.nextSequence := by
  unfold admission
  simp only [hp, hs, he, ne_eq, not_true_eq_false, if_false, hf]

theorem checkSequences_mismatch (hq : IsPrepared crc32c records request) {expected : Int}
    (hne : request.baseSequence ≠ expected) :
    checkSequences request expected = .reject (classifySequenceMismatch request.baseSequence expected) := by
  obtain ⟨first, rest, hval, hbase⟩ := hq.head
  rw [checkSequences, hval, validateSequences, ← hbase, if_pos hne]

end

/-- Stale record sets and gaps. A producer that has appended `n` records in all expects the sequence `n` modulo `2^31`; a
record set of it that starts elsewhere and is not in the window is a duplicate if it starts at most half a turn behind
`n`, and out of order if it starts less than half a turn ahead; and without a state only the sequence 0 is in order. -/
theorem sequences_are_classified (crc32c : Bytes → UInt32) (tr : List AppendEvent) (s : PartitionLogInner)
    (hrun : (partitionLog crc32c).Run tr s) (p : Int) :
    (1 ≤ producerRecords crc32c p tr → ∃ state, s.producerStates.lookup p = some state ∧
      state.nextSequence = producerRecords crc32c p tr % 2147483648 ∧
      ∀ (records : Bytes) (vs : List ValidatedBatch) (a : Int), validateRecordSet crc32c records = ok vs →
        recordSetProducer crc32c records = ok (some ⟨p, state.producerEpoch⟩) → recordSum vs ≤ i32Max →
        (∀ entry ∈ state.recent, ¬ (vs.head?.map (·.baseSequence) = some entry.baseSequence ∧
          entry.fingerprints = vs.map fingerprint ∧ entry.encodedBatches = vs.map (·.bytes))) →
        vs.head?.map (·.baseSequence) = some (a % 2147483648) →
        (producerRecords crc32c p tr - 1073741824 ≤ a → a < producerRecords crc32c p tr →
          append crc32c s records = some (.error .duplicateSequence, s)) ∧
        (producerRecords crc32c p tr < a → a < producerRecords crc32c p tr + 1073741824 →
          append crc32c s records = some (.error .outOfOrderSequence, s))) ∧
    (s.producerStates.lookup p = none → ∀ (records : Bytes) (vs : List ValidatedBatch) (epoch : Int),
      validateRecordSet crc32c records = ok vs → recordSetProducer crc32c records = ok (some ⟨p, epoch⟩) →
      recordSum vs ≤ i32Max → vs.head?.map (·.baseSequence) ≠ some 0 →
      append crc32c s records = some (.error .outOfOrderSequence, s)) := by
  have hcount := CountInv.of_run hrun p
  have hr := (LogInv.of_run hrun).range
  unfold CountInv at hcount
  generalize producerRecords crc32c p tr = n at hcount ⊢
  refine ⟨fun hpos => ?_, fun hnone records vs epoch hvs hproducer hle hfirst => ?_⟩
  · cases hs : s.producerStates.lookup p with
    | none =>
      rw [hs] at hcount
      have : n = 0 := hcount
      omega
    | some state =>
      rw [hs] at hcount
      have hcount : Counted crc32c state n := hcount
      refine ⟨state, rfl, hcount.next, fun records vs a hvs hproducer hle hwindow hfirst => ?_⟩
      obtain ⟨request, hprep, hq, rfl, hp⟩ := prepared_of_producer hvs hproducer hle
      obtain ⟨first, rest, hval, hbase⟩ := hq.head
      have hhead : request.validated.head?.map (·.baseSequence) = some request.baseSequence := by rw [hval, hbase]; rfl
      rw [hhead] at hfirst hwindow
      have hstart : request.baseSequence = a % 2147483648 := Option.some.inj hfirst
      have hfind : state.recent.find? (·.isRetry request) = none := by
        refine List.find?_eq_none.2 fun entry hentry hretry => hwindow entry hentry ?_
        obtain ⟨hb, hf, he⟩ := of_decide_eq_true hretry
        exact ⟨congrArg some hb.symm, hf.trans hq.fingerprints, he.trans hq.encoded⟩
      have hcheck : request.baseSequence ≠ state.nextSequence → append crc32c s records =
          some (.error (classifySequenceMismatch (a % 2147483648) (n % 2147483648)), s) := by
        intro hne
        rw [← hstart, ← hcount.next]
        exact append_reject hr hprep ((admission_check hp hs rfl hfind).trans (checkSequences_mismatch hq hne))
      rw [hstart, hcount.next] at hcheck
      refine ⟨fun h₁ h₂ => ?_, fun h₁ h₂ => ?_⟩
      · rw [hcheck (by omega), classify_behind h₁ h₂]
      · rw [hcheck (by omega), classify_ahead h₁ h₂]
  · obtain ⟨request, hprep, hq, rfl, hp⟩ := prepared_of_producer hvs hproducer hle
    obtain ⟨first, rest, hval, hbase⟩ := hq.head
    have hne : request.baseSequence ≠ 0 := by
      intro hzero
      rw [hval, List.head?_cons, Option.map_some, ← hbase, hzero] at hfirst
      exact hfirst rfl
    refine append_reject hr hprep ?_
    unfold admission
    simp only [hp, hnone, if_pos hne]

theorem sequences_are_classified_after_two : ∃ tr s,
    (partitionLog castagnoli).exec .default [sampleFrame 7 0 0 2] = some (tr, s) ∧
    append castagnoli s (sampleFrame 7 0 1 1) = some (.error .duplicateSequence, s) ∧
    append castagnoli s (sampleFrame 7 0 5 1) = some (.error .outOfOrderSequence, s) ∧
    append castagnoli s (sampleFrame 8 0 5 1) = some (.error .outOfOrderSequence, s) := by
  have hsome : ((partitionLog castagnoli).exec .default [sampleFrame 7 0 0 2]).map (fun r =>
      (producerRecords castagnoli 7 r.1, (r.2.producerStates.lookup 8).isNone)) = some (2, true) := by decide +kernel
  have hstate : ((partitionLog castagnoli).exec .default [sampleFrame 7 0 0 2]).bind (fun r =>
      (r.2.producerStates.lookup 7).map fun state => (state.producerEpoch, state.recent.map (·.encodedBatches))) =
      some (0, [[sampleFrame 7 0 0 2]]) := by decide +kernel
  have hset : ∀ id ∈ [7, 8], ∀ sequence ∈ [1, 5],
      (validateRecordSet castagnoli (sampleFrame id 0 sequence 1)).run = some (.ok [ofFrame (sampleFrame id 0 sequence 1)]) ∧
      (recordSetProducer castagnoli (sampleFrame id 0 sequence 1)).run = some (.ok (some ⟨id, 0⟩)) ∧
      (ofFrame (sampleFrame id 0 sequence 1)).baseSequence = sequence ∧
      recordSum [ofFrame (sampleFrame id 0 sequence 1)] ≤ i32Max := by decide +kernel
  have hother : ∀ sequence ∈ [1, 5], [sampleFrame 7 0 0 2] ≠ [sampleFrame 7 0 sequence 1] := by decide +kernel
  obtain ⟨⟨tr, s⟩, hx, hfacts⟩ := Option.map_eq_some_iff.1 hsome
  obtain ⟨hrecords, hnone⟩ := Prod.mk.inj hfacts
  obtain ⟨hknown, -⟩ := sequences_are_classified castagnoli tr s (Machine.exec_path hx).1 7
  obtain ⟨state, hlookup, -, hclassify⟩ := hknown (by rw [hrecords]; decide)
  rw [hx, Option.bind_some, hlookup, Option.map_some] at hstate
  obtain ⟨hepoch, hrecent⟩ := Prod.mk.inj (Option.some.inj hstate)
  have hwindow : ∀ entry ∈ state.recent, entry.encodedBatches = [sampleFrame 7 0 0 2] := by
    intro entry hentry
    have hmem := List.mem_map_of_mem (f := RecentAppend.encodedBatches) hentry
    rw [hrecent] at hmem
    exact List.mem_singleton.1 hmem
  rw [hrecords] at hclassify
  refine ⟨tr, s, hx, ?_, ?_, ?_⟩
  · obtain ⟨hvs, hproducer, hbase, hsum⟩ := hset 7 (by simp) 1 (by simp)
    have hproducer : recordSetProducer castagnoli (sampleFrame 7 0 1 1) = ok (some ⟨7, state.producerEpoch⟩) := by
      rw [hepoch]
      exact hproducer
    refine (hclassify _ _ 1 hvs hproducer hsum (fun entry hentry h => ?_) ?_).1 ?_ ?_
    · exact hother 1 (by simp) ((hwindow entry hentry).symm.trans h.2.2)
    · rw [List.head?_cons, Option.map_some, hbase]
      decide
    · decide
    · decide
  · obtain ⟨hvs, hproducer, hbase, hsum⟩ := hset 7 (by simp) 5 (by simp)
    have hproducer : recordSetProducer castagnoli (sampleFrame 7 0 5 1) = ok (some ⟨7, state.producerEpoch⟩) := by
      rw [hepoch]
      exact hproducer
    refine (hclassify _ _ 5 hvs hproducer hsum (fun entry hentry h => ?_) ?_).2 ?_ ?_
    · exact hother 5 (by simp) ((hwindow entry hentry).symm.trans h.2.2)
    · rw [List.head?_cons, Option.map_some, hbase]
      decide
    · decide
    · decide
  · obtain ⟨hvs, hproducer, hbase, hsum⟩ := hset 8 (by simp) 5 (by simp)
    obtain ⟨-, hunknown⟩ := sequences_are_classified castagnoli tr s (Machine.exec_path hx).1 8
    refine hunknown (Option.isNone_iff_eq_none.1 hnone) _ _ 0 hvs hproducer hsum ?_
    rw [List.head?_cons, Option.map_some, hbase]
    decide

/-! ### Record sets that are due -/

section
variable {crc32c : Bytes → UInt32} {records : Bytes} {request : PreparedAppend} {producer : RecordSetProducer}
  {vs : List ValidatedBatch}

/-- The sequences of a producer's record set are not negative. -/
theorem IsPrepared.sequence_nonneg (hq : IsPrepared crc32c records request) (hp : request.producer = some producer) :
    ∀ v ∈ request.validated, 0 ≤ v.baseSequence := by
  intro v hv
  obtain ⟨hframe, hof⟩ := hq.set.frames v hv
  obtain ⟨hid, -, hne⟩ := setProducer_eq_some ((hq.producer v hv).symm.trans hp)
  have hpid : v.producerId = frameProducerId v.bytes := by rw [hof]; rfl
  have hseq : v.baseSequence = frameBaseSequence v.bytes := by rw [hof]; rfl
  rcases hframe.identity with hnone | hsome
  · exact absurd (hid.symm.trans (hpid.trans hnone.1)) hne
  · rw [hseq]
    exact hsome.2.2

/-- A contiguous record set passes the sequence check. -/
theorem validateSequences_of_links {start stop : Int} (h0 : ∀ v ∈ vs, 0 ≤ v.baseSequence)
    (hc : ∀ v ∈ vs, 1 ≤ v.recordCount)
    (h : Links ValidatedBatch.baseSequence (fun v => (v.baseSequence + v.recordCount) % 2147483648) start vs stop) :
    validateSequences vs start = .ok () := by
  induction vs generalizing start with
  | nil => rfl
  | cons v vs ih =>
    obtain ⟨rfl, hrest⟩ := h
    have hv := h0 v (by simp)
    have hcount := hc v (by simp)
    rw [validateSequences, if_neg (by simp), nextSequence_eq hv (by omega)]
    exact ih (fun w hw => h0 w (by simp [hw])) (fun w hw => hc w (by simp [hw])) hrest

/-- A contiguous record set that is no retry is stored, or there are no offsets left for it. -/
theorem append_due {inner : PartitionLogInner} {state : ProducerPartitionState} {stop : Int} (hr : InRange inner)
    (hprep : prepareAppend crc32c records = ok request) (hp : request.producer = some producer)
    (hs : inner.producerStates.lookup producer.producerId = some state) (he : state.producerEpoch = producer.producerEpoch)
    (hf : state.recent.find? (·.isRetry request) = none) (h0 : ∀ v ∈ request.validated, 0 ≤ v.baseSequence)
    (hc : ∀ v ∈ request.validated, 1 ≤ v.recordCount)
    (h : Links ValidatedBatch.baseSequence (fun v => (v.baseSequence + v.recordCount) % 2147483648)
      state.nextSequence request.validated stop) :
    (∃ result inner', append crc32c inner records = some (.ok result, inner') ∧ result.appended = true) ∨
      append crc32c inner records = some (.error .offsetOverflow, inner) := by
  have hadmission : admission inner request =
      .fresh (some (nextSequence request.baseSequence request.totalRecordCount)) := by
    rw [admission_check hp hs he hf, checkSequences, validateSequences_of_links h0 hc h]
  rw [append_eq hr, appendPure, hprep]
  simp only [ok, ExceptT.run, hadmission]
  split
  · exact .inl ⟨_, _, rfl, rfl⟩
  · exact .inr rfl

/-- An entry with the bytes of a record set is the entry of that record set. -/
theorem Entered.same {entry : RecentAppend} (h : Entered crc32c entry) (hset : IsRecordSet crc32c records vs)
    (hbytes : entry.encodedBatches = vs.map (·.bytes)) :
    recordSum vs ≤ i32Max ∧ vs.head?.map (·.baseSequence) = some entry.baseSequence := by
  obtain ⟨records', request', hq, hbase, hencoded, -⟩ := h
  obtain rfl : request'.validated = vs :=
    eq_of_map_bytes hq.set.frames hset.frames (hq.encoded.symm.trans (hencoded.symm.trans hbytes))
  obtain ⟨first, rest, hval, hfirst⟩ := hq.head
  refine ⟨hq.total ▸ hq.total_le, ?_⟩
  rw [hval, List.head?_cons, Option.map_some, hbase, hfirst]

/-- Around a part of the window go as many records as it has. -/
theorem window_turns {recent : List RecentAppend} {start stop : Int}
    (h : Links RecentAppend.baseSequence RecentAppend.stop start recent stop) :
    (start + windowRecords recent) % 2147483648 = stop % 2147483648 := by
  induction recent generalizing start with
  | nil =>
    obtain rfl : start = stop := h
    simp [windowRecords]
  | cons entry recent ih =>
    obtain ⟨rfl, hrest⟩ := h
    rw [← ih hrest, RecentAppend.stop, Int.emod_add_emod, windowRecords, List.map_cons, List.sum_cons, Int.add_assoc]
    rfl

end

/-- A record set that is due is stored, or the log has no offsets left for it, except in one case: the producer's window
has an entry with the same bytes, and the records from that entry on are whole turns of the sequence. -/
theorem due_record_set_is_stored (crc32c : Bytes → UInt32) (tr : List AppendEvent) (s : PartitionLogInner)
    (hrun : (partitionLog crc32c).Run tr s) (p : Int) (state : ProducerPartitionState)
    (hstate : s.producerStates.lookup p = some state) (records : Bytes) (vs : List ValidatedBatch)
    (hvs : validateRecordSet crc32c records = ok vs)
    (hproducer : recordSetProducer crc32c records = ok (some ⟨p, state.producerEpoch⟩))
    (hdue : ∃ stop, Links ValidatedBatch.baseSequence (fun v => (v.baseSequence + v.recordCount) % 2147483648)
      state.nextSequence vs stop) :
    ((∃ result s', append crc32c s records = some (.ok result, s') ∧ result.appended = true) ∨
        append crc32c s records = some (.error .offsetOverflow, s)) ↔
      ¬ ∃ before entry after, state.recent = before ++ entry :: after ∧ entry.encodedBatches = vs.map (·.bytes) ∧
        2147483648 ∣ windowRecords (entry :: after) := by
  have hr := (LogInv.of_run hrun).range
  have hwin := WindowInv.of_run hrun p state hstate
  have hcount := CountInv.of_run hrun p
  unfold CountInv at hcount
  rw [hstate] at hcount
  have hcount : Counted crc32c state (producerRecords crc32c p tr) := hcount
  obtain ⟨start, hwindow⟩ := hcount.window
  obtain ⟨stop, hlinks⟩ := hdue
  have hset := validateRecordSet_eq_ok.1 hvs
  by_cases hle : recordSum vs ≤ i32Max
  · obtain ⟨request, hprep, hq, rfl, hp⟩ := prepared_of_producer hvs hproducer hle
    obtain ⟨first, rest, hval, hbase⟩ := hq.head
    have hstart : request.baseSequence = state.nextSequence := by
      rw [hval] at hlinks
      rw [hbase, hlinks.1]
    cases hf : state.recent.find? (·.isRetry request) with
    | some found =>
      -- the record set is taken for a retry of the entry that was found
      have hmem := List.mem_of_find?_eq_some hf
      obtain ⟨hfound, hencoded⟩ := (isRetry_iff hq (hwin.entries found hmem)).1 (List.find?_some hf)
      have hreplay := append_replay hr hprep hp hstate rfl hf
      obtain ⟨before, after, hsplit⟩ := List.append_of_mem hmem
      have hturns : 2147483648 ∣ windowRecords (found :: after) := by
        rw [hsplit] at hwindow
        obtain ⟨m, -, hfrom⟩ := Links.append_iff.1 hwindow
        have hsum := window_turns hfrom
        rw [← hfrom.1, hfound, hstart] at hsum
        omega
      refine ⟨fun h => ?_, fun h => absurd ⟨before, found, after, hsplit, hencoded.trans hq.encoded, hturns⟩ h⟩
      rw [hreplay] at h
      rcases h with ⟨result, s', h, happended⟩ | h
      · obtain ⟨hresult, -⟩ := Prod.mk.inj (Option.some.inj h)
        rw [← Except.ok.inj hresult] at happended
        cases happended
      · cases (Prod.mk.inj (Option.some.inj h)).1
    | none =>
      have hnot : ¬ ∃ before entry after, state.recent = before ++ entry :: after ∧
          entry.encodedBatches = request.validated.map (·.bytes) ∧ 2147483648 ∣ windowRecords (entry :: after) := by
        rintro ⟨before, entry, after, hsplit, hbytes, -⟩
        have hmem : entry ∈ state.recent := by rw [hsplit]; simp
        obtain ⟨-, hfirst⟩ := (hcount.entered entry hmem).same hset hbytes
        rw [hval, List.head?_cons, Option.map_some, ← hbase] at hfirst
        exact List.find?_eq_none.1 hf entry hmem
          ((isRetry_iff hq (hwin.entries entry hmem)).2 ⟨(Option.some.inj hfirst).symm, hbytes.trans hq.encoded.symm⟩)
      exact ⟨fun _ => hnot, fun _ => append_due hr hprep hp hstate rfl hf (hq.sequence_nonneg hp) hset.count hlinks⟩
  · -- more records than a call can have
    have hover : append crc32c s records = some (.error .offsetOverflow, s) := by
      rw [append, prepareAppend, hvs, ok_bind, totalRecordCount_eq hset.count, if_neg hle]
      rfl
    refine ⟨fun _ => ?_, fun _ => .inr hover⟩
    rintro ⟨before, entry, after, hsplit, hbytes, -⟩
    exact hle ((hcount.entered entry (by rw [hsplit]; simp)).same hset hbytes).1

/-- Two record sets that go once around: the first one again is due, and is not stored. -/
def fullTurn : List Bytes := [sampleFrame 7 0 0 2147483647, sampleFrame 7 0 2147483647 1]

theorem due_record_set_taken_for_retry : ∃ tr s state result,
    (partitionLog castagnoli).exec .default fullTurn = some (tr, s) ∧ (partitionLog castagnoli).Run tr s ∧
    s.producerStates.lookup 7 = some state ∧
    validateRecordSet castagnoli (sampleFrame 7 0 0 2147483647) = ok [ofFrame (sampleFrame 7 0 0 2147483647)] ∧
    recordSetProducer castagnoli (sampleFrame 7 0 0 2147483647) = ok (some ⟨7, state.producerEpoch⟩) ∧
    (∃ stop, Links ValidatedBatch.baseSequence (fun v => (v.baseSequence + v.recordCount) % 2147483648)
      state.nextSequence [ofFrame (sampleFrame 7 0 0 2147483647)] stop) ∧
    append castagnoli s (sampleFrame 7 0 0 2147483647) = some (.ok result, s) ∧ result.appended = false := by
  have hstate : ((partitionLog castagnoli).exec .default fullTurn).bind (fun r =>
      (r.2.producerStates.lookup 7).map fun state => (state.producerEpoch, state.nextSequence)) = some (0, 0) := by
    decide +kernel
  have happend : ((partitionLog castagnoli).exec .default fullTurn).bind (fun r =>
      (append castagnoli r.2 (sampleFrame 7 0 0 2147483647)).map fun answer => answer.1.toOption.map (·.appended)) =
      some (some false) := by decide +kernel
  have hset : (validateRecordSet castagnoli (sampleFrame 7 0 0 2147483647)).run =
      some (.ok [ofFrame (sampleFrame 7 0 0 2147483647)]) := by decide +kernel
  have hproducer : (recordSetProducer castagnoli (sampleFrame 7 0 0 2147483647)).run = some (.ok (some ⟨7, 0⟩)) := by
    decide +kernel
  have hsequence : (ofFrame (sampleFrame 7 0 0 2147483647)).baseSequence = 0 := by decide +kernel
  obtain ⟨⟨tr, s⟩, hx, hstate⟩ := Option.bind_eq_some_iff.1 hstate
  obtain ⟨state, hlookup, hfacts⟩ := Option.map_eq_some_iff.1 hstate
  obtain ⟨hepoch, hnext⟩ := Prod.mk.inj hfacts
  rw [hx, Option.bind_some] at happend
  obtain ⟨⟨out, s'⟩, happend, hout⟩ := Option.map_eq_some_iff.1 happend
  obtain ⟨result, hresult, happended⟩ := Option.map_eq_some_iff.1 hout
  have hrun := (Machine.exec_path hx).1
  cases append_step (LogInv.of_run hrun).range happend with
  | rejected => cases hresult
  | appended =>
    rw [← Option.some.inj hresult] at happended
    cases happended
  | replayed =>
    exact ⟨tr, s, state, _, hx, hrun, hlookup, hset, hepoch.symm ▸ hproducer, ⟨_, hsequence.trans hnext.symm, rfl⟩,
      happend, rfl⟩

/-- In the middle of the turn the window is no obstacle. -/
theorem due_record_set_is_stored_half_turn : ∃ tr s,
    (partitionLog castagnoli).exec .default [sampleFrame 7 0 0 2147483647] = some (tr, s) ∧
    ((∃ result s', append castagnoli s (sampleFrame 7 0 2147483647 1) = some (.ok result, s') ∧ result.appended = true) ∨
      append castagnoli s (sampleFrame 7 0 2147483647 1) = some (.error .offsetOverflow, s)) := by
  have hstate : ((partitionLog castagnoli).exec .default [sampleFrame 7 0 0 2147483647]).bind (fun r =>
      (r.2.producerStates.lookup 7).map fun state =>
        (state.producerEpoch, state.nextSequence, state.recent.map (·.encodedBatches))) =
      some (0, 2147483647, [[sampleFrame 7 0 0 2147483647]]) := by decide +kernel
  have hset : (validateRecordSet castagnoli (sampleFrame 7 0 2147483647 1)).run =
      some (.ok [ofFrame (sampleFrame 7 0 2147483647 1)]) := by decide +kernel
  have hproducer : (recordSetProducer castagnoli (sampleFrame 7 0 2147483647 1)).run = some (.ok (some ⟨7, 0⟩)) := by
    decide +kernel
  have hsequence : (ofFrame (sampleFrame 7 0 2147483647 1)).baseSequence = 2147483647 := by decide +kernel
  have hother : [sampleFrame 7 0 0 2147483647] ≠ [sampleFrame 7 0 2147483647 1] := by decide +kernel
  obtain ⟨⟨tr, s⟩, hx, hstate⟩ := Option.bind_eq_some_iff.1 hstate
  obtain ⟨state, hlookup, hfacts⟩ := Option.map_eq_some_iff.1 hstate
  obtain ⟨hepoch, hfacts⟩ := Prod.mk.inj hfacts
  obtain ⟨hnext, hrecent⟩ := Prod.mk.inj hfacts
  refine ⟨tr, s, hx, (due_record_set_is_stored castagnoli tr s (Machine.exec_path hx).1 7 state hlookup
    (sampleFrame 7 0 2147483647 1) [ofFrame (sampleFrame 7 0 2147483647 1)] hset (hepoch.symm ▸ hproducer)
    ⟨_, hsequence.trans hnext.symm, rfl⟩).2 ?_⟩
  rintro ⟨before, entry, after, hsplit, hbytes, -⟩
  have hmem : entry.encodedBatches ∈ state.recent.map (·.encodedBatches) := by
    rw [hsplit]
    simp
  rw [hrecent, List.mem_singleton] at hmem
  exact hother (hmem.symm.trans hbytes)

end MemKafka
