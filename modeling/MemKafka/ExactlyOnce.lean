import MemKafka.Unwrapped

/-!
# Exactly-once delivery

An idempotent producer numbers the record sets it sends (`Outbox`) and calls `append` with them as often as it has to: in
any order, with any repetition, between the calls of everybody else. As long as no call comes a whole turn of the sequence
too late or too early (`OnTime`), the log takes each record set once, in the order of the outbox, and every call that
succeeds is answered with the offsets of that one append (`Delivered`).
-/

namespace MemKafka
open Kit Outcome

/-- The batches of a record set, none if it is not one. -/
def batchesOf (crc32c : Bytes → UInt32) (records : Bytes) : List ValidatedBatch :=
  match (validateRecordSet crc32c records).run with
  | some (.ok validated) => validated
  | _ => []

/-- The record sets of an idempotent producer, in the order of their sequences. -/
structure Outbox (crc32c : Bytes → UInt32) (producer : RecordSetProducer) (sent : List Bytes) : Prop where
  idempotent : producer.producerId ≠ noProducerId
  produced : ∀ records ∈ sent, recordSetProducer crc32c records = ok (some producer)
  sequences : ∃ stop, Links ValidatedBatch.baseSequence (fun v => (v.baseSequence + v.recordCount) % 2147483648) 0
    (sent.flatMap (batchesOf crc32c)) stop
  distinct : sent.Nodup

/-- How many records come before the record set at index `i`. -/
def sentBefore (crc32c : Bytes → UInt32) (sent : List Bytes) (i : Nat) : Int :=
  recordSum ((sent.take i).flatMap (batchesOf crc32c))

/-- The calls of `tr` that have stored a record set of producer `p`, with their results. -/
def accepted (crc32c : Bytes → UInt32) (p : Int) (tr : List AppendEvent) : List (Bytes × AppendResult) :=
  (tr.filter fun e => producedBy crc32c p e.label).filterMap fun e => (appendedResult e.out).map fun r => (e.label, r)

/-- Every call of producer `p` is one of a record set of its outbox, at less than a turn of the sequence from what is stored
at that moment. -/
def OnTime (crc32c : Bytes → UInt32) (p : Int) (sent : List Bytes) (tr : List AppendEvent) : Prop :=
  ∀ before e after, tr = before ++ e :: after → producedBy crc32c p e.label = true →
    ∃ i, sent[i]? = some e.label ∧ sentBefore crc32c sent i - producerRecords crc32c p before < 2147483648 ∧
      producerRecords crc32c p before - sentBefore crc32c sent i < 2147483648

/-- The batches of a record set stand in the log from `r.baseOffset` on. -/
def PlacedAt (crc32c : Bytes → UInt32) (batches : List StoredBatch) (records : Bytes) (r : AppendResult) : Prop :=
  ∃ before after, batches = before ++ storedBatches r.baseOffset (batchesOf crc32c records) ++ after

/-- What the log has of the outbox `sent`. -/
structure Delivered (crc32c : Bytes → UInt32) (producer : RecordSetProducer) (sent : List Bytes) (tr : List AppendEvent)
    (s : PartitionLogInner) : Prop where
  inOrder : (accepted crc32c producer.producerId tr).map Prod.fst <+: sent
  stored : List.Forall₂ StoredBatch.Holds (producerBatches producer.producerId s.batches)
    (((accepted crc32c producer.producerId tr).map Prod.fst).flatMap fun records => (batchesOf crc32c records).map (·.bytes))
  counted : producerRecords crc32c producer.producerId tr =
    sentBefore crc32c sent (accepted crc32c producer.producerId tr).length
  placed : ∀ x ∈ accepted crc32c producer.producerId tr, PlacedAt crc32c s.batches x.1 x.2
  epoch : ∀ state, s.producerStates.lookup producer.producerId = some state → state.producerEpoch = producer.producerEpoch
  window : ∀ state, s.producerStates.lookup producer.producerId = some state → ∀ entry ∈ state.recent,
    ∃ x ∈ accepted crc32c producer.producerId tr, entry.encodedBatches = (batchesOf crc32c x.1).map (·.bytes) ∧
      entry.result = x.2
  answered : ∀ e ∈ tr, producedBy crc32c producer.producerId e.label = true → ∀ r, e.out = .ok r →
    ∃ x ∈ accepted crc32c producer.producerId tr, x.1 = e.label ∧ r = { x.2 with appended := r.appended }

/-- A list that starts another one, with the next element of that behind it. -/
theorem snoc_prefix {α : Type} {l l' : List α} {a : α} (h : l <+: l') (ha : l'[l.length]? = some a) : l ++ [a] <+: l' := by
  obtain ⟨t, rfl⟩ := h
  rw [List.getElem?_append_right le_rfl, Nat.sub_self] at ha
  cases t with
  | nil => cases ha
  | cons b t =>
    obtain rfl : b = a := Option.some.inj ha
    exact ⟨t, by simp⟩

section
variable {crc32c : Bytes → UInt32} {records : Bytes} {vs : List ValidatedBatch} {producer : RecordSetProducer} {p : Int}
  {sent : List Bytes} {tr : List AppendEvent} {e : AppendEvent} {request : PreparedAppend}

theorem batchesOf_eq (h : IsRecordSet crc32c records vs) : batchesOf crc32c records = vs := by
  rw [batchesOf, validateRecordSet_eq_ok.2 h]
  rfl

theorem set_of_producer (h : recordSetProducer crc32c records = ok (some producer)) :
    IsRecordSet crc32c records (batchesOf crc32c records) := by
  unfold recordSetProducer at h
  obtain ⟨vs, hvs, -⟩ := bind_eq_ok.1 h
  have hset := validateRecordSet_eq_ok.1 hvs
  rwa [batchesOf_eq hset]

/-- Record sets with the same batches are the same bytes. -/
theorem IsRecordSet.eq_of_bytes {records' : Bytes} {vs' : List ValidatedBatch} (h : IsRecordSet crc32c records vs)
    (h' : IsRecordSet crc32c records' vs') (hb : vs.map (·.bytes) = vs'.map (·.bytes)) : records = records' := by
  rw [← h.flatten, ← h'.flatten, hb]

theorem recordSum_append (vs ws : List ValidatedBatch) : recordSum (vs ++ ws) = recordSum vs + recordSum ws := by
  simp [recordSum]

theorem accepted_snoc (tr : List AppendEvent) (e : AppendEvent) :
    accepted crc32c p (tr ++ [e]) = accepted crc32c p tr ++
      (if producedBy crc32c p e.label then ((appendedResult e.out).map fun r => (e.label, r)).toList else []) := by
  unfold accepted
  by_cases hp : producedBy crc32c p e.label = true
  · cases hout : appendedResult e.out <;> simp [List.filter_append, hp, hout]
  · simp [List.filter_append, hp]

/-- A call that stores nothing of the producer. -/
theorem accepted_quiet (h : producedBy crc32c p e.label = false ∨ appendedResult e.out = none) :
    accepted crc32c p (tr ++ [e]) = accepted crc32c p tr := by
  rw [accepted_snoc]
  rcases h with h | h <;> simp [h]

theorem producerRecords_quiet (h : producedBy crc32c p e.label = false ∨ appendedResult e.out = none) :
    producerRecords crc32c p (tr ++ [e]) = producerRecords crc32c p tr := by
  rw [producerRecords_snoc, addedRecords]
  rcases h with h | h <;> simp [h]

theorem accepted_append {r : AppendResult} (hp : producedBy crc32c p e.label = true) (hout : appendedResult e.out = some r) :
    accepted crc32c p (tr ++ [e]) = accepted crc32c p tr ++ [(e.label, r)] := by
  rw [accepted_snoc, if_pos hp, hout]
  rfl

theorem mem_accepted_left {x : Bytes × AppendResult} (h : x ∈ accepted crc32c p tr) :
    x ∈ accepted crc32c p (tr ++ [e]) := by
  rw [accepted_snoc]
  exact List.mem_append_left _ h

/-! ### Positions in the outbox -/

/-- Behind contiguous batches the sequence has advanced by their records. -/
theorem sequences_stop {a stop : Int}
    (h : Links ValidatedBatch.baseSequence (fun v => (v.baseSequence + v.recordCount) % 2147483648) (a % 2147483648) vs stop) :
    stop = (a + recordSum vs) % 2147483648 := by
  induction vs generalizing a with
  | nil =>
    rw [recordSum_nil, Int.add_zero]
    exact h.symm
  | cons v vs ih =>
    obtain ⟨hstart, hrest⟩ := h
    rw [ih hrest, hstart, recordSum_cons]
    omega

namespace Outbox

theorem set (h : Outbox crc32c producer sent) (hmem : records ∈ sent) :
    IsRecordSet crc32c records (batchesOf crc32c records) :=
  set_of_producer (h.produced records hmem)

theorem sum_pos (h : Outbox crc32c producer sent) (hmem : records ∈ sent) : 1 ≤ recordSum (batchesOf crc32c records) := by
  have hset := h.set hmem
  obtain ⟨first, rest, hvs⟩ := List.exists_cons_of_ne_nil hset.ne_nil
  have hc := hset.count
  rw [hvs] at hc ⊢
  have hrest : 0 ≤ recordSum rest := recordSum_nonneg fun v hv => hc v (by simp [hv])
  have hfirst := hc first (by simp)
  rw [recordSum_cons]
  omega

theorem before_succ {i : Nat} (hi : sent[i]? = some records) :
    sentBefore crc32c sent (i + 1) = sentBefore crc32c sent i + recordSum (batchesOf crc32c records) := by
  rw [sentBefore, List.take_add_one, hi]
  simp [sentBefore, recordSum_append]

/-- Later record sets start later. -/
theorem before_lt (h : Outbox crc32c producer sent) {i j : Nat} (hij : i < j) (hj : j ≤ sent.length) :
    sentBefore crc32c sent i < sentBefore crc32c sent j := by
  induction j with
  | zero => omega
  | succ j ih =>
    have hj' : j < sent.length := by omega
    have hat : sent[j]? = some sent[j] := List.getElem?_eq_getElem hj'
    have hpos := h.sum_pos (List.getElem_mem hj')
    rw [before_succ hat]
    rcases Nat.lt_or_ge i j with hlt | hge
    · have := ih hlt (by omega)
      omega
    · obtain rfl : i = j := by omega
      omega

/-- Each record set starts at the sequence of the records before it. -/
theorem links_at (h : Outbox crc32c producer sent) {i : Nat} (hi : sent[i]? = some records) :
    ∃ stop, Links ValidatedBatch.baseSequence (fun v => (v.baseSequence + v.recordCount) % 2147483648)
      (sentBefore crc32c sent i % 2147483648) (batchesOf crc32c records) stop := by
  obtain ⟨stop, hlinks⟩ := h.sequences
  obtain ⟨hlt, rfl⟩ := List.getElem?_eq_some_iff.1 hi
  rw [← List.take_append_drop i sent, List.drop_eq_getElem_cons hlt, List.flatMap_append, List.flatMap_cons] at hlinks
  obtain ⟨m, hbefore, hlinks⟩ := Links.append_iff.1 hlinks
  obtain ⟨m', hat, -⟩ := Links.append_iff.1 hlinks
  have hm : m = sentBefore crc32c sent i % 2147483648 := by
    have hstop := sequences_stop (a := 0) hbefore
    rwa [Int.zero_add] at hstop
  exact ⟨m', hm ▸ hat⟩

end Outbox

/-! ### One call -/

theorem PlacedAt.mono {batches more : List StoredBatch} {r : AppendResult} (h : PlacedAt crc32c batches records r) :
    PlacedAt crc32c (batches ++ more) records r := by
  obtain ⟨before, after, rfl⟩ := h
  exact ⟨before, after ++ more, by simp⟩

variable {s s' : PartitionLogInner}

/-- A call of someone else leaves a producer's batches and state as they are. -/
theorem appendTo_other (hq : IsPrepared crc32c records request) {next : Option Int} (ha : admission s request = .fresh next)
    (hid : p ≠ noProducerId) (hp : producedBy crc32c p records = false) :
    producerBatches p (appendTo s request next).batches = producerBatches p s.batches ∧
      (appendTo s request next).producerStates.lookup p = s.producerStates.lookup p := by
  have hstores := storedBatches_stores (fun v hv => (hq.set.frames v hv).2) s.nextOffset
  have hsplit : producerBatches p (appendTo s request next).batches =
      producerBatches p s.batches ++ producerBatches p (storedBatches s.nextOffset request.validated) := List.filter_append ..
  rw [hsplit]
  rcases admission_fresh ha with ⟨hprod, rfl⟩ | ⟨producer, expected, hprod, -, -, rfl⟩
  · have hnone : ∀ v ∈ request.validated, v.producerId = noProducerId := fun v hv =>
      setProducer_eq_none ((hq.producer v hv).symm.trans hprod)
    rw [producerBatches_stored hstores hnone, if_neg fun h => hid h.symm, List.append_nil, appendTo_states_none hprod]
    exact ⟨rfl, rfl⟩
  · have hother : producer.producerId ≠ p := by
      intro hpp
      rw [hq.producedBy_eq hprod, hpp] at hp
      simp at hp
    have hsome : ∀ v ∈ request.validated, v.producerId = producer.producerId := fun v hv =>
      (setProducer_eq_some ((hq.producer v hv).symm.trans hprod)).1
    rw [producerBatches_stored hstores hsome, if_neg hother, List.append_nil, appendTo_states_some hprod,
      lookup_recordAppend, if_neg fun h => hother h.symm]
    exact ⟨rfl, rfl⟩

/-- A call that stores nothing of the producer. -/
theorem Delivered.quiet (h : Delivered crc32c producer sent tr s) {out : Except AppendError AppendResult}
    (hquiet : producedBy crc32c producer.producerId records = false ∨ appendedResult out = none)
    (hmore : ∃ more, s'.batches = s.batches ++ more)
    (hbatches : producerBatches producer.producerId s'.batches = producerBatches producer.producerId s.batches)
    (hstate : s'.producerStates.lookup producer.producerId = s.producerStates.lookup producer.producerId)
    (hanswer : producedBy crc32c producer.producerId records = true → ∀ r, out = .ok r →
      ∃ x ∈ accepted crc32c producer.producerId tr, x.1 = records ∧ r = { x.2 with appended := r.appended }) :
    Delivered crc32c producer sent (tr ++ [⟨s, records, out, s'⟩]) s' := by
  have hacc : accepted crc32c producer.producerId (tr ++ [⟨s, records, out, s'⟩]) = accepted crc32c producer.producerId tr :=
    accepted_quiet hquiet
  obtain ⟨more, hmore⟩ := hmore
  refine ⟨?_, ?_, ?_, ?_, ?_, ?_, ?_⟩
  · rw [hacc]
    exact h.inOrder
  · rw [hacc, hbatches]
    exact h.stored
  · rw [hacc, producerRecords_quiet hquiet]
    exact h.counted
  · rw [hacc, hmore]
    exact fun x hx => (h.placed x hx).mono
  · rw [hstate]
    exact h.epoch
  · rw [hacc, hstate]
    exact h.window
  · rw [hacc]
    intro e he hp r hr
    rcases List.mem_append.1 he with he | he
    · exact h.answered e he hp r hr
    · obtain rfl := List.mem_singleton.1 he
      exact hanswer hp r hr

/-- A record set that is stored is the first one of the outbox that is not. -/
theorem Delivered.due (h : Delivered crc32c producer sent tr s) (ho : Outbox crc32c producer sent)
    (hcount : CountInv crc32c producer.producerId (producerRecords crc32c producer.producerId tr) s)
    (hq : IsPrepared crc32c records request) {expected : Int} (hexp : Expects s request producer expected)
    (hseq : validateSequences request.validated expected = .ok ()) {i : Nat} (hi : sent[i]? = some records)
    (hlate : sentBefore crc32c sent i - producerRecords crc32c producer.producerId tr < 2147483648)
    (hearly : producerRecords crc32c producer.producerId tr - sentBefore crc32c sent i < 2147483648) :
    i = (accepted crc32c producer.producerId tr).length := by
  obtain ⟨hexpected, -⟩ := hcount.expects hexp
  obtain ⟨stop, hlinks⟩ := ho.links_at hi
  obtain ⟨first, rest, hval, -⟩ := hq.head
  have hsame : sentBefore crc32c sent i % 2147483648 = producerRecords crc32c producer.producerId tr % 2147483648 := by
    have hchecked := validateSequences_ok hseq
    rw [hval] at hchecked
    rw [batchesOf_eq hq.set, hval] at hlinks
    rw [← hlinks.1, hchecked.1, hexpected]
  rw [h.counted] at hsame hlate hearly
  have hle : (accepted crc32c producer.producerId tr).length ≤ sent.length := by
    have := h.inOrder.length_le
    rwa [List.length_map] at this
  obtain ⟨hlt, -⟩ := List.getElem?_eq_some_iff.1 hi
  rcases Nat.lt_trichotomy i (accepted crc32c producer.producerId tr).length with hlt' | heq | hgt
  · have := ho.before_lt hlt' hle
    omega
  · exact heq
  · have := ho.before_lt hgt (Nat.le_of_lt hlt)
    omega

/-- The record set that is due is stored behind the others. -/
theorem Delivered.extend (h : Delivered crc32c producer sent tr s) (hq : IsPrepared crc32c records request)
    (hp : request.producer = some producer) {expected : Int} (hexp : Expects s request producer expected)
    (hdue : sent[(accepted crc32c producer.producerId tr).length]? = some records) :
    Delivered crc32c producer sent
      (tr ++ [⟨s, records, .ok ⟨s.nextOffset, s.nextOffset + request.totalRecordCount - 1, request.totalRecordCount, true⟩,
        appendTo s request (some (nextSequence request.baseSequence request.totalRecordCount))⟩])
      (appendTo s request (some (nextSequence request.baseSequence request.totalRecordCount))) := by
  have hval : batchesOf crc32c records = request.validated := batchesOf_eq hq.set
  have hmine : producedBy crc32c producer.producerId records = true := by
    rw [hq.producedBy_eq hp]
    exact decide_eq_true rfl
  have hacc := @accepted_append crc32c producer.producerId tr ⟨s, records, .ok ⟨s.nextOffset, s.nextOffset + request.totalRecordCount - 1,
    request.totalRecordCount, true⟩, appendTo s request (some (nextSequence request.baseSequence request.totalRecordCount))⟩ _
    hmine rfl
  have hstores := storedBatches_stores (fun v hv => (hq.set.frames v hv).2) s.nextOffset
  have hbatches : producerBatches producer.producerId (s.batches ++ storedBatches s.nextOffset request.validated) =
      producerBatches producer.producerId s.batches ++ storedBatches s.nextOffset request.validated := by
    have hsome : ∀ v ∈ request.validated, v.producerId = producer.producerId := fun v hv =>
      (setProducer_eq_some ((hq.producer v hv).symm.trans hp)).1
    have hsplit := List.filter_append (p := fun b : StoredBatch => decide (frameProducerId b.bytes = producer.producerId))
      s.batches (storedBatches s.nextOffset request.validated)
    have hown := producerBatches_stored (p := producer.producerId) hstores hsome
    rw [if_pos rfl] at hown
    exact hsplit.trans (congrArg _ hown)
  have hlookup : ∀ state', (appendTo s request (some (nextSequence request.baseSequence request.totalRecordCount))
      ).producerStates.lookup producer.producerId = some state' → state'.producerEpoch = producer.producerEpoch ∧
      ∀ entry ∈ state'.recent, entry = appendEntry s request ∨
        ∃ state, s.producerStates.lookup producer.producerId = some state ∧ entry ∈ state.recent := by
    intro state' hs'
    rcases window_appendTo hp _ hs' with ⟨hne, -⟩ | ⟨-, hrecent, hepoch⟩
    · exact absurd rfl hne
    rcases hexp with ⟨hnone, -⟩ | ⟨state, hsome, hsame, -⟩
    · rw [hnone] at hrecent hepoch
      refine ⟨hepoch, fun entry hentry => .inl ?_⟩
      rw [hrecent] at hentry
      exact List.mem_singleton.1 hentry
    · rw [hsome] at hrecent hepoch
      refine ⟨hepoch.trans hsame, fun entry hentry => ?_⟩
      rw [hrecent] at hentry
      rcases List.mem_append.1 hentry with hentry | hentry
      · exact .inr ⟨state, hsome, (evict_sublist _).subset hentry⟩
      · exact .inl (List.mem_singleton.1 hentry)
  refine ⟨?inOrder, ?stored, ?counted, ?placed, ?epoch, ?window, ?answered⟩
  case inOrder =>
    rw [hacc, List.map_append, List.map_singleton]
    exact snoc_prefix h.inOrder (by rwa [List.length_map])
  case stored =>
    rw [hacc, List.map_append, List.flatMap_append, List.map_singleton, List.flatMap_singleton, hval]
    show List.Forall₂ StoredBatch.Holds (producerBatches producer.producerId
      (s.batches ++ storedBatches s.nextOffset request.validated)) _
    rw [hbatches]
    exact List.rel_append h.stored (storedBatches_holds hq.set.long)
  case counted =>
    rw [hacc, List.length_append, List.length_singleton, Outbox.before_succ hdue, producerRecords_snoc, h.counted, hval]
    simp [addedRecords, hmine, appendedResult, hq.total]
  case placed =>
    rw [hacc]
    intro x hx
    rcases List.mem_append.1 hx with hx | hx
    · exact (h.placed x hx).mono
    · obtain rfl := List.mem_singleton.1 hx
      exact ⟨s.batches, [], by rw [hval, List.append_nil]; rfl⟩
  case epoch => exact fun state' hs' => (hlookup state' hs').1
  case window =>
    rw [hacc]
    intro state' hs' entry hentry
    rcases (hlookup state' hs').2 entry hentry with rfl | ⟨state, hs, hentry⟩
    · exact ⟨_, List.mem_append_right _ (List.mem_singleton_self _), hq.encoded.trans (congrArg _ hval.symm), rfl⟩
    · obtain ⟨x, hx, hbytes, hresult⟩ := h.window state hs entry hentry
      exact ⟨x, List.mem_append_left _ hx, hbytes, hresult⟩
  case answered =>
    rw [hacc]
    intro e he hpe r hr
    rcases List.mem_append.1 he with he | he
    · obtain ⟨x, hx, hlabel, hr⟩ := h.answered e he hpe r hr
      exact ⟨x, List.mem_append_left _ hx, hlabel, hr⟩
    · obtain rfl := List.mem_singleton.1 he
      obtain rfl := Except.ok.inj hr
      exact ⟨_, List.mem_append_right _ (List.mem_singleton_self _), rfl, rfl⟩
theorem Delivered.step (h : Delivered crc32c producer sent tr s) (ho : Outbox crc32c producer sent)
    (hcount : CountInv crc32c producer.producerId (producerRecords crc32c producer.producerId tr) s)
    {out : Except AppendError AppendResult}
    (htimely : producedBy crc32c producer.producerId records = true → ∃ i, sent[i]? = some records ∧
      sentBefore crc32c sent i - producerRecords crc32c producer.producerId tr < 2147483648 ∧
      producerRecords crc32c producer.producerId tr - sentBefore crc32c sent i < 2147483648)
    (hs : AppendStep crc32c s records out s') : Delivered crc32c producer sent (tr ++ [⟨s, records, out, s'⟩]) s' := by
  cases hs with
  | rejected error => exact h.quiet (.inr rfl) ⟨[], by simp⟩ rfl rfl fun _ r hr => by cases hr
  | replayed hq hp hstate hepoch hfind =>
    rename_i request producer' state recent
    refine h.quiet (.inr rfl) ⟨[], by simp⟩ rfl rfl fun hmine r hr => ?_
    rw [hq.producedBy_eq hp] at hmine
    rw [of_decide_eq_true hmine] at hstate
    obtain ⟨x, hx, hbytes, hresult⟩ := h.window state hstate recent (List.mem_of_find?_eq_some hfind)
    have hretry : recent.isRetry request = true := List.find?_some hfind
    obtain ⟨-, -, hencoded⟩ := of_decide_eq_true hretry
    obtain rfl := Except.ok.inj hr
    refine ⟨x, hx, ?_, by rw [hresult]⟩
    -- the entry has the bytes of the record set that it was made for
    refine (ho.set (h.inOrder.subset (List.mem_map_of_mem hx))).eq_of_bytes hq.set ?_
    rw [← hbytes, hencoded, hq.encoded]
  | appended hq ha hle =>
    rename_i request next
    by_cases hmine : producedBy crc32c producer.producerId records = true
    · obtain ⟨i, hi, hlate, hearly⟩ := htimely hmine
      have hproducer := hq.recordSetProducer_eq.symm.trans (ho.produced records (List.mem_of_getElem? hi))
      have hp : request.producer = some producer := ok_inj.1 hproducer
      rcases admission_fresh ha with ⟨hnone, -⟩ | ⟨producer', expected, hsome, hexp, hseq, rfl⟩
      · rw [hp] at hnone
        cases hnone
      obtain rfl : producer' = producer := Option.some.inj (hsome.symm.trans hp)
      have hdue := h.due ho hcount hq hexp hseq hi hlate hearly
      exact h.extend hq hp hexp (hdue ▸ hi)
    · have hother : producedBy crc32c producer.producerId records = false := Bool.eq_false_iff.2 hmine
      obtain ⟨hbatches, hstate⟩ := appendTo_other hq ha ho.idempotent hother
      exact h.quiet (.inl hother) ⟨_, rfl⟩ hbatches hstate fun hp => absurd hp hmine

/-- The first record set of a producer, with its sequences from 0. -/
theorem append_first (hr : InRange s) (hprep : prepareAppend crc32c records = ok request) (hp : request.producer = some producer)
    (hs : s.producerStates.lookup producer.producerId = none) {stop : Int}
    (h : Links ValidatedBatch.baseSequence (fun v => (v.baseSequence + v.recordCount) % 2147483648) 0 request.validated stop) :
    (∃ result s', append crc32c s records = some (.ok result, s') ∧ result.appended = true) ∨
      append crc32c s records = some (.error .offsetOverflow, s) := by
  have hq := prepareAppend_ok hprep
  obtain ⟨first, rest, hval, hbase⟩ := hq.head
  have hzero : request.baseSequence = 0 := by
    rw [hval] at h
    rw [hbase, h.1]
  have hadmission : admission s request =
      .fresh (some (nextSequence request.baseSequence request.totalRecordCount)) := by
    unfold admission
    simp only [hp, hs, hzero, ne_eq, not_true_eq_false, if_false]
    rw [checkSequences, validateSequences_of_links (hq.sequence_nonneg hp) hq.set.count h, hzero]
  rw [append_eq hr, appendPure, hprep]
  simp only [ok, ExceptT.run, hadmission]
  split
  · exact .inl ⟨_, _, rfl, rfl⟩
  · exact .inr rfl

/-- The next record set of the outbox is stored when it is sent. -/
theorem Delivered.next (h : Delivered crc32c producer sent tr s) (ho : Outbox crc32c producer sent)
    (hcount : CountInv crc32c producer.producerId (producerRecords crc32c producer.producerId tr) s) (hr : InRange s)
    (hdue : sent[(accepted crc32c producer.producerId tr).length]? = some records) :
    (∃ result s', append crc32c s records = some (.ok result, s') ∧ result.appended = true) ∨
      append crc32c s records = some (.error .offsetOverflow, s) := by
  have hmem := List.mem_of_getElem? hdue
  have hset := ho.set hmem
  have hvs := validateRecordSet_eq_ok.2 hset
  by_cases hle : recordSum (batchesOf crc32c records) ≤ i32Max
  · obtain ⟨request, hprep, hq, hval, hp⟩ := prepared_of_producer hvs (ho.produced records hmem) hle
    obtain ⟨stop, hlinks⟩ := ho.links_at hdue
    rw [← hval, ← h.counted] at hlinks
    unfold CountInv at hcount
    cases hs : s.producerStates.lookup producer.producerId with
    | none =>
      rw [hs] at hcount
      rw [show producerRecords crc32c producer.producerId tr = 0 from hcount] at hlinks
      exact append_first hr hprep hp hs hlinks
    | some state =>
      rw [hs] at hcount
      rw [← Counted.next hcount] at hlinks
      refine append_due hr hprep hp hs (h.epoch state hs) ?_ (hq.sequence_nonneg hp) hq.set.count hlinks
      refine List.find?_eq_none.2 fun entry hentry hretry => ?_
      obtain ⟨-, -, hencoded⟩ := of_decide_eq_true hretry
      obtain ⟨x, hx, hbytes, -⟩ := h.window state hs entry hentry
      -- a retry would be one of a record set that is in the outbox twice
      have hfirst := List.mem_map_of_mem (f := Prod.fst) hx
      have hsame : x.1 = records :=
        (ho.set (h.inOrder.subset hfirst)).eq_of_bytes hq.set (hbytes.symm.trans (hencoded.trans hq.encoded))
      obtain ⟨rest, hrest⟩ := h.inOrder
      rw [← hrest, List.getElem?_append_right (by simp), List.length_map, Nat.sub_self] at hdue
      have hdistinct := ho.distinct
      rw [← hrest] at hdistinct
      exact (List.nodup_append.1 hdistinct).2.2 x.1 hfirst records (List.mem_of_getElem? hdue) hsame
  · right
    rw [append, prepareAppend, hvs, ok_bind, totalRecordCount_eq hset.count, if_neg hle]
    rfl

theorem Delivered.start (crc32c : Bytes → UInt32) (producer : RecordSetProducer) (sent : List Bytes) :
    Delivered crc32c producer sent [] .default where
  inOrder := List.nil_prefix
  stored := .nil
  counted := rfl
  placed := fun x hx => by cases hx
  epoch := fun state hs => by cases hs
  window := fun state hs => by cases hs
  answered := fun e he => by cases he

theorem OnTime.front {tr' : List AppendEvent} (h : OnTime crc32c p sent (tr ++ tr')) : OnTime crc32c p sent tr :=
  fun before e after htr hp => h before e (after ++ tr') (by simp [htr]) hp

end

theorem Delivered.of_run {crc32c : Bytes → UInt32} {producer : RecordSetProducer} {sent : List Bytes}
    {tr : List AppendEvent} {s : PartitionLogInner} (ho : Outbox crc32c producer sent)
    (h : (partitionLog crc32c).Run tr s) (htimely : OnTime crc32c producer.producerId sent tr) :
    Delivered crc32c producer sent tr s := by
  revert htimely
  refine Machine.Run.induction (M := partitionLog crc32c)
    (P := fun tr s => OnTime crc32c producer.producerId sent tr → Delivered crc32c producer sent tr s)
    (fun _ => Delivered.start crc32c producer sent) ?_ h
  rintro tr ⟨s₁, records, out, s₂⟩ hrun ih he htimely
  change append crc32c s₁ records = some (out, s₂) at he
  exact (ih htimely.front).step ho (CountInv.of_run hrun _) (htimely tr _ [] rfl) (append_step (LogInv.of_run hrun).range he)

end MemKafka
