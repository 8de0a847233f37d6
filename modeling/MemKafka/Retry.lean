import MemKafka.Sequences

/-!
# The retry window

Every producer keeps its last five stored record sets. Two entries of a window never have the same
encoded batches (an equal one would have been replayed, not stored), and an entry leaves only when a
fifth newer one is stored. So a retry of a record set with at most four newer ones behind it finds its
own entry and gets its own result back.
-/

namespace MemKafka
open Kit Outcome

def frameFingerprint (bs : Bytes) : RetryFingerprint := ⟨frameBatchLength bs, frameRecordCount bs, frameCrc bs⟩

/-- Two entries a retry could not tell apart. -/
def RecentAppend.SameRequest (a b : RecentAppend) : Prop :=
  a.baseSequence = b.baseSequence ∧ a.encodedBatches = b.encodedBatches

/-- An entry of the window of a log with the batches `batches`. -/
structure EntryOk (crc32c : Bytes → UInt32) (batches : List StoredBatch) (entry : RecentAppend) : Prop where
  fingerprints : entry.fingerprints = entry.encodedBatches.map frameFingerprint
  stored : ∃ vs before after, vs ≠ [] ∧ (∀ v ∈ vs, IsFrame crc32c v.bytes ∧ v = ofFrame v.bytes) ∧
    entry.encodedBatches = vs.map (·.bytes) ∧ batches = before ++ storedBatches entry.result.baseOffset vs ++ after

theorem EntryOk.extend {crc32c : Bytes → UInt32} {batches : List StoredBatch} {entry : RecentAppend}
    (h : EntryOk crc32c batches entry) (more : List StoredBatch) : EntryOk crc32c (batches ++ more) entry := by
  obtain ⟨hf, vs, before, after, hne, hv, he, hb⟩ := h
  exact ⟨hf, vs, before, after ++ more, hne, hv, he, by rw [hb]; simp⟩

structure WindowOk (crc32c : Bytes → UInt32) (batches : List StoredBatch) (recent : List RecentAppend) : Prop where
  distinct : recent.Pairwise fun a b => ¬ a.SameRequest b
  entries : ∀ entry ∈ recent, EntryOk crc32c batches entry

/-! ### Eviction -/

theorem evict_eq (recent : List RecentAppend) : evict recent = recent.drop (recent.length - 4) := by
  induction recent with
  | nil => rfl
  | cons entry recent ih =>
    unfold evict
    rw [show recentAppendLimit = 5 from rfl]
    split
    · rename_i h
      rw [List.length_cons] at h ⊢
      rw [ih, show recent.length + 1 - 4 = recent.length - 4 + 1 by omega, List.drop_succ_cons]
    · rename_i h
      rw [List.length_cons] at h ⊢
      rw [show recent.length + 1 - 4 = 0 by omega, List.drop_zero]

theorem evict_sublist (recent : List RecentAppend) : (evict recent).Sublist recent := by
  rw [evict_eq]; exact List.drop_sublist ..

/-- An entry with at most three newer ones survives the eviction. -/
theorem evict_append_cons (before after : List RecentAppend) (entry : RecentAppend) (h : after.length ≤ 3) :
    ∃ before', evict (before ++ entry :: after) = before' ++ entry :: after := by
  rw [evict_eq]
  refine ⟨before.drop ((before ++ entry :: after).length - 4), ?_⟩
  rw [List.drop_append_of_le_length]
  rw [List.length_append, List.length_cons]; omega

/-! ### The window invariant -/

def WindowInv (crc32c : Bytes → UInt32) (inner : PartitionLogInner) : Prop :=
  ∀ p state, inner.producerStates.lookup p = some state → WindowOk crc32c inner.batches state.recent

section
variable {crc32c : Bytes → UInt32} {inner inner' : PartitionLogInner} {records : Bytes} {request : PreparedAppend}
  {out : Except AppendError AppendResult} {next : Option Int} {producer : RecordSetProducer}

theorem IsPrepared.fingerprints_eq (h : IsPrepared crc32c records request) :
    request.fingerprints = request.encodedBatches.map frameFingerprint := by
  rw [h.fingerprints, h.encoded, List.map_map]
  refine List.map_congr_left ?_
  intro v hv
  have hof := (h.set.frames v hv).2
  show fingerprint v = frameFingerprint v.bytes
  rw [hof]; rfl

/-- On an entry of a window the fingerprints add nothing to the encoded batches. -/
theorem isRetry_iff (hq : IsPrepared crc32c records request) {batches : List StoredBatch} {entry : RecentAppend}
    (he : EntryOk crc32c batches entry) :
    entry.isRetry request = true ↔
      entry.baseSequence = request.baseSequence ∧ entry.encodedBatches = request.encodedBatches := by
  unfold RecentAppend.isRetry
  rw [decide_eq_true_eq]
  constructor
  · rintro ⟨h1, -, h2⟩; exact ⟨h1, h2⟩
  · rintro ⟨h1, h2⟩; exact ⟨h1, by rw [he.fingerprints, hq.fingerprints_eq, h2], h2⟩

theorem EntryOk.appendEntry (hq : IsPrepared crc32c records request) :
    EntryOk crc32c (appendTo inner request next).batches (appendEntry inner request) where
  fingerprints := hq.fingerprints_eq
  stored := ⟨request.validated, inner.batches, [], hq.set.ne_nil, hq.set.frames, hq.encoded, by rw [List.append_nil]; rfl⟩

/-- The window of a producer after a call of it that stored its record set. -/
theorem window_appendTo (hp : request.producer = some producer) (n : Int) {p : Int} {state' : ProducerPartitionState}
    (h : (appendTo inner request (some n)).producerStates.lookup p = some state') :
    (p ≠ producer.producerId ∧ inner.producerStates.lookup p = some state') ∨
    (p = producer.producerId ∧ state'.recent =
        evict ((inner.producerStates.lookup p).getD ⟨producer.producerEpoch, n, []⟩).recent ++ [appendEntry inner request] ∧
      state'.producerEpoch = ((inner.producerStates.lookup p).getD ⟨producer.producerEpoch, n, []⟩).producerEpoch) := by
  rw [appendTo_states_some hp, lookup_recordAppend] at h
  split at h
  · refine .inr ⟨‹_›, ?_⟩
    simp only [Option.some.injEq] at h
    rw [← h]; exact ⟨rfl, rfl⟩
  · exact .inl ⟨‹_›, h⟩

theorem WindowInv.appendTo (h : WindowInv crc32c inner) (hq : IsPrepared crc32c records request)
    (ha : admission inner request = .fresh next) : WindowInv crc32c (appendTo inner request next) := by
  have hbatches : (MemKafka.appendTo inner request next).batches =
    inner.batches ++ storedBatches inner.nextOffset request.validated := rfl
  intro p state' hs
  rcases admission_fresh ha with ⟨hprod, rfl⟩ | ⟨producer, expected, hprod, hexp, -, rfl⟩
  · rw [appendTo_states_none hprod] at hs
    obtain ⟨hd, he⟩ := h p state' hs
    exact ⟨hd, fun entry hentry => (he entry hentry).extend _⟩
  rcases window_appendTo hprod _ hs with ⟨-, hs⟩ | ⟨hpp, hrecent, -⟩
  · obtain ⟨hd, he⟩ := h p state' hs
    exact ⟨hd, fun entry hentry => (he entry hentry).extend _⟩
  rw [hrecent]
  rcases hexp with ⟨hnone, -⟩ | ⟨state, hsome, -, hfind, -⟩
  · rw [hpp, hnone]
    refine ⟨List.pairwise_singleton .., ?_⟩
    intro entry hentry
    obtain rfl : entry = appendEntry inner request := List.mem_singleton.1 hentry
    exact EntryOk.appendEntry hq
  · rw [hpp, hsome]
    have old := h _ state hsome
    refine ⟨List.pairwise_append.2 ⟨old.distinct.sublist (evict_sublist _), List.pairwise_singleton .., ?_⟩, ?_⟩
    · -- the retry lookup failed, so no entry has the new one's batches
      intro a ha b hb hsame
      rw [List.mem_singleton.1 hb] at hsame
      have ha := (evict_sublist _).subset ha
      have hno := List.find?_eq_none.1 hfind a ha
      exact hno ((isRetry_iff hq (old.entries a ha)).2 hsame)
    · intro entry hentry
      rcases List.mem_append.1 hentry with hentry | hentry
      · exact (old.entries entry ((evict_sublist _).subset hentry)).extend _
      · rw [List.mem_singleton.1 hentry]; exact EntryOk.appendEntry hq

theorem WindowInv.step (h : WindowInv crc32c inner) (inv : LogInv crc32c inner)
    (hs : append crc32c inner records = some (out, inner')) : WindowInv crc32c inner' := by
  cases append_step inv.range hs with
  | rejected => exact h
  | replayed => exact h
  | appended hq ha _ => exact h.appendTo hq ha

theorem WindowInv.default : WindowInv crc32c .default := fun p state h => by cases h

end

theorem WindowInv.of_run {crc32c : Bytes → UInt32} {tr : List AppendEvent} {s : PartitionLogInner}
    (h : (partitionLog crc32c).Run tr s) : WindowInv crc32c s :=
  Machine.Run.induction (M := partitionLog crc32c) (P := fun _ s => WindowInv crc32c s) WindowInv.default
    (fun _ _ hrun ih he => ih.step (LogInv.of_run hrun) he) h

/-! ### Entries that are kept -/

/-- The record set is one of producer `p`. -/
def producedBy (crc32c : Bytes → UInt32) (p : Int) (records : Bytes) : Bool :=
  match (recordSetProducer crc32c records).run with
  | some (.ok (some producer)) => producer.producerId = p
  | _ => false

/-- How many calls of `tr` stored a record set of producer `p`. -/
def producerAppends (crc32c : Bytes → UInt32) (p : Int) (tr : List AppendEvent) : Nat :=
  (tr.filter fun e => producedBy crc32c p e.label && (appendedResult e.out).isSome).length

/-- `entry` is in the window of producer `p`, with at most `k` newer entries. -/
def Kept (p epoch : Int) (entry : RecentAppend) (k : Nat) (inner : PartitionLogInner) : Prop :=
  ∃ state before after, inner.producerStates.lookup p = some state ∧ state.producerEpoch = epoch ∧
    state.recent = before ++ entry :: after ∧ after.length ≤ k

section
variable {crc32c : Bytes → UInt32} {inner inner' : PartitionLogInner} {records : Bytes} {request : PreparedAppend}
  {out : Except AppendError AppendResult} {next : Option Int} {producer : RecordSetProducer} {p epoch : Int}
  {entry : RecentAppend} {k : Nat}

theorem IsPrepared.recordSetProducer_eq (hq : IsPrepared crc32c records request) :
    recordSetProducer crc32c records = ok request.producer := by
  obtain ⟨first, rest, hv, -⟩ := hq.head
  unfold recordSetProducer
  refine bind_eq_ok.2 ⟨request.validated, validateRecordSet_eq_ok.2 hq.set, ?_⟩
  refine bind_eq_ok.2 ⟨first, by rw [orPanic_eq_ok, hv]; rfl, ?_⟩
  rw [hq.producer first (by simp [hv])]; rfl

theorem IsPrepared.producedBy_eq (hq : IsPrepared crc32c records request) (hp : request.producer = some producer) :
    producedBy crc32c p records = decide (producer.producerId = p) := by
  unfold producedBy
  rw [hq.recordSetProducer_eq, hp]; rfl

theorem Kept.step (hk : k ≤ 3) (h : Kept p epoch entry k inner) (hs : AppendStep crc32c inner records out inner')
    (hp : producedBy crc32c p records = true ∧ (appendedResult out).isSome = true) :
    Kept p epoch entry (k + 1) inner' := by
  obtain ⟨state, before, after, hl, he, hr, hlen⟩ := h
  cases hs with
  | rejected => exact ⟨state, before, after, hl, he, hr, by omega⟩
  | replayed => exact ⟨state, before, after, hl, he, hr, by omega⟩
  | appended hq ha hle =>
    rename_i request next
    rcases admission_fresh ha with ⟨hprod, rfl⟩ | ⟨producer, expected, hprod, hexp, -, rfl⟩
    · rw [← (appendTo_states_none hprod : (appendTo inner request none).producerStates = inner.producerStates)] at hl
      exact ⟨state, before, after, hl, he, hr, by omega⟩
    have hpp : p = producer.producerId := by
      have := hp.1
      rw [hq.producedBy_eq hprod] at this
      exact (of_decide_eq_true this).symm
    obtain ⟨before', hev⟩ := evict_append_cons before after entry (by omega)
    refine ⟨{ state with nextSequence := nextSequence request.baseSequence request.totalRecordCount,
                         recent := evict state.recent ++ [appendEntry inner request] },
      before', after ++ [appendEntry inner request], ?_, he, ?_, by simp; omega⟩
    · rw [appendTo_states_some hprod, lookup_recordAppend, if_pos hpp, hl]; rfl
    · show evict state.recent ++ [appendEntry inner request] = _
      rw [hr, hev]; simp

theorem Kept.step_other (h : Kept p epoch entry k inner) (hs : AppendStep crc32c inner records out inner')
    (hp : ¬ (producedBy crc32c p records = true ∧ (appendedResult out).isSome = true)) :
    Kept p epoch entry k inner' := by
  obtain ⟨state, before, after, hl, he, hr, hlen⟩ := h
  cases hs with
  | rejected => exact ⟨state, before, after, hl, he, hr, hlen⟩
  | replayed => exact ⟨state, before, after, hl, he, hr, hlen⟩
  | appended hq ha hle =>
    rename_i request next
    rcases admission_fresh ha with ⟨hprod, rfl⟩ | ⟨producer, expected, hprod, hexp, -, rfl⟩
    · rw [← (appendTo_states_none hprod : (appendTo inner request none).producerStates = inner.producerStates)] at hl
      exact ⟨state, before, after, hl, he, hr, hlen⟩
    have hpp : p ≠ producer.producerId := by
      intro hpp
      refine hp ⟨?_, rfl⟩
      rw [hq.producedBy_eq hprod]
      exact decide_eq_true hpp.symm
    refine ⟨state, before, after, ?_, he, hr, hlen⟩
    rw [appendTo_states_some hprod, lookup_recordAppend, if_neg hpp]; exact hl

end

/-- At most four newer record sets of the producer leave the entry in its window. -/
theorem Kept.path {crc32c : Bytes → UInt32} {tr : List AppendEvent} {s s' : PartitionLogInner} {p epoch : Int}
    {entry : RecentAppend} (hinv : LogInv crc32c s) (h : Kept p epoch entry 0 s)
    (hpath : (partitionLog crc32c).Path s tr s')
    (hle : producerAppends crc32c p tr ≤ 4) : Kept p epoch entry (producerAppends crc32c p tr) s' := by
  suffices LogInv crc32c s' ∧ (producerAppends crc32c p tr ≤ 4 → Kept p epoch entry (producerAppends crc32c p tr) s') from
    this.2 hle
  refine Machine.Path.induction (M := partitionLog crc32c)
    (P := fun tr s' => LogInv crc32c s' ∧ (producerAppends crc32c p tr ≤ 4 → Kept p epoch entry (producerAppends crc32c p tr) s'))
    ⟨hinv, fun _ => h⟩ ?_ hpath
  rintro tr ⟨s₁, records, out, s₂⟩ - ⟨inv, ih⟩ he
  change append crc32c s₁ records = some (out, s₂) at he
  change LogInv crc32c s₁ at inv
  refine ⟨inv.step he, ?_⟩
  intro hle
  have hstep := append_step inv.range he
  by_cases hp : producedBy crc32c p records = true ∧ (appendedResult out).isSome = true
  · have hn : producerAppends crc32c p (tr ++ [⟨s₁, records, out, s₂⟩]) = producerAppends crc32c p tr + 1 := by
      simp [producerAppends, List.filter_append, hp.1, hp.2]
    rw [hn] at hle ⊢
    exact (ih (by omega)).step (by omega) hstep hp
  · have hn : producerAppends crc32c p (tr ++ [⟨s₁, records, out, s₂⟩]) = producerAppends crc32c p tr := by
      have : (producedBy crc32c p records && (appendedResult out).isSome) = false := by
        rw [← Bool.not_eq_true, Bool.and_eq_true]; exact hp
      simp [producerAppends, List.filter_append, this]
    rw [hn] at hle ⊢
    exact (ih hle).step_other hstep hp

/-- A record set whose retry is in the producer's window is answered from there. -/
theorem append_replay {crc32c : Bytes → UInt32} {inner : PartitionLogInner} {records : Bytes} {request : PreparedAppend}
    {producer : RecordSetProducer} {state : ProducerPartitionState} {found : RecentAppend} (hr : InRange inner)
    (hprep : prepareAppend crc32c records = ok request) (hp : request.producer = some producer)
    (hl : inner.producerStates.lookup producer.producerId = some state) (he : state.producerEpoch = producer.producerEpoch)
    (hfound : state.recent.find? (·.isRetry request) = some found) :
    append crc32c inner records = some (.ok { found.result with appended := false }, inner) := by
  have hadm : admission inner request = .replay { found.result with appended := false } := by
    unfold admission
    simp only [hp, hl, he, ne_eq, not_true_eq_false, if_false, hfound]
  rw [append_eq hr, appendPure, hprep]
  simp only [ok, ExceptT.run, hadm]

/-- A record set whose entry is in the window gets that entry's result back. -/
theorem Kept.replays {crc32c : Bytes → UInt32} {inner : PartitionLogInner} {records : Bytes} {request : PreparedAppend}
    {producer : RecordSetProducer} {entry : RecentAppend} {k : Nat} (hinv : LogInv crc32c inner)
    (hwin : WindowInv crc32c inner)
    (hprep : prepareAppend crc32c records = ok request) (hp : request.producer = some producer)
    (hreq : entry.baseSequence = request.baseSequence ∧ entry.encodedBatches = request.encodedBatches)
    (h : Kept producer.producerId producer.producerEpoch entry k inner) :
    append crc32c inner records = some (.ok { entry.result with appended := false }, inner) := by
  obtain ⟨state, before, after, hl, he, hr, -⟩ := h
  have hq := prepareAppend_ok hprep
  obtain ⟨hdistinct, hentries⟩ := hwin _ state hl
  have hmem : entry ∈ state.recent := by rw [hr]; simp
  have hretry : entry.isRetry request = true := (isRetry_iff hq (hentries entry hmem)).2 hreq
  obtain ⟨found, hfound⟩ : ∃ found, state.recent.find? (·.isRetry request) = some found :=
    Option.isSome_iff_exists.1 (List.find?_isSome.2 ⟨entry, hmem, hretry⟩)
  -- the window has no other entry with these batches
  have hsame : found = entry := by
    have hf := List.mem_of_find?_eq_some hfound
    have hfr := (isRetry_iff hq (hentries found hf)).1 (List.find?_some hfound)
    have hreq' : found.SameRequest entry := ⟨hfr.1.trans hreq.1.symm, hfr.2.trans hreq.2.symm⟩
    by_contra hne
    have : Std.Symm fun a b : RecentAppend => ¬ a.SameRequest b := ⟨fun a b h hba => h ⟨hba.1.symm, hba.2.symm⟩⟩
    exact hdistinct.forall hf hmem hne hreq'
  exact hsame ▸ append_replay hinv.range hprep hp hl he hfound

/-- Retry safety. In a run, let a call store the record set of an idempotent producer and let at most
four further calls of that producer store theirs: appending the same bytes again returns the result of
that call with `appended = false` and changes nothing. And no two entries of a window ever agree in
base sequence and encoded batches. -/
theorem retry_within_window_replays (crc32c : Bytes → UInt32) (tr : List AppendEvent) (s : PartitionLogInner)
    (hrun : (partitionLog crc32c).Run tr s) :
    (∀ before e after r producer, tr = before ++ e :: after → e.out = .ok r → r.appended = true →
      recordSetProducer crc32c e.label = ok (some producer) → producerAppends crc32c producer.producerId after ≤ 4 →
      append crc32c s e.label = some (.ok { r with appended := false }, s)) ∧
    ∀ p state, s.producerStates.lookup p = some state →
      state.recent.Pairwise fun a b => ¬ (a.baseSequence = b.baseSequence ∧ a.encodedBatches = b.encodedBatches) := by
  refine ⟨?_, fun p state hl => (WindowInv.of_run hrun p state hl).distinct⟩
  rintro before ⟨s₁, records, out, s₂⟩ after r producer rfl hout happ hprod hle
  obtain ⟨hrun₁, he, hpath⟩ := hrun.split
  change append crc32c s₁ records = some (out, s₂) at he
  change out = .ok r at hout
  subst hout
  have inv₁ : LogInv crc32c s₁ := LogInv.of_run hrun₁
  have inv₂ : LogInv crc32c s₂ := inv₁.step he
  cases append_step inv₁.range he with
  | replayed => cases happ
  | appended hq ha hle' =>
    rename_i request next
    have hp : request.producer = some producer := by
      have := hq.recordSetProducer_eq
      rw [hprod] at this
      exact (ok_inj.1 this).symm
    rcases admission_fresh ha with ⟨hnone, -⟩ | ⟨producer', expected, hprod', hexp, -, rfl⟩
    · rw [hp] at hnone; cases hnone
    obtain rfl : producer = producer' := Option.some.inj (hp.symm.trans hprod')
    have hkept : Kept producer.producerId producer.producerEpoch (appendEntry s₁ request) 0
        (appendTo s₁ request (some (nextSequence request.baseSequence request.totalRecordCount))) := by
      refine ⟨_, _, [], by rw [appendTo_states_some hp, lookup_recordAppend, if_pos rfl], ?_, rfl, le_rfl⟩
      rcases hexp with ⟨hnone, -⟩ | ⟨state, hsome, hep, -⟩
      · rw [hnone]; rfl
      · rw [hsome]; exact hep
    have hprep : ∃ q, prepareAppend crc32c records = ok q ∧ q.validated = request.validated :=
      prepareAppend_of_set hq.set (by rw [← hq.total]; exact hq.total_le)
    obtain ⟨q, hprep, hval⟩ := hprep
    have hq' := prepareAppend_ok hprep
    obtain ⟨first, rest, hv, hb⟩ := hq.head
    obtain ⟨first', rest', hv', hb'⟩ := hq'.head
    obtain rfl : first' = first := by
      have := hv'.symm.trans (hval.trans hv)
      exact (List.cons.inj this).1
    have hqp : q.producer = some producer := by
      rw [hq'.producer first' (by simp [hv']), ← hq.producer first' (by simp [hv]), hp]
    exact (hkept.path inv₂ hpath hle).replays (LogInv.of_run hrun) (WindowInv.of_run hrun) hprep hqp
      ⟨hb.trans hb'.symm, by rw [hq'.encoded, hval, ← hq.encoded]; rfl⟩

theorem retry_within_window_replays_third_call :
    ∃ tr s, (partitionLog castagnoli).exec .default [sampleFrame 7 0 0 2, sampleFrame (-1) (-1) 0 4, sampleFrame 7 0 2 1] =
        some (tr, s) ∧
      append castagnoli s (sampleFrame 7 0 0 2) = some (.ok ⟨0, 1, 2, false⟩, s) := by
  have hsome : ((partitionLog castagnoli).exec .default [sampleFrame 7 0 0 2, sampleFrame (-1) (-1) 0 4, sampleFrame 7 0 2 1]).map
      (fun r => r.1.map fun e => (e.label, appendedResult e.out)) = some [(sampleFrame 7 0 0 2, some ⟨0, 1, 2, true⟩),
        (sampleFrame (-1) (-1) 0 4, some ⟨2, 5, 4, true⟩), (sampleFrame 7 0 2 1, some ⟨6, 6, 1, true⟩)] := by
    decide +kernel
  obtain ⟨⟨tr, s⟩, hx, hmap⟩ := Option.map_eq_some_iff.1 hsome
  obtain ⟨e, after, rfl, he, hafter⟩ := List.map_eq_cons_iff.1 hmap
  obtain ⟨hlabel, hout⟩ := Prod.mk.inj he
  have hprod : recordSetProducer castagnoli (sampleFrame 7 0 0 2) = ok (some ⟨7, 0⟩) := by
    show (recordSetProducer castagnoli (sampleFrame 7 0 0 2)).run = some (.ok (some ⟨7, 0⟩))
    decide +kernel
  refine ⟨e :: after, s, hx, ?_⟩
  have h := (retry_within_window_replays castagnoli (e :: after) s (Machine.exec_path hx).1).1 [] e after ⟨0, 1, 2, true⟩ ⟨7, 0⟩
    rfl (appendedResult_eq_some.1 hout).1 rfl (by rw [hlabel]; exact hprod) ?_
  · rw [hlabel] at h; exact h
  · -- two later calls, one of them of the producer
    have hlen : after.length = 2 := by simpa using congrArg List.length hafter
    exact (List.length_filter_le ..).trans (by omega)

end MemKafka
