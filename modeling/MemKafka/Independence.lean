import MemKafka.Retry

/-!
# Producers do not see each other

The state a partition keeps for producer `p` is read and written by the calls of `p` alone, and what
those calls read of the rest of the log is the next offset. `Alike p` relates the log of a run to the log of
the run in which only the calls of `p` are made: the same state for `p` up to offsets, and a next offset
that is no greater.
-/

namespace MemKafka
open Kit Outcome

/-- What a call returns, up to offsets. -/
def outcome : Except AppendError AppendResult → Except AppendError (Bool × Int)
  | .error error => .error error
  | .ok result => .ok (result.appended, result.recordCount)

/-- Entries of a window that differ in their offsets only. -/
structure RecentAppend.Alike (a b : RecentAppend) : Prop where
  baseSequence : a.baseSequence = b.baseSequence
  fingerprints : a.fingerprints = b.fingerprints
  encodedBatches : a.encodedBatches = b.encodedBatches
  recordCount : a.result.recordCount = b.result.recordCount

structure ProducerPartitionState.Alike (a b : ProducerPartitionState) : Prop where
  producerEpoch : a.producerEpoch = b.producerEpoch
  nextSequence : a.nextSequence = b.nextSequence
  recent : List.Forall₂ RecentAppend.Alike a.recent b.recent

structure PartitionLogInner.Alike (p : Int) (inner alone : PartitionLogInner) : Prop where
  state : Option.Rel ProducerPartitionState.Alike (inner.producerStates.lookup p) (alone.producerStates.lookup p)
  nextOffset : alone.nextOffset ≤ inner.nextOffset

inductive Admission.Alike : Admission → Admission → Prop
  | reject (error : AppendError) : Alike (.reject error) (.reject error)
  | replay {a b : AppendResult} (h : a.recordCount = b.recordCount) (ha : a.appended = false) (hb : b.appended = false) :
      Alike (.replay a) (.replay b)
  | fresh (next : Option Int) : Alike (.fresh next) (.fresh next)

section
variable {request : PreparedAppend}

theorem RecentAppend.Alike.isRetry_eq {a b : RecentAppend} (h : a.Alike b) : a.isRetry request = b.isRetry request := by
  simp only [RecentAppend.isRetry, h.baseSequence, h.fingerprints, h.encodedBatches]

variable (request) in
/-- Windows that are alike have the same retries. -/
theorem find?_alike {recent recent' : List RecentAppend} (h : List.Forall₂ RecentAppend.Alike recent recent') :
    Option.Rel RecentAppend.Alike (recent.find? (·.isRetry request)) (recent'.find? (·.isRetry request)) := by
  induction h with
  | nil => exact .none
  | @cons a b _ _ hab _ ih =>
    rw [List.find?_cons, List.find?_cons, hab.isRetry_eq]
    cases hb : b.isRetry request with
    | true => exact .some hab
    | false => exact ih

theorem evict_alike {recent recent' : List RecentAppend} (h : List.Forall₂ RecentAppend.Alike recent recent') :
    List.Forall₂ RecentAppend.Alike (evict recent) (evict recent') := by
  rw [evict_eq, evict_eq, h.length_eq]
  exact List.forall₂_drop _ h

theorem checkSequences_alike (request : PreparedAppend) (expected : Int) :
    Admission.Alike (checkSequences request expected) (checkSequences request expected) := by
  unfold checkSequences
  split
  · exact .reject _
  · exact .fresh _

/-- The producer check decides alike on logs that are alike for the producer. -/
theorem admission_alike {p : Int} {inner alone : PartitionLogInner} (h : inner.Alike p alone)
    {producer : RecordSetProducer} (hp : request.producer = some producer) (heq : producer.producerId = p) :
    Admission.Alike (admission inner request) (admission alone request) := by
  subst heq
  unfold admission
  simp only [hp]
  have hstate := h.state
  generalize inner.producerStates.lookup producer.producerId = state at hstate ⊢
  generalize alone.producerStates.lookup producer.producerId = state' at hstate ⊢
  cases hstate with
  | none =>
    dsimp only
    split
    · exact .reject _
    · exact checkSequences_alike request 0
  | @some a b hab =>
    dsimp only
    rw [hab.producerEpoch]
    split
    · exact .reject _
    have hfind := find?_alike request hab.recent
    generalize a.recent.find? (·.isRetry request) = found at hfind ⊢
    generalize b.recent.find? (·.isRetry request) = found' at hfind ⊢
    cases hfind with
    | none =>
      dsimp only
      rw [hab.nextSequence]
      exact checkSequences_alike request b.nextSequence
    | some hr => exact .replay hr.recordCount rfl rfl

end

section
variable {crc32c : Bytes → UInt32} {inner inner' alone : PartitionLogInner} {records : Bytes} {p : Int}
  {out : Except AppendError AppendResult}

/-- A call of anybody else. -/
theorem PartitionLogInner.Alike.other (h : inner.Alike p alone) (hstep : AppendStep crc32c inner records out inner')
    (hp : producedBy crc32c p records = false) : inner'.Alike p alone := by
  cases hstep with
  | rejected => exact h
  | replayed => exact h
  | @appended request next hq ha hle =>
    have hpos := hq.total_pos
    refine ⟨?_, by have := h.nextOffset; show alone.nextOffset ≤ inner.nextOffset + request.totalRecordCount; omega⟩
    rcases admission_fresh ha with ⟨hprod, rfl⟩ | ⟨producer, expected, hprod, -, -, rfl⟩
    · rw [appendTo_states_none hprod]
      exact h.state
    · rw [hq.producedBy_eq hprod, decide_eq_false_iff_not] at hp
      rw [appendTo_states_some hprod, lookup_recordAppend, if_neg (Ne.symm hp)]
      exact h.state

/-- The logs after both stored a record set of the producer. -/
theorem PartitionLogInner.Alike.appendTo (h : inner.Alike p alone) {request : PreparedAppend}
    {producer : RecordSetProducer} (hp : request.producer = some producer) (heq : producer.producerId = p)
    (next : Int) :
    (appendTo inner request (some next)).Alike p (appendTo alone request (some next)) := by
  refine ⟨?_, ?_⟩
  · rw [appendTo_states_some hp, appendTo_states_some hp, lookup_recordAppend, lookup_recordAppend, if_pos heq.symm,
      if_pos heq.symm]
    have hlast : RecentAppend.Alike (appendEntry inner request) (appendEntry alone request) := ⟨rfl, rfl, rfl, rfl⟩
    have hstate := h.state
    generalize inner.producerStates.lookup p = state at hstate ⊢
    generalize alone.producerStates.lookup p = state' at hstate ⊢
    cases hstate with
    | none => exact .some ⟨rfl, rfl, .cons hlast .nil⟩
    | some hab => exact .some ⟨hab.producerEpoch, rfl, List.rel_append (evict_alike hab.recent) (.cons hlast .nil)⟩
  · have := h.nextOffset
    show alone.nextOffset + request.totalRecordCount ≤ inner.nextOffset + request.totalRecordCount
    omega

/-- A call of the producer itself, if it does not overflow the offsets of the larger log. -/
theorem PartitionLogInner.Alike.own (h : inner.Alike p alone) (hr : InRange inner) (hr' : InRange alone)
    (hp : producedBy crc32c p records = true) (happ : append crc32c inner records = some (out, inner'))
    (hfits : out ≠ .error .offsetOverflow) :
    ∃ out' alone', append crc32c alone records = some (out', alone') ∧ outcome out' = outcome out ∧
      inner'.Alike p alone' := by
  rw [append_eq hr, Option.some.injEq] at happ
  rw [append_eq hr']
  refine ⟨(appendPure crc32c alone records).1, (appendPure crc32c alone records).2, rfl, ?_⟩
  unfold appendPure at happ ⊢
  rcases (prepareAppend_safe crc32c records).cases with ⟨request, hq⟩ | ⟨error, hq⟩
  · rw [hq] at happ ⊢
    simp only [ok, ExceptT.run] at happ ⊢
    have hprep := prepareAppend_ok hq
    obtain ⟨producer, hprod, heq⟩ : ∃ producer, request.producer = some producer ∧ producer.producerId = p := by
      cases hprod : request.producer with
      | none =>
        rw [producedBy, hprep.recordSetProducer_eq, hprod] at hp
        cases hp
      | some producer =>
        rw [hprep.producedBy_eq hprod, decide_eq_true_eq] at hp
        exact ⟨producer, rfl, hp⟩
    have hadm := admission_alike h hprod heq
    cases ha : admission inner request with
    | reject error =>
      rw [ha] at happ hadm
      generalize admission alone request = admitted at hadm ⊢
      cases hadm
      cases happ
      exact ⟨rfl, h⟩
    | replay result =>
      rw [ha] at happ hadm
      generalize admission alone request = admitted at hadm ⊢
      cases hadm with
      | replay hcount happended happended' =>
        cases happ
        exact ⟨by simp only [outcome, hcount, happended, happended'], h⟩
    | fresh next =>
      rw [ha] at happ hadm
      generalize admission alone request = admitted at hadm ⊢
      cases hadm
      dsimp only at happ ⊢
      have hle : inner.nextOffset + request.totalRecordCount ≤ i64Max := by
        by_contra hgt
        rw [if_neg hgt] at happ
        exact hfits (congrArg Prod.fst happ).symm
      have hle' : alone.nextOffset + request.totalRecordCount ≤ i64Max := by
        have := h.nextOffset
        omega
      rw [if_pos hle] at happ
      rw [if_pos hle']
      cases happ
      refine ⟨rfl, ?_⟩
      rcases admission_fresh ha with ⟨hnone, -⟩ | ⟨_, _, -, -, -, rfl⟩
      · rw [hprod] at hnone; cases hnone
      · exact h.appendTo hprod heq _
  · rw [hq] at happ ⊢
    cases happ
    exact ⟨rfl, h⟩

end

/-- Producer independence. Every sequence of calls runs to its end, and if no call of it overflows the offsets, the calls
of producer `p` are answered, up to offsets, as if they had been the only ones made on the empty log. -/
theorem producers_are_independent (crc32c : Bytes → UInt32) (calls : List Bytes) (p : Int) :
    ∃ tr s tr' s', (partitionLog crc32c).exec .default calls = some (tr, s) ∧
      (partitionLog crc32c).exec .default (calls.filter (producedBy crc32c p)) = some (tr', s') ∧
      ((∀ e ∈ tr, e.out ≠ .error .offsetOverflow) →
        tr'.map (fun e => outcome e.out) =
          (tr.filter fun e => producedBy crc32c p e.label).map fun e => outcome e.out) := by
  have total : ∀ calls, ∃ tr s, (partitionLog crc32c).exec .default calls = some (tr, s) := fun calls =>
    Machine.exec_total (M := partitionLog crc32c) (P := LogInv crc32c) _ (fun s l _ hs => hs.total l) LogInv.default
  obtain ⟨tr, s, hx⟩ := total calls
  obtain ⟨tr', s', hx'⟩ := total (calls.filter (producedBy crc32c p))
  refine ⟨tr, s, tr', s', hx, hx', ?_⟩
  intro hfits
  obtain ⟨hpath, hlabels⟩ := Machine.exec_path hx
  -- the log of all calls and the log of the producer's own
  have hrel : LogInv crc32c .default ∧ LogInv crc32c .default ∧ PartitionLogInner.Alike p .default .default :=
    ⟨.default, .default, .none, le_rfl⟩
  obtain ⟨tr'', s'', hx'', hout⟩ := Machine.Path.alone (M := partitionLog crc32c) (producedBy crc32c p)
    outcome (fun inner alone => LogInv crc32c inner ∧ LogInv crc32c alone ∧ inner.Alike p alone)
    (by
      rintro ⟨inner, records, out, inner'⟩ alone - he hm ⟨inv, inv', halike⟩
      exact ⟨inv.step he, inv', halike.other (append_step inv.range he) hm⟩)
    (by
      rintro ⟨inner, records, out, inner'⟩ alone hmem he hm ⟨inv, inv', halike⟩
      obtain ⟨out', alone', happ, hsame, halike'⟩ := halike.own inv.range inv'.range hm he (hfits _ hmem)
      exact ⟨out', alone', happ, hsame, inv.step he, inv'.step happ, halike'⟩)
    hpath hrel
  rw [hlabels, hx', Option.some.injEq, Prod.mk.injEq] at hx''
  rw [hx''.1]
  exact hout

/-- The calls of producer 7 among others: stored, replayed, out of order. -/
theorem producers_are_independent_two_producers :
    ∃ tr s tr' s', (partitionLog castagnoli).exec .default [sampleFrame 7 0 0 2, sampleFrame 9 0 0 1,
        sampleFrame 7 0 0 2, sampleFrame (-1) (-1) 0 4, sampleFrame 7 0 5 1] = some (tr, s) ∧
      (partitionLog castagnoli).exec .default [sampleFrame 7 0 0 2, sampleFrame 7 0 0 2, sampleFrame 7 0 5 1] =
        some (tr', s') ∧
      tr'.map (fun e => outcome e.out) = [.ok (true, 2), .ok (false, 2), .error .outOfOrderSequence] ∧
      tr'.map (fun e => outcome e.out) =
        (tr.filter fun e => producedBy castagnoli 7 e.label).map fun e => outcome e.out := by
  have hown : [sampleFrame 7 0 0 2, sampleFrame 9 0 0 1, sampleFrame 7 0 0 2, sampleFrame (-1) (-1) 0 4,
      sampleFrame 7 0 5 1].filter (producedBy castagnoli 7) =
        [sampleFrame 7 0 0 2, sampleFrame 7 0 0 2, sampleFrame 7 0 5 1] := by decide +kernel
  have houts : (((partitionLog castagnoli).exec .default [sampleFrame 7 0 0 2, sampleFrame 9 0 0 1,
      sampleFrame 7 0 0 2, sampleFrame (-1) (-1) 0 4, sampleFrame 7 0 5 1]).map fun r => r.1.map fun e => outcome e.out) =
        some [.ok (true, 2), .ok (true, 1), .ok (false, 2), .ok (true, 4), .error .outOfOrderSequence] := by
    decide +kernel
  have hsub : (((partitionLog castagnoli).exec .default [sampleFrame 7 0 0 2, sampleFrame 7 0 0 2,
      sampleFrame 7 0 5 1]).map fun r => r.1.map fun e => outcome e.out) =
        some [.ok (true, 2), .ok (false, 2), .error .outOfOrderSequence] := by decide +kernel
  obtain ⟨tr, s, tr', s', hx, hx', h⟩ := producers_are_independent castagnoli [sampleFrame 7 0 0 2, sampleFrame 9 0 0 1,
    sampleFrame 7 0 0 2, sampleFrame (-1) (-1) 0 4, sampleFrame 7 0 5 1] 7
  rw [hown] at hx'
  rw [hx, Option.map_some, Option.some.injEq] at houts
  rw [hx', Option.map_some, Option.some.injEq] at hsub
  refine ⟨tr, s, tr', s', hx, hx', hsub, h ?_⟩
  intro e he hout
  have hmem : outcome e.out ∈ tr.map fun e => outcome e.out := List.mem_map_of_mem he
  rw [houts, hout] at hmem
  revert hmem
  decide

end MemKafka
