import MemKafka.PartitionSpec
import MemKafka.Lib.Machine

/-!
# The log is a tiling

Runs of one partition log are runs of `partitionLog`: the labels are the submitted byte strings, in the
order in which the calls hold the mutex. `LogInv` is the state invariant behind every result about
partition logs: batches tile `[0, nextOffset)` and each holds a frame rewritten to its base offset.
-/

namespace MemKafka
open Kit Outcome

/-- A partition log and the calls of `append` on it. -/
def partitionLog (crc32c : Bytes → UInt32) : Machine PartitionLogInner Bytes (Except AppendError AppendResult) where
  init := .default
  step := append crc32c

/-- `b` holds the bytes of `f`, its first eight replaced by the base offset of `b`. -/
structure StoredBatch.Holds (b : StoredBatch) (f : Bytes) : Prop where
  offset : b.bytes.take 8 = beOfInt 8 b.baseOffset
  rest : b.bytes.drop 8 = f.drop 8
  length : b.bytes.length = f.length

/-- `b` is a frame as `append` stores it. -/
structure IsStored (crc32c : Bytes → UInt32) (b : StoredBatch) : Prop where
  last : b.lastOffset = b.baseOffset + b.recordCount - 1
  count : 1 ≤ b.recordCount
  frame : ∃ f, IsFrame crc32c f ∧ b.recordCount = frameRecordCount f ∧ b.Holds f

abbrev BatchLinks : Int → List StoredBatch → Int → Prop :=
  Links StoredBatch.baseOffset fun b => b.lastOffset + 1

/-- What holds of every log. -/
structure LogInv (crc32c : Bytes → UInt32) (inner : PartitionLogInner) : Prop where
  range : InRange inner
  tiles : BatchLinks 0 inner.batches inner.nextOffset
  stored : ∀ b ∈ inner.batches, IsStored crc32c b

theorem IsStored.pos {crc32c : Bytes → UInt32} {b : StoredBatch} (h : IsStored crc32c b) :
    b.baseOffset < b.lastOffset + 1 := by
  have h1 := h.last
  have h2 := h.count
  omega

/-! ### Storing a record set -/

section Stored
variable {crc32c : Bytes → UInt32} {vs : List ValidatedBatch} {o : Int}

theorem holds_withBaseOffset {f : Bytes} (h : 8 ≤ f.length) (o last count : Int) :
    StoredBatch.Holds ⟨o, last, count, beOfInt 8 o ++ f.drop 8⟩ f where
  offset := by rw [List.take_left' (length_beOfInt 8 o)]
  rest := by rw [List.drop_left' (length_beOfInt 8 o)]
  length := by simp only [List.length_append, length_beOfInt, List.length_drop]; omega

theorem storedBatches_links (o : Int) (vs : List ValidatedBatch) :
    BatchLinks o (storedBatches o vs) (o + recordSum vs) := by
  induction vs generalizing o with
  | nil => simp [storedBatches]
  | cons v vs ih =>
    refine ⟨rfl, ?_⟩
    have h := ih (o + v.recordCount)
    rw [recordSum_cons, ← Int.add_assoc]
    show BatchLinks (o + v.recordCount - 1 + 1) _ _
    rwa [Int.sub_add_cancel]

theorem storedBatches_holds (hb : ∀ v ∈ vs, 61 ≤ v.bytes.length) :
    List.Forall₂ StoredBatch.Holds (storedBatches o vs) (vs.map (·.bytes)) := by
  induction vs generalizing o with
  | nil => exact .nil
  | cons v vs ih =>
    have h := hb v (by simp)
    exact .cons (holds_withBaseOffset (by omega) _ _ _) (ih fun w hw => hb w (by simp [hw]))

theorem storedBatches_stored (h : ∀ v ∈ vs, IsFrame crc32c v.bytes ∧ v = ofFrame v.bytes) :
    ∀ b ∈ storedBatches o vs, IsStored crc32c b := by
  induction vs generalizing o with
  | nil => intro b hb; simp [storedBatches] at hb
  | cons v vs ih =>
    intro b hb
    rcases List.mem_cons.1 hb with rfl | hb
    · obtain ⟨f, hof⟩ := h v (by simp)
      have hcount : v.recordCount = frameRecordCount v.bytes := by rw [hof]; rfl
      have h61 : 61 ≤ v.bytes.length := f.long
      exact ⟨rfl, by rw [hcount]; exact f.count, v.bytes, f, hcount, holds_withBaseOffset (by omega) _ _ _⟩
    · exact ih (fun w hw => h w (by simp [hw])) b hb

end Stored

/-! ### One call -/

namespace LogInv
variable {crc32c : Bytes → UInt32} {inner inner' : PartitionLogInner} {records : Bytes}
  {out : Except AppendError AppendResult} {request : PreparedAppend}

theorem default : LogInv crc32c .default where
  range := ⟨le_rfl, by decide⟩
  tiles := rfl
  stored := by simp [PartitionLogInner.default]

theorem pos (h : LogInv crc32c inner) : ∀ b ∈ inner.batches, b.baseOffset < b.lastOffset + 1 :=
  fun b hb => (h.stored b hb).pos

theorem appendTo (h : LogInv crc32c inner) (hq : IsPrepared crc32c records request) (next : Option Int)
    (hle : inner.nextOffset + request.totalRecordCount ≤ i64Max) : LogInv crc32c (appendTo inner request next) where
  range := ⟨by have := h.range.1; have := hq.total_pos; show 0 ≤ inner.nextOffset + request.totalRecordCount; omega, hle⟩
  tiles := by
    show BatchLinks 0 (inner.batches ++ storedBatches inner.nextOffset request.validated) (inner.nextOffset + request.totalRecordCount)
    rw [hq.total]
    exact h.tiles.append (storedBatches_links _ _)
  stored := by
    intro b hb
    rcases List.mem_append.1 hb with hb | hb
    · exact h.stored b hb
    · exact storedBatches_stored hq.set.frames b hb

theorem step (h : LogInv crc32c inner) (hs : append crc32c inner records = some (out, inner')) :
    LogInv crc32c inner' := by
  cases append_step h.range hs with
  | rejected => exact h
  | replayed => exact h
  | appended hq _ hle => exact h.appendTo hq _ hle

theorem total (h : LogInv crc32c inner) (records : Bytes) :
    ∃ out inner', append crc32c inner records = some (out, inner') ∧ LogInv crc32c inner' :=
  have heq := append_eq h.range crc32c records
  ⟨_, _, heq, h.step heq⟩

end LogInv

theorem LogInv.of_run {crc32c : Bytes → UInt32}
    {tr : List (Event PartitionLogInner Bytes (Except AppendError AppendResult))}
    {s : PartitionLogInner} (h : (partitionLog crc32c).Run tr s) : LogInv crc32c s :=
  Machine.Run.invariant (M := partitionLog crc32c) LogInv.default (fun _ he hp => hp.step he) h

/-! ### Runs -/

/-- The result of a call that stored its record set. -/
def appendedResult : Except AppendError AppendResult → Option AppendResult
  | .ok result => if result.appended then some result else none
  | .error _ => none

theorem appendedResult_eq_some {out : Except AppendError AppendResult} {r : AppendResult} :
    appendedResult out = some r ↔ out = .ok r ∧ r.appended = true := by
  cases out with
  | error => simp [appendedResult]
  | ok result =>
    simp only [appendedResult, Option.ite_none_right_eq_some, Option.some.injEq, Except.ok.injEq]
    constructor
    · rintro ⟨h, rfl⟩; exact ⟨rfl, h⟩
    · rintro ⟨rfl, h⟩; exact ⟨h, rfl⟩

abbrev AppendEvent := Event PartitionLogInner Bytes (Except AppendError AppendResult)

/-- The results returned with `appended = true`, in call order. -/
def appendedResults (tr : List AppendEvent) : List AppendResult := tr.filterMap fun e => appendedResult e.out

/-- The record sets of these calls, in call order. -/
def appendedRecords (tr : List AppendEvent) : List Bytes :=
  (tr.filter fun e => (appendedResult e.out).isSome).map (·.label)

/-- What the results and the stored bytes of a run add up to. -/
structure Tiled (tr : List AppendEvent) (s : PartitionLogInner) : Prop where
  results : Links AppendResult.baseOffset (fun r => r.lastOffset + 1) 0 (appendedResults tr) s.nextOffset
  nonempty : ∀ r ∈ appendedResults tr, r.baseOffset ≤ r.lastOffset
  bytes : ∃ frames, frames.flatten = (appendedRecords tr).flatten ∧ List.Forall₂ StoredBatch.Holds s.batches frames
  unchanged : ∀ e ∈ tr, appendedResult e.out = none → e.post = e.pre

theorem Tiled.of_run {crc32c : Bytes → UInt32} {tr : List AppendEvent} {s : PartitionLogInner}
    (h : (partitionLog crc32c).Run tr s) : Tiled tr s := by
  refine Machine.Run.induction (M := partitionLog crc32c) (P := Tiled) ⟨rfl, by simp [appendedResults], ⟨[], rfl, .nil⟩, by simp⟩ ?_ h
  rintro tr ⟨s, records, out, s'⟩ hrun ih he
  change append crc32c s records = some (out, s') at he
  have inv : LogInv crc32c s := LogInv.of_run hrun
  have quiet : appendedResult out = none → s' = s → Tiled (tr ++ [⟨s, records, out, s'⟩]) s' := by
    rintro hout rfl
    have hr : appendedResults (tr ++ [⟨s', records, out, s'⟩]) = appendedResults tr := by
      simp [appendedResults, List.filterMap_append, hout]
    have hb : appendedRecords (tr ++ [⟨s', records, out, s'⟩]) = appendedRecords tr := by
      simp [appendedRecords, List.filter_append, hout]
    refine ⟨by rw [hr]; exact ih.results, by rw [hr]; exact ih.nonempty, by rw [hb]; exact ih.bytes, ?_⟩
    intro e he' hn
    rcases List.mem_append.1 he' with he' | he'
    · exact ih.unchanged e he' hn
    · rw [List.mem_singleton.1 he']
  cases append_step inv.range he with
  | rejected error => exact quiet rfl rfl
  | replayed => exact quiet rfl rfl
  | @appended request next hq ha hle =>
    obtain ⟨frames, hflat, hholds⟩ := ih.bytes
    have hpos := hq.total_pos
    refine ⟨?_, ?_, ⟨frames ++ request.validated.map (·.bytes), ?_, ?_⟩, ?_⟩
    · simp only [appendedResults, List.filterMap_append, List.filterMap_cons, appendedResult, if_true,
        List.filterMap_nil]
      refine ih.results.append ⟨rfl, ?_⟩
      show s.nextOffset + request.totalRecordCount - 1 + 1 = s.nextOffset + request.totalRecordCount
      omega
    · intro r hr
      simp only [appendedResults, List.filterMap_append, List.filterMap_cons, appendedResult, if_true,
        List.filterMap_nil,
        List.mem_append, List.mem_singleton] at hr
      rcases hr with hr | rfl
      · exact ih.nonempty r hr
      · show s.nextOffset ≤ s.nextOffset + request.totalRecordCount - 1
        omega
    · simp only [appendedRecords, List.filter_append, List.map_append, List.flatten_append, ← hq.set.flatten] at hflat ⊢
      rw [hflat]
      simp [appendedResult]
    · exact List.rel_append hholds (storedBatches_holds hq.set.long)
    · intro e he' hn
      rcases List.mem_append.1 he' with he' | he'
      · exact ih.unchanged e he' hn
      · rw [List.mem_singleton.1 he'] at hn
        simp [appendedResult] at hn

/-- Every sequence of `append` calls on an empty log runs to its end, and leaves a gap-free tiling: the
batches tile `[0, nextOffset)`, and so do the results of the calls that appended; the stored bytes are
those calls' record sets with each frame's base offset written over its first eight bytes; every other
call leaves the log as it was. -/
theorem append_runs_tile (crc32c : Bytes → UInt32) (calls : List Bytes) :
    ∃ tr s, (partitionLog crc32c).exec .default calls = some (tr, s) ∧
      Links StoredBatch.baseOffset (fun b => b.lastOffset + 1) 0 s.batches s.nextOffset ∧
      (∀ b ∈ s.batches, b.lastOffset = b.baseOffset + b.recordCount - 1 ∧ 1 ≤ b.recordCount ∧
        b.bytes.take 8 = beOfInt 8 b.baseOffset) ∧
      (∃ frames, frames.flatten = (appendedRecords tr).flatten ∧ List.Forall₂ StoredBatch.Holds s.batches frames) ∧
      Links AppendResult.baseOffset (fun r => r.lastOffset + 1) 0 (appendedResults tr) s.nextOffset ∧
      (∀ r ∈ appendedResults tr, r.baseOffset ≤ r.lastOffset) ∧
      ∀ e ∈ tr, appendedResult e.out = none → e.post = e.pre := by
  obtain ⟨tr, s, hx⟩ := Machine.exec_total (M := partitionLog crc32c) (P := LogInv crc32c) calls
    (fun s l _ hs => hs.total l) LogInv.default
  have hrun : (partitionLog crc32c).Run tr s := (Machine.exec_path hx).1
  have inv := LogInv.of_run hrun
  have tiled := Tiled.of_run hrun
  refine ⟨tr, s, hx, inv.tiles, ?_, tiled.bytes, tiled.results, tiled.nonempty, tiled.unchanged⟩
  intro b hb
  obtain ⟨hlast, hcount, f, -, -, hf⟩ := inv.stored b hb
  exact ⟨hlast, hcount, hf.offset⟩

end MemKafka
