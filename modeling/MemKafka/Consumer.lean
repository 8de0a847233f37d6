import MemKafka.FetchSpec
import MemKafka.Lib.Prefix

/-!
# A consumer's loop

A consumer fetches at its offset, reads the records it gets and goes on after the last of them, with another size limit
each time. `Remaining` are the batches it still has to get and `Served` is the run of them that one answer holds. A poll
takes such a run off the front (`poll_spec`), so the polls of a loop give all of them, each once and in order.
-/

namespace MemKafka
open Kit Outcome

abbrev StoredBatch.size (b : StoredBatch) : Nat := b.bytes.length

def storedBytes (batches : List StoredBatch) : Bytes := (batches.map (·.bytes)).flatten

/-- The batches from the one that covers an offset on. -/
structure Remaining (inner : PartitionLogInner) (offset : Int) (remaining : List StoredBatch) : Prop where
  suffix : ∃ before, inner.batches = before ++ remaining ∧ ∀ b ∈ before, b.lastOffset < offset
  covers : offset < inner.nextOffset → ∃ b rest, remaining = b :: rest ∧ b.baseOffset ≤ offset ∧ offset ≤ b.lastOffset
  done : offset = inner.nextOffset → remaining = []

/-- The longest run of batches that fits into the limit, or the first batch if that does not. -/
def Served (limit : Nat) (remaining taken : List StoredBatch) : Prop :=
  if ∀ b ∈ remaining.head?, b.size ≤ limit then LongestFit StoredBatch.size limit remaining taken
  else taken = remaining.take 1

/-! ### One answer -/

section
variable {crc32c : Bytes → UInt32} {inner : PartitionLogInner}

/-- What the scan rests on: the batches' spans are their record counts, and no batch is empty. -/
def Scannable (b : StoredBatch) : Prop :=
  0 ≤ b.baseOffset ∧ b.lastOffset < i64Max ∧ 1 ≤ b.recordCount ∧ b.lastOffset = b.baseOffset + b.recordCount - 1 ∧
    0 < b.size

theorem collectBatches_cons {b : StoredBatch} (h : Scannable b) (limit : Nat) (records : Bytes)
    (batches : List StoredBatch) : collectBatches limit records (b :: batches) =
      if records ≠ [] ∧ exceedsLimit limit records b.bytes then some records
      else collectBatches limit (records ++ b.bytes) batches := by
  obtain ⟨h0, hmax, hcount, hlast, -⟩ := h
  have hmin : i64Min ≤ 0 := by decide
  have hspan : addI64 b.lastOffset (-b.baseOffset) = some (b.recordCount - 1) := by
    rw [addI64, if_pos (by omega), hlast]; congr 1; omega
  have hcount' : addI64 (b.recordCount - 1) 1 = some b.recordCount := by
    rw [addI64, if_pos (by omega), Int.sub_add_cancel]
  simp [collectBatches, hspan, hcount']

theorem exceedsLimit_iff {limit : Nat} (hlimit : limit < 2 ^ 64) {records batchBytes : Bytes}
    (hpos : 0 < batchBytes.length) :
    exceedsLimit limit records batchBytes = true ↔ limit - records.length < batchBytes.length := by
  unfold exceedsLimit addUsize
  split
  · rename_i h
    split at h
    · cases h
    · simp only [true_iff]; omega
  · rename_i size h
    split at h
    · obtain rfl := Option.some.inj h
      simp only [decide_eq_true_eq]
      omega
    · cases h

/-- With something collected, the scan takes what fits into the rest of the limit. -/
theorem collectBatches_longest {limit : Nat} (hlimit : limit < 2 ^ 64) {batches : List StoredBatch}
    (h : ∀ b ∈ batches, Scannable b) (records : Bytes) (hne : records ≠ []) :
    ∃ taken, LongestFit StoredBatch.size (limit - records.length) batches taken ∧
      collectBatches limit records batches = some (records ++ storedBytes taken) := by
  induction batches generalizing records with
  | nil => exact ⟨[], .nil, by simp [collectBatches, storedBytes]⟩
  | cons b batches ih =>
    have hb := h b (by simp)
    rw [collectBatches_cons hb]
    by_cases hexceeds : exceedsLimit limit records b.bytes = true
    · rw [if_pos ⟨hne, hexceeds⟩]
      exact ⟨[], .stop ((exceedsLimit_iff hlimit hb.2.2.2.2).1 hexceeds), by simp [storedBytes]⟩
    · rw [if_neg fun hstop => hexceeds hstop.2]
      rw [exceedsLimit_iff hlimit hb.2.2.2.2, not_lt] at hexceeds
      obtain ⟨taken, hlongest, heq⟩ := ih (fun c hc => h c (by simp [hc])) (records ++ b.bytes) (by simp [hne])
      refine ⟨b :: taken, .cons hexceeds ?_, by rw [heq]; simp [storedBytes]⟩
      rwa [List.length_append, ← Nat.sub_sub] at hlongest

theorem collectBatches_served {limit : Nat} (hlimit : limit < 2 ^ 64) {batches : List StoredBatch}
    (h : ∀ b ∈ batches, Scannable b) :
    ∃ taken, Served limit batches taken ∧ collectBatches limit [] batches = some (storedBytes taken) := by
  cases batches with
  | nil => exact ⟨[], by simpa [Served] using LongestFit.nil, rfl⟩
  | cons b batches =>
    have hb := h b (by simp)
    have hpos : 0 < b.bytes.length := hb.2.2.2.2
    obtain ⟨taken, hlongest, heq⟩ := collectBatches_longest hlimit
      (fun c (hc : c ∈ batches) => h c (by simp [hc])) b.bytes (List.ne_nil_of_length_pos hpos)
    refine ⟨b :: taken, ?_, by rw [collectBatches_cons hb, if_neg (by simp), List.nil_append, heq]; simp [storedBytes]⟩
    by_cases hfits : b.size ≤ limit
    · rw [Served, if_pos (by simpa using hfits)]
      exact hlongest.cons hfits
    · rw [Served, if_neg (by simpa using hfits)]
      rw [Nat.sub_eq_zero_of_le (not_le.1 hfits).le] at hlongest
      rw [hlongest.of_zero fun c hc => (h c (by simp [hc])).2.2.2.2]
      rfl

theorem LogInv.scannable (inv : LogInv crc32c inner) {b : StoredBatch} (hb : b ∈ inner.batches) : Scannable b := by
  have hbounds := inv.bounds hb
  have hstored := inv.stored b hb
  have hle := inv.range.2
  have hlong : 12 ≤ b.bytes.length := hstored.framed.1
  exact ⟨hbounds.1, by omega, hstored.count, hstored.last, by show 0 < b.bytes.length; omega⟩

/-- The batches that are left at an offset, and every answer there is. -/
theorem LogInv.remaining (inv : LogInv crc32c inner) {offset : Int} (h0 : 0 ≤ offset) (hle : offset ≤ inner.nextOffset) :
    ∃ remaining, inner.batches.dropWhile (fun b => b.lastOffset < offset) = remaining ∧ Remaining inner offset remaining := by
  refine ⟨_, rfl, ⟨_, (List.takeWhile_append_dropWhile (p := fun b : StoredBatch => b.lastOffset < offset)).symm, ?_⟩, ?_, ?_⟩
  · intro b hb
    simpa using List.mem_takeWhile_imp hb
  · intro hlt
    obtain ⟨b, rest, hdrop, hlow, hhigh⟩ := inv.tiles.cover h0 hlt
    exact ⟨b, rest, hdrop, hlow, Int.lt_add_one_iff.1 hhigh⟩
  · rintro rfl
    refine List.dropWhile_eq_nil_iff.2 fun b hb => ?_
    simpa using (inv.bounds hb).2

theorem fetch_served (inv : LogInv crc32c inner) {offset : Int} {remaining : List StoredBatch} {limit : Nat}
    (h0 : 0 ≤ offset) (hle : offset ≤ inner.nextOffset) (hlimit : limit < 2 ^ 64)
    (hremaining : inner.batches.dropWhile (fun b => b.lastOffset < offset) = remaining) :
    ∃ taken, Served limit remaining taken ∧
      fetch inner offset limit = some (.ok ⟨storedBytes taken, inner.nextOffset⟩) := by
  have hscan : ∀ b ∈ remaining, Scannable b :=
    fun b hb => inv.scannable ((List.dropWhile_sublist _).subset (hremaining ▸ hb))
  obtain ⟨taken, hserved, heq⟩ := collectBatches_served hlimit hscan
  exact ⟨taken, hserved, by rw [fetch, if_neg (by omega), hremaining, heq]; rfl⟩

end

/-! ### The loop -/

/-- The offset after the last record of a record set, as a reader of its frames sees it. -/
def recordSetEnd (records : Bytes) : Option Int :=
  (cutFrames records).bind fun frames => frames.getLast?.map fun f => frameBaseOffset f + frameLastOffsetDelta f + 1

/-- A consumer between two polls. -/
structure Consumer where
  offset : Int
  received : Bytes
deriving DecidableEq, Repr

/-- A fetch at the consumer's offset; `none` if it fails or cannot be read. -/
def Consumer.poll (inner : PartitionLogInner) (c : Consumer) (partitionMaxBytes : Nat) : Option Consumer :=
  match fetch inner c.offset partitionMaxBytes with
  | some (.ok snapshot) =>
    if snapshot.records = [] then some c
    else (recordSetEnd snapshot.records).map fun next => ⟨next, c.received ++ snapshot.records⟩
  | _ => none

/-- A consumer that starts at an offset, after `n` polls with the given limits. -/
def polls (inner : PartitionLogInner) (limits : Nat → Nat) (offset : Int) : Nat → Option Consumer
  | 0 => some ⟨offset, []⟩
  | n + 1 => (polls inner limits offset n).bind fun c => c.poll inner (limits n)

section
variable {crc32c : Bytes → UInt32} {inner : PartitionLogInner}

/-- A stored batch tells its reader where it ends. -/
theorem IsStored.end_eq {b : StoredBatch} (h : IsStored crc32c b) (h0 : 0 ≤ b.baseOffset) (hle : b.baseOffset ≤ i64Max) :
    frameBaseOffset b.bytes + frameLastOffsetDelta b.bytes + 1 = b.lastOffset + 1 := by
  obtain ⟨f, hf, hcount, hold⟩ := h.frame
  have hdelta : frameLastOffsetDelta b.bytes = b.recordCount - 1 := by
    rw [hcount, ← hf.delta, frameLastOffsetDelta, hold.wordAt_eq (by omega), frameLastOffsetDelta]
  rw [h.frameBaseOffset_eq h0 hle, hdelta, h.last]
  omega

theorem recordSetEnd_storedBytes (inv : LogInv crc32c inner) {init : List StoredBatch} {last : StoredBatch}
    (hmem : ∀ b ∈ init ++ [last], b ∈ inner.batches) :
    recordSetEnd (storedBytes (init ++ [last])) = some (last.lastOffset + 1) := by
  have hcut : cutFrames (storedBytes (init ++ [last])) = some ((init ++ [last]).map (·.bytes)) := by
    refine cutFramesLoop_flatten ?_ le_rfl
    intro f hf
    obtain ⟨b, hb, rfl⟩ := List.mem_map.1 hf
    exact (inv.stored b (hmem b hb)).framed
  have hlast := hmem last (by simp)
  have hbounds := inv.bounds hlast
  have hpos := inv.pos last hlast
  have hle := inv.range.2
  rw [recordSetEnd, hcut, Option.bind_some, List.map_append, List.map_singleton, List.getLast?_concat, Option.map_some,
    (inv.stored last hlast).end_eq hbounds.1 (by omega)]

/-- A batch cuts its log: all before it end below it, and what does not end with it is what follows. -/
theorem LogInv.cut (inv : LogInv crc32c inner) {front rest : List StoredBatch} {last : StoredBatch}
    (h : inner.batches = front ++ last :: rest) :
    inner.batches.dropWhile (fun b => b.lastOffset < last.lastOffset + 1) = rest ∧
      ∀ b ∈ front, b.lastOffset < last.baseOffset := by
  have htiles := inv.tiles
  have hpos := inv.pos
  rw [h, List.append_cons] at htiles hpos
  obtain ⟨m, hupto, hrest⟩ := Links.append_iff.1 htiles
  obtain ⟨m', hfront, hm', hm⟩ := Links.append_iff.1 hupto
  obtain rfl : last.lastOffset + 1 = m := hm
  refine ⟨?_, fun b hb => ?_⟩
  · show inner.batches.dropWhile (fun b => b.lastOffset + 1 ≤ last.lastOffset + 1) = rest
    rw [h, List.append_cons, hupto.dropWhile_append (fun b hb => hpos b (List.mem_append_left _ hb)) le_rfl]
    exact hrest.dropWhile_front fun b hb => hpos b (List.mem_append_right _ hb)
  · have hbound := (hfront.mem_bounds (fun d hd => hpos d (by simp [hd])) hb).2
    rw [← hm'] at hbound
    omega

/-- One poll below the end takes a run of batches off the front of what remains. -/
theorem poll_spec (inv : LogInv crc32c inner) {c : Consumer} {remaining : List StoredBatch} (h0 : 0 ≤ c.offset)
    (hlt : c.offset < inner.nextOffset)
    (hremaining : inner.batches.dropWhile (fun b => b.lastOffset < c.offset) = remaining) (limit : Nat) :
    ∃ taken rest next, remaining = taken ++ rest ∧ taken ≠ [] ∧ c.offset < next ∧ next ≤ inner.nextOffset ∧
      inner.batches.dropWhile (fun b => b.lastOffset < next) = rest ∧
      c.poll inner limit = some ⟨next, c.received ++ storedBytes taken⟩ := by
  obtain ⟨b, tail, hcons, hlow, hhigh⟩ : ∃ b rest, remaining = b :: rest ∧ b.baseOffset ≤ c.offset ∧ c.offset ≤ b.lastOffset := by
    obtain ⟨remaining', heq, hrem⟩ := inv.remaining h0 hlt.le
    exact (heq.symm.trans hremaining) ▸ hrem.covers hlt
  have hsub : ∀ d ∈ remaining, d ∈ inner.batches :=
    fun d hd => (List.dropWhile_sublist _).subset (hremaining ▸ hd)
  obtain ⟨taken, rest, hsplit, hne, hcollect⟩ := collectBatches_eq limit
    (fun d (hd : d ∈ remaining) => ⟨(inv.scannable (hsub d hd)).1, (inv.scannable (hsub d hd)).2.1, (inv.scannable (hsub d hd)).2.2.1,
      (inv.scannable (hsub d hd)).2.2.2.1⟩) []
  have hne := hne rfl (by rw [hcons]; simp)
  obtain ⟨init, last, rfl⟩ := (List.eq_nil_or_concat taken).resolve_left hne
  rw [List.concat_eq_append] at hsplit hcollect
  obtain ⟨before, hbefore⟩ : ∃ before, inner.batches = before ++ remaining :=
    ⟨_, (List.takeWhile_append_dropWhile ..).symm.trans (by rw [hremaining])⟩
  have hbatches : inner.batches = (before ++ init) ++ last :: rest := by rw [hbefore, hsplit]; simp
  obtain ⟨hdrop, hfront⟩ := inv.cut hbatches
  have hlastmem : last ∈ inner.batches := by rw [hbatches]; simp
  have hlastbounds := inv.bounds hlastmem
  have hafter : c.offset < last.lastOffset + 1 := by
    have hb : b ∈ init ++ [last] := by
      obtain ⟨first, more, hfirst⟩ := List.exists_cons_of_ne_nil (show init ++ [last] ≠ [] by simp)
      rw [hcons, hfirst] at hsplit
      obtain rfl : b = first := (List.cons.inj hsplit).1
      rw [hfirst]
      simp
    rcases List.mem_append.1 hb with hb | hb
    · have := hfront b (List.mem_append_right before hb)
      have := inv.pos last hlastmem
      omega
    · rw [← List.mem_singleton.1 hb]; omega
  refine ⟨init ++ [last], rest, last.lastOffset + 1, hsplit, by simp, hafter, by omega, hdrop, ?_⟩
  · have hrecords : fetch inner c.offset limit = some (.ok ⟨storedBytes (init ++ [last]), inner.nextOffset⟩) := by
      rw [fetch, if_neg (by omega), hremaining, hcollect]
      rfl
    have hbytes : storedBytes (init ++ [last]) ≠ [] := by
      have hlong := (inv.stored last hlastmem).framed.1
      intro hnil
      have := congrArg List.length hnil
      simp [storedBytes] at this
      simp [this.2] at hlong
    rw [Consumer.poll, hrecords]
    simp only [if_neg hbytes]
    rw [recordSetEnd_storedBytes inv fun d hd => hsub d (by rw [hsplit]; exact List.mem_append_left _ hd)]
    rfl

/-- A poll at the end gets nothing and stays there. -/
theorem poll_done (inv : LogInv crc32c inner) {c : Consumer} (h : c.offset = inner.nextOffset) (limit : Nat) :
    c.poll inner limit = some c := by
  have h0 := inv.range.1
  obtain ⟨remaining, heq, hremaining⟩ := inv.remaining (show 0 ≤ c.offset by omega) h.le
  rw [hremaining.done h] at heq
  rw [Consumer.poll, fetch, if_neg (by omega), heq]
  rfl

/-- After `n` polls the consumer has got all batches up to its offset, at least `n` of them or all there are. -/
theorem polls_spec (inv : LogInv crc32c inner) {offset : Int} (h0 : 0 ≤ offset) (hle : offset ≤ inner.nextOffset)
    {remaining : List StoredBatch} (hremaining : inner.batches.dropWhile (fun b => b.lastOffset < offset) = remaining)
    (limits : Nat → Nat) (n : Nat) :
    ∃ c taken rest, polls inner limits offset n = some c ∧ remaining = taken ++ rest ∧ c.received = storedBytes taken ∧
      0 ≤ c.offset ∧ c.offset ≤ inner.nextOffset ∧ inner.batches.dropWhile (fun b => b.lastOffset < c.offset) = rest ∧
      (c.offset < inner.nextOffset → n ≤ taken.length) := by
  induction n with
  | zero => exact ⟨⟨offset, []⟩, [], remaining, rfl, rfl, rfl, h0, hle, hremaining, fun _ => le_rfl⟩
  | succ n ih =>
    obtain ⟨c, taken, rest, hc, hsplit, hreceived, hc0, hcle, hrest, hcount⟩ := ih
    by_cases hlt : c.offset < inner.nextOffset
    · obtain ⟨more, rest', next, rfl, hne, hadvance, hnext, hrest', hpoll⟩ := poll_spec inv hc0 hlt hrest (limits n)
      refine ⟨_, taken ++ more, rest', by rw [polls, hc, Option.bind_some, hpoll], by simp [hsplit], ?_, ?_, hnext, hrest', ?_⟩
      · simp [hreceived, storedBytes]
      · show 0 ≤ next
        omega
      · intro _
        have := hcount hlt
        have := List.length_pos_of_ne_nil hne
        rw [List.length_append]
        omega
    · have hdone : c.offset = inner.nextOffset := by omega
      refine ⟨c, taken, rest, by rw [polls, hc, Option.bind_some, poll_done inv hdone], hsplit, hreceived, hc0, hcle, hrest, ?_⟩
      exact fun h => absurd h hlt

theorem fetch_outOfRange (inv : LogInv crc32c inner) (offset : Int) (limit : Nat) :
    ∃ out, fetch inner offset limit = some out ∧
      (out = .error .outOfRange ↔ offset < 0 ∨ inner.nextOffset < offset) := by
  by_cases h : offset < 0 ∨ inner.nextOffset < offset
  · exact ⟨_, if_pos h, by simp [h]⟩
  · have hscan : ∀ b ∈ inner.batches.dropWhile (fun b => b.lastOffset < offset), Scannable b :=
      fun b hb => inv.scannable ((List.dropWhile_sublist _).subset hb)
    obtain ⟨taken, rest, -, -, heq⟩ := collectBatches_eq limit
      (fun b hb => ⟨(hscan b hb).1, (hscan b hb).2.1, (hscan b hb).2.2.1, (hscan b hb).2.2.2.1⟩) []
    exact ⟨_, by rw [fetch, if_neg h, heq]; rfl, by simp [h]⟩

end

/-- Consumer progress. A fetch never panics and is out of range exactly outside the log; every answer is the longest run
of the remaining batches within the limit, or the first of them alone; and whatever the limits, a consumer's loop moves on
with every poll until it has got all remaining batches, after at most as many polls as there are of them. -/
theorem consumer_progress (crc32c : Bytes → UInt32) (tr : List AppendEvent) (s : PartitionLogInner)
    (hrun : (partitionLog crc32c).Run tr s) :
    (∀ offset limit, ∃ out, fetch s offset limit = some out ∧
      (out = .error .outOfRange ↔ offset < 0 ∨ s.nextOffset < offset)) ∧
    ∀ offset, 0 ≤ offset → offset ≤ s.nextOffset → ∃ remaining, Remaining s offset remaining ∧
      (∀ limit, limit < 2 ^ 64 → ∃ taken, Served limit remaining taken ∧
        fetch s offset limit = some (.ok ⟨storedBytes taken, s.nextOffset⟩)) ∧
      ∀ limits : Nat → Nat, ∃ c : Nat → Consumer, (∀ n, polls s limits offset n = some (c n)) ∧
        (∀ n, (c n).offset < s.nextOffset → (c n).offset < (c (n + 1)).offset) ∧
        ∃ n ≤ remaining.length, ∀ m, n ≤ m → (c m).offset = s.nextOffset ∧ (c m).received = storedBytes remaining := by
  have inv := LogInv.of_run hrun
  refine ⟨fetch_outOfRange inv, fun offset h0 hle => ?_⟩
  obtain ⟨remaining, hdrop, hremaining⟩ := inv.remaining h0 hle
  refine ⟨remaining, hremaining, fun limit hlimit => fetch_served inv h0 hle hlimit hdrop, fun limits => ?_⟩
  choose c taken rest hc hsplit hreceived hc0 hcle hrest hcount using polls_spec inv h0 hle hdrop limits
  refine ⟨c, hc, fun n hlt => ?_, remaining.length, le_rfl, fun m hm => ?_⟩
  · obtain ⟨more, rest', next, -, -, hadvance, -, -, hpoll⟩ := poll_spec inv (hc0 n) hlt (hrest n) (limits n)
    have hnext := hc (n + 1)
    rw [polls, hc n, Option.bind_some, hpoll] at hnext
    rw [← Option.some.inj hnext]
    exact hadvance
  · -- a batch that is left would make one more poll count than there are batches
    have hdone : (c m).offset = s.nextOffset := by
      by_contra hne
      have hlt : (c m).offset < s.nextOffset := by have := hcle m; omega
      obtain ⟨more, rest', next, heq, hmore, -⟩ := poll_spec inv (hc0 m) hlt (hrest m) 0
      have hlen := congrArg List.length (hsplit m)
      rw [heq, List.length_append, List.length_append] at hlen
      have := hcount m hlt
      have := List.length_pos_of_ne_nil hmore
      omega
    obtain ⟨left, hleft, hdone'⟩ := inv.remaining (hc0 m) (hcle m)
    refine ⟨hdone, ?_⟩
    rw [hreceived m, hsplit m, ← hrest m, hleft, hdone'.done hdone, List.append_nil]

theorem consumer_progress_small_limit :
    ∃ tr s, (partitionLog castagnoli).exec .default [sampleFrame 7 0 0 2, sampleFrame 7 0 2 1] = some (tr, s) ∧
      ∃ n, (polls s (fun _ => 0) 1 n).map (·.offset) = some 3 := by
  have hsome : (((partitionLog castagnoli).exec .default [sampleFrame 7 0 0 2, sampleFrame 7 0 2 1]).map fun r =>
      r.2.nextOffset) = some 3 := by decide +kernel
  obtain ⟨⟨tr, s⟩, hx, hnext⟩ := Option.map_eq_some_iff.1 hsome
  replace hnext : s.nextOffset = 3 := hnext
  obtain ⟨-, hloop⟩ := consumer_progress castagnoli tr s (Machine.exec_path hx).1
  obtain ⟨remaining, -, -, hpolls⟩ := hloop 1 (by decide) (by rw [hnext]; decide)
  obtain ⟨c, hc, -, n, -, hdone⟩ := hpolls fun _ => 0
  exact ⟨tr, s, hx, n, by rw [hc n, Option.map_some, (hdone n le_rfl).1, hnext]⟩

end MemKafka
