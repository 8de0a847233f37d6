import MemKafka.Retry

/-!
# What `fetch` returns

On a log that satisfies `LogInv`, `fetch` skips the batches that end before the offset and returns a
non-empty run of those that follow, whatever the limit. The returned bytes can be cut again at the
batch lengths of their frames (`cutFrames`), and the cut gives back the stored batches.
-/

namespace MemKafka
open Kit Outcome

/-- Cuts a byte string into frames, each `12 + batch_length` bytes long by its own header. -/
def cutFramesLoop : Nat → Bytes → Option (List Bytes)
  | _, [] => some []
  | 0, _ :: _ => none
  | fuel + 1, b :: bs =>
    let size := 12 + frameBatchLength (b :: bs)
    if (b :: bs).length < 12 ∨ size < 12 ∨ (b :: bs).length < size then none
    else (cutFramesLoop fuel ((b :: bs).drop size.toNat)).map ((b :: bs).take size.toNat :: ·)

def cutFrames (bs : Bytes) : Option (List Bytes) := cutFramesLoop bs.length bs

theorem cutFramesLoop_cons {fuel : Nat} {f rest : Bytes} (h12 : 12 ≤ f.length)
    (hf : (f.length : Int) = 12 + frameBatchLength f) :
    cutFramesLoop (fuel + 1) (f ++ rest) = (cutFramesLoop fuel rest).map (f :: ·) := by
  have hlen : frameBatchLength (f ++ rest) = frameBatchLength f := by
    unfold frameBatchLength
    rw [← wordAt_take (n := f.length) (by omega), List.take_left]
  obtain ⟨b, bs, hb⟩ : ∃ b bs, f ++ rest = b :: bs := by
    cases f with
    | nil => simp at h12
    | cons b f => exact ⟨b, f ++ rest, rfl⟩
  have hsize : (12 + frameBatchLength (b :: bs)).toNat = f.length := by rw [← hb, hlen, ← hf]; rfl
  rw [hb, cutFramesLoop, if_neg, hsize, ← hb, List.drop_left, List.take_left]
  rw [← hb, hlen, List.length_append]
  omega

/-- Frames laid end to end are cut where they were joined. -/
theorem cutFramesLoop_flatten {fs : List Bytes}
    (hfs : ∀ f ∈ fs, 12 ≤ f.length ∧ (f.length : Int) = 12 + frameBatchLength f)
    {fuel : Nat} (hfuel : fs.flatten.length ≤ fuel) : cutFramesLoop fuel fs.flatten = some fs := by
  induction fs generalizing fuel with
  | nil => cases fuel <;> rfl
  | cons f fs ih =>
    obtain ⟨h12, hf⟩ := hfs f (by simp)
    rw [List.flatten_cons, List.length_append] at hfuel
    obtain ⟨fuel, rfl⟩ : ∃ n, fuel = n + 1 := ⟨fuel - 1, by omega⟩
    rw [List.flatten_cons, cutFramesLoop_cons h12 hf, ih (fun g hg => hfs g (by simp [hg])) (by omega)]
    rfl

/-! ### Stored frames -/

section
variable {crc32c : Bytes → UInt32} {b : StoredBatch}

theorem StoredBatch.Holds.wordAt_eq {f : Bytes} (h : b.Holds f) {i k : Nat} (hi : 8 ≤ i) :
    wordAt b.bytes i k = wordAt f i k := by
  obtain ⟨j, rfl⟩ := Nat.exists_eq_add_of_le hi
  rw [← wordAt_drop, ← wordAt_drop, h.rest]

theorem IsStored.framed (h : IsStored crc32c b) :
    12 ≤ b.bytes.length ∧ (b.bytes.length : Int) = 12 + frameBatchLength b.bytes := by
  obtain ⟨f, hf, -, hold⟩ := h.frame
  have h61 : 61 ≤ f.length := hf.long
  have hlen : frameBatchLength b.bytes = frameBatchLength f := by
    unfold frameBatchLength; rw [hold.wordAt_eq (by omega)]
  rw [hlen, hold.length]
  exact ⟨by omega, hf.length⟩

/-- The first eight bytes of a stored frame read back as its base offset. -/
theorem IsStored.frameBaseOffset_eq (h : IsStored crc32c b) (h0 : 0 ≤ b.baseOffset) (hle : b.baseOffset ≤ i64Max) :
    frameBaseOffset b.bytes = b.baseOffset := by
  obtain ⟨f, -, -, hold⟩ := h.frame
  unfold frameBaseOffset wordAt
  rw [List.drop_zero, hold.offset]
  have : i64Max = 9223372036854775807 := rfl
  exact beInt_beOfInt (by norm_num; omega) (by norm_num; omega)

end

/-! ### The scan -/

/-- The loop of `fetch` returns a run of batches from the first on; it is empty only if there is none. -/
theorem collectBatches_eq (partitionMaxBytes : Nat) {batches : List StoredBatch}
    (hb : ∀ b ∈ batches, 0 ≤ b.baseOffset ∧ b.lastOffset < i64Max ∧ 1 ≤ b.recordCount ∧
      b.lastOffset = b.baseOffset + b.recordCount - 1) (records : Bytes) :
    ∃ taken rest, batches = taken ++ rest ∧ (records = [] → batches ≠ [] → taken ≠ []) ∧
      collectBatches partitionMaxBytes records batches = some (records ++ (taken.map (·.bytes)).flatten) := by
  induction batches generalizing records with
  | nil => exact ⟨[], [], rfl, fun _ h => absurd rfl h, by simp [collectBatches]⟩
  | cons b batches ih =>
    obtain ⟨h0, hmax, hcount, hlast⟩ := hb b (by simp)
    have hmin : i64Min ≤ 0 := by decide
    have a1 : addI64 b.lastOffset (-b.baseOffset) = some (b.recordCount - 1) := by
      rw [addI64, if_pos (by omega), hlast]; congr 1; omega
    have a2 : addI64 (b.recordCount - 1) 1 = some b.recordCount := by
      rw [addI64, if_pos (by omega), Int.sub_add_cancel]
    unfold collectBatches
    simp only [a1, a2, Option.bind_eq_bind, Option.bind_some, ne_eq, not_true_eq_false, if_false]
    split
    · -- the limit is reached and something was collected before
      rename_i hstop
      exact ⟨[], b :: batches, rfl, fun h => absurd h hstop.1, by simp⟩
    · obtain ⟨taken, rest, rfl, -, hc⟩ := ih (fun c hc => hb c (by simp [hc])) (records ++ b.bytes)
      exact ⟨b :: taken, rest, rfl, fun _ _ => by simp, by rw [hc]; simp⟩

section
variable {crc32c : Bytes → UInt32} {inner : PartitionLogInner}

theorem LogInv.bounds (inv : LogInv crc32c inner) {b : StoredBatch} (hb : b ∈ inner.batches) :
    0 ≤ b.baseOffset ∧ b.lastOffset < inner.nextOffset := by
  have h := inv.tiles.mem_bounds inv.pos hb
  exact ⟨h.1, by have := h.2; omega⟩

/-- A non-empty run of the batches of a log whose first is `first`, as `fetch` returns it. -/
structure FetchRun (inner : PartitionLogInner) (first : StoredBatch) (snapshot : FetchSnapshot) : Prop where
  highWatermark : snapshot.highWatermark = inner.nextOffset
  run : ∃ before rest after, inner.batches = before ++ (first :: rest) ++ after ∧
    cutFrames snapshot.records = some ((first :: rest).map (·.bytes)) ∧
    ((first :: rest).map fun b => frameBaseOffset b.bytes).Pairwise (· < ·)
  head : ∃ rest, snapshot.records = first.bytes ++ rest

/-- Whatever the limit, a fetch below the next offset returns a run from the batch that covers it. -/
theorem fetch_run (inv : LogInv crc32c inner) {o : Int} {before after : List StoredBatch} {b : StoredBatch}
    (ho : 0 ≤ o) (ho' : o ≤ inner.nextOffset) (hbatches : inner.batches = before ++ b :: after)
    (hskip : inner.batches.dropWhile (fun b => b.lastOffset < o) = b :: after) (partitionMaxBytes : Nat) :
    ∃ snapshot, fetch inner o partitionMaxBytes = some (.ok snapshot) ∧ FetchRun inner b snapshot := by
  have hmem : ∀ c ∈ b :: after, c ∈ inner.batches := by
    intro c hc; rw [hbatches]; exact List.mem_append_right _ hc
  have hle := inv.range.2
  have hscan : ∀ c ∈ b :: after, 0 ≤ c.baseOffset ∧ c.lastOffset < i64Max ∧ 1 ≤ c.recordCount ∧
      c.lastOffset = c.baseOffset + c.recordCount - 1 := by
    intro c hc
    have h1 := inv.bounds (hmem c hc)
    have h2 := inv.stored c (hmem c hc)
    exact ⟨h1.1, by omega, h2.count, h2.last⟩
  obtain ⟨taken, rest, htaken, hne, hc⟩ := collectBatches_eq partitionMaxBytes hscan []
  obtain ⟨first, taken, rfl⟩ := List.exists_cons_of_ne_nil (hne rfl (by simp))
  obtain ⟨rfl, rfl⟩ : b = first ∧ after = taken ++ rest := by simpa using htaken
  rw [List.nil_append] at hc
  have hsub : ∀ c ∈ b :: taken, c ∈ inner.batches :=
    fun c hc => hmem c (by rw [htaken]; exact List.mem_append_left _ hc)
  have hincreasing : (b :: taken).Pairwise fun c d => frameBaseOffset c.bytes < frameBaseOffset d.bytes := by
    have hp := inv.tiles.pairwise inv.pos
    rw [hbatches, htaken] at hp
    have hp := (List.pairwise_append.1 (List.pairwise_append.1 hp).2.1).1
    refine hp.imp_of_mem fun {c d} hc hd hcd => ?_
    have hc1 := inv.bounds (hsub c hc)
    have hd1 := inv.bounds (hsub d hd)
    have hc2 := (inv.stored c (hsub c hc)).pos
    have hd2 := (inv.stored d (hsub d hd)).pos
    rw [(inv.stored c (hsub c hc)).frameBaseOffset_eq hc1.1 (by omega),
      (inv.stored d (hsub d hd)).frameBaseOffset_eq hd1.1 (by omega)]
    omega
  refine ⟨⟨((b :: taken).map (·.bytes)).flatten, inner.nextOffset⟩, ?_, rfl, ⟨before, taken, rest, ?_, ?_, ?_⟩, ?_⟩
  · rw [fetch, if_neg (by omega), hskip, hc]; rfl
  · rw [hbatches, htaken, List.append_assoc]
  · refine cutFramesLoop_flatten ?_ le_rfl
    intro f hf
    obtain ⟨c, hc, rfl⟩ := List.mem_map.1 hf
    exact (inv.stored c (hsub c hc)).framed
  · rw [List.pairwise_map]; exact hincreasing
  · exact ⟨_, by rw [List.map_cons, List.flatten_cons]⟩

end

/-! ### Fetching a stored record set -/

/-- The log holds the record set `vs` from offset `base` on. -/
def Backs (inner : PartitionLogInner) (base : Int) (vs : List ValidatedBatch) : Prop :=
  storedBatches base vs <:+: inner.batches

theorem mem_storedBatches {vs : List ValidatedBatch} {base : Int} {b : StoredBatch} (h : b ∈ storedBatches base vs) :
    ∃ before v after, vs = before ++ v :: after ∧
      b = ⟨base + recordSum before, base + recordSum before + v.recordCount - 1, v.recordCount,
        beOfInt 8 (base + recordSum before) ++ v.bytes.drop 8⟩ := by
  induction vs generalizing base with
  | nil => simp [storedBatches] at h
  | cons v vs ih =>
    rcases List.mem_cons.1 h with rfl | h
    · exact ⟨[], v, vs, rfl, by simp [recordSum]⟩
    · obtain ⟨before, w, after, rfl, rfl⟩ := ih h
      exact ⟨v :: before, w, after, rfl, by rw [recordSum_cons, Int.add_assoc]⟩

/-- A fetch inside a stored record set starts with the batch of it that covers the offset. -/
theorem fetch_backed {crc32c : Bytes → UInt32} {inner : PartitionLogInner} {base o : Int} {vs : List ValidatedBatch}
    (inv : LogInv crc32c inner) (h : Backs inner base vs) (ho : base ≤ o) (ho' : o < base + recordSum vs)
    (partitionMaxBytes : Nat) :
    ∃ snapshot before v after b, fetch inner o partitionMaxBytes = some (.ok snapshot) ∧ vs = before ++ v :: after ∧
      b.baseOffset = base + recordSum before ∧ b.recordCount = v.recordCount ∧
      b.baseOffset ≤ o ∧ o < b.baseOffset + b.recordCount ∧
      b.bytes = beOfInt 8 (base + recordSum before) ++ v.bytes.drop 8 ∧ FetchRun inner b snapshot := by
  obtain ⟨front, back, hbatches⟩ := h
  have hpos := inv.pos
  have htiles := inv.tiles
  rw [← hbatches] at htiles hpos
  obtain ⟨m', hfrontstored, hback⟩ := Links.append_iff.1 htiles
  obtain ⟨m, hfront, hstored⟩ := Links.append_iff.1 hfrontstored
  -- the record set is not empty, so it starts where the batches before it end
  have hm : m = base ∧ m' = base + recordSum vs := by
    have hlinks := storedBatches_links base vs
    cases vs with
    | nil => simp [recordSum] at ho'; omega
    | cons v vs =>
      obtain rfl : base = m := hstored.1
      exact ⟨rfl, hstored.unique hlinks⟩
  obtain ⟨rfl, rfl⟩ := hm
  have h0 : 0 ≤ m := hfront.le fun b hb => hpos b (by simp [hb])
  have hend : m + recordSum vs ≤ inner.nextOffset := hback.le fun b hb => hpos b (by simp [hb])
  obtain ⟨b, rest, hdrop, hlow, hhigh⟩ := hstored.cover ho ho'
  have hb : b ∈ storedBatches m vs := (List.dropWhile_sublist _).subset (by rw [hdrop]; simp)
  obtain ⟨before, v, after, rfl, rfl⟩ := mem_storedBatches hb
  have hskip : inner.batches.dropWhile (fun b => b.lastOffset < o) =
      ⟨m + recordSum before, m + recordSum before + v.recordCount - 1, v.recordCount,
        beOfInt 8 (m + recordSum before) ++ v.bytes.drop 8⟩ :: (rest ++ back) := by
    have heq : inner.batches.dropWhile (fun b => b.lastOffset < o) = inner.batches.dropWhile (fun b => b.lastOffset + 1 ≤ o) := rfl
    rw [heq, ← hbatches, List.append_assoc, hfront.dropWhile_append (fun b hb => hpos b (by simp [hb])) ho,
      List.dropWhile_append, hdrop]
    rfl
  obtain ⟨skipped, hsplit⟩ : ∃ skipped, inner.batches = skipped ++ inner.batches.dropWhile (fun b => b.lastOffset < o) :=
    ⟨_, (List.takeWhile_append_dropWhile ..).symm⟩
  rw [hskip] at hsplit
  obtain ⟨snapshot, hfetch, hrun⟩ := fetch_run inv (by omega) (by omega) hsplit hskip partitionMaxBytes
  refine ⟨snapshot, before, v, after, _, hfetch, rfl, rfl, rfl, hlow, ?_, rfl, hrun⟩
  show o < m + recordSum before + v.recordCount
  have : o < m + recordSum before + v.recordCount - 1 + 1 := hhigh
  omega

/-! ### Acknowledged record sets -/

/-- Whether it was stored now or is a replay, a record set whose append succeeds is in the log at the
offset returned. -/
theorem append_backs {crc32c : Bytes → UInt32} {inner inner' : PartitionLogInner} {records : Bytes}
    {result : AppendResult} (inv : LogInv crc32c inner) (win : WindowInv crc32c inner)
    (h : append crc32c inner records = some (.ok result, inner')) :
    ∃ vs, validateRecordSet crc32c records = ok vs ∧ Backs inner' result.baseOffset vs := by
  cases append_step inv.range h with
  | appended hq ha hle => exact ⟨_, validateRecordSet_eq_ok.2 hq.set, List.suffix_append .. |>.isInfix⟩
  | replayed hq hp hs he hf =>
    rename_i request producer state recent
    have hentry := (win _ state hs).entries recent (List.mem_of_find?_eq_some hf)
    obtain ⟨-, hencoded⟩ := (isRetry_iff hq hentry).1 (List.find?_some hf)
    obtain ⟨vs, before, after, -, hframes, hvs, hb⟩ := hentry.stored
    obtain rfl : vs = request.validated :=
      eq_of_map_bytes hframes hq.set.frames (by rw [← hvs, hencoded, hq.encoded])
    exact ⟨_, validateRecordSet_eq_ok.2 hq.set, before, after, hb.symm⟩

/-- A log is only ever added to. -/
theorem append_batches {crc32c : Bytes → UInt32} {inner inner' : PartitionLogInner} {records : Bytes}
    {out : Except AppendError AppendResult} (inv : LogInv crc32c inner)
    (h : append crc32c inner records = some (out, inner')) : inner.batches <+: inner'.batches := by
  cases append_step inv.range h with
  | rejected => exact List.prefix_rfl
  | replayed => exact List.prefix_rfl
  | appended => exact List.prefix_append ..

theorem Backs.mono {inner inner' : PartitionLogInner} {base : Int} {vs : List ValidatedBatch}
    (h : Backs inner base vs) (hp : inner.batches <+: inner'.batches) : Backs inner' base vs :=
  h.trans hp.isInfix

end MemKafka
