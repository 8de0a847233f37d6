import MemKafka.BrokerHandlers
import MemKafka.Consumer

/-!
# Consumers of a growing log

A consumer asks ListOffsets where to start and then fetches on and on, while producers go on appending. Its `Position` is
a boundary between batches, and what is before a boundary never changes, so a consumer gets the batches from its start on,
each once and in order, however its fetches and the appends interleave.
-/

namespace MemKafka
open Kit Outcome

/-! ### Where a consumer stands -/

/-- What a consumer makes of the answer of a fetch; `none` if it cannot be read. -/
def Consumer.receive (c : Consumer) (snapshot : FetchSnapshot) : Option Consumer :=
  if snapshot.records = [] then some c
  else (recordSetEnd snapshot.records).map fun next => ⟨next, c.received ++ snapshot.records⟩

/-- The batches of a list end at an offset, and the log begins with them. -/
def Boundary (inner : PartitionLogInner) (passed : List StoredBatch) (offset : Int) : Prop :=
  passed <+: inner.batches ∧ BatchLinks 0 passed offset

/-- A consumer that started after the batches `skipped` has got the batches `taken`. -/
structure Position (inner : PartitionLogInner) (skipped taken : List StoredBatch) (c : Consumer) : Prop where
  boundary : Boundary inner (skipped ++ taken) c.offset
  received : c.received = storedBytes taken

section
variable {crc32c : Bytes → UInt32} {inner inner' : PartitionLogInner} {passed skipped taken : List StoredBatch} {c : Consumer}
  {offset : Int}

theorem Boundary.mono (h : Boundary inner passed offset) (hgrown : inner.batches <+: inner'.batches) :
    Boundary inner' passed offset :=
  ⟨h.1.trans hgrown, h.2⟩

theorem Position.mono (h : Position inner skipped taken c) (hgrown : inner.batches <+: inner'.batches) :
    Position inner' skipped taken c :=
  ⟨h.boundary.mono hgrown, h.received⟩

theorem Position.start (h : Boundary inner skipped offset) : Position inner skipped [] ⟨offset, []⟩ :=
  ⟨by rwa [List.append_nil], rfl⟩

/-- The two ends of a log are boundaries. -/
theorem Boundary.first : Boundary inner [] 0 := ⟨List.nil_prefix, rfl⟩

theorem Boundary.last (inv : LogInv crc32c inner) : Boundary inner inner.batches inner.nextOffset :=
  ⟨List.prefix_rfl, inv.tiles⟩

/-- At a boundary a fetch is in range, and what it reads begins with the batch after it. -/
theorem Boundary.rest (inv : LogInv crc32c inner) (h : Boundary inner passed offset) :
    0 ≤ offset ∧ offset ≤ inner.nextOffset ∧ ∃ rest, inner.batches = passed ++ rest ∧
      inner.batches.dropWhile (fun b => b.lastOffset < offset) = rest ∧ (offset < inner.nextOffset ↔ rest ≠ []) := by
  obtain ⟨⟨rest, hrest⟩, hlinks⟩ := h
  have hpos := inv.pos
  have htiles := inv.tiles
  rw [← hrest] at hpos htiles
  have hpassed := fun b hb => hpos b (List.mem_append_left rest hb)
  have hrestPos := fun b hb => hpos b (List.mem_append_right passed hb)
  obtain ⟨m, hm, hlast⟩ := Links.append_iff.1 htiles
  obtain rfl := hm.unique hlinks
  refine ⟨hm.le hpassed, hlast.le hrestPos, rest, hrest.symm, ?_, ?_⟩
  · show inner.batches.dropWhile (fun b => b.lastOffset + 1 ≤ m) = rest
    rw [← hrest, hm.dropWhile_append hpassed le_rfl]
    exact hlast.dropWhile_front hrestPos
  · cases rest with
    | nil =>
      obtain rfl := Links.nil_iff.1 hlast
      simp
    | cons b rest =>
      obtain ⟨rfl, hnext⟩ := hlast
      have hb := hrestPos b (by simp)
      have hle : b.lastOffset + 1 ≤ inner.nextOffset := hnext.le fun d hd => hrestPos d (by simp [hd])
      simp only [ne_eq, reduceCtorEq, not_false_eq_true, iff_true]
      omega

/-- One poll: it takes batches off the front of what is left, and some if there are any. -/
theorem Position.poll (inv : LogInv crc32c inner) (h : Position inner skipped taken c) (limit : Nat) :
    ∃ snapshot c' more, fetch inner c.offset limit = some (.ok snapshot) ∧ c.receive snapshot = some c' ∧
      Position inner skipped (taken ++ more) c' ∧ (more = [] → inner.batches = skipped ++ taken) := by
  obtain ⟨h0, hle, rest, hbatches, hdrop, hlt⟩ := h.boundary.rest inv
  -- a poll of the log as it stands, in two steps
  have hread : ∀ c', c.poll inner limit = some c' → ∃ snapshot, fetch inner c.offset limit = some (.ok snapshot) ∧
      c.receive snapshot = some c' := by
    intro c' hpoll
    unfold Consumer.poll at hpoll
    split at hpoll
    · exact ⟨_, ‹_›, hpoll⟩
    · cases hpoll
  by_cases hend : c.offset < inner.nextOffset
  · obtain ⟨more, rest', next, rfl, hne, hadvance, -, -, hpoll⟩ := poll_spec inv h0 hend hdrop limit
    obtain ⟨snapshot, hfetch, hreceive⟩ := hread _ hpoll
    obtain ⟨init, last, rfl⟩ := (List.eq_nil_or_concat more).resolve_left hne
    rw [List.concat_eq_append] at hreceive hbatches
    refine ⟨snapshot, _, init ++ [last], hfetch, hreceive, ⟨⟨⟨rest', ?_⟩, ?_⟩, ?_⟩, by simp⟩
    · rw [hbatches]
      simp only [List.append_assoc]
    · -- the next offset is the one after the last record, where the last batch ends
      have hnext : next = last.lastOffset + 1 := by
        unfold Consumer.receive at hreceive
        split at hreceive
        · have := congrArg Consumer.offset (Option.some.inj hreceive)
          dsimp only at this
          omega
        · obtain ⟨next', hset, heq⟩ := Option.map_eq_some_iff.1 hreceive
          obtain ⟨rfl, hbytes⟩ := Consumer.mk.inj heq
          rw [List.append_cancel_left hbytes, recordSetEnd_storedBytes inv fun d hd => by rw [hbatches]; simp at hd ⊢; tauto] at hset
          exact (Option.some.inj hset).symm
      have htiles := inv.tiles
      rw [hbatches, ← List.append_assoc, ← List.append_assoc] at htiles
      obtain ⟨m, hm, -⟩ := Links.append_iff.1 htiles
      obtain ⟨m', -, -, hlast⟩ := Links.append_iff.1 hm
      obtain rfl : last.lastOffset + 1 = m := hlast
      rw [hnext, ← List.append_assoc, ← List.append_assoc]
      exact hm
    · rw [h.received]
      simp [storedBytes]
  · have hdone : c.offset = inner.nextOffset := by omega
    obtain ⟨snapshot, hfetch, hreceive⟩ := hread _ (poll_done inv hdone limit)
    have hnil : rest = [] := by
      by_contra hne
      exact hend (hlt.2 hne)
    refine ⟨snapshot, c, [], hfetch, hreceive, by rwa [List.append_nil], fun _ => ?_⟩
    rw [hbatches, hnil, List.append_nil]

end

/-! ### Following a log -/

/-- Polls one after the other, each with a limit of its own; `none` as soon as one fails or cannot be read. -/
def follow (topic : String) (index : Int) (c : Consumer) : List Nat → BrokerHandler (Option Consumer)
  | [] => pure (some c)
  | limit :: limits => do
    match ← Client.ask (BrokerCall.fetch topic index c.offset limit) with
    | some (.ok snapshot) =>
      match c.receive snapshot with
      | some c => follow topic index c limits
      | none => pure none
    | _ => pure none

section
variable {crc32c : Bytes → UInt32} {config : BrokerConfig} {s s' : BrokerState} {tr : List BrokerEvent} {topic : String}
  {index : Int} {log : LogRef} {inner : PartitionLogInner} {skipped taken : List StoredBatch} {c : Consumer}

/-- A log of the store, with what a path leaves of it. -/
theorem log_path (inv : BrokerInv crc32c s) (hpath : (broker crc32c config).Path s tr s') (hlog : s.data.topics.logs[log]? = some inner) :
    ∃ inner', s'.data.topics.logs[log]? = some inner' ∧ inner.batches <+: inner'.batches ∧ LogInv crc32c inner' := by
  obtain ⟨hext, inv'⟩ := extends_path hpath inv
  obtain ⟨inner', hlog', hgrown⟩ := hext.logs log inner hlog
  exact ⟨inner', hlog', hgrown, (inv'.logs inner' (List.mem_of_getElem? hlog')).1⟩

theorem follow_served (inv : BrokerInv crc32c s) (hpartition : s.data.topics.catalog.partition topic index = some log)
    (hlog : s.data.topics.logs[log]? = some inner) (hpos : Position inner skipped taken c) {limits : List Nat} {result : Option Consumer}
    (hserved : (follow topic index c limits).Serves crc32c config s tr s' result) :
    ∃ c' inner' more, result = some c' ∧ s'.data.topics.logs[log]? = some inner' ∧
      Position inner' skipped (taken ++ more) c' ∧
      (limits.length ≤ more.length ∨ inner.batches <+: skipped ++ (taken ++ more)) := by
  induction limits generalizing s tr inner taken c with
  | nil =>
    obtain ⟨hpath, rfl⟩ := Client.serves_pure.1 hserved
    obtain ⟨inner', hlog', hgrown, -⟩ := log_path inv hpath hlog
    exact ⟨c, inner', [], rfl, hlog', by simpa using hpos.mono hgrown, .inl le_rfl⟩
  | cons limit limits ih =>
    obtain ⟨tr₁, s₁, tr₂, answer, rfl, hasked, hrest⟩ := Client.serves_bind.1 hserved
    obtain ⟨tr₃, s₂, tr₄, s₃, tr₅, rfl, h₁, h₂, ⟨e, rfl, hlabel, hout⟩, h₃⟩ := Client.serves_ask.1 hasked
    obtain ⟨hext, inv₂⟩ := extends_path h₁ inv
    obtain ⟨inner₂, hlog₂, hgrown, linv⟩ := log_path inv h₁ hlog
    have hpartition₂ := hext.partition _ _ _ hpartition
    obtain ⟨snapshot, c', more, hfetch, hreceive, hpos', hdone⟩ := (hpos.mono hgrown).poll linv limit
    -- the step of the fetch reads the log as it stands, and leaves it
    obtain ⟨⟨rfl, rfl⟩, htakes⟩ := h₂
    have hstep := htakes e (by simp)
    obtain ⟨pre, label, out, post⟩ := e
    dsimp only at hlabel hout hlog₂ hpartition₂ inv₂ h₃
    subst hlabel hout
    change pre.step crc32c config (.fetch topic index c.offset limit) = some (.fetched answer, post) at hstep
    simp only [BrokerState.step, hpartition₂, Option.bind_some, hlog₂, hfetch, Option.map_some, Option.some.injEq, Prod.mk.injEq,
      BrokerReply.fetched.injEq] at hstep
    obtain ⟨rfl, rfl⟩ := hstep
    simp only [hreceive] at hrest
    obtain ⟨c'', inner', more', rfl, hlog', hpos'', hcount⟩ := ih inv₂ hpartition₂ hlog₂ hpos' (Client.Serves.prepend h₃ hrest)
    refine ⟨c'', inner', more ++ more', rfl, hlog', by rwa [← List.append_assoc], ?_⟩
    by_cases hmore : more = []
    · refine .inr (hgrown.trans ⟨more ++ more', ?_⟩)
      rw [hdone hmore, List.append_assoc]
    · rcases hcount with hcount | hcount
      · have := List.length_pos_of_ne_nil hmore
        refine .inl ?_
        rw [List.length_cons, List.length_append]
        omega
      · refine .inr (hgrown.trans ?_)
        rwa [List.append_assoc] at hcount

/-- A poll that is the next step. -/
theorem follow_step {limit : Nat} {limits : List Nat} {snapshot : FetchSnapshot} {c' : Consumer} {result : Option Consumer} {s₁ : BrokerState}
    (hstep : (broker crc32c config).step s (.fetch topic index c.offset limit) = some (.fetched (some (.ok snapshot)), s₁))
    (hreceive : c.receive snapshot = some c') (hrest : (follow topic index c' limits).Serves crc32c config s₁ tr s' result) :
    (follow topic index c (limit :: limits)).Serves crc32c config s
      (⟨s, .fetch topic index c.offset limit, .fetched (some (.ok snapshot)), s₁⟩ :: tr) s' result := by
  refine Client.serves_step hstep ⟨_, rfl, rfl, rfl⟩ ?_
  simp only [Client.bind, hreceive]
  exact hrest

/-- Following a log from a boundary on, with what as many polls as there are batches ahead of it get. -/
theorem follow_from (inv : BrokerInv crc32c s) (hpartition : s.data.topics.catalog.partition topic index = some log)
    (hlog : s.data.topics.logs[log]? = some inner) {offset : Int} (hboundary : Boundary inner skipped offset) {limits : List Nat}
    {result : Option Consumer} (hserved : (follow topic index ⟨offset, []⟩ limits).Serves crc32c config s tr s' result) :
    ∃ c inner' taken ahead, result = some c ∧ s'.data.topics.logs[log]? = some inner' ∧
      inner'.batches = skipped ++ taken ++ ahead ∧ c.received = storedBytes taken ∧ Boundary inner' (skipped ++ taken) c.offset ∧
      (inner.batches.length ≤ skipped.length + limits.length → inner.batches <+: skipped ++ taken) := by
  obtain ⟨c, inner', taken, rfl, hlog', hpos, hcount⟩ := follow_served inv hpartition hlog (.start hboundary) hserved
  rw [List.nil_append] at hpos hcount
  obtain ⟨ahead, hahead⟩ := hpos.boundary.1
  refine ⟨c, inner', taken, ahead, rfl, hlog', hahead.symm, hpos.received, hpos.boundary, fun hlength => ?_⟩
  rcases hcount with hcount | hcount
  · -- as many batches were taken as there were, and both lists begin the log that is there now
    obtain ⟨inner'', hlog'', hgrown, -⟩ := log_path inv (Client.Serves.path hserved) hlog
    obtain rfl := Option.some.inj (hlog'.symm.trans hlog'')
    refine List.prefix_of_prefix_length_le hgrown hpos.boundary.1 ?_
    rw [List.length_append]
    omega
  · exact hcount

end

/-! ### Where to start -/

/-- An answer of ListOffsets for one partition, in the steps from `s` to `s'`. An offset is the boundary after the batches
that were skipped: none of them from the earliest offset on, all that there were from the latest on. -/
inductive OffsetAnswer (s s' : BrokerState) (topic : String) (asked : ListOffsetsPartition) : ListOffsetsPartitionResponse → Prop
  | unknown (missing : s.data.topics.catalog.partition topic asked.partitionIndex = none) :
      OffsetAnswer s s' topic asked (ListOffsets.errorPartition asked.partitionIndex .unknownTopicOrPartition)
  | unsupported {log : LogRef} (there : s'.data.topics.catalog.partition topic asked.partitionIndex = some log)
      (timestamp : asked.timestamp ≠ -2 ∧ asked.timestamp ≠ -1) :
      OffsetAnswer s s' topic asked (ListOffsets.errorPartition asked.partitionIndex .unsupportedForMessageFormat)
  | found {log : LogRef} {inner : PartitionLogInner} {skipped : List StoredBatch} {offset : Int}
      (there : s'.data.topics.catalog.partition topic asked.partitionIndex = some log)
      (stored : s'.data.topics.logs[log]? = some inner) (boundary : Boundary inner skipped offset)
      (which : asked.timestamp = -2 ∧ skipped = [] ∨ asked.timestamp = -1 ∧
        ∀ inner₀, s.data.topics.logs[log]? = some inner₀ → inner₀.batches <+: skipped) :
      OffsetAnswer s s' topic asked (ListOffsets.offsetPartition asked.partitionIndex offset)

section
variable {crc32c : Bytes → UInt32} {config : BrokerConfig} {s s' : BrokerState} {tr : List BrokerEvent} {topic : String}
  {asked : ListOffsetsPartition} {answer : ListOffsetsPartitionResponse}

theorem partitionResponse_served {before : List BrokerEvent} (hrun : (broker crc32c config).Run before s)
    (hserved : (ListOffsets.partitionResponse topic asked).Serves crc32c config s tr s' answer) : OffsetAnswer s s' topic asked answer := by
  obtain ⟨tr₁, s₁, tr₂, log, rfl, hasked, hrest⟩ := Client.serves_bind.1 hserved
  obtain ⟨tr₃, s₂, _, s₃, tr₅, rfl, h₁, h₂, ⟨rfl, rfl⟩, h₃⟩ := Client.serves_ask.1 hasked
  obtain rfl : s₂ = s₃ := h₂.1
  have inv := (broker_answered hrun).1
  obtain ⟨hext, inv₂⟩ := extends_path h₁ inv
  have hrun₂ := Machine.Path.append hrun h₁
  cases hlog : s₂.data.topics.catalog.partition topic asked.partitionIndex with
  | none =>
    simp only [hlog] at hrest
    obtain ⟨-, rfl⟩ := hrest
    refine .unknown (Option.eq_none_iff_forall_ne_some.2 fun log hthere => ?_)
    rw [hext.partition _ _ _ hthere] at hlog
    cases hlog
  | some log =>
    simp only [hlog] at hrest
    have hthere := broker_logsThere hrun₂ topic asked.partitionIndex log hlog
    have hinner : s₂.data.topics.logs[log]? = some s₂.data.topics.logs[log] := List.getElem?_eq_getElem hthere
    have hpath := h₃.append (Client.Serves.path hrest)
    have hpartition := (extends_path hpath inv₂).1.partition _ _ _ hlog
    split at hrest
    case isTrue hearliest =>
      obtain ⟨-, rfl⟩ := hrest
      obtain ⟨inner', hlog', -, -⟩ := log_path inv₂ hpath hinner
      exact .found hpartition hlog' .first (.inl ⟨hearliest, rfl⟩)
    case isFalse hearliest =>
    split at hrest
    case isTrue hlatest =>
      obtain ⟨tr₆, s₄, tr₇, offset, rfl, hoffset, hlast⟩ := Client.serves_bind.1 hrest
      obtain ⟨tr₈, s₅, _, s₆, tr₉, rfl, h₄, h₅, ⟨rfl, heq⟩, h₆⟩ := Client.serves_ask.1 hoffset
      obtain rfl : s₅ = s₆ := h₅.1
      obtain ⟨hpath₇, rfl⟩ := hlast
      obtain ⟨inner, hlog₅, hgrown, linv⟩ := log_path inv₂ (h₃.append h₄) hinner
      obtain ⟨inner', hlog', hgrown', -⟩ := log_path (extends_path (h₃.append h₄) inv₂).2 (h₆.append hpath₇) hlog₅
      rw [hlog₅, Option.map_some] at heq
      obtain rfl := Option.some.inj heq
      refine .found hpartition hlog' ((Boundary.last linv).mono hgrown') (.inr ⟨hlatest, fun inner₀ hlog₀ => ?_⟩)
      obtain ⟨inner₂, hlog₂, hgrown₂, -⟩ := log_path inv h₁ hlog₀
      obtain rfl := Option.some.inj (hinner.symm.trans hlog₂)
      exact hgrown₂.trans hgrown
    case isFalse hlatest =>
      obtain ⟨-, rfl⟩ := hrest
      exact .unsupported hpartition ⟨hearliest, hlatest⟩

end

/-- Tailing consumers miss nothing. ListOffsets answers for each partition of a request, in order; an offset it answers is
the boundary after the batches to skip. And from a boundary on, a consumer whose fetches have any limits, beside any other steps,
gets exactly the batches that follow, each once and in order: no fetch fails, and as many fetches as there are
batches ahead of it get all of them, those that are appended meanwhile being ahead of it too. -/
theorem tailing_consumers_miss_nothing (crc32c : Bytes → UInt32) (config : BrokerConfig) (before : List BrokerEvent)
    (s : BrokerState) (hrun : (broker crc32c config).Run before s) (request : ListOffsetsRequest) (tr : List BrokerEvent)
    (s' : BrokerState) (response : ListOffsetsResponse)
    (hserved : (ListOffsets.response request).Serves crc32c config s tr s' response) :
    response.throttleTimeMs = 0 ∧
    List.Forall₂ (fun topic answer => answer.name = topic.name ∧
      List.Forall₂ (OffsetAnswer s s' topic.name) topic.partitions answer.partitions) request.topics response.topics ∧
    ∀ topic index log inner skipped offset, s'.data.topics.catalog.partition topic index = some log →
      s'.data.topics.logs[log]? = some inner → Boundary inner skipped offset →
      ∀ limits rest t result, (follow topic index ⟨offset, []⟩ limits).Serves crc32c config s' rest t result →
        ∃ c inner' taken ahead, result = some c ∧ t.data.topics.logs[log]? = some inner' ∧
          inner'.batches = skipped ++ taken ++ ahead ∧ c.received = storedBytes taken ∧ Boundary inner' (skipped ++ taken) c.offset ∧
          (inner.batches.length ≤ skipped.length + limits.length → inner.batches <+: skipped ++ taken) := by
  have inv := (broker_answered hrun).1
  have inv' := (extends_path hserved.path inv).2
  obtain ⟨tr₁, s₁, tr₂, topics, rfl, heach, hpath, rfl⟩ := Client.serves_bind.1 hserved
  refine ⟨rfl, heach.each ?_, ?_⟩
  · rintro topic - tr₃ s₃ tr₄ s₄ tr₅ answer rfl h₃ htopic h₅
    obtain ⟨tr₆, s₆, tr₇, partitions, rfl, hpartitions, hpath₇, rfl⟩ := Client.serves_bind.1 htopic
    refine ⟨rfl, hpartitions.each ?_⟩
    rintro asked - tr₈ s₈ tr₉ s₉ tr₁₀ answer rfl h₈ hone h₁₀
    exact partitionResponse_served hrun (Client.Serves.prepend (h₃.append h₈)
      (Client.Serves.append hone (((h₁₀.append hpath₇).append h₅).append hpath)))
  · intro topic index log inner skipped offset hpartition hlog hboundary limits rest t result hfollow
    exact follow_from inv' hpartition hlog hboundary hfollow

/-- A poll of the log that the run of `sampleProduce` leaves. -/
theorem sampleProduce_follow : ∃ before s inner rest t,
    (broker castagnoli ⟨true, 1⟩).exec .new sampleProduceRun = some (before, s) ∧
    (∃ e ∈ before, e.out = .produced sampleProduce ⟨[⟨"events", [⟨0, 0, 0, -1, 0⟩, ⟨0, 0, 0, -1, 0⟩]⟩], 0⟩) ∧
    s.data.topics.catalog.partition "events" 0 = some 0 ∧ s.data.topics.catalog.partition "events" 1 = none ∧
    s.data.topics.logs[0]? = some inner ∧ inner.nextOffset = 2 ∧ inner.batches.length = 1 ∧
    (follow "events" 0 ⟨0, []⟩ [0]).Serves castagnoli ⟨true, 1⟩ s rest t (some ⟨2, sampleFrame 1 0 0 2⟩) := by
  have hlast : (((broker castagnoli ⟨true, 1⟩).exec .new sampleProduceRun).map fun r => (r.1.map Event.out).getLast?) =
      some (some (.produced sampleProduce ⟨[⟨"events", [⟨0, 0, 0, -1, 0⟩, ⟨0, 0, 0, -1, 0⟩]⟩], 0⟩)) := by decide +kernel
  have hsome : (((broker castagnoli ⟨true, 1⟩).exec .new sampleProduceRun).bind fun r : List BrokerEvent × BrokerState =>
      ((broker castagnoli ⟨true, 1⟩).step r.2 (.fetch "events" 0 0 0)).map fun r₁ =>
        (r.2.data.topics.catalog.partition "events" 0, r.2.data.topics.catalog.partition "events" 1,
          (r.2.data.topics.logs[0]?).map fun inner => (inner.nextOffset, inner.batches.length), r₁.1)) =
      some (some 0, none, some (2, 1), .fetched (some (.ok ⟨sampleFrame 1 0 0 2, 2⟩))) := by decide +kernel
  have hreceive : (Consumer.mk 0 []).receive ⟨sampleFrame 1 0 0 2, 2⟩ = some ⟨2, sampleFrame 1 0 0 2⟩ := by decide +kernel
  obtain ⟨⟨before, s⟩, hx, hsome⟩ := Option.bind_eq_some_iff.1 hsome
  obtain ⟨⟨out, t⟩, hfetch, hsome⟩ := Option.map_eq_some_iff.1 hsome
  simp only [Prod.mk.injEq] at hsome
  obtain ⟨hpartition, hnone, hinner, rfl⟩ := hsome
  obtain ⟨inner, hlog, hinner⟩ := Option.map_eq_some_iff.1 hinner
  obtain ⟨hnext, hlength⟩ := Prod.mk.inj hinner
  rw [hx, Option.map_some] at hlast
  obtain ⟨e, he, hout⟩ := List.mem_map.1 (List.mem_of_getLast? (Option.some.inj hlast))
  exact ⟨before, s, inner, _, t, hx, ⟨e, he, hout⟩, hpartition, hnone, hlog, hnext, hlength,
    follow_step hfetch hreceive (Client.serves_pure.2 ⟨.nil, rfl⟩)⟩

/-- Both ends, a time, and no partition; then a poll from the first offset. -/
theorem tailing_consumers_miss_nothing_four_entries : ∃ before s response rest t c,
    (broker castagnoli ⟨true, 1⟩).exec .new sampleProduceRun = some (before, s) ∧
    (ListOffsets.response ⟨[⟨"events", [⟨0, -2⟩, ⟨0, -1⟩, ⟨0, 5⟩, ⟨1, -2⟩]⟩]⟩).Serves castagnoli ⟨true, 1⟩ s [] s response ∧
    response.topics = [⟨"events", [⟨0, 0, -1, 0, -1⟩, ⟨0, 0, -1, 2, -1⟩, ⟨0, 43, -1, -1, -1⟩, ⟨1, 3, -1, -1, -1⟩]⟩] ∧
    (follow "events" 0 ⟨0, []⟩ [0]).Serves castagnoli ⟨true, 1⟩ s rest t (some c) ∧ c.offset = 2 ∧
    ∃ (inner : PartitionLogInner) (taken ahead : List StoredBatch), inner.batches = taken ++ ahead ∧ c.received = storedBytes taken := by
  obtain ⟨before, s, inner, rest, t, hx, -, hpartition, hnone, hlog, hnext, -, hfollow⟩ := sampleProduce_follow
  have hserved : (ListOffsets.response ⟨[⟨"events", [⟨0, -2⟩, ⟨0, -1⟩, ⟨0, 5⟩, ⟨1, -2⟩]⟩]⟩).Serves castagnoli ⟨true, 1⟩ s [] s
      ⟨0, [⟨"events", [⟨0, 0, -1, 0, -1⟩, ⟨0, 0, -1, 2, -1⟩, ⟨0, 43, -1, -1, -1⟩, ⟨1, 3, -1, -1, -1⟩]⟩]⟩ :=
    Client.serves_look ⟨rfl, hpartition.symm⟩ (Client.serves_look ⟨rfl, hpartition.symm⟩
      (Client.serves_look ⟨rfl, by rw [hlog, Option.map_some, hnext]⟩ (Client.serves_look ⟨rfl, hpartition.symm⟩
        (Client.serves_look ⟨rfl, hnone.symm⟩ (Client.serves_pure.2 ⟨.nil, rfl⟩)))))
  refine ⟨before, s, _, rest, t, _, hx, hserved, rfl, hfollow, rfl, ?_⟩
  obtain ⟨-, -, hall⟩ := tailing_consumers_miss_nothing castagnoli ⟨true, 1⟩ before s (Machine.exec_path hx).1 _ _ s _ hserved
  obtain ⟨c, inner', taken, ahead, hc, -, hbatches, hreceived, -, -⟩ := hall "events" 0 0 inner [] 0 hpartition hlog .first _ _ t _ hfollow
  obtain rfl := Option.some.inj hc
  exact ⟨inner', taken, ahead, hbatches, hreceived⟩

/-! ### From producers to consumers -/

section
variable {crc32c : Bytes → UInt32} {inner : PartitionLogInner} {skipped passed : List StoredBatch} {offset base : Int}

/-- A batch that starts at a boundary or after it has all batches before the boundary before it. -/
theorem Boundary.isPrefix_front (inv : LogInv crc32c inner) (h : Boundary inner skipped offset) {front back : List StoredBatch}
    {b : StoredBatch} (hbatches : inner.batches = front ++ b :: back) (hle : offset ≤ b.baseOffset) : skipped <+: front := by
  have htiles := inv.tiles
  rw [hbatches] at htiles
  obtain ⟨m, hfront, rfl, -⟩ := Links.append_iff.1 htiles
  rcases List.prefix_or_prefix_of_prefix h.1 (hbatches ▸ List.prefix_append front _) with hprefix | ⟨more, rfl⟩
  · exact hprefix
  · -- what the boundary has beyond the front would start with the batch and end no later
    obtain ⟨m, hm, hmore⟩ := Links.append_iff.1 h.2
    obtain rfl := hfront.unique hm
    cases more with
    | nil => rw [List.append_nil]
    | cons d more =>
      obtain ⟨hstart, hmore⟩ := hmore
      have hpos := fun d hd => inv.pos d (h.1.subset hd)
      have hd := hpos d (by simp)
      have hend : d.lastOffset + 1 ≤ offset := hmore.le fun f hf => hpos f (by simp [hf])
      omega

theorem storedBytes_infix {l l' : List StoredBatch} (h : l <:+: l') : storedBytes l <:+: storedBytes l' := by
  obtain ⟨front, back, rfl⟩ := h
  exact ⟨storedBytes front, storedBytes back, by simp [storedBytes]⟩

/-- A record set of the log is among what a consumer has got that started before it and has got everything. -/
theorem Backs.taken {taken ahead : List StoredBatch} {vs : List ValidatedBatch} (inv : LogInv crc32c inner)
    (hskipped : Boundary inner skipped offset) (hbatches : inner.batches = skipped ++ taken ++ ahead) (hle : offset ≤ base)
    {old : PartitionLogInner} (hbacks : Backs old base vs) (hold : old.batches <+: skipped ++ taken) :
    storedBatches base vs <:+: taken := by
  obtain ⟨front, back, hfront⟩ := hbacks
  obtain ⟨more, hmore⟩ := hold
  cases vs with
  | nil => exact List.nil_infix
  | cons v vs =>
    have hcut : inner.batches = front ++ (storedBatches base (v :: vs) ++ (back ++ (more ++ ahead))) := by
      rw [hbatches, ← hmore, ← hfront]
      simp only [List.append_assoc]
    obtain ⟨between, rfl⟩ := hskipped.isPrefix_front inv hcut hle
    refine ⟨between, back ++ more, ?_⟩
    rw [← hfront] at hmore
    simp only [List.append_assoc, List.append_cancel_left_eq] at hmore ⊢
    exact hmore

end

/-- Acknowledged records reach consumers. Let a consumer start at an offset that ListOffsets answered, and an entry of a
Produce call, answered with code 0 before it starts to fetch, be stored there or after it. If it fetches as often as the
log has batches then, with any limits and beside any other steps, its bytes have the record set of the entry, with
the offsets of its batches written into them and nothing in between. -/
theorem acknowledged_records_reach_consumers (crc32c : Bytes → UInt32) (config : BrokerConfig) (before : List BrokerEvent)
    (s : BrokerState) (hrun : (broker crc32c config).Run before s) (topic : TopicProduceData) (entry : PartitionProduceData)
    (timestamp : Int) (tr : List BrokerEvent) (s' : BrokerState) (start : ListOffsetsPartitionResponse)
    (hstart : (ListOffsets.partitionResponse topic.name ⟨entry.index, timestamp⟩).Serves crc32c config s tr s' start)
    (hfound : start.errorCode = 0) (e : BrokerEvent) (he : e ∈ before ++ tr) (request : ProduceRequest) (response : ProduceResponse)
    (hout : e.out = .produced request response) (i j : Nat) (topicResponse : TopicProduceResponse)
    (answer : PartitionProduceResponse) (htopic : request.topicData[i]? = some topic)
    (hresponse : response.responses[i]? = some topicResponse) (hentry : topic.partitionData[j]? = some entry)
    (hanswer : topicResponse.partitionResponses[j]? = some answer) (hcode : answer.errorCode = 0)
    (hoffset : start.offset ≤ answer.baseOffset) (limits : List Nat) (rest : List BrokerEvent) (t : BrokerState) (result : Option Consumer)
    (hfollow : (follow topic.name entry.index ⟨start.offset, []⟩ limits).Serves crc32c config s' rest t result)
    (hpolls : ∀ log inner, s'.data.topics.catalog.partition topic.name entry.index = some log →
      s'.data.topics.logs[log]? = some inner → inner.batches.length ≤ limits.length) :
    ∃ c records vs, result = some c ∧ entry.records = some records ∧ validateRecordSet crc32c records = ok vs ∧
      (vs.map (·.bytes)).flatten = records ∧ storedBytes (storedBatches answer.baseOffset vs) <:+: c.received := by
  have hrun' := Machine.Path.append hrun (Client.Serves.path hstart)
  obtain ⟨inv', hanswered⟩ := broker_answered hrun'
  obtain ⟨records, vs, log, inner, hrecords, hvs, hpartition, hlog, hbacks⟩ :=
    hanswered e he request response hout i topic topicResponse htopic hresponse j entry answer hentry hanswer hcode
  cases partitionResponse_served hrun hstart with
  | unknown => cases hfound
  | unsupported => cases hfound
  | found hthere hstored hboundary _ =>
    obtain rfl := Option.some.inj (hpartition.symm.trans hthere)
    obtain rfl := Option.some.inj (hlog.symm.trans hstored)
    obtain ⟨c, inner', taken, ahead, rfl, hlog', hbatches, hreceived, -, hall⟩ := follow_from inv' hpartition hlog hboundary hfollow
    obtain ⟨inner'', hlog'', hgrown, linv⟩ := log_path inv' (Client.Serves.path hfollow) hlog
    obtain rfl := Option.some.inj (hlog'.symm.trans hlog'')
    have hold := hall ((hpolls log inner hpartition hlog).trans (Nat.le_add_left _ _))
    refine ⟨c, records, vs, rfl, hrecords, hvs, (validateRecordSet_eq_ok.1 hvs).flatten, ?_⟩
    rw [hreceived]
    exact storedBytes_infix (hbacks.taken linv (hboundary.mono hgrown) hbatches hoffset hold)

/-- The second entry, answered as a replay, read from the first offset on. -/
theorem acknowledged_records_reach_consumers_replay : ∃ s rest t c,
    (follow "events" 0 ⟨0, []⟩ [0]).Serves castagnoli ⟨true, 1⟩ s rest t (some c) ∧
    ∃ vs, validateRecordSet castagnoli (sampleFrame 1 0 0 2) = ok vs ∧ storedBytes (storedBatches 0 vs) <:+: c.received := by
  obtain ⟨before, s, inner, rest, t, hx, ⟨e, he, hout⟩, hpartition, -, hlog, -, hlength, hfollow⟩ := sampleProduce_follow
  have hstart : (ListOffsets.partitionResponse "events" ⟨0, -2⟩).Serves castagnoli ⟨true, 1⟩ s [] s ⟨0, 0, -1, 0, -1⟩ :=
    Client.serves_look ⟨rfl, hpartition.symm⟩ (Client.serves_pure.2 ⟨.nil, rfl⟩)
  have hpolls : ∀ log inner, s.data.topics.catalog.partition "events" 0 = some log → s.data.topics.logs[log]? = some inner →
      inner.batches.length ≤ 1 := by
    intro log inner' hpartition' hlog'
    obtain rfl := Option.some.inj (hpartition.symm.trans hpartition')
    obtain rfl := Option.some.inj (hlog.symm.trans hlog')
    exact hlength.le
  obtain ⟨c, records, vs, hc, hrecords, hvs, -, hgot⟩ := acknowledged_records_reach_consumers castagnoli ⟨true, 1⟩ before s
    (Machine.exec_path hx).1 _ ⟨0, some (sampleFrame 1 0 0 2)⟩ (-2) [] s _ hstart rfl e (by simpa using he) sampleProduce _ hout 0 1
    _ _ rfl rfl rfl rfl rfl le_rfl [0] rest t _ hfollow hpolls
  obtain rfl := Option.some.inj hrecords
  obtain rfl := Option.some.inj hc
  exact ⟨s, rest, t, _, hfollow, vs, hvs, hgot⟩

end MemKafka
