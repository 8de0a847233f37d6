import MemKafka.DescribeTopicPartitions
import MemKafka.Lib.Partial

/-!
# One page of topics

A page is the whole entries of some of the names from its cursor on, and perhaps the first piece of the next one
(`Page`). So what is left to show of a name at a cursor is what the page shows of it and what is left at the cursor
the page returns; and a page that returns a cursor is full, so that it shows something.
-/

namespace MemKafka
open Kit

abbrev DescribedTopic := DescribeTopicPartitionsResponseTopic

/-- What the topics say about `name`. -/
def entriesOf (name : String) (topics : List DescribedTopic) : List DescribedTopic :=
  topics.filter (·.name == some name)

def indicesOf (name : String) (topics : List DescribedTopic) : List Int :=
  (entriesOf name topics).flatMap fun topic => topic.partitions.map (·.partitionIndex)

def partitionTotal (topics : List DescribedTopic) : Nat := (topics.map (·.partitions.length)).sum

/-- The first partition of a topic that is still to be shown at a cursor. -/
def startOf (cursor : Option Cursor) (name : String) : Nat :=
  ((cursor.filter (·.topicName == name)).map (·.partitionIndex.toNat)).getD 0

/-- The partitions of a topic that are still to be shown at a cursor. -/
def leftOf (count : Nat) (cursor : Option Cursor) (name : String) : List Nat :=
  if reaches cursor name then List.range' (startOf cursor name) (count - startOf cursor name) else []

@[simp] theorem entriesOf_append {name : String} {topics topics' : List DescribedTopic} :
    entriesOf name (topics ++ topics') = entriesOf name topics ++ entriesOf name topics' := List.filter_append ..

@[simp] theorem indicesOf_append {name : String} {topics topics' : List DescribedTopic} :
    indicesOf name (topics ++ topics') = indicesOf name topics ++ indicesOf name topics' := by
  simp [indicesOf]

@[simp] theorem partitionTotal_append {topics topics' : List DescribedTopic} :
    partitionTotal (topics ++ topics') = partitionTotal topics + partitionTotal topics' := by
  simp [partitionTotal]

@[simp] theorem partitionTotal_cons {topic : DescribedTopic} {topics : List DescribedTopic} :
    partitionTotal (topic :: topics) = topic.partitions.length + partitionTotal topics := by
  simp [partitionTotal]

/-! ### Cursors -/

section
variable {requested : Option Cursor} {name name' : String}

theorem reaches_some {cursor : Cursor} : reaches (some cursor) name = true ↔ cursor.topicName ≤ name := by
  simp [reaches]

theorem reaches_mono (h : reaches requested name) (hle : name ≤ name') : reaches requested name' := by
  cases requested with
  | none => rfl
  | some cursor => exact reaches_some.2 ((reaches_some.1 h).trans hle)

theorem startPartition_eq (h : ∀ cursor, requested = some cursor → 0 ≤ cursor.partitionIndex) :
    startPartition requested name = some (startOf requested name) := by
  unfold startPartition startOf
  match hfilter : requested.filter (·.topicName == name) with
  | none => simp only [hfilter, Option.map_none, Option.getD_none]
  | some cursor =>
    simp only [hfilter, Option.map_some, Option.getD_some]
    exact if_pos (h cursor (Option.filter_eq_some_iff.1 hfilter).1)

/-- A cursor that is accepted is not negative. -/
theorem selectedNames_cursor {request : DescribeTopicPartitionsRequest} {catalogTopics : List TopicMetadata}
    {names : List String} (h : selectedNames request catalogTopics = .ok names) :
    ∀ cursor, request.cursor = some cursor → 0 ≤ cursor.partitionIndex := by
  rintro cursor hcursor
  by_contra hneg
  rw [selectedNames, if_pos (by simpa [hcursor] using hneg)] at h
  cases h

theorem subUsize_min {n m : Nat} : subUsize n (min m n) = some (n - min m n) := if_pos (min_le_right m n)

theorem usizeOfI32_max {limit : Int} : usizeOfI32 (max limit 1) = some (max limit 1).toNat := if_pos (by omega)

theorem startOf_some {cursor : Cursor} :
    startOf (some cursor) name = if cursor.topicName = name then cursor.partitionIndex.toNat else 0 := by
  by_cases h : cursor.topicName = name <;> simp [startOf, Option.filter, h]

/-- Only the topic of the cursor is not shown from its first partition on. -/
theorem startOf_eq_zero (h : reaches requested name) (hlt : name < name') : startOf requested name' = 0 := by
  cases requested with
  | none => rfl
  | some cursor => rw [startOf_some, if_neg ((reaches_some.1 h).trans_lt hlt).ne]

theorem startOf_self (index : Nat) : startOf (some ⟨name, index⟩) name = index := by
  rw [startOf_some, if_pos rfl, Int.toNat_natCast]

theorem startOf_first : startOf (some ⟨name, 0⟩) name' = 0 := by
  rw [startOf_some, Int.toNat_zero, ite_self]

theorem leftOf_of_lt {count : Nat} {stop : String} {index : Int} (h : name < stop) :
    leftOf count (some ⟨stop, index⟩) name = [] := by
  rw [leftOf, if_neg]
  rw [reaches_some]
  exact not_le.2 h

theorem leftOf_whole {count : Nat} (h : reaches requested name) (hstart : startOf requested name = 0) :
    leftOf count requested name = List.range count := by
  rw [leftOf, if_pos h, hstart, Nat.sub_zero, List.range_eq_range']

end

/-! ### Entries -/

/-- The entry of a topic that shows its partitions from `start` on, `take` of them. -/
def topicPart (metadata : TopicMetadata) (start take : Nat) (brokerId : Int) : DescribedTopic where
  name := some metadata.name
  topicId := metadata.id
  isInternal := false
  partitions := (List.range' start take).map fun index : Nat => partitionAt brokerId index
  topicAuthorizedOperations := topicAuthorizedOperations

theorem mapM_i32OfUsize {l : List Nat} (h : ∀ n ∈ l, (n : Int) ≤ i32Max) :
    l.mapM i32OfUsize = some (l.map fun n : Nat => (n : Int)) := mapM_eq_map fun n hn => if_pos (h n hn)

theorem successTopic_eq {metadata : TopicMetadata} {start take : Nat} {brokerId : Int}
    (h : ∀ n ∈ List.range' start take, (n : Int) ≤ i32Max) :
    successTopic metadata start take brokerId = some (topicPart metadata start take brokerId) := by
  simp [successTopic, mapM_i32OfUsize h, topicPart, Function.comp_def]

theorem topicPart_indices {metadata : TopicMetadata} {start take : Nat} {brokerId : Int} :
    (topicPart metadata start take brokerId).partitions.map (·.partitionIndex) =
      (List.range' start take).map fun n : Nat => (n : Int) := by
  simp [topicPart, partitionAt, Function.comp_def]

theorem cursor_eq {name : String} {n : Nat} (h : (n : Int) ≤ i32Max) : cursor name n = some ⟨name, n⟩ := by
  simp only [cursor, i32OfUsize, if_pos h, Option.bind_eq_bind, Option.bind_some]

section
variable (requested : Option Cursor) (brokerId : Int) (get : String → Except TopicError (Option TopicMetadata))

/-- The entry of a name that is shown up to its end. -/
def wholeEntry (name : String) : DescribedTopic :=
  match get name with
  | .ok (some metadata) =>
    topicPart metadata (startOf requested name) (metadata.partitionCount - startOf requested name) brokerId
  | .ok none => resourceErrorTopic name .unknownTopicOrPartition
  | .error _ => resourceErrorTopic name .invalidTopicException

/-- What a lookup finds in a catalog. -/
inductive Found (name : String) : Prop
  | missing (h : get name = .ok none)
  | invalid (h : get name = .error .invalidName)
  | topic (metadata : TopicMetadata) (h : get name = .ok (some metadata)) (keyed : metadata.name = name)
      (count : (metadata.partitionCount : Int) ≤ i32Max + 1)

/-- The names a page goes through. -/
structure Listing (names : List String) : Prop where
  found : ∀ name ∈ names, Found get name
  sorted : names.Pairwise (· < ·)
  reached : ∀ name ∈ names, reaches requested name

/-- A page for the names `names`, with room for `remaining` partitions. -/
inductive Page (remaining : Nat) (names : List String) : List DescribedTopic → Option Cursor → Prop
  | last (room : partitionTotal (names.map (wholeEntry requested brokerId get)) ≤ remaining) :
      Page remaining names (names.map (wholeEntry requested brokerId get)) none
  | cut (done : List String) (name : String) (after : List String) (hnames : names = done ++ name :: after)
      (full : partitionTotal (done.map (wholeEntry requested brokerId get)) = remaining) :
      Page remaining names (done.map (wholeEntry requested brokerId get)) (some ⟨name, 0⟩)
  | split (done : List String) (name : String) (after : List String) (metadata : TopicMetadata) (take : Nat)
      (hnames : names = done ++ name :: after) (hget : get name = .ok (some metadata)) (keyed : metadata.name = name)
      (some_taken : 0 < take) (some_left : startOf requested name + take < metadata.partitionCount)
      (full : partitionTotal (done.map (wholeEntry requested brokerId get)) + take = remaining) :
      Page remaining names
        (done.map (wholeEntry requested brokerId get) ++ [topicPart metadata (startOf requested name) take brokerId])
        (some ⟨name, (startOf requested name + take : Nat)⟩)

end

section
variable {requested : Option Cursor} {brokerId : Int} {get : String → Except TopicError (Option TopicMetadata)}
  {remaining : Nat} {name : String} {names : List String} {topics : List DescribedTopic} {next : Option Cursor}

theorem Found.entry_name (h : Found get name) : (wholeEntry requested brokerId get name).name = some name := by
  unfold wholeEntry
  cases h with
  | missing h => rw [h]; rfl
  | invalid h => rw [h]; rfl
  | topic metadata h keyed count => rw [h]; exact congrArg some keyed

/-- A page for the other names, after the whole entry of a first one. -/
theorem Page.cons (h : Page requested brokerId get remaining names topics next) (name : String) :
    Page requested brokerId get ((wholeEntry requested brokerId get name).partitions.length + remaining) (name :: names)
      (wholeEntry requested brokerId get name :: topics) next := by
  cases h with
  | last room => exact .last (by simpa using room)
  | cut done name' after hnames full => exact .cut (name :: done) name' after (by simp [hnames]) (by simp [full])
  | split done name' after metadata take hnames hget keyed some_taken some_left full =>
    exact .split (name :: done) name' after metadata take (by simp [hnames]) hget keyed some_taken some_left
      (by simp [← full]; omega)

variable (requested brokerId) in
/-- The loop does not panic, and makes a page. -/
theorem describeTopics_page (hcursor : ∀ cursor, requested = some cursor → 0 ≤ cursor.partitionIndex)
    (hfound : ∀ name ∈ names, Found get name) (hroom : 0 < remaining ∨ names = []) :
    ∃ topics next, describeTopics requested brokerId get remaining names = some (topics, next) ∧
      Page requested brokerId get remaining names topics next := by
  induction names generalizing remaining with
  | nil => exact ⟨[], none, rfl, .last (by simp [partitionTotal])⟩
  | cons name names ih =>
    rw [List.forall_mem_cons] at hfound
    obtain ⟨hname, hnames⟩ := hfound
    have hroom : 0 < remaining := by simpa using hroom
    cases hname with
    | missing h =>
      obtain ⟨topics, next, heq, hpage⟩ := ih hnames (.inl hroom)
      refine ⟨_, next, by simp only [describeTopics, h, heq]; rfl, ?_⟩
      have := hpage.cons name
      simpa [wholeEntry, h, resourceErrorTopic, errorTopic] using this
    | invalid h =>
      obtain ⟨topics, next, heq, hpage⟩ := ih hnames (.inl hroom)
      refine ⟨_, next, by simp only [describeTopics, h, heq]; rfl, ?_⟩
      have := hpage.cons name
      simpa [wholeEntry, h, resourceErrorTopic, errorTopic] using this
    | topic metadata h keyed count =>
      simp only [describeTopics, h, keyed, startPartition_eq hcursor, Option.bind_eq_bind, Option.bind_some]
      set start := startOf requested name with hstart
      set take := min (metadata.partitionCount - start) remaining with htake
      have hpart : successTopic metadata start take brokerId = some (topicPart metadata start take brokerId) := by
        refine successTopic_eq fun n hn => ?_
        have hn := List.mem_range'_1.1 hn
        omega
      have hleft : subUsize remaining take = some (remaining - take) := subUsize_min
      rw [hpart, Option.bind_some, hleft, Option.bind_some]
      by_cases hlt : start + take < metadata.partitionCount
      · -- the page ends in the middle of the topic
        rw [if_pos hlt, cursor_eq (by omega)]
        exact ⟨_, _, rfl, .split [] name names metadata take rfl h keyed (by omega) hlt (by simp [partitionTotal]; omega)⟩
      have hwhole : wholeEntry requested brokerId get name = topicPart metadata start take brokerId := by
        simp only [wholeEntry, h, ← hstart]
        congr 1
        omega
      have hsize : (wholeEntry requested brokerId get name).partitions.length = take := by
        simp [hwhole, topicPart]
      have hdone : 0 < remaining - take ∨ names = [] →
          ∃ topics next, describeTopics requested brokerId get (remaining - take) names = some (topics, next) ∧
            Page requested brokerId get remaining (name :: names) (topicPart metadata start take brokerId :: topics) next := by
        intro hroom
        obtain ⟨topics, next, heq, hpage⟩ := ih hnames hroom
        have := hpage.cons name
        rw [hsize, hwhole, show take + (remaining - take) = remaining by omega] at this
        exact ⟨topics, next, heq, this⟩
      rw [if_neg hlt]
      by_cases hfull : remaining - take = 0
      · rw [if_pos hfull]
        cases names with
        | nil =>
          obtain ⟨topics, next, heq, hpage⟩ := hdone (.inr rfl)
          exact ⟨_, _, by simp only [List.head?_nil, heq, Option.bind_some], hpage⟩
        | cons following names =>
          have hpage : Page requested brokerId get remaining (name :: following :: names)
              ([name].map (wholeEntry requested brokerId get)) (some ⟨following, 0⟩) :=
            .cut [name] following names rfl (by simp [partitionTotal, hsize]; omega)
          rw [List.map_singleton, hwhole] at hpage
          exact ⟨_, _, by simp only [List.head?_cons, cursor_eq (n := 0) (by decide)]; rfl, hpage⟩
      · rw [if_neg hfull]
        obtain ⟨topics, next, heq, hpage⟩ := hdone (.inl (by omega))
        exact ⟨_, _, by simp only [heq, Option.bind_some], hpage⟩

/-! ### What a page shows -/

theorem Page.total (h : Page requested brokerId get remaining names topics next) :
    partitionTotal topics ≤ remaining ∧ (next ≠ none → partitionTotal topics = remaining) := by
  cases h with
  | last room => exact ⟨room, fun h => absurd rfl h⟩
  | cut done name after hnames full => exact ⟨full.le, fun _ => full⟩
  | split done name after metadata take hnames hget keyed some_taken some_left full =>
    have : partitionTotal [topicPart metadata (startOf requested name) take brokerId] = take := by
      simp [partitionTotal, topicPart]
    rw [partitionTotal_append, this]
    exact ⟨full.le, fun _ => full⟩

theorem Page.cursor_mem {cursor : Cursor} (h : Page requested brokerId get remaining names topics (some cursor)) :
    cursor.topicName ∈ names ∧ 0 ≤ cursor.partitionIndex := by
  cases h with
  | cut done name after hnames full => exact ⟨by simp [hnames], le_rfl⟩
  | split done name after metadata take hnames hget keyed some_taken some_left full =>
    exact ⟨by simp [hnames], Int.natCast_nonneg _⟩

theorem wholeEntry_errorCode : (wholeEntry requested brokerId get name).errorCode ≠ ResponseError.invalidRequest.code := by
  unfold wholeEntry
  split <;> simp [topicPart, resourceErrorTopic, errorTopic, ResponseError.code]

theorem Page.errorCode (h : Page requested brokerId get remaining names topics next) :
    ∀ topic ∈ topics, topic.errorCode ≠ ResponseError.invalidRequest.code := by
  have hwhole : ∀ {names : List String}, ∀ topic ∈ names.map (wholeEntry requested brokerId get),
      topic.errorCode ≠ ResponseError.invalidRequest.code := by
    intro names topic htopic
    obtain ⟨name, -, rfl⟩ := List.mem_map.1 htopic
    exact wholeEntry_errorCode
  cases h with
  | last room => exact hwhole
  | cut done name after hnames full => exact hwhole
  | split done name after metadata take hnames hget keyed some_taken some_left full =>
    intro topic htopic
    rcases List.mem_append.1 htopic with htopic | htopic
    · exact hwhole topic htopic
    · obtain rfl := List.mem_singleton.1 htopic
      simp [topicPart, ResponseError.code]

theorem filterMap_wholeEntry (hfound : ∀ name ∈ names, Found get name) :
    (names.map (wholeEntry requested brokerId get)).filterMap (·.name) = names := by
  induction names with
  | nil => rfl
  | cons name names ih =>
    rw [List.forall_mem_cons] at hfound
    rw [List.map_cons, List.filterMap_cons_some hfound.1.entry_name, ih hfound.2]

theorem Page.names_sublist (h : Page requested brokerId get remaining names topics next)
    (hl : Listing requested get names) :
    List.Sublist (topics.filterMap (·.name)) names := by
  cases h with
  | last room => rw [filterMap_wholeEntry hl.found]
  | cut done name after hnames full =>
    subst hnames
    rw [filterMap_wholeEntry fun name hname => hl.found name (by simp [hname])]
    exact List.sublist_append_left _ _
  | split done name after metadata take hnames hget keyed some_taken some_left full =>
    subst hnames
    rw [List.filterMap_append, filterMap_wholeEntry fun name hname => hl.found name (by simp [hname])]
    exact List.Sublist.append_left (by simp [topicPart, keyed]) _

/-- The cursor of the next page is not before a name of this one. -/
theorem Page.names_le {cursor : Cursor} (h : Page requested brokerId get remaining names topics (some cursor))
    (hl : Listing requested get names) : ∀ name ∈ topics.filterMap (·.name), name ≤ cursor.topicName := by
  cases h with
  | cut done name after hnames full =>
    subst hnames
    rw [filterMap_wholeEntry fun name hname => hl.found name (by simp [hname])]
    exact fun name' hname' => ((List.pairwise_append.1 hl.sorted).2.2 name' hname' name (by simp)).le
  | split done name after metadata take hnames hget keyed some_taken some_left full =>
    subst hnames
    rw [List.filterMap_append, filterMap_wholeEntry fun name hname => hl.found name (by simp [hname])]
    intro name' hname'
    rcases List.mem_append.1 hname' with hname' | hname'
    · exact ((List.pairwise_append.1 hl.sorted).2.2 name' hname' name (by simp)).le
    · have : name' = metadata.name := by simpa [topicPart] using hname'
      exact (this.trans keyed).le

theorem entriesOf_wholeEntry (hfound : ∀ name ∈ names, Found get name) (hnodup : names.Nodup) :
    entriesOf name (names.map (wholeEntry requested brokerId get)) =
      if name ∈ names then [wholeEntry requested brokerId get name] else [] := by
  induction names with
  | nil => rfl
  | cons head names ih =>
    rw [List.forall_mem_cons] at hfound
    obtain ⟨hhead, hnodup⟩ := List.nodup_cons.1 hnodup
    rw [List.map_cons, entriesOf, List.filter_cons, hfound.1.entry_name]
    show (if _ then _ :: entriesOf name _ else entriesOf name _) = _
    rw [ih hfound.2 hnodup]
    by_cases h : head = name
    · subst h
      simp [hhead]
    · simp [h, Ne.symm h]

theorem entriesOf_topicPart {metadata : TopicMetadata} {start take : Nat} :
    entriesOf name [topicPart metadata start take brokerId] =
      if metadata.name = name then [topicPart metadata start take brokerId] else [] := by
  by_cases h : metadata.name = name <;> simp [entriesOf, topicPart, h]

namespace Listing
variable {done after : List String} {stop : String}

/-- A name is before the one a page stops at, and in it, or from there on, and not in it. -/
theorem split (h : Listing requested get (done ++ stop :: after)) (hname : name ∈ done ++ stop :: after) :
    name ∈ done ∧ name < stop ∨ name ∉ done ∧ stop ≤ name := by
  obtain ⟨-, hafter, hcross⟩ := List.pairwise_append.1 h.sorted
  by_cases hdone : name ∈ done
  · exact .inl ⟨hdone, hcross name hdone stop (by simp)⟩
  · refine .inr ⟨hdone, ?_⟩
    rcases List.mem_cons.1 ((List.mem_append.1 hname).resolve_left hdone) with rfl | h
    · exact le_rfl
    · exact ((List.pairwise_cons.1 hafter).1 name h).le

theorem entriesOf_all (h : Listing requested get names) (hname : name ∈ names) :
    entriesOf name (names.map (wholeEntry requested brokerId get)) = [wholeEntry requested brokerId get name] := by
  rw [entriesOf_wholeEntry h.found (h.sorted.imp fun h => h.ne), if_pos hname]

/-- What a page shows of a name before it stops. -/
theorem entriesOf_done (h : Listing requested get (done ++ stop :: after)) :
    entriesOf name (done.map (wholeEntry requested brokerId get)) =
      if name ∈ done then [wholeEntry requested brokerId get name] else [] :=
  entriesOf_wholeEntry (fun name hname => h.found name (by simp [hname]))
    ((List.pairwise_append.1 h.sorted).1.imp fun h => h.ne)

end Listing

theorem indices_wholeEntry {metadata : TopicMetadata} (hget : get name = .ok (some metadata))
    (hreach : reaches requested name) :
    (wholeEntry requested brokerId get name).partitions.map (·.partitionIndex) =
      (leftOf metadata.partitionCount requested name).map fun n : Nat => (n : Int) := by
  simp only [wholeEntry, hget]
  rw [topicPart_indices, leftOf, if_pos hreach]

/-- What is left of a topic at the cursor of a page is what the page shows of it, and what is left at its next cursor. -/
theorem Page.known (h : Page requested brokerId get remaining names topics next) (hroom : 0 < remaining)
    (hl : Listing requested get names) (hname : name ∈ names) {metadata : TopicMetadata}
    (hget : get name = .ok (some metadata)) :
    indicesOf name topics ++
        (next.elim [] fun cursor => leftOf metadata.partitionCount (some cursor) name).map (fun n : Nat => (n : Int)) =
      (leftOf metadata.partitionCount requested name).map fun n : Nat => (n : Int) := by
  have hreach := hl.reached name hname
  have hwhole : (wholeEntry requested brokerId get name).partitions.map (·.partitionIndex) = _ :=
    indices_wholeEntry hget hreach
  cases h with
  | last room =>
    rw [indicesOf, hl.entriesOf_all hname]
    simpa using hwhole
  | cut done stop after hnames full =>
    subst hnames
    rw [indicesOf, hl.entriesOf_done, Option.elim_some]
    rcases hl.split hname with ⟨hdone, hlt⟩ | ⟨hdone, hle⟩
    · rw [if_pos hdone, leftOf_of_lt hlt]
      simpa using hwhole
    · -- the budget went to a topic before it
      obtain ⟨first, hfirst⟩ : ∃ first, first ∈ done := by
        cases done with
        | nil => exact absurd full hroom.ne
        | cons first done => exact ⟨first, by simp⟩
      have hlt : first < name := ((List.pairwise_append.1 hl.sorted).2.2 first hfirst stop (by simp)).trans_le hle
      have hstart : startOf requested name = 0 := startOf_eq_zero (hl.reached first (by simp [hfirst])) hlt
      have hnext : reaches (some ⟨stop, 0⟩) name := reaches_some.2 hle
      rw [if_neg hdone, leftOf_whole hnext startOf_first, leftOf_whole hreach hstart]
      rfl
  | split done stop after metadata' take hnames hget' keyed some_taken some_left full =>
    subst hnames
    rw [indicesOf, entriesOf_append, hl.entriesOf_done, entriesOf_topicPart, keyed, Option.elim_some]
    rcases hl.split hname with ⟨hdone, hlt⟩ | ⟨hdone, hle⟩
    · rw [if_pos hdone, if_neg hlt.ne', leftOf_of_lt hlt]
      simpa using hwhole
    have hnext : ∀ index, reaches (some ⟨stop, index⟩) stop := fun index => reaches_some.2 le_rfl
    rcases hle.eq_or_lt with rfl | hlt
    · obtain rfl : metadata' = metadata := by simpa [hget] using hget'.symm
      rw [if_neg hdone, if_pos rfl, List.nil_append, List.flatMap_singleton, topicPart_indices, ← List.map_append,
        leftOf, if_pos (hnext _), startOf_self, leftOf, if_pos hreach]
      congr 1
      rw [show metadata'.partitionCount - startOf requested stop =
        take + (metadata'.partitionCount - (startOf requested stop + take)) by omega, List.range'_append_1]
    · have hstart : startOf requested name = 0 := startOf_eq_zero (hl.reached stop (by simp)) hlt
      have hlater := reaches_mono (hnext (startOf requested stop + take : Nat)) hle
      rw [if_neg hdone, if_neg hlt.ne, leftOf_whole hlater (startOf_eq_zero (hnext _) hlt), leftOf_whole hreach hstart]
      rfl

/-- A name that is not a topic is shown once, by this page or from its next cursor on. -/
theorem Page.unknown (h : Page requested brokerId get remaining names topics next) (hl : Listing requested get names)
    (hname : name ∈ names) (hget : ∀ metadata, get name ≠ .ok (some metadata)) :
    entriesOf name topics ++
        (if next.any fun cursor => reaches (some cursor) name then [wholeEntry requested brokerId get name] else []) =
      [wholeEntry requested brokerId get name] := by
  cases h with
  | last room =>
    rw [hl.entriesOf_all hname]
    rfl
  | cut done stop after hnames full =>
    subst hnames
    rw [hl.entriesOf_done]
    rcases hl.split hname with ⟨hdone, hlt⟩ | ⟨hdone, hle⟩
    · simp [hdone, reaches_some, hlt]
    · simp [hdone, reaches_some, hle]
  | split done stop after metadata' take hnames hget' keyed some_taken some_left full =>
    subst hnames
    have hne : stop ≠ name := by
      rintro rfl
      exact hget metadata' hget'
    rw [entriesOf_append, hl.entriesOf_done, entriesOf_topicPart, keyed, if_neg hne, List.append_nil]
    rcases hl.split hname with ⟨hdone, hlt⟩ | ⟨hdone, hle⟩
    · simp [hdone, reaches_some, hlt]
    · simp [hdone, reaches_some, hle]

/-- A page that returns a cursor shows a partition. -/
theorem Page.exists_partition {cursor : Cursor} (h : Page requested brokerId get remaining names topics (some cursor))
    (hroom : 0 < remaining) (hl : Listing requested get names) :
    ∃ name ∈ names, ∃ metadata, get name = .ok (some metadata) ∧ indicesOf name topics ≠ [] := by
  cases h with
  | cut done stop after hnames full =>
    subst hnames
    obtain ⟨name, hname, hsome⟩ : ∃ name ∈ done, (wholeEntry requested brokerId get name).partitions ≠ [] := by
      by_contra hnone
      refine hroom.ne (full.symm.trans (List.sum_eq_zero fun n hn => ?_)).symm
      obtain ⟨topic, htopic, rfl⟩ := List.mem_map.1 hn
      obtain ⟨name, hname, rfl⟩ := List.mem_map.1 htopic
      by_contra hlen
      exact hnone ⟨name, hname, fun hnil => hlen (by rw [hnil, List.length_nil])⟩
    refine ⟨name, by simp [hname], ?_⟩
    rw [indicesOf, hl.entriesOf_done, if_pos hname, List.flatMap_singleton]
    have hindices : (wholeEntry requested brokerId get name).partitions.map (·.partitionIndex) ≠ [] := by
      simpa using hsome
    -- an entry with an error shows none
    cases hl.found name (by simp [hname]) with
    | missing h => simp [wholeEntry, h, resourceErrorTopic, errorTopic] at hsome
    | invalid h => simp [wholeEntry, h, resourceErrorTopic, errorTopic] at hsome
    | topic metadata h keyed count => exact ⟨metadata, h, hindices⟩
  | split done stop after metadata take hnames hget keyed some_taken some_left full =>
    refine ⟨stop, by simp [hnames], metadata, hget, ?_⟩
    rw [indicesOf_append, indicesOf, indicesOf, entriesOf_topicPart, if_pos keyed, List.flatMap_singleton,
      topicPart_indices]
    simp [some_taken.ne']

theorem entriesOf_eq_nil (h : name ∉ topics.filterMap (·.name)) :
    entriesOf name topics = [] := by
  refine List.filter_eq_nil_iff.2 fun topic htopic => ?_
  intro heq
  exact h (List.mem_filterMap.2 ⟨topic, htopic, by simpa using heq⟩)

/-- A name without a topic has the same entry wherever the page starts. -/
theorem wholeEntry_unknown (h : ∀ metadata, get name ≠ .ok (some metadata)) :
    wholeEntry requested brokerId get name = wholeEntry none brokerId get name := by
  unfold wholeEntry
  split
  · rename_i metadata hget
    exact absurd hget (h metadata)
  · rfl
  · rfl

/-- The entries of a topic show its id and no error. -/
theorem Page.entry_known (h : Page requested brokerId get remaining names topics next)
    (hfound : ∀ name ∈ names, Found get name) {metadata : TopicMetadata} (hget : get name = .ok (some metadata)) :
    ∀ topic ∈ topics, topic.name = some name → topic.errorCode = 0 ∧ topic.topicId = metadata.id := by
  have hwhole : ∀ done : List String, (∀ name ∈ done, name ∈ names) →
      ∀ topic ∈ done.map (wholeEntry requested brokerId get), topic.name = some name →
        topic.errorCode = 0 ∧ topic.topicId = metadata.id := by
    intro done hdone topic htopic hname
    obtain ⟨name', hname', rfl⟩ := List.mem_map.1 htopic
    obtain rfl : name' = name := Option.some.inj ((hfound name' (hdone name' hname')).entry_name.symm.trans hname)
    simp [wholeEntry, hget, topicPart]
  cases h with
  | last room => exact hwhole names fun _ h => h
  | cut done stop after hnames full => exact hwhole done fun name h => by simp [hnames, h]
  | split done stop after metadata' take hnames hget' keyed some_taken some_left full =>
    intro topic htopic hname
    rcases List.mem_append.1 htopic with htopic | htopic
    · exact hwhole done (fun name h => by simp [hnames, h]) topic htopic hname
    · obtain rfl := List.mem_singleton.1 htopic
      obtain rfl : stop = name := keyed.symm.trans (Option.some.inj hname)
      obtain rfl : metadata' = metadata := by simpa [hget] using hget'.symm
      exact ⟨rfl, rfl⟩

end

end MemKafka
