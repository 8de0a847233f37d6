import MemKafka.Catalog
import MemKafka.DescribePage

/-!
# Paging through the topics

A client sends the same topics with each cursor it is given (`Session.browse`), and topics may be created while it does.
What its pages show is told from the last one backwards (`Browsed`); as every page shows something of what
is left, they come to an end once the catalog stops growing.
-/

namespace MemKafka
open Kit

/-! ### The catalog while a client pages -/

theorem Catalog.path_keeps {defaultPartitions : ℕ+} {tr tr' : List CatalogEvent} {s s' : Catalog}
    (hrun : (topicCatalog defaultPartitions).Run tr s) (h : (topicCatalog defaultPartitions).Path s tr' s') :
    CatalogKeeps s.store s'.store := by
  obtain ⟨⟨-, hcalls⟩, -⟩ := catalog_history hrun
  have hkeeps := Machine.Path.invariant (M := topicCatalog defaultPartitions) (P := fun s' =>
    CatalogKeeps s.store s'.store ∧ ∀ call name, s'.calls.lookup call = some name → validateName name = .ok ())
    ?_ ⟨.refl _, hcalls⟩ h
  · exact hkeeps.1
  · rintro e he ⟨hkeeps, hcalls⟩
    have hstep := Catalog.step_ok hcalls he
    exact ⟨hkeeps.trans hstep.keeps, hstep.calls⟩

/-- A lookup does not make `response` panic. -/
theorem CatalogInv.found {store : TopicStore} {get : String → Except TopicError (Option TopicMetadata)} {name : String}
    (inv : CatalogInv store) (hget : get name = store.catalog.get name)
    (hcount : ∀ entry, store.catalog.topicsByName.lookup name = some entry →
      (entry.metadata.partitionCount : Int) ≤ i32Max + 1) : Found get name := by
  cases hname : validateName name with
  | error error =>
    obtain rfl := validateName_error hname
    exact .invalid (by simp only [hget, CatalogState.get, hname])
  | ok u =>
    cases hl : store.catalog.topicsByName.lookup name with
    | none => exact .missing (by simp only [hget, CatalogState.get, hname, hl, Option.map_none])
    | some entry =>
      exact .topic entry.metadata (by simp only [hget, CatalogState.get, hname, hl, Option.map_some])
        (inv.entries name entry hl).keyed (hcount entry hl)

/-- The catalog as `response` sees it for each page: when it takes the list of the topics, and when it looks a
name up. -/
structure Session where
  listed : Nat → TopicStore
  looked : Nat → String → TopicStore

namespace Session

/-- Topics may be created at any time, but their counts fit. -/
structure Grows (session : Session) : Prop where
  listed_inv : ∀ page, CatalogInv (session.listed page)
  looked_inv : ∀ page name, CatalogInv (session.looked page name)
  look : ∀ page name, CatalogKeeps (session.listed page) (session.looked page name)
  next : ∀ page name, CatalogKeeps (session.looked page name) (session.listed (page + 1))
  count : ∀ page name name' entry, (session.looked page name).catalog.topicsByName.lookup name' = some entry →
    (entry.metadata.partitionCount : Int) ≤ i32Max

variable (session : Session) (brokerId : Int) (topics : List String) (limits : Nat → Int)

def get (page : Nat) (name : String) : Except TopicError (Option TopicMetadata) :=
  (session.looked page name).catalog.get name

def request (page : Nat) (cursor : Option Cursor) : DescribeTopicPartitionsRequest := ⟨topics, limits page, cursor⟩

def serve (page : Nat) (cursor : Option Cursor) : Option DescribeTopicPartitionsResponse :=
  (request topics limits page cursor).response brokerId (session.listed page).catalog.list (session.get page)

/-- The pages a client receives that sends the same topics with each cursor it was given, each with the cursor it
was asked for. `none` if there are more than `fuel`, or one of them is a panic. -/
def browse : (fuel page : Nat) → Option Cursor → Option (List (Option Cursor × DescribeTopicPartitionsResponse))
  | 0, _, _ => none
  | fuel + 1, page, cursor => do
    let response ← session.serve brokerId topics limits page cursor
    match response.nextCursor with
    | none => some [(cursor, response)]
    | some next => do
      let pages ← browse fuel (page + 1) (some next)
      some ((cursor, response) :: pages)

def topicsOf (pages : List (Option Cursor × DescribeTopicPartitionsResponse)) : List DescribedTopic :=
  pages.flatMap (·.2.topics)

/-- The names the request is about. -/
def selected (page : Nat) : List String := (request topics limits page none).names (session.listed page).catalog.list

/-- A cursor that is none or was returned by a page. -/
def Admissible (cursor : Option Cursor) : Prop :=
  ∀ c, cursor = some c → 0 ≤ c.partitionIndex ∧ (topics ≠ [] → c.topicName ∈ topics)

variable {session brokerId topics limits} {page : Nat} {cursor : Option Cursor} {name : String}

theorem Grows.found (h : session.Grows) (page : Nat) (name : String) : Found (session.get page) name :=
  (h.looked_inv page name).found rfl fun entry hl => (h.count page name name entry hl).trans (by decide)

theorem selected_eq : session.selected topics limits page = if topics ≠ [] then ascending topics else
    ascending ((session.listed page).catalog.list.map (·.name)) := rfl

theorem pairwise_selected : (session.selected topics limits page).Pairwise (· < ·) := by
  rw [selected_eq]
  split <;> exact pairwise_ascending _

theorem mem_selected_explicit (hne : topics ≠ []) : name ∈ session.selected topics limits page ↔ name ∈ topics := by
  rw [selected_eq, if_pos hne, mem_ascending]

theorem Grows.mem_selected (h : session.Grows) {metadata : TopicMetadata} (hname : name ∈ topics ∨ topics = [])
    (htopic : HasTopic (session.listed page) name metadata) : name ∈ session.selected topics limits page := by
  rcases hname with hname | rfl
  · rwa [mem_selected_explicit (List.ne_nil_of_mem hname)]
  · obtain ⟨entry, hl, rfl⟩ := htopic
    rw [selected_eq, if_neg (by simp), mem_ascending, CatalogState.list, List.map_map]
    exact List.mem_map.2 ⟨(name, entry), mem_sortedEntries.2 hl, ((h.listed_inv _).entries name entry hl).keyed⟩

theorem Grows.get_known (h : session.Grows) {metadata : TopicMetadata}
    (htopic : HasTopic (session.listed page) name metadata) :
    session.get page name = .ok (some metadata) :=
  ((htopic.keeps (h.look page name)).found (h.looked_inv page name)).1

variable (topics limits page cursor) in
theorem Grows.listing (h : session.Grows) :
    Listing cursor (session.get page) ((session.selected topics limits page).filter (reaches cursor)) where
  found name _ := h.found page name
  sorted := pairwise_selected.filter _
  reached _ hname := (List.mem_filter.1 hname).2

variable (brokerId limits page) in
/-- Every request of the client is accepted and answered by a page. -/
theorem Grows.serve_page (h : session.Grows) (hcursor : Admissible topics cursor) :
    ∃ response, session.serve brokerId topics limits page cursor = some response ∧
      selectedNames (request topics limits page cursor) (session.listed page).catalog.list =
        .ok ((session.selected topics limits page).filter (reaches cursor)) ∧
      Page cursor brokerId (session.get page) (max (limits page) 1).toNat
        ((session.selected topics limits page).filter (reaches cursor)) response.topics response.nextCursor := by
  have hnames : selectedNames (request topics limits page cursor) (session.listed page).catalog.list =
      .ok ((session.selected topics limits page).filter (reaches cursor)) := by
    unfold selectedNames
    rw [if_neg, if_neg]
    · rfl
    · rintro ⟨hne, hany⟩
      obtain ⟨c, hc, hmem⟩ := (Option.any_eq_true _ _).1 hany
      have hmem' : c.topicName ∈ session.selected topics limits page :=
        (mem_selected_explicit hne).2 ((hcursor c hc).2 hne)
      exact of_decide_eq_true hmem hmem'
    · intro hany
      obtain ⟨c, hc, hneg⟩ := (Option.any_eq_true _ _).1 hany
      exact absurd (hcursor c hc).1 (not_le.2 (of_decide_eq_true hneg))
  have hroom : 0 < (max (limits page) 1).toNat := by omega
  obtain ⟨topics', next, heq, hpage⟩ := describeTopics_page cursor brokerId (fun c hc => (hcursor c hc).1)
    (h.listing topics limits page cursor).found (.inl hroom)
  refine ⟨{ topics := topics', nextCursor := next }, ?_, hnames, hpage⟩
  rw [serve, DescribeTopicPartitionsRequest.response, hnames]
  simp only [request, usizeOfI32_max, heq, Option.bind_eq_bind, Option.bind_some]

/-! ### All pages -/

variable (session brokerId topics limits) in
/-- What the pages from `cursor` on show. -/
structure Browsed (page : Nat) (cursor : Option Cursor) (pages : List (Option Cursor × DescribeTopicPartitionsResponse)) :
    Prop where
  limit : ∀ i c response, pages[i]? = some (c, response) →
    (partitionTotal response.topics : Int) ≤ max (limits (page + i)) 1
  accepted : ∀ i c response, pages[i]? = some (c, response) →
    (∃ names, selectedNames (request topics limits (page + i) c) (session.listed (page + i)).catalog.list = .ok names) ∧
    ∀ topic ∈ response.topics, topic.errorCode ≠ ResponseError.invalidRequest.code
  sorted : ((topicsOf pages).filterMap (·.name)).Pairwise (· ≤ ·)
  reached : ∀ name ∈ (topicsOf pages).filterMap (·.name), reaches cursor name
  known : ∀ name metadata, name ∈ topics ∨ topics = [] → HasTopic (session.listed page) name metadata →
    indicesOf name (topicsOf pages) = (leftOf metadata.partitionCount cursor name).map fun n : Nat => (n : Int)
  unknown : ∀ name ∈ topics, (∀ page', page ≤ page' → session.get page' name = session.get page name) →
    (∀ metadata, session.get page name ≠ .ok (some metadata)) →
    entriesOf name (topicsOf pages) =
      if reaches cursor name then [wholeEntry none brokerId (session.get page) name] else []

variable (session brokerId topics limits) in
/-- The pages that follow one that returned `next`. -/
inductive Continues (page : Nat) : Option Cursor → List (Option Cursor × DescribeTopicPartitionsResponse) → Prop
  | finished : Continues page none []
  | more (cursor : Cursor) (pages : List (Option Cursor × DescribeTopicPartitionsResponse))
      (rest : Browsed session brokerId topics limits (page + 1) (some cursor) pages) : Continues page (some cursor) pages

section
variable {next : Option Cursor} {pages : List (Option Cursor × DescribeTopicPartitionsResponse)}

namespace Continues

theorem limit (h : Continues session brokerId topics limits page next pages) :
    ∀ i c response, pages[i]? = some (c, response) →
      (partitionTotal response.topics : Int) ≤ max (limits (page + (i + 1))) 1 := by
  cases h with
  | finished => simp
  | more cursor pages rest =>
    intro i c response hi
    rw [Nat.add_comm i, ← Nat.add_assoc]
    exact rest.limit i c response hi

theorem accepted (h : Continues session brokerId topics limits page next pages) :
    ∀ i c response, pages[i]? = some (c, response) →
      (∃ names, selectedNames (request topics limits (page + (i + 1)) c) (session.listed (page + (i + 1))).catalog.list =
        .ok names) ∧ ∀ topic ∈ response.topics, topic.errorCode ≠ ResponseError.invalidRequest.code := by
  cases h with
  | finished => simp
  | more cursor pages rest =>
    intro i c response hi
    rw [Nat.add_comm i, ← Nat.add_assoc]
    exact rest.accepted i c response hi

theorem sorted (h : Continues session brokerId topics limits page next pages) :
    ((topicsOf pages).filterMap (·.name)).Pairwise (· ≤ ·) := by
  cases h with
  | finished => exact .nil
  | more cursor pages rest => exact rest.sorted

theorem reached (h : Continues session brokerId topics limits page next pages) :
    ∀ name ∈ (topicsOf pages).filterMap (·.name), ∃ cursor, next = some cursor ∧ cursor.topicName ≤ name := by
  cases h with
  | finished => simp [topicsOf]
  | more cursor pages rest => exact fun name hname => ⟨cursor, rfl, reaches_some.1 (rest.reached name hname)⟩

theorem known (h : Continues session brokerId topics limits page next pages) {metadata : TopicMetadata}
    (hname : name ∈ topics ∨ topics = []) (htopic : HasTopic (session.listed (page + 1)) name metadata) :
    indicesOf name (topicsOf pages) =
      (next.elim [] fun cursor => leftOf metadata.partitionCount (some cursor) name).map fun n : Nat => (n : Int) := by
  cases h with
  | finished => rfl
  | more cursor pages rest => exact rest.known name metadata hname htopic

theorem unknown (h : Continues session brokerId topics limits page next pages) (hname : name ∈ topics)
    (hsettled : ∀ page', page ≤ page' → session.get page' name = session.get page name)
    (hget : ∀ metadata, session.get page name ≠ .ok (some metadata)) :
    entriesOf name (topicsOf pages) = if next.any fun cursor => reaches (some cursor) name then
      [wholeEntry none brokerId (session.get page) name] else [] := by
  cases h with
  | finished => rfl
  | more cursor pages rest =>
    have hsucc : session.get (page + 1) name = session.get page name := hsettled _ (by omega)
    rw [rest.unknown name hname ?_ ?_]
    · simp only [Option.any_some, wholeEntry, hsucc]
    · intro page' hle
      rw [hsucc]
      exact hsettled page' (by omega)
    · rwa [hsucc]

end Continues

/-- A page before those that follow it. -/
theorem Grows.browsed_cons (h : session.Grows) {response : DescribeTopicPartitionsResponse}
    (hnames : selectedNames (request topics limits page cursor) (session.listed page).catalog.list =
      .ok ((session.selected topics limits page).filter (reaches cursor)))
    (hpage : Page cursor brokerId (session.get page) (max (limits page) 1).toNat
      ((session.selected topics limits page).filter (reaches cursor)) response.topics next)
    (hrest : Continues session brokerId topics limits page next pages) :
    Browsed session brokerId topics limits page cursor ((cursor, response) :: pages) := by
  have hl := h.listing topics limits page cursor
  have hsub := hpage.names_sublist hl
  have htopics : topicsOf ((cursor, response) :: pages) = response.topics ++ topicsOf pages := rfl
  have hreached : ∀ name ∈ (topicsOf ((cursor, response) :: pages)).filterMap (·.name), reaches cursor name := by
    rw [htopics, List.filterMap_append]
    intro name hname
    rcases List.mem_append.1 hname with hname | hname
    · exact hl.reached name (hsub.subset hname)
    · obtain ⟨next, rfl, hle⟩ := hrest.reached name hname
      exact reaches_mono (hl.reached _ hpage.cursor_mem.1) hle
  refine ⟨?_, ?_, ?_, hreached, ?_, ?_⟩
  · rintro (_ | i) c response' hi
    · cases hi
      have := hpage.total.1
      rw [Nat.add_zero]
      omega
    · exact hrest.limit i c response' hi
  · rintro (_ | i) c response' hi
    · cases hi
      exact ⟨⟨_, hnames⟩, hpage.errorCode⟩
    · exact hrest.accepted i c response' hi
  · rw [htopics, List.filterMap_append]
    refine List.pairwise_append.2 ⟨(hl.sorted.sublist hsub).imp fun h => h.le, hrest.sorted, ?_⟩
    intro name hname name' hname'
    obtain ⟨next, rfl, hle⟩ := hrest.reached name' hname'
    exact (hpage.names_le hl name hname).trans hle
  · intro name metadata hname htopic
    by_cases hr : reaches cursor name
    · have hmem : name ∈ (session.selected topics limits page).filter (reaches cursor) :=
        List.mem_filter.2 ⟨h.mem_selected hname htopic, hr⟩
      have hlater := (htopic.keeps (h.look page name)).keeps (h.next page name)
      rw [htopics, indicesOf_append, hrest.known hname hlater]
      exact hpage.known (by omega) hl hmem (h.get_known htopic)
    · rw [indicesOf, entriesOf_eq_nil fun hmem => hr (hreached name hmem), leftOf, if_neg hr]
      rfl
  · intro name hname hsettled hget
    by_cases hr : reaches cursor name
    · have hmem : name ∈ (session.selected topics limits page).filter (reaches cursor) :=
        List.mem_filter.2 ⟨(mem_selected_explicit (List.ne_nil_of_mem hname)).2 hname, hr⟩
      have hmine := hpage.unknown hl hmem hget
      rw [wholeEntry_unknown hget] at hmine
      rw [if_pos hr, htopics, entriesOf_append, hrest.unknown hname hsettled hget]
      exact hmine
    · rw [entriesOf_eq_nil fun hmem => hr (hreached name hmem), if_neg hr]

/-- The pages of a client are answers to its requests. -/
theorem browse_serve {fuel : Nat}
    (h : session.browse brokerId topics limits fuel page cursor = some pages) :
    ∀ i c response, pages[i]? = some (c, response) → session.serve brokerId topics limits (page + i) c = some response := by
  induction fuel generalizing page cursor pages with
  | zero => cases h
  | succ fuel ih =>
    obtain ⟨first, hserve, h⟩ := Option.bind_eq_some_iff.1 h
    have hrest : ∃ rest, pages = (cursor, first) :: rest ∧ (rest = [] ∨
        ∃ next, session.browse brokerId topics limits fuel (page + 1) next = some rest) := by
      split at h
      · exact ⟨[], (Option.some.inj h).symm, .inl rfl⟩
      · obtain ⟨rest, hbrowse, h⟩ := Option.bind_eq_some_iff.1 h
        exact ⟨rest, (Option.some.inj h).symm, .inr ⟨_, hbrowse⟩⟩
    obtain ⟨rest, rfl, hrest⟩ := hrest
    intro i c response hi
    match i with
    | 0 =>
      obtain ⟨rfl, rfl⟩ : cursor = c ∧ first = response := by simpa using hi
      exact hserve
    | i + 1 =>
      rw [List.getElem?_cons_succ] at hi
      rcases hrest with rfl | ⟨next, hbrowse⟩
      · cases hi
      · rw [show page + (i + 1) = page + 1 + i by omega]
        exact ih hbrowse i c response hi

/-- Whatever page it is on, an entry of a topic shows its id and no error. -/
theorem Browsed.entry_known (hgrows : session.Grows) {metadata : TopicMetadata} {fuel : Nat}
    (h : session.browse brokerId topics limits fuel 0 none = some pages)
    (hpages : Browsed session brokerId topics limits 0 none pages)
    (hget : ∀ page, session.get page name = .ok (some metadata)) :
    ∀ topic ∈ entriesOf name (topicsOf pages), topic.errorCode = 0 ∧ topic.topicId = metadata.id := by
  intro topic htopic
  obtain ⟨htopic, hname⟩ := List.mem_filter.1 htopic
  obtain ⟨⟨c, response⟩, hmem, htopic⟩ := List.mem_flatMap.1 htopic
  obtain ⟨i, hi⟩ := List.mem_iff_getElem?.1 hmem
  have hserve := browse_serve h i c response hi
  obtain ⟨⟨names, hnames⟩, -⟩ := hpages.accepted i c response hi
  have hroom : 0 < (max (limits (0 + i)) 1).toNat := by omega
  have hfound : ∀ name ∈ names, Found (session.get (0 + i)) name := fun name _ => hgrows.found (0 + i) name
  obtain ⟨topics', next, heq, hpage⟩ := describeTopics_page c brokerId (selectedNames_cursor hnames) hfound (.inl hroom)
  rw [serve, DescribeTopicPartitionsRequest.response, hnames] at hserve
  obtain rfl : { topics := topics', nextCursor := next } = response := by
    simpa only [request, usizeOfI32_max, heq, Option.bind_eq_bind, Option.bind_some, Option.some.injEq] using hserve
  exact hpage.entry_known hfound (hget (0 + i)) topic htopic (by simpa using hname)

end

/-! ### Coming to an end -/

variable (session) in
def countOf (page : Nat) (name : String) : Nat :=
  match session.get page name with
  | .ok (some metadata) => metadata.partitionCount
  | _ => 0

variable (session topics limits) in
/-- How many partitions there are to show. -/
def work (page : Nat) (cursor : Option Cursor) : Nat :=
  ((session.selected topics limits page).map fun name => (leftOf (session.countOf page name) cursor name).length).sum

theorem leftOf_zero : leftOf 0 cursor name = [] := by
  rw [leftOf, Nat.zero_sub, List.range'_zero, ite_self]

/-- The next cursor is further on. -/
theorem Grows.work_lt (h : session.Grows) {topics' : List DescribedTopic} {next : Cursor}
    (hpage : Page cursor brokerId (session.get page) (max (limits page) 1).toNat
      ((session.selected topics limits page).filter (reaches cursor)) topics' (some next)) :
    session.work topics limits page (some next) < session.work topics limits page cursor := by
  have hl := h.listing topics limits page cursor
  have hroom : 0 < (max (limits page) 1).toNat := by omega
  have hknown : ∀ name ∈ (session.selected topics limits page).filter (reaches cursor), ∀ metadata,
      session.get page name = .ok (some metadata) → (indicesOf name topics').length +
        (leftOf (session.countOf page name) (some next) name).length =
          (leftOf (session.countOf page name) cursor name).length := by
    intro name hname metadata hget
    have := congrArg List.length (hpage.known hroom hl hname hget)
    simpa [countOf, hget] using this
  refine List.sum_lt_sum _ _ ?_ ?_
  · intro name hname
    by_cases hr : reaches cursor name
    · have hname := List.mem_filter.2 ⟨hname, hr⟩
      cases h.found page name with
      | missing hget => simp [countOf, hget, leftOf_zero]
      | invalid hget => simp [countOf, hget, leftOf_zero]
      | topic metadata hget keyed count =>
        have := hknown name hname metadata hget
        omega
    · rw [leftOf, if_neg, List.length_nil]
      · exact Nat.zero_le _
      · exact fun hr' => hr (reaches_mono (hl.reached _ hpage.cursor_mem.1) (reaches_some.1 hr'))
  · obtain ⟨name, hname, metadata, hget, hsome⟩ := hpage.exists_partition hroom hl
    refine ⟨name, (List.mem_filter.1 hname).1, ?_⟩
    have := hknown name hname metadata hget
    have := List.length_pos_of_ne_nil hsome
    omega

variable (session brokerId topics limits) in
def Ends (page : Nat) (cursor : Option Cursor) : Prop :=
  ∃ fuel pages, session.browse brokerId topics limits fuel page cursor = some pages ∧
    Browsed session brokerId topics limits page cursor pages

/-- One more page, and the rest. -/
theorem Grows.ends_step (h : session.Grows) (hcursor : Admissible topics cursor)
    (hrest : ∀ next, Admissible topics (some next) →
      session.work topics limits page (some next) < session.work topics limits page cursor →
      Ends session brokerId topics limits (page + 1) (some next)) :
    Ends session brokerId topics limits page cursor := by
  obtain ⟨response, hserve, hnames, hpage⟩ := h.serve_page brokerId limits page hcursor
  cases hnext : response.nextCursor with
  | none =>
    rw [hnext] at hpage
    refine ⟨1, [(cursor, response)], ?_, h.browsed_cons hnames hpage .finished⟩
    simp only [browse, hserve, Option.bind_eq_bind, Option.bind_some, hnext]
  | some next =>
    rw [hnext] at hpage
    obtain ⟨hmem, hindex⟩ := hpage.cursor_mem
    have hadm : Admissible topics (some next) := by
      rintro _ ⟨⟩
      exact ⟨hindex, fun hne => (mem_selected_explicit hne).1 (List.mem_filter.1 hmem).1⟩
    obtain ⟨fuel, pages, hbrowse, hpages⟩ := hrest next hadm (h.work_lt hpage)
    refine ⟨fuel + 1, (cursor, response) :: pages, ?_, h.browsed_cons hnames hpage (.more next pages hpages)⟩
    simp only [browse, hserve, Option.bind_eq_bind, Option.bind_some, hnext, hbrowse]

/-- While no topic is created a lookup finds what the list shows. -/
theorem Grows.get_settled (h : session.Grows)
    (heq : (session.listed (page + 1)).catalog = (session.listed page).catalog) (name : String) :
    session.get page name = (session.listed page).catalog.get name := by
  have hlookup : (session.looked page name).catalog.topicsByName.lookup name =
      (session.listed page).catalog.topicsByName.lookup name := by
    refine Option.ext fun entry => ⟨fun hl => ?_, (h.look page name).entries name entry⟩
    rw [← heq]
    exact (h.next page name).entries name entry hl
  simp only [get, CatalogState.get, hlookup]

theorem Grows.work_settled (h : session.Grows) {last : Nat}
    (hlast : ∀ page, last ≤ page → (session.listed page).catalog = (session.listed last).catalog) (hle : last ≤ page) :
    session.work topics limits (page + 1) cursor = session.work topics limits page cursor := by
  have hnext : ∀ page, last ≤ page → (session.listed (page + 1)).catalog = (session.listed page).catalog :=
    fun page hle => (hlast (page + 1) (by omega)).trans (hlast page hle).symm
  have hget : ∀ name, session.get (page + 1) name = session.get page name := by
    intro name
    rw [h.get_settled (hnext (page + 1) (by omega)), h.get_settled (hnext page hle), hnext page hle]
  simp only [work, selected_eq, countOf, hget, hnext page hle]

/-- Once no topic is created any more the pages come to an end. -/
theorem Grows.ends_settled (h : session.Grows) {last : Nat}
    (hlast : ∀ page, last ≤ page → (session.listed page).catalog = (session.listed last).catalog) (hle : last ≤ page)
    (hcursor : Admissible topics cursor) : Ends session brokerId topics limits page cursor := by
  induction hwork : session.work topics limits page cursor using Nat.strong_induction_on generalizing page cursor with
  | _ n ih =>
    refine h.ends_step hcursor fun next hnext hlt => ?_
    refine ih _ (hwork ▸ hlt) (by omega) hnext (h.work_settled hlast hle)

theorem Grows.ends (h : session.Grows) {last : Nat}
    (hlast : ∀ page, last ≤ page → (session.listed page).catalog = (session.listed last).catalog)
    (hcursor : Admissible topics cursor) : Ends session brokerId topics limits page cursor := by
  induction hn : last - page generalizing page cursor with
  | zero => exact h.ends_settled hlast (by omega) hcursor
  | succ n ih => exact h.ends_step hcursor fun next hnext _ => ih hnext (by omega)

/-- The catalog is that of a run. -/
theorem Grows.of_catalogs {defaultPartitions : ℕ+} {listed : Nat → Catalog} {looked : Nat → String → Catalog}
    (hstart : ∃ tr, (topicCatalog defaultPartitions).Run tr (listed 0))
    (hlook : ∀ page name, ∃ tr, (topicCatalog defaultPartitions).Path (listed page) tr (looked page name))
    (hnext : ∀ page name, ∃ tr, (topicCatalog defaultPartitions).Path (looked page name) tr (listed (page + 1)))
    (hcount : ∀ page name name' entry, (looked page name).store.catalog.topicsByName.lookup name' = some entry →
      (entry.metadata.partitionCount : Int) ≤ i32Max) :
    Grows ⟨fun page => (listed page).store, fun page name => (looked page name).store⟩ := by
  have hlisted : ∀ page, ∃ tr, (topicCatalog defaultPartitions).Run tr (listed page) := by
    intro page
    induction page with
    | zero => exact hstart
    | succ page ih =>
      obtain ⟨tr, hrun⟩ := ih
      obtain ⟨tr', hlook⟩ := hlook page ""
      obtain ⟨tr'', hnext⟩ := hnext page ""
      exact ⟨_, Machine.Path.append (Machine.Path.append hrun hlook) hnext⟩
  have hlooked : ∀ page name, ∃ tr, (topicCatalog defaultPartitions).Run tr (looked page name) := by
    intro page name
    obtain ⟨tr, hrun⟩ := hlisted page
    obtain ⟨tr', hlook⟩ := hlook page name
    exact ⟨_, Machine.Path.append hrun hlook⟩
  refine ⟨?_, ?_, ?_, ?_, hcount⟩
  · intro page
    obtain ⟨tr, hrun⟩ := hlisted page
    exact (catalog_history hrun).1.1
  · intro page name
    obtain ⟨tr, hrun⟩ := hlooked page name
    exact (catalog_history hrun).1.1
  · intro page name
    obtain ⟨tr, hrun⟩ := hlisted page
    obtain ⟨tr', hpath⟩ := hlook page name
    exact Catalog.path_keeps hrun hpath
  · intro page name
    obtain ⟨tr, hrun⟩ := hlooked page name
    obtain ⟨tr', hpath⟩ := hnext page name
    exact Catalog.path_keeps hrun hpath

end Session

/-- Paging through the topics. `listed` is the catalog when `response` takes the list of the topics for a page and `looked`
when it looks a name up: topics may be created in between, but only finitely often. A client that starts without a
cursor and sends the same topics with each cursor it is given comes to a page without one; no page has more
partitions than its limit, or answers `InvalidRequest`; the names are in order; a selected topic that was there at the
first page is shown with each of its partitions once, in order; and, if no topic is created, every
requested name without a topic is shown once, with its error. -/
theorem paging_is_complete (defaultPartitions : ℕ+) (brokerId : Int) (topics : List String) (limits : Nat → Int)
    (listed : Nat → Catalog) (looked : Nat → String → Catalog)
    (hstart : ∃ tr, (topicCatalog defaultPartitions).Run tr (listed 0))
    (hlook : ∀ page name, ∃ tr, (topicCatalog defaultPartitions).Path (listed page) tr (looked page name))
    (hnext : ∀ page name, ∃ tr, (topicCatalog defaultPartitions).Path (looked page name) tr (listed (page + 1)))
    (hfinite : ∃ last, ∀ page, last ≤ page → (listed page).store.catalog = (listed last).store.catalog)
    (hcount : ∀ page name name' entry, (looked page name).store.catalog.topicsByName.lookup name' = some entry →
      (entry.metadata.partitionCount : Int) ≤ i32Max) :
    ∃ fuel pages, Session.browse ⟨fun page => (listed page).store, fun page name => (looked page name).store⟩
        brokerId topics limits fuel 0 none = some pages ∧
      (∀ page cursor response, pages[page]? = some (cursor, response) →
        (partitionTotal response.topics : Int) ≤ max (limits page) 1 ∧
        (∃ names, selectedNames ⟨topics, limits page, cursor⟩ (listed page).store.catalog.list = .ok names) ∧
        ∀ topic ∈ response.topics, topic.errorCode ≠ ResponseError.invalidRequest.code) ∧
      ((Session.topicsOf pages).filterMap (·.name)).Pairwise (· ≤ ·) ∧
      (∀ name metadata, name ∈ topics ∨ topics = [] → HasTopic (listed 0).store name metadata →
        indicesOf name (Session.topicsOf pages) = (List.range metadata.partitionCount).map fun n : Nat => (n : Int)) ∧
      ((∀ page, (listed page).store.catalog = (listed 0).store.catalog) → ∀ name ∈ topics,
        ((listed 0).store.catalog.get name = .ok none →
          entriesOf name (Session.topicsOf pages) = [resourceErrorTopic name .unknownTopicOrPartition]) ∧
        ((listed 0).store.catalog.get name = .error .invalidName →
          entriesOf name (Session.topicsOf pages) = [resourceErrorTopic name .invalidTopicException])) := by
  have hgrows := Session.Grows.of_catalogs hstart hlook hnext hcount
  obtain ⟨last, hlast⟩ := hfinite
  have hends : Session.Ends _ brokerId topics limits 0 none := hgrows.ends hlast (by rintro _ ⟨⟩)
  obtain ⟨fuel, pages, hbrowse, hpages⟩ := hends
  refine ⟨fuel, pages, hbrowse, ?_, hpages.sorted, ?_, ?_⟩
  · intro page cursor response hpage
    have hlimit := hpages.limit page cursor response hpage
    have haccepted := hpages.accepted page cursor response hpage
    rw [Nat.zero_add] at hlimit haccepted
    exact ⟨hlimit, haccepted⟩
  · intro name metadata hname htopic
    rw [hpages.known name metadata hname htopic, leftOf_whole rfl rfl]
  · intro hconst name hname
    have hget : ∀ page, Session.get ⟨fun page => (listed page).store, fun page name => (looked page name).store⟩ page name =
        (listed 0).store.catalog.get name := by
      intro page
      rw [hgrows.get_settled ((hconst (page + 1)).trans (hconst page).symm)]
      exact congrArg (CatalogState.get · name) (hconst page)
    have hentries := hpages.unknown name hname fun page _ => (hget page).trans (hget 0).symm
    simp only [wholeEntry, hget 0] at hentries
    refine ⟨fun hnone => ?_, fun hinvalid => ?_⟩
    · simpa [hnone, reaches] using hentries
    · simpa [hinvalid, reaches] using hentries

/-- Topics of three and one partitions, two at a time; a third one is created after the first page. -/
theorem paging_is_complete_growing : ∃ tr s tr' s',
    (topicCatalog 1).exec .new [.createExplicit "orders" 3 1 [7], .createExplicit "audit" 1 1 [8]] = some (tr, s) ∧
    (topicCatalog 1).exec s [.createExplicit "billing" 2 1 [9]] = some (tr', s') ∧
    ∃ fuel pages, Session.browse
        ⟨fun page => (if page = 0 then s else s').store, fun page _ => (if page = 0 then s else s').store⟩
        1 [] (fun _ => 2) fuel 0 none = some pages ∧
      indicesOf "orders" (Session.topicsOf pages) = [0, 1, 2] := by
  have hout : (((topicCatalog 1).exec .new [.createExplicit "orders" 3 1 [7], .createExplicit "audit" 1 1 [8]]).bind fun r =>
      ((topicCatalog 1).exec r.2 [.createExplicit "billing" 2 1 [9]]).map fun r' =>
        (r.2.store.catalog.topicsByName.entries.all (fun e => e.2.metadata.partitionCount ≤ 3),
          r'.2.store.catalog.topicsByName.entries.all (fun e => e.2.metadata.partitionCount ≤ 3),
          (r.2.store.catalog.topicsByName.lookup "orders").map (·.metadata))) =
      some (true, true, some ⟨7, "orders", 3⟩) := by decide +kernel
  simp only [Option.bind_eq_some_iff, Option.map_eq_some_iff, Prod.mk.injEq, Prod.exists] at hout
  obtain ⟨tr, s, hx, tr', s', hx', hsmall, hsmall', entry, hl, hentry⟩ := hout
  refine ⟨tr, s, tr', s', hx, hx', ?_⟩
  have hrun := (Machine.exec_path hx).1
  have hpath := (Machine.exec_path hx').1
  have hcount : ∀ {s : Catalog}, s.store.catalog.topicsByName.entries.all (fun e => e.2.metadata.partitionCount ≤ 3) = true →
      ∀ name entry, s.store.catalog.topicsByName.lookup name = some entry →
        (entry.metadata.partitionCount : Int) ≤ i32Max := by
    intro s hall name entry hl
    have := of_decide_eq_true (List.all_eq_true.1 hall _ (lookup_eq_some_iff.1 hl))
    exact le_trans (Int.ofNat_le.2 this) (by decide)
  have hnext : ∀ (page : Nat) (name : String), ∃ tr, (topicCatalog 1).Path (if page = 0 then s else s') tr
      (if page + 1 = 0 then s else s') := by
    rintro (_ | page) name
    · exact ⟨tr', hpath⟩
    · exact ⟨[], Machine.Path.nil⟩
  have hfinite : ∀ page, 1 ≤ page → (if page = 0 then s else s').store.catalog = s'.store.catalog := by
    rintro (_ | page) hle
    · omega
    · rfl
  have hcounts : ∀ (page : Nat) (name name' : String) entry,
      (if page = 0 then s else s').store.catalog.topicsByName.lookup name' = some entry →
        (entry.metadata.partitionCount : Int) ≤ i32Max := by
    rintro (_ | page) name
    · exact hcount hsmall
    · exact hcount hsmall'
  obtain ⟨fuel, pages, hbrowse, -, -, hknown, -⟩ := paging_is_complete 1 1 [] (fun _ => 2)
    (fun page => if page = 0 then s else s') (fun page _ => if page = 0 then s else s') ⟨tr, hrun⟩
    (fun page name => ⟨[], Machine.Path.nil⟩) hnext ⟨1, hfinite⟩ hcounts
  exact ⟨fuel, pages, hbrowse, hknown "orders" ⟨7, "orders", 3⟩ (.inr rfl) ⟨entry, hl, hentry⟩⟩

end MemKafka
