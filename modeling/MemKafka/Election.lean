import MemKafka.GroupMutations
import Mathlib.Data.Set.Card

/-!
# The election of a protocol

What `select_protocol` is for, said of the members by id and not of the order in which their map is walked: the names
`Common` to all of them, the `votes` of each name and the one that is `Elected`. The code counts its votes while it walks
the map; `lookup_countVotes` says what it has counted at the end, and `electedOf_greatest` that its `max_by` is
a maximum.
-/

namespace MemKafka
open Kit

/-- Every member advertises `name`. -/
def Common (members : Members) (name : String) : Prop :=
  ∀ id member, members.lookup id = some member → member.advertises name = true

/-- `name` is the first protocol of the member's own list that every member advertises. -/
def Member.VotesFor (members : Members) (member : Member) (name : String) : Prop :=
  ∃ before protocol after, member.protocols = before ++ protocol :: after ∧ protocol.name = name ∧
    Common members name ∧ ∀ other ∈ before, ¬ Common members other.name

noncomputable def votes (members : Members) (name : String) : Nat :=
  {id | ∃ member, members.lookup id = some member ∧ member.VotesFor members name}.ncard

/-- The most votes, and the smallest name that has as many. -/
structure Elected (members : Members) (name : String) : Prop where
  common : Common members name
  greatest : ∀ other, votes members other < votes members name ∨
    votes members other = votes members name ∧ name ≤ other

section
variable {members : Members} {id : String} {member : Member}

theorem common_iff (h : members.lookup id = some member) {name : String} :
    name ∈ commonProtocols members ↔ Common members name := by
  rw [mem_commonProtocols]
  exact ⟨And.right, fun hc => ⟨⟨id, member, h, hc id member h⟩, hc⟩⟩

theorem preferred_iff_votesFor (h : members.lookup id = some member) {name : String} :
    member.preferred (commonProtocols members) = some name ↔ member.VotesFor members name := by
  simp only [Member.preferred, Option.map_eq_some_iff, List.find?_eq_some_iff_append, decide_eq_true_eq,
    Bool.not_eq_true', decide_eq_false_iff_not, common_iff h, Member.VotesFor]
  constructor
  · rintro ⟨protocol, ⟨hcommon, before, after, heq, hbefore⟩, rfl⟩
    exact ⟨before, protocol, after, heq, rfl, hcommon, hbefore⟩
  · rintro ⟨before, protocol, after, heq, rfl, hcommon, hbefore⟩
    exact ⟨protocol, ⟨hcommon, before, after, heq, hbefore⟩, rfl⟩

/-! ### The count -/

/-- What the loop has counted: a name nobody votes for has no entry. -/
theorem lookup_countVotes {common : List String} {ms : List Member} {counted counted' : Assoc String Nat}
    (h : countVotes common ms counted = .ok counted') (name : String) :
    counted'.lookup name = if ms.countP (fun member => member.preferred common = some name) = 0 then counted.lookup name
      else some ((counted.lookup name).getD 0 + ms.countP fun member => member.preferred common = some name) := by
  induction ms generalizing counted with
  | nil =>
    obtain rfl : counted = counted' := by simpa [countVotes] using h
    simp
  | cons member ms ih =>
    unfold countVotes at h
    split at h
    · cases h
    rename_i preferred hpreferred
    rw [ih h, lookup_insert_eq, List.countP_cons, hpreferred]
    by_cases hname : name = preferred
    · subst hname
      simp only [decide_true, if_true, Option.getD_some]
      split
      · simp_all
      · simp only [Nat.add_eq_zero_iff, one_ne_zero, and_false, if_false, Option.some.injEq]; omega
    · have hne : ¬ preferred = name := fun heq => hname heq.symm
      simp [hname, hne]

theorem votes_eq_countP (members : Members) (name : String) : votes members name =
    (members.entries.map (·.2)).countP fun member => member.preferred (commonProtocols members) = some name := by
  have hset : {id | ∃ member, members.lookup id = some member ∧ member.VotesFor members name} =
      (((members.entries.filter fun e => e.2.preferred (commonProtocols members) = some name).map (·.1)).toFinset :
        Set String) := by
    ext id
    simp only [Set.mem_ofPred_eq, List.coe_toFinset, List.mem_map, List.mem_filter, decide_eq_true_eq]
    constructor
    · rintro ⟨member, hl, hv⟩
      exact ⟨⟨id, member⟩, ⟨lookup_eq_some_iff.1 hl, (preferred_iff_votesFor hl).2 hv⟩, rfl⟩
    · rintro ⟨e, ⟨he, hv⟩, rfl⟩
      exact ⟨e.2, lookup_eq_some_iff.2 he, (preferred_iff_votesFor (lookup_eq_some_iff.2 he)).1 hv⟩
  have hnodup : ((members.entries.filter fun e => e.2.preferred (commonProtocols members) = some name).map (·.1)).Nodup :=
    List.Nodup.sublist (List.filter_sublist.map _) members.nodupKeys
  rw [votes, hset, Set.ncard_coe_finset, List.toFinset_card_of_nodup hnodup, List.length_map,
    ← List.countP_eq_length_filter, List.countP_map]
  rfl

/-! ### The maximum -/

/-- `left` is not preferred to `right`. -/
def Behind (left right : String × Nat) : Prop := left.2 < right.2 ∨ left.2 = right.2 ∧ right.1 ≤ left.1

theorem Behind.refl (vote : String × Nat) : Behind vote vote := .inr ⟨rfl, le_rfl⟩

theorem Behind.trans {a b c : String × Nat} (h : Behind a b) (h' : Behind b c) : Behind a c := by
  rcases h with h | ⟨h, hn⟩ <;> rcases h' with h' | ⟨h', hn'⟩
  · exact .inl (h.trans h')
  · exact .inl (h.trans_eq h')
  · exact .inl (h.trans_lt h')
  · exact .inr ⟨h.trans h', hn'.trans hn⟩

theorem behind_of_beats {left right : String × Nat} :
    (beats left right = true → Behind right left) ∧ (beats left right = false → Behind left right) := by
  simp only [beats, decide_eq_true_eq, decide_eq_false_iff_not, not_or, not_and, not_lt, Behind]
  refine ⟨fun h => h.imp_right (And.imp_right le_of_lt), fun ⟨hle, h⟩ => ?_⟩
  rcases hle.lt_or_eq with hlt | heq
  · exact .inl hlt
  · exact .inr ⟨heq, h heq.symm⟩

theorem electedOf_greatest {all : List (String × Nat)} {vote : String × Nat} (h : electedOf all = some vote) :
    ∀ other ∈ all, Behind other vote := by
  unfold electedOf at h
  induction all using List.reverseRecOn generalizing vote with
  | nil => simp at h
  | append_singleton all last ih =>
    rw [List.foldl_append, List.foldl_cons, List.foldl_nil] at h
    intro other hmem
    rcases List.mem_append.1 hmem with hmem | hmem
    · split at h
      · rename_i hnone
        have hall : all = [] := by
          by_contra hne
          obtain ⟨vote, hv⟩ := (electedOf_spec all).1 hne
          exact absurd (hnone.symm.trans hv) (by simp)
        simp [hall] at hmem
      · rename_i best hbest
        have hbehind := ih hbest other hmem
        split at h <;> rename_i hbeats
        · obtain rfl : best = vote := by simpa using h
          exact hbehind
        · obtain rfl : last = vote := by simpa using h
          exact hbehind.trans (behind_of_beats.2 (by simpa using hbeats))
    · obtain rfl : other = last := by simpa using hmem
      split at h
      · obtain rfl : other = vote := by simpa using h
        exact .refl other
      · split at h <;> rename_i hbeats
        · rename_i best _
          obtain rfl : best = vote := by simpa using h
          exact behind_of_beats.1 hbeats
        · obtain rfl : other = vote := by simpa using h
          exact .refl other

/-! ### The election -/

theorem selectProtocol_elected {members : Members} {selected : String} (h : selectProtocol members = .ok selected) :
    Elected members selected := by
  refine ⟨(selectProtocol_ok h).2, fun other => ?_⟩
  unfold selectProtocol at h
  split at h
  · cases h
  split at h
  · cases h
  rename_i counted hcounted
  split at h
  swap
  · cases h
  rename_i name count helected
  obtain rfl : name = selected := by simpa using h
  have hlookup : ∀ name, counted.lookup name = if votes members name = 0 then none else some (votes members name) := by
    intro name
    rw [lookup_countVotes hcounted, votes_eq_countP]
    simp
  have hentry : ∀ {vote : String × Nat}, vote ∈ counted.entries.map (fun e => (e.1, e.2)) ↔
      counted.lookup vote.1 = some vote.2 := by
    intro vote
    rw [lookup_eq_some_iff, List.mem_map]
    exact ⟨fun ⟨e, he, heq⟩ => heq ▸ he, fun he => ⟨_, he, rfl⟩⟩
  -- the winner has an entry, so that it has votes and its count is their number
  have hwinner := hentry.1 ((electedOf_spec _).2 _ helected)
  rw [hlookup] at hwinner
  split at hwinner
  · cases hwinner
  rename_i hne
  have hpos : votes members name ≠ 0 := hne
  obtain rfl : votes members name = count := by simpa using hwinner
  by_cases hother : votes members other = 0
  · exact .inl (by omega)
  · have hmem : (other, votes members other) ∈ counted.entries.map fun e => (e.1, e.2) :=
      hentry.2 (by rw [hlookup, if_neg hother])
    exact electedOf_greatest helected _ hmem

theorem Elected.unique {members : Members} {name name' : String} (h : Elected members name)
    (h' : Elected members name') : name = name' := by
  rcases h.greatest name' with hlt | ⟨heq, hle⟩ <;> rcases h'.greatest name with hlt' | ⟨heq', hle'⟩
  · omega
  · omega
  · omega
  · exact le_antisymm hle hle'

theorem selectProtocol_isOk (members : Members) :
    (∃ selected, selectProtocol members = .ok selected) ↔ members ≠ ∅ ∧ ∃ name, Common members name := by
  constructor
  · rintro ⟨selected, h⟩
    obtain ⟨hne, hcommon⟩ := selectProtocol_ok h
    exact ⟨hne, selected, hcommon⟩
  · rintro ⟨hne, name, hcommon⟩
    exact selectProtocol_of_common hne hcommon

theorem countVotes_error {common : List String} {ms : List Member} {counted : Assoc String Nat} {error : GroupError}
    (h : countVotes common ms counted = .error error) : error = .inconsistentGroupProtocol := by
  induction ms generalizing counted with
  | nil => cases h
  | cons member ms ih =>
    unfold countVotes at h
    split at h
    · cases h; rfl
    · exact ih h

theorem selectProtocol_error {members : Members} {error : GroupError} (h : selectProtocol members = .error error) :
    error = .inconsistentGroupProtocol := by
  unfold selectProtocol at h
  split at h
  · cases h; rfl
  split at h
  · rename_i hcounted
    obtain rfl := Except.error.inj h
    exact countVotes_error hcounted
  · split at h <;> cases h; rfl

/-- The members' map only matters through what it maps to what. -/
theorem selectProtocol_congr {members members' : Members} (h : ∀ id, members'.lookup id = members.lookup id) :
    selectProtocol members' = selectProtocol members := by
  have hcommon : Common members' = Common members := by
    funext name
    simp only [Common, h]
  have hvotes : votes members' = votes members := by
    funext name
    simp only [votes, Member.VotesFor, hcommon, h]
  have hok : (∃ selected, selectProtocol members' = .ok selected) ↔ ∃ selected, selectProtocol members = .ok selected := by
    simp only [selectProtocol_isOk, hcommon, ne_empty_iff, mem_iff_lookup, h]
  cases hs : selectProtocol members with
  | error error =>
    cases hs' : selectProtocol members' with
    | error error' => rw [selectProtocol_error hs, selectProtocol_error hs']
    | ok selected' => exact absurd (hok.1 ⟨selected', hs'⟩) (by simp [hs])
  | ok selected =>
    obtain ⟨selected', hs'⟩ := hok.2 ⟨selected, hs⟩
    obtain ⟨hc, hg⟩ := selectProtocol_elected hs'
    have helected : Elected members selected' := ⟨hcommon ▸ hc, hvotes ▸ hg⟩
    rw [hs', helected.unique (selectProtocol_elected hs)]

/-- A protocol is selected exactly when the members have one in common; it is the one elected, whatever the order of
the map, and members that leave do not prevent a selection by those that stay. -/
theorem selection_is_an_election (members : Members) :
    ((∃ selected, selectProtocol members = .ok selected) ↔ members ≠ ∅ ∧ ∃ name, Common members name) ∧
    (∀ selected, selectProtocol members = .ok selected → Elected members selected) ∧
    (∀ members' : Members, (∀ id, members'.lookup id = members.lookup id) →
      selectProtocol members' = selectProtocol members) ∧
    ∀ selected ids, selectProtocol members = .ok selected → eraseAll members ids ≠ ∅ →
      ∃ selected', selectProtocol (eraseAll members ids) = .ok selected' := by
  refine ⟨selectProtocol_isOk members, fun _ => selectProtocol_elected, fun _ => selectProtocol_congr, ?_⟩
  intro selected ids h hne
  refine (selectProtocol_isOk _).2 ⟨hne, selected, fun id member hl => ?_⟩
  rw [lookup_eraseAll] at hl
  split at hl
  · cases hl
  · exact (selectProtocol_ok h).2 id member hl

end

end MemKafka
