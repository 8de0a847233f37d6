import Mathlib

/-!
# Indexed lists and association lists

What a program with growing vectors and hash maps needs beyond the library: reading a list that grew
by one element, and removing, rewriting and collecting entries of an `AList`. Every operation has its
`lookup` lemma; a fact about all entries is a fact about all lookups (`forall_entries`). An ordered map is
an `AList` too, iterated in the order of its keys (`sortedEntries`).
-/

namespace Kit

theorem getElem?_snoc {α : Type} {l : List α} {a b : α} {i : Nat} :
    (l ++ [a])[i]? = some b ↔ l[i]? = some b ∨ i = l.length ∧ b = a := by
  rcases lt_trichotomy i l.length with h | rfl | h
  · simp [List.getElem?_append_left h, h.ne]
  · simp [eq_comm]
  · simp [List.getElem?_append_right h.le, h.ne', List.getElem?_eq_none h.le,
      List.getElem?_eq_none (l := [a]) (i := i - l.length) (by simp; omega)]

/-- Where a key tells the elements apart, looking for the key of an element finds it. -/
theorem find?_of_inj {α β : Type} [DecidableEq β] {f : α → β} {l : List α} {a : α}
    (h : ∀ b ∈ l, f b = f a → b = a) (ha : a ∈ l) : l.find? (fun b => f b = f a) = some a := by
  have hsome : (l.find? fun b => f b = f a).isSome := List.find?_isSome.2 ⟨a, ha, decide_eq_true rfl⟩
  obtain ⟨b, hb⟩ := Option.isSome_iff_exists.1 hsome
  rw [hb, h b (List.mem_of_find?_eq_some hb) (by simpa using List.find?_some hb)]

abbrev Assoc (κ ν : Type) := AList fun _ : κ => ν

variable {κ ν : Type} [DecidableEq κ]

instance (m : Assoc κ ν) : Decidable (m = ∅) :=
  decidable_of_iff (m.entries = []) ⟨fun h => AList.ext h, fun h => congrArg AList.entries h⟩

/-- Removes the keys `ks`, one after the other. -/
def eraseAll (m : Assoc κ ν) (ks : List κ) : Assoc κ ν := ks.foldl (fun m k => m.erase k) m

/-- Rewrites every value. -/
def mapVal (f : κ → ν → ν) (m : Assoc κ ν) : Assoc κ ν where
  entries := m.entries.map fun e => ⟨e.1, f e.1 e.2⟩
  nodupKeys := by
    have h := m.nodupKeys
    rw [List.NodupKeys, List.keys] at h ⊢
    rwa [List.map_map]

/-- Rewrites the value of one key, if it is there. -/
def update (m : Assoc κ ν) (k : κ) (f : ν → ν) : Assoc κ ν :=
  match m.lookup k with
  | none => m
  | some v => m.insert k (f v)

/-- Collects pairs; of two with the same key the later one wins. -/
def collect (l : List (κ × ν)) : Assoc κ ν := l.foldl (fun m e => m.insert e.1 e.2) ∅

section Lookup
variable {m : Assoc κ ν} {k k' : κ} {v : ν}

theorem mem_iff_lookup : k ∈ m ↔ ∃ v, m.lookup k = some v := by
  rw [← AList.lookup_isSome, Option.isSome_iff_exists]

theorem lookup_eq_some_iff : m.lookup k = some v ↔ (⟨k, v⟩ : Sigma fun _ : κ => ν) ∈ m.entries :=
  AList.mem_lookup_iff

theorem forall_entries {P : κ → ν → Prop} : (∀ e ∈ m.entries, P e.1 e.2) ↔ ∀ k v, m.lookup k = some v → P k v :=
  ⟨fun h k v hl => h ⟨k, v⟩ (lookup_eq_some_iff.1 hl), fun h e he => h e.1 e.2 (lookup_eq_some_iff.2 he)⟩

theorem exists_entries {P : κ → ν → Prop} : (∃ e ∈ m.entries, P e.1 e.2) ↔ ∃ k v, m.lookup k = some v ∧ P k v :=
  ⟨fun ⟨e, he, h⟩ => ⟨e.1, e.2, lookup_eq_some_iff.2 he, h⟩, fun ⟨k, v, hl, h⟩ => ⟨⟨k, v⟩, lookup_eq_some_iff.1 hl, h⟩⟩

theorem eq_empty_iff : m = ∅ ↔ ∀ k, k ∉ m := by
  constructor
  · rintro rfl k; exact AList.notMem_empty k
  · intro h
    have hnil : m.entries = [] := by
      refine List.eq_nil_iff_forall_not_mem.2 fun e he => h e.1 ?_
      exact mem_iff_lookup.2 ⟨e.2, lookup_eq_some_iff.2 he⟩
    exact AList.ext hnil

theorem ne_empty_iff : m ≠ ∅ ↔ ∃ k, k ∈ m := by
  rw [ne_eq, eq_empty_iff]; push Not; rfl

theorem lookup_insert_eq : (m.insert k v).lookup k' = if k' = k then some v else m.lookup k' := by
  split
  · subst k'; exact AList.lookup_insert m
  · exact AList.lookup_insert_ne ‹_›

theorem lookup_of_insert {v' : ν} (h : (m.insert k v).lookup k' = some v') :
    k' = k ∧ v' = v ∨ m.lookup k' = some v' := by
  rw [lookup_insert_eq] at h
  split at h
  · exact .inl ⟨‹_›, (Option.some.inj h).symm⟩
  · exact .inr h

theorem lookup_of_erase (h : (m.erase k).lookup k' = some v) : m.lookup k' = some v := by
  by_cases hk : k' = k
  · subst hk; rw [AList.lookup_erase] at h; cases h
  · rwa [AList.lookup_erase_ne hk] at h

theorem lookup_eraseAll {ks : List κ} : (eraseAll m ks).lookup k = if k ∈ ks then none else m.lookup k := by
  unfold eraseAll
  induction ks generalizing m with
  | nil => simp
  | cons k₀ ks ih =>
    rw [List.foldl_cons, ih]
    by_cases hk : k = k₀
    · subst hk; simp [AList.lookup_erase]
    · simp [hk, AList.lookup_erase_ne hk]

theorem lookup_mapVal {f : κ → ν → ν} : (mapVal f m).lookup k = (m.lookup k).map (f k) := by
  cases h : m.lookup k with
  | some v =>
    refine lookup_eq_some_iff.2 (List.mem_map.2 ⟨⟨k, v⟩, lookup_eq_some_iff.1 h, rfl⟩)
  | none =>
    rw [AList.lookup_eq_none] at h
    rw [Option.map_none, AList.lookup_eq_none]
    intro hk
    obtain ⟨v, hv⟩ := mem_iff_lookup.1 hk
    obtain ⟨e, he, heq⟩ := List.mem_map.1 (lookup_eq_some_iff.1 hv)
    obtain rfl : e.1 = k := congrArg Sigma.fst heq
    exact h (mem_iff_lookup.2 ⟨e.2, lookup_eq_some_iff.2 he⟩)

theorem lookup_update {f : ν → ν} : (update m k f).lookup k' = if k' = k then (m.lookup k).map f else m.lookup k' := by
  unfold update
  split
  · rename_i h
    split
    · subst k'; rw [h]; rfl
    · rfl
  · rename_i v h
    rw [lookup_insert_eq, h]; rfl

/-- Entries of a rewritten map, read back. -/
theorem lookup_map_eq_some {m' : Assoc κ ν} {f : κ → ν → ν} (h : ∀ k, m'.lookup k = (m.lookup k).map (f k)) :
    m'.lookup k = some v ↔ ∃ v₀, m.lookup k = some v₀ ∧ f k v₀ = v := by
  rw [h, Option.map_eq_some_iff]

theorem mem_map_iff {m' : Assoc κ ν} {f : κ → ν → ν} (h : ∀ k, m'.lookup k = (m.lookup k).map (f k)) :
    k ∈ m' ↔ k ∈ m := by
  rw [← AList.lookup_isSome, ← AList.lookup_isSome, h, Option.isSome_map]

theorem lookup_update_map {f : ν → ν} (k k' : κ) :
    (update m k f).lookup k' = (m.lookup k').map fun v => if k' = k then f v else v := by
  rw [lookup_update]
  split
  · subst k'; rfl
  · simp

theorem mem_mapVal {f : κ → ν → ν} : k ∈ mapVal f m ↔ k ∈ m := mem_map_iff fun _ => lookup_mapVal

theorem mem_update {f : ν → ν} : k' ∈ update m k f ↔ k' ∈ m := mem_map_iff (lookup_update_map k)

theorem mem_eraseAll {ks : List κ} : k ∈ eraseAll m ks ↔ k ∈ m ∧ k ∉ ks := by
  simp only [mem_iff_lookup, lookup_eraseAll]
  split <;> simp_all

/-- Pairs with distinct keys are all found again. -/
theorem lookup_collect {l : List (κ × ν)} (h : (l.map Prod.fst).Nodup) :
    (collect l).lookup k = some v ↔ (k, v) ∈ l := by
  unfold collect
  induction l using List.reverseRecOn with
  | nil => simp
  | append_singleton l e ih =>
    rw [List.map_append, List.nodup_append] at h
    rw [List.foldl_append, List.foldl_cons, List.foldl_nil, lookup_insert_eq]
    obtain ⟨hl, -, hdisj⟩ := h
    split
    · subst k
      have hnew : ∀ v, (e.1, v) ∉ l := fun v hv =>
        hdisj e.1 (List.mem_map.2 ⟨(e.1, v), hv, rfl⟩) e.1 (by simp) rfl
      simp only [Option.some.injEq, List.mem_append, hnew, List.mem_singleton, false_or]
      exact ⟨fun h => h ▸ rfl, fun h => congrArg Prod.snd h.symm⟩
    · rename_i hk
      rw [ih hl, List.mem_append, List.mem_singleton]
      refine ⟨.inl, fun h => h.resolve_right fun he => hk (congrArg Prod.fst he)⟩

end Lookup

/-! ### Writes and groups -/

/-- The value of the last pair with this key. -/
def lastFor (l : List (κ × ν)) (k : κ) : Option ν := (l.reverse.find? fun e => e.1 = k).map Prod.snd

theorem lastFor_append (l l' : List (κ × ν)) (k : κ) : lastFor (l ++ l') k = (lastFor l' k).or (lastFor l k) := by
  rw [lastFor, List.reverse_append, List.find?_append, Option.map_or]
  rfl

theorem lastFor_eq_none {l : List (κ × ν)} {k : κ} : lastFor l k = none ↔ ∀ e ∈ l, e.1 ≠ k := by
  simp [lastFor]

/-- Of several writes the last one is read. -/
theorem lookup_foldl_insert (l : List (κ × ν)) (m : Assoc κ ν) (k : κ) :
    (l.foldl (fun m e => m.insert e.1 e.2) m).lookup k = (lastFor l k).or (m.lookup k) := by
  induction l using List.reverseRecOn with
  | nil => rfl
  | append_singleton l e ih =>
    rw [List.foldl_append, List.foldl_cons, List.foldl_nil, lookup_insert_eq, ih, lastFor_append]
    by_cases hk : k = e.1
    · simp [lastFor, hk]
    · simp [lastFor, hk, Ne.symm hk]

section Groups
variable {α β : Type} (f : α → κ) (g : α → β)

/-- Collects the values of a list under their keys, in the order of the list. -/
def groupOn (l : List α) : Assoc κ (List β) :=
  l.foldl (fun m a => m.insert (f a) ((m.lookup (f a)).getD [] ++ [g a])) ∅

theorem lookup_groupOn (l : List α) (k : κ) : (groupOn f g l).lookup k =
    if ∃ a ∈ l, f a = k then some ((l.filter fun a => f a = k).map g) else none := by
  induction l using List.reverseRecOn with
  | nil => rfl
  | append_singleton l a ih =>
    have hsnoc : groupOn f g (l ++ [a]) =
        (groupOn f g l).insert (f a) (((groupOn f g l).lookup (f a)).getD [] ++ [g a]) := by
      rw [groupOn, List.foldl_append]; rfl
    rw [hsnoc, lookup_insert_eq]
    by_cases hk : k = f a
    · subst hk
      rw [if_pos rfl, if_pos ⟨a, by simp, rfl⟩, ih, List.filter_append, List.map_append]
      congr 2
      · split
        · rfl
        · rename_i hno
          push Not at hno
          rw [List.filter_eq_nil_iff.2 (by simpa using hno)]
          rfl
      · simp
    · rw [if_neg hk, ih, List.filter_append]
      simp [Ne.symm hk]

variable {f g}

/-- Cut by a key, and put together again. -/
theorem flatMap_filter_perm {ks : List κ} (hks : ks.Nodup) (l : List α) :
    (ks.flatMap fun k => l.filter fun a => f a = k).Perm (l.filter fun a => f a ∈ ks) := by
  induction ks with
  | nil => simp
  | cons k ks ih =>
    obtain ⟨hk, hks⟩ := List.nodup_cons.1 hks
    rw [List.flatMap_cons]
    refine ((ih hks).append_left _).trans ?_
    refine .trans (.of_eq ?_) (List.filter_append_perm (fun a => f a = k) (l.filter fun a => f a ∈ k :: ks))
    rw [List.filter_filter, List.filter_filter]
    congr 1
    · refine List.filter_congr fun a _ => ?_
      by_cases h : f a = k <;> simp [h]
    · refine List.filter_congr fun a _ => ?_
      by_cases h : f a = k <;> simp [h, hk]

end Groups

/-! ### Ordered iteration -/

section Sorted
variable {α : Type} [LinearOrder α]

/-- Sorting by a key that no two elements share leaves them in strictly ascending order of it. -/
theorem pairwise_insertionSort_key {β : Type} {f : β → α} {r : β → β → Prop} [DecidableRel r]
    (hr : ∀ a b, r a b ↔ f a ≤ f b) {l : List β} (h : l.Pairwise fun a b => f a ≠ f b) :
    (l.insertionSort r).Pairwise fun a b => f a < f b := by
  have htotal : Std.Total r := ⟨fun a b => by rw [hr, hr]; exact le_total (f a) (f b)⟩
  have htrans : IsTrans β r := ⟨fun a b c => by rw [hr, hr, hr]; exact le_trans⟩
  have hsorted := List.pairwise_insertionSort r l
  have hdistinct : (l.insertionSort r).Pairwise fun a b => f a ≠ f b := by
    rwa [(List.perm_insertionSort _ _).pairwise_iff fun h => h.symm]
  exact (hsorted.and hdistinct).imp fun h => lt_of_le_of_ne ((hr _ _).1 h.1) h.2

/-- An ordered set, as the list of its elements. -/
def ascending (l : List α) : List α := l.dedup.insertionSort (· ≤ ·)

theorem mem_ascending {l : List α} {a : α} : a ∈ ascending l ↔ a ∈ l := by
  rw [ascending, List.mem_insertionSort, List.mem_dedup]

theorem pairwise_ascending (l : List α) : (ascending l).Pairwise (· < ·) :=
  pairwise_insertionSort_key (fun _ _ => Iff.rfl) (List.nodup_dedup l)

variable {m : Assoc α ν} {k : α} {v : ν}

/-- The entries in ascending order of the keys, as an ordered map lists them. -/
def sortedEntries (m : Assoc α ν) : List (α × ν) :=
  (m.entries.map fun e => (e.1, e.2)).insertionSort fun a b => a.1 ≤ b.1

theorem mem_sortedEntries : (k, v) ∈ sortedEntries m ↔ m.lookup k = some v := by
  rw [sortedEntries, List.mem_insertionSort, List.mem_map, lookup_eq_some_iff]
  constructor
  · rintro ⟨e, he, heq⟩
    obtain ⟨rfl, rfl⟩ : e.1 = k ∧ e.2 = v := Prod.mk.inj heq
    exact he
  · exact fun h => ⟨_, h, rfl⟩

theorem pairwise_sortedEntries (m : Assoc α ν) : (sortedEntries m).Pairwise fun a b => a.1 < b.1 := by
  refine pairwise_insertionSort_key (fun _ _ => Iff.rfl) ?_
  rw [List.pairwise_map]
  exact List.nodupKeys_iff_pairwise.1 m.nodupKeys

section Groups
variable {β γ : Type} {f : β → α} {g : β → γ} {l : List β}

theorem mem_keys_sorted_groupOn : k ∈ (sortedEntries (groupOn f g l)).map Prod.fst ↔ ∃ b ∈ l, f b = k := by
  simp only [List.mem_map, Prod.exists, mem_sortedEntries, lookup_groupOn, Option.ite_none_right_eq_some]
  constructor
  · rintro ⟨k, _, ⟨h, -⟩, rfl⟩; exact h
  · exact fun h => ⟨k, _, ⟨h, rfl⟩, rfl⟩

/-- An ordered map of groups, listed with its keys, has every element of the list once. -/
theorem flatMap_sorted_groupOn_perm : ((sortedEntries (groupOn f g l)).flatMap fun e => e.2.map fun c => (e.1, c)).Perm
    (l.map fun b => (f b, g b)) := by
  have hkeys : ((sortedEntries (groupOn f g l)).map Prod.fst).Nodup := by
    rw [List.Nodup, List.pairwise_map]
    exact (pairwise_sortedEntries _).imp fun h => ne_of_lt h
  have hcut : ((sortedEntries (groupOn f g l)).flatMap fun e => e.2.map fun c => (e.1, c)) =
      (((sortedEntries (groupOn f g l)).map Prod.fst).flatMap fun k => l.filter fun b => f b = k).map
        fun b => (f b, g b) := by
    rw [List.flatMap_map, List.map_flatMap]
    refine List.flatMap_congr fun e he => ?_
    have hl := mem_sortedEntries.1 (show (e.1, e.2) ∈ _ from he)
    rw [lookup_groupOn, Option.ite_none_right_eq_some] at hl
    rw [← Option.some.inj hl.2, List.map_map]
    refine List.map_congr_left fun b hb => ?_
    simp only [List.mem_filter, decide_eq_true_eq] at hb
    simp [hb.2]
  rw [hcut]
  refine ((flatMap_filter_perm hkeys l).trans (.of_eq ?_)).map _
  exact List.filter_eq_self.2 fun b hb => decide_eq_true (mem_keys_sorted_groupOn.2 ⟨b, hb, rfl⟩)

end Groups

end Sorted

end Kit
