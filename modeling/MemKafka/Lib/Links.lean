import Mathlib

/-!
# Lists whose elements link up

`Links start next k l k'`: the first element of `l` starts at `k`, each next one starts where the one
before it ends, and the last one ends at `k'`. With a linear order on the ends and every element of
positive extent this is a tiling of `[k, k')` by half-open intervals: every point of it lies in
exactly one element (`Links.cover`), found by skipping the elements that end at or before the point.
-/

namespace Kit

variable {α κ : Type} {start next : α → κ}

def Links (start next : α → κ) : κ → List α → κ → Prop
  | k, [], k' => k = k'
  | k, a :: l, k' => start a = k ∧ Links start next (next a) l k'

theorem forall₂_mem_left {β : Type} {R : α → β → Prop} {l : List α} {l' : List β} (h : List.Forall₂ R l l') {a : α}
    (ha : a ∈ l) : ∃ b ∈ l', R a b := by
  induction h with
  | nil => simp at ha
  | @cons a' b l l' hab _ ih =>
    rcases List.mem_cons.1 ha with rfl | ha
    · exact ⟨b, by simp, hab⟩
    · obtain ⟨c, hc, hr⟩ := ih ha
      exact ⟨c, by simp [hc], hr⟩

namespace Links

variable {k k' m : κ} {l l₁ l₂ : List α}

@[simp] theorem nil_iff : Links start next k [] k' ↔ k = k' := Iff.rfl

@[simp] theorem cons_iff {a : α} :
    Links start next k (a :: l) k' ↔ start a = k ∧ Links start next (next a) l k' := Iff.rfl

theorem append_iff : Links start next k (l₁ ++ l₂) k' ↔
    ∃ m, Links start next k l₁ m ∧ Links start next m l₂ k' := by
  induction l₁ generalizing k with
  | nil => simp
  | cons a l₁ ih => simp [ih, and_assoc]

theorem append (h₁ : Links start next k l₁ m) (h₂ : Links start next m l₂ k') :
    Links start next k (l₁ ++ l₂) k' :=
  append_iff.2 ⟨m, h₁, h₂⟩

theorem unique (h : Links start next k l k') (h' : Links start next k l m) : k' = m := by
  induction l generalizing k with
  | nil => exact h.symm.trans h'
  | cons a l ih => exact ih h.2 h'.2

/-- Related elements with the same ends link up alike. -/
theorem of_forall₂ {β : Type} {start' next' : β → κ} {R : α → β → Prop} {l' : List β} (hl : List.Forall₂ R l l')
    (hR : ∀ a b, R a b → start' b = start a ∧ next' b = next a) (h : Links start next k l k') :
    Links start' next' k l' k' := by
  induction hl generalizing k with
  | nil => exact h
  | cons hab _ ih =>
    obtain ⟨hs, hn⟩ := hR _ _ hab
    refine ⟨hs.trans h.1, ?_⟩
    rw [hn]; exact ih h.2

section Order

variable [LinearOrder κ]

theorem le (hpos : ∀ a ∈ l, start a < next a) (h : Links start next k l k') : k ≤ k' := by
  induction l generalizing k with
  | nil => exact le_of_eq h
  | cons a l ih =>
    obtain ⟨rfl, h⟩ := h
    exact (hpos a (by simp)).le.trans (ih (fun b hb => hpos b (by simp [hb])) h)

theorem mem_bounds (hpos : ∀ a ∈ l, start a < next a) (h : Links start next k l k') {a : α} (ha : a ∈ l) :
    k ≤ start a ∧ next a ≤ k' := by
  obtain ⟨l₁, l₂, rfl⟩ := List.append_of_mem ha
  obtain ⟨m, h₁, rfl, h₂⟩ := append_iff.1 h
  exact ⟨h₁.le fun b hb => hpos b (by simp [hb]), h₂.le fun b hb => hpos b (by simp [hb])⟩

/-- Earlier elements end before later ones start. -/
theorem pairwise (hpos : ∀ a ∈ l, start a < next a) (h : Links start next k l k') :
    l.Pairwise fun a b => next a ≤ start b := by
  induction l generalizing k with
  | nil => exact .nil
  | cons a l ih =>
    have hl : ∀ b ∈ l, start b < next b := fun b hb => hpos b (by simp [hb])
    exact List.pairwise_cons.2 ⟨fun b hb => (h.2.mem_bounds hl hb).1, ih hl h.2⟩

/-- Skipping what ends at or before a point of the tiling stops at the element that covers it. -/
theorem cover {o : κ} (h : Links start next k l k') (ho : k ≤ o) (ho' : o < k') :
    ∃ a l₂, l.dropWhile (fun b => next b ≤ o) = a :: l₂ ∧ start a ≤ o ∧ o < next a := by
  induction l generalizing k with
  | nil => exact absurd (ho.trans_lt ho') (by rw [nil_iff.1 h]; exact lt_irrefl _)
  | cons a l ih =>
    obtain ⟨rfl, h⟩ := h
    by_cases hn : next a ≤ o
    · simpa [hn] using ih h hn
    · exact ⟨a, l, by simp [hn], ho, not_le.1 hn⟩

/-- What ends at or before the front of a tiling is skipped whole. -/
theorem dropWhile_append {o : κ} (hpos : ∀ a ∈ l₁, start a < next a) (h : Links start next k l₁ m)
    (ho : m ≤ o) : (l₁ ++ l₂).dropWhile (fun b => next b ≤ o) = l₂.dropWhile fun b => next b ≤ o := by
  refine List.dropWhile_append_of_pos ?_
  intro a ha
  simpa using (h.mem_bounds hpos ha).2.trans ho

/-- Nothing of a tiling ends at or before its front. -/
theorem dropWhile_front (hpos : ∀ a ∈ l, start a < next a) (h : Links start next k l k') :
    l.dropWhile (fun b => next b ≤ k) = l := by
  cases l with
  | nil => rfl
  | cons a l =>
    obtain ⟨rfl, -⟩ := h
    exact List.dropWhile_cons_of_neg (by simpa using hpos a (by simp))

end Order

end Links

end Kit
