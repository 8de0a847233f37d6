import Mathlib

/-!
# Loops that may stop

A loop over a list in `Option` stops at the first element it has no result for. When it does not stop it is a map, and a
fold seen through one of its variables is a fold.
-/

namespace Kit

variable {α β γ : Type}

/-! ### Maps -/

section
variable {f : α → Option β} {g : α → β} {l : List α}

theorem mapM_eq_map (h : ∀ a ∈ l, f a = some (g a)) : l.mapM f = some (l.map g) := by
  induction l with
  | nil => rfl
  | cons a l ih =>
    rw [List.forall_mem_cons] at h
    rw [List.mapM_cons, h.1, ih h.2]
    rfl

/-- What a loop returns is known from the results it may have. -/
theorem eq_map_of_mapM {bs : List β} (h : ∀ a ∈ l, ∀ b, f a = some b → b = g a) (hm : l.mapM f = some bs) :
    bs = l.map g := by
  induction l generalizing bs with
  | nil => exact (Option.some.inj hm).symm
  | cons a l ih =>
    rw [List.forall_mem_cons] at h
    rw [List.mapM_cons] at hm
    obtain ⟨b, hb, hm⟩ := Option.bind_eq_some_iff.1 hm
    obtain ⟨bs', hbs, heq⟩ := Option.bind_eq_some_iff.1 hm
    obtain rfl : b :: bs' = bs := Option.some.inj heq
    rw [List.map_cons, h.1 b hb, ih h.2 hbs]

theorem mapM_ne_none (h : ∀ a ∈ l, f a ≠ none) : l.mapM f ≠ none := by
  induction l with
  | nil => nofun
  | cons a l ih =>
    rw [List.forall_mem_cons] at h
    obtain ⟨b, hb⟩ := Option.ne_none_iff_exists'.1 h.1
    obtain ⟨bs, hbs⟩ := Option.ne_none_iff_exists'.1 (ih h.2)
    rw [List.mapM_cons, hb, hbs]
    nofun

theorem mapM_eq_none {a : α} (ha : a ∈ l) (h : f a = none) : l.mapM f = none := by
  induction l with
  | nil => cases ha
  | cons b l ih =>
    rw [List.mapM_cons]
    rcases List.mem_cons.1 ha with rfl | ha
    · rw [h]
      rfl
    · rw [ih ha]
      cases f b <;> rfl

end

/-! ### Folds -/

/-- A loop seen through what one of its variables does. -/
theorem foldlM_proj {f : β → α → Option β} {g : γ → α → Option γ} {π : β → γ}
    (h : ∀ b a, (f b a).map π = g (π b) a) (l : List α) (b : β) : (l.foldlM f b).map π = l.foldlM g (π b) := by
  induction l generalizing b with
  | nil => rfl
  | cons a l ih =>
    rw [List.foldlM_cons, List.foldlM_cons, ← h]
    cases f b a with
    | none => rfl
    | some b' => exact ih b'

theorem foldlM_flatMap {f : α → List γ} {g : β → γ → Option β} (l : List α) (b : β) :
    (l.flatMap f).foldlM g b = l.foldlM (fun b a => (f a).foldlM g b) b := by
  induction l generalizing b with
  | nil => rfl
  | cons a l ih =>
    rw [List.flatMap_cons, List.foldlM_append, List.foldlM_cons]
    exact congrArg _ (funext ih)

end Kit
