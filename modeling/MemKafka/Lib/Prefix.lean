import Mathlib

/-!
# The longest prefix within a limit

`LongestFit size limit l taken`: of all prefixes of `l` whose sizes add up to at most `limit`, `taken` is the longest.
It is built from its end: nothing is taken of a list whose first element is too large, and an element that fits goes in
front of what the rest of the limit allows.
-/

namespace Kit

variable {α : Type} {size : α → Nat} {limit : Nat} {l taken : List α} {a : α}

structure LongestFit (size : α → Nat) (limit : Nat) (l taken : List α) : Prop where
  isPrefix : taken <+: l
  fits : (taken.map size).sum ≤ limit
  longest : ∀ other, other <+: l → (other.map size).sum ≤ limit → other <+: taken

namespace LongestFit

theorem nil : LongestFit size limit [] [] := ⟨List.prefix_rfl, by simp, fun _ h _ => h⟩

theorem stop (h : limit < size a) : LongestFit size limit (a :: l) [] := by
  refine ⟨List.nil_prefix, by simp, fun other hother hfits => ?_⟩
  cases other with
  | nil => exact List.prefix_rfl
  | cons b other =>
    obtain ⟨rfl, -⟩ := List.cons_prefix_cons.1 hother
    rw [List.map_cons, List.sum_cons] at hfits
    omega

theorem cons (hle : size a ≤ limit) (h : LongestFit size (limit - size a) l taken) :
    LongestFit size limit (a :: l) (a :: taken) := by
  refine ⟨List.cons_prefix_cons.2 ⟨rfl, h.isPrefix⟩, ?_, fun other hother hfits => ?_⟩
  · rw [List.map_cons, List.sum_cons]
    have := h.fits
    omega
  · cases other with
    | nil => exact List.nil_prefix
    | cons b other =>
      obtain ⟨rfl, hrest⟩ := List.cons_prefix_cons.1 hother
      rw [List.map_cons, List.sum_cons] at hfits
      exact List.cons_prefix_cons.2 ⟨rfl, h.longest other hrest (by omega)⟩

theorem exists_fit (size : α → Nat) (limit : Nat) (l : List α) : ∃ taken, LongestFit size limit l taken := by
  induction l generalizing limit with
  | nil => exact ⟨[], nil⟩
  | cons a l ih =>
    by_cases h : limit < size a
    · exact ⟨[], stop h⟩
    · obtain ⟨taken, htaken⟩ := ih (limit - size a)
      exact ⟨a :: taken, cons (not_lt.1 h) htaken⟩

/-- Nothing fits into nothing, unless it has no size. -/
theorem of_zero (h : LongestFit size 0 l taken) (hpos : ∀ a ∈ l, 0 < size a) : taken = [] := by
  cases taken with
  | nil => rfl
  | cons a taken =>
    have hfits := h.fits
    rw [List.map_cons, List.sum_cons] at hfits
    have := hpos a (h.isPrefix.subset (by simp))
    omega

end LongestFit

end Kit
