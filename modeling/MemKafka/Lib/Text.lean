import Mathlib

/-!
# Taking a text apart

Texts are lists: `rsplitOnce` splits one at the last occurrence of a separator, `trim` drops what satisfies a predicate at
both ends, and `decimal` reads a number of bounded size from its digits, most significant one first.
-/

namespace Kit

section
variable {α : Type} [DecidableEq α] {sep front back text : List α}

/-! ### The last separator -/

/-- What is before and what is after the last occurrence of `sep`. -/
def rsplitOnce (sep : List α) : List α → Option (List α × List α)
  | [] => none
  | a :: text =>
    match rsplitOnce sep text with
    | some (front, back) => some (a :: front, back)
    | none => if sep <+: a :: text then some ([], (a :: text).drop sep.length) else none

theorem rsplitOnce_append (h : rsplitOnce sep text = some (front, back)) : text = front ++ (sep ++ back) := by
  induction text generalizing front with
  | nil => cases h
  | cons a text ih =>
    rw [rsplitOnce] at h
    split at h
    · rename_i hsplit
      cases h
      rw [ih hsplit, List.cons_append]
    · split at h <;> cases h
      rename_i hprefix
      exact (List.prefix_iff_eq_append.1 hprefix).symm

theorem rsplitOnce_eq_none (hsep : sep ≠ []) : rsplitOnce sep text = none ↔ ¬ sep <:+: text := by
  induction text with
  | nil => simpa [rsplitOnce] using hsep
  | cons a text ih =>
    rw [List.infix_cons_iff, not_or, ← ih, rsplitOnce]
    match rsplitOnce sep text with
    | some split => simp
    | none => simp

theorem rsplitOnce_eq (hsep : sep ≠ []) (hlast : ¬ sep <:+: (sep ++ back).tail) :
    rsplitOnce sep (front ++ (sep ++ back)) = some (front, back) := by
  induction front with
  | nil =>
    rw [List.nil_append]
    match hcons : sep ++ back with
    | [] => exact absurd (List.append_eq_nil_iff.1 hcons).1 hsep
    | a :: text =>
      rw [hcons, List.tail_cons, ← rsplitOnce_eq_none hsep] at hlast
      rw [rsplitOnce, hlast, ← hcons]
      simp
  | cons a front ih => rw [List.cons_append, rsplitOnce, ih]

end

section
variable {α : Type} {p : α → Bool} {text : List α} {a : α}

/-- The last part of a list is what follows its last separator. -/
theorem eq_of_append_cons {a : α} {l l' r r' : List α} (h : l ++ a :: r = l' ++ a :: r') (hr : a ∉ r)
    (hr' : a ∉ r') : r = r' := by
  rcases List.append_eq_append_iff.1 h with ⟨mid, hl, hmid⟩ | ⟨mid, hl, hmid⟩
  · cases mid with
    | nil => exact (List.cons.inj hmid).2
    | cons b mid => exact absurd (by rw [(List.cons.inj hmid).2]; simp) hr
  · cases mid with
    | nil => exact (List.cons.inj hmid).2.symm
    | cons b mid => exact absurd (by rw [(List.cons.inj hmid).2]; simp) hr'

/-! ### The ends -/

def trim (p : α → Bool) (text : List α) : List α := (text.dropWhile p).rdropWhile p

theorem trim_sublist : List.Sublist (trim p text) text :=
  (List.rdropWhile_prefix p _).sublist.trans (List.dropWhile_sublist p)

theorem mem_of_mem_trim (h : a ∈ trim p text) : a ∈ text := trim_sublist.subset h

theorem mem_trim (h : a ∈ text) (ha : p a = false) : a ∈ trim p text := by
  have hdrop : ∀ {text : List α}, a ∈ text → a ∈ text.dropWhile p := by
    intro text hmem
    induction text with
    | nil => cases hmem
    | cons b text ih =>
      rw [List.dropWhile_cons]
      split
      · rename_i hb
        rcases List.mem_cons.1 hmem with rfl | hmem
        · exact absurd hb (by simp [ha])
        · exact ih hmem
      · exact hmem
  rw [trim, List.rdropWhile, List.mem_reverse]
  exact hdrop (List.mem_reverse.2 (hdrop h))

/-- What is left begins where the text begins after its front is dropped. -/
theorem head?_trim (h : trim p text ≠ []) : (trim p text).head? = (text.dropWhile p).head? := by
  obtain ⟨back, hback⟩ := List.rdropWhile_prefix p (text.dropWhile p)
  rw [← hback]
  exact (List.head?_append_of_ne_nil _ h).symm

theorem trim_trim : trim p (trim p text) = trim p text := by
  have hfirst : (trim p text).dropWhile p = trim p text := by
    rw [List.dropWhile_eq_self_iff]
    intro hpos
    have hne := List.length_pos_iff.1 hpos
    have hhead := head?_trim hne
    have hdrop : text.dropWhile p ≠ [] := fun hnil => by simp [hnil, hne] at hhead
    rw [List.head?_eq_some_head hne, List.head?_eq_some_head hdrop, Option.some.injEq] at hhead
    rw [List.getElem_zero_eq_head, hhead]
    simpa using List.head_dropWhile_not p hdrop
  rw [trim, hfirst, trim, List.rdropWhile_idempotent]

end

/-! ### Digits -/

/-- `char::to_digit` for decimal digits. -/
def toDigit (c : Char) : Option Nat := if c.isDigit then some (c.toNat - '0'.toNat) else none

/-- Reads digits after those whose value is `value`, as long as the number is at most `max`. -/
def decimal (max : Nat) : (value : Nat) → List Char → Option Nat
  | value, [] => some value
  | value, c :: text => do
    let digit ← toDigit c
    if 10 * value + digit ≤ max then decimal max (10 * value + digit) text else none

theorem isDigit_of_decimal {max value n : Nat} {text : List Char} (h : decimal max value text = some n) :
    ∀ c ∈ text, c.isDigit := by
  induction text generalizing value with
  | nil => simp
  | cons c text ih =>
    simp only [decimal, toDigit, Option.bind_eq_bind, Option.bind_eq_some_iff, Option.ite_none_right_eq_some] at h
    obtain ⟨digit, ⟨hdigit, -⟩, -, h⟩ := h
    exact List.forall_mem_cons.2 ⟨hdigit, ih h⟩

theorem decimal_eq {max value : Nat} {text : List Char} (hdigits : ∀ c ∈ text, c.isDigit)
    (hmax : Nat.ofDigitChars 10 text value ≤ max) : decimal max value text = some (Nat.ofDigitChars 10 text value) := by
  induction text generalizing value with
  | nil => simp [decimal]
  | cons c text ih =>
    rw [List.forall_mem_cons] at hdigits
    rw [Nat.ofDigitChars_cons] at hmax ⊢
    have hle : 10 * value + (c.toNat - '0'.toNat) ≤ max := by
      rw [Nat.ofDigitChars_eq_ofDigitChars_zero] at hmax
      have := Nat.le_mul_of_pos_left (10 * value + (c.toNat - '0'.toNat)) (Nat.pow_pos (n := text.length) (a := 10) (by decide))
      omega
    simp only [decimal, toDigit, if_pos hdigits.1, Option.bind_eq_bind, Option.bind_some, if_pos hle]
    exact ih hdigits.2 hmax

/-- A number is read from its own digits. -/
theorem decimal_toDigits {max n : Nat} (h : n ≤ max) : decimal max 0 (Nat.toDigits 10 n) = some n := by
  have hvalue : Nat.ofDigitChars 10 (Nat.toDigits 10 n) 0 = n := Nat.ofDigitChars_ten_toDigits
  rw [decimal_eq (fun c hc => Nat.isDigit_of_mem_toDigits (by decide) (by decide) hc) (by omega), hvalue]

end Kit
