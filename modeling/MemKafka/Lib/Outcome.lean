import Mathlib

/-!
# Computations that return, fail or panic

`Outcome ε α` is a fallible computation in a language whose unchecked arithmetic and indexing may
stop the program: `some (.ok a)` returns, `some (.error e)` fails with the function's own error, `none`
is a panic. The lemmas take a `do` block apart one bind at a time, for the two questions asked of it:
what an answer says about the steps before it, and that no step panics.
-/

namespace Kit

abbrev Outcome (ε α : Type) := ExceptT ε Option α

namespace Outcome

variable {ε α β : Type}

def ok (a : α) : Outcome ε α := some (.ok a)

def err (e : ε) : Outcome ε α := some (.error e)

/-- A primitive that panics where it has no value. -/
def orPanic (o : Option α) : Outcome ε α := o.map .ok

/-- The computation does not panic. -/
def Safe (x : Outcome ε α) : Prop := x ≠ (none : Option (Except ε α))

@[simp] theorem pure_eq (a : α) : (pure a : Outcome ε α) = ok a := rfl

@[simp] theorem throw_eq (e : ε) : (throw e : Outcome ε α) = err e := rfl

@[simp] theorem ok_inj {a b : α} : (ok a : Outcome ε α) = ok b ↔ a = b := by
  constructor
  · intro h; simpa [ok] using (Option.some.inj h)
  · rintro rfl; rfl

@[simp] theorem err_ne_ok {e : ε} {a : α} : (err e : Outcome ε α) ≠ ok a := nofun

@[simp] theorem ok_ne_err {e : ε} {a : α} : (ok a : Outcome ε α) ≠ err e := nofun

@[simp] theorem ok_bind (a : α) (f : α → Outcome ε β) : (ok a >>= f) = f a := rfl

theorem bind_eq_ok {x : Outcome ε α} {f : α → Outcome ε β} {b : β} :
    (x >>= f) = ok b ↔ ∃ a, x = ok a ∧ f a = ok b := by
  constructor
  · intro h
    match x with
    | some (.ok a) => exact ⟨a, rfl, h⟩
    | some (.error e) => exact absurd h err_ne_ok
    | none => exact absurd h nofun
  · rintro ⟨a, rfl, h⟩; exact h

@[simp] theorem safe_ok (a : α) : (ok a : Outcome ε α).Safe := nofun

@[simp] theorem safe_err (e : ε) : (err e : Outcome ε α).Safe := nofun

theorem Safe.bind {x : Outcome ε α} {f : α → Outcome ε β} (hx : x.Safe) (hf : ∀ a, x = ok a → (f a).Safe) :
    (x >>= f).Safe := by
  match x with
  | some (.ok a) => exact hf a rfl
  | some (.error e) => exact safe_err e
  | none => exact absurd rfl hx

@[simp] theorem orPanic_some (a : α) : (orPanic (some a) : Outcome ε α) = ok a := rfl

theorem orPanic_eq_ok {o : Option α} {a : α} : (orPanic o : Outcome ε α) = ok a ↔ o = some a := by
  cases o with
  | none => exact ⟨nofun, nofun⟩
  | some b => simp

/-- The computation fails with such errors only. -/
def Fails (P : ε → Prop) (x : Outcome ε α) : Prop := ∀ e, x = err e → P e

theorem fails_ok (P : ε → Prop) (a : α) : (ok a : Outcome ε α).Fails P := nofun

theorem fails_err {P : ε → Prop} {e : ε} (h : P e) : (err e : Outcome ε α).Fails P := by
  intro e' he
  obtain rfl : e = e' := Except.error.inj (Option.some.inj he)
  exact h

theorem fails_orPanic (P : ε → Prop) (o : Option α) : (orPanic o : Outcome ε α).Fails P := by
  cases o <;> nofun

theorem Fails.bind {P : ε → Prop} {x : Outcome ε α} {f : α → Outcome ε β} (hx : x.Fails P)
    (hf : ∀ a, x = ok a → (f a).Fails P) : (x >>= f).Fails P := by
  match x with
  | some (.ok a) => exact hf a rfl
  | some (.error e) => exact fails_err (hx e rfl)
  | none => exact nofun

/-- A safe computation returns or fails. -/
theorem Safe.cases {x : Outcome ε α} (h : x.Safe) : (∃ a, x = ok a) ∨ ∃ e, x = err e := by
  match x with
  | some (.ok a) => exact .inl ⟨a, rfl⟩
  | some (.error e) => exact .inr ⟨e, rfl⟩
  | none => exact absurd rfl h

end Outcome

end Kit
