import MemKafka.Lib.Machine

/-!
# Clients of a machine

A `Client` makes calls one after the other and goes on with what each of them returns. `Serves` runs it beside a machine
that takes any other steps before, between, inside and after the calls: `Answered c s tr a` says that the steps `tr` from
`s` on are those of a call `c` that returns `a`, others that come in between included.
-/

namespace Kit

inductive Client {κ : Type} (Answer : κ → Type) (ρ : Type) where
  | done (result : ρ)
  | call (c : κ) (next : Answer c → Client Answer ρ)

namespace Client

variable {κ ρ ρ' β : Type} {Answer : κ → Type}

def bind : Client Answer ρ → (ρ → Client Answer ρ') → Client Answer ρ'
  | .done result, f => f result
  | .call c next, f => .call c fun a => (next a).bind f

instance : Monad (Client Answer) where
  pure := .done
  bind := .bind

/-- One call. -/
def ask (c : κ) : Client Answer (Answer c) := .call c .done

/-- A loop that collects what its body returns. -/
def each (body : β → Client Answer ρ) : List β → Client Answer (List ρ)
  | [] => pure []
  | x :: xs => do
    let result ← body x
    let results ← each body xs
    pure (result :: results)

/-- The client with each of its calls made by a client of other calls. -/
def through {κ' : Type} {Answer' : κ' → Type} (calls : (c : κ) → Client Answer' (Answer c)) :
    Client Answer ρ → Client Answer' ρ
  | .done result => .done result
  | .call c next => (calls c).bind fun a => (next a).through calls

section
variable {σ ι ω : Type} (M : Machine σ ι ω) (Answered : (c : κ) → σ → List (Event σ ι ω) → Answer c → Prop)

/-- In the steps from `s` to `s'` the client returns `result`. -/
def Serves : Client Answer ρ → σ → List (Event σ ι ω) → σ → ρ → Prop
  | .done returned, s, tr, s', result => M.Path s tr s' ∧ returned = result
  | .call c next, s, tr, s', result => ∃ tr₁ s₁ tr₂ s₂ tr₃ a, tr = tr₁ ++ tr₂ ++ tr₃ ∧ M.Path s tr₁ s₁ ∧
      M.Path s₁ tr₂ s₂ ∧ Answered c s₁ tr₂ a ∧ (next a).Serves s₂ tr₃ s' result

/-- Somewhere in the steps from `s` to `s'` there are those of a call that returns `a`. -/
def Asked (c : κ) (s : σ) (tr : List (Event σ ι ω)) (s' : σ) (a : Answer c) : Prop :=
  ∃ tr₁ s₁ tr₂ s₂ tr₃, tr = tr₁ ++ tr₂ ++ tr₃ ∧ M.Path s tr₁ s₁ ∧ M.Path s₁ tr₂ s₂ ∧ Answered c s₁ tr₂ a ∧ M.Path s₂ tr₃ s'

end

variable {σ ι ω : Type} {M : Machine σ ι ω} {Answered : (c : κ) → σ → List (Event σ ι ω) → Answer c → Prop}
  {s s' : σ} {tr : List (Event σ ι ω)}

theorem serves_pure {result result' : ρ} :
    Serves M Answered (pure result) s tr s' result' ↔ M.Path s tr s' ∧ result = result' := Iff.rfl

theorem Serves.path {p : Client Answer ρ} {result : ρ} (h : p.Serves M Answered s tr s' result) : M.Path s tr s' := by
  induction p generalizing s tr with
  | done returned => exact h.1
  | call c next ih =>
    obtain ⟨tr₁, s₁, tr₂, s₂, tr₃, a, rfl, h₁, h₂, -, h₃⟩ := h
    exact (h₁.append h₂).append (ih a h₃)

/-- Steps before a client are steps beside it. -/
theorem Serves.prepend {p : Client Answer ρ} {result : ρ} {s₁ : σ} {tr₁ : List (Event σ ι ω)} (hpath : M.Path s tr₁ s₁)
    (h : p.Serves M Answered s₁ tr s' result) : p.Serves M Answered s (tr₁ ++ tr) s' result := by
  cases p with
  | done returned => exact ⟨hpath.append h.1, h.2⟩
  | call c next =>
    obtain ⟨tr₂, s₂, tr₃, s₃, tr₄, a, rfl, h₂, h₃, ha, h₄⟩ := h
    exact ⟨tr₁ ++ tr₂, s₂, tr₃, s₃, tr₄, a, by simp only [List.append_assoc], hpath.append h₂, h₃, ha, h₄⟩

theorem Serves.append {p : Client Answer ρ} {result : ρ} {s₁ : σ} {tr₁ : List (Event σ ι ω)}
    (h : p.Serves M Answered s tr s₁ result) (hpath : M.Path s₁ tr₁ s') : p.Serves M Answered s (tr ++ tr₁) s' result := by
  induction p generalizing s tr with
  | done returned => exact ⟨h.1.append hpath, h.2⟩
  | call c next ih =>
    obtain ⟨tr₂, s₂, tr₃, s₃, tr₄, a, rfl, h₂, h₃, ha, h₄⟩ := h
    exact ⟨tr₂, s₂, tr₃, s₃, tr₄ ++ tr₁, a, by simp only [List.append_assoc], h₂, h₃, ha, ih a h₄⟩

/-- Of two clients one after the other, each is served in its part of the steps. -/
theorem serves_bind {p : Client Answer ρ} {f : ρ → Client Answer ρ'} {result : ρ'} :
    (p >>= f).Serves M Answered s tr s' result ↔
      ∃ tr₁ s₁ tr₂ a, tr = tr₁ ++ tr₂ ∧ p.Serves M Answered s tr₁ s₁ a ∧ (f a).Serves M Answered s₁ tr₂ s' result := by
  change (p.bind f).Serves M Answered s tr s' result ↔ _
  induction p generalizing s tr with
  | done returned =>
    constructor
    · intro h
      exact ⟨[], s, tr, returned, rfl, ⟨.nil, rfl⟩, h⟩
    · rintro ⟨tr₁, s₁, tr₂, a, rfl, ⟨hpath, rfl⟩, h⟩
      exact h.prepend hpath
  | call c next ih =>
    constructor
    · rintro ⟨tr₁, s₁, tr₂, s₂, tr₃, a, rfl, h₁, h₂, ha, h₃⟩
      obtain ⟨tr₄, s₃, tr₅, b, rfl, h₄, h₅⟩ := (ih a).1 h₃
      exact ⟨tr₁ ++ tr₂ ++ tr₄, s₃, tr₅, b, by simp only [List.append_assoc], ⟨tr₁, s₁, tr₂, s₂, tr₄, a, rfl, h₁, h₂, ha, h₄⟩, h₅⟩
    · rintro ⟨tr', s₃, tr₅, b, rfl, ⟨tr₁, s₁, tr₂, s₂, tr₃, a, rfl, h₁, h₂, ha, h₃⟩, h₅⟩
      exact ⟨tr₁, s₁, tr₂, s₂, tr₃ ++ tr₅, a, by simp only [List.append_assoc], h₁, h₂, ha, (ih a).2 ⟨tr₃, s₃, tr₅, b, rfl, h₃, h₅⟩⟩

theorem serves_ask {c : κ} {a : Answer c} :
    (ask c).Serves M Answered s tr s' a ↔ Asked M Answered c s tr s' a := by
  constructor
  · rintro ⟨tr₁, s₁, tr₂, s₂, tr₃, a', rfl, h₁, h₂, ha, h₃, rfl⟩
    exact ⟨tr₁, s₁, tr₂, s₂, tr₃, rfl, h₁, h₂, ha, h₃⟩
  · rintro ⟨tr₁, s₁, tr₂, s₂, tr₃, rfl, h₁, h₂, ha, h₃⟩
    exact ⟨tr₁, s₁, tr₂, s₂, tr₃, a, rfl, h₁, h₂, ha, h₃, rfl⟩

/-- A call that is the next step. -/
theorem serves_step {c : κ} {next : Answer c → Client Answer ρ} {a : Answer c} {result : ρ} {l : ι} {o : ω} {s₁ : σ}
    (hs : M.step s l = some (o, s₁)) (ha : Answered c s [⟨s, l, o, s₁⟩] a) (h : (next a).Serves M Answered s₁ tr s' result) :
    (call c next).Serves M Answered s (⟨s, l, o, s₁⟩ :: tr) s' result :=
  ⟨[], s, [_], s₁, tr, a, rfl, .nil, .single hs, ha, h⟩

/-- A call that takes no step. -/
theorem serves_look {c : κ} {next : Answer c → Client Answer ρ} {a : Answer c} {result : ρ} (ha : Answered c s [] a)
    (h : (next a).Serves M Answered s tr s' result) : (call c next).Serves M Answered s tr s' result :=
  ⟨[], s, [], s, tr, a, rfl, .nil, .nil, ha, h⟩

theorem serves_each_cons {body : β → Client Answer ρ} {x : β} {xs : List β} {results : List ρ} :
    (each body (x :: xs)).Serves M Answered s tr s' results ↔ ∃ tr₁ s₁ tr₂ result rest, tr = tr₁ ++ tr₂ ∧
      results = result :: rest ∧ (body x).Serves M Answered s tr₁ s₁ result ∧ (each body xs).Serves M Answered s₁ tr₂ s' rest := by
  rw [each, serves_bind]
  constructor
  · rintro ⟨tr₁, s₁, tr₂, result, rfl, h₁, h₂⟩
    obtain ⟨tr₃, s₂, tr₄, rest, rfl, h₃, hpath, rfl⟩ := serves_bind.1 h₂
    exact ⟨tr₁, s₁, tr₃ ++ tr₄, result, rest, rfl, rfl, h₁, h₃.append hpath⟩
  · rintro ⟨tr₁, s₁, tr₂, result, rest, rfl, rfl, h₁, h₂⟩
    exact ⟨tr₁, s₁, tr₂, result, rfl, h₁, serves_bind.2 ⟨tr₂, s', [], rest, (List.append_nil _).symm, h₂, .nil, rfl⟩⟩

/-- The rule of loops: what holds of every element that is served in some part of the steps holds of all of them. -/
theorem Serves.each {body : β → Client Answer ρ} {xs : List β} {results : List ρ} {R : β → ρ → Prop}
    (h : (Client.each body xs).Serves M Answered s tr s' results)
    (one : ∀ x ∈ xs, ∀ tr₁ s₁ tr₂ s₂ tr₃ result, tr = tr₁ ++ tr₂ ++ tr₃ → M.Path s tr₁ s₁ →
      (body x).Serves M Answered s₁ tr₂ s₂ result → M.Path s₂ tr₃ s' → R x result) : List.Forall₂ R xs results := by
  induction xs generalizing s tr results with
  | nil =>
    obtain ⟨-, rfl⟩ := h
    exact .nil
  | cons x xs ih =>
    obtain ⟨tr₁, s₁, tr₂, result, rest, rfl, rfl, hx, hxs⟩ := serves_each_cons.1 h
    refine .cons (one x (by simp) [] s tr₁ s₁ tr₂ result rfl .nil hx hxs.path) (ih hxs fun y hy => ?_)
    rintro tr₃ s₂ tr₄ s₃ tr₅ result rfl h₃ h₄ h₅
    exact one y (by simp [hy]) (tr₁ ++ tr₃) s₂ tr₄ s₃ tr₅ result (by simp only [List.append_assoc]) (hx.path.append h₃) h₄ h₅

/-- A client that is served through other calls is served by the machine these calls show, if they show each call of its. -/
theorem Serves.project {κ' σ' ι' ω' : Type} {Answer' : κ' → Type} {N : Machine σ' ι' ω'}
    {Answered' : (c : κ') → σ' → List (Event σ' ι' ω') → Answer' c → Prop} {calls : (c : κ') → Client Answer (Answer' c)}
    {view : σ → σ'} {event : Event σ ι ω → Option (Event σ' ι' ω')} {p : Client Answer' ρ} {result : ρ}
    (path : ∀ s tr s', M.Path s tr s' → N.Path (view s) (tr.filterMap event) (view s'))
    (shows : ∀ c s tr s' a, (calls c).Serves M Answered s tr s' a →
      Asked N Answered' c (view s) (tr.filterMap event) (view s') a)
    (h : (p.through calls).Serves M Answered s tr s' result) :
    p.Serves N Answered' (view s) (tr.filterMap event) (view s') result := by
  induction p generalizing s tr with
  | done returned => exact ⟨path s tr s' h.1, h.2⟩
  | call c next ih =>
    obtain ⟨tr₁, s₁, tr₂, a, rfl, hcall, hrest⟩ := serves_bind.1 h
    obtain ⟨tr₃, t₁, tr₄, t₂, tr₅, htr, h₃, h₄, ha, h₅⟩ := shows c s tr₁ s₁ a hcall
    obtain hnext := (ih a hrest).prepend h₅
    exact ⟨tr₃, t₁, tr₄, t₂, tr₅ ++ tr₂.filterMap event, a, by rw [List.filterMap_append, htr, List.append_assoc], h₃, h₄, ha, hnext⟩

end Client

end Kit
