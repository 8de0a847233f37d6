import MemKafka.Lib.Links

/-!
# Machines and their runs

A `Machine` takes labelled steps; `step s l = none` when `l` cannot be taken in `s`, so everything a
scheduler, a clock or a client chooses is in the label and the step itself is a function. A run is the
list of its events, oldest first. `Run.induction` is the history rule: a property of the trace and
the state it ends in, kept by every step, holds of every run.
-/

namespace Kit

structure Machine (σ ι ω : Type) where
  init : σ
  step : σ → ι → Option (ω × σ)

/-- One step of a run, with the states around it. -/
structure Event (σ ι ω : Type) where
  pre : σ
  label : ι
  out : ω
  post : σ

namespace Machine

variable {σ ι ω : Type} (M : Machine σ ι ω)

def Takes (e : Event σ ι ω) : Prop := M.step e.pre e.label = some (e.out, e.post)

/-- `tr` leads from `s` to `s'`. -/
def Path (s : σ) (tr : List (Event σ ι ω)) (s' : σ) : Prop :=
  Links Event.pre Event.post s tr s' ∧ ∀ e ∈ tr, M.Takes e

/-- A run from the initial state. -/
def Run (tr : List (Event σ ι ω)) (s : σ) : Prop := M.Path M.init tr s

/-- Takes the steps `ls` from `s`; `none` as soon as one of them cannot be taken. -/
def exec (s : σ) : List ι → Option (List (Event σ ι ω) × σ)
  | [] => some ([], s)
  | l :: ls => (M.step s l).bind fun (o, s') => (exec s' ls).map fun (tr, s'') => (⟨s, l, o, s'⟩ :: tr, s'')

variable {M} {s s' s'' : σ} {tr tr' : List (Event σ ι ω)} {e : Event σ ι ω}

theorem Path.nil : M.Path s [] s := ⟨rfl, by simp⟩

theorem Path.append (h : M.Path s tr s') (h' : M.Path s' tr' s'') : M.Path s (tr ++ tr') s'' :=
  ⟨h.1.append h'.1, fun e he => (List.mem_append.1 he).elim (h.2 e) (h'.2 e)⟩

theorem Path.cons (he : M.Takes e) (h : M.Path e.post tr s') : M.Path e.pre (e :: tr) s' :=
  ⟨⟨rfl, h.1⟩, by simpa using ⟨he, h.2⟩⟩

theorem Path.single (he : M.Takes e) : M.Path e.pre [e] e.post := Path.cons he Path.nil

theorem Path.split (h : M.Path s (tr ++ e :: tr') s') :
    M.Path s tr e.pre ∧ M.Takes e ∧ M.Path e.post tr' s' := by
  obtain ⟨hl, ht⟩ := h
  obtain ⟨m, h₁, rfl, h₂⟩ := Links.append_iff.1 hl
  exact ⟨⟨h₁, fun x hx => ht x (by simp [hx])⟩, ht e (by simp), h₂, fun x hx => ht x (by simp [hx])⟩

/-- Induction along a path, one step at its end at a time. -/
theorem Path.induction {P : List (Event σ ι ω) → σ → Prop} (nil : P [] s)
    (snoc : ∀ tr e, M.Path s tr e.pre → P tr e.pre → M.Takes e → P (tr ++ [e]) e.post)
    (h : M.Path s tr s') : P tr s' := by
  induction tr using List.reverseRecOn generalizing s' with
  | nil => obtain rfl := Links.nil_iff.1 h.1; exact nil
  | append_singleton tr e ih =>
    obtain ⟨h₁, he, h₂⟩ := h.split
    obtain rfl := Links.nil_iff.1 h₂.1
    exact snoc tr e h₁ (ih h₁) he

/-- The history rule. -/
theorem Run.induction {P : List (Event σ ι ω) → σ → Prop} (nil : P [] M.init)
    (snoc : ∀ tr e, M.Run tr e.pre → P tr e.pre → M.Takes e → P (tr ++ [e]) e.post)
    (h : M.Run tr s) : P tr s :=
  Path.induction nil snoc h

/-- The invariant rule, along a path from any state that satisfies the invariant. -/
theorem Path.invariant {P : σ → Prop} (step : ∀ e, M.Takes e → P e.pre → P e.post) (h₀ : P s)
    (h : M.Path s tr s') : P s' :=
  Path.induction (P := fun _ s => P s) h₀ (fun _ e _ hp he => step e he hp) h

theorem Run.invariant {P : σ → Prop} (init : P M.init) (step : ∀ e, M.Takes e → P e.pre → P e.post)
    (h : M.Run tr s) : P s :=
  Path.invariant step init h

/-- What does not hold at one end of a path and holds at the other came about in one of its steps. -/
theorem Path.crosses {P : σ → Prop} (h : M.Path s tr s') (h₀ : ¬ P s) (h₁ : P s') :
    ∃ e ∈ tr, M.Takes e ∧ ¬ P e.pre ∧ P e.post := by
  revert h₁
  refine Path.induction (P := fun tr s' => P s' → ∃ e ∈ tr, M.Takes e ∧ ¬ P e.pre ∧ P e.post) (fun h₁ => absurd h₁ h₀) ?_ h
  intro tr e _ ih he h₁
  by_cases hpre : P e.pre
  · obtain ⟨f, hf, hcrosses⟩ := ih hpre
    exact ⟨f, by simp [hf], hcrosses⟩
  · exact ⟨e, by simp, he, hpre, h₁⟩

theorem Run.split (h : M.Run (tr ++ e :: tr') s) : M.Run tr e.pre ∧ M.Takes e ∧ M.Path e.post tr' s :=
  Path.split h

theorem Run.snoc (h : M.Run tr e.pre) (he : M.Takes e) : M.Run (tr ++ [e]) e.post :=
  Path.append h (Path.single he)

/-- A machine seen through another: each step of the first is a step of the second, or invisible to it. -/
theorem Path.project {σ' ι' ω' : Type} {N : Machine σ' ι' ω'} (view : σ → σ')
    (event : Event σ ι ω → Option (Event σ' ι' ω'))
    (visible : ∀ e e', M.Takes e → event e = some e' → e'.pre = view e.pre ∧ e'.post = view e.post ∧ N.Takes e')
    (invisible : ∀ e, M.Takes e → event e = none → view e.post = view e.pre) (h : M.Path s tr s') :
    N.Path (view s) (tr.filterMap event) (view s') := by
  refine Path.induction (P := fun tr s' => N.Path (view s) (tr.filterMap event) (view s')) Path.nil ?_ h
  intro tr e _ ih he
  rw [List.filterMap_append]
  cases hev : event e with
  | none =>
    rw [invisible e he hev]
    simpa [hev] using ih
  | some e' =>
    obtain ⟨hpre, hpost, ht⟩ := visible e e' he hev
    rw [← hpre] at ih
    rw [← hpost]
    simpa [hev] using Path.append ih (Path.single ht)

theorem Run.project {σ' ι' ω' : Type} {N : Machine σ' ι' ω'} (view : σ → σ')
    (event : Event σ ι ω → Option (Event σ' ι' ω')) (init : view M.init = N.init)
    (visible : ∀ e e', M.Takes e → event e = some e' → e'.pre = view e.pre ∧ e'.post = view e.post ∧ N.Takes e')
    (invisible : ∀ e, M.Takes e → event e = none → view e.post = view e.pre) (h : M.Run tr s) :
    N.Run (tr.filterMap event) (view s) := by
  have hpath := Path.project view event visible invisible h
  rwa [init] at hpath

theorem exec_path {ls : List ι} (h : M.exec s ls = some (tr, s')) : M.Path s tr s' ∧ tr.map Event.label = ls := by
  induction ls generalizing s tr with
  | nil => obtain ⟨rfl, rfl⟩ : [] = tr ∧ s = s' := by simpa [exec] using h
           exact ⟨Path.nil, rfl⟩
  | cons l ls ih =>
    simp only [exec, Option.bind_eq_some_iff, Option.map_eq_some_iff, Prod.exists, Prod.mk.injEq] at h
    obtain ⟨o, s₁, hs, tr', s₂, hx, rfl, rfl⟩ := h
    obtain ⟨hp, hm⟩ := ih hx
    exact ⟨Path.cons (e := ⟨s, l, o, s₁⟩) hs hp, by simp [hm]⟩

/-- Where an invariant makes the steps of a list of labels possible, the list can be executed. -/
theorem exec_total {P : σ → Prop} (ls : List ι)
    (step : ∀ s, ∀ l ∈ ls, P s → ∃ o s', M.step s l = some (o, s') ∧ P s') (h₀ : P s) :
    ∃ tr s', M.exec s ls = some (tr, s') := by
  induction ls generalizing s with
  | nil => exact ⟨[], s, rfl⟩
  | cons l ls ih =>
    obtain ⟨o, s₁, hs, hp⟩ := step s l (by simp) h₀
    obtain ⟨tr, s₂, hx⟩ := ih (fun s l hl => step s l (by simp [hl])) hp
    exact ⟨⟨s, l, o, s₁⟩ :: tr, s₂, by simp only [exec, hs, Option.bind_some, hx, Option.map_some]⟩

/-- One client of a machine seen alone. `R` relates a state of the whole run to one that has only taken the steps of the
client: the other steps keep it, and a step of the client can be taken on both sides, with the same `view` of
what it returns. Then the client's steps alone can be executed, and return the same. -/
theorem Path.alone {β : Type} (mine : ι → Bool) (view : ω → β) (R : σ → σ → Prop) {t : σ}
    (other : ∀ e t, e ∈ tr → M.Takes e → mine e.label = false → R e.pre t → R e.post t)
    (own : ∀ e t, e ∈ tr → M.Takes e → mine e.label = true → R e.pre t →
      ∃ o t', M.step t e.label = some (o, t') ∧ view o = view e.out ∧ R e.post t')
    (h : M.Path s tr s') (hR : R s t) :
    ∃ tr' t', M.exec t ((tr.map Event.label).filter mine) = some (tr', t') ∧
      tr'.map (fun e => view e.out) = (tr.filter fun e => mine e.label).map fun e => view e.out := by
  induction tr generalizing s t with
  | nil => exact ⟨[], t, rfl, rfl⟩
  | cons e tr ih =>
    obtain ⟨⟨rfl, hlinks⟩, htakes⟩ := h
    have he : M.Takes e := htakes e (by simp)
    have hrest : M.Path e.post tr s' := ⟨hlinks, fun x hx => htakes x (by simp [hx])⟩
    have ih' := fun {t} => ih (t := t) (fun f t hf => other f t (by simp [hf])) (fun f t hf => own f t (by simp [hf])) hrest
    cases hm : mine e.label with
    | false =>
      obtain ⟨tr', t', hx, hout⟩ := ih' (other e t (by simp) he hm hR)
      exact ⟨tr', t', by simpa [hm] using hx, by simpa [hm] using hout⟩
    | true =>
      obtain ⟨o, t₁, hstep, hview, hR₁⟩ := own e t (by simp) he hm hR
      obtain ⟨tr', t', hx, hout⟩ := ih' hR₁
      refine ⟨⟨t, e.label, o, t₁⟩ :: tr', t', ?_, by simp [hm, hview, hout]⟩
      simp only [List.map_cons, List.filter_cons, hm, if_true, exec, hstep, Option.bind_some, hx, Option.map_some]

end Machine

end Kit
