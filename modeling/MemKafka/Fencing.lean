import MemKafka.Agreement

/-!
# Generation fencing

A generation grows by one when a rebalance is completed and never otherwise. A call that succeeds with a
generation finds the members of that generation still together; once one of them is gone or a rebalance
has begun, the group is not completed again before the generation has grown (`Past`), so that no call
with the old generation succeeds any more.
-/

namespace MemKafka
open Kit Relation

/-- The section of a heartbeat, sync or commit of `memberId` that succeeds with `generationId`. -/
def Succeeds (e : GroupEvent) (generationId : Int) (memberId : String) : Prop :=
  match e.label.1 with
  | .heartbeat generationId' memberId' => generationId' = generationId ∧ memberId' = memberId ∧ e.out = .done
  | .sync generationId' memberId' _ _ => generationId' = generationId ∧ memberId' = memberId ∧
  ∃ bytes, e.out = .assigned bytes
  | .commitOffsets generationId' memberId' _ => generationId' = generationId ∧ memberId' = memberId ∧ e.out = .done
  | _ => False

/-! ### Successful calls -/

section
variable {group : Group} {clock : Clock} {generationId : Int} {memberId : String}

theorem heartbeat_done (h : (heartbeat group clock generationId memberId).1 = .done) :
    (heartbeat group clock generationId memberId).2.completed ∧
      (heartbeat group clock generationId memberId).2.generationId = generationId ∧
      memberId ∈ (heartbeat group clock generationId memberId).2.members := by
  unfold heartbeat at h ⊢
  generalize expireStaleMembers group clock none = body at h ⊢
  cases hvalid : validateMemberAndGeneration body generationId memberId with
  | error error => simp [hvalid] at h
  | ok =>
    obtain ⟨hmem, hgen⟩ := validate_ok hvalid
    have hmem' : memberId ∈ (touchMember body memberId clock.now).members := mem_update.2 hmem
    simp only [hvalid] at h ⊢
    cases hstate : (touchMember body memberId clock.now).state with
    | completingRebalance => exact ⟨.inl hstate, hgen, hmem'⟩
    | stable => exact ⟨.inr hstate, hgen, hmem'⟩
    | empty => simp [hstate] at h
    | preparingRebalance => simp [hstate] at h

theorem commitOffsets_done {offsets : List OffsetCommit}
    (h : (commitOffsets group clock generationId memberId offsets).1 = .done) :
    (commitOffsets group clock generationId memberId offsets).2.completed ∧
      (commitOffsets group clock generationId memberId offsets).2.generationId = generationId ∧
      memberId ∈ (commitOffsets group clock generationId memberId offsets).2.members := by
  unfold commitOffsets at h ⊢
  generalize expireStaleMembers group clock none = body at h ⊢
  cases hvalid : validateMemberAndGeneration body generationId memberId with
  | error error => simp [hvalid] at h
  | ok =>
    obtain ⟨hmem, hgen⟩ := validate_ok hvalid
    by_cases hstate : body.state = .stable
    · simp only [hvalid, hstate, ne_eq, not_true_eq_false, if_false]
      exact ⟨.inr hstate, hgen, hmem⟩
    · simp [hvalid, hstate] at h

theorem Succeeds.post {e : GroupEvent} (ht : groupMachine.Takes e) (h : Succeeds e generationId memberId) :
    e.post.group.completed ∧ e.post.group.generationId = generationId ∧ memberId ∈ e.post.group.members := by
  obtain ⟨-, -, hout, hpost, -⟩ := groupMachine_takes ht
  obtain ⟨pre, ⟨op, clock⟩, out, post⟩ := e
  dsimp only at hout hpost
  subst hout
  rw [hpost]
  cases op with
  | heartbeat generationId' memberId' =>
    obtain ⟨rfl, rfl, h⟩ := h
    exact heartbeat_done h
  | sync generationId' memberId' assignments refresh =>
    obtain ⟨rfl, rfl, bytes, h⟩ := h
    obtain ⟨after, hafter, hstable, hgen, hmem, -⟩ := run_assigned h
    rw [hafter]
    exact ⟨.inr hstable, hgen, hmem⟩
  | commitOffsets generationId' memberId' offsets =>
    obtain ⟨rfl, rfl, h⟩ := h
    exact commitOffsets_done h
  | enter mayAddMember request => exact h.elim
  | wait memberId' target => exact h.elim
  | leave memberId' => exact h.elim
  | describe groupId => exact h.elim
  | drive => exact h.elim

end

/-! ### The generation -/

section
variable {group group' : Group} {clock : Clock}

/-- A mutation of the generation is one step from preparing to completing. -/
def GenerationStep (group group' : Group) : Prop :=
  (group'.generationId = group.generationId ∨ group'.generationId = group.generationId + 1) ∧
  (group'.generationId = group.generationId + 1 ↔
    group.state = .preparingRebalance ∧ group'.state = .completingRebalance)

theorem Mutation.generationStep (h : Mutation clock group group') (hgen : group'.generationId < i32Max) :
    GenerationStep group group' := by
  cases h with
  | steady hs =>
    have hc := Carries.of_steady hs
    refine ⟨.inl hc.generation, fun h => ?_, fun ⟨hp, hcompl⟩ => ?_⟩
    · have := hc.generation; omega
    · have := (hc.cohort (.inl hcompl)).1.trans hcompl
      rw [hp] at this; cases this
  | complete hready _ =>
    have hnext : nextGeneration group.generationId = group.generationId + 1 := if_pos (nextGeneration_lt hgen)
    exact ⟨.inr hnext, fun _ => ⟨(ready_iff.1 hready).1, rfl⟩, fun _ => hnext⟩
  | install assignments hi =>
    obtain ⟨members, deadline, heq, -⟩ := installAssignments_eq group assignments clock.now
    rw [heq]
    refine ⟨.inl rfl, ?_, fun h => by cases h.2⟩
    intro h
    have : group.generationId = group.generationId + 1 := h
    omega

theorem Mutation.generation_le (h : Mutation clock group group') : group.generationId ≤ group'.generationId := by
  cases h with
  | steady hs => exact le_of_eq (Carries.of_steady hs).generation.symm
  | complete _ _ => exact (le_nextGeneration _).1
  | install assignments _ =>
    obtain ⟨members, deadline, heq, -⟩ := installAssignments_eq group assignments clock.now
    rw [heq]

theorem mutations_generationStep (h : ReflTransGen (Mutation clock) group group')
    (hgen : group'.generationId < i32Max) :
    ReflTransGen (fun a b => Mutation clock a b ∧ GenerationStep a b) group group' := by
  induction h with
  | refl => exact .refl
  | tail _ hm ih => exact (ih (lt_of_le_of_lt hm.generation_le hgen)).tail ⟨hm, hm.generationStep hgen⟩

/-- Nothing of generation `g` is left in force. -/
def Past (g : Int) (group : Group) : Prop := g < group.generationId ∨ (group.generationId = g ∧ ¬ group.completed)

theorem Section.past {op : GroupOp} {g : Int} (h : Section clock op group group') (hgen : group'.generationId < i32Max)
    (hp : Past g group) : Past g group' := by
  rcases hp with hlt | ⟨rfl, hnot⟩
  · exact .inl (lt_of_lt_of_le hlt h.generation_le)
  cases h with
  | steady path =>
    have hc := Carries.of_path path
    refine .inr ⟨hc.generation, fun hcompl => hnot ?_⟩
    rw [Group.completed, (hc.cohort hcompl).1]; exact hcompl
  | completes path _ _ =>
    have hnext : ∀ g, nextGeneration g < i32Max → nextGeneration g = g + 1 := fun g h => if_pos (nextGeneration_lt h)
    refine .inl ?_
    show group.generationId < nextGeneration _
    rw [hnext _ hgen, (Carries.of_path path).generation]
    omega
  | installs path _ _ hi _ =>
    refine absurd (Or.inl ?_) hnot
    exact ((Carries.of_path path).cohort (.inl hi.completing)).1.trans hi.completing

/-- A member is gone, a rebalance has begun, or the group is not completed. -/
def Disturbed (group group' : Group) : Prop :=
  (∃ id, id ∈ group.members ∧ id ∉ group'.members) ∨ group.rebalanceEpoch < group'.rebalanceEpoch ∨ ¬ group'.completed

theorem Section.past_of_disturbed {op : GroupOp} (h : Section clock op group group')
    (hgen : group'.generationId < i32Max) (hd : Disturbed group group') : Past group.generationId group' := by
  -- a completed group of the same cohort and epoch is undisturbed
  have calm : ∀ {after : Group}, after.completed → after.rebalanceEpoch = group.rebalanceEpoch →
      SameCohort group after →
      ¬ Disturbed group after := by
    rintro after hcompl hepoch hsame (⟨id, hid, hgone⟩ | hlt | hnot)
    · exact hgone ((hsame.members id).2 hid)
    · omega
    · exact hnot hcompl
  cases h with
  | steady path =>
    have hc := Carries.of_path path
    refine .inr ⟨hc.generation, ?_⟩
    intro hcompl
    exact calm hcompl (hc.cohort hcompl).2.1 (hc.cohort hcompl).2.2 hd
  | completes path ready select =>
    refine .inl ?_
    show group.generationId < nextGeneration _
    rw [show nextGeneration _ = _ from if_pos (nextGeneration_lt hgen), (Carries.of_path path).generation]
    omega
  | installs path assignments refresh hi _ =>
    obtain ⟨hs, hepoch, hsame⟩ := (Carries.of_path path).cohort (.inl hi.completing)
    obtain ⟨members, deadline, heq, hm, -⟩ := installAssignments_eq _ assignments clock.now
    rw [heq] at hd
    exact absurd hd (calm (.inr rfl) hepoch (hsame.trans ⟨fun _ => mem_map_iff hm, rfl, rfl, rfl⟩))

end

/-! ### Runs -/

section
variable {evs before after : List GroupEvent} {e f : GroupEvent} {t : TimedGroup}

theorem path_generation_le {s t : TimedGroup} (h : groupMachine.Path s evs t) :
    s.group.generationId ≤ t.group.generationId :=
  Machine.Path.invariant (M := groupMachine) (P := fun t => s.group.generationId ≤ t.group.generationId)
    (fun _ he hle => hle.trans (groupMachine_section he).generation_le) le_rfl h

/-- The states after an event and after a later one. -/
theorem later_event (hrun : groupMachine.Run (before ++ e :: after) t) (hf : f ∈ after) :
    ∃ mid rest, groupMachine.Path e.post mid f.pre ∧ groupMachine.Takes f ∧ groupMachine.Path f.post rest t := by
  obtain ⟨-, -, hpath⟩ := hrun.split
  obtain ⟨mid, rest, rfl⟩ := List.append_of_mem hf
  obtain ⟨h₁, h₂, h₃⟩ := hpath.split
  exact ⟨mid, rest, h₁, h₂, h₃⟩

theorem past_of_path {g : Int} {s t : TimedGroup} (h : groupMachine.Path s evs t) (hp : Past g s.group)
    (hgen : t.group.generationId < i32Max) : Past g t.group := by
  refine Machine.Path.invariant (M := groupMachine) (P := fun t => t.group.generationId < i32Max → Past g t.group)
    (fun e he ih hgen => ?_) (fun _ => hp) h hgen
  have hsection := groupMachine_section he
  exact hsection.past hgen (ih (lt_of_le_of_lt hsection.generation_le hgen))

/-- After a section that disturbs a generation no call succeeds with it. -/
theorem fenced (hrun : groupMachine.Run (before ++ e :: after) t) (hgen : t.group.generationId < i32Max)
    (hd : Disturbed e.pre.group e.post.group) (hf : f ∈ e :: after) {g : Int} {memberId : String}
    (hs : Succeeds f g memberId) :
    e.pre.group.generationId < g := by
  obtain ⟨-, he, hpath⟩ := hrun.split
  have hpast : Past e.pre.group.generationId e.post.group :=
    (groupMachine_section he).past_of_disturbed (lt_of_le_of_lt (path_generation_le hpath) hgen) hd
  have hsuccess : ∀ {f : GroupEvent}, groupMachine.Takes f → Past e.pre.group.generationId f.post.group →
      Succeeds f g memberId →
      e.pre.group.generationId < g := by
    intro f htakes hp hs
    obtain ⟨hcompl, rfl, -⟩ := hs.post htakes
    exact hp.resolve_right fun h => h.2 hcompl
  rcases List.mem_cons.1 hf with rfl | hf
  · exact hsuccess he hpast hs
  · obtain ⟨mid, rest, hmid, htakes, hrest⟩ := later_event hrun hf
    have hle := path_generation_le hrest
    refine hsuccess htakes ((groupMachine_section htakes).past (lt_of_le_of_lt hle hgen) ?_) hs
    refine past_of_path hmid hpast (lt_of_le_of_lt ?_ hgen)
    exact (groupMachine_section htakes).generation_le.trans hle

end

/-- Generation fencing. Under the lock of a group the generation grows by one exactly in the mutations that
go from preparing to completing a rebalance. A heartbeat, sync or commit that succeeds is one of a
member of its generation's cohort, with the cohort still together; the generations of successful
calls never go back in lock order; and once a member is gone or a rebalance has begun, no call
succeeds with the old generation. -/
theorem generations_fence (tr : List CoordinatorEvent) (s : Coordinator) (hrun : coordinator.Run tr s)
    (groupId : String) (hgen : (s.group groupId).generationId < i32Max) :
    (∀ e ∈ groupEvents groupId tr, e.pre.group.generationId ≤ e.post.group.generationId ∧
      ReflTransGen (fun a b => Mutation e.label.2 a b ∧ GenerationStep a b) e.pre.group e.post.group) ∧
    (∀ e ∈ groupEvents groupId tr, ∀ g memberId, Succeeds e g memberId →
      ∃ cohort, completionOf g (groupEvents groupId tr) = some cohort ∧ memberId ∈ cohort.members ∧
        ∀ id, id ∈ e.post.group.members ↔ id ∈ cohort.members) ∧
    (∀ before e mid f after, groupEvents groupId tr = before ++ e :: mid ++ f :: after → ∀ g h memberId memberId',
      Succeeds e g memberId → Succeeds f h memberId' → g ≤ h) ∧
    ∀ before e after, groupEvents groupId tr = before ++ e :: after → Disturbed e.pre.group e.post.group →
      ∀ f ∈ e :: after, ∀ g memberId, Succeeds f g memberId → e.pre.group.generationId < g := by
  have hgroup := coordinator_groupRun hrun groupId
  have hgen' : (s.timed groupId).group.generationId < i32Max := hgen
  generalize groupEvents groupId tr = evs at hgroup ⊢
  have hevent : ∀ e ∈ evs, groupMachine.Takes e ∧ e.post.group.generationId < i32Max := by
    intro e he
    obtain ⟨before, after, rfl⟩ := List.append_of_mem he
    obtain ⟨-, htakes, hpath⟩ := hgroup.split
    exact ⟨htakes, lt_of_le_of_lt (path_generation_le hpath) hgen'⟩
  refine ⟨?_, ?_, ?_, ?_⟩
  · intro e he
    have hsection := groupMachine_section (hevent e he).1
    exact ⟨hsection.generation_le, mutations_generationStep hsection.mutations (hevent e he).2⟩
  · intro e he g memberId hs
    obtain ⟨htakes, hlt⟩ := hevent e he
    obtain ⟨hcompl, rfl, hmem⟩ := hs.post htakes
    obtain ⟨before, after, rfl⟩ := List.append_of_mem he
    obtain ⟨hbefore, -, -⟩ := hgroup.split
    obtain ⟨-, hist⟩ := History.of_run (Machine.Run.snoc hbefore htakes) hlt
    obtain ⟨cohort, hc, hsame⟩ := hist.current hcompl
    refine ⟨cohort, ?_, (hsame.members memberId).1 hmem, hsame.members⟩
    rw [List.append_cons]
    exact completionOf_append hc
  · rintro before e mid f after rfl g h memberId memberId' hse hsf
    rw [List.append_assoc, List.cons_append] at hgroup hevent
    obtain ⟨-, rfl, -⟩ := hse.post (hevent e (by simp)).1
    obtain ⟨-, rfl, -⟩ := hsf.post (hevent f (by simp)).1
    obtain ⟨mid', rest, hmid, htakes, -⟩ := later_event hgroup (f := f) (by simp)
    exact (path_generation_le hmid).trans (groupMachine_section htakes).generation_le
  · rintro before e after rfl hd f hf g memberId hs
    exact fenced hgroup hgen' hd hf hs

theorem generations_fence_two_members : ∃ tr s cohort, coordinator.exec .new twoMembers = some (tr, s) ∧
    completionOf 2 (groupEvents "g" tr) = some cohort ∧ "b-2" ∈ cohort.members := by
  obtain ⟨tr, s, hx, hrun, -, hgen, -⟩ := twoMembers_run
  have hlast : ((coordinator.exec .new twoMembers).bind fun r => ((groupEvents "g" r.1).map fun e => (e.label.1, e.out)).getLast?) =
      some (.heartbeat 2 "b-2", .done) := by decide +kernel
  rw [hx] at hlast
  obtain ⟨e, he, heq⟩ := List.mem_map.1 (List.mem_of_getLast? hlast)
  obtain ⟨hop, hout⟩ := Prod.mk.inj heq
  have hs : Succeeds e 2 "b-2" := by
    rw [Succeeds, hop]
    exact ⟨rfl, rfl, hout⟩
  obtain ⟨-, h, -⟩ := generations_fence tr s hrun "g" (by rw [hgen]; decide)
  obtain ⟨cohort, hcohort, hmem, -⟩ := h e he 2 "b-2" hs
  exact ⟨tr, s, cohort, hx, hcohort, hmem⟩

end MemKafka
