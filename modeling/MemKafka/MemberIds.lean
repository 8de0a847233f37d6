import MemKafka.Agreement
import MemKafka.JoinSteps

/-!
# The ids of removed members

A join that was let through before its member was removed adds it again afterwards (`removed_member_rejoins`). If nobody
has a claim to the id when its member is removed, nobody gets one any more, and every join that carries it is
refused (`removed_members_stay_fenced`).
-/

namespace MemKafka
open Kit Relation

/-! ### Joins that can go on -/

/-- The call has opened its group. -/
def JoinPoint.inside : JoinPoint → Bool
  | .enter _ => true
  | .clearPending _ => true
  | .wait _ _ => true
  | _ => false

/-- A removal notifies. -/
theorem Steady.notifies {clock : Clock} {group group' : Group} (h : Steady clock group group') {id : String}
    (hmem : id ∈ group.members) (hgone : id ∉ group'.members) : group.change < group'.change := by
  cases h with
  | remove ids _ =>
    rcases removeMembers_cases group ids clock.begun with ⟨-, heq⟩ | ⟨leader, -, -, ⟨-, heq⟩ | ⟨-, heq⟩⟩ <;> rw [heq] <;>
      exact Nat.lt_succ_self _
  | touch id' _ => exact absurd (mem_update.2 hmem) hgone
  | add mayAddMember request _ => exact absurd (mem_addMember.2 (.inr hmem)) hgone
  | mark id' _ _ _ => exact absurd (mem_update.2 hmem) hgone
  | syncStable id' _ _ =>
    obtain ⟨deadline, heq, -⟩ := clearRebalanceDeadline_eq (markSynced group id' group.generationId)
    rw [MemKafka.syncStable, heq] at hgone
    exact absurd (mem_update.2 hmem) hgone
  | commit offsets => exact absurd hmem hgone

/-- A section notifies if a member is gone after it. -/
theorem Section.notifies {clock : Clock} {op : GroupOp} {group group' : Group} (h : Section clock op group group') :
    group.change ≤ group'.change ∧ ∀ id ∈ group.members, id ∉ group'.members → group.change < group'.change := by
  have hpath : ∀ {body : Group}, ReflTransGen (Steady clock) group body → group.change ≤ body.change ∧
      ∀ id ∈ group.members, id ∉ body.members → group.change < body.change := by
    intro body path
    refine ⟨change_le_of_path path, ?_⟩
    induction path with
    | refl => exact fun id hmem hgone => absurd hmem hgone
    | @tail mid body path hstep ih =>
      intro id hmem hgone
      by_cases hmid : id ∈ mid.members
      · exact (change_le_of_path path).trans_lt (hstep.notifies hmid hgone)
      · exact (ih id hmem hmid).trans_le hstep.change_le
  cases h with
  | steady path => exact hpath path
  | completes path ready select =>
    have hlt := Nat.lt_succ_of_le (hpath path).1
    exact ⟨hlt.le, fun _ _ _ => hlt⟩
  | installs path assignments refresh hi hop =>
    obtain ⟨members, deadline, heq, -⟩ := installAssignments_eq _ assignments clock.now
    rw [heq]
    have hlt := Nat.lt_succ_of_le (hpath path).1
    exact ⟨hlt.le, fun _ _ _ => hlt⟩

/-- A join that goes to sleep leaves its member in the group. -/
theorem wait_sleeps {group : Group} {clock : Clock} {id : String} {target : Nat} {sleep : Sleep}
    (h : (wait group clock id target).1 = .parked sleep) :
    sleep.ticket = (wait group clock id target).2.change ∧ id ∈ (wait group clock id target).2.members := by
  rcases wait_cases group clock id target with ⟨result, -, heq⟩ | ⟨error, heq⟩ | ⟨after, out, -, hmem, -, hcomplete,
    ⟨error, -, heq⟩ | ⟨result, -, heq⟩ | ⟨-, -, heq⟩⟩
  all_goals rw [heq] at h ⊢
  all_goals cases h
  refine ⟨rfl, ?_⟩
  rw [show after = (completeRebalanceIfReady (expireStaleMembers group clock (some id)) clock.completed).2 by rw [hcomplete],
    mem_completeRebalanceIfReady]
  rcases expireStaleMembers_cases group clock (some id) with heq | ⟨ids, -, hactive, heq⟩ <;> rw [heq]
  · exact hmem
  · rw [removeMembers_members]
    exact mem_eraseAll.2 ⟨hmem, fun hid => hactive id hid rfl⟩

/-- No join is stuck: whoever is inside has a group, and whoever sleeps while its member is gone was notified. -/
structure Ready (s : Coordinator) : Prop where
  inside : ∀ call join, s.calls.lookup call = some (.join join) → join.point.inside = true →
    join.request.groupId ∈ s.groups
  asleep : ∀ call request target sleep, s.calls.lookup call = some (.join ⟨request, .wait target (some sleep)⟩) →
    sleep.ticket ≤ (s.group request.groupId).change ∧
      (request.memberId ∉ (s.group request.groupId).members → sleep.ticket < (s.group request.groupId).change)

section
variable {s s' : Coordinator} {label : CoordinatorLabel} {answer : CoordinatorReply}

theorem groups_kept (h : s.step label = some (answer, s')) {groupId : String} (hmem : groupId ∈ s.groups) :
    groupId ∈ s'.groups := by
  rcases step_cases h with ⟨hidle, -⟩ | ⟨groupId', op, clock, -, cell, timed, reply, driver, -, -, hgroups, -⟩
  · exact hidle.kept groupId hmem
  · rw [hgroups]
    exact (AList.mem_insert _).2 (.inr hmem)

theorem Ready.step (h : Ready s) (hstep : s.step label = some (answer, s')) : Ready s' := by
  refine ⟨?_, ?_⟩
  · intro call join hl hinside
    cases (step_joinStep hstep).calls call join hl with
    | stays stood => exact groups_kept hstep (h.inside _ _ stood hinside)
    | opens request mayAddMember stood there => exact there
    | enters request targetEpoch there => exact there
    | waits request targetEpoch sleep stood before =>
      have hthere := h.inside _ _ stood (by rcases before with rfl | ⟨sleep, rfl⟩ <;> rfl)
      exact groups_kept hstep hthere
    | mints request clientId point new counted next => rcases next with rfl | rfl <;> cases hinside
    | starts request => cases hinside
    | admits request pending => cases hinside
    | asks request => cases hinside
    | knows request => cases hinside
  · intro call request target sleep hl
    -- a sleep that goes on through a section of its group
    have hkeeps : sleep.ticket ≤ (s.group request.groupId).change ∧
        (request.memberId ∉ (s.group request.groupId).members → sleep.ticket < (s.group request.groupId).change) →
        sleep.ticket ≤ (s'.group request.groupId).change ∧
        (request.memberId ∉ (s'.group request.groupId).members → sleep.ticket < (s'.group request.groupId).change) := by
      rintro ⟨hle, hgone⟩
      rcases step_sectionFor hstep request.groupId with ⟨-, heq⟩ | ⟨op, clock, reply, -, hgroup⟩
      · rw [Coordinator.group, heq]
        exact ⟨hle, hgone⟩
      · obtain ⟨hchange, hnotifies⟩ := Section.notifies
          (groupMachine_section (e := ⟨s.timed request.groupId, (op, clock), reply, s'.timed request.groupId⟩) hgroup)
        refine ⟨hle.trans hchange, fun hgone' => ?_⟩
        by_cases hmem : request.memberId ∈ (s.group request.groupId).members
        · exact hle.trans_lt (hnotifies _ hmem hgone')
        · exact (hgone hmem).trans_le hchange
    rcases step_cases hstep with ⟨hidle, -⟩ | ⟨groupId, op, clock, -, cell, timed, reply, driver, hcell, hs, hgroups, -, hcalls, -⟩
    · rcases hidle.calls call _ hl with hl | hawake
      · exact hkeeps (h.asleep call request target sleep hl)
      · exact absurd trivial hawake
    · rcases hcalls call _ hl with hl | ⟨rfl, rfl, rfl⟩
      · exact hkeeps (h.asleep call request target sleep hl)
      · have hpost : s'.group request.groupId = timed.group := by
          have hlookup : s'.groups.lookup request.groupId = some ⟨timed, driver⟩ := by
            rw [hgroups, lookup_insert_eq, if_pos rfl]
          rw [Coordinator.group, timed_of_lookup hlookup]
        obtain ⟨-, -, hout, hafter, -⟩ := groupMachine_takes
          (e := ⟨cell.timed, (.wait request.memberId target, clock), .parked sleep, timed⟩) hs
        obtain ⟨hticket, hmem⟩ := wait_sleeps hout.symm
        rw [hpost, show timed.group = (wait cell.timed.group clock request.memberId target).2 from hafter]
        exact ⟨hticket.le, fun hgone => absurd hmem hgone⟩

theorem Ready.of_run {tr : List CoordinatorEvent} (h : coordinator.Run tr s) : Ready s := by
  refine Machine.Run.invariant (M := coordinator) (P := Ready) ?_ (fun e ht h => h.step ht) h
  exact ⟨fun _ _ hl => (by cases hl), fun _ _ _ _ hl => (by cases hl)⟩

end

/-! ### Runs -/

/-- The id was given out before. -/
def Issued (s : Coordinator) (memberId : String) : Prop :=
  ∃ clientId sequence, memberId = Coordinator.memberIdOf clientId sequence ∧ sequence < s.nextMemberId

/-- What a step is asked for: the counter of the ids does not wrap around, and nobody has a claim to
the id of a member it removes. -/
structure Orderly (e : CoordinatorEvent) : Prop where
  counter : e.pre.nextMemberId + 1 < 2 ^ 64
  spent : ∀ groupId memberId, memberId ∈ (e.pre.group groupId).members → memberId ∉ (e.post.group groupId).members →
    ¬ Claimed e.pre groupId memberId

instance (e : CoordinatorEvent) : Decidable (Orderly e) :=
  decidable_of_iff (e.pre.nextMemberId + 1 < 2 ^ 64 ∧ ∀ g ∈ e.pre.groups.entries, ∀ id ∈ g.2.timed.group.members.keys,
      id ∉ (e.post.group g.1).members → ¬ Claimed e.pre g.1 id) (by
    constructor
    · rintro ⟨hcounter, hspent⟩
      refine ⟨hcounter, fun groupId memberId hmem hgone => ?_⟩
      cases hl : e.pre.groups.lookup groupId with
      | none =>
        rw [Coordinator.group, Coordinator.timed, hl] at hmem
        cases hmem
      | some cell =>
        rw [Coordinator.group, timed_of_lookup hl] at hmem
        exact hspent ⟨groupId, cell⟩ (lookup_eq_some_iff.1 hl) memberId (AList.mem_keys.1 hmem) hgone
    · rintro ⟨hcounter, hspent⟩
      refine ⟨hcounter, fun g hg id hid hgone => hspent g.1 id ?_ hgone⟩
      rw [Coordinator.group, timed_of_lookup (lookup_eq_some_iff.2 hg)]
      exact AList.mem_keys.2 hid)

/-- The member is gone for good. -/
structure Fenced (groupId memberId : String) (s : Coordinator) : Prop where
  gone : memberId ∉ (s.group groupId).members
  unclaimed : ¬ Claimed s groupId memberId
  issued : Issued s memberId

section
variable {e : CoordinatorEvent} {groupId memberId : String}

/-- A step that is no wraparound keeps the ids that were given out, and gives out a new one, if any. -/
theorem Orderly.claims (h : Orderly e) (ht : coordinator.Takes e) :
    (∀ memberId, Issued e.pre memberId → Issued e.post memberId) ∧
    ∀ groupId memberId, Claimed e.post groupId memberId →
      Claimed e.pre groupId memberId ∨ ¬ Issued e.pre memberId ∧ Issued e.post memberId := by
  have hstep := step_joinStep ht
  have hcounter : e.pre.nextMemberId ≤ e.post.nextMemberId := by
    rcases hstep.counter with heq | heq
    · exact heq.ge
    · rw [heq, Nat.mod_eq_of_lt h.counter]
      exact Nat.le_succ _
  refine ⟨?_, fun groupId memberId hc => (hstep.claimed hc).imp_right ?_⟩
  · rintro memberId ⟨clientId, sequence, rfl, hlt⟩
    exact ⟨clientId, sequence, rfl, hlt.trans_le hcounter⟩
  · rintro ⟨hnext, clientId, rfl⟩
    rw [Nat.mod_eq_of_lt h.counter] at hnext
    refine ⟨?_, clientId, _, rfl, by omega⟩
    rintro ⟨clientId', sequence, heq, hlt⟩
    exact absurd (memberIdOf_injective heq) hlt.ne'

theorem Fenced.step (h : Fenced groupId memberId e.pre) (ho : Orderly e) (ht : coordinator.Takes e) :
    Fenced groupId memberId e.post := by
  obtain ⟨hissued, hclaims⟩ := ho.claims ht
  refine ⟨fun hmem => ?_, fun hc => ?_, hissued memberId h.issued⟩
  · exact (step_adds ht hmem).elim h.gone h.unclaimed
  · exact (hclaims groupId memberId hc).elim h.unclaimed fun hnew => hnew.1 h.issued

/-- Ids that are claimed or in use were given out. -/
theorem issued_of_run {tr : List CoordinatorEvent} {s : Coordinator} (hrun : coordinator.Run tr s)
    (horderly : ∀ e ∈ tr, Orderly e) :
    ∀ groupId memberId, memberId ∈ (s.group groupId).members ∨ Claimed s groupId memberId → Issued s memberId := by
  refine Machine.Run.induction (M := coordinator) (P := fun tr s => (∀ e ∈ tr, Orderly e) →
    ∀ groupId memberId, memberId ∈ (s.group groupId).members ∨ Claimed s groupId memberId → Issued s memberId)
    ?_ ?_ hrun horderly
  · rintro - groupId memberId (h | h | ⟨call, join, hl, -⟩)
    · cases h
    · cases h
    · cases hl
  · intro tr e _ ih ht horderly groupId memberId h
    have ih := ih (fun f hf => horderly f (by simp [hf]))
    obtain ⟨hissued, hclaims⟩ := (horderly e (by simp)).claims ht
    rcases h with hmem | hc
    · exact hissued memberId (ih groupId memberId (step_adds ht hmem))
    · rcases hclaims groupId memberId hc with hc | hnew
      · exact hissued memberId (ih groupId memberId (.inr hc))
      · exact hnew.2

/-- A join stands after a step that only moves it. -/
theorem lookup_setCall_self {s : Coordinator} {call : Nat} {c : Call} :
    (s.setCall call c).calls.lookup call = some c := by
  rw [Coordinator.setCall, lookup_insert_eq, if_pos rfl]

variable {s : Coordinator} {call : Nat} {request : JoinRequest} {clock : Clock}

/-- The next step of the call ends it, with `UnknownMemberId`. -/
def RefusedNext (s : Coordinator) (call : Nat) (request : JoinRequest) (clock : Clock) : Prop :=
  ∃ s', coordinator.step s (.resume call clock) = some (.join request (.error .unknownMemberId), s')

theorem refusedNext_checkMember (hcall : s.calls.lookup call = some (.join ⟨request, .checkMember⟩))
    (hgone : request.memberId ∉ (s.group request.groupId).members) : RefusedNext s call request clock := by
  cases hl : s.groups.lookup request.groupId with
  | none => exact ⟨s.endCall call, by simp only [coordinator, Coordinator.step, hcall, Coordinator.resumeJoin, hl]⟩
  | some cell =>
    rw [Coordinator.group, timed_of_lookup hl] at hgone
    exact ⟨s.endCall call, by simp only [coordinator, Coordinator.step, hcall, Coordinator.resumeJoin, hl, hgone, if_false]⟩

/-- A section can be run on a group that is there, at any later time. -/
theorem runSection_total {groupId : String} (hthere : groupId ∈ s.groups) (hordered : clock.Ordered)
    (hnow : (s.timed groupId).clock ≤ clock.now) (op : GroupOp) :
    ∃ s₁, s.runSection groupId op clock = some ((op.run (s.group groupId) clock).1, s₁) := by
  obtain ⟨cell, hl⟩ := mem_iff_lookup.1 hthere
  rw [timed_of_lookup hl] at hnow
  refine ⟨{ s with groups := s.groups.insert groupId { cell with
    timed := ⟨(op.run cell.timed.group clock).2, clock.completed⟩ } }, ?_⟩
  rw [Coordinator.runSection, hl, Coordinator.group, timed_of_lookup hl]
  simp only [groupMachine, Option.bind_eq_bind, Option.bind_some, hnow, hordered, and_self, if_true]

theorem refusedNext_enter (hcall : s.calls.lookup call = some (.join ⟨request, .enter false⟩))
    (hgone : request.memberId ∉ (s.group request.groupId).members) (hthere : request.groupId ∈ s.groups)
    (hordered : clock.Ordered) (hnow : (s.timed request.groupId).clock ≤ clock.now) :
    RefusedNext s call request clock := by
  obtain ⟨s₁, hrun⟩ := runSection_total hthere hordered hnow (.enter false request)
  rw [GroupOp.run, enter_unknown hgone] at hrun
  exact ⟨s₁.endCall call, by
    simp only [coordinator, Coordinator.step, hcall, Coordinator.resumeJoin, hrun, Option.bind_eq_bind,
      Option.bind_some]⟩

theorem refusedNext_wait {target : Nat} {sleep : Option Sleep}
    (hcall : s.calls.lookup call = some (.join ⟨request, .wait target sleep⟩))
    (hgone : request.memberId ∉ (s.group request.groupId).members) (hthere : request.groupId ∈ s.groups)
    (hawake : ∀ sleep', sleep = some sleep' → sleep'.ticket < (s.group request.groupId).change)
    (hordered : clock.Ordered) (hnow : (s.timed request.groupId).clock ≤ clock.now) :
    RefusedNext s call request clock := by
  obtain ⟨s₁, hrun⟩ := runSection_total hthere hordered hnow (.wait request.memberId target)
  rw [GroupOp.run, wait_unknown hgone] at hrun
  have hwakes : Coordinator.wakes sleep (s.group request.groupId) clock.now = true := by
    cases sleep with
    | none => rfl
    | some sleep => simp [Coordinator.wakes, hawake sleep rfl]
  exact ⟨s₁.endCall call, by
    simp only [coordinator, Coordinator.step, hcall, Coordinator.resumeJoin, hwakes, hrun, Option.bind_eq_bind,
      Option.bind_some, Bool.true_eq_false, if_false]⟩

theorem RefusedNext.exec (h : RefusedNext s call request clock) :
    ∃ n tr s', coordinator.exec s (List.replicate n (.resume call clock)) = some (tr, s') ∧
      tr.getLast?.map Event.out = some (.join request (.error .unknownMemberId)) := by
  obtain ⟨s', h⟩ := h
  exact ⟨1, _, s', by simp only [List.replicate, Machine.exec, h, Option.bind_some, Option.map_some]; rfl, rfl⟩

theorem RefusedNext.exec_after (s₁ : Coordinator)
    (hstep : coordinator.step s (.resume call clock) = some (.progress, s₁)) (h : RefusedNext s₁ call request clock) :
    ∃ n tr s', coordinator.exec s (List.replicate n (.resume call clock)) = some (tr, s') ∧
      tr.getLast?.map Event.out = some (.join request (.error .unknownMemberId)) := by
  obtain ⟨s', h⟩ := h
  exact ⟨2, _, s', by simp only [List.replicate, Machine.exec, hstep, h, Option.bind_some, Option.map_some]; rfl, rfl⟩

/-- A join of a member that is gone for good has at most two steps to go. -/
theorem Fenced.finishes (h : Fenced groupId memberId s) (hready : Ready s) {point : JoinPoint}
    (hcall : s.calls.lookup call = some (.join ⟨request, point⟩)) (hgroup : request.groupId = groupId)
    (hmember : request.memberId = memberId) (hordered : clock.Ordered) (hnow : (s.timed groupId).clock ≤ clock.now) :
    ∃ n tr s', coordinator.exec s (List.replicate n (.resume call clock)) = some (tr, s') ∧
      tr.getLast?.map Event.out = some (.join request (.error .unknownMemberId)) := by
  subst hgroup hmember
  have hadmits : point.admits = false := by
    by_contra hne
    exact h.unclaimed (.inr ⟨call, _, hcall, by simpa using hne, rfl, rfl⟩)
  have hthere := hready.inside call _ hcall
  cases point with
  | reserveMemberId => cases hadmits
  | checkPending =>
    have hpending : (request.groupId, request.memberId) ∉ s.pendingMemberIds := fun hp => h.unclaimed (.inl hp)
    refine RefusedNext.exec_after (s.setCall call (.join ⟨request, .checkMember⟩)) ?_ ?_
    · simp only [coordinator, Coordinator.step, hcall, Coordinator.resumeJoin, hpending, if_false]
    · exact refusedNext_checkMember lookup_setCall_self h.gone
  | checkMember => exact (refusedNext_checkMember hcall h.gone).exec
  | openGroup mayAddMember =>
    obtain rfl : mayAddMember = false := hadmits
    have htimed := (openGroup_idle s request.groupId call (c := .join ⟨request, .enter false⟩) id).timed_eq request.groupId
    refine RefusedNext.exec_after ((s.openGroup request.groupId).setCall call (.join ⟨request, .enter false⟩)) ?_
      (refusedNext_enter lookup_setCall_self ?_ (openGroup_sameCalls s request.groupId).2 hordered ?_)
    · simp only [coordinator, Coordinator.step, hcall, Coordinator.resumeJoin]
    · rw [Coordinator.group, htimed]; exact h.gone
    · rw [htimed]; exact hnow
  | enter mayAddMember =>
    obtain rfl : mayAddMember = false := hadmits
    exact (refusedNext_enter hcall h.gone (hthere rfl) hordered hnow).exec
  | clearPending targetEpoch =>
    refine RefusedNext.exec_after (Coordinator.setCall { s with
      pendingMemberIds := s.pendingMemberIds.erase (request.groupId, request.memberId) } call
        (.join ⟨request, .wait targetEpoch none⟩)) ?_
      (refusedNext_wait lookup_setCall_self h.gone (hthere rfl) (by simp) hordered hnow)
    simp only [coordinator, Coordinator.step, hcall, Coordinator.resumeJoin]
  | wait targetEpoch sleep =>
    refine (refusedNext_wait hcall h.gone (hthere rfl) ?_ hordered hnow).exec
    rintro sleep' rfl
    exact (hready.asleep call request targetEpoch sleep' hcall).2 h.gone

end

/-- Removed members stay fenced. In a run whose steps are orderly a member that was removed from a group is never in
it again; every join of its id that returns afterwards is refused with `UnknownMemberId`, unless it names no
protocol and is not looked at; and every one that is still under way returns so once it is resumed. -/
theorem removed_members_stay_fenced (tr : List CoordinatorEvent) (s : Coordinator) (hrun : coordinator.Run tr s)
    (horderly : ∀ e ∈ tr, Orderly e) (groupId memberId : String) (before after : List CoordinatorEvent)
    (e : CoordinatorEvent) (htr : tr = before ++ e :: after) (hmem : memberId ∈ (e.pre.group groupId).members)
    (hgone : memberId ∉ (e.post.group groupId).members) :
    memberId ∉ (s.group groupId).members ∧
    (∀ f ∈ after, memberId ∉ (f.post.group groupId).members ∧ ∀ request result, f.out = .join request result →
      request.groupId = groupId → request.memberId = memberId → request.protocols ≠ [] → request.protocolType ≠ "" →
        result = .error .unknownMemberId) ∧
    ∀ call request point, s.calls.lookup call = some (.join ⟨request, point⟩) → request.groupId = groupId →
      request.memberId = memberId → ∀ clock : Clock, clock.Ordered → (s.timed groupId).clock ≤ clock.now →
        ∃ n tr' s', coordinator.exec s (List.replicate n (.resume call clock)) = some (tr', s') ∧
          tr'.getLast?.map Event.out = some (.join request (.error .unknownMemberId)) := by
  subst htr
  obtain ⟨hbefore, ht, hafter⟩ := Machine.Run.split hrun
  have horderly₀ : Orderly e := horderly e (by simp)
  -- the removal leaves nobody with a claim
  have hfenced : Fenced groupId memberId e.post := by
    obtain ⟨hissued, hclaims⟩ := horderly₀.claims ht
    have hi := issued_of_run hbefore (fun f hf => horderly f (by simp [hf])) groupId memberId (.inl hmem)
    refine ⟨hgone, fun hc => ?_, hissued memberId hi⟩
    exact (hclaims groupId memberId hc).elim (horderly₀.spent groupId memberId hmem hgone) fun hnew => hnew.1 hi
  have hlater : ∀ {mid : List CoordinatorEvent} {t : Coordinator}, coordinator.Path e.post mid t →
      (∀ f ∈ mid, Orderly f) →
      Fenced groupId memberId t := by
    intro mid t hpath
    refine Machine.Path.induction (M := coordinator)
      (P := fun mid t => (∀ f ∈ mid, Orderly f) → Fenced groupId memberId t) (fun _ => hfenced) ?_ hpath
    intro mid f _ ih htakes hmid
    exact (ih fun f hf => hmid f (by simp [hf])).step (hmid f (by simp)) htakes
  have hend := hlater hafter fun f hf => horderly f (by simp [hf])
  refine ⟨hend.gone, ?_, fun call request point hcall hg hm clock => hend.finishes (Ready.of_run hrun) hcall hg hm⟩
  intro f hf
  obtain ⟨mid, rest, rfl⟩ := List.append_of_mem hf
  obtain ⟨hmid, htakes, -⟩ := Machine.Path.split hafter
  have hpre := hlater hmid fun f hf => horderly f (by simp [hf])
  refine ⟨(hpre.step (horderly f (by simp)) htakes).gone, ?_⟩
  intro request result hout hg hm hprotocols htype
  subst hg hm
  have hstep : f.pre.step f.label = some (.join request result, f.post) := hout ▸ htakes
  exact step_refuses hstep (not_or.2 ⟨hprotocols, htype⟩) hpre.gone hpre.unclaimed

/-- A member that joins, leaves and is refused when it joins again. -/
theorem removed_members_stay_fenced_left_member : ∃ tr s answer s' tr' s'',
    coordinator.exec .new [.join 0 (sampleJoin "" "a") false, .resume 0 ⟨0, 0, 0⟩, .resume 0 ⟨0, 0, 0⟩, .resume 0 ⟨0, 0, 0⟩,
      .resume 0 ⟨0, 0, 0⟩] = some (tr, s) ∧
    coordinator.step s (.leave "g" "a-1" ⟨0, 0, 0⟩) = some (answer, s') ∧
    coordinator.exec s' [.join 1 (sampleJoin "a-1" "a") true, .resume 1 ⟨0, 0, 0⟩, .resume 1 ⟨0, 0, 0⟩] = some (tr', s'') ∧
    "a-1" ∈ (s.group "g").members ∧ "a-1" ∉ (s''.group "g").members ∧
    ∃ f ∈ tr', f.out = .join (sampleJoin "a-1" "a") (.error .unknownMemberId) := by
  have hout : ((coordinator.exec .new [.join 0 (sampleJoin "" "a") false, .resume 0 ⟨0, 0, 0⟩, .resume 0 ⟨0, 0, 0⟩,
      .resume 0 ⟨0, 0, 0⟩, .resume 0 ⟨0, 0, 0⟩]).bind fun r =>
      (coordinator.step r.2 (.leave "g" "a-1" ⟨0, 0, 0⟩)).bind fun r' =>
        (coordinator.exec r'.2 [.join 1 (sampleJoin "a-1" "a") true, .resume 1 ⟨0, 0, 0⟩, .resume 1 ⟨0, 0, 0⟩]).map
          fun r'' : List CoordinatorEvent × Coordinator =>
          (decide (∀ e ∈ r.1 ++ ⟨r.2, .leave "g" "a-1" ⟨0, 0, 0⟩, r'.1, r'.2⟩ :: r''.1, Orderly e),
            decide ("a-1" ∈ (r.2.group "g").members), decide ("a-1" ∈ (r'.2.group "g").members),
            decide (∃ f ∈ r''.1, f.out = .join (sampleJoin "a-1" "a") (.error .unknownMemberId)))) =
      some (true, true, false, true) := by decide +kernel
  simp only [Option.bind_eq_some_iff, Option.map_eq_some_iff, Prod.mk.injEq, Prod.exists, decide_eq_true_eq,
    decide_eq_false_iff_not] at hout
  obtain ⟨tr, s, hx, answer, s', hstep, tr', s'', hx', horderly, hmem, hgone, hrefused⟩ := hout
  have hrun : coordinator.Run (tr ++ ⟨s, .leave "g" "a-1" ⟨0, 0, 0⟩, answer, s'⟩ :: tr') s'' :=
    Machine.Path.append (Machine.exec_path hx).1
      (Machine.Path.cons (e := ⟨s, _, answer, s'⟩) hstep (Machine.exec_path hx').1)
  obtain ⟨hfenced, -⟩ := removed_members_stay_fenced _ s'' hrun horderly "g" "a-1" tr tr' _ rfl hmem hgone
  exact ⟨tr, s, answer, s', tr', s'', hx, hstep, hx', hmem, hfenced, hrefused⟩

/-- Two joins of one pending id get past the check before the first of them is admitted. -/
def duplicateJoins : List CoordinatorLabel :=
  let clock : Clock := ⟨0, 0, 0⟩
  [.join 0 (sampleJoin "" "a") true, .resume 0 clock,
    .join 1 (sampleJoin "a-1" "a") true, .resume 1 clock, .join 2 (sampleJoin "a-1" "a") true, .resume 2 clock,
    .resume 1 clock, .resume 1 clock, .resume 1 clock, .resume 1 clock]

/-- The member leaves, and the second of the joins puts it back and returns success. -/
theorem removed_member_rejoins : ∃ tr s answer s' tr' s'', coordinator.exec .new duplicateJoins = some (tr, s) ∧
    coordinator.step s (.leave "g" "a-1" ⟨0, 0, 0⟩) = some (answer, s') ∧
    coordinator.exec s' [.resume 2 ⟨0, 0, 0⟩, .resume 2 ⟨0, 0, 0⟩, .resume 2 ⟨0, 0, 0⟩, .resume 2 ⟨0, 0, 0⟩] = some (tr', s'') ∧
    "a-1" ∈ (s.group "g").members ∧ "a-1" ∉ (s'.group "g").members ∧ "a-1" ∈ (s''.group "g").members ∧
    ∃ f ∈ tr', f.out =
      .join (sampleJoin "a-1" "a") (.ok (.joined ⟨2, "consumer", "range", "a-1", "a-1", [⟨"a-1", [1]⟩]⟩)) := by
  have hout : ((coordinator.exec .new duplicateJoins).bind fun r =>
      (coordinator.step r.2 (.leave "g" "a-1" ⟨0, 0, 0⟩)).bind fun r' =>
        (coordinator.exec r'.2 [.resume 2 ⟨0, 0, 0⟩, .resume 2 ⟨0, 0, 0⟩, .resume 2 ⟨0, 0, 0⟩, .resume 2 ⟨0, 0, 0⟩]).map fun r'' =>
          (decide ("a-1" ∈ (r.2.group "g").members), decide ("a-1" ∈ (r'.2.group "g").members),
            decide ("a-1" ∈ (r''.2.group "g").members), decide (∃ f ∈ r''.1, f.out =
              .join (sampleJoin "a-1" "a") (.ok (.joined ⟨2, "consumer", "range", "a-1", "a-1", [⟨"a-1", [1]⟩]⟩))))) =
      some (true, false, true, true) := by decide +kernel
  simp only [Option.bind_eq_some_iff, Option.map_eq_some_iff, Prod.mk.injEq, Prod.exists, decide_eq_true_eq,
    decide_eq_false_iff_not] at hout
  obtain ⟨tr, s, hx, answer, s', hstep, tr', s'', hx', hmem, hgone, hback, hjoined⟩ := hout
  exact ⟨tr, s, answer, s', tr', s'', hx, hstep, hx', hmem, hgone, hback, hjoined⟩

end MemKafka
