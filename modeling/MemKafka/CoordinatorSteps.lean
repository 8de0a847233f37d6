import MemKafka.CoordinatorTurns
import MemKafka.GroupHistory

/-!
# The steps of the coordinator, group by group

A step either runs one section on one group (`Ran`) or touches no group at all (`Idle`). So a run of the
coordinator, seen from one group, is a run of `groupMachine` (`coordinator_groupRun`): the list
`groupEvents` of the sections that held the group's lock, in order.
-/

namespace MemKafka
open Kit

namespace Coordinator

/-- The section that a label runs, if its group is there. -/
def sectionOf (s : Coordinator) : CoordinatorLabel → Option (String × GroupOp × Clock)
  | .resume call clock =>
    match s.calls.lookup call with
    | some (.join ⟨request, .enter mayAddMember⟩) => some (request.groupId, .enter mayAddMember request, clock)
    | some (.join ⟨request, .wait targetEpoch _⟩) => some (request.groupId, .wait request.memberId targetEpoch, clock)
    | some (.sync ⟨request, sleep⟩) =>
      some (request.groupId, .sync request.generationId request.memberId request.assignments sleep.isNone, clock)
    | _ => none
  | .heartbeat groupId generationId memberId clock => some (groupId, .heartbeat generationId memberId, clock)
  | .leave groupId memberId clock => some (groupId, .leave memberId, clock)
  | .commitOffsets groupId generationId memberId offsets clock =>
    some (groupId, .commitOffsets generationId memberId offsets, clock)
  | .describe groupId clock => some (groupId, .describe groupId, clock)
  | .drive groupId clock => some (groupId, .drive, clock)
  | _ => none

def sectionFor (groupId : String) (s : Coordinator) (label : CoordinatorLabel) : Option (GroupOp × Clock) :=
  (s.sectionOf label).bind fun (groupId', ran) => if groupId' = groupId ∧ groupId ∈ s.groups then some ran else none

end Coordinator

abbrev CoordinatorEvent := Event Coordinator CoordinatorLabel CoordinatorReply

/-- The sections of a run that held the lock of a group. -/
def groupEvents (groupId : String) (tr : List CoordinatorEvent) : List GroupEvent :=
  tr.filterMap fun e => (Coordinator.sectionFor groupId e.pre e.label).map fun label =>
    ⟨e.pre.timed groupId, label, (label.1.run (e.pre.group groupId) label.2).1, e.post.timed groupId⟩

/-! ### What a step can do -/

/-- A call that sleeps after this step went to sleep in the section it ran. -/
def Parks (groupId : String) (op : GroupOp) (reply : GroupReply) : Call → Prop
  | .join ⟨request, .wait targetEpoch (some sleep)⟩ =>
    request.groupId = groupId ∧ op = .wait request.memberId targetEpoch ∧ reply = .parked sleep
  | .sync ⟨request, some sleep⟩ =>
    request.groupId = groupId ∧ reply = .parked sleep ∧
      ∃ refresh, op = .sync request.generationId request.memberId request.assignments refresh
  | _ => True

def Call.asleep : Call → Prop
  | .join ⟨_, .wait _ (some _)⟩ => True
  | .sync ⟨_, some _⟩ => True
  | _ => False

/-- A successful `join` or `sync` returns what its section returned. -/
structure Answers (groupId : String) (op : GroupOp) (reply : GroupReply) (answer : CoordinatorReply) : Prop where
  join : ∀ request result, answer = .join request (.ok (.joined result)) → request.groupId = groupId ∧
    reply = .joined result ∧ ((∃ mayAddMember, op = .enter mayAddMember request) ∨ ∃ target, op = .wait request.memberId target)
  sync : ∀ request bytes, answer = .sync request (.ok bytes) → request.groupId = groupId ∧ reply = .assigned bytes ∧
    ∃ refresh, op = .sync request.generationId request.memberId request.assignments refresh

/-- A step that runs a section. -/
def Ran (s : Coordinator) (groupId : String) (op : GroupOp) (clock : Clock) (answer : CoordinatorReply)
    (s' : Coordinator) : Prop :=
  ∃ cell timed reply driver, s.groups.lookup groupId = some cell ∧
    groupMachine.step cell.timed (op, clock) = some (reply, timed) ∧
    s'.groups = s.groups.insert groupId ⟨timed, driver⟩ ∧
    (driver = cell.driver ∨ ∃ sleep, op = .drive ∧ reply = .parked sleep ∧ driver = some sleep) ∧
    (∀ call c, s'.calls.lookup call = some c → s.calls.lookup call = some c ∨ Parks groupId op reply c) ∧
    Answers groupId op reply answer

/-- A step that leaves every group as it is; it may open a new one. -/
structure Idle (s : Coordinator) (answer : CoordinatorReply) (s' : Coordinator) : Prop where
  groups : ∀ groupId cell, s'.groups.lookup groupId = some cell →
    s.groups.lookup groupId = some cell ∨ groupId ∉ s.groups ∧ cell = ⟨.new, none⟩
  kept : ∀ groupId, groupId ∈ s.groups → groupId ∈ s'.groups
  calls : ∀ call c, s'.calls.lookup call = some c → s.calls.lookup call = some c ∨ ¬ c.asleep
  noJoin : ∀ request result, answer ≠ .join request (.ok (.joined result))
  noSync : ∀ request bytes, answer ≠ .sync request (.ok bytes)

section
variable {s s' : Coordinator} {label : CoordinatorLabel} {answer : CoordinatorReply}

theorem lookup_setCall {s : Coordinator} {call k : Nat} {c c' : Call}
    (h : (s.setCall call c).calls.lookup k = some c') :
    s.calls.lookup k = some c' ∨ c' = c :=
  (lookup_of_insert h).symm.imp_right And.right

theorem runSection_eq_some {groupId : String} {op : GroupOp} {clock : Clock} {reply : GroupReply}
    (h : s.runSection groupId op clock = some (reply, s')) :
    ∃ cell timed, s.groups.lookup groupId = some cell ∧ groupMachine.step cell.timed (op, clock) = some (reply, timed) ∧
      s' = { s with groups := s.groups.insert groupId ⟨timed, cell.driver⟩ } := by
  simp only [Coordinator.runSection, Option.bind_eq_bind, Option.bind_eq_some_iff, Prod.exists] at h
  obtain ⟨cell, hl, reply', timed, hs, h⟩ := h
  obtain ⟨rfl, rfl⟩ := Prod.mk.inj (Option.some.inj h)
  exact ⟨cell, timed, hl, hs, rfl⟩

theorem runSection_mem {groupId : String} {op : GroupOp} {clock : Clock} {reply : GroupReply}
    (h : s.runSection groupId op clock = some (reply, s')) : groupId ∈ s.groups := by
  obtain ⟨cell, _, hl, -⟩ := runSection_eq_some h
  exact mem_iff_lookup.2 ⟨cell, hl⟩

theorem runSection_calls {groupId : String} {op : GroupOp} {clock : Clock} {reply : GroupReply}
    (h : s.runSection groupId op clock = some (reply, s')) : s'.calls = s.calls := by
  obtain ⟨_, _, -, -, rfl⟩ := runSection_eq_some h
  rfl

section
variable {s₁ : Coordinator} {groupId : String} {op : GroupOp} {clock : Clock} {reply : GroupReply} {call : Nat} {c : Call}

/-- A section after which only the calls change. -/
theorem Ran.of_runSection (h : s.runSection groupId op clock = some (reply, s₁)) (hgroups : s'.groups = s₁.groups)
    (hcalls : ∀ call c, s'.calls.lookup call = some c → s.calls.lookup call = some c ∨ Parks groupId op reply c)
    (hanswers : Answers groupId op reply answer) : Ran s groupId op clock answer s' := by
  obtain ⟨cell, timed, hl, hs, rfl⟩ := runSection_eq_some h
  exact ⟨cell, timed, reply, cell.driver, hl, hs, hgroups, .inl rfl, hcalls, hanswers⟩

theorem Ran.setCall (h : s.runSection groupId op clock = some (reply, s₁)) (hc : Parks groupId op reply c)
    (hanswers : Answers groupId op reply answer) : Ran s groupId op clock answer (s₁.setCall call c) := by
  refine .of_runSection h rfl (fun k c' hl => ?_) hanswers
  refine (lookup_setCall hl).imp (fun hl => runSection_calls h ▸ hl) ?_
  rintro rfl
  exact hc

theorem Ran.endCall (h : s.runSection groupId op clock = some (reply, s₁)) (hanswers : Answers groupId op reply answer) :
    Ran s groupId op clock answer (s₁.endCall call) :=
  .of_runSection h rfl (fun _ _ hl => .inl (runSection_calls h ▸ lookup_of_erase hl)) hanswers

theorem Ran.same (h : s.runSection groupId op clock = some (reply, s'))
    (hjoin : ∀ request result, answer ≠ .join request (.ok (.joined result)))
    (hsync : ∀ request bytes, answer ≠ .sync request (.ok bytes)) : Ran s groupId op clock answer s' :=
  .of_runSection h rfl (fun _ _ hl => .inl (runSection_calls h ▸ hl))
    ⟨fun _ _ h => absurd h (hjoin _ _), fun _ _ h => absurd h (hsync _ _)⟩

theorem Idle.of_groups (hgroups : s'.groups = s.groups)
    (hcalls : ∀ call c, s'.calls.lookup call = some c → s.calls.lookup call = some c ∨ ¬ c.asleep)
    (hjoin : ∀ request result, answer ≠ .join request (.ok (.joined result)))
    (hsync : ∀ request bytes, answer ≠ .sync request (.ok bytes)) : Idle s answer s' :=
  ⟨fun _ _ h => .inl (hgroups ▸ h), fun _ h => hgroups.symm ▸ h, hcalls, hjoin, hsync⟩

theorem Idle.same (hjoin : ∀ request result, answer ≠ .join request (.ok (.joined result)))
    (hsync : ∀ request bytes, answer ≠ .sync request (.ok bytes)) : Idle s answer s :=
  .of_groups rfl (fun _ _ hl => .inl hl) hjoin hsync

theorem Idle.setCall (hgroups : s₁.groups = s.groups) (hcalls : s₁.calls = s.calls) (hc : ¬ c.asleep) :
    Idle s .progress (s₁.setCall call c) := by
  refine .of_groups hgroups (fun k c' hl => ?_) (by simp) (by simp)
  refine (lookup_setCall hl).imp (fun hl => hcalls ▸ hl) ?_
  rintro rfl
  exact hc

theorem Idle.endCall (hgroups : s₁.groups = s.groups) (hcalls : s₁.calls = s.calls)
    (hjoin : ∀ request result, answer ≠ .join request (.ok (.joined result)))
    (hsync : ∀ request bytes, answer ≠ .sync request (.ok bytes)) : Idle s answer (s₁.endCall call) :=
  .of_groups hgroups (fun _ _ hl => .inl (hcalls ▸ lookup_of_erase hl)) hjoin hsync

end

theorem sectionFor_eq_none (h : s.sectionOf label = none) (groupId : String) : s.sectionFor groupId label = none := by
  rw [Coordinator.sectionFor, h]; rfl

theorem sectionFor_missing {groupId : String} {op : GroupOp} {clock : Clock}
    (h : s.sectionOf label = some (groupId, op, clock))
    (hmissing : groupId ∉ s.groups) (groupId' : String) : s.sectionFor groupId' label = none := by
  rw [Coordinator.sectionFor, h]
  refine if_neg ?_
  rintro ⟨rfl, hmem⟩
  exact hmissing hmem

/-- The two kinds of steps. -/
def StepKind (s : Coordinator) (label : CoordinatorLabel) (answer : CoordinatorReply) (s' : Coordinator) : Prop :=
  (Idle s answer s' ∧ ∀ groupId, s.sectionFor groupId label = none) ∨
  ∃ groupId op clock, s.sectionOf label = some (groupId, op, clock) ∧ Ran s groupId op clock answer s'

theorem openGroup_idle (s : Coordinator) (groupId : String) (call : Nat) {c : Call} (hc : ¬ c.asleep) :
    Idle s .progress ((s.openGroup groupId).setCall call c) := by
  have hcalls : (s.openGroup groupId).calls = s.calls := by unfold Coordinator.openGroup; split <;> rfl
  refine ⟨?_, ?_, ?_, by simp, by simp⟩
  · intro groupId' cell hl
    change (s.openGroup groupId).groups.lookup groupId' = some cell at hl
    unfold Coordinator.openGroup at hl
    split at hl
    · exact .inl hl
    · rename_i hnew
      rcases lookup_of_insert hl with ⟨rfl, rfl⟩ | hl
      · exact .inr ⟨hnew, rfl⟩
      · exact .inl hl
  · intro groupId' hmem
    show groupId' ∈ (s.openGroup groupId).groups
    unfold Coordinator.openGroup
    split
    · exact hmem
    · exact (AList.mem_insert _).2 (.inr hmem)
  · intro k c' h
    refine (lookup_setCall h).imp (fun h => hcalls ▸ h) ?_
    rintro rfl; exact hc

/-- The section of the call that a step resumes. -/
theorem JoinPoint.Runs.sectionOf {call : Nat} {request : JoinRequest} {point : JoinPoint} {op : GroupOp} {clock : Clock}
    (h : point.Runs s request clock op) (stood : s.calls.lookup call = some (.join ⟨request, point⟩)) :
    s.sectionOf (.resume call clock) = some (request.groupId, op, clock) := by
  cases h <;> simp [Coordinator.sectionOf, stood]

theorem SyncCall.sectionOf {call : Nat} {sync : SyncCall} {clock : Clock}
    (stood : s.calls.lookup call = some (.sync sync)) :
    s.sectionOf (.resume call clock) = some (sync.request.groupId, sync.op, clock) := by
  obtain ⟨request, sleep⟩ := sync
  simp [Coordinator.sectionOf, stood, SyncCall.op]

theorem JoinTurn.stepKind {call : Nat} {request : JoinRequest} {point : JoinPoint} {clock : Clock}
    (stood : s.calls.lookup call = some (.join ⟨request, point⟩))
    (h : JoinTurn s call request clock point answer s') : StepKind s (.resume call clock) answer s' := by
  have idle : Idle s answer s' → s.sectionOf (.resume call clock) = none → StepKind s (.resume call clock) answer s' :=
    fun hi hn => .inl ⟨hi, sectionFor_eq_none hn⟩
  cases h with
  | reserves => exact idle (.endCall rfl rfl (by simp) (by simp)) (by simp [Coordinator.sectionOf, stood])
  | pending _ => exact idle (.setCall rfl rfl id) (by simp [Coordinator.sectionOf, stood])
  | notPending _ => exact idle (.setCall rfl rfl id) (by simp [Coordinator.sectionOf, stood])
  | known _ _ => exact idle (.setCall rfl rfl id) (by simp [Coordinator.sectionOf, stood])
  | unknown _ => exact idle (.endCall rfl rfl (by simp) (by simp)) (by simp [Coordinator.sectionOf, stood])
  | opens mayAddMember => exact idle (openGroup_idle s request.groupId call id) (by simp [Coordinator.sectionOf, stood])
  | clears targetEpoch => exact idle (.setCall rfl rfl id) (by simp [Coordinator.sectionOf, stood])
  | enters ran =>
    exact .inr ⟨_, _, _, (JoinPoint.Runs.enter _).sectionOf stood, .setCall ran trivial ⟨by simp, by simp⟩⟩
  | parks awake ran =>
    exact .inr ⟨_, _, _, (JoinPoint.Runs.wait _ _ awake).sectionOf stood, .setCall ran ⟨rfl, rfl, rfl⟩ ⟨by simp, by simp⟩⟩
  | returns runs ran =>
    refine .inr ⟨_, _, _, runs.sectionOf stood, .endCall ran ⟨?_, by simp⟩⟩
    rintro _ _ ⟨⟩
    refine ⟨rfl, rfl, ?_⟩
    cases runs with
    | enter mayAddMember => exact .inl ⟨_, rfl⟩
    | wait targetEpoch sleep awake => exact .inr ⟨_, rfl⟩
  | fails runs ran => exact .inr ⟨_, _, _, runs.sectionOf stood, .endCall ran ⟨by simp, by simp⟩⟩

theorem SyncTurn.stepKind {call : Nat} {sync : SyncCall} {clock : Clock}
    (stood : s.calls.lookup call = some (.sync sync)) (h : SyncTurn s call sync clock answer s') :
    StepKind s (.resume call clock) answer s' := by
  cases h with
  | missing missing =>
    exact .inl ⟨.endCall rfl rfl (by simp) (by simp), sectionFor_missing (SyncCall.sectionOf stood) missing⟩
  | parks awake ran =>
    exact .inr ⟨_, _, _, SyncCall.sectionOf stood, .setCall ran ⟨rfl, rfl, _, rfl⟩ ⟨by simp, by simp⟩⟩
  | returns awake ran =>
    refine .inr ⟨_, _, _, SyncCall.sectionOf stood, .endCall ran ⟨by simp, ?_⟩⟩
    rintro _ _ ⟨⟩
    exact ⟨rfl, rfl, _, rfl⟩
  | fails awake ran => exact .inr ⟨_, _, _, SyncCall.sectionOf stood, .endCall ran ⟨by simp, by simp⟩⟩

theorem GroupTurn.stepKind {groupId : String} {op : GroupOp} {clock : Clock} {result : Except GroupError Unit}
    (h : GroupTurn s groupId op clock result s') (hsection : s.sectionOf label = some (groupId, op, clock))
    (hjoin : ∀ request joined, answer ≠ .join request (.ok (.joined joined)))
    (hsync : ∀ request bytes, answer ≠ .sync request (.ok bytes)) : StepKind s label answer s' := by
  cases h with
  | missing missing => exact .inl ⟨.same hjoin hsync, sectionFor_missing hsection missing⟩
  | done ran => exact .inr ⟨_, _, _, hsection, .same ran hjoin hsync⟩
  | fails ran => exact .inr ⟨_, _, _, hsection, .same ran hjoin hsync⟩

/-- A step runs one section or is idle. -/
theorem step_cases (h : s.step label = some (answer, s')) : StepKind s label answer s' := by
  cases step_turn h with
  | invalid free invalid => exact .inl ⟨.same (by simp) (by simp), sectionFor_eq_none rfl⟩
  | @mints call request requireKnownMemberId free valid unnamed =>
    refine .inl ⟨.setCall rfl rfl ?_, sectionFor_eq_none rfl⟩
    cases requireKnownMemberId <;> exact id
  | starts free valid named => exact .inl ⟨.setCall rfl rfl id, sectionFor_eq_none rfl⟩
  | sync request free => exact .inl ⟨.setCall rfl rfl id, sectionFor_eq_none rfl⟩
  | resumeJoin stood turn => exact turn.stepKind stood
  | resumeSync stood turn => exact turn.stepKind stood
  | drop call => exact .inl ⟨.endCall rfl rfl (by simp) (by simp), sectionFor_eq_none rfl⟩
  | heartbeat turn => exact turn.stepKind rfl (by simp) (by simp)
  | leave turn => exact turn.stepKind rfl (by simp) (by simp)
  | commitOffsets turn => exact turn.stepKind rfl (by simp) (by simp)
  | undescribed missing => exact .inl ⟨.same (by simp) (by simp), sectionFor_missing rfl missing⟩
  | described ran => exact .inr ⟨_, _, _, rfl, .same ran (by simp) (by simp)⟩
  | fetchOffsets groupId requested => exact .inl ⟨.same (by simp) (by simp), sectionFor_eq_none rfl⟩
  | drive there awake ran =>
    exact .inr ⟨_, .drive, _, rfl, _, _, _, _, there, ran, rfl, .inr ⟨_, rfl, rfl, rfl⟩, fun _ _ h => .inl h, by simp, by simp⟩

end

/-! ### Runs of one group -/

section
variable {s s' : Coordinator} {label : CoordinatorLabel} {answer : CoordinatorReply} {groupId : String}

theorem timed_of_lookup {cell : GroupCell} (h : s.groups.lookup groupId = some cell) :
    s.timed groupId = cell.timed := by
  rw [Coordinator.timed, h]; rfl

theorem Idle.timed_eq (h : Idle s answer s') (groupId : String) : s'.timed groupId = s.timed groupId := by
  cases hl : s'.groups.lookup groupId with
  | none =>
    have hmem : groupId ∉ s.groups := fun hm => AList.lookup_eq_none.1 hl (h.kept groupId hm)
    rw [Coordinator.timed, Coordinator.timed, hl, AList.lookup_eq_none.2 hmem]
  | some cell =>
    rcases h.groups groupId cell hl with hl' | ⟨hmem, rfl⟩
    · rw [timed_of_lookup hl, timed_of_lookup hl']
    · rw [timed_of_lookup hl, Coordinator.timed, AList.lookup_eq_none.2 hmem]; rfl

/-- From one group a step is invisible or one step of the group machine. -/
theorem step_sectionFor (h : s.step label = some (answer, s')) (groupId : String) :
    (s.sectionFor groupId label = none ∧ s'.timed groupId = s.timed groupId) ∨
    ∃ op clock reply, s.sectionFor groupId label = some (op, clock) ∧
      groupMachine.step (s.timed groupId) (op, clock) = some (reply, s'.timed groupId) := by
  rcases step_cases h with ⟨hidle, hnone⟩ | ⟨groupId', op, clock, hsection, cell, timed, reply, driver, hl, hs, hgroups, -⟩
  · exact .inl ⟨hnone groupId, hidle.timed_eq groupId⟩
  · have hmem : groupId' ∈ s.groups := mem_iff_lookup.2 ⟨cell, hl⟩
    by_cases heq : groupId' = groupId
    · subst heq
      refine .inr ⟨op, clock, reply, by rw [Coordinator.sectionFor, hsection]; exact if_pos ⟨rfl, hmem⟩, ?_⟩
      have hl' : s'.groups.lookup groupId' = some ⟨timed, driver⟩ := by rw [hgroups, lookup_insert_eq, if_pos rfl]
      rw [timed_of_lookup hl, hs, timed_of_lookup hl']
    · refine .inl ⟨?_, ?_⟩
      · rw [Coordinator.sectionFor, hsection]; exact if_neg fun h => heq h.1
      · rw [Coordinator.timed, Coordinator.timed, hgroups, lookup_insert_eq, if_neg (Ne.symm heq)]

theorem groupMachine_reply {t t' : TimedGroup} {op : GroupOp} {clock : Clock} {reply : GroupReply}
    (h : groupMachine.step t (op, clock) = some (reply, t')) : reply = (op.run t.group clock).1 :=
  (groupMachine_takes (e := ⟨t, (op, clock), reply, t'⟩) h).2.2.1

theorem runSection_reply {op : GroupOp} {clock : Clock} {reply : GroupReply}
    (h : s.runSection groupId op clock = some (reply, s')) : reply = (op.run (s.group groupId) clock).1 := by
  obtain ⟨cell, timed, hl, hstep, -⟩ := runSection_eq_some h
  rw [Coordinator.group, timed_of_lookup hl]
  exact groupMachine_reply hstep

/-- A run of the coordinator, seen from one group. -/
theorem coordinator_groupRun {tr : List CoordinatorEvent} (h : coordinator.Run tr s) (groupId : String) :
    groupMachine.Run (groupEvents groupId tr) (s.timed groupId) := by
  refine Machine.Run.project (M := coordinator) (fun s => s.timed groupId) _ rfl ?_ ?_ h
  · intro e e' he hev
    obtain ⟨label, hlabel, rfl⟩ := Option.map_eq_some_iff.1 hev
    refine ⟨rfl, rfl, ?_⟩
    rcases step_sectionFor he groupId with ⟨hnone, -⟩ | ⟨op, clock, reply, hsome, hstep⟩
    · rw [hnone] at hlabel; cases hlabel
    · obtain rfl : (op, clock) = label := Option.some.inj (hsome.symm.trans hlabel)
      have := groupMachine_reply hstep
      subst this
      exact hstep
  · intro e he hev
    rcases step_sectionFor he groupId with ⟨-, heq⟩ | ⟨op, clock, reply, hsome, -⟩
    · exact heq
    · rw [hsome] at hev; cases hev

end

end MemKafka
