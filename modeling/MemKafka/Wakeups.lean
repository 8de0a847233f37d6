import MemKafka.Agreement
import MemKafka.GroupQuiet

/-!
# Sleeping calls and drivers

What a sleep is good for. A call or a driver that goes to sleep has seen that there is nothing for it
to do (`JoinWaits`, `SyncWaits`, `DriverRests`), and as long as its notification has not come the sections that
ran since were quiet, so there still is nothing (`Awaits.calm`).
-/

namespace MemKafka
open Kit Relation

/-- The ticket is one of this group, and until it fires `P` holds. -/
structure Awaits (ticket : Nat) (group : Group) (P : Group → Prop) : Prop where
  created : ticket ≤ group.change
  holds : ¬ ticket < group.change → P group

theorem Awaits.calm {ticket : Nat} {group group' : Group} {P : Group → Prop} (h : Awaits ticket group P)
    (hc : Calm group group')
    (keep : Quiet group group' → (group'.ready = true → group.ready = true) → P group → P group') :
    Awaits ticket group' P := by
  refine ⟨h.created.trans hc.change_le, ?_⟩
  intro hsilent
  rcases hc with hc | ⟨hq, hr⟩
  · have := h.created; omega
  · exact keep hq hr (h.holds (by rw [← hq.change]; exact hsilent))

/-! ### Waiting for a result -/

/-- A join has to wait: its member is there and nothing is completed for its epoch. -/
structure JoinWaits (memberId : String) (target : Nat) (group : Group) : Prop where
  mem : memberId ∈ group.members
  epoch : group.rebalanceEpoch = target
  incomplete : completedJoin group memberId target = none

/-- A sync has to wait: it is one of a follower, and the assignments are still to come. -/
structure SyncWaits (generationId : Int) (memberId : String) (group : Group) : Prop where
  state : group.state = .completingRebalance
  generation : group.generationId = generationId
  mem : memberId ∈ group.members
  follower : memberId ≠ group.leaderMemberId

/-- A driver can rest until `deadline`. -/
structure DriverRests (deadline : Option Nat) (group : Group) : Prop where
  not_ready : group.ready = false
  in_time : ∀ d, nextExpiryDeadline group none = some d → ∃ d', deadline = some d' ∧ d' ≤ d
  armed : group.members ≠ ∅ → deadline.isSome

section
variable {group group' : Group}

theorem JoinWaits.quiet {memberId : String} {target : Nat} (h : JoinWaits memberId target group)
    (hq : Quiet group group') :
    JoinWaits memberId target group' := by
  obtain ⟨hmem, hj⟩ := hq.kept memberId h.mem
  exact ⟨hmem, hq.epoch.trans h.epoch, (hj target).trans h.incomplete⟩

theorem SyncWaits.quiet {generationId : Int} {memberId : String} (h : SyncWaits generationId memberId group)
    (hq : Quiet group group') : SyncWaits generationId memberId group' :=
  ⟨hq.state.trans h.state, hq.generation.trans h.generation, (hq.kept memberId h.mem).1, by rw [hq.leader h.state]; exact h.follower⟩

theorem DriverRests.quiet {deadline : Option Nat} (h : DriverRests deadline group) (hq : Quiet group group')
    (hr : group'.ready = true → group.ready = true) : DriverRests deadline group' := by
  refine ⟨?_, ?_, fun hne => h.armed (hq.populated hne)⟩
  · cases hready : group'.ready with
    | false => rfl
    | true => have := hr hready; rw [h.not_ready] at this; cases this
  · intro d hd
    -- who is stale at `d` now was so before
    obtain ⟨id, member', hl, hstale⟩ := nextExpiryDeadline_reached.1 (show (nextExpiryDeadline group' none).any (· ≤ d) = true by simp [hd])
    obtain ⟨member, hl, hstale⟩ := hq.stale d id member' hl hstale
    obtain ⟨d₀, hd₀, hle⟩ := (Option.any_eq_true _ _).1 (nextExpiryDeadline_reached.2 ⟨id, member, hl, hstale⟩)
    obtain ⟨d', hd', hle'⟩ := h.in_time d₀ hd₀
    exact ⟨d', hd', hle'.trans (of_decide_eq_true hle)⟩

end

/-! ### Going to sleep -/

section
variable {group : Group} {clock : Clock}

theorem GroupInv.preparing_of_incomplete (inv : GroupInv group) {memberId : String} (hmem : memberId ∈ group.members)
    (hnone : completedJoin group memberId group.rebalanceEpoch = none) : group.state = .preparingRebalance := by
  obtain ⟨member, hl⟩ := mem_iff_lookup.1 hmem
  have hdone : ¬ (group.state = .completingRebalance ∨ group.state = .stable) := fun hstate => by
    obtain ⟨-, result, hj, -⟩ := inv.joined hstate memberId member hl
    rw [completedJoin_eq_some.2 ⟨member, hl, hj⟩] at hnone
    cases hnone
  cases hstate : group.state with
  | preparingRebalance => rfl
  | empty => exact absurd (inv.empty_iff.1 hstate) (ne_empty_of_mem hmem)
  | completingRebalance => exact absurd (.inl hstate) hdone
  | stable => exact absurd (.inr hstate) hdone

/-- While a rebalance is prepared the expiry pass keeps the epoch and the member it runs for. -/
theorem expire_preparing (clock : Clock) (hstate : group.state = .preparingRebalance) {memberId : String}
    (hmem : memberId ∈ group.members) :
    memberId ∈ (expireStaleMembers group clock (some memberId)).members ∧
      (expireStaleMembers group clock (some memberId)).rebalanceEpoch = group.rebalanceEpoch := by
  rcases expireStaleMembers_cases group clock (some memberId) with h | ⟨ids, -, hactive, h⟩
  · rw [h]; exact ⟨hmem, rfl⟩
  have hkept : memberId ∈ eraseAll group.members ids := mem_eraseAll.2 ⟨hmem, fun hid => hactive memberId hid rfl⟩
  rw [h]
  rcases removeMembers_cases group ids clock.begun with ⟨hempty, -⟩ | ⟨leader, -, -, ⟨hne, -⟩ | ⟨-, heq⟩⟩
  · exact absurd hkept (eq_empty_iff.1 hempty memberId)
  · exact absurd hstate hne
  · rw [heq]; exact ⟨hkept, rfl⟩

theorem wait_parks (inv : GroupInv group) {memberId : String} {target : Nat} {sleep : Sleep}
    (h : (wait group clock memberId target).1 = .parked sleep) :
    sleep.ticket = (wait group clock memberId target).2.change ∧
    JoinWaits memberId target (wait group clock memberId target).2 := by
  rcases wait_cases group clock memberId target with ⟨result, -, heq⟩ | ⟨error, heq⟩ | ⟨after, out, hnone, hmem, rfl, hcomplete,
    ⟨error, -, heq⟩ | ⟨result, -, heq⟩ | ⟨-, hincomplete, heq⟩⟩
  all_goals rw [heq] at h
  all_goals cases h
  rw [heq]
  obtain ⟨hmem', hepoch⟩ := expire_preparing clock (inv.preparing_of_incomplete hmem hnone) hmem
  rcases completeRebalanceIfReady_cases (expireStaleMembers group clock (some memberId)) clock.completed with
    ⟨out', h, -⟩ | ⟨selected, -, -, h⟩
  all_goals
    rw [hcomplete] at h
    cases h
  · exact ⟨rfl, hmem', hepoch, hincomplete⟩
  · exact ⟨rfl, mem_mapVal.2 hmem', hepoch, hincomplete⟩

theorem sync_parks {generationId : Int} {memberId : String} {assignments : List SyncAssignment} {refresh : Bool}
    {sleep : Sleep} (h : (sync group clock generationId memberId assignments refresh).1 = .parked sleep) :
    sleep.ticket = (sync group clock generationId memberId assignments refresh).2.change ∧
      SyncWaits generationId memberId (sync group clock generationId memberId assignments refresh).2 := by
  obtain ⟨body, -, ⟨error, -, heq⟩ | ⟨touched, htouched, hmem, hgen, heq⟩⟩ :=
    sync_cases group clock generationId memberId assignments refresh
  · rw [heq] at h; cases h
  have hown : ∀ {after : Group}, ownAssignment after memberId ≠ .parked sleep := by
    intro after
    unfold ownAssignment
    split <;> simp
  obtain ⟨-, hmem', hgen'⟩ := touched_steady htouched hmem
  rcases heq with ⟨-, heq⟩ | ⟨-, heq⟩ | ⟨-, -, -, heq⟩ | ⟨-, -, -, heq⟩ | ⟨hstate, hfollower, heq⟩
  all_goals rw [heq] at h
  · exact absurd h hown
  · cases h
  · cases h
  · exact absurd h hown
  · cases h
    rw [heq]
    exact ⟨rfl, hstate, hgen'.trans hgen, mem_update.2 hmem', hfollower⟩

/-- After a completion was tried no rebalance is ready. -/
theorem GroupInv.not_ready (inv : GroupInv group) (completed : Nat) :
    (completeRebalanceIfReady group completed).2.ready = false := by
  rcases completeRebalanceIfReady_cases group completed with ⟨out, h, hout⟩ | ⟨selected, -, -, h⟩
  · rw [h]
    rcases hout with ⟨-, hready⟩ | ⟨error, -, hfail⟩
    · exact hready
    · cases hready : group.ready with
      | false => rfl
      | true =>
        obtain ⟨selected, hs⟩ := inv.select (ready_iff.1 hready).2.1
        rw [hs] at hfail; cases hfail
  · rw [h]
    simp [Group.ready, completeRebalance]

/-- A group with members that is not about to complete a rebalance has a deadline. -/
theorem GroupInv.nextExpiryDeadline_isSome (inv : GroupInv group) (hready : group.ready = false)
    (hne : group.members ≠ ∅) :
    (nextExpiryDeadline group none).isSome := by
  suffices h : ∃ t id member, group.members.lookup id = some member ∧ group.isStale t none id member = true by
    obtain ⟨t, h⟩ := h
    obtain ⟨d, hd, -⟩ := (Option.any_eq_true _ _).1 (nextExpiryDeadline_reached.2 h)
    rw [hd]; rfl
  have late : ∀ {id member}, group.members.lookup id = some member → group.isPending member = true →
      group.rebalanceDeadline.isSome →
      ∃ t id member, group.members.lookup id = some member ∧ group.isStale t none id member = true := by
    intro id member hl hpending hsome
    obtain ⟨d, hd⟩ := Option.isSome_iff_exists.1 hsome
    exact ⟨d, id, member, hl, isStale_iff.2 ⟨by simp, .inl ⟨hpending, by simp [hd]⟩⟩⟩
  obtain ⟨leader, hleader⟩ := mem_iff_lookup.1 (inv.leader hne)
  cases hstate : group.state with
  | empty => exact absurd (inv.empty_iff.1 hstate) hne
  | preparingRebalance =>
    have hbehind : ∃ id member, group.members.lookup id = some member ∧ member.joinedEpoch ≠ group.rebalanceEpoch := by
      by_contra hnone
      push Not at hnone
      rw [ready_iff.2 ⟨hstate, hne, hnone⟩] at hready
      cases hready
    obtain ⟨id, member, hl, hbehind⟩ := hbehind
    exact late hl (by simp [Group.isPending, hstate, hbehind]) (inv.deadline (.inl hstate))
  | completingRebalance =>
    exact late hleader (by simp [Group.isPending, hstate, inv.leader_unsynced hstate leader hleader]) (inv.deadline (.inr hstate))
  | stable =>
    by_cases hsynced : leader.syncedGeneration = group.generationId
    · exact ⟨memberDeadline leader, _, leader, hleader, isStale_iff.2 ⟨by simp, .inr ⟨hstate, hsynced, le_rfl⟩⟩⟩
    · exact late hleader (by simp [Group.isPending, hstate, hsynced]) (inv.pending hstate _ leader hleader hsynced)

theorem drive_parks (inv : GroupInv group) (hgen : (drive group clock).2.generationId < i32Max) {sleep : Sleep}
    (h : (drive group clock).1 = .parked sleep) :
    sleep.ticket = (drive group clock).2.change ∧ DriverRests sleep.deadline (drive group clock).2 := by
  have inv' : GroupInv (drive group clock).2 := inv.of_section (run_section .drive group clock) hgen
  have hready : (drive group clock).2.ready = false :=
    (inv.of_path (expireStaleMembers_steady group clock none)).not_ready _
  cases h
  exact ⟨rfl, hready, fun d hd => ⟨d, hd, le_rfl⟩, inv'.nextExpiryDeadline_isSome hready⟩

end

/-! ### Runs -/

/-- The group a call works on. -/
def Call.groupId : Call → String
  | .join call => call.request.groupId
  | .sync call => call.request.groupId

/-- A call that sleeps has to wait. -/
def Call.Waits (group : Group) : Call → Prop
  | .join ⟨request, .wait target (some sleep)⟩ => Awaits sleep.ticket group (JoinWaits request.memberId target)
  | .sync ⟨request, some sleep⟩ => Awaits sleep.ticket group (SyncWaits request.generationId request.memberId)
  | _ => True

/-- The sleeps of the calls and the driver of one group. -/
structure SleepsWell (groupId : String) (s : Coordinator) : Prop where
  driver : ∀ cell sleep, s.groups.lookup groupId = some cell → cell.driver = some sleep →
    Awaits sleep.ticket (s.group groupId) (DriverRests sleep.deadline)
  calls : ∀ call c, s.calls.lookup call = some c → c.groupId = groupId → c.Waits (s.group groupId)

section
variable {group group' : Group} {clock : Clock} {c : Call}

theorem Call.Waits.calm (h : c.Waits group) (hc : Calm group group') : c.Waits group' := by
  rcases c with ⟨request, point⟩ | ⟨request, _ | sleep⟩
  · rcases point with _ | _ | _ | _ | _ | _ | ⟨target, _ | sleep⟩ <;> try trivial
    exact Awaits.calm h hc fun hq _ hw => hw.quiet hq
  · trivial
  · exact Awaits.calm h hc fun hq _ hw => hw.quiet hq

theorem Call.Waits.of_awake (h : ¬ c.asleep) : c.Waits group := by
  rcases c with ⟨request, point⟩ | ⟨request, _ | sleep⟩
  · rcases point with _ | _ | _ | _ | _ | _ | ⟨target, _ | sleep⟩ <;> try trivial
    exact absurd trivial h
  · trivial
  · exact absurd trivial h

/-- A call that goes to sleep in a section has to wait. -/
theorem Call.Waits.of_parks (inv : GroupInv group) {groupId : String} {op : GroupOp}
    (h : Parks groupId op (op.run group clock).1 c) :
    c.Waits (op.run group clock).2 := by
  rcases c with ⟨request, point⟩ | ⟨request, _ | sleep⟩
  · rcases point with _ | _ | _ | _ | _ | _ | ⟨target, _ | sleep⟩ <;> try trivial
    obtain ⟨-, rfl, hreply⟩ := h
    obtain ⟨hticket, hwaits⟩ := wait_parks inv hreply
    exact ⟨le_of_eq hticket, fun _ => hwaits⟩
  · trivial
  · obtain ⟨-, hreply, refresh, rfl⟩ := h
    obtain ⟨hticket, hwaits⟩ := sync_parks hreply
    exact ⟨le_of_eq hticket, fun _ => hwaits⟩

end

section
variable {tr : List CoordinatorEvent} {s s' : Coordinator} {label : CoordinatorLabel} {answer : CoordinatorReply}
    {groupId : String}

theorem Parks.groupId_eq {op : GroupOp} {reply : GroupReply} {c : Call} (h : Parks groupId op reply c) (hc : c.asleep) :
    c.groupId = groupId := by
  rcases c with ⟨request, point⟩ | ⟨request, _ | sleep⟩
  · rcases point with _ | _ | _ | _ | _ | _ | ⟨target, _ | sleep⟩ <;> first | exact hc.elim | exact h.1
  · exact hc.elim
  · exact h.1

theorem heard_of_run {evs : List GroupEvent} {t : TimedGroup} (h : groupMachine.Run evs t) : Heard t.group t.clock := by
  refine Machine.Run.invariant (M := groupMachine) (P := fun t => Heard t.group t.clock) (fun _ _ hl => by cases hl) ?_ h
  intro e he hheard
  obtain ⟨hle, hordered, -, -, hclock⟩ := groupMachine_takes he
  rw [hclock]
  exact ((hheard.mono hle).of_section (groupMachine_section he)).mono (hordered.begun.trans hordered.completed)

/-- The sleeps of the group whose section ran. -/
theorem SleepsWell.ran (inv : GroupInv (s.group groupId)) (heard : Heard (s.group groupId) (s.timed groupId).clock)
    {op : GroupOp} {clock : Clock} (hran : Ran s groupId op clock answer s')
    (hgen : (s'.group groupId).generationId < i32Max) (h : SleepsWell groupId s) : SleepsWell groupId s' := by
  obtain ⟨cell, timed, reply, driver, hl, hs, hgroups, hdriver, hcalls, -⟩ := hran
  have hl' : s'.groups.lookup groupId = some ⟨timed, driver⟩ := by rw [hgroups, lookup_insert_eq, if_pos rfl]
  have hpre : s.timed groupId = cell.timed := timed_of_lookup hl
  obtain ⟨hle, -, hreply, hpost, -⟩ := groupMachine_takes (e := ⟨cell.timed, (op, clock), reply, timed⟩) hs
  dsimp only at hle hreply hpost
  subst hreply
  have hgroup : s'.group groupId = (op.run (s.group groupId) clock).2 := by
    rw [Coordinator.group, timed_of_lookup hl', Coordinator.group, hpre]; exact hpost
  have hcalm : Calm (s.group groupId) (s'.group groupId) := by
    rw [hgroup]
    exact run_calm inv (heard.mono (by rw [hpre]; exact hle)) op
  have hcell : cell.timed.group = s.group groupId := by rw [Coordinator.group, hpre]
  rw [hcell] at hcalls hdriver
  constructor
  · intro cell' sleep hcell' hsleep
    obtain rfl : ⟨timed, driver⟩ = cell' := Option.some.inj (hl'.symm.trans hcell')
    rcases hdriver with rfl | ⟨sleep', rfl, hparked, hdriver⟩
    · exact (h.driver cell sleep hl hsleep).calm hcalm fun hq hr hrests => hrests.quiet hq hr
    · obtain rfl : sleep' = sleep := Option.some.inj (hdriver.symm.trans hsleep)
      rw [hgroup] at hgen ⊢
      obtain ⟨hticket, hrests⟩ := drive_parks inv hgen hparked
      exact ⟨le_of_eq hticket, fun _ => hrests⟩
  · intro call c hc hid
    rcases hcalls call c hc with hc | hparks
    · exact (h.calls call c hc hid).calm hcalm
    · rw [hgroup]; exact .of_parks inv hparks

theorem SleepsWell.idle (h : SleepsWell groupId s) (hidle : Idle s answer s') : SleepsWell groupId s' := by
  have hgroup : s'.group groupId = s.group groupId := congrArg TimedGroup.group (hidle.timed_eq groupId)
  constructor
  · intro cell sleep hcell hsleep
    rw [hgroup]
    rcases hidle.groups groupId cell hcell with hcell | ⟨-, rfl⟩
    · exact h.driver cell sleep hcell hsleep
    · cases hsleep
  · intro call c hc hid
    rw [hgroup]
    rcases hidle.calls call c hc with hc | hawake
    · exact h.calls call c hc hid
    · exact .of_awake hawake

/-- A section of another group. -/
theorem SleepsWell.other (h : SleepsWell groupId s) {groupId' : String} (hne : groupId ≠ groupId') {op : GroupOp}
    {clock : Clock} (hran : Ran s groupId' op clock answer s') : SleepsWell groupId s' := by
  obtain ⟨cell, timed, reply, driver, -, -, hgroups, -, hcalls, -⟩ := hran
  have hlookup : s'.groups.lookup groupId = s.groups.lookup groupId := by rw [hgroups, lookup_insert_eq, if_neg hne]
  have hgroup : s'.group groupId = s.group groupId := by
    rw [Coordinator.group, Coordinator.timed, hlookup]; rfl
  constructor
  · intro cell sleep hcell hsleep
    rw [hgroup]
    exact h.driver cell sleep (hlookup ▸ hcell) hsleep
  · intro call c hc hid
    rw [hgroup]
    rcases hcalls call c hc with hc | hparks
    · exact h.calls call c hc hid
    · exact .of_awake fun hasleep => hne (hid.symm.trans (hparks.groupId_eq hasleep))

theorem SleepsWell.of_run (hrun : coordinator.Run tr s) (hgen : (s.group groupId).generationId < i32Max) :
    SleepsWell groupId s := by
  refine Machine.Run.induction (M := coordinator) (P := fun _ s => (s.group groupId).generationId < i32Max → SleepsWell groupId s)
    (fun _ => ⟨fun _ _ hl => (by cases hl), fun _ _ hl => (by cases hl)⟩) (fun tr e hrun ih he hgen => ?_) hrun hgen
  have hgen' := lt_of_le_of_lt (takes_generation_le he groupId) hgen
  rcases step_cases he with ⟨hidle, -⟩ | ⟨groupId', op, clock, -, hran⟩
  · exact (ih hgen').idle hidle
  by_cases hne : groupId = groupId'
  · subst hne
    obtain ⟨inv, -⟩ := GroupInv.of_coordinator hrun groupId hgen'
    exact (ih hgen').ran inv (heard_of_run (coordinator_groupRun hrun groupId)) hran hgen
  · exact (ih hgen').other hne hran

end

/-- No stuck rebalance and no oversleeping driver. While the driver of a group sleeps and its notification has not
come, no rebalance of the group is ready to be completed, the driver wakes up no later than the next
expiry, and if there are members it does wake up. -/
theorem driver_never_oversleeps (tr : List CoordinatorEvent) (s : Coordinator) (hrun : coordinator.Run tr s)
    (groupId : String)
    (hgen : (s.group groupId).generationId < i32Max) (cell : GroupCell)
    (hcell : s.groups.lookup groupId = some cell) (sleep : Sleep)
    (hsleep : cell.driver = some sleep) (hsilent : ¬ sleep.ticket < cell.timed.group.change) :
    ¬ (cell.timed.group.state = .preparingRebalance ∧ cell.timed.group.members ≠ ∅ ∧
      ∀ id member, cell.timed.group.members.lookup id = some member →
        member.joinedEpoch = cell.timed.group.rebalanceEpoch) ∧
    (∀ d, nextExpiryDeadline cell.timed.group none = some d → ∃ d', sleep.deadline = some d' ∧ d' ≤ d) ∧
    (cell.timed.group.members ≠ ∅ → sleep.deadline.isSome) := by
  have hgroup : s.group groupId = cell.timed.group := congrArg TimedGroup.group (timed_of_lookup hcell)
  have hawaits := (SleepsWell.of_run hrun hgen).driver cell sleep hcell hsleep
  rw [hgroup] at hawaits
  obtain ⟨hready, htime, harmed⟩ := hawaits.holds hsilent
  refine ⟨?_, htime, harmed⟩
  intro h
  rw [ready_iff.2 h] at hready
  cases hready

theorem driver_never_oversleeps_second_join :
    ∃ tr s cell sleep, coordinator.exec .new (twoMembers.take 11) = some (tr, s) ∧
    s.groups.lookup "g" = some cell ∧ cell.driver = some sleep ∧ cell.timed.group.state = .preparingRebalance ∧
    sleep.deadline.isSome := by
  have hsome : ((coordinator.exec .new (twoMembers.take 11)).bind fun r => (r.2.groups.lookup "g").map fun cell =>
      ((r.2.group "g").generationId, cell.driver, cell.timed.group.change, cell.timed.group.state,
        decide (cell.timed.group.members ≠ ∅))) =
      some (1, some ⟨3, some 10000000⟩, 3, .preparingRebalance, true) := by decide +kernel
  obtain ⟨⟨tr, s⟩, hx, hcell⟩ := Option.bind_eq_some_iff.1 hsome
  obtain ⟨cell, hcell, heq⟩ := Option.map_eq_some_iff.1 hcell
  simp only [Prod.mk.injEq, decide_eq_true_eq] at heq
  obtain ⟨hgen, hdriver, hchange, hstate, hmembers⟩ := heq
  obtain ⟨-, -, harmed⟩ := driver_never_oversleeps tr s (Machine.exec_path hx).1 "g" (by rw [hgen]; decide) cell hcell _ hdriver
    (by rw [hchange]; decide)
  exact ⟨tr, s, cell, _, hx, hcell, hdriver, hstate, harmed hmembers⟩

/-- No lost wake-up. A join that sleeps and whose notification has not come is one of a member for whom
nothing is completed at the epoch it waits for, which is still the group's; such a sync is one of a follower in
a generation whose assignments are still to come. -/
theorem sleeping_calls_miss_nothing (tr : List CoordinatorEvent) (s : Coordinator) (hrun : coordinator.Run tr s)
    (call : Nat) :
    (∀ request target sleep, s.calls.lookup call = some (.join ⟨request, .wait target (some sleep)⟩) →
      (s.group request.groupId).generationId < i32Max → ¬ sleep.ticket < (s.group request.groupId).change →
      request.memberId ∈ (s.group request.groupId).members ∧ (s.group request.groupId).rebalanceEpoch = target ∧
        completedJoin (s.group request.groupId) request.memberId target = none) ∧
    (∀ request sleep, s.calls.lookup call = some (.sync ⟨request, some sleep⟩) →
      (s.group request.groupId).generationId < i32Max → ¬ sleep.ticket < (s.group request.groupId).change →
      (s.group request.groupId).state = .completingRebalance ∧
      (s.group request.groupId).generationId = request.generationId ∧
        request.memberId ∈ (s.group request.groupId).members ∧
        request.memberId ≠ (s.group request.groupId).leaderMemberId) := by
  constructor
  · intro request target sleep hcall hgen hsilent
    have hwaits : Awaits sleep.ticket (s.group request.groupId) (JoinWaits request.memberId target) :=
      (SleepsWell.of_run hrun hgen).calls call _ hcall rfl
    obtain ⟨hmem, hepoch, hnone⟩ := hwaits.holds hsilent
    exact ⟨hmem, hepoch, hnone⟩
  · intro request sleep hcall hgen hsilent
    have hwaits : Awaits sleep.ticket (s.group request.groupId) (SyncWaits request.generationId request.memberId) :=
      (SleepsWell.of_run hrun hgen).calls call _ hcall rfl
    obtain ⟨hstate, hgeneration, hmem, hfollower⟩ := hwaits.holds hsilent
    exact ⟨hstate, hgeneration, hmem, hfollower⟩

theorem sleeping_calls_miss_nothing_two_sleeps :
    (∃ tr s, coordinator.exec .new (twoMembers.take 11) = some (tr, s) ∧ completedJoin (s.group "g") "b-2" 2 = none) ∧
    ∃ tr s, coordinator.exec .new (twoMembers.take 21) = some (tr, s) ∧ "b-2" ≠ (s.group "g").leaderMemberId := by
  have hjoin : ((coordinator.exec .new (twoMembers.take 11)).map fun r => ((r.2.group "g").generationId, (r.2.group "g").change,
      r.2.calls.lookup 1)) = some (1, 3, some (.join ⟨sampleJoin "b-2" "b", .wait 2 (some ⟨3, some 10000000⟩)⟩)) := by decide +kernel
  have hsync : ((coordinator.exec .new (twoMembers.take 21)).map fun r => ((r.2.group "g").generationId, (r.2.group "g").change,
      r.2.calls.lookup 3)) = some (2, 4, some (.sync ⟨⟨"g", 2, "b-2", []⟩, some ⟨4, some 10000000⟩⟩)) := by decide +kernel
  constructor
  · obtain ⟨⟨tr, s⟩, hx, heq⟩ := Option.map_eq_some_iff.1 hjoin
    simp only [Prod.mk.injEq] at heq
    obtain ⟨hgen, hchange, hcall⟩ := heq
    obtain ⟨-, -, hnone⟩ := (sleeping_calls_miss_nothing tr s (Machine.exec_path hx).1 1).1 _ 2 _ hcall
      (lt_of_eq_of_lt hgen (by decide)) (not_lt_of_ge (le_of_eq hchange))
    exact ⟨tr, s, hx, hnone⟩
  · obtain ⟨⟨tr, s⟩, hx, heq⟩ := Option.map_eq_some_iff.1 hsync
    simp only [Prod.mk.injEq] at heq
    obtain ⟨hgen, hchange, hcall⟩ := heq
    obtain ⟨-, -, -, hfollower⟩ := (sleeping_calls_miss_nothing tr s (Machine.exec_path hx).1 3).2 _ _ hcall
      (lt_of_eq_of_lt hgen (by decide)) (not_lt_of_ge (le_of_eq hchange))
    exact ⟨tr, s, hx, hfollower⟩

/-! ### Timers and expiry -/

/-- The member a call in the section sleeps for; its own staleness is not its concern. -/
def GroupOp.sleeper : GroupOp → Option String
  | .wait memberId _ => some memberId
  | .sync _ memberId _ _ => some memberId
  | _ => none

section
variable {group group' : Group}

theorem expires_iff {clock : Clock} {active : Option String} :
    (∃ id ∈ group.members, id ∉ (expireStaleMembers group clock active).members) ↔
      ∃ id member, group.members.lookup id = some member ∧ group.isStale clock.now active id member = true := by
  have hstale : ∀ {id}, id ∈ staleMembers group clock.now active ↔ _ := mem_staleMembers
  unfold expireStaleMembers
  dsimp only
  split
  · rename_i hnone
    refine ⟨fun ⟨id, hid, hgone⟩ => absurd hid hgone, fun ⟨id, member, hl, hs⟩ => ?_⟩
    have hid := hstale.2 ⟨member, hl, hs⟩
    simp [hnone] at hid
  · simp only [removeMembers_members, mem_eraseAll, not_and, not_not]
    constructor
    · rintro ⟨id, hid, hgone⟩
      exact ⟨id, hstale.1 (hgone hid)⟩
    · rintro ⟨id, member, hl, hs⟩
      exact ⟨id, mem_iff_lookup.2 ⟨member, hl⟩, fun _ => hstale.2 ⟨member, hl, hs⟩⟩

/-- A section that goes to sleep does so until the next expiry in the group it leaves. -/
theorem run_parks {op : GroupOp} {clock : Clock} {sleep : Sleep} (h : op.run group clock = (.parked sleep, group')) :
    sleep = ⟨group'.change, nextExpiryDeadline group' op.sleeper⟩ := by
  have hown : ∀ {after : Group} {memberId : String}, ownAssignment after memberId ≠ .parked sleep := by
    intro after memberId
    unfold ownAssignment
    split <;> simp
  cases op with
  | enter mayAddMember request =>
    obtain ⟨body, -, ⟨error, heq⟩ | ⟨result, -, heq⟩ | ⟨selected, after, out, -, -, ⟨error, -, heq⟩ | ⟨-, heq⟩⟩⟩ :=
      enter_cases group clock mayAddMember request <;>
      exact absurd (heq.symm.trans h) (by simp)
  | wait memberId target =>
    rcases wait_cases group clock memberId target with ⟨result, -, heq⟩ | ⟨error, heq⟩ | ⟨after, out, -, -, -, -,
      ⟨error, -, heq⟩ | ⟨result, -, heq⟩ | ⟨-, -, heq⟩⟩ <;> have heq := heq.symm.trans h <;> cases heq
    rfl
  | sync generationId memberId assignments refresh =>
    obtain ⟨body, -, ⟨error, -, heq⟩ | ⟨touched, -, -, -, heq⟩⟩ :=
      sync_cases group clock generationId memberId assignments refresh
    · exact absurd (heq.symm.trans h) (by simp)
    rcases heq with ⟨-, heq⟩ | ⟨-, heq⟩ | ⟨-, -, -, heq⟩ | ⟨-, -, -, heq⟩ | ⟨-, -, heq⟩ <;>
      have heq := heq.symm.trans h
    · exact absurd (congrArg Prod.fst heq) hown
    · cases heq
    · cases heq
    · exact absurd (congrArg Prod.fst heq) hown
    · cases heq; rfl
  | heartbeat generationId memberId =>
    simp only [GroupOp.run, heartbeat] at h
    split at h
    · cases h
    · split at h <;> cases h
  | leave memberId =>
    simp only [GroupOp.run, leave] at h
    split at h
    · cases h
    · split at h <;> cases h
  | commitOffsets generationId memberId offsets =>
    simp only [GroupOp.run, commitOffsets] at h
    split at h
    · cases h
    · split at h <;> cases h
  | describe groupId => cases h
  | drive =>
    simp only [GroupOp.run, drive, Prod.mk.injEq, GroupReply.parked.injEq] at h
    obtain ⟨rfl, rfl⟩ := h
    rfl

end

/-- Timers and expiry agree. An expiry pass removes a member exactly when the next deadline is reached, and a call or a
driver that went to sleep on a group is woken by its timer, at that group, exactly when there is somebody to remove. -/
theorem timers_agree_with_expiry :
    (∀ (group : Group) (active : Option String) (clock : Clock),
      (∃ id ∈ group.members, id ∉ (expireStaleMembers group clock active).members) ↔
        ∃ deadline, nextExpiryDeadline group active = some deadline ∧ deadline ≤ clock.now) ∧
    ∀ (op : GroupOp) (group group' : Group) (clock later : Clock) (sleep : Sleep),
      op.run group clock = (.parked sleep, group') →
      (Coordinator.wakes (some sleep) group' later.now = true ↔
        ∃ id ∈ group'.members, id ∉ (expireStaleMembers group' later op.sleeper).members) := by
  have hreached : ∀ (group : Group) (active : Option String) (t : Nat),
      (nextExpiryDeadline group active).any (· ≤ t) = true ↔
        ∃ deadline, nextExpiryDeadline group active = some deadline ∧ deadline ≤ t := by
    intro group active t
    simp [Option.any_eq_true]
  constructor
  · intro group active clock
    rw [expires_iff, ← nextExpiryDeadline_reached, hreached]
  · intro op group group' clock later sleep h
    obtain rfl := run_parks h
    rw [expires_iff, ← nextExpiryDeadline_reached]
    simp [Coordinator.wakes]

end MemKafka
