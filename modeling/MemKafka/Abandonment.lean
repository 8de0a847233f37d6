import MemKafka.Wakeups

/-!
# Abandoned groups

When the members of a group fall silent, nobody but its deadline driver takes its lock any more. Every pass of the driver
but the first one then comes at a deadline, so it removes a member (`DrivePass.removes`), and the next one is due no later
than the longest timeout after it (`Within.next`). So the driver empties the group in a bounded number of passes, goes to
sleep for good, and whoever still waits in the group is woken and told that its member is unknown.
-/

namespace MemKafka
open Kit Relation

/-- No timeout of the group reaches further than `D` from the last reading of the clock. -/
structure Within (D : Nat) (t : TimedGroup) : Prop where
  session : ∀ id member, t.group.members.lookup id = some member → fromMillis member.sessionTimeoutMs ≤ D
  rebalance : ∀ id member, t.group.members.lookup id = some member → fromMillis member.rebalanceTimeoutMs ≤ D
  deadline : ∀ d, t.group.rebalanceDeadline = some d → d ≤ t.clock + D

/-- Only the driver takes the lock of the group. -/
def Abandoned (groupId : String) (tr : List CoordinatorEvent) : Prop :=
  ∀ e ∈ tr, ∀ op clock, Coordinator.sectionFor groupId e.pre e.label = some (op, clock) → op = .drive

/-- A pass of the driver, from one cell of a group to the next. -/
structure DrivePass (clock : Clock) (cell cell' : GroupCell) : Prop where
  awake : Coordinator.wakes cell.driver cell.timed.group clock.now = true
  later : cell.timed.clock ≤ clock.now
  ordered : clock.Ordered
  group : cell'.timed.group = (drive cell.timed.group clock).2
  clock : cell'.timed.clock = clock.completed
  sleep : cell'.driver = some ⟨cell'.timed.group.change, nextExpiryDeadline cell'.timed.group none⟩

/-- An abandoned group after so many passes. -/
structure Drained (D : Nat) (cell cell' : GroupCell) (passes : Nat) : Prop where
  offsets : cell'.timed.group.committedOffsets = cell.timed.group.committedOffsets
  members : ∀ id ∈ cell'.timed.group.members, id ∈ cell.timed.group.members
  within : Within D cell'.timed
  count : passes + cell'.timed.group.members.keys.length ≤ cell.timed.group.members.keys.length + 1
  before : passes = 0 → cell' = cell
  after : passes ≠ 0 → cell'.driver = some ⟨cell'.timed.group.change, nextExpiryDeadline cell'.timed.group none⟩

section
variable {group : Group} {clock : Clock} {t : TimedGroup} {D : Nat}

theorem keys_length_le {m m' : Members} (h : ∀ id ∈ m', id ∈ m) : m'.keys.length ≤ m.keys.length :=
  (m'.keys_nodup.subperm fun _ hid => AList.mem_keys.1 (h _ (AList.mem_keys.2 hid))).length_le

theorem keys_length_lt {m m' : Members} (h : ∀ id ∈ m', id ∈ m) {gone : String} (hgone : gone ∈ m) (hnot : gone ∉ m') :
    m'.keys.length < m.keys.length := by
  have hnodup : (gone :: m'.keys).Nodup := List.nodup_cons.2 ⟨fun hmem => hnot (AList.mem_keys.2 hmem), m'.keys_nodup⟩
  have hsub : ∀ id ∈ gone :: m'.keys, id ∈ m.keys := by
    intro id hid
    rcases List.mem_cons.1 hid with rfl | hid
    · exact AList.mem_keys.1 hgone
    · exact AList.mem_keys.1 (h _ (AList.mem_keys.2 hid))
  exact (hnodup.subperm hsub).length_le

/-! ### One pass -/

theorem drive_mem (group : Group) (clock : Clock) {id : String} :
    id ∈ (drive group clock).2.members ↔ id ∈ (expireStaleMembers group clock none).members := by
  show id ∈ (completeRebalanceIfReady (expireStaleMembers group clock none) clock.completed).2.members ↔ _
  rcases completeRebalanceIfReady_cases (expireStaleMembers group clock none) clock.completed with
    ⟨out, h, -⟩ | ⟨selected, -, -, h⟩
  · rw [h]
  · rw [h]
    exact mem_mapVal

theorem expire_mem {active : Option String} {id : String} (h : id ∈ (expireStaleMembers group clock active).members) :
    id ∈ group.members := by
  rcases expireStaleMembers_cases group clock active with heq | ⟨ids, -, -, heq⟩
  · rwa [heq] at h
  · rw [heq, removeMembers_members] at h
    exact (mem_eraseAll.1 h).1

theorem drive_offsets : (drive group clock).2.committedOffsets = group.committedOffsets := by
  show (completeRebalanceIfReady (expireStaleMembers group clock none) clock.completed).2.committedOffsets = _
  have hexpire : (expireStaleMembers group clock none).committedOffsets = group.committedOffsets := by
    rcases expireStaleMembers_cases group clock none with heq | ⟨ids, -, -, heq⟩
    · rw [heq]
    · rcases removeMembers_cases group ids clock.begun with ⟨-, hr⟩ | ⟨leader, -, -, ⟨-, hr⟩ | ⟨-, hr⟩⟩ <;> rw [heq, hr]
  rcases completeRebalanceIfReady_cases (expireStaleMembers group clock none) clock.completed with
    ⟨out, h, -⟩ | ⟨selected, -, -, h⟩ <;> rw [h] <;> exact hexpire

/-- A pass at the next deadline of the group removes a member. -/
theorem drive_removes (h : (nextExpiryDeadline group none).any (· ≤ clock.now) = true) :
    (drive group clock).2.members.keys.length < group.members.keys.length := by
  obtain ⟨id, hid, hgone⟩ := expires_iff.2 (nextExpiryDeadline_reached.1 h)
  exact keys_length_lt (fun id hid => expire_mem ((drive_mem _ _).1 hid)) hid fun hid => hgone ((drive_mem _ _).1 hid)

theorem groupRebalanceTimeout_le {members : Members}
    (h : ∀ id member, members.lookup id = some member → fromMillis member.rebalanceTimeoutMs ≤ D) :
    groupRebalanceTimeout members ≤ D := by
  unfold groupRebalanceTimeout
  cases hmax : (members.entries.map fun e => e.2.rebalanceTimeoutMs).max? with
  | none => exact Nat.zero_le _
  | some longest =>
    obtain ⟨e, he, heq⟩ := List.mem_map.1 (List.max?_mem hmax)
    rw [Option.getD_some, ← heq]
    exact h e.1 e.2 (lookup_eq_some_iff.2 he)

theorem Within.expire (h : Within D t) (hle : t.clock ≤ clock.now) (ho : clock.Ordered) :
    Within D ⟨expireStaleMembers t.group clock none, clock.begun⟩ := by
  have hclock : t.clock ≤ clock.begun := hle.trans ho.begun
  rcases expireStaleMembers_cases t.group clock none with heq | ⟨ids, -, -, heq⟩
  · rw [heq]
    refine ⟨h.session, h.rebalance, fun d hd => ?_⟩
    have := h.deadline d hd
    show d ≤ clock.begun + D
    omega
  rw [heq]
  have hback : ∀ id member, (removeMembers t.group ids clock.begun).members.lookup id = some member →
      t.group.members.lookup id = some member := by
    intro id member hl
    rw [removeMembers_members, lookup_eraseAll] at hl
    split at hl
    · cases hl
    · exact hl
  refine ⟨fun id member hl => h.session id member (hback id member hl),
    fun id member hl => h.rebalance id member (hback id member hl), fun d hd => ?_⟩
  show d ≤ clock.begun + D
  rcases removeMembers_cases t.group ids clock.begun with ⟨-, hr⟩ | ⟨leader, -, -, ⟨-, hr⟩ | ⟨-, hr⟩⟩
  · rw [hr] at hd
    cases hd
  · rw [hr] at hd
    obtain rfl := Option.some.inj hd
    refine Nat.add_le_add_left (groupRebalanceTimeout_le fun id member hl => ?_) _
    rw [← removeMembers_members t.group ids clock.begun] at hl
    exact h.rebalance id member (hback id member hl)
  · rw [hr] at hd
    have := h.deadline d hd
    omega

theorem Within.complete (h : Within D ⟨group, clock.begun⟩) (ho : clock.Ordered) :
    Within D ⟨(completeRebalanceIfReady group clock.completed).2, clock.completed⟩ := by
  rcases completeRebalanceIfReady_cases group clock.completed with ⟨out, heq, -⟩ | ⟨selected, -, -, heq⟩
  · rw [heq]
    refine ⟨h.session, h.rebalance, fun d hd => (h.deadline d hd).trans (Nat.add_le_add_right ho.completed _)⟩
  rw [heq]
  have hback := fun id member => (lookup_map_eq_some (k := id) (v := member)
    (lookup_completeRebalance group selected clock.completed)).1
  refine ⟨fun id member hl => ?_, fun id member hl => ?_, fun d hd => ?_⟩
  · obtain ⟨member₀, hl₀, rfl⟩ := hback id member hl
    exact h.session id member₀ hl₀
  · obtain ⟨member₀, hl₀, rfl⟩ := hback id member hl
    exact h.rebalance id member₀ hl₀
  · obtain rfl := Option.some.inj hd
    exact Nat.add_le_add_left (groupRebalanceTimeout_le h.rebalance) _

theorem Within.drive (h : Within D t) (hle : t.clock ≤ clock.now) (ho : clock.Ordered) :
    Within D ⟨(drive t.group clock).2, clock.completed⟩ :=
  (h.expire hle ho).complete ho

/-- The next expiry is no more than `D` away. -/
theorem Within.next (h : Within D t) (hheard : Heard t.group t.clock) {active : Option String} {d : Nat}
    (hd : nextExpiryDeadline t.group active = some d) : d ≤ t.clock + D := by
  have hstale : ∃ id member, t.group.members.lookup id = some member ∧ t.group.isStale (t.clock + D) active id member = true := by
    obtain ⟨id, member, hl, hs⟩ := nextExpiryDeadline_reached.1 (show (nextExpiryDeadline t.group active).any (· ≤ d) = true by
      simp [hd])
    obtain ⟨hactive, ⟨hpending, hreached⟩ | ⟨hstate, hsynced, -⟩⟩ := isStale_iff.1 hs
    · obtain ⟨deadline, hdeadline, -⟩ := (Option.any_eq_true _ _).1 hreached
      refine ⟨id, member, hl, isStale_iff.2 ⟨hactive, .inl ⟨hpending, ?_⟩⟩⟩
      have := h.deadline deadline hdeadline
      simp [hdeadline, this]
    · have h₁ := hheard id member hl
      have h₂ := h.session id member hl
      exact ⟨id, member, hl, isStale_iff.2 ⟨hactive, .inr ⟨hstate, hsynced, by unfold memberDeadline; omega⟩⟩⟩
  have hreached := nextExpiryDeadline_reached.2 hstale
  rw [hd] at hreached
  simpa using hreached

theorem DrivePass.step {cell cell' : GroupCell} {cell₀ : GroupCell} {passes : Nat} (hp : DrivePass clock cell cell')
    (h : Drained D cell₀ cell passes) : Drained D cell₀ cell' (passes + 1) where
  offsets := by rw [hp.group, drive_offsets, h.offsets]
  members := by
    intro id hid
    rw [hp.group] at hid
    exact h.members id (expire_mem ((drive_mem _ _).1 hid))
  within := by
    have hwithin := h.within.drive hp.later hp.ordered
    rw [← hp.group, ← hp.clock] at hwithin
    exact hwithin
  count := by
    rw [hp.group]
    have hcount := h.count
    by_cases hfirst : passes = 0
    · have := keys_length_le (m := cell.timed.group.members) fun id hid =>
        expire_mem ((drive_mem _ clock).1 hid)
      have hcell := h.before hfirst
      rw [hcell] at this ⊢
      omega
    · -- the driver slept, until the next deadline of the group
      have hawake := hp.awake
      rw [h.after hfirst] at hawake
      have hdue : (nextExpiryDeadline cell.timed.group none).any (· ≤ clock.now) = true := by
        simpa [Coordinator.wakes] using hawake
      have := drive_removes hdue
      omega
  before := fun h => by omega
  after := fun _ => hp.sleep

end

/-! ### Steps and paths -/

section
variable {s s' : Coordinator} {label : CoordinatorLabel} {answer : CoordinatorReply} {groupId : String} {cell : GroupCell}

theorem sectionOf_drive {clock : Clock} (h : s.sectionOf label = some (groupId, .drive, clock)) :
    label = .drive groupId clock := by
  cases label with
  | resume call clock' =>
    simp only [Coordinator.sectionOf] at h
    split at h <;> cases h
  | drive groupId' clock' =>
    cases h
    rfl
  | heartbeat => cases h
  | leave => cases h
  | commitOffsets => cases h
  | describe => cases h
  | join => cases h
  | sync => cases h
  | drop => cases h
  | fetchOffsets => cases h

/-- A step that is not a pass of the group's driver, and takes the group's lock only to make one. -/
theorem step_abandoned (h : s.step label = some (answer, s')) (hcell : s.groups.lookup groupId = some cell)
    (hdrive : ∀ op clock, s.sectionFor groupId label = some (op, clock) → op = .drive) :
    (s.sectionFor groupId label = none ∧ s'.groups.lookup groupId = some cell) ∨
      ∃ clock cell', s.sectionFor groupId label = some (.drive, clock) ∧ DrivePass clock cell cell' ∧
        s'.groups.lookup groupId = some cell' := by
  have hmem : groupId ∈ s.groups := mem_iff_lookup.2 ⟨cell, hcell⟩
  rcases step_cases h with ⟨hidle, hnone⟩ | ⟨groupId', op, clock, hsection, _, _, _, _, -, -, hgroups, -⟩
  · refine .inl ⟨hnone groupId, ?_⟩
    obtain ⟨cell', hcell'⟩ := mem_iff_lookup.1 (hidle.kept groupId hmem)
    rcases hidle.groups groupId cell' hcell' with hl | ⟨hmissing, -⟩
    · rw [hcell', ← hl, hcell]
    · exact absurd hmem hmissing
  by_cases hne : groupId' = groupId
  swap
  · refine .inl ⟨?_, ?_⟩
    · rw [Coordinator.sectionFor, hsection]
      exact if_neg fun hand => hne hand.1
    · rw [hgroups, lookup_insert_eq, if_neg fun heq => hne heq.symm, hcell]
  subst hne
  have hfor : s.sectionFor groupId' label = some (op, clock) := by
    rw [Coordinator.sectionFor, hsection]
    exact if_pos ⟨rfl, hmem⟩
  obtain rfl := hdrive op clock hfor
  obtain rfl := sectionOf_drive hsection
  cases step_turn h with
  | drive hthere hawake hran =>
    rename_i cell₁ timed next
    obtain rfl : cell₁ = cell := Option.some.inj (hthere.symm.trans hcell)
    obtain ⟨hle, hordered, hreply, hpost, hclock⟩ := groupMachine_takes (e := ⟨cell₁.timed, (.drive, clock), .parked next, timed⟩) hran
    refine .inr ⟨clock, ⟨timed, some next⟩, hfor, ⟨hawake, hle, hordered, hpost, hclock, ?_⟩, ?_⟩
    · have hran : GroupOp.drive.run cell₁.timed.group clock = (.parked next, timed.group) :=
        Prod.ext hreply.symm hpost.symm
      exact congrArg some (run_parks hran)
    · rw [lookup_insert_eq, if_pos rfl]

theorem groupEvents_snoc (tr : List CoordinatorEvent) (e : CoordinatorEvent) :
    (groupEvents groupId (tr ++ [e])).length =
      (groupEvents groupId tr).length + if (e.pre.sectionFor groupId e.label).isSome then 1 else 0 := by
  unfold groupEvents
  rw [List.filterMap_append, List.length_append]
  cases hs : e.pre.sectionFor groupId e.label <;> simp [hs]

/-- A pass of a driver that is awake can be made. -/
theorem drive_step {clock : Clock} (hcell : s.groups.lookup groupId = some cell)
    (hawake : Coordinator.wakes cell.driver cell.timed.group clock.now = true) (hle : cell.timed.clock ≤ clock.now)
    (ho : clock.Ordered) :
    ∃ s', s.step (.drive groupId clock) = some (.progress, s') ∧ s'.group groupId = (drive cell.timed.group clock).2 := by
  have hstep : groupMachine.step cell.timed (.drive, clock) =
      some ((drive cell.timed.group clock).1, ⟨(drive cell.timed.group clock).2, clock.completed⟩) := if_pos ⟨hle, ho⟩
  refine ⟨{ s with groups := s.groups.insert groupId ⟨⟨(drive cell.timed.group clock).2, clock.completed⟩,
    some ⟨(drive cell.timed.group clock).2.change, nextExpiryDeadline (drive cell.timed.group clock).2 none⟩⟩ }, ?_, ?_⟩
  · have hreply : (drive cell.timed.group clock).1 =
        .parked ⟨(drive cell.timed.group clock).2.change, nextExpiryDeadline (drive cell.timed.group clock).2 none⟩ := rfl
    rw [hreply] at hstep
    simp [Coordinator.step, Coordinator.driveGroup, hcell, hawake, hstep]
  · rw [Coordinator.group, timed_of_lookup (lookup_insert_eq.trans (if_pos rfl))]

theorem Drained.of_path {D : Nat} {tr : List CoordinatorEvent} (hcell : s.groups.lookup groupId = some cell)
    (hwithin : Within D cell.timed) (hpath : coordinator.Path s tr s') (habandoned : Abandoned groupId tr) :
    ∃ cell', s'.groups.lookup groupId = some cell' ∧ Drained D cell cell' (groupEvents groupId tr).length := by
  revert habandoned
  refine Machine.Path.induction (M := coordinator)
    (P := fun tr s' => Abandoned groupId tr →
      ∃ cell', s'.groups.lookup groupId = some cell' ∧ Drained D cell cell' (groupEvents groupId tr).length) ?_ ?_ hpath
  · exact fun _ => ⟨cell, hcell, rfl, fun _ h => h, hwithin, by simp [groupEvents], fun _ => rfl, fun h => absurd rfl h⟩
  intro tr e _ ih he habandoned
  obtain ⟨cell', hcell', hdrained⟩ := ih fun f hf => habandoned f (List.mem_append_left _ hf)
  rw [groupEvents_snoc]
  rcases step_abandoned he hcell' (habandoned e (by simp)) with ⟨hnone, hsame⟩ | ⟨clock, cell'', hsome, hpass, hnext⟩
  · rw [hnone]
    exact ⟨cell', hsame, hdrained⟩
  · rw [hsome]
    exact ⟨cell'', hnext, hpass.step hdrained⟩

end

/-! ### Calls that wait in an empty group -/

/-- What a call returns when it fails. -/
def Call.refusal (error : GroupError) : Call → CoordinatorReply
  | .join call => .join call.request (.error error)
  | .sync call => .sync call.request (.error error)

section
variable {s : Coordinator} {groupId : String} {cell : GroupCell} {group : Group} {clock : Clock}

theorem expire_nobody (hempty : group.members = ∅) (active : Option String) :
    expireStaleMembers group clock active = group := by
  rcases expireStaleMembers_cases group clock active with h | ⟨ids, ⟨id, -, hid⟩, -, -⟩
  · exact h
  · rw [hempty] at hid
    exact absurd hid (AList.notMem_empty _)

theorem wait_nobody (hempty : group.members = ∅) (memberId : String) (target : Nat) :
    wait group clock memberId target = (.failed .unknownMemberId, group) := by
  have hnone : completedJoin group memberId target = none := by
    simp [completedJoin, hempty]
  have hnot : memberId ∉ group.members := by
    rw [hempty]
    exact AList.notMem_empty _
  simp [wait, hnone, hnot]

theorem sync_nobody (hempty : group.members = ∅) (generationId : Int) (memberId : String)
    (assignments : List SyncAssignment) (refresh : Bool) :
    sync group clock generationId memberId assignments refresh = (.failed .unknownMemberId, group) := by
  have hnot : memberId ∉ group.members := by
    rw [hempty]
    exact AList.notMem_empty _
  simp [sync, expire_nobody hempty, validateMemberAndGeneration, hnot]

theorem runSection_step (op : GroupOp) (hcell : s.groups.lookup groupId = some cell) (hle : cell.timed.clock ≤ clock.now)
    (ho : clock.Ordered) : ∃ s', s.runSection groupId op clock = some ((op.run cell.timed.group clock).1, s') := by
  have hstep : groupMachine.step cell.timed (op, clock) =
      some ((op.run cell.timed.group clock).1, ⟨(op.run cell.timed.group clock).2, clock.completed⟩) := if_pos ⟨hle, ho⟩
  exact ⟨_, by simp [Coordinator.runSection, hcell, hstep]; rfl⟩

/-- A call that sleeps in a group without members is awake, and fails. -/
theorem SleepsWell.refused (h : SleepsWell groupId s) (hcell : s.groups.lookup groupId = some cell)
    (hempty : cell.timed.group.members = ∅) {call : Nat} {c : Call} (hcall : s.calls.lookup call = some c)
    (hid : c.groupId = groupId) (hasleep : c.asleep) (hle : cell.timed.clock ≤ clock.now) (ho : clock.Ordered) :
    ∃ s', s.step (.resume call clock) = some (c.refusal .unknownMemberId, s') := by
  have hgroup : s.group groupId = cell.timed.group := congrArg TimedGroup.group (timed_of_lookup hcell)
  have hnot : ∀ id, id ∉ cell.timed.group.members := eq_empty_iff.1 hempty
  have hwaits := h.calls call c hcall hid
  rw [hgroup] at hwaits
  rcases c with ⟨request, point⟩ | ⟨request, _ | sleep⟩
  · rcases point with _ | _ | _ | _ | _ | _ | ⟨target, _ | sleep⟩ <;> try exact hasleep.elim
    obtain rfl : request.groupId = groupId := hid
    have hfired : sleep.ticket < cell.timed.group.change := by
      by_contra hsilent
      exact hnot _ (Awaits.holds hwaits hsilent).mem
    obtain ⟨s', hran⟩ := runSection_step (.wait request.memberId target) hcell hle ho
    rw [show (GroupOp.run (.wait request.memberId target) cell.timed.group clock).1 = .failed .unknownMemberId by
      rw [GroupOp.run, wait_nobody hempty]] at hran
    refine ⟨s'.endCall call, ?_⟩
    simp [Coordinator.step, hcall, Coordinator.resumeJoin, Coordinator.wakes, hgroup, hfired, hran, Call.refusal]
  · exact hasleep.elim
  · obtain rfl : request.groupId = groupId := hid
    have hfired : sleep.ticket < cell.timed.group.change := by
      by_contra hsilent
      exact hnot _ (Awaits.holds hwaits hsilent).mem
    obtain ⟨s', hran⟩ := runSection_step
      (.sync request.generationId request.memberId request.assignments false) hcell hle ho
    rw [show (GroupOp.run (.sync request.generationId request.memberId request.assignments false) cell.timed.group clock).1 =
      .failed .unknownMemberId by rw [GroupOp.run, sync_nobody hempty]] at hran
    have hthere : request.groupId ∈ s.groups := mem_iff_lookup.2 ⟨cell, hcell⟩
    refine ⟨s'.endCall call, ?_⟩
    simp [Coordinator.step, hcall, Coordinator.resumeSync, hthere, Coordinator.wakes, hgroup, hfired, hran, Call.refusal]

/-- Once the longest timeout has gone by, the driver of a group with members is awake. -/
theorem Within.wakes {D : Nat} (h : Within D cell.timed) (hheard : Heard cell.timed.group cell.timed.clock)
    (inv : GroupInv cell.timed.group) (hsleep : ∀ sleep, cell.driver = some sleep →
      Awaits sleep.ticket cell.timed.group (DriverRests sleep.deadline))
    (hne : cell.timed.group.members ≠ ∅) (hle : cell.timed.clock + D ≤ clock.now) :
    Coordinator.wakes cell.driver cell.timed.group clock.now = true := by
  cases hdriver : cell.driver with
  | none => rfl
  | some sleep =>
    by_cases hfired : sleep.ticket < cell.timed.group.change
    · simp [Coordinator.wakes, hfired]
    · obtain ⟨hready, htime, -⟩ := (hsleep sleep hdriver).holds hfired
      obtain ⟨d, hd⟩ := Option.isSome_iff_exists.1 (inv.nextExpiryDeadline_isSome hready hne)
      obtain ⟨d', hd', hle'⟩ := htime d hd
      have := h.next hheard hd
      have hreached : d' ≤ clock.now := by omega
      simp [Coordinator.wakes, hd', hreached]

end

/-- Abandoned groups drain. From any reachable state on, let only its driver take the lock of a group, and let no timeout
of the group reach further than `D`. Then the driver makes at most one pass more than the group has members, its
committed offsets stay, and as long as there are members a pass can be made once `D` has gone by since the last
one, which removes one of them unless it is the driver's first. When no member is left, the group is empty and without
a deadline, the driver sleeps until somebody comes, and every call that sleeps in the group can wake up, and is told that
its member is unknown. -/
theorem abandoned_groups_drain (before : List CoordinatorEvent) (s : Coordinator) (hrun : coordinator.Run before s)
    (groupId : String) (cell : GroupCell) (hcell : s.groups.lookup groupId = some cell) (D : Nat)
    (hwithin : Within D cell.timed) (tr : List CoordinatorEvent) (s' : Coordinator) (hpath : coordinator.Path s tr s')
    (habandoned : Abandoned groupId tr) (hgen : (s'.group groupId).generationId < i32Max) :
    ∃ cell', s'.groups.lookup groupId = some cell' ∧
      cell'.timed.group.committedOffsets = cell.timed.group.committedOffsets ∧
      (groupEvents groupId tr).length + cell'.timed.group.members.keys.length ≤ cell.timed.group.members.keys.length + 1 ∧
      (cell'.timed.group.members ≠ ∅ → ∀ clock : Clock, clock.Ordered → cell'.timed.clock + D ≤ clock.now →
        ∃ s'', s'.step (.drive groupId clock) = some (.progress, s'') ∧
          (groupEvents groupId tr ≠ [] →
            (s''.group groupId).members.keys.length < cell'.timed.group.members.keys.length)) ∧
      (cell'.timed.group.members = ∅ →
        cell'.timed.group.state = .empty ∧ nextExpiryDeadline cell'.timed.group none = none ∧
        (groupEvents groupId tr ≠ [] → ∀ clock, s'.step (.drive groupId clock) = none) ∧
        ∀ call c, s'.calls.lookup call = some c → c.groupId = groupId → c.asleep →
          ∀ clock : Clock, clock.Ordered → cell'.timed.clock ≤ clock.now →
            ∃ s'', s'.step (.resume call clock) = some (c.refusal .unknownMemberId, s'')) := by
  obtain ⟨cell', hcell', hdrained⟩ := Drained.of_path hcell hwithin hpath habandoned
  have hrun' : coordinator.Run (before ++ tr) s' := Machine.Path.append hrun hpath
  have htimed := timed_of_lookup hcell'
  have hgroup : s'.group groupId = cell'.timed.group := congrArg TimedGroup.group htimed
  have inv := (GroupInv.of_coordinator hrun' groupId hgen).1
  have hsleeps := SleepsWell.of_run hrun' hgen
  have hheard := heard_of_run (coordinator_groupRun hrun' groupId)
  rw [hgroup] at inv
  rw [htimed] at hheard
  have hpassed : groupEvents groupId tr ≠ [] → cell'.driver =
      some ⟨cell'.timed.group.change, nextExpiryDeadline cell'.timed.group none⟩ :=
    fun hne => hdrained.after fun hzero => hne (List.length_eq_zero_iff.1 hzero)
  refine ⟨cell', hcell', hdrained.offsets, hdrained.count, fun hne clock ho hle => ?_, fun hempty => ?_⟩
  · have hawake := hdrained.within.wakes hheard inv (fun sleep hsleep => hgroup ▸ hsleeps.driver cell' sleep hcell' hsleep) hne hle
    obtain ⟨s'', hstep, hnext⟩ := drive_step hcell' hawake (by omega) ho
    refine ⟨s'', hstep, fun hpasses => ?_⟩
    rw [hnext]
    rw [hpassed hpasses] at hawake
    exact drive_removes (by simpa [Coordinator.wakes] using hawake)
  · have hstate := inv.empty_iff.2 hempty
    obtain ⟨-, -, -, -, hdeadline⟩ := inv.cleared hstate
    have hnext : nextExpiryDeadline cell'.timed.group none = none := by
      simp [nextExpiryDeadline, hdeadline, hstate, earliest]
    refine ⟨hstate, hnext, fun hpasses clock => ?_, fun call c hcall hid hasleep clock ho hle => ?_⟩
    · have hdriver := hpassed hpasses
      rw [hnext] at hdriver
      simp [Coordinator.step, Coordinator.driveGroup, hcell', hdriver, Coordinator.wakes]
    · exact hsleeps.refused hcell' hempty hcall hid hasleep hle ho

theorem Abandoned.of_drives {groupId : String} {tr : List CoordinatorEvent}
    (h : ∀ e ∈ tr, ∃ groupId' clock, e.label = .drive groupId' clock) : Abandoned groupId tr := by
  intro e he op clock hsome
  obtain ⟨groupId', clock', hlabel⟩ := h e he
  rw [hlabel] at hsome
  obtain ⟨ran, hran, hif⟩ := Option.bind_eq_some_iff.1 hsome
  obtain rfl := Option.some.inj hran
  obtain ⟨-, hif⟩ := Option.ite_none_right_eq_some.1 hif
  exact (Prod.mk.inj (Option.some.inj hif)).1.symm

/-- Three passes, after which the sync of the second member fails that the leader never answered. -/
def lastPasses : List CoordinatorLabel :=
  [.drive "g" ⟨0, 0, 0⟩, .drive "g" ⟨10000000, 10000000, 10000000⟩, .drive "g" ⟨20000000, 20000000, 20000000⟩]

theorem abandoned_groups_drain_sleeping_sync : ∃ before s tr s' s'',
    coordinator.exec .new (twoMembers.take 21) = some (before, s) ∧ coordinator.exec s lastPasses = some (tr, s') ∧
    (s'.group "g").state = .empty ∧
    s'.step (.resume 3 ⟨20000000, 20000000, 20000000⟩) = some (.sync ⟨"g", 2, "b-2", []⟩ (.error .unknownMemberId), s'') := by
  have hstart : ((coordinator.exec .new (twoMembers.take 21)).bind fun r => (r.2.groups.lookup "g").map fun cell =>
      (cell.timed.clock, cell.timed.group.rebalanceDeadline,
        cell.timed.group.members.entries.map fun e => (e.2.sessionTimeoutMs, e.2.rebalanceTimeoutMs))) =
      some (0, some 10000000, [(10, 10), (10, 10)]) := by decide +kernel
  have hend : ((coordinator.exec .new (twoMembers.take 21)).bind fun r => (coordinator.exec r.2 lastPasses).map fun r' =>
      ((r'.2.group "g").generationId, (r'.2.group "g").members.keys, (r'.2.timed "g").clock, r'.2.calls.lookup 3)) =
      some (2, [], 20000000, some (.sync ⟨⟨"g", 2, "b-2", []⟩, some ⟨4, some 10000000⟩⟩)) := by decide +kernel
  obtain ⟨⟨before, s⟩, hx, hcell⟩ := Option.bind_eq_some_iff.1 hstart
  obtain ⟨cell, hcell, hfacts⟩ := Option.map_eq_some_iff.1 hcell
  simp only [Prod.mk.injEq] at hfacts
  obtain ⟨hclock, hdeadline, htimeouts⟩ := hfacts
  rw [hx, Option.bind_some] at hend
  obtain ⟨⟨tr, s'⟩, hx', hfacts⟩ := Option.map_eq_some_iff.1 hend
  simp only [Prod.mk.injEq] at hfacts
  obtain ⟨hgen, hkeys, hclock', hcall⟩ := hfacts
  obtain ⟨hpath, hlabels⟩ := Machine.exec_path hx'
  have hmember : ∀ id member, cell.timed.group.members.lookup id = some member →
      (member.sessionTimeoutMs, member.rebalanceTimeoutMs) = (10, 10) := by
    intro id member hl
    have hmem := List.mem_map_of_mem (f := fun e : Sigma fun _ : String => Member => (e.2.sessionTimeoutMs, e.2.rebalanceTimeoutMs))
      (lookup_eq_some_iff.1 hl)
    rw [htimeouts] at hmem
    simpa using hmem
  have hwithin : Within 10000000 cell.timed := by
    refine ⟨fun id member hl => ?_, fun id member hl => ?_, fun d hd => ?_⟩
    · rw [(Prod.mk.inj (hmember id member hl)).1]
      decide
    · rw [(Prod.mk.inj (hmember id member hl)).2]
      decide
    · rw [hdeadline] at hd
      rw [← Option.some.inj hd]
      omega
  have habandoned : Abandoned "g" tr := by
    refine .of_drives fun e he => ?_
    have hmem := List.mem_map_of_mem (f := Event.label) he
    rw [hlabels] at hmem
    simp only [lastPasses, List.mem_cons, List.not_mem_nil, or_false] at hmem
    rcases hmem with h | h | h <;> exact ⟨_, _, h⟩
  obtain ⟨cell', hcell', -, -, -, hempty⟩ := abandoned_groups_drain before s (Machine.exec_path hx).1 "g" cell hcell 10000000
    hwithin tr s' hpath habandoned (by rw [hgen]; decide)
  have htimed := timed_of_lookup hcell'
  have hgroup : s'.group "g" = cell'.timed.group := congrArg TimedGroup.group htimed
  have hnobody : cell'.timed.group.members = ∅ := by
    rw [hgroup] at hkeys
    exact eq_empty_iff.2 fun id hid => by simpa [hkeys] using AList.mem_keys.1 hid
  obtain ⟨hstate, -, -, hcalls⟩ := hempty hnobody
  obtain ⟨s'', hstep⟩ := hcalls 3 _ hcall rfl trivial ⟨20000000, 20000000, 20000000⟩ (by decide)
    (by rw [← htimed, hclock'])
  exact ⟨before, s, tr, s', s'', hx, hx', hgroup ▸ hstate, hstep⟩

end MemKafka
