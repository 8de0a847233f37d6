import MemKafka.Agreement
import MemKafka.Deadlines
import MemKafka.GroupQuiet
import MemKafka.Membership

/-!
# Members expire only when they are late

`Timely` ties the deadline of a group to the sections of the run in which the rebalance began and the generation
completed, and the last heartbeat of every member to the sections that refreshed it.
-/

namespace MemKafka
open Kit Relation

/-! ### The sections that set the clocks -/

/-- The section begins a rebalance. -/
def Begins (e : GroupEvent) : Bool :=
  e.post.group.state = .preparingRebalance ∧
    (e.pre.group.state ≠ .preparingRebalance ∨ e.pre.group.rebalanceEpoch ≠ e.post.group.rebalanceEpoch)

/-- The section completes a generation. If the one before was still being completed a rebalance
came in between, and notified. -/
def Completes (e : GroupEvent) : Bool :=
  e.post.group.state = .completingRebalance ∧
    (e.pre.group.state ≠ .completingRebalance ∨ e.pre.group.change ≠ e.post.group.change)

/-- When the last rebalance began. -/
def rebalanceBegan (tr : List GroupEvent) : Option Nat := (tr.filter Begins).getLast?.map (·.label.2.begun)

/-- When the last generation was completed. -/
def generationCompleted (tr : List GroupEvent) : Option Nat := (tr.filter Completes).getLast?.map (·.label.2.completed)

/-- The section is a heartbeat of the member that passes the validation, the first pass of a sync of it that does,
or a join of it that is answered from a completed one. -/
def Refreshes (e : GroupEvent) (memberId : String) : Prop :=
  match e.label.1 with
  | .heartbeat generationId memberId' => memberId' = memberId ∧
    validateMemberAndGeneration (expireStaleMembers e.pre.group e.label.2 none) generationId memberId = .ok ()
  | .sync generationId memberId' _ refresh => memberId' = memberId ∧ refresh = true ∧
    validateMemberAndGeneration (expireStaleMembers e.pre.group e.label.2 none) generationId memberId = .ok ()
  | .enter _ request => request.memberId = memberId ∧ ∃ result, e.out = .joined result
  | _ => False

/-- The section makes the group stable, and the member has synced. -/
def Stabilises (e : GroupEvent) (memberId : String) : Prop :=
  e.pre.group.state ≠ .stable ∧ e.post.group.state = .stable ∧ ∃ member,
    e.post.group.members.lookup memberId = some member ∧ member.syncedGeneration = e.post.group.generationId

theorem getLast?_filter_snoc {p : GroupEvent → Bool} {tr : List GroupEvent} {e : GroupEvent} :
    ((tr ++ [e]).filter p).getLast? = if p e then some e else (tr.filter p).getLast? := by
  rw [List.filter_append]
  by_cases h : p e <;> simp [h]

section
variable {e : GroupEvent} {id : String} {member : Member}

/-- A member that is refreshed was heard of in this very section. -/
theorem Refreshes.lastHeartbeat (ht : groupMachine.Takes e) (h : Refreshes e id)
    (hl : e.post.group.members.lookup id = some member) : member.lastHeartbeat = e.label.2.now := by
  obtain ⟨pre, ⟨op, clock⟩, out, post⟩ := e
  obtain ⟨-, -, hout, hpost, -⟩ := groupMachine_takes ht
  dsimp only at hout hpost hl
  have htouch : ∀ (body : Group) {member : Member}, (touchMember body id clock.now).members.lookup id = some member →
      member.lastHeartbeat = clock.now := by
    intro body member hl
    obtain ⟨member₀, -, rfl⟩ := (lookup_map_eq_some (lookup_update_map id)).1 hl
    rw [if_pos rfl]
  cases op with
  | heartbeat generationId memberId =>
    obtain ⟨rfl, hvalid⟩ := h
    refine htouch (expireStaleMembers pre.group clock none) ?_
    rw [← hl, hpost, GroupOp.run, heartbeat, hvalid]
    dsimp only
    split <;> rfl
  | sync generationId memberId assignments refresh =>
    obtain ⟨rfl, rfl, hvalid⟩ := h
    change post.group = (sync pre.group clock generationId memberId assignments true).2 at hpost
    obtain ⟨body, rfl, ⟨error, hinvalid, -⟩ | ⟨touched, rfl, hmem, hgen, hrest⟩⟩ :=
      sync_cases pre.group clock generationId memberId assignments true
    · rw [if_pos rfl, hvalid] at hinvalid
      cases hinvalid
    rw [if_pos rfl] at hmem hgen hrest
    rw [if_pos rfl] at hrest
    -- what follows the touch keeps the heartbeat
    have hbeats : Beats clock (touchMember (expireStaleMembers pre.group clock none) memberId clock.now) post.group := by
      generalize htouched : touchMember (expireStaleMembers pre.group clock none) memberId clock.now = touched at hrest
      have hmem' : memberId ∈ touched.members := by rw [← htouched]; exact mem_update.2 hmem
      obtain rfl : touched.generationId = generationId := by rw [← htouched]; exact hgen
      rcases hrest with ⟨hstate, h⟩ | ⟨-, h⟩ | ⟨-, -, -, h⟩ | ⟨hstate, rfl, hnames, h⟩ | ⟨hstate, hfollower, h⟩ <;>
        rw [hpost, h]
      · exact .steady (.syncStable _ _ hmem' hstate)
      · exact .refl _
      · exact .refl _
      · exact .mutation (.install _ _ ⟨hstate, hmem', hnames⟩)
      · exact .steady (.mark _ _ hmem' hstate hfollower)
    rcases hbeats memberId member hl with heq | ⟨member₀, hl₀, heq⟩
    · exact heq
    · exact heq.symm.trans (htouch _ hl₀)
  | enter mayAddMember request =>
    obtain ⟨rfl, result, hjoined⟩ := h
    change out = (enter pre.group clock mayAddMember request).1 at hout
    change post.group = (enter pre.group clock mayAddMember request).2 at hpost
    dsimp only at hjoined
    rw [hjoined] at hout
    obtain ⟨body, rfl, ⟨error, h⟩ | ⟨result, -, h⟩ | ⟨selected, after, out, -, -, ⟨error, -, h⟩ | ⟨-, h⟩⟩⟩ :=
      enter_cases pre.group clock mayAddMember request <;> rw [h] at hout hpost
    · cases hout
    · exact htouch _ (hpost ▸ hl)
    · cases hout
    · cases hout
  | wait memberId targetEpoch => exact h.elim
  | leave memberId => exact h.elim
  | commitOffsets generationId memberId offsets => exact h.elim
  | describe groupId => exact h.elim
  | drive => exact h.elim

theorem installedMember_lastHeartbeat {group : Group} {now : Nat}
    (h : (installedMember group now id member).syncedGeneration = group.generationId) :
    (installedMember group now id member).lastHeartbeat = now := by
  unfold installedMember at h ⊢
  dsimp only at h ⊢
  by_cases hsynced : (if id = group.leaderMemberId then { member with syncedGeneration := group.generationId }
      else member).syncedGeneration = group.generationId
  · rw [if_pos hsynced]
  · rw [if_neg hsynced] at h
    exact absurd h hsynced

theorem Stabilises.lastHeartbeat (ht : groupMachine.Takes e) (h : Stabilises e id)
    (hl : e.post.group.members.lookup id = some member) : member.lastHeartbeat = e.label.2.now := by
  obtain ⟨hpre, hpost, member', hl', hsynced⟩ := h
  obtain rfl : member' = member := Option.some.inj (hl'.symm.trans hl)
  have hsection := groupMachine_section ht
  generalize e.post.group = post at hsection hpost hl' hsynced
  cases hsection with
  | steady path => exact absurd ((Carries.of_path path).cohort (.inr hpost)).1 (by rw [hpost]; exact hpre)
  | completes path ready select => cases hpost
  | @installs body path assignments refresh hi hop =>
    obtain ⟨members, deadline, heq, hm, -⟩ := installAssignments_eq body assignments e.label.2.now
    rw [heq] at hl' hsynced
    obtain ⟨member₀, -, rfl⟩ := (lookup_map_eq_some hm).1 hl'
    exact installedMember_lastHeartbeat hsynced

end

/-! ### Runs -/

structure Timely (tr : List GroupEvent) (s : TimedGroup) : Prop where
  past : ∀ f ∈ tr, f.label.2.completed ≤ s.clock ∧ f.label.2.Ordered
  waits : s.group.state = .preparingRebalance → ∃ began, rebalanceBegan tr = some began ∧ Waits s.group began
  settles : s.group.completed → ∃ completed, generationCompleted tr = some completed ∧ Settles s.group completed
  fresh : ∀ f ∈ tr, ∀ id member, Refreshes f id ∨ Stabilises f id → s.group.members.lookup id = some member →
    f.label.2.now ≤ member.lastHeartbeat

section
variable {tr : List GroupEvent} {e : GroupEvent}

theorem rebalanceBegan_le {s : TimedGroup} (h : Timely tr s) {began : Nat} (hb : rebalanceBegan tr = some began) :
    began ≤ s.clock := by
  obtain ⟨f, hf, rfl⟩ := Option.map_eq_some_iff.1 hb
  obtain ⟨hle, hordered⟩ := h.past f (List.mem_filter.1 (List.mem_of_getLast? hf)).1
  exact hordered.completed.trans hle

theorem rebalanceBegan_snoc : rebalanceBegan (tr ++ [e]) = if Begins e then some e.label.2.begun else rebalanceBegan tr := by
  rw [rebalanceBegan, getLast?_filter_snoc]
  split <;> rfl

theorem generationCompleted_snoc :
    generationCompleted (tr ++ [e]) = if Completes e then some e.label.2.completed else generationCompleted tr := by
  rw [generationCompleted, getLast?_filter_snoc]
  split <;> rfl

/-- The deadline of a rebalance in preparation, one section later. -/
theorem Timely.waits_snoc (h : Timely tr e.pre) (ht : groupMachine.Takes e)
    (hstate : e.post.group.state = .preparingRebalance) :
    ∃ began, rebalanceBegan (tr ++ [e]) = some began ∧ Waits e.post.group began := by
  obtain ⟨hle, hordered, -⟩ := groupMachine_takes ht
  -- a section that leaves a rebalance in preparation neither completes nor installs
  have hwaits : Waits e.post.group e.label.2.begun ∨ e.pre.group.state = .preparingRebalance ∧
      e.post.group.rebalanceEpoch = e.pre.group.rebalanceEpoch ∧
      ∀ began, Waits e.pre.group began → Waits e.post.group began := by
    have hsection := groupMachine_section ht
    generalize e.post.group = post at hsection hstate
    cases hsection with
    | steady path => exact waits_of_path path hstate
    | completes path ready select => cases hstate
    | installs path assignments refresh hi hop =>
      obtain ⟨members, deadline, heq, -⟩ := installAssignments_eq _ assignments e.label.2.now
      rw [heq] at hstate
      cases hstate
  rw [rebalanceBegan_snoc]
  by_cases hbegins : Begins e
  · rw [if_pos hbegins]
    refine ⟨_, rfl, hwaits.resolve_right ?_⟩
    rintro ⟨hpre, hepoch, -⟩
    obtain ⟨-, hne | hne⟩ := of_decide_eq_true hbegins
    · exact hne hpre
    · exact hne hepoch.symm
  · rw [if_neg hbegins]
    have hpre : e.pre.group.state = .preparingRebalance := by
      by_contra hne
      exact hbegins (decide_eq_true ⟨hstate, .inl hne⟩)
    obtain ⟨began, hb, hw⟩ := h.waits hpre
    refine ⟨began, hb, ?_⟩
    rcases hwaits with hbegun | ⟨-, -, hkeeps⟩
    · exact hbegun.mono (((rebalanceBegan_le h hb).trans hle).trans hordered.begun)
    · exact hkeeps began hw

/-- The deadline of a completed generation, one section later. -/
theorem Timely.settles_snoc (h : Timely tr e.pre) (ht : groupMachine.Takes e) (hcompleted : e.post.group.completed) :
    ∃ completed, generationCompleted (tr ++ [e]) = some completed ∧ Settles e.post.group completed := by
  have hsection := groupMachine_section ht
  rw [generationCompleted_snoc]
  generalize hpost : e.post.group = post at hsection hcompleted
  cases hsection with
  | steady path =>
    obtain ⟨hstate, hchange, hkeeps⟩ := settles_of_path path hcompleted
    have hcompletes : ¬ Completes e := by
      intro hc
      obtain ⟨hpost', hne⟩ := of_decide_eq_true hc
      rw [hpost] at hpost' hne
      rcases hne with hne | hne
      · exact hne (hstate.symm.trans hpost')
      · exact hne (hchange hpost').symm
    rw [if_neg hcompletes]
    obtain ⟨completed, hg, hs⟩ := h.settles (by rw [Group.completed, ← hstate]; exact hcompleted)
    exact ⟨completed, hg, hkeeps completed hs⟩
  | @completes body path selected ready select =>
    have hcompletes : Completes e := by
      refine decide_eq_true ⟨by rw [hpost]; rfl, .inr ?_⟩
      have hlt : body.change < e.post.group.change := by rw [hpost]; exact Nat.lt_succ_self _
      exact ((change_le_of_path path).trans_lt hlt).ne
    rw [if_pos hcompletes]
    refine ⟨_, rfl, ?_⟩
    rintro deadline ⟨⟩ id member hl
    obtain ⟨member₀, hl₀, rfl⟩ := (lookup_map_eq_some (lookup_completeRebalance body selected e.label.2.completed)).1 hl
    exact Nat.add_le_add_left (le_groupRebalanceTimeout hl₀) _
  | @installs body path assignments refresh hi hop =>
    obtain ⟨members, deadline, heq, hm, hdeadline⟩ := installAssignments_eq body assignments e.label.2.now
    rw [heq] at hpost ⊢
    have hcompletes : ¬ Completes e := by
      intro hc
      have := (of_decide_eq_true hc).1
      rw [hpost] at this
      cases this
    rw [if_neg hcompletes]
    obtain ⟨hstate, -, hkeeps⟩ := settles_of_path path (.inl hi.completing)
    obtain ⟨completed, hg, hs⟩ := h.settles (.inl (hstate.symm.trans hi.completing))
    refine ⟨completed, hg, (hkeeps completed hs).transfer hdeadline hm ?_⟩
    intro id member
    unfold installedMember
    dsimp only
    split <;> split <;> rfl

theorem Timely.fresh_snoc (h : Timely tr e.pre) (ht : groupMachine.Takes e) {f : GroupEvent} (hf : f ∈ tr ++ [e])
    {id : String} {member : Member} (hrefresh : Refreshes f id ∨ Stabilises f id)
    (hl : e.post.group.members.lookup id = some member) : f.label.2.now ≤ member.lastHeartbeat := by
  obtain ⟨hle, -⟩ := groupMachine_takes ht
  rcases List.mem_append.1 hf with hf | hf
  · rcases Beats.of_mutations (groupMachine_section ht).mutations id member hl with heq | ⟨member₀, hl₀, heq⟩
    · obtain ⟨hpast, hordered⟩ := h.past f hf
      rw [heq]
      exact ((hordered.begun.trans hordered.completed).trans hpast).trans hle
    · rw [← heq]
      exact h.fresh f hf id member₀ hrefresh hl₀
  · obtain rfl := List.mem_singleton.1 hf
    rcases hrefresh with hrefresh | hrefresh
    · exact (hrefresh.lastHeartbeat ht hl).ge
    · exact (hrefresh.lastHeartbeat ht hl).ge

theorem Timely.of_run {s : TimedGroup} (h : groupMachine.Run tr s) : Timely tr s := by
  refine Machine.Run.induction (M := groupMachine) (P := Timely) ?_ ?_ h
  · refine ⟨by simp, nofun, ?_, by simp⟩
    rintro (h | h) <;> cases h
  · intro tr e _ ih ht
    obtain ⟨hle, hordered, -, -, hclock⟩ := groupMachine_takes ht
    refine ⟨?_, ih.waits_snoc ht, ih.settles_snoc ht, fun f hf id member => ih.fresh_snoc ht hf⟩
    intro f hf
    rw [hclock]
    rcases List.mem_append.1 hf with hf | hf
    · obtain ⟨hpast, hf⟩ := ih.past f hf
      exact ⟨((hpast.trans hle).trans hordered.begun).trans hordered.completed, hf⟩
    · obtain rfl := List.mem_singleton.1 hf
      exact ⟨le_rfl, hordered⟩

end

/-- No false expiry. A member disappears from a group only in a section that is its own leave, or whose expiry pass
finds it late: while a rebalance is prepared that it has not joined, by its own rebalance timeout since that rebalance
began; while it has not synced the generation, by the same timeout since that was completed; and once it has, by its
session timeout since every section that refreshed it and the one that made the group stable. -/
theorem no_false_expiry (tr : List CoordinatorEvent) (s : Coordinator) (hrun : coordinator.Run tr s) (groupId : String)
    (before after : List CoordinatorEvent) (e : CoordinatorEvent) (htr : tr = before ++ e :: after) (memberId : String)
    (member : Member) (hmember : (e.pre.group groupId).members.lookup memberId = some member)
    (hgone : memberId ∉ (e.post.group groupId).members) :
    ∃ op clock, e.pre.sectionFor groupId e.label = some (op, clock) ∧
      (op = .leave memberId ∧ memberId ∈ (expireStaleMembers (e.pre.group groupId) clock none).members ∨
      (e.pre.group groupId).state = .preparingRebalance ∧ member.joinedEpoch ≠ (e.pre.group groupId).rebalanceEpoch ∧
        (∃ began, rebalanceBegan (groupEvents groupId before) = some began ∧
          began + fromMillis member.rebalanceTimeoutMs ≤ clock.now) ∨
      (e.pre.group groupId).completed ∧ member.syncedGeneration ≠ (e.pre.group groupId).generationId ∧
        (∃ completed, generationCompleted (groupEvents groupId before) = some completed ∧
          completed + fromMillis member.rebalanceTimeoutMs ≤ clock.now) ∨
      (e.pre.group groupId).state = .stable ∧ member.syncedGeneration = (e.pre.group groupId).generationId ∧
        ∀ f ∈ groupEvents groupId before, Refreshes f memberId ∨ Stabilises f memberId →
          f.label.2.now + fromMillis member.sessionTimeoutMs ≤ clock.now) := by
  subst htr
  obtain ⟨hbefore, ht, -⟩ := Machine.Run.split hrun
  have timely := Timely.of_run (coordinator_groupRun hbefore groupId)
  have hmem : memberId ∈ (e.pre.group groupId).members := mem_iff_lookup.2 ⟨member, hmember⟩
  rcases step_sectionFor ht groupId with ⟨-, heq⟩ | ⟨op, clock, reply, hsection, hstep⟩
  · rw [Coordinator.group, heq] at hgone
    exact absurd hmem hgone
  refine ⟨op, clock, hsection, ?_⟩
  obtain ⟨-, -, -, hpost, -⟩ :=
    groupMachine_takes (e := ⟨e.pre.timed groupId, (op, clock), reply, e.post.timed groupId⟩) hstep
  replace hpost : e.post.group groupId = (op.run (e.pre.group groupId) clock).2 := hpost
  rw [hpost] at hgone
  rcases run_removes hmem hgone with hleave | ⟨active, hexpired⟩
  · exact .inl hleave
  right
  obtain ⟨-, ⟨hpending, hreached⟩ | ⟨hstable, hsynced, hdeadline⟩⟩ := isStale_iff.1 (stale_of_expired hmember hexpired)
  · obtain ⟨deadline, hd, hle⟩ := (Option.any_eq_true _ _).1 hreached
    replace hle := of_decide_eq_true hle
    have hsettled : (e.pre.group groupId).completed → ∃ completed, generationCompleted (groupEvents groupId before) =
        some completed ∧ completed + fromMillis member.rebalanceTimeoutMs ≤ clock.now := by
      intro hcompleted
      obtain ⟨completed, hg, hsettles⟩ := timely.settles hcompleted
      exact ⟨completed, hg, (hsettles deadline hd memberId member hmember).trans hle⟩
    unfold Group.isPending at hpending
    cases hstate : (e.pre.group groupId).state with
    | empty => simp [hstate] at hpending
    | preparingRebalance =>
      have hjoined : member.joinedEpoch ≠ (e.pre.group groupId).rebalanceEpoch := by simpa [hstate] using hpending
      obtain ⟨began, hb, d, hd', hwaits⟩ := timely.waits hstate
      obtain rfl : deadline = d := Option.some.inj (hd.symm.trans hd')
      exact .inl ⟨rfl, hjoined, began, hb, (hwaits memberId member hmember hjoined).trans hle⟩
    | completingRebalance =>
      exact .inr (.inl ⟨.inl hstate, by simpa [hstate] using hpending, hsettled (.inl hstate)⟩)
    | stable => exact .inr (.inl ⟨.inr hstate, by simpa [hstate] using hpending, hsettled (.inr hstate)⟩)
  · refine .inr (.inr ⟨hstable, hsynced, fun f hf hrefresh => ?_⟩)
    exact (Nat.add_le_add_right (timely.fresh f hf memberId member hrefresh hmember) _).trans hdeadline

/-- A stable member that was heard of last at the start, when its session timeout of ten milliseconds is over. -/
theorem no_false_expiry_session : ∃ tr s answer s' member, coordinator.exec .new twoMembers = some (tr, s) ∧
    coordinator.step s (.describe "g" ⟨10000000, 10000000, 10000000⟩) = some (answer, s') ∧
    (s.group "g").members.lookup "b-2" = some member ∧ "b-2" ∉ (s'.group "g").members ∧
    ∀ f ∈ groupEvents "g" tr, Refreshes f "b-2" ∨ Stabilises f "b-2" →
      f.label.2.now + fromMillis member.sessionTimeoutMs ≤ 10000000 := by
  have hout : ((coordinator.exec .new twoMembers).bind fun r =>
      (coordinator.step r.2 (.describe "g" ⟨10000000, 10000000, 10000000⟩)).map fun r' =>
        (((r.2.group "g").members.lookup "b-2").map fun member => (decide (member.syncedGeneration = (r.2.group "g").generationId)),
          (r.2.group "g").state, decide ("b-2" ∈ (r'.2.group "g").members), decide ("g" ∈ r.2.groups))) =
      some (some true, .stable, false, true) := by decide +kernel
  simp only [Option.bind_eq_some_iff, Option.map_eq_some_iff, Prod.mk.injEq, Prod.exists, decide_eq_true_eq,
    decide_eq_false_iff_not] at hout
  obtain ⟨tr, s, hx, answer, s', hstep, ⟨member, hl, hsynced⟩, hstate, hgone, hopen⟩ := hout
  refine ⟨tr, s, answer, s', member, hx, hstep, hl, hgone, ?_⟩
  have hrun : coordinator.Run (tr ++ [⟨s, .describe "g" ⟨10000000, 10000000, 10000000⟩, answer, s'⟩]) s' :=
    Machine.Run.snoc (e := ⟨s, _, answer, s'⟩) (Machine.exec_path hx).1 hstep
  obtain ⟨op, clock, hsection, hexpiry⟩ := no_false_expiry _ s' hrun "g" tr [] _ rfl "b-2" member hl hgone
  have hdescribe : s.sectionFor "g" (.describe "g" ⟨10000000, 10000000, 10000000⟩) =
      some (.describe "g", ⟨10000000, 10000000, 10000000⟩) := if_pos ⟨rfl, hopen⟩
  obtain ⟨rfl, rfl⟩ := Prod.mk.inj (Option.some.inj (hsection.symm.trans hdescribe))
  rcases hexpiry with ⟨hleave, -⟩ | ⟨hpreparing, -⟩ | ⟨-, hpending, -⟩ | ⟨-, -, hsession⟩
  · cases hleave
  · exact absurd (hstate.symm.trans hpreparing) (by decide)
  · exact absurd hsynced hpending
  · exact hsession

end MemKafka
