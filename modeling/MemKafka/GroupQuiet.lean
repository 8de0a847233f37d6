import MemKafka.GroupInv

/-!
# What a section does without notifying

A sleeping task sees a group only through `change`. A section that leaves `change` alone is `Quiet`: it keeps
the state, the epoch, the generation and every member with its completed join, and it makes nobody stale
earlier. `run_calm`: every section notifies or is quiet, and a quiet one leaves no rebalance ready that
was not ready before.
-/

namespace MemKafka
open Kit Relation

/-! ### The next deadline -/

theorem earliest_reached (a b : Option Nat) (t : Nat) :
    (earliest a b).any (· ≤ t) = (a.any (· ≤ t) || b.any (· ≤ t)) := by
  cases a <;> cases b <;> simp [earliest]

theorem min?_reached {l : List Nat} {t : Nat} : l.min?.any (· ≤ t) = true ↔ ∃ x ∈ l, x ≤ t := by
  cases h : l.min? with
  | none => simp [List.min?_eq_none_iff.1 h]
  | some least =>
    simp only [Option.any_some, decide_eq_true_eq]
    exact ⟨fun hle => ⟨least, List.min?_mem h, hle⟩, fun ⟨x, hx, hle⟩ => ((List.le_min?_iff h).1 le_rfl x hx).trans hle⟩

section
variable {group : Group} {active : Option String} {t : Nat}

/-- A member is stale when the deadline that holds for it is reached. -/
theorem isStale_iff {id : String} {member : Member} : group.isStale t active id member = true ↔
    active ≠ some id ∧ (group.isPending member = true ∧ group.rebalanceDeadline.any (· ≤ t) = true ∨
      group.state = .stable ∧ member.syncedGeneration = group.generationId ∧ memberDeadline member ≤ t) := by
  unfold Group.isStale Group.isPending
  by_cases hactive : active = some id
  · simp [hactive]
  · cases group.state <;> simp [hactive, and_comm]

/-- The next deadline is reached exactly when a member is stale. -/
theorem nextExpiryDeadline_reached : (nextExpiryDeadline group active).any (· ≤ t) = true ↔
    ∃ id member, group.members.lookup id = some member ∧ group.isStale t active id member = true := by
  have hrebalance : (group.rebalanceDeadline.filter fun _ =>
      group.members.entries.any fun e => active ≠ some e.1 ∧ group.isPending e.2).any (· ≤ t) = true ↔
      ∃ e ∈ group.members.entries, active ≠ some e.1 ∧ group.isPending e.2 = true ∧
        group.rebalanceDeadline.any (· ≤ t) = true := by
    cases group.rebalanceDeadline with
    | none => simp
    | some deadline =>
      simp only [Option.filter, List.any_eq_true, decide_eq_true_eq]
      split
      · rename_i h
        obtain ⟨e, he, hne, hp⟩ := h
        exact ⟨fun hle => ⟨e, he, hne, hp, hle⟩, fun ⟨_, _, _, _, hle⟩ => hle⟩
      · rename_i h
        exact ⟨fun hle => absurd hle (by simp), fun ⟨e, he, hne, hp, _⟩ => absurd ⟨e, he, hne, hp⟩ h⟩
  have hsession : (if group.state = .stable then
      ((group.members.entries.filter fun e => active ≠ some e.1 ∧ e.2.syncedGeneration = group.generationId).map
        fun e => memberDeadline e.2).min? else none).any (· ≤ t) = true ↔
      ∃ e ∈ group.members.entries, active ≠ some e.1 ∧
        group.state = .stable ∧ e.2.syncedGeneration = group.generationId ∧ memberDeadline e.2 ≤ t := by
    split
    · rename_i hstate
      rw [min?_reached]
      constructor
      · rintro ⟨_, hx, hle⟩
        obtain ⟨e, he, rfl⟩ := List.mem_map.1 hx
        obtain ⟨he, hf⟩ := List.mem_filter.1 he
        obtain ⟨hne, hsynced⟩ := of_decide_eq_true hf
        exact ⟨e, he, hne, hstate, hsynced, hle⟩
      · rintro ⟨e, he, hne, -, hsynced, hle⟩
        exact ⟨_, List.mem_map.2 ⟨e, List.mem_filter.2 ⟨he, decide_eq_true ⟨hne, hsynced⟩⟩, rfl⟩, hle⟩
    · rename_i hstate
      exact ⟨fun h => absurd h (by simp), fun ⟨_, _, _, h, _⟩ => absurd h hstate⟩
  rw [← exists_entries (P := fun id member => group.isStale t active id member = true), nextExpiryDeadline,
    earliest_reached,
    Bool.or_eq_true, hrebalance, hsession, ← exists_or]
  refine exists_congr ?_
  intro e
  rw [← and_or_left, isStale_iff, ← and_or_left]

end

/-! ### Quiet and calm -/

structure Quiet (group group' : Group) : Prop where
  change : group'.change = group.change
  state : group'.state = group.state
  epoch : group'.rebalanceEpoch = group.rebalanceEpoch
  generation : group'.generationId = group.generationId
  leader : group.state = .completingRebalance → group'.leaderMemberId = group.leaderMemberId
  kept : ∀ id, id ∈ group.members → id ∈ group'.members ∧ ∀ epoch, completedJoin group' id epoch = completedJoin group id epoch
  populated : group'.members ≠ ∅ → group.members ≠ ∅
  stale : ∀ t id member', group'.members.lookup id = some member' → group'.isStale t none id member' = true →
    ∃ member, group.members.lookup id = some member ∧ group.isStale t none id member = true

/-- Either the waiters are notified, or there is nothing new for them. -/
def Calm (group group' : Group) : Prop :=
  group.change < group'.change ∨ Quiet group group' ∧ (group'.ready = true → group.ready = true)

/-- No member was heard of after `now`. -/
def Heard (group : Group) (now : Nat) : Prop :=
  ∀ id member, group.members.lookup id = some member → member.lastHeartbeat ≤ now

theorem Quiet.refl (group : Group) : Quiet group group :=
  ⟨rfl, rfl, rfl, rfl, fun _ => rfl, fun _ h => ⟨h, fun _ => rfl⟩, id, fun _ _ member hl hs => ⟨member, hl, hs⟩⟩

theorem Quiet.trans {g₁ g₂ g₃ : Group} (h : Quiet g₁ g₂) (h' : Quiet g₂ g₃) : Quiet g₁ g₃ where
  change := h'.change.trans h.change
  state := h'.state.trans h.state
  epoch := h'.epoch.trans h.epoch
  generation := h'.generation.trans h.generation
  leader hs := (h'.leader (h.state.trans hs)).trans (h.leader hs)
  kept id hid := by
    obtain ⟨hid₂, hj⟩ := h.kept id hid
    obtain ⟨hid₃, hj'⟩ := h'.kept id hid₂
    exact ⟨hid₃, fun epoch => (hj' epoch).trans (hj epoch)⟩
  populated hne := h.populated (h'.populated hne)
  stale t id member' hl hs := by
    obtain ⟨member, hl, hs⟩ := h'.stale t id member' hl hs
    exact h.stale t id member hl hs

namespace Calm
variable {group group' : Group} {clock : Clock}

theorem refl (group : Group) : Calm group group := .inr ⟨.refl group, id⟩

theorem change_le (h : Calm group group') : group.change ≤ group'.change := by
  rcases h with h | ⟨h, -⟩
  · exact h.le
  · exact h.change.ge

theorem trans {g₁ g₂ g₃ : Group} (h : Calm g₁ g₂) (h' : Calm g₂ g₃) : Calm g₁ g₃ := by
  rcases h with h | ⟨h, hr⟩
  · exact .inl (lt_of_lt_of_le h h'.change_le)
  rcases h' with h' | ⟨h', hr'⟩
  · exact .inl (by have := h.change; omega)
  · exact .inr ⟨h.trans h', fun hready => hr (hr' hready)⟩

/-- Rewriting members so that nobody gets stale earlier. -/
theorem map {members : Members} {f : String → Member → Member}
    (hm : ∀ id, members.lookup id = (group.members.lookup id).map (f id))
    (hf : ∀ id member, (f id member).joinedEpoch = member.joinedEpoch ∧ (f id member).completedJoin = member.completedJoin)
    (hs : ∀ t id member, group.members.lookup id = some member → group.isStale t none id (f id member) = true →
      group.isStale t none id member = true) : Calm group { group with members := members } := by
  have hmem : ∀ id, id ∈ members ↔ id ∈ group.members := fun id => mem_map_iff hm
  have hempty : members = ∅ ↔ group.members = ∅ := by simp only [eq_empty_iff, hmem]
  refine .inr ⟨⟨rfl, rfl, rfl, rfl, fun _ => rfl, fun id hid => ⟨(hmem id).2 hid, fun epoch => ?_⟩, mt hempty.2,
    fun t id member' hl hstale => ?_⟩, fun hready => ?_⟩
  · have hbind : (members.lookup id).bind (·.completedJoin) = (group.members.lookup id).bind (·.completedJoin) := by
      rw [hm]
      cases group.members.lookup id with
      | none => rfl
      | some member => exact (hf id member).2
    rw [completedJoin, completedJoin, hbind]
  · obtain ⟨member, hl₀, rfl⟩ := (lookup_map_eq_some hm).1 hl
    exact ⟨member, hl₀, hs t id member hl₀ hstale⟩
  · obtain ⟨hstate, hne, hjoined⟩ := ready_iff.1 hready
    refine ready_iff.2 ⟨hstate, mt hempty.2 hne, ?_⟩
    intro id member hl
    rw [← (hf id member).1]
    exact hjoined id _ ((lookup_map_eq_some hm).2 ⟨member, hl, rfl⟩)

theorem touch (h : Heard group clock.now) (id : String) : Calm group (touchMember group id clock.now) := by
  refine map (lookup_update_map id) (fun _ _ => by split <;> exact ⟨rfl, rfl⟩) fun t id' member hl hstale => ?_
  split at hstale
  · -- a later heartbeat only puts the member's own deadline off
    have hheard := h id' member hl
    rw [isStale_iff] at hstale ⊢
    refine ⟨hstale.1, hstale.2.imp_right fun ⟨hstable, hsynced, hle⟩ => ⟨hstable, hsynced, ?_⟩⟩
    simp only [memberDeadline] at hle ⊢
    omega
  · exact hstale

/-- A follower's sync mark while the assignments are still to come. -/
theorem mark (hstate : group.state = .completingRebalance) (id : String) :
    Calm group (markSynced group id group.generationId) := by
  refine map (lookup_update_map id) (fun _ _ => by split <;> exact ⟨rfl, rfl⟩) fun t id' member _ hstale => ?_
  split at hstale
  · rw [isStale_iff] at hstale
    simp [Group.isPending, hstate] at hstale
  · exact hstale

theorem remove (group : Group) (ids : List String) (begun : Nat) : Calm group (removeMembers group ids begun) := by
  refine .inl ?_
  rcases removeMembers_cases group ids begun with ⟨-, heq⟩ | ⟨leader, -, -, ⟨-, heq⟩ | ⟨-, heq⟩⟩ <;> rw [heq] <;>
    exact Nat.lt_succ_self _

theorem expire (group : Group) (clock : Clock) (active : Option String) :
    Calm group (expireStaleMembers group clock active) := by
  rcases expireStaleMembers_cases group clock active with h | ⟨ids, -, -, h⟩
  · rw [h]; exact refl group
  · rw [h]; exact remove group ids _

theorem syncStable (group : Group) (generationId : Int) (id : String) :
    Calm group (syncStable group generationId id) := by
  obtain ⟨deadline, heq, -⟩ := clearRebalanceDeadline_eq (markSynced group id generationId)
  refine .inl ?_
  rw [MemKafka.syncStable, heq]
  exact Nat.lt_succ_self _

theorem install (group : Group) (generationId : Int) (id : String) (assignments : List SyncAssignment) (now : Nat) :
    Calm group (installAssignments group generationId id assignments now) := by
  refine .inl ?_
  unfold installAssignments clearRebalanceDeadlineIfAllSynced
  dsimp only
  split <;> exact Nat.lt_succ_self _

theorem commit (group : Group) (offsets : List OffsetCommit) : Calm group (storeOffsets group offsets) :=
  .inr ⟨⟨rfl, rfl, rfl, rfl, fun _ => rfl, fun _ h => ⟨h, fun _ => rfl⟩, id, fun _ _ member hl hs => ⟨member, hl, hs⟩⟩, id⟩

theorem complete (group : Group) (completed : Nat) : Calm group (completeRebalanceIfReady group completed).2 := by
  rcases completeRebalanceIfReady_cases group completed with ⟨out, h, -⟩ | ⟨selected, -, -, h⟩
  · rw [h]; exact refl group
  · rw [h]; exact .inl (Nat.lt_succ_self _)

/-- A join while a rebalance is prepared notifies nobody unless the rebalance is completed by it. -/
theorem add_complete (inv : GroupInv group) (mayAddMember : Bool) {request : JoinRequest} {selected : String}
    (hselect : selectProtocol (prospectiveMembers group request clock.now) = .ok selected) (completed : Nat) :
    Calm group (completeRebalanceIfReady (addMember group mayAddMember request clock) completed).2 := by
  obtain ⟨leader, -, ⟨-, heq⟩ | ⟨deadline, hstate, heq, hd⟩⟩ := addMember_cases group mayAddMember request clock
  · refine trans (.inl ?_) (complete _ completed)
    rw [heq]; exact Nat.lt_succ_self _
  rcases completeRebalanceIfReady_cases (addMember group mayAddMember request clock) completed with
    ⟨out, h, hout⟩ | ⟨_, -, -, h⟩
  rotate_left
  · rw [h, heq]; exact .inl (Nat.lt_succ_self _)
  have hmembers : (addMember group mayAddMember request clock).members = prospectiveMembers group request clock.now := by rw [heq]
  have hready : (addMember group mayAddMember request clock).ready = false := by
    rcases hout with ⟨-, hready⟩ | ⟨error, -, hfail⟩
    · exact hready
    · rw [hmembers, hselect] at hfail; cases hfail
  rw [h]
  refine .inr ⟨?_, fun hr => by rw [hready] at hr; cases hr⟩
  rw [heq]
  refine ⟨rfl, rfl, rfl, rfl, fun hc => (by rw [hstate] at hc; cases hc), fun id hid => ⟨(AList.mem_insert _).2 (.inr hid), fun epoch => ?_⟩,
    fun _ hempty => ?_, fun t id member' hl hstale => ?_⟩
  · rw [completedJoin, completedJoin, prospectiveMembers, lookup_insert_eq]
    split
    · subst id; rfl
    · rfl
  · have := inv.empty_iff.2 hempty
    rw [hstate] at this; cases this
  · obtain ⟨-, ⟨hpending, hreached⟩ | ⟨hstable, -⟩⟩ := isStale_iff.1 hstale
    rotate_left
    · rw [show group.state = .stable from hstable] at hstate; cases hstate
    have hbehind : member'.joinedEpoch ≠ group.rebalanceEpoch := by simpa [Group.isPending, hstate] using hpending
    have hold : group.members.lookup id = some member' := by
      rcases lookup_of_insert hl with ⟨-, rfl⟩ | hl
      · exact absurd (by simp [joiningMember, targetEpoch, hstate]) hbehind
      · exact hl
    refine ⟨member', hold, isStale_iff.2 ⟨by simp, .inl ⟨by simp [Group.isPending, hstate, hbehind], ?_⟩⟩⟩
    obtain ⟨d, hsome⟩ := Option.isSome_iff_exists.1 (inv.deadline (.inl hstate))
    obtain ⟨d', rfl, hle⟩ := hd d hsome
    rw [hsome]
    have : d' ≤ t := by simpa using hreached
    simpa using hle.trans this

end Calm

/-! ### Heartbeats follow the clock -/

/-- The last heartbeat of a member is what it was, or that of this section. -/
def Beats (clock : Clock) (group group' : Group) : Prop :=
  ∀ id member', group'.members.lookup id = some member' → member'.lastHeartbeat = clock.now ∨
    ∃ member, group.members.lookup id = some member ∧ member.lastHeartbeat = member'.lastHeartbeat

namespace Beats
variable {group group' : Group} {clock : Clock}

theorem refl (group : Group) : Beats clock group group := fun _ member hl => .inr ⟨member, hl, rfl⟩

theorem trans {g₁ g₂ g₃ : Group} (h : Beats clock g₁ g₂) (h' : Beats clock g₂ g₃) : Beats clock g₁ g₃ := by
  intro id member hl
  rcases h' id member hl with heq | ⟨member₂, hl₂, heq⟩
  · exact .inl heq
  · rw [← heq]
    exact h id member₂ hl₂

theorem map {f : String → Member → Member}
    (hm : ∀ id, group'.members.lookup id = (group.members.lookup id).map (f id))
    (hf : ∀ id member, (f id member).lastHeartbeat = member.lastHeartbeat ∨ (f id member).lastHeartbeat = clock.now) :
    Beats clock group group' := by
  intro id member' hl
  obtain ⟨member, hl₀, rfl⟩ := (lookup_map_eq_some hm).1 hl
  exact (hf id member).symm.imp_right fun heq => ⟨member, hl₀, heq.symm⟩

theorem remove (ids : List String) (begun : Nat) : Beats clock group (removeMembers group ids begun) := by
  intro id member hl
  rw [removeMembers_members, lookup_eraseAll] at hl
  split at hl
  · cases hl
  · exact .inr ⟨member, hl, rfl⟩

theorem add (mayAddMember : Bool) (request : JoinRequest) :
    Beats clock group (addMember group mayAddMember request clock) := by
  intro id member hl
  rw [addMember_members] at hl
  rcases lookup_of_insert hl with ⟨-, rfl⟩ | hl
  · exact .inl rfl
  · exact .inr ⟨member, hl, rfl⟩

theorem steady (h : Steady clock group group') : Beats clock group group' := by
  cases h with
  | remove ids _ => exact .remove ids _
  | touch id _ => exact .map (lookup_update_map id) fun _ _ => by split <;> simp
  | add mayAddMember request _ => exact .add mayAddMember request
  | mark id _ _ _ => exact .map (lookup_update_map id) fun _ _ => by split <;> simp
  | syncStable id _ _ =>
    obtain ⟨deadline, heq, -⟩ := clearRebalanceDeadline_eq (markSynced group id group.generationId)
    rw [syncStable, heq]
    exact .map (lookup_update_map id) fun _ _ => by split <;> simp
  | commit offsets => exact .refl group

theorem mutation (h : Mutation clock group group') : Beats clock group group' := by
  cases h with
  | steady h => exact .steady h
  | complete _ _ => exact .map (fun _ => lookup_mapVal) fun _ _ => .inl rfl
  | install assignments _ =>
    obtain ⟨members, deadline, heq, hm, -⟩ := installAssignments_eq group assignments clock.now
    rw [heq]
    refine .map hm fun id member => ?_
    unfold installedMember
    dsimp only
    split <;> split <;> simp

theorem of_mutations (h : ReflTransGen (Mutation clock) group group') : Beats clock group group' := by
  induction h with
  | refl => exact .refl group
  | tail _ hm ih => exact ih.trans (.mutation hm)

end Beats

namespace Heard
variable {group group' : Group} {clock : Clock} {now : Nat}

theorem mono {now' : Nat} (h : Heard group now) (hle : now ≤ now') : Heard group now' :=
  fun id member hl => (h id member hl).trans hle

theorem of_mutations (h : Heard group clock.now) (path : ReflTransGen (Mutation clock) group group') :
    Heard group' clock.now := by
  intro id member' hl
  rcases Beats.of_mutations path id member' hl with heq | ⟨member, hl₀, heq⟩
  · exact le_of_eq heq
  · rw [← heq]
    exact h id member hl₀

theorem of_path (h : Heard group clock.now) (path : ReflTransGen (Steady clock) group group') :
    Heard group' clock.now :=
  h.of_mutations (ReflTransGen.mono (fun _ _ step => Mutation.steady step) _ _ path)

theorem of_section {op : GroupOp} (h : Heard group clock.now) (hs : Section clock op group group') :
    Heard group' clock.now :=
  h.of_mutations hs.mutations

end Heard

/-! ### Every section is calm -/

section
variable {group : Group} {clock : Clock}

theorem enter_calm (inv : GroupInv group) (heard : Heard group clock.now) (mayAddMember : Bool)
    (request : JoinRequest) :
    Calm group (enter group clock mayAddMember request).2 := by
  have hexp := expireStaleMembers_steady group clock none
  have hcalm := Calm.expire group clock none
  obtain ⟨body, rfl, ⟨error, h⟩ | ⟨result, -, h⟩ | ⟨selected, after, out, hs, hcomplete, h⟩⟩ :=
    enter_cases group clock mayAddMember request
  · rw [h]; exact hcalm
  · rw [h]; exact hcalm.trans (.touch (heard.of_path hexp) _)
  · have := hcalm.trans (.add_complete (inv.of_path hexp) mayAddMember hs clock.completed)
    rw [hcomplete] at this
    rcases h with ⟨error, -, h⟩ | ⟨-, h⟩ <;> rw [h] <;> exact this

theorem wait_calm (group : Group) (clock : Clock) (memberId : String) (target : Nat) :
    Calm group (wait group clock memberId target).2 := by
  rcases wait_cases group clock memberId target with ⟨result, -, h⟩ | ⟨error, h⟩ | ⟨after, out, -, -, -, hcomplete, h⟩
  · rw [h]; exact .refl group
  · rw [h]; exact .refl group
  · have := (Calm.expire group clock (some memberId)).trans (.complete _ clock.completed)
    rw [hcomplete] at this
    rcases h with ⟨error, -, h⟩ | ⟨result, -, h⟩ | ⟨-, -, h⟩ <;> rw [h] <;> exact this

theorem sync_calm (heard : Heard group clock.now) (generationId : Int) (memberId : String)
    (assignments : List SyncAssignment)
    (refresh : Bool) : Calm group (sync group clock generationId memberId assignments refresh).2 := by
  have hexp := expireStaleMembers_steady group clock (if refresh then none else some memberId)
  have hcalm := Calm.expire group clock (if refresh then none else some memberId)
  obtain ⟨body, rfl, ⟨error, -, h⟩ | ⟨touched, htouched, hmem, hgen, h⟩⟩ :=
    sync_cases group clock generationId memberId assignments refresh
  · rw [h]; exact hcalm
  obtain ⟨-, -, hgen'⟩ := touched_steady htouched hmem
  obtain rfl : touched.generationId = generationId := hgen'.trans hgen
  have htouch : Calm group touched := by
    subst htouched
    cases refresh with
    | true => exact hcalm.trans (.touch (heard.of_path hexp) memberId)
    | false => exact hcalm
  rcases h with ⟨-, h⟩ | ⟨-, h⟩ | ⟨-, -, -, h⟩ | ⟨-, -, -, h⟩ | ⟨hstate, -, h⟩ <;> rw [h]
  · exact htouch.trans (.syncStable ..)
  · exact htouch
  · exact htouch
  · exact htouch.trans (.install ..)
  · exact htouch.trans (.mark hstate memberId)

theorem run_calm (inv : GroupInv group) (heard : Heard group clock.now) (op : GroupOp) :
    Calm group (op.run group clock).2 := by
  have hexp := expireStaleMembers_steady group clock none
  have hcalm := Calm.expire group clock none
  have hheard : Heard (expireStaleMembers group clock none) clock.now := heard.of_path hexp
  cases op with
  | enter mayAddMember request => exact enter_calm inv heard mayAddMember request
  | wait memberId target => exact wait_calm ..
  | sync generationId memberId assignments refresh => exact sync_calm heard ..
  | heartbeat generationId memberId =>
    simp only [GroupOp.run, heartbeat]
    split
    · exact hcalm
    · split <;> exact hcalm.trans (.touch hheard memberId)
  | leave memberId =>
    simp only [GroupOp.run, leave]
    split
    · exact hcalm
    · have := (hcalm.trans (.remove _ [memberId] clock.begun)).trans (.complete _ clock.completed)
      split <;> rename_i heq <;> rwa [heq] at this
  | commitOffsets generationId memberId offsets =>
    simp only [GroupOp.run, commitOffsets]
    split
    · exact hcalm
    split
    · exact hcalm
    · exact hcalm.trans (.commit _ offsets)
  | describe groupId => exact hcalm
  | drive => exact hcalm.trans (.complete _ clock.completed)

end

end MemKafka
