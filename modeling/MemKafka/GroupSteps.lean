import MemKafka.GroupSections

/-!
# The mutations under a group's lock

Every section is a chain of a few mutations. `Steady` are those that leave the generation alone; a
section makes any number of them and then at most one of the other two, the completion of a rebalance
or the installation of the leader's assignments (`run_section`). Invariants of groups are proved one
mutation at a time.
-/

namespace MemKafka
open Kit Relation

/-- A leader's assignments that are accepted. -/
structure Installs (group : Group) (assignments : List SyncAssignment) : Prop where
  completing : group.state = .completingRebalance
  leader : group.leaderMemberId ∈ group.members
  names : namesEveryMember group assignments = true

inductive Steady (clock : Clock) : Group → Group → Prop
  | remove (group : Group) (ids : List String) (present : ∃ id ∈ ids, id ∈ group.members) :
      Steady clock group (removeMembers group ids clock.begun)
  | touch (group : Group) (id : String) (present : id ∈ group.members) : Steady clock group (touchMember group id clock.now)
  | add (group : Group) (mayAddMember : Bool) (request : JoinRequest) {selected : String}
      (select : selectProtocol (prospectiveMembers group request clock.now) = .ok selected) :
      Steady clock group (addMember group mayAddMember request clock)
  | mark (group : Group) (id : String) (present : id ∈ group.members) (state : group.state = .completingRebalance)
      (follower : id ≠ group.leaderMemberId) : Steady clock group (markSynced group id group.generationId)
  | syncStable (group : Group) (id : String) (present : id ∈ group.members) (state : group.state = .stable) :
      Steady clock group (syncStable group group.generationId id)
  | commit (group : Group) (offsets : List OffsetCommit) : Steady clock group (storeOffsets group offsets)

/-- Every mutation of a section. -/
inductive Mutation (clock : Clock) : Group → Group → Prop
  | steady {group group' : Group} (h : Steady clock group group') : Mutation clock group group'
  | complete (group : Group) {selected : String} (ready : group.ready = true)
      (select : selectProtocol group.members = .ok selected) :
      Mutation clock group (completeRebalance group selected clock.completed)
  | install (group : Group) (assignments : List SyncAssignment) (h : Installs group assignments) :
      Mutation clock group
        (installAssignments group group.generationId group.leaderMemberId assignments clock.now)

inductive Section (clock : Clock) (op : GroupOp) (group : Group) : Group → Prop
  | steady {body : Group} (path : ReflTransGen (Steady clock) group body) : Section clock op group body
  | completes {body : Group} (path : ReflTransGen (Steady clock) group body) {selected : String} (ready : body.ready = true)
      (select : selectProtocol body.members = .ok selected) :
      Section clock op group (completeRebalance body selected clock.completed)
  | installs {body : Group} (path : ReflTransGen (Steady clock) group body) (assignments : List SyncAssignment) (refresh : Bool)
      (h : Installs body assignments) (hop : op = .sync body.generationId body.leaderMemberId assignments refresh) :
      Section clock op group
        (installAssignments body body.generationId body.leaderMemberId assignments clock.now)

theorem Section.mutations {clock : Clock} {op : GroupOp} {group group' : Group} (h : Section clock op group group') :
    ReflTransGen (Mutation clock) group group' := by
  have lift : ∀ {a b}, ReflTransGen (Steady clock) a b → ReflTransGen (Mutation clock) a b := by
    intro a b h
    exact ReflTransGen.mono (fun _ _ h => Mutation.steady h) _ _ h
  cases h with
  | steady path => exact lift path
  | completes path ready select => exact (lift path).tail (.complete _ ready select)
  | installs path assignments refresh h hop => exact (lift path).tail (.install _ assignments h)

/-! ### What each function can do -/

section
variable {group : Group} {clock : Clock}

theorem mem_staleMembers {now : Nat} {active : Option String} {id : String} :
    id ∈ staleMembers group now active ↔
      ∃ member, group.members.lookup id = some member ∧ group.isStale now active id member = true := by
  simp only [staleMembers, List.mem_map, List.mem_filter]
  constructor
  · rintro ⟨e, ⟨he, hs⟩, rfl⟩; exact ⟨e.2, lookup_eq_some_iff.2 he, hs⟩
  · rintro ⟨member, hl, hs⟩; exact ⟨⟨id, member⟩, ⟨lookup_eq_some_iff.1 hl, hs⟩, rfl⟩

/-- An expiry pass does nothing or removes members that are there. -/
theorem expireStaleMembers_cases (group : Group) (clock : Clock) (active : Option String) :
    expireStaleMembers group clock active = group ∨
    ∃ ids, (∃ id ∈ ids, id ∈ group.members) ∧ (∀ id ∈ ids, active ≠ some id) ∧
      expireStaleMembers group clock active = removeMembers group ids clock.begun := by
  unfold expireStaleMembers
  by_cases h : staleMembers group clock.now active = []
  · exact .inl (if_pos h)
  · refine .inr ⟨_, ?_, ?_, if_neg h⟩
    · obtain ⟨id, hid⟩ := List.exists_mem_of_ne_nil _ h
      obtain ⟨member, hl, -⟩ := mem_staleMembers.1 hid
      exact ⟨id, hid, mem_iff_lookup.2 ⟨member, hl⟩⟩
    · intro id hid hactive
      obtain ⟨member, -, hs⟩ := mem_staleMembers.1 hid
      simp [Group.isStale, hactive] at hs

theorem expireStaleMembers_steady (group : Group) (clock : Clock) (active : Option String) :
    ReflTransGen (Steady clock) group (expireStaleMembers group clock active) := by
  rcases expireStaleMembers_cases group clock active with h | ⟨ids, hids, -, h⟩
  · rw [h]
  · rw [h]; exact .single (.remove group ids hids)

theorem completeRebalanceIfReady_cases (group : Group) (completed : Nat) :
    (∃ out, completeRebalanceIfReady group completed = (out, group) ∧
      (out = .ok false ∧ group.ready = false ∨ ∃ error, out = .error error ∧ selectProtocol group.members = .error error)) ∨
    ∃ selected, group.ready = true ∧ selectProtocol group.members = .ok selected ∧
      completeRebalanceIfReady group completed = (.ok true, completeRebalance group selected completed) := by
  unfold completeRebalanceIfReady
  by_cases hr : group.ready = false
  · exact .inl ⟨_, if_pos hr, .inl ⟨rfl, hr⟩⟩
  · rw [if_neg hr]
    cases hs : selectProtocol group.members with
    | error error => exact .inl ⟨_, rfl, .inr ⟨error, rfl, rfl⟩⟩
    | ok selected => exact .inr ⟨selected, by simpa using hr, rfl, rfl⟩

theorem section_complete (op : GroupOp) {body : Group} (path : ReflTransGen (Steady clock) group body) :
    Section clock op group (completeRebalanceIfReady body clock.completed).2 := by
  rcases completeRebalanceIfReady_cases body clock.completed with ⟨out, h, -⟩ | ⟨selected, hr, hs, h⟩
  · rw [h]; exact .steady path
  · rw [h]; exact .completes path hr hs

theorem validate_ok {generationId : Int} {memberId : String}
    (h : validateMemberAndGeneration group generationId memberId = .ok ()) :
    memberId ∈ group.members ∧ group.generationId = generationId := by
  unfold validateMemberAndGeneration at h
  split at h
  · cases h
  split at h
  · cases h
  · exact ⟨not_not.1 ‹_›, not_not.1 ‹_›⟩

theorem cachedJoin_eq_some {request : JoinRequest} {result : JoinedGroup} (h : cachedJoin group request = some result) :
    (group.state = .completingRebalance ∨ group.state = .stable) ∧
      ∃ member, group.members.lookup request.memberId = some member ∧
        member.completedJoin = some ⟨group.rebalanceEpoch, result⟩ := by
  unfold cachedJoin at h
  dsimp only at h
  split at h
  · rename_i hreuse
    simp only [Option.map_eq_some_iff, Option.filter_eq_some_iff, Option.bind_eq_some_iff, decide_eq_true_eq] at h
    obtain ⟨⟨epoch, result'⟩, ⟨⟨member, ⟨hl, -⟩, hj⟩, hepoch⟩, rfl⟩ := h
    obtain rfl : epoch = group.rebalanceEpoch := hepoch
    exact ⟨hreuse.imp_right And.left, member, hl, hj⟩
  · cases h

theorem completedJoin_eq_some {memberId : String} {epoch : Nat} {result : JoinedGroup} :
    completedJoin group memberId epoch = some result ↔
      ∃ member, group.members.lookup memberId = some member ∧ member.completedJoin = some ⟨epoch, result⟩ := by
  simp only [completedJoin, Option.map_eq_some_iff, Option.filter_eq_some_iff, Option.bind_eq_some_iff,
    decide_eq_true_eq]
  constructor
  · rintro ⟨⟨epoch', result'⟩, ⟨⟨member, hl, hj⟩, rfl⟩, rfl⟩; exact ⟨member, hl, hj⟩
  · rintro ⟨member, hl, hj⟩; exact ⟨⟨epoch, result⟩, ⟨⟨member, hl, hj⟩, rfl⟩, rfl⟩

/-! ### The sections -/

/-- The ways out of `enter`: refused, answered from a completed join, or joined. -/
theorem enter_cases (group : Group) (clock : Clock) (mayAddMember : Bool) (request : JoinRequest) :
    ∃ body, expireStaleMembers group clock none = body ∧
      ((∃ error, enter group clock mayAddMember request = (.failed error, body)) ∨
      (∃ result, cachedJoin body request = some result ∧
        enter group clock mayAddMember request = (.joined result, touchMember body request.memberId clock.now)) ∨
      ∃ selected after out, selectProtocol (prospectiveMembers body request clock.now) = .ok selected ∧
        completeRebalanceIfReady (addMember body mayAddMember request clock) clock.completed = (out, after) ∧
        ((∃ error, out = .error error ∧ enter group clock mayAddMember request = (.failed error, after)) ∨
          (∃ b, out = .ok b) ∧ enter group clock mayAddMember request = (.waiting (targetEpoch body), after))) := by
  refine ⟨_, rfl, ?_⟩
  unfold enter
  generalize expireStaleMembers group clock none = body
  dsimp only
  split
  · exact .inl ⟨_, rfl⟩
  split
  · exact .inl ⟨_, rfl⟩
  split
  · exact .inr (.inl ⟨_, ‹_›, rfl⟩)
  split
  · exact .inl ⟨_, rfl⟩
  rename_i selected hs
  rcases hcomplete : completeRebalanceIfReady (addMember body mayAddMember request clock) clock.completed with ⟨out, after⟩
  refine .inr (.inr ⟨selected, after, out, hs, rfl, ?_⟩)
  cases out with
  | error error => exact .inl ⟨error, rfl, rfl⟩
  | ok b => exact .inr ⟨⟨b, rfl⟩, rfl⟩

/-- The ways out of a pass of the loop of `join`. -/
theorem wait_cases (group : Group) (clock : Clock) (memberId : String) (target : Nat) :
    (∃ result, completedJoin group memberId target = some result ∧
      wait group clock memberId target = (.joined result, group)) ∨
    (∃ error, wait group clock memberId target = (.failed error, group)) ∨
    ∃ after out, completedJoin group memberId target = none ∧ memberId ∈ group.members ∧ group.rebalanceEpoch = target ∧
      completeRebalanceIfReady (expireStaleMembers group clock (some memberId)) clock.completed = (out, after) ∧
      ((∃ error, out = .error error ∧ wait group clock memberId target = (.failed error, after)) ∨
      (∃ result, completedJoin after memberId target = some result ∧ wait group clock memberId target = (.joined result, after)) ∨
      (∃ b, out = .ok b) ∧ completedJoin after memberId target = none ∧ wait group clock memberId target =
        (.parked ⟨after.change, nextExpiryDeadline after (some memberId)⟩, after)) := by
  unfold wait
  split
  · exact .inl ⟨_, ‹_›, rfl⟩
  rename_i hnone
  split
  · exact .inr (.inl ⟨_, rfl⟩)
  split
  · exact .inr (.inl ⟨_, rfl⟩)
  rename_i hmem hepoch
  rcases hcomplete : completeRebalanceIfReady (expireStaleMembers group clock (some memberId)) clock.completed with ⟨out, after⟩
  refine .inr (.inr ⟨after, out, hnone, not_not.1 hmem, not_not.1 hepoch, rfl, ?_⟩)
  cases out with
  | error error => exact .inl ⟨error, rfl, rfl⟩
  | ok b =>
    dsimp only
    cases hfound : completedJoin after memberId target with
    | some result => exact .inr (.inl ⟨result, rfl, rfl⟩)
    | none => exact .inr (.inr ⟨⟨b, rfl⟩, rfl, rfl⟩)

/-- The ways out of a pass of the loop of `sync`. -/
theorem sync_cases (group : Group) (clock : Clock) (generationId : Int) (memberId : String)
    (assignments : List SyncAssignment) (refresh : Bool) :
    ∃ body, expireStaleMembers group clock (if refresh then none else some memberId) = body ∧
      ((∃ error, validateMemberAndGeneration body generationId memberId = .error error ∧
        sync group clock generationId memberId assignments refresh = (.failed error, body)) ∨
      ∃ touched, (if refresh then touchMember body memberId clock.now else body) = touched ∧ memberId ∈ body.members ∧
        body.generationId = generationId ∧
        ((touched.state = .stable ∧ sync group clock generationId memberId assignments refresh =
          (ownAssignment (syncStable touched generationId memberId) memberId, syncStable touched generationId memberId)) ∨
        (¬ (touched.state = .completingRebalance ∨ touched.state = .stable) ∧
          sync group clock generationId memberId assignments refresh = (.failed .rebalanceInProgress, touched)) ∨
        (touched.state = .completingRebalance ∧ memberId = touched.leaderMemberId ∧
          namesEveryMember touched assignments = false ∧
          sync group clock generationId memberId assignments refresh = (.failed .invalidAssignment, touched)) ∨
        (touched.state = .completingRebalance ∧ memberId = touched.leaderMemberId ∧
          namesEveryMember touched assignments = true ∧
          sync group clock generationId memberId assignments refresh =
            (ownAssignment (installAssignments touched generationId memberId assignments clock.now) memberId,
              installAssignments touched generationId memberId assignments clock.now)) ∨
        (touched.state = .completingRebalance ∧ memberId ≠ touched.leaderMemberId ∧
          sync group clock generationId memberId assignments refresh =
            (.parked ⟨(markSynced touched memberId generationId).change,
              nextExpiryDeadline (markSynced touched memberId generationId) (some memberId)⟩,
              markSynced touched memberId generationId)))) := by
  refine ⟨_, rfl, ?_⟩
  unfold sync
  generalize expireStaleMembers group clock (if refresh then none else some memberId) = body
  dsimp only
  split
  · exact .inl ⟨_, ‹_›, rfl⟩
  rename_i hvalid
  obtain ⟨hmem, hgen⟩ := validate_ok hvalid
  refine .inr ⟨_, rfl, hmem, hgen, ?_⟩
  generalize (if refresh then touchMember body memberId clock.now else body) = touched
  cases hstate : touched.state with
  | stable => exact .inl ⟨rfl, rfl⟩
  | preparingRebalance => exact .inr (.inl ⟨by simp, rfl⟩)
  | empty => exact .inr (.inl ⟨by simp, rfl⟩)
  | completingRebalance =>
    refine .inr (.inr ?_)
    dsimp only
    by_cases hleader : memberId = touched.leaderMemberId
    · cases hnames : namesEveryMember touched assignments with
      | false => exact .inl ⟨rfl, hleader, rfl, by rw [if_pos hleader, if_pos rfl]⟩
      | true => exact .inr (.inl ⟨rfl, hleader, rfl, by rw [if_pos hleader, if_neg (by decide)]⟩)
    · exact .inr (.inr ⟨rfl, hleader, by rw [if_neg hleader]⟩)

/-- The group after the first lines of `sync`. -/
theorem touched_steady {body touched : Group} {memberId : String} {refresh : Bool}
    (h : (if refresh then touchMember body memberId clock.now else body) = touched) (hmem : memberId ∈ body.members) :
    ReflTransGen (Steady clock) body touched ∧ memberId ∈ touched.members ∧
    touched.generationId = body.generationId := by
  subst h
  split
  · exact ⟨.single (.touch _ _ hmem), mem_update.2 hmem, rfl⟩
  · exact ⟨.refl, hmem, rfl⟩

theorem enter_section (op : GroupOp) (group : Group) (clock : Clock) (mayAddMember : Bool) (request : JoinRequest) :
    Section clock op group (enter group clock mayAddMember request).2 := by
  have hexp := expireStaleMembers_steady group clock none
  obtain ⟨body, rfl, ⟨error, h⟩ | ⟨result, hcached, h⟩ | ⟨selected, after, out, hs, hcomplete, h⟩⟩ :=
    enter_cases group clock mayAddMember request
  · rw [h]; exact .steady hexp
  · obtain ⟨-, member, hl, -⟩ := cachedJoin_eq_some hcached
    rw [h]; exact .steady (hexp.tail (.touch _ _ (mem_iff_lookup.2 ⟨member, hl⟩)))
  · have := section_complete op (hexp.tail (.add _ mayAddMember request hs))
    rw [hcomplete] at this
    rcases h with ⟨error, -, h⟩ | ⟨-, h⟩ <;> rw [h] <;> exact this

theorem wait_section (op : GroupOp) (group : Group) (clock : Clock) (memberId : String) (target : Nat) :
    Section clock op group (wait group clock memberId target).2 := by
  rcases wait_cases group clock memberId target with ⟨result, -, h⟩ | ⟨error, h⟩ | ⟨after, out, -, -, -, hcomplete, h⟩
  · rw [h]; exact .steady .refl
  · rw [h]; exact .steady .refl
  · have := section_complete op (expireStaleMembers_steady group clock (some memberId))
    rw [hcomplete] at this
    rcases h with ⟨error, -, h⟩ | ⟨result, -, h⟩ | ⟨-, -, h⟩ <;> rw [h] <;> exact this

theorem sync_section (group : Group) (clock : Clock) (generationId : Int) (memberId : String)
    (assignments : List SyncAssignment) (refresh : Bool) :
    Section clock (.sync generationId memberId assignments refresh) group
      (sync group clock generationId memberId assignments refresh).2 := by
  have hexp := expireStaleMembers_steady group clock (if refresh then none else some memberId)
  obtain ⟨body, rfl, ⟨error, -, h⟩ | ⟨touched, htouched, hmem, hgen, h⟩⟩ :=
    sync_cases group clock generationId memberId assignments refresh
  · rw [h]; exact .steady hexp
  obtain ⟨hsteady, hmem', hgen'⟩ := touched_steady htouched hmem
  have hpath := hexp.trans hsteady
  obtain rfl : touched.generationId = generationId := hgen'.trans hgen
  rcases h with ⟨hstate, h⟩ | ⟨-, h⟩ | ⟨-, -, -, h⟩ | ⟨hstate, rfl, hnames, h⟩ | ⟨hstate, hfollower, h⟩
  · rw [h]; exact .steady (hpath.tail (.syncStable _ _ hmem' hstate))
  · rw [h]; exact .steady hpath
  · rw [h]; exact .steady hpath
  · rw [h]; exact .installs hpath assignments refresh ⟨hstate, hmem', hnames⟩ rfl
  · rw [h]; exact .steady (hpath.tail (.mark _ _ hmem' hstate hfollower))

theorem leave_section (op : GroupOp) (group : Group) (clock : Clock) (memberId : String) :
    Section clock op group (leave group clock memberId).2 := by
  have hexp := expireStaleMembers_steady group clock none
  unfold leave
  dsimp only
  split
  · exact .steady hexp
  rename_i hmem
  have := section_complete op (hexp.tail (.remove _ [memberId] ⟨memberId, by simp, not_not.1 hmem⟩))
  split <;> rename_i heq <;> rwa [heq] at this

/-- Every section is a chain of steady mutations and at most one completion or installation. -/
theorem run_section (op : GroupOp) (group : Group) (clock : Clock) : Section clock op group (op.run group clock).2 := by
  cases op with
  | enter mayAddMember request => exact enter_section ..
  | wait memberId targetEpoch => exact wait_section ..
  | sync generationId memberId assignments refresh => exact sync_section ..
  | heartbeat generationId memberId =>
    have hexp := expireStaleMembers_steady group clock none
    simp only [GroupOp.run, heartbeat]
    split
    · exact .steady hexp
    rename_i hvalid
    have htouch := hexp.tail (.touch _ _ (validate_ok hvalid).1)
    split <;> exact .steady htouch
  | leave memberId => exact leave_section ..
  | commitOffsets generationId memberId offsets =>
    have hexp := expireStaleMembers_steady group clock none
    simp only [GroupOp.run, commitOffsets]
    split
    · exact .steady hexp
    split
    · exact .steady hexp
    · exact .steady (hexp.tail (.commit _ offsets))
  | describe groupId => exact .steady (expireStaleMembers_steady group clock none)
  | drive => exact section_complete .drive (expireStaleMembers_steady group clock none)

end

end MemKafka
