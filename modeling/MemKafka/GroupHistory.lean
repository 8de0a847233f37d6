import MemKafka.GroupInv

/-!
# The history of a group

What the sections of a group leave behind in it. The generations of a group are told apart by the
sections that completed them: `completionOf` finds the group as such a section left it, its members
being the cohort of the generation, and `submissionOf` the assignments that made it stable. `History`
ties every completed join, every cohort and every installed assignment of the current group to them.
-/

namespace MemKafka
open Kit Relation

abbrev GroupEvent := Event TimedGroup (GroupOp × Clock) GroupReply

/-- The group as the section that completed this generation left it. -/
def completionOf (generationId : Int) (tr : List GroupEvent) : Option Group :=
  tr.findSome? fun e =>
    if e.pre.group.generationId ≠ generationId ∧ e.post.group.generationId = generationId then some e.post.group else none

/-- The member and the assignments of the sync that made this generation stable. -/
def submissionOf (generationId : Int) (tr : List GroupEvent) : Option (String × List SyncAssignment) :=
  tr.findSome? fun e => match e.label.1 with
    | .sync generationId' memberId assignments _ =>
      if generationId' = generationId ∧ e.pre.group.state ≠ .stable ∧
      e.post.group.state = .stable then some (memberId, assignments)
      else none
    | _ => none

/-! ### What steady mutations carry over -/

def Group.completed (group : Group) : Prop := group.state = .completingRebalance ∨ group.state = .stable

/-- The two groups have the same members, leader and protocol. -/
structure SameCohort (group group' : Group) : Prop where
  members : ∀ id, id ∈ group'.members ↔ id ∈ group.members
  leader : group'.leaderMemberId = group.leaderMemberId
  protocolType : group'.protocolType = group.protocolType
  selectedProtocol : group'.selectedProtocol = group.selectedProtocol

theorem SameCohort.refl (group : Group) : SameCohort group group := ⟨fun _ => Iff.rfl, rfl, rfl, rfl⟩

theorem SameCohort.trans {g₁ g₂ g₃ : Group} (h : SameCohort g₁ g₂) (h' : SameCohort g₂ g₃) : SameCohort g₁ g₃ :=
  ⟨fun id => (h'.members id).trans (h.members id), h'.leader.trans h.leader, h'.protocolType.trans h.protocolType,
    h'.selectedProtocol.trans h.selectedProtocol⟩

structure Carries (group group' : Group) : Prop where
  generation : group'.generationId = group.generationId
  epoch : group.rebalanceEpoch ≤ group'.rebalanceEpoch
  joins : ∀ id member' completed, group'.members.lookup id = some member' → member'.completedJoin = some completed →
    ∃ member, group.members.lookup id = some member ∧ member.completedJoin = some completed
  cohort : group'.completed → group.state = group'.state ∧ group'.rebalanceEpoch = group.rebalanceEpoch ∧
    SameCohort group group'
  assignments : group'.state = .stable → group'.assignments = group.assignments

namespace Carries
variable {group group' : Group} {clock : Clock}

theorem refl (group : Group) : Carries group group :=
  ⟨rfl, le_rfl, fun _ member _ hl hj => ⟨member, hl, hj⟩, fun _ => ⟨rfl, rfl, .refl group⟩, fun _ => rfl⟩

theorem trans {g₁ g₂ g₃ : Group} (h : Carries g₁ g₂) (h' : Carries g₂ g₃) : Carries g₁ g₃ where
  generation := h'.generation.trans h.generation
  epoch := h.epoch.trans h'.epoch
  joins id member' completed hl hj := by
    obtain ⟨member, hl, hj⟩ := h'.joins id member' completed hl hj
    exact h.joins id member completed hl hj
  cohort hc := by
    obtain ⟨hs', he', hc'⟩ := h'.cohort hc
    obtain ⟨hs, he, hc⟩ := h.cohort (by rw [Group.completed, hs']; exact hc)
    exact ⟨hs.trans hs', he'.trans he, hc.trans hc'⟩
  assignments hs := by
    have hs' := (h'.cohort (.inr hs)).1.trans hs
    exact (h'.assignments hs).trans (h.assignments hs')

theorem le_nextEpoch (epoch : Nat) : epoch ≤ nextEpoch epoch := by
  unfold nextEpoch; split <;> omega

/-- A mutation after which no generation is complete. -/
theorem of_incomplete (hgen : group'.generationId = group.generationId)
    (hepoch : group.rebalanceEpoch ≤ group'.rebalanceEpoch)
    (hjoins : ∀ id member' completed, group'.members.lookup id = some member' → member'.completedJoin = some completed →
      ∃ member, group.members.lookup id = some member ∧ member.completedJoin = some completed)
    (hstate : ¬ group'.completed) : Carries group group' :=
  ⟨hgen, hepoch, hjoins, fun h => absurd h hstate, fun h => absurd (.inr h) hstate⟩

/-- A mutation that rewrites members but not their completed joins. -/
theorem of_map {f : String → Member → Member}
    (hm : ∀ id, group'.members.lookup id = (group.members.lookup id).map (f id))
    (hf : ∀ id member, (f id member).completedJoin = member.completedJoin)
    (hgen : group'.generationId = group.generationId)
    (hepoch : group'.rebalanceEpoch = group.rebalanceEpoch) (hstate : group'.state = group.state)
    (hleader : group'.leaderMemberId = group.leaderMemberId) (htype : group'.protocolType = group.protocolType)
    (hselected : group'.selectedProtocol = group.selectedProtocol) (hassign : group'.assignments = group.assignments) :
    Carries group group' where
  generation := hgen
  epoch := le_of_eq hepoch.symm
  joins id member' completed hl hj := by
    obtain ⟨member, hl₀, rfl⟩ := (lookup_map_eq_some hm).1 hl
    exact ⟨member, hl₀, by rw [← hf id]; exact hj⟩
  cohort _ := ⟨hstate.symm, hepoch, fun _ => mem_map_iff hm, hleader, htype, hselected⟩
  assignments _ := hassign

theorem remove (ids : List String) (begun : Nat) : Carries group (removeMembers group ids begun) := by
  have hjoins : ∀ id member' completed, (eraseAll group.members ids).lookup id = some member' →
      member'.completedJoin = some completed →
      ∃ member, group.members.lookup id = some member ∧ member.completedJoin = some completed := by
    intro id member' completed hl hj
    rw [lookup_eraseAll] at hl
    split at hl
    · cases hl
    · exact ⟨member', hl, hj⟩
  rcases removeMembers_cases group ids begun with ⟨-, heq⟩ | ⟨leader, -, -, ⟨-, heq⟩ | ⟨hstate, heq⟩⟩
  · rw [heq]
    exact of_incomplete rfl le_rfl (fun _ _ _ hl => by cases hl) (by rintro (h | h) <;> cases h)
  · rw [heq]
    exact of_incomplete rfl (le_nextEpoch _) hjoins (by rintro (h | h) <;> cases h)
  · rw [heq]
    exact of_incomplete rfl le_rfl hjoins (by simp [Group.completed, hstate])

theorem add (mayAddMember : Bool) (request : JoinRequest) :
    Carries group (addMember group mayAddMember request clock) := by
  have hjoins : ∀ id member' completed, (prospectiveMembers group request clock.now).lookup id = some member' →
      member'.completedJoin = some completed →
      ∃ member, group.members.lookup id = some member ∧ member.completedJoin = some completed := by
    intro id member' completed hl hj
    rcases lookup_of_insert hl with ⟨rfl, rfl⟩ | hl
    · obtain ⟨prior, hp, hc⟩ := Option.bind_eq_some_iff.1 hj
      exact ⟨prior, hp, hc⟩
    · exact ⟨member', hl, hj⟩
  obtain ⟨leader, -, ⟨-, heq⟩ | ⟨deadline, hstate, heq, -⟩⟩ := addMember_cases group mayAddMember request clock
  · rw [heq]
    exact of_incomplete rfl (le_nextEpoch _) hjoins (by rintro (h | h) <;> cases h)
  · rw [heq]
    exact of_incomplete rfl le_rfl hjoins (by simp [Group.completed, hstate])

theorem of_steady (h : Steady clock group group') : Carries group group' := by
  cases h with
  | remove ids _ => exact remove ids _
  | touch id _ =>
    exact of_map (lookup_update_map id) (fun _ _ => by split <;> rfl) rfl rfl rfl rfl rfl rfl rfl
  | add mayAddMember request _ => exact add mayAddMember request
  | mark id _ _ _ =>
    exact of_map (lookup_update_map id) (fun _ _ => by split <;> rfl) rfl rfl rfl rfl rfl rfl rfl
  | syncStable id _ _ =>
    obtain ⟨deadline, heq, -⟩ := clearRebalanceDeadline_eq (markSynced group id group.generationId)
    simp only [syncStable, heq]
    exact of_map (lookup_update_map id) (fun _ _ => by split <;> rfl) rfl rfl rfl rfl rfl rfl rfl
  | commit offsets =>
    exact ⟨rfl, le_rfl, fun _ member _ hl hj => ⟨member, hl, hj⟩, fun _ => ⟨rfl, rfl, fun _ => Iff.rfl, rfl, rfl, rfl⟩, fun _ => rfl⟩

theorem of_path (h : ReflTransGen (Steady clock) group group') : Carries group group' := by
  induction h with
  | refl => exact .refl group
  | tail _ hstep ih => exact ih.trans (.of_steady hstep)

end Carries

/-! ### Completions and installations -/

/-- `result` is what the completion that left `cohort` gives to member `id`. -/
structure Agrees (cohort : Group) (id : String) (result : JoinedGroup) : Prop where
  memberId : result.memberId = id
  mem : id ∈ cohort.members
  leader : result.leader = cohort.leaderMemberId
  protocolType : result.protocolType = cohort.protocolType
  protocolName : result.protocolName = cohort.selectedProtocol
  members : result.members = if id = cohort.leaderMemberId then membersForLeader cohort else []

/-- The group as a completion leaves it. -/
structure IsCohort (cohort : Group) : Prop where
  leader : cohort.leaderMemberId ∈ cohort.members
  advertised : ∀ id member, cohort.members.lookup id = some member → member.advertises cohort.selectedProtocol = true

section
variable {group : Group} {selected : String}

theorem membersForLeader_complete (group : Group) (selected : String) (completed : Nat) :
    membersForLeader (completeRebalance group selected completed) =
      membersForLeader { group with selectedProtocol := selected } := by
  simp only [membersForLeader, completeRebalance, mapVal, List.filterMap_map, Function.comp_def]

theorem complete_agrees (completed : Nat) {id : String} {member : Member} {join : CompletedJoin}
    (hl : (completeRebalance group selected completed).members.lookup id = some member)
    (hj : member.completedJoin = some join) :
    join.result.generationId = nextGeneration group.generationId ∧
      Agrees (completeRebalance group selected completed) id join.result := by
  obtain ⟨member₀, hl₀, rfl⟩ := (lookup_map_eq_some (lookup_completeRebalance group selected completed)).1 hl
  obtain rfl := Option.some.inj hj
  refine ⟨rfl, rfl, mem_mapVal.2 (mem_iff_lookup.2 ⟨member₀, hl₀⟩), rfl, rfl, rfl, ?_⟩
  rw [membersForLeader_complete]
  rfl

theorem complete_isCohort (h : GroupInv group) (hready : group.ready = true)
    (hselect : selectProtocol group.members = .ok selected) (completed : Nat) :
    IsCohort (completeRebalance group selected completed) where
  leader := mem_mapVal.2 (h.leader (ready_iff.1 hready).2.1)
  advertised id member hl := by
    obtain ⟨member₀, hl₀, rfl⟩ := (lookup_map_eq_some (lookup_completeRebalance group selected completed)).1 hl
    exact (selectProtocol_ok hselect).2 id member₀ hl₀

end

/-! ### The history invariant -/

theorem completionOf_snoc (g : Int) (tr : List GroupEvent) (e : GroupEvent) :
    completionOf g (tr ++ [e]) = (completionOf g tr).or
      (if e.pre.group.generationId ≠ g ∧ e.post.group.generationId = g then some e.post.group else none) := by
  rw [completionOf, List.findSome?_append, List.findSome?_singleton]; rfl

/-- A section that leaves the generation alone completes none. -/
theorem completionOf_same {tr : List GroupEvent} {e : GroupEvent}
    (h : e.post.group.generationId = e.pre.group.generationId) (g : Int) :
    completionOf g (tr ++ [e]) = completionOf g tr := by
  rw [completionOf_snoc, if_neg (fun hg => hg.1 (h.symm.trans hg.2)), Option.or_none]

theorem submissionOf_snoc (g : Int) (tr : List GroupEvent) (e : GroupEvent) :
    submissionOf g (tr ++ [e]) = (submissionOf g tr).or (submissionOf g [e]) := by
  rw [submissionOf, List.findSome?_append]; rfl

/-- A section that does not make the group stable submits nothing. -/
theorem submissionOf_single_none {g : Int} {e : GroupEvent}
    (h : e.post.group.state = .stable → e.pre.group.state = .stable) :
    submissionOf g [e] = none := by
  rw [submissionOf, List.findSome?_singleton]
  split
  · rw [if_neg]
    rintro ⟨-, hpre, hpost⟩
    exact hpre (h hpost)
  · rfl

/-- A sync that makes the group stable submits its assignments, for its generation. -/
theorem submissionOf_single {g generationId : Int} {memberId : String} {assignments : List SyncAssignment}
    {refresh : Bool}
    {e : GroupEvent} (hop : e.label.1 = .sync generationId memberId assignments refresh)
    (hpre : e.pre.group.state ≠ .stable) (hpost : e.post.group.state = .stable) :
    submissionOf g [e] = if generationId = g then some (memberId, assignments) else none := by
  rw [submissionOf, List.findSome?_singleton, hop]
  simp only [hpre, hpost, ne_eq, not_false_eq_true, and_self, and_true]

structure History (tr : List GroupEvent) (group : Group) : Prop where
  past : ∀ g cohort, completionOf g tr = some cohort → g ≤ group.generationId ∧ IsCohort cohort
  current : group.completed → ∃ cohort, completionOf group.generationId tr = some cohort ∧ SameCohort cohort group
  joins : ∀ id member join, group.members.lookup id = some member → member.completedJoin = some join →
    ∃ cohort, completionOf join.result.generationId tr = some cohort ∧ Agrees cohort id join.result
  submitted : ∀ g leader assignments, submissionOf g tr = some (leader, assignments) →
    g ≤ group.generationId ∧ (g = group.generationId → group.state ≠ .completingRebalance) ∧
    ∃ cohort, completionOf g tr = some cohort ∧ leader = cohort.leaderMemberId ∧ (assignments.map (·.memberId)).Nodup ∧
      ∀ id, id ∈ assignments.map (·.memberId) ↔ id ∈ cohort.members
  installed : group.state = .stable → ∃ leader assignments, submissionOf group.generationId tr = some (leader, assignments) ∧
    ∀ id bytes, group.assignments.lookup id = some bytes ↔ ⟨id, bytes⟩ ∈ assignments

namespace History
variable {tr : List GroupEvent} {group : Group} {e : GroupEvent}

theorem new : History [] .new where
  past _ _ h := by cases h
  current h := by rcases h with h | h <;> cases h
  joins _ _ _ h := by cases h
  submitted _ _ _ h := by cases h
  installed h := by cases h

/-- A section that completes and installs nothing. -/
theorem steady (h : History tr e.pre.group) (hc : Carries e.pre.group e.post.group) :
    History (tr ++ [e]) e.post.group := by
  have hgen := hc.generation
  have hcompl : ∀ g, completionOf g (tr ++ [e]) = completionOf g tr := completionOf_same hgen
  have hsub : ∀ g, submissionOf g (tr ++ [e]) = submissionOf g tr := by
    intro g
    rw [submissionOf_snoc, submissionOf_single_none (fun hs => (hc.cohort (.inr hs)).1.trans hs), Option.or_none]
  refine ⟨?_, ?_, ?_, ?_, ?_⟩
  · intro g cohort hg
    rw [hcompl] at hg
    rw [hgen]; exact h.past g cohort hg
  · intro hcomp
    obtain ⟨hs, -, hsame⟩ := hc.cohort hcomp
    obtain ⟨cohort, hcohort, hsame'⟩ := h.current (by rw [Group.completed, hs]; exact hcomp)
    exact ⟨cohort, by rw [hcompl, hgen]; exact hcohort, hsame'.trans hsame⟩
  · intro id member join hl hj
    obtain ⟨member₀, hl₀, hj₀⟩ := hc.joins id member join hl hj
    rw [hcompl]; exact h.joins id member₀ join hl₀ hj₀
  · intro g leader assignments hg
    rw [hsub] at hg
    obtain ⟨hle, hne, hex⟩ := h.submitted g leader assignments hg
    refine ⟨by rw [hgen]; exact hle, ?_, by rw [hcompl]; exact hex⟩
    intro heq hs
    exact hne (heq.trans hgen) ((hc.cohort (.inl hs)).1.trans hs)
  · intro hs
    rw [hsub, hgen, hc.assignments hs]
    exact h.installed ((hc.cohort (.inr hs)).1.trans hs)

/-- A section that completes a rebalance starts a generation nobody has seen. -/
theorem completes (h : History tr e.pre.group) {body : Group} {selected : String} {completed : Nat}
    (hc : Carries e.pre.group body) (inv : GroupInv body) (hready : body.ready = true)
    (hselect : selectProtocol body.members = .ok selected) (hlt : body.generationId < i32Max)
    (hpost : e.post.group = completeRebalance body selected completed) : History (tr ++ [e]) e.post.group := by
  have hnext : e.post.group.generationId = e.pre.group.generationId + 1 := by
    rw [hpost, ← hc.generation]; exact if_pos hlt
  have hold : ∀ g cohort, completionOf g tr = some cohort → completionOf g (tr ++ [e]) = some cohort := by
    intro g cohort hg
    rw [completionOf_snoc, hg]; rfl
  have hnew : completionOf e.post.group.generationId (tr ++ [e]) = some e.post.group := by
    have hnone : completionOf e.post.group.generationId tr = none := by
      rw [← Option.not_isSome_iff_eq_none, Option.isSome_iff_exists]
      rintro ⟨cohort, hg⟩
      have := (h.past _ cohort hg).1
      omega
    rw [completionOf_snoc, hnone, if_pos ⟨by omega, rfl⟩]; rfl
  have hsub : ∀ g, submissionOf g (tr ++ [e]) = submissionOf g tr := by
    intro g
    rw [submissionOf_snoc, submissionOf_single_none (fun hs => by rw [hpost] at hs; cases hs), Option.or_none]
  refine ⟨?_, fun _ => ⟨_, hnew, .refl _⟩, ?_, ?_, ?_⟩
  · intro g cohort hg
    rw [completionOf_snoc] at hg
    rcases Option.or_eq_some_iff.1 hg with hg | ⟨-, hg⟩
    · exact ⟨by have := (h.past g cohort hg).1; omega, (h.past g cohort hg).2⟩
    · obtain ⟨⟨-, heq⟩, rfl⟩ := (Option.ite_none_right_eq_some.1 hg).imp_right Option.some.inj
      exact ⟨le_of_eq heq.symm, by rw [hpost]; exact complete_isCohort inv hready hselect completed⟩
  · intro id member join hl hj
    have hl' : (completeRebalance body selected completed).members.lookup id = some member := by rw [← hpost]; exact hl
    have hag := complete_agrees completed hl' hj
    refine ⟨e.post.group, ?_, by rw [hpost]; exact hag.2⟩
    rw [hag.1, ← hnew, hpost]; rfl
  · intro g leader assignments hg
    rw [hsub] at hg
    obtain ⟨hle, -, cohort, hcohort, hrest⟩ := h.submitted g leader assignments hg
    exact ⟨by omega, fun heq => by omega, cohort, hold g cohort hcohort, hrest⟩
  · intro hs; rw [hpost] at hs; cases hs

/-- The section of the leader's sync is the first of its generation that makes the group stable. -/
theorem installs (h : History tr e.pre.group) {body : Group} {assignments : List SyncAssignment}
    {refresh : Bool} {now : Nat} (hc : Carries e.pre.group body) (hi : Installs body assignments)
    (hop : e.label.1 = .sync body.generationId body.leaderMemberId assignments refresh)
    (hpost : e.post.group = installAssignments body body.generationId body.leaderMemberId assignments now) :
    History (tr ++ [e]) e.post.group := by
  obtain ⟨members, deadline, heq, hm, -⟩ := installAssignments_eq body assignments now
  rw [heq] at hpost
  obtain ⟨hnodup, hnames⟩ := namesEveryMember_iff.1 hi.names
  have hbody := hc.cohort (.inl hi.completing)
  have hpre : e.pre.group.state = .completingRebalance := hbody.1.trans hi.completing
  have hgen : e.post.group.generationId = e.pre.group.generationId := by rw [hpost]; exact hc.generation
  have hcompl : ∀ g, completionOf g (tr ++ [e]) = completionOf g tr := completionOf_same hgen
  have hsame : SameCohort e.pre.group e.post.group := by
    refine hbody.2.2.trans ?_
    rw [hpost]
    exact ⟨fun _ => mem_map_iff hm, rfl, rfl, rfl⟩
  obtain ⟨cohort, hcohort, hsame'⟩ := h.current (.inl hpre)
  have hsubmits : ∀ g, submissionOf g [e] = if body.generationId = g then some (body.leaderMemberId, assignments) else none :=
    fun g => submissionOf_single hop (by rw [hpre]; decide) (by rw [hpost])
  have hsub : submissionOf e.post.group.generationId (tr ++ [e]) = some (body.leaderMemberId, assignments) := by
    have hnone : submissionOf e.post.group.generationId tr = none := by
      rw [← Option.not_isSome_iff_eq_none, Option.isSome_iff_exists]
      rintro ⟨⟨leader, old⟩, hg⟩
      exact (h.submitted _ leader old hg).2.1 hgen hpre
    rw [submissionOf_snoc, hnone, Option.none_or, hsubmits, if_pos (by rw [hpost])]
  refine ⟨?_, ?_, ?_, ?_, ?_⟩
  · intro g cohort hg
    rw [hcompl] at hg
    rw [hgen]; exact h.past g cohort hg
  · intro _
    exact ⟨cohort, by rw [hcompl, hgen]; exact hcohort, hsame'.trans hsame⟩
  · intro id member join hl hj
    rw [hpost] at hl
    obtain ⟨member₀, hl₀, rfl⟩ := (lookup_map_eq_some hm).1 hl
    rw [(installedMember_spec body now id member₀).2.2.1] at hj
    obtain ⟨member₁, hl₁, hj₁⟩ := hc.joins id member₀ join hl₀ hj
    rw [hcompl]; exact h.joins id member₁ join hl₁ hj₁
  · intro g leader asg hg
    by_cases hgg : g = e.post.group.generationId
    · subst hgg
      obtain ⟨rfl, rfl⟩ := Prod.mk.inj (Option.some.inj (hg.symm.trans hsub))
      refine ⟨le_rfl, fun _ hs => (by rw [hpost] at hs; cases hs), cohort, by rw [hcompl, hgen]; exact hcohort, ?_, hnodup, ?_⟩
      · exact hbody.2.2.leader.trans hsame'.leader
      · intro id
        rw [hnames, hbody.2.2.members, hsame'.members]
    · rw [submissionOf_snoc, hsubmits, if_neg (fun hg' => hgg (by rw [hpost]; exact hg'.symm)), Option.or_none] at hg
      obtain ⟨hle, -, hex⟩ := h.submitted g leader asg hg
      exact ⟨by rw [hgen]; exact hle, fun heq => absurd heq hgg, by rw [hcompl]; exact hex⟩
  · intro _
    refine ⟨_, _, hsub, ?_⟩
    intro id bytes
    rw [hpost]
    exact lookup_collectAssignments hnodup

end History

/-! ### Runs -/

theorem le_nextGeneration (g : Int) : g ≤ nextGeneration g ∧ nextGeneration g ≤ g + 1 := by
  unfold nextGeneration; split <;> omega

theorem Section.generation_le {clock : Clock} {op : GroupOp} {group group' : Group}
    (h : Section clock op group group') :
    group.generationId ≤ group'.generationId := by
  cases h with
  | steady path => exact le_of_eq (Carries.of_path path).generation.symm
  | completes path _ _ =>
    rw [← (Carries.of_path path).generation]
    exact (le_nextGeneration _).1
  | installs path assignments refresh hi _ =>
    obtain ⟨members, deadline, heq, -⟩ := installAssignments_eq _ assignments clock.now
    rw [heq]
    exact le_of_eq (Carries.of_path path).generation.symm

/-- What a step of the group machine is. -/
theorem groupMachine_takes {e : GroupEvent} (h : groupMachine.Takes e) :
    e.pre.clock ≤ e.label.2.now ∧ e.label.2.Ordered ∧ e.out = (e.label.1.run e.pre.group e.label.2).1 ∧
      e.post.group = (e.label.1.run e.pre.group e.label.2).2 ∧ e.post.clock = e.label.2.completed := by
  change (if _ then _ else _) = _ at h
  obtain ⟨⟨h1, h2⟩, h⟩ := Option.ite_none_right_eq_some.1 h
  obtain ⟨h3, h4⟩ := Prod.mk.inj (Option.some.inj h)
  exact ⟨h1, h2, h3.symm, by rw [← h4], by rw [← h4]⟩

theorem groupMachine_section {e : GroupEvent} (h : groupMachine.Takes e) :
    Section e.label.2 e.label.1 e.pre.group e.post.group := by
  rw [(groupMachine_takes h).2.2.2.1]
  exact run_section ..

theorem History.of_section {tr : List GroupEvent} {e : GroupEvent} (inv : GroupInv e.pre.group)
    (h : History tr e.pre.group)
    (hs : Section e.label.2 e.label.1 e.pre.group e.post.group) (hgen : e.post.group.generationId < i32Max) :
    History (tr ++ [e]) e.post.group := by
  generalize hpost : e.post.group = post at hs
  cases hs with
  | steady path => exact hpost ▸ h.steady (hpost ▸ Carries.of_path path)
  | completes path ready select =>
    rw [← hpost]
    rw [hpost] at hgen
    exact h.completes (Carries.of_path path) (inv.of_path path) ready select (nextGeneration_lt hgen) hpost
  | installs path assignments refresh hi hop => rw [← hpost]; exact h.installs (Carries.of_path path) hi hop hpost

theorem History.of_run {tr : List GroupEvent} {s : TimedGroup} (h : groupMachine.Run tr s)
    (hgen : s.group.generationId < i32Max) : GroupInv s.group ∧ History tr s.group := by
  refine Machine.Run.induction (M := groupMachine)
    (P := fun tr s => s.group.generationId < i32Max → GroupInv s.group ∧ History tr s.group)
    (fun _ => ⟨.new, .new⟩) (fun tr e _ ih he hgen => ?_) h hgen
  have hsection := groupMachine_section he
  obtain ⟨inv, hist⟩ := ih (lt_of_le_of_lt hsection.generation_le hgen)
  exact ⟨inv.of_section hsection hgen, hist.of_section inv hsection hgen⟩

end MemKafka
