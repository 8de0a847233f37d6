import MemKafka.GroupHistory

/-!
# The deadline of a rebalance

A group has one deadline for all the members it waits for. It is set from the longest timeout when a rebalance begins
and when a generation completes, may only be put off while a rebalance is prepared, and is dropped only once nobody is
waited for. So it is never reached before the timeout of a member it is for (`Waits`, `Settles`).
-/

namespace MemKafka
open Kit Relation

theorem le_groupRebalanceTimeout {members : Members} {id : String} {member : Member}
    (h : members.lookup id = some member) :
    fromMillis member.rebalanceTimeoutMs ≤ groupRebalanceTimeout members := by
  have hmem : member.rebalanceTimeoutMs ∈ members.entries.map fun e => e.2.rebalanceTimeoutMs :=
    List.mem_map.2 ⟨⟨id, member⟩, lookup_eq_some_iff.1 h, rfl⟩
  obtain ⟨longest, hl⟩ := Option.isSome_iff_exists.1 (List.isSome_max?_of_ne_nil (List.ne_nil_of_mem hmem))
  have hle : member.rebalanceTimeoutMs ≤ longest := (List.max?_le_iff hl).1 le_rfl _ hmem
  rw [groupRebalanceTimeout, hl, Option.getD_some, fromMillis, fromMillis]
  exact Nat.mul_le_mul_right _ (Int.toNat_le_toNat hle)

/-- The deadline of a rebalance that began at `began`. -/
def Waits (group : Group) (began : Nat) : Prop :=
  ∃ deadline, group.rebalanceDeadline = some deadline ∧ ∀ id member, group.members.lookup id = some member →
    member.joinedEpoch ≠ group.rebalanceEpoch → began + fromMillis member.rebalanceTimeoutMs ≤ deadline

/-- The deadline of a generation that was completed at `completed`. -/
def Settles (group : Group) (completed : Nat) : Prop :=
  ∀ deadline, group.rebalanceDeadline = some deadline → ∀ id member, group.members.lookup id = some member →
    completed + fromMillis member.rebalanceTimeoutMs ≤ deadline

theorem Waits.mono {group : Group} {began began' : Nat} (h : Waits group began) (hle : began' ≤ began) :
    Waits group began' := by
  obtain ⟨deadline, hd, hmembers⟩ := h
  refine ⟨deadline, hd, fun id member hl hj => ?_⟩
  have := hmembers id member hl hj
  omega

section
variable {group group' : Group} {clock : Clock}

theorem Waits.begun (hd : group.rebalanceDeadline = some (clock.begun + groupRebalanceTimeout group.members)) :
    Waits group clock.begun :=
  ⟨_, hd, fun _ _ hl _ => Nat.add_le_add_left (le_groupRebalanceTimeout hl) _⟩

/-- A mutation that puts the deadline off, if it changes it, and after which no more members are waited for. -/
theorem Waits.transfer {began : Nat} (h : Waits group began)
    (hdeadline : ∀ d, group.rebalanceDeadline = some d → ∃ d', group'.rebalanceDeadline = some d' ∧ d ≤ d')
    (hmembers : ∀ id member', group'.members.lookup id = some member' → member'.joinedEpoch ≠ group'.rebalanceEpoch →
      ∃ member, group.members.lookup id = some member ∧ member.joinedEpoch ≠ group.rebalanceEpoch ∧
        member.rebalanceTimeoutMs = member'.rebalanceTimeoutMs) : Waits group' began := by
  obtain ⟨d, hd, hwaits⟩ := h
  obtain ⟨d', hd', hle⟩ := hdeadline d hd
  refine ⟨d', hd', fun id member' hl hj => ?_⟩
  obtain ⟨member, hl₀, hj₀, heq⟩ := hmembers id member' hl hj
  rw [← heq]
  exact (hwaits id member hl₀ hj₀).trans hle

theorem Settles.transfer {completed : Nat} (h : Settles group completed)
    (hdeadline : group'.rebalanceDeadline = group.rebalanceDeadline ∨ group'.rebalanceDeadline = none)
    {f : String → Member → Member} (hm : ∀ id, group'.members.lookup id = (group.members.lookup id).map (f id))
    (hf : ∀ id member, (f id member).rebalanceTimeoutMs = member.rebalanceTimeoutMs) : Settles group' completed := by
  intro deadline hd id member' hl
  obtain ⟨member, hl₀, rfl⟩ := (lookup_map_eq_some hm).1 hl
  rw [hf]
  rcases hdeadline with heq | heq
  · exact h deadline (heq ▸ hd) id member hl₀
  · rw [heq] at hd; cases hd

/-- A steady mutation that leaves a rebalance in preparation begins it, or keeps it waiting. -/
theorem Steady.waits (h : Steady clock group group') (hstate : group'.state = .preparingRebalance) :
    Waits group' clock.begun ∨ group.state = .preparingRebalance ∧ group'.rebalanceEpoch = group.rebalanceEpoch ∧
      ∀ began, Waits group began → Waits group' began := by
  cases h with
  | remove ids _ =>
    rcases removeMembers_cases group ids clock.begun with ⟨-, heq⟩ | ⟨leader, -, -, ⟨-, heq⟩ | ⟨hpre, heq⟩⟩
    · rw [heq] at hstate; cases hstate
    · rw [heq]; exact .inl (.begun rfl)
    · rw [heq]
      refine .inr ⟨hpre, rfl, fun began h => h.transfer (fun d hd => ⟨d, hd, le_rfl⟩) ?_⟩
      intro id member hl hj
      replace hl : (eraseAll group.members ids).lookup id = some member := hl
      rw [lookup_eraseAll] at hl
      split at hl
      · cases hl
      · exact ⟨member, hl, hj, rfl⟩
  | touch id _ =>
    refine .inr ⟨hstate, rfl, fun began h => h.transfer (fun d hd => ⟨d, hd, le_rfl⟩) ?_⟩
    intro id' member' hl hj
    obtain ⟨member, hl₀, rfl⟩ := (lookup_map_eq_some (lookup_update_map id)).1 hl
    refine ⟨member, hl₀, ?_, ?_⟩
    · split at hj <;> exact hj
    · split <;> rfl
  | add mayAddMember request _ =>
    obtain ⟨leader, -, ⟨-, heq⟩ | ⟨deadline, hpre, heq, hdeadline⟩⟩ := addMember_cases group mayAddMember request clock
    · rw [heq]; exact .inl (.begun rfl)
    · rw [heq]
      refine .inr ⟨hpre, rfl, fun began h => h.transfer hdeadline ?_⟩
      intro id member hl hj
      replace hl : (prospectiveMembers group request clock.now).lookup id = some member := hl
      rcases lookup_of_insert hl with ⟨-, rfl⟩ | hl
      · -- the member that joins is not waited for any more
        exact absurd (by simp [joiningMember, targetEpoch, hpre]) hj
      · exact ⟨member, hl, hj, rfl⟩
  | mark id _ hpre _ => exact absurd (hpre.symm.trans hstate) (by simp)
  | syncStable id _ hpre =>
    obtain ⟨deadline, heq, -⟩ := clearRebalanceDeadline_eq (markSynced group id group.generationId)
    rw [MemKafka.syncStable, heq] at hstate
    exact absurd (hpre.symm.trans hstate) (by simp)
  | commit offsets => exact .inr ⟨hstate, rfl, fun began h => h⟩

theorem waits_of_path (h : ReflTransGen (Steady clock) group group') (hstate : group'.state = .preparingRebalance) :
    Waits group' clock.begun ∨ group.state = .preparingRebalance ∧ group'.rebalanceEpoch = group.rebalanceEpoch ∧
      ∀ began, Waits group began → Waits group' began := by
  induction h with
  | refl => exact .inr ⟨hstate, rfl, fun _ h => h⟩
  | tail _ hstep ih =>
    rcases hstep.waits hstate with hbegun | ⟨hpre, hepoch, hkeeps⟩
    · exact .inl hbegun
    rcases ih hpre with hbegun | ⟨hpre₀, hepoch₀, hkeeps₀⟩
    · exact .inl (hkeeps _ hbegun)
    · exact .inr ⟨hpre₀, hepoch.trans hepoch₀, fun began h => hkeeps began (hkeeps₀ began h)⟩

/-- A steady mutation after which a generation is complete leaves it as it was. -/
theorem Steady.settles (h : Steady clock group group') (hcompleted : group'.completed) :
    group'.state = group.state ∧ (group'.state = .completingRebalance → group'.change = group.change) ∧
      ∀ completed, Settles group completed → Settles group' completed := by
  cases h with
  | remove ids _ =>
    rcases removeMembers_cases group ids clock.begun with ⟨-, heq⟩ | ⟨leader, -, -, ⟨-, heq⟩ | ⟨hpre, heq⟩⟩ <;>
      rw [heq] at hcompleted
    · rcases hcompleted with h | h <;> cases h
    · rcases hcompleted with h | h <;> cases h
    · rcases hcompleted with h | h <;> exact absurd (hpre.symm.trans h) (by simp)
  | touch id _ =>
    refine ⟨rfl, fun _ => rfl, fun completed h => h.transfer (.inl rfl) (lookup_update_map id) ?_⟩
    intro id' member
    split <;> rfl
  | add mayAddMember request _ =>
    obtain ⟨leader, -, ⟨-, heq⟩ | ⟨deadline, hpre, heq, -⟩⟩ := addMember_cases group mayAddMember request clock <;>
      rw [heq] at hcompleted
    · rcases hcompleted with h | h <;> cases h
    · rcases hcompleted with h | h <;> exact absurd (hpre.symm.trans h) (by simp)
  | mark id _ _ _ =>
    refine ⟨rfl, fun _ => rfl, fun completed h => h.transfer (.inl rfl) (lookup_update_map id) ?_⟩
    intro id' member
    split <;> rfl
  | syncStable id _ hpre =>
    obtain ⟨deadline, heq, hdeadline⟩ := clearRebalanceDeadline_eq (markSynced group id group.generationId)
    rw [MemKafka.syncStable, heq]
    refine ⟨rfl, fun hstate => absurd (hpre.symm.trans hstate) (by simp), fun completed h => ?_⟩
    refine h.transfer (hdeadline.imp_right And.left) (lookup_update_map id) ?_
    intro id' member
    split <;> rfl
  | commit offsets => exact ⟨rfl, fun _ => rfl, fun completed h => h⟩

theorem settles_of_path (h : ReflTransGen (Steady clock) group group') (hcompleted : group'.completed) :
    group'.state = group.state ∧ (group'.state = .completingRebalance → group'.change = group.change) ∧
      ∀ completed, Settles group completed → Settles group' completed := by
  induction h with
  | refl => exact ⟨rfl, fun _ => rfl, fun _ h => h⟩
  | tail _ hstep ih =>
    obtain ⟨hstate, hchange, hkeeps⟩ := hstep.settles hcompleted
    obtain ⟨hstate₀, hchange₀, hkeeps₀⟩ := ih (by rw [Group.completed, ← hstate]; exact hcompleted)
    refine ⟨hstate.trans hstate₀, fun h => (hchange h).trans (hchange₀ (hstate ▸ h)), ?_⟩
    exact fun completed h => hkeeps completed (hkeeps₀ completed h)

end


end MemKafka
