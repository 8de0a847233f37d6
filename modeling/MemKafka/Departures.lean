import MemKafka.Descriptions

/-!
# Leaving a group (`kafka/leave_group.rs`)

A LeaveGroup of a newer version names several members, which leave one after the other, and other calls come in between.
`LeftInTurn` relates its answer to the steps in which they left: a code of its own for each of them, which says whether
this step was the one that took the member out of the group.
-/

namespace MemKafka
open Kit Relation

/-! ### One member -/

section
variable {group : Group}

end

/-- What a step that leaves a group for a member made of it, and the code that is answered. -/
inductive Departs (groupId memberId : String) (e : CoordinatorEvent) : Int → Prop
  | left {clock : Clock} (label : e.label = .leave groupId memberId clock)
      (alive : memberId ∈ (expireStaleMembers (e.pre.group groupId) clock none).members)
      (members : ∀ id, id ∈ (e.post.group groupId).members ↔
        id ≠ memberId ∧ id ∈ (expireStaleMembers (e.pre.group groupId) clock none).members)
      (state : (e.post.group groupId).state ≠ .stable)
      (offsets : (e.post.group groupId).committedOffsets = (e.pre.group groupId).committedOffsets) :
      Departs groupId memberId e 0
  | unknown {clock : Clock} (label : e.label = .leave groupId memberId clock)
      (absent : memberId ∉ (expireStaleMembers (e.pre.group groupId) clock none).members)
      (group : e.post.group groupId = expireStaleMembers (e.pre.group groupId) clock none) :
      Departs groupId memberId e 25

/-- The members of a request leave one after the other, in steps of the run in this order. -/
inductive LeftInTurn (groupId : String) : List MemberIdentity → List CoordinatorEvent → List MemberResponse → Prop
  | nil (tr : List CoordinatorEvent) : LeftInTurn groupId [] tr []
  | static {member : MemberIdentity} {members : List MemberIdentity} {tr : List CoordinatorEvent}
      {responses : List MemberResponse} (named : member.groupInstanceId.isSome)
      (rest : LeftInTurn groupId members tr responses) :
      LeftInTurn groupId (member :: members) tr (⟨member.memberId, none, 35⟩ :: responses)
  | departs {member : MemberIdentity} {members : List MemberIdentity} {before after : List CoordinatorEvent}
      {e : CoordinatorEvent} {errorCode : Int} {responses : List MemberResponse} (unnamed : member.groupInstanceId = none)
      (departs : Departs groupId member.memberId e errorCode) (rest : LeftInTurn groupId members after responses) :
      LeftInTurn groupId (member :: members) (before ++ e :: after) (⟨member.memberId, none, errorCode⟩ :: responses)

section
variable {before tr : List CoordinatorEvent} {s s' : Coordinator} {groupId memberId : String}

theorem LeftInTurn.prepend {members : List MemberIdentity} {responses : List MemberResponse}
    (h : LeftInTurn groupId members tr responses) (earlier : List CoordinatorEvent) :
    LeftInTurn groupId members (earlier ++ tr) responses := by
  induction h with
  | nil tr => exact .nil _
  | static named _ ih => exact .static named ih
  | departs unnamed departs rest =>
    rw [← List.append_assoc]
    exact .departs unnamed departs rest

end

end MemKafka
