import MemKafka.MemberIds

/-!
# New member ids (`allocate_member_id` in `broker/groups.rs`)

An id is the text of the client, a dash and the number of the call, so its number is what follows its last dash
(`memberIdOf_injective`). In a run the ids are those of the calls one after the other, and a key of a member map or of
the pending ids is one that a join has allocated.
-/

namespace MemKafka
open Kit

namespace Coordinator

/-- `allocate_member_id`, with the counter wrapping around. -/
def allocateMemberId (s : Coordinator) (clientId : String) : String × Coordinator :=
  (memberIdOf clientId s.nextMemberId, { s with nextMemberId := (s.nextMemberId + 1) % 2 ^ 64 })

/-- The ids that are allocated for some clients, one after the other. -/
def allocateMemberIds (s : Coordinator) : List String → List String
  | [] => []
  | clientId :: clientIds => (s.allocateMemberId clientId).1 :: (s.allocateMemberId clientId).2.allocateMemberIds clientIds

/-- The part of `join` before its first lock that has no member id allocates one. -/
theorem startJoin_eq {s : Coordinator} {call : Nat} {request : JoinRequest} {requireKnownMemberId : Bool}
    (hprotocols : ¬ (request.protocols = [] ∨ request.protocolType = "")) (hid : request.memberId = "") :
    s.startJoin call request requireKnownMemberId = (.progress,
      (s.allocateMemberId request.clientId).2.setCall call
        (.join ⟨{ request with memberId := (s.allocateMemberId request.clientId).1 },
          if requireKnownMemberId then .reserveMemberId else .openGroup true⟩)) := by
  rw [startJoin, if_neg hprotocols, if_pos hid]
  rfl

theorem mem_allocateMemberIds {s : Coordinator} {clientIds : List String} {memberId : String}
    (hs : s.nextMemberId < 2 ^ 64) (h : memberId ∈ s.allocateMemberIds clientIds) :
    ∃ clientId k, k < clientIds.length ∧ memberId = memberIdOf clientId ((s.nextMemberId + k) % 2 ^ 64) := by
  induction clientIds generalizing s with
  | nil => cases h
  | cons clientId clientIds ih =>
    rcases List.mem_cons.1 h with rfl | h
    · exact ⟨clientId, 0, by simp, by rw [Nat.add_zero, Nat.mod_eq_of_lt hs]; rfl⟩
    · obtain ⟨clientId', k, hk, rfl⟩ := ih (Nat.mod_lt _ (by decide)) h
      refine ⟨clientId', k + 1, by simpa using hk, congrArg (memberIdOf clientId') ?_⟩
      show ((s.nextMemberId + 1) % 2 ^ 64 + k) % 2 ^ 64 = _
      omega

theorem allocateMemberIds_snoc {s : Coordinator} {clientIds : List String} {clientId : String}
    (hs : s.nextMemberId < 2 ^ 64) : s.allocateMemberIds (clientIds ++ [clientId]) =
      s.allocateMemberIds clientIds ++ [memberIdOf clientId ((s.nextMemberId + clientIds.length) % 2 ^ 64)] := by
  induction clientIds generalizing s with
  | nil =>
    rw [List.length_nil, Nat.add_zero, Nat.mod_eq_of_lt hs]
    rfl
  | cons first clientIds ih =>
    rw [List.cons_append, allocateMemberIds, ih (Nat.mod_lt _ (by decide)), allocateMemberIds, List.cons_append,
      List.length_cons]
    show _ :: (_ ++ [memberIdOf clientId (((s.nextMemberId + 1) % 2 ^ 64 + clientIds.length) % 2 ^ 64)]) = _
    rw [show ((s.nextMemberId + 1) % 2 ^ 64 + clientIds.length) % 2 ^ 64 =
      (s.nextMemberId + (clientIds.length + 1)) % 2 ^ 64 by omega]

/-- The ids of fewer than `2 ^ 64` calls are distinct, whatever the clients call themselves. -/
theorem nodup_allocateMemberIds {s : Coordinator} {clientIds : List String} (hs : s.nextMemberId < 2 ^ 64)
    (hlen : clientIds.length < 2 ^ 64) : (s.allocateMemberIds clientIds).Nodup := by
  induction clientIds generalizing s with
  | nil => exact List.nodup_nil
  | cons clientId clientIds ih =>
    have hlt : (s.allocateMemberId clientId).2.nextMemberId < 2 ^ 64 := Nat.mod_lt _ (by decide)
    rw [List.length_cons] at hlen
    refine List.nodup_cons.2 ⟨fun hmem => ?_, ih hlt (by omega)⟩
    obtain ⟨clientId', k, hk, heq⟩ := mem_allocateMemberIds hlt hmem
    have hsequence : s.nextMemberId = ((s.nextMemberId + 1) % 2 ^ 64 + k) % 2 ^ 64 := memberIdOf_injective heq
    omega

theorem memberIdOf_ne_empty {clientId : String} {sequence : Nat} : memberIdOf clientId sequence ≠ "" := by
  intro h
  have := congrArg String.toList h
  simp [memberIdOf] at this

end Coordinator

/-! ### Allocations of a run -/

/-- The request of a join that allocates an id, with that id. -/
def allocation (e : CoordinatorEvent) : Option JoinRequest :=
  match e.label with
  | .join _ request _ =>
    if request.protocols = [] ∨ request.protocolType = "" then none
    else if request.memberId = "" then some { request with memberId := (e.pre.allocateMemberId request.clientId).1 }
    else none
  | _ => none

def allocations (tr : List CoordinatorEvent) : List JoinRequest := tr.filterMap allocation

/-- What an id is allocated for. -/
def JoinRequest.key (request : JoinRequest) : String × String := (request.groupId, request.memberId)

section
variable {s s' : Coordinator}

/-- A step allocates an id for the join that it starts, or leaves the counter alone and makes no new claims. -/
inductive Allocates (e : CoordinatorEvent) : Prop
  | none (nothing : allocation e = .none) (counter : e.post.nextMemberId = e.pre.nextMemberId)
      (claims : ∀ groupId memberId, Claimed e.post groupId memberId → Claimed e.pre groupId memberId)
  | one (request : JoinRequest) (allocates : allocation e = some request)
      (memberId : request.memberId = (e.pre.allocateMemberId request.clientId).1)
      (counter : e.post.nextMemberId = (e.pre.allocateMemberId request.clientId).2.nextMemberId)
      (claims : ∀ groupId memberId, Claimed e.post groupId memberId →
        Claimed e.pre groupId memberId ∨ request.key = (groupId, memberId))

theorem claimed_of_counter (h : JoinStep s s') (hcounter : s'.nextMemberId = s.nextMemberId) {groupId memberId : String}
    (hc : Claimed s' groupId memberId) : Claimed s groupId memberId := by
  rcases h.claimed hc with hc | ⟨hnext, -⟩
  · exact hc
  · omega

theorem takes_allocates {e : CoordinatorEvent} (ht : coordinator.Takes e) : Allocates e := by
  obtain ⟨pre, label, out, post⟩ := e
  have hstep : pre.step label = some (out, post) := ht
  have hstays : allocation ⟨pre, label, out, post⟩ = none → post.nextMemberId = pre.nextMemberId →
      Allocates ⟨pre, label, out, post⟩ := fun hnone hcounter =>
    .none hnone hcounter fun _ _ => claimed_of_counter (step_joinStep hstep) hcounter
  by_cases hlabel : ∀ call request requireKnownMemberId, label ≠ .join call request requireKnownMemberId
  · refine hstays ?_ (step_quietStep hstep hlabel).counter
    unfold allocation
    split
    · exact absurd ‹_› (hlabel _ _ _)
    · rfl
  simp only [not_forall, not_not] at hlabel
  obtain ⟨call, request, requireKnownMemberId, rfl⟩ := hlabel
  cases step_turn hstep with
  | invalid free invalid => exact hstays (if_pos invalid) rfl
  | mints free valid unnamed =>
    refine .one { request with memberId := (pre.allocateMemberId request.clientId).1 }
      ((if_neg valid).trans (if_pos unnamed)) rfl rfl ?_
    rintro groupId memberId (hp | ⟨call', join, hl, hadmits, rfl, rfl⟩)
    · exact .inl (.inl hp)
    · rcases lookup_setCall hl with hl | heq
      · exact .inl (.inr ⟨call', join, hl, hadmits, rfl, rfl⟩)
      · cases heq
        exact .inr rfl
  | starts free valid named => exact hstays ((if_neg valid).trans (if_neg named)) rfl

theorem allocations_snoc {tr : List CoordinatorEvent} {e : CoordinatorEvent} :
    allocations (tr ++ [e]) = allocations tr ++ (allocation e).toList := by
  rw [allocations, List.filterMap_append, ← allocations]
  cases h : allocation e <;> simp [h]

/-- The ids of some joins are those of as many calls, and every id that is claimed or in use is one of them. -/
structure Allocated (requests : List JoinRequest) (s : Coordinator) : Prop where
  ids : requests.map (·.memberId) = Coordinator.new.allocateMemberIds (requests.map (·.clientId))
  counter : s.nextMemberId = (1 + requests.length) % 2 ^ 64
  keys : ∀ groupId memberId, memberId ∈ (s.group groupId).members ∨ Claimed s groupId memberId →
    (groupId, memberId) ∈ requests.map (·.key)

theorem Allocated.step {requests : List JoinRequest} {e : CoordinatorEvent} (h : Allocated requests e.pre)
    (ht : coordinator.Takes e) : Allocated (requests ++ (allocation e).toList) e.post := by
  have hkeys : ∀ groupId memberId, memberId ∈ (e.post.group groupId).members ∨ Claimed e.post groupId memberId →
      (groupId, memberId) ∈ requests.map (·.key) ∨ Claimed e.post groupId memberId := fun groupId memberId hkey => by
    rcases hkey with hmem | hc
    · exact .inl (h.keys groupId memberId (step_adds ht hmem))
    · exact .inr hc
  cases takes_allocates ht with
  | none nothing counter claims =>
    rw [nothing, Option.toList_none, List.append_nil]
    refine ⟨h.ids, counter.trans h.counter, fun groupId memberId hkey => ?_⟩
    exact (hkeys groupId memberId hkey).elim id fun hc => h.keys groupId memberId (.inr (claims groupId memberId hc))
  | one request allocates memberId counter claims =>
    rw [allocates, Option.toList_some]
    refine ⟨?_, ?_, fun groupId memberId' hkey => ?_⟩
    · simp only [List.map_append, List.map_singleton]
      rw [h.ids, memberId, Coordinator.allocateMemberIds_snoc (by decide), List.length_map, Coordinator.allocateMemberId,
        h.counter]
      rfl
    · rw [counter, List.length_append, List.length_singleton]
      show (e.pre.nextMemberId + 1) % 2 ^ 64 = _
      rw [h.counter]
      omega
    · rw [List.map_append, List.mem_append]
      rcases hkeys groupId memberId' hkey with hold | hc
      · exact .inl hold
      · rcases claims groupId memberId' hc with hc | hkey
        · exact .inl (h.keys groupId memberId' (.inr hc))
        · exact .inr (by simp [hkey])

theorem Allocated.of_run {tr : List CoordinatorEvent} (h : coordinator.Run tr s) : Allocated (allocations tr) s := by
  refine Machine.Run.induction (M := coordinator) (P := fun tr s => Allocated (allocations tr) s) ⟨rfl, rfl, ?_⟩ ?_ h
  · rintro groupId memberId (h | h | ⟨call, join, hl, -⟩)
    · cases h
    · cases h
    · cases hl
  · intro tr e _ ih ht
    rw [allocations_snoc]
    exact ih.step ht

end

/-- Member ids are unique. Fewer than `2 ^ 64 - 1` calls return distinct ids that are not empty, whatever the clients are
called. So in a run with so few, every member of a group and every pending id is that of exactly one of the joins that were
given an id. -/
theorem member_ids_are_unique (clientIds : List String) (hcalls : clientIds.length < 2 ^ 64 - 1)
    (tr : List CoordinatorEvent) (s : Coordinator) (hrun : coordinator.Run tr s)
    (hfew : (allocations tr).length < 2 ^ 64 - 1) :
    ((Coordinator.new.allocateMemberIds clientIds).Nodup ∧ "" ∉ Coordinator.new.allocateMemberIds clientIds) ∧
    (((allocations tr).map (·.memberId)).Nodup ∧ "" ∉ (allocations tr).map (·.memberId)) ∧
    ∀ groupId memberId, memberId ∈ (s.group groupId).members ∨ (groupId, memberId) ∈ s.pendingMemberIds →
      ((allocations tr).map (·.key)).count (groupId, memberId) = 1 := by
  have hpure : ∀ clientIds : List String, clientIds.length < 2 ^ 64 - 1 →
      (Coordinator.new.allocateMemberIds clientIds).Nodup ∧ "" ∉ Coordinator.new.allocateMemberIds clientIds := by
    intro clientIds hlen
    refine ⟨Coordinator.nodup_allocateMemberIds (by decide) (by omega), fun hmem => ?_⟩
    obtain ⟨clientId, k, -, heq⟩ := Coordinator.mem_allocateMemberIds (by decide) hmem
    exact Coordinator.memberIdOf_ne_empty heq.symm
  have hallocated := Allocated.of_run hrun
  have hids : ((allocations tr).map (·.memberId)).Nodup ∧ "" ∉ (allocations tr).map (·.memberId) := by
    rw [hallocated.ids]
    exact hpure _ (by simpa using hfew)
  refine ⟨hpure clientIds hcalls, hids, fun groupId memberId h => ?_⟩
  have hkeys : ((allocations tr).map (·.key)).Nodup := by
    refine List.Nodup.of_map Prod.snd ?_
    rw [List.map_map]
    exact hids.1
  exact List.count_eq_one_of_mem hkeys (hallocated.keys groupId memberId (h.imp_right .inl))

/-- Two clients of which one is called like an id, and a third one that has no name. -/
theorem member_ids_are_unique_three_clients : ∃ tr s,
    coordinator.exec .new [.join 0 (sampleJoin "" "a") true, .resume 0 ⟨0, 0, 0⟩, .join 1 (sampleJoin "" "a-1") false,
      .join 2 (sampleJoin "" "") true, .resume 2 ⟨0, 0, 0⟩] = some (tr, s) ∧
    (allocations tr).map (·.memberId) = ["a-1", "a-1-2", "-3"] ∧
    ((allocations tr).map (·.key)).count ("g", "a-1") = 1 ∧ ((allocations tr).map (·.key)).count ("g", "-3") = 1 := by
  have hout : ((coordinator.exec .new [.join 0 (sampleJoin "" "a") true, .resume 0 ⟨0, 0, 0⟩,
      .join 1 (sampleJoin "" "a-1") false, .join 2 (sampleJoin "" "") true, .resume 2 ⟨0, 0, 0⟩]).map
        fun r : List CoordinatorEvent × Coordinator =>
          ((allocations r.1).map (·.memberId), decide (("g", "a-1") ∈ r.2.pendingMemberIds),
            decide (("g", "-3") ∈ r.2.pendingMemberIds))) = some (["a-1", "a-1-2", "-3"], true, true) := by decide +kernel
  simp only [Option.map_eq_some_iff, Prod.mk.injEq, Prod.exists, decide_eq_true_eq] at hout
  obtain ⟨tr, s, hx, hids, hfirst, hlast⟩ := hout
  have hlength : (allocations tr).length = 3 := by simpa using congrArg List.length hids
  obtain ⟨-, -, hkeys⟩ := member_ids_are_unique ["a-1", "a", ""] (by decide) tr s (Machine.exec_path hx).1 (by omega)
  exact ⟨tr, s, hx, hids, hkeys "g" "a-1" (.inr hfirst), hkeys "g" "-3" (.inr hlast)⟩

end MemKafka
