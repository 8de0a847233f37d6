import Mathlib

/-!
# Reading a stream in pieces

A `Reader` is what is left of a stream, in the pieces in which its reads are going to return it. A read returns a piece
or as much of one as there is room for, and nothing only at the end of the stream. `readExact` reads until its buffer is
full; what it returns and leaves behind depends on the stream alone and not on its pieces.
-/

namespace Kit

structure Reader (α : Type) where
  pieces : List (List α)
  nonempty : [] ∉ pieces

namespace Reader

variable {α : Type}

/-- What is left of the stream. -/
def rest (r : Reader α) : List α := r.pieces.flatten

/-- One read into a buffer with room for `room` elements. -/
def read (r : Reader α) (room : Nat) : List α × Reader α :=
  match r with
  | ⟨[], h⟩ => ([], ⟨[], h⟩)
  | ⟨piece :: pieces, h⟩ =>
    if hfits : piece.length ≤ room then (piece, ⟨pieces, fun hmem => h (List.mem_cons_of_mem _ hmem)⟩)
    else (piece.take room, ⟨piece.drop room :: pieces, fun hmem => by
      rcases List.mem_cons.1 hmem with heq | hmem
      · exact hfits (List.drop_eq_nil_iff.1 heq.symm)
      · exact h (List.mem_cons_of_mem _ hmem)⟩)

variable {r : Reader α} {room : Nat}

theorem read_cons {piece : List α} {pieces : List (List α)} (h : [] ∉ piece :: pieces) (room : Nat) :
    (read ⟨piece :: pieces, h⟩ room).1 = piece.take room ∧
      (read ⟨piece :: pieces, h⟩ room).2.rest = piece.drop room ++ pieces.flatten := by
  by_cases hfits : piece.length ≤ room
  · rw [read, dif_pos hfits, List.take_of_length_le hfits, List.drop_of_length_le hfits]
    exact ⟨rfl, rfl⟩
  · rw [read, dif_neg hfits]
    exact ⟨rfl, rfl⟩

theorem read_append (r : Reader α) (room : Nat) : (r.read room).1 ++ (r.read room).2.rest = r.rest := by
  match r with
  | ⟨[], h⟩ => rfl
  | ⟨piece :: pieces, h⟩ =>
    rw [(read_cons h room).1, (read_cons h room).2, ← List.append_assoc, List.take_append_drop]
    rfl

theorem length_read_le (r : Reader α) (room : Nat) : (r.read room).1.length ≤ room := by
  match r with
  | ⟨[], h⟩ => exact Nat.zero_le _
  | ⟨piece :: pieces, h⟩ =>
    rw [(read_cons h room).1]
    exact List.length_take_le _ _

/-- A read that has room returns something unless the stream is at its end. -/
theorem read_eq_nil (h : (r.read room).1 = []) (hroom : 0 < room) : r.rest = [] := by
  match r with
  | ⟨[], hne⟩ => rfl
  | ⟨piece :: pieces, hne⟩ =>
    rw [(read_cons hne room).1, List.take_eq_nil_iff] at h
    rcases h with h | h
    · omega
    · exact absurd (h ▸ List.mem_cons_self) hne

/-- Reads until `room` elements are there; `none` if the stream ends before that. -/
def readExact (r : Reader α) (room : Nat) : Option (List α) × Reader α :=
  if room = 0 then (some [], r) else
  if _hgot : (r.read room).1 = [] then (none, (r.read room).2) else
  let (more, r') := (r.read room).2.readExact (room - (r.read room).1.length)
  (more.map ((r.read room).1 ++ ·), r')
termination_by room
decreasing_by
  have := List.length_pos_iff.2 _hgot
  omega

/-- The elements that are read are the next ones of the stream, however they arrive. -/
theorem readExact_spec (r : Reader α) (room : Nat) :
    (r.readExact room).1 = (if room ≤ r.rest.length then some (r.rest.take room) else none) ∧
      (r.readExact room).2.rest = r.rest.drop room := by
  induction room using Nat.strongRecOn generalizing r with
  | ind room ih =>
    unfold readExact
    by_cases hroom : room = 0
    · simp [hroom]
    rw [if_neg hroom]
    have hread := read_append r room
    have hle := length_read_le r room
    by_cases hgot : (r.read room).1 = []
    · have hend := read_eq_nil hgot (Nat.pos_of_ne_zero hroom)
      rw [hgot, List.nil_append] at hread
      simp [hgot, hread, hend, hroom]
    have hpos := List.length_pos_iff.2 hgot
    obtain ⟨hmore, hleft⟩ := ih (room - (r.read room).1.length) (by omega) (r.read room).2
    simp only [dif_neg hgot, hmore, hleft]
    generalize (r.read room).1 = got at *
    generalize (r.read room).2 = after at *
    rw [← hread, List.length_append, List.drop_append, List.take_append, List.take_of_length_le hle,
      List.drop_of_length_le hle, List.nil_append]
    refine ⟨?_, rfl⟩
    by_cases henough : room - got.length ≤ after.rest.length
    · rw [if_pos henough, if_pos (by omega), Option.map_some]
    · rw [if_neg henough, if_neg (by omega), Option.map_none]

end Reader

end Kit
