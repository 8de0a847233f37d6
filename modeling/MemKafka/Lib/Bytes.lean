import Mathlib

/-!
# Byte strings and big-endian words

Byte strings are lists of `UInt8`. `beNat` and `beInt` read a big-endian word (unsigned, and in two's
complement at the width the string has), `beBytes` writes one. `slice` and the sums are
partial: `none` is the range or the sum a checked run-time would stop at.
-/

namespace Kit

abbrev Bytes := List UInt8

/-- The unsigned big-endian value of a byte string. -/
def beNat (bs : Bytes) : Nat :=
  bs.foldl (fun n b => 256 * n + b.toNat) 0

/-- The two's complement big-endian value of a byte string, at its own width. -/
def beInt (bs : Bytes) : Int :=
  Int.bmod (beNat bs) (256 ^ bs.length)

/-- The `k` low bytes of `n`, most significant first. -/
def beBytes : Nat → Nat → Bytes
  | 0, _ => []
  | k + 1, n => UInt8.ofNat (n / 256 ^ k) :: beBytes k n

/-- The `k`-byte two's complement big-endian encoding of `z`. -/
def beOfInt (k : Nat) (z : Int) : Bytes :=
  beBytes k (z % (256 ^ k : Nat)).toNat

/-- CRC-32C (Castagnoli), bit by bit: reflected polynomial, initial value and final mask all ones. -/
def castagnoli (bs : Bytes) : UInt32 :=
  let shift (crc : UInt32) : UInt32 := if crc &&& 1 = 1 then (crc >>> 1) ^^^ 0x82f63b78 else crc >>> 1
  0xffffffff ^^^ bs.foldl (fun crc b => Nat.iterate shift 8 (crc ^^^ b.toUInt32)) 0xffffffff

/-- `bs[a..b]`; `none` when the range leaves the string. -/
def slice (bs : Bytes) (a b : Nat) : Option Bytes :=
  if a ≤ b ∧ b ≤ bs.length then some ((bs.drop a).take (b - a)) else none

/-- The word of `k` bytes at position `i`. -/
def wordAt (bs : Bytes) (i k : Nat) : Bytes := (bs.drop i).take k

def i64Min : Int := -9223372036854775808
def i64Max : Int := 9223372036854775807
def i32Max : Int := 2147483647

/-- A 64-bit signed sum; `none` when it overflows. -/
def addI64 (a b : Int) : Option Int :=
  if i64Min ≤ a + b ∧ a + b ≤ i64Max then some (a + b) else none

/-- A 32-bit signed sum; `none` when it overflows. -/
def addI32 (a b : Int) : Option Int :=
  if -2147483648 ≤ a + b ∧ a + b ≤ i32Max then some (a + b) else none

/-- A 64-bit unsigned sum; `none` when it overflows. -/
def addUsize (a b : Nat) : Option Nat :=
  if a + b < 18446744073709551616 then some (a + b) else none

theorem eq_of_addI32 {a b c : Int} (h : addI32 a b = some c) : c = a + b := by
  unfold addI32 at h
  split at h
  · exact (Option.some.inj h).symm
  · cases h

theorem addI32_eq {a b : Int} (h0 : 0 ≤ a + b) (h : a + b ≤ i32Max) : addI32 a b = some (a + b) :=
  if_pos ⟨by omega, h⟩

/-! ### Slices -/

theorem slice_of_le {bs : Bytes} {a b : Nat} (h : a ≤ b) (hb : b ≤ bs.length) :
    slice bs a b = some (wordAt bs a (b - a)) := by
  simp [slice, wordAt, h, hb]

theorem length_wordAt {bs : Bytes} {i k : Nat} (h : i + k ≤ bs.length) : (wordAt bs i k).length = k := by
  simp only [wordAt, List.length_take, List.length_drop]; omega

/-- A word inside a prefix is the word of the whole string. -/
theorem wordAt_take {bs : Bytes} {i k n : Nat} (h : i + k ≤ n) : wordAt (bs.take n) i k = wordAt bs i k := by
  simp only [wordAt, List.drop_take, List.take_take]
  congr 1; omega

theorem wordAt_drop (bs : Bytes) (i k n : Nat) : wordAt (bs.drop n) i k = wordAt bs (n + i) k := by
  simp [wordAt, List.drop_drop]

/-- Past a replaced front of the same length nothing moves. -/
theorem wordAt_append_drop {front bs : Bytes} {i k : Nat} (h : front.length ≤ i) :
    wordAt (front ++ bs.drop front.length) i k = wordAt bs i k := by
  simp only [wordAt, List.drop_append, List.drop_eq_nil_of_le h, List.nil_append, List.drop_drop]
  rw [Nat.add_sub_cancel' h]

/-! ### Big-endian words -/

theorem foldl_be (bs : Bytes) (n : Nat) :
    bs.foldl (fun n b => 256 * n + b.toNat) n = n * 256 ^ bs.length + beNat bs := by
  induction bs generalizing n with
  | nil => simp [beNat]
  | cons b bs ih =>
    have h0 := ih b.toNat
    have h1 := ih (256 * n + b.toNat)
    simp only [beNat, List.foldl_cons, List.length_cons, Nat.mul_zero, Nat.zero_add] at h0 h1 ⊢
    rw [h0, h1, Nat.pow_succ]; ring

theorem beNat_cons (b : UInt8) (bs : Bytes) : beNat (b :: bs) = b.toNat * 256 ^ bs.length + beNat bs := by
  conv_lhs => rw [beNat, List.foldl_cons]
  rw [foldl_be]; simp

@[simp] theorem length_beBytes (k n : Nat) : (beBytes k n).length = k := by
  induction k with
  | zero => rfl
  | succ k ih => simp [beBytes, ih]

@[simp] theorem length_beOfInt (k : Nat) (z : Int) : (beOfInt k z).length = k := length_beBytes ..

theorem beNat_lt (bs : Bytes) : beNat bs < 256 ^ bs.length := by
  induction bs with
  | nil => simp [beNat]
  | cons b bs ih =>
    have hb : b.toNat < 256 := b.toNat_lt
    rw [beNat_cons, List.length_cons, Nat.pow_succ]
    nlinarith

theorem beNat_beBytes (k n : Nat) : beNat (beBytes k n) = n % 256 ^ k := by
  induction k with
  | zero => simp [beBytes, beNat, Nat.mod_one]
  | succ k ih =>
    rw [beBytes, beNat_cons, ih, length_beBytes, UInt8.toNat_ofNat', pow_succ 256 k, Nat.mod_mul]
    rw [Nat.mul_comm, Nat.add_comm]

/-- Writing and reading back a word that fits its width. -/
theorem beInt_beOfInt {k : Nat} {z : Int} (h1 : -(256 ^ k : Nat) ≤ 2 * z) (h2 : 2 * z < (256 ^ k : Nat)) :
    beInt (beOfInt k z) = z := by
  have hpos : 0 < (256 ^ k : Nat) := Nat.pos_of_ne_zero (by simp)
  have hm := Int.emod_nonneg z (b := ((256 ^ k : Nat) : Int)) (by omega)
  have hl := Int.emod_lt_of_pos z (b := ((256 ^ k : Nat) : Int)) (by omega)
  have hn : beNat (beOfInt k z) = (z % (256 ^ k : Nat)).toNat := by
    rw [beOfInt, beNat_beBytes]; exact Nat.mod_eq_of_lt (by omega)
  rw [beInt, hn, length_beOfInt, Int.toNat_of_nonneg hm, Int.emod_bmod]
  exact Int.bmod_eq_of_le_mul_two (by omega) (by omega)

theorem beInt_range (bs : Bytes) :
    -(256 ^ bs.length : Nat) ≤ 2 * beInt bs ∧ 2 * beInt bs < (256 ^ bs.length : Nat) := by
  have hpos : 0 < (256 ^ bs.length : Nat) := Nat.pos_of_ne_zero (by simp)
  have h1 := Int.le_bmod (x := beNat bs) hpos
  have h2 := Int.bmod_lt (x := beNat bs) hpos
  unfold beInt
  rcases Nat.eq_zero_or_pos bs.length with h | h
  · simp only [h, Nat.pow_zero] at *; omega
  · obtain ⟨k, hk⟩ : ∃ k, (256 ^ bs.length : Nat) = 2 * k :=
      ⟨128 * 256 ^ (bs.length - 1), by
        obtain ⟨m, hm⟩ := Nat.exists_eq_succ_of_ne_zero h.ne'
        rw [hm, Nat.succ_sub_one, Nat.pow_succ]; ring⟩
    rw [hk] at h1 h2 ⊢; omega

end Kit
