import MemKafka.Codec
import MemKafka.Lib.Format
import MemKafka.Topics

/-!
# Wire types (`kafka-protocol/src/protocol/types.rs`)

The types that messages are made of. A length comes in three ways: as an `i16`, as an `i32`, and "compact", as an unsigned
varint that is one more than the length; in each, one value is left for null.
-/

namespace MemKafka
open Kit

/-! ### Integers -/

namespace Types

/-- `define_simple_ints`. -/
def simpleInt {α : Type} (size : Nat) (toInt : α → Int) (ofInt : Int → α) : Format α α where
  encode value := some (beOfInt size (toInt value))
  computeSize _ := some size
  fixedSize := some size
  decode buf := do
    let (word, buf) ← tryGet size buf
    some (ofInt (beInt word), buf)

def int8 : Format Int8 Int8 := simpleInt 1 Int8.toInt Int8.ofInt
def int16 : Format Int16 Int16 := simpleInt 2 Int16.toInt Int16.ofInt
def int32 : Format Int32 Int32 := simpleInt 4 Int32.toInt Int32.ofInt
def int64 : Format Int64 Int64 := simpleInt 8 Int64.toInt Int64.ofInt

def boolean : Format Bool Bool where
  encode value := some [if value then 1 else 0]
  computeSize _ := some 1
  fixedSize := some 1
  decode buf := do
    let (word, buf) ← tryGet 1 buf
    some (word ≠ [0], buf)

/-- The loop that writes an unsigned varint, which makes at most `rounds` rounds. -/
def unsignedVarIntBytes : (rounds : Nat) → (value : Nat) → Bytes
  | 0, value => [UInt8.ofNat value]
  | rounds + 1, value =>
    if 0x80 ≤ value then (UInt8.ofNat value ||| 0x80) :: unsignedVarIntBytes rounds (value >>> 7) else [UInt8.ofNat value]

/-- `UnsignedVarInt`, of a value below 2^32. -/
def unsignedVarInt : Format Nat Nat where
  encode value := some (unsignedVarIntBytes 4 value)
  computeSize value := some
    (if value ≤ 0x7f then 1 else if value ≤ 0x3fff then 2 else if value ≤ 0x1fffff then 3 else if value ≤ 0xfffffff then 4 else 5)
  fixedSize := none
  decode := MemKafka.unsignedVarInt

def uuid : Format Uuid Uuid where
  encode value := some (beBytes 16 value.toNat)
  computeSize _ := some 16
  fixedSize := some 16
  decode buf := do
    let (bytes, buf) ← tryGet 16 buf
    some (BitVec.ofNat 128 (beNat bytes), buf)

/-! ### Lengths -/

/-- A length as a signed integer, -1 for null. -/
def signedLength (size limit : Nat) : Format (Option Nat) (Option Nat) where
  encode
    | none => some (beOfInt size (-1))
    | some n => if limit < n then none else some (beOfInt size n)
  computeSize
    | none => some size
    | some n => if limit < n then none else some size
  fixedSize := none
  decode buf := do
    let (word, buf) ← tryGet size buf
    if beInt word = -1 then some (none, buf) else
    if beInt word < 0 then none else
    some (some (beInt word).toNat, buf)

def shortLength : Format (Option Nat) (Option Nat) := signedLength 2 32767

def longLength : Format (Option Nat) (Option Nat) := signedLength 4 2147483647

/-- A length as an unsigned varint, one more than it is, 0 for null. -/
def compactLength : Format (Option Nat) (Option Nat) where
  encode
    | none => unsignedVarInt.encode 0
    | some n => if 0xffffffff ≤ n then none else unsignedVarInt.encode (n + 1)
  computeSize
    | none => some 1
    | some n => if 0xffffffff ≤ n then none else unsignedVarInt.computeSize (n + 1)
  fixedSize := none
  decode buf := do
    let (n, buf) ← unsignedVarInt.decode buf
    some (if n = 0 then none else some (n - 1), buf)

/-! ### Strings, bytes and arrays -/

def fromUtf8 : Option Bytes → Option (Option String)
  | none => some none
  | some bytes => (String.fromUTF8? ⟨bytes.toArray⟩).map some

def utf8 (f : Format (Option Bytes) (Option Bytes)) : Format (Option String) (Option String) :=
  .via (Option.map fun s => s.toByteArray.data.toList) fromUtf8 f

def string : Format (Option String) (Option String) := utf8 (.counted shortLength)

def compactString : Format (Option String) (Option String) := utf8 (.counted compactLength)

def bytes : Format (Option Bytes) (Option Bytes) := .counted longLength

def compactBytes : Format (Option Bytes) (Option Bytes) := .counted compactLength

section
variable {σ α : Type}

def array (f : Format σ α) : Format (Option (List σ)) (Option (List α)) := .listed longLength f

def compactArray (f : Format σ α) : Format (Option (List σ)) (Option (List α)) := .listed compactLength f

end

end Types

/-! ### Integers read what they write -/

section
variable {α : Type} {size : Nat} {toInt : α → Int} {ofInt : Int → α}

theorem tryGet_append (bytes rest : Bytes) : tryGet bytes.length (bytes ++ rest) = some (bytes, rest) := by
  rw [tryGet, if_neg (by simp), List.take_left, List.drop_left]

theorem simpleInt_lawful (inverse : ∀ a, ofInt (toInt a) = a) (low : ∀ a, -(256 ^ size : Nat) ≤ 2 * toInt a)
    (high : ∀ a, 2 * toInt a < (256 ^ size : Nat)) : (Types.simpleInt size toInt ofInt).Lawful (fun _ => True) id where
  size := by
    rintro a _ - ⟨⟩
    rw [length_beOfInt]
    rfl
  fixed := by
    rintro n ⟨⟩ a _ ⟨⟩
    exact length_beOfInt _ _
  decode := by
    rintro a _ - ⟨⟩ rest
    have hget := tryGet_append (beOfInt size (toInt a)) rest
    rw [length_beOfInt] at hget
    simp only [Types.simpleInt, hget, Option.bind_eq_bind, Option.bind_some, beInt_beOfInt (low a) (high a), inverse, id]

instance : Types.int8.Lawful (fun _ => True) id :=
  simpleInt_lawful Int8.ofInt_toInt (fun a => by have := a.le_toInt; omega) fun a => by have := a.toInt_lt; omega

instance : Types.int16.Lawful (fun _ => True) id :=
  simpleInt_lawful Int16.ofInt_toInt (fun a => by have := a.le_toInt; omega) fun a => by have := a.toInt_lt; omega

instance : Types.int32.Lawful (fun _ => True) id :=
  simpleInt_lawful Int32.ofInt_toInt (fun a => by have := a.le_toInt; omega) fun a => by have := a.toInt_lt; omega

instance : Types.int64.Lawful (fun _ => True) id :=
  simpleInt_lawful Int64.ofInt_toInt (fun a => by have := a.le_toInt; omega) fun a => by have := a.toInt_lt; omega

instance : Types.boolean.Lawful (fun _ => True) id where
  size := by rintro a _ - ⟨⟩; rfl
  fixed := by rintro n ⟨⟩ a _ ⟨⟩; rfl
  decode := by
    rintro a _ - ⟨⟩ rest
    cases a <;> rfl

end

/-! ### Varints -/

theorem low_or_high (x : BitVec 32) : (x &&& 0x7f#32) ||| ((x >>> 7) <<< 7) = x := by
  have mask : ∀ i (hi : i < 32), (0x7f#32)[i] = decide (i < 7) := by decide
  ext i hi
  by_cases h : i < 7
  · simp [mask, h]
  · simp [mask, h, show 7 + (i - 7) = i by omega, BitVec.getLsbD_eq_getElem hi]

/-- The seven low bits. -/
theorem toNat_low (n : Nat) : (BitVec.ofNat 32 n &&& 0x7f#32).toNat = n % 128 := by
  rw [BitVec.toNat_and, BitVec.toNat_ofNat]
  have := Nat.and_two_pow_sub_one_eq_mod (n % 2 ^ 32) 7
  have := Nat.mod_mod_of_dvd n (show 128 ∣ 2 ^ 32 by decide)
  simp_all

theorem unsignedVarIntLoop_cons (left : Nat) (acc : BitVec 32) (byte : UInt8) (rest : Bytes) :
    unsignedVarIntLoop (left + 1) acc (byte :: rest) =
      if byte.toNat < 0x80 then some (acc ||| ((BitVec.ofNat 32 byte.toNat &&& 0x7f#32) <<< ((4 - left) * 7)), rest)
      else unsignedVarIntLoop left (acc ||| ((BitVec.ofNat 32 byte.toNat &&& 0x7f#32) <<< ((4 - left) * 7))) rest := by
  have hlt : BitVec.ofNat 32 byte.toNat < 0x80#32 ↔ byte.toNat < 0x80 := by
    have := byte.toNat_lt
    rw [BitVec.lt_def, BitVec.toNat_ofNat, Nat.mod_eq_of_lt (by omega)]
    rfl
  have hget : tryGet 1 (byte :: rest) = some ([byte], rest) := tryGet_append [byte] rest
  simp only [unsignedVarIntLoop, hget, Option.bind_eq_bind, Option.bind_some, beNat, List.foldl_cons, List.foldl_nil,
    Nat.mul_zero, Nat.zero_add, hlt]

/-- A byte without the mark ends the loop. -/
theorem unsignedVarIntLoop_last {rounds value : Nat} (acc : BitVec 32) (rest : Bytes) (h : value < 0x80) :
    unsignedVarIntLoop (rounds + 1) acc (UInt8.ofNat value :: rest) =
      some (acc ||| (BitVec.ofNat 32 value <<< ((4 - rounds) * 7)), rest) := by
  have hbyte : (UInt8.ofNat value).toNat = value := by
    rw [UInt8.toNat_ofNat']
    omega
  have hlow : BitVec.ofNat 32 value &&& 0x7f#32 = BitVec.ofNat 32 value := by
    apply BitVec.eq_of_toNat_eq
    rw [toNat_low, BitVec.toNat_ofNat]
    omega
  rw [unsignedVarIntLoop_cons, hbyte, if_pos h, hlow]

theorem unsignedVarIntLoop_bytes {rounds value : Nat} (acc : BitVec 32) (rest : Bytes) (h : value < 2 ^ (4 + 7 * rounds))
    (hrounds : rounds ≤ 4) : unsignedVarIntLoop (rounds + 1) acc (Types.unsignedVarIntBytes rounds value ++ rest) =
      some (acc ||| (BitVec.ofNat 32 value <<< ((4 - rounds) * 7)), rest) := by
  induction rounds generalizing value acc with
  | zero => exact unsignedVarIntLoop_last acc rest (by omega)
  | succ rounds ih =>
    rw [Types.unsignedVarIntBytes]
    split
    · have hbyte : (UInt8.ofNat value ||| 0x80).toNat = value % 256 ||| 128 := by simp
      have hmarked : ¬ value % 256 ||| 128 < 0x80 := Nat.not_lt.2 Nat.right_le_or
      have hlow : BitVec.ofNat 32 (value % 256 ||| 128) &&& 0x7f#32 = BitVec.ofNat 32 value &&& 0x7f#32 := by
        apply BitVec.eq_of_toNat_eq
        have := @Nat.or_mod_two_pow (value % 256) 128 7
        simp only [toNat_low]
        simp_all
      have hhigh : BitVec.ofNat 32 (value >>> 7) = BitVec.ofNat 32 value >>> 7 := by
        apply BitVec.eq_of_toNat_eq
        have : 2 ^ (4 + 7 * (rounds + 1)) ≤ 2 ^ 32 := Nat.pow_le_pow_right (by omega) (by omega)
        simp only [BitVec.toNat_ushiftRight, BitVec.toNat_ofNat, Nat.shiftRight_eq_div_pow]
        omega
      have hshift : value >>> 7 < 2 ^ (4 + 7 * rounds) := by
        rw [Nat.shiftRight_eq_div_pow, Nat.div_lt_iff_lt_mul (by omega), ← pow_add]
        exact h
      have hround : (4 - rounds) * 7 = 7 + (4 - (rounds + 1)) * 7 := by omega
      rw [List.cons_append, unsignedVarIntLoop_cons, hbyte, if_neg hmarked, hlow, ih _ hshift (by omega), hround,
        BitVec.shiftLeft_add, hhigh, BitVec.or_assoc, ← BitVec.shiftLeft_or_distrib, low_or_high]
    · exact unsignedVarIntLoop_last acc rest (by omega)

theorem length_unsignedVarIntBytes (value : Nat) :
    Types.unsignedVarInt.computeSize value = some (Types.unsignedVarIntBytes 4 value).length := by
  simp only [Types.unsignedVarInt, Types.unsignedVarIntBytes, Nat.shiftRight_eq_div_pow, Option.some.injEq]
  grind

instance : Types.unsignedVarInt.Lawful (· < 2 ^ 32) id where
  size := by
    rintro value _ h ⟨⟩
    exact length_unsignedVarIntBytes value
  fixed := by rintro n ⟨⟩
  decode := by
    rintro value _ h ⟨⟩ rest
    change (unsignedVarIntLoop 5 0 (Types.unsignedVarIntBytes 4 value ++ rest)).bind _ = _
    rw [unsignedVarIntLoop_bytes 0 rest h (by omega)]
    simpa using h

/-! ### Lengths and what they are of -/

section
variable {size limit : Nat}

theorem signedLength_lawful (hsize : 0 < size) (hlimit : 2 * limit < 256 ^ size) :
    (Types.signedLength size limit).Lawful (fun _ => True) id where
  size := by
    rintro (_ | n) bytes - h
    · cases h
      rw [length_beOfInt]
      rfl
    · obtain ⟨hn, ⟨⟩⟩ := Option.ite_none_left_eq_some.1 h
      rw [length_beOfInt]
      exact if_neg hn
  fixed := by rintro n ⟨⟩
  decode := by
    have hwidth : 256 ≤ 256 ^ size := Nat.le_pow hsize
    have read : ∀ (z : Int) rest, -256 ≤ 2 * z → 2 * z < (256 ^ size : Nat) →
        (Types.signedLength size limit).decode (beOfInt size z ++ rest) =
          if z = -1 then some (none, rest) else if z < 0 then none else some (some z.toNat, rest) := by
      intro z rest hlow hhigh
      have hget := tryGet_append (beOfInt size z) rest
      rw [length_beOfInt] at hget
      simp only [Types.signedLength, hget, Option.bind_eq_bind, Option.bind_some, beInt_beOfInt (by omega) hhigh]
    rintro (_ | n) bytes - h rest
    · cases h
      rw [read (-1) rest (by omega) (by omega), if_pos rfl]
      rfl
    · obtain ⟨hn, ⟨⟩⟩ := Option.ite_none_left_eq_some.1 h
      rw [read n rest (by omega) (by omega), if_neg (by omega), if_neg (by omega)]
      rfl

instance : Types.shortLength.Lawful (fun _ => True) id := signedLength_lawful (by decide) (by decide)

instance : Types.longLength.Lawful (fun _ => True) id := signedLength_lawful (by decide) (by decide)

instance : Types.compactLength.Lawful (fun _ => True) id where
  size := by
    rintro (_ | n) bytes - h
    · cases h
      rfl
    · obtain ⟨hn, ⟨⟩⟩ := Option.ite_none_left_eq_some.1 h
      exact (if_neg hn).trans (length_unsignedVarIntBytes (n + 1))
  fixed := by rintro n ⟨⟩
  decode := by
    have read := Format.Lawful.decode (f := Types.unsignedVarInt)
    rintro (_ | n) bytes - h rest
    · simp only [Types.compactLength, read 0 bytes (by decide) h rest, Option.bind_eq_bind, Option.bind_some, id, if_true]
    · obtain ⟨hn, h⟩ := Option.ite_none_left_eq_some.1 h
      simp only [Types.compactLength, read (n + 1) bytes (by omega) h rest, Option.bind_eq_bind, Option.bind_some, id,
        Nat.add_one_ne_zero, if_false, Nat.add_one_sub_one]

theorem fromUtf8_toByteArray (value : Option String) :
    Types.fromUtf8 ((value.map fun s => s.toByteArray.data.toList).map id) = some (value.map id) := by
  cases value with
  | none => rfl
  | some s =>
    change (String.fromUTF8? s.toByteArray).map some = _
    rw [String.fromUTF8?, dif_pos s.isValidUTF8]
    rfl

instance : Types.string.Lawful (fun _ => True) (Option.map id) :=
  Format.via_lawful (f := .counted Types.shortLength) fromUtf8_toByteArray

instance : Types.compactString.Lawful (fun _ => True) (Option.map id) :=
  Format.via_lawful (f := .counted Types.compactLength) fromUtf8_toByteArray

instance : Types.bytes.Lawful (fun _ => True) (Option.map id) := inferInstanceAs ((Format.counted Types.longLength).Lawful _ _)

instance : Types.compactBytes.Lawful (fun _ => True) (Option.map id) :=
  inferInstanceAs ((Format.counted Types.compactLength).Lawful _ _)

variable {σ α : Type} {f : Format σ α} {Ok : σ → Prop} {view : σ → α} [hf : f.Lawful Ok view]

instance : (Types.array f).Lawful (fun value => True ∧ ∀ list, value = some list → ∀ s ∈ list, Ok s) (Option.map (List.map view)) :=
  inferInstanceAs ((Format.listed Types.longLength f).Lawful _ _)

instance : (Types.compactArray f).Lawful (fun value => True ∧ ∀ list, value = some list → ∀ s ∈ list, Ok s)
    (Option.map (List.map view)) :=
  inferInstanceAs ((Format.listed Types.compactLength f).Lawful _ _)

instance : Types.uuid.Lawful (fun _ => True) id where
  size := by
    rintro a _ - ⟨⟩
    rw [length_beBytes]
    rfl
  fixed := by
    rintro n ⟨⟩ a _ ⟨⟩
    exact length_beBytes 16 _
  decode := by
    rintro a _ - ⟨⟩ rest
    have hget := tryGet_append (beBytes 16 a.toNat) rest
    rw [length_beBytes] at hget
    have hsmall : a.toNat % 256 ^ 16 = a.toNat := Nat.mod_eq_of_lt a.isLt
    simp only [Types.uuid, hget, Option.bind_eq_bind, Option.bind_some, beNat_beBytes, hsmall, BitVec.ofNat_toNat,
      BitVec.setWidth_eq, id]

end

end MemKafka
