import MemKafka.WireTypes

/-!
# Tagged fields (`kafka-protocol/src/protocol/mod.rs`)

A flexible message ends in fields that carry their tags, in the order of the tags. What follows is what the fields of
messages are made of: in the flexible versions of a message its lengths are compact.
-/

namespace MemKafka
open Kit

/-! ### Ordered entries -/

/-- `BTreeMap::insert`, into entries in the order of their keys. -/
def insertEntry (tag : Int32) (value : Bytes) : List (Int32 × Bytes) → List (Int32 × Bytes)
  | [] => [(tag, value)]
  | entry :: rest =>
    if tag < entry.1 then (tag, value) :: entry :: rest
    else if entry.1 < tag then entry :: insertEntry tag value rest
    else (tag, value) :: rest

theorem mem_insertEntry {tag : Int32} {value : Bytes} {l : List (Int32 × Bytes)} {entry : Int32 × Bytes}
    (h : entry ∈ insertEntry tag value l) : entry = (tag, value) ∨ entry ∈ l := by
  induction l with
  | nil => exact .inl (List.mem_singleton.1 h)
  | cons first rest ih =>
    unfold insertEntry at h
    split at h
    · exact (List.mem_cons.1 h)
    · split at h
      · rcases List.mem_cons.1 h with rfl | h
        · exact .inr List.mem_cons_self
        · exact (ih h).imp_right (List.mem_cons_of_mem first)
      · exact (List.mem_cons.1 h).imp_right (List.mem_cons_of_mem first)

theorem pairwise_insertEntry {tag : Int32} {value : Bytes} {l : List (Int32 × Bytes)} (h : l.Pairwise (·.1 < ·.1)) :
    (insertEntry tag value l).Pairwise (·.1 < ·.1) := by
  induction l with
  | nil => exact List.pairwise_singleton ..
  | cons first rest ih =>
    obtain ⟨hfirst, hrest⟩ := List.pairwise_cons.1 h
    unfold insertEntry
    split
    · rename_i hlt
      refine List.pairwise_cons.2 ⟨fun entry hentry => ?_, h⟩
      rcases List.mem_cons.1 hentry with rfl | hentry
      · exact hlt
      · exact Int32.lt_trans hlt (hfirst entry hentry)
    · split
      · rename_i hlt
        refine List.pairwise_cons.2 ⟨fun entry hentry => ?_, ih hrest⟩
        rcases mem_insertEntry hentry with rfl | hentry
        · exact hlt
        · exact hfirst entry hentry
      · rename_i hnot hnot'
        obtain rfl : first.1 = tag := Int32.le_antisymm (Int32.not_lt.1 hnot) (Int32.not_lt.1 hnot')
        exact List.pairwise_cons.2 ⟨hfirst, hrest⟩

/-- The fields a message has beyond those of its schema, a `BTreeMap<i32, Bytes>`. -/
structure TaggedFields where
  entries : List (Int32 × Bytes)
  ascending : entries.Pairwise (·.1 < ·.1)
deriving DecidableEq, Repr

namespace TaggedFields

instance : EmptyCollection TaggedFields := ⟨⟨[], .nil⟩⟩

def insert (fields : TaggedFields) (tag : Int32) (value : Bytes) : TaggedFields :=
  ⟨insertEntry tag value fields.entries, pairwise_insertEntry fields.ascending⟩

def collect (entries : List (Int32 × Bytes)) (fields : TaggedFields) : TaggedFields :=
  entries.foldl (fun fields entry => fields.insert entry.1 entry.2) fields

/-- A tag, the size of the value, and the value. -/
def field : Format (Int32 × Bytes) (Int32 × Bytes) where
  encode entry := do
    if 0xffffffff < entry.2.length then none else
    let tag ← Types.unsignedVarInt.encode entry.1.toUInt32.toNat
    let size ← Types.unsignedVarInt.encode entry.2.length
    some (tag ++ size ++ entry.2)
  computeSize entry := do
    if 0xffffffff < entry.2.length then none else
    let tag ← Types.unsignedVarInt.computeSize entry.1.toUInt32.toNat
    let size ← Types.unsignedVarInt.computeSize entry.2.length
    some (tag + size + entry.2.length)
  fixedSize := none
  decode buf := do
    let (tag, buf) ← Types.unsignedVarInt.decode buf
    let (size, buf) ← Types.unsignedVarInt.decode buf
    let (value, buf) ← tryGet size buf
    some (((UInt32.ofNat tag).toInt32, value), buf)

/-- The block at the end of a flexible message. Of the fields, those with a tag from 0 on are written; all are counted. -/
def format : Format TaggedFields TaggedFields where
  encode fields := do
    if 0xffffffff < fields.entries.length then none else
    let count ← Types.unsignedVarInt.encode fields.entries.length
    let written ← Format.encodeAll field (fields.entries.filter (0 ≤ ·.1))
    some (count ++ written)
  computeSize fields := do
    if 0xffffffff < fields.entries.length then none else
    let count ← Types.unsignedVarInt.computeSize fields.entries.length
    let written ← Format.sizes field fields.entries
    some (count + written)
  fixedSize := none
  decode buf := do
    let (count, buf) ← Types.unsignedVarInt.decode buf
    let (entries, buf) ← Format.decodeAll field count buf
    some (collect entries ∅, buf)

section
variable {κ : Type} [DecidableEq κ] (available : Prop) [Decidable available] (known : Format κ κ) (default : κ)

/-- The number of fields of a message that knows tag 0, which it writes unless the value is the default. -/
def countWith (value : κ) (fields : TaggedFields) : Nat :=
  fields.entries.length + if available ∧ value ≠ default then 1 else 0

def encodeKnown (value : κ) : Option Bytes :=
  if available ∧ value ≠ default then do
    let size ← known.computeSize value
    if 0xffffffff < size then none else
    let tag ← Types.unsignedVarInt.encode 0
    let head ← Types.unsignedVarInt.encode size
    let bytes ← known.encode value
    some (tag ++ head ++ bytes)
  else some []

def computeKnownSize (value : κ) : Option Nat :=
  if available ∧ value ≠ default then do
    let size ← known.computeSize value
    if 0xffffffff < size then none else
    let tag ← Types.unsignedVarInt.computeSize 0
    let head ← Types.unsignedVarInt.computeSize size
    some (tag + head + size)
  else some 0

/-- The loop over the fields of a message that knows tag 0. What it knows is read whatever size it has. -/
def decodeWith : (count : Nat) → κ × TaggedFields → Bytes → Option ((κ × TaggedFields) × Bytes)
  | 0, read, buf => some (read, buf)
  | count + 1, read, buf => do
    let (tag, buf) ← Types.unsignedVarInt.decode buf
    let (size, buf) ← Types.unsignedVarInt.decode buf
    if tag = 0 then
      if available then do
        let (value, buf) ← known.decode buf
        decodeWith count (value, read.2) buf
      else none
    else do
      let (value, buf) ← tryGet size buf
      decodeWith count (read.1, read.2.insert (UInt32.ofNat tag).toInt32 value) buf

/-- The block of a message that knows tag 0; of the other fields, those with a tag from 1 on are written. -/
def formatWith : Format (κ × TaggedFields) (κ × TaggedFields) where
  encode written := do
    let count := countWith available default written.1 written.2
    if 0xffffffff < count then none else
    let head ← Types.unsignedVarInt.encode count
    let first ← encodeKnown available known default written.1
    let others ← Format.encodeAll field (written.2.entries.filter (1 ≤ ·.1))
    some (head ++ first ++ others)
  computeSize written := do
    let count := countWith available default written.1 written.2
    if 0xffffffff < count then none else
    let head ← Types.unsignedVarInt.computeSize count
    let first ← computeKnownSize available known default written.1
    let others ← Format.sizes field written.2.entries
    some (head + first + others)
  fixedSize := none
  decode buf := do
    let (count, buf) ← Types.unsignedVarInt.decode buf
    decodeWith available known count (default, ∅) buf

end

end TaggedFields

/-! ### Tagged fields are read in their order -/

namespace TaggedFields

instance : field.Lawful (fun _ => True) id where
  size := by
    rintro ⟨tag, value⟩ bytes - h
    obtain ⟨hlong, ⟨⟩⟩ := Option.ite_none_left_eq_some.1 h
    refine (if_neg hlong).trans ?_
    simp only [length_unsignedVarIntBytes, Option.bind_eq_bind, Option.bind_some, List.length_append]
  fixed := by rintro n ⟨⟩
  decode := by
    rintro ⟨tag, value⟩ bytes - h rest
    obtain ⟨hlong, ⟨⟩⟩ := Option.ite_none_left_eq_some.1 h
    have hread := Format.Lawful.decode (f := Types.unsignedVarInt)
    have htag := hread tag.toUInt32.toNat _ tag.toUInt32.toNat_lt rfl
    have hsize := hread value.length _ (by dsimp only at hlong; omega) rfl
    simp only [field, List.append_assoc, htag, hsize, tryGet_append, Option.bind_eq_bind, Option.bind_some, id,
      UInt32.ofNat_toNat, Int32.toInt32_toUInt32]

theorem insertEntry_last {tag : Int32} {value : Bytes} {l : List (Int32 × Bytes)} (h : ∀ entry ∈ l, entry.1 < tag) :
    insertEntry tag value l = l ++ [(tag, value)] := by
  induction l with
  | nil => rfl
  | cons entry rest ih =>
    obtain ⟨hentry, hrest⟩ := List.forall_mem_cons.1 h
    rw [insertEntry, if_neg (Int32.lt_asymm hentry), if_pos hentry, ih hrest, List.cons_append]

/-- Entries in the order of their tags, all behind those that are there, are appended. -/
theorem entries_collect {fields : TaggedFields} {entries : List (Int32 × Bytes)}
    (h : (fields.entries ++ entries).Pairwise (·.1 < ·.1)) : (collect entries fields).entries = fields.entries ++ entries := by
  induction entries generalizing fields with
  | nil => exact (List.append_nil _).symm
  | cons entry rest ih =>
    have hlast : (fields.insert entry.1 entry.2).entries = fields.entries ++ [entry] :=
      insertEntry_last fun before hbefore => (List.pairwise_append.1 h).2.2 before hbefore entry List.mem_cons_self
    rw [collect, List.foldl_cons]
    have hrest := @ih (fields.insert entry.1 entry.2)
    rw [hlast, List.append_assoc] at hrest
    exact hrest h

/-- Of tags from 0 on, all are written. -/
theorem encode_eq_some {fields : TaggedFields} {bytes : Bytes} (hok : ∀ entry ∈ fields.entries, 0 ≤ entry.1)
    (h : format.encode fields = some bytes) : ¬ 0xffffffff < fields.entries.length ∧ ∃ written,
      Format.encodeAll field fields.entries = some written ∧
      bytes = Types.unsignedVarIntBytes 4 fields.entries.length ++ written := by
  obtain ⟨hmany, h⟩ := Option.ite_none_left_eq_some.1 h
  obtain ⟨count, ⟨⟩, h⟩ := Option.bind_eq_some_iff.1 h
  obtain ⟨written, hwritten, h⟩ := Option.bind_eq_some_iff.1 h
  rw [List.filter_eq_self.2 fun entry hentry => decide_eq_true (hok entry hentry)] at hwritten
  exact ⟨hmany, written, hwritten, (Option.some.inj h).symm⟩

theorem collect_entries (fields : TaggedFields) : collect fields.entries ∅ = fields := by
  have h := @entries_collect ∅ _ fields.ascending
  generalize collect fields.entries ∅ = collected at h
  cases collected
  cases fields
  cases h
  rfl

instance : format.Lawful (fun fields => ∀ entry ∈ fields.entries, 0 ≤ entry.1) id where
  size := by
    rintro fields bytes hok h
    obtain ⟨hmany, written, hwritten, rfl⟩ := encode_eq_some hok h
    have hsizes := Format.sizes_of_encodeAll (fun _ _ => trivial) hwritten
    refine (if_neg hmany).trans ?_
    simp only [length_unsignedVarIntBytes, hsizes, Option.bind_eq_bind, Option.bind_some, List.length_append]
  fixed := by rintro n ⟨⟩
  decode := by
    rintro fields bytes hok h rest
    obtain ⟨hmany, written, hwritten, rfl⟩ := encode_eq_some hok h
    have hcount := Format.Lawful.decode (f := Types.unsignedVarInt) fields.entries.length _ (by omega) rfl
    have hread := Format.decodeAll_of_encodeAll (fun _ _ => trivial) hwritten rest
    simp only [format, List.append_assoc, hcount, id, hread, List.map_id_fun, collect_entries, Option.bind_eq_bind, Option.bind_some]

/-! ### A known field is read before the others -/

section
variable {κ : Type} {available : Prop} [Decidable available] {known : Format κ κ} {Ok : κ → Prop} {view : κ → κ}

/-- Where no tag is 0, every field is unknown. -/
theorem decodeWith_entries {entries : List (Int32 × Bytes)} {bytes : Bytes} (hok : ∀ entry ∈ entries, 1 ≤ entry.1)
    (h : Format.encodeAll field entries = some bytes) (value : κ) (fields : TaggedFields) (rest : Bytes) :
    decodeWith available known entries.length (value, fields) (bytes ++ rest) = some ((value, collect entries fields), rest) := by
  induction entries generalizing bytes fields with
  | nil =>
    cases h
    rfl
  | cons entry entries ih =>
    obtain ⟨hentry, hentries⟩ := List.forall_mem_cons.1 hok
    obtain ⟨first, others, hfirst, hothers, rfl⟩ := Format.encodeAll_cons h
    obtain ⟨hlong, ⟨⟩⟩ := Option.ite_none_left_eq_some.1 hfirst
    have hread := Format.Lawful.decode (f := Types.unsignedVarInt)
    have htag := hread entry.1.toUInt32.toNat _ entry.1.toUInt32.toNat_lt rfl
    have hsize := hread entry.2.length _ (by omega) rfl
    have hunknown : entry.1.toUInt32.toNat ≠ 0 := by
      intro hzero
      have : entry.1 = 0 := by
        rw [← entry.1.toInt32_toUInt32, ← UInt32.ofNat_toNat (x := entry.1.toUInt32), hzero]
        rfl
      exact absurd (this ▸ hentry) (by decide)
    simp only [List.length_cons, decodeWith, List.append_assoc, htag, hsize, tryGet_append, Option.bind_eq_bind, Option.bind_some,
      id, if_neg hunknown, UInt32.ofNat_toNat, Int32.toInt32_toUInt32, ih hentries hothers]
    rfl

variable [DecidableEq κ] {default : κ}

theorem encodeKnown_present [hknown : known.Lawful Ok view] {value : κ} {bytes : Bytes} (hok : Ok value)
    (hpresent : available ∧ value ≠ default) (h : encodeKnown available known default value = some bytes) :
    ∃ body, known.encode value = some body ∧ body.length ≤ 0xffffffff ∧
      computeKnownSize available known default value = some bytes.length ∧
      bytes = Types.unsignedVarIntBytes 4 0 ++ Types.unsignedVarIntBytes 4 body.length ++ body := by
  rw [encodeKnown, if_pos hpresent] at h
  obtain ⟨size, hsize, h⟩ := Option.bind_eq_some_iff.1 h
  obtain ⟨hlong, h⟩ := Option.ite_none_left_eq_some.1 h
  obtain ⟨tag, ⟨⟩, h⟩ := Option.bind_eq_some_iff.1 h
  obtain ⟨head, ⟨⟩, h⟩ := Option.bind_eq_some_iff.1 h
  obtain ⟨body, hbody, h⟩ := Option.bind_eq_some_iff.1 h
  obtain rfl : size = body.length := Option.some.inj (hsize.symm.trans (hknown.size value body hok hbody))
  cases h
  refine ⟨body, hbody, by omega, ?_, rfl⟩
  simp only [computeKnownSize, if_pos hpresent, hsize, length_unsignedVarIntBytes, if_neg hlong, Option.bind_eq_bind,
    Option.bind_some, List.length_append]

theorem formatWith_eq_some {value : κ} {fields : TaggedFields} {bytes : Bytes} (hok : ∀ entry ∈ fields.entries, 1 ≤ entry.1)
    (h : (formatWith available known default).encode (value, fields) = some bytes) :
    ¬ 0xffffffff < countWith available default value fields ∧ ∃ first others,
      encodeKnown available known default value = some first ∧ Format.encodeAll field fields.entries = some others ∧
      bytes = Types.unsignedVarIntBytes 4 (countWith available default value fields) ++ first ++ others := by
  obtain ⟨hmany, h⟩ := Option.ite_none_left_eq_some.1 h
  obtain ⟨head, ⟨⟩, h⟩ := Option.bind_eq_some_iff.1 h
  obtain ⟨first, hfirst, h⟩ := Option.bind_eq_some_iff.1 h
  obtain ⟨others, hothers, h⟩ := Option.bind_eq_some_iff.1 h
  rw [List.filter_eq_self.2 fun entry hentry => decide_eq_true (hok entry hentry)] at hothers
  exact ⟨hmany, first, others, hfirst, hothers, (Option.some.inj h).symm⟩

theorem formatWith_lawful [hknown : known.Lawful Ok view] (hdefault : view default = default) :
    (formatWith available known default).Lawful (fun written => Ok written.1 ∧ ∀ entry ∈ written.2.entries, 1 ≤ entry.1)
      fun written => (if available then view written.1 else default, written.2) where
  size := by
    rintro ⟨value, fields⟩ bytes ⟨hok, htags⟩ h
    obtain ⟨hmany, first, others, hfirst, hothers, rfl⟩ := formatWith_eq_some htags h
    have hsizes := Format.sizes_of_encodeAll (fun _ _ => trivial) hothers
    have hsize : computeKnownSize available known default value = some first.length := by
      by_cases hpresent : available ∧ value ≠ default
      · obtain ⟨body, -, -, hsize, -⟩ := encodeKnown_present hok hpresent hfirst
        exact hsize
      · rw [encodeKnown, if_neg hpresent] at hfirst
        cases hfirst
        exact if_neg hpresent
    simp only [formatWith, if_neg hmany, length_unsignedVarIntBytes, hsize, hsizes, Option.bind_eq_bind, Option.bind_some,
      List.length_append]
  fixed := by rintro n ⟨⟩
  decode := by
    rintro ⟨value, fields⟩ bytes ⟨hok, (htags : ∀ entry ∈ fields.entries, 1 ≤ entry.1)⟩ h rest
    obtain ⟨hmany, first, others, hfirst, hothers, rfl⟩ := formatWith_eq_some htags h
    have hread := Format.Lawful.decode (f := Types.unsignedVarInt)
    have hcount := hread (countWith available default value fields) _ (by omega) rfl
    have hentries := @decodeWith_entries κ available _ known _ _ htags hothers
    simp only [formatWith, List.append_assoc, hcount, id, Option.bind_eq_bind, Option.bind_some]
    by_cases hpresent : available ∧ value ≠ default
    · obtain ⟨body, hbody, hlong, -, rfl⟩ := encodeKnown_present hok hpresent hfirst
      have hbody := hknown.decode value body hok hbody
      have hlength := hread body.length _ (by omega) rfl
      simp only [countWith, if_pos hpresent, if_pos hpresent.1, decodeWith, List.append_assoc, hread 0 _ (by decide) rfl, hlength,
        hbody, hentries, collect_entries, id, Option.bind_eq_bind, Option.bind_some, if_true]
    · rw [encodeKnown, if_neg hpresent] at hfirst
      cases hfirst
      have hvalue : (if available then view value else default) = default := by
        split
        · rename_i havailable
          rw [not_not.1 fun hne => hpresent ⟨havailable, hne⟩, hdefault]
        · rfl
      simp only [countWith, if_neg hpresent, Nat.add_zero, List.nil_append, hentries, collect_entries, hvalue]

end

end TaggedFields

/-- Every tag is one that is written, not only counted. -/
def TaggedFields.WrittenFrom (first : Int32) (fields : TaggedFields) : Prop := ∀ entry ∈ fields.entries, first ≤ entry.1

instance (first : Int32) (fields : TaggedFields) : Decidable (fields.WrittenFrom first) :=
  inferInstanceAs (Decidable (∀ entry ∈ fields.entries, first ≤ entry.1))

theorem TaggedFields.writtenFrom_empty (first : Int32) : (∅ : TaggedFields).WrittenFrom first := by rintro _ ⟨⟩

abbrev TaggedFields.Written : TaggedFields → Prop := WrittenFrom 0

/-! ### Fields of messages -/

namespace Wire
open Format

section
variable (flexible : Prop) [Decidable flexible]

def nullableText : Format (Option String) (Option String) := choose flexible Types.compactString Types.string

def text : Format String String := required (nullableText flexible)

def nullableData : Format (Option Bytes) (Option Bytes) := choose flexible Types.compactBytes Types.bytes

def data : Format Bytes Bytes := required (nullableData flexible)

def list {α : Type} (f : Format α α) : Format (List α) (List α) := required (choose flexible (Types.compactArray f) (Types.array f))

def tagged : Format TaggedFields TaggedFields := whenever flexible TaggedFields.format ∅

def taggedWith {κ : Type} [DecidableEq κ] (available : Prop) [Decidable available] (known : Format κ κ) (default : κ) :
    Format (κ × TaggedFields) (κ × TaggedFields) :=
  whenever flexible (TaggedFields.formatWith available known default) (default, ∅)

instance : (nullableText flexible).Lawful (fun _ => True) (Option.map id) :=
  .weaken (f := choose flexible Types.compactString Types.string) _ _ (fun _ _ => by simp) fun _ => by simp

instance : (text flexible).Lawful (fun _ => True) id := inferInstanceAs ((required (nullableText flexible)).Lawful _ _)

instance : (nullableData flexible).Lawful (fun _ => True) (Option.map id) :=
  .weaken (f := choose flexible Types.compactBytes Types.bytes) _ _ (fun _ _ => by simp) fun _ => by simp

instance : (data flexible).Lawful (fun _ => True) id := inferInstanceAs ((required (nullableData flexible)).Lawful _ _)

instance {α : Type} {f : Format α α} {Ok : α → Prop} {view : α → α} [f.Lawful Ok view] :
    (list flexible f).Lawful (fun l => ∀ a ∈ l, Ok a) (List.map view) :=
  have : (choose flexible (Types.compactArray f) (Types.array f)).Lawful (fun value => ∀ l, value = some l → ∀ a ∈ l, Ok a)
      (Option.map (List.map view)) :=
    .weaken (f := choose flexible (Types.compactArray f) (Types.array f)) _ _ (fun _ h => by simpa using h) fun _ => by simp
  .weaken (f := required (choose flexible (Types.compactArray f) (Types.array f))) _ _ (fun _ h => by rintro _ ⟨⟩; exact h)
    fun _ => rfl

instance : (tagged flexible).Lawful TaggedFields.Written (fun fields => if flexible then fields else ∅) :=
  .weaken (f := whenever flexible TaggedFields.format ∅) _ _ (fun fields h => by split; exacts [h, trivial]) fun _ => by simp

theorem taggedWith_lawful {κ : Type} [DecidableEq κ] (available : Prop) [Decidable available] (known : Format κ κ) {Ok : κ → Prop}
    {view : κ → κ} [known.Lawful Ok view] {default : κ} (hdefault : view default = default) :
    (taggedWith flexible available known default).Lawful (fun written => Ok written.1 ∧ written.2.WrittenFrom 1)
      fun written => if flexible then (if available then view written.1 else default, written.2) else (default, ∅) :=
  have := @TaggedFields.formatWith_lawful κ available _ known Ok view _ default _ hdefault
  .weaken (f := whenever flexible (TaggedFields.formatWith available known default) (default, ∅)) _ _
    (fun written h => by split; exacts [h, trivial]) fun _ => rfl

end

end Wire

end MemKafka
