import MemKafka.Lib.Bytes

/-!
# Formats

A `Format σ α` writes a `σ` as bytes, computes their number without writing them, and reads an `α` off the front of a byte
string. A record is put together from its fields: each writes its part of the whole record, and what they read is
collected by the applicative operators. `Lawful f Ok view` is the law of a round trip: what was written of
an `Ok` value has the computed size, and with anything behind it is read as the `view` of the value. The class finds it for
every format that is put together from lawful ones.
-/

namespace Kit

structure Format (σ α : Type) where
  encode : σ → Option Bytes
  computeSize : σ → Option Nat
  /-- The size of every value, if that is known beforehand. -/
  fixedSize : Option Nat
  decode : Bytes → Option (α × Bytes)

namespace Format

variable {σ τ α β : Type}

/-- Writes nothing and reads this. -/
def skip (a : α) : Format σ α where
  encode _ := some []
  computeSize _ := some 0
  fixedSize := none
  decode buf := some (a, buf)

/-- One format after the other. -/
def both (f : Format σ (α → β)) (g : Format σ α) : Format σ β where
  encode s := do
    let first ← f.encode s
    let second ← g.encode s
    some (first ++ second)
  computeSize s := do
    let first ← f.computeSize s
    let second ← g.computeSize s
    some (first + second)
  fixedSize := none
  decode buf := do
    let (make, buf) ← f.decode buf
    let (a, buf) ← g.decode buf
    some (make a, buf)

instance : Applicative (Format σ) where
  pure := skip
  seq f g := both f (g ())

theorem encode_map (make : α → β) (f : Format σ α) (s : σ) : (make <$> f).encode s = f.encode s := by
  change ((some []).bind fun first => (f.encode s).bind fun second => some (first ++ second)) = _
  simp

theorem encode_seq (g : Format σ (α → β)) (f : Format σ α) (s : σ) :
    (g <*> f).encode s = (g.encode s).bind fun first => (f.encode s).bind fun second => some (first ++ second) := rfl

theorem decode_map (make : α → β) (f : Format σ α) (buf : Bytes) :
    (make <$> f).decode buf = (f.decode buf).bind fun (a, buf) => some (make a, buf) := rfl

theorem decode_seq (g : Format σ (α → β)) (f : Format σ α) (buf : Bytes) :
    (g <*> f).decode buf = (g.decode buf).bind fun (make, buf) => (f.decode buf).bind fun (a, buf) => some (make a, buf) := rfl

/-- The format of a part. -/
def of (part : σ → τ) (f : Format τ α) : Format σ α where
  encode s := f.encode (part s)
  computeSize s := f.computeSize (part s)
  fixedSize := f.fixedSize
  decode := f.decode

def choose (p : Prop) [Decidable p] (f g : Format σ α) : Format σ α := if p then f else g

/-- A field that is left out where it is not available. -/
def whenever (p : Prop) [Decidable p] (f : Format α α) (default : α) : Format α α := choose p f (skip default)

/-- A field that must not be set where it is not available. -/
def only (p : Prop) [Decidable p] (f : Format α α) (unset : α → Bool) (default : α) : Format α α :=
  choose p f {
    encode a := if unset a then some [] else none
    computeSize a := if unset a then some 0 else none
    fixedSize := none
    decode buf := some (default, buf) }

/-- A message that is written and read in a range of versions. Its size is computed in every version. -/
def within (min max version : Int) (f : Format σ α) : Format σ α where
  encode s := if version < min ∨ max < version then none else f.encode s
  computeSize := f.computeSize
  fixedSize := none
  decode buf := if version < min ∨ max < version then none else f.decode buf

/-- A value that must be there. -/
def required (f : Format (Option α) (Option α)) : Format α α where
  encode a := f.encode (some a)
  computeSize a := f.computeSize (some a)
  fixedSize := none
  decode buf := do
    let (a, buf) ← f.decode buf
    some (← a, buf)

/-- Bytes behind their number, which may be null. -/
def counted (length : Format (Option Nat) (Option Nat)) : Format (Option Bytes) (Option Bytes) where
  encode
    | none => length.encode none
    | some bytes => do
      let head ← length.encode (some bytes.length)
      some (head ++ bytes)
  computeSize
    | none => length.computeSize none
    | some bytes => do
      let head ← length.computeSize (some bytes.length)
      some (head + bytes.length)
  fixedSize := none
  decode buf := do
    let (n, buf) ← length.decode buf
    match n with
    | none => some (none, buf)
    | some n =>
      if buf.length < n then none else
      some (some (buf.take n), buf.drop n)

/-- What is written as another value, and read only if that is one of those. -/
def via (write : α → β) (read : β → Option α) (f : Format β β) : Format α α where
  encode a := f.encode (write a)
  computeSize a := f.computeSize (write a)
  fixedSize := none
  decode buf := do
    let (b, buf) ← f.decode buf
    some (← read b, buf)

def encodeAll (f : Format σ α) : List σ → Option Bytes
  | [] => some []
  | s :: rest => do
    let first ← f.encode s
    let others ← encodeAll f rest
    some (first ++ others)

def sizes (f : Format σ α) : List σ → Option Nat
  | [] => some 0
  | s :: rest => do
    let first ← f.computeSize s
    let others ← sizes f rest
    some (first + others)

/-- Elements of a fixed size are not looked at. -/
def computeSizeAll (f : Format σ α) (list : List σ) : Option Nat :=
  match f.fixedSize with
  | some size => some (list.length * size)
  | none => sizes f list

def decodeAll (f : Format σ α) : (count : Nat) → Bytes → Option (List α × Bytes)
  | 0, buf => some ([], buf)
  | count + 1, buf => do
    let (a, buf) ← f.decode buf
    let (others, buf) ← decodeAll f count buf
    some (a :: others, buf)

/-- Elements behind their number, which may be null. -/
def listed (length : Format (Option Nat) (Option Nat)) (f : Format σ α) : Format (Option (List σ)) (Option (List α)) where
  encode
    | none => length.encode none
    | some list => do
      let head ← length.encode (some list.length)
      let elements ← encodeAll f list
      some (head ++ elements)
  computeSize
    | none => length.computeSize none
    | some list => do
      let head ← length.computeSize (some list.length)
      let elements ← computeSizeAll f list
      some (head + elements)
  fixedSize := none
  decode buf := do
    let (n, buf) ← length.decode buf
    match n with
    | none => some (none, buf)
    | some n => do
      let (list, buf) ← decodeAll f n buf
      some (some list, buf)

/-! ### The law -/

class Lawful (f : Format σ α) (Ok : outParam (σ → Prop)) (view : outParam (σ → α)) : Prop where
  size : ∀ s bytes, Ok s → f.encode s = some bytes → f.computeSize s = some bytes.length
  fixed : ∀ n, f.fixedSize = some n → ∀ s bytes, f.encode s = some bytes → bytes.length = n
  decode : ∀ s bytes, Ok s → f.encode s = some bytes → ∀ rest, f.decode (bytes ++ rest) = some (view s, rest)

section
variable {f : Format σ α} {Ok : σ → Prop} {view : σ → α}

theorem Lawful.weaken (Ok' : σ → Prop) (view' : σ → α) [h : f.Lawful Ok view] (hok : ∀ s, Ok' s → Ok s)
    (hview : ∀ s, view s = view' s) : f.Lawful Ok' view' where
  size s bytes hs := h.size s bytes (hok s hs)
  fixed := h.fixed
  decode s bytes hs henc rest := by rw [h.decode s bytes (hok s hs) henc rest, hview]

instance (a : α) : (skip a : Format σ α).Lawful (fun _ => True) fun _ => a where
  size := by rintro s _ - ⟨⟩; rfl
  fixed := by rintro n ⟨⟩
  decode := by rintro s _ - ⟨⟩ rest; rfl

theorem both_encode {g : Format σ (α → β)} {s : σ} {bytes : Bytes} (h : (both g f).encode s = some bytes) :
    ∃ first second, g.encode s = some first ∧ f.encode s = some second ∧ bytes = first ++ second := by
  obtain ⟨first, hfirst, h⟩ := Option.bind_eq_some_iff.1 h
  obtain ⟨second, hsecond, h⟩ := Option.bind_eq_some_iff.1 h
  exact ⟨first, second, hfirst, hsecond, (Option.some.inj h).symm⟩

instance {g : Format σ (α → β)} {Ok' : σ → Prop} {make : σ → α → β} [hg : g.Lawful Ok' make] [hf : f.Lawful Ok view] :
    (g <*> f).Lawful (fun s => Ok' s ∧ Ok s) fun s => make s (view s) where
  size := by
    rintro s bytes ⟨hok', hok⟩ h
    obtain ⟨first, second, hfirst, hsecond, rfl⟩ := both_encode h
    change (both g f).computeSize s = _
    simp only [both, hg.size s first hok' hfirst, hf.size s second hok hsecond, Option.bind_eq_bind, Option.bind_some, List.length_append]
  fixed := by rintro n ⟨⟩
  decode := by
    rintro s bytes ⟨hok', hok⟩ h rest
    obtain ⟨first, second, hfirst, hsecond, rfl⟩ := both_encode h
    change (both g f).decode _ = _
    simp only [both, List.append_assoc, hg.decode s first hok' hfirst, Option.bind_eq_bind, Option.bind_some, hf.decode s second hok hsecond]

instance (make : α → β) [hf : f.Lawful Ok view] : (make <$> f).Lawful (fun s => True ∧ Ok s) fun s => make (view s) :=
  inferInstanceAs ((skip make <*> f).Lawful _ _)

instance (part : τ → σ) [hf : f.Lawful Ok view] : (of part f).Lawful (fun s => Ok (part s)) fun s => view (part s) where
  size s := hf.size (part s)
  fixed n hn s := hf.fixed n hn (part s)
  decode s := hf.decode (part s)

instance (p : Prop) [Decidable p] {g : Format σ α} {Ok' : σ → Prop} {view' : σ → α} [hf : f.Lawful Ok view] [hg : g.Lawful Ok' view'] :
    (choose p f g).Lawful (fun s => if p then Ok s else Ok' s) fun s => if p then view s else view' s := by
  unfold choose
  split
  · exact hf
  · exact hg

instance (p : Prop) [Decidable p] {f : Format α α} {Ok : α → Prop} {view : α → α} (default : α) [f.Lawful Ok view] :
    (whenever p f default).Lawful (fun a => if p then Ok a else True) fun a => if p then view a else default :=
  inferInstanceAs ((choose p f (skip default)).Lawful _ _)

instance (p : Prop) [Decidable p] {f : Format α α} {Ok : α → Prop} {view : α → α} (unset : α → Bool) (default : α)
    [hf : f.Lawful Ok view] : (only p f unset default).Lawful (fun a => if p then Ok a else True) fun a => if p then view a else default := by
  unfold only choose
  split
  · exact hf
  · refine ⟨?_, by rintro n ⟨⟩, ?_⟩
    · rintro s bytes - h
      obtain ⟨hunset, ⟨⟩⟩ := Option.ite_none_right_eq_some.1 h
      exact if_pos hunset
    · rintro s bytes - h rest
      obtain ⟨-, ⟨⟩⟩ := Option.ite_none_right_eq_some.1 h
      rfl

instance (min max version : Int) [hf : f.Lawful Ok view] : (within min max version f).Lawful Ok view where
  size s bytes hok h := hf.size s bytes hok (Option.ite_none_left_eq_some.1 h).2
  fixed := by rintro n ⟨⟩
  decode s bytes hok h rest := by
    obtain ⟨hversion, h⟩ := Option.ite_none_left_eq_some.1 h
    exact (if_neg hversion).trans (hf.decode s bytes hok h rest)

instance {f : Format (Option α) (Option α)} {Ok : Option α → Prop} {view : α → α} [hf : f.Lawful Ok (Option.map view)] :
    (required f).Lawful (fun a => Ok (some a)) view where
  size a := hf.size (some a)
  fixed := by rintro n ⟨⟩
  decode a bytes hok h rest := by
    simp only [required, hf.decode (some a) bytes hok h rest, Option.bind_eq_bind, Option.bind_some, Option.map_some]

theorem via_lawful {f : Format β β} {Ok : β → Prop} {view : β → β} [hf : f.Lawful Ok view] {write : α → β} {read : β → Option α}
    {view' : α → α} (inverse : ∀ a, read (view (write a)) = some (view' a)) :
    (via write read f).Lawful (fun a => Ok (write a)) view' where
  size a := hf.size (write a)
  fixed := by rintro n ⟨⟩
  decode a bytes hok h rest := by
    simp only [via, hf.decode (write a) bytes hok h rest, Option.bind_eq_bind, Option.bind_some, inverse]

end

/-! ### What follows its number -/

section
variable {length : Format (Option Nat) (Option Nat)} {Ok : Option Nat → Prop} [hlength : length.Lawful Ok id]

instance : (counted length).Lawful (fun value => Ok (value.map List.length)) (Option.map id) where
  size value bytes hok h := by
    cases value with
    | none => exact hlength.size none bytes hok h
    | some value =>
      obtain ⟨head, hhead, h⟩ := Option.bind_eq_some_iff.1 h
      cases h
      simp only [counted, hlength.size (some value.length) head hok hhead, Option.bind_eq_bind, Option.bind_some, List.length_append]
  fixed := by rintro n ⟨⟩
  decode value bytes hok h rest := by
    cases value with
    | none => simp only [counted, hlength.decode none bytes hok h rest, Option.bind_eq_bind, Option.bind_some, id, Option.map_none]
    | some value =>
      obtain ⟨head, hhead, h⟩ := Option.bind_eq_some_iff.1 h
      cases h
      have hlong : ¬ (value ++ rest).length < value.length := by simp
      simp only [counted, List.append_assoc, hlength.decode (some value.length) head hok hhead, Option.bind_eq_bind, Option.bind_some, id,
        if_neg hlong, List.take_left, List.drop_left, Option.map_some]

variable {f : Format σ α} {OkItem : σ → Prop} {view : σ → α} [hf : f.Lawful OkItem view]

theorem encodeAll_cons {s : σ} {list : List σ} {bytes : Bytes} (h : encodeAll f (s :: list) = some bytes) :
    ∃ first others, f.encode s = some first ∧ encodeAll f list = some others ∧ bytes = first ++ others := by
  obtain ⟨first, hfirst, h⟩ := Option.bind_eq_some_iff.1 h
  obtain ⟨others, hothers, h⟩ := Option.bind_eq_some_iff.1 h
  exact ⟨first, others, hfirst, hothers, (Option.some.inj h).symm⟩

include hf in
theorem sizes_of_encodeAll {list : List σ} {bytes : Bytes} (hok : ∀ s ∈ list, OkItem s) (h : encodeAll f list = some bytes) :
    sizes f list = some bytes.length := by
  induction list generalizing bytes with
  | nil =>
    cases h
    rfl
  | cons s list ih =>
    obtain ⟨hs, hlist⟩ := List.forall_mem_cons.1 hok
    obtain ⟨first, others, hfirst, hothers, rfl⟩ := encodeAll_cons h
    simp only [sizes, hf.size s first hs hfirst, ih hlist hothers, Option.bind_eq_bind, Option.bind_some, List.length_append]

include hf in
theorem length_of_encodeAll {size : Nat} (hsize : f.fixedSize = some size) {list : List σ} {bytes : Bytes}
    (h : encodeAll f list = some bytes) : bytes.length = list.length * size := by
  induction list generalizing bytes with
  | nil =>
    cases h
    exact (Nat.zero_mul size).symm
  | cons s list ih =>
    obtain ⟨first, others, hfirst, hothers, rfl⟩ := encodeAll_cons h
    rw [List.length_append, hf.fixed size hsize s first hfirst, ih hothers, List.length_cons, Nat.succ_mul, Nat.add_comm]

include hf in
theorem computeSizeAll_of_encodeAll {list : List σ} {bytes : Bytes} (hok : ∀ s ∈ list, OkItem s)
    (h : encodeAll f list = some bytes) : computeSizeAll f list = some bytes.length := by
  unfold computeSizeAll
  cases hsize : f.fixedSize with
  | some size => exact congrArg some (length_of_encodeAll hsize h).symm
  | none => exact sizes_of_encodeAll hok h

include hf in
theorem decodeAll_of_encodeAll {list : List σ} {bytes : Bytes} (hok : ∀ s ∈ list, OkItem s) (h : encodeAll f list = some bytes)
    (rest : Bytes) : decodeAll f list.length (bytes ++ rest) = some (list.map view, rest) := by
  induction list generalizing bytes with
  | nil =>
    cases h
    rfl
  | cons s list ih =>
    obtain ⟨hs, hlist⟩ := List.forall_mem_cons.1 hok
    obtain ⟨first, others, hfirst, hothers, rfl⟩ := encodeAll_cons h
    simp only [List.length_cons, decodeAll, List.append_assoc, hf.decode s first hs hfirst, ih hlist hothers,
      Option.bind_eq_bind, Option.bind_some, List.map_cons]

instance : (listed length f).Lawful (fun value => Ok (value.map List.length) ∧ ∀ list, value = some list → ∀ s ∈ list, OkItem s)
    (Option.map (List.map view)) where
  size value bytes hok h := by
    cases value with
    | none => exact hlength.size none bytes hok.1 h
    | some list =>
      obtain ⟨head, hhead, h⟩ := Option.bind_eq_some_iff.1 h
      obtain ⟨elements, helements, h⟩ := Option.bind_eq_some_iff.1 h
      cases h
      simp only [listed, hlength.size (some list.length) head hok.1 hhead, computeSizeAll_of_encodeAll (hok.2 list rfl) helements,
        Option.bind_eq_bind, Option.bind_some, List.length_append]
  fixed := by rintro n ⟨⟩
  decode value bytes hok h rest := by
    cases value with
    | none => simp only [listed, hlength.decode none bytes hok.1 h rest, Option.bind_eq_bind, Option.bind_some, id, Option.map_none]
    | some list =>
      obtain ⟨head, hhead, h⟩ := Option.bind_eq_some_iff.1 h
      obtain ⟨elements, helements, h⟩ := Option.bind_eq_some_iff.1 h
      cases h
      have hlist := decodeAll_of_encodeAll (hok.2 list rfl) helements rest
      simp only [listed, List.append_assoc, hlength.decode (some list.length) head hok.1 hhead, Option.bind_eq_bind, Option.bind_some, id,
        Option.map_some, hlist]

end

end Format

end Kit
