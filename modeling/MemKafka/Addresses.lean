import MemKafka.Lib.Text

/-!
# Advertised addresses (`AdvertisedAddress` in `config.rs`)

An address is parsed from `host:port`, or from `[host]:port` if the host has a colon. Brackets are told by the first
character of the text when it is parsed, and by a colon in the host when it is written: the two disagree about a host
that begins with a bracket and has no colon (`advertised_address_round_trip`).
-/

namespace MemKafka
open Kit

structure ConfigError where
  message : String
deriving DecidableEq, Repr

def invalidAdvertisedAddress (value reason : String) : ConfigError :=
  ⟨"invalid Kafka advertised address '" ++ value ++ "': " ++ reason⟩

/-- `char::is_whitespace`: the characters with the property `White_Space`. -/
def isWhitespace (c : Char) : Bool :=
  let n := c.toNat
  9 ≤ n && n ≤ 13 || n = 0x20 || n = 0x85 || n = 0xA0 || n = 0x1680 || 0x2000 ≤ n && n ≤ 0x200A || n = 0x2028 ||
    n = 0x2029 || n = 0x202F || n = 0x205F || n = 0x3000

structure AdvertisedAddress where
  host : String
  port : UInt16
  host_ne : host ≠ ""
  trimmed : trim isWhitespace host.toList = host.toList
  port_ne : port ≠ 0
deriving DecidableEq

namespace AdvertisedAddress

def new (host : String) (port : UInt16) : Except ConfigError AdvertisedAddress :=
  let host' := String.ofList (trim isWhitespace host.toList)
  if hhost : host' = "" then .error ⟨"advertised host must not be empty"⟩ else
  if hport : port = 0 then .error ⟨"advertised port must be greater than zero"⟩ else
  .ok ⟨host', port, hhost, by simp only [host', String.toList_ofList, trim_trim], hport⟩

/-- `fmt`. -/
def display (a : AdvertisedAddress) : String :=
  if ':' ∈ a.host.toList then "[" ++ a.host ++ "]:" ++ toString a.port.toNat else a.host ++ ":" ++ toString a.port.toNat

/-- The digits of a number behind its plus sign, if there is one. -/
def withoutPlus (text : List Char) : List Char :=
  match text with
  | '+' :: digits => digits
  | text => text

/-- `str::parse` for `u16`. -/
def parsePort (text : List Char) : Option UInt16 :=
  if withoutPlus text = [] then none else (decimal 65535 0 (withoutPlus text)).map UInt16.ofNat

/-- The host and the port in the text of an address. -/
def hostAndPort (text : List Char) : Option (List Char × List Char) :=
  match text with
  | '[' :: withoutOpeningBracket => rsplitOnce [']', ':'] withoutOpeningBracket
  | text => (rsplitOnce [':'] text).bind fun (host, port) => if ':' ∈ host then none else some (host, port)

def fromStr (value : String) : Except ConfigError AdvertisedAddress :=
  match hostAndPort value.toList with
  | none => .error (invalidAdvertisedAddress value "expected host:port")
  | some (host, port) =>
    match parsePort port with
    | none => .error (invalidAdvertisedAddress value "port must be an integer from 1 to 65535")
    | some port =>
      match new (String.ofList host) port with
      | .error error => .error (invalidAdvertisedAddress value error.message)
      | .ok address => .ok address

/-! ### Parts of an address -/

section
variable {value : String} {text host port : List Char} {a : AdvertisedAddress} {number : UInt16}

theorem new_self (a : AdvertisedAddress) : new a.host a.port = .ok a := by
  have hhost : String.ofList (trim isWhitespace a.host.toList) = a.host := by rw [a.trimmed, String.ofList_toList]
  simp only [new, hhost, dif_neg a.host_ne, dif_neg a.port_ne]

theorem new_host {host : String} (h : new host number = .ok a) :
    a.host.toList = trim isWhitespace host.toList ∧ a.port = number := by
  unfold new at h
  dsimp only at h
  split at h
  · cases h
  split at h <;> cases h
  exact ⟨String.toList_ofList, rfl⟩

theorem not_mem_digits {n : Nat} {c : Char} (hc : c.isDigit = false) : c ∉ Nat.toDigits 10 n := fun h => by
  simp [Nat.isDigit_of_mem_toDigits (by decide) (by decide) h] at hc

theorem parsePort_toDigits : parsePort (Nat.toDigits 10 number.toNat) = some number := by
  have hplus : withoutPlus (Nat.toDigits 10 number.toNat) = Nat.toDigits 10 number.toNat := by
    unfold withoutPlus
    split
    · rename_i heq
      exact absurd (heq ▸ List.mem_cons_self) (not_mem_digits (c := '+') (n := number.toNat) (by decide))
    · rfl
  rw [parsePort, hplus, if_neg Nat.toDigits_ne_nil, decimal_toDigits (Nat.le_of_lt_succ number.toNat_lt), Option.map_some,
    UInt16.ofNat_toNat]

theorem mem_of_parsePort (h : parsePort port = some number) : ∀ c ∈ port, c.isDigit ∨ c = '+' := by
  obtain ⟨-, h⟩ := Option.ite_none_left_eq_some.1 h
  obtain ⟨n, hn, -⟩ := Option.map_eq_some_iff.1 h
  have hdigits := isDigit_of_decimal hn
  unfold withoutPlus at hdigits
  split at hdigits
  · intro c hc
    rcases List.mem_cons.1 hc with rfl | hc
    · exact .inr rfl
    · exact .inl (hdigits c hc)
  · exact fun c hc => .inl (hdigits c hc)

theorem fromStr_ok (h : fromStr value = .ok a) : ∃ host port, hostAndPort value.toList = some (host, port) ∧
    parsePort port = some a.port ∧ a.host.toList = trim isWhitespace host := by
  unfold fromStr at h
  split at h
  · cases h
  rename_i host port hsplit
  split at h
  · cases h
  rename_i number hnumber
  split at h
  · cases h
  rename_i a' hnew
  obtain rfl := Except.ok.inj h
  obtain ⟨hhost, hport⟩ := new_host hnew
  exact ⟨host, port, hsplit, by rw [hnumber, hport], by rw [hhost, String.toList_ofList]⟩

/-- An address is parsed from the text of its own host and port. -/
theorem fromStr_of_split (h : hostAndPort value.toList = some (a.host.toList, Nat.toDigits 10 a.port.toNat)) :
    fromStr value = .ok a := by
  simp only [fromStr, h, parsePort_toDigits, String.ofList_toList, new_self]

/-! ### Brackets -/

/-- The text behind its opening bracket, if there is one. -/
def withoutBracket (text : List Char) : List Char :=
  match text with
  | '[' :: text => text
  | text => text

theorem hostAndPort_append (h : hostAndPort text = some (host, port)) :
    ∃ sep, withoutBracket text = host ++ (sep ++ port) ∧ sep.count ':' = 1 := by
  unfold hostAndPort at h
  split at h
  · exact ⟨[']', ':'], rsplitOnce_append h, by decide⟩
  · obtain ⟨⟨host', port'⟩, hsplit, h⟩ := Option.bind_eq_some_iff.1 h
    dsimp only at h
    split at h <;> cases h
    refine ⟨[':'], ?_, by decide⟩
    rw [← rsplitOnce_append hsplit, withoutBracket]
    assumption

/-- A host that is written without brackets and begins with one. -/
def BeginsWithBracket (a : AdvertisedAddress) : Prop := a.host.toList.head? = some '[' ∧ ':' ∉ a.host.toList

theorem toList_host_ne (a : AdvertisedAddress) : a.host.toList ≠ [] := fun h => a.host_ne (by simpa using h)

theorem toList_display (a : AdvertisedAddress) : a.display.toList =
    if ':' ∈ a.host.toList then '[' :: (a.host.toList ++ ([']', ':'] ++ Nat.toDigits 10 a.port.toNat))
    else a.host.toList ++ ([':'] ++ Nat.toDigits 10 a.port.toNat) := by
  unfold display
  split <;> simp

/-- What is written without brackets is not parsed as if it had them, unless the host begins with one. -/
theorem hostAndPort_display (h : ¬ BeginsWithBracket a) :
    hostAndPort a.display.toList = some (a.host.toList, Nat.toDigits 10 a.port.toNat) := by
  rw [toList_display]
  by_cases hcolon : ':' ∈ a.host.toList
  · rw [if_pos hcolon, hostAndPort]
    refine rsplitOnce_eq (by simp) fun hinfix => ?_
    have hmem : ']' ∈ ':' :: Nat.toDigits 10 a.port.toNat := hinfix.subset (by simp)
    exact not_mem_digits (by decide) ((List.mem_cons.1 hmem).resolve_left (by decide))
  · have hsplit : rsplitOnce [':'] (a.host.toList ++ ([':'] ++ Nat.toDigits 10 a.port.toNat)) =
        some (a.host.toList, Nat.toDigits 10 a.port.toNat) :=
      rsplitOnce_eq (by simp) fun hmem => not_mem_digits (c := ':') (by decide) (hmem.subset (by simp))
    rw [if_neg hcolon]
    unfold hostAndPort
    split
    · rename_i rest heq
      have hhead := congrArg List.head? heq
      rw [List.head?_append_of_ne_nil _ a.toList_host_ne] at hhead
      exact absurd ⟨hhead, hcolon⟩ h
    · simp only [hsplit, Option.bind_some, if_neg hcolon]

/-- The bracket of a host is taken for that of the address, so that another host is parsed, or none. -/
theorem display_other_host (h : BeginsWithBracket a) {a' : AdvertisedAddress} (hparse : fromStr a.display = .ok a') :
    a'.host ≠ a.host := by
  obtain ⟨hhead, hcolon⟩ := h
  obtain ⟨host, port, hsplit, hport, hhost⟩ := fromStr_ok hparse
  obtain ⟨rest, hrest⟩ := List.head?_eq_some_iff.1 hhead
  rw [toList_display, if_neg hcolon, hrest, List.cons_append, hostAndPort] at hsplit
  have htext := rsplitOnce_append hsplit
  have hdigits : Nat.toDigits 10 a.port.toNat = port := by
    have htext : rest ++ ':' :: Nat.toDigits 10 a.port.toNat = (host ++ [']']) ++ ':' :: port := by simpa using htext
    refine eq_of_append_cons htext (not_mem_digits (by decide)) fun hmem => ?_
    exact absurd (mem_of_parsePort hport ':' hmem) (by decide)
  have hlength := congrArg List.length htext
  simp only [List.length_append, List.length_cons, List.length_nil, hdigits] at hlength
  have hshort : a'.host.toList.length ≤ host.length := by
    rw [hhost]
    exact trim_sublist.length_le
  intro heq
  rw [heq, hrest, List.length_cons] at hshort
  omega

/-- Whether the text of an address, behind its opening bracket if there is one, begins with a bracket and has one colon. -/
def strayBracket (value : String) : Bool :=
  let text := withoutBracket value.toList
  (text.dropWhile isWhitespace).head? = some '[' ∧ text.count ':' = 1

theorem strayBracket_iff (h : fromStr value = .ok a) : strayBracket value = true ↔ BeginsWithBracket a := by
  obtain ⟨host, port, hsplit, hport, hhost⟩ := fromStr_ok h
  obtain ⟨sep, htext, hsep⟩ := hostAndPort_append hsplit
  have hne : trim isWhitespace host ≠ [] := hhost ▸ a.toList_host_ne
  have hdrop : host.dropWhile isWhitespace ≠ [] := fun hnil => hne (by rw [trim, hnil, List.rdropWhile_nil])
  have hport : port.count ':' = 0 :=
    List.count_eq_zero.2 fun hmem => absurd (mem_of_parsePort hport ':' hmem) (by decide)
  have hcolon : ':' ∈ trim isWhitespace host ↔ ':' ∈ host := ⟨mem_of_mem_trim, fun hmem => mem_trim hmem (by decide)⟩
  rw [strayBracket, BeginsWithBracket, hhost, head?_trim hne, hcolon, htext, List.dropWhile_append]
  simp [hdrop, hsep, hport, List.head?_append_of_ne_nil _ hdrop, List.count_eq_zero]

end

end AdvertisedAddress

open AdvertisedAddress

/-- An address that is parsed is parsed again from what is written of it, except if its text has a bracket at the
beginning of the host, behind the one that goes with the address, and no colon in the host. -/
theorem advertised_address_round_trip (value : String) (a : AdvertisedAddress) (h : fromStr value = .ok a) :
    (∃ a', fromStr a.display = .ok a' ∧ a'.host = a.host ∧ a'.port = a.port) ↔ strayBracket value = false := by
  rw [← Bool.not_eq_true, strayBracket_iff h]
  constructor
  · rintro ⟨a', hparse, hhost, -⟩ hbracket
    exact display_other_host hbracket hparse hhost
  · intro hbracket
    exact ⟨a, fromStr_of_split (hostAndPort_display hbracket), rfl, rfl⟩

/-- The address of an IPv6 host. -/
theorem advertised_address_round_trip_ipv6 : ∃ a, fromStr "[ ::1]:+9092" = .ok a ∧ a.display = "[::1]:9092" ∧
    ∃ a', fromStr a.display = .ok a' ∧ a'.host = a.host ∧ a'.port = a.port := by
  have hout : (fromStr "[ ::1]:+9092").map display = .ok "[::1]:9092" := by decide +kernel
  match h : fromStr "[ ::1]:+9092" with
  | .error error => rw [h] at hout; cases hout
  | .ok a =>
    rw [h] at hout
    exact ⟨a, rfl, Except.ok.inj hout, (advertised_address_round_trip "[ ::1]:+9092" a h).2 (by decide +kernel)⟩

/-- A bracket too many is kept in the host, and missed when the address is parsed again. -/
theorem advertised_address_stray_bracket : ∃ a, fromStr "[[broker]:9092" = .ok a ∧ a.host = "[broker" ∧
    fromStr a.display = .error (invalidAdvertisedAddress "[broker:9092" "expected host:port") ∧
    ¬ ∃ a', fromStr a.display = .ok a' ∧ a'.host = a.host ∧ a'.port = a.port := by
  have hout : (fromStr "[[broker]:9092").map (fun a => (a.host, a.display)) = .ok ("[broker", "[broker:9092") := by
    decide +kernel
  have hagain : fromStr "[broker:9092" = .error (invalidAdvertisedAddress "[broker:9092" "expected host:port") := by
    decide +kernel
  match h : fromStr "[[broker]:9092" with
  | .error error => rw [h] at hout; cases hout
  | .ok a =>
    rw [h] at hout
    obtain ⟨hhost, hdisplay⟩ := Prod.mk.inj (Except.ok.inj hout)
    refine ⟨a, rfl, hhost, by rw [hdisplay, hagain], ?_⟩
    rw [hdisplay, hagain]
    rintro ⟨a', ⟨⟩, -⟩

end MemKafka
