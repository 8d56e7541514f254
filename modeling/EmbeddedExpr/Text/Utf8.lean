/-
  EmbeddedExpr.Text.Utf8
  ──────────────────────
  **READING OCTETS AS CHARACTERS.**

  `scalar` reads one character at the head of a list of octets, or says how many octets
  form the longest part of an ill-formed sequence.  `decode?` refuses ill-formed input;
  `decodeValid` leaves out those parts and keeps the rest.
-/
namespace EmbeddedExpr.Text.Utf8

/-- What stands at the head of a list of octets. -/
inductive Head where
  /-- A character, written in `size` octets. -/
  | char (c : Char) (size : Nat)
  /-- `size` octets that belong to no character. -/
  | invalid (size : Nat)
  deriving Repr

/-- The values that the second octet may have, by the first. -/
def secondBounds (lead : Nat) : Nat × Nat :=
  if lead = 0xE0 then (0xA0, 0xBF)
  else if lead = 0xED then (0x80, 0x9F)
  else if lead = 0xF0 then (0x90, 0xBF)
  else if lead = 0xF4 then (0x80, 0x8F)
  else (0x80, 0xBF)

/-- The number of octets after a first octet, and the bits that it gives. -/
def leadBits (lead : Nat) : Option (Nat × Nat) :=
  if 0xC2 ≤ lead && lead ≤ 0xDF then some (1, lead - 0xC0)
  else if 0xE0 ≤ lead && lead ≤ 0xEF then some (2, lead - 0xE0)
  else if 0xF0 ≤ lead && lead ≤ 0xF4 then some (3, lead - 0xF0)
  else none

/-- The octets that go on a sequence: `taken` of them are read, the next lies within `bounds`. -/
def continued (bounds : Nat × Nat) (bits taken : Nat) : Nat → List UInt8 → Head
  | 0, _ => .char (Char.ofNat bits) taken
  | _ + 1, [] => .invalid taken
  | need + 1, octet :: rest =>
    if bounds.1 ≤ octet.toNat && octet.toNat ≤ bounds.2 then
      continued (0x80, 0xBF) (bits * 64 + (octet.toNat - 0x80)) (taken + 1) need rest
    else .invalid taken

/-- What stands at the head of an octet and those that follow it. -/
def scalar (lead : UInt8) (rest : List UInt8) : Head :=
  if lead < 0x80 then .char (Char.ofNat lead.toNat) 1
  else match leadBits lead.toNat with
    | some (need, bits) => continued (secondBounds lead.toNat) bits 1 need rest
    | none => .invalid 1

/-- The text that octets spell, if they are well formed throughout. -/
def decode? : List UInt8 → Option (List Char)
  | [] => some []
  | lead :: rest =>
    match scalar lead rest with
    | .char c size => (decode? (rest.drop (size - 1))).map (c :: ·)
    | .invalid _ => none
termination_by octets => octets.length
decreasing_by simp only [List.length_cons, List.length_drop]; omega

/-- The text that octets spell, without the ill-formed parts. -/
def decodeValid : List UInt8 → List Char
  | [] => []
  | lead :: rest =>
    match scalar lead rest with
    | .char c size => c :: decodeValid (rest.drop (size - 1))
    | .invalid size => decodeValid (rest.drop (size - 1))
termination_by octets => octets.length
decreasing_by all_goals simp only [List.length_cons, List.length_drop]; omega

/-- The octets of a text. -/
def encode (s : List Char) : List UInt8 := (String.ofList s).toUTF8.toList

end EmbeddedExpr.Text.Utf8
