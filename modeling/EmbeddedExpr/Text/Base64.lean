/-
  EmbeddedExpr.Text.Base64
  ────────────────────────
  **OCTETS IN SIXTY-FOUR CHARACTERS.**

  Four characters spell three octets.  Characters that spell nothing are passed over, and
  nothing is read after the padding that fills up the last group.
-/
namespace EmbeddedExpr.Text.Base64

/-- The six bits that a character spells. -/
def bits? (c : Char) : Option Nat :=
  if 'A' ≤ c && c ≤ 'Z' then some (c.toNat - 'A'.toNat)
  else if 'a' ≤ c && c ≤ 'z' then some (c.toNat - 'a'.toNat + 26)
  else if '0' ≤ c && c ≤ '9' then some (c.toNat - '0'.toNat + 52)
  else if c = '+' then some 62
  else if c = '/' then some 63
  else none

/-- The octets that characters spell: `held` bits groups are waiting, their value is `value`,
and `padding` marks have been read. -/
def decodeFrom (held value padding : Nat) : List Char → Option (List UInt8)
  | [] => if held = 0 then some [] else none
  | c :: rest =>
    if c = '=' then
      if 2 ≤ held && 4 ≤ held + padding + 1 then some []
      else decodeFrom held value (padding + 1) rest
    else match bits? c with
      | none => decodeFrom held value padding rest
      | some b =>
        match held with
        | 0 => decodeFrom 1 b 0 rest
        | 1 => (decodeFrom 2 (b % 16) 0 rest).map (UInt8.ofNat (value * 4 + b / 16) :: ·)
        | 2 => (decodeFrom 3 (b % 4) 0 rest).map (UInt8.ofNat (value * 16 + b / 4) :: ·)
        | _ => (decodeFrom 0 0 0 rest).map (UInt8.ofNat (value * 64 + b) :: ·)

/-- The octets that a text spells. -/
def decode? (s : List Char) : Option (List UInt8) :=
  if s.all fun c => c.toNat < 128 then decodeFrom 0 0 0 s else none

end EmbeddedExpr.Text.Base64
