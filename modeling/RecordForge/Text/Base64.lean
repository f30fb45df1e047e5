/-!
# Base64

Bytes as text, six bits to a character. A reader passes over every character that is none of the 64
digits. Of the four digits of three bytes the last one or two may be missing, with the sign `=` in
their place.

* `Base64.decode?`: the bytes that a text spells.
-/

namespace RecordForge.Text.Base64

/-- The value of a digit. -/
def digit? (c : Char) : Option Nat :=
  if 'A' ≤ c ∧ c ≤ 'Z' then some (c.toNat - 'A'.toNat)
  else if 'a' ≤ c ∧ c ≤ 'z' then some (c.toNat - 'a'.toNat + 26)
  else if '0' ≤ c ∧ c ≤ '9' then some (c.toNat - '0'.toNat + 52)
  else if c = '+' then some 62
  else if c = '/' then some 63
  else none

/-- The bytes that a text spells after some digits of a group, in order, and some signs for missing
ones. -/
def decodeFrom? : (group : List Nat) → (missing : Nat) → List Char → Option (List UInt8)
  | [], _, [] => some []
  | _, _, [] => none
  | group, missing, c :: rest =>
    if c = '=' then
      if 2 ≤ group.length then
        if 4 ≤ group.length + missing + 1 then some [] else decodeFrom? group (missing + 1) rest
      else decodeFrom? group missing rest
    else match digit? c, group with
      | none, _ => decodeFrom? group missing rest
      | some d, [] => decodeFrom? [d] 0 rest
      | some d, [a] => (decodeFrom? [a, d] 0 rest).map (UInt8.ofNat (a * 4 + d / 16) :: ·)
      | some d, [a, b] => (decodeFrom? [a, b, d] 0 rest).map (UInt8.ofNat (b % 16 * 16 + d / 4) :: ·)
      | some d, _ :: _ :: e :: _ => (decodeFrom? [] 0 rest).map (UInt8.ofNat (e % 4 * 64 + d) :: ·)

/-- The bytes that a text spells. -/
def decode? (s : List Char) : Option (List UInt8) := decodeFrom? [] 0 s

end RecordForge.Text.Base64
