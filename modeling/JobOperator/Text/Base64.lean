/-!
Base64 with the standard alphabet. The reader accepts exactly what the writer produces: padding is
required, and the bits that padding leaves over are zero.
-/

namespace JobOperator.Base64

/-- The character of six bits. -/
def symbol (n : Nat) : Char :=
  if n < 26 then Char.ofNat ('A'.toNat + n)
  else if n < 52 then Char.ofNat ('a'.toNat + (n - 26))
  else if n < 62 then Char.ofNat ('0'.toNat + (n - 52))
  else if n = 62 then '+'
  else '/'

/-- The six bits of a character. -/
def sextet? (c : Char) : Option Nat :=
  if 'A' ≤ c ∧ c ≤ 'Z' then some (c.toNat - 'A'.toNat)
  else if 'a' ≤ c ∧ c ≤ 'z' then some (c.toNat - 'a'.toNat + 26)
  else if '0' ≤ c ∧ c ≤ '9' then some (c.toNat - '0'.toNat + 52)
  else if c = '+' then some 62
  else if c = '/' then some 63
  else none

/-- The characters of bytes, four for each three. -/
def encode : List UInt8 → List Char
  | [] => []
  | [a] =>
    let a := a.toNat
    [symbol (a / 4), symbol (a % 4 * 16), '=', '=']
  | [a, b] =>
    let a := a.toNat
    let b := b.toNat
    [symbol (a / 4), symbol (a % 4 * 16 + b / 16), symbol (b % 16 * 4), '=']
  | a :: b :: c :: rest =>
    let x := a.toNat
    let y := b.toNat
    let z := c.toNat
    symbol (x / 4) :: symbol (x % 4 * 16 + y / 16) :: symbol (y % 16 * 4 + z / 64) ::
      symbol (z % 64) :: encode rest

/-- The byte of a padded group of two characters. -/
def decodeOne (p q : Char) : Option (List UInt8) := do
  let p ← sextet? p
  let q ← sextet? q
  if q % 16 = 0 then some [UInt8.ofNat (p * 4 + q / 16)] else none

/-- The bytes of a padded group of three characters. -/
def decodeTwo (p q r : Char) : Option (List UInt8) := do
  let p ← sextet? p
  let q ← sextet? q
  let r ← sextet? r
  if r % 4 = 0 then some [UInt8.ofNat (p * 4 + q / 16), UInt8.ofNat (q % 16 * 16 + r / 4)]
  else none

/-- The bytes of a full group. -/
def decodeThree (p q r s : Char) : Option (List UInt8) := do
  let p ← sextet? p
  let q ← sextet? q
  let r ← sextet? r
  let s ← sextet? s
  return [UInt8.ofNat (p * 4 + q / 16), UInt8.ofNat (q % 16 * 16 + r / 4),
    UInt8.ofNat (r % 4 * 64 + s)]

/-- The bytes of a text, if it is what `encode` writes for them. -/
def decode : List Char → Option (List UInt8)
  | [] => some []
  | [p, q, '=', '='] => decodeOne p q
  | [p, q, r, '='] => decodeTwo p q r
  | p :: q :: r :: s :: rest => do
    let bytes ← decodeThree p q r s
    let others ← decode rest
    return bytes ++ others
  | _ => none

end JobOperator.Base64
