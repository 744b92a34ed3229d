import Lox.Number.Decimal

/-!
# Numbers as text

Two layouts write a number: `program`, in which values are printed, and `interchange`, in which
tokens are exported. Both write the shortest digits that read back; they differ in where an exponent
is used, in ties, and in what is not finite. `Number.ofText?` reads the wider notation that text
may use when it is taken for a number.
-/

namespace Lox

namespace Number

/-- How a number is written. -/
structure Layout where
  /-- The choice between two shortest candidates that are equally near. -/
  tie : Tie
  /-- Whether a number of the form `d.ddd * 10 ^ e` is written without an exponent. -/
  positional : Int → Bool
  nan : String
  infinity : String
  negativeInfinity : String

/-- Values print positionally at any magnitude. -/
def program : Layout where
  tie := .up
  positional _ := true
  nan := "NaN"
  infinity := "inf"
  negativeInfinity := "-inf"

/-- Exported numbers use an exponent from `1e+16` upwards and below `1e-5`. -/
def interchange : Layout where
  tie := .even
  positional e := -5 ≤ e && e ≤ 15
  nan := "null"
  infinity := "null"
  negativeInfinity := "null"

def digitChars (n : Nat) : List Char := Nat.toDigits 10 n

/-- The digits with a point and at least one digit on each side of it. -/
def positionalChars (d : Decimal) : List Char :=
  let digits := digitChars d.digits
  if 0 ≤ d.exponent then digits ++ List.replicate d.exponent.toNat '0' ++ ['.', '0']
  else
    let places := (-d.exponent).toNat
    if places < digits.length then
      digits.take (digits.length - places) ++ '.' :: digits.drop (digits.length - places)
    else '0' :: '.' :: (List.replicate (places - digits.length) '0' ++ digits)

/-- One digit, the others after a point, and the exponent with its sign. -/
def exponentChars (d : Decimal) (exponent : Int) : List Char :=
  let sign := if exponent < 0 then '-' else '+'
  let power := 'e' :: sign :: digitChars exponent.natAbs
  match digitChars d.digits with
  | [] => power
  | [digit] => digit :: power
  | digit :: rest => digit :: '.' :: (rest ++ power)

/-- The text of a finite magnitude. -/
def Layout.magnitude (layout : Layout) (mantissa : Nat) (exponent : Int) : List Char :=
  if mantissa = 0 then ['0', '.', '0']
  else
    let d := Decimal.shortest layout.tie mantissa exponent
    let leading := d.exponent + ((digitChars d.digits).length - 1 : Nat)
    if layout.positional leading then positionalChars d else exponentChars d leading

/-- The text of a number. -/
def Layout.write (layout : Layout) (x : Float) : String :=
  match Binary64.ofFloat x with
  | .nan => layout.nan
  | .infinite negative => if negative then layout.negativeInfinity else layout.infinity
  | .finite negative mantissa exponent =>
    let text := layout.magnitude mantissa exponent
    String.ofList (if negative then '-' :: text else text)

/-- A number as `print` shows it: `3.0`, `0.1`, `-0.0`, `inf`. -/
def text (x : Float) : String := program.write x

/-! ### Reading -/

/-- The natural that digits denote. -/
def ofDigits (digits : List Char) : Nat :=
  digits.foldl (fun n c => 10 * n + (c.toNat - '0'.toNat)) 0

/-- The number with the given digits before and after the point. -/
def ofParts (whole fraction : List Char) (exponent : Int) : Float :=
  Decimal.toFloat ⟨ofDigits (whole ++ fraction), exponent - fraction.length⟩

/-- An exponent mark with its digits, or nothing. -/
def exponent? : List Char → Option Int
  | [] => some 0
  | mark :: rest =>
    if mark = 'e' ∨ mark = 'E' then
      let negative := rest.head? = some '-'
      let digits := if negative ∨ rest.head? = some '+' then rest.tail else rest
      if digits ≠ [] ∧ digits.all Char.isDigit then
        some (if negative then -(ofDigits digits : Int) else ofDigits digits)
      else none
    else none

/-- Digits with an optional point and an optional exponent; at least one digit beside the point. -/
def unsigned? (cs : List Char) : Option Float :=
  let whole := cs.takeWhile Char.isDigit
  let afterWhole := cs.dropWhile Char.isDigit
  let afterPoint := if afterWhole.head? = some '.' then afterWhole.tail else []
  let fraction := afterPoint.takeWhile Char.isDigit
  let afterDigits :=
    if afterWhole.head? = some '.' then afterPoint.dropWhile Char.isDigit else afterWhole
  if whole = [] ∧ fraction = [] then none
  else (exponent? afterDigits).map (ofParts whole fraction)

/-- The names of the numbers that have no digits, in any letter case. -/
def named? (cs : List Char) : Option Float :=
  let word := cs.map Char.toLower
  if word = ['i', 'n', 'f'] ∨ word = ['i', 'n', 'f', 'i', 'n', 'i', 't', 'y'] then
    some (Float.ofBits Binary64.infinityBits.toUInt64)
  else if word = ['n', 'a', 'n'] then some (Float.ofBits 0x7FF8000000000000)
  else none

/-- A number with an optional sign, and nothing else around it. -/
def ofChars? (cs : List Char) : Option Float :=
  let magnitude (rest : List Char) : Option Float := (unsigned? rest).or (named? rest)
  match cs with
  | '-' :: rest => (magnitude rest).map (fun x => -x)
  | '+' :: rest => magnitude rest
  | _ => magnitude cs

/-- Reads a number from a text that holds nothing else. -/
def ofText? (s : String) : Option Float := ofChars? s.toList

end Number

end Lox
