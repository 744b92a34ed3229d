/-!
# UTF-8

`Utf8.decode` reads bytes as text or says where the first ill-formed sequence starts and how long
its longest well-formed beginning is. `Utf8.decodeLossy` puts the replacement character in the place
of each such beginning instead.
-/

namespace Lox.Utf8

/-- Why bytes are no text. -/
inductive Error where
  /-- The `length` bytes from `index` begin no character, though all but the last could. -/
  | invalid (length : Nat) (index : Nat)
  /-- The input ends within the character that starts at `index`. -/
  | incomplete (index : Nat)
  deriving DecidableEq, Repr

def Error.message : Error → String
  | .invalid length index =>
    "invalid utf-8 sequence of " ++ toString length ++ " bytes from index " ++ toString index
  | .incomplete index => "incomplete utf-8 byte sequence from index " ++ toString index

/-- What the bytes start with. -/
inductive Step where
  | char (c : Char) (size : Nat)
  | invalid (length : Nat)
  | incomplete
  deriving DecidableEq, Repr

/-- Continuation bytes are `10xxxxxx`. -/
def isTail (b : UInt8) : Bool := 0x80 ≤ b && b ≤ 0xBF

/-- The payload of a continuation byte. -/
def tailBits (b : UInt8) : Nat := b.toNat % 0x40

/-- The range of the second byte after a given first byte of three or four: it excludes overlong
forms, surrogates and code points above the last one. -/
def secondRange (first : UInt8) : UInt8 × UInt8 :=
  if first = 0xE0 then (0xA0, 0xBF)
  else if first = 0xED then (0x80, 0x9F)
  else if first = 0xF0 then (0x90, 0xBF)
  else if first = 0xF4 then (0x80, 0x8F)
  else (0x80, 0xBF)

def inSecondRange (first second : UInt8) : Bool :=
  (secondRange first).1 ≤ second && second ≤ (secondRange first).2

/-- The number of bytes a character takes whose first byte is given, if one can start so. -/
def width? (first : UInt8) : Option Nat :=
  if first < 0x80 then some 1
  else if 0xC2 ≤ first && first ≤ 0xDF then some 2
  else if 0xE0 ≤ first && first ≤ 0xEF then some 3
  else if 0xF0 ≤ first && first ≤ 0xF4 then some 4
  else none

/-- The first character of the bytes `first :: rest`. -/
def step (first : UInt8) (rest : List UInt8) : Step :=
  match width? first with
  | none => .invalid 1
  | some 1 => .char (Char.ofNat first.toNat) 1
  | some 2 =>
    match rest with
    | [] => .incomplete
    | b :: _ =>
      if isTail b then .char (Char.ofNat (first.toNat % 0x20 * 0x40 + tailBits b)) 2
      else .invalid 1
  | some 3 =>
    match rest with
    | [] => .incomplete
    | b :: more =>
      if !inSecondRange first b then .invalid 1
      else match more with
        | [] => .incomplete
        | c :: _ =>
          if isTail c then
            .char (Char.ofNat ((first.toNat % 0x10 * 0x40 + tailBits b) * 0x40 + tailBits c)) 3
          else .invalid 2
  | some _ =>
    match rest with
    | [] => .incomplete
    | b :: more =>
      if !inSecondRange first b then .invalid 1
      else match more with
        | [] => .incomplete
        | c :: more =>
          if !isTail c then .invalid 2
          else match more with
            | [] => .incomplete
            | d :: _ =>
              if isTail d then
                .char (Char.ofNat
                  (((first.toNat % 0x8 * 0x40 + tailBits b) * 0x40 + tailBits c) * 0x40
                    + tailBits d)) 4
              else .invalid 3

/-- Decodes from `index` on, `skip` bytes of a character already read being still ahead. -/
def decodeFrom (index skip : Nat) (read : List Char) : List UInt8 → Except Error (List Char)
  | [] => .ok read.reverse
  | first :: rest =>
    match skip with
    | k + 1 => decodeFrom (index + 1) k read rest
    | 0 =>
      match step first rest with
      | .char c size => decodeFrom (index + 1) (size - 1) (c :: read) rest
      | .invalid length => .error (.invalid length index)
      | .incomplete => .error (.incomplete index)

/-- The text of the bytes, or the first place where they are ill-formed. -/
def decode (bytes : List UInt8) : Except Error String :=
  (decodeFrom 0 0 [] bytes).map String.ofList

/-- Decodes with the replacement character for what is ill-formed. -/
def lossyFrom (skip : Nat) (read : List Char) : List UInt8 → List Char
  | [] => read.reverse
  | first :: rest =>
    match skip with
    | k + 1 => lossyFrom k read rest
    | 0 =>
      match step first rest with
      | .char c size => lossyFrom (size - 1) (c :: read) rest
      | .invalid length => lossyFrom (length - 1) ('\uFFFD' :: read) rest
      | .incomplete => ('\uFFFD' :: read).reverse

/-- The text of the bytes, with the replacement character for each ill-formed part. -/
def decodeLossy (bytes : List UInt8) : String := String.ofList (lossyFrom 0 [] bytes)

end Lox.Utf8
