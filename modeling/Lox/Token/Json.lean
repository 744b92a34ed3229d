import Lox.Token

/-!
# Tokens as JSON

A token as a compact JSON object, for other programs to read.
-/

namespace Lox

namespace Json

/-- The hexadecimal digits that stand for a control character, four of them. -/
def hex4 (n : Nat) : List Char :=
  let digits := Nat.toDigits 16 n
  List.replicate (4 - digits.length) '0' ++ digits

/-- A character within a string: quotes, backslashes and control characters are escaped. -/
def escape (c : Char) : List Char :=
  match c with
  | '"' => ['\\', '"']
  | '\\' => ['\\', '\\']
  | '\n' => ['\\', 'n']
  | '\r' => ['\\', 'r']
  | '\t' => ['\\', 't']
  | '\x08' => ['\\', 'b']
  | '\x0c' => ['\\', 'f']
  | _ => if c.toNat < 0x20 then '\\' :: 'u' :: hex4 c.toNat else [c]

/-- A text between quotes. -/
def quote (s : String) : String := String.ofList ('"' :: (s.toList.flatMap escape ++ ['"']))

end Json

namespace Token

/-- The kind of an exported token: a name, or an object that holds the value under it. -/
def Kind.toJson (kind : Kind) : String :=
  let tagged (value : String) : String := "\x7b" ++ Json.quote kind.name ++ ":" ++ value ++ "\x7d"
  match kind with
  | .string text => tagged (Json.quote text)
  | .number value => tagged (Number.interchange.write value)
  | _ => Json.quote kind.name

/-- The token as a JSON object on one line. -/
def toJson (t : Token) : String :=
  "\x7b\"token_type\":" ++ t.kind.toJson ++ ",\"lexeme\":" ++ Json.quote t.lexeme ++
    ",\"line\":" ++ toString t.line ++ "\x7d"

end Token

end Lox
