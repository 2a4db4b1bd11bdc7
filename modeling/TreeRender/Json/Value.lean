import TreeRender.Node.Build

/-!
# JSON values and their text

A number is kept as an integer where 64 bits hold it, and as a double otherwise. The members of an
object keep their order. The text of a value is compact, with no blanks between tokens; in strings
only quotes, backslashes and control characters are escaped.
-/

namespace TreeRender

inductive JsonNumber where
  | natural (n : Nat)
  | negative (magnitude : Nat)
  | double (x : Float)

def JsonNumber.toFloat : JsonNumber → Float
  | .natural n => n.toUInt64.toFloat
  | .negative magnitude => -magnitude.toUInt64.toFloat
  | .double x => x

inductive Json where
  | null
  | bool (b : Bool)
  | number (n : JsonNumber)
  | string (s : String)
  | array (items : List Json)
  | object (members : List (String × Json))

namespace Json

def hexDigits (n : Nat) : List Char := [Nat.digitChar (n / 16), Nat.digitChar (n % 16)]

def escapeChar (c : Char) : List Char :=
  if c = '"' then ['\\', '"']
  else if c = '\\' then ['\\', '\\']
  else if c.toNat = 0x08 then ['\\', 'b']
  else if c.toNat = 0x0c then ['\\', 'f']
  else if c = '\n' then ['\\', 'n']
  else if c = '\r' then ['\\', 'r']
  else if c = '\t' then ['\\', 't']
  else if c.toNat < 0x20 then ['\\', 'u', '0', '0'] ++ hexDigits c.toNat
  else [c]

def stringChars (s : String) : List Char := '"' :: s.toList.flatMap escapeChar ++ ['"']

def numberChars : JsonNumber → List Char
  | .natural n => Nat.toDigits 10 n
  | .negative magnitude => '-' :: Nat.toDigits 10 magnitude
  | .double x => (Decimal.Double.ofBits x.toBits).jsonText.toList

mutual

def chars : Json → List Char
  | .null => ['n', 'u', 'l', 'l']
  | .bool b => (boolText b).toList
  | .number n => numberChars n
  | .string s => stringChars s
  | .array [] => ['[', ']']
  | .array (item :: rest) => '[' :: chars item ++ tailChars rest ++ [']']
  | .object [] => ['\x7b', '\x7d']
  | .object ((key, value) :: rest) =>
    '\x7b' :: stringChars key ++ ':' :: chars value ++ memberTailChars rest ++ ['\x7d']

def tailChars : List Json → List Char
  | [] => []
  | item :: rest => ',' :: chars item ++ tailChars rest

def memberTailChars : List (String × Json) → List Char
  | [] => []
  | (key, value) :: rest => ',' :: stringChars key ++ ':' :: chars value ++ memberTailChars rest

end

def text (j : Json) : String := String.ofList j.chars

end Json

end TreeRender
