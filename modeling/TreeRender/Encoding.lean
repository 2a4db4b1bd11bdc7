/-!
# Output encodings

How the chunks of a stream are written: as they are, with numeric references in place of all that
is not ASCII, or with their bytes in base 64 or in hexadecimal digits.
-/

namespace TreeRender

inductive Encoding where
  | utf8
  | ascii
  | base64
  | hex
  deriving DecidableEq

namespace Encoding

def asciiChar (c : Char) : List Char :=
  if c.toNat < 128 then [c] else '&' :: '#' :: Nat.toDigits 10 c.toNat ++ [';']

def hexDigit (n : Nat) : Char := Nat.digitChar n

def hexByte (b : UInt8) : List Char := [hexDigit (b.toNat / 16), hexDigit (b.toNat % 16)]

def base64Digit (n : Nat) : Char :=
  if n < 26 then Char.ofNat ('A'.toNat + n)
  else if n < 52 then Char.ofNat ('a'.toNat + (n - 26))
  else if n < 62 then Char.ofNat ('0'.toNat + (n - 52))
  else if n = 62 then '+' else '/'

/-- Three bytes make four digits; the last group is filled up with equals signs. -/
def base64Chars : List UInt8 → List Char
  | [] => []
  | [a] => [base64Digit (a.toNat / 4), base64Digit (a.toNat % 4 * 16), '=', '=']
  | [a, b] =>
    [base64Digit (a.toNat / 4), base64Digit (a.toNat % 4 * 16 + b.toNat / 16),
      base64Digit (b.toNat % 16 * 4), '=']
  | a :: b :: c :: rest =>
    base64Digit (a.toNat / 4) :: base64Digit (a.toNat % 4 * 16 + b.toNat / 16) ::
      base64Digit (b.toNat % 16 * 4 + c.toNat / 64) :: base64Digit (c.toNat % 64) ::
      base64Chars rest

def bytes (s : String) : List UInt8 := s.toUTF8.toList

def encode (e : Encoding) (chunk : String) : String :=
  match e with
  | .utf8 => chunk
  | .ascii => String.ofList (chunk.toList.flatMap asciiChar)
  | .base64 => String.ofList (base64Chars (bytes chunk))
  | .hex => String.ofList ((bytes chunk).flatMap hexByte)

/-- The name of an encoding in a configuration. -/
def name : Encoding → String
  | .utf8 => "utf8"
  | .ascii => "ascii"
  | .base64 => "base64"
  | .hex => "hex"

def all : List Encoding := [.utf8, .ascii, .base64, .hex]

def ofName? (s : String) : Option Encoding := all.find? (·.name = s)

end Encoding

end TreeRender
