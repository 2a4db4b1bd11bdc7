import TreeRender.Decimal.Shortest

/-!
# Written numbers

Two ways to write a double with its shortest digits: without ever using an exponent, as numbers
appear in markup, and with one for very large and very small values, as they appear in JSON text.
-/

namespace TreeRender.Decimal

def digitChars (n : Nat) : List Char := Nat.toDigits 10 n

/-- The digits with the decimal point in its place and no exponent. -/
def Scaled.positional (x : Scaled) : List Char :=
  let digits := digitChars x.digits
  if 0 ≤ x.exponent then digits ++ List.replicate x.exponent.toNat '0'
  else
    let places := (-x.exponent).toNat
    if digits.length ≤ places then
      '0' :: '.' :: List.replicate (places - digits.length) '0' ++ digits
    else digits.take (digits.length - places) ++ '.' :: digits.drop (digits.length - places)

def signChars (negative : Bool) : List Char := if negative then ['-'] else []

/-- A power of ten after a mantissa: `e`, always a sign, and no padding. -/
def exponentChars (exponent : Int) : List Char :=
  'e' :: (if exponent < 0 then '-' else '+') :: digitChars exponent.natAbs

/-- The text of a number in markup: its shortest digits, positional at any size. Both zeros are
`0`, and values that are no numbers have names. -/
def Double.text : Double → String
  | .nan => "NaN"
  | .infinite negative => if negative then "-Infinity" else "Infinity"
  | .finite negative mantissa exponent =>
    if mantissa = 0 then "0"
    else String.ofList (signChars negative ++ (shortest .up mantissa exponent).positional)

def text (x : Float) : String := (Double.ofBits x.toBits).text

/-- The digits with a mark of being no integer: a point, or an exponent where the point would be
more than sixteen digits after or five before the first digit. -/
def Scaled.marked (x : Scaled) : List Char :=
  let digits := digitChars x.digits
  let point := (digits.length : Int) + x.exponent
  if 0 ≤ x.exponent && point ≤ 16 then x.positional ++ ['.', '0']
  else if -5 < point && point ≤ 16 then x.positional
  else
    let mantissa := match digits with
      | [] => []
      | [d] => [d]
      | d :: rest => d :: '.' :: rest
    mantissa ++ exponentChars (point - 1)

/-- The text of a double in JSON, where only finite values occur. -/
def Double.jsonText : Double → String
  | .nan | .infinite _ => "null"
  | .finite negative mantissa exponent =>
    String.ofList (signChars negative ++
      if mantissa = 0 then ['0', '.', '0'] else (shortest .even mantissa exponent).marked)

example : String.ofList (Scaled.marked ⟨1, 15⟩) = "1000000000000000.0" := by decide +kernel

example : String.ofList (Scaled.marked ⟨1, 16⟩) = "1e+16" := by decide +kernel

example : String.ofList (Scaled.marked ⟨12, -6⟩) = "0.000012" := by decide +kernel

example : String.ofList (Scaled.marked ⟨12, -7⟩) = "1.2e-6" := by decide +kernel

end TreeRender.Decimal
