import TreeRender.Json.Reader

/-!
# Numbers in JSON text

An integer is read exactly as far as 64 bits hold it. Any other number becomes a double: its leading
digits, as far as 64 bits hold them, times a power of ten.
-/

namespace TreeRender.Json.Reader

def digitValue (c : Char) : Nat := c.toNat - '0'.toNat

/-- The number that `significand` becomes with the digits at the front of the text, as far as 64
bits hold it, and how many digits were taken. -/
def takeDigits (significand count : Nat) : List Char → (Nat × Nat) × List Char
  | [] => ((significand, count), [])
  | c :: rest =>
    if c.isDigit && significand * 10 + digitValue c < UInt64.size then
      takeDigits (significand * 10 + digitValue c) (count + 1) rest
    else ((significand, count), c :: rest)

def countDigits : Reader Nat := do
  let text ← get
  set (text.dropWhile Char.isDigit)
  return (text.takeWhile Char.isDigit).length

/-- The product `x * 10 ^ exponent`, by one multiplication or by divisions by at most `1e308`. -/
def scale (x : Float) (exponent : Int) : Option Float :=
  if exponent.natAbs ≤ 308 then
    let power := Float.ofScientific 1 false exponent.natAbs
    if 0 ≤ exponent then
      if (x * power).isInf then none else some (x * power)
    else some (x / power)
  else if x == 0.0 then some x
  else if 0 ≤ exponent then none
  else scale (x / 1e308) (exponent + 308)
termination_by exponent.natAbs
decreasing_by omega

/-- A double from its parts. Values that no double holds are refused. -/
def double (negative : Bool) (significand : Nat) (exponent : Int) : Reader JsonNumber :=
  match scale significand.toUInt64.toFloat exponent with
  | none => fail .malformed
  | some x => pure (.double (if negative then -x else x))

def clampExponent (exponent : Int) : Int :=
  max Int32.minValue.toInt (min exponent Int32.maxValue.toInt)

/-- The digits of an exponent, none if they pass the bound. -/
def exponentDigits (value : Nat) : List Char → Option Nat × List Char
  | [] => (some value, [])
  | c :: rest =>
    if c.isDigit then
      if value * 10 + digitValue c < UInt32.size / 2 then
        exponentDigits (value * 10 + digitValue c) rest
      else (none, rest)
    else (some value, c :: rest)

/-- The number after the mark of its exponent. -/
def afterExponentMark (negative : Bool) (significand : Nat) (exponent : Int) :
    Reader JsonNumber := do
  let down := (← peek?) = some '-'
  if down || (← peek?) = some '+' then skip 1
  match ← get with
  | [] => fail .truncated
  | c :: rest =>
    set rest
    if !c.isDigit then fail .malformed
    else
      let (value?, rest) := exponentDigits (digitValue c) rest
      set rest
      match value? with
      | some value =>
        double negative significand
          (clampExponent (if down then exponent - value else exponent + value))
      | none =>
        if significand ≠ 0 && !down then fail .malformed
        else
          let _ ← countDigits
          return .double (if negative then -0.0 else 0.0)

def isExponentMark (c : Option Char) : Bool := c = some 'e' || c = some 'E'

/-- The number from the end of its decimals on. -/
def afterDecimals (negative : Bool) (significand : Nat) (exponent : Int) : Reader JsonNumber := do
  if isExponentMark (← peek?) then
    skip 1
    afterExponentMark negative significand exponent
  else double negative significand exponent

/-- The number from its decimal point on. Digits that 64 bits do not hold are passed over. -/
def afterPoint (negative : Bool) (significand : Nat) (exponent : Int) : Reader JsonNumber := do
  let text ← get
  let ((significand, count), rest) := takeDigits significand 0 text
  set rest
  let more ← countDigits
  if count + more = 0 then
    fail (if (← get).isEmpty then .truncated else .malformed)
  else afterDecimals negative significand (exponent - count)

/-- The number behind its integer part, of which `dropped` digits were left out. -/
def afterInteger (negative : Bool) (significand dropped : Nat) : Reader JsonNumber := do
  let c ← peek?
  if c = some '.' then
    skip 1
    afterPoint negative significand dropped
  else if isExponentMark c then
    skip 1
    afterExponentMark negative significand dropped
  else if 0 < dropped then double negative significand dropped
  else if !negative then return .natural significand
  else if 0 < significand && significand ≤ UInt64.size / 2 then return .negative significand
  else return .double (-significand.toUInt64.toFloat)

def unsigned (negative : Bool) : Reader JsonNumber := do
  match ← get with
  | [] => fail .truncated
  | c :: rest =>
    if !c.isDigit then fail .malformed
    else if c = '0' then
      set rest
      if rest.head?.any Char.isDigit then fail .malformed
      else afterInteger negative 0 0
    else
      let ((significand, _), rest) := takeDigits 0 0 (c :: rest)
      set rest
      afterInteger negative significand (← countDigits)

def number : Reader JsonNumber := do
  if (← peek?) = some '-' then
    skip 1
    unsigned true
  else unsigned false

end TreeRender.Json.Reader
