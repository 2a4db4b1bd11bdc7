/-!
# Characters

Tags and events are compared and written without regard to the case of ASCII letters. Properties of
characters are tables of inclusive ranges of code points. The ranges are in ascending order, so that
a look-up can stop at the first one that ends no earlier.
-/

namespace TreeRender.Text

/-- Lower case for ASCII letters; other characters stay. -/
def lower (s : String) : String := String.ofList (s.toList.map Char.toLower)

def sameIgnoringCase (s t : String) : Bool := lower s == lower t

/-- Whether a range of the table holds `n`. Ranges after the place of `n` are not visited. -/
def inRanges : List (Nat × Nat) → Nat → Bool
  | [], _ => false
  | (first, last) :: rest, n => first ≤ n && (n ≤ last || inRanges rest n)

/-- Every range begins after the end of those before it, and at `low` or later. -/
def ascending : (low : Nat) → List (Nat × Nat) → Bool
  | _, [] => true
  | low, (first, last) :: rest => low ≤ first && first ≤ last && ascending (last + 1) rest

/-- The number of code points that a table covers. -/
def coverage : List (Nat × Nat) → Nat
  | [] => 0
  | (first, last) :: rest => last + 1 - first + coverage rest

/-- The characters with the Unicode property `White_Space`. -/
def blankRanges : List (Nat × Nat) :=
  [(0x09, 0x0d), (0x20, 0x20), (0x85, 0x85), (0xa0, 0xa0), (0x1680, 0x1680), (0x2000, 0x200a),
    (0x2028, 0x2029), (0x202f, 0x202f), (0x205f, 0x205f), (0x3000, 0x3000)]

def isBlank (c : Char) : Bool := inRanges blankRanges c.toNat

example : ascending 0 blankRanges = true ∧ coverage blankRanges = 25 := by decide

end TreeRender.Text
