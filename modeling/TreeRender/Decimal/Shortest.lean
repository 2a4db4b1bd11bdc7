/-!
# Shortest decimals

A double is `± mantissa * 2 ^ exponent`, and the reals closer to it than to its neighbours form an
interval around it. Its shortest decimal is the point of the coarsest power-of-ten grid that meets
this interval: `nearestOn` looks at one grid, `shortest` goes through them from coarse to fine.
-/

namespace TreeRender.Decimal

inductive Double where
  | nan
  | infinite (negative : Bool)
  | finite (negative : Bool) (mantissa : Nat) (exponent : Int)
  deriving DecidableEq

/-- The bit of the mantissa that is not stored: the one above 52 others. -/
def hiddenBit : Nat := 4503599627370496

def Double.ofBits (bits : UInt64) : Double :=
  let negative := bits.toNat / hiddenBit / 2048 = 1
  let biased : Nat := bits.toNat / hiddenBit % 2048
  let fraction : Nat := bits.toNat % hiddenBit
  if biased = 2047 then
    if fraction = 0 then .infinite negative else .nan
  else if biased = 0 then .finite negative fraction (-1074)
  else .finite negative (hiddenBit + fraction) ((biased : Int) - 1075)

structure Scaled where
  digits : Nat
  exponent : Int
  deriving DecidableEq

/-- The ends of the rounding interval in quarters of `2 ^ exponent`: half a gap on either side, a
quarter of one below a power of two, where the gap halves. -/
def lowerQuarters (mantissa : Nat) (exponent : Int) : Nat :=
  if mantissa = hiddenBit && exponent > -1074 then 4 * mantissa - 1 else 4 * mantissa - 2

def upperQuarters (mantissa : Nat) : Nat := 4 * mantissa + 2

/-- Which of two equally near decimals is taken. -/
inductive Tie where
  | up
  | even
  deriving DecidableEq

/-- The multiples of a grid's unit around `value`, the preferred one first: the nearer one, or the
one that `tie` says. -/
def neighbours (tie : Tie) (value unit : Nat) : Nat × Nat :=
  let below := value / unit
  let toBelow := value - below * unit
  let toAbove := (below + 1) * unit - value
  if toBelow < toAbove then (below, below + 1)
  else if toAbove < toBelow then (below + 1, below)
  else if tie = .even && below % 2 = 0 then (below, below + 1)
  else (below + 1, below)

/-- The multiple of `10 ^ grid` nearest to `mantissa * 2 ^ exponent`, if it lies in the rounding
interval. The ends belong to the interval of an even mantissa. -/
def nearestOn (tie : Tie) (mantissa : Nat) (exponent grid : Int) : Option Nat :=
  let up := Nat.pow 2 (exponent - 2).toNat * Nat.pow 10 (-grid).toNat
  let unit := Nat.pow 2 (2 - exponent).toNat * Nat.pow 10 grid.toNat
  let inside (n : Nat) : Bool :=
    if mantissa % 2 = 0 then
      lowerQuarters mantissa exponent * up ≤ n * unit && n * unit ≤ upperQuarters mantissa * up
    else
      lowerQuarters mantissa exponent * up < n * unit && n * unit < upperQuarters mantissa * up
  let (first, second) := neighbours tie (4 * mantissa * up) unit
  if inside first then some first else if inside second then some second else none

/-- Tries the grids `10 ^ grid`, `10 ^ (grid - 1)`, …, at most `count` of them. -/
def firstGrid (tie : Tie) (mantissa : Nat) (exponent : Int) : (count : Nat) → (grid : Int) → Scaled
  | 0, grid => ⟨mantissa, grid⟩
  | count + 1, grid =>
    match nearestOn tie mantissa exponent grid with
    | some digits => ⟨digits, grid⟩
    | none => firstGrid tie mantissa exponent count (grid - 1)

/-- The fewest digits that read back as `mantissa * 2 ^ exponent`, for a positive double. Its
magnitude lies below `10 ^ 309`, and seventeen digits suffice for the smallest. -/
def shortest (tie : Tie) (mantissa : Nat) (exponent : Int) : Scaled :=
  firstGrid tie mantissa exponent 660 309

example : shortest .up 1 (-1074) = ⟨5, -324⟩ := by decide +kernel

example : shortest .even hiddenBit (-76) = ⟨5960464477539063, -23⟩ := by decide +kernel

example : (shortest .up 5825200638297205 (-2)).digits = 14563001595743013 ∧
    (shortest .even 5825200638297205 (-2)).digits = 14563001595743012 := by decide +kernel

end TreeRender.Decimal
