/-!
The shortest decimal text of a binary floating-point number. Of the decimals with the fewest digits
that round to the number, the nearest is taken.
-/

namespace PlaybookTidy.Decimal

/-- A positive number `mantissa * 2 ^ exponent`, where `lowest` says that the gap below it is half
the gap above it. -/
structure Binary where
  mantissa : Nat
  exponent : Int
  lowest : Bool
  deriving DecidableEq, Repr

/-- The number that the bits of a finite, positive double stand for. -/
def Binary.ofBits (bits : UInt64) : Binary :=
  let field := (bits >>> 52).toNat % 2048
  let fraction := bits.toNat % 0x10000000000000
  if field = 0 then ⟨fraction, -1074, false⟩
  else ⟨0x10000000000000 + fraction, field - 1075, fraction = 0 && field > 1⟩

/-- Compares `a * 10 ^ k` with `n * 2 ^ q`. -/
def compareScaled (a : Nat) (k : Int) (n : Nat) (q : Int) : Ordering :=
  compare (a * Nat.pow 10 k.toNat * Nat.pow 2 (-q).toNat)
    (n * Nat.pow 2 q.toNat * Nat.pow 10 (-k).toNat)

/-- Whether `a * 10 ^ k` rounds to the number. An end of the interval does if the mantissa is even. -/
def Binary.roundsFrom (b : Binary) (a : Nat) (k : Int) : Bool :=
  let q := b.exponent - 2
  let low := compareScaled a k (4 * b.mantissa - if b.lowest then 1 else 2) q
  let high := compareScaled a k (4 * b.mantissa + 2) q
  if b.mantissa % 2 = 0 then low ≠ .lt && high ≠ .gt else low = .gt && high = .lt

/-- The least `p` with the number below `10 ^ p`. -/
def Binary.magnitude (b : Binary) : Int :=
  (((List.range 700).map fun (i : Nat) => (i : Int) - 350).find? fun p =>
    compareScaled 1 p b.mantissa b.exponent = .gt).getD 0

/-- The multiple of `10 ^ k` that is next below the number, and its distance in units of
`10 ^ k`, as a fraction. -/
def Binary.floorAt (b : Binary) (k : Int) : Nat × Nat × Nat :=
  let num := b.mantissa * Nat.pow 2 b.exponent.toNat * Nat.pow 10 (-k).toNat
  let den := Nat.pow 2 (-b.exponent).toNat * Nat.pow 10 k.toNat
  (num / den, num % den, den)

/-- The decimal on the grid of `10 ^ k` that rounds to the number, if there is one. -/
def Binary.onGrid? (b : Binary) (k : Int) : Option Nat :=
  let (a, rest, den) := b.floorAt k
  let below := b.roundsFrom a k
  let above := b.roundsFrom (a + 1) k
  if below && above then some (if 2 * rest < den || (2 * rest = den && a % 2 = 0) then a else a + 1)
  else if below then some a
  else if above then some (a + 1)
  else none

/-- The shortest digits of the number, and the power of ten of the last digit. -/
def Binary.digits (b : Binary) : Nat × Int :=
  let p := b.magnitude
  let found := ((List.range 17).map fun (i : Nat) => p - (i + 1 : Nat)).findSome? fun k =>
    (b.onGrid? k).map fun a => (a, k)
  let (a, k) := found.getD (0, 0)
  if a % 10 = 0 then (a / 10, k + 1) else (a, k)

/-- The text of an exponent, always with its sign. -/
def exponentText (e : Int) : List Char :=
  'e' :: (if 0 ≤ e then '+' else '-') :: Nat.toDigits 10 e.natAbs

/-- Positional from `10 ^ -5` up to `10 ^ 16`, always with a fraction; scientific beyond. -/
def layout (a : Nat) (k : Int) : List Char :=
  let ds := Nat.toDigits 10 a
  let p := ds.length + k
  if 0 ≤ k && p ≤ 16 then ds ++ List.replicate k.toNat '0' ++ ['.', '0']
  else if 0 < p && p ≤ 16 then ds.take p.toNat ++ '.' :: ds.drop p.toNat
  else if -5 < p && p ≤ 0 then '0' :: '.' :: (List.replicate (-p).toNat '0' ++ ds)
  else
    ds.take 1 ++ (if ds.length = 1 then [] else '.' :: ds.drop 1) ++ exponentText (p - 1)

def print (f : Float) : String :=
  let bits := f.toBits
  let sign := if bits >>> 63 = 0 then [] else ['-']
  let b := Binary.ofBits bits
  String.ofList (sign ++
    if b.mantissa = 0 then ['0', '.', '0'] else
      let (a, k) := b.digits
      layout a k)

end PlaybookTidy.Decimal
