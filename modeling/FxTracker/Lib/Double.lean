import Mathlib.Algebra.Order.Ring.Unbundled.Rat
import Mathlib.Data.Rat.Floor

/-!
# Doubles

Binary64 numbers as rationals, two infinities and a NaN, with the operations rounded to the nearest, ties
to even. Zeros are not told apart. A `finite` rational need not be a double: no lemma depends on it.

* `isNan_round` — an exact result rounds to a number
* `le_of_not_lt` — numbers compare as they do in an order
* `isClose_inf` — what is close to an infinity is that infinity
-/

namespace FxTracker

inductive Double
  | finite (q : ℚ)
  | inf (negative : Bool)
  | nan
  deriving DecidableEq

namespace Double

/-! ## Rounding -/

/-- `2 ^ k`. -/
def pow2 (k : Int) : ℚ := mkRat (2 ^ k.toNat) (2 ^ (-k).toNat)

/-- The exponent of the leading bit of a positive rational. -/
def exponent (q : ℚ) : Int :=
  let e : Int := Nat.log2 q.num.natAbs - Nat.log2 q.den
  if pow2 e ≤ q then e else e - 1

/-- The nearest whole number, ties to even. -/
def roundHalfEven (x : ℚ) : Int :=
  let low := x.floor
  let rest := x - low
  if rest < 1 / 2 ∨ (rest = 1 / 2 ∧ low % 2 = 0) then low else low + 1

/-- The nearest rational with 53 bits, none of them below the least subnormal. -/
def nearest (q : ℚ) : ℚ :=
  let ulp := pow2 (max (exponent |q|) (-1022) - 52)
  roundHalfEven (q / ulp) * ulp

/-- From here on a number rounds to infinity. -/
def limit : ℚ := 2 ^ 1024 - 2 ^ 970

/-- An exact result as a double. -/
def round (q : ℚ) : Double := if limit ≤ |q| then .inf (q < 0) else .finite (nearest q)

/-! ## Operations -/

def neg : Double → Double
  | finite q => finite (-q)
  | inf negative => inf !negative
  | nan => nan

def add : Double → Double → Double
  | finite a, finite b => round (a + b)
  | finite _, inf s => inf s
  | inf s, finite _ => inf s
  | inf s, inf t => if s = t then inf s else nan
  | _, _ => nan

def sub (x y : Double) : Double := add x (neg y)

def mul : Double → Double → Double
  | finite a, finite b => round (a * b)
  | finite a, inf s => if a = 0 then nan else inf (s != decide (a < 0))
  | inf s, finite a => if a = 0 then nan else inf (s != decide (a < 0))
  | inf s, inf t => inf (s != t)
  | _, _ => nan

/-- The quotient by 2. -/
def half : Double → Double
  | finite q => round (q / 2)
  | inf s => inf s
  | nan => nan

def abs : Double → Double
  | finite q => finite |q|
  | inf _ => inf false
  | nan => nan

def isNan : Double → Bool
  | nan => true
  | _ => false

def isFinite : Double → Bool
  | finite _ => true
  | _ => false

/-- `x < y`; nothing compares with a NaN. -/
def lt : Double → Double → Bool
  | finite a, finite b => a < b
  | finite _, inf negative => !negative
  | inf negative, finite _ => negative
  | inf s, inf t => s && !t
  | _, _ => false

/-- `x <= y`. -/
def le (x y : Double) : Bool := !x.isNan && !y.isNan && !lt y x

/-- A whole number as a double; `none` where it is too large for one. -/
def ofInt (i : Int) : Option Double :=
  if limit ≤ |(i : ℚ)| then none else some (.finite (nearest i))

/-- Equal, or closer than `rel` of the larger. -/
def isClose (rel x y : Double) : Bool :=
  if x = y ∧ x.isNan = false then true
  else if x.isFinite = false ∧ x.isNan = false ∨ y.isFinite = false ∧ y.isNan = false then false
  else
    let diff := abs (sub y x)
    le diff (abs (mul rel y)) || le diff (abs (mul rel x)) || le diff (finite 0)

/-! ## Comparisons -/

theorem isNan_round (q : ℚ) : (round q).isNan = false := by
  unfold round
  split <;> rfl

theorem exists_of_isFinite {x : Double} (h : x.isFinite = true) : ∃ q, x = finite q := by
  cases x with
  | finite q => exact ⟨q, rfl⟩
  | inf s => cases h
  | nan => cases h

theorem le_of_not_lt {x y : Double} (hx : x.isNan = false) (hy : y.isNan = false) (h : lt y x = false) :
    le x y = true := by
  simp [le, hx, hy, h]

theorem pos_of_not_le {q : ℚ} (h : le (finite q) (finite 0) = false) : 0 < q := by
  simpa [le, lt, isNan] using h

theorem isNan_half {x : Double} (h : x.isNan = false) : x.half.isNan = false := by
  cases x with
  | finite q => exact isNan_round _
  | inf s => rfl
  | nan => cases h

theorem isNan_mul {a : ℚ} (ha : a ≠ 0) {x : Double} (h : x.isNan = false) :
    (mul (finite a) x).isNan = false := by
  cases x with
  | finite q => exact isNan_round _
  | inf s =>
    rw [mul, if_neg ha]
    rfl
  | nan => cases h

/-- **What is close to an infinity is that infinity.** -/
theorem isClose_inf {rel y : Double} {s : Bool} : isClose rel (inf s) y = true ↔ y = inf s := by
  unfold isClose
  constructor
  · intro h
    by_cases heq : inf s = y
    · exact heq.symm
    · rw [if_neg fun hboth => heq hboth.1, if_pos (.inl ⟨rfl, rfl⟩)] at h
      cases h
  · intro h
    rw [h, if_pos ⟨rfl, rfl⟩]

/-- **What is close to a finite number is finite.** -/
theorem exists_of_isClose {rel y : Double} {q : ℚ} (h : isClose rel (finite q) y = true) :
    ∃ r, y = finite r := by
  cases y with
  | finite r => exact ⟨r, rfl⟩
  | inf s =>
    unfold isClose at h
    rw [if_neg (by simp), if_pos (.inr ⟨rfl, rfl⟩)] at h
    cases h
  | nan => cases h

end Double

end FxTracker
