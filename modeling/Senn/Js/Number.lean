import Senn.Js.Text
import Mathlib.Algebra.Order.Field.Rat

/-! # Numbers

A Number is NaN, an infinity or a finite rational; the two zeros are one value
here, since no comparison, array index or text of the program tells them apart.
`toDouble` rounds to the nearest double, ties to even, and `numText` is
`Number.prototype.toString`. -/

namespace Senn.Js

inductive Number where
  | nan
  | ninf
  | pinf
  | fin (q : ℚ)
deriving DecidableEq

namespace Number

def ofNat (n : Nat) : Number := .fin n

/-- `a < b` -/
def lt : Number → Number → Bool
  | .fin a, .fin b => decide (a < b)
  | .fin _, .pinf | .ninf, .fin _ | .ninf, .pinf => true
  | _, _ => false

/-- `a <= b` -/
def le : Number → Number → Bool
  | .nan, _ | _, .nan => false
  | a, b => !b.lt a

/-- `a === b` -/
def eq : Number → Number → Bool
  | .nan, _ => false
  | a, b => decide (a = b)

/-- The integer a finite number is, when it is one and not negative. -/
def toNat? : Number → Option Nat
  | .fin q => if q.den = 1 ∧ 0 ≤ q.num then some q.num.toNat else none
  | _ => none

/-- The length `new Array(n)` gives an array; other numbers are a RangeError. -/
def arrayLength? (n : Number) : Option Nat := n.toNat?.filter fun k => decide (k < 2 ^ 32)

@[simp] theorem ofNat_inj {m n : Nat} : ofNat m = ofNat n ↔ m = n := by
  simp [ofNat]

@[simp] theorem lt_ofNat (m n : Nat) : (ofNat m).lt (ofNat n) = decide (m < n) := by
  simp [ofNat, lt]

@[simp] theorem le_ofNat (m n : Nat) : (ofNat m).le (ofNat n) = decide (m ≤ n) := by
  rw [Bool.eq_iff_iff]
  simp [ofNat, le, lt]

@[simp] theorem toNat?_ofNat (n : Nat) : (ofNat n).toNat? = some n := by
  simp [ofNat, toNat?]

theorem toNat?_eq_some {x : Number} {n : Nat} : x.toNat? = some n ↔ x = ofNat n := by
  constructor
  · intro h
    cases x with
    | fin q =>
      simp only [toNat?, Option.ite_none_right_eq_some, Option.some.injEq] at h
      obtain ⟨⟨hd, hn⟩, rfl⟩ := h
      have hq : q = (q.num : ℚ) := (Rat.coe_int_num_of_den_eq_one hd).symm
      rw [ofNat]
      congr 1
      rw [hq]
      exact_mod_cast (Int.toNat_of_nonneg hn).symm
    | nan | ninf | pinf => cases h
  · rintro rfl; exact toNat?_ofNat n

theorem arrayLength?_eq_some {x : Number} {n : Nat} :
    x.arrayLength? = some n ↔ x = ofNat n ∧ n < 2 ^ 32 := by
  simp [arrayLength?, Option.filter_eq_some_iff, toNat?_eq_some]

@[simp] theorem eq_iff {a b : Number} : a.eq b = true ↔ a = b ∧ a ≠ .nan := by
  cases a <;> simp [eq]

end Number

/-! ## Rounding -/

/-- `n / d` to the nearest integer, ties to even. -/
def roundEven (n d : Nat) : Nat :=
  let q := n / d
  let r := n % d
  if 2 * r < d ∨ (2 * r = d ∧ q % 2 = 0) then q else q + 1

/-- `q / b ^ e` as a fraction of naturals, for `q ≥ 0`. -/
def scaled (b : Nat) (q : ℚ) (e : Int) : Nat × Nat :=
  if 0 ≤ e then (q.num.natAbs, q.den * b ^ e.toNat) else (q.num.natAbs * b ^ (-e).toNat, q.den)

/-- `m * b ^ e` -/
def powered (b m : Nat) (e : Int) : ℚ :=
  if 0 ≤ e then (m * b ^ e.toNat : Nat) else mkRat m (b ^ (-e).toNat)

/-- The exponent of the last of the 53 bits of a double near `q > 0`. -/
def lastBit (q : ℚ) : Int :=
  let e : Int := Nat.log2 q.num.natAbs - Nat.log2 q.den - 52
  let f := scaled 2 q e
  max (if f.1 < 2 ^ 52 * f.2 then e - 1 else e) (-1074)

/-- The double nearest to `q`, ties to even. Integers of at most 53 bits are
doubles themselves. -/
def toDouble (q : ℚ) : Number :=
  if q.den = 1 ∧ q.num.natAbs ≤ 2 ^ 53 then .fin q
  else
    let f := scaled 2 q (lastBit q)
    let v := powered 2 (roundEven f.1 f.2) (lastBit q)
    if (2 ^ 1024 : Nat) ≤ v then (if q.num < 0 then .ninf else .pinf)
    else .fin (if q.num < 0 then -v else v)

theorem toDouble_nat {n : Nat} (h : n ≤ 2 ^ 53) : toDouble n = .ofNat n := by
  rw [toDouble, if_pos ⟨by simp, by simpa using h⟩]
  rfl

/-! ## Text -/

/-- The decimal exponent `n` with `10 ^ (n - 1) ≤ q < 10 ^ n`, for `q > 0`. -/
def decimalExponent (q : ℚ) : Int :=
  let e : Int := Nat.log 10 q.num.natAbs - Nat.log 10 q.den
  let f := scaled 10 q e
  if f.1 < f.2 then e else e + 1

/-- `k` significant digits `s` and an exponent `n` with `s * 10 ^ (n - k)`
rounding to the double `q > 0`, the nearer of the two neighbours first. -/
def digitsOf? (q : ℚ) (k : Nat) : Option (Nat × Int) :=
  let n := decimalExponent q
  let f := scaled 10 q (n - k)
  let near := roundEven f.1 f.2
  let far := if near = f.1 / f.2 then near + 1 else f.1 / f.2
  ([near, far].find? fun s => decide (toDouble (powered 10 s (n - k)) = .fin q)).map fun s =>
    if s = 10 ^ k then (10 ^ (k - 1), n + 1) else (s, n)

/-- The shortest digits of a double `q > 0`: their number, the digits, the exponent. -/
def shortest (q : ℚ) : Nat × Nat × Int :=
  ((List.range' 1 17).findSome? fun k => (digitsOf? q k).map fun p => (k, p)).getD
    -- seventeen digits always determine a double; the exact expansion otherwise
    (let s := q.num.natAbs * 5 ^ Nat.log2 q.den
     let k := Nat.log 10 s + 1
     (k, s, (k : Int) - Nat.log2 q.den))

/-- The text of a double `q > 0` from its shortest digits. -/
def positiveText (q : ℚ) : JsString :=
  let (k, s, n) := shortest q
  let ds := natText 10 s
  if k ≤ n ∧ n ≤ 21 then ds ++ List.replicate (n - k).toNat 48
  else if 0 < n ∧ n ≤ 21 then ds.take n.toNat ++ 46 :: ds.drop n.toNat
  else if -6 < n ∧ n ≤ 0 then js "0." ++ List.replicate (-n).toNat 48 ++ ds
  else
    let e := n - 1
    let mantissa := if k = 1 then ds else ds.take 1 ++ 46 :: ds.drop 1
    mantissa ++ js (if e < 0 then "e-" else "e+") ++ natText 10 e.natAbs

/-- `x.toString()` -/
def numText : Number → JsString
  | .nan => js "NaN"
  | .ninf => js "-Infinity"
  | .pinf => js "Infinity"
  | .fin q =>
    (if q.num < 0 then [45] else []) ++
      if q.den = 1 ∧ q.num.natAbs ≤ 2 ^ 53 then natText 10 q.num.natAbs
      else positiveText (if q.num < 0 then -q else q)

theorem numText_ofNat {n : Nat} (h : n ≤ 2 ^ 53) : numText (.ofNat n) = natText 10 n := by
  have hneg : ¬ (((n : ℚ)).num < 0) := by simp
  rw [Number.ofNat, numText, if_neg hneg, if_pos ⟨by simp, by simpa using h⟩]
  simp

end Senn.Js
