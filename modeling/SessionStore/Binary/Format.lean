/-! # Binary floating-point formats

A magnitude is a natural number of equal steps from zero: its bit pattern. Patterns and values grow
together, so rounding a ratio to the nearest value and counting the steps up to it are one
computation, subnormal values and the carry into the next power of two included.
-/

namespace SessionStore.Binary

/-- Values are `m · 2 ^ q` with `m` of at most `precision` bits and `q ≥ least`. Patterns from
`infinity` on are no finite values. -/
structure Format where
  precision : Nat
  least : Int
  infinity : Nat

def binary64 : Format := ⟨53, -1074, 0x7FF0000000000000⟩

def binary32 : Format := ⟨24, -149, 0x7F800000⟩

/-- The natural number nearest to `num / den`; of two, the even one. -/
def roundHalfEven (num den : Nat) : Nat :=
  let q := num / den
  let r := num % den
  if 2 * r < den then q
  else if den < 2 * r then q + 1
  else q + q % 2

/-- Significand and exponent of a finite pattern. -/
def Format.value (f : Format) (bits : Nat) : Nat × Int :=
  let implicit := Nat.pow 2 (f.precision - 1)
  let e := bits / implicit
  if e = 0 then (bits, f.least) else (bits % implicit + implicit, f.least + (e - 1 : Nat))

/-- The largest exponent `e` with `2 ^ e ≤ num / den`, for a positive ratio. -/
def floorLog (num den : Nat) : Int :=
  let e : Int := (num.log2 : Int) - den.log2
  if den * Nat.pow 2 e.toNat ≤ num * Nat.pow 2 (-e).toNat then e else e - 1

/-- The pattern of the value nearest to `num / den`, infinity if that is too large. -/
def Format.nearest (f : Format) (num den : Nat) : Nat :=
  if num = 0 then 0
  else
    let q := max f.least (floorLog num den - (f.precision - 1 : Nat))
    let m := roundHalfEven (num * Nat.pow 2 (-q).toNat) (den * Nat.pow 2 q.toNat)
    min ((q - f.least).toNat * Nat.pow 2 (f.precision - 1) + m) f.infinity

/-- The pattern of the value nearest to `m · 2 ^ q · num / den`. -/
def Format.nearestScaled (f : Format) (m : Nat) (q : Int) (num den : Nat) : Nat :=
  f.nearest (m * Nat.pow 2 q.toNat * num) (Nat.pow 2 (-q).toNat * den)

/-- The product of two finite values, rounded once. -/
def Format.mul (f : Format) (a b : Nat) : Nat :=
  let (ma, qa) := f.value a
  let (mb, qb) := f.value b
  f.nearestScaled (ma * mb) (qa + qb) 1 1

/-- The quotient of a finite value by a positive one, rounded once. -/
def Format.div (f : Format) (a b : Nat) : Nat :=
  let (ma, qa) := f.value a
  let (mb, qb) := f.value b
  f.nearestScaled ma (qa - qb) 1 mb

/-- The pattern of the value nearest to `digits · 10 ^ exponent`. -/
def Format.nearestDecimal (f : Format) (digits : Nat) (exponent : Int) : Nat :=
  f.nearest (digits * Nat.pow 10 exponent.toNat) (Nat.pow 10 (-exponent).toNat)

end SessionStore.Binary
