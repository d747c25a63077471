import SessionStore.Binary.Format

/-! # The fewest digits that read back

A finite value stands for all reals that round to it. Of the decimals among those the one with the
fewest digits is chosen; of several of that length the nearest to the value; of two equally near
ones that with the even last digit.
-/

namespace SessionStore.Binary

/-- Compares `a · 10 ^ i` with `n · 2 ^ j`. -/
def compareScaled (a : Nat) (i : Int) (n : Nat) (j : Int) : Ordering :=
  compare (a * Nat.pow 10 i.toNat * Nat.pow 2 (-j).toNat)
    (n * Nat.pow 2 j.toNat * Nat.pow 10 (-i).toNat)

/-- The decimal `digits · 10 ^ exponent`. -/
structure Decimal where
  digits : Nat
  exponent : Int
  deriving DecidableEq, Repr

/-- The value below is only half as far away as the value above. -/
def Format.isNarrowBelow (f : Format) (m : Nat) (q : Int) : Bool :=
  m == Nat.pow 2 (f.precision - 1) && f.least < q

/-- The decimal lies among the reals that round to `m · 2 ^ q`: between the two halfway points to
the neighbours, which belong to it exactly if `m` is even. -/
def Format.readsBack (f : Format) (m : Nat) (q : Int) (d : Decimal) : Bool :=
  let low := if f.isNarrowBelow m q then 4 * m - 1 else 4 * m - 2
  let closed := m % 2 == 0
  let below := compareScaled d.digits d.exponent low (q - 2)
  let above := compareScaled d.digits d.exponent (4 * m + 2) (q - 2)
  (below == .gt || (closed && below == .eq)) && (above == .lt || (closed && above == .eq))

/-- The least exponent `k` with `m · 2 ^ q < 10 ^ k`, for `0 < m`. The logarithm is off by at most
one. -/
def decimalScale (m : Nat) (q : Int) : Int :=
  let guess := (q + m.log2) * 30103 / 100000
  let fits (k : Int) : Bool := compareScaled 1 k m q == .gt
  if fits guess then (if fits (guess - 1) then guess - 1 else guess)
  else if fits (guess + 1) then guess + 1
  else guess + 2

/-- The candidate of the grid `10 ^ e`: the value's neighbour on it that reads back. -/
def Format.candidate (f : Format) (m : Nat) (q e : Int) : Option Decimal :=
  let num := m * Nat.pow 2 q.toNat * Nat.pow 10 (-e).toNat
  let den := Nat.pow 2 (-q).toNat * Nat.pow 10 e.toNat
  let c := num / den
  let low : Decimal := ⟨c, e⟩
  let high : Decimal := ⟨c + 1, e⟩
  match f.readsBack m q low, f.readsBack m q high with
  | true, true =>
    let r := num % den
    if 2 * r < den then some low
    else if den < 2 * r then some high
    else if c % 2 = 0 then some low else some high
  | true, false => some low
  | false, true => some high
  | false, false => none

/-- The decimal without the zeros at its end, of which there are fewer than `limit`. -/
def Decimal.strip (limit : Nat) (d : Decimal) : Decimal :=
  match limit with
  | 0 => d
  | limit + 1 =>
    if d.digits % 10 = 0 ∧ d.digits ≠ 0 then Decimal.strip limit ⟨d.digits / 10, d.exponent + 1⟩
    else d

/-- The shortest decimal of a finite nonzero pattern. Seventeen digits always read back. -/
def Format.shortest (f : Format) (bits : Nat) : Decimal :=
  let (m, q) := f.value bits
  let k := decimalScale m q
  match (List.range 17).findSome? fun n => f.candidate m q (k - (n + 1 : Nat)) with
  | some d => d.strip 17
  | none => ⟨m * Nat.pow 2 q.toNat * Nat.pow 5 (-q).toNat, min q 0⟩

end SessionStore.Binary
