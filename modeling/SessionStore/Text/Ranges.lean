/-! # Sets of code points

A property of characters is a list of closed ranges of code points.
-/

namespace SessionStore.Text

/-- Closed ranges of code points, ascending. -/
abbrev Ranges := List (Nat × Nat)

def Ranges.contains (r : Ranges) (c : Char) : Bool :=
  r.any fun (first, last) => first ≤ c.toNat && c.toNat ≤ last

end SessionStore.Text
