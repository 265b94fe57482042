/-!
# Powers

Scales of numbers are powers of two and of ten.  They are written with
`Nat.pow` itself and not with `^`, because a wider library may know a more
general `^`, which agrees with this one and yet is another term.
-/

namespace TokenMarket.Power

/-- The power of two with an exponent. -/
abbrev two (n : Nat) : Nat := Nat.pow 2 n

/-- The power of ten with an exponent. -/
abbrev ten (n : Nat) : Nat := Nat.pow 10 n

end TokenMarket.Power
