/-!
# Bits of integers

An integer has bits without end: those of a natural number are zero from some place on, and those of
`-(n + 1)` are the opposites of those of `n`.  Operations on bits combine two integers place by
place, so they need no bound on either.
-/

set_option autoImplicit false

namespace Chronicle.Bits

/-- The integer whose bits are combined from those of two naturals. -/
def combineNats (f : Bool → Bool → Bool) (m n : Nat) : Int :=
  if f false false then .negSucc (Nat.bitwise (fun x y => !f x y) m n)
  else .ofNat (Nat.bitwise f m n)

/-- The integer whose bits are combined from those of two integers. -/
def combine (f : Bool → Bool → Bool) : Int → Int → Int
  | .ofNat m, .ofNat n => combineNats f m n
  | .ofNat m, .negSucc n => combineNats (fun x y => f x !y) m n
  | .negSucc m, .ofNat n => combineNats (fun x y => f (!x) y) m n
  | .negSucc m, .negSucc n => combineNats (fun x y => f (!x) !y) m n

/-- The bits that both integers have. -/
def land : Int → Int → Int := combine (· && ·)

/-- The bits that one of the integers has. -/
def lor : Int → Int → Int := combine (· || ·)

/-- The bits in which the integers differ. -/
def lxor : Int → Int → Int := combine (· != ·)

end Chronicle.Bits
