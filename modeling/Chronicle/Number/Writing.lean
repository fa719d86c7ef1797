import Chronicle.Number.Shortest

/-!
# Writing doubles

The layout of a double's digits: positional while the point falls within reach of the digits, with
a signed exponent of at least two places otherwise; and a number with a set number of places,
rounded from its exact value with halves going to the even neighbour.
-/

set_option autoImplicit false

namespace Chronicle.Number

-- powers of naturals and integers are repeated products
attribute [local instance (high)] instPowNat

/-- The decimal digits of a natural. -/
def natDigits (n : Nat) : List Char :=
  Nat.toDigits 10 n

/-- The decimal numeral of an integer. -/
def intText (n : Int) : String :=
  String.ofList (if n < 0 then '-' :: natDigits n.natAbs else natDigits n.natAbs)

/-- The layout decisions of a double in natural form. -/
structure Layout where
  /-- Positional form begins at this power of ten … -/
  least : Int
  /-- … and ends below this one. -/
  most : Int
  /-- The least number of places of an exponent. -/
  exponentPlaces : Nat

/-- Numbers are positional from `0.0001` to below `10 ^ 16`; exponents have two places or more. -/
def Layout.natural : Layout := ⟨-4, 16, 2⟩

/-- Digits with a point before the last `places` of them. -/
def pointBefore (places : Nat) (ds : List Char) : List Char :=
  let ds := List.replicate (places + 1 - ds.length) '0' ++ ds
  ds.take (ds.length - places) ++ '.' :: ds.drop (ds.length - places)

/-- A positive decimal in a layout.  Positional numbers keep one place after the point. -/
def Layout.write (layout : Layout) (d : Decimal) : List Char :=
  let ds := natDigits d.digits
  let leading : Int := d.exponent + ds.length - 1
  if layout.least ≤ leading && leading < layout.most then
    if 0 ≤ d.exponent then ds ++ List.replicate d.exponent.natAbs '0' ++ ['.', '0']
    else pointBefore d.exponent.natAbs ds
  else
    let mantissa := match ds with
      | [] => []
      | [c] => [c]
      | c :: rest => c :: '.' :: rest
    let places := natDigits leading.natAbs
    mantissa ++ 'e' :: (if leading < 0 then '-' else '+')
      :: List.replicate (layout.exponentPlaces - places.length) '0' ++ places

/-- A double in natural form, with the names `nan`, `inf` and `-inf`. -/
def floatText (x : Float) : String :=
  match Binary64.ofFloat x with
  | .nan => "nan"
  | .infinite negative => if negative then "-inf" else "inf"
  | .finite negative significand exponent =>
    let body :=
      if significand == 0 then ['0', '.', '0']
      else Layout.natural.write (shortest significand exponent)
    String.ofList (if negative then '-' :: body else body)

/-- A double with a set number of places after the point. -/
def fixedText (places : Nat) (x : Float) : String :=
  match Binary64.ofFloat x with
  | .nan => "nan"
  | .infinite negative => if negative then "-inf" else "inf"
  | .finite negative significand exponent =>
    let units :=
      if exponent < 0 then divHalfEven (significand * 10 ^ places) (2 ^ exponent.natAbs)
      else significand * 2 ^ exponent.natAbs * 10 ^ places
    let body := if places == 0 then natDigits units else pointBefore places (natDigits units)
    String.ofList (if negative then '-' :: body else body)

end Chronicle.Number
