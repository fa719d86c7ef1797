import Chronicle.Text.CaseTable

/-!
# Changing case

Full case conversion of a text, character by character; a conversion may lengthen the text.  The
one rule that looks at its surroundings is the capital sigma, whose small form at the end of a
word differs from the one elsewhere.
-/

set_option autoImplicit false

namespace Chronicle.Text

/-- The counterpart of a character in a table of runs. -/
def counterpart? (runs : List CaseRun) (n : Nat) : Option Nat :=
  (runs.find? fun (lo, hi, stride, _) => lo ≤ n && n ≤ hi && (n - lo) % stride == 0).map
    fun (lo, _, _, target) => target + (n - lo)

/-- One character converted by a table of runs and a table of longer forms. -/
def convert (runs : List CaseRun) (long : List (Nat × List Nat)) (c : Char) : List Char :=
  match long.lookup c.toNat with
  | some ns => ns.map Char.ofNat
  | none =>
    match counterpart? runs c.toNat with
    | some n => [Char.ofNat n]
    | none => [c]

/-- Whether a character lies in a list of ranges. -/
def inRanges (ranges : List (Nat × Nat)) (c : Char) : Bool :=
  ranges.any fun (lo, hi) => lo ≤ c.toNat && c.toNat ≤ hi

/-- Whether the nearest character that is not passed over is a cased letter. -/
def meetsCased (cs : List Char) : Bool :=
  match cs.dropWhile (inRanges caseIgnorable) with
  | [] => false
  | c :: _ => inRanges cased c

/-- The text in capitals. -/
def toUpper (s : String) : String :=
  String.ofList (s.toList.flatMap fun c =>
    if c.toNat < 0x80 then [c.toUpper] else convert capitals longCapitals c)

/-- Small letters of a text whose characters before it are given nearest first.  A capital sigma
ends a word when a cased letter precedes it and none follows. -/
def toLowerAfter (before : List Char) : List Char → List Char
  | [] => []
  | c :: rest =>
    let here :=
      if c.toNat == 0x3A3 then
        if meetsCased before && !meetsCased rest then [Char.ofNat 0x3C2] else [Char.ofNat 0x3C3]
      else if c.toNat < 0x80 then [c.toLower]
      else convert smalls longSmalls c
    here ++ toLowerAfter (c :: before) rest

/-- The text in small letters. -/
def toLower (s : String) : String :=
  String.ofList (toLowerAfter [] s.toList)

end Chronicle.Text
