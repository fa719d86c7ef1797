/-!
# UTF-8

How bytes fail to be text.  The first byte of a character tells in which ranges the bytes after it
have to lie; bytes are no text where no character starts with a byte, where a byte is out of its
range, or where they end within a character.  Bytes that are no text have such a flaw
(`exists_of_flawFrom?`), and decoding tells the first one.
-/

set_option autoImplicit false

namespace Chronicle.Utf8

/-- What is wrong with the bytes of a character. -/
inductive Reason where
  | startByte
  | continuationByte
  | unexpectedEnd
  deriving DecidableEq, Repr

/-- The wording of a reason. -/
def Reason.message : Reason → String
  | .startByte => "invalid start byte"
  | .continuationByte => "invalid continuation byte"
  | .unexpectedEnd => "unexpected end of data"

/-- Bytes that are no character. -/
structure Flaw where
  /-- Where the first of them stands. -/
  position : Nat
  /-- The first of them. -/
  byte : UInt8
  /-- How many more there are. -/
  more : Nat
  reason : Reason
  deriving DecidableEq, Repr

/-- The range of most bytes of a character but the first. -/
def continuation : UInt8 × UInt8 := (0x80, 0xBF)

/-- The ranges of the bytes that follow the first byte of a character; no character starts with the
bytes that have none. -/
def followers? (b : UInt8) : Option (List (UInt8 × UInt8)) :=
  if b < 0x80 then some []
  else if b < 0xC2 then none
  else if b < 0xE0 then some [continuation]
  else if b < 0xF0 then
    some [(if b == 0xE0 then 0xA0 else 0x80, if b == 0xED then 0x9F else 0xBF), continuation]
  else if b < 0xF5 then
    some [(if b == 0xF0 then 0x90 else 0x80, if b == 0xF4 then 0x8F else 0xBF), continuation,
      continuation]
  else none

/-- What is wrong with bytes that have to lie in some ranges, and how many are right before that. -/
def breach? : List (UInt8 × UInt8) → List UInt8 → Option (Nat × Reason)
  | [], _ => none
  | _ :: _, [] => some (0, .unexpectedEnd)
  | (low, high) :: ranges, b :: bytes =>
    if low ≤ b ∧ b ≤ high then (breach? ranges bytes).map fun (count, reason) => (count + 1, reason)
    else some (0, .continuationByte)

/-- The first flaw of bytes of which the first stands at a position. -/
def flawFrom? (position : Nat) : List UInt8 → Option Flaw
  | [] => none
  | b :: bytes =>
    match followers? b with
    | none => some ⟨position, b, 0, .startByte⟩
    | some ranges =>
      match breach? ranges bytes with
      | some (count, reason) => some ⟨position, b, count, reason⟩
      | none => flawFrom? (position + 1 + ranges.length) (bytes.drop ranges.length)
  termination_by bytes => bytes.length
  decreasing_by simp only [List.length_drop, List.length_cons]; omega

/-! ## Bytes without a flaw -/

theorem breach?_cons_eq_none {low high : UInt8} {ranges : List (UInt8 × UInt8)}
    {bytes : List UInt8} (h : breach? ((low, high) :: ranges) bytes = none) :
    ∃ x rest, bytes = x :: rest ∧ (low.toNat ≤ x.toNat ∧ x.toNat ≤ high.toNat) ∧
      breach? ranges rest = none := by
  cases bytes with
  | nil => cases h
  | cons x rest =>
    unfold breach? at h
    split at h
    · rename_i hx
      rw [UInt8.le_iff_toNat_le, UInt8.le_iff_toNat_le] at hx
      exact ⟨x, rest, rfl, hx, Option.map_eq_none_iff.1 h⟩
    · cases h

theorem toNat_ite (b k x y : UInt8) :
    (if b == k then x else y).toNat = if b.toNat = k.toNat then x.toNat else y.toNat := by
  by_cases h : b = k
  · subst h
    simp
  · have hne : b.toNat ≠ k.toNat := fun he => h (UInt8.toNat_inj.1 he)
    simp [h, hne]

theorem eq_ofNat {b : UInt8} {n : Nat} (h : b.toNat = n % 256) : b = UInt8.ofNat n :=
  UInt8.toNat_inj.1 h

/-- The character of a code that is no surrogate. -/
theorem exists_char {n : Nat} (h : n < 0xD800 ∨ 0xDFFF < n ∧ n < 0x110000) :
    ∃ c : Char, c.val.toNat = n := by
  refine ⟨Char.ofNatAux n h, ?_⟩
  exact UInt32.toNat_ofNatLT ..

section
variable {b x y z : UInt8}

theorem exists_char_one (hb : b.toNat < 0x80) : ∃ c, [b] = String.utf8EncodeChar c := by
  obtain ⟨c, hc⟩ := exists_char (n := b.toNat) (by omega)
  refine ⟨c, ?_⟩
  unfold String.utf8EncodeChar
  rw [hc, if_pos (by omega), ← eq_ofNat (b := b) (by omega)]

theorem exists_char_two (hb : 0xC2 ≤ b.toNat ∧ b.toNat < 0xE0)
    (hx : 0x80 ≤ x.toNat ∧ x.toNat ≤ 0xBF) : ∃ c, [b, x] = String.utf8EncodeChar c := by
  obtain ⟨c, hc⟩ := exists_char (n := (b.toNat - 0xC0) * 64 + (x.toNat - 0x80)) (by omega)
  refine ⟨c, ?_⟩
  unfold String.utf8EncodeChar
  dsimp only
  rw [hc, if_neg (by omega), if_pos (by omega), ← eq_ofNat (b := b) (by omega),
    ← eq_ofNat (b := x) (by omega)]

theorem exists_char_three (hb : 0xE0 ≤ b.toNat ∧ b.toNat < 0xF0)
    (hx : 0x80 ≤ x.toNat ∧ x.toNat ≤ 0xBF) (hy : 0x80 ≤ y.toNat ∧ y.toNat ≤ 0xBF)
    (hlow : b.toNat = 0xE0 → 0xA0 ≤ x.toNat) (hhigh : b.toNat = 0xED → x.toNat ≤ 0x9F) :
    ∃ c, [b, x, y] = String.utf8EncodeChar c := by
  obtain ⟨c, hc⟩ := exists_char
    (n := (b.toNat - 0xE0) * 4096 + (x.toNat - 0x80) * 64 + (y.toNat - 0x80)) (by omega)
  refine ⟨c, ?_⟩
  unfold String.utf8EncodeChar
  dsimp only
  rw [hc, if_neg (by omega), if_neg (by omega), if_pos (by omega), ← eq_ofNat (b := b) (by omega),
    ← eq_ofNat (b := x) (by omega), ← eq_ofNat (b := y) (by omega)]

theorem exists_char_four (hb : 0xF0 ≤ b.toNat ∧ b.toNat < 0xF5)
    (hx : 0x80 ≤ x.toNat ∧ x.toNat ≤ 0xBF) (hy : 0x80 ≤ y.toNat ∧ y.toNat ≤ 0xBF)
    (hz : 0x80 ≤ z.toNat ∧ z.toNat ≤ 0xBF) (hlow : b.toNat = 0xF0 → 0x90 ≤ x.toNat)
    (hhigh : b.toNat = 0xF4 → x.toNat ≤ 0x8F) :
    ∃ c, [b, x, y, z] = String.utf8EncodeChar c := by
  obtain ⟨c, hc⟩ := exists_char
    (n := (b.toNat - 0xF0) * 262144 + (x.toNat - 0x80) * 4096 + (y.toNat - 0x80) * 64 +
      (z.toNat - 0x80)) (by omega)
  refine ⟨c, ?_⟩
  unfold String.utf8EncodeChar
  dsimp only
  rw [hc, if_neg (by omega), if_neg (by omega), if_neg (by omega), ← eq_ofNat (b := b) (by omega),
    ← eq_ofNat (b := x) (by omega), ← eq_ofNat (b := y) (by omega), ← eq_ofNat (b := z) (by omega)]

end

/-- Which bytes a character of each length starts with, and what follows them. -/
theorem followers?_cases {b : UInt8} {ranges : List (UInt8 × UInt8)}
    (h : followers? b = some ranges) :
    b.toNat < 0x80 ∧ ranges = [] ∨
    (0xC2 ≤ b.toNat ∧ b.toNat < 0xE0) ∧ ranges = [continuation] ∨
    (0xE0 ≤ b.toNat ∧ b.toNat < 0xF0) ∧ ranges =
      [(if b == 0xE0 then 0xA0 else 0x80, if b == 0xED then 0x9F else 0xBF), continuation] ∨
    (0xF0 ≤ b.toNat ∧ b.toNat < 0xF5) ∧ ranges =
      [(if b == 0xF0 then 0x90 else 0x80, if b == 0xF4 then 0x8F else 0xBF), continuation,
        continuation] := by
  unfold followers? at h
  simp only [UInt8.lt_iff_toNat_lt, UInt8.reduceToNat] at h
  split at h
  · exact .inl ⟨‹_›, (Option.some.inj h).symm⟩
  split at h
  · cases h
  split at h
  · exact .inr (.inl ⟨by omega, (Option.some.inj h).symm⟩)
  split at h
  · exact .inr (.inr (.inl ⟨by omega, (Option.some.inj h).symm⟩))
  split at h
  · exact .inr (.inr (.inr ⟨by omega, (Option.some.inj h).symm⟩))
  · cases h

/-- A byte and bytes in the ranges that follow it are a character. -/
theorem exists_char_of_followers {b : UInt8} {ranges : List (UInt8 × UInt8)} {bytes : List UInt8}
    (hranges : followers? b = some ranges) (hbreach : breach? ranges bytes = none) :
    ∃ c, b :: bytes.take ranges.length = String.utf8EncodeChar c := by
  rcases followers?_cases hranges with ⟨hb, rfl⟩ | ⟨hb, rfl⟩ | ⟨hb, rfl⟩ | ⟨hb, rfl⟩
  · exact exists_char_one hb
  · obtain ⟨x, rest, rfl, hx, -⟩ := breach?_cons_eq_none hbreach
    exact exists_char_two hb hx
  · obtain ⟨x, rest, rfl, ⟨hlow, hhigh⟩, hbreach⟩ := breach?_cons_eq_none hbreach
    obtain ⟨y, rest, rfl, hy, -⟩ := breach?_cons_eq_none hbreach
    rw [toNat_ite] at hlow hhigh
    simp only [UInt8.reduceToNat] at hlow hhigh
    have hx : 0x80 ≤ x.toNat ∧ x.toNat ≤ 0xBF := by
      constructor
      · split at hlow <;> omega
      · split at hhigh <;> omega
    exact exists_char_three hb hx hy (fun h => by rwa [if_pos h] at hlow)
      fun h => by rwa [if_pos h] at hhigh
  · obtain ⟨x, rest, rfl, ⟨hlow, hhigh⟩, hbreach⟩ := breach?_cons_eq_none hbreach
    obtain ⟨y, rest, rfl, hy, hbreach⟩ := breach?_cons_eq_none hbreach
    obtain ⟨z, rest, rfl, hz, -⟩ := breach?_cons_eq_none hbreach
    rw [toNat_ite] at hlow hhigh
    simp only [UInt8.reduceToNat] at hlow hhigh
    have hx : 0x80 ≤ x.toNat ∧ x.toNat ≤ 0xBF := by
      constructor
      · split at hlow <;> omega
      · split at hhigh <;> omega
    exact exists_char_four hb hx hy hz (fun h => by rwa [if_pos h] at hlow)
      fun h => by rwa [if_pos h] at hhigh

/-- Bytes without a flaw are text. -/
theorem exists_of_flawFrom? (position : Nat) (bytes : List UInt8)
    (h : flawFrom? position bytes = none) :
    ∃ cs : List Char, bytes = cs.flatMap String.utf8EncodeChar := by
  fun_induction flawFrom? position bytes with
  | case1 => exact ⟨[], rfl⟩
  | case2 | case3 => cases h
  | case4 position b bytes ranges hranges hbreach ih =>
    obtain ⟨c, hc⟩ := exists_char_of_followers hranges hbreach
    obtain ⟨cs, hcs⟩ := ih h
    refine ⟨c :: cs, ?_⟩
    rw [List.flatMap_cons, ← hc, ← hcs, List.cons_append, List.take_append_drop]

theorem isValidUTF8_of_flawFrom? {bytes : ByteArray}
    (h : flawFrom? 0 bytes.data.toList = none) : bytes.IsValidUTF8 := by
  obtain ⟨cs, hcs⟩ := exists_of_flawFrom? 0 bytes.data.toList h
  refine ⟨cs, ByteArray.ext ?_⟩
  unfold List.utf8Encode
  rw [List.data_toByteArray, ← hcs]

/-- The first flaw of bytes that are no text. -/
def flaw (bytes : ByteArray) (h : ¬ bytes.IsValidUTF8) : Flaw :=
  (flawFrom? 0 bytes.data.toList).get <|
    Option.isSome_iff_ne_none.2 fun hnone => h (isValidUTF8_of_flawFrom? hnone)

/-- The text of some bytes, or their first flaw. -/
def decode (bytes : ByteArray) : Except Flaw String :=
  if h : bytes.IsValidUTF8 then .ok (String.fromUTF8 bytes h) else .error (flaw bytes h)

end Chronicle.Utf8
