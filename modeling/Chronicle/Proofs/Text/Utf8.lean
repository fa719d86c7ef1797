import Chronicle.Text.Utf8

/-!
# UTF-8

Characters have no flaw (`flawFrom?_append_char`), so bytes are text just where they have none
(`flawFrom?_eq_none_iff`), and decoding fails with the flaw that is found (`decode_eq_error_iff`).
What stands before a flaw is text (`flawFrom?_eq_some`).
-/

set_option autoImplicit false

namespace Chronicle.Utf8

/-! ## Characters -/

section
variable {b : UInt8}

theorem followers?_one (h : b.toNat < 0x80) : followers? b = some [] := by
  unfold followers?
  simp only [UInt8.lt_iff_toNat_lt, UInt8.reduceToNat]
  rw [if_pos h]

theorem followers?_two (h : 0xC2 ≤ b.toNat ∧ b.toNat < 0xE0) :
    followers? b = some [continuation] := by
  unfold followers?
  simp only [UInt8.lt_iff_toNat_lt, UInt8.reduceToNat]
  rw [if_neg (by omega), if_neg (by omega), if_pos h.2]

theorem followers?_three (h : 0xE0 ≤ b.toNat ∧ b.toNat < 0xF0) : followers? b = some
    [(if b == 0xE0 then 0xA0 else 0x80, if b == 0xED then 0x9F else 0xBF), continuation] := by
  unfold followers?
  simp only [UInt8.lt_iff_toNat_lt, UInt8.reduceToNat]
  rw [if_neg (by omega), if_neg (by omega), if_neg (by omega), if_pos h.2]

theorem followers?_four (h : 0xF0 ≤ b.toNat ∧ b.toNat < 0xF5) : followers? b = some
    [(if b == 0xF0 then 0x90 else 0x80, if b == 0xF4 then 0x8F else 0xBF), continuation,
      continuation] := by
  unfold followers?
  simp only [UInt8.lt_iff_toNat_lt, UInt8.reduceToNat]
  rw [if_neg (by omega), if_neg (by omega), if_neg (by omega), if_neg (by omega), if_pos h.2]

theorem breach?_cons {low high x : UInt8} (hlow : low.toNat ≤ x.toNat)
    (hhigh : x.toNat ≤ high.toNat) (ranges : List (UInt8 × UInt8)) (bytes : List UInt8) :
    breach? ((low, high) :: ranges) (x :: bytes) =
      (breach? ranges bytes).map fun (count, reason) => (count + 1, reason) := by
  rw [breach?, if_pos ⟨UInt8.le_iff_toNat_le.2 hlow, UInt8.le_iff_toNat_le.2 hhigh⟩]

/-- The byte of a number below 64 continues a character. -/
theorem breach?_continuation {n : Nat} (h : n < 64) (ranges : List (UInt8 × UInt8))
    (bytes : List UInt8) :
    breach? (continuation :: ranges) (UInt8.ofNat (n + 0x80) :: bytes) =
      (breach? ranges bytes).map fun (count, reason) => (count + 1, reason) := by
  have hbyte : (UInt8.ofNat (n + 0x80)).toNat = n + 0x80 := Nat.mod_eq_of_lt (by omega)
  exact breach?_cons (by rw [hbyte]; exact Nat.le_add_left ..)
    (by rw [hbyte]; simp only [UInt8.reduceToNat]; omega) ranges bytes

end

/-- A character is in the ranges that follow its first byte, whatever comes after it. -/
theorem exists_followers_of_char (c : Char) (bytes : List UInt8) :
    ∃ b rest ranges, String.utf8EncodeChar c = b :: rest ∧ followers? b = some ranges ∧
      ranges.length = rest.length ∧ breach? ranges (rest ++ bytes) = none := by
  have hvalid : c.val.toNat < 0xD800 ∨ 0xDFFF < c.val.toNat ∧ c.val.toNat < 0x110000 := c.valid
  unfold String.utf8EncodeChar
  dsimp only
  generalize c.val.toNat = n at hvalid
  split
  · have hb : (UInt8.ofNat n).toNat = n := Nat.mod_eq_of_lt (by omega)
    exact ⟨_, _, _, rfl, followers?_one (by omega), rfl, rfl⟩
  split
  · have hb : (UInt8.ofNat (n / 64 % 0x20 + 0xC0)).toNat = n / 64 % 0x20 + 0xC0 :=
      Nat.mod_eq_of_lt (by omega)
    refine ⟨_, _, _, rfl, followers?_two (by omega), rfl, ?_⟩
    rw [List.cons_append, breach?_continuation (by omega)]
    rfl
  split
  · have hb : (UInt8.ofNat (n / 4096 % 0x10 + 0xE0)).toNat = n / 4096 % 0x10 + 0xE0 :=
      Nat.mod_eq_of_lt (by omega)
    have hx : (UInt8.ofNat (n / 64 % 0x40 + 0x80)).toNat = n / 64 % 0x40 + 0x80 :=
      Nat.mod_eq_of_lt (by omega)
    refine ⟨_, _, _, rfl, followers?_three (by omega), rfl, ?_⟩
    rw [List.cons_append, List.cons_append, breach?_cons, breach?_continuation (by omega)]
    · rfl
    all_goals
      rw [toNat_ite, hb, hx]
      simp only [UInt8.reduceToNat]
      split <;> omega
  · have hb : (UInt8.ofNat (n / 262144 % 0x08 + 0xF0)).toNat = n / 262144 % 0x08 + 0xF0 :=
      Nat.mod_eq_of_lt (by omega)
    have hx : (UInt8.ofNat (n / 4096 % 0x40 + 0x80)).toNat = n / 4096 % 0x40 + 0x80 :=
      Nat.mod_eq_of_lt (by omega)
    refine ⟨_, _, _, rfl, followers?_four (by omega), rfl, ?_⟩
    rw [List.cons_append, List.cons_append, List.cons_append, breach?_cons,
      breach?_continuation (by omega), breach?_continuation (by omega)]
    · rfl
    all_goals
      rw [toNat_ite, hb, hx]
      simp only [UInt8.reduceToNat]
      split <;> omega

/-- Bytes that start with a character are in the ranges that follow their first one. -/
theorem followers_of_char {b : UInt8} {bytes more : List UInt8} {c : Char}
    (h : b :: bytes = String.utf8EncodeChar c ++ more) :
    ∃ ranges, followers? b = some ranges ∧ ranges.length + 1 = (String.utf8EncodeChar c).length ∧
      breach? ranges bytes = none := by
  obtain ⟨b', rest, ranges, hc, hranges, hlength, hbreach⟩ := exists_followers_of_char c more
  rw [hc, List.cons_append, List.cons.injEq] at h
  obtain ⟨rfl, rfl⟩ := h
  rw [hc, List.length_cons, ← hlength]
  exact ⟨ranges, hranges, rfl, hbreach⟩

/-! ## Bytes -/

/-- A flaw is looked for after the characters at the start. -/
theorem flawFrom?_append_char (position : Nat) (c : Char) (bytes : List UInt8) :
    flawFrom? position (String.utf8EncodeChar c ++ bytes) =
      flawFrom? (position + (String.utf8EncodeChar c).length) bytes := by
  obtain ⟨b, rest, ranges, hc, hranges, hlength, hbreach⟩ := exists_followers_of_char c bytes
  rw [hc, List.cons_append, flawFrom?, hranges]
  dsimp only
  rw [hbreach, hlength, List.drop_left, List.length_cons, Nat.add_right_comm, Nat.add_assoc]

theorem flawFrom?_append_chars (cs : List Char) (bytes : List UInt8) : ∀ position,
    flawFrom? position (cs.flatMap String.utf8EncodeChar ++ bytes) =
      flawFrom? (position + (cs.flatMap String.utf8EncodeChar).length) bytes := by
  induction cs with
  | nil => exact fun _ => rfl
  | cons c cs ih =>
    intro position
    rw [List.flatMap_cons, List.append_assoc, flawFrom?_append_char, ih, List.length_append,
      Nat.add_assoc]

/-- Bytes are text where they have no flaw. -/
theorem flawFrom?_eq_none_iff {position : Nat} {bytes : List UInt8} :
    flawFrom? position bytes = none ↔
      ∃ cs : List Char, bytes = cs.flatMap String.utf8EncodeChar := by
  refine ⟨exists_of_flawFrom? position bytes, ?_⟩
  rintro ⟨cs, rfl⟩
  have h := flawFrom?_append_chars cs [] position
  rwa [List.append_nil, flawFrom?] at h

/-- What stands before a flaw is text, and no character starts where it is. -/
theorem flawFrom?_eq_some (position : Nat) (bytes : List UInt8) (flaw : Flaw)
    (h : flawFrom? position bytes = some flaw) :
    ∃ (cs : List Char) (rest : List UInt8),
      bytes = cs.flatMap String.utf8EncodeChar ++ flaw.byte :: rest ∧
      flaw.position = position + (cs.flatMap String.utf8EncodeChar).length ∧
      ∀ c more, flaw.byte :: rest ≠ String.utf8EncodeChar c ++ more := by
  fun_induction flawFrom? position bytes with
  | case1 => cases h
  | case2 position b bytes hnone =>
    cases h
    refine ⟨[], bytes, rfl, rfl, fun c more hc => ?_⟩
    obtain ⟨ranges, hranges, -, -⟩ := followers_of_char hc
    rw [hnone] at hranges
    cases hranges
  | case3 position b bytes ranges hranges count reason hbreach =>
    cases h
    refine ⟨[], bytes, rfl, rfl, fun c more hc => ?_⟩
    obtain ⟨ranges', hranges', -, hnone⟩ := followers_of_char hc
    obtain rfl := Option.some.inj (hranges.symm.trans hranges')
    rw [hbreach] at hnone
    cases hnone
  | case4 position b bytes ranges hranges hbreach ih =>
    obtain ⟨c, hc⟩ := exists_char_of_followers hranges hbreach
    obtain ⟨ranges', hranges', hlength, -⟩ := followers_of_char (hc.trans (List.append_nil _).symm)
    obtain rfl := Option.some.inj (hranges.symm.trans hranges')
    obtain ⟨cs, rest, hdrop, hposition, hnone⟩ := ih h
    refine ⟨c :: cs, rest, ?_, ?_, hnone⟩
    · rw [List.flatMap_cons, List.append_assoc, ← hdrop, ← hc, List.cons_append,
        List.take_append_drop]
    · rw [hposition, List.flatMap_cons, List.length_append, ← hlength]
      omega

theorem isValidUTF8_iff {bytes : ByteArray} :
    bytes.IsValidUTF8 ↔ flawFrom? 0 bytes.data.toList = none := by
  refine ⟨?_, isValidUTF8_of_flawFrom?⟩
  rintro ⟨cs, rfl⟩
  refine flawFrom?_eq_none_iff.2 ⟨cs, ?_⟩
  unfold List.utf8Encode
  rw [List.data_toByteArray]

/-- Decoding fails with the first flaw of the bytes. -/
theorem decode_eq_error_iff {bytes : ByteArray} {f : Flaw} :
    decode bytes = .error f ↔ flawFrom? 0 bytes.data.toList = some f := by
  unfold decode
  split
  · rename_i hvalid
    rw [isValidUTF8_iff.1 hvalid]
    exact ⟨nofun, nofun⟩
  · unfold flaw
    rw [Except.error.injEq, Option.eq_some_iff_get_eq, exists_prop_of_true]

end Chronicle.Utf8
