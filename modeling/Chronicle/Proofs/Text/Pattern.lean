import Mathlib.Data.List.Infix
import Mathlib.Data.List.TakeWhile
import Chronicle.Text.Blank

/-!
# Patterns with backtracking

A `Pattern` gives the ways in which it matches at the front of a text, in the order in which they are
tried: what it captures and what it leaves.  In a sequence, each way of the first part goes on with
all ways of the second, so that where the second part has none the next way of the first is tried.
`skip` takes as much as it can first, and `few` as little.  `Matches` goes through all matches in a
text.

The first way of a sequence is found by going through the ways of its parts (`first_bind`).  `skip`
goes as far as its class reaches where the rest matches there, or matches nowhere else
(`findSome?_skip`, `findSome?_skip_of_stops`), and `few` passes over what the rest does not match
before (`findSome?_few`).  `times` takes what is long enough and of its class (`first_times_iff`).
-/

set_option autoImplicit false

namespace Chronicle

/-- The ways in which a pattern matches at the front of a text, in the order in which they are
tried. -/
def Pattern (α : Type) := List Char → List (α × List Char)

namespace Pattern

variable {α β : Type}

instance : Monad Pattern where
  pure a := fun cs => [(a, cs)]
  bind x f := fun cs => (x cs).flatMap fun way => f way.1 way.2

/-- Just these characters. -/
def word (w : List Char) : Pattern Unit := fun cs =>
  if w.isPrefixOf cs then [((), cs.drop w.length)] else []

/-- A character of a class. -/
def char (p : Char → Bool) : Pattern Unit
  | [] => []
  | c :: cs => if p c then [((), cs)] else []

/-- So many characters of a class. -/
def times (p : Char → Bool) : Nat → Pattern Unit
  | 0 => pure ()
  | n + 1 => char p >>= fun _ => times p n

/-- The ways of some patterns, those of one after those of the patterns before it. -/
def oneOf (xs : List (Pattern α)) : Pattern α := fun cs =>
  xs.flatMap (· cs)

/-- Characters of a class, as many as there are first. -/
def skip (p : Char → Bool) : Pattern Unit
  | [] => [((), [])]
  | c :: cs => (if p c then skip p cs else []) ++ [((), c :: cs)]

/-- Captured characters of a class, none of them first. -/
def few (p : Char → Bool) : Pattern (List Char)
  | [] => [([], [])]
  | c :: cs =>
    ([], c :: cs) :: if p c then (few p cs).map fun way => (c :: way.1, way.2) else []

/-- A pattern or, after all its ways, nothing. -/
def optional (x : Pattern α) : Pattern (Option α) := fun cs =>
  (x cs).map (fun way => (some way.1, way.2)) ++ [(none, cs)]

/-- The end of a text, also before a line feed that ends it. -/
def atEnd : Pattern Unit := fun cs =>
  if cs = [] ∨ cs = ['\n'] then [((), cs)] else []

/-- The way that is tried first. -/
def first (x : Pattern α) (cs : List Char) : Option (α × List Char) :=
  (x cs).head?

/-- What a pattern captures at the first place of a text where it matches. -/
def search (x : Pattern α) : List Char → Option α
  | [] => (x.first []).map Prod.fst
  | c :: cs =>
    match x.first (c :: cs) with
    | some way => some way.1
    | none => search x cs

/-- From left to right, the matches of a pattern in a text whose bytes are counted from a start: where
each of them begins and ends.  A match is sought from where the one before it ends, which is meant
for patterns that do not match the empty text. -/
inductive Matches (x : Pattern α) : Nat → List Char → List (Nat × Nat) → Prop
  | nil {start : Nat} : Matches x start [] []
  | pass {start : Nat} {c : Char} {cs : List Char} {spans : List (Nat × Nat)} :
    x.first (c :: cs) = none → Matches x (start + c.utf8Size) cs spans →
    Matches x start (c :: cs) spans
  | found {start stop : Nat} {a : α} {w cs : List Char} {spans : List (Nat × Nat)} :
    x.first (w ++ cs) = some (a, cs) → stop = start + (String.ofList w).utf8ByteSize →
    Matches x stop cs spans → Matches x start (w ++ cs) ((start, stop) :: spans)

/-! ## Sequences -/

theorem bind_bind {γ : Type} (x : Pattern α) (f : α → Pattern β) (g : β → Pattern γ) :
    (x >>= f) >>= g = x >>= fun a => f a >>= g := by
  funext cs
  exact List.flatMap_assoc

theorem first_bind (x : Pattern α) (f : α → Pattern β) (cs : List Char) :
    (x >>= f).first cs = (x cs).findSome? fun way => (f way.1).first way.2 :=
  List.head?_flatMap

theorem first_bind_of_none {x : Pattern α} {cs : List Char} (h : x.first cs = none)
    (f : α → Pattern β) : (x >>= f).first cs = none := by
  rw [first_bind, List.head?_eq_none_iff.1 h]
  rfl

theorem first_bind_of_some {x : Pattern α} {f : α → Pattern β} {cs : List Char}
    {way : α × List Char} {b : β × List Char} (h : x.first cs = some way)
    (hf : (f way.1).first way.2 = some b) : (x >>= f).first cs = some b := by
  obtain ⟨ways, hways⟩ := List.head?_eq_some_iff.1 h
  rw [first_bind, hways, List.findSome?_cons, hf]

theorem first_word_bind (w : List Char) (f : Unit → Pattern β) (cs : List Char) :
    (word w >>= f).first cs =
      if w.isPrefixOf cs then (f ()).first (cs.drop w.length) else none := by
  rw [first_bind, word]
  split <;> simp

theorem first_word_bind_iff {w : List Char} {f : Unit → Pattern β} {cs : List Char}
    {b : β × List Char} :
    (word w >>= f).first cs = some b ↔ ∃ rest, cs = w ++ rest ∧ (f ()).first rest = some b := by
  rw [first_word_bind]
  constructor
  · intro h
    split at h
    · rename_i hprefix
      obtain ⟨rest, rfl⟩ := List.isPrefixOf_iff_prefix.1 hprefix
      rw [List.drop_left] at h
      exact ⟨rest, rfl, h⟩
    · cases h
  · rintro ⟨rest, rfl, h⟩
    rw [if_pos (List.isPrefixOf_iff_prefix.2 (List.prefix_append w rest)), List.drop_left, h]

theorem first_word_iff {w cs : List Char} {b : Unit × List Char} :
    (word w).first cs = some b ↔ cs = w ++ b.2 := by
  have hpure : (word w >>= pure).first cs = (word w).first cs := by
    rw [first_word_bind]
    unfold first word
    split <;> rfl
  rw [← hpure, first_word_bind_iff]
  constructor
  · rintro ⟨rest, rfl, h⟩
    cases h
    rfl
  · exact fun h => ⟨b.2, h, rfl⟩

/-- A pattern that begins with a word matches nowhere else. -/
theorem first_word_of_ne {c d : Char} (h : d ≠ c) (f : Unit → Pattern β) (cs : List Char) :
    (word [c] >>= f).first (d :: cs) = none := by
  rw [first_word_bind, if_neg]
  simp [Ne.symm h]

theorem first_word_nil (c : Char) (f : Unit → Pattern β) : (word [c] >>= f).first [] = none := by
  rw [first_word_bind, if_neg]
  simp

theorem first_word_self (c : Char) (f : Unit → Pattern β) (cs : List Char) :
    (word [c] >>= f).first (c :: cs) = (f ()).first cs := by
  rw [first_word_bind, if_pos]
  · rfl
  · simp

theorem first_optional_bind (x : Pattern α) (f : Option α → Pattern β) (cs : List Char) :
    (optional x >>= f).first cs =
      ((x >>= fun a => f (some a)).first cs).or ((f none).first cs) := by
  rw [first_bind, first_bind, optional, List.findSome?_append, List.findSome?_map]
  congr 1
  simp

theorem first_pure (a : α) (cs : List Char) : (pure a : Pattern α).first cs = some (a, cs) := rfl

theorem first_char_bind_iff {p : Char → Bool} {f : Unit → Pattern β} {b : β × List Char} :
    ∀ {cs : List Char}, (char p >>= f).first cs = some b ↔
      ∃ c rest, cs = c :: rest ∧ p c = true ∧ (f ()).first rest = some b
  | [] => ⟨nofun, fun ⟨_, _, h, _⟩ => nomatch h⟩
  | c :: cs => by
    rw [first_bind, char]
    by_cases hc : p c = true
    · rw [if_pos hc, List.findSome?_singleton]
      exact ⟨fun h => ⟨c, cs, rfl, hc, h⟩, fun ⟨_, _, hsplit, _, h⟩ => by cases hsplit; exact h⟩
    · rw [if_neg hc]
      exact ⟨nofun, fun ⟨_, _, hsplit, hc', _⟩ => by cases hsplit; exact absurd hc' hc⟩

theorem first_oneOf (xs : List (Pattern α)) (cs : List Char) :
    (oneOf xs).first cs = xs.findSome? (·.first cs) :=
  List.head?_flatMap

/-- So many characters are taken where they are there and of the class. -/
theorem first_times_iff {p : Char → Bool} {b : Unit × List Char} :
    ∀ {n : Nat} {cs : List Char}, (times p n).first cs = some b ↔
      ∃ xs, cs = xs ++ b.2 ∧ xs.length = n ∧ ∀ c ∈ xs, p c = true
  | 0, cs => by
    rw [times, first_pure]
    constructor
    · rintro ⟨⟩
      exact ⟨[], rfl, rfl, nofun⟩
    · rintro ⟨xs, rfl, hlength, -⟩
      rw [List.length_eq_zero_iff.1 hlength, List.nil_append]
  | n + 1, cs => by
    rw [times, first_char_bind_iff]
    constructor
    · rintro ⟨c, rest, rfl, hc, h⟩
      obtain ⟨xs, rfl, rfl, hxs⟩ := first_times_iff.1 h
      exact ⟨c :: xs, rfl, rfl, List.forall_mem_cons.2 ⟨hc, hxs⟩⟩
    · rintro ⟨_ | ⟨c, xs⟩, hsplit, hlength, hxs⟩
      · cases hlength
      · obtain ⟨hc, hxs⟩ := List.forall_mem_cons.1 hxs
        exact ⟨c, xs ++ b.2, hsplit, hc, first_times_iff.2 ⟨xs, rfl, Nat.succ.inj hlength, hxs⟩⟩

theorem search_cons (x : Pattern α) (c : Char) (cs : List Char) :
    x.search (c :: cs) = ((x.first (c :: cs)).map Prod.fst).or (x.search cs) := by
  rw [search]
  cases x.first (c :: cs) <;> rfl

/-! ## Skipping -/

section
variable {p : Char → Bool} {g : Unit × List Char → Option β}

/-- What is skipped is of the class. -/
theorem of_mem_skip {way : Unit × List Char} : ∀ {cs : List Char}, way ∈ skip p cs →
    ∃ xs, cs = xs ++ way.2 ∧ ∀ c ∈ xs, p c = true
  | [], h => by
    cases List.mem_singleton.1 h
    exact ⟨[], rfl, nofun⟩
  | c :: cs, h => by
    unfold skip at h
    rcases List.mem_append.1 h with h | h
    · by_cases hc : p c = true
      · rw [if_pos hc] at h
        obtain ⟨xs, rfl, hxs⟩ := of_mem_skip h
        exact ⟨c :: xs, rfl, List.forall_mem_cons.2 ⟨hc, hxs⟩⟩
      · rw [if_neg hc] at h
        cases h
    · cases List.mem_singleton.1 h
      exact ⟨[], rfl, nofun⟩

/-- All characters of the class are skipped where the rest matches after them. -/
theorem findSome?_skip {b : β} : ∀ {cs : List Char}, g ((), cs.dropWhile p) = some b →
    (skip p cs).findSome? g = some b
  | [], h => by simpa [skip] using h
  | c :: cs, h => by
    unfold skip
    by_cases hc : p c = true
    · rw [List.dropWhile_cons_of_pos hc] at h
      rw [if_pos hc, List.findSome?_append, findSome?_skip h, Option.some_or]
    · rw [List.dropWhile_cons_of_neg hc] at h
      simpa [hc] using h

/-- All characters of the class are skipped where the rest matches before none of them. -/
theorem findSome?_skip_of_stops (hg : ∀ c cs, p c = true → g ((), c :: cs) = none) :
    ∀ cs : List Char, (skip p cs).findSome? g = g ((), cs.dropWhile p)
  | [] => by simp [skip]
  | c :: cs => by
    unfold skip
    by_cases hc : p c = true
    · rw [if_pos hc, List.findSome?_append, findSome?_skip_of_stops hg cs,
        List.dropWhile_cons_of_pos hc]
      simp [hg c cs hc]
    · rw [if_neg hc, List.dropWhile_cons_of_neg hc]
      simp

/-- A mark of another class is looked for after all that can be skipped, and nowhere else. -/
theorem first_skip_word {c : Char} (hc : p c = false) (f : Unit → Pattern β) (cs : List Char) :
    (skip p >>= fun _ => word [c] >>= f).first cs =
      match cs.dropWhile p with
      | [] => none
      | d :: rest => if d = c then (f ()).first rest else none := by
  have hstops : ∀ d rest, p d = true → (word [c] >>= f).first (d :: rest) = none :=
    fun d rest hd => first_word_of_ne (fun he => by rw [he, hc] at hd; cases hd) f rest
  rw [first_bind, findSome?_skip_of_stops hstops]
  cases cs.dropWhile p with
  | nil => exact first_word_nil c f
  | cons d rest =>
    dsimp only
    split
    · rename_i he
      rw [he, first_word_self]
    · rename_i he
      exact first_word_of_ne he f rest

/-- What is skipped up to a mark of another class is all that stands before it. -/
theorem first_skip_word_iff {c : Char} (hc : p c = false) {f : Unit → Pattern β} {cs : List Char}
    {b : β × List Char} :
    (skip p >>= fun _ => word [c] >>= f).first cs = some b ↔
      ∃ xs rest, cs = xs ++ c :: rest ∧ (∀ d ∈ xs, p d = true) ∧ (f ()).first rest = some b := by
  rw [first_skip_word hc]
  constructor
  · intro h
    refine ⟨cs.takeWhile p, ?_⟩
    have hsplit := List.takeWhile_append_dropWhile (p := p) (l := cs)
    cases hdrop : cs.dropWhile p with
    | nil =>
      rw [hdrop] at h
      cases h
    | cons d rest =>
      rw [hdrop] at h hsplit
      dsimp only at h
      split at h
      · rename_i he
        exact ⟨rest, by rw [← he, hsplit], fun d hd => List.mem_takeWhile_imp hd, h⟩
      · cases h
  · rintro ⟨xs, rest, rfl, hxs, h⟩
    rw [List.dropWhile_append_of_pos hxs, List.dropWhile_cons_of_neg (by simp [hc])]
    dsimp only
    rw [if_pos rfl, h]

end

/-! ## Capturing -/

section
variable {p : Char → Bool} {rest : List Char}

/-- What is captured stands before what is left. -/
theorem of_mem_few {way : List Char × List Char} : ∀ {cs : List Char}, way ∈ few p cs →
    cs = way.1 ++ way.2
  | [], h => by
    cases List.mem_singleton.1 h
    rfl
  | c :: cs, h => by
    unfold few at h
    rcases List.mem_cons.1 h with rfl | h
    · rfl
    · by_cases hc : p c = true
      · rw [if_pos hc] at h
        obtain ⟨way, hway, rfl⟩ := List.mem_map.1 h
        rw [of_mem_few hway]
        rfl
      · rw [if_neg hc] at h
        cases h

/-- The shortest capture takes in all of `xs` where the rest matches at no place inside it. -/
theorem findSome?_few {g : List Char × List Char → Option β} : ∀ {xs : List Char},
    (∀ c ∈ xs, p c = true) →
    (∀ ys zs, xs = ys ++ zs → zs ≠ [] → g (ys, zs ++ rest) = none) →
    (few p (xs ++ rest)).findSome? g =
      (few p rest).findSome? fun way => g (xs ++ way.1, way.2)
  | [], _, _ => rfl
  | c :: xs, hp, hg => by
    obtain ⟨hc, hxs⟩ := List.forall_mem_cons.1 hp
    have hhere : g ([], c :: (xs ++ rest)) = none := hg [] (c :: xs) rfl (List.cons_ne_nil c xs)
    have hlater := findSome?_few (g := fun way => g (c :: way.1, way.2)) hxs fun ys zs h hzs =>
      hg (c :: ys) zs (by rw [h]; rfl) hzs
    rw [List.cons_append, few, if_pos hc, List.findSome?_cons, hhere]
    simp only [List.findSome?_map]
    exact hlater

/-- A capture ends where the rest first matches. -/
theorem findSome?_few_of_match {g : List Char × List Char → Option β} {xs : List Char} {b : β}
    (hp : ∀ c ∈ xs, p c = true)
    (hg : ∀ ys zs, xs = ys ++ zs → zs ≠ [] → g (ys, zs ++ rest) = none)
    (h : g (xs, rest) = some b) : (few p (xs ++ rest)).findSome? g = some b := by
  rw [findSome?_few hp hg]
  cases rest <;> simp [few, h]

end

end Pattern

end Chronicle
