import Chronicle.ParameterDoc.Line
import Chronicle.Proofs.Text.Pattern
import Chronicle.Proofs.Text.Trim

/-!
# Lines that declare a parameter

`ParameterLine.declaration` is the pattern of a declaration, and a line declares what a search for it
captures.  `ParameterLine.read?` finds the same without going back (`read?_eq_search`): no part can
end earlier than at its mark, since none holds the mark of the next part, and none ends in a blank.

`declaration_recovered`: from a line that was put together from its parts, with blanks between them,
both find these parts again.
-/

set_option autoImplicit false

namespace Chronicle

open Pattern Text

namespace ParameterLine

/-! ## The pattern -/

/-- Nothing but blanks up to the end. -/
def finish {α : Type} (a : α) : Pattern α := do
  skip isBlank
  atEnd
  return a

/-- An equals sign and the values after it. -/
def given : Pattern (List Char) := do
  word ['=']
  skip isBlank
  few (· != '\n')

/-- What follows a name: the values, if there are any. -/
def ending : Pattern (Option (List Char)) := do
  skip isBlank
  let values ← optional given
  finish values

/-- What follows the braces: a name, and the values. -/
def naming (kind : List Char) : Pattern ParameterLine := do
  skip isBlank
  let name ← few (· != '=')
  let values ← ending
  return ⟨String.ofList kind, String.ofList name, values.map String.ofList⟩

/-- What follows a kind: the brace that closes it, and the rest. -/
def closing (kind : List Char) : Pattern ParameterLine := do
  skip isBlank
  word ['\x7d']
  naming kind

/-- A declaration: the tag, a kind in braces, a name, and values after an equals sign. -/
def declaration : Pattern ParameterLine := do
  word tag
  skip isBlank
  word ['\x7b']
  skip isBlank
  let kind ← few (· != '\x7d')
  closing kind

/-! ## Its parts -/

section
variable {α : Type} {cs : List Char}

theorem first_finish_eq_none (a : α) (h : ∃ c ∈ cs, isBlank c = false) :
    (finish a).first cs = none := by
  obtain ⟨c, hc, hblank⟩ := h
  rw [finish, first_bind, List.findSome?_eq_none_iff]
  intro way hway
  obtain ⟨xs, rfl, hxs⟩ := of_mem_skip hway
  -- a character that is no blank has not been skipped, so this is not the end
  have hleft : c ∈ way.2 := by
    refine (List.mem_append.1 hc).resolve_left fun hmem => ?_
    rw [hxs c hmem] at hblank
    cases hblank
  rw [first_bind, atEnd, if_neg]
  · rfl
  · rintro (hnil | hbreak)
    · rw [hnil] at hleft
      cases hleft
    · rw [hbreak, List.mem_singleton] at hleft
      rw [hleft] at hblank
      cases hblank

theorem first_finish_of_blank (a : α) (h : ∀ c ∈ cs, isBlank c = true) :
    (finish a).first cs = some (a, []) := by
  rw [finish, first_bind]
  refine findSome?_skip ?_
  rw [List.dropWhile_eq_nil_iff.2 h]
  rfl

/-- What is captured before blanks and the end is a trimmed text. -/
theorem findSome?_few_finish {p : Char → Bool} (f : List Char → α)
    (hp : ∀ c ∈ cs, p c = true) :
    ((few p (cs.dropWhile isBlank)).findSome? fun way => (finish (f way.1)).first way.2) =
      some (f (trimEnds isBlank cs), []) := by
  obtain ⟨after, hdrop, hafter⟩ := dropWhile_eq_trimEnds isBlank cs
  rw [hdrop]
  refine findSome?_few_of_match (fun c hc => hp c (mem_of_mem_trimEnds hc)) (fun ys zs h hzs => ?_)
    (first_finish_of_blank _ hafter)
  obtain ⟨c, hc, hblank⟩ := exists_of_trimEnds h hzs
  exact first_finish_eq_none _ ⟨c, List.mem_append_left after hc, hblank⟩

/-! ### Values -/

theorem first_ending (cs : List Char) :
    ending.first cs = (skip isBlank cs).findSome? fun way =>
      ((given >>= fun values => finish (some values)).first way.2).or
        ((finish none).first way.2) := by
  rw [ending, first_bind]
  congr 1
  funext way
  exact first_optional_bind given finish way.2

/-- A name does not end before its last character. -/
theorem first_ending_eq_none (rest : List Char) (h : ∃ c ∈ cs, isBlank c = false)
    (hequals : '=' ∉ cs) : ending.first (cs ++ rest) = none := by
  obtain ⟨c, hc, hblank⟩ := h
  rw [first_ending, List.findSome?_eq_none_iff]
  intro way hway
  obtain ⟨xs, hxs, hskipped⟩ := of_mem_skip hway
  -- the blanks that were skipped end inside of `cs`
  obtain ⟨zs, rfl, hrest⟩ : ∃ zs, cs = xs ++ zs ∧ way.2 = zs ++ rest := by
    rcases List.append_eq_append_iff.1 hxs with ⟨ys, rfl, -⟩ | h
    · rw [hskipped c (List.mem_append_left ys hc)] at hblank
      cases hblank
    · exact h
  have hleft : c ∈ zs := by
    refine (List.mem_append.1 hc).resolve_left fun hmem => ?_
    rw [hskipped c hmem] at hblank
    cases hblank
  have hgiven : (given >>= fun values => finish (some values)).first (zs ++ rest) = none := by
    obtain ⟨d, zs', rfl⟩ := List.exists_cons_of_ne_nil (List.ne_nil_of_mem hleft)
    have hd : d ≠ '=' := fun he => hequals (he ▸ List.mem_append_right xs List.mem_cons_self)
    rw [given, bind_bind]
    exact first_word_of_ne hd _ _
  rw [hrest, hgiven, first_finish_eq_none none ⟨c, List.mem_append_left rest hleft, hblank⟩]
  rfl

theorem first_ending_of_blank (h : ∀ c ∈ cs, isBlank c = true) :
    ending.first cs = some (none, []) := by
  rw [first_ending]
  refine findSome?_skip ?_
  rw [List.dropWhile_eq_nil_iff.2 h]
  rfl

theorem first_ending_of_equals {blanks : List Char} (h : ∀ c ∈ blanks, isBlank c = true)
    (hline : '\n' ∉ cs) :
    ending.first (blanks ++ '=' :: cs) = some (some (trimEnds isBlank cs), []) := by
  have hgiven : (given >>= fun values => finish (some values)).first ('=' :: cs) =
      some (some (trimEnds isBlank cs), []) := by
    rw [given, bind_bind, first_word_self, bind_bind, first_bind]
    refine findSome?_skip ?_
    rw [first_bind]
    exact findSome?_few_finish some fun c hc => bne_iff_ne.2 (ne_of_mem_of_not_mem hc hline)
  rw [first_ending]
  refine findSome?_skip ?_
  rw [List.dropWhile_append_of_pos h, List.dropWhile_cons_of_neg (by decide), hgiven]
  rfl

/-! ### Names -/

/-- A name goes to where values or the end can follow. -/
theorem first_naming_of_ending (kind rest : List Char) {name : List Char}
    {values : Option (List Char)} (hname : '=' ∉ name)
    (hrest : ∀ c ∈ rest.head?, isBlank c = false)
    (hending : ∀ blanks, (∀ c ∈ blanks, isBlank c = true) →
      ending.first (blanks ++ rest) = some (values, [])) :
    (naming kind).first (name ++ rest) =
      some (⟨String.ofList kind, trimmed name, values.map String.ofList⟩, []) := by
  obtain ⟨after, hdrop, hafter⟩ := dropWhile_eq_trimEnds isBlank name
  have hmem : ∀ c ∈ trimEnds isBlank name, c ≠ '=' := fun c hc =>
    ne_of_mem_of_not_mem (mem_of_mem_trimEnds hc) hname
  rw [naming, first_bind]
  refine findSome?_skip ?_
  rw [dropWhile_append_of_head hrest, hdrop, List.append_assoc, first_bind]
  refine findSome?_few_of_match (fun c hc => bne_iff_ne.2 (hmem c hc)) (fun ys zs h hzs => ?_) ?_
  · have hnone := first_ending_eq_none (after ++ rest) (exists_of_trimEnds h hzs)
      fun hc => hmem '=' (h ▸ List.mem_append_right ys hc) rfl
    exact first_bind_of_none hnone _
  · exact first_bind_of_some (hending after hafter) rfl

/-- What follows a kind in one line is captured as `afterTag?` reads it. -/
theorem first_naming (kind : List Char) (hline : '\n' ∉ cs) :
    (naming kind).first cs = some (⟨String.ofList kind, trimmed (cs.takeWhile (· != '=')),
      match cs.dropWhile (· != '=') with
      | [] => none
      | _ :: values => some (trimmed values)⟩, []) := by
  have hname : '=' ∉ cs.takeWhile (· != '=') := fun h => by simpa using List.mem_takeWhile_imp h
  have hsplit := cs.takeWhile_append_dropWhile (p := (· != '='))
  have hhead := List.head?_dropWhile_not (· != '=') cs
  cases hd : cs.dropWhile (· != '=') with
  | nil =>
    rw [hd, List.append_nil] at hsplit
    have h := first_naming_of_ending kind [] hname nofun fun blanks hblanks => by
      rw [List.append_nil]
      exact first_ending_of_blank hblanks
    rw [List.append_nil, hsplit] at h
    rw [hsplit]
    exact h
  | cons d values =>
    rw [hd] at hhead
    obtain rfl : d = '=' := by simpa using hhead
    have hvalues : '\n' ∉ values := fun h =>
      hline (List.dropWhile_subset _ (hd ▸ List.mem_cons_of_mem '=' h))
    have h := first_naming_of_ending kind ('=' :: values) hname
      (by rintro c ⟨⟩; rfl) fun blanks hblanks => first_ending_of_equals hblanks hvalues
    rwa [← hd, hsplit] at h

/-! ### Kinds -/

theorem first_closing (kind cs : List Char) :
    (closing kind).first cs = match cs.dropWhile isBlank with
      | [] => none
      | d :: rest => if d = '\x7d' then (naming kind).first rest else none :=
  first_skip_word (by decide) (fun _ => naming kind) cs

/-- A kind does not end before its last character. -/
theorem first_closing_eq_none (kind : List Char) {rest : List Char}
    (h : ∃ c ∈ cs, isBlank c = false) (hbrace : '\x7d' ∉ cs) :
    (closing kind).first (cs ++ rest) = none := by
  obtain ⟨c, hc, hblank⟩ := h
  have hne : cs.dropWhile isBlank ≠ [] := fun hnil => by
    rw [List.dropWhile_eq_nil_iff.1 hnil c hc] at hblank
    cases hblank
  obtain ⟨d, ds, hd⟩ := List.exists_cons_of_ne_nil hne
  have hmem : d ∈ cs := (List.dropWhile_sublist _).subset (hd ▸ List.mem_cons_self)
  rw [first_closing, List.dropWhile_append, hd]
  exact if_neg (ne_of_mem_of_not_mem hmem hbrace)

/-- Without a brace to close it no kind is captured. -/
theorem first_kind_eq_none (hbrace : '\x7d' ∉ cs) :
    (skip isBlank >>= fun _ => few (· != '\x7d') >>= closing).first cs = none := by
  rw [first_bind, List.findSome?_eq_none_iff]
  intro way hway
  obtain ⟨xs, hxs, -⟩ := of_mem_skip hway
  rw [first_bind, List.findSome?_eq_none_iff]
  intro way' hway'
  have hleft : '\x7d' ∉ way'.2 := fun h => hbrace <| by
    rw [hxs, of_mem_few hway']
    exact List.mem_append_right _ (List.mem_append_right _ h)
  rw [first_closing]
  split
  · rfl
  · rename_i d rest hd
    have hmem : d ∈ way'.2 := (List.dropWhile_sublist _).subset (hd ▸ List.mem_cons_self)
    exact if_neg (ne_of_mem_of_not_mem hmem hleft)

/-- A kind goes to the first brace, without the blanks around it. -/
theorem first_kind {kind rest : List Char} (hbrace : '\x7d' ∉ kind) {line : ParameterLine}
    (hrest : (naming (trimEnds isBlank kind)).first rest = some (line, [])) :
    (skip isBlank >>= fun _ => few (· != '\x7d') >>= closing).first (kind ++ '\x7d' :: rest) =
      some (line, []) := by
  obtain ⟨after, hdrop, hafter⟩ := dropWhile_eq_trimEnds isBlank kind
  have hmem : ∀ c ∈ trimEnds isBlank kind, c ≠ '\x7d' := fun c hc =>
    ne_of_mem_of_not_mem (mem_of_mem_trimEnds hc) hbrace
  rw [first_bind]
  refine findSome?_skip ?_
  rw [dropWhile_append_of_head (by rintro c ⟨⟩; rfl), hdrop, List.append_assoc, first_bind]
  refine findSome?_few_of_match (fun c hc => bne_iff_ne.2 (hmem c hc)) (fun ys zs h hzs => ?_) ?_
  · exact first_closing_eq_none _ (exists_of_trimEnds h hzs) fun hc =>
      hmem _ (h ▸ List.mem_append_right ys hc) rfl
  · rw [first_closing, List.dropWhile_append_of_pos hafter, List.dropWhile_cons_of_neg (by decide)]
    exact hrest

/-! ### Declarations -/

theorem afterTag?_brace (cs : List Char) :
    afterTag? ('\x7b' :: cs) = match cs.dropWhile (· != '\x7d') with
      | [] => none
      | _ :: after => some ⟨trimmed (cs.takeWhile (· != '\x7d')),
          trimmed (after.takeWhile (· != '=')), match after.dropWhile (· != '=') with
            | [] => none
            | _ :: values => some (trimmed values)⟩ := by
  rw [afterTag?, List.dropWhile_cons_of_neg (by decide)]
  simp only
  cases cs.dropWhile (· != '\x7d') with
  | nil => rfl
  | cons d after =>
    dsimp only
    cases after.dropWhile (· != '=') <;> rfl

theorem afterTag?_dropWhile (cs : List Char) : afterTag? (cs.dropWhile isBlank) = afterTag? cs := by
  rw [afterTag?, afterTag?, List.dropWhile_idempotent]

/-- After its brace, a declaration in one line is captured as it is read. -/
theorem first_kind_eq (hline : '\n' ∉ cs) :
    ((skip isBlank >>= fun _ => few (· != '\x7d') >>= closing).first cs).map Prod.fst =
      afterTag? ('\x7b' :: cs) := by
  have hsplit := cs.takeWhile_append_dropWhile (p := (· != '\x7d'))
  have hhead := List.head?_dropWhile_not (· != '\x7d') cs
  have hkind : '\x7d' ∉ cs.takeWhile (· != '\x7d') := fun h => by
    simpa using List.mem_takeWhile_imp h
  rw [afterTag?_brace]
  cases hclose : cs.dropWhile (· != '\x7d') with
  | nil =>
    rw [hclose, List.append_nil] at hsplit
    rw [hsplit] at hkind
    rw [first_kind_eq_none hkind]
    rfl
  | cons d after =>
    rw [hclose] at hhead hsplit
    obtain rfl : d = '\x7d' := by simpa using hhead
    have hrest : '\n' ∉ after := fun h =>
      hline (hsplit ▸ List.mem_append_right _ (List.mem_cons_of_mem _ h))
    have hfirst := first_kind hkind (first_naming _ hrest)
    rw [hsplit] at hfirst
    rw [hfirst]
    rfl

/-- A declaration is captured in one line as it is read after its tag. -/
theorem first_declaration (hline : '\n' ∉ cs) :
    (declaration.first cs).map Prod.fst =
      if tag.isPrefixOf cs then afterTag? (cs.drop tag.length) else none := by
  rw [declaration, first_word_bind]
  split
  · rw [first_skip_word (by decide), ← afterTag?_dropWhile]
    cases hd : (cs.drop tag.length).dropWhile isBlank with
    | nil => rfl
    | cons d rest =>
      have hrest : '\n' ∉ rest := fun h => hline <| List.mem_of_mem_drop <|
        (List.dropWhile_sublist _).subset (hd ▸ List.mem_cons_of_mem d h)
      dsimp only
      by_cases hbrace : d = '\x7b'
      · rw [if_pos hbrace, hbrace]
        exact first_kind_eq hrest
      · have hhead := List.head?_dropWhile_not isBlank (cs.drop tag.length)
        rw [hd] at hhead
        rw [if_neg hbrace, afterTag?, List.dropWhile_cons_of_neg (by simpa using hhead)]
        split
        · rename_i he
          exact absurd (List.cons.inj he).1 hbrace
        · rfl
  · rfl

end

/-! ## Lines -/

/-- In one line, reading a declaration finds what a search for its pattern captures. -/
theorem read?_eq_search : ∀ {cs : List Char}, '\n' ∉ cs → read? cs = declaration.search cs
  | [], _ => rfl
  | c :: cs, hline => by
    have hrest : '\n' ∉ cs := fun h => hline (List.mem_cons_of_mem c h)
    rw [search_cons, first_declaration hline, ← read?_eq_search hrest, read?]
    split
    · cases afterTag? ((c :: cs).drop tag.length) <;> rfl
    · rfl

/-- The lines of a text hold no line feed. -/
theorem not_mem_of_mem_split {cs : List Char} : ∀ line ∈ split cs, '\n' ∉ line := by
  induction cs using split.induct with
  | case1 => simp [split]
  | case2 cs ih => simpa [split] using ih
  | case3 cs ih => simpa [split] using ih
  | case4 c cs hreturn hfeed hnil ih =>
    rw [split, hnil]
    · simpa using Ne.symm hfeed
    all_goals assumption
  | case5 c cs hreturn hfeed l ls hsplit ih =>
    rw [split, hsplit]
    · obtain ⟨hl, hls⟩ := List.forall_mem_cons.1 (hsplit ▸ ih)
      refine List.forall_mem_cons.2 ⟨fun hmem => ?_, hls⟩
      exact hl ((List.mem_cons.1 hmem).resolve_left fun he => hfeed he.symm)
    all_goals assumption

/-- In the lines of a comment, reading declarations finds what searches for their pattern capture. -/
theorem read?_of_mem_split {cs line : List Char} (h : line ∈ split cs) :
    read? line = declaration.search line :=
  read?_eq_search (not_mem_of_mem_split line h)

/-! ## Lines put together -/

/-- What does not hold a character does not reach beyond it. -/
theorem prefix_of_not_mem {c : Char} {cs before after : List Char} (hc : c ∉ cs)
    (h : cs <+: before ++ c :: after) : cs <+: before := by
  have hfront : before ++ [c] <+: before ++ c :: after := ⟨after, by simp⟩
  rcases List.prefix_or_prefix_of_prefix h hfront with h | ⟨rest, h⟩
  · refine (List.prefix_concat_iff.1 h).resolve_left fun he => hc ?_
    rw [he]
    simp
  · exact absurd (h ▸ by simp) hc

/-- A tag begins nowhere in a text that holds none, also where another one follows. -/
theorem not_prefix_of_not_infix (rest : List Char) {before ys zs : List Char} (h : ¬ tag <:+: before)
    (hsplit : before = ys ++ zs) (hzs : zs ≠ []) : ¬ tag <+: zs ++ (tag ++ rest) := by
  obtain ⟨z, zs, rfl⟩ := List.exists_cons_of_ne_nil hzs
  intro hprefix
  obtain ⟨hz, hprefix⟩ := List.cons_prefix_cons.1 hprefix
  have hinside : tag.tail <+: zs := prefix_of_not_mem (c := '@') (by decide) hprefix
  refine h (List.IsInfix.trans (List.IsPrefix.isInfix ?_) (hsplit ▸ List.infix_append_right))
  exact List.cons_prefix_cons.2 ⟨hz, hinside⟩

/-- A declaration is looked for after all that stands before its tag. -/
theorem read?_append {before cs : List Char}
    (h : ∀ ys zs, before = ys ++ zs → zs ≠ [] → ¬ tag <+: zs ++ cs) :
    read? (before ++ cs) = read? cs ∧
      declaration.search (before ++ cs) = declaration.search cs := by
  induction before with
  | nil => exact ⟨rfl, rfl⟩
  | cons c before ih =>
    have hhere : ¬ tag.isPrefixOf (c :: (before ++ cs)) = true := fun hp =>
      h [] (c :: before) rfl (List.cons_ne_nil c before) (List.isPrefixOf_iff_prefix.1 hp)
    obtain ⟨hread, hsearch⟩ := ih fun ys zs hs => h (c :: ys) zs (by rw [hs]; rfl)
    have hfirst : declaration.first (c :: (before ++ cs)) = none := by
      rw [declaration, first_word_bind, if_neg hhere]
    rw [List.cons_append, read?, if_neg hhere, search_cons, hfirst]
    exact ⟨hread, hsearch⟩

/-- A part of a line: not empty, in one line, and without blanks at its ends. -/
structure IsPart (cs : List Char) : Prop where
  nonempty : cs ≠ []
  oneLine : '\n' ∉ cs
  starts : ∀ c ∈ cs.head?, isBlank c = false
  ends : ∀ c ∈ cs.getLast?, isBlank c = false

theorem isPart_iff {cs : List Char} : IsPart cs ↔
    cs ≠ [] ∧ '\n' ∉ cs ∧ cs.head?.all (!isBlank ·) = true ∧
      cs.getLast?.all (!isBlank ·) = true := by
  simp only [Option.all_eq_true, Bool.not_eq_true']
  constructor
  · rintro ⟨hne, hline, hstarts, hends⟩
    exact ⟨hne, hline, fun c hc => hstarts c hc, fun c hc => hends c hc⟩
  · rintro ⟨hne, hline, hstarts, hends⟩
    exact ⟨hne, hline, fun c hc => hstarts c hc, fun c hc => hends c hc⟩

instance (cs : List Char) : Decidable (IsPart cs) :=
  decidable_of_iff _ isPart_iff.symm

/-- What may stand between two parts: blanks of one line. -/
def IsGap (cs : List Char) : Prop :=
  ∀ c ∈ cs, isBlank c = true ∧ c ≠ '\n'

instance (cs : List Char) : Decidable (IsGap cs) :=
  List.decidableBAll (fun c => isBlank c = true ∧ c ≠ '\n') cs

theorem IsGap.blank {cs : List Char} (h : IsGap cs) : ∀ c ∈ cs, isBlank c = true :=
  fun c hc => (h c hc).1

theorem IsGap.oneLine {cs : List Char} (h : IsGap cs) : '\n' ∉ cs :=
  fun hc => (h '\n' hc).2 rfl

theorem IsGap.not_mem {cs : List Char} (h : IsGap cs) {c : Char} (hc : isBlank c = false) :
    c ∉ cs := by
  intro hmem
  rw [h.blank c hmem] at hc
  cases hc

/-- Between gaps, a part is all that is left by trimming. -/
theorem IsPart.trimmed_between {cs before after : List Char} (h : IsPart cs) (hbefore : IsGap before)
    (hafter : IsGap after) : trimmed (before ++ cs ++ after) = String.ofList cs := by
  rw [trimmed, trimEnds_between hbefore.blank hafter.blank h.nonempty h.starts h.ends]

/-- What is taken up to a mark that stands neither in a part nor in the gaps around it. -/
theorem forall_ne_between {cs before after : List Char} (hbefore : IsGap before)
    (hafter : IsGap after) {mark : Char} (hmark : isBlank mark = false) (hcs : mark ∉ cs) :
    ∀ c ∈ before ++ cs ++ after, (c != mark) = true := by
  intro c hc
  refine bne_iff_ne.2 fun he => ?_
  subst he
  simp [hbefore.not_mem hmark, hafter.not_mem hmark, hcs] at hc

section
variable {kind name values g₁ g₂ g₃ g₄ g₅ g₆ g₇ : List Char}

/-- After its tag, a declaration is read by its braces. -/
theorem afterTag?_of_kind {after : List Char} (h₁ : IsGap g₁) (h₂ : IsGap g₂) (h₃ : IsGap g₃)
    (hkind : IsPart kind) (hbrace : '\x7d' ∉ kind) :
    afterTag? (g₁ ++ '\x7b' :: (g₂ ++ kind ++ g₃ ++ '\x7d' :: after)) =
      some ⟨String.ofList kind, trimmed (after.takeWhile (· != '=')),
        match after.dropWhile (· != '=') with
        | [] => none
        | _ :: values => some (trimmed values)⟩ := by
  have hmark := forall_ne_between h₂ h₃ (by decide) hbrace
  rw [← afterTag?_dropWhile, dropWhile_append_eq h₁.blank (by rintro c ⟨⟩; rfl), afterTag?_brace,
    List.dropWhile_append_of_pos hmark, List.takeWhile_append_of_pos hmark,
    List.dropWhile_cons_of_neg (by decide), List.takeWhile_cons_of_neg (by decide), List.append_nil,
    hkind.trimmed_between h₂ h₃]

/-- A line that declares a parameter: what stands before the tag, the tag, a kind in braces, a name
and what follows it. -/
def written (before kind name g₁ g₂ g₃ g₄ g₅ rest : List Char) : List Char :=
  before ++ (tag ++ (g₁ ++ '\x7b' :: (g₂ ++ kind ++ g₃ ++ '\x7d' :: (g₄ ++ name ++ g₅ ++ rest))))

/-- What a line declares: what is read from it, and what a search for the pattern captures. -/
def Declares (cs : List Char) (line : ParameterLine) : Prop :=
  read? cs = some line ∧ declaration.search cs = some line

theorem read?_of_prefix {cs : List Char} {line : ParameterLine} (htag : tag <+: cs)
    (h : afterTag? (cs.drop tag.length) = some line) : read? cs = some line := by
  cases cs with
  | nil => exact absurd (List.prefix_nil.1 htag) (by decide)
  | cons c cs => rw [read?, if_pos (List.isPrefixOf_iff_prefix.2 htag), h]

theorem declares_of_afterTag? {before cs : List Char} {line : ParameterLine}
    (hbefore : ¬ tag <:+: before) (hline : '\n' ∉ cs) (h : afterTag? cs = some line) :
    Declares (before ++ (tag ++ cs)) line := by
  have hread : read? (tag ++ cs) = some line := by
    refine read?_of_prefix (List.prefix_append tag cs) ?_
    rwa [List.drop_left]
  have htag : '\n' ∉ tag ++ cs := by
    rw [List.mem_append, not_or]
    exact ⟨by decide, hline⟩
  obtain ⟨h₁, h₂⟩ := read?_append fun ys zs => not_prefix_of_not_infix cs hbefore
  rw [Declares, h₁, h₂, ← read?_eq_search htag]
  exact ⟨hread, hread⟩

/-- From a line that was put together from its parts, with blanks between them, these are found
again.  Before the tag there may be anything but a tag; a kind holds no closing brace and a name no
equals sign, and values hold what they will.  Without values, the same line declares none. -/
theorem declaration_recovered {before : List Char} (hbefore : ¬ tag <:+: before)
    (hkind : IsPart kind) (hbrace : '\x7d' ∉ kind) (hname : IsPart name) (hequals : '=' ∉ name)
    (hvalues : IsPart values) (hgaps : ∀ g ∈ [g₁, g₂, g₃, g₄, g₅, g₆, g₇], IsGap g) :
    Declares (written before kind name g₁ g₂ g₃ g₄ g₅ ('=' :: (g₆ ++ values ++ g₇)))
        ⟨String.ofList kind, String.ofList name, some (String.ofList values)⟩ ∧
      Declares (written before kind name g₁ g₂ g₃ g₄ g₅ [])
        ⟨String.ofList kind, String.ofList name, none⟩ := by
  obtain ⟨h₁, h₂, h₃, h₄, h₅, h₆, h₇⟩ : IsGap g₁ ∧ IsGap g₂ ∧ IsGap g₃ ∧ IsGap g₄ ∧ IsGap g₅ ∧
      IsGap g₆ ∧ IsGap g₇ := by simpa using hgaps
  have hmark := forall_ne_between h₄ h₅ (by decide) hequals
  have hname' := hname.trimmed_between h₄ h₅
  constructor
  · refine declares_of_afterTag? hbefore ?_ ?_
    · simp only [List.mem_append, List.mem_cons, not_or, h₁.oneLine, h₂.oneLine, h₃.oneLine,
        h₄.oneLine, h₅.oneLine, h₆.oneLine, h₇.oneLine, hkind.oneLine, hname.oneLine,
        hvalues.oneLine]
      decide
    · rw [afterTag?_of_kind h₁ h₂ h₃ hkind hbrace, List.dropWhile_append_of_pos hmark,
        List.takeWhile_append_of_pos hmark, List.takeWhile_cons_of_neg (by decide), List.append_nil,
        List.dropWhile_cons_of_neg (by decide), hname', ← hvalues.trimmed_between h₆ h₇]
  · refine declares_of_afterTag? hbefore ?_ ?_
    · simp only [List.mem_append, List.mem_cons, not_or, h₁.oneLine, h₂.oneLine, h₃.oneLine,
        h₄.oneLine, h₅.oneLine, hkind.oneLine, hname.oneLine, List.append_nil]
      decide
    · rw [List.append_nil, afterTag?_of_kind h₁ h₂ h₃ hkind hbrace,
        List.dropWhile_eq_nil_iff.2 hmark, List.takeWhile_eq_self_iff.2 hmark, hname']

/-- Part of a tag stands before it, a brace in the name, and a declaration in the values. -/
theorem declaration_recovered_nested :
    (¬ tag <:+: " * @para".toList ∧ IsPart "Num ber".toList ∧ IsPart "a \x7d b".toList ∧
      IsPart "1 = @param \x7bx\x7d y=2".toList) ∧
    Declares (" * @para@param \x7b Num ber \x7d a \x7d b\t".toList ++
        '=' :: ([' '] ++ "1 = @param \x7bx\x7d y=2".toList ++ [' ']))
      ⟨"Num ber", "a \x7d b", some "1 = @param \x7bx\x7d y=2"⟩ ∧
    Declares " * @para@param \x7b Num ber \x7d a \x7d b\t".toList
      ⟨"Num ber", "a \x7d b", none⟩ := by
  have hbefore : ¬ tag <:+: " * @para".toList := by decide
  have hkind : IsPart "Num ber".toList := by decide
  have hname : IsPart "a \x7d b".toList := by decide
  have hvalues : IsPart "1 = @param \x7bx\x7d y=2".toList := by decide
  have hspace : IsGap [' '] := by decide
  have htab : IsGap ['\t'] := by decide
  have hline : ∀ rest, written " * @para".toList "Num ber".toList "a \x7d b".toList [' '] [' '] [' ']
      [' '] ['\t'] rest = " * @para@param \x7b Num ber \x7d a \x7d b\t".toList ++ rest :=
    fun rest => rfl
  have h := @declaration_recovered "Num ber".toList "a \x7d b".toList
    "1 = @param \x7bx\x7d y=2".toList [' '] [' '] [' '] [' '] ['\t'] [' '] [' '] _ hbefore hkind
    (by decide) hname (by decide) hvalues (by simp [hspace, htab])
  rw [hline, hline, List.append_nil] at h
  rw [String.ofList_toList, String.ofList_toList, String.ofList_toList] at h
  exact ⟨⟨hbefore, hkind, hname, hvalues⟩, h⟩

end

end ParameterLine

end Chronicle
