import Chronicle.Proofs.Text.Bracketed
import Chronicle.Proofs.Text.Search
import Chronicle.Proofs.Value.Same

/-!
# Renderings of values without texts

A value without texts is made of integers, truth values, `null`, `undefined`, and sequences and
records of such values, the names in which are plain (`Heap.Textless`).  It has a rendering, and
this is a word between brackets, whose first character tells the kind of the value
(`Textless.shows`).  Since words are known from the lists that they make up, the rendering tells how
the value is built: two such values with one rendering are the same (`format_injective`).
-/

set_option autoImplicit false

namespace Chronicle

open Text

/-! ## Numerals -/

namespace Number

theorem natDigits_injective {m n : Nat} (h : natDigits m = natDigits n) : m = n := by
  have hvalue := congrArg (Nat.ofDigitChars 10 · 0) h
  simpa [natDigits, Nat.ofDigitChars_ten_toDigits] using hvalue

theorem isDigit_of_mem_natDigits {n : Nat} {c : Char} (h : c ∈ natDigits n) : c.isDigit = true :=
  Nat.isDigit_of_mem_toDigits (by decide) (by decide) h

theorem toList_intText (n : Int) : (intText n).toList =
    if n < 0 then '-' :: natDigits n.natAbs else natDigits n.natAbs := by
  rw [intText, String.toList_ofList]

theorem intText_injective {m n : Int} (h : intText m = intText n) : m = n := by
  have h := congrArg String.toList h
  have hminus : ∀ {k : Nat} {cs : List Char}, '-' :: cs ≠ natDigits k := fun he =>
    absurd (isDigit_of_mem_natDigits (he ▸ List.mem_cons_self)) (by decide)
  rw [toList_intText, toList_intText] at h
  split at h
  · split at h
    · have := natDigits_injective (List.cons.inj h).2
      omega
    · exact absurd h hminus
  · split at h
    · exact absurd h.symm hminus
    · have := natDigits_injective h
      omega

theorem mem_intText {n : Int} {c : Char} (h : c ∈ (intText n).toList) :
    c = '-' ∨ c.isDigit = true := by
  rw [toList_intText] at h
  split at h
  · exact (List.mem_cons.1 h).imp id isDigit_of_mem_natDigits
  · exact .inr (isDigit_of_mem_natDigits h)

theorem intText_ne_nil (n : Int) : (intText n).toList ≠ [] := by
  rw [toList_intText]
  split
  · nofun
  · exact Nat.toDigits_ne_nil

theorem ne_of_isDigit {c d : Char} (hc : c.isDigit = true) (hd : d.isDigit = false) : c ≠ d := by
  rintro rfl
  rw [hc] at hd
  cases hd

theorem isBlank_of_isDigit {c : Char} (hc : c.isDigit = true) : isBlank c = false := by
  have hrange : 48 ≤ c.toNat ∧ c.toNat ≤ 57 := Char.isDigit_iff_toNat.1 hc
  simp only [isBlank, Bool.or_eq_false_iff, Bool.and_eq_false_iff, decide_eq_false_iff_not,
    beq_eq_false_iff_ne]
  omega

theorem isPlain_intText (n : Int) : IsPlain (intText n).toList := by
  refine ⟨intText_ne_nil n, fun c hc => ?_⟩
  rcases mem_intText hc with rfl | hdigit
  · decide
  · have hmarks : ∀ d ∈ marks, d.isDigit = false := by simp [marks]
    exact ⟨fun hmem => ne_of_isDigit hdigit (hmarks c hmem) rfl, isBlank_of_isDigit hdigit⟩

end Number

namespace Heap

/-! ## Values without texts -/

/-- A value without texts: an integer that can be written, a truth value, `null`, `undefined`, or a
sequence or a record of such values, the names in the latter being plain. -/
inductive Textless (h : Heap) : Value → Prop
  | int {n : Int} (hn : (Number.natDigits n.natAbs).length ≤ Fault.digitLimit) :
    Textless h (.int n)
  | boolean (b : Bool) : Textless h (.boolean b)
  | null : Textless h .null
  | undefined : Textless h .undefined
  | sequence {a : Address} (hitems : ∀ v ∈ h.items a, Textless h v) : Textless h (.sequence a)
  | record {a : Address} (hnames : ∀ f ∈ h.fields a, IsPlain f.1.toList)
    (hfields : ∀ f ∈ h.fields a, Textless h f.2) : Textless h (.record a)

/-- The rendering of a value that has one. -/
def shown (h : Heap) (v : Value) : String :=
  match h.format v with
  | .ok s => s
  | .error _ => ""

/-- The kind of a value without texts, by the first character of its rendering. -/
def kindOf (c : Char) : Kind :=
  if c = '[' then .sequence
  else if c = '\x7b' then .record
  else if c = 't' ∨ c = 'f' then .boolean
  else if c = 'n' then .null
  else if c = 'u' then .undefined
  else .number

/-- What the rendering of a value without texts says. -/
structure Shows (h : Heap) (v : Value) : Prop where
  format : h.format v = .ok (h.shown v)
  word : Word (h.shown v).toList
  kind : (h.shown v).toList.head?.map kindOf = some v.kind

variable {h h' : Heap} {v w : Value} {a : Address}

theorem shown_of_format {s : String} (hs : h.format v = .ok s) : h.shown v = s := by
  rw [shown, hs]

/-- A rendering that is a plain word. -/
theorem shows_of_plain {s : String} (hs : h.format v = .ok s) (hplain : IsPlain s.toList)
    (hkind : s.toList.head?.map kindOf = some v.kind) : h.Shows v := by
  have hshown := shown_of_format hs
  exact ⟨by rw [hshown, hs], hshown ▸ .plain hplain, by rw [hshown, hkind]⟩

theorem kindOf_digit {c : Char} (hc : c = '-' ∨ c.isDigit = true) : kindOf c = .number := by
  rcases hc with rfl | hdigit
  · rfl
  · have hne : ∀ d : Char, d.isDigit = false → c ≠ d := fun d => Number.ne_of_isDigit hdigit
    simp [kindOf, hne]

theorem format_int {n : Int} (hn : (Number.natDigits n.natAbs).length ≤ Fault.digitLimit) :
    h.format (.int n) = .ok (Number.intText n) := by
  have hshort : n.natAbs < 10 ^ Fault.digitLimit :=
    (Nat.length_toDigits_le_iff (by decide) (by decide)).1 hn
  show Number.writeInt n = _
  rw [Number.writeInt, if_pos hshort]

theorem shows_int {n : Int} (hn : (Number.natDigits n.natAbs).length ≤ Fault.digitLimit) :
    h.Shows (.int n) := by
  refine shows_of_plain (format_int hn) (Number.isPlain_intText n) ?_
  obtain ⟨c, rest, hcs⟩ := List.exists_cons_of_ne_nil (Number.intText_ne_nil n)
  rw [hcs]
  exact congrArg some (kindOf_digit (Number.mem_intText (hcs ▸ List.mem_cons_self)))

/-! ## Renderings of sequences and records -/

theorem format_sequence (h : Heap) (a : Address) : h.format (.sequence a) =
    ((h.items a).mapM h.format).map fun parts => "[" ++ Text.join ", " parts ++ "]" := by
  rw [← h.formatWithin_eq_format (Nat.le_succ h.depth), formatWithin_sequence]
  rfl

theorem format_record (h : Heap) (a : Address) : h.format (.record a) =
    ((h.fields a).mapM fun f => (h.format f.2).map (f.1 ++ ": " ++ ·)).map
      fun parts => "\x7b" ++ Text.join ", " parts ++ "\x7d" := by
  rw [← h.formatWithin_eq_format (Nat.le_succ h.depth), formatWithin_record]
  rfl

theorem toList_join (parts : List String) :
    (Text.join ", " parts).toList = separated (parts.map String.toList) := by
  rw [join_eq_intercalate, String.toList_intercalate]
  rfl

/-- The items of a sequence as they are shown. -/
def shownItems (h : Heap) (a : Address) : List (List Char) :=
  (h.items a).map fun v => (h.shown v).toList

/-- The names and values of a record as they are shown. -/
def shownFields (h : Heap) (a : Address) : List (List Char × List Char) :=
  (h.fields a).map fun f => (f.1.toList, (h.shown f.2).toList)

theorem format_sequence_eq (hitems : ∀ v ∈ h.items a, h.Shows v) :
    ∃ s, h.format (.sequence a) = .ok s ∧
      s.toList = '[' :: separated (h.shownItems a) ++ [']'] := by
  have hparts := mapM_eq_ok_map fun v hv => (hitems v hv).format
  refine ⟨_, by rw [format_sequence, hparts]; rfl, ?_⟩
  rw [String.toList_append, String.toList_append, toList_join, List.map_map]
  rfl

theorem format_record_eq (hfields : ∀ f ∈ h.fields a, h.Shows f.2) :
    ∃ s, h.format (.record a) = .ok s ∧
      s.toList = '\x7b' :: separated ((h.shownFields a).map named) ++ ['\x7d'] := by
  have hparts : ((h.fields a).mapM fun f => (h.format f.2).map (f.1 ++ ": " ++ ·)) =
      .ok ((h.fields a).map fun f => f.1 ++ ": " ++ h.shown f.2) := by
    refine mapM_eq_ok_map fun f hf => ?_
    rw [(hfields f hf).format]
    rfl
  refine ⟨_, by rw [format_record, hparts]; rfl, ?_⟩
  rw [String.toList_append, String.toList_append, toList_join, List.map_map, shownFields,
    List.map_map]
  simp [Function.comp_def, named]

theorem Shows.sequence (hitems : ∀ v ∈ h.items a, h.Shows v) : h.Shows (.sequence a) := by
  obtain ⟨s, hs, hlist⟩ := format_sequence_eq hitems
  have hshown := shown_of_format hs
  refine ⟨by rw [hshown, hs], ?_, by rw [hshown, hlist]; rfl⟩
  rw [hshown, hlist]
  exact .sequence _ (List.forall_mem_map.2 fun v hv => (hitems v hv).word)

theorem Shows.record (hnames : ∀ f ∈ h.fields a, IsPlain f.1.toList)
    (hfields : ∀ f ∈ h.fields a, h.Shows f.2) : h.Shows (.record a) := by
  obtain ⟨s, hs, hlist⟩ := format_record_eq hfields
  have hshown := shown_of_format hs
  refine ⟨by rw [hshown, hs], ?_, by rw [hshown, hlist]; rfl⟩
  rw [hshown, hlist]
  exact .record _ (List.forall_mem_map.2 hnames)
    (List.forall_mem_map.2 fun f hf => (hfields f hf).word)

/-- A value without texts has a rendering, which is a word that tells its kind. -/
theorem Textless.shows (hv : h.Textless v) : h.Shows v := by
  induction hv with
  | int hn => exact shows_int hn
  | boolean b =>
    cases b with
    | false => exact shows_of_plain (s := "false") rfl (by decide) (by decide)
    | true => exact shows_of_plain (s := "true") rfl (by decide) (by decide)
  | null => exact shows_of_plain (s := "null") rfl (by decide) (by decide)
  | undefined => exact shows_of_plain (s := "undefined") rfl (by decide) (by decide)
  | sequence _ ih => exact .sequence ih
  | record hnames _ ih => exact .record hnames ih

/-! ## Values with one rendering -/

theorem eq_of_shown_boolean {b b' : Bool}
    (heq : h.shown (.boolean b) = h'.shown (.boolean b')) : b = b' := by
  have hshown : ∀ (h : Heap) (b : Bool), h.shown (.boolean b) = if b then "true" else "false" :=
    fun h b => shown_of_format rfl
  rw [hshown, hshown] at heq
  revert b b'
  decide

theorem toList_shown_sequence (hitems : ∀ v ∈ h.items a, h.Shows v) :
    (h.shown (.sequence a)).toList = '[' :: separated (h.shownItems a) ++ [']'] := by
  obtain ⟨s, hs, hlist⟩ := format_sequence_eq hitems
  rw [shown_of_format hs, hlist]

theorem toList_shown_record (hfields : ∀ f ∈ h.fields a, h.Shows f.2) :
    (h.shown (.record a)).toList =
      '\x7b' :: separated ((h.shownFields a).map named) ++ ['\x7d'] := by
  obtain ⟨s, hs, hlist⟩ := format_record_eq hfields
  rw [shown_of_format hs, hlist]

/-- Sequences with one rendering have items of the same renderings. -/
theorem shownItems_eq {b : Address} (hitems : ∀ v ∈ h.items a, h.Shows v)
    (hitems' : ∀ w ∈ h'.items b, h'.Shows w)
    (heq : h.shown (.sequence a) = h'.shown (.sequence b)) : h.shownItems a = h'.shownItems b := by
  have heq := congrArg String.toList heq
  rw [toList_shown_sequence hitems, toList_shown_sequence hitems'] at heq
  exact separated_injective (List.forall_mem_map.2 fun v hv => (hitems v hv).word)
    (List.forall_mem_map.2 fun w hw => (hitems' w hw).word)
    (List.append_cancel_right (List.cons.inj heq).2)

/-- Records with one rendering have the same names, and values of the same renderings. -/
theorem shownFields_eq {b : Address} (hnames : ∀ f ∈ h.fields a, IsPlain f.1.toList)
    (hnames' : ∀ g ∈ h'.fields b, IsPlain g.1.toList) (hfields : ∀ f ∈ h.fields a, h.Shows f.2)
    (hfields' : ∀ g ∈ h'.fields b, h'.Shows g.2)
    (heq : h.shown (.record a) = h'.shown (.record b)) : h.shownFields a = h'.shownFields b := by
  have heq := congrArg String.toList heq
  rw [toList_shown_record hfields, toList_shown_record hfields'] at heq
  exact separated_named_injective
    (List.forall_mem_map.2 fun f hf => ⟨hnames f hf, (hfields f hf).word⟩)
    (List.forall_mem_map.2 fun g hg => ⟨hnames' g hg, (hfields' g hg).word⟩)
    (List.append_cancel_right (List.cons.inj heq).2)

/-- The first characters of renderings tell the kinds of the values. -/
theorem Shows.kind_eq (hv : h.Shows v) (hw : h'.Shows w) (heq : h.shown v = h'.shown w) :
    v.kind = w.kind := by
  have hfirst := hv.kind
  rw [heq, hw.kind] at hfirst
  exact (Option.some.inj hfirst).symm

theorem Textless.same_of_shown (hv : h.Textless v) (hw : h'.Textless w)
    (heq : h.shown v = h'.shown w) : h.Same h' v w := by
  have hkind := hv.shows.kind_eq hw.shows heq
  induction hv generalizing w with
  | @int m hm =>
    cases hw with
    | @int n hn =>
      rw [shown_of_format (format_int hm), shown_of_format (format_int hn)] at heq
      obtain rfl := Number.intText_injective heq
      exact .number _
    | _ => cases hkind
  | boolean b =>
    cases hw with
    | boolean b' =>
      obtain rfl := eq_of_shown_boolean heq
      exact .boolean b
    | _ => cases hkind
  | null =>
    cases hw with
    | null => exact .null
    | _ => cases hkind
  | undefined =>
    cases hw with
    | undefined => exact .undefined
    | _ => cases hkind
  | @sequence a hitems ih =>
    cases hw with
    | @sequence b hitems' =>
      have hshown := shownItems_eq (fun v hv => (hitems v hv).shows)
        (fun w hw => (hitems' w hw).shows) heq
      have hlength := congrArg List.length hshown
      refine .sequence (by simpa [shownItems] using hlength.symm) fun i u u' hu hu' => ?_
      have hi := congrArg (·[i]?) hshown
      simp only [shownItems, List.getElem?_map, hu, hu', Option.map_some, Option.some.injEq,
        String.toList_inj] at hi
      have hmem := List.mem_of_getElem? hu
      have hmem' := List.mem_of_getElem? hu'
      exact ih u hmem (hitems' u' hmem') hi
        ((hitems u hmem).shows.kind_eq (hitems' u' hmem').shows hi)
    | _ => cases hkind
  | @record a hnames hfields ih =>
    cases hw with
    | @record b hnames' hfields' =>
      have hshown := shownFields_eq hnames hnames' (fun f hf => (hfields f hf).shows)
        (fun g hg => (hfields' g hg).shows) heq
      refine .record ?_ fun i f f' hf hf' => ?_
      · have hfirsts := congrArg (List.map fun p => String.ofList p.1) hshown
        simpa [shownFields, Function.comp_def] using hfirsts.symm
      · have hi := congrArg (·[i]?) hshown
        simp only [shownFields, List.getElem?_map, hf, hf', Option.map_some, Option.some.injEq,
          Prod.mk.injEq, String.toList_inj] at hi
        have hmem := List.mem_of_getElem? hf
        have hmem' := List.mem_of_getElem? hf'
        exact ih f hmem (hfields' f' hmem') hi.2
          ((hfields f hmem).shows.kind_eq (hfields' f' hmem').shows hi.2)
    | _ => cases hkind

/-- Values without texts have renderings, and these are the same only for values that are the
same. -/
theorem format_injective (hv : h.Textless v) (hw : h'.Textless w) :
    ∃ s t, h.format v = .ok s ∧ h'.format w = .ok t ∧ (s = t → h.Same h' v w) :=
  ⟨_, _, hv.shows.format, hw.shows.format, hv.same_of_shown hw⟩

/-- A sequence with a record in it, at the first addresses. -/
def nested : Heap where
  sequences := #[[.int 1, .boolean true, .record 0], [.null, .undefined, .int (-12)]]
  records := #[[("x", .sequence 1)]]

/-- The same sequence at other addresses. -/
def moved : Heap where
  sequences := #[[], [.null, .undefined, .int (-12)], [.int 1, .boolean true, .record 1]]
  records := #[[], [("x", .sequence 1)]]

theorem format_injective_nested :
    nested.Textless (.sequence 0) ∧ moved.Textless (.sequence 2) ∧
      nested.format (.sequence 0) = .ok "[1, true, \x7bx: [null, undefined, -12]\x7d]" ∧
      moved.format (.sequence 2) = nested.format (.sequence 0) ∧
      nested.Same moved (.sequence 0) (.sequence 2) := by
  have hinner : ∀ (h : Heap) (a : Address), h.items a = [.null, .undefined, .int (-12)] →
      h.Textless (.sequence a) := fun h a ha => .sequence <| ha ▸ List.forall_mem_cons.2
    ⟨.null, List.forall_mem_cons.2 ⟨.undefined, List.forall_mem_singleton.2 (.int (by decide))⟩⟩
  have hrecord : ∀ (h : Heap) (r a : Address), h.fields r = [("x", .sequence a)] →
      h.Textless (.sequence a) → h.Textless (.record r) := fun h r a hr ha =>
    have hname : IsPlain "x".toList := by decide
    .record (hr ▸ List.forall_mem_singleton.2 hname) (hr ▸ List.forall_mem_singleton.2 ha)
  have houter : ∀ (h : Heap) (a r : Address), h.items a = [.int 1, .boolean true, .record r] →
      h.Textless (.record r) → h.Textless (.sequence a) := fun h a r ha hr =>
    .sequence <| ha ▸ List.forall_mem_cons.2 ⟨.int (by decide), List.forall_mem_cons.2
      ⟨.boolean true, List.forall_mem_singleton.2 hr⟩⟩
  have hnested : nested.Textless (.sequence 0) :=
    houter nested 0 0 rfl (hrecord nested 0 1 rfl (hinner nested 1 rfl))
  have hmoved : moved.Textless (.sequence 2) :=
    houter moved 2 1 rfl (hrecord moved 1 1 rfl (hinner moved 1 rfl))
  have hformat : nested.format (.sequence 0) =
      .ok "[1, true, \x7bx: [null, undefined, -12]\x7d]" := by decide +kernel
  have heq : moved.format (.sequence 2) = nested.format (.sequence 0) := by
    decide +kernel
  obtain ⟨s, t, hs, ht, hsame⟩ := format_injective hnested hmoved
  refine ⟨hnested, hmoved, hformat, heq, hsame ?_⟩
  rw [heq, hs] at ht
  exact Except.ok.inj ht

end Heap

end Chronicle
