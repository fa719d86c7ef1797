import Chronicle.Proofs.Reading.Template
import Chronicle.Proofs.Text.EscapePattern

/-!
# Templates without substitutions

The text between the pieces of a template is cut from the bytes of the source, and each escape
sequence is decoded by itself.  Where the escape sequences of a template without substitutions are
just the matches of their pattern in its body, this gives what decoding the body as a whole gives
(`template_matches`), so the template is read as the same text that a quoted text with that body is
read as (`template_unescapes`).
-/

set_option autoImplicit false

namespace Chronicle

/-! ## Slices of a source -/

section
variable {source : ByteArray} {start stop : Nat}

theorem sourceText_eq_ok_iff {text : String} :
    sourceText source start stop = .ok text ↔ source.extract start stop = text.toByteArray := by
  unfold sourceText Utf8.decode
  by_cases h : (source.extract start stop).IsValidUTF8
  · rw [dif_pos h]
    simp only [Except.mapError, Except.ok.injEq, ← String.toByteArray_inj]
    rfl
  · rw [dif_neg h]
    constructor
    · intro he
      cases he
    · intro he
      exact absurd (he ▸ text.isValidUTF8) h

theorem extract_congr {stop' : Nat}
    (h : min stop source.size - start = min stop' source.size - start) :
    source.extract start stop = source.extract start stop' := by
  apply ByteArray.ext
  rw [ByteArray.data_extract, ByteArray.data_extract, Array.extract_eq_extract_right,
    ByteArray.size_data]
  omega

/-- A slice whose text consists of two parts is cut between them. -/
theorem sourceText_append {s t : String} (h : sourceText source start stop = .ok (s ++ t)) :
    sourceText source start (start + s.utf8ByteSize) = .ok s ∧
      sourceText source (start + s.utf8ByteSize) stop = .ok t := by
  rw [sourceText_eq_ok_iff, String.toByteArray_append] at h
  have hsize : min stop source.size - start = s.utf8ByteSize + t.utf8ByteSize := by
    rw [← ByteArray.size_extract, h, ByteArray.size_append, String.size_toByteArray,
      String.size_toByteArray]
  rw [sourceText_eq_ok_iff, sourceText_eq_ok_iff]
  constructor
  · calc source.extract start (start + s.utf8ByteSize)
      _ = (source.extract start stop).extract 0 s.utf8ByteSize := by
        rw [ByteArray.extract_extract, Nat.add_zero]
        exact extract_congr (by omega)
      _ = s.toByteArray := by
        rw [h, ByteArray.extract_append_eq_left String.size_toByteArray.symm]
  · calc source.extract (start + s.utf8ByteSize) stop
      _ = (source.extract start stop).extract s.utf8ByteSize
          (s.utf8ByteSize + t.utf8ByteSize) := by
        rw [ByteArray.extract_extract]
        exact extract_congr (by omega)
      _ = t.toByteArray := by
        rw [h, ByteArray.extract_append_eq_right String.size_toByteArray.symm]
        rw [String.size_toByteArray, String.size_toByteArray]

end

/-! ## Escape sequences of a template -/

/-- Where a node begins and ends, in bytes. -/
def Tree.Label.span (l : Tree.Label) : Nat × Nat :=
  (l.start.byte, l.stop.byte)

namespace Reading

variable {source : ByteArray}

/-- Without substitutions, only the escape sequences matter. -/
theorem templateParts_filter (stop : Nat) : ∀ {pieces : List Reading} (cursor : Nat),
    (∀ p ∈ pieces, p.label.kind ≠ "template_substitution") →
    templateParts source stop cursor pieces =
      templateParts source stop cursor (pieces.filter (·.label.kind == "escape_sequence"))
  | [], _, _ => rfl
  | piece :: rest, cursor, h => by
    obtain ⟨hpiece, hrest⟩ := List.forall_mem_cons.1 h
    by_cases hescape : piece.label.kind = "escape_sequence"
    · rw [List.filter_cons_of_pos (by simpa using hescape), templateParts_escape hescape,
        templateParts_escape hescape]
      simp only [templateParts_filter stop _ hrest]
    · rw [List.filter_cons_of_neg (by simpa using hescape), templateParts_other hescape hpiece,
        templateParts_filter stop cursor hrest]

/-- A text by itself is a literal, also when it is empty. -/
theorem templateNode_fragment (location : Location) (text : String) :
    templateNode location (TemplatePart.fragment location text) =
      .literal location (.text text) text := by
  unfold TemplatePart.fragment
  split
  · rename_i htext
    rw [htext]
    rfl
  · rfl

/-- An escape sequence cuts the text that is left in three: what stands before it, the sequence,
which is decoded by itself, and what is left after it. -/
theorem templateParts_cut {piece : Reading} {stop cursor : Nat} {before w cs : List Char}
    (hescape : piece.label.kind = "escape_sequence") (rest : List Reading)
    (hstart : piece.label.start.byte = cursor + (String.ofList before).utf8ByteSize)
    (hstop : piece.label.stop.byte = piece.label.start.byte + (String.ofList w).utf8ByteSize)
    (hsource : sourceText source cursor stop = .ok (String.ofList (before ++ (w ++ cs)))) :
    templateParts source stop cursor (piece :: rest) = (do
      let escaped ← (Text.unescapeChars w).map String.ofList
      return .chunk (String.ofList before) :: .chunk escaped ::
        (← templateParts source stop piece.label.stop.byte rest)) ∧
    sourceText source piece.label.stop.byte stop = .ok (String.ofList cs) := by
  rw [String.ofList_append] at hsource
  obtain ⟨hbefore, hrest⟩ := sourceText_append hsource
  rw [← hstart, String.ofList_append] at hrest
  obtain ⟨hmatched, hafter⟩ := sourceText_append hrest
  rw [← hstop] at hmatched hafter
  rw [← hstart] at hbefore
  refine ⟨?_, hafter⟩
  rw [templateParts_escape hescape, hbefore, Tree.Label.text, hmatched, ← Text.unescape_ofList]
  rfl

/-- From the byte `start` on, the escape sequences of a template are the matches of their pattern;
up to there stands text that is in none of them.  The template is read as the sum of this text and
what the rest is decoded as. -/
theorem template_matches {stop start : Nat} {cs : List Char} {spans : List (Nat × Nat)}
    (h : Text.escapePattern.Matches start cs spans) (location : Location) :
    ∀ {pieces : List Reading} {cursor : Nat} {before : List Char} (pending : String),
      (∀ p ∈ pieces, p.label.kind = "escape_sequence") →
      pieces.map (·.label.span) = spans →
      start = cursor + (String.ofList before).utf8ByteSize →
      sourceText source cursor stop = .ok (String.ofList (before ++ cs)) →
      (do
        let parts ← templateParts source stop cursor pieces
        return TemplatePart.nodes location pending parts) =
      (Text.unescapeChars cs).map fun ds =>
        TemplatePart.fragment location (pending ++ String.ofList (before ++ ds)) := by
  induction h with
  | nil =>
    intro pieces cursor before pending _ hspans _ hsource
    rw [List.map_eq_nil_iff.1 hspans, templateParts, hsource, Text.unescapeChars]
    rfl
  | @pass start c cs spans hfirst _ ih =>
    intro pieces cursor before pending hescapes hspans hstart hsource
    have hbefore : start + c.utf8Size = cursor + (String.ofList (before ++ [c])).utf8ByteSize := by
      rw [String.ofList_append, String.utf8ByteSize_append, ← String.singleton_eq_ofList,
        String.utf8ByteSize_singleton, hstart, Nat.add_assoc]
    have hsplit : before ++ c :: cs = before ++ [c] ++ cs := by simp
    rw [ih pending hescapes hspans hbefore (hsplit ▸ hsource), Text.unescapeChars_pass hfirst]
    cases Text.unescapeChars cs with
    | error f => rfl
    | ok ds => simp [Except.map]
  | @found start stop' a w cs spans hfirst hstop _ ih =>
    intro pieces cursor before pending hescapes hspans hstart hsource
    obtain ⟨piece, rest, rfl, hpiece, hrest⟩ := List.map_eq_cons_iff.1 hspans
    obtain ⟨hescape, hescapes⟩ := List.forall_mem_cons.1 hescapes
    obtain ⟨hpieceStart, hpieceStop⟩ := Prod.mk.inj hpiece
    obtain ⟨hparts, hafter⟩ := templateParts_cut hescape rest
      (hpieceStart.trans hstart) (hpieceStop.trans (hpieceStart ▸ hstop)) hsource
    rw [hpieceStop] at hparts hafter
    rw [hparts, Text.unescapeChars_found hfirst]
    cases Text.unescapeChars w with
    | error f => rfl
    | ok ds =>
      have hcursor : stop' = stop' + (String.ofList []).utf8ByteSize := by simp
      have hnodes := ih (pending ++ String.ofList before ++ String.ofList ds) hescapes hrest hcursor
        hafter
      calc
        _ = (do
            let parts ← templateParts source stop stop' rest
            return TemplatePart.nodes location
              (pending ++ String.ofList before ++ String.ofList ds) parts) := by
          cases templateParts source stop stop' rest <;> rfl
        _ = _ := hnodes
        _ = _ := by
          cases Text.unescapeChars cs with
          | error f => rfl
          | ok tail =>
            show Except.ok _ = Except.ok _
            simp only [List.nil_append, String.ofList_append, String.append_assoc]

/-- A template without substitutions is the text that its body is decoded as. -/
theorem template_plain {l : Tree.Label} {pieces : List Reading} {body : String}
    (hwritten : sourceText source (l.start.byte + 1) (l.stop.byte - 1) = .ok body)
    (hplain : ∀ p ∈ pieces, p.label.kind ≠ "template_substitution")
    (hescapes : Text.escapePattern.Matches (l.start.byte + 1) body.toList
      ((pieces.filter (·.label.kind == "escape_sequence")).map (·.label.span))) :
    template source l pieces =
      (Text.unescape body).map fun text => .literal l.location (.text text) text := by
  have hkinds : ∀ p ∈ pieces.filter (·.label.kind == "escape_sequence"),
      p.label.kind = "escape_sequence" :=
    fun p hp => beq_iff_eq.1 (List.mem_filter.1 hp).2
  have hnodes := template_matches hescapes l.location "" hkinds rfl
    (show l.start.byte + 1 = l.start.byte + 1 + (String.ofList []).utf8ByteSize by simp)
    (by rw [List.nil_append, String.ofList_toList]; exact hwritten)
  calc template source l pieces
    _ = (do
        let parts ← templateParts source (l.stop.byte - 1) (l.start.byte + 1)
          (pieces.filter (·.label.kind == "escape_sequence"))
        return TemplatePart.nodes l.location "" parts) >>= fun nodes =>
          pure (templateNode l.location nodes) := by
      rw [template_eq, templateParts_filter _ _ hplain, bind_assoc]
      simp only [pure_bind]
    _ = _ := by
      rw [hnodes, Text.unescape]
      cases Text.unescapeChars body.toList with
      | error f => rfl
      | ok cs =>
        show Except.ok (templateNode l.location
          (TemplatePart.fragment l.location ("" ++ String.ofList cs))) = _
        rw [String.empty_append, templateNode_fragment]
        rfl

end Reading

/-! ## Templates and quoted texts -/

namespace Tree

/-- A template without substitutions whose escape sequences are the matches of their pattern in its
body. -/
structure PlainTemplate (source : ByteArray) (t : Tree) (body : String) : Prop where
  kind : t.label.kind = "template_string"
  written : sourceText source (t.label.start.byte + 1) (t.label.stop.byte - 1) = .ok body
  plain : ∀ c ∈ t.children, c.label.kind ≠ "template_substitution"
  escapes : Text.escapePattern.Matches (t.label.start.byte + 1) body.toList
    ((t.children.filter (·.label.kind == "escape_sequence")).map (·.label.span))

/-- A text between quotes. -/
structure QuotedText (source : ByteArray) (t : Tree) (body : String) : Prop where
  kind : t.label.kind = "string"
  text : ∃ opening closing : Char,
    t.label.text source = .ok (String.ofList (opening :: (body.toList ++ [closing])))

section
variable {source : ByteArray} {t : Tree} {body : String}

theorem QuotedText.expression_eq (h : t.QuotedText source body) :
    ∃ raw, t.label.text source = .ok raw ∧ (t.reading source).expression =
      (Text.unescape body).map fun text => .literal t.label.location (.text text) raw := by
  obtain ⟨opening, closing, htext⟩ := h.text
  refine ⟨_, htext, ?_⟩
  rw [expression_reading, Reading.asExpression, h.kind]
  show Reading.quoted source t.label = _
  rw [Reading.quoted, htext]
  show (do return Node.literal _ (.text (← Text.unescape _)) _) = _
  rw [String.toList_ofList, List.drop_one, List.tail_cons, List.dropLast_concat,
    String.ofList_toList]
  cases Text.unescape body <;> rfl

theorem PlainTemplate.expression_eq (h : t.PlainTemplate source body) :
    (t.reading source).expression =
      (Text.unescape body).map fun text => .literal t.label.location (.text text) text := by
  obtain ⟨l, children⟩ := t
  have hplain : ∀ r ∈ readings source children, r.label.kind ≠ "template_substitution" := by
    rw [readings_eq_map, List.forall_mem_map]
    intro c hc
    rw [label_reading]
    exact h.plain c hc
  have hspans :
      ((readings source children).filter (·.label.kind == "escape_sequence")).map (·.label.span) =
        (children.filter (·.label.kind == "escape_sequence")).map (·.label.span) := by
    rw [readings_eq_map, List.filter_map, List.map_map]
    simp only [Function.comp_def, label_reading]
  rw [expression_reading, children_reading, Reading.asExpression, h.kind]
  exact Reading.template_plain h.written hplain (hspans ▸ h.escapes)

end

end Tree

/-- A template without substitutions and a quoted text with the same body are the same text: the one
that the body is decoded as.  What cannot be decoded fails in both. -/
theorem template_unescapes {source : ByteArray} {t : Tree} {body : String}
    (h : t.PlainTemplate source body) :
    (t.reading source).expression =
      (Text.unescape body).map (fun text => .literal t.label.location (.text text) text) ∧
    ∀ (quotedSource : ByteArray) (q : Tree), q.QuotedText quotedSource body →
      ∃ raw, q.label.text quotedSource = .ok raw ∧ (q.reading quotedSource).expression =
        (Text.unescape body).map fun text => .literal q.label.location (.text text) raw :=
  ⟨h.expression_eq, fun _ _ hq => hq.expression_eq⟩

/-- The source of the template `` `\té\u{41}\\` ``. -/
def adjacentSource : ByteArray :=
  "\x60\\té\\u\x7b41\x7d\\\\\x60".toUTF8

def adjacentTemplate : Tree :=
  .node (.spanning "template_string" 0 14 true) [
    .node (.spanning "\x60" 0 1 false) [],
    .node (.spanning "escape_sequence" 1 3 true) [],
    .node (.spanning "string_fragment" 3 5 true) [],
    .node (.spanning "escape_sequence" 5 11 true) [],
    .node (.spanning "escape_sequence" 11 13 true) [],
    .node (.spanning "\x60" 13 14 false) []]

/-- Escape sequences at both ends of a body and next to each other, and a character of two bytes. -/
theorem template_unescapes_adjacent :
    adjacentTemplate.PlainTemplate adjacentSource "\\té\\u\x7b41\x7d\\\\" ∧
    (adjacentTemplate.reading adjacentSource).expression =
      .ok (.literal ⟨1, 0, 1, 14⟩ (.text "\téA\\") "\téA\\") ∧
    ((Tree.node (.spanning "string" 0 14 true) []).reading
        "'\\té\\u\x7b41\x7d\\\\'".toUTF8).expression =
      .ok (.literal ⟨1, 0, 1, 14⟩ (.text "\téA\\") "'\\té\\u\x7b41\x7d\\\\'") := by
  have hplain : adjacentTemplate.PlainTemplate adjacentSource "\\té\\u\x7b41\x7d\\\\" := {
    kind := rfl
    written := rfl
    plain := by decide
    escapes := .found (w := ['\\', 't']) rfl rfl <| .pass rfl <|
      .found (w := ['\\', 'u', '\x7b', '4', '1', '\x7d']) rfl rfl <|
      .found (w := ['\\', '\\']) rfl rfl .nil }
  have hquoted : (Tree.node (.spanning "string" 0 14 true) []).QuotedText
      "'\\té\\u\x7b41\x7d\\\\'".toUTF8 "\\té\\u\x7b41\x7d\\\\" :=
    ⟨rfl, '\'', '\'', rfl⟩
  have hletter : Text.IsNumeral 16 'A'.toNat ['4', '1'] :=
    ⟨by decide, [4, 1], by decide, by decide⟩
  have hrendering : Text.Rendering ['\t', 'é', 'A', '\\'] _ :=
    .char (.letter (by decide : ('\t', 't') ∈ Text.letters)) <| .char (.raw (by decide)) <|
    .char (.braced hletter) <| .char (.itself (by decide)) .nil
  have hvalue : Text.unescape "\\té\\u\x7b41\x7d\\\\" = .ok "\téA\\" :=
    congrArg (Except.map String.ofList) (Text.unescapeChars_rendering hrendering)
  obtain ⟨htemplate, hrest⟩ := template_unescapes hplain
  obtain ⟨raw, hraw, hexpression⟩ := hrest _ _ hquoted
  obtain rfl : "'\\té\\u\x7b41\x7d\\\\'" = raw := Except.ok.inj hraw
  rw [hvalue] at htemplate hexpression
  exact ⟨hplain, htemplate, hexpression⟩

end Chronicle
