import Chronicle.Proofs.Evaluation.Parts
import Chronicle.Proofs.Operator.Class
import Chronicle.Proofs.Reading.Regular
import Chronicle.Proofs.Reading.Stripped
import Chronicle.Proofs.Triple

/-!
# Templates

A template consists of texts that are written out, escape sequences and substitutions, in the order
of the source (`Reading.templateParts`).  It is read as a sum of texts and expressions, in which
neighbouring texts are one and empty ones are left out (`template_eq`), and the sum, which starts
with a text, is the concatenation of what its parts give as texts (`evaluate_concatenation`).

A sum of one part that is a literal is that literal.  This is meant for a template without
substitutions, but a template that is the substitution of a literal and nothing else is that literal
as well, of whatever kind (`template_evaluates`, `template_truth`).
-/

set_option autoImplicit false

namespace Chronicle

open Effect

/-- The text that the value of an expression gives. -/
def textOf (scope : ScopeId) (step : Int) (expression : Node) : Effect String := do
  let v ← evaluate scope step expression
  Effect.read (·.text v)

/-- A part of a template. -/
inductive TemplatePart where
  | chunk (text : String)
  | substitution (expression : Node)

namespace TemplatePart

/-- The text that a part gives; a substitution is evaluated for it. -/
def text (scope : ScopeId) (step : Int) : TemplatePart → Effect String
  | .chunk text => pure text
  | .substitution expression => textOf scope step expression

/-- Whether a part is more than an empty text. -/
def isPresent : TemplatePart → Bool
  | .chunk text => text != ""
  | .substitution _ => true

/-- Whether a template is the substitution of a literal other than a text, and nothing else. -/
def IsLoneLiteral (parts : List TemplatePart) : Prop :=
  ∃ location v raw, v.kind ≠ .text ∧
    parts.filter isPresent = [.substitution (.literal location v raw)]

/-- A text as a part of a sum, which an empty one is not. -/
def fragment (location : Location) (text : String) : List Node :=
  if text = "" then [] else [.literal location (.text text) text]

/-- The sum of the parts of a template, after a text that precedes them. -/
def nodes (location : Location) : String → List TemplatePart → List Node
  | pending, [] => fragment location pending
  | pending, .chunk text :: rest => nodes location (pending ++ text) rest
  | pending, .substitution expression :: rest =>
    fragment location pending ++ expression :: nodes location "" rest

end TemplatePart

namespace Reading

/-- The parts of a template between two bytes of the source, in order.  Before every escape sequence
and substitution, and at the end, stands the text since the one before. -/
def templateParts (source : ByteArray) (stop : Nat) :
    Nat → List Reading → Except Fault (List TemplatePart)
  | cursor, [] => do return [.chunk (← sourceText source cursor stop)]
  | cursor, piece :: rest =>
    let l := piece.label
    match l.kind with
    | "escape_sequence" => do
      let before ← sourceText source cursor l.start.byte
      let escaped ← Text.unescape (← l.text source)
      return .chunk before :: .chunk escaped :: (← templateParts source stop l.stop.byte rest)
    | "template_substitution" => do
      let before ← sourceText source cursor l.start.byte
      let inner ← firstConstruct piece.children
      let expression ← inner.expression
      return .chunk before :: .substitution expression ::
        (← templateParts source stop l.stop.byte rest)
    | _ => templateParts source stop cursor rest

/-- The node of a sum of parts: a literal alone is itself. -/
def templateNode (location : Location) : List Node → Node
  | [.literal place v raw] => .literal place v raw
  | nodes => concatenation location nodes

theorem templateNode_of_ne (location : Location) {nodes : List Node}
    (h : ∀ place v raw, nodes ≠ [.literal place v raw]) :
    templateNode location nodes = concatenation location nodes := by
  unfold templateNode
  split
  · exact absurd rfl (h _ _ _)
  · rfl

/-! ## Reading the parts -/

/-- The parts of the sum that a state of reading has come to. -/
def TemplateState.nodes (s : TemplateState) (location : Location) : List Node :=
  s.parts ++ TemplatePart.fragment location s.pending

section
variable {source : ByteArray} {piece : Reading}

theorem step_escape (h : piece.label.kind = "escape_sequence") (location : Location)
    (s : TemplateState) :
    s.step source location piece = (do
      let before ← sourceText source s.cursor piece.label.start.byte
      let escaped ← Text.unescape (← piece.label.text source)
      return { s with
        pending := s.pending ++ before ++ escaped
        cursor := piece.label.stop.byte }) := by
  simp only [TemplateState.step, h, TemplateState.upTo, bind_assoc, pure_bind]

theorem step_substitution (h : piece.label.kind = "template_substitution") (location : Location)
    (s : TemplateState) :
    s.step source location piece = (do
      let before ← sourceText source s.cursor piece.label.start.byte
      let inner ← firstConstruct piece.children
      let expression ← inner.expression
      return {
        parts := s.parts ++ TemplatePart.fragment location (s.pending ++ before) ++ [expression]
        pending := ""
        cursor := piece.label.stop.byte }) := by
  simp only [TemplateState.step, h, TemplateState.upTo, TemplatePart.fragment,
    TemplateState.literal, bind_assoc, pure_bind, beq_iff_eq]
  refine bind_congr fun before => bind_congr fun inner => bind_congr fun expression => ?_
  split <;> simp only [List.append_nil]

theorem step_other (hescape : piece.label.kind ≠ "escape_sequence")
    (hsubstitution : piece.label.kind ≠ "template_substitution") (location : Location)
    (s : TemplateState) : s.step source location piece = pure s := by
  unfold TemplateState.step
  dsimp only
  split
  · exact absurd ‹_› hescape
  · exact absurd ‹_› hsubstitution
  · rfl

theorem templateParts_escape {piece : Reading} (h : piece.label.kind = "escape_sequence")
    (stop cursor : Nat) (rest : List Reading) :
    templateParts source stop cursor (piece :: rest) = (do
      let before ← sourceText source cursor piece.label.start.byte
      let escaped ← Text.unescape (← piece.label.text source)
      return .chunk before :: .chunk escaped ::
        (← templateParts source stop piece.label.stop.byte rest)) := by
  simp only [templateParts, h]

theorem templateParts_other {piece : Reading} (hescape : piece.label.kind ≠ "escape_sequence")
    (hsubstitution : piece.label.kind ≠ "template_substitution") (stop cursor : Nat)
    (rest : List Reading) :
    templateParts source stop cursor (piece :: rest) = templateParts source stop cursor rest := by
  conv => lhs; unfold templateParts
  dsimp only
  split
  · exact absurd ‹_› hescape
  · exact absurd ‹_› hsubstitution
  · rfl

theorem template_nodes (location : Location) (stop last : Nat) :
    ∀ (pieces : List Reading) (s : TemplateState),
      (do
        let s ← pieces.foldlM (TemplateState.step source location) s
        let s ← s.upTo source stop last
        return s.nodes location) =
      (do
        let parts ← templateParts source stop s.cursor pieces
        return s.parts ++ TemplatePart.nodes location s.pending parts)
  | [], s => by
    simp only [List.foldlM_nil, pure_bind, TemplateState.upTo, templateParts, bind_assoc]
    rfl
  | piece :: rest, s => by
    have hrest := template_nodes location stop last rest
    rw [List.foldlM_cons, bind_assoc]
    by_cases hescape : piece.label.kind = "escape_sequence"
    · rw [step_escape hescape, templateParts_escape hescape]
      simp only [bind_assoc, pure_bind, hrest, TemplatePart.nodes]
    · by_cases hsubstitution : piece.label.kind = "template_substitution"
      · rw [step_substitution hsubstitution]
        simp only [templateParts, hsubstitution, bind_assoc, pure_bind, hrest, TemplatePart.nodes,
          List.append_assoc, List.singleton_append]
      · rw [step_other hescape hsubstitution, templateParts_other hescape hsubstitution, pure_bind]
        exact hrest s

/-- A sum without parts is the empty text. -/
theorem templateNode_nodes (location : Location) (s : TemplateState) :
    templateNode location (if s.pending == "" && !s.parts.isEmpty then s.parts
      else s.parts ++ [s.literal location]) = templateNode location (s.nodes location) := by
  unfold TemplateState.nodes TemplatePart.fragment
  by_cases hpending : s.pending = ""
  · rw [if_pos hpending, List.append_nil]
    cases hparts : s.parts with
    | nil =>
      rw [if_neg (by simp), List.nil_append, TemplateState.literal, hpending]
      rfl
    | cons n rest => rw [if_pos (by simp [hpending])]
  · rw [if_neg hpending, if_neg (by simp [hpending])]
    rfl

/-- A template is read part by part, and then as one sum. -/
theorem template_eq (l : Tree.Label) (pieces : List Reading) :
    template source l pieces = (do
      let parts ← templateParts source (l.stop.byte - 1) (l.start.byte + 1) pieces
      return templateNode l.location (TemplatePart.nodes l.location "" parts)) := by
  calc template source l pieces
    _ = (do
        let s ← pieces.foldlM (TemplateState.step source l.location)
          ({ cursor := l.start.byte + 1 } : TemplateState)
        let s ← s.upTo source (l.stop.byte - 1) l.stop.byte
        return templateNode l.location (s.nodes l.location)) := by
      refine bind_congr fun s => bind_congr fun s => ?_
      rw [← templateNode_nodes]
      generalize (if s.pending == "" && !s.parts.isEmpty then s.parts
        else s.parts ++ [s.literal l.location]) = nodes
      dsimp only
      split
      · rfl
      · rename_i hnodes
        rw [templateNode_of_ne _ hnodes]
    _ = (do
        let parts ← templateParts source (l.stop.byte - 1) (l.start.byte + 1) pieces
        return [] ++ TemplatePart.nodes l.location "" parts) >>= fun nodes =>
          pure (templateNode l.location nodes) := by
      rw [← template_nodes l.location (l.stop.byte - 1) l.stop.byte pieces
        { cursor := l.start.byte + 1 }]
      simp only [bind_assoc, pure_bind]
    _ = _ := by simp only [bind_assoc, pure_bind, List.nil_append]

end

end Reading

/-! ## Concatenation -/

section
variable {α : Type}

/-- The texts that some computations give, one after the other, as one. -/
def joinTexts (text : α → Effect String) (xs : List α) : Effect String := do
  return String.join (← xs.mapM text)

theorem joinTexts_nil (text : α → Effect String) : joinTexts text [] = pure "" := rfl

theorem joinTexts_cons (text : α → Effect String) (x : α) (xs : List α) :
    joinTexts text (x :: xs) = (do
      let s ← text x
      let t ← joinTexts text xs
      return s ++ t) := by
  simp only [joinTexts, List.mapM_cons, bind_assoc, pure_bind, String.join_cons]

theorem joinTexts_append (text : α → Effect String) (xs ys : List α) :
    joinTexts text (xs ++ ys) = (do
      let s ← joinTexts text xs
      let t ← joinTexts text ys
      return s ++ t) := by
  induction xs with
  | nil => simp only [List.nil_append, joinTexts_nil, pure_bind, String.empty_append, bind_pure]
  | cons x xs ih =>
    simp only [List.cons_append, joinTexts_cons, ih, bind_assoc, pure_bind, String.append_assoc]

end

section
variable (scope : ScopeId) (step : Int)

/-- A value added to a text is added as a text. -/
theorem applyBinary_text (s : String) (v : Value) (location : Location) :
    applyBinary "+" (.text s) v location = (do
      let t ← Effect.read (·.text v)
      return .text (s ++ t)) := by
  funext w
  have hop : BinaryOp.ofSymbol? "+" = some (.arithmetic .add) := by decide
  have hbinary : w.heap.binary "+" (.text s) v = orFault (do
      let t ← w.heap.text v
      return .text (s ++ t)) := Heap.binary_sum hop w.heap ⟨rfl, .inl (.inl rfl)⟩
  unfold applyBinary Effect.read
  rw [get_bind, bind_assoc, get_bind, hbinary]
  dsimp only
  cases w.heap.text v <;> rfl

theorem textOf_literal (location : Location) (s raw : String) :
    textOf scope step (.literal location (.text s) raw) = pure s := rfl

/-- Additions to an expression that gives a text. -/
theorem evaluate_additions (location : Location) :
    ∀ (nodes : List Node) (first : Node) (s : Effect String),
      evaluate scope step first = (do return .text (← s)) →
      evaluate scope step (nodes.foldl (.binary location "+") first) = (do
        let t ← s
        let u ← joinTexts (textOf scope step) nodes
        return .text (t ++ u))
  | [], first, s, hfirst => by
    simp only [List.foldl_nil, hfirst, joinTexts_nil, pure_bind, String.append_empty]
  | node :: rest, first, s, hfirst => by
    have hsum : evaluate scope step (.binary location "+" first node) = (do
        let u ← (do
          let t ← s
          let u ← textOf scope step node
          return t ++ u)
        return .text u) := by
      have hboth : ∀ v, shortCircuits "+" v = false := fun _ => rfl
      simp only [evaluate, hfirst, bind_assoc, pure_bind, hboth, Bool.false_eq_true, if_false,
        applyBinary_text, textOf]
    rw [List.foldl_cons, evaluate_additions location rest _ _ hsum]
    simp only [joinTexts_cons, bind_assoc, pure_bind, String.append_assoc]

theorem evaluate_concatenation (location : Location) (nodes : List Node) :
    evaluate scope step (Reading.concatenation location nodes) = (do
      return .text (← joinTexts (textOf scope step) nodes)) := by
  have hempty : evaluate scope step (.literal location (.text "") "") = (do
      return .text (← pure "")) := rfl
  rw [Reading.concatenation, evaluate_additions scope step location nodes _ _ hempty]
  simp only [pure_bind, String.empty_append]

end

namespace TemplatePart

section
variable (scope : ScopeId) (step : Int)

theorem joinTexts_fragment (location : Location) (s : String) :
    joinTexts (textOf scope step) (fragment location s) = pure s := by
  unfold fragment
  split
  · rename_i hs
    rw [hs]
    rfl
  · rw [joinTexts_cons, textOf_literal, joinTexts_nil]
    simp only [pure_bind, String.append_empty]

/-- The sum gives the text of the parts. -/
theorem joinTexts_nodes (location : Location) :
    ∀ (pending : String) (parts : List TemplatePart),
      joinTexts (textOf scope step) (nodes location pending parts) = (do
        return pending ++ (← joinTexts (text scope step) parts))
  | pending, [] => by
    simp only [nodes, joinTexts_fragment, joinTexts_nil, pure_bind, String.append_empty]
  | pending, .chunk s :: rest => by
    simp only [nodes, joinTexts_nodes location _ rest, joinTexts_cons, text, pure_bind, bind_assoc,
      String.append_assoc]
  | pending, .substitution expression :: rest => by
    simp only [nodes, joinTexts_append, joinTexts_fragment, joinTexts_cons,
      joinTexts_nodes location _ rest, text, pure_bind, bind_assoc, String.empty_append]

end

/-! ## A literal alone -/

theorem nodes_filter (location : Location) :
    ∀ (pending : String) (parts : List TemplatePart),
      nodes location pending (parts.filter isPresent) = nodes location pending parts
  | _, [] => rfl
  | pending, .chunk s :: rest => by
    by_cases hs : s = ""
    · rw [List.filter_cons_of_neg (by simp [isPresent, hs]), nodes_filter location pending rest,
        nodes, hs, String.append_empty]
    · rw [List.filter_cons_of_pos (by simp [isPresent, hs]), nodes, nodes,
        nodes_filter location _ rest]
  | pending, .substitution expression :: rest => by
    rw [List.filter_cons_of_pos rfl, nodes, nodes, nodes_filter location _ rest]

theorem fragment_eq_nil {location : Location} {s : String} (h : fragment location s = []) :
    s = "" := by
  unfold fragment at h
  split at h
  · assumption
  · cases h

/-- A sum without parts is of empty texts. -/
theorem filter_of_nodes_nil {location : Location} :
    ∀ {pending : String} {parts : List TemplatePart}, nodes location pending parts = [] →
      pending = "" ∧ parts.filter isPresent = []
  | pending, [], h => ⟨fragment_eq_nil h, rfl⟩
  | pending, .chunk s :: rest, h => by
    rw [nodes] at h
    obtain ⟨hpending, hrest⟩ := filter_of_nodes_nil h
    obtain ⟨rfl, rfl⟩ := String.append_eq_empty_iff.1 hpending
    exact ⟨rfl, hrest⟩
  | pending, .substitution expression :: rest, h => by
    simp [nodes] at h

/-- A sum of one literal that is no text is of the substitution of that literal. -/
theorem filter_of_nodes_literal {location place : Location} {v : Value} {raw : String}
    (hv : v.kind ≠ .text) :
    ∀ {pending : String} {parts : List TemplatePart},
      nodes location pending parts = [.literal place v raw] →
      pending = "" ∧ parts.filter isPresent = [.substitution (.literal place v raw)]
  | pending, [], h => by
    unfold nodes fragment at h
    split at h
    · cases h
    · cases h
      exact absurd rfl hv
  | pending, .chunk s :: rest, h => by
    rw [nodes] at h
    obtain ⟨hpending, hrest⟩ := filter_of_nodes_literal hv h
    obtain ⟨rfl, rfl⟩ := String.append_eq_empty_iff.1 hpending
    exact ⟨rfl, hrest⟩
  | pending, .substitution expression :: rest, h => by
    rw [nodes] at h
    by_cases hpending : pending = ""
    · subst hpending
      rw [fragment, if_pos rfl, List.nil_append, List.cons_eq_cons] at h
      obtain ⟨rfl, hrest⟩ := h
      obtain ⟨-, hrest⟩ := filter_of_nodes_nil hrest
      exact ⟨rfl, by rw [List.filter_cons_of_pos rfl, hrest]⟩
    · rw [fragment, if_neg hpending] at h
      cases h

end TemplatePart

/-! ## Templates -/

/-- A template evaluates to the concatenation of its texts and of what its substitutions give as
texts, which are evaluated from left to right; what stops one of them stops all.  The exception is a
template that is the substitution of a literal and nothing else: it is that literal. -/
theorem template_evaluates (source : ByteArray) (l : Tree.Label)
    (hkind : l.kind = "template_string") (pieces : List Tree) :
    let read := ((Tree.node l pieces).reading source).expression
    let parts? := Reading.templateParts source (l.stop.byte - 1) (l.start.byte + 1)
      (Tree.readings source pieces)
    (∀ f, parts? = .error f → read = .error f) ∧
    ∀ parts, parts? = .ok parts → ∃ node, read = .ok node ∧
      (¬ TemplatePart.IsLoneLiteral parts → ∀ scope step, evaluate scope step node = (do
        return .text (← joinTexts (TemplatePart.text scope step) parts))) ∧
      ∀ location v raw,
        parts.filter TemplatePart.isPresent = [.substitution (.literal location v raw)] →
        node = .literal location v raw := by
  intro read parts?
  have hread : read = (do
      let parts ← parts?
      return Reading.templateNode l.location (TemplatePart.nodes l.location "" parts)) := by
    have hrule : read = Reading.template source l (Tree.readings source pieces) := by
      show ((Tree.node l pieces).reading source).expression = _
      rw [Tree.expression_reading, Tree.children_reading, Tree.label, Reading.asExpression, hkind]
      rfl
    rw [hrule, Reading.template_eq]
  refine ⟨fun f hf => by rw [hread, hf]; rfl, fun parts hparts => ⟨_, by rw [hread, hparts]; rfl,
    fun hlone scope step => ?_, fun location v raw hfilter => ?_⟩⟩
  · have hnodes := TemplatePart.joinTexts_nodes scope step l.location "" parts
    simp only [String.empty_append, bind_pure] at hnodes
    rw [← hnodes]
    unfold Reading.templateNode
    split
    · rename_i place v raw hliteral
      have hv : v.kind = .text := by
        by_contra hv
        exact hlone ⟨place, v, raw, hv, (TemplatePart.filter_of_nodes_literal hv hliteral).2⟩
      cases v <;> cases hv
      rw [hliteral, joinTexts_cons, textOf_literal, joinTexts_nil]
      simp only [pure_bind, String.append_empty]
      rfl
    · exact evaluate_concatenation scope step l.location _
  · rw [← TemplatePart.nodes_filter, hfilter]
    rfl

/-- The source of `` `a${n}${true}` ``. -/
def wordySource : ByteArray :=
  "\x60a$\x7bn\x7d$\x7btrue\x7d\x60".toUTF8

def wordyTemplate : List Tree := [
  .node (.spanning "\x60" 0 1 false) [],
  .node (.spanning "string_fragment" 1 2 true) [],
  .node (.spanning "template_substitution" 2 6 true) [
    .node (.spanning "$\x7b" 2 4 false) [],
    .node (.spanning "identifier" 4 5 true) [],
    .node (.spanning "\x7d" 5 6 false) []],
  .node (.spanning "template_substitution" 6 13 true) [
    .node (.spanning "$\x7b" 6 8 false) [],
    .node (.spanning "true" 8 12 true) [],
    .node (.spanning "\x7d" 12 13 false) []],
  .node (.spanning "\x60" 13 14 false) []]

theorem template_evaluates_wordy :
    ∃ node, ((Tree.node (.spanning "template_string" 0 14 true) wordyTemplate).reading
        wordySource).expression = .ok node ∧
      ∀ scope step, evaluate scope step node = (do
        return .text (← joinTexts (TemplatePart.text scope step) [
          .chunk "a", .substitution (.identifier ⟨1, 4, 1, 5⟩ "n"), .chunk "",
          .substitution (.literal ⟨1, 8, 1, 12⟩ (.boolean true) "true"), .chunk ""])) := by
  obtain ⟨-, h⟩ := template_evaluates wordySource (.spanning "template_string" 0 14 true) rfl
    wordyTemplate
  obtain ⟨node, hread, hevaluate, -⟩ := h _ rfl
  refine ⟨node, hread, hevaluate ?_⟩
  rintro ⟨_, _, _, -, hfilter⟩
  cases hfilter

/-- The source of `` `${true}` ``. -/
def loneSource : ByteArray :=
  "\x60$\x7btrue\x7d\x60".toUTF8

def loneTemplate : List Tree := [
  .node (.spanning "\x60" 0 1 false) [],
  .node (.spanning "template_substitution" 1 8 true) [
    .node (.spanning "$\x7b" 1 3 false) [],
    .node (.spanning "true" 3 7 true) [],
    .node (.spanning "\x7d" 7 8 false) []],
  .node (.spanning "\x60" 8 9 false) []]

/-- The template that substitutes `true` is a truth value, not the text. -/
theorem template_truth :
    ∃ node parts,
      ((Tree.node (.spanning "template_string" 0 9 true) loneTemplate).reading
        loneSource).expression = .ok node ∧
      Reading.templateParts loneSource 8 1 (Tree.readings loneSource loneTemplate) = .ok parts ∧
      (∀ scope step w, joinTexts (TemplatePart.text scope step) parts w = .ok "true" w) ∧
      ∀ scope step w, evaluate scope step node w = .ok (.boolean true) w :=
  ⟨_, _, rfl, rfl, fun _ _ _ => rfl, fun _ _ _ => rfl⟩

end Chronicle
