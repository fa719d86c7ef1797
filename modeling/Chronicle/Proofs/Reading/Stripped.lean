import Chronicle.Proofs.Tree.Comments
import Chronicle.Source

/-!
# Reading without comments

`Tree.strip` takes the comments out of a tree, at any depth, and `Reading.strip` out of a reading.
The rules of reading pass over comments that are named, play no role and do not stand first where a
rule looks at the first piece (`Tree.CommentsApart`): each rule gives the same on the pieces with and
without comments (`asExpression_strip`, `asStatement_strip`), so the reading of the stripped tree is
the stripped reading (`reading_strip`).

`program_strip`: the program of a tree is that of the tree without comments, together with the
comments of the tree.
-/

set_option autoImplicit false

namespace Chronicle

/-! ## Taking comments out -/

namespace Tree

mutual

/-- A tree without the comments below its root. -/
def strip : Tree → Tree
  | node l cs => node l (stripAll cs)

/-- Trees without the comments among and below them. -/
def stripAll : List Tree → List Tree
  | [] => []
  | t :: ts => if t.label.isComment then stripAll ts else t.strip :: stripAll ts

end

@[simp] theorem label_strip : ∀ t : Tree, t.strip.label = t.label
  | node _ _ => by rw [strip, label, label]

/-- The comments right below a node are named, play no role, and do not stand first where the first
piece is an operator or the kind of a declaration. -/
structure PiecesApart (t : Tree) : Prop where
  isNamed : ∀ c ∈ t.children, c.label.isComment → c.label.isNamed
  field : ∀ c ∈ t.children, c.label.isComment → c.label.field = none
  first : t.label.kind ∈ ["unary_expression", "lexical_declaration", "variable_declaration"] →
    ∀ c ∈ t.children.head?, c.label.isComment = false

instance (t : Tree) : Decidable t.PiecesApart :=
  decidable_of_iff
    ((∀ c ∈ t.children, c.label.isComment → c.label.isNamed) ∧
      (∀ c ∈ t.children, c.label.isComment → c.label.field = none) ∧
      (t.label.kind ∈ ["unary_expression", "lexical_declaration", "variable_declaration"] →
        ∀ c ∈ t.children.head?, c.label.isComment = false))
    ⟨fun ⟨hn, hf, hfirst⟩ => ⟨hn, hf, hfirst⟩, fun ⟨hn, hf, hfirst⟩ => ⟨hn, hf, hfirst⟩⟩

/-- All comments of a tree stand apart from what the rules of reading look for. -/
def CommentsApart (t : Tree) : Prop :=
  ∀ n ∈ t.preorder, n.PiecesApart

instance (t : Tree) : Decidable t.CommentsApart :=
  inferInstanceAs (Decidable (∀ n ∈ t.preorder, n.PiecesApart))

section
variable {l : Label} {cs : List Tree}

theorem CommentsApart.here (h : (node l cs).CommentsApart) : (node l cs).PiecesApart := by
  refine h _ ?_
  rw [preorder]
  exact List.mem_cons_self

theorem CommentsApart.child (h : (node l cs).CommentsApart) : ∀ c ∈ cs, c.CommentsApart := by
  intro c hc n hn
  refine h n ?_
  rw [preorder]
  exact List.mem_cons_of_mem _ (mem_preorderAll hn hc)

end

end Tree

namespace Reading

mutual

/-- A reading without the comments among its pieces. -/
def strip : Reading → Reading
  | mk l e s cs => mk l e s (stripAll cs)

/-- Pieces without the comments among and below them. -/
def stripAll : List Reading → List Reading
  | [] => []
  | r :: rest => if r.label.isComment then stripAll rest else r.strip :: stripAll rest

end

section
variable (r : Reading)

@[simp] theorem label_strip : r.strip.label = r.label := by
  cases r
  rw [strip, label, label]

@[simp] theorem expression_strip : r.strip.expression = r.expression := by
  cases r
  rw [strip, expression, expression]

@[simp] theorem statement_strip : r.strip.statement = r.statement := by
  cases r
  rw [strip, statement, statement]

@[simp] theorem children_strip : r.strip.children = stripAll r.children := by
  cases r
  rw [strip, children, children]

end

/-- The comments among pieces, and among the pieces below them, are named and play no role. -/
inductive Apart : List Reading → Prop
  | mk {pieces : List Reading} (isNamed : ∀ r ∈ pieces, r.label.isComment → r.label.isNamed)
    (field : ∀ r ∈ pieces, r.label.isComment → r.label.field = none)
    (deeper : ∀ r ∈ pieces, Apart r.children) : Apart pieces

namespace Apart

variable {pieces : List Reading} (h : Apart pieces)
include h

theorem isNamed : ∀ r ∈ pieces, r.label.isComment → r.label.isNamed := by
  cases h with
  | mk hn _ _ => exact hn

theorem field : ∀ r ∈ pieces, r.label.isComment → r.label.field = none := by
  cases h with
  | mk _ hf _ => exact hf

theorem deeper : ∀ r ∈ pieces, Apart r.children := by
  cases h with
  | mk _ _ hb => exact hb

end Apart

theorem kind_of_isComment {l : Tree.Label} (h : l.isComment) : l.kind = "comment" := by
  simpa [Tree.Label.isComment] using h

/-! ## Choosing pieces -/

section
variable {pieces : List Reading} {p : Tree.Label → Bool}

/-- Pieces that are chosen by their label, when no comment is. -/
theorem filter_stripAll (hp : ∀ r ∈ pieces, r.label.isComment → p r.label = false) :
    (stripAll pieces).filter (fun r => p r.label) =
      (pieces.filter fun r => p r.label).map strip := by
  induction pieces with
  | nil => rfl
  | cons r rest ih =>
    have hrest := ih fun x hx => hp x (List.mem_cons_of_mem r hx)
    rw [stripAll]
    cases hc : r.label.isComment with
    | true => simp [hp r List.mem_cons_self hc, hrest]
    | false => cases hpr : p r.label <;> simp [hpr, hrest]

/-- The first piece that is chosen by its label, when no comment is. -/
theorem find?_stripAll (hp : ∀ r ∈ pieces, r.label.isComment → p r.label = false) :
    (stripAll pieces).find? (fun r => p r.label) =
      (pieces.find? fun r => p r.label).map strip := by
  rw [← List.head?_filter, ← List.head?_filter, filter_stripAll hp, List.head?_map]

/-- A rule for each of some pieces that does not see their comments. -/
theorem mapM_map_strip {α : Type} {f : Reading → Except Fault α} :
    ∀ {rs : List Reading}, (∀ r ∈ rs, f r.strip = f r) → (rs.map strip).mapM f = rs.mapM f
  | [], _ => rfl
  | r :: rs, hf => by
    have hrest : (rs.map strip).mapM f = rs.mapM f :=
      mapM_map_strip fun x hx => hf x (List.mem_cons_of_mem r hx)
    rw [List.map_cons, List.mapM_cons, List.mapM_cons, hf r List.mem_cons_self, hrest]

@[simp] theorem constructs_strip (pieces : List Reading) :
    constructs (stripAll pieces) = (constructs pieces).map strip :=
  filter_stripAll fun r _ hc => by simp [Tree.Label.isConstruct, hc]

theorem firstConstruct_strip (pieces : List Reading) :
    firstConstruct (stripAll pieces) = strip <$> firstConstruct pieces := by
  unfold firstConstruct
  rw [constructs_strip]
  cases constructs pieces <;> rfl

theorem statements_strip (pieces : List Reading) :
    statements (stripAll pieces) = statements pieces := by
  unfold statements
  rw [constructs_strip, List.filter_map, mapM_map_strip fun r _ => statement_strip r]
  simp only [Function.comp_def, label_strip]

section
variable (hp : Apart pieces)
include hp

theorem byField?_strip (field : String) :
    byField? field (stripAll pieces) = (byField? field pieces).map strip :=
  find?_stripAll (p := fun l => l.field == some field) fun r hr hc => by
    simp [hp.field r hr hc]

theorem deeper_constructs : ∀ r ∈ constructs pieces, Apart r.children :=
  fun r hr => hp.deeper r (List.mem_filter.1 hr).1

theorem byField_strip (field : String) :
    byField field (stripAll pieces) = strip <$> byField field pieces := by
  unfold byField
  rw [byField?_strip hp]
  cases byField? field pieces <;> rfl

theorem below_byField? {field : String} {r : Reading} (hr : byField? field pieces = some r) :
    Apart r.children :=
  hp.deeper r (List.mem_of_find?_eq_some hr)

end

end

/-! ## Functions -/

section
variable {source : ByteArray} {l : Tree.Label} {pieces : List Reading}

theorem parameter_strip {r : Reading} (hr : Apart r.children) :
    parameter source r.strip = parameter source r := by
  simp only [parameter, label_strip, children_strip, byField_strip hr, bind_map_left]

theorem parameters_strip {r : Option Reading} (hr : ∀ x, r = some x → Apart x.children) :
    parameters source (r.map strip) = parameters source r := by
  cases r with
  | none => rfl
  | some r =>
    simp only [parameters, Option.map_some, label_strip, children_strip, constructs_strip]
    rw [mapM_map_strip fun x hx => parameter_strip (deeper_constructs (hr r rfl) x hx)]

section
variable (hp : Apart pieces)
include hp

theorem functionName_strip :
    functionName source (stripAll pieces) = functionName source pieces := by
  unfold functionName
  rw [byField?_strip hp]
  cases byField? "name" pieces with
  | none => rfl
  | some r => simp only [Option.map_some, label_strip]

theorem functionParts_strip :
    functionParts source (stripAll pieces) = functionParts source pieces := by
  simp only [functionParts, functionName_strip hp, byField?_strip hp,
    parameters_strip fun _ => below_byField? hp, byField_strip hp, bind_map_left, label_strip,
    children_strip, statements_strip]

theorem functionDeclaration_strip :
    functionDeclaration source l (stripAll pieces) = functionDeclaration source l pieces := by
  simp only [functionDeclaration, functionParts_strip hp]

theorem functionExpression_strip :
    functionExpression source l (stripAll pieces) = functionExpression source l pieces := by
  simp only [functionExpression, functionParts_strip hp]

theorem arrowFunction_strip :
    arrowFunction source l (stripAll pieces) = arrowFunction source l pieces := by
  have hparams : parameters source ((byField? "parameter" (stripAll pieces)).or
      (byField? "parameters" (stripAll pieces))) =
      parameters source ((byField? "parameter" pieces).or (byField? "parameters" pieces)) := by
    rw [byField?_strip hp, byField?_strip hp, ← Option.map_or, parameters_strip]
    intro r hr
    rcases Option.or_eq_some_iff.1 hr with hr | ⟨-, hr⟩
    · exact below_byField? hp hr
    · exact below_byField? hp hr
  simp only [arrowFunction, hparams, byField_strip hp, bind_map_left, label_strip, children_strip,
    statements_strip, expression_strip]

end

/-! ## Members of objects -/

theorem propertyKey_strip (r : Reading) : propertyKey source r.strip = propertyKey source r := by
  simp only [propertyKey, label_strip, children_strip, firstConstruct_strip, bind_map_left,
    expression_strip]

theorem property_strip {r : Reading} (hr : Apart r.children) :
    property source r.strip = property source r := by
  simp only [property, label_strip, children_strip, byField_strip hr, bind_map_left,
    propertyKey_strip, expression_strip]

/-! ## Templates -/

theorem templateStep_strip (s : TemplateState) (location : Location) (r : Reading) :
    s.step source location r.strip = s.step source location r := by
  simp only [TemplateState.step, label_strip, children_strip, firstConstruct_strip, bind_map_left,
    expression_strip]

/-- A comment in a template is part of its text. -/
theorem templateStep_comment (s : TemplateState) (location : Location) {r : Reading}
    (hr : r.label.isComment) : s.step source location r = pure s := by
  unfold TemplateState.step
  dsimp only
  rw [kind_of_isComment hr]
  rfl

theorem foldlM_strip (location : Location) :
    ∀ (pieces : List Reading) (s : TemplateState),
      (stripAll pieces).foldlM (TemplateState.step source location) s =
        pieces.foldlM (TemplateState.step source location) s
  | [], _ => rfl
  | r :: rest, s => by
    rw [stripAll, List.foldlM_cons]
    split
    · rename_i hc
      rw [templateStep_comment s location hc, pure_bind, foldlM_strip location rest s]
    · rw [List.foldlM_cons, templateStep_strip]
      exact bind_congr fun s => foldlM_strip location rest s

theorem template_strip : template source l (stripAll pieces) = template source l pieces := by
  simp only [template, foldlM_strip]

/-! ## Expressions -/

theorem parenthesized_strip :
    parenthesized source l (stripAll pieces) = parenthesized source l pieces := by
  unfold parenthesized
  rw [constructs_strip]
  rcases constructs pieces with _ | ⟨r, _ | ⟨_, _⟩⟩
  · rfl
  · exact expression_strip r
  · rfl

theorem elements_strip : ∀ (pieces : List Reading) (current : Option Node),
    elements current (stripAll pieces) = elements current pieces
  | [], _ => rfl
  | r :: rest, current => by
    have hrest := elements_strip rest
    rw [stripAll]
    split
    · rename_i hc
      have hconstruct : r.label.isConstruct = false := by simp [Tree.Label.isConstruct, hc]
      rw [hrest, elements, kind_of_isComment hc, hconstruct]
      rfl
    · simp only [elements, label_strip, expression_strip, hrest]

theorem array_strip : array l (stripAll pieces) = array l pieces := by
  simp only [array, elements_strip]

theorem arguments_strip (r : Option Reading) : arguments (r.map strip) = arguments r := by
  cases r with
  | none => rfl
  | some r =>
    simp only [arguments, Option.map_some, children_strip, constructs_strip]
    exact mapM_map_strip fun x _ => expression_strip x

section
variable (hp : Apart pieces)
include hp

theorem object_strip : object source l (stripAll pieces) = object source l pieces := by
  unfold object
  rw [constructs_strip, mapM_map_strip fun r hr => property_strip (deeper_constructs hp r hr)]

theorem operatorText_strip : operatorText source (stripAll pieces) = operatorText source pieces := by
  have htokens : (stripAll pieces).filter (fun r => !r.label.isNamed) =
      (pieces.filter fun r => !r.label.isNamed).map strip :=
    filter_stripAll (p := fun l => !l.isNamed) fun r hr hc => by simp [hp.isNamed r hr hc]
  unfold operatorText
  rw [byField?_strip hp, htokens]
  cases byField? "operator" pieces with
  | some r => simp only [Option.map_some, label_strip]
  | none =>
    simp only [Option.map_none]
    cases pieces.filter fun r => !r.label.isNamed with
    | nil => rfl
    | cons token tokens =>
      rw [List.map_cons]
      simp only [byField_strip hp, bind_map_left, label_strip]
      refine bind_congr fun left => ?_
      rw [← List.map_cons, List.find?_map]
      simp only [Function.comp_def, label_strip]
      cases (token :: tokens).find? fun r => decide (left.label.stop.byte ≤ r.label.start.byte) with
      | none => rfl
      | some r => simp only [Option.map_some, label_strip]

theorem binary_strip : binary source l (stripAll pieces) = binary source l pieces := by
  simp only [binary, operatorText_strip hp, byField_strip hp, bind_map_left, expression_strip]

theorem unary_strip (hfirst : ∀ r, pieces.head? = some r → r.label.isComment = false) :
    unary source l (stripAll pieces) = unary source l pieces := by
  cases pieces with
  | nil => rfl
  | cons r rest =>
    have hpieces : stripAll (r :: rest) = r.strip :: stripAll rest := by
      rw [stripAll, hfirst r rfl]
      rfl
    have hargument := byField_strip hp "argument"
    rw [hpieces] at hargument ⊢
    simp only [unary, label_strip, hargument, bind_map_left, expression_strip]

theorem update_strip : update source l (stripAll pieces) = update source l pieces := by
  have hmark : (stripAll pieces).find? (fun r => r.label.kind == "++" || r.label.kind == "--") =
      (pieces.find? fun r => r.label.kind == "++" || r.label.kind == "--").map strip :=
    find?_stripAll (p := fun l => l.kind == "++" || l.kind == "--") fun r _ hc => by
      rw [kind_of_isComment hc]
      rfl
  unfold update
  rw [hmark]
  cases pieces.find? fun r => r.label.kind == "++" || r.label.kind == "--" with
  | none => rfl
  | some mark =>
    simp only [Option.map_some, label_strip, byField_strip hp, bind_map_left, expression_strip]

theorem assignment_strip (operator : String) :
    assignment l operator (stripAll pieces) = assignment l operator pieces := by
  simp only [assignment, byField_strip hp, bind_map_left, expression_strip]

theorem member_strip : member source l (stripAll pieces) = member source l pieces := by
  simp only [member, byField_strip hp, bind_map_left, expression_strip, label_strip]

theorem subscript_strip : subscript l (stripAll pieces) = subscript l pieces := by
  simp only [subscript, byField_strip hp, bind_map_left, expression_strip]

theorem call_strip : call source l (stripAll pieces) = call source l pieces := by
  have hany : ((byField? "arguments" pieces).map strip).any (·.label.kind != "arguments") =
      (byField? "arguments" pieces).any (·.label.kind != "arguments") := by
    cases byField? "arguments" pieces with
    | none => rfl
    | some r => simp only [Option.map_some, Option.any_some, label_strip]
  simp only [call, byField?_strip hp, hany, byField_strip hp, bind_map_left, expression_strip,
    arguments_strip]

theorem construction_strip : construction l (stripAll pieces) = construction l pieces := by
  simp only [construction, byField?_strip hp, byField_strip hp, bind_map_left, expression_strip,
    arguments_strip]

/-- What a construct is as an expression does not depend on comments among its pieces. -/
theorem asExpression_strip
    (hfirst : l.kind = "unary_expression" →
      ∀ r, pieces.head? = some r → r.label.isComment = false) :
    asExpression source l (stripAll pieces) = asExpression source l pieces := by
  unfold asExpression
  split
  · rfl
  · rfl
  · rfl
  · rfl
  · exact template_strip
  · rfl
  · rfl
  · rfl
  · rfl
  · exact parenthesized_strip
  · exact array_strip
  · exact object_strip hp
  · exact binary_strip hp
  · rename_i hkind
    exact unary_strip hp (hfirst hkind)
  · exact update_strip hp
  · exact assignment_strip hp "="
  · rw [operatorText_strip hp]
    exact bind_congr fun operator => assignment_strip hp operator
  · exact member_strip hp
  · exact subscript_strip hp
  · exact call_strip hp
  · exact construction_strip hp
  · exact functionExpression_strip hp
  · exact functionExpression_strip hp
  · exact arrowFunction_strip hp
  · rfl

end

/-! ## Statements -/

theorem expressionStatement_strip :
    expressionStatement source l (stripAll pieces) = expressionStatement source l pieces := by
  unfold expressionStatement
  rw [constructs_strip]
  rcases constructs pieces with _ | ⟨r, _ | ⟨_, _⟩⟩
  · rfl
  · simp only [List.map_cons, List.map_nil, expression_strip]
  · rfl

theorem declarator_strip {r : Reading} (hr : Apart r.children) :
    declarator source r.strip = declarator source r := by
  simp only [declarator, label_strip, children_strip, byField_strip hr, bind_map_left,
    byField?_strip hr]
  cases byField? "value" r.children with
  | none => rfl
  | some value => simp only [Option.map_some, expression_strip]

theorem alternative_strip (r : Reading) : alternative r.strip = alternative r := by
  simp only [alternative, label_strip, children_strip, firstConstruct_strip, bind_map_left,
    statement_strip]

theorem clause_strip (r : Option Reading) : clause (r.map strip) = clause r := by
  cases r with
  | none => rfl
  | some r =>
    have hinner : ((constructs r.children).map strip).head?.mapM expression =
        (constructs r.children).head?.mapM expression := by
      cases constructs r.children with
      | nil => rfl
      | cons c cs => simp only [List.map_cons, List.head?_cons, Option.mapM_some, expression_strip]
    simp only [clause, Option.map_some, label_strip, children_strip, constructs_strip, hinner,
      statement_strip, expression_strip]

/-- What a piece that may be missing gives, when the rule for it does not see comments. -/
theorem option_mapM_strip {α : Type} {f : Reading → Except Fault α} (hf : ∀ r, f r.strip = f r)
    (r : Option Reading) : (r.map strip).mapM f = r.mapM f := by
  cases r with
  | none => rfl
  | some r => simp only [Option.map_some, Option.mapM_some, hf]

section
variable (hp : Apart pieces)
include hp

theorem declaration_strip (hfirst : ∀ r, pieces.head? = some r → r.label.isComment = false) :
    declaration source l (stripAll pieces) = declaration source l pieces := by
  have hdeclarators : (stripAll pieces).filter (·.label.kind == "variable_declarator") =
      (pieces.filter (·.label.kind == "variable_declarator")).map strip :=
    filter_stripAll (p := fun l => l.kind == "variable_declarator") fun r _ hc => by
      rw [kind_of_isComment hc]
      rfl
  unfold declaration
  rw [hdeclarators,
    mapM_map_strip fun r hr => declarator_strip (hp.deeper r (List.mem_filter.1 hr).1)]
  cases pieces with
  | nil => rfl
  | cons r rest =>
    rw [stripAll, hfirst r rfl]
    simp only [Bool.false_eq_true, if_false, label_strip]

theorem conditional_strip : conditional l (stripAll pieces) = conditional l pieces := by
  simp only [conditional, byField?_strip hp, option_mapM_strip alternative_strip, byField_strip hp,
    bind_map_left, expression_strip, statement_strip]

theorem whileLoop_strip : whileLoop l (stripAll pieces) = whileLoop l pieces := by
  simp only [whileLoop, byField_strip hp, bind_map_left, expression_strip, statement_strip]

theorem forLoop_strip : forLoop l (stripAll pieces) = forLoop l pieces := by
  simp only [forLoop, byField?_strip hp, clause_strip, ← Option.map_or,
    option_mapM_strip expression_strip, byField_strip hp, bind_map_left, statement_strip]

/-- What a construct is as a statement does not depend on comments among its pieces. -/
theorem asStatement_strip
    (hfirst : l.kind = "lexical_declaration" ∨ l.kind = "variable_declaration" →
      ∀ r, pieces.head? = some r → r.label.isComment = false) :
    asStatement source l (stripAll pieces) = asStatement source l pieces := by
  unfold asStatement
  split
  · exact expressionStatement_strip
  · rename_i hkind
    exact declaration_strip hp (hfirst (.inl hkind))
  · rename_i hkind
    exact declaration_strip hp (hfirst (.inr hkind))
  · exact conditional_strip hp
  · exact whileLoop_strip hp
  · exact forLoop_strip hp
  · rw [constructs_strip, List.head?_map, option_mapM_strip expression_strip]
  · rw [byField?_strip hp, option_mapM_strip fun r => by rw [label_strip]]
  · rw [statements_strip]
  · exact functionDeclaration_strip hp
  · rfl

end

end

end Reading

/-! ## Trees -/

namespace Tree

variable (source : ByteArray)

theorem readings_eq_map : ∀ ts : List Tree, readings source ts = ts.map (reading source)
  | [] => rfl
  | t :: ts => by rw [readings, readings_eq_map ts, List.map_cons]

@[simp] theorem label_reading : ∀ t : Tree, (t.reading source).label = t.label
  | node _ _ => by rw [reading, Reading.label, label]

theorem children_reading (l : Label) (cs : List Tree) :
    ((node l cs).reading source).children = readings source cs := by
  rw [reading, Reading.children]

mutual

/-- Where comments stand apart in a tree, they do in its reading. -/
theorem apart_reading : ∀ t : Tree, t.CommentsApart → Reading.Apart (t.reading source).children
  | node l cs, h => by
    obtain ⟨hnamed, hfield, -⟩ := h.here
    have hdeeper := apart_readings cs h.child
    rw [children_reading]
    rw [readings_eq_map] at hdeeper ⊢
    refine .mk ?_ ?_ hdeeper
    · simpa only [List.forall_mem_map, label_reading, children] using hnamed
    · simpa only [List.forall_mem_map, label_reading, children] using hfield

theorem apart_readings : ∀ ts : List Tree, (∀ t ∈ ts, t.CommentsApart) →
    ∀ r ∈ readings source ts, Reading.Apart r.children
  | t :: ts, h, r, hr => by
    rw [readings] at hr
    rcases List.mem_cons.1 hr with rfl | hr
    · exact apart_reading t (h t List.mem_cons_self)
    · exact apart_readings ts (fun u hu => h u (List.mem_cons_of_mem t hu)) r hr

end

/-- The first piece of a reading is that of the tree. -/
theorem head?_readings {cs : List Tree} (h : ∀ c, cs.head? = some c → c.label.isComment = false) :
    ∀ r, (readings source cs).head? = some r → r.label.isComment = false := by
  intro r hr
  rw [readings_eq_map, List.head?_map] at hr
  obtain ⟨c, hc, rfl⟩ := Option.map_eq_some_iff.1 hr
  rw [label_reading]
  exact h c hc

mutual

/-- The reading of a tree without comments is the reading of the tree, without comments. -/
theorem reading_strip : ∀ t : Tree, t.CommentsApart →
    t.strip.reading source = (t.reading source).strip
  | node l cs, h => by
    have hapart : Reading.Apart (readings source cs) :=
      children_reading source l cs ▸ apart_reading source _ h
    obtain ⟨-, -, hfirst⟩ := h.here
    have hexpression : Reading.asExpression source l (Reading.stripAll (readings source cs)) =
        Reading.asExpression source l (readings source cs) :=
      Reading.asExpression_strip hapart fun hkind =>
        head?_readings source (hfirst (by simp [label, hkind]))
    have hstatement : Reading.asStatement source l (Reading.stripAll (readings source cs)) =
        Reading.asStatement source l (readings source cs) :=
      Reading.asStatement_strip hapart fun hkind =>
        head?_readings source (hfirst (by rcases hkind with hkind | hkind <;> simp [label, hkind]))
    rw [strip, reading, reading, Reading.strip, readings_strip cs h.child, hexpression, hstatement]

theorem readings_strip : ∀ ts : List Tree, (∀ t ∈ ts, t.CommentsApart) →
    readings source (stripAll ts) = Reading.stripAll (readings source ts)
  | [], _ => rfl
  | t :: ts, h => by
    have hrest := readings_strip ts fun u hu => h u (List.mem_cons_of_mem t hu)
    rw [stripAll, readings, Reading.stripAll, label_reading]
    split
    · exact hrest
    · rw [readings, reading_strip t (h t List.mem_cons_self), hrest]

end

/-! ## Comments -/

variable {source}

mutual

/-- A search for comments finds none in a tree without them. -/
theorem commentsFrom_strip : ∀ (t : Tree) (rest : List Tree), t.label.isComment = false →
    commentsFrom source (t.strip :: rest) = commentsFrom source rest
  | node l cs, rest, h => by
    have hl : l.isComment = false := h
    rw [strip, commentsFrom, hl, if_neg Bool.false_ne_true, commentsFrom_stripAll]

theorem commentsFrom_stripAll : ∀ ts rest : List Tree,
    commentsFrom source (stripAll ts ++ rest) = commentsFrom source rest
  | [], _ => by rw [stripAll, List.nil_append]
  | t :: ts, rest => by
    rw [stripAll]
    split
    · exact commentsFrom_stripAll ts rest
    · rename_i hc
      rw [List.cons_append, commentsFrom_strip t _ (by simpa using hc), commentsFrom_stripAll]

end

/-- The statements of a tree are those of the tree without comments. -/
theorem statements_strip {t : Tree} (h : t.CommentsApart) :
    Reading.statements (t.strip.reading source).children =
      Reading.statements (t.reading source).children := by
  rw [reading_strip source t h, Reading.children_strip, Reading.statements_strip]

end Tree

end Chronicle
