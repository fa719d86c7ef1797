import Chronicle.Proofs.Node.Everywhere
import Chronicle.Proofs.Value.Faults
import Chronicle.Proofs.Value.NormalResults
import Chronicle.Reading.Program

/-!
# Nodes as they are read

In a program that was read from a source, a literal is plain data, with its number in normal form,
and what stands after a point is a name (`Node.AsRead`).  A run asks for less of the nodes that it
goes by (`Node.Regular`).

A condition on nodes is lenient (`Node.Lenient`) if it asks no more than this of literals and names,
and nothing of other nodes but those that may introduce a function.  Each rule of reading yields nodes
with a lenient condition when its pieces do (`asExpression_yields`, `asStatement_yields`).  So a whole
tree does, when the condition holds of what its subtrees are read as by the rules for declarations of
functions, declarators and assignments (`Tree.ReadAs`, `reading_sound`, `program_everywhere`).
-/

set_option autoImplicit false

namespace Chronicle

/-- Whether a value is neither a sequence nor a record. -/
def Value.isData : Value → Bool
  | .sequence _ | .record _ => false
  | _ => true

/-- A literal is plain data, and a name stands after a point. -/
def Node.Regular : Node → Prop
  | .literal _ value _ => value.isData = true
  | .member _ _ part false => part.name?.isSome = true
  | _ => True

/-- A literal is normal without any heap, and a name stands after a point. -/
def Node.AsRead : Node → Prop
  | .literal _ value _ => Heap.empty.Normal value
  | .member _ _ part false => part.name?.isSome = true
  | _ => True

/-- What is normal without any heap is plain data. -/
theorem Node.AsRead.regular {n : Node} (h : n.AsRead) : n.Regular := by
  cases n with
  | literal location value raw =>
    have hfits : Heap.empty.Fits value := Heap.Normal.fits h
    cases value with
    | sequence a | record a => exact absurd hfits (Nat.not_lt_zero a)
    | number _ | text _ | boolean _ | null | undefined => rfl
  | member location object part computed =>
    cases computed with
    | true => trivial
    | false => exact h
  | _ => trivial

/-! ## Rules of some kinds -/

namespace Reading

variable {source : ByteArray} {l : Tree.Label} {pieces : List Reading}

theorem asExpression_assignment (h : l.kind = "assignment_expression") :
    asExpression source l pieces = assignment l "=" pieces := by
  simp only [asExpression, h]

theorem asExpression_augmented (h : l.kind = "augmented_assignment_expression") :
    asExpression source l pieces =
      operatorText source pieces >>= fun operator => assignment l operator pieces := by
  simp only [asExpression, h]

theorem asStatement_function (h : l.kind = "function_declaration") :
    asStatement source l pieces = functionDeclaration source l pieces := by
  simp only [asStatement, h]

/-- A declarator has the node of its name, which is an identifier or not interpreted, and the
expression that it is set to, if there is one. -/
theorem declarator_eq (r : Reading) :
    declarator source r = (byField "name" r.children >>= fun target =>
      (if target.label.kind == "identifier" then identifier source target.label
        else unsupported source target.label) >>= fun id =>
      (byField? "value" r.children).mapM expression >>= fun init =>
      pure (.declarator r.label.location id init)) := by
  unfold declarator
  refine bind_congr fun target => ?_
  cases byField? "value" r.children with
  | none => dsimp only; split <;> rfl
  | some value =>
    simp only [Option.mapM_some, bind_map_left]
    split <;> rfl

end Reading

/-! ## Lenient conditions -/

/-- Whether a node has a form that may introduce a function. -/
def Node.mayIntroduce : Node → Bool
  | .functionDeclaration .. | .declarator .. | .assignment .. => true
  | _ => false

/-- Whether a node is no literal, nothing that follows a point, and introduces no function. -/
def Node.isPlain : Node → Bool
  | .literal .. | .member _ _ _ false => false
  | n => !n.mayIntroduce

/-- A condition that holds of literals and names as they are read, and of all other nodes but those
that may introduce a function. -/
structure Node.Lenient (p : Node → Prop) : Prop where
  literal : ∀ {location value raw}, Heap.empty.Normal value → p (.literal location value raw)
  member : ∀ {location owner} {i : Identifier}, p (.member location owner (.ofIdentifier i) false)
  plain : ∀ {n : Node}, n.isPlain = true → p n

theorem Node.asRead_lenient : Node.Lenient Node.AsRead where
  literal h := h
  member := rfl
  plain {n} h := by
    cases n with
    | literal => cases h
    | member location owner part computed =>
      cases computed with
      | true => trivial
      | false => cases h
    | _ => trivial

theorem Node.asRead_of_mayIntroduce {n : Node} (h : n.mayIntroduce = true) : n.AsRead := by
  cases n with
  | functionDeclaration | declarator | assignment => trivial
  | _ => cases h

namespace Reading

/-- A condition holds of the nodes of a reading, in all its pieces. -/
inductive Sound (source : ByteArray) (p : Node → Prop) : Reading → Prop
  | mk {l : Tree.Label} {e s : Except Fault Node} {cs : List Reading}
    (expression : Yields e (Node.Everywhere p)) (statement : Yields s (Node.Everywhere p))
    (declarator : l.kind = "variable_declarator" → Yields (declarator source (.mk l e s cs)) p)
    (pieces : ∀ c ∈ cs, Sound source p c) : Sound source p (.mk l e s cs)

section
variable {source : ByteArray} {p : Node → Prop} {r : Reading}

theorem Sound.expression (h : r.Sound source p) : Yields r.expression (Node.Everywhere p) := by
  cases h with
  | mk he _ _ _ => exact he

theorem Sound.statement (h : r.Sound source p) : Yields r.statement (Node.Everywhere p) := by
  cases h with
  | mk _ hs _ _ => exact hs

theorem Sound.declarator (h : r.Sound source p) (hkind : r.label.kind = "variable_declarator") :
    Yields (declarator source r) p := by
  cases h with
  | mk _ _ hd _ => exact hd hkind

theorem Sound.children (h : r.Sound source p) : ∀ c ∈ r.children, c.Sound source p := by
  cases h with
  | mk _ _ _ hc => exact hc

end

section
variable {source : ByteArray} {l : Tree.Label} {pieces : List Reading} {p : Node → Prop}

/-- The condition holds of what a rule yields, when it holds of the node itself and below it. -/
theorem everywhere_of_below {e : Except Fault Node} (hroot : Yields e p)
    (hbelow : Yields e fun n => Node.AllEverywhere p n.children) : Yields e (Node.Everywhere p) :=
  fun n hn => .of (hroot n hn) (hbelow n hn)

/-! ## Pieces -/

section
variable (hp : ∀ r ∈ pieces, r.Sound source p)
include hp

theorem byField?_sound {field : String} {r : Reading} (h : byField? field pieces = some r) :
    r.Sound source p :=
  hp r (List.mem_of_find?_eq_some h)

theorem byField_yields (field : String) : Yields (byField field pieces) (Sound source p) := by
  unfold byField
  cases h : byField? field pieces with
  | none => exact .throw _
  | some r => exact .pure (byField?_sound hp h)

theorem constructs_sound : ∀ r ∈ constructs pieces, r.Sound source p :=
  fun r hr => hp r (List.mem_filter.1 hr).1

theorem firstConstruct_yields : Yields (firstConstruct pieces) (Sound source p) := by
  have hc := constructs_sound hp
  unfold firstConstruct
  split
  · rename_i r _ heq
    exact .pure (hc r (by simp [heq]))
  · exact .throw _

theorem statements_yields :
    Yields (statements pieces) (Node.AllEverywhere p) :=
  .mapM fun r hr => (constructs_sound hp r (List.mem_filter.1 hr).1).statement

/-- What follows the expression that plays a role. -/
theorem operand_bind {β : Type} {Q : β → Prop} (field : String) {f : Node → Except Fault β}
    (hf : ∀ n : Node, n.Everywhere p → Yields (f n) Q) :
    Yields (byField field pieces >>= fun r => r.expression >>= f) Q :=
  (byField_yields hp field).bind fun _ hr => hr.expression.bind hf

/-- What follows the statement that plays a role. -/
theorem branch_bind {β : Type} {Q : β → Prop} (field : String) {f : Node → Except Fault β}
    (hf : ∀ n : Node, n.Everywhere p → Yields (f n) Q) :
    Yields (byField field pieces >>= fun r => r.statement >>= f) Q :=
  (byField_yields hp field).bind fun _ hr => hr.statement.bind hf

end

/-! ## Leaves -/

section
variable (lenient : Node.Lenient p)
include lenient

theorem unsupported_yields : Yields (unsupported source l) (Node.Everywhere p) :=
  .after _ fun _ => .pure (.of (lenient.plain rfl) .nil)

/-- A literal of plain data. -/
theorem everywhere_literal {location : Location} {value : Value} {raw : String}
    (hv : Heap.empty.Normal value) : (Node.literal location value raw).Everywhere p :=
  .of (lenient.literal hv) .nil

theorem identifier_yields : Yields (identifier source l) (Node.Everywhere p) := by
  refine .after _ fun name => ?_
  split
  · exact .pure (everywhere_literal lenient Heap.normal_undefined)
  · exact .pure (.of (lenient.plain rfl) .nil)

theorem everywhere_ofIdentifier (i : Identifier) :
    (Node.ofIdentifier i).Everywhere p :=
  .of (lenient.plain rfl) .nil

/-! ## Functions -/

theorem parameter_yields {r : Reading} :
    Yields (parameter source r) (Node.Everywhere p) := by
  unfold parameter
  split
  · exact identifier_yields lenient
  · refine .after _ fun left => ?_
    split
    · exact identifier_yields lenient
    · exact unsupported_yields lenient
  · exact unsupported_yields lenient

theorem parameters_yields (r : Option Reading) :
    Yields (parameters source r) (Node.AllEverywhere p) := by
  cases r with
  | none => exact .pure nofun
  | some r =>
    unfold parameters
    dsimp only
    split
    · exact (identifier_yields lenient).bind fun n hn =>
      .pure fun c hc => List.mem_singleton.1 hc ▸ hn
    · exact .mapM fun _ _ => parameter_yields lenient

theorem functionParts_yields (hp : ∀ r ∈ pieces, r.Sound source p) :
    Yields (functionParts source pieces) fun parts =>
      Node.AllEverywhere p parts.2.1 ∧ Node.AllEverywhere p parts.2.2.2 :=
  .after _ fun _ => (parameters_yields lenient _).bind fun _ hparams =>
    (byField_yields hp "body").bind fun _ hbody =>
      (statements_yields hbody.children).bind fun _ hstatements => .pure ⟨hparams, hstatements⟩

/-- The children of a function: its name, its parameters and its body as a block. -/
theorem everywhere_function {id : Option Identifier} {params body : List Node} {place : Location}
    (hparams : Node.AllEverywhere p params)
    (hbody : Node.AllEverywhere p body) :
    Node.AllEverywhere p
      ((id.map Node.ofIdentifier).toList ++ params ++ [.block place body]) := by
  have hblock : (Node.block place body).Everywhere p := .of (lenient.plain rfl) hbody
  refine .append (.append (.toList fun n hn => ?_) hparams) (.cons hblock .nil)
  obtain ⟨i, -, rfl⟩ := Option.map_eq_some_iff.1 hn
  exact everywhere_ofIdentifier lenient i

theorem functionDeclaration_below (hp : ∀ r ∈ pieces, r.Sound source p) :
    Yields (functionDeclaration source l pieces) fun n => Node.AllEverywhere p n.children :=
  (functionParts_yields lenient hp).bind fun _ h => .pure (everywhere_function lenient h.1 h.2)

theorem functionExpression_yields (hp : ∀ r ∈ pieces, r.Sound source p) :
    Yields (functionExpression source l pieces) (Node.Everywhere p) :=
  (functionParts_yields lenient hp).bind fun _ h =>
    .pure (.of (lenient.plain rfl) (everywhere_function lenient h.1 h.2))

theorem arrowFunction_yields (hp : ∀ r ∈ pieces, r.Sound source p) :
    Yields (arrowFunction source l pieces) (Node.Everywhere p) := by
  have harrow : ∀ {params : List Node} {body : Node} {isExpression : Bool},
      Node.AllEverywhere p params → body.Everywhere p →
      (Node.arrowFunction l.location params body isExpression).Everywhere p := by
    intro params body isExpression hparams hbody
    exact .of (lenient.plain rfl) (.append hparams (.cons hbody .nil))
  refine (byField_yields hp "body").bind fun body hbody => ?_
  split
  · exact (statements_yields hbody.children).bind fun _ hstatements =>
      (parameters_yields lenient _).bind fun _ hparams =>
        .pure (harrow hparams (.of (lenient.plain rfl) hstatements))
  · exact hbody.expression.bind fun _ hvalue =>
      (parameters_yields lenient _).bind fun _ hparams => .pure (harrow hparams hvalue)

/-! ## Members of objects -/

theorem propertyKey_yields {r : Reading} (hr : r.Sound source p) :
    Yields (propertyKey source r) fun k => k.1.Everywhere p := by
  unfold propertyKey
  split
  · exact (firstConstruct_yields hr.children).bind fun _ hinner =>
      hinner.expression.bind fun _ hn => .pure hn
  · exact .after _ fun _ => .pure (everywhere_ofIdentifier lenient _)
  · exact .after _ fun _ => .pure (everywhere_ofIdentifier lenient _)
  · exact hr.expression.bind fun _ hn => .pure hn

/-- A member of an object: its key, and its value if it has one. -/
theorem everywhere_property {place : Location} {key : Node} {value : Option Node} {kind : String}
    {computed shorthand : Bool} (hk : key.Everywhere p)
    (hv : ∀ n, value = some n → n.Everywhere p) :
    (Node.property place key value kind computed shorthand).Everywhere p :=
  .of (lenient.plain rfl) (.cons hk (.toList hv))

theorem property_yields {r : Reading} (hr : r.Sound source p) :
    Yields (property source r) (Node.Everywhere p) := by
  unfold property
  dsimp only
  split
  · refine (byField_yields hr.children "key").bind fun key hkey => ?_
    refine (propertyKey_yields lenient hkey).bind fun k hk => ?_
    refine operand_bind hr.children "value" fun v hv => .pure ?_
    exact everywhere_property lenient hk fun n hn => Option.some.inj hn ▸ hv
  · refine .after _ fun i => .pure (everywhere_property lenient ?_ fun n hn => ?_)
    · exact everywhere_ofIdentifier lenient i
    · exact Option.some.inj hn ▸ everywhere_ofIdentifier lenient i
  · exact (byField_yields hr.children "name").bind fun key hkey =>
      (propertyKey_yields lenient hkey).bind fun k hk =>
        .pure (everywhere_property lenient hk nofun)
  · exact (unsupported_yields lenient).bind fun n hn => .pure (everywhere_property lenient hn nofun)

/-! ## Expressions -/

section
variable (hp : ∀ r ∈ pieces, r.Sound source p)
include hp

theorem parenthesized_yields :
    Yields (parenthesized source l pieces) (Node.Everywhere p) := by
  have hc := constructs_sound hp
  unfold parenthesized
  split
  · rename_i inner heq
    exact (hc inner (by simp [heq])).expression
  · exact unsupported_yields lenient

omit lenient in
theorem elements_yields (current : Option Node)
    (hcurrent : ∀ n, current = some n → n.Everywhere p) :
    Yields (elements current pieces) fun es =>
      Node.AllEverywhere p (es.flatMap Option.toList) := by
  induction pieces generalizing current with
  | nil =>
    refine .pure fun c hc => ?_
    cases current with
    | none => cases hc
    | some n =>
      have hcn : c = n := by simpa using hc
      exact hcn ▸ hcurrent n rfl
  | cons r rest ih =>
    have hrest := fun x hx => hp x (List.mem_cons_of_mem r hx)
    unfold elements
    split
    · refine (ih hrest none nofun).bind fun es hes => .pure fun c hc => ?_
      rw [List.flatMap_cons] at hc
      rcases List.mem_append.1 hc with hc | hc
      · exact hcurrent c (Option.mem_toList.1 hc)
      · exact hes c hc
    · split
      · exact (hp r List.mem_cons_self).expression.bind fun n hn =>
          ih hrest (some n) fun m hm => Option.some.inj hm ▸ hn
      · exact ih hrest current hcurrent

theorem array_yields : Yields (array l pieces) (Node.Everywhere p) :=
  (elements_yields hp none nofun).bind fun _ hes => .pure (.of (lenient.plain rfl) hes)

theorem object_yields : Yields (object source l pieces) (Node.Everywhere p) :=
  (Yields.mapM fun r hr => property_yields lenient (constructs_sound hp r hr)).bind fun _ hps =>
    .pure (.of (lenient.plain rfl) hps)

theorem binary_yields : Yields (binary source l pieces) (Node.Everywhere p) :=
  .after _ fun _ => operand_bind hp "left" fun _ hleft => operand_bind hp "right" fun _ hright =>
    .pure (.of (lenient.plain rfl) (.cons hleft (.cons hright .nil)))

theorem unary_yields : Yields (unary source l pieces) (Node.Everywhere p) := by
  unfold unary
  split
  · exact .throw _
  · exact .after _ fun _ => operand_bind hp "argument" fun _ hargument =>
      .pure (.of (lenient.plain rfl) (.cons hargument .nil))

theorem update_yields : Yields (update source l pieces) (Node.Everywhere p) := by
  unfold update
  split
  · exact .throw _
  · exact .after _ fun _ => (byField_yields hp "argument").bind fun _ hr =>
      hr.expression.bind fun _ hargument => .pure (.of (lenient.plain rfl) (.cons hargument .nil))

omit lenient in
theorem assignment_below (operator : String) :
    Yields (assignment l operator pieces) fun n => Node.AllEverywhere p n.children :=
  operand_bind hp "left" fun _ hleft => operand_bind hp "right" fun _ hright =>
    .pure (.cons hleft (.cons hright .nil))

theorem member_yields : Yields (member source l pieces) (Node.Everywhere p) :=
  operand_bind hp "object" fun _ hobject => .after _ fun _ => .after _ fun i =>
    .pure (.of lenient.member (.cons hobject (.cons (everywhere_ofIdentifier lenient i) .nil)))

theorem subscript_yields : Yields (subscript l pieces) (Node.Everywhere p) :=
  operand_bind hp "object" fun _ hobject => operand_bind hp "index" fun _ hindex =>
    .pure (.of (lenient.plain rfl) (.cons hobject (.cons hindex .nil)))

omit lenient in
theorem arguments_yields (field : String) :
    Yields (arguments (byField? field pieces)) (Node.AllEverywhere p) := by
  cases h : byField? field pieces with
  | none => exact .pure .nil
  | some r =>
    exact .mapM fun c hc => (constructs_sound (byField?_sound hp h).children c hc).expression

theorem call_yields : Yields (call source l pieces) (Node.Everywhere p) := by
  unfold call
  dsimp only
  split
  · exact unsupported_yields lenient
  · exact operand_bind hp "function" fun _ hcallee => (arguments_yields hp "arguments").bind
      fun _ hargs => .pure (.of (lenient.plain rfl) (.cons hcallee hargs))

theorem construction_yields : Yields (construction l pieces) (Node.Everywhere p) :=
  operand_bind hp "constructor" fun _ hcallee => (arguments_yields hp "arguments").bind
    fun _ hargs => .pure (.of (lenient.plain rfl) (.cons hcallee hargs))

/-! ## Literals -/

omit hp in
theorem number_yields : Yields (number source l) (Node.Everywhere p) :=
  .after _ fun raw => (Number.ofLiteral_isNormal raw).bind fun _ hn =>
    .pure (everywhere_literal lenient (Heap.normal_number.2 hn))

omit hp in
theorem quoted_yields : Yields (quoted source l) (Node.Everywhere p) :=
  .after _ fun _ => .after _ fun text => .pure (everywhere_literal lenient (Heap.normal_text text))

omit hp in
theorem keyword_yields : Yields (keyword source l) (Node.Everywhere p) := by
  refine .after _ fun raw => ?_
  split
  · exact .pure (everywhere_literal lenient (Heap.normal_boolean true))
  · exact .pure (everywhere_literal lenient (Heap.normal_boolean false))
  · exact .pure (everywhere_literal lenient Heap.normal_null)
  · exact .throw _

omit hp in
theorem concatenation_everywhere {location : Location} {parts : List Node} {first : Node}
    (hfirst : first.Everywhere p) (hparts : Node.AllEverywhere p parts) :
    (parts.foldl (.binary location "+") first).Everywhere p := by
  induction parts generalizing first with
  | nil => exact hfirst
  | cons n rest ih =>
    exact ih (.of (lenient.plain rfl) (.cons hfirst (.cons hparts.head .nil))) hparts.tail

theorem templateStep_yields {s : TemplateState} (hs : Node.AllEverywhere p s.parts)
    {piece : Reading} (hpiece : piece ∈ pieces) :
    Yields (s.step source l.location piece) fun s => Node.AllEverywhere p s.parts := by
  have hupTo : ∀ start stop, Yields (s.upTo source start stop)
      fun s => Node.AllEverywhere p s.parts :=
    fun _ _ => .after _ fun _ => .pure hs
  unfold TemplateState.step
  dsimp only
  split
  · exact (hupTo _ _).bind fun s hs => .after _ fun _ => .after _ fun _ => .pure hs
  · refine (hupTo _ _).bind fun s hs => ?_
    refine (firstConstruct_yields (hp piece hpiece).children).bind fun inner hinner =>
      hinner.expression.bind fun n hn => .pure ?_
    dsimp only
    refine .append ?_ (.cons hn .nil)
    split
    · exact hs
    · exact .append hs (.cons (everywhere_literal lenient (Heap.normal_text _)) .nil)
  · exact .pure hs

theorem template_yields : Yields (template source l pieces) (Node.Everywhere p) := by
  refine (Yields.foldlM (P := fun s : TemplateState => Node.AllEverywhere p s.parts)
    .nil fun s piece hpiece hs => templateStep_yields lenient hp hs hpiece).bind fun s hs => ?_
  refine Yields.bind (P := fun s : TemplateState => Node.AllEverywhere p s.parts)
    (.after _ fun _ => .pure hs) fun s hs => ?_
  have hparts : Node.AllEverywhere p
      (if s.pending == "" && !s.parts.isEmpty then s.parts
        else s.parts ++ [s.literal l.location]) := by
    split
    · exact hs
    · exact .append hs (.cons (everywhere_literal lenient (Heap.normal_text _)) .nil)
  dsimp only
  split
  · rename_i heq
    rw [heq] at hparts
    exact .pure hparts.head
  · have hempty : (Node.literal l.location (.text "") "").Everywhere p :=
      everywhere_literal lenient (Heap.normal_text _)
    exact .pure (concatenation_everywhere lenient hempty hparts)

/-- A condition holds of what a construct is as an expression when it does of its pieces, and of an
assignment itself. -/
theorem asExpression_yields (hroot : l.kind = "assignment_expression" ∨
    l.kind = "augmented_assignment_expression" → Yields (asExpression source l pieces) p) :
    Yields (asExpression source l pieces) (Node.Everywhere p) := by
  unfold asExpression
  split
  · exact identifier_yields lenient
  · exact .pure (everywhere_literal lenient Heap.normal_undefined)
  · exact number_yields lenient
  · exact quoted_yields lenient
  · exact template_yields lenient hp
  · exact keyword_yields lenient
  · exact keyword_yields lenient
  · exact keyword_yields lenient
  · exact .pure (.of (lenient.plain rfl) .nil)
  · exact parenthesized_yields lenient hp
  · exact array_yields lenient hp
  · exact object_yields lenient hp
  · exact binary_yields lenient hp
  · exact unary_yields lenient hp
  · exact update_yields lenient hp
  · rename_i hkind
    have h := hroot (.inl hkind)
    rw [asExpression_assignment hkind] at h
    exact everywhere_of_below h (assignment_below hp "=")
  · rename_i hkind
    have h := hroot (.inr hkind)
    rw [asExpression_augmented hkind] at h
    exact everywhere_of_below h (.after _ fun operator => assignment_below hp operator)
  · exact member_yields lenient hp
  · exact subscript_yields lenient hp
  · exact call_yields lenient hp
  · exact construction_yields lenient hp
  · exact functionExpression_yields lenient hp
  · exact functionExpression_yields lenient hp
  · exact arrowFunction_yields lenient hp
  · exact unsupported_yields lenient

/-! ## Statements -/

theorem expressionStatement_yields :
    Yields (expressionStatement source l pieces) (Node.Everywhere p) := by
  have hc := constructs_sound hp
  unfold expressionStatement
  split
  · rename_i inner heq
    exact (hc inner (by simp [heq])).expression.bind fun _ hn =>
      .pure (.of (lenient.plain rfl) (.cons hn .nil))
  · exact unsupported_yields lenient

omit hp in
theorem declarator_below {r : Reading} (hr : r.Sound source p) :
    Yields (declarator source r) fun n => Node.AllEverywhere p n.children := by
  rw [declarator_eq]
  exact .after _ fun _ => (Yields.ite (identifier_yields lenient) (unsupported_yields lenient)).bind
    fun _ hid => (Yields.mapM_option fun _ hv => (byField?_sound hr.children hv).expression).bind
      fun _ hinit => .pure (.cons hid (.toList hinit))

theorem declaration_yields :
    Yields (declaration source l pieces) (Node.Everywhere p) := by
  refine (Yields.mapM (P := Node.Everywhere p) fun r hr => ?_).bind fun ds hds => ?_
  · obtain ⟨hr, hkind⟩ := List.mem_filter.1 hr
    exact everywhere_of_below ((hp r hr).declarator (beq_iff_eq.1 hkind))
      (declarator_below lenient (hp r hr))
  split
  · exact .throw _
  · exact .after _ fun _ => .pure (.of (lenient.plain rfl) hds)

omit lenient hp in
theorem alternative_yields {r : Reading} (hr : r.Sound source p) :
    Yields (alternative r) (Node.Everywhere p) := by
  unfold alternative
  split
  · exact (firstConstruct_yields hr.children).bind fun _ hinner => hinner.statement
  · exact hr.statement

theorem conditional_yields : Yields (conditional l pieces) (Node.Everywhere p) :=
  (Yields.mapM_option fun _ hr => alternative_yields (byField?_sound hp hr)).bind
    fun _ halternate => operand_bind hp "condition" fun _ htest =>
      branch_bind hp "consequence" fun _ hconsequent =>
        .pure (.of (lenient.plain rfl) (.cons htest (.cons hconsequent (.toList halternate))))

theorem whileLoop_yields : Yields (whileLoop l pieces) (Node.Everywhere p) :=
  operand_bind hp "condition" fun _ htest => branch_bind hp "body" fun _ hbody =>
    .pure (.of (lenient.plain rfl) (.cons htest (.cons hbody .nil)))

omit lenient in
theorem clause_yields (field : String) :
    Yields (clause (byField? field pieces)) fun n =>
      ∀ m, n = some m → m.Everywhere p := by
  have hsome : ∀ {n : Node}, n.Everywhere p →
      ∀ m, some n = some m → m.Everywhere p :=
    fun hn m hm => Option.some.inj hm ▸ hn
  cases h : byField? field pieces with
  | none => exact .pure nofun
  | some r =>
    have hr := byField?_sound hp h
    unfold clause
    dsimp only
    split
    · exact .pure nofun
    · split
      · exact .pure nofun
      · exact hr.statement.bind fun _ hn => .pure (hsome hn)
      · exact hr.statement.bind fun _ hn => .pure (hsome hn)
      · exact .mapM_option fun c hc =>
          (constructs_sound hr.children c (List.mem_of_head? hc)).expression
      · exact hr.expression.bind fun _ hn => .pure (hsome hn)

theorem forLoop_yields : Yields (forLoop l pieces) (Node.Everywhere p) := by
  refine (clause_yields hp "initializer").bind fun init hinit =>
    (clause_yields hp "condition").bind fun test htest => ?_
  refine (Yields.mapM_option (P := Node.Everywhere p) fun r hr => ?_).bind
    fun update hupdate =>
    branch_bind hp "body" fun body hbody => .pure (.of (lenient.plain rfl) ?_)
  · rcases Option.or_eq_some_iff.1 hr with hr | ⟨-, hr⟩
    · exact (byField?_sound hp hr).expression
    · exact (byField?_sound hp hr).expression
  · exact .append (.append (.append (.toList hinit) (.toList htest)) (.toList hupdate))
      (.cons hbody .nil)

/-- A condition holds of what a construct is as a statement when it does of its pieces, and of a
declaration of a function itself. -/
theorem asStatement_yields
    (hroot : l.kind = "function_declaration" → Yields (asStatement source l pieces) p) :
    Yields (asStatement source l pieces) (Node.Everywhere p) := by
  unfold asStatement
  split
  · exact expressionStatement_yields lenient hp
  · exact declaration_yields lenient hp
  · exact declaration_yields lenient hp
  · exact conditional_yields lenient hp
  · exact whileLoop_yields lenient hp
  · exact forLoop_yields lenient hp
  · refine (Yields.mapM_option (P := Node.Everywhere p) fun c hc => ?_).bind
      fun _ h => .pure (.of (lenient.plain rfl) (.toList h))
    exact (constructs_sound hp c (List.mem_of_head? hc)).expression
  · exact .after _ fun _ => .pure (.of (lenient.plain rfl) .nil)
  · exact (statements_yields hp).bind fun _ h => .pure (.of (lenient.plain rfl) h)
  · rename_i hkind
    have h := hroot hkind
    rw [asStatement_function hkind] at h
    exact everywhere_of_below h (functionDeclaration_below lenient hp)
  · exact unsupported_yields lenient

end

end

end

end Reading

/-! ## Trees -/

namespace Tree

variable {source : ByteArray}

theorem expression_reading : ∀ t : Tree, (t.reading source).expression =
    Reading.asExpression source t.label (t.reading source).children
  | .node _ _ => by rw [reading, Reading.expression, Reading.children, label]

theorem statement_reading : ∀ t : Tree, (t.reading source).statement =
    Reading.asStatement source t.label (t.reading source).children
  | .node _ _ => by rw [reading, Reading.statement, Reading.children, label]

/-- A tree is read as a node that may introduce a function, by the rule for its kind. -/
inductive ReadAs (source : ByteArray) (t : Tree) : Node → Prop
  | declaration {location place : Location} {id : Option Identifier} {params body : List Node}
    (kind : t.label.kind = "function_declaration")
    (read : (t.reading source).statement =
      .ok (.functionDeclaration location id params place body)) :
    ReadAs source t (.functionDeclaration location id params place body)
  | declarator {location : Location} {id : Node} {init : Option Node}
    (kind : t.label.kind = "variable_declarator")
    (read : Reading.declarator source (t.reading source) = .ok (.declarator location id init)) :
    ReadAs source t (.declarator location id init)
  | assignment {location : Location} {operator : String} {left right : Node}
    (kind : t.label.kind = "assignment_expression" ∨
      t.label.kind = "augmented_assignment_expression")
    (read : (t.reading source).expression = .ok (.assignment location operator left right)) :
    ReadAs source t (.assignment location operator left right)

/-- A condition holds of what the subtrees of a tree are read as. -/
def Reads (source : ByteArray) (p : Node → Prop) (t : Tree) : Prop :=
  ∀ c ∈ t.preorder, ∀ n, c.ReadAs source n → p n

theorem ReadAs.mayIntroduce {t : Tree} {n : Node} (h : t.ReadAs source n) :
    n.mayIntroduce = true := by
  cases h with
  | declaration | declarator | assignment => rfl

theorem readAs_of_statement {t : Tree} (kind : t.label.kind = "function_declaration") :
    Yields (t.reading source).statement (t.ReadAs source) := by
  intro n hn
  have h := hn
  rw [statement_reading, Reading.asStatement_function kind] at h
  obtain ⟨parts, -, h⟩ := bind_eq_ok h
  cases h
  exact .declaration kind hn

theorem readAs_of_declarator {t : Tree} (kind : t.label.kind = "variable_declarator") :
    Yields (Reading.declarator source (t.reading source)) (t.ReadAs source) := by
  intro n hn
  have h := hn
  rw [Reading.declarator_eq] at h
  obtain ⟨_, -, h⟩ := bind_eq_ok h
  obtain ⟨_, -, h⟩ := bind_eq_ok h
  obtain ⟨_, -, h⟩ := bind_eq_ok h
  cases h
  exact .declarator kind hn

theorem readAs_of_expression {t : Tree} (kind : t.label.kind = "assignment_expression" ∨
    t.label.kind = "augmented_assignment_expression") :
    Yields (t.reading source).expression (t.ReadAs source) := by
  intro n hn
  have h : ∃ operator, Reading.assignment t.label operator (t.reading source).children = .ok n := by
    rw [expression_reading] at hn
    rcases kind with kind | kind
    · exact ⟨"=", Reading.asExpression_assignment kind ▸ hn⟩
    · rw [Reading.asExpression_augmented kind] at hn
      obtain ⟨operator, -, h⟩ := bind_eq_ok hn
      exact ⟨operator, h⟩
  obtain ⟨operator, h⟩ := h
  obtain ⟨_, -, h⟩ := bind_eq_ok h
  obtain ⟨_, -, h⟩ := bind_eq_ok h
  obtain ⟨_, -, h⟩ := bind_eq_ok h
  obtain ⟨_, -, h⟩ := bind_eq_ok h
  cases h
  exact .assignment kind hn

end Tree

mutual

/-- A lenient condition holds of the reading of a tree, in all its pieces, when it holds of what the
subtrees are read as. -/
theorem reading_sound {source : ByteArray} {p : Node → Prop} (lenient : Node.Lenient p) :
    ∀ t : Tree, t.Reads source p → (t.reading source).Sound source p
  | .node l cs, h => by
    have hroot : ∀ n, (Tree.node l cs).ReadAs source n → p n := h _ List.mem_cons_self
    have hp := readings_sound lenient cs fun c hc => h c (List.mem_cons_of_mem _ hc)
    have hassignment := fun hkind n hn =>
      hroot n (Tree.readAs_of_expression (t := .node l cs) hkind n hn)
    have hfunction := fun hkind n hn =>
      hroot n (Tree.readAs_of_statement (t := .node l cs) hkind n hn)
    have hdeclarator := fun hkind n hn =>
      hroot n (Tree.readAs_of_declarator (t := .node l cs) hkind n hn)
    rw [Tree.reading] at *
    exact .mk (Reading.asExpression_yields lenient hp hassignment)
      (Reading.asStatement_yields lenient hp hfunction) hdeclarator hp

theorem readings_sound {source : ByteArray} {p : Node → Prop} (lenient : Node.Lenient p) :
    ∀ ts : List Tree, (∀ c ∈ Tree.preorderAll ts, ∀ n, c.ReadAs source n → p n) →
    ∀ r ∈ Tree.readings source ts, r.Sound source p
  | [], _, _, hr => nomatch hr
  | t :: ts, h, r, hr => by
    rw [Tree.preorderAll] at h
    rcases List.mem_cons.1 hr with hr | hr
    · exact hr ▸ reading_sound lenient t fun c hc => h c (List.mem_append_left _ hc)
    · exact readings_sound lenient ts (fun c hc => h c (List.mem_append_right _ hc)) r hr

end

/-- A lenient condition holds everywhere in the program that a tree is, when it holds of what the
subtrees are read as. -/
theorem program_everywhere {source : ByteArray} {p : Node → Prop} (lenient : Node.Lenient p)
    {t : Tree} (h : t.Reads source p) : Yields (t.program source) (Node.Everywhere p) :=
  (Reading.statements_yields (reading_sound lenient t h).children).bind fun _ hbody =>
    .after _ fun _ => .pure (.of (lenient.plain rfl) hbody)

/-- The program that a tree is has nodes as they are read. -/
theorem program_yields (source : ByteArray) (t : Tree) :
    Yields (t.program source) (Node.Everywhere Node.AsRead) :=
  program_everywhere Node.asRead_lenient fun _ _ _ h => Node.asRead_of_mayIntroduce h.mayIntroduce

end Chronicle
