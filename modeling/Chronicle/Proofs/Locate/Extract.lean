import Chronicle.Grammar.Program
import Chronicle.Proofs.Locate
import Chronicle.Proofs.Locate.Exact
import Chronicle.Proofs.Reading.Forms
import Chronicle.Source

/-!
# Finding located functions by their names

Functions are located in a program, and found by their names in the concrete tree that the program
was read from.  A node that gives a function a plain name is read from a subtree that introduces the
function under the same name (`functionName_of_readAs`), so the search finds one of that name
(`findFunction?_located`).  What reading sees through and the search does not is the exception: a
function or a name in parentheses, and an assignment by another operator (`Tree.Veiled`).
-/

set_option autoImplicit false

namespace Chronicle

namespace Tree

variable {source : ByteArray} {name : String}

/-! ## The search -/

/-- What a search for a name through nodes ends with: the first of them that introduces a function
of the name; nothing, if none does; or the fault of a name on the way. -/
def Finds (source : ByteArray) (name : String) (nodes : List Tree) :
    Except Fault (Option Tree) → Prop
  | .ok (some found) => ∃ before after, nodes = before ++ found :: after ∧
      found.functionName source = .ok name ∧ ∀ c ∈ before, c.functionName source ≠ .ok name
  | .ok none => ∀ c ∈ nodes, c.functionName source ≠ .ok name
  | .error e => ∃ c ∈ nodes, c.functionName source = .error e

theorem Finds.after {nodes skipped : List Tree} {result : Except Fault (Option Tree)}
    (hskipped : ∀ c ∈ skipped, c.functionName source ≠ .ok name)
    (h : Finds source name nodes result) : Finds source name (skipped ++ nodes) result := by
  cases result with
  | error e =>
    obtain ⟨c, hc, he⟩ := h
    exact ⟨c, List.mem_append_right _ hc, he⟩
  | ok found =>
    cases found with
    | none =>
      intro c hc
      rcases List.mem_append.1 hc with hc | hc
      · exact hskipped c hc
      · exact h c hc
    | some found =>
      obtain ⟨before, after, rfl, hfound, hbefore⟩ := h
      refine ⟨skipped ++ before, after, (List.append_assoc ..).symm, hfound, fun c hc => ?_⟩
      rcases List.mem_append.1 hc with hc | hc
      · exact hskipped c hc
      · exact hbefore c hc

theorem Finds.before {nodes rest : List Tree} {result : Except Fault (Option Tree)}
    (hresult : result ≠ .ok none) (h : Finds source name nodes result) :
    Finds source name (nodes ++ rest) result := by
  cases result with
  | error e =>
    obtain ⟨c, hc, he⟩ := h
    exact ⟨c, List.mem_append_left _ hc, he⟩
  | ok found =>
    cases found with
    | none => exact absurd rfl hresult
    | some found =>
      obtain ⟨before, after, rfl, hfound, hbefore⟩ := h
      exact ⟨before, after ++ rest, by simp, hfound, hbefore⟩

mutual

/-- The search goes through a tree in pre-order. -/
theorem findFunction?_finds : ∀ t : Tree,
    Finds source name t.preorder (t.findFunction? source name)
  | .node l cs => by
    rw [findFunction?, preorder]
    cases hname : functionName source (node l cs) with
    | error e => exact ⟨node l cs, List.mem_cons_self, hname⟩
    | ok other =>
      by_cases h : other = name
      · subst h
        simp only [bind, Except.bind, beq_self_eq_true, if_true]
        exact ⟨[], preorderAll cs, rfl, hname, nofun⟩
      · simp only [bind, Except.bind, beq_eq_false_iff_ne.2 h, Bool.false_eq_true, if_false]
        have hskipped : ∀ c ∈ [node l cs], c.functionName source ≠ .ok name := by
          intro c hc he
          rw [List.mem_singleton.1 hc, hname] at he
          exact h (Except.ok.inj he)
        exact Finds.after hskipped (findFunctionIn?_finds cs)

theorem findFunctionIn?_finds : ∀ ts : List Tree,
    Finds source name (preorderAll ts) (findFunctionIn? source name ts)
  | [] => by
    rw [findFunctionIn?, preorderAll]
    exact nofun
  | t :: ts => by
    have h := findFunction?_finds t
    rw [findFunctionIn?, preorderAll]
    cases hfound : t.findFunction? source name with
    | error e =>
      rw [hfound] at h
      exact h.before nofun
    | ok found =>
      rw [hfound] at h
      cases found with
      | some found => exact h.before nofun
      | none => exact Finds.after h (findFunctionIn?_finds ts)

end

/-! ## Names of subtrees -/

theorem byField?_reading (field : String) : ∀ t : Tree,
    Reading.byField? field (t.reading source).children =
      (t.childByField? field).map (reading source)
  | .node l cs => by
    simp only [children_reading, readings_eq_map, Reading.byField?, childByField?, children,
      List.find?_map, Function.comp_def, label_reading]

theorem byField_reading {field : String} {t : Tree} {r : Reading}
    (h : Reading.byField field (t.reading source).children = .ok r) :
    ∃ c, t.childByField? field = some c ∧ c.reading source = r := by
  rw [Reading.byField, byField?_reading] at h
  cases hc : t.childByField? field with
  | none =>
    rw [hc] at h
    cases h
  | some c =>
    rw [hc] at h
    cases h
    exact ⟨c, rfl, rfl⟩

theorem text_of_expression {t : Tree} {n : Node} (h : (t.reading source).expression = .ok n)
    (hn : n.name? = some name) (hparen : t.label.kind ≠ "parenthesized_expression") :
    t.label.text source = .ok name := by
  rw [expression_reading] at h
  exact ((Reading.asExpression_form hparen n h).name name hn).2

theorem isFunction_of_expression {t : Tree} {n : Node}
    (h : (t.reading source).expression = .ok n) (hn : n.isFunction = true)
    (hparen : t.label.kind ≠ "parenthesized_expression") : t.isFunction = true := by
  rw [expression_reading] at h
  have hkind := (Reading.asExpression_form hparen n h).function hn
  simp only [List.mem_cons, List.not_mem_nil, or_false] at hkind
  rcases hkind with hkind | hkind | hkind <;> simp [isFunction, hkind]

/-- A subtree that sets a name to a function, but not in the way that a search by name looks for:
by another operator, or with the function or the name in parentheses. -/
def Veiled (t : Tree) : Prop :=
  t.label.kind = "augmented_assignment_expression" ∨
    ∃ field ∈ ["value", "left", "right"], ∃ c, t.childByField? field = some c ∧
      c.label.kind = "parenthesized_expression"

theorem functionName_binding {t target value : Tree} {nameField valueField : String}
    (hfields : t.bindingFields? = some (nameField, valueField))
    (htarget : t.childByField? nameField = some target)
    (hvalue : t.childByField? valueField = some value) (hfunction : value.isFunction = true) :
    t.functionName source = target.label.text source := by
  simp only [functionName, hfields, htarget, hvalue, hfunction, if_true]

end Tree

/-- Whether a node introduces a function under a plain name: the name of a declaration, or an
identifier that is declared or assigned to. -/
def Node.isPlainlyNamed : Node → Bool
  | .functionDeclaration _ id .. => id.isSome
  | .declarator _ id _ => id.name?.isSome
  | .assignment _ _ left _ => left.name?.isSome
  | _ => false

namespace Tree

variable {source : ByteArray} {name : String}

/-- A declaration of a function is found under its name. -/
theorem functionName_of_declaration {t : Tree} {location place : Location} {i : Identifier}
    {params body : List Node} (kind : t.label.kind = "function_declaration")
    (read : (t.reading source).statement =
      .ok (.functionDeclaration location (some i) params place body)) :
    t.functionName source = .ok i.name := by
  rw [statement_reading, Reading.asStatement_function kind] at read
  obtain ⟨⟨id, params', place', body'⟩, hparts, hnode⟩ := bind_eq_ok read
  cases hnode
  obtain ⟨id, hname, hparts⟩ := bind_eq_ok hparts
  obtain ⟨_, -, hparts⟩ := bind_eq_ok hparts
  obtain ⟨_, -, hparts⟩ := bind_eq_ok hparts
  obtain ⟨_, -, hparts⟩ := bind_eq_ok hparts
  cases hparts
  rw [Reading.functionName, byField?_reading] at hname
  cases hc : t.childByField? "name" with
  | none =>
    rw [hc] at hname
    cases hname
  | some c =>
    rw [hc] at hname
    obtain ⟨_, hi, hsome⟩ := bind_eq_ok hname
    cases hsome
    obtain ⟨text, htext, hi⟩ := bind_eq_ok hi
    cases hi
    rw [label_reading] at htext
    simp only [functionName, bindingFields?, kind, isFunction, hc]
    exact htext

/-- A variable is found under its name, unless its function stands in parentheses. -/
theorem functionName_of_declarator {t : Tree} {location : Location} {id init : Node}
    (kind : t.label.kind = "variable_declarator")
    (read : Reading.declarator source (t.reading source) =
      .ok (.declarator location id (some init)))
    (hinit : init.isFunction = true) (hid : id.name? = some name) :
    t.functionName source = .ok name ∨ t.Veiled := by
  rw [Reading.declarator_eq, byField?_reading] at read
  obtain ⟨_, hr, read⟩ := bind_eq_ok read
  obtain ⟨target, htarget, rfl⟩ := byField_reading hr
  obtain ⟨_, hname, read⟩ := bind_eq_ok read
  obtain ⟨_, hvalue, read⟩ := bind_eq_ok read
  cases read
  rw [label_reading] at hname
  have htext : target.label.text source = .ok name := by
    split at hname
    · rename_i hkind
      exact ((Reading.identifier_written (beq_iff_eq.1 hkind) id hname).name name hid).2
    · obtain ⟨text, -, hname⟩ := bind_eq_ok hname
      cases hname
      cases hid
  cases hv : t.childByField? "value" with
  | none =>
    rw [hv] at hvalue
    cases hvalue
  | some value =>
    rw [hv] at hvalue
    obtain ⟨_, hvalue, hsome⟩ := bind_eq_ok hvalue
    cases hsome
    by_cases hparen : value.label.kind = "parenthesized_expression"
    · exact .inr (.inr ⟨"value", by simp, value, hv, hparen⟩)
    · refine .inl ?_
      have hfunction := isFunction_of_expression hvalue hinit hparen
      rw [functionName_binding (by simp [bindingFields?, kind]) htarget hv hfunction, htext]

/-- What is assigned to an identifier is found under its name, unless it or the identifier stands in
parentheses, or the assignment is by another operator. -/
theorem functionName_of_assignment {t : Tree} {location : Location} {operator : String}
    {left right : Node} (kind : t.label.kind = "assignment_expression" ∨
      t.label.kind = "augmented_assignment_expression")
    (read : (t.reading source).expression = .ok (.assignment location operator left right))
    (hright : right.isFunction = true) (hleft : left.name? = some name) :
    t.functionName source = .ok name ∨ t.Veiled := by
  rcases kind with kind | kind
  · rw [expression_reading, Reading.asExpression_assignment kind] at read
    obtain ⟨_, hl, read⟩ := bind_eq_ok read
    obtain ⟨target, htarget, rfl⟩ := byField_reading hl
    obtain ⟨_, hname, read⟩ := bind_eq_ok read
    obtain ⟨_, hr, read⟩ := bind_eq_ok read
    obtain ⟨value, hv, rfl⟩ := byField_reading hr
    obtain ⟨_, hvalue, read⟩ := bind_eq_ok read
    cases read
    by_cases hparen : value.label.kind = "parenthesized_expression"
    · exact .inr (.inr ⟨"right", by simp, value, hv, hparen⟩)
    by_cases htargetParen : target.label.kind = "parenthesized_expression"
    · exact .inr (.inr ⟨"left", by simp, target, htarget, htargetParen⟩)
    · refine .inl ?_
      have hfunction := isFunction_of_expression hvalue hright hparen
      rw [functionName_binding (by simp [bindingFields?, kind]) htarget hv hfunction]
      exact text_of_expression hname hleft htargetParen
  · exact .inr (.inl kind)

/-- A subtree that is read as a node with a plain name is found under this name, if it is not
veiled. -/
theorem functionName_of_readAs {t : Tree} {n fn : Node} (h : t.ReadAs source n)
    (hn : n.Introduces name fn) (hplain : n.isPlainlyNamed = true) :
    t.functionName source = .ok name ∨ t.Veiled := by
  have hname : ∀ {id : Node}, id.name?.isSome = true → id.name? = some id.targetName := by
    intro id hid
    cases id with
    | identifier => rfl
    | _ => cases hid
  cases hn with
  | declaration location id params place body =>
    cases h with
    | declaration kind read =>
      cases id with
      | none => cases hplain
      | some i => exact .inl (functionName_of_declaration kind read)
  | declarator location id hinit =>
    cases h with
    | declarator kind read =>
      exact functionName_of_declarator kind read hinit (hname hplain)
  | assignment location operator left hright =>
    cases h with
    | assignment kind read =>
      exact functionName_of_assignment kind read hright (hname hplain)

/-! ## Undecodable names -/

/-- A name whose text cannot be decoded is all that stops a search. -/
theorem undecodable_of_functionName {t : Tree} {e : Fault}
    (h : t.functionName source = .error e) : ∃ flaw, e = .undecodable flaw ∧
      ∃ c ∈ t.children, c.label.text source = .error (.undecodable flaw) := by
  have htext : ∀ {field : String} {c : Tree}, t.childByField? field = some c →
      c.label.text source = .error e → ∃ flaw, e = .undecodable flaw ∧
        ∃ c ∈ t.children, c.label.text source = .error (.undecodable flaw) := by
    intro field c hc hfault
    obtain ⟨flaw, rfl, -⟩ := c.label.exists_flaw_of_text hfault
    exact ⟨flaw, rfl, c, List.mem_of_find?_eq_some hc, hfault⟩
  unfold functionName at h
  split at h
  · split at h
    · split at h
      · exact htext ‹_› h
      · cases h
    · cases h
  · split at h
    · exact htext ‹_› h
    · cases h

end Tree

/-! ## Located functions -/

/-- What may introduce a function in a program is what a subtree is read as. -/
theorem program_readAs {source : ByteArray} {t : Tree} :
    Yields (t.program source) (Node.Everywhere fun n =>
      n.mayIntroduce = true → ∃ c ∈ t.preorder, c.ReadAs source n) := by
  refine program_everywhere ⟨?_, ?_, ?_⟩ fun c hc n hn _ => ⟨c, hc, hn⟩
  · exact fun _ h => nomatch h
  · exact fun h => nomatch h
  · intro n hplain h
    cases n <;> cases h <;> cases hplain

theorem Node.Introduces.mayIntroduce {n fn : Node} {name : String} (h : n.Introduces name fn) :
    n.mayIntroduce = true := by
  cases h with
  | declaration | declarator | assignment => rfl

/-- A search for the plain name of a node of the program finds a function of this name, or stops at
a name that cannot be decoded, unless the node is read from a veiled subtree. -/
theorem findFunction?_of_introduces {source : ByteArray} {t : Tree} {program n fn : Node}
    {name : String} {path : List Nat} (hprogram : t.program source = .ok program)
    (hn : program.at? path = some n) (hi : n.Introduces name fn)
    (hplain : n.isPlainlyNamed = true) :
    match t.findFunction? source name with
    | .ok (some found) => found ∈ t.preorder ∧ found.functionName source = .ok name
    | .ok none => ∃ c ∈ t.preorder, c.ReadAs source n ∧ c.Veiled
    | .error e => ∃ flaw, e = .undecodable flaw ∧
      ∃ c ∈ t.preorder, c.label.text source = .error (.undecodable flaw) := by
  obtain ⟨c, hc, hread⟩ := ((program_readAs program hprogram).at? hn).here hi.mayIntroduce
  have hsearch : Tree.Finds source name t.preorder (t.findFunction? source name) :=
    Tree.findFunction?_finds t
  cases hfound : t.findFunction? source name with
  | error e =>
    rw [hfound] at hsearch
    obtain ⟨b, hb, he⟩ := hsearch
    obtain ⟨flaw, rfl, child, hchild, htext⟩ := Tree.undecodable_of_functionName he
    exact ⟨flaw, rfl, child, Tree.child_mem_preorder hchild hb, htext⟩
  | ok found =>
    rw [hfound] at hsearch
    cases found with
    | some found =>
      obtain ⟨before, after, hnodes, hname, -⟩ := hsearch
      exact ⟨by simp [hnodes], hname⟩
    | none =>
      have hveiled := (Tree.functionName_of_readAs hread hi hplain).resolve_left (hsearch c hc)
      exact ⟨c, hc, hread, hveiled⟩

/-- A function is not found in a source only if a search of its tree finds none. -/
theorem findFunction?_of_notFound {parse : SourceParser} {source name : String} {t : Tree}
    (ht : readTree parse source = .ok t)
    (h : functionSource parse source name = .error (.functionNotFound name)) :
    t.findFunction? source.toUTF8 name = .ok none := by
  unfold functionSource at h
  rw [ht] at h
  by_cases hempty : name == ""
  · rw [if_pos hempty] at h
    cases h
  · rw [if_neg hempty] at h
    cases hfound : t.findFunction? source.toUTF8 name with
    | error e =>
      simp only [bind, Except.bind, hfound, Failure.ofFault] at h
      cases h
    | ok found =>
      cases found with
      | none => rfl
      | some found =>
        simp only [bind, Except.bind, hfound, Failure.ofFault] at h
        cases htext : found.label.text source.toUTF8 <;> rw [htext] at h <;> cases h

/-- Locating and finding agree on plain names.  A located function is introduced by a node of the
program.  If that gives it a plain name, a search of the tree for the name finds a function of this
name, or stops at a name that cannot be decoded; and if the tree is that of a source, the text of a
function of this name can be had, but for such a fault.  The exception is a node that is read from a
veiled subtree, whose function may not be found. -/
theorem findFunction?_located {source : ByteArray} {t : Tree} {program : Node}
    {annotations : List ParameterDoc} {fs : List LocatedFunction} {f : LocatedFunction}
    (hprogram : t.program source = .ok program)
    (hlocated : locateFunctions program annotations = .ok fs) (hf : f ∈ fs) :
    (∃ p n, program.at? p = some n ∧ f.IntroducedBy annotations n) ∧
    ∀ p n, program.at? p = some n → f.IntroducedBy annotations n → n.isPlainlyNamed = true →
      (match t.findFunction? source f.name with
      | .ok (some found) => found ∈ t.preorder ∧ found.functionName source = .ok f.name
      | .ok none => ∃ c ∈ t.preorder, c.ReadAs source n ∧ c.Veiled
      | .error e => ∃ flaw, e = .undecodable flaw ∧
        ∃ c ∈ t.preorder, c.label.text source = .error (.undecodable flaw)) ∧
      ∀ (parse : SourceParser) (text : String), text.toUTF8 = source →
        readTree parse text = .ok t →
        functionSource parse text f.name = .error (.functionNotFound f.name) →
        ∃ c ∈ t.preorder, c.ReadAs source n ∧ c.Veiled := by
  refine ⟨introducedBy_of_located hlocated hf, fun p n hn hi hplain => ?_⟩
  obtain ⟨fn, hintroduces, -⟩ := hi.introduced
  have hsearch := findFunction?_of_introduces hprogram hn hintroduces hplain
  refine ⟨hsearch, ?_⟩
  rintro parse text rfl ht hmissing
  rw [findFunction?_of_notFound ht hmissing] at hsearch
  exact hsearch

/-! ## Two sources -/

/-- The label of a piece of the second line, when the first line is empty. -/
def Tree.Label.onSecondLine (kind : String) (start stop : Nat) (isNamed : Bool)
    (field : Option String) : Tree.Label :=
  { kind, isNamed, start := ⟨start, 1, start - 1⟩, stop := ⟨stop, 1, stop - 1⟩, field }

/-- The tree of `f=()=>f` on the second line. -/
def arrowTree : Tree :=
  .node (.onSecondLine "program" 1 8 true none) [
    .node (.onSecondLine "expression_statement" 1 8 true none) [
      .node (.onSecondLine "assignment_expression" 1 8 true none) [
        .node (.onSecondLine "identifier" 1 2 true (some "left")) [],
        .node (.onSecondLine "=" 2 3 false none) [],
        .node (.onSecondLine "arrow_function" 3 8 true (some "right")) [
          .node (.onSecondLine "formal_parameters" 3 5 true (some "parameters")) [
            .node (.onSecondLine "(" 3 4 false none) [],
            .node (.onSecondLine ")" 4 5 false none) []],
          .node (.onSecondLine "=>" 5 7 false none) [],
          .node (.onSecondLine "identifier" 7 8 true (some "body")) []]]]]

/-- The assignment in it. -/
def arrowNode : Node :=
  .assignment ⟨2, 0, 2, 7⟩ "=" (.identifier ⟨2, 0, 2, 1⟩ "f")
    (.arrowFunction ⟨2, 2, 2, 7⟩ [] (.identifier ⟨2, 6, 2, 7⟩ "f") true)

/-- The function that is located in it under an annotation on the first line. -/
def arrowLocated : LocatedFunction :=
  ⟨"f", ⟨⟨2, 2, 2, 7⟩, none, [], ⟨2, 6, 2, 7⟩,
    [.returnStatement ⟨2, 6, 2, 7⟩ (some (.identifier ⟨2, 6, 2, 7⟩ "f"))]⟩, {}, []⟩

/-- An arrow function that is assigned to an identifier is located, and found under its name. -/
theorem findFunction?_arrow :
    let program := Node.program ⟨2, 0, 2, 7⟩ [.expressionStatement ⟨2, 0, 2, 7⟩ arrowNode] []
    let annotations : List ParameterDoc := [⟨⟨1, 0, 1, 0⟩, {}, []⟩]
    arrowTree.program "\nf=()=>f".toUTF8 = .ok program ∧
      locateFunctions program annotations = .ok [arrowLocated] ∧
      arrowLocated.IntroducedBy annotations arrowNode ∧
      ∃ found, arrowTree.findFunction? "\nf=()=>f".toUTF8 "f" = .ok (some found) ∧
        found ∈ arrowTree.preorder ∧ found.functionName "\nf=()=>f".toUTF8 = .ok "f" := by
  intro program annotations
  have hcomments : arrowTree.comments "\nf=()=>f".toUTF8 = .ok [] := by
    simp only [Tree.comments, arrowTree, Tree.commentsFrom, List.cons_append, List.nil_append]
    rfl
  have hprogram : arrowTree.program "\nf=()=>f".toUTF8 = .ok program := by
    unfold Tree.program
    rw [hcomments]
    rfl
  have hlocated : locateFunctions program annotations = .ok [arrowLocated] := by
    have hsearch : locateFrom annotations [program] [] = .ok [arrowLocated] := by
      simp [program, annotations, arrowNode, arrowLocated, locateFrom, Node.annotated?,
        Node.introduces?, Node.isFunction, Node.targetName, Node.children,
        ParameterDoc.findAbove?, Node.location, Function.ofNode?]
    unfold locateFunctions
    rw [hsearch]
    exact congrArg Except.ok (List.mergeSort_singleton arrowLocated)
  have hi : arrowLocated.IntroducedBy annotations arrowNode :=
    ⟨⟨_, .assignment _ _ _ rfl, rfl⟩, _,
      ⟨[], [], rfl, rfl, fun _ hl => absurd hl List.not_mem_nil⟩, rfl, rfl⟩
  have hfound : ∃ found, arrowTree.findFunction? "\nf=()=>f".toUTF8 "f" = .ok (some found) :=
    ⟨_, rfl⟩
  obtain ⟨found, hfound⟩ := hfound
  have h := ((findFunction?_located hprogram hlocated List.mem_cons_self).2 [0, 0] arrowNode rfl hi
    rfl).1
  have hname : arrowLocated.name = "f" := rfl
  rw [hname, hfound] at h
  exact ⟨hprogram, hlocated, hi, found, hfound, h⟩

/-- A function in parentheses that is assigned to an annotated name. -/
def veiledSource : String :=
  "/** @param \x7bNumber\x7d n = 3 */\nf = (function (n) \x7b return n; \x7d);\n"

/-- It is located under the name that it is assigned to, and not found under it. -/
theorem functionSource_veiled :
    (∃ t log, locateSource Tree.ofSource veiledSource #[] = .ok [t] log ∧ t.located.name = "f") ∧
      ((readProgram Tree.ofSource veiledSource).toOption.bind fun program =>
        (program.at? [0, 0]).map Node.isPlainlyNamed) = some true ∧
      functionSource Tree.ofSource veiledSource "f" = .error (.functionNotFound "f") := by
  refine ⟨?_, by decide +kernel, ?_⟩
  · have hrun : ((locateSource Tree.ofSource veiledSource).run' #[]).map
        (List.map fun t => t.located.name) = some ["f"] := by
      decide +kernel
    exact located_of_map hrun
  · have hmissing : (match functionSource Tree.ofSource veiledSource "f" with
        | .error (.functionNotFound name) => some name
        | _ => none) = some "f" := by
      decide +kernel
    split at hmissing
    · rename_i name h
      rw [h, Option.some.inj hmissing]
    · cases hmissing

end Chronicle
