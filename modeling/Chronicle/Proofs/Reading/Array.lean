import Chronicle.Proofs.Reading.Stripped
import Chronicle.Proofs.Triple
import Chronicle.Proofs.Value.Normal

/-!
# Holes in arrays

The pieces of an array are slots with commas between them; a slot holds at most one construct, and
any number of comments (`Tree.IsArray`).  Each slot is an element, an empty one a hole, but an empty
last slot is none (`elements_slots`): what is read after a comma is pending until the next one, and
what is pending at the end counts only if it is there.

The elements are evaluated in turn, each once, a hole giving `undefined` (`InTurn`), and the value
of the array is a new sequence of what they gave (`array_elisions`).
-/

set_option autoImplicit false

namespace Chronicle

open Effect

/-! ## Slots -/

namespace Tree

/-- The pieces between two commas: comments, and at most one construct among them. -/
inductive Slot : List Tree → Option Tree → Prop
  | empty {comments : List Tree} (h : ∀ c ∈ comments, c.label.isComment = true) :
    Slot comments none
  | filled {before after : List Tree} {element : Tree}
    (hbefore : ∀ c ∈ before, c.label.isComment = true)
    (hafter : ∀ c ∈ after, c.label.isComment = true)
    (hconstruct : element.label.isConstruct = true) (hcomma : element.label.kind ≠ ",") :
    Slot (before ++ element :: after) (some element)

/-- Slots with commas between them, and the last slot. -/
inductive Slots : List Tree → List (Option Tree) → Option Tree → Prop
  | last {pieces : List Tree} {slot : Option Tree} (h : Slot pieces slot) : Slots pieces [] slot
  | comma {pieces rest : List Tree} {comma : Tree} {slot last : Option Tree}
    {slots : List (Option Tree)} (h : Slot pieces slot) (hcomma : comma.label.kind = ",")
    (hrest : Slots rest slots last) : Slots (pieces ++ comma :: rest) (slot :: slots) last

/-- A token of a kind. -/
def IsToken (kind : String) (t : Tree) : Prop :=
  t.label.kind = kind ∧ t.label.isNamed = false

/-- An array: slots between brackets. -/
inductive IsArray : Tree → List (Option Tree) → Option Tree → Prop
  | mk {l : Label} {opening closing : Tree} {pieces : List Tree} {slots : List (Option Tree)}
    {last : Option Tree} (hkind : l.kind = "array") (hopening : opening.IsToken "[")
    (hclosing : closing.IsToken "]") (h : Slots pieces slots last) :
    IsArray (.node l (opening :: (pieces ++ [closing]))) slots last

/-- How many commas there are right below a node. -/
def commas (t : Tree) : Nat :=
  t.children.countP (·.label.kind == ",")

/-- The slots that are elements: all but an empty last one. -/
def elementSlots (slots : List (Option Tree)) (last : Option Tree) : List (Option Tree) :=
  slots ++ if last.isSome then [last] else []

end Tree

namespace Reading

open Chronicle.Tree

variable {source : ByteArray} {current : Option Node}

/-- Comments change nothing. -/
theorem elements_comments {comments : List Tree} (h : ∀ c ∈ comments, c.label.isComment = true)
    (rest : List Reading) :
    elements current (readings source comments ++ rest) = elements current rest := by
  induction comments with
  | nil => rfl
  | cons c comments ih =>
    obtain ⟨hc, hcomments⟩ := List.forall_mem_cons.1 h
    have hkind : c.label.kind = "comment" := by simpa [Label.isComment] using hc
    rw [readings, List.cons_append, elements, label_reading, hkind, if_neg (by decide),
      if_neg (by simp [Label.isConstruct, hc]), ih hcomments]

/-- A construct becomes the pending element. -/
theorem elements_construct {element : Tree} (hconstruct : element.label.isConstruct = true)
    (hcomma : element.label.kind ≠ ",") (rest : List Reading) :
    elements current (element.reading source :: rest) =
      (element.reading source).expression >>= fun node => elements (some node) rest := by
  rw [elements, label_reading, if_neg (by simpa using hcomma), if_pos hconstruct]

theorem elements_comma {comma : Tree} (hcomma : comma.label.kind = ",") (rest : List Reading) :
    elements current (comma.reading source :: rest) =
      elements none rest >>= fun nodes => pure (current :: nodes) := by
  rw [elements, label_reading, if_pos (by simpa using hcomma)]

/-- The end of an array: what is pending counts if it is there. -/
theorem elements_closing {closing : Tree} (h : closing.IsToken "]") :
    elements current [closing.reading source] = .ok (if current.isSome then [current] else []) := by
  rw [elements, label_reading, h.1, if_neg (by decide),
    if_neg (by simp [Label.isConstruct, h.2])]
  cases current <;> rfl

/-- The element that a slot is read as: a hole, or what its construct is. -/
def slotElement (source : ByteArray) (slot : Option Tree) : Except Fault (Option Node) :=
  slot.mapM fun element => (element.reading source).expression

theorem readings_append (ts us : List Tree) :
    readings source (ts ++ us) = readings source ts ++ readings source us := by
  rw [readings_eq_map, readings_eq_map, readings_eq_map, List.map_append]

/-- After the pieces of a slot, its element is pending. -/
theorem elements_slot {pieces : List Tree} {slot : Option Tree} (h : Slot pieces slot)
    (rest : List Reading) : elements none (readings source pieces ++ rest) =
      slotElement source slot >>= fun element => elements element rest := by
  cases h with
  | empty h => rw [elements_comments h]; rfl
  | @filled before after element hbefore hafter hconstruct hcomma =>
    rw [readings_append, List.append_assoc, elements_comments hbefore, readings, List.cons_append,
      elements_construct hconstruct hcomma]
    simp only [elements_comments hafter]
    show _ = (element.reading source).expression.map some >>= _
    cases (element.reading source).expression <;> rfl

/-- The slots between the brackets are read in order. -/
theorem elements_slots {pieces : List Tree} {slots : List (Option Tree)} {last : Option Tree}
    {closing : Tree} (hclosing : closing.IsToken "]") (h : Slots pieces slots last) :
    elements none (readings source (pieces ++ [closing])) =
      (elementSlots slots last).mapM (slotElement source) := by
  induction h with
  | @last pieces slot h =>
    rw [readings_append, elements_slot h]
    show (slotElement source slot >>= fun e => elements e [closing.reading source]) = _
    simp only [elements_closing hclosing]
    cases slot with
    | none => rfl
    | some element =>
      rw [elementSlots, List.nil_append, Option.isSome_some, if_pos rfl, List.mapM_cons]
      show ((element.reading source).expression.map some >>= _) =
        ((element.reading source).expression.map some >>= _)
      cases (element.reading source).expression <;> rfl
  | @comma pieces rest comma slot last slots h hcomma hrest ih =>
    rw [List.append_assoc, readings_append, elements_slot h, List.cons_append, readings]
    simp only [elements_comma hcomma, ih, elementSlots, List.cons_append, List.mapM_cons]

end Reading

namespace Tree

theorem countP_comments {comments : List Tree} (h : ∀ c ∈ comments, c.label.isComment = true) :
    comments.countP (·.label.kind == ",") = 0 := by
  refine List.countP_eq_zero.2 fun c hc => ?_
  have hkind : c.label.kind = "comment" := by simpa [Label.isComment] using h c hc
  rw [hkind]
  decide

theorem Slot.countP {pieces : List Tree} {slot : Option Tree} (h : Slot pieces slot) :
    pieces.countP (·.label.kind == ",") = 0 := by
  cases h with
  | empty h => exact countP_comments h
  | filled hbefore hafter hconstruct hcomma =>
    rw [List.countP_append, countP_comments hbefore, List.countP_cons, countP_comments hafter,
      if_neg (by simpa using hcomma)]

theorem Slots.countP {pieces : List Tree} {slots : List (Option Tree)} {last : Option Tree}
    (h : Slots pieces slots last) : pieces.countP (·.label.kind == ",") = slots.length := by
  induction h with
  | last h => exact h.countP
  | comma h hcomma hrest ih =>
    rw [List.countP_append, h.countP, List.countP_cons, ih, if_pos (by simpa using hcomma),
      List.length_cons]
    omega

variable {t : Tree} {slots : List (Option Tree)} {last : Option Tree}

/-- Every slot but the last one ends in a comma. -/
theorem IsArray.commas_eq (h : t.IsArray slots last) : t.commas = slots.length := by
  cases h with
  | mk hkind hopening hclosing h =>
    rw [commas, children, List.countP_cons, List.countP_append, h.countP, List.countP_cons,
      hopening.1, hclosing.1]
    rfl

/-- The elements of an array are its slots in order, but for an empty last one. -/
theorem IsArray.expression_eq (h : t.IsArray slots last) (source : ByteArray) :
    (t.reading source).expression =
      ((elementSlots slots last).mapM (Reading.slotElement source)).map
        (.array t.label.location) := by
  cases h with
  | @mk l opening closing pieces slots last hkind hopening hclosing h =>
    have hopen : Reading.elements none (readings source (opening :: (pieces ++ [closing]))) =
        Reading.elements none (readings source (pieces ++ [closing])) := by
      rw [readings, Reading.elements, label_reading, hopening.1, if_neg (by decide),
        if_neg (by simp [Label.isConstruct, hopening.2])]
    rw [reading, Reading.expression, Reading.asExpression, hkind]
    show Reading.array l _ = _
    rw [Reading.array, hopen, Reading.elements_slots hclosing h, label]
    rfl

end Tree

/-! ## Evaluation -/

/-- Elements are evaluated in turn, each in the world that the one before it left: a hole gives
`undefined`, and the others give their values. -/
inductive InTurn (scope : ScopeId) (step : Int) :
    List (Option Node) → List Value → World → World → Prop
  | nil (w : World) : InTurn scope step [] [] w w
  | hole {elements : List (Option Node)} {values : List Value} {w w' : World}
    (h : InTurn scope step elements values w w') :
    InTurn scope step (none :: elements) (.undefined :: values) w w'
  | element {node : Node} {v : Value} {elements : List (Option Node)} {values : List Value}
    {w w₁ w' : World} (hnode : evaluate scope step node w = .ok v w₁)
    (h : InTurn scope step elements values w₁ w') :
    InTurn scope step (some node :: elements) (v :: values) w w'

section
variable {scope : ScopeId} {step : Int} {elements : List (Option Node)} {values : List Value}
variable {w w' : World} {v : Value}

theorem InTurn.length (h : InTurn scope step elements values w w') :
    values.length = elements.length := by
  induction h with
  | nil => rfl
  | hole _ ih | element _ _ ih => rw [List.length_cons, List.length_cons, ih]

theorem evaluateElements_ok_iff : evaluateElements scope step elements w = .ok values w' ↔
    InTurn scope step elements values w w' := by
  induction elements generalizing values w with
  | nil =>
    constructor
    · intro h
      cases h
      exact .nil _
    · intro h
      cases h
      rfl
  | cons element elements ih =>
    constructor
    · intro h
      rw [evaluateElements] at h
      obtain ⟨v, w₁, hv, h⟩ := ok_of_bind h
      obtain ⟨vs, w₂, hvs, h⟩ := ok_of_bind h
      cases h
      cases element with
      | none =>
        cases hv
        exact .hole (ih.1 hvs)
      | some node => exact .element hv (ih.1 hvs)
    · intro h
      rw [evaluateElements]
      cases h with
      | hole h =>
        rw [evaluateOption, pure_bind, bind_of_ok (ih.2 h)]
        rfl
      | element hnode h =>
        rw [evaluateOption, bind_of_ok hnode, bind_of_ok (ih.2 h)]
        rfl

/-- An array has a value just in case its elements have, in turn; the value is a new sequence of
theirs. -/
theorem evaluate_array_ok_iff {location : Location} :
    evaluate scope step (.array location elements) w = .ok v w' ↔
      ∃ values w₁, InTurn scope step elements values w w₁ ∧
        newSequence values w₁ = .ok v w' := by
  rw [evaluate]
  constructor
  · intro h
    obtain ⟨values, w₁, hvalues, h⟩ := ok_of_bind h
    exact ⟨values, w₁, evaluateElements_ok_iff.1 hvalues, h⟩
  · rintro ⟨values, w₁, hvalues, h⟩
    rw [bind_of_ok (evaluateElements_ok_iff.2 hvalues), h]

end

/-- The elements of an array are its slots in order, an empty slot being a hole and an empty last
one no element; so there are as many as commas, and one more if the last slot is filled.  An array
has a value just when its elements have values in turn, each evaluated once; it is a new sequence of
these, with `undefined` for each hole. -/
theorem array_elisions (source : ByteArray) {t : Tree} {slots : List (Option Tree)}
    {last : Option Tree} (h : t.IsArray slots last) :
    (t.reading source).expression =
      ((Tree.elementSlots slots last).mapM (Reading.slotElement source)).map
        (.array t.label.location) ∧
    ∀ elements, (t.reading source).expression = .ok (.array t.label.location elements) →
      elements.length = t.commas + (if last.isSome then 1 else 0) ∧
      ∀ scope step w v w', evaluate scope step (.array t.label.location elements) w = .ok v w' ↔
        ∃ a values w₁, InTurn scope step elements values w w₁ ∧ newSequence values w₁ = .ok v w' ∧
          v = .sequence a ∧ w'.heap.items a = values ∧ values.length = elements.length := by
  refine ⟨h.expression_eq source, fun elements helements => ?_⟩
  rw [h.expression_eq source] at helements
  cases hread : (Tree.elementSlots slots last).mapM (Reading.slotElement source) with
  | error f =>
    rw [hread] at helements
    cases helements
  | ok read =>
    rw [hread] at helements
    cases helements
    have hall := forall₂_of_mapM_eq_ok hread
    refine ⟨?_, fun scope step w v w' => ⟨fun hv => ?_, ?_⟩⟩
    · rw [← hall.length_eq, Tree.elementSlots, List.length_append, h.commas_eq]
      split <;> rfl
    · obtain ⟨values, w₁, hvalues, hnew⟩ := evaluate_array_ok_iff.1 hv
      have hnew' := hnew
      cases hnew'
      exact ⟨w₁.heap.sequences.size, values, w₁, hvalues, hnew, rfl,
        w₁.heap.items_newSequence_size values, hvalues.length⟩
    · rintro ⟨_, values, w₁, hvalues, hnew, -⟩
      exact evaluate_array_ok_iff.2 ⟨values, w₁, hvalues, hnew⟩

/-- The tree of `[,true/**/,,]`. -/
def elisionsTree : Tree :=
  .node (.spanning "array" 0 13 true) [
    .node (.spanning "[" 0 1 false) [],
    .node (.spanning "," 1 2 false) [],
    .node (.spanning "true" 2 6 true) [],
    .node (.spanning "comment" 6 10 true) [],
    .node (.spanning "," 10 11 false) [],
    .node (.spanning "," 11 12 false) [],
    .node (.spanning "]" 12 13 false) []]

theorem array_elisions_commented :
    let element := Tree.node (.spanning "true" 2 6 true) []
    let node := Node.literal ⟨1, 2, 1, 6⟩ (.boolean true) "true"
    elisionsTree.IsArray [none, some element, none] none ∧
      (elisionsTree.reading "[,true/**/,,]".toUTF8).expression =
        .ok (.array ⟨1, 0, 1, 13⟩ [none, some node, none]) ∧
      elisionsTree.commas = 3 ∧
      ∃ w₁ w', InTurn 0 1 [none, some node, none] [.undefined, .boolean true, .undefined] {} w₁ ∧
        evaluate 0 1 (.array ⟨1, 0, 1, 13⟩ [none, some node, none]) {} = .ok (.sequence 0) w' ∧
        w'.heap.items 0 = [.undefined, .boolean true, .undefined] := by
  intro element node
  let comment := Tree.node (.spanning "comment" 6 10 true) []
  have hempty : Tree.Slot [] none := .empty nofun
  have hfilled : Tree.Slot [element, comment] (some element) :=
    @Tree.Slot.filled [] [comment] element nofun (List.forall_mem_singleton.2 rfl) rfl (by decide)
  have hslots : Tree.Slots ([] ++ .node (.spanning "," 1 2 false) [] :: ([element, comment] ++
      .node (.spanning "," 10 11 false) [] :: ([] ++ .node (.spanning "," 11 12 false) [] :: [])))
      [none, some element, none] none :=
    .comma hempty rfl (.comma hfilled rfl (.comma hempty rfl (.last hempty)))
  have harray : elisionsTree.IsArray [none, some element, none] none :=
    .mk rfl ⟨rfl, rfl⟩ ⟨rfl, rfl⟩ hslots
  have hread : (elisionsTree.reading "[,true/**/,,]".toUTF8).expression =
      .ok (.array ⟨1, 0, 1, 13⟩ [none, some node, none]) := rfl
  obtain ⟨hlength, hevaluates⟩ :=
    (array_elisions "[,true/**/,,]".toUTF8 harray).2 [none, some node, none] hread
  obtain ⟨a, values, w₁, hvalues, -, hvalue, hitems, -⟩ := (hevaluates 0 1 {} _ _).1 rfl
  cases hvalue
  cases hitems
  exact ⟨harray, hread, hlength.symm, w₁, _, hvalues, rfl, rfl⟩

end Chronicle
