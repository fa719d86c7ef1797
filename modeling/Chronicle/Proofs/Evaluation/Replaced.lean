import Chronicle.Proofs.Evaluation.Parts

/-!
# Constructs that are not interpreted, in expressions

`Node.Replaced n n'`: `n'` is `n` with some of its unsupported nodes replaced by other nodes.  A
node that is interpreted keeps its form, so the forms of parts that evaluation looks at are those of
`n` wherever `n` is interpreted at all.

`Covers e e'`: the computation `e'` goes as `e` does, unless `e` is turned away by a construct that
is not interpreted.  `evaluate_covers` says so of an expression and its replacement.
-/

set_option autoImplicit false

namespace Chronicle

open Effect

/-! ## Replacements -/

/-- Whether a node stands for a construct that is not interpreted. -/
def Node.isUnsupported : Node → Bool
  | .unsupported .. => true
  | _ => false

mutual

/-- The second node is the first with some of its unsupported nodes replaced. -/
inductive Node.Replaced : Node → Node → Prop
  | unsupported (location : Location) (form text : String) (node : Node) :
    Replaced (.unsupported location form text) node
  | same (node : Node) : Replaced node node
  | program {location : Location} {body body' : List Node} {comments : List Comment}
    (hbody : Node.ReplacedAll body body') :
    Replaced (.program location body comments) (.program location body' comments)
  | block {location : Location} {body body' : List Node} (hbody : Node.ReplacedAll body body') :
    Replaced (.block location body) (.block location body')
  | functionDeclaration {location bodyLocation : Location} {id : Option Identifier}
    {params params' body body' : List Node} (hparams : Node.ReplacedAll params params')
    (hbody : Node.ReplacedAll body body') :
    Replaced (.functionDeclaration location id params bodyLocation body)
      (.functionDeclaration location id params' bodyLocation body')
  | declarator {location : Location} {id id' : Node} {init init' : Option Node}
    (hid : Node.Replaced id id') (hinit : Node.ReplacedOption init init') :
    Replaced (.declarator location id init) (.declarator location id' init')
  | declaration {location : Location} {kind : String} {declarators declarators' : List Node}
    (hdeclarators : Node.ReplacedAll declarators declarators') :
    Replaced (.declaration location kind declarators) (.declaration location kind declarators')
  | ifStatement {location : Location} {test test' consequent consequent' : Node}
    {alternate alternate' : Option Node} (htest : Node.Replaced test test')
    (hconsequent : Node.Replaced consequent consequent')
    (halternate : Node.ReplacedOption alternate alternate') :
    Replaced (.ifStatement location test consequent alternate)
      (.ifStatement location test' consequent' alternate')
  | whileStatement {location : Location} {test test' body body' : Node}
    (htest : Node.Replaced test test') (hbody : Node.Replaced body body') :
    Replaced (.whileStatement location test body) (.whileStatement location test' body')
  | forStatement {location : Location} {init init' test test' update update' : Option Node}
    {body body' : Node} (hinit : Node.ReplacedOption init init')
    (htest : Node.ReplacedOption test test') (hupdate : Node.ReplacedOption update update')
    (hbody : Node.Replaced body body') :
    Replaced (.forStatement location init test update body)
      (.forStatement location init' test' update' body')
  | expressionStatement {location : Location} {expression expression' : Node}
    (hexpression : Node.Replaced expression expression') :
    Replaced (.expressionStatement location expression) (.expressionStatement location expression')
  | returnStatement {location : Location} {argument argument' : Option Node}
    (hargument : Node.ReplacedOption argument argument') :
    Replaced (.returnStatement location argument) (.returnStatement location argument')
  | array {location : Location} {elements elements' : List (Option Node)}
    (helements : Node.ReplacedElements elements elements') :
    Replaced (.array location elements) (.array location elements')
  | property {location : Location} {key key' : Node} {value value' : Option Node} {kind : String}
    {computed shorthand : Bool} (hkey : Node.Replaced key key')
    (hvalue : Node.ReplacedOption value value') :
    Replaced (.property location key value kind computed shorthand)
      (.property location key' value' kind computed shorthand)
  | object {location : Location} {properties properties' : List Node}
    (hproperties : Node.ReplacedMembers properties properties') :
    Replaced (.object location properties) (.object location properties')
  | new {location : Location} {callee callee' : Node} {arguments arguments' : List Node}
    (hcallee : Node.Replaced callee callee') (harguments : Node.ReplacedAll arguments arguments') :
    Replaced (.new location callee arguments) (.new location callee' arguments')
  | update {location : Location} {operator : String} {leading : Bool} {argument argument' : Node}
    (hargument : Node.Replaced argument argument') :
    Replaced (.update location operator leading argument)
      (.update location operator leading argument')
  | unary {location : Location} {operator : String} {argument argument' : Node}
    (hargument : Node.Replaced argument argument') :
    Replaced (.unary location operator argument) (.unary location operator argument')
  | binary {location : Location} {operator : String} {left left' right right' : Node}
    (hleft : Node.Replaced left left') (hright : Node.Replaced right right') :
    Replaced (.binary location operator left right) (.binary location operator left' right')
  | assignment {location : Location} {operator : String} {left left' right right' : Node}
    (hleft : Node.Replaced left left') (hright : Node.Replaced right right') :
    Replaced (.assignment location operator left right)
      (.assignment location operator left' right')
  | member {location : Location} {object object' property property' : Node} {computed : Bool}
    (hobject : Node.Replaced object object') (hproperty : Node.Replaced property property') :
    Replaced (.member location object property computed)
      (.member location object' property' computed)
  | call {location : Location} {callee callee' : Node} {arguments arguments' : List Node}
    (hcallee : Node.Replaced callee callee') (harguments : Node.ReplacedAll arguments arguments') :
    Replaced (.call location callee arguments) (.call location callee' arguments')
  | functionExpression {location bodyLocation : Location} {id : Option Identifier}
    {params params' body body' : List Node} (hparams : Node.ReplacedAll params params')
    (hbody : Node.ReplacedAll body body') :
    Replaced (.functionExpression location id params bodyLocation body)
      (.functionExpression location id params' bodyLocation body')
  | arrowFunction {location : Location} {params params' : List Node} {body body' : Node}
    {isExpression : Bool} (hparams : Node.ReplacedAll params params')
    (hbody : Node.Replaced body body') :
    Replaced (.arrowFunction location params body isExpression)
      (.arrowFunction location params' body' isExpression)

/-- A node that may be missing; it is missing from both or from neither. -/
inductive Node.ReplacedOption : Option Node → Option Node → Prop
  | none : ReplacedOption none none
  | some {node node' : Node} (h : Node.Replaced node node') :
    ReplacedOption (some node) (some node')

/-- Nodes in order. -/
inductive Node.ReplacedAll : List Node → List Node → Prop
  | nil : ReplacedAll [] []
  | cons {node node' : Node} {rest rest' : List Node} (h : Node.Replaced node node')
    (hrest : Node.ReplacedAll rest rest') : ReplacedAll (node :: rest) (node' :: rest')

/-- Elements in order, with holes in the same places. -/
inductive Node.ReplacedElements : List (Option Node) → List (Option Node) → Prop
  | nil : ReplacedElements [] []
  | cons {element element' : Option Node} {rest rest' : List (Option Node)}
    (h : Node.ReplacedOption element element') (hrest : Node.ReplacedElements rest rest') :
    ReplacedElements (element :: rest) (element' :: rest')

/-- Members of an object in order.  A member is a property, so no unsupported node stands in its
place; its key and its value may hold some. -/
inductive Node.ReplacedMembers : List Node → List Node → Prop
  | nil : ReplacedMembers [] []
  | cons {node node' : Node} {rest rest' : List Node} (hmember : node.isUnsupported = false)
    (h : Node.Replaced node node') (hrest : Node.ReplacedMembers rest rest') :
    ReplacedMembers (node :: rest) (node' :: rest')

end

namespace Node

variable {n n' : Node}

theorem isUnsupported_iff :
    n.isUnsupported = true ↔ ∃ location form text, n = .unsupported location form text := by
  constructor
  · intro h
    cases n with
    | unsupported location form text => exact ⟨location, form, text, rfl⟩
    | _ => cases h
  · rintro ⟨_, _, _, rfl⟩
    rfl

/-! A node that is interpreted keeps its form. -/

theorem Replaced.identifier_eq {location : Location} {name : String}
    (h : Replaced (.identifier location name) n') : n' = .identifier location name := by
  cases h
  rfl

theorem Replaced.member_cases {location : Location} {object property : Node} {computed : Bool}
    (h : Replaced (.member location object property computed) n') :
    ∃ object' property', n' = .member location object' property' computed ∧
      object.Replaced object' ∧ property.Replaced property' := by
  cases h with
  | same => exact ⟨object, property, rfl, .same _, .same _⟩
  | member ho hp => exact ⟨_, _, rfl, ho, hp⟩

theorem Replaced.property_cases {location : Location} {key : Node} {value : Option Node}
    {kind : String} {computed shorthand : Bool}
    (h : Replaced (.property location key value kind computed shorthand) n') :
    ∃ key' value', n' = .property location key' value' kind computed shorthand ∧
      key.Replaced key' ∧ ReplacedOption value value' := by
  cases h with
  | same =>
    refine ⟨key, value, rfl, .same _, ?_⟩
    cases value with
    | none => exact .none
    | some node => exact .some (.same node)
  | property hk hv => exact ⟨_, _, rfl, hk, hv⟩

/-- A member that takes part took part before. -/
theorem Replaced.field_of {location : Location} {key value : Node} {kind : String}
    {computed shorthand : Bool} (h : n.Replaced n')
    (hn' : n' = .property location key (some value) kind computed shorthand)
    (hn : n.isUnsupported = false) :
    ∃ l k v c s, n = .property l k (some v) kind c s := by
  subst hn'
  cases h with
  | unsupported => cases hn
  | same => exact ⟨_, _, _, _, _, rfl⟩
  | property hk hv =>
    cases hv
    exact ⟨_, _, _, _, _, rfl⟩

theorem ReplacedAll.length_eq {l l' : List Node} (h : ReplacedAll l l') : l.length = l'.length := by
  induction l generalizing l' with
  | nil =>
    cases h
    rfl
  | cons node rest ih =>
    cases h with
    | cons _ hrest => rw [List.length_cons, List.length_cons, ih hrest]

theorem Replaced.name?_eq (h : n.Replaced n') (hn : n.isUnsupported = false) :
    n'.name? = n.name? := by
  cases h <;> first | rfl | cases hn

theorem Replaced.receiverName?_eq (h : n.Replaced n') (hn : n.isUnsupported = false) :
    n'.receiverName? = n.receiverName? := by
  cases h <;> first | rfl | cases hn

/-- What has a variable of its own is a name or the receiver, and stays so. -/
theorem Replaced.eq_of_receiverName? (h : n.Replaced n') {name : String}
    (hn : n.receiverName? = some name) : n' = n := by
  cases n with
  | identifier | thisValue =>
    cases h
    rfl
  | _ => cases hn

end Node

/-! ## Runs that are turned away -/

/-- Whether a run fails at a statement, an expression, a construction or a call that is not
interpreted. -/
def Cause.isUnsupported : Cause → Bool
  | .unsupportedStatement _ | .unsupportedExpression _ | .unsupportedConstructor _
  | .unsupportedCall _ => true
  | _ => false

/-- Whether a run stops at a construct that is not interpreted, or at a part without the name that
it should have. -/
def Stop.turnsAway : Stop → Bool
  | .error e => e.cause.isUnsupported
  | .fault f => f == .noProperty

section
variable {σ α β : Type}

/-- A computation that was turned away. -/
def TurnedAway : EStateM.Result Stop σ α → Prop
  | .ok _ _ => False
  | .error x _ => x.turnsAway = true

theorem TurnedAway.bind {e : EStateM Stop σ α} {s : σ} (h : TurnedAway (e s))
    (f : α → EStateM Stop σ β) : TurnedAway ((e >>= f) s) := by
  show TurnedAway (EStateM.bind e f s)
  unfold EStateM.bind
  cases hr : e s with
  | ok a s' =>
    rw [hr] at h
    exact h.elim
  | error x s' =>
    rw [hr] at h
    exact h

/-- `e'` goes as `e` does, unless `e` is turned away. -/
def Covers (e e' : EStateM Stop σ α) : Prop :=
  ∀ s, TurnedAway (e s) ∨ e' s = e s

namespace Covers

theorem refl (e : EStateM Stop σ α) : Covers e e := fun _ => .inr rfl

/-- Whatever is turned away at once is covered by everything. -/
theorem throw {x : Stop} (hx : x.turnsAway = true) (e' : EStateM Stop σ α) :
    Covers (throw x) e' :=
  fun _ => .inl hx

theorem bind {e e' : EStateM Stop σ α} {f f' : α → EStateM Stop σ β} (he : Covers e e')
    (hf : ∀ a, Covers (f a) (f' a)) : Covers (e >>= f) (e' >>= f') := by
  intro s
  rcases he s with h | h
  · exact .inl (h.bind f)
  · show TurnedAway (EStateM.bind e f s) ∨ EStateM.bind e' f' s = EStateM.bind e f s
    unfold EStateM.bind
    rw [h]
    cases e s with
    | ok a s' => exact hf a s'
    | error x s' => exact .inr rfl

/-- What comes first is the same. -/
theorem after (e : EStateM Stop σ α) {f f' : α → EStateM Stop σ β}
    (hf : ∀ a, Covers (f a) (f' a)) : Covers (e >>= f) (e >>= f') :=
  (refl e).bind hf

/-- What comes after is the same. -/
theorem before {e e' : EStateM Stop σ α} (he : Covers e e') (f : α → EStateM Stop σ β) :
    Covers (e >>= f) (e' >>= f) :=
  he.bind fun a => refl (f a)

theorem ite {c : Prop} [Decidable c] {e e' f f' : EStateM Stop σ α} (he : Covers e e')
    (hf : Covers f f') : Covers (if c then e else f) (if c then e' else f') := by
  by_cases h : c
  · rw [if_pos h, if_pos h]
    exact he
  · rw [if_neg h, if_neg h]
    exact hf

end Covers

end

/-! ## Parts of expressions -/

section
variable {α : Type}

theorem covers_fail {cause : Cause} {location : Option Location}
    (hc : (Stop.because cause location).turnsAway = true) (e' : Effect α) :
    Covers (fail cause location) e' :=
  .throw hc e'

/-- A name that is asked for is there, or the run is turned away. -/
theorem covers_propertyName {n n' : Node} (h : n.Replaced n') :
    Covers (propertyName n) (propertyName n') := by
  by_cases hn : n.isUnsupported = true
  · obtain ⟨location, form, text, rfl⟩ := Node.isUnsupported_iff.1 hn
    exact .throw rfl _
  · rw [Bool.not_eq_true] at hn
    unfold propertyName
    rw [h.name?_eq hn]
    exact .refl _

theorem covers_keyOf {computed : Bool} {key key' : Effect Value} {property property' : Node}
    (hk : Covers key key') (hp : property.Replaced property') :
    Covers (keyOf computed key property) (keyOf computed key' property') :=
  .ite hk ((covers_propertyName hp).before _)

theorem covers_fieldName {computed : Bool} {value value' : Effect Value} {key key' : Node}
    (hv : Covers value value') (hk : key.Replaced key') :
    Covers (fieldName computed value key) (fieldName computed value' key') := by
  refine .ite (hv.before _) ?_
  cases key with
  | identifier | literal =>
    cases hk
    exact .refl _
  | _ => exact covers_fail rfl _

theorem covers_compound {right right' : Effect Value} (operator : String) (current : Value)
    (location : Location) (h : Covers right right') :
    Covers (compound operator current right location) (compound operator current right' location) :=
  .ite h (.ite (.refl _) (h.before _))

end

/-! ## Expressions -/

section
variable {scope : ScopeId} {step : Int}

/-- Evaluation of an unsupported node is turned away. -/
theorem turnedAway_unsupported {n : Node} (hn : n.isUnsupported = true) (w : World) :
    TurnedAway (evaluate scope step n w) := by
  obtain ⟨location, form, text, rfl⟩ := Node.isUnsupported_iff.1 hn
  exact rfl

/-- Only what cannot be evaluated gets another owner. -/
theorem turnedAway_of_owner_ne {object object' : Node} (h : object.Replaced object')
    (hne : object'.sequenceOwner? ≠ object.sequenceOwner?) (w : World) :
    TurnedAway (evaluate scope step object w) := by
  cases h with
  | unsupported location form text => exact turnedAway_unsupported rfl w
  | @member location receiver receiver' property property' computed hr hp =>
    have hn : receiver.isUnsupported = true := by
      rw [← Bool.not_eq_false]
      intro hn
      exact hne (hr.receiverName?_eq hn)
    exact (turnedAway_unsupported hn w).bind _
  | _ => exact absurd rfl hne

/-- A method call on a receiver, after the receiver and the arguments are evaluated. -/
theorem covers_callMethod {object object' : Node} {args args' : Effect (List Value)}
    (method : String) (location : Location) (h : object.Replaced object')
    (he : Covers (evaluate scope step object) (evaluate scope step object'))
    (ha : Covers args args') :
    Covers
      (do
        let receiver ← evaluate scope step object
        let vs ← args
        callMethod scope object receiver method vs step location)
      (do
        let receiver ← evaluate scope step object'
        let vs ← args'
        callMethod scope object' receiver method vs step location) := by
  by_cases howner : object'.sequenceOwner? = object.sequenceOwner?
  · refine he.bind fun receiver => ha.bind fun vs => ?_
    unfold callMethod
    rw [howner]
    exact .refl _
  · intro w
    exact .inl ((turnedAway_of_owner_ne h howner w).bind _)

/-- A call of a function of a global object, or of a method of the receiver. -/
theorem covers_callOn {object object' : Node} {args args' : Effect (List Value)}
    (method : String) (location : Location) (h : object.Replaced object')
    (he : Covers (evaluate scope step object) (evaluate scope step object'))
    (ha : Covers args args') :
    Covers (callOn scope step object method location (evaluate scope step object) args)
      (callOn scope step object' method location (evaluate scope step object') args') := by
  by_cases hn : object.isUnsupported = true
  · obtain ⟨l, form, text, rfl⟩ := Node.isUnsupported_iff.1 hn
    exact fun _ => .inl rfl
  · rw [Bool.not_eq_true] at hn
    have hglobal : globalReceiver? scope object' = globalReceiver? scope object := by
      unfold globalReceiver?
      rw [h.name?_eq hn]
    unfold callOn
    rw [hglobal]
    refine .after _ fun name? => ?_
    cases name? with
    | some name => exact ha.before _
    | none => exact covers_callMethod method location h he ha

mutual

/-- An expression goes as its replacement does, unless it is turned away. -/
theorem evaluate_covers :
    ∀ n n' : Node, n.Replaced n' → Covers (evaluate scope step n) (evaluate scope step n')
  | .unsupported .., _, _ => covers_fail rfl _
  | .literal .., _, h => by
    cases h
    exact .refl _
  | .identifier .., _, h => by
    cases h
    exact .refl _
  | .thisValue .., _, h => by
    cases h
    exact .refl _
  | .declarator _ id init, _, h => by
    cases h with
    | same => exact .refl _
    | declarator hid hinit =>
      by_cases hname : id.name?.isSome
      · cases id with
        | identifier location name =>
          rw [hid.identifier_eq]
          exact (evaluateOption_covers _ _ hinit).before _
        | _ => cases hname
      · cases id with
        | identifier => exact absurd rfl hname
        | _ => exact covers_fail rfl _
  | .array _ elements, _, h => by
    cases h with
    | same => exact .refl _
    | array helements => exact (evaluateElements_covers _ _ helements).before _
  | .object _ properties, _, h => by
    cases h with
    | same => exact .refl _
    | object hproperties => exact (evaluateProperties_covers _ _ hproperties []).before _
  | .new _ callee arguments, _, h => by
    cases h with
    | same => exact .refl _
    | new hcallee harguments =>
      cases harguments with
      | nil => exact .refl _
      | @cons argument argument' rest rest' hargument hrest =>
        cases hrest with
        | cons => exact covers_fail rfl _
        | nil =>
          by_cases hn : callee.isUnsupported = true
          · obtain ⟨l, form, text, rfl⟩ := Node.isUnsupported_iff.1 hn
            exact covers_fail rfl _
          · rw [Bool.not_eq_true] at hn
            simp only [evaluate]
            rw [hcallee.name?_eq hn]
            split
            · refine (evaluate_covers _ _ hargument).bind fun size => .after _ fun length => ?_
              cases length with
              | some n => exact .refl _
              | none => exact covers_fail rfl _
            · exact covers_fail rfl _
  | .update _ operator leading argument, _, h => by
    cases h with
    | same => exact .refl _
    | update hargument =>
      cases argument with
      | identifier location name =>
        rw [hargument.identifier_eq]
        exact .refl _
      | _ => exact covers_fail rfl _
  | .unary location operator argument, _, h => by
    cases h with
    | same => exact .refl _
    | @unary _ _ _ argument' hargument =>
      have hargument' := evaluate_covers argument argument' hargument
      by_cases hn : argument.isUnsupported = true
      · obtain ⟨l, form, text, rfl⟩ := Node.isUnsupported_iff.1 hn
        rw [evaluate_unary]
        intro w
        simp only [asksUnbound, Node.name?]
        exact .inl rfl
      · rw [Bool.not_eq_true] at hn
        have hasks : asksUnbound scope operator argument' = asksUnbound scope operator argument := by
          unfold asksUnbound
          rw [hargument.name?_eq hn]
        rw [evaluate_unary, evaluate_unary, hasks]
        refine .after _ fun unbound => ?_
        cases unbound with
        | true => exact .refl _
        | false => exact hargument'.before _
  | .binary _ operator left right, _, h => by
    cases h with
    | same => exact .refl _
    | binary hleft hright =>
      exact (evaluate_covers _ _ hleft).bind fun _ =>
        .ite (.refl _) ((evaluate_covers _ _ hright).before _)
  | .assignment _ operator left right, _, h => by
    cases h with
    | same => exact .refl _
    | assignment hleft hright =>
      have hright' := evaluate_covers _ _ hright
      cases left with
      | identifier location name =>
        rw [hleft.identifier_eq, evaluate_assign_name, evaluate_assign_name]
        exact .after _ fun _ => (covers_compound _ _ _ hright').before _
      | member location object property computed =>
        obtain ⟨object', property', rfl, hobject, hproperty⟩ := hleft.member_cases
        have hkey := evaluate_covers property property' hproperty
        cases howner : object.receiverName? with
        | none =>
          simp only [evaluate, howner]
          exact covers_fail rfl _
        | some owner =>
          have hsame : object' = object := hobject.eq_of_receiverName? howner
          subst hsame
          rw [evaluate_assign_member _ _ _ _ _ _ _ _ _ howner,
            evaluate_assign_member _ _ _ _ _ _ _ _ _ howner]
          exact .after _ fun _ => .after _ fun _ => (covers_keyOf hkey hproperty).bind fun _ =>
            .after _ fun _ => (covers_compound _ _ _ hright').before _
      | _ => exact covers_fail rfl _
  | .member _ object property computed, _, h => by
    cases h with
    | same => exact .refl _
    | member hobject hproperty =>
      rw [evaluate_member, evaluate_member]
      exact (evaluate_covers _ _ hobject).bind fun _ =>
        (covers_keyOf (evaluate_covers _ _ hproperty) hproperty).before _
  | .call location callee arguments, _, h => by
    cases h with
    | same => exact .refl _
    | call hcallee harguments =>
      cases callee with
      | member calleeLocation object property computed =>
        cases computed with
        | true => exact covers_fail rfl _
        | false =>
          obtain ⟨object', property', rfl, hobject, hproperty⟩ := hcallee.member_cases
          rw [evaluate_call, evaluate_call, harguments.length_eq]
          refine (covers_propertyName hproperty).bind fun method => .ite (.refl _) ?_
          exact covers_callOn method location hobject (evaluate_covers object object' hobject)
            (evaluateAll_covers _ _ harguments)
      | _ => exact covers_fail rfl _
  | .program .., _, _ | .block .., _, _ | .functionDeclaration .., _, _ | .declaration .., _, _
  | .ifStatement .., _, _ | .whileStatement .., _, _ | .forStatement .., _, _
  | .expressionStatement .., _, _ | .returnStatement .., _, _ | .continueStatement .., _, _
  | .property .., _, _ | .functionExpression .., _, _ | .arrowFunction .., _, _ =>
    covers_fail rfl _

theorem evaluateOption_covers :
    ∀ n n' : Option Node, Node.ReplacedOption n n' →
      Covers (evaluateOption scope step n) (evaluateOption scope step n')
  | none, _, h => by
    cases h
    exact .refl _
  | some node, _, h => by
    cases h with
    | some h => exact evaluate_covers _ _ h

theorem evaluateAll_covers :
    ∀ l l' : List Node, Node.ReplacedAll l l' →
      Covers (evaluateAll scope step l) (evaluateAll scope step l')
  | [], _, h => by
    cases h
    exact .refl _
  | node :: rest, _, h => by
    cases h with
    | cons h hrest =>
      exact (evaluate_covers _ _ h).bind fun _ => (evaluateAll_covers _ _ hrest).before _

theorem evaluateElements_covers :
    ∀ l l' : List (Option Node), Node.ReplacedElements l l' →
      Covers (evaluateElements scope step l) (evaluateElements scope step l')
  | [], _, h => by
    cases h
    exact .refl _
  | element :: rest, _, h => by
    cases h with
    | cons h hrest =>
      exact (evaluateOption_covers _ _ h).bind fun _ => (evaluateElements_covers _ _ hrest).before _

theorem evaluateProperties_covers :
    ∀ l l' : List Node, Node.ReplacedMembers l l' → ∀ fields : Fields,
      Covers (evaluateProperties scope step fields l) (evaluateProperties scope step fields l')
  | [], _, h, _ => by
    cases h
    exact .refl _
  | node :: rest, _, h, fields => by
    cases h with
    | @cons _ node' _ rest' hmember h hrest =>
      have hrest' := evaluateProperties_covers rest rest' hrest
      by_cases hfield : ∃ l key value computed shorthand,
          node = .property l key (some value) "init" computed shorthand
      · obtain ⟨l, key, value, computed, shorthand, rfl⟩ := hfield
        obtain ⟨key', value', rfl, hkey, hvalue⟩ := h.property_cases
        cases hvalue with
        | @some _ value' hvalue =>
          rw [evaluateProperties_cons, evaluateProperties_cons]
          exact (evaluate_covers value value' hvalue).bind fun _ =>
            (covers_fieldName (evaluate_covers key key' hkey) hkey).bind fun _ => hrest' _
      · rw [evaluateProperties_skip _ _ _ _ fun l k v c s he => hfield ⟨l, k, v, c, s, he⟩,
          evaluateProperties_skip _ _ _ _ fun l k v c s he => hfield (h.field_of he hmember)]
        exact hrest' fields

end

end

end Chronicle
