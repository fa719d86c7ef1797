import Chronicle.Proofs.Evaluation.NormalSteps
import Chronicle.Proofs.Node.Everywhere

/-!
# Expressions keep numbers in normal form

A run is normal when the values that names are bound to and the value returned last are.  Where all
literals are normal (`Node.NormalLiteral`), an expression that is evaluated in a normal run passes
through normal states only, and gives a normal value at each of its nodes (`evaluate_normal`).
-/

set_option autoImplicit false

namespace Chronicle

/-- A literal is plain data, and a number in normal form if it is a number. -/
def Node.NormalLiteral : Node → Prop
  | .literal _ value _ => Heap.empty.Normal value
  | _ => True

/-! ## Normal runs -/

/-- The values that names are bound to and the value returned last are normal. -/
structure RunState.Normal (s : RunState) : Prop where
  bindings : s.world.Normal
  returned : s.world.heap.Normal s.returned

/-- A normal state, with a normal value if an expression has given one. -/
structure Sight.Normal (x : Sight) : Prop where
  state : x.state.Normal
  value : ∀ v, x.value? = some v → x.state.world.heap.Normal v

/-- All that has been seen is normal. -/
structure Watched.Normal (w : Watched) : Prop where
  state : w.state.Normal
  seen : ∀ x ∈ w.seen, x.Normal

/-- The view of a run. -/
def RunState.view : HeapView RunState := ⟨fun s => s.world.heap, RunState.Normal⟩

/-- The view of a watched run. -/
def Watched.view : HeapView Watched := ⟨fun w => w.state.world.heap, Watched.Normal⟩

theorem Watched.Normal.see {w : Watched} (hw : w.Normal) {s : RunState} {value? : Option Value}
    {change? : Option Change} (hs : s.Normal)
    (hv : ∀ v, value? = some v → s.world.heap.Normal v) :
    (Watch.see w s value? change?).Normal where
  state := hs
  seen x hx := by
    rcases Array.mem_push.1 hx with hx | rfl
    · exact hw.seen x hx
    · exact ⟨hs, hv⟩

/-- Before a run, no name is bound and nothing has been returned. -/
theorem Watched.start_normal : Watched.start.Normal := by
  have hstate : RunState.Normal {} := by
    refine ⟨fun i n b hb => ?_, Heap.normal_undefined⟩
    have hroot : Scopes.root.own? i n = none := by
      cases i <;> simp [Scopes.own?, Scopes.scope, Scopes.root]
    rw [show ({} : RunState).world.scopes = .root from rfl, hroot] at hb
    cases hb
  refine ⟨hstate, fun x hx => ?_⟩
  rw [Watched.start, List.mem_toArray, List.mem_singleton] at hx
  subst hx
  refine ⟨hstate, fun v hv => ?_⟩
  cases hv

namespace KeepsNormal

variable {α : Type} {h : Heap} {good : Heap → α → Prop}

/-- What was returned before is still normal in the heap after an effect. -/
theorem act {e : Effect α} (he : KeepsNormal World.view h e good) :
    KeepsNormal RunState.view h (Walk.act e) good := by
  intro s hs hh
  have hr := he s.world hs.bindings hh
  unfold Walk.act
  cases hes : e s.world with
  | ok a w =>
    rw [hes] at hr
    obtain ⟨hw, hg, ha⟩ := hr
    exact ⟨⟨hw, hg _ hs.returned⟩, hg, ha⟩
  | error x w =>
    rw [hes] at hr
    obtain ⟨hw, hg⟩ := hr
    exact ⟨⟨hw, hg _ hs.returned⟩, hg⟩

/-- A step that leaves a normal state shows one. -/
theorem look {e : Walk α} {change? : Option Change} (he : KeepsNormal RunState.view h e good) :
    KeepsNormal Watched.view h (Watch.look e change?) good := by
  intro w hw hh
  have hr := he w.state hw.state hh
  unfold Watch.look
  cases hes : e w.state with
  | ok a s =>
    rw [hes] at hr
    obtain ⟨hs, hg, ha⟩ := hr
    exact ⟨hw.see hs nofun, hg, ha⟩
  | error x s =>
    rw [hes] at hr
    obtain ⟨hs, hg⟩ := hr
    exact ⟨hw.see hs nofun, hg⟩

theorem effect {e : Effect α} (he : KeepsNormal World.view h e good) :
    KeepsNormal Watched.view h (Watch.effect e) good :=
  look (act he)

theorem change {receiver : Node} {e : Effect α} (he : KeepsNormal World.view h e good) :
    KeepsNormal Watched.view h (Watch.change receiver e) good :=
  fun w => look (act he) w

theorem giving {e : Watch Value} (he : KeepsNormal Watched.view h e Heap.Normal) :
    KeepsNormal Watched.view h (Watch.giving e) Heap.Normal := by
  intro w hw hh
  have hr := he w hw hh
  unfold Watch.giving
  cases hew : e w with
  | ok v w' =>
    rw [hew] at hr
    obtain ⟨hw', hg, hv⟩ := hr
    exact ⟨hw'.see hw'.state fun u hu => by cases hu; exact hv, hg, hv⟩
  | error x w' =>
    rw [hew] at hr
    exact hr

/-! ## Parts of expressions -/

theorem keyOf (computed : Bool) {key : Watch Value}
    (hk : KeepsNormal Watched.view h key Heap.Normal) (property : Node) :
    KeepsNormal Watched.view h (Watch.keyOf computed key property) Heap.Normal := by
  cases computed with
  | true => exact hk
  | false => exact effect (plainKey _ property)

theorem compound (operator : String) {current : Value} (hc : h.Normal current)
    {right : Watch Value} (hr : KeepsNormal Watched.view h right Heap.Normal) (location : Location) :
    KeepsNormal Watched.view h (Watch.compound operator current right location) Heap.Normal :=
  ite hr <| ite (value hc) <| hr.bind fun _ _ hg hv =>
    effect (applyBinary _ (hg current hc) hv location)

theorem fieldName (computed : Bool) {value : Watch Value}
    (hv : KeepsNormal Watched.view h value Heap.Normal) (key : Node) :
    KeepsNormal Watched.view h (Watch.fieldName computed value key) anything := by
  cases computed with
  | true => exact hv.bind fun _ _ _ _ => effect (readAnything _)
  | false => exact effect (plainFieldName _ key)

/-- The receiver is still normal when the arguments have been evaluated. -/
theorem callOn (scope : ScopeId) (step : Int) (object : Node) (method : String)
    (location : Location) {receiver : Watch Value} {args : Watch (List Value)}
    (hr : ∀ g, KeepsNormal Watched.view g receiver Heap.Normal)
    (ha : ∀ g, KeepsNormal Watched.view g args Heap.NormalAll) :
    KeepsNormal Watched.view h (Watch.callOn scope step object method location receiver args)
      Heap.Normal := by
  refine (effect (globalReceiver? scope object)).bind fun name? _ _ _ => ?_
  cases name? with
  | some name => exact (ha _).bind fun vs _ _ _ => effect (callGlobal name method vs location)
  | none =>
    refine (hr _).bind fun r _ _ hr => (ha _).bind fun vs _ hg hvs => ?_
    refine (change (invoke (hg r hr) hvs method location)).bind fun v _ _ hv => ?_
    exact (effect (showCall scope step object r)).bind fun _ _ hg' _ => value (hg' v hv)

end KeepsNormal

/-! ## Expressions -/

section
variable (scope : ScopeId) (step : Int)

open KeepsNormal (effect change giving value)

mutual

/-- An expression whose literals are normal passes through normal states and gives normal values. -/
theorem evaluate_normal : ∀ node : Node, node.Everywhere Node.NormalLiteral →
    ∀ h, KeepsNormal Watched.view h (Watch.evaluate scope step node) Heap.Normal
  | .literal _ v _, hn, h => by
    have hv : Heap.empty.Normal v := hn.here
    exact giving (effect (value (hv.of_empty h)))
  | .identifier _ name, _, _ => giving (effect (.valueOf scope name _))
  | .thisValue _, _, _ => giving (effect (.valueOf scope thisName _))
  | .update location operator leading argument, _, _ => by
    cases argument with
    | identifier _ name =>
      exact giving (effect (.updateVariable scope name operator leading step location))
    | _ => exact giving (effect (.fail _ _))
  | .declarator _ target init, hn, h => by
    cases target with
    | identifier _ name =>
      refine giving ((evaluateOption_normal init (fun c hc => hn.child ?_) h).bind fun v _ _ hv => ?_)
      · exact List.mem_cons_of_mem _ (Option.mem_toList.2 hc)
      · exact (effect (.define scope name step hv none)).bind fun _ _ _ _ =>
          value Heap.normal_undefined
    | _ => exact giving (effect (.fail _ _))
  | .array _ elements, hn, h =>
    giving ((evaluateElements_normal elements hn.children h).bind fun _ _ _ hvs =>
      effect (.newSequence hvs))
  | .object _ properties, hn, h =>
    giving ((evaluateProperties_normal properties hn.children h [] nofun).bind fun _ _ _ hf =>
      effect (.newRecord hf))
  | .new _ callee [], _, _ => giving (effect (.newRecord nofun))
  | .new _ callee [argument], hn, h => by
    have hargument := evaluate_normal argument (hn.child (by simp [Node.children]))
    refine giving (.ite ((hargument h).bind fun size _ _ _ => ?_) (effect (.fail _ _)))
    refine (effect (.readAnything fun _ => sequenceLength? size)).bind fun length _ _ _ => ?_
    cases length with
    | none => exact effect (.fail _ _)
    | some n =>
      refine effect (.newSequence fun v hv => ?_)
      rw [List.eq_of_mem_replicate hv]
      exact Heap.normal_undefined
  | .new _ callee (_ :: _ :: _), _, _ => giving (effect (.fail _ _))
  | .unary location operator argument, hn, h => by
    have hargument := evaluate_normal argument (hn.child (by simp [Node.children]))
    refine giving ((effect (.asksUnbound scope operator argument)).bind fun unbound g _ _ => ?_)
    cases unbound with
    | true => exact value (Heap.normal_text _)
    | false => exact (hargument g).bind fun v _ _ _ => effect (.applyUnary operator v location)
  | .binary location operator left right, hn, h => by
    have hleft := evaluate_normal left (hn.child (by simp [Node.children]))
    have hright := evaluate_normal right (hn.child (by simp [Node.children]))
    exact giving <| (hleft h).bind fun a g _ ha => .ite (value ha) <|
      (hright g).bind fun b _ hg hb => effect (.applyBinary operator (hg a ha) hb location)
  | .assignment location operator left right, hn, h => by
    have hright := evaluate_normal right (hn.child (by simp [Node.children]))
    cases left with
    | identifier targetLocation name =>
      refine giving ((effect (.currentOf operator (.valueOf scope name _))).bind fun current g _ hc => ?_)
      refine (KeepsNormal.compound operator hc (hright g) location).bind fun v _ _ hv => ?_
      exact (effect (.assign scope name step _ hv)).bind fun _ _ hg _ => value (hg v hv)
    | member targetLocation object property computed =>
      have hmember := hn.child (c := .member targetLocation object property computed)
        (by simp [Node.children])
      have hproperty := evaluate_normal property (hmember.child (by simp [Node.children]))
      refine giving ?_
      cases object.receiverName? with
      | none => exact effect (.fail _ _)
      | some owner =>
        refine (effect (.valueOf scope owner _)).bind fun held g₁ _ hheld => ?_
        refine (effect (.receiverOf hheld)).bind fun receiver g₂ _ hr => ?_
        refine (KeepsNormal.keyOf computed (hproperty g₂) property).bind fun key g₃ h₃ _ => ?_
        refine (effect (.currentOf operator (.readProperty (h₃ receiver hr) key _))).bind
          fun current g₄ h₄ hc => ?_
        refine (KeepsNormal.compound operator hc (hright g₄) location).bind fun v g₅ h₅ hv => ?_
        have hr₅ : g₅.Normal receiver := h₅ _ (h₄ _ (h₃ _ hr))
        refine (change (.writeProperty hr₅ key hv _)).bind fun _ g₆ h₆ _ => ?_
        exact (effect (.assign scope owner step _ (h₆ _ hr₅))).bind fun _ _ h₇ _ =>
          value (h₇ v (h₆ v hv))
    | _ => exact giving (effect (.fail _ _))
  | .member location object property computed, hn, h => by
    have hobject := evaluate_normal object (hn.child (by simp [Node.children]))
    have hproperty := evaluate_normal property (hn.child (by simp [Node.children]))
    exact giving <| (hobject h).bind fun receiver g _ hr =>
      (KeepsNormal.keyOf computed (hproperty g) property).bind fun key _ hg _ =>
        effect (.readProperty (hg receiver hr) key location)
  | .call location callee arguments, hn, h => by
    cases callee with
    | member calleeLocation object property computed =>
      cases computed with
      | true => exact giving (effect (.fail _ _))
      | false =>
        have hmember := hn.child (c := .member calleeLocation object property false)
          (by simp [Node.children])
        have hobject := evaluate_normal object (hmember.child (by simp [Node.children]))
        have harguments := evaluateAll_normal arguments fun c hc =>
          hn.child (List.mem_cons_of_mem _ hc)
        exact giving <| (effect (.propertyName property)).bind fun method _ _ _ =>
          .ite (effect (.fail _ _)) (.callOn scope step object method location hobject harguments)
    | _ => exact giving (effect (.fail _ _))
  | .program .., _, _ | .block .., _, _ | .functionDeclaration .., _, _ | .declaration .., _, _
  | .ifStatement .., _, _ | .whileStatement .., _, _ | .forStatement .., _, _
  | .expressionStatement .., _, _ | .returnStatement .., _, _ | .continueStatement .., _, _
  | .property .., _, _ | .functionExpression .., _, _ | .arrowFunction .., _, _
  | .unsupported .., _, _ => giving (effect (.fail _ _))

theorem evaluateOption_normal :
    ∀ node : Option Node, (∀ n, node = some n → n.Everywhere Node.NormalLiteral) →
      ∀ h, KeepsNormal Watched.view h (Watch.evaluateOption scope step node) Heap.Normal
  | none, _, _ => value Heap.normal_undefined
  | some node, hn, h => evaluate_normal node (hn node rfl) h

theorem evaluateAll_normal :
    ∀ nodes : List Node, Node.AllEverywhere Node.NormalLiteral nodes →
      ∀ h, KeepsNormal Watched.view h (Watch.evaluateAll scope step nodes) Heap.NormalAll
  | [], _, _ => .pure fun _ _ => nofun
  | node :: rest, hn, h =>
    (evaluate_normal node hn.head h).bind fun v g _ hv =>
      (evaluateAll_normal rest hn.tail g).bind fun vs _ hg hvs =>
        .pure fun _ hg' => .upholds hg' (.cons (hg v hv) hvs)

theorem evaluateElements_normal :
    ∀ elements : List (Option Node),
      Node.AllEverywhere Node.NormalLiteral (elements.flatMap Option.toList) →
      ∀ h, KeepsNormal Watched.view h (Watch.evaluateElements scope step elements) Heap.NormalAll
  | [], _, _ => .pure fun _ _ => nofun
  | element :: rest, hn, h => by
    rw [List.flatMap_cons] at hn
    have helement := evaluateOption_normal element fun n he =>
      hn n (List.mem_append_left _ (Option.mem_toList.2 he))
    have hrest := evaluateElements_normal rest fun n he => hn n (List.mem_append_right _ he)
    exact (helement h).bind fun v g _ hv => (hrest g).bind fun vs _ hg hvs =>
      .pure fun _ hg' => .upholds hg' (.cons (hg v hv) hvs)

theorem evaluateProperties_normal :
    ∀ properties : List Node, Node.AllEverywhere Node.NormalLiteral properties →
      ∀ h (fields : Fields), h.NormalFields fields →
      KeepsNormal Watched.view h (Watch.evaluateProperties scope step fields properties)
        Heap.NormalFields
  | [], _, _, fields, hf => .pure fun _ hg => hf.upholds hg
  | node :: rest, hn, h, fields, hf => by
    have hrest := evaluateProperties_normal rest hn.tail
    by_cases hfield : ∃ l key value computed shorthand,
        node = .property l key (some value) "init" computed shorthand
    · obtain ⟨l, key, value, computed, shorthand, rfl⟩ := hfield
      have hvalue := evaluate_normal value (hn.head.child (by simp [Node.children]))
      have hkey := evaluate_normal key (hn.head.child (by simp [Node.children]))
      refine (hvalue h).bind fun v g hg hv => ?_
      refine (KeepsNormal.fieldName computed (hkey g) key).bind fun name g' hg' _ => ?_
      exact hrest g' _ ((hf.upholds (hg.trans hg')).insert name (hg' v hv))
    · have hskip : ∀ l key value computed shorthand,
          node ≠ .property l key (some value) "init" computed shorthand :=
        fun l k v c s he => hfield ⟨l, k, v, c, s, he⟩
      rw [Watch.evaluateProperties_skip _ _ _ _ hskip]
      exact hrest h fields hf

end

end

/-- Where no name is bound, an expression with normal literals has a normal value. -/
theorem normal_of_evaluate {scope : ScopeId} {step : Int} {node : Node}
    (hn : node.Everywhere Node.NormalLiteral) {v : Value} {w : World}
    (he : evaluate scope step node {} = .ok v w) : w.heap.Normal v := by
  have hshows := evaluate_shows scope step node .start
  have hends := evaluate_normal scope step node hn {} .start Watched.start_normal (.refl _)
  have hact : Walk.act (evaluate scope step node) {} = .ok v { world := w } := by
    unfold Walk.act
    rw [he]
  rw [show Watched.start.state = {} from rfl, hact] at hshows
  cases hw : Watch.evaluate scope step node .start with
  | ok u x =>
    rw [hw] at hshows hends
    obtain ⟨-, -, hu⟩ := hends
    cases x with
    | mk state seen current =>
      cases hshows
      exact hu
  | error u x =>
    rw [hw] at hshows
    cases hshows

end Chronicle
