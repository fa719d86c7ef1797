import Chronicle.Locate
import Chronicle.Proofs.Node.Position
import Chronicle.Proofs.Value.Stores

/-!
# Exactly the annotated functions

What is located in a program is what its outermost annotated nodes introduce, in the order of where
the functions start (`locateFunctions_exact`).  The search goes through the annotated nodes in
pre-order (`locateFrom_outermost`), and sorting them keeps the order of those that start together
(`mergeSort_stable`).  Only an arrow function that should have a block and has none cannot be
brought into the one shape of functions, and ends the search (`ofNode?_eq_none`).
-/

set_option autoImplicit false

namespace Chronicle

open Node

/-! ## Annotated nodes -/

/-- The name and the function that a node introduces. -/
inductive Node.Introduces : Node → String → Node → Prop
  | declaration (location : Location) (id : Option Identifier) (params : List Node)
    (bodyLocation : Location) (body : List Node) :
    Introduces (.functionDeclaration location id params bodyLocation body)
      ((id.map Identifier.name).getD anonymousName)
      (.functionDeclaration location id params bodyLocation body)
  | declarator (location : Location) (id : Node) {init : Node} (h : init.isFunction) :
    Introduces (.declarator location id (some init)) id.targetName init
  | assignment (location : Location) (operator : String) (left : Node) {right : Node}
    (h : right.isFunction) :
    Introduces (.assignment location operator left right) left.targetName right

theorem introduces?_eq_some {node fn : Node} {name : String} :
    node.introduces? = some (name, fn) ↔ node.Introduces name fn := by
  constructor
  · intro h
    unfold Node.introduces? at h
    split at h
    · cases h
      exact .declaration ..
    · split at h
      · cases h
        exact .declarator _ _ ‹_›
      · cases h
    · split at h
      · cases h
        exact .assignment _ _ _ ‹_›
      · cases h
    · cases h
  · intro h
    cases h with
    | declaration => rfl
    | declarator _ _ h => simp [Node.introduces?, h]
    | assignment _ _ _ h => simp [Node.introduces?, h]

theorem Node.Introduces.isFunction {node fn : Node} {name : String}
    (h : node.Introduces name fn) : fn.isFunction := by
  cases h with
  | declaration => rfl
  | declarator _ _ h | assignment _ _ _ h => exact h

/-- The last of the annotations that end on the line above a line. -/
def ParameterDoc.LastAbove (annotations : List ParameterDoc) (line : Int) (doc : ParameterDoc) :
    Prop :=
  ∃ before after, annotations = before ++ doc :: after ∧ doc.location.endLine + 1 = line ∧
    ∀ later ∈ after, later.location.endLine + 1 ≠ line

/-- The annotation found above a line is the last one, whether those before it are above it or
not. -/
theorem findAbove?_eq_some {annotations : List ParameterDoc} {line : Int} {doc : ParameterDoc} :
    ParameterDoc.findAbove? annotations line = some doc ↔
      ParameterDoc.LastAbove annotations line doc := by
  unfold ParameterDoc.findAbove?
  rw [List.getLast?_eq_some_iff]
  constructor
  · rintro ⟨earlier, h⟩
    obtain ⟨before, rest, hall, -, hrest⟩ := List.filter_eq_append_iff.1 h
    obtain ⟨skipped, after, rfl, -, hdoc, hafter⟩ := List.filter_eq_cons_iff.1 hrest
    refine ⟨before ++ skipped, after, by simpa using hall, beq_iff_eq.1 hdoc, fun later hl => ?_⟩
    exact fun he => List.filter_eq_nil_iff.1 hafter later hl (beq_iff_eq.2 he)
  · rintro ⟨before, after, rfl, hdoc, hafter⟩
    refine ⟨before.filter fun a => a.location.endLine + 1 == line, ?_⟩
    rw [List.filter_append, List.filter_cons_of_pos (by simpa using hdoc),
      List.filter_eq_nil_iff.2 fun later hl he => hafter later hl (beq_iff_eq.1 he)]

/-- Whether a node introduces a function and an annotation ends on the line above it. -/
structure Node.Annotated (annotations : List ParameterDoc) (node : Node) : Prop where
  introduces : ∃ name fn, node.Introduces name fn
  above : ∃ doc ∈ annotations, doc.location.endLine + 1 = node.location.startLine

theorem annotated?_eq_some {annotations : List ParameterDoc} {node fn : Node} {name : String}
    {doc : ParameterDoc} :
    node.annotated? annotations = some (name, fn, doc) ↔
      node.Introduces name fn ∧
        ParameterDoc.LastAbove annotations node.location.startLine doc := by
  rw [← introduces?_eq_some, ← findAbove?_eq_some]
  unfold Node.annotated?
  constructor
  · intro h
    obtain ⟨⟨name', fn'⟩, hi, h⟩ := Option.bind_eq_some_iff.1 h
    obtain ⟨doc', hdoc, h⟩ := Option.bind_eq_some_iff.1 h
    cases h
    exact ⟨hi, hdoc⟩
  · rintro ⟨hi, hdoc⟩
    simp [hi, hdoc]

theorem annotated?_isSome {annotations : List ParameterDoc} {node : Node} :
    (node.annotated? annotations).isSome ↔ node.Annotated annotations := by
  rw [Option.isSome_iff_exists]
  constructor
  · rintro ⟨⟨name, fn, doc⟩, h⟩
    obtain ⟨hi, before, after, rfl, hdoc, -⟩ := annotated?_eq_some.1 h
    exact ⟨⟨name, fn, hi⟩, doc, by simp, hdoc⟩
  · rintro ⟨⟨name, fn, hi⟩, doc, hmem, hdoc⟩
    have habove : (ParameterDoc.findAbove? annotations node.location.startLine).isSome := by
      rw [ParameterDoc.findAbove?, List.getLast?_isSome]
      exact List.ne_nil_of_mem (List.mem_filter.2 ⟨hmem, beq_iff_eq.2 hdoc⟩)
    obtain ⟨last, hlast⟩ := Option.isSome_iff_exists.1 habove
    exact ⟨(name, fn, last), annotated?_eq_some.2 ⟨hi, findAbove?_eq_some.1 hlast⟩⟩

instance (annotations : List ParameterDoc) : DecidablePred (Node.Annotated annotations) :=
  fun _ => decidable_of_iff _ annotated?_isSome

/-! ## The search -/

/-- A function is what a node introduces: its name, its function in one shape, and the
specifications of the last annotation above it. -/
structure LocatedFunction.IntroducedBy (annotations : List ParameterDoc) (node : Node)
    (f : LocatedFunction) : Prop where
  introduced : ∃ fn, node.Introduces f.name fn ∧ Function.ofNode? fn = some f.function
  annotation : ∃ doc, ParameterDoc.LastAbove annotations node.location.startLine doc ∧
    f.heap = doc.heap ∧ f.params = doc.params

/-- The node introduces an arrow function that should have a block for its body, and has none. -/
def Node.LacksBlock (node : Node) : Prop :=
  ∃ name location params body, node.Introduces name (.arrowFunction location params body false) ∧
    ∀ place statements, body ≠ .block place statements

/-- Every function but an arrow function without its block has the one shape. -/
theorem ofNode?_eq_none {fn : Node} (hfn : fn.isFunction) (h : Function.ofNode? fn = none) :
    ∃ location params body, fn = .arrowFunction location params body false ∧
      ∀ place statements, body ≠ .block place statements := by
  cases fn with
  | arrowFunction location params body isExpression =>
    cases isExpression with
    | true => cases h
    | false =>
      refine ⟨location, params, body, rfl, ?_⟩
      rintro place statements rfl
      cases h
  | functionDeclaration | functionExpression => cases h
  | _ => cases hfn

/-- What a search ends with: what the outermost annotated nodes introduce, in pre-order, or one of
them that lacks its block. -/
def EndsSearch (annotations : List ParameterDoc) (stack : List (List Nat × Node))
    (found : List LocatedFunction) : Except Failure (List LocatedFunction) → Prop
  | .ok fs => ∃ new : List ((List Nat × Node) × LocatedFunction),
      new.map Prod.fst = outermostFrom (Annotated annotations) stack ∧
      (∀ x ∈ new, x.2.IntroducedBy annotations x.1.2) ∧ fs = found ++ new.map Prod.snd
  | .error e => e = .noBlock ∧
      ∃ x ∈ outermostFrom (Annotated annotations) stack, x.2.LacksBlock

theorem EndsSearch.cons {annotations : List ParameterDoc} {top : List Nat × Node}
    {rest : List (List Nat × Node)} {found : List LocatedFunction} {f : LocatedFunction}
    {e : Except Failure (List LocatedFunction)} (htop : top.2.Annotated annotations)
    (hf : f.IntroducedBy annotations top.2)
    (h : EndsSearch annotations rest (found ++ [f]) e) :
    EndsSearch annotations (top :: rest) found e := by
  have hout : outermostFrom (Annotated annotations) (top :: rest) =
      top :: outermostFrom (Annotated annotations) rest := by
    rw [outermostFrom, if_pos htop]
  cases e with
  | ok fs =>
    obtain ⟨new, hnew, hall, rfl⟩ := h
    refine ⟨(top, f) :: new, by rw [List.map_cons, hnew, hout], fun x hx => ?_, by simp⟩
    rcases List.mem_cons.1 hx with rfl | hx
    · exact hf
    · exact hall x hx
  | error e =>
    obtain ⟨he, x, hx, hlacks⟩ := h
    exact ⟨he, x, hout ▸ List.mem_cons_of_mem top hx, hlacks⟩

theorem locateFrom_outermost (annotations : List ParameterDoc) (stack : List (List Nat × Node)) :
    ∀ found, EndsSearch annotations stack found
      (locateFrom annotations (stack.map Prod.snd) found) := by
  induction stack using outermostFrom.induct (Annotated annotations) with
  | case1 =>
    intro found
    rw [List.map_nil, locateFrom]
    exact ⟨[], by simp [outermostFrom], fun _ hx => absurd hx List.not_mem_nil,
      (List.append_nil found).symm⟩
  | case2 p n rest h ih =>
    intro found
    obtain ⟨⟨name, fn, doc⟩, ha⟩ := Option.isSome_iff_exists.1 (annotated?_isSome.2 h)
    obtain ⟨hi, hdoc⟩ := annotated?_eq_some.1 ha
    rw [List.map_cons, locateFrom]
    simp only [ha]
    cases hfn : Function.ofNode? fn with
    | none =>
      obtain ⟨location, params, body, rfl, hbody⟩ := ofNode?_eq_none hi.isFunction hfn
      refine ⟨rfl, (p, n), ?_, name, location, params, body, hi, hbody⟩
      rw [outermostFrom, if_pos h]
      exact List.mem_cons_self
    | some function =>
      exact (ih (found ++ [⟨name, function, doc.heap, doc.params⟩])).cons h
        ⟨⟨fn, hi, hfn⟩, doc, hdoc, rfl, rfl⟩
  | case3 p n rest h ih =>
    intro found
    have ha : n.annotated? annotations = none :=
      Option.not_isSome_iff_eq_none.1 fun hs => h (annotated?_isSome.1 hs)
    have hsearch := ih found
    rw [List.map_append, childrenAt_map_snd] at hsearch
    rw [List.map_cons, locateFrom]
    simp only [ha]
    unfold EndsSearch at hsearch ⊢
    rw [outermostFrom, if_neg h]
    exact hsearch

/-! ## The order -/

/-- Sorting keeps the order of what is not told apart. -/
theorem mergeSort_stable {α : Type} {le : α → α → Bool} {earlier : α → α → Prop}
    (trans : ∀ a b c, le a b → le b c → le a c) (total : ∀ a b, le a b || le b a) :
    ∀ {l : List α}, l.Pairwise earlier →
      (l.mergeSort le).Pairwise fun a b => le a b ∧ (le b a → earlier a b)
  | [], _ => by simp
  | a :: l, h => by
    obtain ⟨ha, hl⟩ := List.pairwise_cons.1 h
    obtain ⟨before, after, hsort, hrest, hbefore⟩ := List.mergeSort_cons trans total a l
    have ih := mergeSort_stable trans total hl
    have hsorted := List.pairwise_mergeSort trans total (a :: l)
    rw [hrest, List.pairwise_append] at ih
    rw [hsort, List.pairwise_append] at hsorted
    have hafter : ∀ b ∈ after, le a b ∧ (le b a → earlier a b) := by
      intro b hb
      have hmem : b ∈ l := List.mem_mergeSort.1 (hrest ▸ List.mem_append_right before hb)
      exact ⟨(List.pairwise_cons.1 hsorted.2.1).1 b hb, fun _ => ha b hmem⟩
    rw [hsort, List.pairwise_append]
    refine ⟨ih.1, List.pairwise_cons.2 ⟨hafter, ih.2.1⟩, fun b hb c hc => ?_⟩
    rcases List.mem_cons.1 hc with rfl | hc
    · have hnot : ¬ le c b := by simpa using hbefore b hb
      exact ⟨(Bool.or_eq_true_iff.1 (total c b)).resolve_left hnot, fun hle => absurd hle hnot⟩
    · exact ih.2.2 b hb c hc

theorem startsBefore_iff {f g : LocatedFunction} :
    f.startsBefore g ↔ f.function.location.startLine < g.function.location.startLine ∨
      f.function.location.startLine = g.function.location.startLine ∧
        f.function.location.startColumn ≤ g.function.location.startColumn := by
  simp [LocatedFunction.startsBefore]

theorem startsBefore_trans (f g h : LocatedFunction) (hfg : f.startsBefore g)
    (hgh : g.startsBefore h) : f.startsBefore h := by
  rw [startsBefore_iff] at *
  omega

theorem startsBefore_total (f g : LocatedFunction) : f.startsBefore g || g.startsBefore f := by
  rw [Bool.or_eq_true, startsBefore_iff, startsBefore_iff]
  omega

/-- A function starts before another, or they start together and the node that introduces it comes
first in pre-order. -/
def Precedes (x y : List Nat × LocatedFunction) : Prop :=
  let l := x.2.function.location
  let m := y.2.function.location
  l.startLine < m.startLine ∨ l.startLine = m.startLine ∧
    (l.startColumn < m.startColumn ∨ l.startColumn = m.startColumn ∧ x.1 < y.1)

theorem precedes_of_startsBefore {x y : List Nat × LocatedFunction} (h : x.2.startsBefore y.2)
    (hlt : y.2.startsBefore x.2 → x.1 < y.1) : Precedes x y := by
  unfold Precedes
  dsimp only
  rw [startsBefore_iff] at h hlt
  by_cases hplace : x.1 < y.1
  · simp only [hplace, and_true]
    omega
  · have hlater := mt hlt hplace
    simp only [hplace, and_false, or_false]
    omega

/-! ## Located functions -/

/-- Functions with the positions of the nodes that introduce them are those of a program. -/
structure Locates (program : Node) (annotations : List ParameterDoc)
    (found : List (List Nat × LocatedFunction)) : Prop where
  exact : ∀ p, p ∈ found.map Prod.fst ↔ Outermost (Annotated annotations) program p
  once : (found.map Prod.fst).Nodup
  introduced : ∀ x ∈ found, ∃ n, program.at? x.1 = some n ∧ x.2.IntroducedBy annotations n
  ordered : found.Pairwise Precedes

theorem mem_outermostFrom_root {P : Node → Prop} [DecidablePred P] {program : Node}
    {x : List Nat × Node} :
    x ∈ outermostFrom P [([], program)] ↔ Outermost P program x.1 ∧ program.at? x.1 = some x.2 := by
  simp [mem_outermostFrom, OutermostIn, and_comm]

/-- Functions that are found at the outermost annotated nodes are located when they are sorted. -/
theorem locates_mergeSort {program : Node} {annotations : List ParameterDoc}
    {new : List ((List Nat × Node) × LocatedFunction)}
    (hnew : new.map Prod.fst = outermostFrom (Annotated annotations) [([], program)])
    (hall : ∀ x ∈ new, x.2.IntroducedBy annotations x.1.2) :
    ∃ found, (new.map Prod.snd).mergeSort LocatedFunction.startsBefore = found.map Prod.snd ∧
      Locates program annotations found := by
  let pairs := new.map fun x => (x.1.1, x.2)
  let le := fun x y : List Nat × LocatedFunction => x.2.startsBefore y.2
  have hplaces : pairs.map Prod.fst =
      (outermostFrom (Annotated annotations) [([], program)]).map Prod.fst := by
    rw [← hnew, List.map_map, List.map_map]
    rfl
  have hpreorder : pairs.Pairwise fun x y => x.1 < y.1 := by
    have h := outermostFrom_pairwise (P := Annotated annotations)
      (List.pairwise_singleton _ ([], program))
    rw [← List.pairwise_map (R := (· < ·)), hplaces, List.pairwise_map]
    exact h.imp LeftOf.lt
  have hperm := List.mergeSort_perm pairs le
  refine ⟨pairs.mergeSort le, ?_, ?_, ?_, ?_, ?_⟩
  · rw [List.map_mergeSort (s := LocatedFunction.startsBefore) fun _ _ _ _ => rfl, List.map_map]
    rfl
  · intro p
    rw [(hperm.map Prod.fst).mem_iff, hplaces, List.mem_map]
    constructor
    · rintro ⟨x, hx, rfl⟩
      exact (mem_outermostFrom_root.1 hx).1
    · intro hout
      obtain ⟨n, hn, -⟩ := hout.here
      exact ⟨(p, n), mem_outermostFrom_root.2 ⟨hout, hn⟩, rfl⟩
  · rw [(hperm.map Prod.fst).nodup_iff]
    refine List.pairwise_map.2 (hpreorder.imp fun {x y} h (he : x.1 = y.1) => ?_)
    rw [he] at h
    exact List.lt_irrefl _ h
  · intro x hx
    obtain ⟨y, hy, rfl⟩ := List.mem_map.1 (List.mem_mergeSort.1 hx)
    have hout : y.1 ∈ outermostFrom (Annotated annotations) [([], program)] :=
      hnew ▸ List.mem_map_of_mem hy
    exact ⟨y.1.2, (mem_outermostFrom_root.1 hout).2, hall y hy⟩
  · exact (mergeSort_stable (fun x y z => startsBefore_trans x.2 y.2 z.2)
      (fun x y => startsBefore_total x.2 y.2) hpreorder).imp
      fun h => precedes_of_startsBefore h.1 h.2

/-- A located function is introduced by a node of the program. -/
theorem introducedBy_of_located {program : Node} {annotations : List ParameterDoc}
    {fs : List LocatedFunction} (h : locateFunctions program annotations = .ok fs)
    {f : LocatedFunction} (hf : f ∈ fs) :
    ∃ p n, program.at? p = some n ∧ f.IntroducedBy annotations n := by
  obtain ⟨found, hfound, hsorted⟩ := bind_eq_ok h
  cases hsorted
  have hsearch := locateFrom_outermost annotations [([], program)] []
  rw [List.map_cons, List.map_nil, hfound] at hsearch
  obtain ⟨new, hnew, hall, rfl⟩ := hsearch
  obtain ⟨x, hx, rfl⟩ := List.mem_map.1 (List.mem_mergeSort.1 hf)
  have hout := mem_outermostFrom_root.1 (hnew ▸ List.mem_map_of_mem hx)
  exact ⟨x.1.1, x.1.2, hout.2, hall x hx⟩

/-- What is located in a program is what its outermost annotated nodes introduce: each of them once,
with the specifications of the last annotation above it, in the order of where the functions start
and of the nodes in pre-order.  Otherwise one of them lacks its block, and nothing is located. -/
theorem locateFunctions_exact (program : Node) (annotations : List ParameterDoc) :
    match locateFunctions program annotations with
    | .ok fs => ∃ found, fs = found.map Prod.snd ∧ Locates program annotations found
    | .error e => e = .noBlock ∧
        ∃ p n, Outermost (Annotated annotations) program p ∧ program.at? p = some n ∧
          n.LacksBlock := by
  have h : EndsSearch annotations [([], program)] [] (locateFrom annotations [program] []) :=
    locateFrom_outermost annotations [([], program)] []
  unfold locateFunctions
  cases hsearch : locateFrom annotations [program] [] with
  | error e =>
    rw [hsearch] at h
    obtain ⟨he, x, hx, hlacks⟩ := h
    obtain ⟨hout, hat⟩ := mem_outermostFrom_root.1 hx
    exact ⟨he, x.1, x.2, hout, hat, hlacks⟩
  | ok fs =>
    rw [hsearch] at h
    obtain ⟨new, hnew, hall, rfl⟩ := h
    exact locates_mergeSort hnew hall

/-- A variable set to an arrow function that should have a block, and has a name for its body. -/
def blockless : Node :=
  .program ⟨1, 0, 2, 15⟩ [.declaration ⟨2, 0, 2, 15⟩ "var" [.declarator ⟨2, 4, 2, 15⟩
    (.identifier ⟨2, 4, 2, 5⟩ "f")
    (some (.arrowFunction ⟨2, 8, 2, 15⟩ [] (.identifier ⟨2, 14, 2, 15⟩ "x") false))]] []

/-- An outermost annotated node that lacks its block is not located. -/
theorem locateFunctions_blockless :
    Outermost (Annotated [⟨⟨1, 0, 1, 9⟩, {}, []⟩]) blockless [0, 0] ∧
      locateFunctions blockless [⟨⟨1, 0, 1, 9⟩, {}, []⟩] = .error .noBlock := by
  constructor
  · refine outermost_cons.2 ⟨by decide, _, rfl, outermost_cons.2 ⟨by decide, _, rfl, ?_⟩⟩
    exact outermost_nil.2 (by decide)
  · have hsearch : locateFrom [⟨⟨1, 0, 1, 9⟩, {}, []⟩] [blockless] [] = .error .noBlock := by
      simp [blockless, locateFrom, Node.annotated?, Node.introduces?, Node.isFunction,
        Node.children, ParameterDoc.findAbove?, Node.location, Function.ofNode?]
    unfold locateFunctions
    rw [hsearch]
    rfl

end Chronicle
