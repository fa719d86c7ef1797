import Chronicle.Proofs.Node.Everywhere

/-!
# Positions in a tree

A position says which child to take at each step down (`Node.at?`), and positions in lexicographic
order are in pre-order: a node comes before the nodes below it, and these before those of its later
siblings.

`Node.Outermost P root p`: at the position `p` the condition `P` holds, and at no position above it.
A search that goes down a tree, except below nodes where `P` holds, visits these positions
(`mem_outermostFrom`), each once and in pre-order (`outermostFrom_pairwise`).
-/

set_option autoImplicit false

namespace Chronicle

/-! ## Order of positions -/

/-- A position to the left of another one, with neither of them above the other. -/
def LeftOf (p q : List Nat) : Prop :=
  ∃ shared i j p' q', p = shared ++ i :: p' ∧ q = shared ++ j :: q' ∧ i < j

namespace LeftOf

variable {p q : List Nat}

theorem of_lt {i j : Nat} (h : i < j) (p : List Nat) : LeftOf (p ++ [i]) (p ++ [j]) :=
  ⟨p, i, j, [], [], rfl, rfl, h⟩

/-- What is below a position to the left of another is to the left of what is below that one. -/
theorem below (h : LeftOf p q) (p' q' : List Nat) : LeftOf (p ++ p') (q ++ q') := by
  obtain ⟨shared, i, j, u, v, rfl, rfl, hlt⟩ := h
  exact ⟨shared, i, j, u ++ p', v ++ q', by simp, by simp, hlt⟩

theorem lt (h : LeftOf p q) : p < q := by
  obtain ⟨shared, i, j, u, v, rfl, rfl, hlt⟩ := h
  induction shared with
  | nil => exact .rel hlt
  | cons _ _ ih => exact .cons ih

end LeftOf

namespace Node

/-! ## Positions -/

/-- The node at a position. -/
def at? : Node → List Nat → Option Node
  | n, [] => some n
  | n, i :: p => n.children[i]?.bind fun c => c.at? p

theorem at?_cons_eq_some {n m : Node} {i : Nat} {p : List Nat} :
    n.at? (i :: p) = some m ↔ ∃ c, n.children[i]? = some c ∧ c.at? p = some m :=
  Option.bind_eq_some_iff

/-- What holds everywhere in a tree holds everywhere below a position in it. -/
theorem Everywhere.at? {P : Node → Prop} : ∀ {path : List Nat} {root n : Node},
    root.Everywhere P → root.at? path = some n → n.Everywhere P
  | [], _, _, h, hn => Option.some.inj hn ▸ h
  | _ :: _, _, _, h, hn => by
    obtain ⟨c, hc, hn⟩ := at?_cons_eq_some.1 hn
    exact (h.child (List.mem_of_getElem? hc)).at? hn

/-- `P` holds at the position, and nowhere above it. -/
structure Outermost (P : Node → Prop) (root : Node) (p : List Nat) : Prop where
  here : ∃ n, root.at? p = some n ∧ P n
  above : ∀ q n, q <+: p → q ≠ p → root.at? q = some n → ¬ P n

section
variable {P : Node → Prop} {n m : Node} {i : Nat} {p : List Nat}

theorem outermost_nil : Outermost P n [] ↔ P n := by
  constructor
  · rintro ⟨⟨m, hm, h⟩, -⟩
    cases hm
    exact h
  · intro h
    refine ⟨⟨n, rfl, h⟩, fun q m hq hne => ?_⟩
    exact absurd (List.prefix_nil.1 hq) hne

theorem outermost_cons :
    Outermost P n (i :: p) ↔ ¬ P n ∧ ∃ c, n.children[i]? = some c ∧ Outermost P c p := by
  constructor
  · rintro ⟨⟨m, hm, h⟩, habove⟩
    obtain ⟨c, hc, hm⟩ := at?_cons_eq_some.1 hm
    refine ⟨habove [] n List.nil_prefix nofun rfl, c, hc, ⟨m, hm, h⟩, fun q m' hq hne hm' => ?_⟩
    exact habove (i :: q) m' (List.cons_prefix_cons.2 ⟨rfl, hq⟩)
      (fun he => hne (List.cons.inj he).2) (at?_cons_eq_some.2 ⟨c, hc, hm'⟩)
  · rintro ⟨hn, c, hc, ⟨m, hm, h⟩, habove⟩
    refine ⟨⟨m, at?_cons_eq_some.2 ⟨c, hc, hm⟩, h⟩, fun q m' hq hne hm' => ?_⟩
    cases q with
    | nil =>
      cases hm'
      exact hn
    | cons j q =>
      obtain ⟨rfl, hqp⟩ := List.cons_prefix_cons.1 hq
      obtain ⟨c', hc', hm'⟩ := at?_cons_eq_some.1 hm'
      cases hc.symm.trans hc'
      exact habove q m' hqp (fun he => hne (he ▸ rfl)) hm'

end

/-! ## Searching below no match -/

/-- The children of a node with their positions, when it is at the position `p`. -/
def childrenAt (p : List Nat) (n : Node) : List (List Nat × Node) :=
  n.children.zipIdx.map fun c => (p ++ [c.2], c.1)

theorem childrenAt_map_snd (p : List Nat) (n : Node) :
    (n.childrenAt p).map Prod.snd = n.children := by
  rw [childrenAt, List.map_map]
  exact List.zipIdx_map_fst 0 n.children

theorem mem_childrenAt {p : List Nat} {n : Node} {x : List Nat × Node} :
    x ∈ n.childrenAt p ↔ ∃ i, n.children[i]? = some x.2 ∧ x.1 = p ++ [i] := by
  simp only [childrenAt, List.mem_map, Prod.exists, List.mem_zipIdx_iff_getElem?]
  constructor
  · rintro ⟨c, i, hc, rfl⟩
    exact ⟨i, hc, rfl⟩
  · rintro ⟨i, hc, hx⟩
    exact ⟨x.2, i, hc, by rw [← hx]⟩

theorem childrenAt_pairwise (p : List Nat) (n : Node) :
    (n.childrenAt p).Pairwise fun x y => LeftOf x.1 y.1 := by
  have hindex : n.children.zipIdx.Pairwise fun x y => x.2 < y.2 := by
    rw [← List.pairwise_map (R := (· < ·)), List.zipIdx_map_snd]
    exact List.pairwise_lt_range'
  exact List.pairwise_map.2 (hindex.imp fun h => .of_lt h p)

/-- The nodes where `P` holds, with their positions, that a search finds which does not go below
them, starting with the nodes of a stack. -/
def outermostFrom (P : Node → Prop) [DecidablePred P] (stack : List (List Nat × Node)) :
    List (List Nat × Node) :=
  match stack with
  | [] => []
  | (p, n) :: rest =>
    if P n then (p, n) :: outermostFrom P rest else outermostFrom P (n.childrenAt p ++ rest)
termination_by sizeAll (stack.map Prod.snd)
decreasing_by
  all_goals
    simp only [List.map_cons, List.map_append, childrenAt_map_snd, sizeAll, sizeAll_append,
      size_eq n]
    omega

/-- A node where `P` holds at an outermost position below a node of a stack. -/
def OutermostIn (P : Node → Prop) (top x : List Nat × Node) : Prop :=
  ∃ q, x.1 = top.1 ++ q ∧ top.2.at? q = some x.2 ∧ Outermost P top.2 q

section
variable {P : Node → Prop} {p : List Nat} {n : Node} {x : List Nat × Node}

theorem outermostIn_of_holds (h : P n) : OutermostIn P (p, n) x ↔ x = (p, n) := by
  constructor
  · rintro ⟨q, hx, hq, hout⟩
    cases q with
    | nil =>
      rw [List.append_nil] at hx
      exact Prod.ext hx (Option.some.inj hq).symm
    | cons i q => exact absurd h (outermost_cons.1 hout).1
  · rintro rfl
    exact ⟨[], (List.append_nil _).symm, rfl, outermost_nil.2 h⟩

theorem outermostIn_of_not_holds (h : ¬ P n) :
    OutermostIn P (p, n) x ↔ ∃ c ∈ n.childrenAt p, OutermostIn P c x := by
  constructor
  · rintro ⟨q, hx, hq, hout⟩
    cases q with
    | nil => exact absurd (outermost_nil.1 hout) h
    | cons i q =>
      obtain ⟨-, c, hc, hout⟩ := outermost_cons.1 hout
      obtain ⟨c', hc', hq⟩ := at?_cons_eq_some.1 hq
      cases hc.symm.trans hc'
      exact ⟨(p ++ [i], c), mem_childrenAt.2 ⟨i, hc, rfl⟩, q, by simp [hx], hq, hout⟩
  · rintro ⟨⟨p', c⟩, hc, q, hx, hq, hout⟩
    obtain ⟨i, hi, rfl⟩ := mem_childrenAt.1 hc
    exact ⟨i :: q, by simp [hx], at?_cons_eq_some.2 ⟨c, hi, hq⟩,
      outermost_cons.2 ⟨h, c, hi, hout⟩⟩

variable [DecidablePred P]

/-- The search finds the outermost nodes below those of its stack. -/
theorem mem_outermostFrom {stack : List (List Nat × Node)} :
    x ∈ outermostFrom P stack ↔ ∃ top ∈ stack, OutermostIn P top x := by
  induction stack using outermostFrom.induct P with
  | case1 => simp [outermostFrom]
  | case2 p n rest h ih =>
    rw [outermostFrom, if_pos h, List.mem_cons, ih]
    simp only [List.mem_cons, exists_eq_or_imp, outermostIn_of_holds h]
  | case3 p n rest h ih =>
    rw [outermostFrom, if_neg h, ih]
    simp only [List.mem_append, List.mem_cons, or_and_right, exists_or, exists_eq_left,
      outermostIn_of_not_holds h]

/-- What the search finds below nodes from left to right, it finds from left to right. -/
theorem outermostFrom_pairwise {stack : List (List Nat × Node)}
    (hs : stack.Pairwise fun x y => LeftOf x.1 y.1) :
    (outermostFrom P stack).Pairwise fun x y => LeftOf x.1 y.1 := by
  induction stack using outermostFrom.induct P with
  | case1 => simp [outermostFrom]
  | case2 p n rest h ih =>
    obtain ⟨hhead, hrest⟩ := List.pairwise_cons.1 hs
    rw [outermostFrom, if_pos h]
    refine List.pairwise_cons.2 ⟨fun x hx => ?_, ih hrest⟩
    obtain ⟨top, htop, q, hq, -⟩ := mem_outermostFrom.1 hx
    have := (hhead top htop).below [] q
    rwa [List.append_nil, ← hq] at this
  | case3 p n rest h ih =>
    obtain ⟨hhead, hrest⟩ := List.pairwise_cons.1 hs
    rw [outermostFrom, if_neg h]
    refine ih (List.pairwise_append.2 ⟨childrenAt_pairwise p n, hrest, fun c hc top htop => ?_⟩)
    obtain ⟨i, -, hi⟩ := mem_childrenAt.1 hc
    have := (hhead top htop).below [i] []
    rwa [List.append_nil, ← hi] at this

end

end Node

end Chronicle
