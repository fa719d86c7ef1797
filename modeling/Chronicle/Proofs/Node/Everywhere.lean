import Chronicle.Node.Children

/-!
# Conditions on every node of a tree

`Node.Everywhere p n`: the condition `p` holds of `n` and of all nodes below it.
-/

set_option autoImplicit false

namespace Chronicle.Node

/-- `p` holds of a node and of all nodes below it. -/
inductive Everywhere (p : Node → Prop) : Node → Prop
  | mk {n : Node} (here : p n) (below : ∀ c ∈ n.children, Everywhere p c) : Everywhere p n

/-- `p` holds of the nodes of a list and of all nodes below them. -/
def AllEverywhere (p : Node → Prop) (nodes : List Node) : Prop :=
  ∀ n ∈ nodes, Everywhere p n

section
variable {p : Node → Prop} {n c : Node}

/-- A node where `p` holds, above nodes where it holds everywhere. -/
theorem Everywhere.of (here : p n) (below : AllEverywhere p n.children) : n.Everywhere p :=
  .mk here below

theorem Everywhere.here (h : n.Everywhere p) : p n := by
  cases h with
  | mk here _ => exact here

theorem Everywhere.children (h : n.Everywhere p) : AllEverywhere p n.children := by
  cases h with
  | mk _ below => exact below

theorem Everywhere.child (h : n.Everywhere p) (hc : c ∈ n.children) : c.Everywhere p :=
  h.children c hc

theorem AllEverywhere.head {rest : List Node} (h : AllEverywhere p (n :: rest)) :
    n.Everywhere p :=
  h n List.mem_cons_self

theorem AllEverywhere.tail {rest : List Node} (h : AllEverywhere p (n :: rest)) :
    AllEverywhere p rest :=
  fun c hc => h c (List.mem_cons_of_mem n hc)

theorem AllEverywhere.nil : AllEverywhere p [] := nofun

theorem AllEverywhere.cons {rest : List Node} (h : n.Everywhere p) (hrest : AllEverywhere p rest) :
    AllEverywhere p (n :: rest) := by
  intro c hc
  rcases List.mem_cons.1 hc with hc | hc
  · exact hc ▸ h
  · exact hrest c hc

theorem AllEverywhere.append {l k : List Node} (hl : AllEverywhere p l) (hk : AllEverywhere p k) :
    AllEverywhere p (l ++ k) := by
  intro c hc
  rcases List.mem_append.1 hc with hc | hc
  · exact hl c hc
  · exact hk c hc

theorem AllEverywhere.toList {o : Option Node} (h : ∀ n, o = some n → n.Everywhere p) :
    AllEverywhere p o.toList :=
  fun c hc => h c (Option.mem_toList.1 hc)

end

theorem Everywhere.mono {p q : Node → Prop} (hpq : ∀ n, p n → q n) {n : Node}
    (h : n.Everywhere p) : n.Everywhere q := by
  induction h with
  | mk here _ ih => exact .mk (hpq _ here) ih

theorem AllEverywhere.mono {p q : Node → Prop} {nodes : List Node} (h : AllEverywhere p nodes)
    (hpq : ∀ n, p n → q n) : AllEverywhere q nodes :=
  fun n hn => .mono hpq (h n hn)

theorem size_le_sizeAll {c : Node} : ∀ {nodes : List Node}, c ∈ nodes → c.size ≤ sizeAll nodes
  | n :: rest, hc => by
    rw [sizeAll]
    rcases List.mem_cons.1 hc with rfl | hc
    · omega
    · have := size_le_sizeAll hc
      omega

/-- What holds of all nodes holds everywhere. -/
theorem everywhere_of_forall {p : Node → Prop} (h : ∀ n, p n) (n : Node) : n.Everywhere p :=
  .mk (h n) fun c _ => everywhere_of_forall h c
termination_by n.size
decreasing_by
  rw [size_eq n]
  exact Nat.lt_succ_of_le (size_le_sizeAll ‹_›)

end Chronicle.Node
