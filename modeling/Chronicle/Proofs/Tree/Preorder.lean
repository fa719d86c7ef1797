import Chronicle.Tree

/-!
# Trees in pre-order

The nodes of a tree in pre-order are its root and, for each of them, its children
(`self_mem_preorder`, `child_mem_preorder`).
-/

set_option autoImplicit false

namespace Chronicle.Tree

theorem mem_preorderAll {c n : Tree} (hn : n ∈ c.preorder) :
    ∀ {cs : List Tree}, c ∈ cs → n ∈ preorderAll cs
  | d :: cs, hc => by
    rw [preorderAll, List.mem_append]
    rcases List.mem_cons.1 hc with rfl | hc
    · exact .inl hn
    · exact .inr (mem_preorderAll hn hc)

theorem self_mem_preorder : ∀ t : Tree, t ∈ t.preorder
  | .node _ _ => by
    rw [preorder]
    exact List.mem_cons_self

mutual

theorem child_mem_preorder {c b : Tree} (hc : c ∈ b.children) : ∀ {t : Tree}, b ∈ t.preorder →
    c ∈ t.preorder
  | .node l cs, hb => by
    rw [preorder] at hb ⊢
    refine List.mem_cons_of_mem _ ?_
    rcases List.mem_cons.1 hb with rfl | hb
    · exact mem_preorderAll (self_mem_preorder c) hc
    · exact child_mem_preorderAll hc hb

theorem child_mem_preorderAll {c b : Tree} (hc : c ∈ b.children) : ∀ {ts : List Tree},
    b ∈ preorderAll ts → c ∈ preorderAll ts
  | t :: ts, hb => by
    rw [preorderAll] at hb ⊢
    rcases List.mem_append.1 hb with hb | hb
    · exact List.mem_append_left _ (child_mem_preorder hc hb)
    · exact List.mem_append_right _ (child_mem_preorderAll hc hb)

end

end Chronicle.Tree
