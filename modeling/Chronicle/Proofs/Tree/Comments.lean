import Chronicle.Proofs.Node.Position
import Chronicle.Proofs.Outcome
import Chronicle.Proofs.Text.Utf8
import Chronicle.Proofs.Tree.Preorder
import Chronicle.Tree.Comments

/-!
# All comments of a tree

The comments that stand in no other comment (`Tree.OutermostComment`) are what a traversal meets
that goes down a tree but not below comments (`Tree.outerComments`), each once and in pre-order
(`mem_outerComments`, `outerComments_pairwise`, `outerComments_sublist`).  Where the children of
every node are in order, that is the order of the source (`InOrder.stop_le_start`).

The collection of comments keeps the trees still to visit on a stack.  What it has still to find is
what the traversal meets in these trees (`commentsFrom_eq`), so it finds the outermost comments,
whatever constructs they stand in, and fails only with the error of the first one that cannot be
decoded (`comments_eq_error_iff`, `comments_outermost`).
-/

set_option autoImplicit false

namespace Chronicle

/-- A comment is a text without its delimiters: of a block the opening one, and the closing one if
it is there; of any other comment the two characters that open a line. -/
structure Comment.Undelimits (c : Comment) (text : String) : Prop where
  kind : c.kind = .block ↔ "/*".toList <+: text.toList
  block : c.kind = .block →
    text = "/*" ++ c.text ++ "*/" ∨ (text = "/*" ++ c.text ∧ ¬ "*/".toList <:+ c.text.toList)
  line : c.kind = .line → c.text.toList = text.toList.drop 2

theorem Comment.ofText_undelimits (text : String) (location : Location) :
    (Comment.ofText text location).Undelimits text := by
  unfold Comment.ofText
  split
  · rename_i body hbody
    refine ⟨iff_of_true rfl ⟨body, hbody.symm⟩, fun _ => ?_, nofun⟩
    dsimp only
    split
    · rename_i hclosed
      obtain ⟨inner, rfl⟩ := List.isSuffixOf_iff_suffix.1 hclosed
      left
      apply String.toList_inj.1
      simp [hbody]
    · rename_i hopen
      right
      refine ⟨String.toList_inj.1 (by simp [hbody]), fun hclosed => hopen ?_⟩
      exact List.isSuffixOf_iff_suffix.2 (by simpa using hclosed)
  · rename_i hline
    refine ⟨iff_of_false nofun ?_, nofun, fun _ => String.toList_ofList⟩
    rintro ⟨body, hbody⟩
    exact hline body hbody.symm

theorem LeftOf.cons {p q : List Nat} (h : LeftOf p q) (i : Nat) : LeftOf (i :: p) (i :: q) := by
  obtain ⟨shared, j, k, p', q', rfl, rfl, hlt⟩ := h
  exact ⟨i :: shared, j, k, p', q', rfl, rfl, hlt⟩

namespace Tree

/-! ## Positions -/

/-- The node at a position, which says what child to take at each step down. -/
def at? : Tree → List Nat → Option Tree
  | t, [] => some t
  | t, i :: p => t.children[i]?.bind fun c => c.at? p

theorem at?_cons_eq_some {t u : Tree} {i : Nat} {p : List Nat} :
    t.at? (i :: p) = some u ↔ ∃ c, t.children[i]? = some c ∧ c.at? p = some u :=
  Option.bind_eq_some_iff

/-- A comment at a position, with no comment above it. -/
structure OutermostComment (t : Tree) (p : List Nat) (c : Tree) : Prop where
  here : t.at? p = some c
  comment : c.label.isComment = true
  above : ∀ q b, q <+: p → q ≠ p → t.at? q = some b → b.label.isComment = false

variable {l : Label} {cs : List Tree} {t u c d : Tree} {i : Nat} {p q : List Nat}

theorem outermostComment_nil : t.OutermostComment [] c ↔ t.label.isComment = true ∧ c = t := by
  constructor
  · rintro ⟨hhere, hcomment, -⟩
    cases hhere
    exact ⟨hcomment, rfl⟩
  · rintro ⟨hcomment, rfl⟩
    exact ⟨rfl, hcomment, fun q b hq hne => absurd (List.prefix_nil.1 hq) hne⟩

theorem outermostComment_cons : t.OutermostComment (i :: p) c ↔
    t.label.isComment = false ∧ ∃ d, t.children[i]? = some d ∧ d.OutermostComment p c := by
  constructor
  · rintro ⟨hhere, hcomment, habove⟩
    obtain ⟨d, hd, hhere⟩ := at?_cons_eq_some.1 hhere
    refine ⟨habove [] t List.nil_prefix nofun rfl, d, hd, hhere, hcomment, fun q b hq hne hb => ?_⟩
    exact habove (i :: q) b (List.cons_prefix_cons.2 ⟨rfl, hq⟩)
      (fun he => hne (List.cons.inj he).2) (at?_cons_eq_some.2 ⟨d, hd, hb⟩)
  · rintro ⟨ht, d, hd, hhere, hcomment, habove⟩
    refine ⟨at?_cons_eq_some.2 ⟨d, hd, hhere⟩, hcomment, fun q b hq hne hb => ?_⟩
    cases q with
    | nil =>
      cases hb
      exact ht
    | cons j q =>
      obtain ⟨rfl, hqp⟩ := List.cons_prefix_cons.1 hq
      obtain ⟨d', hd', hb⟩ := at?_cons_eq_some.1 hb
      cases hd.symm.trans hd'
      exact habove q b hqp (fun he => hne (he ▸ rfl)) hb

/-! ## The traversal -/

mutual

/-- The comments of a tree that the traversal meets, with their positions. -/
def outerComments : Tree → List (List Nat × Tree)
  | node l cs => if l.isComment then [([], node l cs)] else outerCommentsFrom 0 cs

/-- The comments among and below some children, the first of which has the index `i`. -/
def outerCommentsFrom (i : Nat) : List Tree → List (List Nat × Tree)
  | [] => []
  | t :: ts => t.outerComments.map (fun x => (i :: x.1, x.2)) ++ outerCommentsFrom (i + 1) ts

end

mutual

/-- The traversal meets the outermost comments. -/
theorem mem_outerComments : ∀ {t : Tree} {p : List Nat} {c : Tree},
    (p, c) ∈ t.outerComments ↔ t.OutermostComment p c
  | .node l cs, p, c => by
    rw [outerComments]
    cases p with
    | nil =>
      rw [outermostComment_nil, label]
      split
      · rename_i hl
        simp [hl]
      · rename_i hl
        simp [hl, mem_outerCommentsFrom]
    | cons i p =>
      rw [outermostComment_cons, label, children]
      split
      · rename_i hl
        simp [hl]
      · rename_i hl
        rw [mem_outerCommentsFrom]
        simp [hl]

theorem mem_outerCommentsFrom : ∀ {ts : List Tree} {i : Nat} {p : List Nat} {c : Tree},
    (p, c) ∈ outerCommentsFrom i ts ↔
      ∃ j q d, p = (i + j) :: q ∧ ts[j]? = some d ∧ d.OutermostComment q c
  | [], i, p, c => by simp [outerCommentsFrom]
  | t :: ts, i, p, c => by
    rw [outerCommentsFrom, List.mem_append, mem_outerCommentsFrom]
    constructor
    · rintro (hmem | ⟨j, q, d, rfl, hd, hout⟩)
      · obtain ⟨x, hx, he⟩ := List.mem_map.1 hmem
        cases he
        exact ⟨0, x.1, t, rfl, rfl, mem_outerComments.1 hx⟩
      · exact ⟨j + 1, q, d, by rw [Nat.add_right_comm, Nat.add_assoc], hd, hout⟩
    · rintro ⟨j, q, d, rfl, hd, hout⟩
      cases j with
      | zero =>
        cases hd
        exact .inl (List.mem_map.2 ⟨(q, c), mem_outerComments.2 hout, rfl⟩)
      | succ j => exact .inr ⟨j, q, d, by rw [Nat.add_right_comm, Nat.add_assoc], hd, hout⟩

end

mutual

/-- The traversal goes from left to right, and so through a tree in pre-order. -/
theorem outerComments_pairwise (t : Tree) :
    t.outerComments.Pairwise fun x y => LeftOf x.1 y.1 := by
  cases t with
  | node l cs =>
    rw [outerComments]
    split
    · exact List.pairwise_singleton _ _
    · exact outerCommentsFrom_pairwise 0 cs

theorem outerCommentsFrom_pairwise : ∀ (i : Nat) (ts : List Tree),
    (outerCommentsFrom i ts).Pairwise fun x y => LeftOf x.1 y.1
  | i, [] => .nil
  | i, t :: ts => by
    rw [outerCommentsFrom]
    refine List.pairwise_append.2 ⟨List.pairwise_map.2 ((outerComments_pairwise t).imp (·.cons i)),
      outerCommentsFrom_pairwise (i + 1) ts, fun x hx y hy => ?_⟩
    obtain ⟨z, -, rfl⟩ := List.mem_map.1 hx
    obtain ⟨j, q, -, hq, -⟩ := mem_outerCommentsFrom.1 hy
    exact ⟨[], i, i + 1 + j, z.1, q, rfl, hq, by omega⟩

end

mutual

/-- What the traversal meets it meets as it stands in pre-order. -/
theorem outerComments_sublist (t : Tree) :
    (t.outerComments.map Prod.snd).Sublist t.preorder := by
  cases t with
  | node l cs =>
    rw [outerComments, preorder]
    split
    · exact (List.nil_sublist _).cons_cons _
    · exact (outerCommentsFrom_sublist 0 cs).cons _

theorem outerCommentsFrom_sublist : ∀ (i : Nat) (ts : List Tree),
    ((outerCommentsFrom i ts).map Prod.snd).Sublist (preorderAll ts)
  | i, [] => List.Sublist.slnil
  | i, t :: ts => by
    rw [outerCommentsFrom, preorderAll, List.map_append, List.map_map]
    exact (outerComments_sublist t).append (outerCommentsFrom_sublist (i + 1) ts)

end

/-! ## The order of the source -/

/-- The children of a node are in order and within it. -/
structure ChildrenInOrder (t : Tree) : Prop where
  apart : t.children.Pairwise fun c d => c.label.stop.byte ≤ d.label.start.byte
  within : ∀ c ∈ t.children,
    t.label.start.byte ≤ c.label.start.byte ∧ c.label.stop.byte ≤ t.label.stop.byte

/-- The children of every node of a tree are in order and within it. -/
def InOrder (t : Tree) : Prop :=
  ∀ s ∈ t.preorder, s.ChildrenInOrder

instance (t : Tree) : Decidable t.ChildrenInOrder :=
  decidable_of_iff (_ ∧ _) ⟨fun h => ⟨h.1, h.2⟩, fun h => ⟨h.apart, h.within⟩⟩

instance (t : Tree) : Decidable t.InOrder :=
  inferInstanceAs (Decidable (∀ s ∈ t.preorder, s.ChildrenInOrder))

namespace InOrder

theorem child (h : t.InOrder) (hd : d ∈ t.children) : d.InOrder := by
  cases t with
  | node l cs =>
    intro s hs
    refine h s ?_
    rw [preorder]
    exact List.mem_cons_of_mem _ (mem_preorderAll hs hd)

/-- A node lies within every node above it. -/
theorem within (h : t.InOrder) (hc : t.at? p = some c) :
    t.label.start.byte ≤ c.label.start.byte ∧ c.label.stop.byte ≤ t.label.stop.byte := by
  induction p generalizing t with
  | nil =>
    cases hc
    exact ⟨Nat.le_refl _, Nat.le_refl _⟩
  | cons i p ih =>
    obtain ⟨d, hd, hc⟩ := at?_cons_eq_some.1 hc
    have hmem := List.mem_of_getElem? hd
    obtain ⟨hstart, hstop⟩ := (h t (self_mem_preorder t)).within d hmem
    obtain ⟨hstart', hstop'⟩ := ih (h.child hmem) hc
    exact ⟨Nat.le_trans hstart hstart', Nat.le_trans hstop' hstop⟩

/-- A node ends before what is to the right of it starts. -/
theorem stop_le_start (h : t.InOrder) (hpq : LeftOf p q) (hc : t.at? p = some c)
    (hd : t.at? q = some d) : c.label.stop.byte ≤ d.label.start.byte := by
  obtain ⟨shared, i, j, p', q', rfl, rfl, hlt⟩ := hpq
  induction shared generalizing t with
  | nil =>
    obtain ⟨c', hc', hc⟩ := at?_cons_eq_some.1 hc
    obtain ⟨d', hd', hd⟩ := at?_cons_eq_some.1 hd
    have hmiddle : c'.label.stop.byte ≤ d'.label.start.byte := by
      obtain ⟨hi, rfl⟩ := List.getElem?_eq_some_iff.1 hc'
      obtain ⟨hj, rfl⟩ := List.getElem?_eq_some_iff.1 hd'
      exact List.pairwise_iff_getElem.1 (h t (self_mem_preorder t)).apart i j hi hj hlt
    have hleft := ((h.child (List.mem_of_getElem? hc')).within hc).2
    have hright := ((h.child (List.mem_of_getElem? hd')).within hd).1
    exact Nat.le_trans hleft (Nat.le_trans hmiddle hright)
  | cons k shared ih =>
    obtain ⟨b, hb, hc⟩ := at?_cons_eq_some.1 hc
    obtain ⟨b', hb', hd⟩ := at?_cons_eq_some.1 hd
    cases hb.symm.trans hb'
    exact ih (h.child (List.mem_of_getElem? hb)) hc hd

end InOrder

/-! ## The stack -/

variable (source : ByteArray)

/-- The comment that a node is. -/
def comment (t : Tree) : Except Fault Comment := do
  return Comment.ofText (← t.label.text source) t.label.location

theorem map_snd_outerCommentsFrom (i : Nat) (ts : List Tree) :
    (outerCommentsFrom i ts).map Prod.snd =
      ts.flatMap fun t => t.outerComments.map Prod.snd := by
  induction ts generalizing i with
  | nil => rfl
  | cons t ts ih =>
    rw [outerCommentsFrom, List.map_append, List.map_map, ih, List.flatMap_cons]
    rfl

/-- What the collection has still to find is what the traversal meets in the trees on the stack. -/
theorem commentsFrom_eq (stack : List Tree) : commentsFrom source stack =
    (stack.flatMap fun t => t.outerComments.map Prod.snd).mapM (comment source) := by
  induction stack using commentsFrom.induct with
  | case1 =>
    rw [commentsFrom]
    rfl
  | case2 l cs rest hl ih =>
    rw [commentsFrom, if_pos hl, ih, List.flatMap_cons, outerComments, if_pos hl, List.map_cons,
      List.map_nil, List.cons_append, List.nil_append, List.mapM_cons, comment, label]
    cases l.text source <;> rfl
  | case3 l cs rest hl ih =>
    rw [commentsFrom, if_neg hl, ih, List.flatMap_append, List.flatMap_cons, outerComments,
      if_neg hl, map_snd_outerCommentsFrom]

theorem comments_eq (t : Tree) :
    t.comments source = (t.outerComments.map Prod.snd).mapM (comment source) := by
  rw [comments, commentsFrom_eq, List.flatMap_cons, List.flatMap_nil, List.append_nil]

/-- A node is read as a comment: its text without delimiters, and its place. -/
def IsReadAs (t : Tree) (comment : Comment) : Prop :=
  ∃ text, t.label.text source = .ok text ∧ comment.Undelimits text ∧
    comment.location = t.label.location

variable {source} {f : Fault} {comment : Comment}

theorem exists_text_of_comment (h : t.comment source = .ok comment) :
    ∃ text, t.label.text source = .ok text ∧ comment = .ofText text t.label.location := by
  obtain ⟨text, htext, h⟩ := bind_eq_ok h
  cases h
  exact ⟨text, htext, rfl⟩

theorem isReadAs_of_comment (h : t.comment source = .ok comment) : t.IsReadAs source comment := by
  obtain ⟨text, htext, rfl⟩ := exists_text_of_comment h
  refine ⟨text, htext, Comment.ofText_undelimits _ _, ?_⟩
  unfold Comment.ofText
  split <;> rfl

/-! ## Comments that cannot be decoded -/

/-- The text of a node fails with the flaw of its bytes. -/
theorem Label.exists_flaw_of_text (h : l.text source = .error f) :
    ∃ flaw, f = .undecodable flaw ∧
      Utf8.decode (source.extract l.start.byte l.stop.byte) = .error flaw := by
  unfold Label.text sourceText at h
  cases hd : Utf8.decode (source.extract l.start.byte l.stop.byte) with
  | ok text =>
    rw [hd] at h
    cases h
  | error flaw =>
    rw [hd] at h
    cases h
    exact ⟨flaw, rfl, rfl⟩

theorem comment_eq_error_iff : t.comment source = .error f ↔ t.label.text source = .error f := by
  unfold comment
  cases t.label.text source with
  | ok text => exact ⟨nofun, nofun⟩
  | error e =>
    constructor
    · rintro ⟨⟩
      rfl
    · rintro ⟨⟩
      rfl

/-- `c` is the first of some nodes that cannot be decoded, and `flaw` what is wrong with it. -/
structure FirstFlawed (source : ByteArray) (nodes : List Tree) (c : Tree) (flaw : Utf8.Flaw) :
    Prop where
  first : ∃ before after, nodes = before ++ c :: after ∧
    ∀ b ∈ before, ∃ text, b.label.text source = .ok text
  flawed : c.label.text source = .error (.undecodable flaw)

/-- The collection of comments fails as the first outermost comment does that cannot be decoded. -/
theorem comments_eq_error_iff : t.comments source = .error f ↔
    ∃ c flaw, f = .undecodable flaw ∧
      FirstFlawed source (t.outerComments.map Prod.snd) c flaw := by
  rw [comments_eq]
  constructor
  · intro h
    obtain ⟨before, c, after, hsplit, hbefore, hc⟩ := exists_first_of_mapM_eq_error h
    have htext := comment_eq_error_iff.1 hc
    obtain ⟨flaw, rfl, -⟩ := c.label.exists_flaw_of_text htext
    refine ⟨c, flaw, rfl, ⟨before, after, hsplit, fun b hb => ?_⟩, htext⟩
    obtain ⟨comment, hcomment⟩ := hbefore b hb
    obtain ⟨text, htext, -⟩ := exists_text_of_comment hcomment
    exact ⟨text, htext⟩
  · rintro ⟨c, flaw, rfl, ⟨before, after, hsplit, hbefore⟩, hflawed⟩
    rw [hsplit]
    refine mapM_eq_error (fun b hb => ?_) (comment_eq_error_iff.2 hflawed)
    obtain ⟨text, htext⟩ := hbefore b hb
    unfold Tree.comment
    rw [htext]
    exact ⟨_, rfl⟩

/-- The comments collected from a tree are those that stand in no other comment: each once, in
pre-order, and so in the order of the source where all children are in order.  If all of them can be
decoded, they are read one by one.  If one cannot, nothing is collected, and the error is that of the
first such comment. -/
theorem comments_outermost (source : ByteArray) (t : Tree) :
    ∃ found : List (List Nat × Tree),
      (∀ p c, (p, c) ∈ found ↔ t.OutermostComment p c) ∧
      (found.Pairwise fun x y => LeftOf x.1 y.1) ∧
      (found.map Prod.snd).Sublist t.preorder ∧
      (t.InOrder → found.Pairwise fun x y => x.2.label.stop.byte ≤ y.2.label.start.byte) ∧
      ((∀ x ∈ found, ∃ text, x.2.label.text source = .ok text) →
        ∃ comments, t.comments source = .ok comments ∧
          List.Forall₂ (fun x comment => x.2.IsReadAs source comment) found comments) ∧
      ((∃ x ∈ found, ∀ text, x.2.label.text source ≠ .ok text) →
        ∃ c flaw, FirstFlawed source (found.map Prod.snd) c flaw ∧
          t.comments source = .error (.undecodable flaw)) := by
  refine ⟨t.outerComments, fun p c => mem_outerComments, outerComments_pairwise t,
    outerComments_sublist t, fun h => ?_, fun hdecodable => ?_, fun ⟨x, hx, hflawed⟩ => ?_⟩
  · refine (outerComments_pairwise t).imp_of_mem fun hx hy hleft => ?_
    exact h.stop_le_start hleft (mem_outerComments.1 hx).here (mem_outerComments.1 hy).here
  · cases hfound : t.comments source with
    | ok comments =>
      rw [comments_eq] at hfound
      have hall := List.forall₂_map_left_iff.1 (forall₂_of_mapM_eq_ok hfound)
      exact ⟨comments, rfl, hall.imp fun _ _ h => isReadAs_of_comment h⟩
    | error f =>
      obtain ⟨c, flaw, -, ⟨before, after, hsplit, -⟩, hflawed⟩ := comments_eq_error_iff.1 hfound
      have hmem : c ∈ t.outerComments.map Prod.snd := by
        rw [hsplit]
        exact List.mem_append_right before List.mem_cons_self
      obtain ⟨x, hx, rfl⟩ := List.mem_map.1 hmem
      obtain ⟨text, htext⟩ := hdecodable x hx
      rw [hflawed] at htext
      cases htext
  · cases hfound : t.comments source with
    | error f =>
      obtain ⟨c, flaw, rfl, hfirst⟩ := comments_eq_error_iff.1 hfound
      exact ⟨c, flaw, hfirst, rfl⟩
    | ok comments =>
      rw [comments_eq] at hfound
      obtain ⟨comment, hcomment⟩ :=
        exists_of_mapM_eq_ok hfound x.2 (List.mem_map_of_mem hx)
      obtain ⟨text, htext, -⟩ := exists_text_of_comment hcomment
      exact absurd htext (hflawed text)

/-- The label of a kind of node from one column to another of the first line. -/
def Label.spanning (kind : String) (start stop : Nat) (isNamed : Bool) : Label :=
  { kind, isNamed, start := ⟨start, 0, start⟩, stop := ⟨stop, 0, stop⟩ }

/-- A tree over the letter `é` whose comment is half of it. -/
def undecodableTree : Tree :=
  .node (.spanning "program" 0 2 true) [.node (.spanning "comment" 0 1 true) []]

/-- The first byte of the letter without the second. -/
def halfLetter : Utf8.Flaw := ⟨0, 0xC3, 0, .unexpectedEnd⟩

example : (Fault.undecodable halfLetter).message =
    "'utf-8' codec can't decode byte 0xc3 in position 0: unexpected end of data" := rfl

theorem text_undecodableTree : (Label.spanning "comment" 0 1 true).text "é".toUTF8 =
    .error (.undecodable halfLetter) := by
  have hbytes : ("é".toUTF8.extract 0 1).data.toList = [0xC3] := rfl
  have hflaw : Utf8.decode ("é".toUTF8.extract 0 1) = .error halfLetter := by
    rw [Utf8.decode_eq_error_iff, hbytes, Utf8.flawFrom?]
    rfl
  exact congrArg (Except.mapError Fault.undecodable) hflaw

theorem comments_undecodableTree :
    undecodableTree.comments "é".toUTF8 = .error (.undecodable halfLetter) :=
  comments_eq_error_iff.2
    ⟨_, halfLetter, rfl, ⟨[], [], rfl, nofun⟩, text_undecodableTree⟩

/-- A line with a comment, and a statement that is not interpreted with a comment in its block. -/
def commentsSource : ByteArray := "//a\nswitch(x)\x7b/*b*/\x7d".toUTF8

/-- The tree of this source. -/
def commentsTree : Tree :=
  .node ⟨"program", true, ⟨0, 0, 0⟩, ⟨20, 1, 16⟩, none, false, false⟩ [
    .node (.spanning "comment" 0 3 true) [],
    .node ⟨"switch_statement", true, ⟨4, 1, 0⟩, ⟨20, 1, 16⟩, none, false, false⟩ [
      .node ⟨"switch_body", true, ⟨13, 1, 9⟩, ⟨20, 1, 16⟩, none, false, false⟩ [
        .node ⟨"comment", true, ⟨14, 1, 10⟩, ⟨19, 1, 15⟩, none, false, false⟩ []]]]

theorem comments_outermost_nested :
    commentsTree.InOrder ∧
      (∃ found : List (List Nat × Tree),
        (∀ p c, (p, c) ∈ found ↔ commentsTree.OutermostComment p c) ∧
        (found.Pairwise fun x y => x.2.label.stop.byte ≤ y.2.label.start.byte) ∧
        List.Forall₂ (fun x comment => x.2.IsReadAs commentsSource comment) found
          [⟨.line, "a", ⟨1, 0, 1, 3⟩⟩, ⟨.block, "b", ⟨2, 10, 2, 15⟩⟩]) ∧
      ∃ flaw, undecodableTree.comments "é".toUTF8 = .error (.undecodable flaw) := by
  have horder : commentsTree.InOrder := by decide
  have hcomments : commentsTree.comments commentsSource =
      .ok [⟨.line, "a", ⟨1, 0, 1, 3⟩⟩, ⟨.block, "b", ⟨2, 10, 2, 15⟩⟩] := by
    simp only [comments, commentsTree, commentsFrom, List.cons_append, List.nil_append]
    rfl
  obtain ⟨found, hfound, -, -, hsorted, hread, hfails⟩ :=
    comments_outermost commentsSource commentsTree
  refine ⟨horder, ⟨found, hfound, hsorted horder, ?_⟩, ?_⟩
  · have hdecodable : ∀ x ∈ found, ∃ text, x.2.label.text commentsSource = .ok text := by
      intro x hx
      by_contra hnone
      obtain ⟨c, flaw, -, herror⟩ := hfails ⟨x, hx, fun text htext => hnone ⟨text, htext⟩⟩
      rw [herror] at hcomments
      cases hcomments
    obtain ⟨comments, hok, hall⟩ := hread hdecodable
    rw [hcomments] at hok
    cases hok
    exact hall
  · obtain ⟨found, hfound, -, -, -, -, hfails⟩ := comments_outermost "é".toUTF8 undecodableTree
    have hmem : ([0], .node (.spanning "comment" 0 1 true) []) ∈ found :=
      (hfound _ _).2 (outermostComment_cons.2 ⟨rfl, _, rfl, outermostComment_nil.2 ⟨rfl, rfl⟩⟩)
    have hnone : ∀ text, (Label.spanning "comment" 0 1 true).text "é".toUTF8 ≠ .ok text := by
      intro text htext
      rw [text_undecodableTree] at htext
      cases htext
    obtain ⟨c, flaw, -, herror⟩ := hfails ⟨_, hmem, hnone⟩
    exact ⟨flaw, herror⟩

/-- A comment that stands in no other comment is not collected when it cannot be decoded. -/
theorem outermostComment_not_collected :
    (∃ c, undecodableTree.OutermostComment [0] c) ∧
      undecodableTree.comments "é".toUTF8 = .error (.undecodable halfLetter) :=
  ⟨⟨_, outermostComment_cons.2 ⟨rfl, _, rfl, outermostComment_nil.2 ⟨rfl, rfl⟩⟩⟩,
    comments_undecodableTree⟩

end Tree

end Chronicle
