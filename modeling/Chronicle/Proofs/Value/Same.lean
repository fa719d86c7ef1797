import Chronicle.Proofs.Value.Cycles

/-!
# Values that are the same in structure

`Heap.Same h h' v v'`: read in `h` and `h'`, the two values are the same atom, or sequences of as
many elements that are the same in order, or records of the same names in order whose values are the
same.  Such values are finite, and every value that has a rendering is the same as itself
(`same_of_format`).

A value stays the same as others when it is copied (`Same.shift`) and under all stores to cells that
it does not reach (`Same.evolves`), and what are the same as a third are the same (`Same.trans`).
-/

set_option autoImplicit false

namespace Chronicle.Heap

/-- Values of two heaps with the same structure and the same atoms. -/
inductive Same (h h' : Heap) : Value → Value → Prop
  | number (n : Number) : Same h h' (.number n) (.number n)
  | text (s : String) : Same h h' (.text s) (.text s)
  | boolean (b : Bool) : Same h h' (.boolean b) (.boolean b)
  | null : Same h h' .null .null
  | undefined : Same h h' .undefined .undefined
  | sequence {a b : Address} (hlength : (h'.items b).length = (h.items a).length)
    (hitems : ∀ (i : Nat) v v', (h.items a)[i]? = some v → (h'.items b)[i]? = some v' →
      Same h h' v v') :
    Same h h' (.sequence a) (.sequence b)
  | record {a b : Address} (hnames : (h'.fields b).map Prod.fst = (h.fields a).map Prod.fst)
    (hfields : ∀ (i : Nat) f f', (h.fields a)[i]? = some f → (h'.fields b)[i]? = some f' →
      Same h h' f.2 f'.2) :
    Same h h' (.record a) (.record b)

variable {h h' h'' below : Heap} {v v' : Value}

theorem same_of_formatWithin {k : Nat} {text : String} (hv : h.formatWithin k v = .ok text) :
    h.Same h v v := by
  induction k generalizing v text with
  | zero =>
    cases v with
    | sequence a | record a => cases hv
    | number n => exact .number n
    | text s => exact .text s
    | boolean b => exact .boolean b
    | null => exact .null
    | undefined => exact .undefined
  | succ k ih =>
    cases v with
    | number n => exact .number n
    | text s => exact .text s
    | boolean b => exact .boolean b
    | null => exact .null
    | undefined => exact .undefined
    | sequence a =>
      obtain ⟨parts, hparts, -⟩ := bind_eq_ok hv
      refine .sequence rfl fun i u u' hu hu' => ?_
      obtain rfl := Option.some.inj (hu.symm.trans hu')
      obtain ⟨shown, hshown⟩ := exists_of_mapM_eq_ok hparts u (List.mem_of_getElem? hu)
      exact ih hshown
    | record a =>
      obtain ⟨parts, hparts, -⟩ := bind_eq_ok hv
      refine .record rfl fun i f f' hf hf' => ?_
      obtain rfl := Option.some.inj (hf.symm.trans hf')
      obtain ⟨shown, hshown⟩ := exists_of_mapM_eq_ok hparts f (List.mem_of_getElem? hf)
      obtain ⟨text, htext, -⟩ := bind_eq_ok hshown
      exact ih htext

/-- A value that has a rendering is finite. -/
theorem same_of_format {text : String} (hv : h.format v = .ok text) : h.Same h v v :=
  same_of_formatWithin hv

namespace Same

/-- A moved value is the same. -/
theorem shift (hs : h.Same h' v v') (ha : Above below h' h'') :
    h.Same h'' v (below.shiftValue v') := by
  induction hs with
  | number n => exact .number n
  | text s => exact .text s
  | boolean b => exact .boolean b
  | null => exact .null
  | undefined => exact .undefined
  | sequence hlength _ ih =>
    refine .sequence (by rw [ha.items_shift, List.length_map, hlength]) fun i u u' hu hu' => ?_
    rw [ha.items_shift, List.getElem?_map, Option.map_eq_some_iff] at hu'
    obtain ⟨x, hx, rfl⟩ := hu'
    exact ih i u x hu hx
  | record hnames _ ih =>
    refine .record ?_ fun i f f' hf hf' => ?_
    · rw [ha.fields_shift, ← hnames, Fields.shift, List.map_map]
      rfl
    · rw [ha.fields_shift, Fields.shift, List.getElem?_map, Option.map_eq_some_iff] at hf'
      obtain ⟨x, hx, rfl⟩ := hf'
      exact ih i f x hf hx

/-- A value is the same after stores to cells that it does not reach. -/
theorem evolves (hs : h.Same h' v v') (he : h'.Evolves h'')
    (hout : ∀ c, h'.Reaches v' c → c ∉ h''.storesFrom h'.stores.size) : h.Same h'' v v' := by
  induction hs with
  | number n => exact .number n
  | text s => exact .text s
  | boolean b => exact .boolean b
  | null => exact .null
  | undefined => exact .undefined
  | @sequence a b hlength _ ih =>
    have hitems : h''.items b = h'.items b := he.items b (hout _ (.sequence b))
    refine .sequence (by rw [hitems, hlength]) fun i u u' hu hu' => ?_
    rw [hitems] at hu'
    exact ih i u u' hu hu' fun c hc => hout c (.item (List.mem_of_getElem? hu') hc)
  | @record a b hnames _ ih =>
    have hfields : h''.fields b = h'.fields b := he.fields b (hout _ (.record b))
    refine .record (by rw [hfields, hnames]) fun i f f' hf hf' => ?_
    rw [hfields] at hf'
    exact ih i f f' hf hf' fun c hc => hout c (.field (List.mem_of_getElem? hf') hc)

theorem symm (hs : h.Same h' v v') : h'.Same h v' v := by
  induction hs with
  | number n => exact .number n
  | text s => exact .text s
  | boolean b => exact .boolean b
  | null => exact .null
  | undefined => exact .undefined
  | sequence hlength _ ih => exact .sequence hlength.symm fun i u u' hu hu' => ih i u' u hu' hu
  | record hnames _ ih => exact .record hnames.symm fun i f f' hf hf' => ih i f' f hf' hf

theorem trans {v'' : Value} (hs : h.Same h' v v')
    (hs' : h'.Same h'' v' v'') : h.Same h'' v v'' := by
  induction hs generalizing v'' with
  | number n => cases hs'; exact .number n
  | text s => cases hs'; exact .text s
  | boolean b => cases hs'; exact .boolean b
  | null => cases hs'; exact .null
  | undefined => cases hs'; exact .undefined
  | @sequence a b hlength _ ih =>
    cases hs' with
    | @sequence _ c hlength' hitems' =>
      refine .sequence (hlength'.trans hlength) fun i u u'' hu hu'' => ?_
      have hlt : i < (h'.items b).length := by
        rw [hlength]
        exact (List.getElem?_eq_some_iff.1 hu).1
      have hmiddle := List.getElem?_eq_getElem hlt
      exact ih i u _ hu hmiddle (hitems' i _ u'' hmiddle hu'')
  | @record a b hnames _ ih =>
    cases hs' with
    | @record _ c hnames' hfields' =>
      refine .record (hnames'.trans hnames) fun i f f'' hf hf'' => ?_
      have hlength : (h'.fields b).length = (h.fields a).length := by
        simpa using congrArg List.length hnames
      have hlt : i < (h'.fields b).length := by
        rw [hlength]
        exact (List.getElem?_eq_some_iff.1 hf).1
      have hmiddle := List.getElem?_eq_getElem hlt
      exact ih i f _ hf hmiddle (hfields' i _ f'' hmiddle hf'')

end Same

end Chronicle.Heap
