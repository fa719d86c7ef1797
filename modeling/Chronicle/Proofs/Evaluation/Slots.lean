import Chronicle.Evaluation.Expression
import Chronicle.Proofs.Triple
import Chronicle.Proofs.Value.Fields
import Chronicle.Proofs.Value.Nesting

/-!
# Slots

A key addresses a slot: an index or the length of a sequence, a field of a record.  A write to a slot
is read back under every key that addresses it, and under no other: `Heap.SequenceWritten` says so of
a sequence, which grows when the index lies beyond it, and `Heap.RecordWritten` of a record, whose
names keep their order.  Every write that succeeds is one of these, and one that is refused changes
nothing (`writeProperty_lens`).

A sequence reads its length under the key `length` before any index is looked for, so the two must
be told apart: no key with an index has that text (`Value.text_of_index?`).
-/

set_option autoImplicit false

namespace Chronicle

/-! ## Texts of indices -/

namespace Number

theorem not_mem_natDigits (n : Nat) : 'l' ∉ natDigits n := by
  intro h
  have hdigit := Nat.isDigit_of_mem_toDigits (by decide) (by decide) h
  revert hdigit
  decide

theorem not_mem_intText (n : Int) : 'l' ∉ (intText n).toList := by
  unfold intText
  rw [String.toList_ofList]
  split
  · simp [not_mem_natDigits]
  · exact not_mem_natDigits _

theorem not_mem_pointBefore (places : Nat) {ds : List Char} (h : 'l' ∉ ds) :
    'l' ∉ pointBefore places ds := by
  have hpadded : 'l' ∉ List.replicate (places + 1 - ds.length) '0' ++ ds := by
    simp [h]
  unfold pointBefore
  dsimp only
  rw [List.mem_append, List.mem_cons, not_or, not_or]
  exact ⟨fun hm => hpadded (List.mem_of_mem_take hm), by decide,
    fun hm => hpadded (List.mem_of_mem_drop hm)⟩

theorem not_mem_write (layout : Layout) (d : Decimal) : 'l' ∉ layout.write d := by
  have hds := not_mem_natDigits d.digits
  unfold Layout.write
  dsimp only
  split
  · split
    · simp [hds]
    · exact not_mem_pointBefore _ hds
  · have hsign : ∀ b : Prop, [Decidable b] → 'l' ≠ if b then '-' else '+' := by
      intro b _
      split <;> decide
    simp only [List.mem_append, List.mem_cons, List.mem_replicate, not_or, not_and]
    refine ⟨⟨?_, by decide, hsign _, fun _ => by decide⟩, not_mem_natDigits _⟩
    split
    · exact List.not_mem_nil
    · rename_i hmantissa
      rw [← hmantissa]
      exact hds
    · rename_i hmantissa
      rw [hmantissa, List.mem_cons, not_or] at hds
      simp [hds]

theorem not_mem_floatText (x : Float) : 'l' ∉ (floatText x).toList := by
  unfold floatText
  cases Binary64.ofFloat x with
  | nan => decide
  | infinite negative => cases negative <;> decide
  | finite negative significand exponent =>
    have hbody : 'l' ∉ (if significand == 0 then ['0', '.', '0']
        else Layout.natural.write (shortest significand exponent)) := by
      split
      · decide
      · exact not_mem_write _ _
    dsimp only
    rw [String.toList_ofList]
    split
    · rw [List.mem_cons, not_or]
      exact ⟨by decide, hbody⟩
    · exact hbody

/-- No number is written with this letter. -/
theorem not_mem_text {n : Number} {s : String} (h : n.text = .ok s) : 'l' ∉ s.toList := by
  cases n with
  | int n =>
    have h : writeInt n = .ok s := h
    unfold writeInt at h
    split at h
    · cases h
      exact not_mem_intText n
    · cases h
  | float x =>
    unfold text at h
    dsimp only at h
    split at h
    · cases h
      decide
    · rename_i negative _
      cases h
      cases negative <;> decide
    · split at h
      · cases h
        exact not_mem_intText _
      · cases h
        exact not_mem_floatText x

end Number

/-- A key with an index is a number or a text of digits.  Its text does not depend on the heap, and
it is not the name of the length. -/
theorem Value.text_of_index? {key : Value} {i : Nat} (hi : key.index? = .ok (some i)) (h : Heap) :
    (∀ h' : Heap, h'.text key = h.text key) ∧ h.text key ≠ .ok "length" := by
  cases key with
  | number n =>
    refine ⟨fun _ => rfl, fun hlength => ?_⟩
    exact Number.not_mem_text (n := n) hlength (by decide)
  | text s =>
    refine ⟨fun _ => rfl, fun hlength => ?_⟩
    cases hlength
    have hnone : (Value.text "length").index? = .ok none := rfl
    rw [hnone] at hi
    cases hi
  | _ => cases hi

/-! ## Elements after a write -/

namespace Heap

theorem length_writeAt (items : List Value) (i : Nat) (v : Value) :
    (writeAt items i v).length = if items.length ≤ i then i + 1 else items.length := by
  unfold writeAt
  by_cases hi : i < items.length
  · rw [if_pos hi, if_neg (by omega), List.length_set]
  · rw [if_neg hi, if_pos (by omega)]
    simp only [List.length_append, List.length_replicate, List.length_singleton]
    omega

/-- An element that is not there reads `undefined`, so filling a gap changes no element. -/
theorem getD_writeAt (items : List Value) (i : Nat) (v : Value) (j : Nat) :
    ((writeAt items i v)[j]?).getD .undefined =
      if j = i then v else (items[j]?).getD .undefined := by
  unfold writeAt
  by_cases hi : i < items.length
  · rw [if_pos hi, List.getElem?_set, if_pos hi]
    by_cases hj : j = i
    · rw [if_pos hj, if_pos hj.symm]
      rfl
    · rw [if_neg hj, if_neg (Ne.symm hj)]
  · rw [if_neg hi]
    by_cases hj : j = i
    · subst hj
      rw [if_pos rfl, List.getElem?_append_right (by simp; omega)]
      simp [show j - (items.length + (j - items.length)) = 0 by omega]
    · rw [if_neg hj]
      by_cases hlt : j < items.length
      · rw [List.append_assoc, List.getElem?_append_left hlt]
      · rw [List.getElem?_eq_none (l := items) (by omega)]
        by_cases hgap : j < i
        · rw [List.getElem?_append_left (by simp; omega),
            List.getElem?_append_right (by omega), List.getElem?_replicate, if_pos (by omega)]
          rfl
        · rw [List.getElem?_eq_none (by simp; omega)]

end Heap

namespace Heap

variable (h : Heap)

/-! ## Texts after a write -/

/-- A text is read off sequences alone, so a write to a record changes none. -/
theorem text_setFields (a : Address) (fields : Fields) (v : Value) :
    (h.setFields a fields).text v = h.text v := by
  have hwithin : ∀ k u, (h.setFields a fields).textWithin k u = h.textWithin k u := by
    intro k
    induction k with
    | zero => intro u; cases u <;> rfl
    | succ k ih =>
      intro u
      cases u with
      | sequence b =>
        have helement : (h.setFields a fields).elementText k = h.elementText k := by
          funext x
          simp only [elementText, ih]
        rw [textWithin_sequence, textWithin_sequence, helement]
        rfl
      | _ => rfl
  have hdepth : (h.setFields a fields).depth = h.depth := by
    simp [depth, setFields]
  unfold text
  rw [hdepth, hwithin]

/-- The text of a value that is no sequence is not read off the heap. -/
theorem text_of_kind_ne {v : Value} (hv : v.kind ≠ .sequence) (h' : Heap) :
    h'.text v = h.text v := by
  cases v with
  | sequence a => exact absurd rfl hv
  | _ => rfl

/-! ## Reading -/

/-- What a key reads of a sequence. -/
theorem getProperty_sequence (a : Address) {key : Value} {name : String}
    (hname : h.text key = .ok name) (location : Option Location) :
    h.getProperty (.sequence a) key location =
      if name = "length" then .ok (.int (h.items a).length)
      else orFault (key.index?.map fun i? =>
        (i?.bind fun i => (h.items a)[i]?).getD .undefined) := by
  unfold getProperty elementAt
  rw [hname]
  by_cases hlength : name = "length"
  · subst hlength
    rfl
  · rw [if_neg hlength]
    dsimp only
    rw [if_neg (by simpa using hlength)]
    cases key.index? with
    | error f => rfl
    | ok i? => cases i? <;> rfl

theorem getProperty_of_text_error (receiver : Value) {key : Value} {f : Fault}
    (hname : h.text key = .error f) (location : Option Location) :
    h.getProperty receiver key location = .error (.fault f) := by
  unfold getProperty
  rw [hname]

/-- What a key reads of a record. -/
theorem getProperty_record (a : Address) {key : Value} {name : String}
    (hname : h.text key = .ok name) (location : Option Location) :
    h.getProperty (.record a) key location = .ok (((h.fields a).get? name).getD .undefined) := by
  unfold getProperty
  rw [hname]

/-! ## Writing -/

/-- The heap after a write of `v` at index `i` of a sequence, and before it. -/
structure SequenceWritten (h h' : Heap) (a : Address) (i : Nat) (v : Value) : Prop where
  /-- Every key of the slot reads what was written. -/
  slot : ∀ key name location, h'.text key = .ok name → key.index? = .ok (some i) →
    h'.getProperty (.sequence a) key location = .ok v
  /-- Every key of another slot but the length reads as before. -/
  others : ∀ key location, h'.text key = h.text key → key.index? ≠ .ok (some i) →
    h.text key ≠ .ok "length" →
    h'.getProperty (.sequence a) key location = h.getProperty (.sequence a) key location
  /-- The slots between the old end and the index read `undefined`. -/
  gap : ∀ key name location j, h'.text key = .ok name → key.index? = .ok (some j) →
    (h.items a).length ≤ j → j < i →
    h'.getProperty (.sequence a) key location = .ok .undefined
  /-- The sequence grows when the index lies beyond it. -/
  length : ∀ key location, h'.text key = .ok "length" →
    h'.getProperty (.sequence a) key location =
      .ok (.int (if (h.items a).length ≤ i then i + 1 else (h.items a).length : Nat))
  /-- Only keys that are sequences can come to address another slot. -/
  texts : ∀ key : Value, key.kind ≠ .sequence → h'.text key = h.text key
  /-- No other sequence and no record is changed. -/
  items : ∀ b, b ≠ a → h'.items b = h.items b
  fields : ∀ b, h'.fields b = h.fields b

/-- The heap after a write of `v` to the field `name` of a record, and before it. -/
structure RecordWritten (h h' : Heap) (a : Address) (name : String) (v : Value) : Prop where
  /-- Every key of the slot reads what was written. -/
  slot : ∀ key location, h'.text key = .ok name →
    h'.getProperty (.record a) key location = .ok v
  /-- Every key of another slot reads as before. -/
  others : ∀ key location, h'.text key ≠ .ok name →
    h'.getProperty (.record a) key location = h.getProperty (.record a) key location
  /-- A name that is there keeps its place, a new one goes last. -/
  names : (h'.fields a).map Prod.fst =
    if name ∈ (h.fields a).map Prod.fst then (h.fields a).map Prod.fst
    else (h.fields a).map Prod.fst ++ [name]
  /-- Names that stand once still do. -/
  once : ((h.fields a).map Prod.fst).Nodup → ((h'.fields a).map Prod.fst).Nodup
  /-- All keys address the slots that they did. -/
  texts : ∀ key, h'.text key = h.text key
  /-- No other record and no sequence is changed. -/
  fields : ∀ b, b ≠ a → h'.fields b = h.fields b
  items : ∀ b, h'.items b = h.items b

theorem items_setItems_self {a : Address} (ha : a < h.sequences.size) (items : List Value) :
    (h.setItems a items).items a = items := by
  simp [Heap.items, setItems, ha]

theorem items_setItems_of_ne {a b : Address} (hb : b ≠ a) (items : List Value) :
    (h.setItems a items).items b = h.items b := by
  simp [Heap.items, setItems, Ne.symm hb]

theorem fields_setFields_self {a : Address} (ha : a < h.records.size) (fields : Fields) :
    (h.setFields a fields).fields a = fields := by
  simp [Heap.fields, setFields, ha]

theorem fields_setFields_of_ne {a b : Address} (hb : b ≠ a) (fields : Fields) :
    (h.setFields a fields).fields b = h.fields b := by
  simp [Heap.fields, setFields, Ne.symm hb]

theorem sequenceWritten_setItems {a : Address} (ha : a < h.sequences.size) (i : Nat) (v : Value) :
    h.SequenceWritten (h.setItems a (writeAt (h.items a) i v)) a i v := by
  have hitems := h.items_setItems_self ha (writeAt (h.items a) i v)
  generalize hh : h.setItems a (writeAt (h.items a) i v) = h' at hitems
  -- an index reads what it did before, unless it is the one written
  have hindex : ∀ key name location j, h'.text key = .ok name → key.index? = .ok (some j) →
      h'.getProperty (.sequence a) key location =
        .ok (if j = i then v else ((h.items a)[j]?).getD .undefined) := by
    intro key name location j hname hj
    have hne : name ≠ "length" := by
      rintro rfl
      exact (Value.text_of_index? hj h').2 hname
    rw [h'.getProperty_sequence a hname, if_neg hne, hj, hitems, ← getD_writeAt]
    rfl
  refine ⟨?_, ?_, ?_, ?_, fun key hkey => h.text_of_kind_ne hkey h', ?_, ?_⟩
  · intro key name location hname hi
    rw [hindex key name location i hname hi, if_pos rfl]
  · intro key location htext hi hlength
    cases hname : h.text key with
    | error f =>
      rw [h'.getProperty_of_text_error _ (htext.trans hname),
        h.getProperty_of_text_error _ hname]
    | ok name =>
      have hne : name ≠ "length" := by
        rintro rfl
        exact hlength hname
      rw [h.getProperty_sequence a hname, if_neg hne]
      cases hj : key.index? with
      | error f =>
        rw [h'.getProperty_sequence a (htext.trans hname), if_neg hne, hj]
        rfl
      | ok j? =>
        cases j? with
        | none =>
          rw [h'.getProperty_sequence a (htext.trans hname), if_neg hne, hj]
          rfl
        | some j =>
          have hji : j ≠ i := by
            rintro rfl
            exact hi hj
          rw [hindex key name location j (htext.trans hname) hj, if_neg hji]
          rfl
  · intro key name location j hname hj hge hlt
    rw [hindex key name location j hname hj, if_neg (by omega), List.getElem?_eq_none hge]
    rfl
  · intro key location hname
    rw [h'.getProperty_sequence a hname, if_pos rfl, hitems, length_writeAt]
  · intro b hb
    rw [← hh, h.items_setItems_of_ne hb]
  · intro b
    rw [← hh]
    rfl

theorem recordWritten_setFields {a : Address} (ha : a < h.records.size) (name : String)
    (v : Value) :
    h.RecordWritten (h.setFields a ((h.fields a).insert name v)) a name v := by
  have htexts := h.text_setFields a ((h.fields a).insert name v)
  have hfields := h.fields_setFields_self ha ((h.fields a).insert name v)
  generalize hh : h.setFields a ((h.fields a).insert name v) = h' at htexts hfields
  refine ⟨?_, ?_, ?_, ?_, htexts, ?_, ?_⟩
  · intro key location hname
    rw [h'.getProperty_record a hname, hfields, Fields.get?_insert, if_pos rfl]
    rfl
  · intro key location hother
    cases hname : h.text key with
    | error f =>
      rw [h'.getProperty_of_text_error _ ((htexts key).trans hname),
        h.getProperty_of_text_error _ hname]
    | ok other =>
      have hne : other ≠ name := by
        rintro rfl
        exact hother ((htexts key).trans hname)
      rw [h'.getProperty_record a ((htexts key).trans hname), h.getProperty_record a hname,
        hfields, Fields.get?_insert, if_neg hne]
  · rw [hfields, Fields.names_insert]
  · intro honce
    rw [hfields]
    exact Fields.nodup_insert name v honce
  · intro b hb
    rw [← hh, h.fields_setFields_of_ne hb]
  · intro b
    rw [← hh]
    rfl

/-- A sequence or record that a value is stands in the heap. -/
def Has (h : Heap) : Value → Prop
  | .sequence a => a < h.sequences.size
  | .record a => a < h.records.size
  | _ => True

/-- The heap after a write of `v` under a key, and before it: only sequences and records are
written, a sequence at the index of the key and a record at its text. -/
def SlotWritten (h h' : Heap) (receiver key v : Value) : Prop :=
  match receiver with
  | .sequence a => ∃ i, key.index? = .ok (some i) ∧ h.SequenceWritten h' a i v
  | .record a => ∃ name, h.text key = .ok name ∧ h.RecordWritten h' a name v
  | _ => False

theorem slotWritten_of_setProperty {h h' : Heap} {receiver key v : Value} (hr : h.Has receiver)
    {location : Option Location} (hw : h.setProperty receiver key v location = .ok h') :
    h.SlotWritten h' receiver key v := by
  unfold setProperty at hw
  cases receiver with
  | record a =>
    dsimp only at hw
    cases hname : h.text key with
    | error f =>
      rw [hname] at hw
      cases hw
    | ok name =>
      rw [hname] at hw
      cases hw
      exact ⟨name, hname, h.recordWritten_setFields hr name v⟩
  | sequence a =>
    dsimp only at hw
    cases hi : key.index? with
    | error f =>
      rw [hi] at hw
      cases hw
    | ok i? =>
      rw [hi] at hw
      cases i? with
      | none => cases htext : h.text key <;> rw [htext] at hw <;> cases hw
      | some i =>
        dsimp only at hw
        split at hw
        · cases hw
        · cases hw
          exact ⟨i, hi, h.sequenceWritten_setItems hr i v⟩
  | _ => cases htext : h.text key <;> rw [htext] at hw <;> cases hw

end Heap

/-- What is written to a property is read back under every key of its slot, and nothing else of the
receiver changes but the length of a sequence that grows.  A write that is refused changes
nothing. -/
theorem writeProperty_lens (w : World) {receiver : Value} (hr : w.heap.Has receiver)
    (key v : Value) (location : Location) :
    match writeProperty receiver key v location w with
    | .ok _ w' => w.heap.SlotWritten w'.heap receiver key v ∧ w' = { w with heap := w'.heap }
    | .error _ w' => w' = w := by
  unfold writeProperty
  rw [get_bind]
  cases hw : w.heap.setProperty receiver key v (some location) with
  | ok h' => exact ⟨Heap.slotWritten_of_setProperty hr hw, rfl⟩
  | error x => rfl

/-- A world with one sequence of one element. -/
def worldWithSequence : World where
  heap := (Heap.empty.newSequence [.int 7]).2

/-- A write beyond the end, under one text of digits and read under another. -/
theorem writeProperty_lens_growing :
    worldWithSequence.heap.Has (.sequence 0) ∧
    ∃ w', writeProperty (.sequence 0) (.text "3") (.text "x") ⟨1, 0, 1, 8⟩ worldWithSequence =
        .ok () w' ∧
      w'.heap.getProperty (.sequence 0) (.text "03") none = .ok (.text "x") ∧
      w'.heap.getProperty (.sequence 0) (.text "2") none = .ok .undefined ∧
      w'.heap.getProperty (.sequence 0) (.text "0") none = .ok (.int 7) ∧
      w'.heap.getProperty (.sequence 0) (.text "length") none = .ok (.int 4) := by
  have hr : worldWithSequence.heap.Has (.sequence 0) := Nat.zero_lt_one
  have hlens := writeProperty_lens worldWithSequence hr (.text "3") (.text "x") ⟨1, 0, 1, 8⟩
  have h3 : (Value.text "3").index? = .ok (some 3) := rfl
  have h0 : (Value.text "0").index? = .ok (some 0) := rfl
  have hw : ∃ w', writeProperty (.sequence 0) (.text "3") (.text "x") ⟨1, 0, 1, 8⟩
      worldWithSequence = .ok () w' := ⟨_, rfl⟩
  obtain ⟨w', hw⟩ := hw
  rw [hw] at hlens
  obtain ⟨⟨i, hi, hwritten⟩, -⟩ := hlens
  cases h3.symm.trans hi
  refine ⟨hr, w', hw, hwritten.slot (.text "03") "03" none rfl rfl,
    hwritten.gap (.text "2") "2" none 2 rfl rfl (by decide) (by decide), ?_,
    hwritten.length (.text "length") none rfl⟩
  rw [hwritten.others (.text "0") none rfl (by rw [h0]; nofun) nofun]
  rfl

end Chronicle
