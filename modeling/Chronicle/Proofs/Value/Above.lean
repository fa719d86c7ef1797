import Chronicle.Proofs.Value.Nesting
import Chronicle.Value.Equality

/-!
# Heaps above others

`Heap.Above below h h'`: `h'` holds the sequences and records of `below` and, after them, those of
`h`.  A value `v` of `h` is the value `shiftValue below v` of `h'`.  What a value is, and all that
is read off it, does not show where the heap lies (`Above.text_shift`, `Above.format_shift`,
`Above.looseEquals_shift`), and cells can be made and changed in both heaps alike.  With nothing
below, these are two heaps with the same cells that remember different stores.
-/

set_option autoImplicit false

namespace Chronicle

/-! ## Moved values -/

section
variable (below : Heap) (v u : Value)

@[simp] theorem kind_shiftValue : (below.shiftValue v).kind = v.kind := by cases v <;> rfl

@[simp] theorem isNullish_shiftValue : (below.shiftValue v).isNullish = v.isNullish := by
  cases v <;> rfl

@[simp] theorem isTruthy_shiftValue : (below.shiftValue v).isTruthy = v.isTruthy := by
  cases v <;> rfl

@[simp] theorem typeName_shiftValue : (below.shiftValue v).typeName = v.typeName := by
  cases v <;> rfl

/-- Two values are the same sequence or record when their moved ones are. -/
@[simp] theorem strictEquals_shiftValue :
    (below.shiftValue v).strictEquals (below.shiftValue u) = v.strictEquals u := by
  cases v <;> cases u <;> simp [Heap.shiftValue, Value.strictEquals]

theorem shiftValue_sequence (a : Address) :
    below.shiftValue (.sequence a) = .sequence (below.sequences.size + a) := rfl

theorem shiftValue_record (a : Address) :
    below.shiftValue (.record a) = .record (below.records.size + a) := rfl

theorem shiftValue_text (s : String) : below.shiftValue (.text s) = .text s := rfl

/-- With nothing below, values stay where they are. -/
@[simp] theorem shiftValue_empty : Heap.shiftValue {} v = v := by
  cases v <;> simp [Heap.shiftValue]

end

/-! ## Moved fields -/

namespace Fields

/-- The fields with all values moved. -/
def shift (below : Heap) (fields : Fields) : Fields :=
  fields.map fun (name, v) => (name, below.shiftValue v)

variable (below : Heap) (fields : Fields)

theorem get?_shift (name : String) :
    (fields.shift below).get? name = (fields.get? name).map below.shiftValue := by
  unfold get? shift
  induction fields with
  | nil => rfl
  | cons field rest ih =>
    obtain ⟨n, v⟩ := field
    rw [List.map_cons, List.lookup_cons, List.lookup_cons]
    cases name == n with
    | true => rfl
    | false => exact ih

theorem insert_shift (name : String) (v : Value) :
    insert name (below.shiftValue v) (fields.shift below) =
      (insert name v fields).shift below := by
  unfold shift
  induction fields with
  | nil => rfl
  | cons field rest ih =>
    obtain ⟨n, u⟩ := field
    simp only [List.map_cons, insert]
    cases n == name with
    | true => rfl
    | false => simp only [Bool.false_eq_true, if_false, List.map_cons, ih]

end Fields

namespace Heap

/-- `h'` holds `below` and, above it, `h`. -/
structure Above (below h h' : Heap) : Prop where
  sequences : h'.sequences = (below.append h).sequences
  records : h'.records = (below.append h).records

/-- Above nothing lie the heaps with the same sequences and records. -/
theorem above_empty {h h' : Heap} :
    Above {} h h' ↔ h'.sequences = h.sequences ∧ h'.records = h.records := by
  have hid : shiftValue {} = id := funext shiftValue_empty
  have hs : (append {} h).sequences = h.sequences := by simp [append, hid]
  have hr : (append {} h).records = h.records := by simp [append]
  exact ⟨fun ha => ⟨ha.sequences.trans hs, ha.records.trans hr⟩,
    fun h => ⟨h.1.trans hs.symm, h.2.trans hr.symm⟩⟩

namespace Above

variable {below h h' : Heap} (ha : Above below h h')
include ha

/-! ## Cells -/

theorem size_sequences : h'.sequences.size = below.sequences.size + h.sequences.size := by
  rw [ha.sequences]
  simp [append]

theorem size_records : h'.records.size = below.records.size + h.records.size := by
  rw [ha.records]
  simp [append]

theorem depth_le : h.depth ≤ h'.depth := by
  have := ha.size_sequences
  have := ha.size_records
  unfold depth
  omega

theorem items_shift (a : Address) :
    h'.items (below.sequences.size + a) = (h.items a).map below.shiftValue := by
  unfold items
  rw [ha.sequences]
  simp only [append]
  rw [Array.getElem?_append_right (by omega), Nat.add_sub_cancel_left, Array.getElem?_map]
  cases h.sequences[a]? <;> rfl

theorem fields_shift (a : Address) :
    h'.fields (below.records.size + a) = (h.fields a).shift below := by
  unfold fields
  rw [ha.records]
  simp only [append]
  rw [Array.getElem?_append_right (by omega), Nat.add_sub_cancel_left, Array.getElem?_map]
  cases h.records[a]? <;> rfl

/-! ## Changes -/

theorem newSequence (items : List Value) :
    (h'.newSequence (items.map below.shiftValue)).1 = below.shiftValue (h.newSequence items).1 ∧
      Above below (h.newSequence items).2 (h'.newSequence (items.map below.shiftValue)).2 := by
  refine ⟨?_, ?_, ha.records⟩
  · simp only [Heap.newSequence, shiftValue, ha.size_sequences]
  · simp only [Heap.newSequence, append, Array.map_push, ← Array.push_append]
    rw [ha.sequences]
    rfl

theorem newRecord (fields : Fields) :
    (h'.newRecord (fields.shift below)).1 = below.shiftValue (h.newRecord fields).1 ∧
      Above below (h.newRecord fields).2 (h'.newRecord (fields.shift below)).2 := by
  refine ⟨?_, ha.sequences, ?_⟩
  · simp only [Heap.newRecord, shiftValue, ha.size_records]
  · simp only [Heap.newRecord, append, Array.map_push, ← Array.push_append]
    rw [ha.records]
    rfl

theorem setItems (a : Address) (items : List Value) :
    Above below (h.setItems a items)
      (h'.setItems (below.sequences.size + a) (items.map below.shiftValue)) := by
  refine ⟨?_, ha.records⟩
  simp only [Heap.setItems, append]
  rw [ha.sequences]
  simp only [append]
  rw [Array.setIfInBounds_append_right, Array.map_setIfInBounds, Nat.add_sub_cancel_left]
  omega

theorem setFields (a : Address) (fields : Fields) :
    Above below (h.setFields a fields)
      (h'.setFields (below.records.size + a) (fields.shift below)) := by
  refine ⟨ha.sequences, ?_⟩
  simp only [Heap.setFields, append]
  rw [ha.records]
  simp only [append]
  rw [Array.setIfInBounds_append_right, Array.map_setIfInBounds, Nat.add_sub_cancel_left]
  · rfl
  · omega

/-! ## Texts and numbers -/

theorem textWithin_shift (k : Nat) (v : Value) :
    h'.textWithin k (below.shiftValue v) = h.textWithin k v := by
  induction k generalizing v with
  | zero => cases v <;> rfl
  | succ k ih =>
    cases v with
    | sequence a =>
      have helement : h'.elementText k ∘ below.shiftValue = h.elementText k := by
        funext u
        simp only [elementText, Function.comp_apply, isNullish_shiftValue, ih]
      rw [shiftValue, textWithin_sequence, textWithin_sequence, ha.items_shift, List.mapM_map,
        helement]
    | _ => rfl

/-- A value gives the same text wherever the heap lies. -/
theorem text_shift (v : Value) : h'.text (below.shiftValue v) = h.text v :=
  (ha.textWithin_shift _ v).trans (h.textWithin_eq_text ha.depth_le v)

theorem formatWithin_shift (k : Nat) (v : Value) :
    h'.formatWithin k (below.shiftValue v) = h.formatWithin k v := by
  induction k generalizing v with
  | zero => cases v <;> rfl
  | succ k ih =>
    cases v with
    | sequence a =>
      have hitem : h'.formatWithin k ∘ below.shiftValue = h.formatWithin k := funext ih
      rw [shiftValue, formatWithin_sequence, formatWithin_sequence, ha.items_shift, List.mapM_map,
        hitem]
    | record a =>
      have hfield : (h'.fieldFormat k ∘ fun x => (x.1, below.shiftValue x.2)) = h.fieldFormat k := by
        funext field
        simp only [fieldFormat, Function.comp_apply, ih]
      rw [shiftValue, formatWithin_record, formatWithin_record, ha.fields_shift, Fields.shift,
        List.mapM_map, hfield]
    | _ => rfl

/-- A value is rendered alike wherever the heap lies. -/
theorem format_shift (v : Value) : h'.format (below.shiftValue v) = h.format v :=
  (ha.formatWithin_shift _ v).trans (h.formatWithin_eq_format ha.depth_le v)

theorem toNumber_shift (v : Value) : h'.toNumber (below.shiftValue v) = h.toNumber v := by
  have htext := ha.text_shift v
  cases v with
  | sequence a =>
    rw [shiftValue] at htext ⊢
    simp only [toNumber, htext]
  | _ => rfl

/-! ## Equality -/

theorem looseEquals_shift (v u : Value) :
    h'.looseEquals (below.shiftValue v) (below.shiftValue u) = h.looseEquals v u := by
  have hs : ∀ a, h'.text (.sequence (below.sequences.size + a)) = h.text (.sequence a) :=
    fun a => ha.text_shift (.sequence a)
  have hr : ∀ a, h'.text (.record (below.records.size + a)) = h.text (.record a) :=
    fun a => ha.text_shift (.record a)
  cases v <;> cases u <;>
    simp [looseEquals, shiftValue, hs, hr, Value.kind, Value.isNullish, Value.strictEquals]

/-! ## Copies -/

/-- Copies of a value lie above each other as the heaps do. -/
theorem copyValue (source : Heap) (v : Value) :
    (h'.copyValue source v).1 = below.shiftValue (h.copyValue source v).1 ∧
      Above below (h.copyValue source v).2 (h'.copyValue source v).2 := by
  have hshift : h'.shiftValue = below.shiftValue ∘ h.shiftValue := by
    funext u
    cases u <;>
      simp [shiftValue, ha.size_sequences, ha.size_records, Nat.add_assoc]
  refine ⟨congrFun hshift v, ?_, ?_⟩
  · simp only [Heap.copyValue, append]
    rw [ha.sequences, hshift]
    simp [append, Function.comp_def]
  · simp only [Heap.copyValue, append]
    rw [ha.records, hshift]
    simp [append, Function.comp_def]

end Above

end Heap

end Chronicle
