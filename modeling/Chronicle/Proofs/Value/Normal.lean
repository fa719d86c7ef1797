import Chronicle.Proofs.Value.Above
import Chronicle.Proofs.Value.Fields

/-!
# Values with numbers in normal form

`Heap.Normal h v`: the value `v` and everything in it, at any depth, stands in the heap `h`, and
every number among them is in normal form.

A heap comes to hold new values when a cell is made or changed.  `Heap.Upholds h h'`: what is normal
in `h` is so in `h'`.  This is the case for stores of normal values, and for the heap of a copy,
whatever the copied heap holds besides (`upholds_append`).
-/

set_option autoImplicit false

namespace Chronicle

deriving instance DecidableEq for Number
deriving instance DecidableEq for Value

/-! ## Numbers -/

namespace Number

/-- Whether a number is in normal form can be read off its bits. -/
instance (n : Number) : Decidable n.IsNormal :=
  match n with
  | .int _ => .isTrue trivial
  | .float x => inferInstanceAs (Decidable (safeInteger? x = none))

theorem isNormal_int (n : Int) : (int n).IsNormal := trivial

theorem isNormal_ofBool (b : Bool) : (ofBool b).IsNormal := trivial

theorem isNormal_nan : nan.IsNormal := by
  decide

theorem isNormal_inf (negative : Bool) : (inf negative).IsNormal := by
  cases negative <;> decide

/-- Zero with a minus sign. -/
def negativeZero : Number := .float (Float.ofBits 0x8000000000000000)

/-- A zero equals an integer, whatever its sign. -/
theorem Binary64.toInt?_zero (negative : Bool) (exponent : Int) :
    (Binary64.finite negative 0 exponent).toInt? = some 0 := by
  cases negative <;> simp [toInt?, isIntegral, truncate]

/-- In normal form, zero has no sign. -/
theorem not_isNormal_negativeZero : ¬ negativeZero.IsNormal := by
  have hbits : Binary64.ofFloat (Float.ofBits 0x8000000000000000) = .finite true 0 (-1074) := by
    decide
  show safeInteger? _ ≠ none
  unfold safeInteger?
  rw [hbits, Binary64.toInt?_zero]
  decide

/-- A text is coerced to a number in normal form. -/
theorem isNormal_ofText (s : String) : (ofText s).IsNormal := by
  unfold ofText
  dsimp only
  split
  · exact isNormal_int 0
  · split
    · exact isNormal_inf false
    · split
      · exact isNormal_inf true
      · split
        · split
          · exact isNormal_int _
          · exact isNormal_nan
        · split
          · exact isNormal_normalize _
          · exact isNormal_nan

end Number

/-! ## Contents -/

namespace Heap

/-- What a value holds at any depth: itself, and what its elements or fields hold. -/
inductive Holds (h : Heap) : Value → Value → Prop
  | self (v : Value) : Holds h v v
  | item {a : Address} {v u : Value} (hv : v ∈ h.items a) (hu : Holds h v u) :
    Holds h (.sequence a) u
  | field {a : Address} {name : String} {v u : Value} (hv : (name, v) ∈ h.fields a)
    (hu : Holds h v u) : Holds h (.record a) u

/-- What the contents of cells hand on holds of all that a value holds. -/
theorem Holds.hands_on {h : Heap} {p : Value → Prop}
    (hitem : ∀ a, p (.sequence a) → ∀ v ∈ h.items a, p v)
    (hfield : ∀ a, p (.record a) → ∀ field ∈ h.fields a, p field.2) {v u : Value}
    (hu : h.Holds v u) (hv : p v) : p u := by
  induction hu with
  | self v => exact hv
  | item hmem _ ih => exact ih (hitem _ hv _ hmem)
  | field hmem _ ih => exact ih (hfield _ hv _ hmem)

/-- A number is in normal form, and a sequence or record is one of the heap. -/
def Fits (h : Heap) : Value → Prop
  | .number n => n.IsNormal
  | .sequence a => a < h.sequences.size
  | .record a => a < h.records.size
  | _ => True

/-- All numbers that a value holds are in normal form, and all sequences and records that it holds
are there. -/
def Normal (h : Heap) (v : Value) : Prop :=
  ∀ u, h.Holds v u → h.Fits u

variable {h h' : Heap}

theorem Normal.fits {v : Value} (hv : h.Normal v) : h.Fits v :=
  hv v (.self v)

theorem Normal.item {a : Address} (ha : h.Normal (.sequence a)) {v : Value} (hv : v ∈ h.items a) :
    h.Normal v :=
  fun u hu => ha u (.item hv hu)

theorem Normal.field {a : Address} (ha : h.Normal (.record a)) {field : String × Value}
    (hf : field ∈ h.fields a) : h.Normal field.2 :=
  fun u hu => ha u (.field hf hu)

theorem normal_sequence {a : Address} (ha : a < h.sequences.size)
    (hitems : ∀ v ∈ h.items a, h.Normal v) : h.Normal (.sequence a)
  | _, .self _ => ha
  | u, .item hv hu => hitems _ hv u hu

theorem normal_record {a : Address} (ha : a < h.records.size)
    (hfields : ∀ field ∈ h.fields a, h.Normal field.2) : h.Normal (.record a)
  | _, .self _ => ha
  | u, .field hv hu => hfields _ hv u hu

theorem normal_number {n : Number} : h.Normal (.number n) ↔ n.IsNormal :=
  ⟨fun hn => hn.fits, fun hn _ hu => by cases hu; exact hn⟩

theorem normal_int (n : Int) : h.Normal (.int n) := normal_number.2 trivial

theorem normal_text (s : String) : h.Normal (.text s) := fun _ hu => by cases hu; trivial

theorem normal_boolean (b : Bool) : h.Normal (.boolean b) := fun _ hu => by cases hu; trivial

theorem normal_null : h.Normal .null := fun _ hu => by cases hu; trivial

theorem normal_undefined : h.Normal .undefined := fun _ hu => by cases hu; trivial

/-- A value that is normal where there are no sequences and records is so everywhere. -/
theorem Normal.of_empty {v : Value} (hv : empty.Normal v) (h : Heap) : h.Normal v := by
  intro u hu
  have hfits := hv.fits
  cases v with
  | sequence a | record a => exact absurd hfits (Nat.not_lt_zero a)
  | number _ | text _ | boolean _ | null | undefined =>
    cases hu
    exact hfits

/-! ## Heaps that keep values normal -/

/-- What is normal in `h` is normal in `h'`. -/
def Upholds (h h' : Heap) : Prop :=
  ∀ v, h.Normal v → h'.Normal v

theorem Upholds.refl (h : Heap) : h.Upholds h := fun _ hv => hv

theorem Upholds.trans {h'' : Heap} (hh : h.Upholds h') (hh' : h'.Upholds h'') : h.Upholds h'' :=
  fun v hv => hh' v (hh v hv)

/-- The heap has grown, and in cells that were normal it has values that were. -/
theorem upholds_of (hsequences : h.sequences.size ≤ h'.sequences.size)
    (hrecords : h.records.size ≤ h'.records.size)
    (hitems : ∀ a, h.Normal (.sequence a) → ∀ v ∈ h'.items a, h.Normal v)
    (hfields : ∀ a, h.Normal (.record a) → ∀ field ∈ h'.fields a, h.Normal field.2) :
    h.Upholds h' := by
  intro v hv u hu
  have hfits : h.Fits u := (hu.hands_on hitems hfields hv).fits
  cases u with
  | number n => exact hfits
  | sequence a => exact Nat.lt_of_lt_of_le hfits hsequences
  | record a => exact Nat.lt_of_lt_of_le hfits hrecords
  | text _ | boolean _ | null | undefined => trivial

theorem items_newSequence (h : Heap) (items : List Value) (a : Address) :
    (h.newSequence items).2.items a = if a = h.sequences.size then items else h.items a := by
  unfold Heap.items newSequence
  rw [Array.getElem?_push]
  split <;> rfl

theorem items_newSequence_size (h : Heap) (items : List Value) :
    (h.newSequence items).2.items h.sequences.size = items := by
  rw [items_newSequence, if_pos rfl]

theorem fields_newRecord (h : Heap) (fields : Fields) (a : Address) :
    (h.newRecord fields).2.fields a = if a = h.records.size then fields else h.fields a := by
  unfold Heap.fields newRecord
  rw [Array.getElem?_push]
  split <;> rfl

theorem items_setItems (h : Heap) {a : Address} (items : List Value) (b : Address)
    {v : Value} (hv : v ∈ (h.setItems a items).items b) : v ∈ items ∨ v ∈ h.items b := by
  unfold Heap.items setItems at *
  rw [Array.getElem?_setIfInBounds] at hv
  split at hv
  · split at hv
    · exact .inl hv
    · cases hv
  · exact .inr hv

theorem fields_setFields (h : Heap) {a : Address} (fields : Fields) (b : Address)
    {field : String × Value} (hf : field ∈ (h.setFields a fields).fields b) :
    field ∈ fields ∨ field ∈ h.fields b := by
  unfold Heap.fields setFields at *
  rw [Array.getElem?_setIfInBounds] at hf
  split at hf
  · split at hf
    · exact .inl hf
    · cases hf
  · exact .inr hf

/-- A new sequence of normal values is normal. -/
theorem newSequence_normal {items : List Value} (hitems : ∀ v ∈ items, h.Normal v) :
    h.Upholds (h.newSequence items).2 ∧ (h.newSequence items).2.Normal (h.newSequence items).1 := by
  have hupholds : h.Upholds (h.newSequence items).2 := by
    refine upholds_of (by simp [newSequence]) (Nat.le_refl _) (fun a ha v hv => ?_)
      fun a ha field hf => ha.field hf
    rw [items_newSequence] at hv
    split at hv
    · exact hitems v hv
    · exact ha.item hv
  refine ⟨hupholds, normal_sequence (by simp [newSequence]) fun v hv => ?_⟩
  rw [items_newSequence, if_pos rfl] at hv
  exact hupholds v (hitems v hv)

/-- A new record of normal values is normal. -/
theorem newRecord_normal {fields : Fields} (hfields : ∀ field ∈ fields, h.Normal field.2) :
    h.Upholds (h.newRecord fields).2 ∧ (h.newRecord fields).2.Normal (h.newRecord fields).1 := by
  have hupholds : h.Upholds (h.newRecord fields).2 := by
    refine upholds_of (Nat.le_refl _) (by simp [newRecord]) (fun a ha v hv => ha.item hv)
      fun a ha field hf => ?_
    rw [fields_newRecord] at hf
    split at hf
    · exact hfields field hf
    · exact ha.field hf
  refine ⟨hupholds, normal_record (by simp [newRecord]) fun field hf => ?_⟩
  rw [fields_newRecord, if_pos rfl] at hf
  exact hupholds _ (hfields field hf)

theorem newRecord_empty_normal (h : Heap) :
    h.Upholds (h.newRecord []).2 ∧ (h.newRecord []).2.Normal (h.newRecord []).1 :=
  newRecord_normal nofun

theorem upholds_setItems {a : Address} {items : List Value} (hitems : ∀ v ∈ items, h.Normal v) :
    h.Upholds (h.setItems a items) :=
  upholds_of (by simp [setItems]) (Nat.le_refl _)
    (fun b hb v hv => (items_setItems h items b hv).elim (hitems v) hb.item)
    fun _ hb _ hf => hb.field hf

theorem upholds_setFields {a : Address} {fields : Fields}
    (hfields : ∀ field ∈ fields, h.Normal field.2) : h.Upholds (h.setFields a fields) :=
  upholds_of (Nat.le_refl _) (by simp [setFields]) (fun _ hb _ hv => hb.item hv)
    fun b hb field hf => (fields_setFields h fields b hf).elim (hfields field) hb.field

/-! ## Copies -/

/-- Cells that were there read as before. -/
theorem upholds_append (below h : Heap) : below.Upholds (below.append h) := by
  refine upholds_of (by simp [append]) (by simp [append]) (fun a ha v hv => ?_)
    fun a ha field hf => ?_
  · have hlt : a < below.sequences.size := ha.fits
    unfold Heap.items append at hv
    rw [Array.getElem?_append_left hlt] at hv
    exact ha.item hv
  · have hlt : a < below.records.size := ha.fits
    unfold Heap.fields append at hf
    rw [Array.getElem?_append_left hlt] at hf
    exact ha.field hf

/-- What a moved value holds are the moved values that it held. -/
theorem Holds.of_shift (below : Heap) {v u : Value}
    (hu : (below.append h).Holds (below.shiftValue v) u) :
    ∃ w, u = below.shiftValue w ∧ h.Holds v w := by
  have habove : Above below h (below.append h) := ⟨rfl, rfl⟩
  generalize hs : below.shiftValue v = s at hu
  induction hu generalizing v with
  | self s => exact ⟨v, hs.symm, .self v⟩
  | item hmem _ ih =>
    cases v with
    | sequence a =>
      cases hs
      rw [habove.items_shift] at hmem
      obtain ⟨x, hx, rfl⟩ := List.mem_map.1 hmem
      obtain ⟨w, hw, hxw⟩ := ih rfl
      exact ⟨w, hw, .item hx hxw⟩
    | _ => cases hs
  | field hmem _ ih =>
    cases v with
    | record a =>
      cases hs
      rw [habove.fields_shift] at hmem
      obtain ⟨⟨name, x⟩, hx, he⟩ := List.mem_map.1 hmem
      cases he
      obtain ⟨w, hw, hxw⟩ := ih rfl
      exact ⟨w, hw, .field hx hxw⟩
    | _ => cases hs

/-- The copy of a normal value is normal. -/
theorem Normal.shift (below : Heap) {v : Value} (hv : h.Normal v) :
    (below.append h).Normal (below.shiftValue v) := by
  intro u hu
  obtain ⟨w, rfl, hw⟩ := hu.of_shift
  have hfits : h.Fits w := hv w hw
  cases w with
  | number n => exact hfits
  | sequence a =>
    show below.sequences.size + a < (below.append h).sequences.size
    simp only [append, Array.size_append, Array.size_map]
    exact Nat.add_lt_add_left hfits _
  | record a =>
    show below.records.size + a < (below.append h).records.size
    simp only [append, Array.size_append, Array.size_map]
    exact Nat.add_lt_add_left hfits _
  | text _ | boolean _ | null | undefined => trivial

end Heap

end Chronicle
