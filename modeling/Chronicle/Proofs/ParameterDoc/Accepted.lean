import Mathlib.Data.List.Forall2
import Chronicle.ParameterDoc.Builder
import Chronicle.Proofs.ParameterDoc.Nested
import Chronicle.Proofs.Triple

/-!
# Accepted lines

What a line of an annotation does to a draft that takes it.  A line of another kind than `Object`
adds the specification that its candidates make (`Heap.Adds`, `addLine_plain`).  A line of kind
`Object` goes to the first specification of its base, or to a new one, grafts its first candidate
into the record that this starts with and appends the others to the alternatives (`Merges`,
`addLine_object`).
-/

set_option autoImplicit false

namespace Chronicle

/-- Lists whose elements are related in order are related at every place. -/
theorem forall₂_getElem? {α β : Type} {r : α → β → Prop} {xs : List α} {ys : List β}
    (h : List.Forall₂ r xs ys) (i : Nat) : Option.Rel r xs[i]? ys[i]? := by
  induction h generalizing i with
  | nil => exact .none
  | cons hr _ ih =>
    cases i with
    | zero => exact .some hr
    | succ i => exact ih i

/-! ## Numbers and ranges -/

/-- The number that a candidate for a number is coerced to. -/
def Heap.IsNumber (h : Heap) (v : Value) (n : Number) : Prop :=
  v.kind ∈ [Kind.number, .text, .boolean] ∧ h.toNumber v = .ok n

/-- The double that a candidate for a bound is coerced to. -/
def Heap.IsBound (h : Heap) (v : Value) (x : Float) : Prop :=
  ∃ n, h.IsNumber v n ∧ n.toFloat = .ok x

/-- A range that is not empty, or has an open end. -/
def IsRange (min max : Option Float) : Prop :=
  ∀ lo hi, min = some lo → max = some hi → (Number.float hi).less (.float lo) = false

namespace ParameterSpec

/-- The specification with further alternatives. -/
def extend (rest : List Value) (p : ParameterSpec) : ParameterSpec :=
  { p with alternatives := p.alternatives ++ rest }

theorem bound_ok {n : Option Number} {b : Option Float} (h : bound n = .ok b) :
    Option.Rel (fun n x => n.toFloat = .ok x) n b := by
  cases n with
  | none =>
    cases h
    exact .none
  | some n =>
    unfold bound at h
    dsimp only at h
    cases hx : n.toFloat with
    | ok x =>
      rw [hx] at h
      cases h
      exact .some hx
    | error f =>
      rw [hx] at h
      cases h

/-- A specification that is given a range keeps the rest. -/
theorem withRange_ok {spec spec' : ParameterSpec} {min max : Option Number}
    (h : spec.withRange min max = .ok spec') : ∃ lo hi,
      Option.Rel (fun n x => n.toFloat = .ok x) min lo ∧
        Option.Rel (fun n x => n.toFloat = .ok x) max hi ∧ IsRange lo hi ∧
          spec' = { spec with min := lo, max := hi } := by
  unfold withRange at h
  obtain ⟨lo, hlo, h⟩ := bind_eq_ok h
  obtain ⟨hi, hhi, h⟩ := bind_eq_ok h
  refine ⟨lo, hi, bound_ok hlo, bound_ok hhi, ?_⟩
  cases lo with
  | none =>
    cases h
    exact ⟨nofun, rfl⟩
  | some lo =>
    cases hi with
    | none =>
      cases h
      exact ⟨nofun, rfl⟩
    | some hi =>
      dsimp only at h
      split at h
      · cases h
      · rename_i hless
        cases h
        refine ⟨fun x y hx hy => ?_, rfl⟩
        cases hx
        cases hy
        exact Bool.eq_false_iff.2 hless

end ParameterSpec

/-! ## Lines that add a specification -/

/-- The specification that a line of another kind than `Object` adds, where its candidates are
values of the heap. -/
inductive Heap.Adds (h : Heap) (name : String) : ParameterKind → List Value → ParameterSpec → Prop
  | boolean (first : Value) (rest : List Value) :
    Adds h name .boolean (first :: rest)
      { name, kind := .boolean, initial := .boolean first.isTruthy, alternatives := rest }
  | string {first : Value} {text : String} (rest : List Value) (htext : h.text first = .ok text) :
    Adds h name .string (first :: rest)
      { name, kind := .string, initial := .text text, alternatives := rest }
  | array (a : Address) (rest : List Value) :
    Adds h name .array (.sequence a :: rest)
      { name, kind := .array, initial := .sequence a, alternatives := rest }
  | number {first : Value} {rest : List Value} {n : Number} {min max : Option Float}
    (hfirst : h.IsNumber first n) (hmin : Option.Rel h.IsBound rest[0]? min)
    (hmax : Option.Rel h.IsBound rest[1]? max) (hrange : IsRange min max) :
    Adds h name .number (first :: rest)
      { name, kind := .number, initial := .number n, min, max, alternatives := rest.drop 2 }

/-- The kind of the values of a parameter kind. -/
def ParameterKind.valueKind : ParameterKind → Kind
  | .boolean => .boolean
  | .number => .number
  | .string => .text
  | .array => .sequence
  | .object => .record

namespace Heap.Adds

variable {h : Heap} {name : String} {kind : ParameterKind} {candidates : List Value}
  {spec : ParameterSpec} (ha : h.Adds name kind candidates spec)
include ha

theorem kind_eq : spec.kind = kind := by
  cases ha <;> rfl

theorem ne_object : kind ≠ .object := by
  cases ha <;> nofun

theorem initial_kind : spec.initial.kind = spec.kind.valueKind := by
  cases ha <;> rfl

/-- Only numbers have a range, and it is not empty. -/
theorem range : (spec.kind ≠ .number → spec.min = none ∧ spec.max = none) ∧
    IsRange spec.min spec.max := by
  cases ha with
  | number _ _ _ hrange => exact ⟨fun hne => absurd rfl hne, hrange⟩
  | _ => exact ⟨fun _ => ⟨rfl, rfl⟩, nofun⟩

end Heap.Adds

namespace Draft

variable {d d' : Draft} {name base : String} {keys : List String} {v : Value}

theorem read_ok {α : Type} {f : Heap → Except Fault α} {x : α} (h : Draft.read f d = .ok x d') :
    f d.heap = .ok x ∧ d' = d := by
  unfold Draft.read at h
  rw [get_bind] at h
  cases hr : f d.heap with
  | ok y =>
    rw [hr] at h
    cases h
    exact ⟨rfl, rfl⟩
  | error e =>
    rw [hr] at h
    cases h

theorem refuse_not_ok {α : Type} {expected : String} {x : α} :
    refuse name expected v d ≠ .ok x d' := by
  intro h
  obtain ⟨_, _, -, h⟩ := ok_of_bind h
  cases h

theorem number_ok {n : Number} (h : number v name d = .ok n d') :
    d.heap.IsNumber v n ∧ d' = d := by
  have hread : v.kind ∈ [Kind.number, .text, .boolean] →
      Draft.read (·.toNumber v) d = .ok n d' → d.heap.IsNumber v n ∧ d' = d :=
    fun hkind hr => ⟨⟨hkind, (read_ok hr).1⟩, (read_ok hr).2⟩
  cases v with
  | number _ | text _ | boolean _ => exact hread (by simp [Value.kind]) h
  | null | undefined | sequence _ | record _ => exact absurd h refuse_not_ok

theorem mapM_number_ok : ∀ {values : List Value} {numbers : List Number} {d d' : Draft},
    values.mapM (number · name) d = .ok numbers d' →
      List.Forall₂ d.heap.IsNumber values numbers ∧ d' = d
  | [], _, _, _, h => by
    cases h
    exact ⟨.nil, rfl⟩
  | v :: values, _, d, _, h => by
    rw [List.mapM_cons] at h
    obtain ⟨n, d₁, hn, hrest⟩ := ok_of_bind h
    obtain ⟨ns, d₂, hns, hpure⟩ := ok_of_bind hrest
    obtain ⟨hnumber, hd₁⟩ := number_ok hn
    obtain ⟨hnumbers, hd₂⟩ := mapM_number_ok hns
    cases hpure
    rw [hd₁] at hnumbers hd₂
    exact ⟨.cons hnumber hnumbers, hd₂⟩

/-- Bounds are the doubles of the numbers of the candidates that stand at their places. -/
theorem isBound_of_getElem? {h : Heap} {values : List Value} {numbers : List Number}
    (hall : List.Forall₂ h.IsNumber (values.take 2) numbers) {i : Nat} (hi : i < 2)
    {b : Option Float} (hb : Option.Rel (fun n x => n.toFloat = .ok x) numbers[i]? b) :
    Option.Rel h.IsBound values[i]? b := by
  have hrel := forall₂_getElem? hall i
  rw [List.getElem?_take_of_lt hi] at hrel
  revert hrel hb
  generalize values[i]? = v
  generalize numbers[i]? = n
  rintro (hx | _) (hn | _)
  · exact .some ⟨_, hn, hx⟩
  · exact .none

theorem addNumber_ok {first : Value} {rest : List Value}
    (h : addNumber name first rest d = .ok () d') :
    ∃ spec, d.heap.Adds name .number (first :: rest) spec ∧
      d' = { d with params := d.params ++ [spec] } := by
  obtain ⟨bounds, d₁, hbounds, hrest⟩ := ok_of_bind h
  obtain ⟨initial, d₂, hinitial, hend⟩ := ok_of_bind hrest
  obtain ⟨hall, rfl⟩ := mapM_number_ok hbounds
  obtain ⟨hfirst, rfl⟩ := number_ok hinitial
  let plain : ParameterSpec :=
    { name, kind := .number, initial := .number initial, alternatives := rest.drop 2 }
  cases hspec : plain.withRange bounds[0]? bounds[1]? with
  | ok spec =>
    obtain ⟨lo, hi, hlo, hhi, hrange, rfl⟩ := ParameterSpec.withRange_ok hspec
    simp only [plain] at hspec
    simp only [hspec] at hend
    cases hend
    exact ⟨_, .number hfirst (isBound_of_getElem? hall (by decide) hlo)
      (isBound_of_getElem? hall (by decide) hhi) hrange, rfl⟩
  | error e =>
    simp only [plain] at hspec
    simp only [hspec] at hend
    cases hend

/-- An accepted line of another kind than `Object` adds one specification. -/
theorem addLine_plain {kind : ParameterKind} {candidates : List Value} (hkind : kind ≠ .object)
    (h : addLine kind name candidates d = .ok () d') :
    ∃ spec, d.heap.Adds name kind candidates spec ∧
      d' = { d with params := d.params ++ [spec] } := by
  cases candidates with
  | nil => cases kind <;> first | exact absurd rfl hkind | cases h
  | cons first rest =>
    cases kind with
    | object => exact absurd rfl hkind
    | number => exact addNumber_ok h
    | boolean =>
      cases h
      exact ⟨_, .boolean first rest, rfl⟩
    | string =>
      obtain ⟨text, d₁, hread, hadd⟩ := ok_of_bind h
      obtain ⟨htext, rfl⟩ := read_ok hread
      cases hadd
      exact ⟨_, .string rest htext, rfl⟩
    | array =>
      cases first with
      | sequence a =>
        cases h
        exact ⟨_, .array a rest, rfl⟩
      | _ => exact absurd h refuse_not_ok

/-! ## Lines that are merged -/

/-! ### The first specification of a name -/

section
variable {base : String} {f : ParameterSpec → ParameterSpec}

/-- A change of the first specification of a name leaves the others. -/
theorem mem_modifyFirst : ∀ {specs : List ParameterSpec} {p : ParameterSpec},
    p ∈ modifyFirst base f specs → ∃ q ∈ specs, p = q ∨ p = f q
  | [], _, hp => absurd hp List.not_mem_nil
  | q :: specs, p, hp => by
    unfold modifyFirst at hp
    split at hp
    · rcases List.mem_cons.1 hp with rfl | hp
      · exact ⟨q, List.mem_cons_self, .inr rfl⟩
      · exact ⟨p, List.mem_cons_of_mem q hp, .inl rfl⟩
    · rcases List.mem_cons.1 hp with rfl | hp
      · exact ⟨p, List.mem_cons_self, .inl rfl⟩
      · obtain ⟨r, hr, hpr⟩ := mem_modifyFirst hp
        exact ⟨r, List.mem_cons_of_mem q hr, hpr⟩

theorem modifyFirst_append_of_ne {spec : ParameterSpec} :
    ∀ {specs : List ParameterSpec}, (∀ p ∈ specs, p.name ≠ base) → spec.name = base →
      modifyFirst base f (specs ++ [spec]) = specs ++ [f spec]
  | [], _, hname => by simp [modifyFirst, hname]
  | p :: specs, hne, hname => by
    rw [List.forall_mem_cons] at hne
    rw [List.cons_append, modifyFirst, if_neg (by simpa using hne.1),
      modifyFirst_append_of_ne hne.2 hname, List.cons_append]

end

/-- The draft with a new object parameter, which starts with an empty record. -/
def withObject (d : Draft) (base : String) : Draft where
  heap := (d.heap.newRecord []).2
  params := d.params ++ [{ name := base, kind := .object, initial := .record d.heap.records.size }]

/-- In `d₁` the first parameter of the name starts with the record at `a`; it was in `d` or is new. -/
inductive HasBase (d : Draft) (base : String) : Address → Draft → Prop
  | found {spec : ParameterSpec} {a : Address}
    (hfind : d.params.find? (·.name == base) = some spec) (hinitial : spec.initial = .record a) :
    HasBase d base a d
  | made (hfind : d.params.find? (·.name == base) = none) :
    HasBase d base d.heap.records.size (d.withObject base)

/-- How a value gets into a record: without keys its fields are taken over, else it is written at
the path. -/
inductive Writes (h : Heap) (a : Address) : List String → Value → Heap → Prop
  | fields (source : Address) :
    Writes h a [] (.record source) (h.setFields a ((h.fields a).update (h.fields source)))
  | below {keys : List String} (hkeys : keys ≠ []) (v : Value) :
    Writes h a keys v (h.setNested a keys v)

theorem Writes.grafts {h h' : Heap} {a : Address} (hw : Writes h a keys v h') :
    h.Grafts a v h' := by
  cases hw with
  | fields source => exact h.grafts_update a source
  | below _ => exact h.grafts_setNested v keys a

/-- What an accepted line of kind `Object` does. -/
inductive Merges (d : Draft) (name : String) : List Value → Draft → Prop
  | mk {base : String} {keys : List String} {v : Value} {rest : List Value} {a : Address}
    {d₁ : Draft} {h' : Heap} (hname : Path.split name = base :: keys) (hbase : HasBase d base a d₁)
    (hwrites : Writes d₁.heap a keys v h') :
    Merges d name (v :: rest) ⟨h', modifyFirst base (·.extend rest) d₁.params⟩

theorem objectBase_cases (d : Draft) (base : String) :
    (∃ spec, d.params.find? (·.name == base) = some spec ∧
      objectBase base d = .ok spec.initial d) ∨
      d.params.find? (·.name == base) = none ∧
        objectBase base d = .ok (.record d.heap.records.size) (d.withObject base) := by
  unfold objectBase
  rw [get_bind]
  cases hfind : d.params.find? (·.name == base) with
  | some spec => exact .inl ⟨spec, rfl, rfl⟩
  | none => exact .inr ⟨rfl, rfl⟩

/-- The write of a line of kind `Object` to the value that its parameter starts with. -/
def writeObject (name : String) (target : Value) (keys : List String) (v : Value) : Drafting Unit :=
  if keys.isEmpty then mergeFields name target v else writePath target keys v

theorem Writes.writeObject_eq {a : Address} {h' : Heap} (hw : Writes d.heap a keys v h')
    (name : String) : writeObject name (.record a) keys v d = .ok () { d with heap := h' } := by
  cases hw with
  | fields source => rfl
  | below hkeys v =>
    cases keys with
    | nil => exact absurd rfl hkeys
    | cons key keys => rfl

/-- A record takes every value at a path, and the fields of other records. -/
theorem writeObject_record {a : Address} (h : writeObject name (.record a) keys v d = .ok () d') :
    ∃ h', Writes d.heap a keys v h' ∧ d' = { d with heap := h' } := by
  cases keys with
  | nil =>
    cases v with
    | record source =>
      cases h
      exact ⟨_, .fields source, rfl⟩
    | _ => exact absurd h refuse_not_ok
  | cons key keys =>
    cases h
    exact ⟨_, .below (List.cons_ne_nil key keys) v, rfl⟩

theorem addObject_cons {rest : List Value} (hname : Path.split name = base :: keys) :
    addObject name (v :: rest) = (do
      let target ← objectBase base
      writeObject name target keys v
      modify fun d => { d with params := modifyFirst base (·.extend rest) d.params }) := by
  unfold addObject
  rw [hname]
  cases keys <;> rfl

theorem mergeFields_of_ne {target : Value} (htarget : ∀ a, target ≠ .record a) :
    mergeFields name target v d ≠ .ok () d' := by
  intro h
  cases v with
  | record source =>
    cases target with
    | record a => exact htarget a rfl
    | _ => cases h
  | _ => exact refuse_not_ok h

theorem writeObject_of_ne {target : Value} (htarget : ∀ a, target ≠ .record a) :
    writeObject name target keys v d ≠ .ok () d' := by
  intro h
  cases keys with
  | nil => exact mergeFields_of_ne htarget h
  | cons key keys =>
    cases target with
    | record a => exact htarget a rfl
    | _ => cases h

/-- A line of kind `Object` is accepted just when it has a path and a value, its parameter starts
with a record, and the value can be written there. -/
theorem addObject_ok_iff {candidates : List Value} :
    addObject name candidates d = .ok () d' ↔ Merges d name candidates d' := by
  constructor
  · intro h
    cases hname : Path.split name with
    | nil =>
      unfold addObject at h
      rw [hname] at h
      cases h
    | cons base keys =>
      cases candidates with
      | nil =>
        unfold addObject at h
        rw [hname] at h
        cases h
      | cons v rest =>
        rw [addObject_cons hname] at h
        obtain ⟨target, d₁, hbase, hrest⟩ := ok_of_bind h
        obtain ⟨_, d₂, hwrite, hend⟩ := ok_of_bind hrest
        cases hend
        have hhas : ∃ a, target = .record a ∧ HasBase d base a d₁ := by
          rcases objectBase_cases d base with ⟨spec, hfind, hmade⟩ | ⟨hfind, hmade⟩
          · rw [hmade] at hbase
            cases hbase
            cases hinitial : spec.initial with
            | record a => exact ⟨a, rfl, .found hfind hinitial⟩
            | _ => exact absurd hwrite (writeObject_of_ne (by simp [hinitial]))
          · rw [hmade] at hbase
            cases hbase
            exact ⟨_, rfl, .made hfind⟩
        obtain ⟨a, rfl, hhas⟩ := hhas
        obtain ⟨h', hw, rfl⟩ := writeObject_record hwrite
        have hmerges : Merges d name (v :: rest)
          ⟨h', modifyFirst base (·.extend rest) d₁.params⟩ := .mk hname hhas hw
        exact hmerges
  · rintro ⟨hname, hbase, hwrites⟩
    rename_i base keys v rest a d₁ h'
    have htarget : objectBase base d = .ok (.record a) d₁ := by
      rcases objectBase_cases d base with ⟨spec, hfind, hmade⟩ | ⟨hfind, hmade⟩
      · cases hbase with
        | found hfind' hinitial =>
          cases hfind.symm.trans hfind'
          rw [hmade, hinitial]
        | made hfind' => cases hfind.symm.trans hfind'
      · cases hbase with
        | found hfind' _ => cases hfind.symm.trans hfind'
        | made _ => exact hmade
    rw [addObject_cons hname, bind_of_ok htarget, bind_of_ok (hwrites.writeObject_eq name)]
    rfl

end Draft

end Chronicle
