import Chronicle.Store.Binding

/-!
# Reading histories

Stamps of a history never decrease (`Binding.Ordered`, kept by `push`), so the entries stamped at
most `t` come first and `bisect` counts them (`bisect_spec`).  What a variable held at `t` is then
the text of the last entry stamped at most `t` (`valueAt_eq`), and what it was given at `t` that of
the last entry stamped `t` (`changeAt_eq`).  The two meet in `valueAt_overlay`.
-/

set_option autoImplicit false

namespace Chronicle.Binding

/-- The stamps of a history never decrease. -/
def Ordered (b : Binding) : Prop :=
  b.history.toList.Pairwise fun e f => e.step ≤ f.step

/-- The entries of a history stamped at most `t`. -/
def upTo (b : Binding) (t : Int) : List HistoryEntry :=
  b.history.toList.filter fun e => e.step ≤ t

/-! ## Writes -/

theorem history_push (b : Binding) (v : Value) (text : String) (step : Int) :
    (b.push v text step).history.toList = b.history.toList ++ [⟨b.stamp step, text⟩] := by
  simp [push]

theorem lastStep?_eq (b : Binding) :
    b.lastStep? = b.history.toList.getLast?.map HistoryEntry.step := by
  simp [lastStep?]

/-- A write is kept at its own step or later. -/
theorem le_stamp (b : Binding) (step : Int) : step ≤ b.stamp step := by
  unfold stamp isLate
  cases b.lastStep? with
  | none => simp
  | some last =>
    by_cases h : step < last
    · simp [h]; omega
    · simp [h]

/-- A write that comes at or after the last recorded step is kept at its own. -/
theorem stamp_of_le {b : Binding} {step : Int} (h : ∀ e ∈ b.history.toList, e.step ≤ step) :
    b.isLate step = false ∧ b.stamp step = step := by
  have hl : b.isLate step = false := by
    unfold isLate
    rw [lastStep?_eq]
    cases hb : b.history.toList.getLast? with
    | none => rfl
    | some e =>
      have := h e (List.mem_of_getLast? hb)
      simp; omega
  exact ⟨hl, by simp [stamp, hl]⟩

/-- A write is kept no earlier than any recorded one. -/
theorem Ordered.le_stamp {b : Binding} (hb : b.Ordered) (step : Int) {e : HistoryEntry}
    (he : e ∈ b.history.toList) : e.step ≤ b.stamp step := by
  obtain ⟨l, last, hl⟩ : ∃ l last, b.history.toList = l ++ [last] :=
    List.eq_nil_or_concat b.history.toList |>.resolve_left (List.ne_nil_of_mem he) |>.imp
      fun l ⟨a, h⟩ => ⟨a, by simpa using h⟩
  have hle : e.step ≤ last.step := by
    unfold Ordered at hb
    rw [hl] at hb he
    rw [List.pairwise_append] at hb
    rcases List.mem_append.1 he with h | h
    · exact hb.2.2 e h last (by simp)
    · exact Int.le_of_eq (congrArg HistoryEntry.step (List.mem_singleton.1 h))
  have hs : b.lastStep? = some last.step := by
    rw [lastStep?_eq, hl]
    simp
  unfold stamp isLate
  rw [hs]
  by_cases h : step < last.step
  · simpa [h] using hle
  · simp [h]; omega

theorem Ordered.push {b : Binding} (hb : b.Ordered) (v : Value) (text : String) (step : Int) :
    (b.push v text step).Ordered := by
  unfold Ordered
  rw [history_push, List.pairwise_append]
  refine ⟨hb, List.pairwise_singleton _ _, fun e he f hf => ?_⟩
  rw [List.mem_singleton.1 hf]
  exact hb.le_stamp step he

/-! ## Search -/

/-- `bisect` ends between the entries stamped at most `t` and the later ones, when it starts so. -/
theorem bisect_spec {history : Array HistoryEntry} {t : Int} {lo hi : Nat}
    (hs : history.toList.Pairwise fun e f => e.step ≤ f.step) (hlh : lo ≤ hi)
    (hh : hi ≤ history.size) (hlo : ∀ i e, history[i]? = some e → i < lo → e.step ≤ t)
    (hhi : ∀ i e, history[i]? = some e → hi ≤ i → t < e.step) :
    bisect history t lo hi ≤ history.size ∧
      (∀ i e, history[i]? = some e → i < bisect history t lo hi → e.step ≤ t) ∧
      ∀ i e, history[i]? = some e → bisect history t lo hi ≤ i → t < e.step := by
  have hmono : ∀ (i j : Nat) (e f : HistoryEntry), history[i]? = some e →
      history[j]? = some f → i ≤ j → e.step ≤ f.step := by
    intro i j e f he hf hij
    obtain ⟨hi', he'⟩ := Array.getElem?_eq_some_iff.1 he
    obtain ⟨hj', hf'⟩ := Array.getElem?_eq_some_iff.1 hf
    rcases Nat.lt_or_eq_of_le hij with h | h
    · have := List.pairwise_iff_getElem.1 hs i j (by simpa) (by simpa) h
      simpa [he', hf'] using this
    · subst h
      exact Int.le_of_eq (congrArg HistoryEntry.step (he'.symm.trans hf'))
  fun_induction bisect history t lo hi with
  | case1 lo hi h mid e hm hlt ih =>
    refine ih (by omega) (by omega) hlo fun i f hf hi' => ?_
    have := hmono mid i e f hm hf hi'
    omega
  | case2 lo hi h mid e hm hge ih =>
    refine ih (by omega) hh (fun i f hf hi' => ?_) hhi
    have := hmono i mid f e hf hm (by omega)
    omega
  | case3 lo hi h mid hm =>
    rw [Array.getElem?_eq_none_iff] at hm
    omega
  | case4 lo hi h =>
    exact ⟨by omega, hlo, fun i e he hi' => hhi i e he (by omega)⟩

/-- Over a whole history, `bisect` ends between the entries stamped at most `t` and the later
ones. -/
theorem bisect_history {b : Binding} (hb : b.Ordered) (t : Int) :
    bisect b.history t 0 b.history.size ≤ b.history.size ∧
      (∀ i e, b.history[i]? = some e → i < bisect b.history t 0 b.history.size → e.step ≤ t) ∧
      ∀ i e, b.history[i]? = some e → bisect b.history t 0 b.history.size ≤ i → t < e.step :=
  bisect_spec hb (Nat.zero_le _) (Nat.le_refl _) (fun i e _ h => by omega) fun i e he h => by
    have := (Array.getElem?_eq_some_iff.1 he).1
    omega

/-- No entry of those stamped later than `t` is stamped at most `t`. -/
theorem filter_le_eq_nil {l : List HistoryEntry} {t : Int} (h : ∀ e ∈ l, t < e.step) :
    l.filter (fun e => decide (e.step ≤ t)) = [] := by
  rw [List.filter_eq_nil_iff]
  intro e he
  have := h e he
  simp; omega

theorem upTo_eq_take {b : Binding} (hb : b.Ordered) (t : Int) :
    b.upTo t = b.history.toList.take (bisect b.history t 0 b.history.size) := by
  obtain ⟨-, hbelow, habove⟩ := bisect_history hb t
  generalize bisect b.history t 0 b.history.size = k at *
  unfold upTo
  rw [← List.take_append_drop k b.history.toList, List.filter_append]
  have h1 : (b.history.toList.take k).filter (fun e => decide (e.step ≤ t)) =
      b.history.toList.take k := by
    rw [List.filter_eq_self]
    intro e he
    obtain ⟨i, hi⟩ := List.mem_iff_getElem?.1 he
    rw [List.getElem?_take] at hi
    split at hi
    · rename_i hik
      simpa using hbelow i e (by simpa using hi) hik
    · cases hi
  have h2 : (b.history.toList.drop k).filter (fun e => decide (e.step ≤ t)) = [] := by
    refine filter_le_eq_nil fun e he => ?_
    obtain ⟨i, hi⟩ := List.mem_iff_getElem?.1 he
    rw [List.getElem?_drop] at hi
    exact habove (k + i) e (by simpa using hi) (by omega)
  rw [h1, h2, List.append_nil, List.take_append_drop]

/-- What a variable held at a step is its last entry stamped at most that step. -/
theorem valueAt_eq {b : Binding} (hb : b.Ordered) (t : Int) :
    b.valueAt t = (b.upTo t).getLast?.map HistoryEntry.text := by
  rw [upTo_eq_take hb]
  unfold valueAt
  obtain ⟨hk, -, -⟩ := bisect_history hb t
  generalize bisect b.history t 0 b.history.size = k at *
  rcases Nat.eq_zero_or_pos k with h | h
  · simp [h]
  · have hkb : (k == 0) = false := by simp; omega
    simp only [hkb, Bool.false_eq_true, if_false]
    have hg : b.history[k - 1]? = some b.history[k - 1] := Array.getElem?_eq_getElem (by omega)
    rw [List.getLast?_take, if_neg (by omega), Array.getElem?_toList, hg]
    rfl

/-- From the last stamp on, a variable holds the text of its last entry. -/
theorem valueAt_of_le {b : Binding} (hb : b.Ordered) {t : Int}
    (h : ∀ e ∈ b.history.toList, e.step ≤ t) :
    b.valueAt t = b.history.toList.getLast?.map HistoryEntry.text := by
  have hu : b.upTo t = b.history.toList := by
    unfold upTo
    rw [List.filter_eq_self]
    intro e he
    simpa using h e he
  rw [valueAt_eq hb, hu]

theorem changeAt_eq (b : Binding) (t : Int) :
    b.changeAt t = (b.history.toList.filter (·.step == t)).getLast?.map HistoryEntry.text := by
  unfold changeAt
  rw [List.getLast?_filter, Array.findRev?_eq_find?_reverse, ← Array.find?_toList,
    Array.toList_reverse]

/-- A variable holds something from its first entry on. -/
theorem isSome_valueAt {b : Binding} (hb : b.Ordered) (t : Int) :
    (b.valueAt t).isSome = b.history.toList.head?.any (·.step ≤ t) := by
  rw [valueAt_eq hb, Option.isSome_map, Bool.eq_iff_iff, List.getLast?_isSome]
  unfold Ordered at hb
  unfold upTo
  cases hl : b.history.toList with
  | nil => simp
  | cons e l =>
    rw [hl] at hb
    by_cases he : e.step ≤ t
    · simp [he]
    · have hlate : (e :: l).filter (fun f => decide (f.step ≤ t)) = [] := by
        refine filter_le_eq_nil fun f hf => ?_
        rcases List.mem_cons.1 hf with rfl | hf
        · omega
        · have := List.rel_of_pairwise_cons hb hf
          omega
      simp [hlate, he]

/-- A step changed what has an entry stamped with it. -/
theorem isSome_changeAt (b : Binding) (t : Int) :
    (b.changeAt t).isSome = b.history.toList.any (·.step == t) := by
  rw [changeAt_eq, Option.isSome_map, Bool.eq_iff_iff, List.getLast?_isSome, List.any_eq_true,
    ne_eq, List.filter_eq_nil_iff]
  simp only [Classical.not_forall, Classical.not_not, exists_prop]

/-- In order, the entries stamped at most `t` are those stamped earlier and then those stamped
`t`. -/
theorem filter_le_eq {t : Int} : ∀ {l : List HistoryEntry},
    l.Pairwise (fun e f => e.step ≤ f.step) → l.filter (fun e => e.step ≤ t) =
      l.filter (fun e => e.step ≤ t - 1) ++ l.filter fun e => e.step == t
  | [], _ => rfl
  | e :: l, h => by
    obtain ⟨he, hl⟩ := List.pairwise_cons.1 h
    have ih := filter_le_eq (t := t) hl
    rcases Int.lt_trichotomy e.step t with hlt | heq | hgt
    · have hle : e.step ≤ t := by omega
      have hearlier : e.step ≤ t - 1 := by omega
      have hne : e.step ≠ t := by omega
      rw [List.filter_cons_of_pos (by simpa using hle),
        List.filter_cons_of_pos (by simpa using hearlier),
        List.filter_cons_of_neg (by simpa using hne), ih]
      rfl
    · -- nothing after `e` is stamped earlier
      have hnone : l.filter (fun e => decide (e.step ≤ t - 1)) = [] :=
        filter_le_eq_nil fun f hf => by
          have := he f hf
          omega
      rw [List.filter_cons_of_pos (by simp; omega), List.filter_cons_of_neg (by simp; omega),
        List.filter_cons_of_pos (by simpa using heq), ih, hnone]
      rfl
    · have hle : ¬ e.step ≤ t := by omega
      have hearlier : ¬ e.step ≤ t - 1 := by omega
      have hne : e.step ≠ t := by omega
      rw [List.filter_cons_of_neg (by simpa using hle),
        List.filter_cons_of_neg (by simpa using hearlier),
        List.filter_cons_of_neg (by simpa using hne), ih]

/-- What was held at a step is what was given there, or else what was held one step before. -/
theorem valueAt_overlay {b : Binding} (hb : b.Ordered) (t : Int) :
    b.valueAt t = (b.changeAt t).or (b.valueAt (t - 1)) := by
  rw [valueAt_eq hb, valueAt_eq hb, changeAt_eq, ← Option.map_or, ← List.getLast?_append]
  exact congrArg (fun l => l.getLast?.map HistoryEntry.text) (filter_le_eq hb)

/-! ## Parts of histories -/

/-- What is said of entries stamped at most `m` can be read off these entries. -/
theorem filter_eq_of_le {l l' : List HistoryEntry} {m : Int} {p : HistoryEntry → Bool}
    (hp : ∀ e, p e = true → e.step ≤ m)
    (h : l.filter (fun e => e.step ≤ m) = l'.filter fun e => e.step ≤ m) :
    l.filter p = l'.filter p := by
  have hf : ∀ k : List HistoryEntry, k.filter p = (k.filter fun e => e.step ≤ m).filter p := by
    intro k
    rw [List.filter_filter]
    congr 1
    funext e
    by_cases he : p e = true
    · simp [he, hp e he]
    · simp [he]
  rw [hf l, hf l', h]

end Chronicle.Binding
