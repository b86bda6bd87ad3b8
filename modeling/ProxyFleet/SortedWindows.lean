import Mathlib.Algebra.BigOperators.Group.List.Basic
import Mathlib.Data.List.Sort
import Mathlib.Tactic.Abel

/-!
# The head of a sorted list

A window shows the first members of a list sorted by insertion. One more member is
sorted in behind those that come before it. If the window is full, it shows this
member in place of its last one, or does not change at all.
-/
namespace ProxyFleet.SortedWindows

variable {α : Type} {r : α → α → Prop} [DecidableRel r]

theorem orderedInsert_append {x : α} {l m : List α} (h : ∀ y ∈ l, ¬ r x y) :
    (l ++ m).orderedInsert r x = l ++ m.orderedInsert r x := by
  induction l with
  | nil => rfl
  | cons y l ih =>
    have hy : ¬ r x y := h y List.mem_cons_self
    rw [List.cons_append, List.orderedInsert_cons, if_neg hy,
      ih fun z hz => h z (List.mem_cons_of_mem _ hz), List.cons_append]

/-- Members that come after all the others are sorted behind them. -/
theorem insertionSort_append {l m : List α} (h : ∀ x ∈ l, ∀ y ∈ m, ¬ r x y) :
    (l ++ m).insertionSort r = m.insertionSort r ++ l.insertionSort r := by
  induction l with
  | nil => simp
  | cons x l ih =>
    rw [List.cons_append, List.insertionSort_cons, ih fun z hz => h z (List.mem_cons_of_mem _ hz),
      List.insertionSort_cons, orderedInsert_append]
    intro y hy
    exact h x List.mem_cons_self y ((List.mem_insertionSort r).mp hy)

/-- A list in the opposite order is sorted by reversal. -/
theorem insertionSort_eq_reverse {l : List α} (h : l.Pairwise fun x y => ¬ r x y) :
    l.insertionSort r = l.reverse := by
  induction l with
  | nil => rfl
  | cons x l ih =>
    obtain ⟨hx, hl⟩ := List.pairwise_cons.mp h
    have hinsert : (l.reverse ++ []).orderedInsert r x = l.reverse ++ [x] := by
      apply orderedInsert_append
      intro y hy
      exact hx y (List.mem_reverse.mp hy)
    rw [List.insertionSort_cons, ih hl, List.reverse_cons, ← hinsert, List.append_nil]

/-- The head of a sorted list shows its new part, and its old part where that leaves room. -/
theorem take_insertionSort_append {old new : List α} (later : ∀ x ∈ old, ∀ y ∈ new, ¬ r x y)
    (opposite : new.Pairwise fun x y => ¬ r x y) (n : ℕ) :
    ((old ++ new).insertionSort r).take n =
      new.reverse.take n ++ (old.insertionSort r).take (n - new.length) := by
  rw [insertionSort_append later, insertionSort_eq_reverse opposite, List.take_append,
    List.length_reverse]

/-- A test that only a tail fails may be made before or after a list is cut. -/
theorem take_filter {p : α → Bool} {l : List α} (h : l.Pairwise fun x y => p y = true → p x = true)
    (n : ℕ) : (l.filter p).take n = (l.take n).filter p := by
  induction l generalizing n with
  | nil => simp
  | cons x l ih =>
    obtain ⟨hx, hl⟩ := List.pairwise_cons.mp h
    cases n with
    | zero => simp
    | succ n =>
      rw [List.take_succ_cons]
      cases hp : p x with
      | true =>
        rw [List.filter_cons_of_pos hp, List.take_succ_cons, ih hl, List.filter_cons_of_pos hp]
      | false =>
        have hnone : ∀ m : List α, (∀ y ∈ m, y ∈ l) → m.filter p = [] := by
          intro m hm
          rw [List.filter_eq_nil_iff]
          intro y hy hpy
          rw [hx y (hm y hy) hpy] at hp
          cases hp
        have hfalse : ¬ p x = true := by simp [hp]
        rw [List.filter_cons_of_neg hfalse, List.filter_cons_of_neg hfalse,
          hnone l fun _ hy => hy, hnone _ fun _ hy => List.mem_of_mem_take hy, List.take_nil]

/-- Members that a new one comes before stay in their place behind it. -/
theorem orderedInsert_append_of_rel {x : α} {l m : List α} (h : ∀ y ∈ m, r x y) :
    (l ++ m).orderedInsert r x = l.orderedInsert r x ++ m := by
  induction l with
  | nil =>
    cases m with
    | nil => rfl
    | cons y m => simp [h y List.mem_cons_self]
  | cons y l ih =>
    by_cases hy : r x y
    · simp [hy]
    · simp [hy, ih]

/-- One more member is sorted in between those before it and the others. -/
theorem insertionSort_concat [IsTrans α r] [Std.Total r] (l : List α) (e : α) :
    ∃ before behind, l.insertionSort r = before ++ behind ∧
      (l ++ [e]).insertionSort r = before ++ e :: behind ∧
      (∀ x ∈ before, r x e) ∧ ∀ x ∈ behind, ¬ r x e := by
  induction l with
  | nil => exact ⟨[], [], rfl, rfl, by simp, by simp⟩
  | cons x l ih =>
    obtain ⟨before, behind, hold, hnew, hbefore, hbehind⟩ := ih
    by_cases hx : r x e
    · have hrel : ∀ y ∈ behind, r x y := by
        intro y hy
        rcases Std.Total.total (r := r) y e with hye | hey
        · exact absurd hye (hbehind y hy)
        · exact IsTrans.trans _ _ _ hx hey
      refine ⟨before.orderedInsert r x, behind, ?_, ?_, ?_, hbehind⟩
      · rw [List.insertionSort_cons, hold, orderedInsert_append_of_rel hrel]
      · rw [List.cons_append, List.insertionSort_cons, hnew]
        apply orderedInsert_append_of_rel
        intro y hy
        rcases List.mem_cons.mp hy with rfl | hy
        · exact hx
        · exact hrel y hy
      · intro y hy
        rcases (List.mem_orderedInsert r).mp hy with rfl | hy
        · exact hx
        · exact hbefore y hy
    · have hnot : ∀ y ∈ before, ¬ r x y := by
        intro y hy hxy
        exact hx (IsTrans.trans _ _ _ hxy (hbefore y hy))
      refine ⟨before, behind.orderedInsert r x, ?_, ?_, hbefore, ?_⟩
      · rw [List.insertionSort_cons, hold, orderedInsert_append hnot]
      · rw [List.cons_append, List.insertionSort_cons, hnew, orderedInsert_append hnot,
          List.orderedInsert_cons, if_neg hx]
      · intro y hy
        rcases (List.mem_orderedInsert r).mp hy with rfl | hy
        · exact hx
        · exact hbehind y hy

theorem length_before {l before behind : List α} {e : α}
    (hold : l.insertionSort r = before ++ behind) (hbefore : ∀ x ∈ before, r x e)
    (hbehind : ∀ x ∈ behind, ¬ r x e) :
    (l.countP fun x => decide (r x e)) = before.length := by
  have hb : before.countP (fun x => decide (r x e)) = before.length :=
    List.countP_eq_length.mpr fun x hx => decide_eq_true (hbefore x hx)
  have hn : behind.countP (fun x => decide (r x e)) = 0 :=
    List.countP_eq_zero.mpr fun x hx => by simpa using hbehind x hx
  rw [← (List.perm_insertionSort r l).countP_eq, hold, List.countP_append, hb, hn, add_zero]

variable [IsTrans α r] [Std.Total r] {l : List α} {e : α} {n : ℕ}

/-- A window that the new member does not reach stays as it is. -/
theorem take_insertionSort_concat (h : n ≤ l.countP fun x => decide (r x e)) :
    ((l ++ [e]).insertionSort r).take n = (l.insertionSort r).take n := by
  obtain ⟨before, behind, hold, hnew, hbefore, hbehind⟩ := insertionSort_concat (r := r) l e
  rw [length_before hold hbefore hbehind] at h
  rw [hold, hnew, List.take_append_of_le_length h, List.take_append_of_le_length h]

/-- A window that the new member reaches keeps all but its last member around it. -/
theorem exists_take_insertionSort_concat (h : (l.countP fun x => decide (r x e)) < n) :
    ∃ before behind, (l.insertionSort r).take (n - 1) = before ++ behind ∧
      ((l ++ [e]).insertionSort r).take n = before ++ e :: behind := by
  obtain ⟨before, behind, hold, hnew, hbefore, hbehind⟩ := insertionSort_concat (r := r) l e
  rw [length_before hold hbefore hbehind] at h
  obtain ⟨m, rfl⟩ : ∃ m, n = before.length + (m + 1) := ⟨n - before.length - 1, by omega⟩
  refine ⟨before, behind.take m, ?_, ?_⟩
  · rw [hold, ← Nat.add_assoc, Nat.add_sub_cancel, List.take_length_add_append]
  · rw [hnew, List.take_length_add_append, List.take_succ_cons]

/-- A window that the new member reaches exchanges its last member for it. -/
theorem sum_take_insertionSort_concat {M : Type*} [AddCommMonoid M] (f : α → M)
    (h : (l.countP fun x => decide (r x e)) < n) :
    ((((l ++ [e]).insertionSort r).take n).map f).sum +
        (((l.insertionSort r)[n - 1]?).map f).getD 0 =
      (((l.insertionSort r).take n).map f).sum + f e := by
  obtain ⟨before, behind, hold, hnew, hbefore, hbehind⟩ := insertionSort_concat (r := r) l e
  rw [length_before hold hbefore hbehind] at h
  obtain ⟨m, rfl⟩ : ∃ m, n = before.length + (m + 1) := ⟨n - before.length - 1, by omega⟩
  have hlast : (((l.insertionSort r)[before.length + (m + 1) - 1]?).map f).getD 0 =
      ((behind[m]?).map f).getD 0 := by
    rw [hold, List.getElem?_append_right (by omega)]
    congr 3
    omega
  have hshown : ((behind.take (m + 1)).map f).sum =
      ((behind.take m).map f).sum + ((behind[m]?).map f).getD 0 := by
    rw [List.take_add_one, List.map_append, List.sum_append]
    cases behind[m]? <;> simp
  rw [hlast, hnew, hold, List.take_length_add_append, List.take_length_add_append,
    List.take_succ_cons, List.map_append, List.map_append, List.sum_append, List.sum_append,
    List.map_cons, List.sum_cons, hshown]
  abel

end ProxyFleet.SortedWindows
