import Mathlib.Data.List.Induction
import Mathlib.Data.List.Perm.Basic

/-!
# Rows under keyed writes

A list of writes reaches a row by its key. Each write that names the key updates the row, in
the order of the list. A column that every such write sets holds what the last of them set,
and a column that they all keep is untouched.
-/
namespace ProxyFleet.LastWrites

variable {ρ ω κ α : Type*} [DecidableEq κ]

section Last

variable (target : ω → κ) (k : κ)

/-- The last write to a key. -/
def last (writes : List ω) : Option ω := writes.reverse.find? fun w => decide (target w = k)

theorem last_concat (writes : List ω) (w : ω) :
    last target k (writes ++ [w]) = if target w = k then some w else last target k writes := by
  rw [last, List.reverse_append, List.reverse_singleton, List.singleton_append,
    List.find?_cons]
  by_cases h : target w = k
  · simp [h]
  · simp [h, last]

theorem last_eq_none_iff (writes : List ω) :
    last target k writes = none ↔ k ∉ writes.map target := by
  simp [last]

/-- Which keys are written at all does not depend on the order of the writes. -/
theorem last_eq_none_of_perm {writes others : List ω} (h : writes.Perm others) :
    last target k writes = none ↔ last target k others = none := by
  rw [last_eq_none_iff, last_eq_none_iff, (h.map target).mem_iff]

end Last

section Absorb

variable (key : ρ → κ) (target : ω → κ) (update : ρ → ω → ρ)

/-- A row after all writes to its key. -/
def absorb (writes : List ω) (row : ρ) : ρ :=
  (writes.filter fun w => target w = key row).foldl update row

@[simp] theorem absorb_nil (row : ρ) : absorb key target update [] row = row := rfl

theorem absorb_concat (writes : List ω) (w : ω) (row : ρ) :
    absorb key target update (writes ++ [w]) row =
      if target w = key row then update (absorb key target update writes row) w
      else absorb key target update writes row := by
  rw [absorb, List.filter_append, List.foldl_append, ← absorb, List.filter_singleton]
  by_cases h : target w = key row <;> simp [h]

variable {key target update}

/-- A column that every write keeps. -/
theorem absorb_kept (column : ρ → α) (kept : ∀ row w, column (update row w) = column row)
    (writes : List ω) (row : ρ) :
    column (absorb key target update writes row) = column row := by
  induction writes using List.reverseRecOn with
  | nil => rfl
  | append_singleton writes w ih =>
    rw [absorb_concat]
    split
    · rw [kept, ih]
    · exact ih

/-- A column that every write sets. -/
theorem absorb_last (column : ρ → α) (value : ω → α)
    (set : ∀ row w, column (update row w) = value w) (writes : List ω) (row : ρ) :
    column (absorb key target update writes row) =
      ((last target (key row) writes).map value).getD (column row) := by
  induction writes using List.reverseRecOn with
  | nil => rfl
  | append_singleton writes w ih =>
    rw [absorb_concat, last_concat]
    split
    · rw [set]
      rfl
    · exact ih

/-- A column that a write changes in the same way whatever it writes, and only once. -/
theorem absorb_once (column : ρ → α) (f : α → α)
    (changed : ∀ row w, column (update row w) = f (column row)) (once : ∀ a, f (f a) = f a)
    (writes : List ω) (row : ρ) :
    column (absorb key target update writes row) =
      if key row ∈ writes.map target then f (column row) else column row := by
  induction writes using List.reverseRecOn with
  | nil => rfl
  | append_singleton writes w ih =>
    rw [absorb_concat, List.map_append, List.map_singleton]
    by_cases hw : target w = key row
    · rw [if_pos hw, changed, ih]
      split
      · simp [hw, once]
      · simp [hw]
    · rw [if_neg hw, ih]
      simp [Ne.symm hw]

end Absorb

end ProxyFleet.LastWrites
