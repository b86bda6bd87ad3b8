import Mathlib.Data.List.Basic
import Mathlib.Data.List.Nodup

/-!
# Guarded updates of a table of rows

A table is a list of rows. An update rewrites the rows that its guard selects
and leaves the others in place, as `UPDATE … WHERE` does. A key is a column that
no update rewrites; distinct keys make a row and its key interchangeable.
-/
namespace ProxyFleet.RowUpdates

variable {ρ κ : Type*}

/-- Rewrites every row that satisfies the guard. -/
def updateWhere (guard : ρ → Bool) (f : ρ → ρ) (rows : List ρ) : List ρ :=
  rows.map fun r => if guard r then f r else r

/-- A row of the updated table is an old row, rewritten exactly when it was selected. -/
theorem mem_updateWhere {guard : ρ → Bool} {f : ρ → ρ} {rows : List ρ} {r' : ρ} :
    r' ∈ updateWhere guard f rows ↔
      ∃ r ∈ rows, (guard r = true ∧ r' = f r) ∨ (guard r = false ∧ r' = r) := by
  simp only [updateWhere, List.mem_map]
  constructor
  · rintro ⟨r, hr, rfl⟩
    cases hg : guard r with
    | true => exact ⟨r, hr, .inl ⟨hg, by simp⟩⟩
    | false => exact ⟨r, hr, .inr ⟨hg, by simp⟩⟩
  · rintro ⟨r, hr, ⟨hg, rfl⟩ | ⟨hg, rfl⟩⟩
    · exact ⟨r, hr, by simp [hg]⟩
    · exact ⟨r', hr, by simp [hg]⟩

theorem updateWhere_of_forall_not {guard : ρ → Bool} {f : ρ → ρ} {rows : List ρ}
    (h : ∀ r ∈ rows, guard r = false) : updateWhere guard f rows = rows := by
  unfold updateWhere
  conv_rhs => rw [← List.map_id rows]
  apply List.map_congr_left
  intro r hr
  simp [h r hr]

/-- An update that keeps a column keeps the whole list of its values. -/
theorem map_updateWhere {guard : ρ → Bool} {f : ρ → ρ} {key : ρ → κ}
    (h : ∀ r, key (f r) = key r) (rows : List ρ) :
    (updateWhere guard f rows).map key = rows.map key := by
  simp only [updateWhere, List.map_map]
  apply List.map_congr_left
  intro r _
  cases hg : guard r <;> simp [hg, h]

/-- Rows with distinct keys are equal as soon as their keys are. -/
theorem eq_of_key_eq {key : ρ → κ} {rows : List ρ} (hn : (rows.map key).Nodup) {a b : ρ}
    (ha : a ∈ rows) (hb : b ∈ rows) (h : key a = key b) : a = b :=
  List.inj_on_of_nodup_map hn ha hb h

/-- Looking a row up by its own key finds it. -/
theorem find?_key_eq [DecidableEq κ] {key : ρ → κ} {rows : List ρ}
    (hn : (rows.map key).Nodup) {r : ρ} (hr : r ∈ rows) :
    rows.find? (fun x => decide (key x = key r)) = some r := by
  cases h : rows.find? (fun x => decide (key x = key r)) with
  | none =>
    have := List.find?_eq_none.mp h r hr
    simp at this
  | some x =>
    have hx : key x = key r := by simpa using List.find?_some h
    rw [eq_of_key_eq hn (List.mem_of_find?_eq_some h) hr hx]

end ProxyFleet.RowUpdates
