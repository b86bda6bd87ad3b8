import Mathlib.Data.List.Nodup
import Mathlib.Data.List.Perm.Subperm
import Mathlib.Data.List.Range

/-!
# The maximum of a random sample

A sample draws different positions of a list, as many as are wanted or as there are. A scan
keeps the greater of two members by a comparison that may answer otherwise each time. If it
always answers the same, the scan ends at a maximum of the sample.
-/
namespace ProxyFleet.SampledMaxima

variable {α : Type*}

/-- Positions drawn from a list without repetition. -/
structure Sample (amount length : ℕ) where
  positions : List ℕ
  nodup : positions.Nodup
  lt_length : ∀ i ∈ positions, i < length
  count : positions.length = min amount length

/-- The members at the positions of a sample. -/
def pick (l : List α) {amount : ℕ} (sample : Sample amount l.length) : List α :=
  sample.positions.filterMap fun i => l[i]?

section Pick

variable {l : List α} {amount : ℕ} {sample : Sample amount l.length} {a : α}

theorem mem_of_mem_pick (h : a ∈ pick l sample) : a ∈ l := by
  obtain ⟨i, -, hi⟩ := List.mem_filterMap.mp h
  exact List.mem_of_getElem? hi

/-- A sample that may be as large as the list draws every position. -/
theorem Sample.mem_positions (h : l.length ≤ amount) {i : ℕ} (hi : i < l.length) :
    i ∈ sample.positions := by
  have hsubset : sample.positions ⊆ List.range l.length :=
    fun j hj => List.mem_range.mpr (sample.lt_length j hj)
  have hperm : sample.positions.Perm (List.range l.length) := by
    apply (sample.nodup.subperm hsubset).perm_of_length_le
    rw [List.length_range, sample.count, min_eq_right h]
  exact hperm.mem_iff.mpr (List.mem_range.mpr hi)

theorem mem_pick_of_length_le (h : l.length ≤ amount) (ha : a ∈ l) : a ∈ pick l sample := by
  obtain ⟨i, hi, rfl⟩ := List.getElem_of_mem ha
  exact List.mem_filterMap.mpr ⟨i, Sample.mem_positions h hi, List.getElem?_eq_getElem hi⟩

theorem pick_ne_nil (hamount : 0 < amount) (hl : l ≠ []) : pick l sample ≠ [] := by
  have hlength : 0 < sample.positions.length := by
    rw [sample.count]
    exact lt_min hamount (List.length_pos_iff.mpr hl)
  obtain ⟨i, hi⟩ := List.exists_mem_of_length_pos hlength
  have hlt := sample.lt_length i hi
  exact List.ne_nil_of_mem
    (List.mem_filterMap.mpr ⟨i, hi, List.getElem?_eq_getElem hlt⟩)

end Pick

/-- The maximum by the comparison that is made `k`-th. Of equal members the later one stays. -/
def maxBy (le : ℕ → α → α → Bool) : ℕ → α → List α → α
  | _, best, [] => best
  | k, best, a :: rest => maxBy le (k + 1) (if le k best a then a else best) rest

section MaxBy

variable {le : ℕ → α → α → Bool} {k : ℕ} {best : α} {rest : List α}

theorem maxBy_mem : maxBy le k best rest ∈ best :: rest := by
  induction rest generalizing k best with
  | nil => exact List.mem_cons_self
  | cons a rest ih =>
    rw [maxBy]
    split
    · exact List.mem_cons_of_mem _ ih
    · have hmem : maxBy le (k + 1) best rest ∈ best :: rest := ih
      rcases List.mem_cons.mp hmem with h | h
      · rw [h]
        exact List.mem_cons_self
      · exact List.mem_cons_of_mem _ (List.mem_cons_of_mem _ h)

/-- With one total preorder for all comparisons nothing exceeds the member that stays. -/
theorem le_maxBy {r : α → α → Bool} (htrans : ∀ a b c, r a b → r b c → r a c)
    (htotal : ∀ a b, r a b || r b a) (hle : ∀ k, le k = r) :
    ∀ a ∈ best :: rest, r a (maxBy le k best rest) = true := by
  have hrefl : ∀ a, r a a = true := fun a => (Bool.or_self _).symm.trans (htotal a a)
  induction rest generalizing k best with
  | nil =>
    intro a ha
    obtain rfl := List.mem_singleton.mp ha
    exact hrefl a
  | cons b rest ih =>
    intro a ha
    rw [maxBy, hle k]
    cases hcompared : r best b with
    | true =>
      rw [if_pos rfl]
      rcases List.mem_cons.mp ha with rfl | ha
      · exact htrans _ _ _ hcompared (ih b List.mem_cons_self)
      · exact ih a ha
    | false =>
      rw [if_neg Bool.false_ne_true]
      have hback : r b best = true := by
        have hor := htotal b best
        rwa [hcompared, Bool.or_false] at hor
      rcases List.mem_cons.mp ha with rfl | ha
      · exact ih a List.mem_cons_self
      · rcases List.mem_cons.mp ha with rfl | ha
        · exact htrans _ _ _ hback (ih best List.mem_cons_self)
        · exact ih a (List.mem_cons_of_mem _ ha)

end MaxBy

end ProxyFleet.SampledMaxima
