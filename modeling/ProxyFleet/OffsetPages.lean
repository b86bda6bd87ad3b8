import Mathlib.Data.Int.Notation
import Mathlib.Data.List.Nodup
import Mathlib.Data.List.TakeDrop

/-!
# Pages by offset

A query shows a window of a list: as many members as a page has, behind an offset. Pages whose
offsets are the multiples of the page size partition the list. If the members are distinct, a
window elsewhere is no page, unless both lie behind the end.
-/
namespace ProxyFleet.OffsetPages

variable {α β : Type*}

/-- `LIMIT size OFFSET offset`. A negative offset counts as none. -/
def window (l : List α) (size : ℕ) (offset : ℤ) : List α := (l.drop offset.toNat).take size

/-- The members of a page. The first page has the number 1. -/
def slice (l : List α) (size page : ℕ) : List α := (l.drop ((page - 1) * size)).take size

/-- The pages up to the last one join to the list, and those behind its end are empty. -/
structure Partitions (l : List α) (size : ℕ) (pages : ℕ → List α) (last : ℕ) : Prop where
  joined : ∀ m ≤ last, ((List.range m).flatMap fun i => pages (i + 1)) = l.take (m * size)
  pastEnd : ∀ page, 1 ≤ page → page ≤ last → l.length ≤ (page - 1) * size → pages page = []

section Slices

variable {l : List α} {size : ℕ}

theorem map_window (f : α → β) (l : List α) (size : ℕ) (offset : ℤ) :
    (window l size offset).map f = window (l.map f) size offset := by
  rw [window, window, List.map_take, List.map_drop]

theorem take_succ_mul (m : ℕ) :
    l.take ((m + 1) * size) = l.take (m * size) ++ slice l size (m + 1) := by
  rw [Nat.succ_mul, List.take_add]
  rfl

theorem flatMap_slice (m : ℕ) :
    ((List.range m).flatMap fun i => slice l size (i + 1)) = l.take (m * size) := by
  induction m with
  | zero => simp
  | succ m ih =>
    rw [List.range_succ, List.flatMap_append, ih, List.flatMap_singleton, take_succ_mul]

theorem slice_of_length_le {page : ℕ} (h : l.length ≤ (page - 1) * size) :
    slice l size page = [] := by
  rw [slice, List.drop_eq_nil_of_le h, List.take_nil]

/-- Pages partition a list exactly when each of them is its slice. -/
theorem partitions_iff {pages : ℕ → List α} {last : ℕ} :
    Partitions l size pages last ↔
      ∀ page, 1 ≤ page → page ≤ last → pages page = slice l size page := by
  constructor
  · intro h page hpage hlast
    obtain ⟨m, rfl⟩ : ∃ m, page = m + 1 := ⟨page - 1, by omega⟩
    have hjoined := h.joined (m + 1) hlast
    rw [List.range_succ, List.flatMap_append, h.joined m (by omega), List.flatMap_singleton,
      take_succ_mul] at hjoined
    exact List.append_cancel_left hjoined
  · intro h
    constructor
    · intro m hm
      rw [← flatMap_slice]
      apply List.flatMap_congr
      intro i hi
      have hlt := List.mem_range.mp hi
      exact h (i + 1) (by omega) (by omega)
    · intro page hpage hlast hend
      rw [h page hpage hlast]
      exact slice_of_length_le hend

/-- Two windows of distinct members are the same if they begin at one place, or if neither
begins before the end. -/
theorem window_eq_slice_iff (hnodup : l.Nodup) (hsize : 0 < size) {offset : ℤ} {page : ℕ} :
    window l size offset = slice l size page ↔
      offset.toNat = (page - 1) * size ∨
        l.length ≤ offset.toNat ∧ l.length ≤ (page - 1) * size := by
  have hhead : ∀ a, ((l.drop a).take size).head? = l[a]? := by
    intro a
    rw [List.head?_take, if_neg (Nat.ne_of_gt hsize), List.head?_drop]
  constructor
  · intro h
    have hmember : l[offset.toNat]? = l[(page - 1) * size]? := by
      rw [← hhead, ← hhead]
      exact congrArg List.head? h
    rcases Nat.lt_or_ge offset.toNat l.length with hlt | hle
    · exact .inl ((List.getElem?_inj hlt hnodup).mp hmember)
    · refine .inr ⟨hle, ?_⟩
      rw [List.getElem?_eq_none hle] at hmember
      exact List.getElem?_eq_none_iff.mp hmember.symm
  · rintro (h | ⟨hoffset, hpage⟩)
    · rw [window, slice, h]
    · rw [slice_of_length_le hpage, window, List.drop_eq_nil_of_le hoffset, List.take_nil]

end Slices

end ProxyFleet.OffsetPages
