import Mathlib.Data.List.Perm.Basic
import Mathlib.Order.Nat

/-!
# Buffers of unordered completions

A stream of items is worked on in a bounded buffer. The buffer is filled in the order of the
items, and the items leave it in whatever order they are completed. None is lost and none
leaves twice.
-/
namespace ProxyFleet

variable {α : Type} {limit n : ℕ} {picks : ℕ → ℕ} {items : List α}

/-- The items in the order of `n` completions. The first `limit` of the remaining items are
in the buffer, and the pick says which of them is completed next. -/
def completions (limit : ℕ) (picks : ℕ → ℕ) : ℕ → List α → List α
  | 0, _ => []
  | n + 1, items =>
    let i := picks n % min limit items.length
    items[i]?.toList ++ completions limit picks n (items.eraseIdx i)

def bufferUnordered (limit : ℕ) (picks : ℕ → ℕ) (items : List α) : List α :=
  completions limit picks items.length items

theorem completions_perm (hlimit : 0 < limit) (h : items.length = n) :
    (completions limit picks n items).Perm items := by
  induction n generalizing items with
  | zero => simp [completions, List.length_eq_zero_iff.mp h]
  | succ n ih =>
    have hpos : 0 < min limit items.length := lt_min hlimit (by omega)
    have hi : picks n % min limit items.length < items.length :=
      (Nat.mod_lt _ hpos).trans_le (min_le_right _ _)
    have herase : (items.eraseIdx (picks n % min limit items.length)).length = n := by
      rw [List.length_eraseIdx_of_lt hi]
      omega
    rw [completions, List.getElem?_eq_getElem hi]
    exact ((ih herase).cons _).trans (List.getElem_cons_eraseIdx_perm hi)

theorem bufferUnordered_perm (hlimit : 0 < limit) :
    (bufferUnordered limit picks items).Perm items := completions_perm hlimit rfl

end ProxyFleet
