import Mathlib.Data.Finset.Erase
import Mathlib.Data.Finset.Insert
import Mathlib.Data.List.Flatten
import Mathlib.Data.List.Nodup

/-!
# Holders of members of a shared set

Holders take members out of a shared supply. A set names the members that are taken. The set
is exact when every member in it has one holder and no member outside it has any. Taking a
member that is free and giving back one that is held keep the set exact, in whichever order
the holders do so.
-/
namespace ProxyFleet.ExclusiveHoldings

variable {α ι : Type*}

/-- The set names what is held, and nothing is held twice. -/
structure Exact (taken : Finset α) (held : List α) : Prop where
  nodup : held.Nodup
  mem_iff : ∀ a, a ∈ taken ↔ a ∈ held

namespace Exact

variable {taken : Finset α} {held other : List α} {a : α}

theorem empty : Exact (∅ : Finset α) [] :=
  ⟨List.nodup_nil, fun a => iff_of_false (Finset.notMem_empty a) List.not_mem_nil⟩

theorem perm (h : Exact taken held) (hperm : held.Perm other) : Exact taken other :=
  ⟨hperm.nodup_iff.mp h.nodup, fun a => (h.mem_iff a).trans hperm.mem_iff⟩

theorem take [DecidableEq α] (h : Exact taken held) (ha : a ∉ taken) :
    Exact (insert a taken) (a :: held) where
  nodup := List.nodup_cons.mpr ⟨fun hmem => ha ((h.mem_iff a).mpr hmem), h.nodup⟩
  mem_iff b := by rw [Finset.mem_insert, List.mem_cons, h.mem_iff]

theorem giveBack [DecidableEq α] (h : Exact taken (a :: held)) : Exact (taken.erase a) held where
  nodup := h.nodup.of_cons
  mem_iff b := by
    rw [Finset.mem_erase, h.mem_iff, List.mem_cons]
    constructor
    · rintro ⟨hne, hmem⟩
      exact hmem.resolve_left hne
    · intro hmem
      refine ⟨?_, .inr hmem⟩
      rintro rfl
      exact (List.nodup_cons.mp h.nodup).1 hmem

end Exact

section Holders

variable {holders : List ι} {holds : ι → List α} {i : ℕ} {before after : ι}

/-- What one holder holds, and what is left to the others. -/
theorem flatMap_perm (h : holders[i]? = some before) :
    (holders.flatMap holds).Perm (holds before ++ (holders.eraseIdx i).flatMap holds) := by
  obtain ⟨hi, rfl⟩ := List.getElem?_eq_some_iff.mp h
  rw [← List.flatMap_cons]
  exact ((List.getElem_cons_eraseIdx_perm hi).symm).flatMap_right holds

theorem flatMap_set_perm (h : holders[i]? = some before) :
    ((holders.set i after).flatMap holds).Perm
      (holds after ++ (holders.eraseIdx i).flatMap holds) := by
  obtain ⟨hi, -⟩ := List.getElem?_eq_some_iff.mp h
  rw [← List.flatMap_cons]
  exact (List.set_perm_cons_eraseIdx hi after).flatMap_right holds

variable {taken : Finset α} {a : α}

/-- A new holder comes with nothing. -/
theorem Exact.join (h : Exact taken (holders.flatMap holds)) (hafter : holds after = []) :
    Exact taken ((holders ++ [after]).flatMap holds) := by
  rwa [List.flatMap_append, List.flatMap_singleton, hafter, List.append_nil]

theorem Exact.keep (h : Exact taken (holders.flatMap holds)) (hi : holders[i]? = some before)
    (hsame : holds after = holds before) :
    Exact taken ((holders.set i after).flatMap holds) := by
  have hset : ((holders.set i after).flatMap holds).Perm
      (holds after ++ (holders.eraseIdx i).flatMap holds) := flatMap_set_perm hi
  rw [hsame] at hset
  exact h.perm ((flatMap_perm hi).trans hset.symm)

/-- A holder takes a member that nobody holds. -/
theorem Exact.acquire [DecidableEq α] (h : Exact taken (holders.flatMap holds))
    (hi : holders[i]? = some before) (ha : a ∉ taken)
    (htakes : (holds after).Perm (a :: holds before)) :
    Exact (insert a taken) ((holders.set i after).flatMap holds) := by
  have hheld : (a :: holders.flatMap holds).Perm
      (holds after ++ (holders.eraseIdx i).flatMap holds) :=
    ((flatMap_perm hi).cons a).trans (htakes.symm.append_right _)
  exact (h.take ha).perm (hheld.trans (flatMap_set_perm hi).symm)

/-- A holder gives back a member that it holds. -/
theorem Exact.release [DecidableEq α] (h : Exact taken (holders.flatMap holds))
    (hi : holders[i]? = some before) (hgives : (holds before).Perm (a :: holds after)) :
    Exact (taken.erase a) ((holders.set i after).flatMap holds) := by
  have hheld := h.perm ((flatMap_perm hi).trans (hgives.append_right _))
  exact hheld.giveBack.perm (flatMap_set_perm hi).symm

end Holders

end ProxyFleet.ExclusiveHoldings
