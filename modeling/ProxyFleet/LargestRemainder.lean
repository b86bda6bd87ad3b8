import Mathlib.Algebra.BigOperators.Group.List.Basic
import Mathlib.Data.List.Nodup
import Mathlib.Tactic.Linarith

/-!
# Largest remainders

A total is shared out in whole units. Every share is rounded down first, and the units
that are left go one each to the entries with the largest remainders. The entries stand
in the order of their remainders, so the units go to the front of the list.
-/
namespace ProxyFleet.LargestRemainder

variable {σ κ : Type*}

/-- One more unit for each of the first `n` entries. -/
def bumpFirst (bump : σ → σ) (n : ℕ) (entries : List σ) : List σ :=
  entries.mapIdx fun i x => if i < n then bump x else x

variable {bump : σ → σ} {whole remainder : σ → ℕ} {entries : List σ}

theorem bumpFirst_eq (n : ℕ) (entries : List σ) :
    bumpFirst bump n entries = (entries.take n).map bump ++ entries.drop n := by
  unfold bumpFirst
  induction entries generalizing n with
  | nil => simp
  | cons x entries ih =>
    cases n with
    | zero => simpa [List.mapIdx_cons] using ih 0
    | succ n =>
      rw [List.mapIdx_cons, List.take_succ_cons, List.drop_succ_cons, List.map_cons,
        List.cons_append, ← ih n]
      simp

/-- A column that a bump keeps is kept in place. -/
theorem map_bumpFirst {key : σ → κ} (h : ∀ x, key (bump x) = key x) (n : ℕ) (entries : List σ) :
    (bumpFirst bump n entries).map key = entries.map key := by
  rw [bumpFirst_eq, List.map_append, List.map_map]
  have hkey : key ∘ bump = key := funext h
  rw [hkey, ← List.map_append, List.take_append_drop]

theorem mem_bumpFirst {n : ℕ} {y : σ} (h : y ∈ bumpFirst bump n entries) :
    (∃ x ∈ entries.take n, y = bump x) ∨ y ∈ entries := by
  rw [bumpFirst_eq] at h
  obtain hbumped | hkept := List.mem_append.mp h
  · obtain ⟨x, hx, rfl⟩ := List.mem_map.mp hbumped
    exact .inl ⟨x, hx, rfl⟩
  · exact .inr (List.mem_of_mem_drop hkept)

theorem sum_bumpFirst (h : ∀ x, whole (bump x) = whole x + 1) {n : ℕ} (hn : n ≤ entries.length) :
    ((bumpFirst bump n entries).map whole).sum = (entries.map whole).sum + n := by
  have hbumped : ∀ l : List σ, ((l.map bump).map whole).sum = (l.map whole).sum + l.length := by
    intro l
    induction l with
    | nil => rfl
    | cons x l ih =>
      simp only [List.map_cons, List.sum_cons, List.length_cons, ih, h]
      omega
  rw [bumpFirst_eq, List.map_append, List.sum_append, hbumped, List.length_take, min_eq_left hn]
  conv_rhs => rw [← List.take_append_drop n entries, List.map_append, List.sum_append]
  omega

/-- Where the units are no more than the remainders add up to, they go to remainders that are
not zero. -/
theorem positive_of_units {d n : ℕ} (hd : 0 < d)
    (sorted : entries.Pairwise fun a b => remainder b ≤ remainder a)
    (bounded : ∀ x ∈ entries, remainder x < d) (units : n * d ≤ (entries.map remainder).sum) :
    n ≤ entries.length ∧ ∀ x ∈ entries.take n, 0 < remainder x := by
  induction entries generalizing n with
  | nil =>
    have hn : n = 0 := by
      simpa [Nat.ne_of_gt hd] using units
    simp [hn]
  | cons x entries ih =>
    obtain ⟨hx, hsorted⟩ := List.pairwise_cons.mp sorted
    have hlt : remainder x < d := bounded x List.mem_cons_self
    rw [List.map_cons, List.sum_cons] at units
    cases n with
    | zero => simp
    | succ n =>
      have hpositive : 0 < remainder x := by
        by_contra hzero
        have hrest : (entries.map remainder).sum = 0 := by
          apply List.sum_eq_zero
          intro r hr
          obtain ⟨y, hy, rfl⟩ := List.mem_map.mp hr
          have := hx y hy
          omega
        rw [Nat.succ_mul] at units
        omega
      rw [Nat.succ_mul] at units
      obtain ⟨hlength, htail⟩ := ih hsorted (fun y hy => bounded y (List.mem_cons_of_mem _ hy))
        (n := n) (by omega)
      refine ⟨by simpa using hlength, fun y hy => ?_⟩
      rw [List.take_succ_cons] at hy
      rcases List.mem_cons.mp hy with rfl | hy
      · exact hpositive
      · exact htail y hy

theorem sum_split (d : ℕ) (whole remainder : σ → ℕ) (entries : List σ) :
    (entries.map fun x => d * whole x + remainder x).sum =
      d * (entries.map whole).sum + (entries.map remainder).sum := by
  induction entries with
  | nil => rfl
  | cons x entries ih =>
    simp only [List.map_cons, List.sum_cons, ih, Nat.mul_add]
    omega

/-- The entries split the total into whole units and remainders. -/
theorem units_mul {d total : ℕ}
    (split : (entries.map fun x => d * whole x + remainder x).sum = d * total) :
    (total - (entries.map whole).sum) * d = (entries.map remainder).sum := by
  have hsum := sum_split d whole remainder entries
  rw [Nat.sub_mul, Nat.mul_comm total, Nat.mul_comm _ d]
  omega

variable {d total : ℕ}

/-- The shares add up to the total. -/
theorem sum_rounded (hd : 0 < d) (hbump : ∀ x, whole (bump x) = whole x + 1)
    (sorted : entries.Pairwise fun a b => remainder b ≤ remainder a)
    (bounded : ∀ x ∈ entries, remainder x < d)
    (split : (entries.map fun x => d * whole x + remainder x).sum = d * total) :
    ((bumpFirst bump (total - (entries.map whole).sum) entries).map whole).sum = total := by
  have hunits := units_mul split
  have hle : (entries.map whole).sum ≤ total := by
    have hsum := sum_split d whole remainder entries
    refine Nat.le_of_mul_le_mul_left ?_ hd
    omega
  rw [sum_bumpFirst hbump (positive_of_units hd sorted bounded hunits.le).1]
  omega

/-- Every share is its quotient, or one more where the remainder is not zero. -/
theorem share_rounded (hd : 0 < d) (sorted : entries.Pairwise fun a b => remainder b ≤ remainder a)
    (bounded : ∀ x ∈ entries, remainder x < d)
    (split : (entries.map fun x => d * whole x + remainder x).sum = d * total) {y : σ}
    (h : y ∈ bumpFirst bump (total - (entries.map whole).sum) entries) :
    y ∈ entries ∨ ∃ x ∈ entries, 0 < remainder x ∧ y = bump x := by
  obtain ⟨x, hx, rfl⟩ | hy := mem_bumpFirst h
  · exact .inr ⟨x, List.mem_of_mem_take hx,
      (positive_of_units hd sorted bounded (units_mul split).le).2 x hx, rfl⟩
  · exact .inl hy

end ProxyFleet.LargestRemainder
