import Mathlib.Algebra.BigOperators.Group.List.Basic
import Mathlib.Algebra.Ring.Nat
import Mathlib.Data.List.Nodup
import Mathlib.Logic.Function.Basic

/-!
# Queues that share a capacity

A server takes jobs from several queues, up to a capacity. A pass visits the queues in
order and takes from each what a limit, the free capacity and the supply of the queue
allow. A first pass is limited by quotas, a second one by the capacity alone.
-/
namespace ProxyFleet.SharedCapacity

variable {Q : Type*} [DecidableEq Q]

/-- What was taken so far, from each queue and in all. -/
structure Served (Q : Type*) where
  of : Q → ℕ
  total : ℕ

/-- Nothing was taken yet. -/
def Served.none : Served Q := ⟨fun _ => 0, 0⟩

variable (capacity : ℕ) (supply : Q → ℕ) (limit : Q → ℕ → ℕ)

/-- What a visit takes from a queue. The limit may depend on the total so far. -/
def portion (s : Served Q) (q : Q) : ℕ :=
  min (min (limit q s.total) (capacity - s.total)) (supply q - s.of q)

def serve (s : Served Q) (q : Q) : Served Q :=
  ⟨Function.update s.of q (s.of q + portion capacity supply limit s q),
    s.total + portion capacity supply limit s q⟩

/-- One pass over the queues. -/
def pass (queues : List Q) (s : Served Q) : Served Q :=
  queues.foldl (serve capacity supply limit) s

variable {capacity supply limit} {s : Served Q} {q : Q}

theorem serve_of_ne {other : Q} (h : other ≠ q) :
    (serve capacity supply limit s q).of other = s.of other := Function.update_of_ne h _ _

theorem serve_of_self : (serve capacity supply limit s q).of q =
    s.of q + portion capacity supply limit s q := Function.update_self _ _ _

theorem le_serve (other : Q) : s.of other ≤ (serve capacity supply limit s q).of other := by
  by_cases h : other = q
  · rw [h, serve_of_self]
    exact Nat.le_add_right _ _
  · exact Nat.le_of_eq (serve_of_ne h).symm

theorem le_pass (queues : List Q) (other : Q) :
    s.of other ≤ (pass capacity supply limit queues s).of other := by
  induction queues generalizing s with
  | nil => exact Nat.le_refl _
  | cons q queues ih => exact Nat.le_trans (le_serve other) ih

/-- The queues that a pass does not visit keep their jobs. -/
theorem pass_of_not_mem {queues : List Q} (h : q ∉ queues) :
    (pass capacity supply limit queues s).of q = s.of q := by
  induction queues generalizing s with
  | nil => rfl
  | cons head queues ih =>
    rw [List.mem_cons, not_or] at h
    exact (ih h.2).trans (serve_of_ne h.1)

/-- No queue is overdrawn and the capacity is kept. -/
structure Sound (capacity : ℕ) (supply : Q → ℕ) (s : Served Q) : Prop where
  supplied : ∀ q, s.of q ≤ supply q
  bounded : s.total ≤ capacity

theorem Sound.serve (h : Sound capacity supply s) (q : Q) :
    Sound capacity supply (serve capacity supply limit s q) := by
  have hq := h.supplied q
  have hb := h.bounded
  constructor
  · intro other
    by_cases hne : other = q
    · rw [hne, serve_of_self, portion]
      omega
    · rw [serve_of_ne hne]
      exact h.supplied other
  · show s.total + portion capacity supply limit s q ≤ capacity
    rw [portion]
    omega

theorem Sound.pass (h : Sound capacity supply s) (queues : List Q) :
    Sound capacity supply (pass capacity supply limit queues s) := by
  induction queues generalizing s with
  | nil => exact h
  | cons q queues ih => exact ih (h.serve q)

/-- The first pass takes from each queue its whole quota, or all that the queue has. -/
theorem pass_quota {quota : Q → ℕ} {queues : List Q} (distinct : queues.Nodup)
    (fresh : ∀ q ∈ queues, s.of q = 0) (room : s.total + (queues.map quota).sum ≤ capacity) :
    (∀ q ∈ queues, (pass capacity supply (fun q _ => quota q) queues s).of q =
      min (quota q) (supply q)) ∧
    (pass capacity supply (fun q _ => quota q) queues s).total =
      s.total + (queues.map fun q => min (quota q) (supply q)).sum := by
  induction queues generalizing s with
  | nil => simp [pass]
  | cons q queues ih =>
    obtain ⟨hq, hdistinct⟩ := List.nodup_cons.mp distinct
    rw [List.map_cons, List.sum_cons] at room
    have hportion : portion capacity supply (fun q _ => quota q) s q =
        min (quota q) (supply q) := by
      rw [portion, fresh q List.mem_cons_self]
      omega
    have hserved : ∀ other ∈ queues,
        (serve capacity supply (fun q _ => quota q) s q).of other = 0 := by
      intro other hother
      have hne : other ≠ q := fun heq => hq (heq ▸ hother)
      rw [serve_of_ne hne]
      exact fresh other (List.mem_cons_of_mem _ hother)
    have htotal : (serve capacity supply (fun q _ => quota q) s q).total =
        s.total + min (quota q) (supply q) := congrArg (s.total + ·) hportion
    obtain ⟨heach, hall⟩ := ih hdistinct hserved (by omega)
    constructor
    · intro other hother
      rcases List.mem_cons.mp hother with rfl | hother
      · have hself : (serve capacity supply (fun q _ => quota q) s other).of other =
            min (quota other) (supply other) := by
          rw [serve_of_self, hportion, fresh other List.mem_cons_self, Nat.zero_add]
        exact (pass_of_not_mem hq).trans hself
      · exact heach other hother
    · rw [List.map_cons, List.sum_cons, ← Nat.add_assoc, ← htotal]
      exact hall

/-- A pass at a full capacity takes nothing. -/
theorem pass_full (full : s.total = capacity) (queues : List Q) :
    pass capacity supply limit queues s = s := by
  have hserve : ∀ q, serve capacity supply limit s q = s := by
    intro q
    have hzero : portion capacity supply limit s q = 0 := by
      rw [portion, full]
      omega
    simp [serve, hzero]
  induction queues with
  | nil => rfl
  | cons q queues ih =>
    rw [pass, List.foldl_cons, hserve q]
    exact ih

/-- After a pass without limits the capacity is used up, or the queues are empty. -/
theorem pass_conserving (sound : Sound capacity supply s) {queues : List Q} :
    (pass capacity supply (fun _ total => capacity - total) queues s).total = capacity ∨
      ∀ q ∈ queues,
        (pass capacity supply (fun _ total => capacity - total) queues s).of q = supply q := by
  induction queues generalizing s with
  | nil => exact .inr (by simp)
  | cons q queues ih =>
    let next := serve capacity supply (fun _ total => capacity - total) s q
    have hnext : Sound capacity supply next := sound.serve q
    have hportion : portion capacity supply (fun _ total => capacity - total) s q =
        min (capacity - s.total) (supply q - s.of q) := by
      rw [portion]
      omega
    have htotal : next.total = s.total + min (capacity - s.total) (supply q - s.of q) :=
      congrArg (s.total + ·) hportion
    have hself : next.of q = s.of q + min (capacity - s.total) (supply q - s.of q) := by
      rw [← hportion]
      exact serve_of_self
    have hbounded := sound.bounded
    have hsupplied := sound.supplied q
    rcases Nat.le_total (capacity - s.total) (supply q - s.of q) with hle | hle
    · left
      have hfull : next.total = capacity := by omega
      show (pass capacity supply (fun _ total => capacity - total) queues next).total = capacity
      rw [pass_full hfull]
      exact hfull
    · refine (ih hnext).imp_right fun hrest other hother => ?_
      rcases List.mem_cons.mp hother with rfl | hother
      · have hlower : next.of other ≤
            (pass capacity supply (fun _ total => capacity - total) queues next).of other :=
          le_pass queues other
        have hsound : Sound capacity supply
            (pass capacity supply (fun _ total => capacity - total) queues next) :=
          hnext.pass queues
        have hupper := hsound.supplied other
        show (pass capacity supply (fun _ total => capacity - total) queues next).of other =
          supply other
        omega
      · exact hrest other hother

end ProxyFleet.SharedCapacity
