import ProxyFleet.ObservedRuns

/-!
# Levels between two bounds

A level goes up by one, or down by at least one, and stays between its bounds. A run without moves
down ends as high as its moves up take it, a run without moves up as low as its moves down do.
-/
namespace ProxyFleet.BoundedLevels

open ObservedRuns

/-- What a step does to a level. -/
inductive Move where
  | keep | up | down
  deriving DecidableEq

/-- The level `x` may become `y` by the move. -/
def Moves (low high : ℕ) (x y : ℕ) : Move → Prop
  | .keep => y = x
  | .up => y = max low (min (x + 1) high)
  | .down => low ≤ y ∧ y ≤ high ∧ y ≤ max low (x - 1)

variable {low high x y : ℕ} {move : Move}

theorem Moves.within (h : Moves low high x y move) (hbounds : low ≤ high)
    (hx : low ≤ x ∧ x ≤ high) : low ≤ y ∧ y ≤ high := by
  cases move with
  | keep => exact h ▸ hx
  | up =>
    have heq : y = max low (min (x + 1) high) := h
    omega
  | down => exact ⟨h.1, h.2.1⟩

section Systems

variable {σ α : Type*} {step : σ → α → σ}

/-- How often a move occurs in a run. -/
def occurrences (step : σ → α → σ) (moved : σ → α → Move) (move : Move) : σ → List α → ℕ
  | _, [] => 0
  | s, a :: as =>
    occurrences step moved move (step s a) as + if moved s a = move then 1 else 0

variable {moved : σ → α → Move} {level : σ → ℕ}

/-- Without moves down, a level ends where its moves up take it. -/
theorem level_climbs (hbounds : low ≤ high)
    (hstep : ∀ s a, Moves low high (level s) (level (step s a)) (moved s a)) {s : σ}
    (hs : low ≤ level s ∧ level s ≤ high) {as : List α}
    (calm : occurrences step moved .down s as = 0) :
    level (run step s as) = min (level s + occurrences step moved .up s as) high := by
  induction as generalizing s with
  | nil => simp [occurrences, hs.2]
  | cons a as ih =>
    obtain ⟨hlater, hnow⟩ := Nat.add_eq_zero_iff.mp calm
    have hmoves := hstep s a
    rw [run_cons, ih (hmoves.within hbounds hs) hlater, occurrences]
    cases hmove : moved s a with
    | keep =>
      rw [hmove] at hmoves
      have heq : level (step s a) = level s := hmoves
      simp [heq]
    | up =>
      rw [hmove] at hmoves
      have heq : level (step s a) = max low (min (level s + 1) high) := hmoves
      rw [heq, if_pos rfl]
      omega
    | down => simp [hmove] at hnow

/-- Without moves up, a level ends no higher than its moves down leave it. -/
theorem level_falls (hbounds : low ≤ high)
    (hstep : ∀ s a, Moves low high (level s) (level (step s a)) (moved s a)) {s : σ}
    (hs : low ≤ level s ∧ level s ≤ high) {as : List α}
    (loaded : occurrences step moved .up s as = 0) :
    level (run step s as) ≤ max low (level s - occurrences step moved .down s as) := by
  induction as generalizing s with
  | nil => exact Nat.le_max_right _ _
  | cons a as ih =>
    obtain ⟨hlater, hnow⟩ := Nat.add_eq_zero_iff.mp loaded
    have hmoves := hstep s a
    refine Nat.le_trans (ih (hmoves.within hbounds hs) hlater) ?_
    rw [occurrences]
    cases hmove : moved s a with
    | keep =>
      rw [hmove] at hmoves
      have heq : level (step s a) = level s := hmoves
      simp [heq]
    | up => simp [hmove] at hnow
    | down =>
      rw [hmove] at hmoves
      have hle : level (step s a) ≤ max low (level s - 1) := hmoves.2.2
      rw [if_pos rfl]
      omega

end Systems

end ProxyFleet.BoundedLevels
