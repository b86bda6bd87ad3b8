import ProxyFleet.ObservedRuns
import Mathlib.Algebra.Order.Monoid.Defs

/-!
# Values that are read, changed and written back

Processes read a shared value and later write back what they read, plus an
increment. A process that writes a stale value back takes away what others added
meanwhile. Nothing repairs this: what was read before is behind as well.
-/
namespace ProxyFleet.ReadModifyWrite

open ObservedRuns

/-- A shared value and what each process has read of it. -/
@[ext]
structure Shared (V : Type*) where
  value : V
  seen : ℕ → Option V

inductive Access (V : Type*) where
  | idle
  | read (process : ℕ)
  | commit (process : ℕ) (increment : V)
  | forget (process : ℕ)

namespace Shared

variable {V : Type*} (s : Shared V)

def setSeen (process : ℕ) (v : Option V) : Shared V :=
  { s with seen := Function.update s.seen process v }

@[simp] theorem setSeen_value (process : ℕ) (v : Option V) :
    (s.setSeen process v).value = s.value := rfl

theorem setSeen_seen (process other : ℕ) (v : Option V) :
    (s.setSeen process v).seen other = if other = process then v else s.seen other :=
  Function.update_apply ..

theorem setSeen_eq_self (process : ℕ) : s.setSeen process (s.seen process) = s := by
  unfold setSeen
  rw [Function.update_eq_self]

def step [Add V] : Access V → Shared V
  | .idle => s
  | .read p => s.setSeen p (some s.value)
  | .commit p d =>
    match s.seen p with
    | some v => { s.setSeen p none with value := v + d }
    | none => s
  | .forget p => s.setSeen p none

/-- What an access ought to add to the value. -/
def gain [Zero V] : Access V → V
  | .commit p d => if (s.seen p).isSome then d else 0
  | .idle | .read _ | .forget _ => 0

/-- A process that commits has read the value as it stands. -/
def Fresh : Access V → Prop
  | .commit p _ => ∀ v, s.seen p = some v → v = s.value
  | .idle | .read _ | .forget _ => True

instance [DecidableEq V] (a : Access V) : Decidable (s.Fresh a) :=
  match a with
  | .commit p _ =>
    match h : s.seen p with
    | some v => decidable_of_iff (v = s.value) (by simp [Fresh, h])
    | none => isTrue (by simp [Fresh, h])
  | .idle | .read _ | .forget _ => isTrue trivial

def Positive [Zero V] [LT V] : Access V → Prop
  | .commit _ d => 0 < d
  | .idle | .read _ | .forget _ => True

section Steps

variable [AddMonoid V] {s} {a : Access V}

/-- An access leaves the value alone, or it writes back what its process has read. -/
theorem step_cases (a : Access V) :
    ((s.step a).value = s.value ∧ s.gain a = 0) ∨
      ∃ p d v, a = .commit p d ∧ s.seen p = some v ∧ (s.step a).value = v + d ∧ s.gain a = d := by
  cases a with
  | commit p d =>
    cases hp : s.seen p with
    | none => exact .inl ⟨by simp [step, hp], by simp [gain, hp]⟩
    | some v => exact .inr ⟨p, d, v, rfl, hp, by simp [step, hp], by simp [gain, hp]⟩
  | idle => exact .inl ⟨rfl, rfl⟩
  | read p => exact .inl ⟨rfl, rfl⟩
  | forget p => exact .inl ⟨rfl, rfl⟩

omit [AddMonoid V] in
theorem seen_forget {p q : ℕ} {v : V} (h : (s.setSeen p none).seen q = some v) :
    s.seen q = some v := by
  rw [setSeen_seen] at h
  split at h
  · cases h
  · exact h

/-- What a process has read after an access it had read before, or it has just read it. -/
theorem seen_step {q : ℕ} {v : V} (h : (s.step a).seen q = some v) :
    s.seen q = some v ∨ v = s.value ∧ s.gain a = 0 := by
  cases a with
  | idle => exact .inl h
  | forget p => exact .inl (seen_forget h)
  | read p =>
    rw [step, setSeen_seen] at h
    split at h
    · exact .inr ⟨(Option.some.inj h).symm, rfl⟩
    · exact .inl h
  | commit p d =>
    simp only [step] at h
    split at h
    · exact .inl (seen_forget h)
    · exact .inl h

end Steps

variable [AddCommMonoid V] [PartialOrder V] [IsOrderedCancelAddMonoid V]

/-- Nothing is lost so far: the value is `expected`, and no process has read more. -/
structure Exact (expected : V) : Prop where
  value : s.value = expected
  seen : ∀ p v, s.seen p = some v → v ≤ expected

/-- An increment is lost: the value and all that was read of it are behind. -/
structure Behind (expected : V) : Prop where
  value : s.value < expected
  seen : ∀ p v, s.seen p = some v → v < expected

variable {s} {expected : V} {a : Access V}

omit [IsOrderedCancelAddMonoid V] in
theorem gain_nonneg (hpos : Positive a) : 0 ≤ s.gain a := by
  obtain ⟨-, hgain⟩ | ⟨p, d, v, rfl, -, -, hgain⟩ := s.step_cases a
  · exact hgain.ge
  · rw [hgain]
    exact le_of_lt hpos

theorem Behind.step (h : s.Behind expected) (hpos : Positive a) :
    (s.step a).Behind (expected + s.gain a) := by
  have hle : expected ≤ expected + s.gain a := le_add_of_nonneg_right (gain_nonneg hpos)
  constructor
  · obtain ⟨hvalue, -⟩ | ⟨p, d, v, -, hp, hvalue, hgain⟩ := s.step_cases a
    · rw [hvalue]
      exact h.value.trans_le hle
    · rw [hvalue, hgain]
      exact add_lt_add_left (h.seen p v hp) d
  · intro q v hv
    rcases seen_step hv with hv | ⟨rfl, -⟩
    · exact (h.seen q v hv).trans_le hle
    · exact h.value.trans_le hle

theorem Exact.fresh (h : s.Exact expected) (hpos : Positive a) (hfresh : s.Fresh a) :
    (s.step a).Exact (expected + s.gain a) := by
  have hle : expected ≤ expected + s.gain a := le_add_of_nonneg_right (gain_nonneg hpos)
  constructor
  · obtain ⟨hvalue, hgain⟩ | ⟨p, d, v, rfl, hp, hvalue, hgain⟩ := s.step_cases a
    · rw [hvalue, hgain, add_zero, h.value]
    · rw [hvalue, hgain, hfresh v hp, h.value]
  · intro q v hv
    rcases seen_step hv with hv | ⟨rfl, -⟩
    · exact (h.seen q v hv).trans hle
    · exact h.value.le.trans hle

/-- A stale commit loses an increment. -/
theorem Exact.stale (h : s.Exact expected) (hpos : Positive a) (hstale : ¬ s.Fresh a) :
    (s.step a).Behind (expected + s.gain a) := by
  cases a with
  | commit p d =>
    obtain ⟨v, hp, hne⟩ : ∃ v, s.seen p = some v ∧ v ≠ s.value := by simpa [Fresh] using hstale
    have hlt : v < expected := lt_of_le_of_ne (h.seen p v hp) (h.value ▸ hne)
    have hgain : s.gain (.commit p d) = d := by simp [gain, hp]
    have hup : expected < expected + d := lt_add_of_pos_right expected hpos
    rw [hgain]
    constructor
    · simp only [Shared.step, hp]
      exact add_lt_add_left hlt d
    · intro q w hw
      rcases seen_step hw with hw | ⟨rfl, -⟩
      · exact (h.seen q w hw).trans_lt hup
      · exact h.value.trans_lt hup
  | idle => exact absurd trivial hstale
  | read p => exact absurd trivial hstale
  | forget p => exact absurd trivial hstale

end Shared

section Systems

variable {σ α V : Type*} [AddCommMonoid V] (step : σ → α → σ) (shared : σ → Shared V)
  (access : σ → α → Access V)

/-- What the commits of a run ought to add. -/
def gained : σ → List α → V
  | _, [] => 0
  | s, a :: as => (shared s).gain (access s a) + gained (step s a) as

variable {step shared access} [PartialOrder V] [IsOrderedCancelAddMonoid V] {J : σ → Prop}

theorem behind_run (ground : ∀ s a, J s → J (step s a))
    (sim : ∀ s a, J s → shared (step s a) = (shared s).step (access s a))
    (positive : ∀ s a, J s → Shared.Positive (access s a)) {s : σ} {expected : V} (hJ : J s)
    (h : (shared s).Behind expected) (as : List α) :
    (shared (run step s as)).Behind (expected + gained step shared access s as) := by
  induction as generalizing s expected with
  | nil => simpa [gained] using h
  | cons a as ih =>
    rw [gained, ← add_assoc, run_cons]
    apply ih (ground s a hJ)
    rw [sim s a hJ]
    exact h.step (positive s a hJ)

/-- A system that accesses a shared value adds up all increments exactly if every commit of
the run writes back a value that is still the value. -/
theorem value_eq_iff (ground : ∀ s a, J s → J (step s a))
    (sim : ∀ s a, J s → shared (step s a) = (shared s).step (access s a))
    (positive : ∀ s a, J s → Shared.Positive (access s a)) {s : σ} {expected : V} (hJ : J s)
    (h : (shared s).Exact expected) (as : List α) :
    (shared (run step s as)).value = expected + gained step shared access s as ↔
      Admitted step (fun s a => (shared s).Fresh (access s a)) s as := by
  induction as generalizing s expected with
  | nil => simpa [gained, Admitted] using h.value
  | cons a as ih =>
    rw [gained, ← add_assoc, run_cons, Admitted]
    by_cases hfresh : (shared s).Fresh (access s a)
    · have hnext : (shared (step s a)).Exact (expected + (shared s).gain (access s a)) := by
        rw [sim s a hJ]
        exact h.fresh (positive s a hJ) hfresh
      rw [ih (ground s a hJ) hnext]
      exact ⟨fun hrest => ⟨hfresh, hrest⟩, fun hall => hall.2⟩
    · have hnext : (shared (step s a)).Behind (expected + (shared s).gain (access s a)) := by
        rw [sim s a hJ]
        exact h.stale (positive s a hJ) hfresh
      have hlast := (behind_run ground sim positive (ground s a hJ) hnext as).value
      exact ⟨fun heq => absurd heq hlast.ne, fun hall => absurd hall.1 hfresh⟩

end Systems

end ProxyFleet.ReadModifyWrite
