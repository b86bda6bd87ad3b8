import Mathlib.Data.List.Basic

/-!
# Runs of a deterministic system with an observer

A system is a step function from a state and a label to the next state. A run
applies a list of labels. An observer keeps notes beside the state without
influencing it, so a law about the past of a run is an invariant of the pair.
Admission restricts the labels of a run by the state each of them meets.
-/
namespace ProxyFleet.ObservedRuns

variable {σ α γ : Type*}

/-- The state after the labels `as`, taken in order. -/
def run (step : σ → α → σ) (s : σ) (as : List α) : σ := as.foldl step s

@[simp] theorem run_nil (step : σ → α → σ) (s : σ) : run step s [] = s := rfl

@[simp] theorem run_cons (step : σ → α → σ) (s : σ) (a : α) (as : List α) :
    run step s (a :: as) = run step (step s a) as := rfl

@[simp] theorem run_append (step : σ → α → σ) (s : σ) (as bs : List α) :
    run step s (as ++ bs) = run step (run step s as) bs := by
  simp [run, List.foldl_append]

/-- Every label is admitted by the state it is applied to. -/
def Admitted (step : σ → α → σ) (A : σ → α → Prop) : σ → List α → Prop
  | _, [] => True
  | s, a :: as => A s a ∧ Admitted step A (step s a) as

instance decidableAdmitted (step : σ → α → σ) (A : σ → α → Prop)
    [∀ s a, Decidable (A s a)] : ∀ (s : σ) (as : List α), Decidable (Admitted step A s as)
  | _, [] => isTrue trivial
  | s, a :: as =>
    have := decidableAdmitted step A (step s a) as
    inferInstanceAs (Decidable (A s a ∧ Admitted step A (step s a) as))

@[simp] theorem admitted_append (step : σ → α → σ) (A : σ → α → Prop) (s : σ) (as bs : List α) :
    Admitted step A s (as ++ bs) ↔
      Admitted step A s as ∧ Admitted step A (run step s as) bs := by
  induction as generalizing s with
  | nil => simp [Admitted]
  | cons a as ih => simp [Admitted, ih, and_assoc]

theorem admitted_and {step : σ → α → σ} {A B : σ → α → Prop} {s : σ} {as : List α} :
    Admitted step (fun s a => A s a ∧ B s a) s as ↔
      Admitted step A s as ∧ Admitted step B s as := by
  induction as generalizing s with
  | nil => simp [Admitted]
  | cons a as ih => simp only [Admitted, ih, and_assoc, and_left_comm]

/-- A condition on labels alone is admission at every state. -/
theorem admitted_of_forall {step : σ → α → σ} {A : σ → α → Prop} {as : List α}
    (h : ∀ a ∈ as, ∀ s, A s a) (s : σ) : Admitted step A s as := by
  induction as generalizing s with
  | nil => trivial
  | cons a as ih =>
    exact ⟨h a (by simp) s, ih (fun b hb => h b (by simp [hb])) _⟩

/-- Conditions that agree wherever an invariant holds admit the same runs. -/
theorem admitted_congr {step : σ → α → σ} {A B : σ → α → Prop} {I : σ → Prop}
    (hstep : ∀ s a, I s → I (step s a)) (h : ∀ s a, I s → (A s a ↔ B s a)) {s : σ} (hs : I s)
    (as : List α) : Admitted step A s as ↔ Admitted step B s as := by
  induction as generalizing s with
  | nil => exact Iff.rfl
  | cons a as ih => exact and_congr (h s a hs) (ih (hstep s a hs))

/-- What every admitted step preserves holds after every admitted run. -/
theorem run_invariant {step : σ → α → σ} {A : σ → α → Prop} {I : σ → Prop}
    (hstep : ∀ s a, A s a → I s → I (step s a)) {s : σ} {as : List α}
    (h : I s) (ha : Admitted step A s as) : I (run step s as) := by
  induction as generalizing s with
  | nil => exact h
  | cons a as ih => exact ih (hstep _ _ ha.1 h) ha.2

/-- What every step preserves holds after every run. -/
theorem run_preserves {step : σ → α → σ} {I : σ → Prop} (hstep : ∀ s a, I s → I (step s a))
    {s : σ} (h : I s) (as : List α) : I (run step s as) :=
  run_invariant (A := fun _ _ => True) (fun s a _ => hstep s a) h
    (admitted_of_forall (fun _ _ _ => trivial) s)

/-- The property holds in every state that the run reaches, its first one included. -/
def Throughout (step : σ → α → σ) (I : σ → Prop) : σ → List α → Prop
  | s, [] => I s
  | s, a :: as => I s ∧ Throughout step I (step s a) as

theorem Throughout.first {step : σ → α → σ} {I : σ → Prop} {s : σ} {as : List α}
    (h : Throughout step I s as) : I s := by
  cases as with
  | nil => exact h
  | cons a as => exact h.1

theorem Throughout.last {step : σ → α → σ} {I : σ → Prop} {s : σ} {as : List α}
    (h : Throughout step I s as) : I (run step s as) := by
  induction as generalizing s with
  | nil => exact h
  | cons a as ih => exact ih h.2

/-- The rule for a property that follows from an invariant of the admitted steps. -/
theorem throughout_of_invariant {step : σ → α → σ} {A : σ → α → Prop} {J I : σ → Prop}
    (hstep : ∀ s a, A s a → J s → J (step s a)) (himp : ∀ s, J s → I s) {s : σ} {as : List α}
    (h : J s) (ha : Admitted step A s as) : Throughout step I s as := by
  induction as generalizing s with
  | nil => exact himp s h
  | cons a as ih => exact ⟨himp s h, ih (hstep s a ha.1 h) ha.2⟩

/-- The exact rule for runs. When a step keeps the property exactly if it is of the kind `A`,
a run keeps it in every state exactly if all its steps are. -/
theorem throughout_iff {step : σ → α → σ} {S A : σ → α → Prop} {J I : σ → Prop}
    (ground : ∀ s a, S s a → J s → J (step s a))
    (hstep : ∀ s a, S s a → J s → I s → (I (step s a) ↔ A s a)) {s : σ} {as : List α}
    (hJ : J s) (h : I s) (hs : Admitted step S s as) :
    Throughout step I s as ↔ Admitted step A s as := by
  induction as generalizing s with
  | nil => exact ⟨fun _ => trivial, fun _ => h⟩
  | cons a as ih =>
    have hone := hstep s a hs.1 hJ h
    constructor
    · intro hall
      have hnext : I (step s a) := hall.2.first
      exact ⟨hone.mp hnext, (ih (ground s a hs.1 hJ) hnext hs.2).mp hall.2⟩
    · intro hadm
      have hnext : I (step s a) := hone.mpr hadm.1
      exact ⟨h, (ih (ground s a hs.1 hJ) hnext hs.2).mpr hadm.2⟩

section Observers

variable (step : σ → α → σ) (note : γ → σ → α → γ)

/-- One step of the system together with the note taken of it. -/
def observe (p : σ × γ) (a : α) : σ × γ := (step p.1 a, note p.2 p.1 a)

@[simp] theorem observe_fst (p : σ × γ) (a : α) : (observe step note p a).1 = step p.1 a := rfl

@[simp] theorem observe_snd (p : σ × γ) (a : α) :
    (observe step note p a).2 = note p.2 p.1 a := rfl

/-- Observation does not influence the system. -/
@[simp] theorem run_observe_fst (p : σ × γ) (as : List α) :
    (run (observe step note) p as).1 = run step p.1 as := by
  induction as generalizing p with
  | nil => rfl
  | cons a as ih => simp [ih]

/-- The notes left by a run. -/
def notes (g : γ) (s : σ) (as : List α) : γ := (run (observe step note) (s, g) as).2

theorem run_observe_eq (g : γ) (s : σ) (as : List α) :
    run (observe step note) (s, g) as = (run step s as, notes step note g s as) :=
  Prod.ext (run_observe_fst step note (s, g) as) rfl

theorem notes_append (g : γ) (s : σ) (as bs : List α) :
    notes step note g s (as ++ bs) =
      notes step note (notes step note g s as) (run step s as) bs := by
  show (run (observe step note) (s, g) (as ++ bs)).2 = _
  rw [run_append, run_observe_eq step note g s as]
  rfl

@[simp] theorem notes_concat (g : γ) (s : σ) (as : List α) (a : α) :
    notes step note g s (as ++ [a]) = note (notes step note g s as) (run step s as) a := by
  rw [notes_append]; rfl

variable {step note}

/-- The invariant rule for a law that relates the state to the notes of its past. -/
theorem notes_invariant {A : σ → α → Prop} {I : σ → γ → Prop}
    (hstep : ∀ s g a, A s a → I s g → I (step s a) (note g s a)) {s : σ} {g : γ}
    {as : List α} (h : I s g) (ha : Admitted step A s as) :
    I (run step s as) (notes step note g s as) := by
  induction as generalizing s g with
  | nil => exact h
  | cons a as ih =>
    exact ih (hstep s g a ha.1 h) ha.2

/-- The rule for a law about single steps that follows from an invariant of the pair. -/
theorem observed_of_invariant {A : σ → α → Prop} {I : σ → γ → Prop} {B : σ × γ → α → Prop}
    (hstep : ∀ s g a, A s a → I s g → I (step s a) (note g s a))
    (hlaw : ∀ s g a, A s a → I s g → B (s, g) a) {s : σ} {g : γ} {as : List α}
    (h : I s g) (ha : Admitted step A s as) : Admitted (observe step note) B (s, g) as := by
  induction as generalizing s g with
  | nil => trivial
  | cons a as ih => exact ⟨hlaw s g a ha.1 h, ih (hstep s g a ha.1 h) ha.2⟩

end Observers

end ProxyFleet.ObservedRuns
