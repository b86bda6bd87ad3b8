import ProxyFleet.ExclusiveSections
import ProxyFleet.SettledSources
import ProxyFleet.UpstreamRefresh

/-!
# The operation lease of refreshes

The loop of the service and the requests of operators share one flag, which a caller takes before
it refreshes and gives back when it returns. A refresh reads its number and inserts its run in two
statements. Behind the flag the two act as one, and every run has a number of its own, larger than
the numbers before it.
-/
namespace ProxyFleet

variable {F : Type} [F64 F]

/-- Where a caller stands. -/
inductive RefreshStage where
  | outside
  | entered
  | numbered (generation : ℤ)
  | begun (runId : String) (generation : ℤ)
  deriving DecidableEq

structure RefreshGate (F : Type) where
  store : Store F
  inProgress : Bool := false
  stages : ℕ → RefreshStage := fun _ => .outside

/-- The steps of the callers, and the writes of a refresh and of everybody else. A refresh can
return from every stage. -/
inductive GateEvent (F : Type) where
  | request (caller : ℕ)
  | number (caller : ℕ)
  | insert (caller : ℕ) (now : Time) (runId : String) (sourceCount : ℕ)
  | returned (caller : ℕ)
  | write (w : Write F)

/-- The second statement of `begin_refresh`. -/
def Store.insertRun (s : Store F) (now : Time) (runId : String) (generation : ℤ)
    (sourceCount : ℕ) : Store F :=
  { s with refreshRuns := s.refreshRuns ++ [{
      id := runId
      generation := generation
      startedAt := now
      status := .running
      sourceCount := sourceCount }] }

def Store.generations (s : Store F) : List ℤ := s.refreshRuns.map (·.generation)

/-- Only the start of a run adds a number. -/
theorem generations_write (s : Store F) {w : Write F}
    (h : ∀ now runId sourceCount, w ≠ .beginRefresh now runId sourceCount) :
    (s.write w).generations = s.generations := by
  cases w with
  | beginRefresh now runId sourceCount => exact absurd rfl (h now runId sourceCount)
  | recordFinishedRun =>
    apply RowUpdates.map_updateWhere
    exact fun _ => rfl
  | ingestOne now proxy newId generation =>
    rw [Store.write]
    cases hingest : s.ingestOne now proxy newId generation with
    | error error => rfl
    | ok t => exact congrArg (List.map _) (Store.ingestOne_upstream hingest).2.2
  | copyCachedSourceGeneration sourceName generation =>
    exact congrArg (List.map _) (Store.copyCachedSourceGeneration_runs s sourceName generation)
  | recordSourceSuccess now name url etag lastModified =>
    exact congrArg (List.map _) (s.recordSourceSuccess_upstream now name url etag lastModified).2
  | recordSourceFailure name url =>
    exact congrArg (List.map _) (s.recordSourceFailure_upstream name url).2
  | _ => exact congrArg (List.map _) (s.upstream_write rfl).2.2

omit [F64 F] in
theorem nextGeneration_of_generations {s t : Store F} (h : t.generations = s.generations) :
    t.nextGeneration = s.nextGeneration := by
  rw [Store.nextGeneration, Store.nextGeneration]
  exact congrArg (fun numbers : List ℤ => numbers.max?.getD 0 + 1) h

namespace RefreshGate

variable (w : RefreshGate F)

def move (caller : ℕ) (stage : RefreshStage) : RefreshGate F :=
  { w with stages := Function.update w.stages caller stage }

/-- A step of a caller that does not stand where the step begins changes nothing. -/
def step (w : RefreshGate F) : GateEvent F → RefreshGate F
  | .request caller =>
    if w.stages caller = .outside ∧ w.inProgress = false then
      { w.move caller .entered with inProgress := true }
    else w
  | .number caller =>
    if w.stages caller = .entered then w.move caller (.numbered w.store.nextGeneration) else w
  | .insert caller now runId sourceCount =>
    match w.stages caller with
    | .numbered generation =>
      { w.move caller (.begun runId generation) with
        store := w.store.insertRun now runId generation sourceCount }
    | _ => w
  | .returned caller =>
    if w.stages caller = .outside then w
    else { w.move caller .outside with inProgress := false }
  | .write write => { w with store := w.store.write write }

/-- The other writes start no run. -/
def Admits (_ : RefreshGate F) : GateEvent F → Prop
  | .write write => ∀ now runId sourceCount, write ≠ .beginRefresh now runId sourceCount
  | _ => True

def Inside (caller : ℕ) : Prop := w.stages caller ≠ .outside

/-- What a caller knows of the numbers: the one that it read is still the next, and its run is the
newest. -/
def Current (store : Store F) : RefreshStage → Prop
  | .numbered generation => generation = store.nextGeneration
  | .begun _ generation => generation ∈ store.generations ∧ ∀ g ∈ store.generations, g ≤ generation
  | _ => True

structure Ordered (w : RefreshGate F) : Prop where
  guarded : Guarded (w.inProgress = true) w.Inside
  current : ∀ caller, Current w.store (w.stages caller)
  increasing : w.store.generations.Pairwise (· < ·)

variable {w}

omit [F64 F] in
theorem Current.congr {store store' : Store F} {stage : RefreshStage}
    (h : store'.generations = store.generations) (current : Current store stage) :
    Current store' stage := by
  cases stage with
  | outside | entered => trivial
  | numbered generation => exact current.trans (nextGeneration_of_generations h).symm
  | begun runId generation =>
    rw [Current, h]
    exact current

omit [F64 F] in
theorem inside_of_update {caller d : ℕ} {stage : RefreshStage}
    (h : Function.update w.stages caller stage d ≠ .outside) : d = caller ∨ w.Inside d := by
  by_cases hd : d = caller
  · exact .inl hd
  · rw [Function.update_of_ne hd] at h
    exact .inr h

namespace Ordered

omit [F64 F]

/-- A caller goes on, inside or out of the gate, and the others stand where they stood. -/
theorem moved (h : w.Ordered) {caller : ℕ} {stage : RefreshStage} {open' : Bool}
    (guarded : Guarded (open' = true) ({ w.move caller stage with inProgress := open' }).Inside)
    (current : Current w.store stage) :
    ({ w.move caller stage with inProgress := open' } : RefreshGate F).Ordered where
  guarded := guarded
  current := (Function.forall_update_iff w.stages fun _ => Current w.store).mpr
    ⟨current, fun other _ => h.current other⟩
  increasing := h.increasing

/-- Behind the flag the number that a caller read is still the next. -/
theorem insertRun_eq (h : w.Ordered) {caller : ℕ} {generation : ℤ}
    (numbered : w.stages caller = .numbered generation) (now : Time) (runId : String)
    (sourceCount : ℕ) : w.store.insertRun now runId generation sourceCount =
      w.store.beginRefresh now runId sourceCount := by
  have hcurrent := h.current caller
  rw [numbered] at hcurrent
  obtain rfl : generation = w.store.nextGeneration := hcurrent
  rfl

/-- The run of the caller inside is inserted behind all others. -/
theorem inserted (h : w.Ordered) {caller : ℕ} {generation : ℤ}
    (numbered : w.stages caller = .numbered generation) (now : Time) (runId : String)
    (sourceCount : ℕ) :
    ({ w.move caller (.begun runId generation) with
        store := w.store.insertRun now runId generation sourceCount } : RefreshGate F).Ordered := by
  have hinside : w.Inside caller := by
    rw [Inside, numbered]
    exact RefreshStage.noConfusion
  have hcurrent := h.current caller
  rw [numbered] at hcurrent
  obtain rfl : generation = w.store.nextGeneration := hcurrent
  have hlt : ∀ g ∈ w.store.generations, g < w.store.nextGeneration := fun g hg =>
    Store.generation_lt_next hg
  have hgenerations : (w.store.insertRun now runId w.store.nextGeneration sourceCount).generations =
      w.store.generations ++ [w.store.nextGeneration] := List.map_append
  refine ⟨h.guarded.mono id fun d hd => ?_, ?_, ?_⟩
  · obtain rfl | hin := inside_of_update hd
    · exact hinside
    · exact hin
  · refine (Function.forall_update_iff w.stages fun _ => Current _).mpr ⟨?_, fun other hne => ?_⟩
    · refine ⟨?_, fun g hg => ?_⟩
      · rw [hgenerations]
        exact List.mem_append_right _ (List.mem_singleton_self _)
      · rw [hgenerations, List.mem_append, List.mem_singleton] at hg
        obtain hold | rfl := hg
        · exact (hlt g hold).le
        · exact le_rfl
    · have hother : w.stages other = .outside := by
        by_contra hin
        exact hne (h.guarded.single other caller hin hinside)
      rw [hother]
      trivial
  · rw [hgenerations, List.pairwise_append]
    refine ⟨h.increasing, List.pairwise_singleton _ _, fun g hg next hnext => ?_⟩
    obtain rfl := List.mem_singleton.mp hnext
    exact hlt g hg

end Ordered

/-- Every step keeps the order. -/
theorem Ordered.step (h : w.Ordered) {event : GateEvent F} (admitted : w.Admits event) :
    (w.step event).Ordered := by
  cases event with
  | request caller =>
    rw [RefreshGate.step]
    split
    · next hfree =>
      have hentered : ∀ d, Function.update w.stages caller .entered d ≠ .outside →
          d = caller ∨ w.Inside d := fun d hd => inside_of_update hd
      exact h.moved (h.guarded.enter (by simp [hfree.2]) rfl hentered) trivial
    · exact h
  | number caller =>
    rw [RefreshGate.step]
    split
    · next hentered =>
      refine h.moved (h.guarded.mono id fun d hd => ?_) rfl
      obtain rfl | hin := inside_of_update hd
      · rw [Inside, hentered]
        exact RefreshStage.noConfusion
      · exact hin
    · exact h
  | insert caller now runId sourceCount =>
    rw [RefreshGate.step]
    split
    · next generation hnumbered => exact h.inserted hnumbered now runId sourceCount
    · exact h
  | returned caller =>
    rw [RefreshGate.step]
    split
    · exact h
    · next hinside =>
      refine h.moved (h.guarded.leave hinside fun d hd => ?_) trivial
      by_cases heq : d = caller
      · subst heq
        exact absurd (Function.update_self ..) hd
      · exact ⟨(inside_of_update hd).resolve_left heq, heq⟩
  | write write =>
    have hsame := generations_write w.store admitted
    refine ⟨h.guarded, fun caller => (h.current caller).congr hsame, ?_⟩
    · show (w.store.write write).generations.Pairwise (· < ·)
      rw [hsame]
      exact h.increasing

/-- However requests, statements, failures and other writes interleave: at most one caller
refreshes, its two statements act as one start of a run, a run that goes on is the newest, and the
numbers of the runs increase strictly. -/
theorem refreshes_in_turn {store : Store F} (increasing : store.generations.Pairwise (· < ·))
    {events : List (GateEvent F)}
    (admitted : ObservedRuns.Admitted step Admits { store := store } events) {w : RefreshGate F}
    (after : ObservedRuns.run step { store := store } events = w) :
    (∀ c d, w.Inside c → w.Inside d → c = d) ∧
    (∀ c generation, w.stages c = .numbered generation → ∀ now runId sourceCount,
      (w.step (.insert c now runId sourceCount)).store =
        w.store.write (.beginRefresh now runId sourceCount)) ∧
    (∀ c runId generation, w.stages c = .begun runId generation →
      generation ∈ w.store.generations ∧ ∀ g ∈ w.store.generations, g ≤ generation) ∧
    w.store.generations.Pairwise (· < ·) := by
  have hidle : Ordered ({ store := store } : RefreshGate F) :=
    ⟨.of_empty fun _ h => h rfl, fun _ => trivial, increasing⟩
  have h : w.Ordered := by
    rw [← after]
    exact ObservedRuns.run_invariant (fun _ _ hadmits h => h.step hadmits) hidle admitted
  refine ⟨h.guarded.single, fun c generation hnumbered now runId sourceCount => ?_,
    fun c runId generation hbegun => ?_, h.increasing⟩
  · rw [step, hnumbered]
    exact h.insertRun_eq hnumbered now runId sourceCount
  · have hcurrent := h.current c
    rw [hbegun] at hcurrent
    exact hcurrent

/-- An operator asks for a refresh while the loop is inside, and again once the loop has failed. -/
def overlappingRequests : List (GateEvent ℚ) := [
  .request 0, .number 0, .request 1, .insert 0 1 "first" 2, .write (.cleanupRetired 2),
  .returned 0, .request 1, .number 1, .insert 1 3 "second" 2]

theorem refreshes_in_turn_overlapping :
    (ObservedRuns.run step { store := (Store.empty : Store ℚ) } overlappingRequests).stages 1 =
      .begun "second" 2 ∧
    ∀ g ∈ (ObservedRuns.run step { store := (Store.empty : Store ℚ) }
      overlappingRequests).store.generations, g ≤ 2 := by
  have hadmitted : ObservedRuns.Admitted step Admits { store := (Store.empty : Store ℚ) }
      overlappingRequests :=
    ⟨trivial, trivial, trivial, trivial, fun _ _ _ => by simp, trivial, trivial,
      trivial, trivial, trivial⟩
  obtain ⟨-, -, hnewest, -⟩ := refreshes_in_turn List.Pairwise.nil hadmitted rfl
  exact ⟨by decide, (hnewest 1 "second" 2 (by decide)).2⟩

end RefreshGate

end ProxyFleet
