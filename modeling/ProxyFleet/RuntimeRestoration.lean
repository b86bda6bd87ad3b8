import ProxyFleet.ReaderQueries
import ProxyFleet.RuntimePorts

/-!
# Restored runtimes

Before it serves requests, a new process starts a runtime for each active node, best score first,
until the cap is reached. No other call is in progress then, so each `ensure` runs from its first
step to its last.
-/
namespace ProxyFleet

open ObservedRuns

variable {F : Type}

/-- What the parser, the start of Xray and the database answer to one `ensure`. -/
structure EnsureView where
  parsed : Except String Unit
  started : Except String ℕ
  stored : Except String Unit

/-- The call gets as far as a running process. -/
def EnsureView.starts (view : EnsureView) : Bool := view.parsed.isOk && view.started.isOk

def EnsureView.stores (view : EnsureView) : Bool := view.stored.isOk

/-- The text by which the cap is recognised. -/
def capText : String := "persistent Xray runtime cap"

def capError (maxActiveRuntimes : ℕ) : String :=
  capText ++ " (" ++ toString maxActiveRuntimes ++ ") reached"

/-- `error.to_string().contains(…)`. -/
def saysCap (error : String) : Bool := decide (capText.toList <:+: error.toList)

/-- No other error reads like the one of the cap. -/
def EnsureView.Plain (view : EnsureView) : Prop :=
  ∀ error, view.parsed = .error error ∨ view.started = .error error ∨ view.stored = .error error →
    saysCap error = false

theorem saysCap_capError (maxActiveRuntimes : ℕ) : saysCap (capError maxActiveRuntimes) = true := by
  rw [saysCap, decide_eq_true_eq, capError, String.toList_append, String.toList_append,
    String.toList_append, List.append_assoc, List.append_assoc]
  exact (List.prefix_append _ _).isInfix

namespace RuntimeSystem

variable {maxActiveRuntimes : ℕ} {s : RuntimeSystem F}

/-- `ensure` while no other call is in progress. -/
def ensure (maxActiveRuntimes : ℕ) (view : EnsureView) (node : String) (s : RuntimeSystem F) :
    RuntimeSystem F × Except String ℕ :=
  match s.portFor node with
  | some port => (s, .ok port)
  | none =>
    match view.parsed with
    | .error error => (s, .error error)
    | .ok () =>
      if node ∈ s.starting then
        (s, .error ("runtime startup already in progress for " ++ node))
      else if maxActiveRuntimes ≤ s.inner.keys.length + s.starting.card then
        (s, .error (capError maxActiveRuntimes))
      else
        match view.started with
        | .error error => (s, .error error)
        | .ok port =>
          let inserted := { s with inner := s.inner.insert node port }
          match view.stored with
          | .error error => (inserted, .error error)
          | .ok () => ({ inserted with store := s.store.setMainPort node port }, .ok port)

/-- The steps of a call, each of which does nothing if the call has taken another way. -/
def ensureSteps (view : EnsureView) (node : String) (c : ℕ) : List RuntimeEvent :=
  [.ensure node view.parsed.isOk, .reserve c, .count c, .checkCap c, .start c view.started.toOption,
    .release c, .insert c, .discard c, .setPort c view.stored.isOk]

theorem modify_last (calls : List RuntimeCall) (call : RuntimeCall)
    (f : RuntimeCall → RuntimeCall) :
    (calls ++ [call]).modify calls.length f = calls ++ [f call] := by
  induction calls with
  | nil => rfl
  | cons other calls ih => simp [ih]

/-- A call that runs alone is admitted in three steps, unless its node or the cap forbids it. -/
theorem run_reserved (hfree : s.startingLock = none) (node : String) :
    run (step maxActiveRuntimes) (s.begin node .reserving)
        [.reserve s.calls.length, .count s.calls.length, .checkCap s.calls.length] =
      if node ∈ s.starting ∨ maxActiveRuntimes ≤ s.inner.keys.length + s.starting.card then
        s.begin node (.returned none)
      else { s with starting := insert node s.starting }.begin node .startingUp := by
  obtain ⟨inner, starting, lock, calls, store⟩ := s
  obtain rfl : lock = none := hfree
  by_cases hstarting : node ∈ starting
  · simp [step, begin, setPhase, modify_last, hstarting]
  · by_cases hcap : maxActiveRuntimes ≤ inner.keys.length + starting.card
    · simp [step, begin, setPhase, modify_last, hstarting, hcap]
    · simp [step, begin, setPhase, modify_last, hstarting, hcap]

/-- An admitted call that runs alone puts its process into the map and its port into the store. -/
theorem run_started (hfree : s.startingLock = none) {node : String} (hnode : node ∉ s.starting)
    (absent : s.portFor node = none) (started : Option ℕ) (stored : Bool) :
    run (step maxActiveRuntimes)
        ({ s with starting := insert node s.starting }.begin node .startingUp)
        [.start s.calls.length started, .release s.calls.length, .insert s.calls.length,
          .discard s.calls.length, .setPort s.calls.length stored] =
      match started with
      | none => s.begin node (.returned none)
      | some port =>
        if stored then
          { s with
            inner := s.inner.insert node port
            store := s.store.setMainPort node port }.begin node (.returned (some port))
        else { s with inner := s.inner.insert node port }.begin node (.returned none) := by
  obtain ⟨inner, starting, lock, calls, store⟩ := s
  obtain rfl : lock = none := hfree
  have habsent : inner.lookup node = none := absent
  have herase : (insert node starting).erase node = starting := Finset.erase_insert hnode
  cases started with
  | none => simp [step, begin, setPhase, modify_last, herase]
  | some port => cases stored <;> simp [step, begin, setPhase, modify_last, herase, habsent]

/-- The remaining steps of a call that has returned do nothing. -/
theorem run_returned (node : String) (result started : Option ℕ) (stored : Bool) :
    run (step maxActiveRuntimes) (s.begin node (.returned result))
        [.start s.calls.length started, .release s.calls.length, .insert s.calls.length,
          .discard s.calls.length, .setPort s.calls.length stored] =
      s.begin node (.returned result) := by
  simp [step, begin]

/-- A call that runs alone is the run of its steps. -/
theorem run_ensureSteps (maxActiveRuntimes : ℕ) (hfree : s.startingLock = none)
    (view : EnsureView) (node : String) :
    run (step maxActiveRuntimes) s (ensureSteps view node s.calls.length) =
      (ensure maxActiveRuntimes view node s).1.begin node
        (.returned (ensure maxActiveRuntimes view node s).2.toOption) := by
  have hsteps : ensureSteps view node s.calls.length =
      [.ensure node view.parsed.isOk] ++ [.reserve s.calls.length, .count s.calls.length,
        .checkCap s.calls.length] ++ [.start s.calls.length view.started.toOption,
        .release s.calls.length, .insert s.calls.length, .discard s.calls.length,
        .setPort s.calls.length view.stored.isOk] := rfl
  have hreserve (result : Option ℕ) : run (step maxActiveRuntimes) (s.begin node (.returned result))
      [.reserve s.calls.length, .count s.calls.length, .checkCap s.calls.length] =
        s.begin node (.returned result) := by
    simp [step, begin]
  rw [hsteps, run_append, run_append]
  cases hport : s.portFor node with
  | some port =>
    have hbegan : run (step maxActiveRuntimes) s [.ensure node view.parsed.isOk] =
        s.begin node (.returned (some port)) := by
      simp only [run_cons, run_nil, step, hport]
    rw [hbegan, hreserve, run_returned]
    simp [ensure, hport, Except.toOption]
  | none =>
    have hbegan : run (step maxActiveRuntimes) s [.ensure node view.parsed.isOk] =
        s.begin node (if view.parsed.isOk then .reserving else .returned none) := by
      simp only [run_cons, run_nil, step, hport]
    rw [hbegan]
    cases hparsed : view.parsed with
    | error error =>
      simp only [Except.isOk, Except.toBool, Bool.false_eq_true, if_false]
      rw [hreserve, run_returned]
      simp [ensure, hport, hparsed, Except.toOption]
    | ok _ =>
      simp only [Except.isOk, Except.toBool, if_true]
      rw [run_reserved hfree]
      split
      · next hrefused =>
        rw [run_returned]
        by_cases hstarting : node ∈ s.starting
        · simp [ensure, hport, hparsed, hstarting, Except.toOption]
        · have hcap := hrefused.resolve_left hstarting
          simp [ensure, hport, hparsed, hstarting, hcap, Except.toOption]
      · next hadmitted =>
        obtain ⟨hstarting, hcap⟩ := not_or.mp hadmitted
        rw [run_started hfree hstarting hport]
        cases hstarted : view.started with
        | error error => simp [ensure, hport, hparsed, hstarting, hcap, hstarted, Except.toOption]
        | ok port =>
          cases hstored : view.stored <;>
            simp [ensure, hport, hparsed, hstarting, hcap, hstarted, hstored, Except.toOption]

/-- The loop over the candidates, with the system and both counts as its accumulators. -/
def reconcileLoop (maxActiveRuntimes : ℕ) (view : RuntimeCandidate → EnsureView) (total : ℕ) :
    List RuntimeCandidate → RuntimeSystem F × ℕ × ℕ → RuntimeSystem F × ℕ × ℕ
  | [], done => done
  | candidate :: rest, (s, started, failed) =>
    match ensure maxActiveRuntimes (view candidate) candidate.id s with
    | (s', .ok _) => reconcileLoop maxActiveRuntimes view total rest (s', started + 1, failed)
    | (s', .error error) =>
      -- The cap is one deferral for all that remain.
      if saysCap error then (s', started, total - started)
      else reconcileLoop maxActiveRuntimes view total rest (s', started, failed + 1)

/-- `reconcile_active_runtimes`, with the time of its query. -/
def reconcileActiveRuntimes [F64 F] (maxActiveRuntimes : ℕ) (view : RuntimeCandidate → EnsureView)
    (queried : Except String Time) (s : RuntimeSystem F) : RuntimeSystem F × ℕ × ℕ :=
  match queried with
  | .error _ => (s, 0, 0)
  | .ok now =>
    let candidates := s.store.activeRuntimeCandidates now
    reconcileLoop maxActiveRuntimes view candidates.length candidates (s, 0, 0)

/-- The candidates that get a runtime: the first that can start, as far as there is room. -/
def restorable (view : RuntimeCandidate → EnsureView) (room : ℕ)
    (candidates : List RuntimeCandidate) : List RuntimeCandidate :=
  (candidates.filter fun candidate => (view candidate).starts).take room

/-- What a loop leaves behind that began in the system `s`. -/
structure Restored (view : RuntimeCandidate → EnsureView) (s : RuntimeSystem F)
    (restored : List RuntimeCandidate) (s' : RuntimeSystem F) : Prop where
  lookup : ∀ node port, s'.inner.lookup node = some port ↔ s.inner.lookup node = some port ∨
    ∃ candidate ∈ restored, candidate.id = node ∧ (view candidate).started = .ok port
  stored : ∀ candidate ∈ restored, ∀ port, (view candidate).started = .ok port →
    (view candidate).stored = .ok () → s'.store.PortStored candidate.id port
  kept : ∀ node port, (∀ candidate ∈ restored, candidate.id ≠ node) →
    s.store.PortStored node port → s'.store.PortStored node port

section Loop

variable {view : RuntimeCandidate → EnsureView}

/-- How an `ensure` ends that runs alone for a node without a runtime. -/
theorem ensure_cases (maxActiveRuntimes : ℕ) (view : RuntimeCandidate → EnsureView)
    {candidate : RuntimeCandidate} (hstarting : s.starting = ∅)
    (absent : s.inner.lookup candidate.id = none) :
    ((view candidate).starts = false ∧ ∃ error,
      ensure maxActiveRuntimes (view candidate) candidate.id s = (s, .error error) ∧
        ((view candidate).parsed = .error error ∨ (view candidate).started = .error error)) ∨
    (maxActiveRuntimes ≤ s.inner.keys.length ∧
      ensure maxActiveRuntimes (view candidate) candidate.id s =
        (s, .error (capError maxActiveRuntimes))) ∨
    s.inner.keys.length < maxActiveRuntimes ∧ ∃ port, (view candidate).started = .ok port ∧
      (view candidate).starts = true ∧
      ((∃ error, (view candidate).stored = .error error ∧
        ensure maxActiveRuntimes (view candidate) candidate.id s =
          ({ s with inner := s.inner.insert candidate.id port }, .error error)) ∨
      (view candidate).stored = .ok () ∧
        ensure maxActiveRuntimes (view candidate) candidate.id s =
          ({ s with
            inner := s.inner.insert candidate.id port
            store := s.store.setMainPort candidate.id port }, .ok port)) := by
  have hport : s.portFor candidate.id = none := absent
  have hnode : candidate.id ∉ s.starting := by simp [hstarting]
  cases hparsed : (view candidate).parsed with
  | error error =>
    refine .inl ⟨by simp [EnsureView.starts, hparsed, Except.isOk, Except.toBool], error, ?_,
      .inl rfl⟩
    simp [ensure, hport, hparsed]
  | ok _ =>
    by_cases hcap : maxActiveRuntimes ≤ s.inner.keys.length
    · refine .inr (.inl ⟨hcap, ?_⟩)
      simp [ensure, hport, hparsed, hstarting, hcap]
    · cases hstarted : (view candidate).started with
      | error error =>
        refine .inl ⟨by simp [EnsureView.starts, hparsed, hstarted, Except.isOk, Except.toBool],
          error, ?_, .inr rfl⟩
        simp [ensure, hport, hparsed, hstarting, hcap, hstarted]
      | ok port =>
        refine .inr (.inr ⟨not_le.mp hcap, port, rfl, ?_, ?_⟩)
        · simp [EnsureView.starts, hparsed, hstarted, Except.isOk, Except.toBool]
        · cases hstored : (view candidate).stored with
          | error error =>
            refine .inl ⟨error, rfl, ?_⟩
            simp [ensure, hport, hparsed, hstarting, hcap, hstarted, hstored]
          | ok _ =>
            refine .inr ⟨rfl, ?_⟩
            simp [ensure, hport, hparsed, hstarting, hcap, hstarted, hstored]

theorem reconcileLoop_total (maxActiveRuntimes : ℕ) (view : RuntimeCandidate → EnsureView)
    {total : ℕ} (rest : List RuntimeCandidate) (s : RuntimeSystem F)
    (started failed : ℕ) (h : started + failed + rest.length = total) :
    (reconcileLoop maxActiveRuntimes view total rest (s, started, failed)).2.1 +
      (reconcileLoop maxActiveRuntimes view total rest (s, started, failed)).2.2 = total := by
  induction rest generalizing s started failed with
  | nil => simpa [reconcileLoop] using h
  | cons candidate rest ih =>
    rw [List.length_cons] at h
    simp only [reconcileLoop]
    split
    · exact ih _ _ _ (by omega)
    · split
      · have hle : started ≤ total := by omega
        exact Nat.add_sub_cancel' hle
      · exact ih _ _ _ (by omega)

theorem restored_nil : Restored view s [] s where
  lookup node port := by simp
  stored candidate hmem := by cases hmem
  kept _ _ _ h := h

/-- A runtime in front of those that the rest of a loop restores. -/
theorem Restored.cons {candidate : RuntimeCandidate} {restored : List RuntimeCandidate} {port : ℕ}
    {store : Store F} {s' : RuntimeSystem F}
    (h : Restored view { s with inner := s.inner.insert candidate.id port, store := store }
      restored s')
    (absent : s.inner.lookup candidate.id = none) (hport : (view candidate).started = .ok port)
    (hstored : (view candidate).stored = .ok () → store = s.store.setMainPort candidate.id port)
    (hother : ∀ node current, candidate.id ≠ node → s.store.PortStored node current →
      store.PortStored node current)
    (hdistinct : ∀ other ∈ restored, other.id ≠ candidate.id) :
    Restored view s (candidate :: restored) s' where
  lookup := by
    intro node current
    rw [h.lookup]
    by_cases hnode : node = candidate.id
    · subst hnode
      have hcurrent : port = current ↔ (view candidate).started = .ok current := by
        rw [hport, Except.ok.injEq]
      simp [AList.lookup_insert, absent, hcurrent]
    · simp [AList.lookup_insert_ne hnode, Ne.symm hnode]
  stored := by
    intro other hmem current hcurrent hok
    rcases List.mem_cons.mp hmem with rfl | hmem
    · obtain rfl : port = current := Except.ok.inj (hport.symm.trans hcurrent)
      apply h.kept _ _ hdistinct
      rw [hstored hok]
      exact Store.portStored_setMainPort
    · exact h.stored other hmem current hcurrent hok
  kept := by
    intro node current hne hbefore
    apply h.kept node current fun other hmem => hne other (List.mem_cons_of_mem _ hmem)
    exact hother node current (hne candidate List.mem_cons_self) hbefore

theorem length_keys_insert {node : String} {port : ℕ} (absent : s.inner.lookup node = none) :
    (s.inner.insert node port).keys.length = s.inner.keys.length + 1 := by
  have hnode : node ∉ s.inner.keys := AList.lookup_eq_none.mp absent
  rw [AList.keys_insert, List.length_cons, List.erase_of_not_mem hnode]

theorem restorable_cons {candidate : RuntimeCandidate} {rest : List RuntimeCandidate} {room : ℕ} :
    restorable view (room + 1) (candidate :: rest) =
      if (view candidate).starts then candidate :: restorable view room rest
      else restorable view (room + 1) rest := by
  cases hstarts : (view candidate).starts <;> simp [restorable, hstarts]

theorem mem_of_mem_restorable {room : ℕ} {rest : List RuntimeCandidate}
    {candidate : RuntimeCandidate} (h : candidate ∈ restorable view room rest) :
    candidate ∈ rest :=
  List.mem_of_mem_filter (List.mem_of_mem_take h)

/-- A loop restores the first candidates that can start, as far as the cap leaves room. -/
theorem reconcileLoop_restores (maxActiveRuntimes total : ℕ)
    (plain : ∀ candidate, (view candidate).Plain) (rest : List RuntimeCandidate)
    (s : RuntimeSystem F) (started failed : ℕ)
    (hstarting : s.starting = ∅) (distinct : (rest.map (·.id)).Nodup)
    (absent : ∀ candidate ∈ rest, s.inner.lookup candidate.id = none) :
    let room := maxActiveRuntimes - s.inner.keys.length
    let r := reconcileLoop maxActiveRuntimes view total rest (s, started, failed)
    Restored view s (restorable view room rest) r.1 ∧
      r.2.1 = started + (restorable view room rest).countP fun c => (view c).stores := by
  induction rest generalizing s started failed with
  | nil => simpa [reconcileLoop, restorable] using restored_nil
  | cons candidate rest ih =>
    rw [List.map_cons, List.nodup_cons] at distinct
    have habsent := absent candidate List.mem_cons_self
    have hrest : ∀ other ∈ rest, s.inner.lookup other.id = none :=
      fun other hmem => absent other (List.mem_cons_of_mem _ hmem)
    rcases ensure_cases maxActiveRuntimes view hstarting habsent with
      ⟨hstarts, error, hensure, herror⟩ | ⟨hcap, hensure⟩ | ⟨hroom, port, hport, hstarts, hend⟩
    · -- The candidate cannot start, and the loop goes on.
      have hplain : saysCap error = false :=
        plain candidate error (herror.imp_right Or.inl)
      have hsame : restorable view (maxActiveRuntimes - s.inner.keys.length) (candidate :: rest) =
          restorable view (maxActiveRuntimes - s.inner.keys.length) rest := by
        simp [restorable, hstarts]
      simp only [reconcileLoop, hensure, hplain, Bool.false_eq_true, if_false]
      rw [hsame]
      exact ih s started (failed + 1) hstarting distinct.2 hrest
    · -- There is no room, and the loop ends.
      simp only [reconcileLoop, hensure, saysCap_capError, if_true, Nat.sub_eq_zero_of_le hcap,
        restorable, List.take_zero, List.countP_nil, add_zero, and_true]
      exact restored_nil
    · -- The candidate takes a place, whether its port is stored or not.
      obtain ⟨room, hlength⟩ : ∃ room, maxActiveRuntimes - s.inner.keys.length = room + 1 :=
        Nat.exists_eq_succ_of_ne_zero (Nat.sub_ne_zero_of_lt hroom)
      have hnext : maxActiveRuntimes - (s.inner.insert candidate.id port).keys.length = room := by
        rw [length_keys_insert habsent]
        omega
      have hdistinct : ∀ other ∈ restorable view room rest, other.id ≠ candidate.id := by
        intro other hmem heq
        exact distinct.1 (heq ▸ List.mem_map_of_mem (mem_of_mem_restorable hmem))
      have hlater : ∀ other ∈ rest, (s.inner.insert candidate.id port).lookup other.id = none := by
        intro other hmem
        have hne : other.id ≠ candidate.id :=
          fun heq => distinct.1 (heq ▸ List.mem_map_of_mem hmem)
        rw [AList.lookup_insert_ne hne]
        exact hrest other hmem
      simp only [hlength, restorable_cons, hstarts, if_true]
      rcases hend with ⟨error, hstored, hensure⟩ | ⟨hstored, hensure⟩
      · have hplain : saysCap error = false := plain candidate error (.inr (.inr hstored))
        have hloop := ih { s with inner := s.inner.insert candidate.id port } started (failed + 1)
          hstarting distinct.2 hlater
        simp only [hnext] at hloop
        simp only [reconcileLoop, hensure, hplain, Bool.false_eq_true, if_false]
        refine ⟨hloop.1.cons habsent hport (fun hok => ?_) (fun _ _ _ h => h) hdistinct, ?_⟩
        · rw [hstored] at hok
          cases hok
        · have hstores : (view candidate).stores = false := by
            simp [EnsureView.stores, hstored, Except.isOk, Except.toBool]
          rw [hloop.2, List.countP_cons, hstores]
          simp
      · have hloop := ih { s with
          inner := s.inner.insert candidate.id port
          store := s.store.setMainPort candidate.id port } (started + 1) failed hstarting
          distinct.2 hlater
        simp only [hnext] at hloop
        simp only [reconcileLoop, hensure]
        refine ⟨hloop.1.cons habsent hport (fun _ => rfl) (fun node current hne h => ?_) hdistinct,
          ?_⟩
        · exact h.updateNodes_other (Ne.symm hne) fun _ => rfl
        · have hstores : (view candidate).stores = true := by
            simp [EnsureView.stores, hstored, Except.isOk, Except.toBool]
          rw [hloop.2, List.countP_cons, hstores, if_pos rfl]
          omega

/-- The calls that have ended have no part in a call that runs alone. -/
theorem ensure_calls (maxActiveRuntimes : ℕ) (view : EnsureView) (node : String)
    (calls : List RuntimeCall) :
    ensure maxActiveRuntimes view node { s with calls := calls } =
      ({ (ensure maxActiveRuntimes view node s).1 with calls := calls },
        (ensure maxActiveRuntimes view node s).2) := by
  simp only [ensure, portFor]
  repeat' split
  all_goals rfl

theorem ensure_startingLock (maxActiveRuntimes : ℕ) (view : EnsureView) (node : String) :
    (ensure maxActiveRuntimes view node s).1.startingLock = s.startingLock := by
  simp only [ensure]
  repeat' split
  all_goals rfl

/-- The loop is a run of the steps of its calls. -/
theorem reconcileLoop_run (maxActiveRuntimes : ℕ) (view : RuntimeCandidate → EnsureView)
    (total : ℕ) (rest : List RuntimeCandidate) (s : RuntimeSystem F) (started failed : ℕ)
    (hfree : s.startingLock = none) (calls : List RuntimeCall) :
    ∃ steps calls', run (step maxActiveRuntimes) { s with calls := calls } steps =
      { (reconcileLoop maxActiveRuntimes view total rest (s, started, failed)).1 with
        calls := calls' } := by
  induction rest generalizing s started failed calls with
  | nil => exact ⟨[], calls, rfl⟩
  | cons candidate rest ih =>
    obtain ⟨calls', hcall⟩ : ∃ calls', run (step maxActiveRuntimes) { s with calls := calls }
        (ensureSteps (view candidate) candidate.id calls.length) =
        { (ensure maxActiveRuntimes (view candidate) candidate.id s).1 with calls := calls' } := by
      have halone := run_ensureSteps (s := { s with calls := calls }) maxActiveRuntimes hfree
        (view candidate) candidate.id
      rw [ensure_calls] at halone
      exact ⟨_, halone⟩
    have hfree' :
        (ensure maxActiveRuntimes (view candidate) candidate.id s).1.startingLock = none :=
      (ensure_startingLock ..).trans hfree
    simp only [reconcileLoop]
    split
    · next s' port hensure =>
      rw [hensure] at hcall hfree'
      obtain ⟨steps, calls'', hrun⟩ := ih s' (started + 1) failed hfree' calls'
      refine ⟨ensureSteps (view candidate) candidate.id calls.length ++ steps, calls'', ?_⟩
      rw [run_append, hcall, hrun]
    · next s' error hensure =>
      rw [hensure] at hcall hfree'
      split
      · exact ⟨_, calls', hcall⟩
      · obtain ⟨steps, calls'', hrun⟩ := ih s' started (failed + 1) hfree' calls'
        refine ⟨ensureSteps (view candidate) candidate.id calls.length ++ steps, calls'', ?_⟩
        rw [run_append, hcall, hrun]

end Loop

/-- A new process restores the best of its active nodes that can start, as many as the cap allows,
whatever fails on the way. It counts those whose port it has stored, its counts add up to all
candidates, and all that it does is a run of the steps of its calls. -/
theorem runtimes_restored [F64 F] (maxActiveRuntimes : ℕ) (view : RuntimeCandidate → EnsureView)
    (plain : ∀ candidate, (view candidate).Plain) (store : Store F) (keyed : store.WellKeyed)
    (now : Time) :
    let best := restorable view maxActiveRuntimes (store.activeRuntimeCandidates now)
    let r := reconcileActiveRuntimes maxActiveRuntimes view (.ok now) (initial store)
    Restored view (initial store) best r.1 ∧
      r.2.1 = (best.countP fun candidate => (view candidate).stores) ∧
      r.2.1 + r.2.2 = (store.activeRuntimeCandidates now).length ∧
      ∃ steps calls, run (step maxActiveRuntimes) (initial store) steps =
        { r.1 with calls := calls } := by
  have distinct : ((store.activeRuntimeCandidates now).map (·.id)).Nodup := by
    rw [Store.activeRuntimeCandidates, List.map_map]
    apply ((List.perm_insertionSort _ _).map _).nodup_iff.mpr
    exact keyed.ids.sublist (List.filter_sublist.map _)
  have hloop := reconcileLoop_restores maxActiveRuntimes
    (store.activeRuntimeCandidates now).length plain (store.activeRuntimeCandidates now)
    (initial store) 0 0 rfl distinct (fun _ _ => rfl)
  have htotal := reconcileLoop_total maxActiveRuntimes view (store.activeRuntimeCandidates now)
    (initial store) 0 0 (Nat.zero_add _)
  exact ⟨hloop.1, hloop.2.trans (Nat.zero_add _), htotal,
    reconcileLoop_run maxActiveRuntimes view _ _ (initial store) 0 0 rfl []⟩

end RuntimeSystem

section Examples

/-- Three active nodes, best score first. -/
def threeActive : Store ℚ where
  nodes := [("a", 3), ("b", 2), ("c", 1)].map fun (id, score) => {
    id := id, configHash := id, rawConfig := [], sourceSubs := []
    lifecycleState := .active, publicationLeaseUntil := some 100
    healthAlpha := 1, healthBeta := 1, healthScore := score / 4, createdAt := 0 }

/-- The first node finds no port. -/
def firstFails (candidate : RuntimeCandidate) : EnsureView where
  parsed := .ok ()
  started := if candidate.id = "a" then .error "no free port" else .ok 30000
  stored := .ok ()

theorem firstFails_plain (candidate : RuntimeCandidate) : (firstFails candidate).Plain := by
  intro error herror
  simp only [firstFails] at herror
  rcases herror with h | h | h
  · cases h
  · split at h
    · obtain rfl := Except.error.inj h
      decide +kernel
    · cases h
  · cases h

theorem runtimes_restored_capped :
    let best := RuntimeSystem.restorable firstFails 1 (threeActive.activeRuntimeCandidates 0)
    let r := RuntimeSystem.reconcileActiveRuntimes 1 firstFails (.ok 0) (.initial threeActive)
    best.map (·.id) = ["b"] ∧ r.2 = (1, 2) ∧
      RuntimeSystem.Restored firstFails (.initial threeActive) best r.1 := by
  have hrestored := RuntimeSystem.runtimes_restored 1 firstFails firstFails_plain threeActive
    ⟨by decide, by decide⟩ 0
  exact ⟨by decide +kernel, by decide +kernel, hrestored.1⟩

end Examples

end ProxyFleet
