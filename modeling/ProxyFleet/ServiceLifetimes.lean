import ProxyFleet.ClientSelection
import ProxyFleet.RuntimePorts

/-!
# Lifetimes of the service

The ports in the database outlive the process whose runtimes listen at them. A new process clears
them before it starts a runtime, so a port that is handed to a client belongs to a runtime of the
process that hands it out, wherever the earlier ones have stopped.
-/
namespace ProxyFleet

open ObservedRuns

variable {F : Type}

/-- The events of the manager that the service brings about. Nothing calls `stop`, and a port has
sixteen bits. -/
def RuntimeEvent.ofService : RuntimeEvent → Bool
  | .stop _ | .clearPort _ _ => false
  | .start _ (some port) => decide (port < 2 ^ 16)
  | _ => true

/-- The columns of the ports belong to the manager. -/
def Write.setsPort : Write F → Bool
  | .setMainPort _ _ | .clearMainPort _ | .clearStaleRuntimePorts => true
  | _ => false

/-- How far `main` is. Background services and requests write from `serving` on, and the services
that still run until `stopping`. -/
inductive ServicePhase where
  | down
  | opening
  | restoring
  | serving
  | draining
  | stopping (uncleared : List String)
  deriving DecidableEq

/-- A process, and the database that outlives it. -/
structure ServiceProcess (F : Type) where
  phase : ServicePhase
  system : RuntimeSystem F

inductive LifeEvent (F : Type) where
  | launch
  | migrated (store : Store F)
  | clearStalePorts (succeeds : Bool)
  | manager (event : RuntimeEvent)
  | listen (bound : Bool)
  | write (w : Write F)
  | drain
  | shutdown
  | clearPort (succeeds : Bool)
  | crash

/-- The runtimes end with the event. -/
def LifeEvent.ends : LifeEvent F → Bool
  | .shutdown | .crash => true
  | _ => false

namespace ServiceProcess

/-- The runtimes of the process are in use. -/
def running (p : ServiceProcess F) : Bool :=
  match p.phase with
  | .restoring | .serving | .draining => true
  | .down | .opening | .stopping _ => false

/-- Requests are answered, from the first one to the last that is drained. -/
def Answers (p : ServiceProcess F) : Prop := p.phase = .serving ∨ p.phase = .draining

instance (p : ServiceProcess F) : Decidable p.Answers :=
  inferInstanceAs (Decidable (p.phase = .serving ∨ p.phase = .draining))

/-- What is left of a process that ends. -/
def halted (p : ServiceProcess F) : ServiceProcess F where
  phase := .down
  system := .initial p.system.store

def setStore (p : ServiceProcess F) (store : Store F) : ServiceProcess F :=
  { p with system := { p.system with store := store } }

variable [F64 F]

/-- One step of a process. The migrations may leave any database. -/
def step (maxActiveRuntimes : ℕ) (p : ServiceProcess F) : LifeEvent F → ServiceProcess F
  | .launch =>
    match p.phase with
    | .down => { p with phase := .opening }
    | _ => p
  | .migrated store =>
    match p.phase with
    | .opening => p.setStore store
    | _ => p
  | .clearStalePorts succeeds =>
    match p.phase with
    | .opening =>
      if succeeds then
        { p.setStore p.system.store.clearStaleRuntimePorts with phase := .restoring }
      else p.halted
    | _ => p
  | .manager event =>
    if p.running && event.ofService then
      { p with system := p.system.step maxActiveRuntimes event }
    else p
  | .listen bound =>
    match p.phase with
    | .restoring => if bound then { p with phase := .serving } else p.halted
    | _ => p
  | .write w =>
    if p.running && !w.setsPort then p.setStore (p.system.store.write w) else p
  | .drain =>
    match p.phase with
    | .serving => { p with phase := .draining }
    | _ => p
  | .shutdown =>
    match p.phase with
    | .draining =>
      { phase := .stopping p.system.inner.keys
        system := { p.system with inner := ∅ } }
    | _ => p
  | .clearPort succeeds =>
    match p.phase with
    | .stopping (node :: rest) =>
      { p.setStore (if succeeds then p.system.store.clearMainPort node else p.system.store) with
        phase := .stopping rest }
    | .stopping [] => p.halted
    | _ => p
  | .crash => p.halted

end ServiceProcess

section Writes

variable {s s' s'' : Store F}

/-- A node serves a port only if it has served it before. -/
def Store.ServesNoMore (s s' : Store F) : Prop :=
  ∀ row' ∈ s'.nodes, ∀ port, row'.mainPort = some port →
    ∃ row ∈ s.nodes, row.id = row'.id ∧ row.mainPort = some port

namespace Store.ServesNoMore

theorem of_nodes_eq (h : s'.nodes = s.nodes) : s.ServesNoMore s' :=
  fun row hrow _ hport => ⟨row, h ▸ hrow, rfl, hport⟩

theorem trans (h : s.ServesNoMore s') (h' : s'.ServesNoMore s'') : s.ServesNoMore s'' := by
  intro row'' hrow'' port hport
  obtain ⟨row', hrow', hid', hport'⟩ := h' row'' hrow'' port hport
  obtain ⟨row, hrow, hid, hport⟩ := h row' hrow' port hport'
  exact ⟨row, hrow, hid.trans hid', hport⟩

/-- Rewritten rows keep their identity and their port. -/
theorem updateNodes {guard : Node F → Bool} {f : Node F → Node F}
    (hid : ∀ row, (f row).id = row.id) (hport : ∀ row, (f row).mainPort = row.mainPort) :
    s.ServesNoMore (s.updateNodes guard f) := by
  intro row' hrow' port hserved
  obtain ⟨row, hrow, ⟨-, rfl⟩ | ⟨-, rfl⟩⟩ := mem_updateNodes.mp hrow'
  · exact ⟨row, hrow, (hid row).symm, (hport row).symm.trans hserved⟩
  · exact ⟨row', hrow, rfl, hserved⟩

end Store.ServesNoMore

variable [F64 F]

/-- Only the manager gives ports to nodes. -/
theorem Store.servesNoMore_write (s : Store F) {w : Write F} (h : w.setsPort = false) :
    s.ServesNoMore (s.write w) := by
  cases w with
  | ingestOne now proxy newId generation =>
    simp only [write, ingestOne]
    split
    · rw [commit_ok]
      refine .trans ?_ (.of_nodes_eq (insertMember_nodes _ _))
      exact .updateNodes (fun _ => rfl) fun _ => rfl
    · split
      · exact .of_nodes_eq rfl
      · intro row hrow port hport
        rw [commit_ok, insertMember_nodes, List.mem_append, List.mem_singleton] at hrow
        rcases hrow with hrow | rfl
        · exact ⟨row, hrow, rfl, hport⟩
        · cases hport
  | applyTestEvent now event cadence draw =>
    rw [write_applyTestEvent]
    split
    · have hlog : s.ServesNoMore (s.recordTestEvent now event) := .of_nodes_eq rfl
      exact hlog.trans (.updateNodes (fun _ => rfl) fun _ => rfl)
    · exact .of_nodes_eq rfl
  | reconcile now generation minimum =>
    have hmissed :
        s.ServesNoMore (s.updateNodes (fun row => row.missedBy generation) Node.missed) :=
      .updateNodes (fun _ => rfl) fun _ => rfl
    exact hmissed.trans (.updateNodes (fun _ => rfl) fun _ => rfl)
  | copyCachedSourceGeneration sourceName generation =>
    simp only [write, copyCachedSourceGeneration]
    split
    · exact .of_nodes_eq rfl
    · exact .trans (.of_nodes_eq (foldl_insertMember_nodes _ _ s))
        (.updateNodes (fun _ => rfl) fun _ => rfl)
  | recordSourceSuccess now name url etag lastModified =>
    exact .of_nodes_eq (recordSourceSuccess_nodes s now name url etag lastModified)
  | recordSourceFailure name url => exact .of_nodes_eq (recordSourceFailure_nodes s name url)
  | reviveNode now id =>
    simp only [write, reviveNode]
    split
    · exact .updateNodes (fun _ => rfl) fun _ => rfl
    · exact .of_nodes_eq rfl
  | scheduleManualTest now id =>
    simp only [write, scheduleManualTest]
    split
    · exact .updateNodes (fun _ => rfl) fun _ => rfl
    · exact .of_nodes_eq rfl
  | cleanupRetired now =>
    intro row hrow port hport
    exact ⟨row, List.mem_of_mem_filter hrow, rfl, hport⟩
  | seedLegacyDownloadLeases now leaseHours =>
    simp only [write, seedLegacyDownloadLeases]
    split
    · exact .of_nodes_eq rfl
    · have hleased : s.ServesNoMore (s.updateNodes Node.legacySeedable fun row =>
          { row with publicationLeaseUntil := some (now + hours (max leaseHours 1)) }) :=
        .updateNodes (fun _ => rfl) fun _ => rfl
      exact hleased.trans (.of_nodes_eq rfl)
  | setMainPort id port => cases h
  | clearMainPort id => cases h
  | clearStaleRuntimePorts => cases h
  | claimRow | releaseTestLease | markWaitingForPort | reviveDormant | claimMetadataRefresh
  | recordExitMetadata | releaseMetadataLease =>
    exact .updateNodes (fun _ => rfl) fun _ => rfl
  | beginRefresh | recordFinishedRun | recordSystemEvent | setQuotaDebt => exact .of_nodes_eq rfl

end Writes

/-- What a call may carry while `running` is the port of its node in the map. -/
def CallPhase.Sound (running : Option ℕ) : CallPhase → Prop
  | .releasing (some port) | .inserting port => port < 2 ^ 16
  | .storing port => running = some port
  | _ => True

namespace RuntimeSystem

variable {s s' : RuntimeSystem F} {maxActiveRuntimes : ℕ}

/-- Every stored port is the port of a runtime in the map. -/
structure Live (s : RuntimeSystem F) : Prop where
  stored : ∀ row ∈ s.store.nodes, ∀ port, row.mainPort = some port →
    s.inner.lookup row.id = some port
  calls : ∀ (c : ℕ) call, s.calls[c]? = some call → call.phase.Sound (s.inner.lookup call.node)
  narrow : ∀ node port, s.inner.lookup node = some port → port < 2 ^ 16

namespace Live

theorem setPhase (h : s.Live) {c : ℕ} {old : RuntimeCall} {phase : CallPhase}
    (here : s.calls[c]? = some old) (hphase : phase.Sound (s.inner.lookup old.node)) :
    (s.setPhase c phase).Live where
  stored := h.stored
  calls := by
    intro i call hi
    rcases getElem?_setPhase here hi with hbefore | ⟨-, rfl⟩
    · exact h.calls i call hbefore
    · exact hphase
  narrow := h.narrow

theorem begin (h : s.Live) {node : String} {phase : CallPhase}
    (hphase : phase.Sound (s.inner.lookup node)) : (s.begin node phase).Live where
  stored := h.stored
  calls := by
    intro i call hi
    rcases getElem?_begin hi with hbefore | rfl
    · exact h.calls i call hbefore
    · exact hphase
  narrow := h.narrow

/-- A runtime enters the map under a node that had none. -/
theorem inserted (h : s.Live) {c : ℕ} {node : String} {port : ℕ}
    (here : s.calls[c]? = some ⟨node, .inserting port⟩) (absent : s.inner.lookup node = none) :
    Live { s.setPhase c (.storing port) with inner := s.inner.insert node port } := by
  have kept : ∀ other current, s.inner.lookup other = some current →
      (s.inner.insert node port).lookup other = some current := by
    intro other current hlookup
    have hne : other ≠ node := by
      rintro rfl
      rw [absent] at hlookup
      cases hlookup
    rw [AList.lookup_insert_ne hne, hlookup]
  constructor
  · exact fun row hrow current hport => kept _ _ (h.stored row hrow current hport)
  · intro i call hi
    rcases getElem?_setPhase here hi with hbefore | ⟨-, rfl⟩
    · have hsound := h.calls i call hbefore
      cases hphase : call.phase with
      | storing current =>
        rw [hphase] at hsound
        exact kept _ _ hsound
      | releasing started =>
        rw [hphase] at hsound
        cases started <;> exact hsound
      | inserting current =>
        rw [hphase] at hsound
        exact hsound
      | _ => trivial
    · exact AList.lookup_insert _
  · intro other current hlookup
    by_cases hnode : other = node
    · rw [hnode, AList.lookup_insert] at hlookup
      obtain rfl : port = current := Option.some.inj hlookup
      exact h.calls c _ here
    · exact h.narrow other current (by simpa [AList.lookup_insert_ne hnode] using hlookup)

/-- A port is stored while its runtime is in the map. -/
theorem stores (h : s.Live) {c : ℕ} {node : String} {port : ℕ}
    (here : s.calls[c]? = some ⟨node, .storing port⟩) :
    Live { s.setPhase c (.returned (some port)) with store := s.store.setMainPort node port } where
  stored := by
    intro row hrow current hport
    obtain ⟨old, hold, ⟨hguard, rfl⟩ | ⟨-, rfl⟩⟩ := Store.mem_updateNodes.mp hrow
    · obtain rfl : port = current := Option.some.inj hport
      obtain rfl : old.id = node := of_decide_eq_true hguard
      exact h.calls c _ here
    · exact h.stored row hold current hport
  calls := by
    have hset : Live (s.setPhase c (.returned (some port))) := h.setPhase here trivial
    exact hset.calls
  narrow := h.narrow

theorem moved (h : s.Live) {event : RuntimeEvent} (hevent : event.ofService = true)
    (hmoved : Moved maxActiveRuntimes s event s') : s'.Live := by
  cases hmoved with
  | found running => exact h.begin trivial
  | began absent =>
    apply h.begin
    split <;> trivial
  | refused here => exact h.setPhase here trivial
  | locked here =>
    have hset : Live (s.setPhase _ .counting) := h.setPhase here trivial
    exact ⟨hset.stored, hset.calls, hset.narrow⟩
  | counted here => exact h.setPhase here trivial
  | capped here =>
    have hset : Live (s.setPhase _ (.returned none)) := h.setPhase here trivial
    exact ⟨hset.stored, hset.calls, hset.narrow⟩
  | admitted here below =>
    have hset : Live (s.setPhase _ .startingUp) := h.setPhase here trivial
    exact ⟨hset.stored, hset.calls, hset.narrow⟩
  | @started c node result here =>
    apply h.setPhase here
    cases result with
    | none => trivial
    | some port =>
      have hport : port < 2 ^ 16 := of_decide_eq_true hevent
      exact hport
  | @released c node port here =>
    have hset : Live (s.setPhase _ (.inserting port)) := h.setPhase here (h.calls c _ here)
    exact ⟨hset.stored, hset.calls, hset.narrow⟩
  | failed here =>
    have hset : Live (s.setPhase _ (.returned none)) := h.setPhase here trivial
    exact ⟨hset.stored, hset.calls, hset.narrow⟩
  | redundant here running => exact h.setPhase here trivial
  | inserted here absent => exact h.inserted here absent
  | discarded here => exact h.setPhase here trivial
  | stored here => exact h.stores here
  | unstored here => exact h.setPhase here trivial
  | removed => cases hevent
  | cleared here => cases hevent
  | uncleared here => cases hevent

theorem step (h : s.Live) {event : RuntimeEvent} (hevent : event.ofService = true) :
    (s.step maxActiveRuntimes event).Live := by
  rcases step_moved maxActiveRuntimes s event with hstay | hmoved
  · rw [hstay]
    exact h
  · exact h.moved hevent hmoved

theorem write [F64 F] (h : s.Live) {w : Write F} (hw : w.setsPort = false) :
    Live { s with store := s.store.write w } where
  stored := by
    intro row' hrow' port hport
    obtain ⟨row, hrow, hid, hport⟩ := s.store.servesNoMore_write hw row' hrow' port hport
    rw [← hid]
    exact h.stored row hrow port hport
  calls := h.calls
  narrow := h.narrow

end Live

/-- A process that has started no runtime is live once the old ports are gone. -/
theorem live_clearStale (store : Store F) : (initial store.clearStaleRuntimePorts).Live where
  stored := by
    intro row hrow port hport
    obtain ⟨old, -, ⟨-, rfl⟩ | ⟨hguard, rfl⟩⟩ := Store.mem_updateNodes.mp hrow
    · cases hport
    · rw [hport] at hguard
      cases hguard
  calls c call hc := by simp [initial] at hc
  narrow node port hlookup := by simp [initial] at hlookup

/-- No event of the service takes a runtime out of the map. -/
theorem lookup_step {event : RuntimeEvent} (hevent : event.ofService = true) {node : String}
    {port : ℕ} (h : s.inner.lookup node = some port) :
    (s.step maxActiveRuntimes event).inner.lookup node = some port := by
  rcases step_moved maxActiveRuntimes s event with hstay | hmoved
  · rw [hstay, h]
  · generalize s.step maxActiveRuntimes event = s' at hmoved
    cases hmoved with
    | @inserted c other current here absent =>
      have hne : node ≠ other := by
        rintro rfl
        rw [absent] at h
        cases h
      exact (AList.lookup_insert_ne hne).trans h
    | removed => cases hevent
    | cleared here => cases hevent
    | uncleared here => cases hevent
    | _ => exact h

end RuntimeSystem

namespace ServiceProcess

variable [F64 F] {p : ServiceProcess F} {maxActiveRuntimes : ℕ}

/-- Before a process has looked at the ports it has no runtime, and then it stores live ones. -/
structure Sound (p : ServiceProcess F) : Prop where
  fresh : p.phase = .down ∨ p.phase = .opening → p.system = .initial p.system.store
  live : p.running = true → p.system.Live

omit [F64 F] in
theorem sound_halted (p : ServiceProcess F) : p.halted.Sound where
  fresh _ := rfl
  live h := by cases h

theorem Sound.step (h : p.Sound) (e : LifeEvent F) : (p.step maxActiveRuntimes e).Sound := by
  obtain ⟨phase, system⟩ := p
  obtain ⟨fresh, live⟩ := h
  cases e with
  | launch =>
    cases phase with
    | down => exact ⟨fun _ => fresh (.inl rfl), fun hrunning => by cases hrunning⟩
    | _ => exact ⟨fresh, live⟩
  | migrated store =>
    cases phase with
    | opening =>
      refine ⟨fun _ => ?_, fun hrunning => by cases hrunning⟩
      have hsystem : system = .initial system.store := fresh (.inr rfl)
      simp only [ServiceProcess.step, setStore]
      rw [hsystem]
      rfl
    | _ => exact ⟨fresh, live⟩
  | clearStalePorts succeeds =>
    cases phase with
    | opening =>
      cases succeeds with
      | false => exact sound_halted _
      | true =>
        refine ⟨fun hphase => by simp [ServiceProcess.step] at hphase, fun _ => ?_⟩
        have hsystem : system = .initial system.store := fresh (.inr rfl)
        simp only [ServiceProcess.step, setStore]
        rw [hsystem]
        exact RuntimeSystem.live_clearStale system.store
    | _ => exact ⟨fresh, live⟩
  | manager event =>
    simp only [ServiceProcess.step]
    split
    · next hboth =>
      obtain ⟨hrunning, hevent⟩ := Bool.and_eq_true_iff.mp hboth
      refine ⟨fun hphase => ?_, fun _ => (live hrunning).step hevent⟩
      rcases hphase with rfl | rfl <;> cases hrunning
    · exact ⟨fresh, live⟩
  | listen bound =>
    cases phase with
    | restoring =>
      cases bound with
      | false => exact sound_halted _
      | true => exact ⟨fun hphase => by simp [ServiceProcess.step] at hphase, fun _ => live rfl⟩
    | _ => exact ⟨fresh, live⟩
  | write w =>
    simp only [ServiceProcess.step]
    split
    · next hboth =>
      obtain ⟨hrunning, hw⟩ := Bool.and_eq_true_iff.mp hboth
      refine ⟨fun hphase => ?_, fun _ => (live hrunning).write (by simpa using hw)⟩
      rcases hphase with rfl | rfl <;> cases hrunning
    · exact ⟨fresh, live⟩
  | drain =>
    cases phase with
    | serving => exact ⟨fun hphase => by simp [ServiceProcess.step] at hphase, fun _ => live rfl⟩
    | _ => exact ⟨fresh, live⟩
  | shutdown =>
    cases phase with
    | draining =>
      exact ⟨fun hphase => by simp [ServiceProcess.step] at hphase,
        fun hrunning => by cases hrunning⟩
    | _ => exact ⟨fresh, live⟩
  | clearPort succeeds =>
    cases phase with
    | stopping uncleared =>
      cases uncleared with
      | nil => exact sound_halted _
      | cons node rest =>
        exact ⟨fun hphase => by simp [ServiceProcess.step] at hphase,
          fun hrunning => by cases hrunning⟩
    | _ => exact ⟨fresh, live⟩
  | crash => exact sound_halted _

/-- The node is reached at the port while requests are answered. -/
structure Reached (p : ServiceProcess F) (node : String) (port : ℕ) : Prop where
  phase : p.Answers
  running : p.system.inner.lookup node = some port

/-- Until the runtimes end, a node stays where it was reached. -/
theorem Reached.step {node : String} {port : ℕ} (h : p.Reached node port) {e : LifeEvent F}
    (he : e.ends = false) : (p.step maxActiveRuntimes e).Reached node port := by
  obtain ⟨phase, system⟩ := p
  obtain ⟨hphase, hrunning⟩ := h
  cases e with
  | manager event =>
    simp only [ServiceProcess.step]
    split
    · next hboth =>
      exact ⟨hphase, RuntimeSystem.lookup_step (Bool.and_eq_true_iff.mp hboth).2 hrunning⟩
    · exact ⟨hphase, hrunning⟩
  | write w =>
    simp only [ServiceProcess.step]
    split
    · exact ⟨hphase, hrunning⟩
    · exact ⟨hphase, hrunning⟩
  | shutdown => cases he
  | crash => cases he
  | drain =>
    rcases hphase with rfl | rfl
    · exact ⟨.inr rfl, hrunning⟩
    · exact ⟨.inr rfl, hrunning⟩
  | _ => rcases hphase with rfl | rfl <;> exact ⟨by simp [Answers, ServiceProcess.step], hrunning⟩

/-- Through any lifetimes of the service, with a crash or a failure anywhere: a port that is handed
to a client is the port of a runtime of the process that serves the client, and it stays the port
of that node until the process shuts its runtimes down or ends. -/
theorem handed_port_live [F64Total F] (maxActiveRuntimes : ℕ) (start : ServiceProcess F)
    (past future : List (LifeEvent F)) (tables later : FeedbackTables F)
    (config : SelectionConfig F) (client : String) (view : SelectionView) (decision : BestDecision)
    (answers : (run (step maxActiveRuntimes) start.halted past).Answers)
    (handed : (best (run (step maxActiveRuntimes) start.halted past).system.store tables later
      config client view).2 = .ok (some decision))
    (lives : ∀ e ∈ future, e.ends = false) :
    (run (step maxActiveRuntimes) start.halted (past ++ future)).system.portFor decision.nodeId =
      some decision.port := by
  rw [run_append]
  have hsound : (run (step maxActiveRuntimes) start.halted past).Sound :=
    run_preserves (fun _ e h => h.step e) (sound_halted start) past
  generalize run (step maxActiveRuntimes) start.halted past = p at answers handed hsound
  have hlive : p.system.Live := hsound.live (by rcases answers with h | h <;> rw [running, h])
  have hreached : p.Reached decision.nodeId decision.port := by
    refine ⟨answers, ?_⟩
    rcases best_cases p.system.store tables later config client view with
      ⟨error, -, hbest⟩ | ⟨-, -, hbest⟩ |
        ⟨-, -, row, hrow, chosen, hright, ⟨error, -, hbest⟩ | hbest⟩
    all_goals rw [hbest] at handed
    · cases handed
    · cases handed
    · cases handed
    · obtain rfl : chosen = decision := by simpa using handed
      obtain ⟨stored, hstored, hport⟩ := Option.map_eq_some_iff.mp hright.port
      have hlookup := hlive.stored row hrow stored hstored
      rw [← hport, Nat.mod_eq_of_lt (hlive.narrow _ _ hlookup), hright.nodeId, hlookup]
  have hend : (run (step maxActiveRuntimes) p future).Reached decision.nodeId decision.port :=
    run_invariant (A := fun _ (e : LifeEvent F) => e.ends = false)
      (I := fun p => Reached p decision.nodeId decision.port) (fun _ _ he h => h.step he) hreached
      (admitted_of_forall (fun e he _ => lives e he) p)
  exact hend.running

end ServiceProcess

section Examples

/-- The database of an earlier process that listened at another port. -/
def abandonedStore : Store ℚ where
  nodes := [{
    id := "n", configHash := "h", rawConfig := [], sourceSubs := [],
    lifecycleState := .active, publicationLeaseUntil := some 100, mainPort := some 31000,
    healthAlpha := 1, healthBeta := 1, healthScore := 1 / 2, createdAt := 0 }]

/-- A process restores its runtime at a port and listens. -/
def restoredAt (port : ℕ) : List (LifeEvent ℚ) :=
  let call : List RuntimeEvent := startedCall "n" 0 port ++ [.insert 0, .setPort 0 true]
  [.launch, .clearStalePorts true] ++ call.map LifeEvent.manager ++ [.listen true]

/-- The process ends by a crash, and another one takes its place and drains its requests. -/
def twoLives : List (LifeEvent ℚ) :=
  restoredAt 30000 ++ [.crash] ++ restoredAt 30001 ++ [.drain]

def lifeAfter (events : List (LifeEvent ℚ)) : ServiceProcess ℚ :=
  run (ServiceProcess.step 4) (ServiceProcess.halted ⟨.down, .initial abandonedStore⟩) events

/-- A call that draws the first rows of its query. -/
def firstRows : SelectionView where
  now := 0
  clock := fun _ => 0
  sample := fun amount length => {
    positions := List.range (min amount length)
    nodup := List.nodup_range
    lt_length := fun _ hi => (List.mem_range.mp hi).trans_le (min_le_right _ _)
    count := List.length_range }
  queried := .ok ()
  recorded := .ok ()
  assignmentId := "a"
  recordedAt := 0

def evenWeights : SelectionConfig ℚ where
  weights := ⟨1, 1, 1, 1, 1⟩

theorem handed_port_live_restarted :
    (best (lifeAfter twoLives).system.store {} {} evenWeights "c" firstRows).2 =
        .ok (some ⟨"n", 30001, "a", none, 60⟩) ∧
      (lifeAfter (twoLives ++ [.manager (.ensure "n" true)])).system.portFor "n" =
        some 30001 := by
  have handed : (best (lifeAfter twoLives).system.store {} {} evenWeights "c"
      firstRows).2 = .ok (some ⟨"n", 30001, "a", none, 60⟩) := by decide +kernel
  exact ⟨handed, ServiceProcess.handed_port_live 4 ⟨.down, .initial abandonedStore⟩
    twoLives [.manager (.ensure "n" true)] {} {} evenWeights "c" firstRows _
    (by decide +kernel) handed (fun e he => by rw [List.mem_singleton.mp he]; rfl)⟩

end Examples

end ProxyFleet
