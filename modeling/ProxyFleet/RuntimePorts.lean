import ProxyFleet.RuntimeManager
import ProxyFleet.StoreRuns

/-!
# Runtime ports in the map and in the store

The port of a runtime is kept twice, in the map of the manager and in the column
`main_port`, and the two are written at different moments. They agree in the runs in
which each write finds the map as its call left it, and in which no call takes a
port from the map before it is stored.
-/
namespace ProxyFleet

open ObservedRuns

namespace Store

variable {F : Type} {store : Store F} {node other : String} {port : ℕ}

/-- Every row of the node stores this port. -/
def PortStored (store : Store F) (node : String) (port : ℕ) : Prop :=
  ∀ row ∈ store.nodes, row.id = node → row.mainPort = some port

instance (store : Store F) (node : String) (port : ℕ) : Decidable (store.PortStored node port) :=
  inferInstanceAs (Decidable (∀ row ∈ store.nodes, _))

theorem portStored_setMainPort : (store.setMainPort node port).PortStored node port := by
  intro row hrow hid
  obtain ⟨old, -, ⟨-, rfl⟩ | ⟨hguard, rfl⟩⟩ := mem_updateNodes.mp hrow
  · rfl
  · simp [hid] at hguard

/-- An update of one node's rows that keeps the identities leaves the other ports alone. -/
theorem PortStored.updateNodes_other (h : store.PortStored other port) (hne : other ≠ node)
    {f : Node F → Node F} (hf : ∀ row, (f row).id = row.id) :
    (store.updateNodes (fun row => row.id = node) f).PortStored other port := by
  intro row hrow hid
  obtain ⟨old, hold, ⟨hguard, rfl⟩ | ⟨-, rfl⟩⟩ := mem_updateNodes.mp hrow
  · have hnode : old.id = node := by simpa using hguard
    rw [hf, hnode] at hid
    exact absurd hid.symm hne
  · exact h _ hold hid

end Store

/-- The port that a call is about to store. -/
def CallPhase.storingPort : CallPhase → Option ℕ
  | .storing port => some port
  | _ => none

def CallPhase.isInserting : CallPhase → Bool
  | .inserting _ => true
  | _ => false

namespace RuntimeSystem

variable {F : Type} {maxActiveRuntimes : ℕ} {s s' : RuntimeSystem F} {noted : ℕ → Bool}

/-- The calls for whose node a `stop` has begun since they began. -/
def stoppedSince (noted : ℕ → Bool) (s : RuntimeSystem F) : RuntimeEvent → ℕ → Bool
  | .stop node => fun c => noted c || s.calls[c]?.any fun call => call.node == node
  | _ => noted

/-- What a step leaves behind: a call that returns a port returns the stored one, unless a
later `stop` has begun, and between calls the stored ports are those of the map. -/
structure PortsAgree (maxActiveRuntimes : ℕ) (observed : RuntimeSystem F × (ℕ → Bool))
    (event : RuntimeEvent) : Prop where
  returned : ∀ (c : ℕ) (node : String) (port : ℕ),
    (step maxActiveRuntimes observed.1 event).calls[c]? =
        some ⟨node, .returned (some port)⟩ →
      observed.1.calls[c]? ≠ some ⟨node, .returned (some port)⟩ →
      (step maxActiveRuntimes observed.1 event).store.PortStored node port ∨
        stoppedSince observed.2 observed.1 event c = true
  quiet : (∀ call ∈ (step maxActiveRuntimes observed.1 event).calls,
      call.phase.finished = true) →
    ∀ (node : String) (port : ℕ),
      (step maxActiveRuntimes observed.1 event).inner.lookup node = some port →
        (step maxActiveRuntimes observed.1 event).store.PortStored node port

/-- No call is between the insertion of this node's runtime and its `set_main_port`, unless
the store has the port already. -/
def Settled (s : RuntimeSystem F) (node : String) : Prop :=
  ∀ call ∈ s.calls, call.node = node → ∀ port ∈ call.phase.storingPort,
    s.inner.lookup node = some port → s.store.PortStored node port

/-- The schedule keeps apart what the lock does not: no call for the node is about to store
its port when one begins or inserts, a port that is stored is not that of an older runtime,
a failed write is not missed, and a port that is cleared is not in use again. -/
def Synchronised (s : RuntimeSystem F) : RuntimeEvent → Prop
  | .ensure node _ => s.Settled node
  | .insert c => ∀ call ∈ s.calls[c]?, call.phase.isInserting = true → s.Settled call.node
  | .setPort c true => ∀ call ∈ s.calls[c]?, ∀ port ∈ call.phase.storingPort,
    ∀ current ∈ s.inner.lookup call.node, current = port
  | .setPort c false => ∀ call ∈ s.calls[c]?, ∀ port ∈ call.phase.storingPort,
    s.inner.lookup call.node = some port → s.store.PortStored call.node port
  | .clearPort c true => ∀ call ∈ s.calls[c]?, call.phase = .clearing →
    s.inner.lookup call.node = none
  | _ => True

/-- A port in the map is stored or about to be, and a call that found one in the map does
not lose it but to a `stop`. -/
structure Backed (s : RuntimeSystem F) (noted : ℕ → Bool) : Prop where
  running : ∀ (node : String) (port : ℕ), s.inner.lookup node = some port →
    s.store.PortStored node port ∨ ∃ c : ℕ, s.calls[c]? = some ⟨node, .storing port⟩
  discarding : ∀ (c : ℕ) (node : String) (port : ℕ),
    s.calls[c]? = some ⟨node, .discarding port⟩ →
      (s.inner.lookup node = some port ∧ s.store.PortStored node port) ∨ noted c = true

/-- Where no call is about to store it, the port of the map is stored. -/
theorem Backed.portStored (h : Backed s noted) {node : String} (settled : s.Settled node)
    {port : ℕ} (running : s.inner.lookup node = some port) : s.store.PortStored node port := by
  rcases h.running node port running with hstored | ⟨c, hc⟩
  · exact hstored
  · exact settled _ (List.mem_iff_getElem?.mpr ⟨c, hc⟩) rfl port rfl running

namespace Backed

variable {c : ℕ} {phase : CallPhase} {old : RuntimeCall} {node : String}

/-- A change to a phase that holds no port, by a call that stores none, changes nothing. -/
theorem setPhase (h : Backed s noted) (here : s.calls[c]? = some old)
    (hold : ∀ port, old.phase ≠ .storing port) (hnew : ∀ port, phase ≠ .discarding port) :
    Backed (s.setPhase c phase) noted where
  running := by
    intro node port hlookup
    rcases h.running node port hlookup with hstored | ⟨i, hi⟩
    · exact Or.inl hstored
    · refine Or.inr ⟨i, setPhase_of_other here hi ?_⟩
      rintro rfl
      exact hold port rfl
  discarding := by
    intro i node port hi
    rcases getElem?_setPhase here hi with hbefore | ⟨rfl, hchanged⟩
    · exact h.discarding i node port hbefore
    · cases hchanged
      exact absurd rfl (hnew port)

theorem begin (h : Backed s noted) (hphase : ∀ port, phase ≠ .discarding port) :
    Backed (s.begin node phase) noted where
  running := by
    intro node port hlookup
    rcases h.running node port hlookup with hstored | ⟨i, hi⟩
    · exact Or.inl hstored
    · exact Or.inr ⟨i, begin_of_some hi⟩
  discarding := by
    intro i node port hi
    rcases getElem?_begin hi with hbefore | hnew
    · exact h.discarding i node port hbefore
    · cases hnew
      exact absurd rfl (hphase port)

/-- A call finds a runtime in the map, and its port stored. -/
theorem found (h : Backed s noted) {existing : ℕ} (here : s.calls[c]? = some old)
    (hold : ∀ port, old.phase ≠ .storing port)
    (running : s.inner.lookup old.node = some existing)
    (hstored : s.store.PortStored old.node existing) :
    Backed (s.setPhase c (.discarding existing)) noted where
  running := by
    intro node port hlookup
    rcases h.running node port hlookup with hstored | ⟨i, hi⟩
    · exact Or.inl hstored
    · refine Or.inr ⟨i, setPhase_of_other here hi ?_⟩
      rintro rfl
      exact hold port rfl
  discarding := by
    intro i node port hi
    rcases getElem?_setPhase here hi with hbefore | ⟨rfl, hchanged⟩
    · exact h.discarding i node port hbefore
    · cases hchanged
      exact Or.inl ⟨running, hstored⟩

/-- A runtime enters the map with a call that will store its port. -/
theorem inserted (h : Backed s noted) {port : ℕ}
    (here : s.calls[c]? = some ⟨node, .inserting port⟩)
    (absent : s.inner.lookup node = none) :
    Backed { s.setPhase c (.storing port) with inner := s.inner.insert node port } noted where
  running := by
    intro other current hlookup
    by_cases hnode : other = node
    · subst hnode
      right
      refine ⟨c, ?_⟩
      have hport : port = current := by simpa [setPhase, AList.lookup_insert] using hlookup
      subst hport
      exact setPhase_self here
    · have hbefore : s.inner.lookup other = some current := by
        simpa [setPhase, AList.lookup_insert_ne hnode] using hlookup
      rcases h.running other current hbefore with hstored | ⟨i, hi⟩
      · exact Or.inl hstored
      · exact Or.inr ⟨i, setPhase_of_other here hi (by simp)⟩
  discarding := by
    intro i other current hi
    rcases getElem?_setPhase here hi with hbefore | ⟨rfl, hchanged⟩
    · rcases h.discarding i other current hbefore with ⟨hlookup, hstored⟩ | hnoted
      · left
        have hnode : other ≠ node := by
          rintro rfl
          rw [absent] at hlookup
          cases hlookup
        exact ⟨by simpa [setPhase, AList.lookup_insert_ne hnode] using hlookup, hstored⟩
      · exact Or.inr hnoted
    · cases hchanged

/-- The port of the runtime in the map, or of one that is gone, is stored. -/
theorem stored (h : Backed s noted) {port : ℕ}
    (here : s.calls[c]? = some ⟨node, .storing port⟩)
    (hcurrent : ∀ current ∈ s.inner.lookup node, current = port) :
    Backed { s.setPhase c (.returned (some port)) with
      store := s.store.setMainPort node port } noted where
  running := by
    intro other current hlookup
    by_cases hnode : other = node
    · subst hnode
      have hport := hcurrent current hlookup
      subst hport
      exact Or.inl Store.portStored_setMainPort
    · rcases h.running other current hlookup with hstored | ⟨i, hi⟩
      · exact Or.inl (hstored.updateNodes_other hnode fun _ => rfl)
      · exact Or.inr ⟨i, setPhase_of_other here hi (by simp [hnode])⟩
  discarding := by
    intro i other current hi
    rcases getElem?_setPhase here hi with hbefore | ⟨rfl, hchanged⟩
    · rcases h.discarding i other current hbefore with ⟨hlookup, hstored⟩ | hnoted
      · left
        refine ⟨hlookup, ?_⟩
        by_cases hnode : other = node
        · subst hnode
          rw [hcurrent current hlookup]
          exact Store.portStored_setMainPort
        · exact hstored.updateNodes_other hnode fun _ => rfl
      · exact Or.inr hnoted
    · cases hchanged

/-- A failed write is not missed where the port is stored or no longer in the map. -/
theorem unstored (h : Backed s noted) {port : ℕ}
    (here : s.calls[c]? = some ⟨node, .storing port⟩)
    (hcurrent : s.inner.lookup node = some port → s.store.PortStored node port) :
    Backed (s.setPhase c (.returned none)) noted where
  running := by
    intro other current hlookup
    rcases h.running other current hlookup with hstored | ⟨i, hi⟩
    · exact Or.inl hstored
    · by_cases hic : i = c
      · subst hic
        rw [hi] at here
        cases here
        exact Or.inl (hcurrent hlookup)
      · exact Or.inr ⟨i, by rw [setPhase_of_ne hic, hi]⟩
  discarding := by
    intro i other current hi
    rcases getElem?_setPhase here hi with hbefore | ⟨rfl, hchanged⟩
    · exact h.discarding i other current hbefore
    · cases hchanged

/-- A `stop` takes the runtime out of the map, and the calls for its node are noted. -/
theorem removed (h : Backed s noted) :
    Backed { s.begin node .clearing with inner := s.inner.erase node }
      (stoppedSince noted s (.stop node)) where
  running := by
    intro other current hlookup
    have hnode : other ≠ node := by
      rintro rfl
      simp [AList.lookup_erase] at hlookup
    rcases h.running other current
      (by simpa [begin, AList.lookup_erase_ne hnode] using hlookup) with hstored | ⟨i, hi⟩
    · exact Or.inl hstored
    · exact Or.inr ⟨i, begin_of_some hi⟩
  discarding := by
    intro i other current hi
    rcases getElem?_begin hi with hbefore | hnew
    · rcases h.discarding i other current hbefore with ⟨hlookup, hstored⟩ | hnoted
      · by_cases hnode : other = node
        · right
          simp [stoppedSince, hbefore, hnode]
        · left
          exact ⟨by simpa [begin, AList.lookup_erase_ne hnode] using hlookup, hstored⟩
      · right
        simp [stoppedSince, hnoted]
    · cases hnew

/-- A port is cleared after its runtime left the map. -/
theorem cleared (h : Backed s noted) (here : s.calls[c]? = some ⟨node, .clearing⟩)
    (absent : s.inner.lookup node = none) :
    Backed { s.setPhase c .stopped with store := s.store.clearMainPort node } noted where
  running := by
    intro other current hlookup
    have hnode : other ≠ node := by
      rintro rfl
      rw [show s.inner.lookup other = some current from hlookup] at absent
      cases absent
    rcases h.running other current hlookup with hstored | ⟨i, hi⟩
    · exact Or.inl (hstored.updateNodes_other hnode fun _ => rfl)
    · exact Or.inr ⟨i, setPhase_of_other here hi (by simp)⟩
  discarding := by
    intro i other current hi
    rcases getElem?_setPhase here hi with hbefore | ⟨rfl, hchanged⟩
    · rcases h.discarding i other current hbefore with ⟨hlookup, hstored⟩ | hnoted
      · left
        have hnode : other ≠ node := by
          rintro rfl
          rw [absent] at hlookup
          cases hlookup
        exact ⟨hlookup, hstored.updateNodes_other hnode fun _ => rfl⟩
      · exact Or.inr hnoted
    · cases hchanged

end Backed

theorem backed_moved {event : RuntimeEvent} (hmoved : Moved maxActiveRuntimes s event s')
    (hsync : Synchronised s event) (h : Backed s noted) :
    Backed s' (stoppedSince noted s event) := by
  cases hmoved with
  | found running => exact h.begin (by simp)
  | began absent => exact h.begin (by split <;> simp)
  | refused here => exact h.setPhase here (by simp) (by simp)
  | locked here =>
    have hset : Backed (s.setPhase _ .counting) noted :=
      h.setPhase here (by simp) (by simp)
    exact ⟨hset.running, hset.discarding⟩
  | counted here => exact h.setPhase here (by simp) (by simp)
  | capped here =>
    have hset : Backed (s.setPhase _ (.returned none)) noted :=
      h.setPhase here (by simp) (by simp)
    exact ⟨hset.running, hset.discarding⟩
  | admitted here below =>
    have hset : Backed (s.setPhase _ .startingUp) noted :=
      h.setPhase here (by simp) (by simp)
    exact ⟨hset.running, hset.discarding⟩
  | started here => exact h.setPhase here (by simp) (by simp)
  | @released c node port here =>
    have hset : Backed (s.setPhase _ (.inserting port)) noted :=
      h.setPhase here (by simp) (by simp)
    exact ⟨hset.running, hset.discarding⟩
  | failed here =>
    have hset : Backed (s.setPhase _ (.returned none)) noted :=
      h.setPhase here (by simp) (by simp)
    exact ⟨hset.running, hset.discarding⟩
  | redundant here running =>
    exact h.found here (by simp) running (h.portStored (hsync _ here rfl) running)
  | inserted here absent => exact h.inserted here absent
  | discarded here => exact h.setPhase here (by simp) (by simp)
  | stored here => exact h.stored here (hsync _ here _ rfl)
  | unstored here => exact h.unstored here (hsync _ here _ rfl)
  | removed => exact h.removed
  | cleared here => exact h.cleared here (hsync _ here rfl)
  | uncleared here => exact h.setPhase here (by simp) (by simp)

theorem noted_stoppedSince (event : RuntimeEvent) {c : ℕ} (h : noted c = true) :
    stoppedSince noted s event c = true := by
  cases event with
  | stop node => simp [stoppedSince, h]
  | _ => exact h

theorem backed_step {event : RuntimeEvent} (hsync : Synchronised s event)
    (h : Backed s noted) :
    Backed (step maxActiveRuntimes s event) (stoppedSince noted s event) := by
  rcases step_moved maxActiveRuntimes s event with hstay | hmoved
  · rw [hstay]
    refine ⟨h.running, ?_⟩
    intro c node port hc
    rcases h.discarding c node port hc with hfound | hnoted
    · exact Or.inl hfound
    · exact Or.inr (noted_stoppedSince event hnoted)
  · exact backed_moved hmoved hsync h

/-- The three ways in which a call comes to return a port: it finds the port in the map as
it begins, it discards a redundant process, or it stores the port. -/
theorem moved_returned {event : RuntimeEvent} (h : Moved maxActiveRuntimes s event s') {c : ℕ}
    {node : String} {port : ℕ} (after : s'.calls[c]? = some ⟨node, .returned (some port)⟩)
    (before : s.calls[c]? ≠ some ⟨node, .returned (some port)⟩) :
    (∃ parses, event = .ensure node parses ∧ s.inner.lookup node = some port ∧
        s'.store = s.store) ∨
      (event = .discard c ∧ s.calls[c]? = some ⟨node, .discarding port⟩ ∧ s'.store = s.store) ∨
      s'.store = s.store.setMainPort node port := by
  -- A phase that returns no port cannot be the one that changed.
  have hother : ∀ {i : ℕ} {old : RuntimeCall} {phase : CallPhase}, s.calls[i]? = some old →
      (s.setPhase i phase).calls[c]? = some ⟨node, .returned (some port)⟩ →
      c = i ∧ (⟨node, .returned (some port)⟩ : RuntimeCall) = { old with phase := phase } :=
    fun here hafter => (getElem?_setPhase here hafter).resolve_left before
  cases h with
  | @found node' parses port' running =>
    rcases getElem?_begin after with hold | hnew
    · exact absurd hold before
    · cases hnew
      exact Or.inl ⟨parses, rfl, running, rfl⟩
  | began absent =>
    rcases getElem?_begin after with hold | hnew
    · exact absurd hold before
    · split at hnew <;> cases hnew
  | refused here => cases (hother here after).2
  | locked here => cases (hother here after).2
  | counted here => cases (hother here after).2
  | capped here => cases (hother here after).2
  | admitted here below => cases (hother here after).2
  | started here => cases (hother here after).2
  | released here => cases (hother here after).2
  | failed here => cases (hother here after).2
  | redundant here running => cases (hother here after).2
  | inserted here absent => cases (hother here after).2
  | discarded here =>
    obtain ⟨rfl, hcall⟩ := hother here after
    cases hcall
    exact Or.inr (Or.inl ⟨rfl, here, rfl⟩)
  | stored here =>
    cases (hother here after).2
    exact Or.inr (Or.inr rfl)
  | unstored here => cases (hother here after).2
  | removed =>
    rcases getElem?_begin after with hold | hnew
    · exact absurd hold before
    · cases hnew
  | cleared here => cases (hother here after).2
  | uncleared here => cases (hother here after).2

theorem portsAgree_of_backed {event : RuntimeEvent} (hsync : Synchronised s event)
    (h : Backed s noted) : PortsAgree maxActiveRuntimes (s, noted) event where
  returned := by
    intro c node port after before
    rcases step_moved maxActiveRuntimes s event with hstay | hmoved
    · rw [hstay] at after
      exact absurd after before
    · rcases moved_returned hmoved after before with
        ⟨parses, rfl, hlookup, hstore⟩ | ⟨rfl, here, hstore⟩ | hstore
      · left
        rw [hstore]
        exact h.portStored hsync hlookup
      · rcases h.discarding c node port here with ⟨-, hstored⟩ | hnoted
        · left
          rw [hstore]
          exact hstored
        · exact Or.inr hnoted
      · left
        rw [hstore]
        exact Store.portStored_setMainPort
  quiet := by
    intro hfinished node port hlookup
    rcases (backed_step hsync h).running node port hlookup with hstored | ⟨c, hc⟩
    · exact hstored
    · have := hfinished _ (List.mem_iff_getElem?.mpr ⟨c, hc⟩)
      cases this

/-- In a run whose schedule keeps the map and the store in accord, every port that is returned
is stored, unless a later `stop` has begun, and between calls the ports of the map are. -/
theorem ports_agree {store : Store F} {events : List RuntimeEvent}
    (h : Admitted (step maxActiveRuntimes) Synchronised (initial store) events) :
    Admitted (observe (step maxActiveRuntimes) stoppedSince) (PortsAgree maxActiveRuntimes)
      (initial store, fun _ => false) events := by
  refine observed_of_invariant (I := Backed) ?_ ?_ ?_ h
  · intro s noted event hsync hbacked
    exact backed_step hsync hbacked
  · intro s noted event hsync hbacked
    exact portsAgree_of_backed hsync hbacked
  · exact ⟨fun node port hlookup => by simp [initial] at hlookup,
      fun c node port hc => by simp [initial] at hc⟩

instance (s : RuntimeSystem F) (node : String) : Decidable (s.Settled node) :=
  inferInstanceAs (Decidable (∀ call ∈ s.calls, _))

instance decidableSynchronised (s : RuntimeSystem F) : ∀ event, Decidable (Synchronised s event)
  | .ensure node _ => inferInstanceAs (Decidable (s.Settled node))
  | .insert c => inferInstanceAs (Decidable (∀ call ∈ s.calls[c]?, _))
  | .setPort c true => inferInstanceAs (Decidable (∀ call ∈ s.calls[c]?, _))
  | .setPort c false => inferInstanceAs (Decidable (∀ call ∈ s.calls[c]?, _))
  | .clearPort c true => inferInstanceAs (Decidable (∀ call ∈ s.calls[c]?, _))
  | .clearPort _ false => isTrue trivial
  | .reserve _ | .count _ | .checkCap _ | .start _ _ | .release _ | .discard _ | .stop _ =>
    isTrue trivial

end RuntimeSystem

section FailedWrite

/-- A store that knows one node. -/
def oneNodeStore : Store ℚ := Store.empty.writes [.ingestOne 0 sampleProxy "node" 1]

/-- The runtime is in the map, and the write of its port has failed. -/
def failedWrite : List RuntimeEvent :=
  startedCall "node" 0 30000 ++ [.insert 0, .setPort 0 false]

theorem ports_agree_stopped :
    Admitted (observe (RuntimeSystem.step 1) RuntimeSystem.stoppedSince)
      (RuntimeSystem.PortsAgree 1) (RuntimeSystem.initial oneNodeStore, fun _ => false)
      (startedCall "node" 0 30000 ++
        [.insert 0, .setPort 0 true, .ensure "node" true, .stop "node", .clearPort 2 true]) :=
  RuntimeSystem.ports_agree (by decide +kernel)

/-- A retry after the failed write returns a port that the store does not have. -/
theorem unstored_port_returned :
    ¬Admitted (observe (RuntimeSystem.step 1) RuntimeSystem.stoppedSince)
      (RuntimeSystem.PortsAgree 1) (RuntimeSystem.initial oneNodeStore, fun _ => false)
      (failedWrite ++ [.ensure "node" true]) := by
  intro h
  have hlast := ((admitted_append _ _ _ _ _).mp h).2.1
  rcases hlast.returned 1 "node" 30000 (by decide +kernel) (by decide +kernel) with
    hstored | hstopped
  · exact absurd hstored (by decide +kernel)
  · exact absurd hstopped (by decide +kernel)

end FailedWrite

end ProxyFleet
