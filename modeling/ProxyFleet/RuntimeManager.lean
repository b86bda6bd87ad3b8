import Mathlib.Data.Finset.Card
import Mathlib.Data.List.AList
import ProxyFleet.ObservedRuns
import ProxyFleet.StoreStatements

/-!
# The manager of the persistent runtimes

Concurrent calls of `ensure` and `stop` share the map of running Xray processes, the
set of reservations and the column `main_port`. Each step of a call lies between two
of its suspension points: it takes a lock, waits for a process or writes to the
store. The reservations stay locked while a call looks into the map.
-/
namespace ProxyFleet

/-- Where a call stands, with what it carries across its suspension points. -/
inductive CallPhase where
  | reserving
  | counting
  | admitting (active : ℕ)
  | startingUp
  | releasing (started : Option ℕ)
  | inserting (port : ℕ)
  | discarding (port : ℕ)
  | storing (port : ℕ)
  | clearing
  | returned (result : Option ℕ)
  | stopped
  deriving DecidableEq

def CallPhase.finished : CallPhase → Bool
  | .returned _ | .stopped => true
  | _ => false

structure RuntimeCall where
  node : String
  phase : CallPhase
  deriving DecidableEq

/-- The manager, its calls in the order in which they began, and the store. -/
structure RuntimeSystem (F : Type) where
  inner : AList fun _ : String => ℕ
  starting : Finset String
  startingLock : Option ℕ
  calls : List RuntimeCall
  store : Store F

/-- The steps of the calls. A call is known by its number. -/
inductive RuntimeEvent where
  | ensure (node : String) (parses : Bool)
  | reserve (call : ℕ)
  | count (call : ℕ)
  | checkCap (call : ℕ)
  | start (call : ℕ) (started : Option ℕ)
  | release (call : ℕ)
  | insert (call : ℕ)
  | discard (call : ℕ)
  | setPort (call : ℕ) (succeeds : Bool)
  | stop (node : String)
  | clearPort (call : ℕ) (succeeds : Bool)

/-- The steps of an `ensure` up to the release of its reservation. -/
def startedCall (node : String) (c port : ℕ) : List RuntimeEvent :=
  [.ensure node true, .reserve c, .count c, .checkCap c, .start c (some port), .release c]

namespace RuntimeSystem

variable {F : Type}

def initial (store : Store F) : RuntimeSystem F where
  inner := ∅
  starting := ∅
  startingLock := none
  calls := []
  store := store

def portFor (s : RuntimeSystem F) (node : String) : Option ℕ := s.inner.lookup node

def begin (s : RuntimeSystem F) (node : String) (phase : CallPhase) : RuntimeSystem F :=
  { s with calls := s.calls ++ [⟨node, phase⟩] }

def setPhase (s : RuntimeSystem F) (call : ℕ) (phase : CallPhase) : RuntimeSystem F :=
  { s with calls := s.calls.modify call fun c => { c with phase := phase } }

/-- One step of one call. A call that is not at this point does nothing, and neither does
one that waits for the reservations while another call has them locked. -/
def step (maxActiveRuntimes : ℕ) (s : RuntimeSystem F) : RuntimeEvent → RuntimeSystem F
  | .ensure node parses =>
    match s.portFor node with
    | some port => s.begin node (.returned (some port))
    | none => s.begin node (if parses then .reserving else .returned none)
  | .reserve c =>
    match s.calls[c]?, s.startingLock with
    | some ⟨node, .reserving⟩, none =>
      if node ∈ s.starting then s.setPhase c (.returned none)
      else { s.setPhase c .counting with startingLock := some c }
    | _, _ => s
  | .count c =>
    match s.calls[c]? with
    | some ⟨_, .counting⟩ => s.setPhase c (.admitting s.inner.keys.length)
    | _ => s
  | .checkCap c =>
    match s.calls[c]? with
    | some ⟨node, .admitting active⟩ =>
      if maxActiveRuntimes ≤ active + s.starting.card then
        { s.setPhase c (.returned none) with startingLock := none }
      else
        { s.setPhase c .startingUp with
          startingLock := none
          starting := insert node s.starting }
    | _ => s
  | .start c started =>
    match s.calls[c]? with
    | some ⟨_, .startingUp⟩ => s.setPhase c (.releasing started)
    | _ => s
  | .release c =>
    match s.calls[c]?, s.startingLock with
    | some ⟨node, .releasing started⟩, none =>
      let released := { s with starting := s.starting.erase node }
      match started with
      | some port => released.setPhase c (.inserting port)
      | none => released.setPhase c (.returned none)
    | _, _ => s
  | .insert c =>
    match s.calls[c]? with
    | some ⟨node, .inserting port⟩ =>
      match s.inner.lookup node with
      | some existing => s.setPhase c (.discarding existing)
      | none => { s.setPhase c (.storing port) with inner := s.inner.insert node port }
    | _ => s
  | .discard c =>
    match s.calls[c]? with
    | some ⟨_, .discarding port⟩ => s.setPhase c (.returned (some port))
    | _ => s
  | .setPort c succeeds =>
    match s.calls[c]? with
    | some ⟨node, .storing port⟩ =>
      if succeeds then
        { s.setPhase c (.returned (some port)) with store := s.store.setMainPort node port }
      else s.setPhase c (.returned none)
    | _ => s
  | .stop node => { s.begin node .clearing with inner := s.inner.erase node }
  | .clearPort c succeeds =>
    match s.calls[c]? with
    | some ⟨node, .clearing⟩ =>
      if succeeds then
        { s.setPhase c .stopped with store := s.store.clearMainPort node }
      else s.setPhase c .stopped
    | _ => s

/-- What a step that does something does. -/
inductive Moved (maxActiveRuntimes : ℕ) (s : RuntimeSystem F) :
    RuntimeEvent → RuntimeSystem F → Prop
  | found {node parses port} (running : s.inner.lookup node = some port) :
      Moved maxActiveRuntimes s (.ensure node parses) (s.begin node (.returned (some port)))
  | began {node parses} (absent : s.inner.lookup node = none) :
      Moved maxActiveRuntimes s (.ensure node parses)
        (s.begin node (if parses then .reserving else .returned none))
  | refused {c node} (here : s.calls[c]? = some ⟨node, .reserving⟩) :
      Moved maxActiveRuntimes s (.reserve c) (s.setPhase c (.returned none))
  | locked {c node} (here : s.calls[c]? = some ⟨node, .reserving⟩) :
      Moved maxActiveRuntimes s (.reserve c) { s.setPhase c .counting with startingLock := some c }
  | counted {c node} (here : s.calls[c]? = some ⟨node, .counting⟩) :
      Moved maxActiveRuntimes s (.count c) (s.setPhase c (.admitting s.inner.keys.length))
  | capped {c node active} (here : s.calls[c]? = some ⟨node, .admitting active⟩) :
      Moved maxActiveRuntimes s (.checkCap c)
        { s.setPhase c (.returned none) with startingLock := none }
  | admitted {c node active} (here : s.calls[c]? = some ⟨node, .admitting active⟩)
      (below : active + s.starting.card < maxActiveRuntimes) :
      Moved maxActiveRuntimes s (.checkCap c)
        { s.setPhase c .startingUp with
          startingLock := none
          starting := insert node s.starting }
  | started {c node result} (here : s.calls[c]? = some ⟨node, .startingUp⟩) :
      Moved maxActiveRuntimes s (.start c result) (s.setPhase c (.releasing result))
  | released {c node port} (here : s.calls[c]? = some ⟨node, .releasing (some port)⟩) :
      Moved maxActiveRuntimes s (.release c)
        { s.setPhase c (.inserting port) with starting := s.starting.erase node }
  | failed {c node} (here : s.calls[c]? = some ⟨node, .releasing none⟩) :
      Moved maxActiveRuntimes s (.release c)
        { s.setPhase c (.returned none) with starting := s.starting.erase node }
  | redundant {c node port existing} (here : s.calls[c]? = some ⟨node, .inserting port⟩)
      (running : s.inner.lookup node = some existing) :
      Moved maxActiveRuntimes s (.insert c) (s.setPhase c (.discarding existing))
  | inserted {c node port} (here : s.calls[c]? = some ⟨node, .inserting port⟩)
      (absent : s.inner.lookup node = none) :
      Moved maxActiveRuntimes s (.insert c)
        { s.setPhase c (.storing port) with inner := s.inner.insert node port }
  | discarded {c node port} (here : s.calls[c]? = some ⟨node, .discarding port⟩) :
      Moved maxActiveRuntimes s (.discard c) (s.setPhase c (.returned (some port)))
  | stored {c node port} (here : s.calls[c]? = some ⟨node, .storing port⟩) :
      Moved maxActiveRuntimes s (.setPort c true)
        { s.setPhase c (.returned (some port)) with store := s.store.setMainPort node port }
  | unstored {c node port} (here : s.calls[c]? = some ⟨node, .storing port⟩) :
      Moved maxActiveRuntimes s (.setPort c false) (s.setPhase c (.returned none))
  | removed {node} :
      Moved maxActiveRuntimes s (.stop node)
        { s.begin node .clearing with inner := s.inner.erase node }
  | cleared {c node} (here : s.calls[c]? = some ⟨node, .clearing⟩) :
      Moved maxActiveRuntimes s (.clearPort c true)
        { s.setPhase c .stopped with store := s.store.clearMainPort node }
  | uncleared {c node} (here : s.calls[c]? = some ⟨node, .clearing⟩) :
      Moved maxActiveRuntimes s (.clearPort c false) (s.setPhase c .stopped)

/-- A step does nothing, or it is one of the moves. -/
theorem step_moved (maxActiveRuntimes : ℕ) (s : RuntimeSystem F) (event : RuntimeEvent) :
    step maxActiveRuntimes s event = s ∨
      Moved maxActiveRuntimes s event (step maxActiveRuntimes s event) := by
  cases event with
  | ensure node parses =>
    right
    simp only [step, portFor]
    split
    · exact .found ‹_›
    · exact .began ‹_›
  | reserve c =>
    simp only [step]
    split
    · right
      split
      · exact .refused ‹_›
      · exact .locked ‹_›
    · exact Or.inl rfl
  | count c =>
    simp only [step]
    split
    · exact Or.inr (.counted ‹_›)
    · exact Or.inl rfl
  | checkCap c =>
    simp only [step]
    split
    · right
      split
      · exact .capped ‹_›
      · exact .admitted ‹_› (by omega)
    · exact Or.inl rfl
  | start c result =>
    simp only [step]
    split
    · exact Or.inr (.started ‹_›)
    · exact Or.inl rfl
  | release c =>
    simp only [step]
    split
    · right
      split
      · exact .released ‹_›
      · exact .failed ‹_›
    · exact Or.inl rfl
  | insert c =>
    simp only [step]
    split
    · right
      split
      · exact .redundant ‹_› ‹_›
      · exact .inserted ‹_› ‹_›
    · exact Or.inl rfl
  | discard c =>
    simp only [step]
    split
    · exact Or.inr (.discarded ‹_›)
    · exact Or.inl rfl
  | setPort c succeeds =>
    simp only [step]
    split
    · right
      cases succeeds
      · exact .unstored ‹_›
      · exact .stored ‹_›
    · exact Or.inl rfl
  | stop node => exact Or.inr .removed
  | clearPort c succeeds =>
    simp only [step]
    split
    · right
      cases succeeds
      · exact .uncleared ‹_›
      · exact .cleared ‹_›
    · exact Or.inl rfl

section Calls

variable {s : RuntimeSystem F} {c i : ℕ} {phase : CallPhase} {old new : RuntimeCall}
  {node : String}

theorem setPhase_self (here : s.calls[c]? = some old) :
    (s.setPhase c phase).calls[c]? = some { old with phase := phase } := by
  simp [setPhase, here]

theorem setPhase_of_ne (h : i ≠ c) : (s.setPhase c phase).calls[i]? = s.calls[i]? := by
  simp [setPhase, Ne.symm h]

/-- The other calls stay as they are. -/
theorem setPhase_of_other (here : s.calls[c]? = some old) (hi : s.calls[i]? = some new)
    (hne : new ≠ old) : (s.setPhase c phase).calls[i]? = some new := by
  rw [setPhase_of_ne ?_, hi]
  rintro rfl
  rw [hi] at here
  exact hne (Option.some.inj here)

/-- A call in the state after a change of phase is an old one or the changed one. -/
theorem getElem?_setPhase (here : s.calls[c]? = some old)
    (h : (s.setPhase c phase).calls[i]? = some new) :
    s.calls[i]? = some new ∨ i = c ∧ new = { old with phase := phase } := by
  by_cases hic : i = c
  · subst hic
    rw [setPhase_self here] at h
    exact Or.inr ⟨rfl, (Option.some.inj h).symm⟩
  · rw [setPhase_of_ne hic] at h
    exact Or.inl h

theorem getElem?_begin (h : (s.begin node phase).calls[i]? = some new) :
    s.calls[i]? = some new ∨ new = ⟨node, phase⟩ := by
  rw [begin, List.getElem?_append] at h
  split at h
  · exact Or.inl h
  · right
    rw [List.getElem?_singleton] at h
    split at h
    · exact (Option.some.inj h).symm
    · cases h

theorem begin_of_some (h : s.calls[i]? = some old) :
    (s.begin node phase).calls[i]? = some old := by
  have hlt : i < s.calls.length := (List.getElem?_eq_some_iff.mp h).1
  rw [begin, List.getElem?_append_left hlt, h]

end Calls

end RuntimeSystem

end ProxyFleet
