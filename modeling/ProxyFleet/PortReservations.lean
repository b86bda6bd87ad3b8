import ProxyFleet.ExclusiveHoldings
import ProxyFleet.ObservedRuns
import ProxyFleet.ProbeStages

/-!
# Reservations of ports

Concurrent allocations share one set of reserved ports. Each goes through its range: it looks
a port up, tries to bind it, and inserts it, with the steps of others in between. What it got
is dropped port by port, by its caller or on the way out of a failed allocation.
-/
namespace ProxyFleet

open ExclusiveHoldings

inductive PortRequest where
  | one
  | several (count : ℕ)
  deriving DecidableEq

/-- Where an allocation stands. Its iterator is the next port, if that is in the range. -/
inductive PortPhase where
  | scanning (next : ℕ)
  | binding (port : ℕ)
  | inserting (port : ℕ)
  | rollingBack (error : String)
  | failed (error : String)
  | returned
  deriving DecidableEq

/-- An allocation, with the ports of its reservations that are not dropped yet. -/
structure PortCall where
  request : PortRequest
  range : PortRange
  phase : PortPhase
  held : List ℕ := []

/-- What a step of a call does to the shared set. -/
inductive PortEffect where
  | none
  | reserve (port : ℕ)
  | release (port : ℕ)

/-- A step of a call. A call can be cancelled while it waits for the socket. -/
inductive PortAct where
  | check
  | bind (binds : Bool)
  | insert
  | cancel
  | rollBack
  | drop (port : ℕ)

namespace PortRequest

/-- The loop has what it wants. A single port is returned where it is inserted. -/
def satisfied (request : PortRequest) (held : List ℕ) : Bool :=
  match request with
  | .one => false
  | .several count => held.length = count

def shortage : PortRequest → String
  | .one => "no available test port"
  | .several _ => "not enough available test ports"

/-- Where a call goes on behind a port that it has inserted. -/
def behind (request : PortRequest) (port : ℕ) : PortPhase :=
  match request with
  | .one => .returned
  | .several _ => .scanning (port + 1)

end PortRequest

/-- A call that is not at the point of a step does nothing. -/
def PortCall.advance (reserved : Finset ℕ) (call : PortCall) (act : PortAct) :
    PortCall × PortEffect :=
  match act, call.phase with
  | .check, .scanning next =>
    if call.request.satisfied call.held then ({ call with phase := .returned }, .none)
    else if call.range.stop < next then
      ({ call with phase := .rollingBack call.request.shortage }, .none)
    else if next ∈ reserved then ({ call with phase := .scanning (next + 1) }, .none)
    else ({ call with phase := .binding next }, .none)
  | .bind binds, .binding port =>
    ({ call with phase := if binds then .inserting port else .scanning (port + 1) }, .none)
  | .insert, .inserting port =>
    if port ∈ reserved then ({ call with phase := .scanning (port + 1) }, .none)
    else
      ({ call with phase := call.request.behind port, held := call.held ++ [port] },
        .reserve port)
  | .cancel, .binding _ => ({ call with phase := .rollingBack "cancelled" }, .none)
  | .rollBack, .rollingBack error =>
    match call.held with
    | [] => ({ call with phase := .failed error }, .none)
    | port :: rest => ({ call with held := rest }, .release port)
  | .drop port, .returned =>
    if port ∈ call.held then ({ call with held := call.held.erase port }, .release port)
    else (call, .none)
  | _, _ => (call, .none)

def PortEffect.apply (reserved : Finset ℕ) : PortEffect → Finset ℕ
  | .none => reserved
  | .reserve port => insert port reserved
  | .release port => reserved.erase port

/-- The shared set and the calls in the order in which they began. -/
structure PortSystem where
  reserved : Finset ℕ := ∅
  calls : List PortCall := []

/-- A call begins, or the call of that number makes a step. -/
inductive PortEvent where
  | allocatePort (range : PortRange)
  | allocatePorts (range : PortRange) (count : ℕ)
  | advance (call : ℕ) (act : PortAct)

namespace PortSystem

def begin (s : PortSystem) (request : PortRequest) (range : PortRange) : PortSystem :=
  { s with
    calls := s.calls ++ [{ request := request, range := range, phase := .scanning range.start }] }

def step (s : PortSystem) : PortEvent → PortSystem
  | .allocatePort range => s.begin .one range
  | .allocatePorts range count => s.begin (.several count) range
  | .advance c act =>
    match s.calls[c]? with
    | none => s
    | some call =>
      { reserved := (call.advance s.reserved act).2.apply s.reserved
        calls := s.calls.set c (call.advance s.reserved act).1 }

/-- The ports of the reservations that are alive, those of running calls included. -/
def live (s : PortSystem) : List ℕ := s.calls.flatMap (·.held)

end PortSystem

/-- A port of the range. -/
def PortRange.Has (range : PortRange) (port : ℕ) : Prop :=
  range.start ≤ port ∧ port ≤ range.stop

/-- Reservations are exclusive and exact. -/
structure PortSystem.Sound (s : PortSystem) : Prop where
  distinct : s.live.Nodup
  inside : ∀ call ∈ s.calls, ∀ port ∈ call.held, call.range.Has port
  exact : ∀ port, port ∈ s.reserved ↔ port ∈ s.live
  rolledBack : ∀ call ∈ s.calls, ∀ error, call.phase = .failed error → call.held = []

/-- What a phase says of the range and the ports of its call. -/
def PortPhase.Fits (range : PortRange) (held : List ℕ) : PortPhase → Prop
  | .scanning next => range.start ≤ next
  | .binding port => range.Has port
  | .inserting port => range.Has port
  | .rollingBack _ => True
  | .failed _ => held = []
  | .returned => True

/-- A call looks at ports of its range alone, and a failed one holds none. -/
structure PortCall.Orderly (call : PortCall) : Prop where
  phase : call.phase.Fits call.range call.held
  held : ∀ port ∈ call.held, call.range.Has port

/-- An effect on the shared set agrees with what the call holds before and after it. -/
def PortEffect.Accounts (reserved : Finset ℕ) (before after : List ℕ) : PortEffect → Prop
  | .none => after = before
  | .reserve port => port ∉ reserved ∧ after.Perm (port :: before)
  | .release port => before.Perm (port :: after)

namespace PortCall

variable (reserved : Finset ℕ) (call : PortCall) (act : PortAct)

theorem advance_accounts :
    (call.advance reserved act).2.Accounts reserved call.held
      (call.advance reserved act).1.held := by
  simp only [advance]
  split
  · split
    · rfl
    · split
      · rfl
      · split <;> rfl
  · rfl
  · split
    · rfl
    · next hfree => exact ⟨hfree, List.perm_append_singleton _ _⟩
  · rfl
  · split
    · rfl
    · next hheld =>
      rw [hheld]
      exact List.Perm.refl _
  · split
    · next hmem => exact List.perm_cons_erase hmem
    · rfl
  · rfl

variable {reserved call act}

theorem Orderly.advance (h : call.Orderly) : (call.advance reserved act).1.Orderly := by
  have hfits := h.phase
  simp only [PortCall.advance]
  split
  · next next hphase =>
    rw [hphase] at hfits
    have hstart : call.range.start ≤ next := hfits
    split
    · exact ⟨trivial, h.held⟩
    · split
      · exact ⟨trivial, h.held⟩
      · next hstop =>
        split
        · exact ⟨Nat.le_succ_of_le hstart, h.held⟩
        · exact ⟨⟨hstart, Nat.le_of_not_lt hstop⟩, h.held⟩
  · next binds port hphase =>
    rw [hphase] at hfits
    have hport : call.range.Has port := hfits
    cases binds with
    | true => exact ⟨hport, h.held⟩
    | false => exact ⟨Nat.le_succ_of_le hport.1, h.held⟩
  · next port hphase =>
    rw [hphase] at hfits
    have hport : call.range.Has port := hfits
    split
    · exact ⟨Nat.le_succ_of_le hport.1, h.held⟩
    · refine ⟨?_, fun other hother => ?_⟩
      · show (call.request.behind port).Fits call.range (call.held ++ [port])
        cases call.request with
        | one => trivial
        | several count => exact Nat.le_succ_of_le hport.1
      · rcases List.mem_append.mp hother with hother | hother
        · exact h.held other hother
        · rw [List.mem_singleton.mp hother]
          exact hport
  · exact ⟨trivial, h.held⟩
  · next error hphase =>
    split
    · next hnone => exact ⟨hnone, h.held⟩
    · next port rest hheld =>
      refine ⟨?_, fun other hother => h.held other ?_⟩
      · show call.phase.Fits call.range rest
        rw [hphase]
        trivial
      · rw [hheld]
        exact List.mem_cons_of_mem _ hother
  · next hphase =>
    split
    · refine ⟨?_, fun other hother => h.held other (List.mem_of_mem_erase hother)⟩
      show call.phase.Fits call.range (call.held.erase _)
      rw [hphase]
      trivial
    · exact h
  · exact h

end PortCall

namespace PortSystem

/-- The invariant of the runs. -/
structure Accounted (s : PortSystem) : Prop where
  exact : Exact s.reserved s.live
  orderly : ∀ call ∈ s.calls, call.Orderly

variable {s : PortSystem}

theorem Accounted.begin (h : s.Accounted) (request : PortRequest) (range : PortRange) :
    (s.begin request range).Accounted where
  exact := h.exact.join rfl
  orderly call hcall := by
    rcases List.mem_append.mp hcall with hcall | hcall
    · exact h.orderly call hcall
    · rw [List.mem_singleton.mp hcall]
      exact ⟨Nat.le_refl _, fun port hport => absurd hport List.not_mem_nil⟩

/-- One step of one call keeps the set exact, whatever the others are about to do. -/
theorem Accounted.step (h : s.Accounted) (event : PortEvent) : (s.step event).Accounted := by
  cases event with
  | allocatePort range => exact h.begin .one range
  | allocatePorts range count => exact h.begin (.several count) range
  | advance c act =>
    rw [PortSystem.step]
    cases hcall : s.calls[c]? with
    | none => exact h
    | some call =>
      refine ⟨?_, fun other hother => ?_⟩
      · have haccounts := call.advance_accounts s.reserved act
        show Exact (PortEffect.apply _ _)
          ((s.calls.set c (call.advance s.reserved act).1).flatMap (·.held))
        cases heffect : (call.advance s.reserved act).2 with
        | none =>
          rw [heffect] at haccounts
          exact h.exact.keep hcall haccounts
        | reserve port =>
          rw [heffect] at haccounts
          exact h.exact.acquire hcall haccounts.1 haccounts.2
        | release port =>
          rw [heffect] at haccounts
          exact h.exact.release hcall haccounts
      · rcases List.mem_or_eq_of_mem_set hother with hother | rfl
        · exact h.orderly other hother
        · exact (h.orderly call (List.mem_of_getElem? hcall)).advance

theorem accounted_initial : ({} : PortSystem).Accounted :=
  ⟨Exact.empty, fun _ hcall => absurd hcall List.not_mem_nil⟩

theorem Accounted.sound (h : s.Accounted) : s.Sound where
  distinct := h.exact.nodup
  inside call hcall := (h.orderly call hcall).held
  exact := h.exact.mem_iff
  rolledBack _ hcall error hfailed := by
    have hfits := (h.orderly _ hcall).phase
    rw [hfailed] at hfits
    exact hfits

/-- Under every interleaving the reservations are exclusive and exact. -/
theorem reservations_sound (events : List PortEvent) :
    (ObservedRuns.run step {} events).Sound :=
  (ObservedRuns.run_preserves (fun _ event h => h.step event) accounted_initial events).sound

end PortSystem

end ProxyFleet
