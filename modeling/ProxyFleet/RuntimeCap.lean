import ProxyFleet.RuntimeManager

/-!
# The cap on persistent runtimes

A node is committed while it has a runtime in the map, while a runtime is being
started for it, and between the release of its reservation and the insertion into
the map. Admission does not see the last kind. The map stays below the cap in the
runs that admit a node only where the committed nodes leave room for it, and an
admission without room can always be continued beyond the cap.
-/
namespace ProxyFleet

open ObservedRuns

/-- A call in this phase may still put a runtime into the map. -/
def CallPhase.occupies : CallPhase → Bool
  | .startingUp | .releasing (some _) | .inserting _ => true
  | _ => false

namespace RuntimeSystem

variable {F : Type} {maxActiveRuntimes : ℕ} {s s' : RuntimeSystem F}

/-- The nodes that have a runtime or may get one without another admission. -/
def committed (s : RuntimeSystem F) : Finset String :=
  s.inner.keys.toFinset ∪
    ((s.calls.filter fun call => call.phase.occupies).map RuntimeCall.node).toFinset

/-- The node that the admission of a call would reserve. -/
def admittedNode (maxActiveRuntimes : ℕ) (s : RuntimeSystem F) (c : ℕ) : Option String :=
  match s.calls[c]? with
  | some ⟨node, .admitting active⟩ =>
    if active + s.starting.card < maxActiveRuntimes then some node else none
  | _ => none

/-- An admission leaves the committed nodes within the cap. -/
def WithinCap (maxActiveRuntimes : ℕ) (s : RuntimeSystem F) : RuntimeEvent → Prop
  | .checkCap c => ∀ node ∈ s.admittedNode maxActiveRuntimes c,
    (insert node s.committed).card ≤ maxActiveRuntimes
  | _ => True

theorem mem_committed {x : String} :
    x ∈ s.committed ↔
      x ∈ s.inner ∨ ∃ call ∈ s.calls, call.phase.occupies = true ∧ call.node = x := by
  simp [committed, AList.mem_keys, and_assoc]

theorem inner_le_committed : s.inner.keys.length ≤ s.committed.card := by
  rw [← List.toFinset_card_of_nodup s.inner.keys_nodup]
  exact Finset.card_le_card Finset.subset_union_left

/-- A call after a change of phase is an old one or the changed one. -/
theorem mem_setPhase {c : ℕ} {phase : CallPhase} {old call : RuntimeCall}
    (here : s.calls[c]? = some old) (h : call ∈ (s.setPhase c phase).calls) :
    call ∈ s.calls ∨ call = { old with phase := phase } := by
  obtain ⟨i, hi⟩ := List.mem_iff_getElem?.mp h
  rcases getElem?_setPhase here hi with hbefore | ⟨-, hchanged⟩
  · exact Or.inl (List.mem_iff_getElem?.mpr ⟨i, hbefore⟩)
  · exact Or.inr hchanged

theorem mem_of_here {c : ℕ} {call : RuntimeCall} (here : s.calls[c]? = some call) :
    call ∈ s.calls := List.mem_iff_getElem?.mpr ⟨c, here⟩

section

variable {c : ℕ} {phase : CallPhase} {old : RuntimeCall}

/-- A change of phase that does not begin to occupy commits no further node. -/
theorem committed_setPhase (here : s.calls[c]? = some old)
    (h : phase.occupies = true → old.phase.occupies = true) :
    (s.setPhase c phase).committed ⊆ s.committed := by
  intro x hx
  rcases mem_committed.mp hx with hin | ⟨call, hcall, hocc, rfl⟩
  · exact mem_committed.mpr (Or.inl hin)
  · apply mem_committed.mpr
    rcases mem_setPhase here hcall with hold | rfl
    · exact Or.inr ⟨call, hold, hocc, rfl⟩
    · exact Or.inr ⟨old, mem_of_here here, h hocc, rfl⟩

/-- An insertion into the map commits no further node if its call occupied before. -/
theorem committed_insert (here : s.calls[c]? = some old) (hphase : phase.occupies = false)
    (hold : old.phase.occupies = true) (port : ℕ) :
    ({ s.setPhase c phase with inner := s.inner.insert old.node port } :
      RuntimeSystem F).committed ⊆ s.committed := by
  intro x hx
  rcases mem_committed.mp hx with hin | hcalls
  · rcases (AList.mem_insert s.inner).mp hin with rfl | hin
    · exact mem_committed.mpr (Or.inr ⟨old, mem_of_here here, hold, rfl⟩)
    · exact mem_committed.mpr (Or.inl hin)
  · have hset : x ∈ (s.setPhase c phase).committed := mem_committed.mpr (Or.inr hcalls)
    exact committed_setPhase here (by simp [hphase]) hset

theorem committed_begin {node : String} (h : phase.occupies = false) :
    (s.begin node phase).committed = s.committed := by
  ext x
  simp [mem_committed, begin, h]

theorem committed_admit {node : String} {active : ℕ}
    (here : s.calls[c]? = some ⟨node, .admitting active⟩) :
    (s.setPhase c .startingUp).committed ⊆ insert node s.committed := by
  intro x hx
  rw [Finset.mem_insert]
  rcases mem_committed.mp hx with hin | ⟨call, hcall, hocc, rfl⟩
  · exact Or.inr (mem_committed.mpr (Or.inl hin))
  · rcases mem_setPhase here hcall with hold | rfl
    · exact Or.inr (mem_committed.mpr (Or.inr ⟨call, hold, hocc, rfl⟩))
    · exact Or.inl rfl

end

/-- Only an admission commits a node. -/
theorem moved_committed {event : RuntimeEvent} (h : Moved maxActiveRuntimes s event s') :
    s'.committed ⊆ s.committed ∨
      ∃ c, event = .checkCap c ∧ ∃ node ∈ s.admittedNode maxActiveRuntimes c,
        s'.committed ⊆ insert node s.committed := by
  cases h with
  | found running => exact Or.inl (committed_begin rfl).subset
  | began absent => exact Or.inl (committed_begin (by split <;> rfl)).subset
  | refused here => exact Or.inl (committed_setPhase here (by simp [CallPhase.occupies]))
  | locked here => exact Or.inl (committed_setPhase here (by simp [CallPhase.occupies]))
  | counted here => exact Or.inl (committed_setPhase here (by simp [CallPhase.occupies]))
  | capped here => exact Or.inl (committed_setPhase here (by simp [CallPhase.occupies]))
  | @admitted c node active here below =>
    right
    refine ⟨c, rfl, node, ?_, committed_admit here⟩
    simp [admittedNode, here, below]
  | started here => exact Or.inl (committed_setPhase here (fun _ => rfl))
  | released here => exact Or.inl (committed_setPhase here (fun _ => rfl))
  | failed here => exact Or.inl (committed_setPhase here (by simp [CallPhase.occupies]))
  | redundant here running =>
    exact Or.inl (committed_setPhase here (by simp [CallPhase.occupies]))
  | inserted here absent => exact Or.inl (committed_insert here rfl rfl _)
  | discarded here => exact Or.inl (committed_setPhase here (by simp [CallPhase.occupies]))
  | stored here => exact Or.inl (committed_setPhase here (by simp [CallPhase.occupies]))
  | unstored here => exact Or.inl (committed_setPhase here (by simp [CallPhase.occupies]))
  | @removed node =>
    left
    intro x hx
    rcases mem_committed.mp hx with hin | hcalls
    · exact mem_committed.mpr (Or.inl (AList.mem_erase.mp hin).2)
    · have hbegin : x ∈ (s.begin node .clearing).committed := mem_committed.mpr (Or.inr hcalls)
      rwa [committed_begin rfl] at hbegin
  | cleared here => exact Or.inl (committed_setPhase here (by simp [CallPhase.occupies]))
  | uncleared here => exact Or.inl (committed_setPhase here (by simp [CallPhase.occupies]))

theorem committed_step {event : RuntimeEvent} (hcap : WithinCap maxActiveRuntimes s event)
    (h : s.committed.card ≤ maxActiveRuntimes) :
    (step maxActiveRuntimes s event).committed.card ≤ maxActiveRuntimes := by
  rcases step_moved maxActiveRuntimes s event with hstay | hmoved
  · rwa [hstay]
  · rcases moved_committed hmoved with hsubset | ⟨c, rfl, node, hnode, hsubset⟩
    · exact le_trans (Finset.card_le_card hsubset) h
    · exact le_trans (Finset.card_le_card hsubset) (hcap node hnode)

theorem committed_initial (store : Store F) : (initial store).committed = ∅ := by
  simp [committed, initial]

/-- In a run whose admissions leave the committed nodes within the cap, the map never
exceeds it. -/
theorem runtimes_le_cap {store : Store F} {events : List RuntimeEvent}
    (h : Admitted (step maxActiveRuntimes) (WithinCap maxActiveRuntimes) (initial store) events) :
    Throughout (step maxActiveRuntimes) (fun s => s.inner.keys.length ≤ maxActiveRuntimes)
      (initial store) events := by
  refine throughout_of_invariant (J := fun s => s.committed.card ≤ maxActiveRuntimes)
    ?_ ?_ ?_ h
  · intro s event hcap
    exact committed_step hcap
  · intro s hcommitted
    exact le_trans inner_le_committed hcommitted
  · simp [committed_initial]

section Overcommitted

variable (maxActiveRuntimes)

/-- Steps of one call while the reservations are free: the map grows, and the other calls
are left alone. -/
structure Grown (c : ℕ) (s s' : RuntimeSystem F) : Prop where
  free : s'.startingLock = none
  kept : ∀ x ∈ s.inner, x ∈ s'.inner
  others : ∀ i, i ≠ c → s'.calls[i]? = s.calls[i]?

theorem Grown.trans {c : ℕ} {s s' s'' : RuntimeSystem F} (h : Grown c s s')
    (h' : Grown c s' s'') : Grown c s s'' where
  free := h'.free
  kept := fun x hx => h'.kept x (h.kept x hx)
  others := fun i hi => (h'.others i hi).trans (h.others i hi)

theorem grown_start (hfree : s.startingLock = none) (c : ℕ) (started : Option ℕ) :
    Grown c s (step maxActiveRuntimes s (.start c started)) := by
  rcases step_moved maxActiveRuntimes s (.start c started) with hstay | hmoved
  · rw [hstay]
    exact ⟨hfree, fun _ hx => hx, fun _ _ => rfl⟩
  · generalize step maxActiveRuntimes s (.start c started) = s' at hmoved ⊢
    cases hmoved with
    | started here => exact ⟨hfree, fun _ hx => hx, fun i hi => setPhase_of_ne hi⟩

theorem grown_release (hfree : s.startingLock = none) (c : ℕ) :
    Grown c s (step maxActiveRuntimes s (.release c)) := by
  rcases step_moved maxActiveRuntimes s (.release c) with hstay | hmoved
  · rw [hstay]
    exact ⟨hfree, fun _ hx => hx, fun _ _ => rfl⟩
  · generalize step maxActiveRuntimes s (.release c) = s' at hmoved ⊢
    cases hmoved with
    | released here => exact ⟨hfree, fun _ hx => hx, fun i hi => setPhase_of_ne hi⟩
    | failed here => exact ⟨hfree, fun _ hx => hx, fun i hi => setPhase_of_ne hi⟩

theorem grown_insert (hfree : s.startingLock = none) (c : ℕ) :
    Grown c s (step maxActiveRuntimes s (.insert c)) := by
  rcases step_moved maxActiveRuntimes s (.insert c) with hstay | hmoved
  · rw [hstay]
    exact ⟨hfree, fun _ hx => hx, fun _ _ => rfl⟩
  · generalize step maxActiveRuntimes s (.insert c) = s' at hmoved ⊢
    cases hmoved with
    | redundant here running =>
      exact ⟨hfree, fun _ hx => hx, fun i hi => setPhase_of_ne hi⟩
    | inserted here absent =>
      exact ⟨hfree, fun _ hx => (AList.mem_insert s.inner).mpr (Or.inr hx),
        fun i hi => setPhase_of_ne hi⟩

/-- The start, the release and the insertion of one call. -/
def settleCall (c : ℕ) : List RuntimeEvent := [.start c (some 0), .release c, .insert c]

theorem grown_settleCall (hfree : s.startingLock = none) (c : ℕ) :
    Grown c s (run (step maxActiveRuntimes) s (settleCall c)) := by
  have hstart := grown_start maxActiveRuntimes hfree c (some 0)
  have hrelease := grown_release maxActiveRuntimes hstart.free c
  have hinsert := grown_insert maxActiveRuntimes hrelease.free c
  exact (hstart.trans hrelease).trans hinsert

theorem insert_occupied {c p : ℕ} {node : String}
    (here : s.calls[c]? = some ⟨node, .inserting p⟩) :
    node ∈ (step maxActiveRuntimes s (.insert c)).inner := by
  simp only [step, here]
  split
  · rename_i existing running
    exact AList.lookup_isSome.mp (by simp [setPhase, running])
  · exact (AList.mem_insert s.inner).mpr (Or.inl rfl)

theorem release_occupied {c p : ℕ} {node : String} (hfree : s.startingLock = none)
    (here : s.calls[c]? = some ⟨node, .releasing (some p)⟩) :
    (step maxActiveRuntimes s (.release c)).calls[c]? = some ⟨node, .inserting p⟩ := by
  simp [step, here, hfree, setPhase]

/-- A call that occupies puts its node into the map. -/
theorem settleCall_inserts (hfree : s.startingLock = none) {c : ℕ} {call : RuntimeCall}
    (here : s.calls[c]? = some call) (h : call.phase.occupies = true) :
    call.node ∈ (run (step maxActiveRuntimes) s (settleCall c)).inner := by
  obtain ⟨node, phase⟩ := call
  have hstarted := (grown_start maxActiveRuntimes hfree c (some 0)).free
  match phase, h with
  | .startingUp, _ =>
    have hstart : (step maxActiveRuntimes s (.start c (some 0))).calls[c]? =
        some ⟨node, .releasing (some 0)⟩ := by simp [step, here, setPhase]
    exact insert_occupied maxActiveRuntimes
      (release_occupied maxActiveRuntimes hstarted hstart)
  | .releasing (some port), _ =>
    have hstart : step maxActiveRuntimes s (.start c (some 0)) = s := by simp [step, here]
    refine insert_occupied maxActiveRuntimes
      (release_occupied maxActiveRuntimes (p := port) hstarted ?_)
    rw [hstart, here]
  | .inserting port, _ =>
    have hstart : step maxActiveRuntimes s (.start c (some 0)) = s := by simp [step, here]
    have hrelease : step maxActiveRuntimes s (.release c) = s := by simp [step, here]
    refine insert_occupied maxActiveRuntimes (p := port) ?_
    rw [hstart, hrelease, here]

/-- The calls of a list of numbers, settled one after the other. -/
theorem settleCalls_insert (hfree : s.startingLock = none) (cs : List ℕ) :
    let after := run (step maxActiveRuntimes) s (cs.flatMap settleCall)
    (∀ x ∈ s.inner, x ∈ after.inner) ∧
      ∀ c ∈ cs, ∀ call, s.calls[c]? = some call → call.phase.occupies = true →
        call.node ∈ after.inner := by
  induction cs generalizing s with
  | nil => exact ⟨fun _ hx => hx, by simp⟩
  | cons c cs ih =>
    have hgrown := grown_settleCall maxActiveRuntimes hfree c
    obtain ⟨hkept, hsettled⟩ := ih hgrown.free
    rw [List.flatMap_cons, run_append]
    refine ⟨fun x hx => hkept x (hgrown.kept x hx), ?_⟩
    intro i hi call hcall hocc
    by_cases hic : i = c
    · subst hic
      exact hkept _ (settleCall_inserts _ hfree hcall hocc)
    · have hrest : i ∈ cs := by simpa [hic] using hi
      exact hsettled i hrest call (by rw [hgrown.others i hic, hcall]) hocc

/-- The condition is needed: once more nodes are committed than the cap allows, some
continuation puts that many runtimes into the map. -/
theorem exceeds_of_overcommitted (hfree : s.startingLock = none)
    (h : maxActiveRuntimes < s.committed.card) :
    ∃ events, maxActiveRuntimes < (run (step maxActiveRuntimes) s events).inner.keys.length := by
  refine ⟨(List.range s.calls.length).flatMap settleCall, ?_⟩
  obtain ⟨hkept, hsettled⟩ := settleCalls_insert maxActiveRuntimes hfree
    (List.range s.calls.length)
  have hsubset : s.committed ⊆
      (run (step maxActiveRuntimes) s
        ((List.range s.calls.length).flatMap settleCall)).inner.keys.toFinset := by
    intro x hx
    rw [List.mem_toFinset, ← AList.mem_keys]
    rcases mem_committed.mp hx with hin | ⟨call, hcall, hocc, rfl⟩
    · exact hkept x hin
    · obtain ⟨c, hc⟩ := List.mem_iff_getElem?.mp hcall
      have hlt : c < s.calls.length := (List.getElem?_eq_some_iff.mp hc).1
      exact hsettled c (List.mem_range.mpr hlt) call hc hocc
  rw [← List.toFinset_card_of_nodup (AList.keys_nodup _)]
  exact lt_of_lt_of_le h (Finset.card_le_card hsubset)

end Overcommitted

instance decidableWithinCap (s : RuntimeSystem F) :
    ∀ event, Decidable (WithinCap maxActiveRuntimes s event)
  | .checkCap c => inferInstanceAs (Decidable (∀ node ∈ s.admittedNode maxActiveRuntimes c, _))
  | .ensure _ _ | .reserve _ | .count _ | .start _ _ | .release _ | .insert _ | .discard _
  | .setPort _ _ | .stop _ | .clearPort _ _ => isTrue trivial

end RuntimeSystem

section OneRuntime

/-- The second call is admitted between the release and the insertion of the first. -/
def overlappingCalls : List RuntimeEvent :=
  startedCall "a" 0 30000 ++ startedCall "b" 1 30001 ++ [.insert 0, .insert 1]

theorem runtimes_le_cap_inTurn :
    Throughout (RuntimeSystem.step 1) (fun s => s.inner.keys.length ≤ 1)
      (RuntimeSystem.initial (Store.empty : Store ℚ))
      (startedCall "a" 0 30000 ++ [.insert 0] ++ startedCall "b" 1 30001) :=
  RuntimeSystem.runtimes_le_cap (by decide +kernel)

theorem cap_exceeded :
    ¬Throughout (RuntimeSystem.step 1) (fun s => s.inner.keys.length ≤ 1)
      (RuntimeSystem.initial (Store.empty : Store ℚ)) overlappingCalls := by
  intro h
  have htwo : (run (RuntimeSystem.step 1) (RuntimeSystem.initial (Store.empty : Store ℚ))
      overlappingCalls).inner.keys.length = 2 := by decide +kernel
  have hone := h.last
  rw [htwo] at hone
  omega

end OneRuntime

end ProxyFleet
