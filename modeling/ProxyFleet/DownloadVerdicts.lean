import ProxyFleet.RelayVerdicts

/-!
# Verdicts of a download

A download turns to its mirrors in their order, until one of them decides it or the budget is
spent. One mirror alone is no evidence against a proxy. The report keeps to that exactly when
a first mirror that timed out is followed by a second one.
-/
namespace ProxyFleet

/-- A mirror that a download turned to, with its step and its event. -/
structure MirrorVisit (F : Type) where
  endpoint : String
  step : ProbeStep
  probe : ProbeEvent F

namespace MirrorVisit

variable {F : Type} (visit : MirrorVisit F)

/-- The mirror was requested. -/
def Attempted : Prop := ∃ stage now, visit.step = .attempt stage now

/-- The mirror decides the download. -/
def decides : Bool :=
  visit.probe.failureClass = .success ∨ visit.probe.failureClass = .downloadTooSlow

/-- The mirror timed out, by itself or in its tunnel. -/
def timedOut : Bool :=
  visit.probe.failureClass = .downloadTimeout ∨ visit.probe.failureClass = .tlsTimeout

variable {visit}

theorem decides_eq_false_of_timedOut (h : visit.timedOut = true) : visit.decides = false := by
  simp only [timedOut, decide_eq_true_eq] at h
  rcases h with h | h <;> simp [decides, h]

end MirrorVisit

/-- Two mirrors at least were requested. -/
def TwoAttempted {F : Type} (visits : List (MirrorVisit F)) : Prop :=
  ∃ first ∈ visits, ∃ second ∈ visits, first.Attempted ∧ second.Attempted ∧
    first.endpoint ≠ second.endpoint

theorem not_twoAttempted_of_unique {F : Type} {visits : List (MirrorVisit F)}
    {visit : MirrorVisit F} (h : ∀ item ∈ visits, item.Attempted → item = visit) :
    ¬ TwoAttempted visits := by
  rintro ⟨first, hfirst, second, hsecond, hattempted₁, hattempted₂, hne⟩
  rw [h first hfirst hattempted₁, h second hsecond hattempted₂] at hne
  exact hne rfl

/-- A report blames the proxy only with two mirrors behind it that failed in the same way.
Every other failure but a slow download is inconclusive. -/
structure MirrorsSound {F : Type} (visits : List (MirrorVisit F))
    (reported : FailureClass) : Prop where
  blamed : reported ∈ [FailureClass.downloadTimeout, .tlsTimeout] → TwoAttempted visits ∧
    ∀ visit ∈ visits, visit.Attempted → visit.probe.failureClass = reported
  inconclusive : reported ≠ .success → reported ≠ .downloadTooSlow →
    (¬ ∃ failureClass ∈ [FailureClass.downloadTimeout, .tlsTimeout], TwoAttempted visits ∧
      ∀ visit ∈ visits, visit.Attempted → visit.probe.failureClass = failureClass) →
    reported = .endpointFailure

section Visits

variable {F : Type} [F64 F] [F64Convert F] (config : ProbeConfig F) (deadline : ℕ)
  (view : RelayView)

def mirrorVisit (endpoint : String) (i : ℕ) : MirrorVisit F :=
  let (step, probe) := downloadEndpoint config deadline endpoint (view.mirror i)
  ⟨endpoint, step, probe⟩

/-- The mirrors that a download turns to, from a position on. -/
def mirrorVisits : List String → ℕ → List (MirrorVisit F)
  | [], _ => []
  | endpoint :: endpoints, i =>
    mirrorVisit config deadline view endpoint i ::
      if (mirrorVisit config deadline view endpoint i).decides then []
      else
        match remainingBudget deadline (view.leftAt i) with
        | none => []
        | some _ => mirrorVisits endpoints (i + 1)

def downloadVisits : List (MirrorVisit F) :=
  mirrorVisits config deadline view ((downloadEndpoints config).take 3) 0

/-- The first mirror of a download. -/
def firstVisit : MirrorVisit F := mirrorVisit config deadline view config.downloadTest.testUrl 0

/-- A first mirror that timed out leaves the word to a second one. -/
def SecondOpinion : Prop :=
  (firstVisit config deadline view).timedOut = true →
    1 < (downloadEndpoints config).length ∧ view.leftAt 0 < deadline ∧
      ((firstVisit config deadline view).probe.failureClass = .downloadTimeout →
        (view.mirror 1).checkedAt < deadline)

end Visits

section Loop

variable {F : Type} [F64 F] [F64Convert F] {config : ProbeConfig F} {deadline : ℕ}
  {view : RelayView} {endpoint : String} {endpoints : List String} {i : ℕ}

theorem mirrorVisits_cons_decided (h : (mirrorVisit config deadline view endpoint i).decides) :
    mirrorVisits config deadline view (endpoint :: endpoints) i =
      [mirrorVisit config deadline view endpoint i] := by
  rw [mirrorVisits, if_pos h]

theorem mirrorVisits_cons_left (h : deadline ≤ view.leftAt i) :
    mirrorVisits config deadline view (endpoint :: endpoints) i =
      [mirrorVisit config deadline view endpoint i] := by
  rw [mirrorVisits, remainingBudget_eq_none.mpr h, ite_self]

theorem mirrorVisits_cons_next
    (hdecides : (mirrorVisit config deadline view endpoint i).decides = false)
    (h : view.leftAt i < deadline) :
    mirrorVisits config deadline view (endpoint :: endpoints) i =
      mirrorVisit config deadline view endpoint i ::
        mirrorVisits config deadline view endpoints (i + 1) := by
  simp only [mirrorVisits, hdecides, remainingBudget_eq_some.mpr ⟨h, rfl⟩, Bool.false_eq_true,
    if_false]

theorem attempted_mirrorVisit (h : (view.mirror i).checkedAt < deadline) :
    (mirrorVisit config deadline view endpoint i).Attempted :=
  ⟨_, _, downloadEndpoint_attempted config endpoint h⟩

theorem expired_mirrorVisit (h : deadline ≤ (view.mirror i).checkedAt) :
    ¬ (mirrorVisit config deadline view endpoint i).Attempted ∧
      (mirrorVisit config deadline view endpoint i).probe.failureClass = .downloadTimeout := by
  obtain ⟨hstep, hclass⟩ := downloadEndpoint_expired config endpoint h
  refine ⟨?_, hclass⟩
  rintro ⟨stage, now, hattempt⟩
  cases hstep.symm.trans hattempt

/-- A mirror without budget ends the visits undecided. -/
theorem mirrorVisits_cons_expired (h : deadline ≤ (view.mirror i).checkedAt) :
    mirrorVisits config deadline view (endpoint :: endpoints) i =
      [mirrorVisit config deadline view endpoint i] :=
  mirrorVisits_cons_left (h.trans (view.checkedAt_le_leftAt i))

theorem mirrorLoop_cons {failures : List (ProbeEvent F)} {steps : List ProbeStep}
    {visit : MirrorVisit F} (h : mirrorVisit config deadline view endpoint i = visit) :
    mirrorLoop config deadline view (endpoint :: endpoints) i failures steps =
      if visit.decides then (steps ++ [visit.step], .error visit.probe)
      else
        match remainingBudget deadline (view.leftAt i) with
        | none => (steps ++ [visit.step], .ok (failures ++ [visit.probe]))
        | some _ => mirrorLoop config deadline view endpoints (i + 1) (failures ++ [visit.probe])
            (steps ++ [visit.step]) := by
  subst h
  simp only [mirrorLoop, mirrorVisit, MirrorVisit.decides]
  exact if_congr decide_eq_true_iff.symm rfl rfl

/-- The loop of the code goes through the visits. -/
theorem mirrorLoop_visits {failures : List (ProbeEvent F)} {steps : List ProbeStep} :
    mirrorLoop config deadline view endpoints i failures steps =
      (steps ++ (mirrorVisits config deadline view endpoints i).map (·.step),
        match (mirrorVisits config deadline view endpoints i).find? (·.decides) with
        | some visit => .error visit.probe
        | none =>
          .ok (failures ++ (mirrorVisits config deadline view endpoints i).map (·.probe))) := by
  induction endpoints generalizing i failures steps with
  | nil => simp [mirrorLoop, mirrorVisits]
  | cons endpoint endpoints ih =>
    rw [mirrorLoop_cons rfl]
    cases hdecides : (mirrorVisit config deadline view endpoint i).decides with
    | true =>
      rw [if_pos rfl, mirrorVisits_cons_decided hdecides]
      simp only [List.map_cons, List.map_nil, List.find?_cons, hdecides]
    | false =>
      rw [if_neg Bool.false_ne_true]
      rcases Nat.lt_or_ge (view.leftAt i) deadline with hleft | hleft
      · rw [remainingBudget_eq_some.mpr ⟨hleft, rfl⟩, mirrorVisits_cons_next hdecides hleft]
        simp only [ih, List.map_cons, List.find?_cons, hdecides, List.append_assoc,
          List.singleton_append]
      · rw [remainingBudget_eq_none.mpr hleft, mirrorVisits_cons_left hleft]
        simp only [List.map_cons, List.map_nil, List.find?_cons, List.find?_nil, hdecides]

theorem download_report :
    (download config deadline view).2 =
      match (downloadVisits config deadline view).find? (·.decides) with
      | some visit => visit.probe
      | none => undecidedDownload ((downloadVisits config deadline view).map (·.probe)) := by
  rw [download, mirrorLoop_visits, downloadVisits]
  cases (mirrorVisits config deadline view ((downloadEndpoints config).take 3) 0).find?
    (·.decides) <;> rfl

omit [F64 F] [F64Convert F] in
theorem undecidedDownload_class_eq {failures : List (ProbeEvent F)} {failureClass : FailureClass}
    (hclass : failureClass ∈ [FailureClass.downloadTimeout, .tlsTimeout]) :
    (undecidedDownload failures).failureClass = failureClass ↔
      failures ≠ [] ∧ ∀ item ∈ failures, item.failureClass = failureClass := by
  have hboth : failures ≠ [] ∧ (∀ item ∈ failures, item.failureClass = .downloadTimeout) →
      ¬ ∀ item ∈ failures, item.failureClass = .tlsTimeout := by
    rintro ⟨hne, hall⟩ htls
    obtain ⟨item, hitem⟩ := List.exists_mem_of_ne_nil failures hne
    cases (hall item hitem).symm.trans (htls item hitem)
  simp only [List.mem_cons, List.not_mem_nil, or_false] at hclass
  simp only [undecidedDownload]
  rcases hclass with rfl | rfl
  · split
    · next h => exact iff_of_true rfl h
    · next h =>
      refine iff_of_false ?_ h
      split <;> decide
  · split
    · next h => exact iff_of_false (by decide) fun htls => hboth h htls.2
    · split
      · next h => exact iff_of_true rfl h
      · next h => exact iff_of_false (by decide) h

theorem distinctEndpoints_head (endpoint : String) (endpoints : List String) :
    ∃ rest, distinctEndpoints (endpoint :: endpoints) = endpoint :: rest := by
  have hsuffix : [endpoint] <:+ (endpoints.reverse ++ [endpoint]).dedup := by
    rw [List.dedup_append]
    exact List.suffix_union_right _ _
  obtain ⟨front, hfront⟩ := hsuffix
  refine ⟨front.reverse, ?_⟩
  rw [distinctEndpoints, List.reverse_cons, ← hfront, List.reverse_append]
  rfl

omit [F64Convert F] in
theorem nodup_downloadEndpoints : (downloadEndpoints config).Nodup :=
  List.nodup_reverse.mpr (List.nodup_dedup _)

omit [F64Convert F] in
/-- The mirrors of a download start with the configured one. -/
theorem downloadEndpoints_eq (config : ProbeConfig F) :
    ∃ rest, downloadEndpoints config = config.downloadTest.testUrl :: rest :=
  distinctEndpoints_head _ _

end Loop

section Verdicts

variable {F : Type} [F64 F] [F64Convert F] (config : ProbeConfig F) (deadline : ℕ)
  (view : RelayView)

/-- A lone mirror that timed out. -/
theorem downloadVisits_single (h : ¬ (1 < (downloadEndpoints config).length ∧
      view.leftAt 0 < deadline)) :
    downloadVisits config deadline view = [firstVisit config deadline view] := by
  obtain ⟨rest, hrest⟩ := downloadEndpoints_eq config
  rw [downloadVisits, hrest, List.take_succ_cons]
  rcases Nat.lt_or_ge (view.leftAt 0) deadline with hleft | hleft
  · have hnil : rest = [] := by
      refine List.eq_nil_of_length_eq_zero ?_
      rw [hrest, List.length_cons] at h
      by_contra hne
      exact h ⟨by omega, hleft⟩
    rw [hnil]
    simp only [mirrorVisits, List.take_nil]
    repeat' split
    all_goals rfl
  · exact mirrorVisits_cons_left hleft

/-- A second mirror behind a first one that timed out. -/
theorem downloadVisits_second (htimedOut : (firstVisit config deadline view).timedOut = true)
    (hlength : 1 < (downloadEndpoints config).length) (hleft : view.leftAt 0 < deadline) :
    ∃ second rest, second ≠ config.downloadTest.testUrl ∧
      downloadVisits config deadline view = firstVisit config deadline view ::
        mirrorVisits config deadline view (second :: rest) 1 := by
  obtain ⟨tail, htail⟩ := downloadEndpoints_eq config
  have hnodup : (downloadEndpoints config).Nodup := nodup_downloadEndpoints
  cases tail with
  | nil =>
    rw [htail] at hlength
    exact absurd hlength (by simp)
  | cons second rest =>
    rw [htail] at hnodup
    refine ⟨second, rest.take 1, ?_, ?_⟩
    · exact fun heq => (List.nodup_cons.mp hnodup).1 (heq ▸ List.mem_cons_self)
    · rw [downloadVisits, htail, List.take_succ_cons, List.take_succ_cons]
      exact mirrorVisits_cons_next (MirrorVisit.decides_eq_false_of_timedOut htimedOut) hleft

/-- The first visit of every download. -/
theorem mem_firstVisit :
    firstVisit config deadline view ∈ downloadVisits config deadline view := by
  obtain ⟨rest, hrest⟩ := downloadEndpoints_eq config
  rw [downloadVisits, hrest, List.take_succ_cons, mirrorVisits]
  exact List.mem_cons_self

variable {config deadline view}

/-- Where all mirrors timed out alike, a second opinion is that of two mirrors. -/
theorem twoAttempted_of_secondOpinion (hopinion : SecondOpinion config deadline view)
    {failureClass : FailureClass}
    (hclass : failureClass ∈ [FailureClass.downloadTimeout, .tlsTimeout])
    (hall : ∀ visit ∈ downloadVisits config deadline view,
      visit.probe.failureClass = failureClass) :
    TwoAttempted (downloadVisits config deadline view) := by
  have hfirst := hall _ (mem_firstVisit config deadline view)
  have htimedOut : (firstVisit config deadline view).timedOut = true := by
    simp only [List.mem_cons, List.not_mem_nil, or_false] at hclass
    exact decide_eq_true (hfirst ▸ hclass)
  obtain ⟨hlength, hleft, hchecked⟩ := hopinion htimedOut
  obtain ⟨second, rest, hne, hvisits⟩ :=
    downloadVisits_second config deadline view htimedOut hlength hleft
  have hmem : mirrorVisit config deadline view second 1 ∈ downloadVisits config deadline view := by
    rw [hvisits, mirrorVisits]
    exact List.mem_cons_of_mem _ List.mem_cons_self
  have hbudget : (view.mirror 1).checkedAt < deadline := by
    by_contra hexpired
    have hlate : (mirrorVisit config deadline view second 1).probe.failureClass =
        .downloadTimeout := (expired_mirrorVisit (Nat.le_of_not_lt hexpired)).2
    have heq : failureClass = .downloadTimeout := (hall _ hmem).symm.trans hlate
    exact hexpired (hchecked (hfirst.trans heq))
  refine ⟨_, mem_firstVisit config deadline view, _, hmem, attempted_mirrorVisit ?_,
    attempted_mirrorVisit hbudget, hne.symm⟩
  exact (view.checkedAt_le_leftAt 0).trans_lt hleft

/-- Without a second opinion only the first mirror was requested, and it is blamed. -/
theorem blamed_of_not_secondOpinion (h : ¬ SecondOpinion config deadline view) :
    (download config deadline view).2.failureClass ∈
        [FailureClass.downloadTimeout, .tlsTimeout] ∧
      ¬ TwoAttempted (downloadVisits config deadline view) := by
  simp only [SecondOpinion, Classical.not_imp] at h
  obtain ⟨htimedOut, hopinion⟩ := h
  have hdecides := MirrorVisit.decides_eq_false_of_timedOut htimedOut
  have hclass : (firstVisit config deadline view).probe.failureClass ∈
      [FailureClass.downloadTimeout, .tlsTimeout] := by
    simpa [MirrorVisit.timedOut] using htimedOut
  by_cases hnext : 1 < (downloadEndpoints config).length ∧ view.leftAt 0 < deadline
  · simp only [hnext, true_and, Classical.not_imp, Nat.not_lt] at hopinion
    obtain ⟨hfirst, hexpired⟩ := hopinion
    obtain ⟨second, rest, -, hvisits⟩ :=
      downloadVisits_second config deadline view htimedOut hnext.1 hnext.2
    obtain ⟨hattempted, hsecond⟩ :
        ¬ (mirrorVisit config deadline view second 1).Attempted ∧
          (mirrorVisit config deadline view second 1).probe.failureClass = .downloadTimeout :=
      expired_mirrorVisit hexpired
    rw [mirrorVisits_cons_expired hexpired] at hvisits
    constructor
    · have hundecided : (mirrorVisit config deadline view second 1).decides = false := by
        simp [MirrorVisit.decides, hsecond]
      rw [download_report, hvisits]
      simp only [List.find?_cons, hdecides, hundecided, List.find?_nil]
      rw [(undecidedDownload_class_eq List.mem_cons_self).mpr]
      · exact List.mem_cons_self
      · exact ⟨List.cons_ne_nil _ _, by simp [hfirst, hsecond]⟩
    · refine @not_twoAttempted_of_unique F _ (firstVisit config deadline view) ?_
      rw [hvisits]
      intro item hitem hitemAttempted
      rcases List.mem_cons.mp hitem with rfl | hitem
      · rfl
      · obtain rfl := List.mem_singleton.mp hitem
        exact absurd hitemAttempted hattempted
  · have hvisits := downloadVisits_single config deadline view hnext
    constructor
    · rw [download_report, hvisits]
      simp only [List.find?_cons, hdecides, List.find?_nil]
      rw [(undecidedDownload_class_eq hclass).mpr]
      · exact hclass
      · exact ⟨List.cons_ne_nil _ _, by simp⟩
    · refine @not_twoAttempted_of_unique F _ (firstVisit config deadline view) ?_
      rw [hvisits]
      exact fun item hitem _ => List.mem_singleton.mp hitem

/-- A download blames the proxy on two mirrors exactly when a first mirror that timed out is
followed by a second one. -/
theorem mirrorsSound_download_iff :
    MirrorsSound (downloadVisits config deadline view)
        (download config deadline view).2.failureClass ↔
      SecondOpinion config deadline view := by
  constructor
  · intro hsound
    by_contra hopinion
    obtain ⟨hclass, hfew⟩ := blamed_of_not_secondOpinion hopinion
    exact hfew (hsound.blamed hclass).1
  · intro hopinion
    have hblamed : (download config deadline view).2.failureClass ∈
        [FailureClass.downloadTimeout, .tlsTimeout] →
        TwoAttempted (downloadVisits config deadline view) ∧
          ∀ visit ∈ downloadVisits config deadline view, visit.Attempted →
            visit.probe.failureClass = (download config deadline view).2.failureClass := by
      intro hclass
      have hall : ∀ visit ∈ downloadVisits config deadline view,
          visit.probe.failureClass = (download config deadline view).2.failureClass := by
        cases hdecided : (downloadVisits config deadline view).find? (·.decides) with
        | some visit =>
          have hdecides := List.find?_some hdecided
          rw [download_report, hdecided] at hclass
          simp only [MirrorVisit.decides, decide_eq_true_eq] at hdecides
          rcases hdecides with hdecides | hdecides <;> simp [hdecides] at hclass
        | none =>
          have hreport : (download config deadline view).2 =
              undecidedDownload ((downloadVisits config deadline view).map (·.probe)) := by
            rw [download_report, hdecided]
          rw [hreport] at hclass ⊢
          have hfailures := ((undecidedDownload_class_eq hclass).mp rfl).2
          exact fun visit hvisit => hfailures _ (List.mem_map_of_mem hvisit)
      exact ⟨twoAttempted_of_secondOpinion hopinion hclass hall,
        fun visit hvisit _ => hall visit hvisit⟩
    refine ⟨hblamed, fun hsuccess hslow hnone => ?_⟩
    have hmem : (download config deadline view).2.failureClass ∈ downloadClasses := download_class
    simp only [downloadClasses, List.mem_cons, List.not_mem_nil, or_false] at hmem
    rcases hmem with h | h | h | h | h
    · exact absurd h hsuccess
    · exact absurd h hslow
    · exact absurd ⟨_, by simp [h], hblamed (by simp [h])⟩ hnone
    · exact absurd ⟨_, by simp [h], hblamed (by simp [h])⟩ hnone
    · exact h

end Verdicts

/-- A proxy whose pages answer, and whose first mirror does not. -/
def silentMirrorRelay : RelayView where
  client := fun _ => .ok ()
  request := fun _ => ⟨0, 0, fun _ _ => .answered (.ok ⟨204, []⟩), 10 ^ 9⟩
  mirror := fun _ => ⟨10 ^ 9, 10 ^ 9, fun _ _ => .elapsed, 3 * 10 ^ 9⟩
  leftAt := fun _ => 3 * 10 ^ 9
  endedAt := 3 * 10 ^ 9
  checkedAt_le_leftAt := fun _ => by decide

/-- The default configuration has one mirror, and blames the proxy for its silence. -/
theorem lone_mirror_blames :
    downloadEndpoints ({} : ProbeConfig ℚ) = ["https://proof.ovh.net/files/1Mb.dat"] ∧
    (download ({} : ProbeConfig ℚ) (20 * 10 ^ 9) silentMirrorRelay).1 =
      [.attempt .download (10 ^ 9)] ∧
    (download ({} : ProbeConfig ℚ) (20 * 10 ^ 9) silentMirrorRelay).2.failureClass =
      .downloadTimeout ∧
    ¬ MirrorsSound (downloadVisits ({} : ProbeConfig ℚ) (20 * 10 ^ 9) silentMirrorRelay)
      (download ({} : ProbeConfig ℚ) (20 * 10 ^ 9) silentMirrorRelay).2.failureClass := by
  have hsilent : (download ({} : ProbeConfig ℚ) (20 * 10 ^ 9) silentMirrorRelay).2.failureClass =
      .downloadTimeout := by decide +kernel
  refine ⟨by decide, by decide +kernel, hsilent, fun hsound => ?_⟩
  rw [hsilent] at hsound
  obtain ⟨first, hfirst, second, hsecond, -, -, hne⟩ := (hsound.blamed (by decide)).1
  rw [downloadVisits_single _ _ _ (by decide), List.mem_singleton] at hfirst hsecond
  exact hne (by rw [hfirst, hsecond])

end ProxyFleet
