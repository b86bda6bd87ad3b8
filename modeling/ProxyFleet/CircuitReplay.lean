import ProxyFleet.ClientSelection
import ProxyFleet.FeedbackAccounting

/-!
# Circuits of clients

The row of a client and node sums up its feedback: streaks, counters, an average, and a circuit
that a failure opens for a while. As long as every call commits on top of what it has read, all of
it can be told from the log of usage events alone.
-/
namespace ProxyFleet

open ObservedRuns

variable {F : Type}

/-- The columns that a call continues, with the defaults of missing ones. -/
structure FeedbackColumns (F : Type) where
  failStreak : ℤ
  rateLimitStreak : ℤ
  usageCount : ℤ
  successCount : ℤ
  brokenCount : ℤ
  rateLimitedCount : ℤ
  successRateEwma : F

def feedbackColumns [F64 F] (row : Option (ClientNodeRow F)) : FeedbackColumns F where
  failStreak := (row.bind (·.failStreak)).getD 0
  rateLimitStreak := (row.bind (·.rateLimitStreak)).getD 0
  usageCount := (row.bind (·.usageCount)).getD 0
  successCount := (row.bind (·.successCount)).getD 0
  brokenCount := (row.bind (·.brokenCount)).getD 0
  rateLimitedCount := (row.bind (·.rateLimitedCount)).getD 0
  successRateEwma := (row.bind (·.successRateEwma)).getD (F64.ofRat (1 / 2))

namespace FeedbackTables

variable (t : FeedbackTables F) (client nodeId : String)

/-- The usage events of a client and node, in their order. -/
def usageLog : List UsageRow := t.usage.filter fun e => e.clientId = client && e.nodeId = nodeId

/-- The row of a client and node, or the one that its first event starts from. -/
def standing [F64 F] : ClientNodeRow F := (t.row client nodeId).getD (.fresh client nodeId)

end FeedbackTables

section Logs

/-- How often the node failed in this way since its last success. -/
def trailing (failure : String) (log : List UsageRow) : ℕ :=
  (log.reverse.takeWhile fun e => e.eventType ≠ "used").countP fun e => e.eventType = failure

/-- How many events of a log have the type. -/
def occurrences (eventType : String) (log : List UsageRow) : ℕ :=
  log.countP fun e => e.eventType = eventType

/-- The average after one more event; an assignment leaves it. -/
def averaged [F64 F] (ewma : F) (e : UsageRow) : F :=
  if e.eventType = "used" then F64.add (F64.mul ewma (F64.ofRat (7 / 10))) (F64.ofRat (3 / 10))
  else if e.eventType = "assigned" then ewma
  else F64.mul ewma (F64.ofRat (7 / 10))

/-- The columns that a log stands for. -/
def replayed [F64 F] (log : List UsageRow) : FeedbackColumns F where
  failStreak := trailing "broken" log
  rateLimitStreak := trailing "rate_limited" log
  usageCount := occurrences "used" log
  successCount := occurrences "used" log
  brokenCount := occurrences "broken" log
  rateLimitedCount := occurrences "rate_limited" log
  successRateEwma := log.foldl averaged (F64.ofRat (1 / 2))

def lastAssigned (log : List UsageRow) : Option UsageRow :=
  (log.filter fun e => e.eventType = "assigned").getLast?

def lastFeedback (log : List UsageRow) : Option UsageRow :=
  (log.filter fun e => e.eventType ≠ "assigned").getLast?

/-- The last feedback, if it tells a failure. -/
def lastFailure (log : List UsageRow) : Option UsageRow :=
  (lastFeedback log).filter fun e => e.eventType ≠ "used"

def lastSuccess (log : List UsageRow) : Option UsageRow :=
  (lastFeedback log).filter fun e => e.eventType = "used"

variable {log : List UsageRow} {e : UsageRow} {failure : String}

@[simp] theorem occurrences_append :
    occurrences failure (log ++ [e]) =
      occurrences failure log + if e.eventType = failure then 1 else 0 := by
  simp [occurrences, List.countP_append, List.countP_singleton]

theorem trailing_used (h : e.eventType = "used") : trailing failure (log ++ [e]) = 0 := by
  simp [trailing, h]

theorem trailing_append (h : e.eventType ≠ "used") :
    trailing failure (log ++ [e]) =
      trailing failure log + if e.eventType = failure then 1 else 0 := by
  simp [trailing, h, List.countP_cons]

theorem lastFeedback_append (h : e.eventType ≠ "assigned") :
    lastFeedback (log ++ [e]) = some e := by
  simp [lastFeedback, h]

theorem lastFeedback_assigned (h : e.eventType = "assigned") :
    lastFeedback (log ++ [e]) = lastFeedback log := by
  simp [lastFeedback, h]

theorem lastAssigned_append (h : e.eventType ≠ "assigned") :
    lastAssigned (log ++ [e]) = lastAssigned log := by
  simp [lastAssigned, h]

theorem lastAssigned_assigned (h : e.eventType = "assigned") :
    lastAssigned (log ++ [e]) = some e := by
  simp [lastAssigned, h]

variable [F64 F]

theorem replayed_used (h : e.eventType = "used") :
    (replayed (log ++ [e]) : FeedbackColumns F) =
      { (replayed log : FeedbackColumns F) with
        failStreak := 0
        rateLimitStreak := 0
        usageCount := occurrences "used" log + 1
        successCount := occurrences "used" log + 1
        successRateEwma := F64.add (F64.mul (replayed log).successRateEwma (F64.ofRat (7 / 10)))
          (F64.ofRat (3 / 10)) } := by
  simp [replayed, trailing_used h, averaged, h]

theorem replayed_broken (h : e.eventType = "broken") :
    (replayed (log ++ [e]) : FeedbackColumns F) =
      { (replayed log : FeedbackColumns F) with
        failStreak := trailing "broken" log + 1
        brokenCount := occurrences "broken" log + 1
        successRateEwma := F64.mul (replayed log).successRateEwma (F64.ofRat (7 / 10)) } := by
  have hne : e.eventType ≠ "used" := by simp [h]
  simp [replayed, trailing_append hne, averaged, h]

theorem replayed_rateLimited (h : e.eventType = "rate_limited") :
    (replayed (log ++ [e]) : FeedbackColumns F) =
      { (replayed log : FeedbackColumns F) with
        rateLimitStreak := trailing "rate_limited" log + 1
        rateLimitedCount := occurrences "rate_limited" log + 1
        successRateEwma := F64.mul (replayed log).successRateEwma (F64.ofRat (7 / 10)) } := by
  have hne : e.eventType ≠ "used" := by simp [h]
  simp [replayed, trailing_append hne, averaged, h]

/-- An assignment tells nothing about the node. -/
theorem replayed_assigned (h : e.eventType = "assigned") :
    (replayed (log ++ [e]) : FeedbackColumns F) = replayed log := by
  have hne : e.eventType ≠ "used" := by simp [h]
  simp [replayed, trailing_append hne, averaged, h]

end Logs

def ClientPenalty.rule (penalty : ClientPenalty) (failure : String) : PenaltyRule :=
  if failure = "broken" then penalty.broken else penalty.rateLimited

/-- The longest cooldown of a streak. -/
def PenaltyRule.ceiling (rule : PenaltyRule) (streak : ℕ) : Time :=
  seconds (min (min (rule.baseCooldownSeconds * 2 ^ min (streak - 1) 20) (2 ^ 64 - 1))
    rule.maxCooldownSeconds : ℕ)

/-- The latest end of the cooldown after a failure at the end of the log. -/
def ClientPenalty.latestCooldown (penalty : ClientPenalty) (log : List UsageRow) (e : UsageRow) :
    Time :=
  e.createdAt + (penalty.rule e.eventType).ceiling (truncateU32 (trailing e.eventType log))

/-- The row of a client and node can be told from its log, save for the jitter of the cooldown. -/
structure Mirrors [F64 F] (penalty : ClientPenalty) (row : ClientNodeRow F)
    (log : List UsageRow) : Prop where
  columns : feedbackColumns (some row) = replayed log
  assignedAt : row.lastAssignedAt = (lastAssigned log).map (·.createdAt)
  feedbackAt : row.lastFeedbackAt = (lastFeedback log).map (·.createdAt)
  failureAt : row.lastFailureAt = (lastFailure log).map (·.createdAt)
  successAt : row.lastSuccessAt = (lastSuccess log).map (·.createdAt)
  state : row.state = if (lastFailure log).isSome then "OPEN" else "CLOSED"
  closed : lastFailure log = none → row.cooldownUntil = none
  cooldown : ∀ e, lastFailure log = some e →
    ∃ ends, row.cooldownUntil = some ends ∧ e.createdAt ≤ ends ∧
      ends ≤ penalty.latestCooldown log e

variable [F64 F] {penalty : ClientPenalty} {log : List UsageRow}

theorem feedbackColumns_getD (row : Option (ClientNodeRow F)) (client nodeId : String) :
    feedbackColumns (some (row.getD (.fresh client nodeId))) = feedbackColumns row := by
  cases row <;> rfl

theorem fullJitterCooldown_bounds (rule : PenaltyRule) (streak draw : ℕ) :
    0 ≤ fullJitterCooldown rule streak draw ∧
      fullJitterCooldown rule streak draw ≤ rule.ceiling streak := by
  have hdraw (n : ℕ) : draw % (n + 1) ≤ n := Nat.le_of_lt_succ (Nat.mod_lt _ (Nat.succ_pos _))
  simp only [fullJitterCooldown, PenaltyRule.ceiling, seconds]
  constructor
  · exact mul_nonneg (Int.natCast_nonneg _) (by decide)
  · exact mul_le_mul_of_nonneg_right (by exact_mod_cast hdraw _) (by decide)

/-- A call that succeeds reports one of the three kinds of feedback. -/
theorem feedbackUpdate_status {row : Option (ClientNodeRow F)} {status : String} {now : Time}
    {draw : ℕ} {u : FeedbackUpdate F} (h : feedbackUpdate penalty row status now draw = .ok u) :
    status ≠ "assigned" ∧ u.now = now ∧ u.successful = decide (status = "used") ∧
      u.state = (if status = "used" then "CLOSED" else "OPEN") := by
  unfold feedbackUpdate at h
  split at h
  · next hs =>
    obtain rfl := Except.ok.inj h
    simp [hs]
  split at h
  · next hs =>
    obtain rfl := Except.ok.inj h
    simp [hs]
  split at h
  · next hs =>
    obtain rfl := Except.ok.inj h
    simp [hs]
  · cases h

/-- A call continues the columns that a log stands for by its own event. -/
theorem feedbackUpdate_columns {row : Option (ClientNodeRow F)} {e : UsageRow} {now : Time}
    {draw : ℕ} {u : FeedbackUpdate F} (hrow : feedbackColumns row = replayed log)
    (h : feedbackUpdate penalty row e.eventType now draw = .ok u) (c : ClientNodeRow F) :
    feedbackColumns (some (c.feedback u)) = replayed (log ++ [e]) := by
  simp only [feedbackColumns, replayed, FeedbackColumns.mk.injEq] at hrow
  obtain ⟨hfail, hrate, husage, hsuccess, hbroken, hlimited, hewma⟩ := hrow
  simp only [feedbackUpdate, hfail, hrate, husage, hsuccess, hbroken, hlimited, hewma] at h
  split at h
  · next hs =>
    obtain rfl := Except.ok.inj h
    rw [replayed_used hs]
    rfl
  split at h
  · next hs =>
    obtain rfl := Except.ok.inj h
    rw [replayed_broken hs]
    rfl
  split at h
  · next hs =>
    obtain rfl := Except.ok.inj h
    rw [replayed_rateLimited hs]
    rfl
  · cases h

/-- A failure opens the circuit for no longer than its streak allows. -/
theorem feedbackUpdate_cooldown {row : Option (ClientNodeRow F)} {e : UsageRow} {now : Time}
    {draw : ℕ} {u : FeedbackUpdate F} (hrow : feedbackColumns row = replayed log)
    (h : feedbackUpdate penalty row e.eventType now draw = .ok u) (hnow : e.createdAt = now) :
    (e.eventType = "used" → u.cooldownUntil = none) ∧
    (e.eventType ≠ "used" → ∃ ends, u.cooldownUntil = some ends ∧ e.createdAt ≤ ends ∧
      ends ≤ penalty.latestCooldown (log ++ [e]) e) := by
  have bounds (rule : PenaltyRule) (streak : ℕ) :
      now ≤ now + fullJitterCooldown rule streak draw ∧
        now + fullJitterCooldown rule streak draw ≤ now + rule.ceiling streak := by
    obtain ⟨hnonneg, hle⟩ := fullJitterCooldown_bounds rule streak draw
    exact ⟨le_add_of_nonneg_right hnonneg, add_le_add_right hle now⟩
  simp only [feedbackColumns, replayed, FeedbackColumns.mk.injEq] at hrow
  unfold feedbackUpdate at h
  split at h
  · next hs =>
    obtain rfl := Except.ok.inj h
    exact ⟨fun _ => rfl, fun hne => absurd hs hne⟩
  split at h
  · next hs =>
    obtain rfl := Except.ok.inj h
    refine ⟨fun hused => by simp [hs] at hused, fun hne => ⟨_, rfl, ?_⟩⟩
    rw [ClientPenalty.latestCooldown, trailing_append hne, hnow, hrow.1, hs]
    exact bounds penalty.broken _
  split at h
  · next hs =>
    obtain rfl := Except.ok.inj h
    refine ⟨fun hused => by simp [hs] at hused, fun hne => ⟨_, rfl, ?_⟩⟩
    rw [ClientPenalty.latestCooldown, trailing_append hne, hnow, hrow.2.1, hs]
    exact bounds penalty.rateLimited _
  · cases h

namespace Mirrors

variable {c : ClientNodeRow F}

/-- A call on top of a mirrored row leaves the row of the longer log. -/
theorem feedback (m : Mirrors penalty c log) {seen : Option (ClientNodeRow F)}
    (hseen : feedbackColumns seen = feedbackColumns (some c)) {e : UsageRow} {now : Time}
    {draw : ℕ} {u : FeedbackUpdate F} (h : feedbackUpdate penalty seen e.eventType now draw = .ok u)
    (hnow : e.createdAt = now) : Mirrors penalty (c.feedback u) (log ++ [e]) := by
  have hcolumns : feedbackColumns seen = replayed log := hseen.trans m.columns
  obtain ⟨hne, hunow, hsuccessful, hstate⟩ := feedbackUpdate_status h
  obtain ⟨hused, hfailed⟩ := feedbackUpdate_cooldown hcolumns h hnow
  have hlast : lastFeedback (log ++ [e]) = some e := lastFeedback_append hne
  have hfailure : lastFailure (log ++ [e]) = if e.eventType = "used" then none else some e := by
    simp [lastFailure, hlast, Option.filter]
  have hsuccess : lastSuccess (log ++ [e]) = if e.eventType = "used" then some e else none := by
    simp [lastSuccess, hlast, Option.filter]
  exact {
    columns := feedbackUpdate_columns hcolumns h c
    assignedAt := by
      rw [lastAssigned_append hne]
      exact m.assignedAt
    feedbackAt := by
      rw [hlast, ClientNodeRow.feedback, hunow, ← hnow]
      rfl
    failureAt := by
      rw [hfailure, ClientNodeRow.feedback, hsuccessful, hunow, ← hnow]
      by_cases hs : e.eventType = "used" <;> simp [hs]
    successAt := by
      rw [hsuccess, ClientNodeRow.feedback, hsuccessful, hunow, ← hnow]
      by_cases hs : e.eventType = "used" <;> simp [hs]
    state := by
      rw [hfailure, ClientNodeRow.feedback, hstate]
      by_cases hs : e.eventType = "used" <;> simp [hs]
    closed := by
      intro hnone
      apply hused
      by_contra hs
      simp [hfailure, hs] at hnone
    cooldown := by
      intro e' he'
      have hs : e.eventType ≠ "used" := by
        intro hs
        simp [hfailure, hs] at he'
      obtain rfl : e = e' := by simpa [hfailure, hs] using he'
      exact hfailed hs }

/-- An assignment moves one time and nothing else. -/
theorem assigned (m : Mirrors penalty c log) {e : UsageRow} (htype : e.eventType = "assigned") :
    Mirrors penalty { c with lastAssignedAt := some e.createdAt } (log ++ [e]) := by
  have hne : e.eventType ≠ "used" := by simp [htype]
  have hfailure : lastFailure (log ++ [e]) = lastFailure log := by
    rw [lastFailure, lastFeedback_assigned htype, lastFailure]
  have hsuccess : lastSuccess (log ++ [e]) = lastSuccess log := by
    rw [lastSuccess, lastFeedback_assigned htype, lastSuccess]
  have htrailing (failed : UsageRow) (hfailed : lastFailure log = some failed) :
      penalty.latestCooldown (log ++ [e]) failed = penalty.latestCooldown log failed := by
    have hfeedback : failed ∈ log.filter fun e => e.eventType ≠ "assigned" :=
      List.mem_of_getLast? (Option.filter_eq_some_iff.mp hfailed).1
    have hother : e.eventType ≠ failed.eventType := by
      rw [htype]
      exact (of_decide_eq_true (List.mem_filter.mp hfeedback).2).symm
    rw [ClientPenalty.latestCooldown, trailing_append hne, if_neg hother, add_zero]
    rfl
  exact {
    columns := m.columns.trans (replayed_assigned htype).symm
    assignedAt := by rw [lastAssigned_assigned htype]; rfl
    feedbackAt := by rw [lastFeedback_assigned htype]; exact m.feedbackAt
    failureAt := hfailure ▸ m.failureAt
    successAt := hsuccess ▸ m.successAt
    state := hfailure ▸ m.state
    closed := hfailure ▸ m.closed
    cooldown := by
      intro failed hfailed
      rw [hfailure] at hfailed
      rw [htrailing failed hfailed]
      exact m.cooldown failed hfailed }

/-- The row that a first event starts from mirrors the empty log. -/
theorem fresh (penalty : ClientPenalty) (client nodeId : String) :
    Mirrors penalty (.fresh client nodeId : ClientNodeRow F) [] where
  columns := rfl
  assignedAt := rfl
  feedbackAt := rfl
  failureAt := rfl
  successAt := rfl
  state := rfl
  closed _ := rfl
  cooldown _ h := by cases h

end Mirrors

namespace FeedbackTables

variable (t : FeedbackTables F) (client nodeId : String)

theorem standing_applyFeedback (request : FeedbackRequest) (u : FeedbackUpdate F) :
    (t.applyFeedback request u).standing client nodeId =
      if request.client = client ∧ request.nodeId = nodeId then
        (t.standing client nodeId).feedback u
      else t.standing client nodeId := by
  have hrow : (t.applyFeedback request u).row client nodeId =
      (t.upsert request.client request.nodeId (·.feedback u)).row client nodeId := rfl
  rw [standing, hrow, t.row_upsert request.client request.nodeId (f := (·.feedback u))
    (fun _ => rfl) (fun _ => rfl)]
  split
  · next hkey =>
    obtain ⟨rfl, rfl⟩ := hkey
    rfl
  · rfl

theorem standing_recordAssignment (id client' nodeId' : String) (port : ℕ) (now : Time) :
    (t.recordAssignment id client' nodeId' port now).standing client nodeId =
      if client' = client ∧ nodeId' = nodeId then
        { t.standing client nodeId with lastAssignedAt := some now }
      else t.standing client nodeId := by
  have hrow : (t.recordAssignment id client' nodeId' port now).row client nodeId =
      (t.upsert client' nodeId' fun c => { c with lastAssignedAt := some now }).row client nodeId :=
    rfl
  rw [standing, hrow, t.row_upsert client' nodeId'
    (f := fun c => { c with lastAssignedAt := some now }) (fun _ => rfl) (fun _ => rfl)]
  split
  · next hkey =>
    obtain ⟨rfl, rfl⟩ := hkey
    rfl
  · rfl

omit [F64 F] in
theorem usageLog_append (t' : FeedbackTables F) {e : UsageRow} (h : t'.usage = t.usage ++ [e]) :
    t'.usageLog client nodeId = t.usageLog client nodeId ++
      if e.clientId = client ∧ e.nodeId = nodeId then [e] else [] := by
  simp only [usageLog, h, List.filter_append, List.filter_singleton]
  by_cases hclient : e.clientId = client <;> by_cases hnode : e.nodeId = nodeId <;>
    simp [hclient, hnode]

/-- The circuit of a client and node is closed unless its row says otherwise. -/
theorem circuitOpen_iff (now : Time) :
    t.reads.circuitOpen client nodeId now = true ↔
      (t.standing client nodeId).state = "OPEN" ∧
        ∃ ends, (t.standing client nodeId).cooldownUntil = some ends ∧ now < ends := by
  have hstate : t.reads.stateOf client nodeId =
      (t.row client nodeId).map (·.toClientNodeState) := by
    rw [ClientTables.stateOf, reads, List.find?_map, row]
    congr 2
    funext c
    exact Bool.and_comm ..
  rw [ClientTables.circuitOpen, hstate, standing]
  cases t.row client nodeId with
  | none => simp [ClientNodeRow.fresh]
  | some c => simp [Option.any_eq_true]

end FeedbackTables

namespace FeedbackWorld

/-- A call that commits has read the columns as they stand. -/
def CommitsOnTop (client nodeId : String) (w : FeedbackWorld F) : FeedbackStep F → Prop
  | .commit call =>
    match w.calls call with
    | some (.computed request seen _) => request.client = client → request.nodeId = nodeId →
        feedbackColumns seen = feedbackColumns (w.clients.row client nodeId)
    | _ => True
  | _ => True

/-- Every computed update is what its call makes of the row it has read. -/
def Faithful (penalty : ClientPenalty) (w : FeedbackWorld F) : Prop :=
  ∀ call request seen u, w.calls call = some (.computed request seen u) →
    ∃ draw, feedbackUpdate penalty seen request.status u.now draw = .ok u

/-- The row of the client and node mirrors their log. -/
def Replays (penalty : ClientPenalty) (client nodeId : String) (w : FeedbackWorld F) : Prop :=
  Mirrors penalty (w.clients.standing client nodeId) (w.clients.usageLog client nodeId)

variable {client nodeId : String} {w : FeedbackWorld F}

theorem faithful_setCall (h : w.Faithful penalty) {call : ℕ} {p : Option (FeedbackProgress F)}
    (hp : ∀ request seen u, p = some (.computed request seen u) →
      ∃ draw, feedbackUpdate penalty seen request.status u.now draw = .ok u) :
    (w.setCall call p).Faithful penalty := by
  intro other request seen u hc
  by_cases he : other = call
  · rw [he, setCall_self] at hc
    exact hp request seen u hc
  · rw [w.setCall_of_ne he] at hc
    exact h other request seen u hc

theorem Faithful.step (h : w.Faithful penalty) (a : FeedbackStep F) :
    (w.step penalty a).Faithful penalty := by
  cases a with
  | begin call request =>
    simp only [FeedbackWorld.step]
    split
    · exact h
    · split
      · exact faithful_setCall h (by simp)
      · exact h
  | read call now draw =>
    simp only [FeedbackWorld.step]
    split
    · split
      · next hu =>
        apply faithful_setCall h
        rintro _ _ _ ⟨⟩
        exact ⟨draw, (feedbackUpdate_status hu).2.1 ▸ hu⟩
      · exact faithful_setCall h (by simp)
    · exact h
  | commit call =>
    simp only [FeedbackWorld.step]
    split
    · have hcall : (w.setCall call none).Faithful penalty := faithful_setCall h (by simp)
      exact hcall
    · exact h
  | fail call => exact faithful_setCall h (by simp)
  | assign id client nodeId port now => exact h
  | write x => exact h

theorem replays_commit (h : w.Replays penalty client nodeId) {request : FeedbackRequest}
    {seen : Option (ClientNodeRow F)} {u : FeedbackUpdate F} {draw : ℕ}
    (hu : feedbackUpdate penalty seen request.status u.now draw = .ok u)
    (hseen : request.client = client → request.nodeId = nodeId →
      feedbackColumns seen = feedbackColumns (w.clients.row client nodeId)) :
    Mirrors penalty ((w.clients.applyFeedback request u).standing client nodeId)
      ((w.clients.applyFeedback request u).usageLog client nodeId) := by
  have hlog := w.clients.usageLog_append client nodeId (w.clients.applyFeedback request u) rfl
  rw [FeedbackTables.standing_applyFeedback]
  by_cases hkey : request.client = client ∧ request.nodeId = nodeId
  · rw [if_pos hkey]
    rw [if_pos hkey] at hlog
    rw [hlog]
    refine h.feedback ?_ hu rfl
    exact (hseen hkey.1 hkey.2).trans (feedbackColumns_getD _ client nodeId).symm
  · rw [if_neg hkey]
    rw [if_neg hkey, List.append_nil] at hlog
    exact hlog ▸ h

theorem replays_assign (h : w.Replays penalty client nodeId) (id client' nodeId' : String)
    (port : ℕ) (now : Time) :
    Mirrors penalty
      ((w.clients.recordAssignment id client' nodeId' port now).standing client nodeId)
      ((w.clients.recordAssignment id client' nodeId' port now).usageLog client nodeId) := by
  have hlog := w.clients.usageLog_append client nodeId
    (w.clients.recordAssignment id client' nodeId' port now) rfl
  rw [FeedbackTables.standing_recordAssignment]
  by_cases hkey : client' = client ∧ nodeId' = nodeId
  · rw [if_pos hkey]
    rw [if_pos hkey] at hlog
    rw [hlog]
    exact Mirrors.assigned (e := ⟨⟨client', nodeId', now⟩, "assigned"⟩) h rfl
  · rw [if_neg hkey]
    rw [if_neg hkey, List.append_nil] at hlog
    exact hlog ▸ h

theorem Replays.step (hfaithful : w.Faithful penalty) (h : w.Replays penalty client nodeId)
    {a : FeedbackStep F} (hcurrent : CommitsOnTop client nodeId w a) :
    (w.step penalty a).Replays penalty client nodeId := by
  cases a with
  | begin call request =>
    simp only [FeedbackWorld.step]
    repeat' split
    all_goals exact h
  | read call now draw =>
    simp only [FeedbackWorld.step]
    repeat' split
    all_goals exact h
  | commit call =>
    cases hcall : w.calls call with
    | none =>
      simp only [FeedbackWorld.step, hcall]
      exact h
    | some p =>
      cases p with
      | known request =>
        simp only [FeedbackWorld.step, hcall]
        exact h
      | computed request seen u =>
        simp only [FeedbackWorld.step, hcall]
        simp only [CommitsOnTop, hcall] at hcurrent
        obtain ⟨draw, hu⟩ := hfaithful call request seen u hcall
        exact replays_commit h hu hcurrent
  | fail call => exact h
  | assign id client' nodeId' port now => exact replays_assign h id client' nodeId' port now
  | write x => exact h

/-- In every interleaving of calls, assignments and other writes in which the calls for a client
and node commit on top of what they have read, their row is the replay of their usage events, and
their circuit is open only between a failure, the last feedback, and the longest cooldown of its
streak. -/
theorem circuit_replayed (penalty : ClientPenalty) (w : FeedbackWorld F) (rest : w.AtRest)
    (unused : w.clients = {}) (client nodeId : String) (steps : List (FeedbackStep F))
    (current : Admitted (step penalty) (CommitsOnTop client nodeId) w steps) :
    let t := (run (step penalty) w steps).clients
    Mirrors penalty (t.standing client nodeId) (t.usageLog client nodeId) ∧
      ∀ now, t.reads.circuitOpen client nodeId now = true →
        ∃ e, lastFailure (t.usageLog client nodeId) = some e ∧
          now < penalty.latestCooldown (t.usageLog client nodeId) e := by
  have hstart : w.Faithful penalty ∧ w.Replays penalty client nodeId := by
    refine ⟨fun call request seen u hc => by simp [rest.calls call] at hc, ?_⟩
    rw [Replays, unused]
    exact Mirrors.fresh penalty client nodeId
  have hend := run_invariant (I := fun w => w.Faithful penalty ∧ w.Replays penalty client nodeId)
    (fun _ a hcurrent h => ⟨h.1.step a, h.2.step h.1 hcurrent⟩) hstart current
  refine ⟨hend.2, fun now hopen => ?_⟩
  obtain ⟨-, ends, hends, hnow⟩ := (FeedbackTables.circuitOpen_iff _ _ _ now).mp hopen
  cases hfailure : lastFailure ((run (step penalty) w steps).clients.usageLog client nodeId) with
  | none =>
    rw [hend.2.closed hfailure] at hends
    cases hends
  | some e =>
    obtain ⟨ends', hends', -, hle⟩ := hend.2.cooldown e hfailure
    obtain rfl : ends = ends' := Option.some.inj (hends.symm.trans hends')
    exact ⟨e, rfl, hnow.trans_le hle⟩

end FeedbackWorld

section Examples

/-- Two calls in turn with an assignment between them. -/
def feedbackAndAssignment : List (FeedbackStep ℚ) :=
  [.begin 0 ⟨"c", "n", "broken"⟩, .read 0 0 7, .commit 0, .assign "a" "c" "n" 20000 5,
    .begin 1 ⟨"c", "n", "broken"⟩, .read 1 10 7, .commit 1]

theorem circuit_replayed_inTurn :
    let t := (afterFeedback feedbackAndAssignment).clients
    Mirrors feedbackPenalty (t.standing "c" "n") (t.usageLog "c" "n") ∧
      ∀ now, t.reads.circuitOpen "c" "n" now = true →
        ∃ e, lastFailure (t.usageLog "c" "n") = some e ∧
          now < feedbackPenalty.latestCooldown (t.usageLog "c" "n") e := by
  apply FeedbackWorld.circuit_replayed feedbackPenalty oneNodeWorld ⟨fun _ => rfl, rfl⟩ rfl "c" "n"
    feedbackAndAssignment
  refine ⟨trivial, trivial, ?_, trivial, trivial, trivial, ?_, trivial⟩
  · intro _ _
    rfl
  · intro _ _
    rfl

end Examples

end ProxyFleet
