import Mathlib.Algebra.Order.Group.Int
import Mathlib.Algebra.Order.Pi
import Mathlib.Data.Fintype.Pi
import Mathlib.Data.Int.ConditionallyCompleteOrder
import ProxyFleet.ClientFeedback
import ProxyFleet.ReadModifyWrite

/-!
# The accounting of feedback

The four counters of a client and node are one value that calls read and write back.
A run adds up all feedback exactly if every call commits on top of the counters that
it has read. The log of usage events is complete in any case.
-/
namespace ProxyFleet

open ObservedRuns ReadModifyWrite

inductive CountColumn where
  | usage | success | broken | rateLimited
  deriving DecidableEq

instance : Fintype CountColumn :=
  ⟨{.usage, .success, .broken, .rateLimited}, by intro column; cases column <;> decide⟩

/-- The status that a column counts. -/
def CountColumn.status : CountColumn → String
  | .usage => "used"
  | .success => "used"
  | .broken => "broken"
  | .rateLimited => "rate_limited"

abbrev Counts := CountColumn → ℤ

/-- What one call with the status ought to add. -/
def increments (status : String) : Counts := fun column => if column.status = status then 1 else 0

variable {F : Type}

def ClientNodeRow.count (row : ClientNodeRow F) : CountColumn → Option ℤ
  | .usage => row.usageCount
  | .success => row.successCount
  | .broken => row.brokenCount
  | .rateLimited => row.rateLimitedCount

/-- The counters of a row as a call reads them. -/
def rowCounts (row : Option (ClientNodeRow F)) : Counts :=
  fun column => (row.bind (·.count column)).getD 0

def FeedbackUpdate.counts (u : FeedbackUpdate F) : Counts
  | .usage => u.usageCount
  | .success => u.successCount
  | .broken => u.brokenCount
  | .rateLimited => u.rateLimitedCount

namespace FeedbackTables

variable (t : FeedbackTables F) (client nodeId : String)

def counts : Counts := rowCounts (t.row client nodeId)

/-- The usage events of the client and node with the given type. -/
def logged (eventType : String) : ℕ :=
  t.usage.countP fun e => e.clientId = client && e.nodeId = nodeId && e.eventType = eventType

end FeedbackTables

/-- The calls for the client and node that returned `Ok` and that a column counts. -/
def FeedbackWorld.answered (w : FeedbackWorld F) (client nodeId : String) (column : CountColumn) :
    ℕ :=
  w.returned.countP fun r => r.client = client && r.nodeId = nodeId && r.status = column.status

/-- All feedback since `w` is in the counters, and in the log of usage events. -/
structure FeedbackWorld.NothingLost (w w' : FeedbackWorld F) (client nodeId : String) : Prop where
  counted : ∀ column, w'.clients.counts client nodeId column =
    w.clients.counts client nodeId column + w'.answered client nodeId column
  logged : ∀ column : CountColumn, w'.clients.logged client nodeId column.status =
    w.clients.logged client nodeId column.status + w'.answered client nodeId column

/-- No call is in progress, and none has returned yet. -/
structure FeedbackWorld.AtRest (w : FeedbackWorld F) : Prop where
  calls : ∀ call, w.calls call = none
  returned : w.returned = []

/-- A call that commits has read the counters as they stand. -/
def CommitsCurrent (client nodeId : String) (w : FeedbackWorld F) : FeedbackStep F → Prop
  | .commit call =>
    match w.calls call with
    | some (.computed request seen _) => request.client = client → request.nodeId = nodeId →
        rowCounts seen = w.clients.counts client nodeId
    | _ => True
  | _ => True

section Updates

variable [F64 F] {penalty : ClientPenalty}

/-- A call computes the counters that it has read, with its own kind counted. -/
theorem feedbackUpdate_counts {row : Option (ClientNodeRow F)} {status : String} {now : Time}
    {draw : ℕ} {u : FeedbackUpdate F} (h : feedbackUpdate penalty row status now draw = .ok u) :
    u.counts = rowCounts row + increments status ∧ 0 < increments status := by
  unfold feedbackUpdate at h
  have positive : ∀ c : CountColumn, 0 < increments c.status := by
    intro c
    refine Pi.lt_def.mpr ⟨fun d => ?_, c, ?_⟩
    · simp only [increments, Pi.zero_apply]
      split <;> omega
    · simp [increments]
  split at h
  · next hs =>
    obtain rfl := Except.ok.inj h
    refine ⟨?_, hs ▸ positive .usage⟩
    funext column
    cases column <;> simp [FeedbackUpdate.counts, rowCounts, ClientNodeRow.count, increments,
      CountColumn.status, hs]
  split at h
  · next hs =>
    obtain rfl := Except.ok.inj h
    refine ⟨?_, hs ▸ positive .broken⟩
    funext column
    cases column <;> simp [FeedbackUpdate.counts, rowCounts, ClientNodeRow.count, increments,
      CountColumn.status, hs]
  split at h
  · next hs =>
    obtain rfl := Except.ok.inj h
    refine ⟨?_, hs ▸ positive .rateLimited⟩
    funext column
    cases column <;> simp [FeedbackUpdate.counts, rowCounts, ClientNodeRow.count, increments,
      CountColumn.status, hs]
  · cases h

end Updates

namespace FeedbackTables

variable [F64 F] (t : FeedbackTables F)

omit [F64 F] in
theorem key_of_row {a b : String} {c : ClientNodeRow F} (h : t.row a b = some c) :
    c.clientId = a ∧ c.nodeId = b := by
  simpa using List.find?_some h

omit [F64 F] in
/-- An update that keeps the keys is seen in the row that it finds. -/
theorem row_updateWhere {client nodeId : String} {f : ClientNodeRow F → ClientNodeRow F}
    (hc : ∀ c, (f c).clientId = c.clientId) (hn : ∀ c, (f c).nodeId = c.nodeId)
    (client' nodeId' : String) (rows : List (ClientNodeRow F)) :
    (RowUpdates.updateWhere (fun c => c.clientId = client && c.nodeId = nodeId) f rows).find?
      (fun c => c.clientId = client' && c.nodeId = nodeId') =
    (rows.find? fun c => c.clientId = client' && c.nodeId = nodeId').map
      fun c => if c.clientId = client && c.nodeId = nodeId then f c else c := by
  simp only [RowUpdates.updateWhere, List.find?_map]
  congr 2
  funext c
  by_cases hg : c.clientId = client ∧ c.nodeId = nodeId <;> simp [hg, hc, hn]

section Upsert

variable (client nodeId : String) {f : ClientNodeRow F → ClientNodeRow F}
  (hc : ∀ c, (f c).clientId = c.clientId) (hn : ∀ c, (f c).nodeId = c.nodeId)
  (client' nodeId' : String)

include hc hn

theorem row_update
    (hany : (t.states.any fun c => c.clientId = client && c.nodeId = nodeId) = true) :
    (t.upsert client nodeId f).row client' nodeId' =
      if client = client' ∧ nodeId = nodeId' then
        some (f ((t.row client nodeId).getD (.fresh client nodeId)))
      else t.row client' nodeId' := by
  obtain ⟨c, hfound⟩ : ∃ c, t.row client nodeId = some c := by
    simpa [row, Option.isSome_iff_exists] using List.find?_isSome.mpr (List.any_eq_true.mp hany)
  have hupsert : (t.upsert client nodeId f).row client' nodeId' =
      (t.row client' nodeId').map fun c =>
        if c.clientId = client && c.nodeId = nodeId then f c else c := by
    simp only [upsert, hany, if_true, row, row_updateWhere hc hn]
  rw [hupsert]
  by_cases hkey : client = client' ∧ nodeId = nodeId'
  · obtain ⟨rfl, rfl⟩ := hkey
    simp [hfound, t.key_of_row hfound]
  · rw [if_neg hkey]
    cases hother : t.row client' nodeId' with
    | none => rfl
    | some c =>
      have hne : ¬ (c.clientId = client ∧ c.nodeId = nodeId) := by
        rintro ⟨rfl, rfl⟩
        exact hkey (t.key_of_row hother)
      simp [hne]

theorem row_insert
    (hany : (t.states.any fun c => c.clientId = client && c.nodeId = nodeId) = false) :
    (t.upsert client nodeId f).row client' nodeId' =
      if client = client' ∧ nodeId = nodeId' then
        some (f ((t.row client nodeId).getD (.fresh client nodeId)))
      else t.row client' nodeId' := by
  have hnone : t.row client nodeId = none := by
    rw [row, List.find?_eq_none]
    intro c hcm hp
    rw [List.any_eq_true.mpr ⟨c, hcm, hp⟩] at hany
    cases hany
  have hupsert : (t.upsert client nodeId f).row client' nodeId' =
      (t.row client' nodeId').or
        (if client = client' ∧ nodeId = nodeId' then some (f (.fresh client nodeId))
          else none) := by
    simp only [upsert, hany, Bool.false_eq_true, if_false, row, List.find?_append]
    congr 1
    by_cases hkey : client = client' ∧ nodeId = nodeId' <;>
      simp [hc, hn, ClientNodeRow.fresh, hkey]
  rw [hupsert, hnone, Option.getD_none]
  by_cases hkey : client = client' ∧ nodeId = nodeId'
  · obtain ⟨rfl, rfl⟩ := hkey
    rw [hnone, if_pos ⟨rfl, rfl⟩, Option.none_or]
  · rw [if_neg hkey, if_neg hkey, Option.or_none]

/-- An insertion or an update changes the row of its key and no other. -/
theorem row_upsert :
    (t.upsert client nodeId f).row client' nodeId' =
      if client = client' ∧ nodeId = nodeId' then
        some (f ((t.row client nodeId).getD (.fresh client nodeId)))
      else t.row client' nodeId' := by
  cases hany : t.states.any fun c => c.clientId = client && c.nodeId = nodeId with
  | true => exact t.row_update client nodeId hc hn client' nodeId' hany
  | false => exact t.row_insert client nodeId hc hn client' nodeId' hany

end Upsert

theorem counts_applyFeedback (request : FeedbackRequest) (u : FeedbackUpdate F)
    (client nodeId : String) :
    (t.applyFeedback request u).counts client nodeId =
      if request.client = client ∧ request.nodeId = nodeId then u.counts
      else t.counts client nodeId := by
  have hrow : (t.applyFeedback request u).row client nodeId =
      (t.upsert request.client request.nodeId (·.feedback u)).row client nodeId := rfl
  unfold counts
  rw [hrow, t.row_upsert request.client request.nodeId (f := (·.feedback u)) (fun _ => rfl)
    (fun _ => rfl)]
  split
  · funext column
    cases column <;> rfl
  · rfl

theorem logged_applyFeedback (request : FeedbackRequest) (u : FeedbackUpdate F)
    (client nodeId eventType : String) :
    (t.applyFeedback request u).logged client nodeId eventType = t.logged client nodeId eventType +
      if request.client = client && request.nodeId = nodeId && request.status = eventType then 1
      else 0 := by
  simp only [logged, applyFeedback, List.countP_append, List.countP_singleton]

theorem logged_recordAssignment (id client nodeId : String) (port : ℕ) (now : Time)
    (client' nodeId' : String) (column : CountColumn) :
    (t.recordAssignment id client nodeId port now).logged client' nodeId' column.status =
      t.logged client' nodeId' column.status := by
  have hne : ("assigned" = column.status) = False := by cases column <;> simp [CountColumn.status]
  simp [logged, recordAssignment, List.countP_append, hne]

theorem counts_recordAssignment (id client nodeId : String) (port : ℕ) (now : Time)
    (client' nodeId' : String) :
    (t.recordAssignment id client nodeId port now).counts client' nodeId' =
      t.counts client' nodeId' := by
  have hrow : (t.recordAssignment id client nodeId port now).row client' nodeId' =
      (t.upsert client nodeId fun c => { c with lastAssignedAt := some now }).row client' nodeId' :=
    rfl
  unfold counts
  rw [hrow, t.row_upsert client nodeId (f := fun c => { c with lastAssignedAt := some now })
    (fun _ => rfl) (fun _ => rfl)]
  split
  · next hkey =>
    obtain ⟨rfl, rfl⟩ := hkey
    funext column
    cases hold : t.row client nodeId <;> cases column <;> rfl
  · rfl

end FeedbackTables

namespace FeedbackWorld

variable [F64 F] (client nodeId : String)

/-- The request of a call is for the client and the node. -/
def concerns (request : FeedbackRequest) : Bool :=
  request.client = client && request.nodeId = nodeId

/-- The counters that a call in progress has read of the client and node. -/
def countsRead : Option (FeedbackProgress F) → Option Counts
  | some (.computed request seen _) =>
    if concerns client nodeId request then some (rowCounts seen) else none
  | some (.known _) | none => none

/-- The counters of the client and node, and what the calls have read of them. -/
def cell (w : FeedbackWorld F) : Shared Counts where
  value := w.clients.counts client nodeId
  seen call := countsRead client nodeId (w.calls call)

/-- What a step does to the counters of the client and node. -/
def access (penalty : ClientPenalty) (w : FeedbackWorld F) : FeedbackStep F → Access Counts
  | .read call now draw =>
    match w.calls call with
    | some (.known request) =>
      match feedbackUpdate penalty (w.clients.row request.client request.nodeId) request.status
        now draw with
      | .ok _ => if concerns client nodeId request then .read call else .idle
      | .error _ => .idle
    | _ => .idle
  | .commit call =>
    match w.calls call with
    | some (.computed request _ _) =>
      if concerns client nodeId request then .commit call (increments request.status) else .idle
    | _ => .idle
  | .fail call => .forget call
  | .begin _ _ | .assign _ _ _ _ _ | .write _ => .idle

/-- Every computed update counts the call on top of what it has read. -/
def Computed (w : FeedbackWorld F) : Prop :=
  ∀ call request seen u, w.calls call = some (.computed request seen u) →
    u.counts = rowCounts seen + increments request.status ∧ 0 < increments request.status

variable {client nodeId} {penalty : ClientPenalty} {w : FeedbackWorld F}

omit [F64 F] in
@[simp] theorem concerns_iff {request : FeedbackRequest} :
    concerns client nodeId request = true ↔ request.client = client ∧ request.nodeId = nodeId := by
  simp [concerns]

omit [F64 F] in
theorem concerns_eq_false_iff {request : FeedbackRequest} :
    concerns client nodeId request = false ↔
      ¬ (request.client = client ∧ request.nodeId = nodeId) := by
  rw [← concerns_iff, Bool.not_eq_true]

omit [F64 F] in
theorem computed_setCall (h : w.Computed) {call : ℕ} {p : Option (FeedbackProgress F)}
    (hp : ∀ request seen u, p = some (.computed request seen u) →
      u.counts = rowCounts seen + increments request.status ∧ 0 < increments request.status) :
    (w.setCall call p).Computed := by
  intro other request seen u hc
  by_cases he : other = call
  · rw [he, setCall_self] at hc
    exact hp request seen u hc
  · rw [w.setCall_of_ne he] at hc
    exact h other request seen u hc

theorem Computed.step (h : w.Computed) (a : FeedbackStep F) : (w.step penalty a).Computed := by
  cases a with
  | begin call request =>
    simp only [FeedbackWorld.step]
    split
    · exact h
    · split
      · exact computed_setCall h (by simp)
      · exact h
  | read call now draw =>
    simp only [FeedbackWorld.step]
    split
    · split
      · next hu =>
        apply computed_setCall h
        rintro _ _ _ ⟨⟩
        exact feedbackUpdate_counts hu
      · exact computed_setCall h (by simp)
    · exact h
  | commit call =>
    simp only [FeedbackWorld.step]
    split
    · have hcall : (w.setCall call none).Computed := computed_setCall h (by simp)
      exact hcall
    · exact h
  | fail call => exact computed_setCall h (by simp)
  | assign id client nodeId port now => exact h
  | write x => exact h

omit [F64 F] in
theorem cell_setCall (call : ℕ) (p : Option (FeedbackProgress F)) :
    cell client nodeId (w.setCall call p) =
      (cell client nodeId w).setSeen call (countsRead client nodeId p) := by
  ext1
  · rfl
  · funext other
    rw [Shared.setSeen_seen]
    by_cases he : other = call
    · rw [if_pos he, he]
      simp [cell]
    · rw [if_neg he]
      simp [cell, w.setCall_of_ne he]

omit [F64 F] in
/-- A call that has read nothing of the counters may change its progress unnoticed. -/
theorem cell_setCall_unread {call : ℕ} {p : Option (FeedbackProgress F)}
    (h : countsRead client nodeId (w.calls call) = countsRead client nodeId p) :
    cell client nodeId (w.setCall call p) = cell client nodeId w := by
  rw [cell_setCall, ← h]
  exact Shared.setSeen_eq_self ..

/-- A call reads the counters of its client and node. -/
theorem cell_read {call : ℕ} {request : FeedbackRequest}
    (hcall : w.calls call = some (.known request)) (now : Time) (draw : ℕ) :
    cell client nodeId (w.step penalty (.read call now draw)) =
      (cell client nodeId w).step (access client nodeId penalty w (.read call now draw)) := by
  have hunread : countsRead client nodeId (w.calls call) = none := by rw [hcall]; rfl
  cases hu : feedbackUpdate penalty (w.clients.row request.client request.nodeId)
    request.status now draw with
  | error e =>
    simp only [FeedbackWorld.step, access, Shared.step, hcall, hu]
    exact cell_setCall_unread (p := none) hunread
  | ok u =>
    simp only [FeedbackWorld.step, access, hcall, hu]
    cases hc : concerns client nodeId request with
    | false => exact cell_setCall_unread (by rw [hunread]; simp [countsRead, hc])
    | true =>
      obtain ⟨rfl, rfl⟩ := concerns_iff.mp hc
      rw [cell_setCall]
      simp only [countsRead, hc, if_true, Shared.step]
      rfl

/-- A call writes what it has computed from its reading, and forgets the reading. -/
theorem cell_commit (h : w.Computed) {call : ℕ} {request : FeedbackRequest}
    {seen : Option (ClientNodeRow F)} {u : FeedbackUpdate F}
    (hcall : w.calls call = some (.computed request seen u)) :
    cell client nodeId (w.step penalty (.commit call)) =
      (cell client nodeId w).step (access client nodeId penalty w (.commit call)) := by
  have hvalue := w.clients.counts_applyFeedback request u client nodeId
  simp only [FeedbackWorld.step, access, hcall]
  cases hc : concerns client nodeId request with
  | false =>
    have hunread : countsRead client nodeId (w.calls call) = none := by
      simp only [hcall, countsRead, hc]
      rfl
    rw [if_neg (concerns_eq_false_iff.mp hc)] at hvalue
    have hsame : (cell client nodeId (w.setCall call none)).seen =
      (cell client nodeId w).seen := congrArg _ (cell_setCall_unread hunread)
    ext1
    · exact hvalue
    · exact hsame
  | true =>
    have hseen : (cell client nodeId w).seen call = some (rowCounts seen) := by
      simp only [cell, hcall, countsRead, hc, if_true]
    have hforgotten : (cell client nodeId (w.setCall call none)).seen =
      ((cell client nodeId w).setSeen call none).seen := congrArg _ (cell_setCall call none)
    rw [if_pos (concerns_iff.mp hc), (h call request seen u hcall).1] at hvalue
    simp only [if_true, Shared.step, hseen]
    ext1
    · exact hvalue
    · exact hforgotten

/-- The steps access the counters of each client and node as a shared value. -/
theorem cell_step (h : w.Computed) (a : FeedbackStep F) :
    cell client nodeId (w.step penalty a) =
      (cell client nodeId w).step (access client nodeId penalty w a) := by
  cases a with
  | begin call request =>
    simp only [FeedbackWorld.step, access, Shared.step]
    split
    · rfl
    · next hcall =>
      split
      · exact cell_setCall_unread (by simp [hcall, countsRead])
      · rfl
  | read call now draw =>
    cases hcall : w.calls call with
    | none => simp [FeedbackWorld.step, access, Shared.step, hcall]
    | some p =>
      cases p with
      | computed request seen u => simp [FeedbackWorld.step, access, Shared.step, hcall]
      | known request => exact cell_read hcall now draw
  | commit call =>
    cases hcall : w.calls call with
    | none => simp [FeedbackWorld.step, access, Shared.step, hcall]
    | some p =>
      cases p with
      | known request => simp [FeedbackWorld.step, access, Shared.step, hcall]
      | computed request seen u => exact cell_commit h hcall
  | fail call => exact cell_setCall call none
  | assign id client' nodeId' port now =>
    ext1
    · exact w.clients.counts_recordAssignment id client' nodeId' port now client nodeId
    · rfl
  | write x => rfl

theorem access_positive (h : w.Computed) (a : FeedbackStep F) :
    Shared.Positive (access client nodeId penalty w a) := by
  cases a with
  | read call now draw =>
    simp only [access]
    repeat' split
    all_goals trivial
  | commit call =>
    simp only [access]
    split
    · next request seen u hcall =>
      split
      · exact (h call request seen u hcall).2
      · trivial
    · trivial
  | _ => trivial

theorem fresh_access_iff (a : FeedbackStep F) :
    (cell client nodeId w).Fresh (access client nodeId penalty w a) ↔
      CommitsCurrent client nodeId w a := by
  cases a with
  | read call now draw =>
    simp only [access, CommitsCurrent, iff_true]
    repeat' split
    all_goals trivial
  | commit call =>
    simp only [access, CommitsCurrent]
    cases hcall : w.calls call with
    | none => exact Iff.rfl
    | some p =>
      cases p with
      | known request => exact Iff.rfl
      | computed request seen u =>
        have hseen : ∀ v, (cell client nodeId w).seen call = some v ↔
            concerns client nodeId request = true ∧ rowCounts seen = v := by
          intro v
          simp only [cell, hcall, countsRead]
          split <;> simp [*]
        cases hc : concerns client nodeId request with
        | true =>
          obtain ⟨hclient, hnode⟩ := concerns_iff.mp hc
          simp only [if_true, Shared.Fresh, hseen, hc, true_and, hclient, hnode]
          exact ⟨fun hall _ _ => hall _ rfl, fun hcurrent _ hv => hv ▸ hcurrent trivial trivial⟩
        | false =>
          have hkey := concerns_eq_false_iff.mp hc
          simp only [hc, Bool.false_eq_true, if_false, Shared.Fresh, true_iff]
          exact fun hclient hnode => absurd ⟨hclient, hnode⟩ hkey
  | _ => exact Iff.rfl

/-- A step answers as many calls as it logs, and as it ought to count. -/
theorem answered_step (client nodeId : String) (penalty : ClientPenalty) (w : FeedbackWorld F)
    (a : FeedbackStep F) (column : CountColumn) :
    ∃ k : ℕ, (w.step penalty a).answered client nodeId column =
        w.answered client nodeId column + k ∧
      (w.step penalty a).clients.logged client nodeId column.status =
        w.clients.logged client nodeId column.status + k ∧
      (cell client nodeId w).gain (access client nodeId penalty w a) column = k := by
  cases a with
  | begin call request =>
    refine ⟨0, ?_⟩
    simp only [FeedbackWorld.step, access]
    repeat' split
    all_goals exact ⟨rfl, rfl, rfl⟩
  | read call now draw =>
    refine ⟨0, ?_⟩
    simp only [FeedbackWorld.step, access]
    repeat' split
    all_goals exact ⟨rfl, rfl, rfl⟩
  | commit call =>
    cases hcall : w.calls call with
    | none => exact ⟨0, by simp [FeedbackWorld.step, access, Shared.gain, hcall]⟩
    | some p =>
      cases p with
      | known request => exact ⟨0, by simp [FeedbackWorld.step, access, Shared.gain, hcall]⟩
      | computed request seen u =>
        simp only [FeedbackWorld.step, access, hcall]
        refine ⟨_, ?_, w.clients.logged_applyFeedback request u client nodeId column.status, ?_⟩
        · rw [answered, List.countP_cons]
          rfl
        · cases hc : concerns client nodeId request with
          | true =>
            have hread : ((cell client nodeId w).seen call).isSome = true := by
              simp only [cell, hcall, countsRead, hc, if_true, Option.isSome_some]
            obtain ⟨hclient, hnode⟩ := concerns_iff.mp hc
            simp only [if_true, Shared.gain, hread, increments, hclient, hnode, decide_true,
              Bool.true_and, decide_eq_true_eq, eq_comm (a := column.status)]
            split <;> rfl
          | false =>
            have hkey := not_and.mp (concerns_eq_false_iff.mp hc)
            by_cases hclient : request.client = client <;>
              simp [Shared.gain, hclient, hkey]
  | fail call => exact ⟨0, rfl, rfl, rfl⟩
  | assign id client' nodeId' port now =>
    have hlogged := w.clients.logged_recordAssignment id client' nodeId' port now client nodeId
      column
    exact ⟨0, rfl, hlogged, rfl⟩
  | write x => exact ⟨0, rfl, rfl, rfl⟩

/-- A run answers as many calls as it logs, and as it ought to count. -/
theorem answered_run (client nodeId : String) (penalty : ClientPenalty) (w : FeedbackWorld F)
    (as : List (FeedbackStep F)) (column : CountColumn) :
    ∃ k : ℕ, (run (step penalty) w as).answered client nodeId column =
        w.answered client nodeId column + k ∧
      (run (step penalty) w as).clients.logged client nodeId column.status =
        w.clients.logged client nodeId column.status + k ∧
      gained (step penalty) (cell client nodeId) (access client nodeId penalty) w as column =
        k := by
  induction as generalizing w with
  | nil => exact ⟨0, rfl, rfl, rfl⟩
  | cons a as ih =>
    obtain ⟨k, hanswered, hlogged, hgain⟩ := answered_step client nodeId penalty w a column
    obtain ⟨m, hanswered', hlogged', hgain'⟩ := ih (w.step penalty a)
    refine ⟨k + m, ?_, ?_, ?_⟩
    · rw [run_cons, hanswered', hanswered, add_assoc]
    · rw [run_cons, hlogged', hlogged, add_assoc]
    · rw [gained, Pi.add_apply, hgain, hgain', Nat.cast_add]

/-- Feedback loses no update exactly if every call commits on top of the counters that it
has read. -/
theorem no_update_lost_iff (penalty : ClientPenalty) (w : FeedbackWorld F) (rest : w.AtRest)
    (client nodeId : String) (steps : List (FeedbackStep F)) :
    w.NothingLost (run (step penalty) w steps) client nodeId ↔
      Admitted (step penalty) (CommitsCurrent client nodeId) w steps := by
  have hcomputed : w.Computed := fun call request seen u hc => by simp [rest.calls call] at hc
  have hexact : (cell client nodeId w).Exact (w.clients.counts client nodeId) :=
    ⟨rfl, fun call v hv => by simp [cell, rest.calls call, countsRead] at hv⟩
  have hvalue : (run (step penalty) w steps).clients.counts client nodeId =
      w.clients.counts client nodeId +
        gained (step penalty) (cell client nodeId) (access client nodeId penalty) w steps ↔
      Admitted (step penalty) (fun w a =>
        (cell client nodeId w).Fresh (access client nodeId penalty w a)) w steps :=
    value_eq_iff (J := Computed) (fun _ a hJ => hJ.step a) (fun _ a hJ => cell_step hJ a)
      (fun _ a hJ => access_positive hJ a) hcomputed hexact steps
  simp only [fresh_access_iff] at hvalue
  rw [← hvalue]
  have hzero : ∀ column, w.answered client nodeId column = 0 := by
    intro column
    simp [answered, rest.returned]
  constructor
  · intro hlost
    funext column
    obtain ⟨k, hanswered, -, hgained⟩ :=
      answered_run client nodeId penalty w steps column
    rw [hzero, zero_add] at hanswered
    rw [Pi.add_apply, hgained, ← hanswered]
    exact hlost.counted column
  · intro heq
    refine ⟨fun column => ?_, fun column => ?_⟩
    all_goals
      obtain ⟨k, hanswered, hlogged, hgained⟩ :=
        answered_run client nodeId penalty w steps column
      rw [hzero, zero_add] at hanswered
    · have hcolumn := congrFun heq column
      rw [Pi.add_apply, hgained, ← hanswered] at hcolumn
      exact hcolumn
    · rw [hanswered]
      exact hlogged

end FeedbackWorld

section Examples

def feedbackPenalty : ClientPenalty where
  broken := ⟨300, 21600⟩
  rateLimited := ⟨900, 43200⟩

/-- One node, and no feedback so far. -/
def oneNodeWorld : FeedbackWorld ℚ where
  store := { nodes := [{
    id := "n", configHash := "h", rawConfig := [], sourceSubs := [],
    healthAlpha := 1, healthBeta := 1, healthScore := 1 / 2, createdAt := 0 }] }

/-- Two calls for one client and node, one after the other. -/
def feedbackInTurn : List (FeedbackStep ℚ) :=
  [.begin 0 ⟨"c", "n", "used"⟩, .read 0 0 0, .commit 0,
    .begin 1 ⟨"c", "n", "broken"⟩, .read 1 0 0, .commit 1]

/-- Two calls that both read before the first of them commits. -/
def feedbackAtOnce : List (FeedbackStep ℚ) :=
  [.begin 0 ⟨"c", "n", "used"⟩, .begin 1 ⟨"c", "n", "used"⟩, .read 0 0 0, .read 1 0 0,
    .commit 0, .commit 1]

def afterFeedback (steps : List (FeedbackStep ℚ)) : FeedbackWorld ℚ :=
  run (FeedbackWorld.step feedbackPenalty) oneNodeWorld steps

theorem no_update_lost_inTurn :
    oneNodeWorld.NothingLost (afterFeedback feedbackInTurn) "c" "n" := by
  apply (FeedbackWorld.no_update_lost_iff feedbackPenalty oneNodeWorld ⟨fun _ => rfl, rfl⟩ "c" "n"
    feedbackInTurn).mpr
  refine ⟨trivial, trivial, ?_, trivial, trivial, ?_, trivial⟩
  · intro _ _
    decide +kernel
  · intro _ _
    decide +kernel

/-- Both calls returned, and one of them is missing from the counters. -/
theorem feedback_lost :
    (afterFeedback feedbackAtOnce).calls 0 = none ∧ (afterFeedback feedbackAtOnce).calls 1 = none ∧
      (afterFeedback feedbackAtOnce).answered "c" "n" .usage = 2 ∧
      (afterFeedback feedbackAtOnce).clients.logged "c" "n" "used" = 2 ∧
      (afterFeedback feedbackAtOnce).clients.counts "c" "n" .usage = 1 ∧
      ¬ oneNodeWorld.NothingLost (afterFeedback feedbackAtOnce) "c" "n" := by
  have hcounts : (afterFeedback feedbackAtOnce).clients.counts "c" "n" .usage = 1 := by
    decide +kernel
  have hanswered : (afterFeedback feedbackAtOnce).answered "c" "n" .usage = 2 := by
    decide +kernel
  refine ⟨rfl, rfl, hanswered, by decide +kernel, hcounts, fun hlost => ?_⟩
  have hcolumn := hlost.counted .usage
  rw [hcounts, hanswered] at hcolumn
  revert hcolumn
  decide +kernel

end Examples

end ProxyFleet
