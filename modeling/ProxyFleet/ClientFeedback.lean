import ProxyFleet.ReaderQueries

/-!
# Feedback of clients

A call reads the row of its client and node, computes every column anew, and writes
them back in a later transaction together with one usage event. Only the last of
these steps is a transaction, so calls interleave between them.
-/
namespace ProxyFleet

variable {F : Type}

/-- The columns of `client_node_state` with which a row of feedback continues. -/
structure ClientNodeRow (F : Type) extends ClientNodeState F where
  usageCount : Option ℤ := some 0
  successCount : Option ℤ := some 0
  brokenCount : Option ℤ := some 0
  rateLimitedCount : Option ℤ := some 0
  lastAssignedAt : Option Time := none
  lastFeedbackAt : Option Time := none
  lastFailureAt : Option Time := none
  lastSuccessAt : Option Time := none

structure AssignmentRow extends AssignmentEvent where
  id : String
  port : ℕ
  feedbackStatus : Option String := none
  feedbackAt : Option Time := none

structure UsageRow extends UsageEvent where
  eventType : String

/-- The tables of the clients. -/
structure FeedbackTables (F : Type) where
  states : List (ClientNodeRow F) := []
  assignments : List AssignmentRow := []
  usage : List UsageRow := []

structure PenaltyRule where
  baseCooldownSeconds : ℕ
  maxCooldownSeconds : ℕ

structure ClientPenalty where
  broken : PenaltyRule
  rateLimited : PenaltyRule

/-- Any whole number of seconds up to the ceiling, chosen by `draw`. -/
def fullJitterCooldown (rule : PenaltyRule) (streak draw : ℕ) : Time :=
  let doubled := rule.baseCooldownSeconds * 2 ^ min (streak - 1) 20
  let ceiling := min (min doubled (2 ^ 64 - 1)) rule.maxCooldownSeconds
  seconds (draw % (ceiling + 1) : ℕ)

/-- The values that a call computes from the row it has read. -/
structure FeedbackUpdate (F : Type) where
  state : String
  failStreak : ℤ
  rateLimitStreak : ℤ
  cooldownUntil : Option Time
  usageCount : ℤ
  successCount : ℤ
  brokenCount : ℤ
  rateLimitedCount : ℤ
  successRateEwma : F
  now : Time
  successful : Bool

structure FeedbackRequest where
  client : String
  nodeId : String
  status : String
  deriving DecidableEq

def feedbackUpdate [F64 F] (penalty : ClientPenalty) (row : Option (ClientNodeRow F))
    (status : String) (now : Time) (draw : ℕ) : Except String (FeedbackUpdate F) :=
  let failStreak := (row.bind (·.failStreak)).getD 0
  let rateLimitStreak := (row.bind (·.rateLimitStreak)).getD 0
  let usageCount := (row.bind (·.usageCount)).getD 0
  let successCount := (row.bind (·.successCount)).getD 0
  let brokenCount := (row.bind (·.brokenCount)).getD 0
  let rateLimitedCount := (row.bind (·.rateLimitedCount)).getD 0
  let ewma := (row.bind (·.successRateEwma)).getD (F64.ofRat (1 / 2))
  let kept := F64.mul ewma (F64.ofRat (7 / 10))
  if status = "used" then
    .ok {
      state := "CLOSED"
      failStreak := 0
      rateLimitStreak := 0
      cooldownUntil := none
      usageCount := usageCount + 1
      successCount := successCount + 1
      brokenCount := brokenCount
      rateLimitedCount := rateLimitedCount
      successRateEwma := F64.add kept (F64.ofRat (3 / 10))
      now := now
      successful := true }
  else if status = "broken" then
    .ok {
      state := "OPEN"
      failStreak := failStreak + 1
      rateLimitStreak := rateLimitStreak
      cooldownUntil :=
        some (now + fullJitterCooldown penalty.broken (truncateU32 (failStreak + 1)) draw)
      usageCount := usageCount
      successCount := successCount
      brokenCount := brokenCount + 1
      rateLimitedCount := rateLimitedCount
      successRateEwma := kept
      now := now
      successful := false }
  else if status = "rate_limited" then
    .ok {
      state := "OPEN"
      failStreak := failStreak
      rateLimitStreak := rateLimitStreak + 1
      cooldownUntil :=
        some (now + fullJitterCooldown penalty.rateLimited (truncateU32 (rateLimitStreak + 1)) draw)
      usageCount := usageCount
      successCount := successCount
      brokenCount := brokenCount
      rateLimitedCount := rateLimitedCount + 1
      successRateEwma := kept
      now := now
      successful := false }
  else .error "invalid feedback status"

/-- `DO UPDATE SET …`: the columns of the row become those of the update. -/
def ClientNodeRow.feedback (row : ClientNodeRow F) (u : FeedbackUpdate F) : ClientNodeRow F :=
  { row with
    state := u.state
    failStreak := some u.failStreak
    rateLimitStreak := some u.rateLimitStreak
    cooldownUntil := u.cooldownUntil
    usageCount := some u.usageCount
    successCount := some u.successCount
    brokenCount := some u.brokenCount
    rateLimitedCount := some u.rateLimitedCount
    successRateEwma := some u.successRateEwma
    lastFeedbackAt := some u.now
    lastFailureAt := if u.successful then none else some u.now
    lastSuccessAt := if u.successful then some u.now else none }

/-- A row with the defaults of the schema. -/
def ClientNodeRow.fresh [F64 F] (client nodeId : String) : ClientNodeRow F where
  clientId := client
  nodeId := nodeId
  state := "CLOSED"
  failStreak := some 0
  rateLimitStreak := some 0
  cooldownUntil := none
  successRateEwma := some (F64.ofRat (1 / 2))

namespace FeedbackTables

variable (t : FeedbackTables F)

def row (client nodeId : String) : Option (ClientNodeRow F) :=
  t.states.find? fun c => c.clientId = client && c.nodeId = nodeId

/-- `INSERT … ON CONFLICT(client_id, node_id) DO UPDATE`. -/
def upsert [F64 F] (client nodeId : String) (f : ClientNodeRow F → ClientNodeRow F) :
    FeedbackTables F :=
  let here (c : ClientNodeRow F) : Bool := c.clientId = client && c.nodeId = nodeId
  if t.states.any here then { t with states := RowUpdates.updateWhere here f t.states }
  else { t with states := t.states ++ [f (.fresh client nodeId)] }

/-- The newest assignment of the node to the client that has no feedback yet. -/
def awaitingFeedback (client nodeId : String) : Option AssignmentRow :=
  ((t.assignments.filter fun a =>
    a.clientId = client && a.nodeId = nodeId && a.feedbackStatus.isNone).mergeSort
    fun a b => decide (b.assignedAt ≤ a.assignedAt)).head?

/-- The transaction of a call. -/
def applyFeedback [F64 F] (request : FeedbackRequest) (u : FeedbackUpdate F) : FeedbackTables F :=
  let answered := (t.awaitingFeedback request.client request.nodeId).map (·.id)
  { t.upsert request.client request.nodeId (·.feedback u) with
    assignments := RowUpdates.updateWhere (fun a => some a.id = answered)
      (fun a => { a with feedbackStatus := some request.status, feedbackAt := some u.now })
      t.assignments
    usage := t.usage ++ [{
      clientId := request.client
      nodeId := request.nodeId
      createdAt := u.now
      eventType := request.status }] }

/-- The transaction that hands a node to a client. -/
def recordAssignment [F64 F] (id client nodeId : String) (port : ℕ) (now : Time) :
    FeedbackTables F :=
  { t.upsert client nodeId (fun c => { c with lastAssignedAt := some now }) with
    assignments := t.assignments ++ [{
      id := id
      clientId := client
      nodeId := nodeId
      port := port
      assignedAt := now }]
    usage := t.usage ++ [{
      clientId := client
      nodeId := nodeId
      createdAt := now
      eventType := "assigned" }] }

end FeedbackTables

/-- How far a call is: it knows that the node exists, or it has computed its update. -/
inductive FeedbackProgress (F : Type) where
  | known (request : FeedbackRequest)
  | computed (request : FeedbackRequest) (seen : Option (ClientNodeRow F))
      (update : FeedbackUpdate F)

/-- The store, the tables of the clients, and the calls in progress by their numbers. -/
structure FeedbackWorld (F : Type) where
  store : Store F := {}
  clients : FeedbackTables F := {}
  calls : ℕ → Option (FeedbackProgress F) := fun _ => none
  /-- The calls that returned `Ok`, newest first. The service does not read it. -/
  returned : List FeedbackRequest := []

/-- The database steps of the calls, their end by an error, and the other transactions. -/
inductive FeedbackStep (F : Type) where
  | begin (call : ℕ) (request : FeedbackRequest)
  | read (call : ℕ) (now : Time) (draw : ℕ)
  | commit (call : ℕ)
  | fail (call : ℕ)
  | assign (id client nodeId : String) (port : ℕ) (now : Time)
  | write (w : Write F)

namespace FeedbackWorld

variable [F64 F]

def setCall (w : FeedbackWorld F) (call : ℕ) (p : Option (FeedbackProgress F)) :
    FeedbackWorld F :=
  { w with calls := Function.update w.calls call p }

omit [F64 F] in
@[simp] theorem setCall_self (w : FeedbackWorld F) (call : ℕ) (p : Option (FeedbackProgress F)) :
    (w.setCall call p).calls call = p := Function.update_self ..

omit [F64 F] in
theorem setCall_of_ne (w : FeedbackWorld F) {call other : ℕ} (h : other ≠ call)
    (p : Option (FeedbackProgress F)) : (w.setCall call p).calls other = w.calls other :=
  Function.update_of_ne h ..

def step (penalty : ClientPenalty) (w : FeedbackWorld F) : FeedbackStep F → FeedbackWorld F
  | .begin call request =>
    match w.calls call with
    | some _ => w
    -- A call for a node that does not exist returns its error at once.
    | none =>
      if (w.store.findNode request.nodeId).isSome then w.setCall call (some (.known request))
      else w
  | .read call now draw =>
    match w.calls call with
    | some (.known request) =>
      let row := w.clients.row request.client request.nodeId
      match feedbackUpdate penalty row request.status now draw with
      | .ok u => w.setCall call (some (.computed request row u))
      | .error _ => w.setCall call none
    | _ => w
  | .commit call =>
    match w.calls call with
    | some (.computed request _ u) =>
      { w.setCall call none with
        clients := w.clients.applyFeedback request u
        returned := request :: w.returned }
    | _ => w
  | .fail call => w.setCall call none
  | .assign id client nodeId port now =>
    { w with clients := w.clients.recordAssignment id client nodeId port now }
  | .write x => { w with store := w.store.write x }

end FeedbackWorld

end ProxyFleet
