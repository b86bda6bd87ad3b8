import ProxyFleet.ClientSelection
import ProxyFleet.FleetDatabase
import ProxyFleet.LibraryReaders
import ProxyFleet.VipChoice

/-!
# Maintenance of the VIP port

A call compares the best candidate with the node that serves the port. It keeps the node for a
minimum time, and as long as the candidate does not exceed the score that was remembered when
the port was switched. Whether the node is still eligible is not asked, so a dead node keeps
the port until some candidate exceeds its old score.
-/
namespace ProxyFleet

variable {F : Type}

structure VipPortConfig (F : Type) where
  enabled : Bool := true
  port : ℕ := 5050
  minSwitchIntervalSeconds : ℕ := 60
  switchThresholdScoreDiff : F

/-- The node that serves the port, with the score for which it was chosen. -/
structure VipRuntime (F : Type) where
  nodeId : String
  score : F
  rawConfig : Text
  startedAt : Time
  deriving DecidableEq

/-- What a call meets: the clock, the query, a free test port, and how the starts of Xray end. -/
structure VipView where
  now : Time
  queried : Except String Unit
  comparedAt : Time
  reserved : Except String ℕ
  preflight : ParsedProxy → ℕ → Except String Unit
  start : ParsedProxy → ℕ → Except String Unit
  startedAt : Time
  recover : ParsedProxy → ℕ → Except String Unit

section Maintain

variable [F64 F] (lib : Libraries) (config : VipPortConfig F) (view : VipView)

/-- The lead of a candidate over the remembered score is too small. -/
def VipPortConfig.belowMargin (score remembered : F) : Bool :=
  F64.lt (F64.add score (F64.mul (F64.ofRat (-1)) remembered)) config.switchThresholdScoreDiff

/-- The call leaves the port alone. -/
def VipPortConfig.keeps (candidate : VipCandidate F) (comparedAt : Time)
    (current : VipRuntime F) : Bool :=
  current.nodeId = candidate.id ||
    (decide (comparedAt - current.startedAt <
        seconds (castI64 config.minSwitchIntervalSeconds)) ||
      config.belowMargin candidate.score current.score)

/-- What is left of the previous node when its successor did not start. -/
def recoverVip : Option (VipRuntime F) → Option (VipRuntime F)
  | none => none
  | some old =>
    match parseShareUrl lib old.rawConfig "vip-recovery" with
    | .error _ => none
    | .ok proxy =>
      match view.recover proxy config.port with
      | .error _ => none
      | .ok () => some old

def switchVip (candidate : VipCandidate F) (vip : Option (VipRuntime F)) :
    Option (VipRuntime F) × Except String Unit :=
  match parseShareUrl lib candidate.rawConfig "vip" with
  | .error error => (vip, .error error)
  | .ok proxy =>
    match view.reserved with
    | .error error => (vip, .error error)
    | .ok testPort =>
      match view.preflight proxy testPort with
      | .error error => (vip, .error error)
      | .ok () =>
        match view.start proxy config.port with
        | .ok () =>
          (some {
            nodeId := candidate.id
            score := candidate.score
            rawConfig := candidate.rawConfig
            startedAt := view.startedAt }, .ok ())
        | .error error => (recoverVip lib config view vip, .error error)

def maintainVip (s : Store F) (tables : ClientTables F) (vip : Option (VipRuntime F)) :
    Option (VipRuntime F) × Except String Unit :=
  if config.enabled = false then (vip, .ok ())
  else
    match view.queried with
    | .error error => (vip, .error error)
    | .ok () =>
      match s.bestVipCandidate tables view.now with
      | none => (vip, .ok ())
      | some candidate =>
        if vip.any (config.keeps candidate view.comparedAt) then (vip, .ok ())
        else switchVip lib config view candidate vip

end Maintain

/-- The database and the node behind the port. -/
structure VipWorld (F : Type) where
  db : FleetDatabase F := {}
  vip : Option (VipRuntime F) := none

/-- Transactions of the service, calls of `maintain_vip`, and the shutdown of the runtimes. -/
inductive VipStep (F : Type) where
  | operation (op : Operation F)
  | maintain (view : VipView)
  | shutdown

namespace VipWorld

variable [F64 F] (lib : Libraries) (config : VipPortConfig F)

def step (world : VipWorld F) : VipStep F → VipWorld F
  | .operation op => { world with db := world.db.step op }
  | .maintain view =>
    { world with
      vip := (maintainVip lib config view world.db.store world.db.clients.reads world.vip).1 }
  | .shutdown => { world with vip := none }

variable (world : VipWorld F) (view : VipView)

/-- Everything that a switch to the best candidate starts comes up. -/
structure Starts : Prop where
  queried : view.queried = .ok ()
  started : ∀ row ∈ world.db.store.vipRow view.now,
    ∃ proxy, parseShareUrl lib row.rawConfig "vip" = .ok proxy ∧
      ∃ testPort, view.reserved = .ok testPort ∧ view.preflight proxy testPort = .ok () ∧
        view.start proxy config.port = .ok ()

/-- The node behind the port is eligible no longer, another one is, and nothing is in the way
of a switch to it. -/
structure Abandoned (vip : VipRuntime F) : Prop where
  current : world.vip = some vip
  dead : ∀ row ∈ world.db.store.nodes, row.id = vip.nodeId → row.runnable view.now = false
  other : ∃ row ∈ world.db.store.nodes, row.selectable view.now = true
  elapsed : seconds (castI64 config.minSwitchIntervalSeconds) ≤ view.comparedAt - vip.startedAt
  starts : world.Starts lib config view

/-- A call leaves a dead node for an eligible one. -/
def LeavesDead : VipStep F → Prop
  | .maintain view => ∀ vip, world.Abandoned lib config view vip →
    ∃ next ∈ (world.step lib config (.maintain view)).vip,
      ∃ row ∈ world.db.store.nodes, row.id = next.nodeId ∧ row.selectable view.now = true
  | _ => True

/-- The first row of the query exceeds the score of a dead node by the margin. -/
def MarginMet : VipStep F → Prop
  | .maintain view => ∀ vip, world.Abandoned lib config view vip →
    ∀ row ∈ world.db.store.vipRow view.now, config.belowMargin
      (Store.vipScore row (Store.vipUsage world.db.clients.reads view.now row)) vip.score = false
  | _ => True

/-- Only an enabled port has a node behind it. -/
def Served : Prop := world.vip.isSome = true → config.enabled = true

end VipWorld

namespace VipWorld

variable [F64 F] {lib : Libraries} {config : VipPortConfig F} {world : VipWorld F}
  {view : VipView} {vip : VipRuntime F}

theorem served_step (h : world.Served config) (a : VipStep F) :
    (world.step lib config a).Served config := by
  cases a with
  | operation op => exact h
  | shutdown =>
    intro hsome
    cases hsome
  | maintain view =>
    intro hsome
    by_contra hdisabled
    have hkept : maintainVip lib config view world.db.store world.db.clients.reads world.vip =
        (world.vip, .ok ()) := by
      rw [maintainVip, if_pos (Bool.eq_false_iff.mpr hdisabled)]
    rw [step, hkept] at hsome
    exact hdisabled (h hsome)

/-- Behind the minimum interval only the margin can keep a dead node on the port. -/
theorem Abandoned.step_vip (h : world.Abandoned lib config view vip)
    (hserved : world.Served config) {row : Node F}
    (hrow : world.db.store.vipRow view.now = some row) (hne : vip.nodeId ≠ row.id) :
    (world.step lib config (.maintain view)).vip =
      if config.belowMargin (Store.vipScore row
          (Store.vipUsage world.db.clients.reads view.now row)) vip.score then some vip
      else some ⟨row.id, Store.vipScore row
        (Store.vipUsage world.db.clients.reads view.now row), row.rawConfig, view.startedAt⟩ := by
  have henabled : ¬ config.enabled = false := by
    rw [hserved (by rw [h.current]; rfl)]
    exact Bool.noConfusion
  obtain ⟨proxy, hproxy, testPort, hport, hpreflight, hstart⟩ := h.starts.started row hrow
  rw [step, maintainVip, if_neg henabled]
  simp only [h.starts.queried, Store.bestVipCandidate_of_vipRow hrow, h.current,
    Option.any_some, VipPortConfig.keeps, decide_eq_false hne, Bool.false_or,
    decide_eq_false (not_lt.mpr h.elapsed)]
  split
  · rfl
  · simp only [switchVip, hproxy, hport, hpreflight, hstart]

theorem leavesDead_iff (hserved : world.Served config) (a : VipStep F) :
    world.LeavesDead lib config a ↔ world.MarginMet lib config a := by
  cases a with
  | operation op => exact Iff.rfl
  | shutdown => exact Iff.rfl
  | maintain view =>
    refine forall_congr' fun vip => forall_congr' fun habandoned => ?_
    obtain ⟨row, hmem, hselectable, hrow⟩ := Store.exists_vipRow habandoned.other
    have hdead : ∀ row ∈ world.db.store.nodes, row.id = vip.nodeId →
        row.selectable view.now = false := by
      intro row hrow hid
      rw [Node.selectable, habandoned.dead row hrow hid, Bool.false_and]
    have hne : vip.nodeId ≠ row.id := by
      intro heq
      rw [hdead row hmem heq.symm] at hselectable
      cases hselectable
    rw [habandoned.step_vip hserved hrow hne, hrow]
    simp only [Option.mem_some_iff, forall_eq']
    cases config.belowMargin (Store.vipScore row
        (Store.vipUsage world.db.clients.reads view.now row)) vip.score with
    | false => exact iff_of_true ⟨_, rfl, row, hmem, rfl, hselectable⟩ rfl
    | true =>
      refine iff_of_false ?_ Bool.noConfusion
      rintro ⟨next, hnext, other, hother, hid, hotherSelectable⟩
      obtain rfl := Option.some.inj hnext
      rw [hdead other hother hid] at hotherSelectable
      cases hotherSelectable

/-- In every run from an empty database the port leaves its dead nodes exactly if each call that
meets one finds the margin kept. -/
theorem vip_leaves_dead_iff (steps : List (VipStep F)) :
    ObservedRuns.Admitted (step lib config) (LeavesDead lib config) {} steps ↔
      ObservedRuns.Admitted (step lib config) (MarginMet lib config) {} steps := by
  apply ObservedRuns.admitted_congr (I := fun world => world.Served config)
  · exact fun world a h => served_step h a
  · exact fun world a h => leavesDead_iff h a
  · intro h
    cases h

end VipWorld

/-- The second node of the feed. -/
def secondProxy : ParsedProxy :=
  { sampleProxy with
    rawConfig := "trojan://second@host.example:443".toList
    normalizedConfig := .object [
      ("address", .string "host.example"), ("params", .object []), ("password", .string ""),
      ("path", .string ""), ("port", .number (.posInt 443)), ("protocol", .string "trojan"),
      ("user", .string "second")]
    configHash := "2f2f0916fb7ba533e98875b77b9a765ac2c10c20b1e5dda94ea57b73e06a4309" }

/-- A call in which everything works out. -/
def readyView (now : Time) : VipView where
  now := now
  queried := .ok ()
  comparedAt := now
  reserved := .ok 20000
  preflight := fun _ _ => .ok ()
  start := fun _ _ => .ok ()
  startedAt := now
  recover := fun _ _ => .ok ()

/-- A node serves the port until its lease is over, and a second one becomes active. -/
def abandonedRun : List (VipStep ℚ) := [
  .operation (.write (.ingestOne 0 sampleProxy "node" 1)),
  .operation (.write (.applyTestEvent 0 (sampleEvent "first" .download .success)
    defaultCadence 0)),
  .operation (.write (.setMainPort "node" 10000)),
  .maintain (readyView 0),
  .operation (.write (.ingestOne (hours 24) secondProxy "second" 1)),
  .operation (.write (.applyTestEvent (hours 24)
    { sampleEvent "second" .download .success with proxyId := "second" } defaultCadence 0)),
  .operation (.write (.setMainPort "second" 10001)),
  .maintain (readyView (hours 24))]

def defaultVipPort : VipPortConfig ℚ where
  switchThresholdScoreDiff := 15 / 100

/-- The world at the last call of this run. -/
def abandonedWorld : VipWorld ℚ :=
  ObservedRuns.run (VipWorld.step (readerLibraries [] []) defaultVipPort) {}
    (abandonedRun.take 7)

theorem abandonedWorld_abandoned :
    abandonedWorld.Abandoned (readerLibraries [] []) defaultVipPort (readyView (hours 24))
      ⟨"node", 193 / 350, sampleProxy.rawConfig, 0⟩ where
  current := by decide +kernel
  dead := by decide +kernel
  other := by decide +kernel
  elapsed := by decide
  starts := by
    refine ⟨rfl, fun row hrow => ?_⟩
    have hparses : (abandonedWorld.db.store.vipRow (hours 24)).all (fun row =>
        (parseShareUrl (readerLibraries [] []) row.rawConfig "vip").isOk) = true := by
      decide +kernel
    have hfound : abandonedWorld.db.store.vipRow (hours 24) = some row := hrow
    rw [hfound, Option.all_some] at hparses
    cases hproxy : parseShareUrl (readerLibraries [] []) row.rawConfig "vip" with
    | error error =>
      rw [hproxy] at hparses
      cases hparses
    | ok proxy => exact ⟨proxy, rfl, 20000, rfl, rfl, rfl⟩

/-- A day later the first node still serves the port, since the second one is no better. -/
theorem dead_node_keeps_the_port :
    (abandonedWorld.step (readerLibraries [] []) defaultVipPort
      (.maintain (readyView (hours 24)))).vip =
        some ⟨"node", 193 / 350, sampleProxy.rawConfig, 0⟩ ∧
    ¬ ObservedRuns.Admitted (VipWorld.step (readerLibraries [] []) defaultVipPort)
      (VipWorld.LeavesDead (readerLibraries [] []) defaultVipPort) {} abandonedRun := by
  have hkept : (abandonedWorld.step (readerLibraries [] []) defaultVipPort
      (.maintain (readyView (hours 24)))).vip =
        some ⟨"node", 193 / 350, sampleProxy.rawConfig, 0⟩ := by
    decide +kernel
  refine ⟨hkept, ?_⟩
  rintro ⟨-, -, -, -, -, -, -, hleaves, -⟩
  obtain ⟨next, hnext, row, hrow, hid, hselectable⟩ := hleaves _ abandonedWorld_abandoned
  obtain rfl := Option.some.inj (hkept.symm.trans hnext)
  have hdead := abandonedWorld_abandoned.dead row hrow hid
  rw [Node.runnable_of_selectable hselectable] at hdead
  cases hdead

end ProxyFleet
