import ProxyFleet.RelayProbes
import ProxyFleet.UnorderedBuffers
import Mathlib.Data.List.Nodup

/-!
# Batches behind one Xray process

The proxies that passed the preflight share one Xray process. A batch whose process does not
start is halved, down to single proxies, so that a proxy that Xray rejects is found and the
others are tested. Each call of the recursion has its own view of the host, under the halves
that lead to it.
-/
namespace ProxyFleet

/-- What a scan of the port range meets at each port. -/
structure PortScan where
  reserved : ℕ → Bool
  binds : ℕ → Bool
  inserts : ℕ → Bool

def PortScan.takes (scan : PortScan) (port : ℕ) : Bool :=
  !scan.reserved port && scan.binds port && scan.inserts port

/-- The loop over the ports of the range, with the ports that it took. -/
def allocateLoop (scan : PortScan) (count : ℕ) : List ℕ → List ℕ → List ℕ
  | [], ports => ports
  | port :: range, ports =>
    if ports.length = count then ports
    else if scan.takes port then allocateLoop scan count range (ports ++ [port])
    else allocateLoop scan count range ports

def PortRange.ports (range : PortRange) : List ℕ :=
  List.range' range.start (range.stop + 1 - range.start)

def allocatePorts (scan : PortScan) (range : PortRange) (count : ℕ) :
    Except String (List ℕ) :=
  let ports := allocateLoop scan count range.ports []
  if ports.length = count then .ok ports else .error "not enough available test ports"

/-- The ports of the range that a scan would take. -/
def freePorts (scan : PortScan) (range : PortRange) : List ℕ := range.ports.filter scan.takes

theorem allocateLoop_eq {scan : PortScan} {count : ℕ} {range ports : List ℕ}
    (h : ports.length ≤ count) :
    allocateLoop scan count range ports =
      ports ++ (range.filter scan.takes).take (count - ports.length) := by
  induction range generalizing ports with
  | nil => simp [allocateLoop]
  | cons port range ih =>
    rw [allocateLoop]
    split
    · next hfull => simp [hfull]
    · next hfull =>
      split
      · next htakes =>
        obtain ⟨rest, hrest⟩ : ∃ rest, count - ports.length = rest + 1 :=
          ⟨count - ports.length - 1, by omega⟩
        have hlength : count - (ports ++ [port]).length = rest := by
          rw [List.length_append, List.length_singleton]
          omega
        rw [ih (by rw [List.length_append, List.length_singleton]; omega), hlength, hrest,
          List.filter_cons_of_pos htakes, List.take_succ_cons, List.append_assoc]
        rfl
      · next htakes => rw [ih h, List.filter_cons_of_neg htakes]

theorem allocatePorts_eq_ok {scan : PortScan} {range : PortRange} {count : ℕ} {ports : List ℕ} :
    allocatePorts scan range count = .ok ports ↔
      count ≤ (freePorts scan range).length ∧ ports = (freePorts scan range).take count := by
  have hloop : allocateLoop scan count range.ports [] = (freePorts scan range).take count :=
    allocateLoop_eq (Nat.zero_le count)
  simp only [allocatePorts, hloop]
  split
  · next h =>
    rw [List.length_take] at h
    simp only [Except.ok.injEq, @eq_comm _ ports]
    exact ⟨fun heq => ⟨by omega, heq⟩, fun hboth => hboth.2⟩
  · next h =>
    rw [List.length_take] at h
    simp only [reduceCtorEq, false_iff]
    omega

theorem length_of_allocatePorts {scan : PortScan} {range : PortRange} {count : ℕ}
    {ports : List ℕ} (h : allocatePorts scan range count = .ok ports) : ports.length = count := by
  obtain ⟨hle, rfl⟩ := allocatePorts_eq_ok.mp h
  rw [List.length_take]
  omega

/-- A reserved port is not taken a second time. -/
theorem nodup_of_allocatePorts {scan : PortScan} {range : PortRange} {count : ℕ}
    {ports : List ℕ} (h : allocatePorts scan range count = .ok ports) : ports.Nodup := by
  obtain ⟨-, rfl⟩ := allocatePorts_eq_ok.mp h
  have hrange : range.ports.Nodup := List.nodup_range'
  exact (hrange.filter _).sublist (List.take_sublist _ _)

def Json.set (json : Json) (key : String) (value : Json) : Json :=
  match json with
  | .object members => .object (OrderedMap.insert members key value)
  | other => other

section Start

variable (lib : Libraries)

/-- The outbounds of a batch from a position on, under the tags of their positions. -/
def batchOutbounds : ℕ → List ParsedProxy → Except String (List Json)
  | _, [] => .ok []
  | index, proxy :: proxies => do
    let outbound ← xrayOutbound lib proxy
    let outbounds ← batchOutbounds (index + 1) proxies
    .ok (outbound.set "tag" (.string ("out-" ++ toString index)) :: outbounds)

def batchInbound (port index : ℕ) : Json :=
  Json.ofFields [("tag", .string ("in-" ++ toString index)), ("listen", .string "127.0.0.1"),
    ("port", .number (.posInt port)), ("protocol", .string "socks"),
    ("settings", .ofFields [("udp", .bool false)])]

def batchRule (index : ℕ) : Json :=
  Json.ofFields [("type", .string "field"),
    ("inboundTag", .array [.string ("in-" ++ toString index)]),
    ("outboundTag", .string ("out-" ++ toString index))]

def batchConfig (ports : List ℕ) (outbounds : List Json) : Json :=
  Json.ofFields [("log", .ofFields [("loglevel", .string "warning")]),
    ("inbounds", .array (ports.mapIdx fun index port => batchInbound port index)),
    ("outbounds", .array outbounds),
    ("routing", .ofFields [("domainStrategy", .string "AsIs"),
      ("rules", .array ((List.range ports.length).map batchRule))])]

/-- The start of the process of a batch. The host writes the configuration down, runs Xray
and waits until it is ready. -/
def startBatch (launch : Json → Except String Unit) (proxies : List ParsedProxy)
    (ports : List ℕ) : Except String Unit := do
  ensure (proxies.length == ports.length && !proxies.isEmpty) "invalid Xray batch"
  let outbounds ← batchOutbounds lib 0 proxies
  launch (batchConfig ports outbounds)

variable {lib} {proxies : List ParsedProxy} {ports : List ℕ}

/-- A batch is rendered when each of its proxies is. -/
theorem batchOutbounds_isOk (index : ℕ) :
    (∃ outbounds, batchOutbounds lib index proxies = .ok outbounds) ↔
      ∀ proxy ∈ proxies, ∃ outbound, xrayOutbound lib proxy = .ok outbound := by
  induction proxies generalizing index with
  | nil => simp [batchOutbounds]
  | cons proxy proxies ih =>
    rw [List.forall_mem_cons, ← ih (index + 1)]
    simp only [batchOutbounds, bind_eq_ok]
    constructor
    · rintro ⟨-, outbound, hproxy, outbounds, hrest, -⟩
      exact ⟨⟨outbound, hproxy⟩, outbounds, hrest⟩
    · rintro ⟨⟨outbound, hproxy⟩, outbounds, hrest⟩
      exact ⟨_, outbound, hproxy, outbounds, hrest, rfl⟩

theorem startBatch_eq_ok {launch : Json → Except String Unit} :
    startBatch lib launch proxies ports = .ok () ↔
      proxies.length = ports.length ∧ proxies ≠ [] ∧
        ∃ outbounds, batchOutbounds lib 0 proxies = .ok outbounds ∧
          launch (batchConfig ports outbounds) = .ok () := by
  simp only [startBatch, bind_eq_ok, ensure_eq_ok, Bool.and_eq_true, beq_iff_eq,
    Bool.not_eq_true', List.isEmpty_eq_false_iff, exists_const, and_assoc]

end Start

/-- A proxy that passed the preflight. -/
structure Survivor where
  id : String
  proxy : ParsedProxy
  deadline : ℕ
  downloadDue : Bool

/-- What one call of the recursion meets: the ports, the start of Xray with the moment at
which it was given up, the order of the completions, and the probes by their positions. -/
structure CallView where
  scan : PortScan
  launch : Json → Except String Unit
  settledAt : ℕ
  picks : ℕ → ℕ
  probe : ℕ → RelayView

/-- The views of all calls, under the halves that lead to them. -/
abbrev BatchWorld := List Bool → CallView

def BatchWorld.half (world : BatchWorld) (second : Bool) : BatchWorld :=
  fun path => world (second :: path)

section Batch

variable {F : Type} [F64 F]

def overloadedOutcome (error : String) (settledAt : ℕ) : ProbeOutcome F :=
  ⟨[event .relay .localOverload none
    [("error", .string error), ("reason", .string "port_capacity")]], [], settledAt⟩

def startFailedOutcome (error : String) (settledAt : ℕ) : ProbeOutcome F :=
  ⟨[event .relay .xrayStartFailed none [("error", .string error)]], [], settledAt⟩

variable [F64Convert F] (lib : Libraries) (config : ProbeConfig F) (downloadConcurrency : ℕ)

/-- The probes of a batch behind a running process. -/
def probeBatch (view : CallView) (survivors : List Survivor) (ports : List ℕ) :
    List (String × ProbeOutcome F) :=
  bufferUnordered (max downloadConcurrency 1) view.picks
    ((survivors.zip ports).mapIdx fun i member =>
      (member.1.id, testThroughXray member.2 config member.1.deadline member.1.downloadDue
        (view.probe i)))

def testSurvivorBatch (world : BatchWorld) (survivors : List Survivor) :
    List (String × ProbeOutcome F) :=
  if survivors = [] then []
  else
    match allocatePorts (world []).scan config.testPorts survivors.length with
    | .error error =>
      survivors.map fun survivor => (survivor.id, overloadedOutcome error (world []).settledAt)
    | .ok ports =>
      match startBatch lib (world []).launch (survivors.map (·.proxy)) ports with
      | .ok _ => probeBatch config downloadConcurrency (world []) survivors ports
      | .error error =>
        if h : survivors.length = 1 then
          [(survivors[0].id, startFailedOutcome error (world []).settledAt)]
        else
          let midpoint := survivors.length / 2
          testSurvivorBatch (world.half false) (survivors.take midpoint) ++
            testSurvivorBatch (world.half true) (survivors.drop midpoint)
termination_by survivors.length
decreasing_by
  · next hempty =>
    have hpos := List.length_pos_iff.mpr hempty
    rw [List.length_take]
    omega
  · next hempty =>
    have hpos := List.length_pos_iff.mpr hempty
    rw [List.length_drop]
    omega

end Batch

/-- What becomes of a survivor. -/
inductive Service where
  | overloaded (error : String) (settledAt : ℕ)
  | startFailed (error : String) (settledAt : ℕ)
  | tested (port : ℕ) (view : RelayView)

def halfOf (survivors : List Survivor) : Bool → List Survivor
  | false => survivors.take (survivors.length / 2)
  | true => survivors.drop (survivors.length / 2)

section Served

variable {F : Type} [F64 F] (lib : Libraries) (config : ProbeConfig F)

/-- A batch that got its ports and the start of whose process fails. -/
def StartFails (world : BatchWorld) (survivors : List Survivor) (error : String) : Prop :=
  ∃ ports, allocatePorts (world []).scan config.testPorts survivors.length = .ok ports ∧
    startBatch lib (world []).launch (survivors.map (·.proxy)) ports = .error error

/-- The service of each survivor of a batch. -/
inductive Served : BatchWorld → List Survivor → Survivor → Service → Prop where
  | overloaded {world survivors survivor error}
      (hports : allocatePorts (world []).scan config.testPorts survivors.length = .error error)
      (hmem : survivor ∈ survivors) :
      Served world survivors survivor (.overloaded error (world []).settledAt)
  | tested {world survivors survivor ports i port}
      (hports : allocatePorts (world []).scan config.testPorts survivors.length = .ok ports)
      (hstart : startBatch lib (world []).launch (survivors.map (·.proxy)) ports = .ok ())
      (hsurvivor : survivors[i]? = some survivor) (hport : ports[i]? = some port) :
      Served world survivors survivor (.tested port ((world []).probe i))
  | startFailed {world survivor error} (hfails : StartFails lib config world [survivor] error) :
      Served world [survivor] survivor (.startFailed error (world []).settledAt)
  | split {world survivors survivor service error}
      (hfails : StartFails lib config world survivors error) (hlength : 1 < survivors.length)
      (second : Bool)
      (hserved : Served (world.half second) (halfOf survivors second) survivor service) :
      Served world survivors survivor service

variable {lib config} {world : BatchWorld} {survivors : List Survivor} {survivor : Survivor}
  {service : Service}

theorem length_halfOf (h : 1 < survivors.length) (second : Bool) :
    (halfOf survivors second).length < survivors.length := by
  cases second with
  | false =>
    rw [halfOf, List.length_take]
    omega
  | true =>
    rw [halfOf, List.length_drop]
    omega

theorem mem_halfOf : survivor ∈ survivors ↔ ∃ second, survivor ∈ halfOf survivors second := by
  rw [Bool.exists_bool, halfOf, halfOf, ← List.mem_append, List.take_append_drop]

theorem Served.mem (h : Served lib config world survivors survivor service) :
    survivor ∈ survivors := by
  induction h with
  | overloaded hports hmem => exact hmem
  | tested hports hstart hsurvivor hport => exact List.mem_of_getElem? hsurvivor
  | startFailed hfails => exact List.mem_singleton_self _
  | split hfails hlength second hserved ih => exact mem_halfOf.mpr ⟨second, ih⟩

/-- A call ends in one of four ways. -/
theorem batch_cases (lib : Libraries) (config : ProbeConfig F) (world : BatchWorld)
    (hne : survivors ≠ []) :
    (∃ error, allocatePorts (world []).scan config.testPorts survivors.length = .error error) ∨
    (∃ ports, allocatePorts (world []).scan config.testPorts survivors.length = .ok ports ∧
      startBatch lib (world []).launch (survivors.map (·.proxy)) ports = .ok ()) ∨
    (∃ survivor error, survivors = [survivor] ∧ StartFails lib config world survivors error) ∨
    (∃ error, 1 < survivors.length ∧ StartFails lib config world survivors error) := by
  cases hports : allocatePorts (world []).scan config.testPorts survivors.length with
  | error error => exact .inl ⟨error, rfl⟩
  | ok ports =>
    cases hstart : startBatch lib (world []).launch (survivors.map (·.proxy)) ports with
    | ok _ => exact .inr (.inl ⟨ports, rfl, hstart⟩)
    | error error =>
      have hfails : StartFails lib config world survivors error := ⟨ports, hports, hstart⟩
      rcases Nat.lt_or_ge 1 survivors.length with hlength | hlength
      · exact .inr (.inr (.inr ⟨error, hlength, hfails⟩))
      · have hpos := List.length_pos_iff.mpr hne
        obtain ⟨survivor, rfl⟩ := List.length_eq_one_iff.mp (by omega : survivors.length = 1)
        exact .inr (.inr (.inl ⟨survivor, error, rfl, hfails⟩))

theorem exists_served (lib : Libraries) (config : ProbeConfig F) (world : BatchWorld)
    (h : survivor ∈ survivors) :
    ∃ service, Served lib config world survivors survivor service := by
  induction hn : survivors.length using Nat.strong_induction_on generalizing world survivors with
  | _ n ih =>
    subst hn
    obtain ⟨error, hports⟩ | ⟨ports, hports, hstart⟩ | ⟨other, error, rfl, hfails⟩ |
      ⟨error, hlength, hfails⟩ :=
      batch_cases lib config world (List.ne_nil_of_mem h)
    · exact ⟨_, .overloaded hports h⟩
    · obtain ⟨i, hi, rfl⟩ := List.getElem_of_mem h
      have hport : i < ports.length := by rwa [length_of_allocatePorts hports]
      exact ⟨_, .tested hports hstart (List.getElem?_eq_getElem hi)
        (List.getElem?_eq_getElem hport)⟩
    · obtain rfl := List.mem_singleton.mp h
      exact ⟨_, .startFailed hfails⟩
    · obtain ⟨second, hmem⟩ := mem_halfOf.mp h
      obtain ⟨service, hserved⟩ := ih _ (length_halfOf hlength second) _ hmem rfl
      exact ⟨service, .split hfails hlength second hserved⟩

variable [F64Convert F]

/-- What a survivor reports after its service. -/
def Service.outcome (config : ProbeConfig F) (survivor : Survivor) : Service → ProbeOutcome F
  | .overloaded error settledAt => overloadedOutcome error settledAt
  | .startFailed error settledAt => startFailedOutcome error settledAt
  | .tested port view =>
    testThroughXray port config survivor.deadline survivor.downloadDue view

section Results

variable {downloadConcurrency : ℕ}

theorem testSurvivorBatch_overloaded {error : String} (hne : survivors ≠ [])
    (hports : allocatePorts (world []).scan config.testPorts survivors.length = .error error) :
    testSurvivorBatch lib config downloadConcurrency world survivors =
      survivors.map fun survivor =>
        (survivor.id, overloadedOutcome error (world []).settledAt) := by
  rw [testSurvivorBatch, if_neg hne]
  simp only [hports]

theorem testSurvivorBatch_tested {ports : List ℕ} (hne : survivors ≠ [])
    (hports : allocatePorts (world []).scan config.testPorts survivors.length = .ok ports)
    (hstart : startBatch lib (world []).launch (survivors.map (·.proxy)) ports = .ok ()) :
    testSurvivorBatch lib config downloadConcurrency world survivors =
      probeBatch config downloadConcurrency (world []) survivors ports := by
  rw [testSurvivorBatch, if_neg hne]
  simp only [hports, hstart]

theorem testSurvivorBatch_single {error : String}
    (hfails : StartFails lib config world [survivor] error) :
    testSurvivorBatch lib config downloadConcurrency world [survivor] =
      [(survivor.id, startFailedOutcome error (world []).settledAt)] := by
  obtain ⟨ports, hports, hstart⟩ := hfails
  rw [testSurvivorBatch, if_neg (List.cons_ne_nil _ _)]
  simp only [hports, hstart]
  rfl

theorem testSurvivorBatch_split {error : String} (hlength : 1 < survivors.length)
    (hfails : StartFails lib config world survivors error) :
    testSurvivorBatch lib config downloadConcurrency world survivors =
      testSurvivorBatch lib config downloadConcurrency (world.half false)
        (halfOf survivors false) ++
      testSurvivorBatch lib config downloadConcurrency (world.half true)
        (halfOf survivors true) := by
  obtain ⟨ports, hports, hstart⟩ := hfails
  have hne : survivors ≠ [] := List.length_pos_iff.mp (by omega)
  rw [testSurvivorBatch, if_neg hne]
  simp only [hports, hstart]
  rw [dif_neg (by omega)]
  rfl

theorem probeBatch_perm (view : CallView) {ports : List ℕ} :
    (probeBatch config downloadConcurrency view survivors ports).Perm
      ((survivors.zip ports).mapIdx fun i member =>
        (member.1.id, testThroughXray member.2 config member.1.deadline member.1.downloadDue
          (view.probe i))) :=
  bufferUnordered_perm (by omega)

theorem probeBatch_ids (view : CallView) {ports : List ℕ}
    (hports : ports.length = survivors.length) :
    ((probeBatch config downloadConcurrency view survivors ports).map Prod.fst).Perm
      (survivors.map (·.id)) := by
  refine ((probeBatch_perm view).map Prod.fst).trans (List.Perm.of_eq ?_)
  refine List.ext_getElem (by simp [hports]) fun i h₁ h₂ => ?_
  simp

/-- Each survivor is answered once. -/
theorem testSurvivorBatch_ids :
    ((testSurvivorBatch lib config downloadConcurrency world survivors).map Prod.fst).Perm
      (survivors.map (·.id)) := by
  induction hn : survivors.length using Nat.strong_induction_on generalizing world survivors with
  | _ n ih =>
    subst hn
    by_cases hne : survivors = []
    · subst hne
      rw [testSurvivorBatch, if_pos rfl]
      rfl
    obtain ⟨error, hports⟩ | ⟨ports, hports, hstart⟩ | ⟨survivor, error, rfl, hfails⟩ |
      ⟨error, hlength, hfails⟩ := batch_cases lib config world hne
    · rw [testSurvivorBatch_overloaded hne hports, List.map_map]
      rfl
    · rw [testSurvivorBatch_tested hne hports hstart]
      exact probeBatch_ids _ (length_of_allocatePorts hports)
    · rw [testSurvivorBatch_single hfails]
      rfl
    · rw [testSurvivorBatch_split hlength hfails, List.map_append]
      refine ((ih _ (length_halfOf hlength false) rfl).append
        (ih _ (length_halfOf hlength true) rfl)).trans (List.Perm.of_eq ?_)
      rw [← List.map_append, halfOf, halfOf, List.take_append_drop]

theorem mem_probeBatch {view : CallView} {ports : List ℕ} {id : String}
    {outcome : ProbeOutcome F} :
    (id, outcome) ∈ probeBatch config downloadConcurrency view survivors ports ↔
      ∃ i survivor port, survivors[i]? = some survivor ∧ ports[i]? = some port ∧
        survivor.id = id ∧
        (Service.tested port (view.probe i)).outcome config survivor = outcome := by
  rw [(probeBatch_perm view).mem_iff, List.mem_mapIdx]
  constructor
  · rintro ⟨i, hi, heq⟩
    obtain ⟨hsurvivor, hport⟩ := lt_min_iff.mp (List.length_zip ▸ hi)
    rw [List.getElem_zip] at heq
    obtain ⟨rfl, rfl⟩ := Prod.mk.inj heq
    exact ⟨i, survivors[i], ports[i], List.getElem?_eq_getElem hsurvivor,
      List.getElem?_eq_getElem hport, rfl, rfl⟩
  · rintro ⟨i, survivor, port, hsurvivor, hport, rfl, rfl⟩
    obtain ⟨hs, rfl⟩ := List.getElem?_eq_some_iff.mp hsurvivor
    obtain ⟨hp, rfl⟩ := List.getElem?_eq_some_iff.mp hport
    have hi : i < (survivors.zip ports).length := by
      rw [List.length_zip]
      exact lt_min hs hp
    exact ⟨i, hi, by rw [List.getElem_zip]; rfl⟩

theorem mem_of_served (downloadConcurrency : ℕ)
    (h : Served lib config world survivors survivor service) :
    (survivor.id, service.outcome config survivor) ∈
      testSurvivorBatch lib config downloadConcurrency world survivors := by
  induction h with
  | overloaded hports hmem =>
    rw [testSurvivorBatch_overloaded (List.ne_nil_of_mem hmem) hports]
    exact List.mem_map.mpr ⟨_, hmem, rfl⟩
  | tested hports hstart hsurvivor hport =>
    have hne := List.ne_nil_of_mem (List.mem_of_getElem? hsurvivor)
    rw [testSurvivorBatch_tested hne hports hstart]
    exact mem_probeBatch.mpr ⟨_, _, _, hsurvivor, hport, rfl, rfl⟩
  | startFailed hfails =>
    rw [testSurvivorBatch_single hfails]
    exact List.mem_singleton_self _
  | split hfails hlength second hserved ih =>
    rw [testSurvivorBatch_split hlength hfails, List.mem_append]
    cases second with
    | false => exact .inl ih
    | true => exact .inr ih

theorem served_of_mem {id : String} {outcome : ProbeOutcome F}
    (h : (id, outcome) ∈ testSurvivorBatch lib config downloadConcurrency world survivors) :
    ∃ survivor service, Served lib config world survivors survivor service ∧
      survivor.id = id ∧ service.outcome config survivor = outcome := by
  induction hn : survivors.length using Nat.strong_induction_on generalizing world survivors with
  | _ n ih =>
    subst hn
    by_cases hne : survivors = []
    · rw [testSurvivorBatch, if_pos hne] at h
      exact absurd h List.not_mem_nil
    obtain ⟨error, hports⟩ | ⟨ports, hports, hstart⟩ | ⟨survivor, error, rfl, hfails⟩ |
      ⟨error, hlength, hfails⟩ := batch_cases lib config world hne
    · rw [testSurvivorBatch_overloaded hne hports] at h
      obtain ⟨survivor, hmem, heq⟩ := List.mem_map.mp h
      obtain ⟨rfl, rfl⟩ := Prod.mk.inj heq
      exact ⟨survivor, _, .overloaded hports hmem, rfl, rfl⟩
    · rw [testSurvivorBatch_tested hne hports hstart] at h
      obtain ⟨i, survivor, port, hsurvivor, hport, hid, houtcome⟩ := mem_probeBatch.mp h
      exact ⟨survivor, _, .tested hports hstart hsurvivor hport, hid, houtcome⟩
    · rw [testSurvivorBatch_single hfails] at h
      obtain ⟨rfl, rfl⟩ := Prod.mk.inj (List.mem_singleton.mp h)
      exact ⟨survivor, _, .startFailed hfails, rfl, rfl⟩
    · rw [testSurvivorBatch_split hlength hfails, List.mem_append] at h
      rcases h with h | h
      · obtain ⟨survivor, service, hserved, hrest⟩ := ih _ (length_halfOf hlength false) h rfl
        exact ⟨survivor, service, .split hfails hlength false hserved, hrest⟩
      · obtain ⟨survivor, service, hserved, hrest⟩ := ih _ (length_halfOf hlength true) h rfl
        exact ⟨survivor, service, .split hfails hlength true hserved, hrest⟩

/-- The results of a batch are the outcomes of the services of its survivors. -/
theorem mem_testSurvivorBatch {id : String} {outcome : ProbeOutcome F} :
    (id, outcome) ∈ testSurvivorBatch lib config downloadConcurrency world survivors ↔
      ∃ survivor service, Served lib config world survivors survivor service ∧
        survivor.id = id ∧ service.outcome config survivor = outcome := by
  constructor
  · exact served_of_mem
  · rintro ⟨survivor, service, hserved, rfl, rfl⟩
    exact mem_of_served downloadConcurrency hserved

end Results

end Served

end ProxyFleet
