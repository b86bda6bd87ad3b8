import ProxyFleet.LibraryReaders
import ProxyFleet.SurvivorBatches

/-!
# Isolation in split batches

Whatever ports are short and whatever starts fail, each survivor of a batch is answered once.
If the ports suffice, and a start fails exactly for a bad proxy among those of the sub-batch,
the halving ends at the bad proxies and every other one is tested.
-/
namespace ProxyFleet

theorem exists_error_iff {x : Except String Unit} : (∃ error, x = .error error) ↔ x ≠ .ok () := by
  cases x with
  | error error => simp
  | ok _ => simp

section Isolation

variable {F : Type} [F64 F] {lib : Libraries} {config : ProbeConfig F} {world : BatchWorld}
  {survivors : List Survivor} {survivor : Survivor} {service : Service}
  {Bad : ParsedProxy → Prop}

/-- Each sub-batch gets its ports, and its start fails exactly for a bad proxy. -/
structure Isolating (lib : Libraries) (config : ProbeConfig F) (world : BatchWorld)
    (survivors : List Survivor) (Bad : ParsedProxy → Prop) : Prop where
  ports : ∀ path batch, batch <:+: survivors →
    ∃ ports, allocatePorts (world path).scan config.testPorts batch.length = .ok ports
  start : ∀ path batch ports, batch <:+: survivors → batch ≠ [] →
    allocatePorts (world path).scan config.testPorts batch.length = .ok ports →
    ((∃ error, startBatch lib (world path).launch (batch.map (·.proxy)) ports = .error error) ↔
      ∃ survivor ∈ batch, Bad survivor.proxy)

theorem halfOf_contiguous (second : Bool) : halfOf survivors second <:+: survivors := by
  cases second with
  | false => exact (List.take_prefix _ _).isInfix
  | true => exact (List.drop_suffix _ _).isInfix

theorem Isolating.half (h : Isolating lib config world survivors Bad) (second : Bool) :
    Isolating lib config (world.half second) (halfOf survivors second) Bad where
  ports path batch hbatch :=
    h.ports (second :: path) batch (hbatch.trans (halfOf_contiguous second))
  start path batch ports hbatch :=
    h.start (second :: path) batch ports (hbatch.trans (halfOf_contiguous second))

theorem Served.isolated (h : Served lib config world survivors survivor service)
    (hworld : Isolating lib config world survivors Bad) :
    (Bad survivor.proxy ∧ ∃ error settledAt, service = .startFailed error settledAt) ∨
      (¬ Bad survivor.proxy ∧ ∃ port view, service = .tested port view) := by
  induction h with
  | @overloaded world survivors survivor error hports hmem =>
    obtain ⟨ports, hok⟩ := hworld.ports [] survivors List.infix_rfl
    rw [hok] at hports
    exact absurd hports (by simp)
  | @tested world survivors survivor ports i port hports hstart hsurvivor hport =>
    have hmem := List.mem_of_getElem? hsurvivor
    refine .inr ⟨fun hbad => ?_, port, (world []).probe i, rfl⟩
    obtain ⟨error, herror⟩ := (hworld.start [] survivors ports List.infix_rfl
      (List.ne_nil_of_mem hmem) hports).mpr ⟨survivor, hmem, hbad⟩
    rw [hstart] at herror
    exact absurd herror (by simp)
  | @startFailed world survivor error hfails =>
    obtain ⟨ports, hports, hstart⟩ := hfails
    obtain ⟨other, hmem, hbad⟩ := (hworld.start [] [survivor] ports List.infix_rfl
      (List.cons_ne_nil _ _) hports).mp ⟨error, hstart⟩
    obtain rfl := List.mem_singleton.mp hmem
    exact .inl ⟨hbad, error, _, rfl⟩
  | split hfails hlength second hserved ih => exact ih (hworld.half second)

/-- Where Xray takes whatever is rendered, the bad proxies are those that are not. -/
theorem isolating_of_rendering
    (hfree : ∀ path, survivors.length ≤ (freePorts (world path).scan config.testPorts).length)
    (hlaunch : ∀ path json, (world path).launch json = .ok ()) :
    Isolating lib config world survivors
      fun proxy => ¬ ∃ outbound, xrayOutbound lib proxy = .ok outbound where
  ports path batch hbatch :=
    ⟨_, allocatePorts_eq_ok.mpr ⟨hbatch.length_le.trans (hfree path), rfl⟩⟩
  start path batch ports hbatch hne hports := by
    have hstart : startBatch lib (world path).launch (batch.map (·.proxy)) ports = .ok () ↔
        ∀ survivor ∈ batch, ∃ outbound, xrayOutbound lib survivor.proxy = .ok outbound := by
      rw [startBatch_eq_ok, List.length_map, length_of_allocatePorts hports]
      simp only [hlaunch, and_true, batchOutbounds_isOk, List.forall_mem_map, true_and, ne_eq,
        List.map_eq_nil_iff, hne, not_false_eq_true]
    rw [exists_error_iff, ne_eq, hstart]
    simp only [not_forall, exists_prop]

variable [F64Convert F]

/-- Each survivor is answered once. If the sub-batches get their ports and their starts fail
exactly for bad proxies, the bad ones are reported as such and each of the others is tested
behind the process of a sub-batch of its own, at the port and by the probe of its position. -/
theorem survivor_batches_isolate (lib : Libraries) (config : ProbeConfig F)
    (downloadConcurrency : ℕ) (world : BatchWorld) (hids : (survivors.map (·.id)).Nodup) :
    (∀ survivor ∈ survivors,
      ((testSurvivorBatch lib config downloadConcurrency world survivors).map
        Prod.fst).count survivor.id = 1) ∧
    (∀ id ∈ (testSurvivorBatch lib config downloadConcurrency world survivors).map Prod.fst,
      ∃ survivor ∈ survivors, survivor.id = id) ∧
    ∀ Bad, Isolating lib config world survivors Bad → ∀ survivor ∈ survivors, ∀ outcome,
      (survivor.id, outcome) ∈
        testSurvivorBatch lib config downloadConcurrency world survivors →
      ((∃ e ∈ outcome.events, e.failureClass = .xrayStartFailed) ↔ Bad survivor.proxy) ∧
      (¬ Bad survivor.proxy → ∃ port view,
        Served lib config world survivors survivor (.tested port view) ∧
        outcome = testThroughXray port config survivor.deadline survivor.downloadDue view) := by
  have hperm : ((testSurvivorBatch lib config downloadConcurrency world survivors).map
      Prod.fst).Perm (survivors.map (·.id)) := testSurvivorBatch_ids
  refine ⟨fun survivor hmem => ?_, fun id hid => ?_, fun Bad hworld survivor hmem outcome h => ?_⟩
  · rw [hperm.count_eq]
    exact List.count_eq_one_of_mem hids (List.mem_map_of_mem hmem)
  · exact List.mem_map.mp (hperm.mem_iff.mp hid)
  · obtain ⟨other, service, hserved, hid, rfl⟩ := served_of_mem h
    obtain rfl := List.inj_on_of_nodup_map hids hserved.mem hmem hid
    obtain ⟨hbad, error, settledAt, rfl⟩ | ⟨hgood, port, view, rfl⟩ := hserved.isolated hworld
    · refine ⟨⟨fun _ => hbad, fun _ => ?_⟩, fun hgood => absurd hbad hgood⟩
      exact ⟨_, List.mem_singleton_self _, rfl⟩
    · refine ⟨⟨?_, fun hbad => absurd hbad hgood⟩, fun _ => ⟨port, view, hserved, rfl⟩⟩
      rintro ⟨e, he, hclass⟩
      have hrelay := testThroughXray_class e he
      rw [hclass] at hrelay
      exact absurd hrelay (by decide)

end Isolation

/-- A local port on which nothing is refused. -/
def openView : CallView where
  scan := ⟨fun _ => false, fun _ => true, fun _ => true⟩
  launch := fun _ => .ok ()
  settledAt := 0
  picks := fun _ => 0
  probe := fun _ => {
    client := fun _ => .ok ()
    request := fun _ => ⟨0, 0, fun _ _ => .answered (.ok ⟨204, []⟩), 1⟩
    mirror := fun _ => ⟨1, 1, fun _ _ => .elapsed, 2⟩
    leftAt := fun _ => 2
    endedAt := 2
    checkedAt_le_leftAt := fun _ => by decide }

/-- Two proxies, the second of a protocol without its user. -/
def mixedSurvivors : List Survivor :=
  [⟨"good", ⟨"feed", [], "socks", "host.example", 1080, "good", .object [], "h1"⟩, 20, false⟩,
    ⟨"bad", ⟨"feed", [], "trojan", "host.example", 443, "bad", .object [], "h2"⟩, 20, false⟩]

theorem survivor_batches_isolate_mixed :
    Isolating (readerLibraries [] []) ({} : ProbeConfig ℚ) (fun _ => openView) mixedSurvivors
      (fun proxy => ¬ ∃ outbound, xrayOutbound (readerLibraries [] []) proxy = .ok outbound) ∧
    (∀ survivor ∈ mixedSurvivors,
      ((testSurvivorBatch (readerLibraries [] []) ({} : ProbeConfig ℚ) 2 (fun _ => openView)
        mixedSurvivors).map Prod.fst).count survivor.id = 1) ∧
    ∃ outcome, ("bad", outcome) ∈ testSurvivorBatch (readerLibraries [] [])
        ({} : ProbeConfig ℚ) 2 (fun _ => openView) mixedSurvivors ∧
      ∃ e ∈ outcome.events, e.failureClass = .xrayStartFailed := by
  have hworld : Isolating (readerLibraries [] []) ({} : ProbeConfig ℚ) (fun _ => openView)
      mixedSurvivors
      (fun proxy => ¬ ∃ outbound, xrayOutbound (readerLibraries [] []) proxy = .ok outbound) := by
    refine isolating_of_rendering (fun path => ?_) fun path json => rfl
    have hall : freePorts openView.scan {} = PortRange.ports {} :=
      List.filter_eq_self.mpr fun port _ => rfl
    rw [hall, PortRange.ports, List.length_range']
    decide
  obtain ⟨honce, -, hisolated⟩ := survivor_batches_isolate (readerLibraries [] [])
    ({} : ProbeConfig ℚ) 2 (fun _ => openView) (by decide : (mixedSurvivors.map (·.id)).Nodup)
  refine ⟨hworld, honce, ?_⟩
  have hmem : mixedSurvivors[1] ∈ mixedSurvivors := List.getElem_mem _
  have hbad : ¬ ∃ outbound,
      xrayOutbound (readerLibraries [] []) mixedSurvivors[1].proxy = .ok outbound := by
    rintro ⟨outbound, h⟩
    have herror : xrayOutbound (readerLibraries [] []) mixedSurvivors[1].proxy =
        .error "trojan password is empty" := rfl
    rw [herror] at h
    exact absurd h (by simp)
  obtain ⟨service, hserved⟩ := exists_served (readerLibraries [] []) ({} : ProbeConfig ℚ)
    (fun _ => openView) hmem
  exact ⟨_, mem_of_served 2 hserved,
    (hisolated _ hworld _ hmem _ (mem_of_served 2 hserved)).1.mpr hbad⟩

end ProxyFleet
