import ProxyFleet.PublishedFeed
import ProxyFleet.UpstreamRefresh

/-!
# Settled sources

A source's validators are stored when its body arrives, and its members when the batch
of the whole refresh is ingested. In between the validators describe a body
that is pending. A source is settled when its newest members are the identities of
the body that carried its validators.
-/
namespace ProxyFleet

variable {F : Type}

/-- The bodies of the current refresh that are not ingested yet. -/
def pendingBodies : List RefreshEvent → List (String × List String)
  | .body _ _ source _ _ identities :: history => (source, identities) :: pendingBodies history
  | .notModified _ _ _ _ :: history => pendingBodies history
  | _ => []

abbrev pendingNames (history : List RefreshEvent) : List String :=
  (pendingBodies history).map Prod.fst

def ingestedIdentities : List RefreshEvent → List String
  | [] => []
  | .ingested identities :: history => identities ++ ingestedIdentities history
  | _ :: history => ingestedIdentities history

namespace RefreshProgress

variable (lib : Libraries) (p : RefreshProgress)

/-- The refresh has not ingested its batch. -/
def gathering : Bool :=
  match p.phase with
  | .ingested | .runRecorded => false
  | _ => true

/-- The proxies of the bodies that have arrived. -/
def gathered : List ParsedProxy :=
  p.parsed ++ match p.phase with
    | .bodyRecorded source body => (parseSubscription lib body source.name).accepted
    | _ => []

end RefreshProgress

/-- The write leaves the tables of sources, generations and members alone. -/
def Write.sparesUpstream : Write F → Bool
  | .ingestOne _ _ _ _ | .copyCachedSourceGeneration _ _ | .recordSourceSuccess _ _ _ _ _
  | .recordSourceFailure _ _ | .beginRefresh _ _ _ | .recordFinishedRun _ _ _ _ _ => false
  | _ => true

/-- A manual import, which belongs to no refresh, under a source without validators. -/
def Write.importsManually (s : Store F) : Write F → Bool
  | .ingestOne _ proxy _ generation =>
    decide (generation = 0 ∧ ∀ v, s.cachedValidator proxy.source v = none)
  | _ => false

/-- The newest members of the source are the identities of the bodies that carried its
validators, and they were ingested. -/
def Settled (s : Store F) (history : List RefreshEvent) (name : String) : Prop :=
  ∀ v, (s.cachedValidator name v).isSome = true →
    ∃ identities, carrier name v history = some identities ∧
      (∀ hash, s.Newest name hash ↔ hash ∈ identities) ∧
        ∀ hash ∈ identities, hash ∈ ingestedIdentities history

/-- The stored validators of the source came with the given body. -/
def CarriedBy (s : Store F) (history : List RefreshEvent) (name : String)
    (identities : List String) : Prop :=
  ∀ v, (s.cachedValidator name v).isSome = true →
    carrier name v history = some identities ∧
      (identities = [] → ∀ m ∈ s.members, m.sourceName ≠ name)

namespace RefreshWorld

variable [F64 F] (lib : Libraries)

/-- No body that was not ingested yet has left a validator behind. -/
def Abandonable (w : RefreshWorld F) : Prop :=
  ∀ p ∈ w.progress, p.gathering = true →
    ∀ proxy ∈ p.gathered lib, ∀ v, w.store.cachedValidator proxy.source v = none

instance (w : RefreshWorld F) : Decidable (w.Abandonable lib) :=
  inferInstanceAs (Decidable (∀ p ∈ w.progress, p.gathering = true →
    ∀ proxy ∈ p.gathered lib, ∀ v, w.store.cachedValidator proxy.source v = none))

/-- Sources have distinct names. A body replaces every validator that its source has stored,
and one that brings a validator contains a proxy unless the source never had one. A
refresh does not end between a body with validators and its ingest. The other writes are
those outside of a refresh. -/
def Careful (w : RefreshWorld F) : RefreshStep F → Prop
  | .begin _ _ sources => (sources.map (·.name)).Nodup
  | .answer _ source (.ok (.body body etag lastModified)) =>
    (etag = none → w.store.cachedValidator source.name .etag = none) ∧
      (lastModified = none → w.store.cachedValidator source.name .lastModified = none) ∧
      (etag.isSome = true ∨ lastModified.isSome = true → bodyIdentities lib source body = [] →
        ∀ m ∈ w.store.members, m.sourceName ≠ source.name)
  | .ingest now newId =>
    ∀ p ∈ w.progress, (w.store.ingestMany now p.generation p.parsed newId).isOk = false →
      w.Abandonable lib
  | .stop => w.Abandonable lib
  | .other write => write.sparesUpstream ∨ write.importsManually w.store
  | _ => True

instance (w : RefreshWorld F) : DecidablePred (w.Careful lib)
  | .begin _ _ sources => inferInstanceAs (Decidable (sources.map (·.name)).Nodup)
  | .answer _ _ (.ok (.body _ _ _)) => inferInstanceAs (Decidable (_ ∧ _ ∧ (_ → _ → _)))
  | .answer _ _ (.ok .notModified) => isTrue trivial
  | .answer _ _ (.error _) => isTrue trivial
  | .resume _ => isTrue trivial
  | .ingest now newId => inferInstanceAs (Decidable (∀ p ∈ w.progress,
      (w.store.ingestMany now p.generation p.parsed newId).isOk = false → w.Abandonable lib))
  | .finishRun _ => isTrue trivial
  | .reconcile _ _ => isTrue trivial
  | .stop => inferInstanceAs (Decidable (w.Abandonable lib))
  | .other _ => inferInstanceAs (Decidable (_ ∨ _))

/-- The state of the upstream tables while a refresh is in progress. -/
structure Refreshing (s : Store F) (history : List RefreshEvent) (p : RefreshProgress) : Prop where
  positive : 0 < p.generation
  newest : p.generation + 1 = s.nextGeneration
  distinct : (p.remaining.map (·.name)).Nodup
  distinctPending : (pendingNames history).Nodup
  apart : ∀ name ∈ pendingNames history, name ∉ p.remaining.map (·.name)
  untouched : ∀ m ∈ s.members, m.generation = p.generation →
    m.sourceName ∉ p.remaining.map (·.name) ∧ m.sourceName ∉ pendingNames history
  carried : ∀ entry ∈ pendingBodies history, CarriedBy s history entry.1 entry.2
  gathered : p.gathering = true → ∀ name hash,
    (∃ proxy ∈ p.gathered lib, proxy.source = name ∧ proxy.configHash = hash) ↔
      ∃ entry ∈ pendingBodies history, entry.1 = name ∧ hash ∈ entry.2
  done : p.gathering = false → pendingBodies history = []

/-- Every source is settled, unless its body is pending. -/
structure Validated (w : RefreshWorld F) : Prop where
  positive : 0 < w.store.nextGeneration
  bounded : ∀ m ∈ w.store.members, m.generation < w.store.nextGeneration
  settled : ∀ name, name ∉ pendingNames w.history → Settled w.store w.history name
  idle : w.progress = none → pendingBodies w.history = []
  refreshing : ∀ p, w.progress = some p → Refreshing lib w.store w.history p

end RefreshWorld

section Frames

variable {s t : Store F} {history history' : List RefreshEvent} {name : String}

theorem Settled.frame (h : Settled s history name)
    (cached : ∀ v, t.cachedValidator name v = s.cachedValidator name v)
    (carriers : ∀ v, carrier name v history' = carrier name v history)
    (grown : ingestedIdentities history ⊆ ingestedIdentities history')
    (newest : ∀ hash, t.Newest name hash ↔ s.Newest name hash) : Settled t history' name := by
  intro v hv
  rw [cached] at hv
  obtain ⟨identities, hc, hn, hi⟩ := h v hv
  exact ⟨identities, (carriers v).trans hc, fun hash => (newest hash).trans (hn hash),
    fun hash hh => grown (hi hash hh)⟩

theorem CarriedBy.frame {identities : List String} (h : CarriedBy s history name identities)
    (cached : ∀ v, t.cachedValidator name v = s.cachedValidator name v)
    (carriers : ∀ v, carrier name v history' = carrier name v history)
    (members : ∀ m ∈ t.members, m.sourceName = name → m ∈ s.members) :
    CarriedBy t history' name identities := by
  intro v hv
  rw [cached] at hv
  obtain ⟨hc, hm⟩ := h v hv
  exact ⟨(carriers v).trans hc, fun he m hmem hname => hm he m (members m hmem hname) hname⟩

/-- A validator that was stored with a body of no members and no identities is settled. -/
theorem CarriedBy.settled_of_empty (h : CarriedBy s history name [])
    (carriers : ∀ v, carrier name v history' = carrier name v history) :
    Settled s history' name := by
  intro v hv
  obtain ⟨hc, hm⟩ := h v hv
  refine ⟨[], (carriers v).trans hc, fun hash => iff_of_false ?_ List.not_mem_nil, by simp⟩
  rintro ⟨g, hg, -⟩
  exact hm rfl _ hg rfl

theorem cachedValidator_of_sources (h : t.sources = s.sources) (name : String) (v : Validator) :
    t.cachedValidator name v = s.cachedValidator name v := by
  cases v <;> simp [Store.cachedValidator, Store.sourceHttpCache, h]

theorem nextGeneration_of_runs (h : t.refreshRuns = s.refreshRuns) :
    t.nextGeneration = s.nextGeneration := by
  rw [Store.nextGeneration, h, Store.nextGeneration]

theorem mem_pendingNames {name : String} :
    name ∈ pendingNames history ↔ ∃ identities, (name, identities) ∈ pendingBodies history := by
  simp [pendingNames]

theorem not_mem_names_erase {sources : List SubscriptionSource} {source : SubscriptionSource}
    (h : (sources.map (·.name)).Nodup) (hs : source ∈ sources) :
    source.name ∉ (sources.erase source).map (·.name) := by
  have hp := ((List.perm_cons_erase hs).map (·.name)).nodup_iff.mp h
  exact (List.nodup_cons.mp hp).1

theorem names_erase_subset (sources : List SubscriptionSource) (source : SubscriptionSource) :
    (sources.erase source).map (·.name) ⊆ sources.map (·.name) :=
  List.map_subset _ List.erase_subset

end Frames

/-- A write that spares the upstream tables. -/
theorem Store.upstream_write [F64 F] (s : Store F) {w : Write F} (h : w.sparesUpstream = true) :
    (s.write w).members = s.members ∧ (s.write w).sources = s.sources ∧
      (s.write w).refreshRuns = s.refreshRuns := by
  cases w with
  | ingestOne | copyCachedSourceGeneration | recordSourceSuccess | recordSourceFailure
  | beginRefresh | recordFinishedRun => cases h
  | applyTestEvent now event cadence draw =>
    rw [Store.write_applyTestEvent]
    split
    · exact ⟨rfl, rfl, rfl⟩
    · exact ⟨rfl, rfl, rfl⟩
  | reviveNode now id =>
    simp only [Store.write, Store.reviveNode]
    split
    · exact ⟨rfl, rfl, rfl⟩
    · exact ⟨rfl, rfl, rfl⟩
  | scheduleManualTest now id =>
    simp only [Store.write, Store.scheduleManualTest]
    split
    · exact ⟨rfl, rfl, rfl⟩
    · exact ⟨rfl, rfl, rfl⟩
  | seedLegacyDownloadLeases now leaseHours =>
    simp only [Store.write, Store.seedLegacyDownloadLeases]
    split
    · exact ⟨rfl, rfl, rfl⟩
    · exact ⟨rfl, rfl, rfl⟩
  | _ => exact ⟨rfl, rfl, rfl⟩

/-- The upstream tables of two stores agree. -/
structure SameUpstream (t s : Store F) : Prop where
  members : t.members = s.members
  cached : ∀ name v, t.cachedValidator name v = s.cachedValidator name v
  next : t.nextGeneration = s.nextGeneration

namespace SameUpstream

variable {s : Store F}

theorem of_tables {t : Store F} (members : t.members = s.members) (sources : t.sources = s.sources)
    (runs : t.refreshRuns = s.refreshRuns) : SameUpstream t s :=
  ⟨members, cachedValidator_of_sources sources, nextGeneration_of_runs runs⟩

theorem recordSourceFailure (s : Store F) (name url : String) :
    SameUpstream (s.recordSourceFailure name url) s := by
  obtain ⟨hmembers, hruns⟩ := s.recordSourceFailure_upstream name url
  refine ⟨hmembers, fun other v => ?_, nextGeneration_of_runs hruns⟩
  cases v <;> rw [Store.cachedValidator, Store.sourceHttpCache_recordSourceFailure] <;> rfl

/-- An answer without validators keeps those that are stored. -/
theorem confirmSource (s : Store F) (now : Time) (name url : String) :
    SameUpstream (s.recordSourceSuccess now name url none none) s := by
  obtain ⟨hmembers, hruns⟩ := s.recordSourceSuccess_upstream now name url none none
  refine ⟨hmembers, fun other v => ?_, nextGeneration_of_runs hruns⟩
  have hcache : (s.recordSourceSuccess now name url none none).sourceHttpCache other =
      s.sourceHttpCache other := by
    rw [Store.sourceHttpCache_recordSourceSuccess]
    split
    · next heq => rw [heq]; rfl
    · rfl
  cases v <;> simp only [Store.cachedValidator, hcache]

theorem recordRejections (s : Store F) (now : Time) (source : String) (rejected : List String) :
    SameUpstream (s.recordInvalidConfigRejections now source rejected) s := by
  obtain ⟨events, hevents⟩ := s.exists_recordInvalidConfigRejections now source rejected
  rw [hevents]
  exact of_tables rfl rfl rfl

theorem recordFinishedRun (s : Store F) (now : Time) (runId : String) (status : RefreshStatus)
    (successful parsed : ℕ) :
    SameUpstream (s.recordFinishedRun now runId status successful parsed) s :=
  ⟨rfl, cachedValidator_of_sources rfl, Store.nextGeneration_recordFinishedRun s now runId status
    successful parsed⟩

theorem reconcile (s : Store F) (now : Time) (generation : ℤ) (minimum : ℕ) :
    SameUpstream (s.reconcile now generation minimum) s := of_tables rfl rfl rfl

theorem write [F64 F] (s : Store F) {w : Write F} (h : w.sparesUpstream = true) :
    SameUpstream (s.write w) s := by
  obtain ⟨members, sources, runs⟩ := Store.upstream_write s h
  exact of_tables members sources runs

end SameUpstream

end ProxyFleet
