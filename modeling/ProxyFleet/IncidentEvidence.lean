import ProxyFleet.BackgroundServices
import Mathlib.Data.List.Dedup

/-!
# Evidence for an incident

Enough failures in a batch are an incident when they cross a dimension of the proxies: their
sources, their protocols or their servers. Any one of the three is enough for the code, so a
single bad source is an incident as soon as its failures cross servers, and a single bad
server as soon as they cross sources.
-/
namespace ProxyFleet

variable {F : Type}

/-- Two values at least are left of a list without repetitions. -/
theorem two_le_length_dedup_iff {α : Type} [DecidableEq α] {l : List α} :
    2 ≤ l.dedup.length ↔ ∃ a ∈ l, ∃ b ∈ l, a ≠ b := by
  constructor
  · intro h
    obtain ⟨a, rest, hdedup⟩ := List.exists_cons_of_length_pos (Nat.lt_of_lt_of_le Nat.two_pos h)
    have hnodup : (a :: rest).Nodup := hdedup ▸ List.nodup_dedup l
    rw [hdedup, List.length_cons] at h
    obtain ⟨b, hb⟩ := List.exists_mem_of_length_pos (show 0 < rest.length by omega)
    have hmem : ∀ c ∈ a :: rest, c ∈ l := fun c hc => List.mem_dedup.mp (hdedup ▸ hc)
    refine ⟨a, hmem a List.mem_cons_self, b, hmem b (List.mem_cons_of_mem _ hb), ?_⟩
    rintro rfl
    exact (List.nodup_cons.mp hnodup).1 hb
  · rintro ⟨a, ha, b, hb, hne⟩
    by_contra hlt
    obtain ⟨c, hc⟩ : ∃ c, l.dedup = [c] := by
      refine List.length_eq_one_iff.mp ?_
      have hpos := List.length_pos_of_mem (List.mem_dedup.mpr ha)
      omega
    have hall : ∀ d ∈ l, d = c := fun d hd =>
      List.mem_singleton.mp (hc ▸ List.mem_dedup.mpr hd)
    exact hne ((hall a ha).trans (hall b hb).symm)

section Dimensions

variable (reports : List (String × ProbeReport F))

def failedReports : List (String × ProbeReport F) := reports.filter fun report => report.2.failed

/-- The failed proxies agree in a column. -/
def FailedAlike (column : ParsedProxy → String) : Prop :=
  ∀ a ∈ failedReports reports, ∀ b ∈ failedReports reports,
    ∀ p ∈ a.2.proxy, ∀ q ∈ b.2.proxy, column p = column q

/-- The failures of a batch do not reach the threshold. -/
def BelowThreshold (thresholdPercent : ℕ) : Prop :=
  (failedReports reports).length * 100 < reports.length * thresholdPercent

/-- One bad source or one bad server alone is no incident. -/
structure IndependentEvidence (thresholdPercent : ℕ) : Prop where
  oneSource : FailedAlike reports (·.source) → correlatedIncident reports thresholdPercent = none
  oneServer : FailedAlike reports (·.address) → correlatedIncident reports thresholdPercent = none

variable {reports}

theorem two_le_values_iff (column : ParsedProxy → String) :
    2 ≤ (((failedReports reports).filterMap (·.2.proxy)).map column).dedup.length ↔
      ¬ FailedAlike reports column := by
  rw [two_le_length_dedup_iff, FailedAlike]
  constructor
  · rintro ⟨x, hx, y, hy, hne⟩ halike
    obtain ⟨p, hp, rfl⟩ := List.mem_map.mp hx
    obtain ⟨q, hq, rfl⟩ := List.mem_map.mp hy
    obtain ⟨a, ha, hap⟩ := List.mem_filterMap.mp hp
    obtain ⟨b, hb, hbq⟩ := List.mem_filterMap.mp hq
    exact hne (halike a ha b hb p hap q hbq)
  · intro h
    push Not at h
    obtain ⟨a, ha, b, hb, p, hp, q, hq, hne⟩ := h
    exact ⟨_, List.mem_map_of_mem (List.mem_filterMap.mpr ⟨a, ha, hp⟩), _,
      List.mem_map_of_mem (List.mem_filterMap.mpr ⟨b, hb, hq⟩), hne⟩

/-- The server of a report with metadata is that of its proxy. -/
theorem map_server {server : String × ProbeReport F → String}
    (hserver : ∀ report, ∀ proxy ∈ report.2.proxy, server report = proxy.address)
    (hproxies : ∀ report ∈ reports, report.2.proxy.isSome = true) :
    (failedReports reports).map server =
      ((failedReports reports).filterMap (·.2.proxy)).map (·.address) := by
  have hfailed : ∀ report ∈ failedReports reports, report.2.proxy.isSome = true :=
    fun report h => hproxies report (List.mem_filter.mp h).1
  revert hfailed
  induction failedReports reports with
  | nil => exact fun _ => rfl
  | cons report rest ih =>
    intro hfailed
    obtain ⟨proxy, hproxy⟩ := Option.isSome_iff_exists.mp (hfailed report List.mem_cons_self)
    have hrest := ih fun other h => hfailed other (List.mem_cons_of_mem _ h)
    simp only [List.map_cons, List.filterMap_cons, hproxy, hserver report proxy hproxy, hrest]

/-- What is no incident: a small batch, few failures, or failures that agree in all three
dimensions. -/
theorem correlatedIncident_eq_none_iff {thresholdPercent : ℕ}
    (hproxies : ∀ report ∈ reports, report.2.proxy.isSome = true) :
    correlatedIncident reports thresholdPercent = none ↔
      reports.length < 3 ∨ BelowThreshold reports thresholdPercent ∨
        FailedAlike reports (·.source) ∧ FailedAlike reports (·.protocol) ∧
          FailedAlike reports (·.address) := by
  simp only [correlatedIncident]
  rw [← failedReports, map_server ?_ hproxies]
  swap
  · rintro ⟨id, report⟩ proxy hproxy
    simp only [Option.mem_def] at hproxy
    simp only [hproxy]
  rw [BelowThreshold]
  split
  · next hsmall => exact iff_of_true rfl (.inl hsmall)
  · next hlarge =>
    split
    · next hfew => exact iff_of_true rfl (.inr (.inl hfew))
    · next hmany =>
      simp only [hlarge, hmany, false_or]
      split
      · next halike =>
        simp only [two_le_values_iff, not_or, not_not] at halike
        exact iff_of_true rfl halike
      · next hcross =>
        simp only [two_le_values_iff, not_or, not_not] at hcross
        refine iff_of_false ?_ hcross
        split
        · exact Option.some_ne_none _
        · split <;> exact Option.some_ne_none _

/-- One bad source and one bad server are no incident exactly when the batch is none anyhow,
when neither is the case, or when the failures agree in all three dimensions. -/
theorem independentEvidence_iff {thresholdPercent : ℕ}
    (hproxies : ∀ report ∈ reports, report.2.proxy.isSome = true) :
    IndependentEvidence reports thresholdPercent ↔
      reports.length < 3 ∨ BelowThreshold reports thresholdPercent ∨
        (¬ FailedAlike reports (·.source) ∧ ¬ FailedAlike reports (·.address)) ∨
        FailedAlike reports (·.source) ∧ FailedAlike reports (·.protocol) ∧
          FailedAlike reports (·.address) := by
  have hnone := @correlatedIncident_eq_none_iff F reports thresholdPercent hproxies
  constructor
  · intro h
    by_cases hsource : FailedAlike reports (·.source)
    · rcases hnone.mp (h.oneSource hsource) with hsmall | hfew | halike
      · exact .inl hsmall
      · exact .inr (.inl hfew)
      · exact .inr (.inr (.inr halike))
    · by_cases hserver : FailedAlike reports (·.address)
      · rcases hnone.mp (h.oneServer hserver) with hsmall | hfew | halike
        · exact .inl hsmall
        · exact .inr (.inl hfew)
        · exact absurd halike.1 hsource
      · exact .inr (.inr (.inl ⟨hsource, hserver⟩))
  · rintro (hsmall | hfew | ⟨hsource, hserver⟩ | halike)
    · exact ⟨fun _ => hnone.mpr (.inl hsmall), fun _ => hnone.mpr (.inl hsmall)⟩
    · exact ⟨fun _ => hnone.mpr (.inr (.inl hfew)), fun _ => hnone.mpr (.inr (.inl hfew))⟩
    · exact ⟨fun h => absurd h hsource, fun h => absurd h hserver⟩
    · exact ⟨fun _ => hnone.mpr (.inr (.inr halike)), fun _ => hnone.mpr (.inr (.inr halike))⟩

end Dimensions

/-- A proxy of one feed that timed out. -/
def timedOutReport (server : String) : String × ProbeReport ℚ :=
  (server, {
    proxy := some {
      source := "feed"
      rawConfig := []
      protocol := "trojan"
      address := server
      port := 443
      remark := ""
      normalizedConfig := .null
      configHash := server }
    events := [{ stage := .dnsTcp, failureClass := .tcpTimeout }] })

def oneFeed : List (String × ProbeReport ℚ) :=
  ["one.example", "two.example", "three.example"].map timedOutReport

theorem oneFeed_alike : FailedAlike oneFeed (·.source) := by
  have hfeed : ∀ report ∈ oneFeed, ∀ proxy ∈ report.2.proxy, proxy.source = "feed" := by
    simp [oneFeed, timedOutReport]
  intro a ha b hb p hp q hq
  exact (hfeed a (List.mem_filter.mp ha).1 p hp).trans
    (hfeed b (List.mem_filter.mp hb).1 q hq).symm

/-- One bad feed with three servers is an incident. -/
theorem one_feed_is_an_incident :
    FailedAlike oneFeed (·.source) ∧
      correlatedIncident oneFeed 40 = some "cross_source_failure_cluster" ∧
      ¬ IndependentEvidence oneFeed 40 := by
  have hincident : correlatedIncident oneFeed 40 = some "cross_source_failure_cluster" := by
    decide +kernel
  refine ⟨oneFeed_alike, hincident, fun h => ?_⟩
  rw [h.oneSource oneFeed_alike] at hincident
  cases hincident

theorem independentEvidence_iff_oneFeed :
    IndependentEvidence oneFeed 40 ↔
      oneFeed.length < 3 ∨ BelowThreshold oneFeed 40 ∨
        (¬ FailedAlike oneFeed (·.source) ∧ ¬ FailedAlike oneFeed (·.address)) ∨
        FailedAlike oneFeed (·.source) ∧ FailedAlike oneFeed (·.protocol) ∧
          FailedAlike oneFeed (·.address) :=
  independentEvidence_iff (by decide)

end ProxyFleet
