import Mathlib.Data.List.Sort
import ProxyFleet.CanonicalQueries
import ProxyFleet.NewestWindows
import ProxyFleet.RelayProbes
import ProxyFleet.TimestampTexts

/-!
# The history of a node

A history lists the test events of a node and its tests by the legacy service, newest first. The
legacy tests are only asked for where the events leave room, and only as many as that, so that an
event can keep out a legacy test that is newer.
-/
namespace ProxyFleet

open NewestWindows

/-- A point in time in a text column. -/
structure Stamp where
  instant : UtcInstant
  text : Text
  written : instant.Written text

/-- The row of `proxy_test_events`, as far as a history shows it. -/
structure EventRow (F : Type) where
  proxyId : String
  occurredAt : Stamp
  stage : String
  result : String
  failureClass : String
  evidenceAlpha : F
  evidenceBeta : F
  latencyMs : Option F := none
  downloadBps : Option F := none
  bytesTransferred : Option ℤ := none
  durationMs : Option ℤ := none
  endpoint : Option String := none
  systemPressure : Option F := none
  detailJson : Text := "\x7b\x7d".toList

/-- The row of `test_history`, as far as a history shows it. -/
structure LegacyRow where
  nodeId : String
  finishedAt : Stamp
  testKind : String
  trigger : String
  ok : ℤ
  latencyMs : Option ℤ := none
  downloadKbps : Option ℤ := none
  error : String := ""
  statusBefore : String := ""
  statusAfter : String := ""
  detailsJson : Text := "\x7b\x7d".toList

/-- `ORDER BY … DESC` on a text column. -/
def Descending {α : Type*} (text : α → Text) (a b : α) : Prop := ¬ TextBefore (text a) (text b)

instance {α : Type*} (text : α → Text) : DecidableRel (Descending text) :=
  fun _ _ => inferInstanceAs (Decidable (¬ _))

def intJson (n : ℤ) : Json := .number (if 0 ≤ n then .posInt n.toNat else .negInt n)

def optionJson {α : Type} (json : α → Json) (value : Option α) : Json :=
  (value.map json).getD .null

section Documents

variable {F : Type} [F64Convert F] (fromStr : Text → Option Json)

def detailsOf (text : Text) : Json := (fromStr text).getD (.object [])

def EventRow.json (row : EventRow F) : Json :=
  Json.ofFields [("kind", .string "event"), ("finished_at", .text row.occurredAt.text),
    ("test_kind", .string row.stage), ("result", .string row.result),
    ("failure_class", .string row.failureClass),
    ("evidence_delta", .ofFields [("alpha", floatJson row.evidenceAlpha),
      ("beta", floatJson row.evidenceBeta)]),
    ("latency_ms", optionJson floatJson row.latencyMs),
    ("download_bps", optionJson floatJson row.downloadBps),
    ("bytes_transferred", optionJson intJson row.bytesTransferred),
    ("duration_ms", optionJson intJson row.durationMs),
    ("endpoint", optionJson .string row.endpoint),
    ("system_pressure", optionJson floatJson row.systemPressure),
    ("details", detailsOf fromStr row.detailJson)]

def LegacyRow.json (row : LegacyRow) : Json :=
  Json.ofFields [("kind", .string "legacy"), ("finished_at", .text row.finishedAt.text),
    ("test_kind", .string row.testKind), ("trigger", .string row.trigger),
    ("ok", .bool (row.ok ≠ 0)), ("latency_ms", optionJson intJson row.latencyMs),
    ("download_kbps", optionJson intJson row.downloadKbps), ("error", .string row.error),
    ("status_before", .string row.statusBefore), ("status_after", .string row.statusAfter),
    ("details", detailsOf fromStr row.detailsJson)]

/-- `value["finished_at"].as_str()`. -/
def finishedAt (value : Json) : Option Text := (value.get "finished_at").bind Json.asStr

/-- A missing text comes before every other one. -/
def TextAtMost : Option Text → Option Text → Prop
  | none, _ => True
  | some _, none => False
  | some s, some t => ¬ TextBefore t s

instance : DecidableRel TextAtMost := fun a b => by
  cases a <;> cases b <;> unfold TextAtMost <;> infer_instance

/-- The order of the merged values. -/
def FinishedLater (left right : Json) : Prop := TextAtMost (finishedAt right) (finishedAt left)

instance : DecidableRel FinishedLater := fun _ _ => inferInstanceAs (Decidable (TextAtMost _ _))

end Documents

section Queries

variable {F : Type} (s : Store F) (events : List (EventRow F)) (legacy : List LegacyRow)
  (fromStr : Text → Option Json) (proxyId : String) (limit : ℕ)

def eventsOf : List (EventRow F) := events.filter fun row => row.proxyId = proxyId

def legacyOf : List LegacyRow := legacy.filter fun row => row.nodeId = proxyId

def newestEvents (size : ℕ) : List (EventRow F) :=
  ((eventsOf events proxyId).insertionSort (Descending fun row => row.occurredAt.text)).take size

def newestLegacy (size : ℕ) : List LegacyRow :=
  ((legacyOf legacy proxyId).insertionSort (Descending fun row => row.finishedAt.text)).take size

variable [F64Convert F]

def Store.history : Except String (List Json) :=
  if s.nodes.any fun row => row.id = proxyId then
    let values := (newestEvents events proxyId (min limit 200)).map (EventRow.json fromStr)
    let values :=
      if values.length < limit then
        let remaining := min limit 200 - values.length
        let oldValues := (newestLegacy legacy proxyId remaining).map (LegacyRow.json fromStr)
        (values ++ oldValues).insertionSort FinishedLater
      else values
    .ok (values.take (min limit 200))
  else .error "node not found"

end Queries

/-- An entry of a history. -/
inductive HistoryEntry (F : Type)
  | event (row : EventRow F)
  | legacy (row : LegacyRow)

namespace HistoryEntry

variable {F : Type}

def stamp : HistoryEntry F → Stamp
  | event row => row.occurredAt
  | legacy row => row.finishedAt

def instant (entry : HistoryEntry F) : UtcInstant := entry.stamp.instant

def json [F64Convert F] (fromStr : Text → Option Json) : HistoryEntry F → Json
  | event row => row.json fromStr
  | legacy row => row.json fromStr

end HistoryEntry

/-- Everything that both tables hold about a node. -/
def entriesOf {F : Type} (events : List (EventRow F)) (legacy : List LegacyRow)
    (proxyId : String) : List (HistoryEntry F) :=
  (eventsOf events proxyId).map .event ++ (legacyOf legacy proxyId).map .legacy

/-- The values are the newest entries, newest first. -/
def ShowsNewest {F : Type} [F64Convert F] (fromStr : Text → Option Json)
    (entries : List (HistoryEntry F)) (size : ℕ) (values : List Json) : Prop :=
  ∃ chosen, values = chosen.map (HistoryEntry.json fromStr) ∧
    Newest HistoryEntry.instant entries size chosen

/-- The answer to a request for the history of a node is the newest entries of both tables. -/
def HistoryComplete {F : Type} [F64Convert F] (s : Store F) (events : List (EventRow F))
    (legacy : List LegacyRow) (fromStr : Text → Option Json) (proxyId : String) (limit : ℕ) :
    Prop :=
  ∃ values, s.history events legacy fromStr proxyId limit = .ok values ∧
    ShowsNewest fromStr (entriesOf events legacy proxyId) (min limit 200) values

section Stamps

variable {F : Type} {a b : Stamp}

theorem Stamp.le_of_not_before (h : ¬ TextBefore a.text b.text) : b.instant ≤ a.instant := by
  by_contra hlt
  exact h (a.written.before b.written (lt_of_not_ge hlt))

theorem Stamp.instant_eq (h : a.text = b.text) : a.instant = b.instant := by
  apply le_antisymm
  · exact Stamp.le_of_not_before (h ▸ TextBefore.irrefl _)
  · exact Stamp.le_of_not_before (h ▸ TextBefore.irrefl _)

instance {α : Type*} (text : α → Text) : Std.Total (Descending text) where
  total a b := by
    by_cases h : TextBefore (text a) (text b)
    · exact .inr h.asymm
    · exact .inl h

instance {α : Type*} (text : α → Text) : IsTrans α (Descending text) where
  trans _ _ _ hab hbc :=
    List.not_lt.mpr (List.le_trans (List.not_lt.mp hbc) (List.not_lt.mp hab))

variable [F64Convert F] {fromStr : Text → Option Json}

theorem get_ofFields {fields : List (String × Json)} (h : (fields.map Prod.fst).Nodup)
    (key : String) : (Json.ofFields fields).get key = fields.lookup key :=
  OrderedMap.get_collect_of_nodup h

theorem finishedAt_json (entry : HistoryEntry F) :
    finishedAt (entry.json fromStr) = some entry.stamp.text := by
  cases entry with
  | event row =>
    rw [HistoryEntry.json, EventRow.json, finishedAt, get_ofFields (by simp), List.lookup_cons,
      List.lookup_cons]
    exact Json.asStr_text _
  | legacy row =>
    rw [HistoryEntry.json, LegacyRow.json, finishedAt, get_ofFields (by simp), List.lookup_cons,
      List.lookup_cons]
    exact Json.asStr_text _

theorem finishedLater_json (a b : HistoryEntry F) :
    FinishedLater (a.json fromStr) (b.json fromStr) ↔
      Descending (fun entry : HistoryEntry F => entry.stamp.text) a b := by
  rw [FinishedLater, finishedAt_json, finishedAt_json]
  rfl

/-- The documents of entries show their times. -/
theorem map_instant_of_map_json {entries entries' : List (HistoryEntry F)}
    (h : entries.map (HistoryEntry.json fromStr) = entries'.map (HistoryEntry.json fromStr)) :
    entries.map HistoryEntry.instant = entries'.map HistoryEntry.instant := by
  induction entries generalizing entries' with
  | nil =>
    rw [List.map_nil, eq_comm, List.map_eq_nil_iff] at h
    rw [h]
  | cons entry entries ih =>
    cases entries' with
    | nil => cases h
    | cons entry' entries' =>
      obtain ⟨hjson, htail⟩ := List.cons.inj h
      have htext := congrArg finishedAt hjson
      rw [finishedAt_json, finishedAt_json] at htext
      rw [List.map_cons, List.map_cons, ih htail, HistoryEntry.instant, HistoryEntry.instant,
        Stamp.instant_eq (Option.some.inj htext)]

end Stamps

section Windows

variable {F : Type} {s : Store F} (events : List (EventRow F)) (legacy : List LegacyRow)
  {proxyId : String}

/-- Rows that are sorted by the text of a column are sorted by its time. -/
theorem pairwise_descending {α : Type*} (stamp : α → Stamp) (rows : List α) :
    (rows.insertionSort (Descending fun row => (stamp row).text)).Pairwise fun a b =>
      (stamp b).instant ≤ (stamp a).instant := by
  have hsorted := List.pairwise_insertionSort (Descending fun row => (stamp row).text) rows
  exact hsorted.imp Stamp.le_of_not_before

theorem newest_newestEvents (proxyId : String) (size : ℕ) :
    Newest HistoryEntry.instant ((eventsOf events proxyId).map .event) size
      ((newestEvents events proxyId size).map .event) := by
  have hrows := newest_take (pairwise_descending EventRow.occurredAt (eventsOf events proxyId))
    (List.perm_insertionSort _ _) size
  exact Newest.map HistoryEntry.event hrows

theorem newest_newestLegacy (proxyId : String) (size : ℕ) :
    Newest (HistoryEntry.instant (F := F)) ((legacyOf legacy proxyId).map .legacy) size
      ((newestLegacy legacy proxyId size).map .legacy) := by
  have hrows := newest_take (pairwise_descending LegacyRow.finishedAt (legacyOf legacy proxyId))
    (List.perm_insertionSort _ _) size
  exact Newest.map HistoryEntry.legacy hrows

variable [F64Convert F] (fromStr : Text → Option Json)

/-- The history of a node that exists shows the newest events and, in the room that they leave,
the newest legacy tests, in their common order. -/
theorem exists_history (limit : ℕ) (h : s.nodes.any (fun row => row.id = proxyId) = true) :
    ∃ shown : List (HistoryEntry F),
      s.history events legacy fromStr proxyId limit =
        .ok (shown.map (HistoryEntry.json fromStr)) ∧
      shown.Perm ((newestEvents events proxyId (min limit 200)).map .event ++
        (newestLegacy legacy proxyId
          (min limit 200 - (newestEvents events proxyId (min limit 200)).length)).map .legacy) ∧
      shown.Pairwise fun a b => b.instant ≤ a.instant := by
  have hevents : (newestEvents events proxyId (min limit 200)).length ≤ min limit 200 :=
    List.length_take_le _ _
  rw [Store.history, if_pos h]
  dsimp only
  rw [List.length_map]
  split
  · have hlegacy : (newestLegacy legacy proxyId
        (min limit 200 - (newestEvents events proxyId (min limit 200)).length)).length ≤
        min limit 200 - (newestEvents events proxyId (min limit 200)).length :=
      List.length_take_le _ _
    refine ⟨_, ?_, List.perm_insertionSort (Descending fun entry : HistoryEntry F =>
      entry.stamp.text) _, ?_⟩
    · rw [List.take_of_length_le, List.map_insertionSort _ FinishedLater, List.map_append,
        List.map_map, List.map_map]
      · rfl
      · intro a _ b _
        exact (finishedLater_json a b).symm
      · rw [List.length_insertionSort, List.length_append, List.length_map, List.length_map]
        omega
    · exact pairwise_descending HistoryEntry.stamp _
  · next hfull =>
    have hroom : min limit 200 - (newestEvents events proxyId (min limit 200)).length = 0 := by
      omega
    refine ⟨(newestEvents events proxyId (min limit 200)).map .event, ?_, ?_, ?_⟩
    · rw [List.take_of_length_le (by rw [List.length_map]; exact hevents), List.map_map]
      rfl
    · rw [hroom, newestLegacy, List.take_zero, List.map_nil, List.append_nil]
    · exact (newest_newestEvents events proxyId _).sorted

theorem historyComplete_iff_newer (limit : ℕ)
    (h : s.nodes.any (fun row => row.id = proxyId) = true) :
    HistoryComplete s events legacy fromStr proxyId limit ↔
      ∀ entry ∈ (eventsOf events proxyId).map HistoryEntry.event,
        newerCount HistoryEntry.instant ((eventsOf events proxyId).map HistoryEntry.event)
            entry.instant < min limit 200 →
          newerCount (HistoryEntry.instant (F := F)) ((legacyOf legacy proxyId).map .legacy)
            entry.instant ≤ min limit 200 - (eventsOf events proxyId).length := by
  obtain ⟨shown, hhistory, hperm, hsorted⟩ :=
    exists_history events legacy fromStr limit h
  have hevents := newest_newestEvents events proxyId (min limit 200)
  have hlegacy := newest_newestLegacy (F := F) legacy proxyId
    (min limit 200 - (newestEvents events proxyId (min limit 200)).length)
  have hlength : (newestEvents events proxyId (min limit 200)).length =
      ((newestEvents events proxyId (min limit 200)).map HistoryEntry.event).length :=
    (List.length_map _).symm
  rw [hlength] at hlegacy hperm
  have hmerged := merged_iff hevents hlegacy hperm hsorted
  rw [List.length_map] at hmerged
  refine Iff.trans ⟨?_, ?_⟩ hmerged
  · rintro ⟨values, hvalues, chosen, rfl, hchosen⟩
    rw [hhistory] at hvalues
    obtain ⟨restEvents, hpermEvents, -⟩ := hevents.complete
    obtain ⟨restLegacy, hpermLegacy, -⟩ := hlegacy.complete
    apply hchosen.congr
    · exact (map_instant_of_map_json (Except.ok.inj hvalues)).symm
    · exact perm_merged hpermEvents hpermLegacy hperm
  · intro hshown
    exact ⟨_, hhistory, shown, rfl, hshown⟩

/-- Every history is complete if the legacy service stopped before the first event. -/
theorem historyComplete_of_migrated (limit : ℕ)
    (h : s.nodes.any (fun row => row.id = proxyId) = true)
    (hmigrated : ∀ event ∈ eventsOf events proxyId, ∀ row ∈ legacyOf legacy proxyId,
      row.finishedAt.instant ≤ event.occurredAt.instant) :
    HistoryComplete s events legacy fromStr proxyId limit := by
  rw [historyComplete_iff_newer events legacy fromStr limit h, List.forall_mem_map]
  intro event hevent _
  have hnone : newerCount (HistoryEntry.instant (F := F)) ((legacyOf legacy proxyId).map .legacy)
      (HistoryEntry.event event).instant = 0 := by
    apply newerCount_eq_zero
    exact List.forall_mem_map.mpr (hmigrated event hevent)
  rw [hnone]
  exact Nat.zero_le _

/-- The history of a node is complete exactly if, for each event with room for it, no more legacy
tests are newer than the events leave room for. -/
theorem historyComplete_iff (limit : ℕ) (h : s.nodes.any (fun row => row.id = proxyId) = true) :
    HistoryComplete s events legacy fromStr proxyId limit ↔
      ∀ event ∈ eventsOf events proxyId,
        newerCount (fun row => row.occurredAt.instant) (eventsOf events proxyId)
            event.occurredAt.instant < min limit 200 →
          newerCount (fun row => row.finishedAt.instant) (legacyOf legacy proxyId)
            event.occurredAt.instant ≤ min limit 200 - (eventsOf events proxyId).length := by
  rw [historyComplete_iff_newer events legacy fromStr limit h, List.forall_mem_map]
  simp only [newerCount_map]
  rfl

end Windows

section Samples

/-- A day after `halfSecond`. -/
def nextDay : UtcInstant where
  second := 1767312000
  frac := 500000000
  representable := by decide
  inYears := by decide

def testedNode : Store ℚ where
  nodes := [{
    id := "node"
    configHash := "first"
    rawConfig := "socks://host.example:1080".toList
    sourceSubs := ["feed"]
    healthAlpha := 1
    healthBeta := 1
    healthScore := 1 / 2
    createdAt := 0 }]

def firstEvent : EventRow ℚ where
  proxyId := "node"
  occurredAt := ⟨halfSecond, _, .chrono⟩
  stage := "RELAY"
  result := "SUCCESS"
  failureClass := "SUCCESS"
  evidenceAlpha := 1
  evidenceBeta := 0

def laterTest : LegacyRow where
  nodeId := "node"
  finishedAt := ⟨nextDay, _, .legacy ⟨by decide, by decide⟩⟩
  testKind := "fast"
  trigger := "manual"
  ok := 1

def emptyDetails (text : Text) : Option Json :=
  if text = "\x7b\x7d".toList then some (.object []) else none

theorem historyComplete_two :
    HistoryComplete testedNode [firstEvent] [laterTest] emptyDetails "node" 2 := by
  apply (historyComplete_iff _ _ emptyDetails 2 rfl).mpr
  rw [show eventsOf [firstEvent] "node" = [firstEvent] from rfl]
  intro event hevent _
  obtain rfl := List.mem_singleton.mp hevent
  decide

/-- A page of one entry shows the event, although the legacy test is newer. -/
theorem olderEvent_shown :
    testedNode.history [firstEvent] [laterTest] emptyDetails "node" 1 =
        .ok [firstEvent.json emptyDetails] ∧
      firstEvent.occurredAt.instant < laterTest.finishedAt.instant ∧
      ¬ HistoryComplete testedNode [firstEvent] [laterTest] emptyDetails "node" 1 := by
  have hhistory : testedNode.history [firstEvent] [laterTest] emptyDetails "node" 1 =
      .ok [firstEvent.json emptyDetails] := rfl
  have hlater : firstEvent.occurredAt.instant < laterTest.finishedAt.instant := by decide
  refine ⟨hhistory, hlater, ?_⟩
  rintro ⟨values, hvalues, chosen, rfl, hchosen⟩
  have htimes : [HistoryEntry.event firstEvent].map HistoryEntry.instant =
      chosen.map HistoryEntry.instant :=
    map_instant_of_map_json (Except.ok.inj (hhistory.symm.trans hvalues))
  obtain ⟨entry, rfl⟩ : ∃ entry, chosen = [entry] :=
    List.length_eq_one_iff.mp hchosen.filled
  have hentry : firstEvent.occurredAt.instant = entry.instant := (List.cons.inj htimes).1
  obtain ⟨rest, hperm, hnewer⟩ := hchosen.complete
  have hmem : HistoryEntry.legacy laterTest ∈ [entry] ++ rest :=
    hperm.mem_iff.mpr (List.mem_cons_of_mem _ List.mem_cons_self)
  rcases List.mem_append.mp hmem with hshown | hrest
  · obtain rfl := List.mem_singleton.mp hshown
    exact hlater.ne hentry
  · have hle := hnewer entry List.mem_cons_self _ hrest
    rw [← hentry] at hle
    exact absurd hlater (not_lt.mpr hle)

end Samples

end ProxyFleet
