import ProxyFleet.LegacyMigration
import ProxyFleet.PublishedFeed
import ProxyFleet.UpstreamRefresh

/-!
# Identities of an upgraded database

The old service named a configuration by a tagged digest of its own normal form, the new one
looks it up by a bare digest. A migration keeps the old names, so no ingest finds a row that
came with the database: each of its configurations is inserted once more.
-/
namespace ProxyFleet

variable {F : Type}

/-- The hash of the old service. The text of `json.dumps` is a parameter. -/
def stableJsonHash (lib : Libraries) (dumps : Json → Text) (payload : Json) : String :=
  "sha256:" ++ lib.sha256 (utf8Encode (dumps payload))

/-- A digest is written in hexadecimal. -/
def Libraries.HexDigests (lib : Libraries) : Prop :=
  ∀ bytes, ∀ c ∈ (lib.sha256 bytes).toList, AddressSyntax.isHexDigit c

/-- The columns of the old schema that a migration would otherwise add. -/
def legacyColumns : List NodeColumn := [
  .exitIp, .exitHostname, .exitCity, .exitRegion, .exitLoc, .exitOrg, .exitPostal,
  .exitTimezone, .exitInfoJson, .lastDownloadTestAt, .nextTestAt, .exitInfoFetchedAt]

def legacyStatuses : List StoredState := [
  .lifecycle .candidate, .lifecycle .testing, .lifecycle .active, .lifecycle .probation, .dead,
  .lifecycle .waitingForPort, .removed]

/-- A table that the old service wrote. -/
structure NodesTable.Legacy (lib : Libraries) (dumps : Json → Text) (t : NodesTable F) :
    Prop where
  columns : ∀ c ∈ t.columns, c ∈ legacyColumns
  statuses : ∀ row ∈ t.rows, row.status ∈ legacyStatuses
  hashed : ∀ row ∈ t.rows, ∃ normalized, row.configHash = stableJsonHash lib dumps normalized
  ids : (t.rows.map (·.id)).Nodup
  hashes : (t.rows.map (·.configHash)).Nodup

/-- The configuration that a text describes, by the name that the new service gives it. -/
def technicalIdentity (lib : Libraries) (raw : Text) : Option String :=
  match parseShareUrl lib raw "" with
  | .ok proxy => some proxy.configHash
  | .error _ => none

theorem technicalIdentity_eq_some {lib : Libraries} {raw : Text} {source : String}
    {proxy : ParsedProxy} (h : parseShareUrl lib raw source = .ok proxy) :
    technicalIdentity lib raw = some proxy.configHash := by
  obtain ⟨share, hs, hv, -, -, hash⟩ := parseShareUrl_ok h
  simp only [technicalIdentity, parseShareUrl, hs, hv, bind, Except.bind, hash]

/-- The name of an old row is no digest. -/
theorem stableJsonHash_ne {lib : Libraries} (digests : lib.HexDigests) (dumps : Json → Text)
    (payload : Json) (bytes : List UInt8) :
    stableJsonHash lib dumps payload ≠ lib.sha256 bytes := by
  intro h
  have hcolon : ':' ∈ (lib.sha256 bytes).toList := by
    rw [← h, stableJsonHash, String.toList_append]
    exact List.mem_append_left _ (by decide)
  have hhex := digests bytes ':' hcolon
  revert hhex
  decide

section Reading

variable [F64 F] {lib : Libraries} {dumps : Json → Text} {t : NodesTable F}

/-- The store that the service opens after the migration. -/
def NodesTable.upgraded (t : NodesTable F) (now : Time) : Store F where
  nodes := (t.migrate now).rows.filterMap StoredNode.read

namespace StoredNode

variable {columns : List NodeColumn} {row : StoredNode F}

omit [F64 F] in
/-- A row can be read if it has a known state and a value wherever the service expects one. -/
theorem exists_read (status : row.status.lifecycle?.isSome)
    (state : (row.lifecycleState.bind StoredState.lifecycle?).isSome)
    (valid : row.structurallyValid.isSome) (alpha : row.healthAlpha.isSome)
    (beta : row.healthBeta.isSome) (score : row.healthScore.isSome)
    (successes : row.successStreak.isSome) (failures : row.failureStreak.isSome)
    (independent : row.independentFailureCount.isSome)
    (missing : row.upstreamMissingGenerations.isSome) : ∃ node, row.read = some node := by
  obtain ⟨_, hstatus⟩ := Option.isSome_iff_exists.mp status
  obtain ⟨_, hstate⟩ := Option.isSome_iff_exists.mp state
  obtain ⟨_, hvalid⟩ := Option.isSome_iff_exists.mp valid
  obtain ⟨_, halpha⟩ := Option.isSome_iff_exists.mp alpha
  obtain ⟨_, hbeta⟩ := Option.isSome_iff_exists.mp beta
  obtain ⟨_, hscore⟩ := Option.isSome_iff_exists.mp score
  obtain ⟨_, hsuccesses⟩ := Option.isSome_iff_exists.mp successes
  obtain ⟨_, hfailures⟩ := Option.isSome_iff_exists.mp failures
  obtain ⟨_, hindependent⟩ := Option.isSome_iff_exists.mp independent
  obtain ⟨_, hmissing⟩ := Option.isSome_iff_exists.mp missing
  rw [← Option.isSome_iff_exists, read, hstatus, hstate, hvalid, halpha, hbeta, hscore,
    hsuccesses, hfailures, hindependent, hmissing]
  rfl

/-- A column that the table lacked holds its default after the additions. -/
theorem addColumns_default {α : Type*} (column : StoredNode F → α) {c : NodeColumn}
    (absent : c ∉ columns) {default : α}
    (added : ∀ row : StoredNode F, column (row.addColumn c) = default)
    (others : ∀ (row : StoredNode F) (other : NodeColumn), other ≠ c →
      column (row.addColumn other) = column row) :
    column (row.addColumns columns) = default := by
  rw [addColumns_column column c added others, if_neg absent]

/-- The counters of a row that had none start at zero, and no generation has seen it. -/
theorem counters_addColumns (row : StoredNode F) (legacy : ∀ c ∈ columns, c ∈ legacyColumns) :
    (row.addColumns columns).successStreak = some 0 ∧
      (row.addColumns columns).failureStreak = some 0 ∧
      (row.addColumns columns).independentFailureCount = some 0 ∧
      (row.addColumns columns).upstreamMissingGenerations = some 0 ∧
      (row.addColumns columns).lastSeenGeneration = none := by
  have absent : ∀ c, c ∉ legacyColumns → c ∉ columns := fun c hc hm => hc (legacy c hm)
  refine ⟨?_, ?_, ?_, ?_, ?_⟩
  · apply addColumns_default (·.successStreak) (absent .successStreak (by decide)) (fun _ => rfl)
    intro row c hc
    cases c <;> first | rfl | exact absurd rfl hc
  · apply addColumns_default (·.failureStreak) (absent .failureStreak (by decide)) (fun _ => rfl)
    intro row c hc
    cases c <;> first | rfl | exact absurd rfl hc
  · apply addColumns_default (·.independentFailureCount)
      (absent .independentFailureCount (by decide)) (fun _ => rfl)
    intro row c hc
    cases c <;> first | rfl | exact absurd rfl hc
  · apply addColumns_default (·.upstreamMissingGenerations)
      (absent .upstreamMissingGenerations (by decide)) (fun _ => rfl)
    intro row c hc
    cases c <;> first | rfl | exact absurd rfl hc
  · apply addColumns_default (·.lastSeenGeneration) (absent .lastSeenGeneration (by decide))
      (fun _ => rfl)
    intro row c hc
    cases c <;> first | rfl | exact absurd rfl hc

/-- No update sets them. -/
theorem counters_migrated (row : StoredNode F) (legacy : ∀ c ∈ columns, c ∈ legacyColumns)
    (now : Time) :
    ((row.addColumns columns).applyUpdates now).successStreak = some 0 ∧
      ((row.addColumns columns).applyUpdates now).failureStreak = some 0 ∧
      ((row.addColumns columns).applyUpdates now).independentFailureCount = some 0 ∧
      ((row.addColumns columns).applyUpdates now).upstreamMissingGenerations = some 0 ∧
      ((row.addColumns columns).applyUpdates now).lastSeenGeneration = none := by
  have hkept := (row.addColumns columns).applyUpdates_kept now
    (fun row => (row.successStreak, row.failureStreak, row.independentFailureCount,
      row.upstreamMissingGenerations, row.lastSeenGeneration))
    (fun _ => rfl) (fun _ => rfl) (fun _ => rfl) (fun _ => rfl) (fun _ => rfl) (fun _ => rfl)
    (fun _ => rfl) (fun _ => rfl)
  simp only [Prod.mk.injEq] at hkept
  obtain ⟨hsuccesses, hfailures, hindependent, hmissing, hseen⟩ := hkept
  rw [hsuccesses, hfailures, hindependent, hmissing, hseen]
  exact counters_addColumns row legacy

/-- The two renamed statuses follow the state, the others stay. -/
theorem status_migrated (legacy : .lifecycleState ∉ columns)
    (status : row.status ∈ legacyStatuses) (now : Time) :
    ((row.addColumns columns).applyUpdates now).status.lifecycle?.isSome := by
  have hstate : (row.addColumns columns).mapLegacyStatus.lifecycleState = _ :=
    mapLegacyStatus_of_candidate (lifecycleState_addColumns legacy)
  have hstatus : (row.addColumns columns).mapLegacyStatus.status = row.status :=
    status_addColumns
  rw [applyUpdates_status, alignStatus, hstate, hstatus, status_addColumns]
  revert status
  cases row.status with
  | lifecycle state => exact fun _ => rfl
  | dead | removed => exact fun _ => rfl
  | blank => simp [legacyStatuses]

/-- What a migration leaves of a row, as the service reads it. No generation has seen it. -/
structure ReadAs (row : StoredNode F) (node : Node F) : Prop where
  id : node.id = row.id
  configHash : node.configHash = row.configHash
  rawConfig : node.rawConfig = row.rawConfig
  unseen : node.lastSeenGeneration = none

/-- A row of a legacy table can be read after the migration. -/
theorem exists_read_migrated (legacy : ∀ c ∈ columns, c ∈ legacyColumns)
    (status : row.status ∈ legacyStatuses) (now : Time) :
    ∃ node, ((row.addColumns columns).applyUpdates now).read = some node ∧
      row.ReadAs node := by
  have absent : ∀ c, c ∉ legacyColumns → c ∉ columns := fun c hc hm => hc (legacy c hm)
  have hlifecycle : NodeColumn.lifecycleState ∉ columns := absent _ (by decide)
  have hstate := row.lifecycleState_migrated hlifecycle now
  have halpha : ((row.addColumns columns).applyUpdates now).healthAlpha.isSome := by
    rw [applyUpdates_healthAlpha, healthAlpha_addColumns, if_neg (absent _ (by decide))]
    split <;> rfl
  have hbeta : ((row.addColumns columns).applyUpdates now).healthBeta.isSome := by
    rw [applyUpdates_healthBeta, healthBeta_addColumns, if_neg (absent _ (by decide))]
    split <;> rfl
  have hscore : ((row.addColumns columns).applyUpdates now).healthScore.isSome := by
    obtain ⟨alpha, halpha⟩ := Option.isSome_iff_exists.mp halpha
    obtain ⟨beta, hbeta⟩ := Option.isSome_iff_exists.mp hbeta
    have hdefault : (row.addColumns columns).healthScore = some (F64.ofRat (1 / 2)) := by
      apply addColumns_default (·.healthScore) (absent .healthScore (by decide)) (fun _ => rfl)
      intro row c hc
      cases c <;> first | rfl | exact absurd rfl hc
    rw [applyUpdates_healthScore, halpha, hbeta, hdefault]
    split <;> rfl
  have hvalid : ((row.addColumns columns).applyUpdates now).structurallyValid.isSome := by
    rw [applyUpdates_structurallyValid]
    split
    · rfl
    · exact Option.isSome_iff_ne_none.mpr ‹_›
  obtain ⟨hsuccesses, hfailures, hindependent, hmissing, hseen⟩ :=
    counters_migrated row legacy now
  obtain ⟨node, hread⟩ := exists_read (status_migrated hlifecycle status now)
    (by rw [hstate]; rfl) hvalid halpha hbeta hscore (by rw [hsuccesses]; rfl)
    (by rw [hfailures]; rfl) (by rw [hindependent]; rfl) (by rw [hmissing]; rfl)
  obtain ⟨hid, hash, hraw, -, -, hgeneration⟩ := read_eq_some hread
  exact ⟨node, hread, hid.trans (id_migrated now), hash.trans (configHash_migrated now),
    hraw.trans (rawConfig_migrated now), hgeneration.trans hseen⟩

end StoredNode

namespace NodesTable.Legacy

variable (h : t.Legacy lib dumps) (now : Time)

include h

/-- Every row of the table is a row of the upgraded store. -/
theorem exists_upgraded {row : StoredNode F} (hr : row ∈ t.rows) :
    ∃ node ∈ (t.upgraded now).nodes, row.ReadAs node := by
  obtain ⟨node, hnode, hread⟩ :=
    StoredNode.exists_read_migrated h.columns (h.statuses row hr) now
  refine ⟨node, ?_, hread⟩
  rw [NodesTable.upgraded, NodesTable.migrate_rows, List.mem_filterMap]
  exact ⟨_, List.mem_map_of_mem hr, hnode⟩

/-- A column that is read as it is has the same values before and after. -/
theorem map_upgraded {α : Type*} {stored : StoredNode F → α} {column : Node F → α}
    (same : ∀ row node, row.ReadAs node → column node = stored row) :
    (t.upgraded now).nodes.map column = t.rows.map stored := by
  rw [NodesTable.upgraded, NodesTable.migrate_rows, List.map_filterMap, List.filterMap_map,
    ← List.filterMap_eq_map]
  apply List.filterMap_congr
  intro row hr
  obtain ⟨node, hnode, hread⟩ :=
    StoredNode.exists_read_migrated h.columns (h.statuses row hr) now
  simp only [Function.comp_apply, hnode, Option.map_some, same row node hread]

theorem wellKeyed_upgraded : (t.upgraded now).WellKeyed := by
  constructor
  · rw [h.map_upgraded now fun row node hread => hread.id]
    exact h.ids
  · rw [h.map_upgraded now fun row node hread => hread.configHash]
    exact h.hashes

/-- No row of the upgraded store is named by a digest. -/
theorem hash_ne (digests : lib.HexDigests) {node : Node F}
    (hn : node ∈ (t.upgraded now).nodes) (bytes : List UInt8) :
    node.configHash ≠ lib.sha256 bytes := by
  have hash : node.configHash ∈ (t.upgraded now).nodes.map (·.configHash) :=
    List.mem_map_of_mem hn
  rw [h.map_upgraded now fun row node hread => hread.configHash, List.mem_map] at hash
  obtain ⟨row, hr, hash⟩ := hash
  obtain ⟨normalized, hnormalized⟩ := h.hashed row hr
  rw [← hash, hnormalized]
  exact stableJsonHash_ne digests dumps normalized bytes

end NodesTable.Legacy

end Reading

section Ingests

variable [F64 F] {lib : Libraries}

/-- A store after ingests into a database whose rows have other names than digests: these rows
are untouched, and every other row has the identity of its text. -/
structure Store.KeepsBeside (lib : Libraries) (old : List (Node F)) (s : Store F) : Prop where
  keyed : s.WellKeyed
  kept : ∀ node ∈ old, node ∈ s.nodes
  named : ∀ node ∈ s.nodes, node ∈ old ∨
    technicalIdentity lib node.rawConfig = some node.configHash

/-- The proxy was parsed. -/
def Parsed (lib : Libraries) (proxy : ParsedProxy) : Prop :=
  ∃ raw source, parseShareUrl lib raw source = .ok proxy

omit [F64 F] in
theorem Parsed.identity {proxy : ParsedProxy} (h : Parsed lib proxy) :
    technicalIdentity lib proxy.rawConfig = some proxy.configHash := by
  obtain ⟨raw, source, hparse⟩ := h
  have hagain := technicalIdentity_eq_some (parseShareUrl_rawConfig hparse source)
  exact hagain

omit [F64 F] in
theorem Parsed.hash {proxy : ParsedProxy} (h : Parsed lib proxy) :
    ∃ bytes, proxy.configHash = lib.sha256 bytes := by
  obtain ⟨raw, source, hparse⟩ := h
  obtain ⟨share, -, -, -, -, hash⟩ := parseShareUrl_ok hparse
  exact ⟨_, hash⟩

variable {old : List (Node F)} {s : Store F}

/-- The identities that have a row after an ingest. -/
theorem Store.hashes_ingestOne {t : Store F} {now : Time} {proxy : ParsedProxy} {newId : String}
    {generation : ℤ} (ok : s.ingestOne now proxy newId generation = .ok t) (hash : String) :
    hash ∈ t.nodes.map (·.configHash) ↔
      hash ∈ s.nodes.map (·.configHash) ∨ hash = proxy.configHash := by
  unfold Store.ingestOne at ok
  dsimp only at ok
  split at ok
  · next found hfound =>
    have hmem := List.mem_of_find?_eq_some hfound
    have hknown : found.configHash = proxy.configHash := by simpa using List.find?_some hfound
    obtain rfl := Except.ok.inj ok
    have hkept : (s.updateNodes (fun r => r.id = found.id)
        fun r => r.reingested now proxy generation).nodes.map (·.configHash) =
          s.nodes.map (·.configHash) := by
      apply RowUpdates.map_updateWhere
      exact fun _ => rfl
    rw [Store.insertMember_nodes, hkept]
    refine ⟨.inl, fun h => ?_⟩
    rcases h with h | rfl
    · exact h
    · rw [← hknown]
      exact List.mem_map_of_mem hmem
  · split at ok
    · cases ok
    · obtain rfl := Except.ok.inj ok
      rw [Store.insertMember_nodes, List.map_append, List.mem_append]
      exact or_congr_right List.mem_singleton

/-- An ingest of a parsed proxy finds none of the old rows. -/
theorem Store.KeepsBeside.ingestOne (h : s.KeepsBeside lib old)
    (unnamed : ∀ node ∈ old, ∀ bytes, node.configHash ≠ lib.sha256 bytes) {now : Time}
    {proxy : ParsedProxy} (parsed : Parsed lib proxy) {newId : String} {generation : ℤ}
    {t : Store F} (ok : s.ingestOne now proxy newId generation = .ok t) :
    t.KeepsBeside lib old := by
  obtain ⟨bytes, hbytes⟩ := parsed.hash
  have hkeyed := h.keyed.ingestOne ok
  unfold Store.ingestOne at ok
  dsimp only at ok
  split at ok
  · next found hfound =>
    have hmem := List.mem_of_find?_eq_some hfound
    have hash : found.configHash = proxy.configHash := by simpa using List.find?_some hfound
    obtain rfl := Except.ok.inj ok
    refine ⟨hkeyed, fun node hn => ?_, fun node hn => ?_⟩
    · have hother : node.id ≠ found.id := by
        intro hid
        have hsame := RowUpdates.eq_of_key_eq h.keyed.ids (h.kept node hn) hmem hid
        exact unnamed node hn bytes (by rw [hsame, hash, hbytes])
      rw [Store.insertMember_nodes]
      exact Store.mem_updateNodes.mpr ⟨node, h.kept node hn, .inr ⟨by simpa using hother, rfl⟩⟩
    · rw [Store.insertMember_nodes] at hn
      obtain ⟨row, hr, ⟨hg, rfl⟩ | ⟨-, rfl⟩⟩ := Store.mem_updateNodes.mp hn
      · have hsame : row = found :=
          RowUpdates.eq_of_key_eq h.keyed.ids hr hmem (by simpa using hg)
        right
        show technicalIdentity lib proxy.rawConfig = some row.configHash
        rw [parsed.identity, hsame, hash]
      · exact h.named node hr
  · split at ok
    · cases ok
    · obtain rfl := Except.ok.inj ok
      refine ⟨hkeyed, fun node hn => ?_, fun node hn => ?_⟩
      · rw [Store.insertMember_nodes]
        exact List.mem_append_left _ (h.kept node hn)
      · rw [Store.insertMember_nodes] at hn
        rcases List.mem_append.mp hn with hn | hn
        · exact h.named node hn
        · obtain rfl := List.mem_singleton.mp hn
          exact .inr parsed.identity

/-- So does a batch of them, after which every identity of the batch has a row. -/
theorem Store.KeepsBeside.ingestMany (h : s.KeepsBeside lib old)
    (unnamed : ∀ node ∈ old, ∀ bytes, node.configHash ≠ lib.sha256 bytes) {now : Time}
    {generation : ℤ} {batch : List ParsedProxy} (parsed : ∀ proxy ∈ batch, Parsed lib proxy)
    {newId : ℕ → String} {t : Store F} {inserted : ℕ}
    (ok : s.ingestMany now generation batch newId = .ok (t, inserted)) :
    t.KeepsBeside lib old ∧ ∀ proxy ∈ batch, proxy.configHash ∈ t.nodes.map (·.configHash) := by
  apply Store.ingestMany_rule (I := fun seen u => u.KeepsBeside lib old ∧
    ∀ proxy ∈ seen, proxy.configHash ∈ u.nodes.map (·.configHash)) ok
  · exact ⟨h, fun _ hp => nomatch hp⟩
  · intro seen proxy hproxy k _ u v hu hone
    refine ⟨hu.1.ingestOne unnamed (parsed proxy hproxy) hone, fun other ho => ?_⟩
    rw [Store.hashes_ingestOne hone]
    rcases List.mem_append.mp ho with ho | ho
    · exact .inl (hu.2 other ho)
    · rw [List.mem_singleton.mp ho]
      exact .inr rfl

end Ingests

section Continuation

variable [F64 F] {lib : Libraries} {dumps : Json → Text} {t : NodesTable F}

/-- A generation reached the row. -/
def Store.Refreshes (after : Store F) (row : StoredNode F) (generation : ℤ) : Prop :=
  ∃ node ∈ after.nodes, node.id = row.id ∧ node.lastSeenGeneration = some generation

/-- No other row holds the configuration of the row. -/
def Store.HeldOnce (lib : Libraries) (after : Store F) (row : StoredNode F) : Prop :=
  ∀ node ∈ after.nodes, technicalIdentity lib node.rawConfig =
    technicalIdentity lib row.rawConfig → node.id = row.id

/-- The ingest of a body that contains the text of an old row never reaches that row, and
leaves its configuration in two rows. -/
theorem identity_never_continues (digests : lib.HexDigests) (legacy : t.Legacy lib dumps)
    (now : Time) {row : StoredNode F} (hr : row ∈ t.rows) {source : String}
    {proxy : ParsedProxy} (accepted : parseShareUrl lib row.rawConfig source = .ok proxy)
    {body : Text} (contained : row.rawConfig ∈ subscriptionLines body) {later : Time}
    {generation : ℤ} {newId : ℕ → String} {after : Store F} {inserted : ℕ}
    (ingested : (t.upgraded now).ingestMany later generation
      (parseSubscription lib body source).accepted newId = .ok (after, inserted)) :
    ¬ after.Refreshes row generation ∧ ¬ after.HeldOnce lib row := by
  have hparsed : ∀ p ∈ (parseSubscription lib body source).accepted, Parsed lib p := by
    intro p hp
    obtain ⟨line, -, hline⟩ := mem_accepted hp
    exact ⟨line, source, hline⟩
  have hstart : (t.upgraded now).KeepsBeside lib (t.upgraded now).nodes :=
    ⟨legacy.wellKeyed_upgraded now, fun _ hn => hn, fun _ hn => .inl hn⟩
  obtain ⟨hkeeps, hbatch⟩ := hstart.ingestMany
    (fun _ hn bytes => legacy.hash_ne now digests hn bytes) hparsed ingested
  obtain ⟨node, hn, hread⟩ := legacy.exists_upgraded now hr
  constructor
  · rintro ⟨other, ho, hid, hseen⟩
    have hsame := RowUpdates.eq_of_key_eq hkeeps.keyed.ids ho (hkeeps.kept node hn)
      (hid.trans hread.id.symm)
    rw [hsame, hread.unseen] at hseen
    cases hseen
  · intro honce
    obtain ⟨p, hp, hash⟩ := accepted_of_mem contained accepted
    obtain ⟨second, hs, hsecond⟩ := List.mem_map.mp (hbatch p hp)
    obtain ⟨bytes, hbytes⟩ := (hparsed p hp).hash
    have hnew : second ∉ (t.upgraded now).nodes := by
      intro hold
      exact legacy.hash_ne now digests hold bytes (hsecond.trans hbytes)
    have hnamed := (hkeeps.named second hs).resolve_left hnew
    have hid := honce second hs (by
      rw [hnamed, hsecond, hash, technicalIdentity_eq_some accepted])
    have hsame := RowUpdates.eq_of_key_eq hkeeps.keyed.ids hs (hkeeps.kept node hn)
      (hid.trans hread.id.symm)
    exact hnew (hsame ▸ hn)

end Continuation

/-- The normal form of the old service for the sample URL, and its text. -/
def oldNormalForm : Json := .object [
  ("host", .string ""), ("network", .string "tcp"), ("password", .string "secret"),
  ("path", .string ""), ("port", .number (.posInt 443)), ("protocol", .string "trojan"),
  ("security", .string "tls"), ("server", .string "host.example"), ("sni", .string "")]

def oldDumps (_ : Json) : Text :=
  ("\x7b\"host\":\"\",\"network\":\"tcp\",\"password\":\"secret\",\"path\":\"\"," ++
    "\"port\":443,\"protocol\":\"trojan\",\"security\":\"tls\",\"server\":\"host.example\"," ++
    "\"sni\":\"\"\x7d").toList

def upgradeLibraries : Libraries :=
  { sampleLibraries with
    sha256 := fun bytes =>
      if bytes = utf8Encode (oldDumps oldNormalForm) then
        "b30d564c99ce3ba1ad04510a7b3a17127609c9e97fb1dced0d2d8866ac9390c5"
      else sampleLibraries.sha256 bytes }

theorem upgradeLibraries_hexDigests : upgradeLibraries.HexDigests := by
  intro bytes
  have hall : (upgradeLibraries.sha256 bytes).toList.all AddressSyntax.isHexDigit = true := by
    simp only [upgradeLibraries, sampleLibraries]
    split <;> decide +kernel
  exact List.all_eq_true.mp hall

/-- A row of the old service. -/
def oldRow : StoredNode ℚ where
  id := "old"
  configHash := stableJsonHash upgradeLibraries oldDumps oldNormalForm
  rawConfig := "trojan://secret@host.example:443".toList
  sourceSubs := ["feed"]
  status := .lifecycle .candidate
  createdAt := 0

def oldTable : NodesTable ℚ := ⟨legacyColumns, [oldRow]⟩

theorem oldTable_legacy : oldTable.Legacy upgradeLibraries oldDumps where
  columns := fun _ hc => hc
  statuses := by decide
  hashed := fun row hr => ⟨oldNormalForm, by rw [List.mem_singleton.mp hr]; rfl⟩
  ids := List.nodup_singleton _
  hashes := List.nodup_singleton _

/-- The body of a source with the text of the row. -/
def oldBody : Text := "trojan://secret@host.example:443\n".toList

theorem oldRow_contained : oldRow.rawConfig ∈ subscriptionLines oldBody := by decide +kernel

theorem oldRow_accepted :
    ∃ proxy, parseShareUrl upgradeLibraries oldRow.rawConfig "feed" = .ok proxy := by
  have hok : (parseShareUrl upgradeLibraries oldRow.rawConfig "feed").isOk = true := by
    decide +kernel
  cases hparse : parseShareUrl upgradeLibraries oldRow.rawConfig "feed" with
  | error e =>
    rw [hparse] at hok
    cases hok
  | ok proxy => exact ⟨proxy, rfl⟩

/-- The ingest of the row's own text leaves the row unseen. -/
theorem oldBody_ingested : ∃ after inserted,
    (oldTable.upgraded 0).ingestMany 1 1
      (parseSubscription upgradeLibraries oldBody "feed").accepted (fun _ => "new") =
        .ok (after, inserted) ∧
    ∀ node ∈ after.nodes, node.id = "old" → node.lastSeenGeneration = none := by
  have hunseen : ((oldTable.upgraded 0).ingestMany 1 1
      (parseSubscription upgradeLibraries oldBody "feed").accepted fun _ => "new").toOption.any
        (fun result => result.1.nodes.all fun node =>
          node.id ≠ "old" || node.lastSeenGeneration.isNone) = true := by decide +kernel
  cases hresult : (oldTable.upgraded 0).ingestMany 1 1
      (parseSubscription upgradeLibraries oldBody "feed").accepted fun _ => "new" with
  | error e =>
    rw [hresult] at hunseen
    cases hunseen
  | ok result =>
    rw [hresult] at hunseen
    refine ⟨result.1, result.2, rfl, fun node hn hid => ?_⟩
    have hnode := List.all_eq_true.mp hunseen node hn
    simpa [hid] using hnode

theorem identity_never_continues_oldRow : ∃ after inserted,
    (oldTable.upgraded 0).ingestMany 1 1
      (parseSubscription upgradeLibraries oldBody "feed").accepted (fun _ => "new") =
        .ok (after, inserted) ∧
    ¬ after.Refreshes oldRow 1 ∧ ¬ after.HeldOnce upgradeLibraries oldRow := by
  obtain ⟨after, inserted, hok, -⟩ := oldBody_ingested
  obtain ⟨proxy, accepted⟩ := oldRow_accepted
  refine ⟨after, inserted, hok, ?_⟩
  exact identity_never_continues upgradeLibraries_hexDigests oldTable_legacy 0
    (List.mem_singleton.mpr rfl) accepted oldRow_contained hok

/-- A migrated row is not found again by its own text. -/
theorem identity_not_continued :
    ¬ ∀ (lib : Libraries) (dumps : Json → Text) (t : NodesTable ℚ) (now later : Time)
      (generation : ℤ) (row : StoredNode ℚ) (source : String) (proxy : ParsedProxy) (body : Text)
      (newId : ℕ → String) (after : Store ℚ) (inserted : ℕ),
      lib.HexDigests → t.Legacy lib dumps → row ∈ t.rows →
      parseShareUrl lib row.rawConfig source = .ok proxy →
      row.rawConfig ∈ subscriptionLines body →
      (t.upgraded now).ingestMany later generation (parseSubscription lib body source).accepted
        newId = .ok (after, inserted) →
      after.Refreshes row generation ∧ after.HeldOnce lib row := by
  intro h
  obtain ⟨after, inserted, hok, hunseen⟩ := oldBody_ingested
  obtain ⟨proxy, accepted⟩ := oldRow_accepted
  obtain ⟨node, hn, hid, hseen⟩ := (h upgradeLibraries oldDumps oldTable 0 1 1 oldRow "feed" proxy
    oldBody _ after inserted upgradeLibraries_hexDigests oldTable_legacy
    (List.mem_singleton.mpr rfl) accepted oldRow_contained hok).1
  rw [hunseen node hn hid] at hseen
  cases hseen

end ProxyFleet
