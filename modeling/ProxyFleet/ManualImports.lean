import ProxyFleet.CompletionOrder
import ProxyFleet.PublishedFeed
import ProxyFleet.SubscriptionEncodings

/-!
# Imports by hand

An import parses a text under the name `manual` and ingests what it accepts, each identity in a
transaction of its own. It adds the new identities and reports how many; a second import of the
same text adds none, and an import of the published feed changes nothing in the feed.
-/
namespace ProxyFleet

variable {F : Type} [F64 F]

structure ManualImportResult where
  accepted : ℕ
  rejected : ℕ
  inserted : ℕ
  errors : List String

/-- One identity in a transaction of its own, and whether it is new. -/
def Store.ingestProxy (s : Store F) (now : Time) (proxy : ParsedProxy) (newId : String)
    (generation : ℤ) : Except String (Store F × Bool) := do
  let result ← s.ingestMany now generation [proxy] fun _ => newId
  .ok (result.1, decide (0 < result.2))

/-- The loop over the accepted identities, with their times, new ids and the count of new ones. -/
def Store.ingestEach (s : Store F) (inserted : ℕ) :
    List (ParsedProxy × Time × String) → Except String (Store F × ℕ)
  | [] => .ok (s, inserted)
  | (proxy, now, newId) :: rest => do
    let result ← s.ingestProxy now proxy newId 0
    result.1.ingestEach (inserted + result.2.toNat) rest

/-- The times and new ids of the identities of an import, in their order. -/
def importPlan (clock : ℕ → Time) (newId : ℕ → String) (proxies : List ParsedProxy) :
    List (ParsedProxy × Time × String) :=
  proxies.mapIdx fun i proxy => (proxy, clock i, newId i)

def Store.manualImport (s : Store F) (lib : Libraries) (now : Time) (clock : ℕ → Time)
    (newId : ℕ → String) (configs : Text) : Except String (Store F × ManualImportResult) := do
  let report := parseSubscription lib configs "manual"
  let result ← (s.recordInvalidConfigRejections now "manual" report.rejected).ingestEach 0
    (importPlan clock newId report.accepted)
  .ok (result.1, ⟨report.accepted.length, report.rejected.length, result.2, report.rejected⟩)

def Store.hashes (s : Store F) : List String := s.nodes.map (·.configHash)

section Ingests

variable {s t : Store F} {now : Time} {proxy : ParsedProxy} {newId : String} {generation : ℤ}
  {fresh : Bool}

omit [F64 F] in
theorem Store.mem_hashes {hash : String} :
    hash ∈ s.hashes ↔ (s.nodes.any fun row => decide (row.configHash = hash)) = true := by
  simp [Store.hashes]

/-- An ingest of one identity is the single ingest, and it says whether the identity is new. -/
theorem Store.ingestProxy_eq_ok :
    s.ingestProxy now proxy newId generation = .ok (t, fresh) ↔
      s.ingestOne now proxy newId generation = .ok t ∧
        fresh = !decide (proxy.configHash ∈ s.hashes) := by
  have hknown : decide (proxy.configHash ∈ s.hashes) =
      s.nodes.any fun row => decide (row.configHash = proxy.configHash) := by
    rw [Bool.eq_iff_iff, decide_eq_true_eq, Store.mem_hashes]
  rw [hknown]
  simp only [Store.ingestProxy, Store.ingestMany, List.zipIdx_cons, List.zipIdx_nil,
    List.foldlM_cons, List.foldlM_nil]
  cases s.ingestOne now proxy newId generation with
  | error error => simp [bind, Except.bind]
  | ok u =>
    cases s.nodes.any fun row => decide (row.configHash = proxy.configHash) with
    | true => simp [bind, Except.bind, pure, Except.pure, eq_comm]
    | false => simp [bind, Except.bind, pure, Except.pure, eq_comm]

variable (now newId generation) in
/-- A known identity is found and updated, whatever the new id. -/
theorem Store.exists_ingestProxy_known (h : proxy.configHash ∈ s.hashes) :
    ∃ row ∈ s.nodes, ∃ t, row.configHash = proxy.configHash ∧
      t.nodes = (s.updateNodes (fun r => r.id = row.id) fun r =>
        r.reingested now proxy generation).nodes ∧
      s.ingestProxy now proxy newId generation = .ok (t, false) := by
  obtain ⟨other, hr, hhash⟩ := List.mem_map.mp h
  cases hfind : s.nodes.find? fun row => decide (row.configHash = proxy.configHash) with
  | none => exact absurd (List.find?_eq_none.mp hfind other hr) (by simpa using hhash)
  | some row =>
    have hone : s.ingestOne now proxy newId generation =
        .ok ((s.updateNodes (fun r => r.id = row.id) fun r =>
          r.reingested now proxy generation).insertMember
            ⟨generation, proxy.source, proxy.configHash⟩) := by
      unfold Store.ingestOne
      simp only [hfind]
    refine ⟨row, List.mem_of_find?_eq_some hfind, _, by simpa using List.find?_some hfind,
      Store.insertMember_nodes _ _, Store.ingestProxy_eq_ok.mpr ⟨hone, by simp [h]⟩⟩

/-- A known identity leaves all keys as they are, and a new one adds its own at the end. -/
theorem Store.hashes_ingestProxy
    (ok : s.ingestProxy now proxy newId generation = .ok (t, fresh)) :
    t.hashes = s.hashes ++ [proxy.configHash].filter (· ∉ s.hashes) := by
  by_cases hknown : proxy.configHash ∈ s.hashes
  · obtain ⟨row, -, u, -, hnodes, hu⟩ := Store.exists_ingestProxy_known now newId generation hknown
    obtain ⟨rfl, -⟩ := Prod.mk.inj (Except.ok.inj (hu.symm.trans ok))
    have hsame : u.hashes = s.hashes := by
      rw [Store.hashes, hnodes]
      exact RowUpdates.map_updateWhere (fun _ => by rfl) s.nodes
    rw [hsame, List.filter_cons_of_neg (by simpa using hknown), List.filter_nil, List.append_nil]
  · obtain ⟨hone, -⟩ := Store.ingestProxy_eq_ok.mp ok
    unfold Store.ingestOne at hone
    split at hone
    · next row hfind =>
      have hhash : row.configHash = proxy.configHash := by simpa using List.find?_some hfind
      exact absurd (List.mem_map.mpr ⟨row, List.mem_of_find?_eq_some hfind, hhash⟩) hknown
    · split at hone
      · cases hone
      · obtain rfl := Except.ok.inj hone
        rw [List.filter_cons_of_pos (by simpa using hknown), Store.hashes,
          Store.insertMember_nodes, List.map_append]
        rfl

end Ingests

section Loops

variable {s t : Store F} {count inserted : ℕ}

/-- The loop adds the identities that the store did not know, in their order, and counts them. -/
theorem Store.hashes_ingestEach {items : List (ParsedProxy × Time × String)}
    (distinct : (items.map fun item => item.1.configHash).Nodup)
    (ok : s.ingestEach count items = .ok (t, inserted)) :
    t.hashes = s.hashes ++ (items.map fun item => item.1.configHash).filter (· ∉ s.hashes) ∧
      inserted = count +
        ((items.map fun item => item.1.configHash).filter (· ∉ s.hashes)).length := by
  induction items generalizing s count with
  | nil =>
    obtain ⟨rfl, rfl⟩ := Prod.mk.inj (Except.ok.inj ok)
    simp
  | cons item items ih =>
    obtain ⟨proxy, now, newId⟩ := item
    simp only [Store.ingestEach, bind_eq_ok] at ok
    obtain ⟨⟨u, fresh⟩, hone, hrest⟩ := ok
    rw [List.map_cons, List.nodup_cons] at distinct
    obtain ⟨hhashes, hcount⟩ := ih distinct.2 hrest
    have hu := Store.hashes_ingestProxy hone
    have hfresh := (Store.ingestProxy_eq_ok.mp hone).2
    have hlater : (items.map fun item => item.1.configHash).filter (· ∉ u.hashes) =
        (items.map fun item => item.1.configHash).filter (· ∉ s.hashes) := by
      refine List.filter_congr fun hash hmem => ?_
      have hne : hash ≠ proxy.configHash := fun he => distinct.1 (he ▸ hmem)
      rw [hu]
      by_cases hknown : proxy.configHash ∈ s.hashes
      · simp [hknown]
      · simp [hknown, hne]
    rw [hlater] at hhashes hcount
    rw [hhashes, hcount, hu, hfresh, List.map_cons]
    by_cases hknown : proxy.configHash ∈ s.hashes
    · simp [hknown]
    · simp [hknown]
      omega

variable (count) in
/-- Identities that the store knows go through without new ids, and none is counted. -/
theorem Store.exists_ingestEach_known {items : List (ParsedProxy × Time × String)}
    (known : ∀ item ∈ items, item.1.configHash ∈ s.hashes) :
    ∃ t, s.ingestEach count items = .ok (t, count) := by
  induction items generalizing s with
  | nil => exact ⟨s, rfl⟩
  | cons item items ih =>
    obtain ⟨proxy, now, newId⟩ := item
    obtain ⟨row, -, u, -, -, hone⟩ := Store.exists_ingestProxy_known now newId 0
      (known _ List.mem_cons_self)
    have hu := Store.hashes_ingestProxy hone
    obtain ⟨t, ht⟩ := ih (s := u) fun item hitem => by
      rw [hu]
      exact List.mem_append_left _ (known item (List.mem_cons_of_mem _ hitem))
    refine ⟨t, ?_⟩
    simp only [Store.ingestEach, hone]
    exact ht

end Loops

section Imports

variable {s t : Store F} {lib : Libraries} {now : Time} {clock : ℕ → Time} {newId : ℕ → String}
  {configs : Text} {result : ManualImportResult}

variable (clock newId) in
omit [F64 F] in
theorem hashes_importPlan (proxies : List ParsedProxy) :
    (importPlan clock newId proxies).map (fun item => item.1.configHash) =
      proxies.map (·.configHash) := by
  exact List.ext_getElem (by simp [importPlan]) fun i h₁ h₂ => by simp [importPlan]

omit [F64 F] in
theorem hashes_recordInvalidConfigRejections (source : String) (rejected : List String) :
    (s.recordInvalidConfigRejections now source rejected).hashes = s.hashes := by
  obtain ⟨events, hevents⟩ := s.exists_recordInvalidConfigRejections now source rejected
  rw [hevents]
  rfl

theorem Store.manualImport_eq_ok :
    s.manualImport lib now clock newId configs = .ok (t, result) ↔
      ∃ inserted,
        (s.recordInvalidConfigRejections now "manual"
          (parseSubscription lib configs "manual").rejected).ingestEach 0
            (importPlan clock newId (parseSubscription lib configs "manual").accepted) =
              .ok (t, inserted) ∧
        result = ⟨(parseSubscription lib configs "manual").accepted.length,
          (parseSubscription lib configs "manual").rejected.length, inserted,
          (parseSubscription lib configs "manual").rejected⟩ := by
  simp only [Store.manualImport, bind_eq_ok, Except.ok.injEq, Prod.mk.injEq, Prod.exists]
  constructor
  · rintro ⟨u, inserted, hok, rfl, rfl⟩
    exact ⟨inserted, hok, rfl⟩
  · rintro ⟨inserted, hok, rfl⟩
    exact ⟨t, inserted, hok, rfl, rfl⟩

/-- The identities of a text, in the order in which the parser accepts them. -/
def acceptedHashes (lib : Libraries) (configs : Text) : List String :=
  (parseSubscription lib configs "manual").accepted.map (·.configHash)

/-- An import that goes through adds exactly the accepted identities that were new, in their
order, and counts them beside what the parser said. The same text imported again, at any time
and with any ids, goes through and adds nothing. -/
theorem manual_import_law (ok : s.manualImport lib now clock newId configs = .ok (t, result)) :
    t.hashes = s.hashes ++ (acceptedHashes lib configs).filter (· ∉ s.hashes) ∧
    result = ⟨(acceptedHashes lib configs).length,
      (parseSubscription lib configs "manual").rejected.length,
      ((acceptedHashes lib configs).filter (· ∉ s.hashes)).length,
      (parseSubscription lib configs "manual").rejected⟩ ∧
    ∀ now' clock' newId', ∃ u,
      t.manualImport lib now' clock' newId' configs = .ok (u, { result with inserted := 0 }) ∧
        u.hashes = t.hashes := by
  obtain ⟨inserted, hloop, rfl⟩ := Store.manualImport_eq_ok.mp ok
  have hreports : Reports lib "manual" (subscriptionLines configs)
      (parseSubscription lib configs "manual") := reports configs
  have distinct : (acceptedHashes lib configs).Nodup := hreports.distinct
  obtain ⟨hhashes, hcount⟩ := Store.hashes_ingestEach
    ((hashes_importPlan _ _ _).symm ▸ distinct) hloop
  rw [hashes_importPlan, hashes_recordInvalidConfigRejections] at hhashes hcount
  have hlength : (acceptedHashes lib configs).length =
      (parseSubscription lib configs "manual").accepted.length := List.length_map _
  refine ⟨hhashes, ?_, fun now' clock' newId' => ?_⟩
  · rw [hlength, hcount, Nat.zero_add]
    rfl
  · have hknown : ∀ hash ∈ acceptedHashes lib configs, hash ∈ t.hashes := by
      intro hash hmem
      rw [hhashes, List.mem_append, List.mem_filter]
      by_cases hold : hash ∈ s.hashes
      · exact .inl hold
      · exact .inr ⟨hmem, by simpa using hold⟩
    have hitems : ∀ item ∈ importPlan clock' newId'
        (parseSubscription lib configs "manual").accepted, item.1.configHash ∈
          (t.recordInvalidConfigRejections now' "manual"
            (parseSubscription lib configs "manual").rejected).hashes := by
      intro item hitem
      rw [hashes_recordInvalidConfigRejections]
      apply hknown
      rw [acceptedHashes, ← hashes_importPlan clock' newId']
      exact List.mem_map_of_mem hitem
    obtain ⟨u, hu⟩ := Store.exists_ingestEach_known 0 hitems
    refine ⟨u, Store.manualImport_eq_ok.mpr ⟨0, hu, rfl⟩, ?_⟩
    rw [(Store.hashes_ingestEach ((hashes_importPlan _ _ _).symm ▸ distinct) hu).1,
      hashes_importPlan, hashes_recordInvalidConfigRejections,
      List.filter_eq_nil_iff.mpr fun hash hmem => by simpa using hknown hash hmem,
      List.append_nil]

end Imports

section Feeds

variable {s t : Store F}

/-- A proxy that the store publishes under the same text. -/
def Store.Shows (s : Store F) (proxy : ParsedProxy) : Prop :=
  ∃ c ∈ s.nodes.map Node.feedColumns, c.configHash = proxy.configHash ∧
    c.rawConfig = proxy.rawConfig ∧ c.lifecycleState ≠ .retired

/-- An ingest of a text that is there already changes no column of the feed. -/
theorem Store.feedColumns_ingestProxy (keyed : s.WellKeyed) {proxy : ParsedProxy}
    (shown : s.Shows proxy) (now : Time) (newId : String) :
    ∃ t, s.ingestProxy now proxy newId 0 = .ok (t, false) ∧ t.WellKeyed ∧
      t.nodes.map Node.feedColumns = s.nodes.map Node.feedColumns ∧
      t.refreshRuns = s.refreshRuns := by
  obtain ⟨_, hc, hhash, hraw, hstate⟩ := shown
  obtain ⟨shown, hshown, rfl⟩ := List.mem_map.mp hc
  have hknown : proxy.configHash ∈ s.hashes := List.mem_map.mpr ⟨shown, hshown, hhash⟩
  obtain ⟨row, hr, t, hrow, hnodes, hone⟩ := Store.exists_ingestProxy_known now newId 0 hknown
  obtain rfl : row = shown :=
    RowUpdates.eq_of_key_eq keyed.hashes hr hshown (hrow.trans hhash.symm)
  obtain ⟨hsingle, -⟩ := Store.ingestProxy_eq_ok.mp hone
  refine ⟨t, hone, keyed.ingestOne hsingle, ?_, (Store.ingestOne_upstream hsingle).2.2⟩
  have hcolumns : (row.reingested now proxy 0).feedColumns = row.feedColumns := by
    have hsame : (row.reingested now proxy 0).lifecycleState = row.lifecycleState := if_neg hstate
    unfold Node.feedColumns
    rw [hsame]
    simp only [Node.reingested, FeedColumns.mk.injEq, and_true, true_and]
    exact hraw.symm
  rw [hnodes, Store.updateNodes, RowUpdates.updateWhere, List.map_map]
  refine List.map_congr_left fun other hother => ?_
  rw [Function.comp_apply]
  split
  · next hid =>
    obtain rfl : other = row :=
      RowUpdates.eq_of_key_eq keyed.ids hother hr (of_decide_eq_true hid)
    exact hcolumns
  · rfl

theorem Store.feedColumns_ingestEach {items : List (ParsedProxy × Time × String)}
    (keyed : s.WellKeyed) (shown : ∀ item ∈ items, s.Shows item.1) (count : ℕ) :
    ∃ t, s.ingestEach count items = .ok (t, count) ∧
      t.nodes.map Node.feedColumns = s.nodes.map Node.feedColumns ∧
      t.refreshRuns = s.refreshRuns := by
  induction items generalizing s with
  | nil => exact ⟨s, rfl, rfl, rfl⟩
  | cons item items ih =>
    obtain ⟨proxy, now, newId⟩ := item
    obtain ⟨u, hone, hkeyed, hcolumns, hruns⟩ :=
      Store.feedColumns_ingestProxy keyed (shown _ List.mem_cons_self) now newId
    obtain ⟨t, ht, hcolumns', hruns'⟩ := ih hkeyed fun item hitem => by
      unfold Store.Shows
      rw [hcolumns]
      exact shown item (List.mem_cons_of_mem _ hitem)
    refine ⟨t, ?_, hcolumns'.trans hcolumns, hruns'.trans hruns⟩
    simp only [Store.ingestEach, hone]
    exact ht

/-- Either file of a publication reads back as the published nodes. -/
theorem parsed_feed {lib : Libraries} (absolute : lib.AbsoluteUrls) (keyed : s.WellKeyed)
    (described : ∀ row ∈ s.nodes, DescribedBy lib row) {published : Time} {plain encoded : Text}
    (rendered : publishRendering (s.publicationSnapshot published) = some (plain, encoded))
    (source : String) :
    ∃ proxies : List ParsedProxy,
      proxies.map (·.configHash) = (s.publishedNodes published).map (·.configHash) ∧
      proxies.map (·.rawConfig) = (s.publishedNodes published).map (·.rawConfig) ∧
      ∀ body ∈ [plain, encoded], parseSubscription lib body source = ⟨proxies, []⟩ := by
  unfold publishRendering at rendered
  split at rendered
  · cases rendered
  · next hne =>
    obtain ⟨rfl, rfl⟩ := Prod.mk.inj (Option.some.inj rendered)
    have hlines := shareLines_snapshot absolute described hne
    obtain ⟨proxies, parsed, hraws, hhashes⟩ := exists_parsed (s.publishedNodes published)
      (fun row hr => described row (publishedNodes_subset published hr)) source
    have distinct : (proxies.map (·.configHash)).Nodup := by
      rw [hhashes]
      exact publishedNodes_hashes keyed published
    refine ⟨proxies, hhashes, hraws, ?_⟩
    simp only [List.forall_mem_cons, List.not_mem_nil, false_implies, implies_true, and_true]
    exact ⟨parseSubscription_lines (subscriptionLines_plain hlines) parsed distinct,
      parseSubscription_lines (subscriptionLines_base64 hlines) parsed distinct⟩

/-- A published node shows every proxy that has its identity and its text. -/
theorem shows_of_published {published : Time} {proxies : List ParsedProxy}
    (hhashes : proxies.map (·.configHash) = (s.publishedNodes published).map (·.configHash))
    (hraws : proxies.map (·.rawConfig) = (s.publishedNodes published).map (·.rawConfig)) :
    ∀ proxy ∈ proxies, s.Shows proxy := by
  intro proxy hproxy
  obtain ⟨i, hi, rfl⟩ := List.getElem_of_mem hproxy
  have hlength : proxies.length = (s.publishedNodes published).length := by
    simpa using congrArg List.length hhashes
  have hi' : i < (s.publishedNodes published).length := hlength ▸ hi
  have hrow := List.getElem_mem hi'
  have hhash := List.getElem_of_eq hhashes (by simpa using hi)
  have hraw := List.getElem_of_eq hraws (by simpa using hi)
  rw [List.getElem_map, List.getElem_map] at hhash hraw
  have hall : ∀ row ∈ s.publishedNodes published, row.publishable published = true := by
    intro row hmem
    rw [Store.publishedNodes, List.mem_insertionSort, List.mem_filter] at hmem
    exact hmem.2
  have hpublishable := hall _ hrow
  refine ⟨_, List.mem_map_of_mem (publishedNodes_subset published hrow), hhash.symm, hraw.symm, ?_⟩
  simp only [Node.publishable, Bool.and_eq_true, decide_eq_true_eq] at hpublishable
  exact hpublishable.2

/-- An import of either file of a publication accepts all of it, inserts nothing, and leaves
every snapshot as it was, at any time. -/
theorem import_of_feed {lib : Libraries} (absolute : lib.AbsoluteUrls) {ws : List (Write F)}
    (ingests : ∀ w ∈ ws, w.IngestsParsed lib) {published : Time} {plain encoded : Text}
    (rendered : publishRendering ((Store.empty.writes ws).publicationSnapshot published) =
      some (plain, encoded)) :
    ∀ body ∈ [plain, encoded], ∀ now clock newId, ∃ t,
      (Store.empty.writes ws).manualImport lib now clock newId body = .ok (t,
        ⟨((Store.empty.writes ws).publicationSnapshot published).rawConfigs.length, 0, 0, []⟩) ∧
      ∀ time, t.publicationSnapshot time = (Store.empty.writes ws).publicationSnapshot time := by
  intro body hbody now clock newId
  have keyed : (Store.empty.writes ws).WellKeyed := Store.wellKeyed_empty.writes ws
  obtain ⟨proxies, hhashes, hraws, hparsed⟩ :=
    parsed_feed absolute keyed (described_writes ingests) rendered "manual"
  have hshown := shows_of_published hhashes hraws
  have hitems : ∀ item ∈ importPlan clock newId proxies,
      (Store.empty.writes ws).Shows item.1 := by
    intro item hitem
    obtain ⟨i, hi, rfl⟩ := List.mem_mapIdx.mp hitem
    exact hshown _ (List.getElem_mem hi)
  obtain ⟨t, hloop, hcolumns, hruns⟩ := Store.feedColumns_ingestEach keyed hitems 0
  refine ⟨t, Store.manualImport_eq_ok.mpr ⟨0, ?_, ?_⟩, fun time => ?_⟩
  · rw [hparsed body hbody]
    exact hloop
  · have hlength : proxies.length =
        ((Store.empty.writes ws).publicationSnapshot published).rawConfigs.length := by
      simpa [Store.publicationSnapshot] using congrArg List.length hraws
    rw [hparsed body hbody, hlength]
    rfl
  · have hraw : (t.publicationSnapshot time).rawConfigs =
        ((Store.empty.writes ws).publicationSnapshot time).rawConfigs := by
      rw [Store.rawConfigs_publicationSnapshot, Store.rawConfigs_publicationSnapshot, hcolumns]
    have hgeneration : (t.publicationSnapshot time).generation =
        ((Store.empty.writes ws).publicationSnapshot time).generation := by
      rw [Store.publicationSnapshot, Store.publicationSnapshot, hruns]
    calc t.publicationSnapshot time
        = ⟨(t.publicationSnapshot time).generation, (t.publicationSnapshot time).rawConfigs⟩ := rfl
      _ = _ := by rw [hraw, hgeneration]

end Feeds

/-- The published sample comes back under its own name. -/
theorem import_of_feed_downloaded :
    ∃ plain encoded, ∃ t : Store ℚ,
      publishRendering ((Store.empty.writes downloadedRun).publicationSnapshot (minutes 2)) =
        some (plain, encoded) ∧
      (Store.empty.writes downloadedRun).manualImport sampleLibraries (minutes 3)
        (fun _ => minutes 3) (fun _ => "other") encoded = .ok (t, ⟨1, 0, 0, []⟩) ∧
      t.publicationSnapshot (minutes 4) =
        (Store.empty.writes downloadedRun).publicationSnapshot (minutes 4) := by
  have ingests : ∀ w ∈ downloadedRun, w.IngestsParsed sampleLibraries := by
    simp only [downloadedRun, List.forall_mem_cons]
    exact ⟨sampleProxy_parsed, trivial, List.forall_mem_nil _⟩
  have hne : ((Store.empty.writes downloadedRun).publicationSnapshot
      (minutes 2)).rawConfigs.length = 1 := by decide +kernel
  have hrender := publishRendering_of_nonempty (List.ne_nil_of_length_pos (hne ▸ Nat.one_pos))
  obtain ⟨t, hok, hsame⟩ := import_of_feed sampleLibraries_absolute ingests hrender _
    (List.mem_cons_of_mem _ List.mem_cons_self) (minutes 3) (fun _ => minutes 3) fun _ => "other"
  rw [hne] at hok
  exact ⟨_, _, t, hrender, hok, hsame (minutes 4)⟩

/-- The sample proxy and a line that is no share URL. -/
def mixedText : Text := "trojan://secret@host.example:443\nnonsense".toList

theorem manual_import_law_mixed :
    ∃ t u : Store ℚ, ∃ errors,
      Store.empty.manualImport sampleLibraries 0 (fun _ => 0) (fun _ => "node") mixedText =
        .ok (t, ⟨1, 1, 1, errors⟩) ∧
      t.manualImport sampleLibraries 1 (fun _ => 1) (fun _ => "node") mixedText =
        .ok (u, ⟨1, 1, 0, errors⟩) ∧ u.hashes = t.hashes := by
  have hok : ((Store.empty : Store ℚ).manualImport sampleLibraries 0 (fun _ => 0)
      (fun _ => "node") mixedText).isOk = true := by decide +kernel
  have hcounts : (acceptedHashes sampleLibraries mixedText).length = 1 ∧
      (parseSubscription sampleLibraries mixedText "manual").rejected.length = 1 ∧
      ((acceptedHashes sampleLibraries mixedText).filter
        (· ∉ (Store.empty : Store ℚ).hashes)).length = 1 := by decide +kernel
  cases himport : (Store.empty : Store ℚ).manualImport sampleLibraries 0 (fun _ => 0)
      (fun _ => "node") mixedText with
  | error error =>
    rw [himport] at hok
    cases hok
  | ok imported =>
    obtain ⟨t, result⟩ := imported
    obtain ⟨-, hresult, htwice⟩ := manual_import_law himport
    obtain ⟨u, hu, hsame⟩ := htwice 1 (fun _ => 1) fun _ => "node"
    rw [hcounts.1, hcounts.2.1, hcounts.2.2] at hresult
    subst hresult
    exact ⟨t, u, _, rfl, hu, hsame⟩

end ProxyFleet
