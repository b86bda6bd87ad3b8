import ProxyFleet.StoreRuns
import ProxyFleet.SubscriptionParser

/-!
# The published feed

The publisher renders a snapshot as a plain text and as its base64 encoding. A row
keeps the text of its last ingest, which has the identity that the row was found
by, so a reader of either file gets the snapshot back.
-/
namespace ProxyFleet

variable {F : Type}

open TextLines

/-- The content of `active-raw.txt`. -/
def renderRaw (configs : List Text) : Text := joinLines configs ++ ['\n']

/-- The content of `active.txt`. -/
def renderEncoded (configs : List Text) : Text :=
  Base64.encode Base64.standard true (utf8Encode (renderRaw configs)) ++ ['\n']

/-- The two files of a publication, none while no row is leased. -/
def publishRendering (snapshot : PublicationSnapshot) : Option (Text × Text) :=
  if snapshot.rawConfigs = [] then none
  else some (renderRaw snapshot.rawConfigs, renderEncoded snapshot.rawConfigs)

theorem publishRendering_of_nonempty {snapshot : PublicationSnapshot}
    (h : snapshot.rawConfigs ≠ []) : publishRendering snapshot =
      some (renderRaw snapshot.rawConfigs, renderEncoded snapshot.rawConfigs) := if_neg h

/-- A proxy that the parser made of a single line. -/
def ParsedFromLine (lib : Libraries) (proxy : ParsedProxy) : Prop :=
  ∃ raw source, '\n' ∉ raw ∧ parseShareUrl lib raw source = .ok proxy

/-- An ingest takes its proxies from the parser. -/
def Write.IngestsParsed (lib : Libraries) : Write F → Prop
  | .ingestOne _ proxy _ _ => ParsedFromLine lib proxy
  | _ => True

/-- The text of a row has the identity of the row. -/
def DescribedBy (lib : Libraries) (row : Node F) : Prop :=
  ∃ proxy, ParsedFromLine lib proxy ∧ row.rawConfig = proxy.rawConfig ∧
    row.configHash = proxy.configHash

section Rows

variable [F64 F] {lib : Libraries}

theorem DescribedBy.step {s : Store F} {w : Write F} {row row' : Node F}
    (h : DescribedBy lib row) (ingests : w.IngestsParsed lib) (hs : RowStep s w row row') :
    DescribedBy lib row' := by
  cases hs with
  | reingested row hash => exact ⟨_, ingests, rfl, hash⟩
  | _ => exact h

theorem described_writes {ws : List (Write F)} (ingests : ∀ w ∈ ws, w.IngestsParsed lib) :
    ∀ row ∈ (Store.empty.writes ws).nodes, DescribedBy lib row := by
  refine rows_law (A := Write.IngestsParsed lib) (P := DescribedBy lib) ?_ ?_ ingests
  · intro s w row hw hi
    cases hi
    exact ⟨_, hw, rfl, rfl⟩
  · intro s w row row' hw _ _ h hs
    exact h.step hw hs

omit [F64 F] in
/-- The parser gives a row back its identity, whatever the source is called. -/
theorem DescribedBy.parse {row : Node F} (h : DescribedBy lib row) (source : String) :
    ∃ proxy, parseShareUrl lib row.rawConfig source = .ok proxy ∧
      proxy.rawConfig = row.rawConfig ∧ proxy.configHash = row.configHash := by
  obtain ⟨proxy, ⟨raw, origin, -, hparse⟩, hraw, hash⟩ := h
  rw [hraw]
  exact ⟨_, parseShareUrl_rawConfig hparse source, rfl, hash.symm⟩

end Rows

section Snapshots

variable [F64 F] {lib : Libraries} {s : Store F}

theorem publishedNodes_subset (now : Time) : s.publishedNodes now ⊆ s.nodes := by
  intro row hr
  rw [Store.publishedNodes, List.mem_insertionSort] at hr
  exact List.mem_of_mem_filter hr

theorem publishedNodes_hashes (hk : s.WellKeyed) (now : Time) :
    ((s.publishedNodes now).map (·.configHash)).Nodup := by
  have hperm := (List.perm_insertionSort Node.PublishedBefore
    (s.nodes.filter fun row => row.publishable now)).map (·.configHash)
  exact hperm.nodup_iff.mpr (hk.hashes.sublist (List.filter_sublist.map _))

/-- The texts of a snapshot are lines of share URLs. -/
theorem shareLines_snapshot (absolute : lib.AbsoluteUrls)
    (described : ∀ row ∈ s.nodes, DescribedBy lib row) {now : Time}
    (hne : (s.publicationSnapshot now).rawConfigs ≠ []) :
    ShareLines (s.publicationSnapshot now).rawConfigs := by
  have hline : ∀ config ∈ (s.publicationSnapshot now).rawConfigs,
      Line config ∧ ':' ∈ config ∧ config.head? ≠ some '#' := by
    intro config hc
    obtain ⟨row, hr, rfl⟩ := List.mem_map.mp hc
    obtain ⟨proxy, ⟨raw, source, single, hparse⟩, hraw, -⟩ :=
      described row (publishedNodes_subset now hr)
    rw [hraw]
    exact line_of_parseShareUrl absolute hparse single
  exact ⟨hne, fun config hc => (hline config hc).1, fun config hc => (hline config hc).2.1,
    fun config hc => (hline config hc).2.2⟩

omit [F64 F] in
/-- The proxies that the parser makes of the rows of a snapshot. -/
theorem exists_parsed (rows : List (Node F)) (described : ∀ row ∈ rows, DescribedBy lib row)
    (source : String) :
    ∃ proxies : List ParsedProxy,
      (rows.map (·.rawConfig)).map (parseShareUrl lib · source) = proxies.map .ok ∧
      proxies.map (·.rawConfig) = rows.map (·.rawConfig) ∧
      proxies.map (·.configHash) = rows.map (·.configHash) := by
  induction rows with
  | nil => exact ⟨[], rfl, rfl, rfl⟩
  | cons row rows ih =>
    obtain ⟨proxies, hparse, hraws, hashes⟩ :=
      ih fun r hr => described r (List.mem_cons_of_mem _ hr)
    obtain ⟨proxy, hp, hraw, hash⟩ := (described row List.mem_cons_self).parse source
    refine ⟨proxy :: proxies, ?_, ?_, ?_⟩
    · simp only [List.map_cons, hp, hparse]
    · simp only [List.map_cons, hraw, hraws]
    · simp only [List.map_cons, hash, hashes]

/-- A reader accepts the lines of a snapshot, all of them and in their order. -/
theorem parseSubscription_lines {configs : List Text} {proxies : List ParsedProxy}
    {source : String} {payload : Text} (hlines : subscriptionLines payload = configs)
    (parsed : configs.map (parseShareUrl lib · source) = proxies.map .ok)
    (distinct : (proxies.map (·.configHash)).Nodup) :
    parseSubscription lib payload source = { accepted := proxies, rejected := [] } := by
  rw [parseSubscription, hlines, foldl_parseLine parsed _ _ distinct (by simp)]
  simp

end Snapshots

variable [F64 F]

/-- The published feed round trip: the text of every row has the identity of the row, and
either file of a publication reads back as exactly the configurations of the snapshot. -/
theorem published_feed_round_trip {lib : Libraries} (absolute : lib.AbsoluteUrls)
    {ws : List (Write F)} (ingests : ∀ w ∈ ws, w.IngestsParsed lib) :
    (∀ row ∈ (Store.empty.writes ws).nodes, ∀ source,
      ∃ proxy, parseShareUrl lib row.rawConfig source = .ok proxy ∧
        proxy.configHash = row.configHash) ∧
    ∀ now source plain encoded,
      publishRendering ((Store.empty.writes ws).publicationSnapshot now) = some (plain, encoded) →
      ∃ proxies : List ParsedProxy,
        ((Store.empty.writes ws).publicationSnapshot now).rawConfigs.map
          (parseShareUrl lib · source) = proxies.map .ok ∧
        proxies.map (·.rawConfig) =
          ((Store.empty.writes ws).publicationSnapshot now).rawConfigs ∧
        (proxies.map (·.configHash)).Nodup ∧
        parseSubscription lib plain source = { accepted := proxies, rejected := [] } ∧
        parseSubscription lib encoded source = { accepted := proxies, rejected := [] } := by
  have described := described_writes ingests
  refine ⟨fun row hr source => ?_, ?_⟩
  · obtain ⟨proxy, hparse, -, hash⟩ := (described row hr).parse source
    exact ⟨proxy, hparse, hash⟩
  · intro now source plain encoded hrender
    set s := Store.empty.writes ws with hs
    unfold publishRendering at hrender
    split at hrender
    · cases hrender
    next hne =>
      obtain ⟨rfl, rfl⟩ := Prod.mk.inj (Option.some.inj hrender)
      have hlines := shareLines_snapshot absolute described hne
      obtain ⟨proxies, parsed, hraws, hashes⟩ := exists_parsed (s.publishedNodes now)
        (fun row hr => described row (publishedNodes_subset now hr)) source
      have distinct : (proxies.map (·.configHash)).Nodup := by
        rw [hashes]
        exact publishedNodes_hashes (Store.wellKeyed_empty.writes ws) now
      exact ⟨proxies, parsed, hraws, distinct,
        parseSubscription_lines (subscriptionLines_plain hlines) parsed distinct,
        parseSubscription_lines (subscriptionLines_base64 hlines) parsed distinct⟩

/-- The libraries on the sample proxy. -/
def sampleLibraries : Libraries where
  parseUrl raw :=
    if raw = "trojan://secret@host.example:443".toList then
      .ok {
        scheme := "trojan".toList
        username := "secret".toList
        password := none
        hostStr := some "host.example".toList
        port := some 443
        path := []
        query := none
        fragment := none }
    else .error "relative URL without a base"
  parseForm bytes := if bytes = [] then [] else [("secret".toList, [])]
  isUuid _ := false
  parseJsonMap _ := none
  jsonToVec _ := utf8Encode ("\x7b\"address\":\"host.example\",\"params\":\x7b\x7d," ++
    "\"password\":\"\",\"path\":\"\",\"port\":443,\"protocol\":\"trojan\"," ++
    "\"user\":\"secret\"\x7d").toList
  sha256 _ := "1894755e72756d0e7178756b6b0b05b5bef4a59be2e8e898017e53f31a598d4a"
  utf8Error _ := "invalid utf-8 sequence of 1 bytes from index 0"

theorem sampleLibraries_absolute : sampleLibraries.AbsoluteUrls := by
  intro raw url h
  simp only [sampleLibraries] at h
  split at h
  · next hraw => exact ⟨"trojan".toList, "//secret@host.example:443".toList, hraw, by decide⟩
  · cases h

theorem sampleProxy_parsed : ParsedFromLine sampleLibraries sampleProxy :=
  ⟨"trojan://secret@host.example:443".toList, "feed", by decide, by rfl⟩

/-- A download leases the sample node. -/
def downloadedRun : List (Write ℚ) := [
  .ingestOne 0 sampleProxy "node" 1,
  .applyTestEvent (minutes 1) (sampleEvent "first" .download .success) defaultCadence 0]

theorem published_feed_round_trip_downloaded :
    ∃ plain encoded proxies,
      publishRendering ((Store.empty.writes downloadedRun).publicationSnapshot (minutes 2)) =
        some (plain, encoded) ∧
      parseSubscription sampleLibraries plain "feed" = { accepted := proxies, rejected := [] } ∧
      parseSubscription sampleLibraries encoded "feed" =
        { accepted := proxies, rejected := [] } := by
  have ingests : ∀ w ∈ downloadedRun, w.IngestsParsed sampleLibraries := by
    intro w hw
    simp only [downloadedRun, List.mem_cons, List.not_mem_nil, or_false] at hw
    rcases hw with rfl | rfl
    · exact sampleProxy_parsed
    · trivial
  have hne :
      ((Store.empty.writes downloadedRun).publicationSnapshot (minutes 2)).rawConfigs ≠ [] := by
    decide +kernel
  have hrender := publishRendering_of_nonempty hne
  obtain ⟨proxies, -, -, -, hplain, hencoded⟩ :=
    (published_feed_round_trip sampleLibraries_absolute ingests).2 _ "feed" _ _ hrender
  exact ⟨_, _, proxies, hrender, hplain, hencoded⟩

end ProxyFleet
