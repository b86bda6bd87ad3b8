import Mathlib.Tactic.NormNum
import ProxyFleet.ClientFeedback
import ProxyFleet.NodeSummaries
import ProxyFleet.OffsetPages
import ProxyFleet.PublishedFeed

/-!
# Pages of nodes and of client states

A listing counts the rows that its filters select and shows one page of them. The offset of
the page is a product of 64 bits, read as a signed number: a page far behind the end wraps to a
negative offset, and shows the first page again.
-/
namespace ProxyFleet

open OffsetPages

/-- `page.max(1)`. -/
def pageNumber (page : UInt64) : UInt64 := max page 1

/-- `page_size.clamp(1, 200)`. -/
def clampPageSize (pageSize : UInt64) : UInt64 :=
  if pageSize < 1 then 1 else if 200 < pageSize then 200 else pageSize

/-- `((page - 1) * page_size) as i64`. -/
def pageOffset (page pageSize : UInt64) : ℤ := castI64 ((page - 1) * pageSize).toNat

section Nodes

variable {F : Type}

/-- A row of `nodes`, with the text of the column that a summary shows decoded. -/
structure NodeRow (F : Type) extends ListedRow F where
  sourceSubsText : Text

structure NodeFilters where
  status : Option String := none
  country : Option String := none
  search : Option String := none
  source : Option String := none
  protocol : Option String := none
  failureClass : Option String := none

/-- `text LIKE pattern`: `%` stands for any text, `_` for any character, and ASCII letters
match in either case. -/
def like : Text → Text → Bool
  | [], text => text.isEmpty
  | '%' :: pattern, text => text.tails.any (like pattern)
  | '_' :: pattern, text => text.tail?.any (like pattern)
  | c :: pattern, text =>
    text.head?.any (fun d => c.toLower = d.toLower) && text.tail?.any (like pattern)

/-- A missing value is like no pattern. -/
def likeColumn (pattern : Text) (column : Option String) : Bool :=
  column.any fun value => like pattern value.toList

def nonEmpty (filter : Option String) : Option String := filter.filter fun value => value ≠ ""

/-- `%value%`. -/
def containing (value : String) : Text := '%' :: value.toList ++ ['%']

namespace NodeFilters

variable (filters : NodeFilters)

/-- The clauses of the `WHERE`, with their values bound. -/
def clauses : List (NodeRow F → Bool) :=
  ((nonEmpty filters.status).map fun status (row : NodeRow F) =>
    decide (row.lifecycleState = status)).toList ++
  ((nonEmpty filters.country).map fun country (row : NodeRow F) =>
    decide (row.exitCountry = country)).toList ++
  ((nonEmpty filters.search).map fun search (row : NodeRow F) =>
    like (containing search) row.rawConfig || like (containing search) row.configHash.toList ||
      like (containing search) row.exitCountry.toList ||
      likeColumn (containing search) row.exitOrg ||
      likeColumn (containing search) row.exitCity).toList ++
  ((nonEmpty filters.source).map fun source (row : NodeRow F) =>
    like (containing source) row.sourceSubsText).toList ++
  ((nonEmpty filters.protocol).map fun protocol (row : NodeRow F) =>
    like (toAsciiLowercase protocol.toList ++ [':', '%'])
      (toAsciiLowercase row.rawConfig)).toList ++
  ((nonEmpty filters.failureClass).map fun failureClass (row : NodeRow F) =>
    decide (row.lastFailureClass = some failureClass)).toList

def selects (row : NodeRow F) : Bool := filters.clauses.all fun clause => clause row

end NodeFilters

namespace NodeRow

/-- `CASE lifecycle_state …`. -/
def stateRank (row : NodeRow F) : ℕ :=
  if row.lifecycleState = "ACTIVE" then 0
  else if row.lifecycleState = "PROBATION" then 1
  else if row.lifecycleState = "CANDIDATE" then 2
  else 3

/-- A value comes before another in descending order, and missing ones come last. -/
def ahead {α : Type} (lt : α → α → Bool) : Option α → Option α → Bool
  | some a, some b => lt b a
  | some _, none => true
  | none, _ => false

/-- The `ORDER BY`. Tied rows stay in the order of the table. -/
def ListedBefore [F64 F] (a b : NodeRow F) : Prop :=
  a.stateRank < b.stateRank ∨ a.stateRank = b.stateRank ∧
    (ahead F64.lt a.healthScore b.healthScore = true ∨
      ahead F64.lt b.healthScore a.healthScore = false ∧
        ahead (fun s t : Time => decide (s < t)) b.lastTestAt a.lastTestAt = false)

instance [F64 F] : DecidableRel (ListedBefore (F := F)) :=
  fun _ _ => inferInstanceAs (Decidable (_ ∨ _ ∧ (_ ∨ _ ∧ _)))

end NodeRow

structure NodePage (F : Type) where
  total : ℕ
  page : UInt64
  pageSize : UInt64
  nodes : List (NodeSummary F)

variable (lib : Libraries) [F64 F]

/-- The rows that the filters select, in the order of the listing. -/
def listedNodes (rows : List (NodeRow F)) (filters : NodeFilters) : List (NodeRow F) :=
  (rows.filter filters.selects).insertionSort NodeRow.ListedBefore

def listNodes (rows : List (NodeRow F)) (page pageSize : UInt64) (filters : NodeFilters) :
    NodePage F :=
  let page := pageNumber page
  let pageSize := clampPageSize pageSize
  { total := rows.countP filters.selects
    page := page
    pageSize := pageSize
    nodes := (window (listedNodes rows filters) pageSize.toNat
      (pageOffset page pageSize)).map fun row => rowToSummary lib row.toListedRow }

end Nodes

section Clients

variable {F : Type}

/-- A state of a client with what is known of its node, if that is still there. -/
structure ClientStatusRow (F : Type) where
  client : String
  nodeId : String
  state : String
  failStreak : ℤ
  rateLimitStreak : ℤ
  cooldownUntil : Option Time
  usageCount : ℤ
  successCount : ℤ
  brokenCount : ℤ
  rateLimitedCount : ℤ
  successRateEwma : F
  lastAssignedAt : Option Time
  lastFeedbackAt : Option Time
  lifecycleState : Option LifecycleState
  mainPort : Option ℕ
  relayDelayMs : Option ℤ
  downloadKbps : Option ℤ
  healthScore : Option F

structure ClientPage (F : Type) where
  client : String
  page : UInt64
  pageSize : UInt64
  total : ℕ
  nodes : List (ClientStatusRow F)

namespace ClientNodeRow

/-- The newest feedback comes first, and a missing one last. -/
def FeedbackBefore (a b : ClientNodeRow F) : Prop :=
  NodeRow.ahead (fun s t : Time => decide (s < t)) b.lastFeedbackAt a.lastFeedbackAt = false

instance : DecidableRel (FeedbackBefore (F := F)) :=
  fun _ _ => inferInstanceAs (Decidable (_ = false))

/-- A joined row as the response shows it. -/
def toStatus [F64 F] (row : ClientNodeRow F) (node : Option (Node F)) : ClientStatusRow F where
  client := row.clientId
  nodeId := row.nodeId
  state := row.state
  failStreak := row.failStreak.getD 0
  rateLimitStreak := row.rateLimitStreak.getD 0
  cooldownUntil := row.cooldownUntil
  usageCount := row.usageCount.getD 0
  successCount := row.successCount.getD 0
  brokenCount := row.brokenCount.getD 0
  rateLimitedCount := row.rateLimitedCount.getD 0
  successRateEwma := row.successRateEwma.getD (F64.ofRat (1 / 2))
  lastAssignedAt := row.lastAssignedAt
  lastFeedbackAt := row.lastFeedbackAt
  lifecycleState := node.map (·.lifecycleState)
  mainPort := node.bind (·.mainPort)
  relayDelayMs := node.bind (·.relayDelayMs)
  downloadKbps := node.bind (·.downloadKbps)
  healthScore := node.map (·.healthScore)

end ClientNodeRow

variable [F64 F] (s : Store F) (states : List (ClientNodeRow F)) (client : String)

/-- The states of a client, in the order of the listing. -/
def statesOf : List (ClientNodeRow F) :=
  (states.filter fun row => row.clientId = client).insertionSort ClientNodeRow.FeedbackBefore

def clientStatus (page pageSize : UInt64) : ClientPage F :=
  let page := pageNumber page
  let pageSize := clampPageSize pageSize
  { client := client
    page := page
    pageSize := pageSize
    total := states.countP fun row => row.clientId = client
    nodes := (window (statesOf states client) pageSize.toNat (pageOffset page pageSize)).map
      fun row => row.toStatus (s.findNode row.nodeId) }

end Clients

/-- The listing holds everything that is selected, once. For all page numbers up to the last
one its length is the total, and the pages partition it. -/
structure PagesSound {α : Type} (selected listing : List α) (pageSize : UInt64)
    (total : UInt64 → ℕ) (nodes : UInt64 → List α) (last : UInt64) : Prop where
  rearranged : listing.Perm selected
  distinct : listing.Nodup
  total : ∀ page, page ≤ last → total page = listing.length
  partition : Partitions listing pageSize.toNat (fun page => nodes (.ofNat page)) last.toNat

/-- The pages of nodes, up to the last one asked for. -/
def NodesPaged {F : Type} [F64 F] (lib : Libraries) (rows : List (NodeRow F))
    (filters : NodeFilters) (pageSize last : UInt64) : Prop :=
  PagesSound ((rows.filter filters.selects).map fun row => rowToSummary lib row.toListedRow)
    ((listedNodes rows filters).map fun row => rowToSummary lib row.toListedRow)
    (clampPageSize pageSize) (fun page => (listNodes lib rows page pageSize filters).total)
    (fun page => (listNodes lib rows page pageSize filters).nodes) last

/-- The pages of the states of a client, up to the last one asked for. -/
def StatusesPaged {F : Type} [F64 F] (s : Store F) (states : List (ClientNodeRow F))
    (client : String) (pageSize last : UInt64) : Prop :=
  PagesSound ((states.filter fun row => row.clientId = client).map
      fun row => row.toStatus (s.findNode row.nodeId))
    ((statesOf states client).map fun row => row.toStatus (s.findNode row.nodeId))
    (clampPageSize pageSize) (fun page => (clientStatus s states client page pageSize).total)
    (fun page => (clientStatus s states client page pageSize).nodes) last

section Offsets

variable {page size : UInt64}

theorem pageNumber_of_pos (h : 1 ≤ page.toNat) : pageNumber page = page := by
  have hle : ¬ page ≤ 1 ∨ page = 1 := by
    rcases Nat.lt_or_ge 1 page.toNat with hlt | hge
    · exact .inl fun hle => absurd (UInt64.le_iff_toNat_le.mp hle) (Nat.not_le.mpr hlt)
    · exact .inr (UInt64.toNat_inj.mp (Nat.le_antisymm hge h))
  rcases hle with hle | rfl
  · exact if_neg hle
  · rfl

theorem clampPageSize_bounds (pageSize : UInt64) :
    1 ≤ (clampPageSize pageSize).toNat ∧ (clampPageSize pageSize).toNat ≤ 200 := by
  rw [clampPageSize]
  split
  · decide
  · split
    · decide
    · next hlow hhigh =>
      exact ⟨Nat.le_of_not_lt fun h => hlow (UInt64.lt_iff_toNat_lt.mpr h),
        Nat.le_of_not_lt fun h => hhigh (UInt64.lt_iff_toNat_lt.mpr h)⟩

theorem toNat_product (h : 1 ≤ page.toNat) :
    ((page - 1) * size).toNat = (page.toNat - 1) * size.toNat % 2 ^ 64 := by
  have hle : 1 ≤ page := UInt64.le_iff_toNat_le.mpr (by exact h)
  rw [UInt64.toNat_mul, UInt64.toNat_sub_of_le _ _ hle]
  rfl

/-- A product of 63 bits is the offset. -/
theorem pageOffset_of_lt (h : 1 ≤ page.toNat)
    (hsmall : (page.toNat - 1) * size.toNat < 2 ^ 63) :
    (pageOffset page size).toNat = (page.toNat - 1) * size.toNat := by
  have hword : (page.toNat - 1) * size.toNat < 2 ^ 64 := Nat.lt_trans hsmall (by decide)
  rw [pageOffset, toNat_product h, Nat.mod_eq_of_lt hword]
  exact toNat_castI64_of_lt hsmall

/-- With the sign bit set the offset counts as none. -/
theorem pageOffset_of_sign (h : 1 ≤ page.toNat)
    (hsign : 2 ^ 63 ≤ (page.toNat - 1) * size.toNat)
    (hword : (page.toNat - 1) * size.toNat < 2 ^ 64) : (pageOffset page size).toNat = 0 := by
  rw [pageOffset, toNat_product h, Nat.mod_eq_of_lt hword]
  exact toNat_castI64_of_sign hsign hword

/-- The first product with the sign bit set still has 64 bits. -/
theorem exists_signed_product {last : UInt64} (hsize : 1 ≤ size.toNat ∧ size.toNat ≤ 200)
    (h : 2 ^ 63 ≤ (last.toNat - 1) * size.toNat) :
    ∃ page, 1 ≤ page ∧ page ≤ last.toNat ∧ 2 ^ 63 ≤ (page - 1) * size.toNat ∧
      (page - 1) * size.toNat < 2 ^ 64 := by
  obtain ⟨hpos, hmax⟩ := hsize
  have hmod := Nat.mod_lt (2 ^ 63 + size.toNat - 1) hpos
  have hdiv := Nat.div_add_mod (2 ^ 63 + size.toNat - 1) size.toNat
  rw [Nat.mul_comm] at hdiv
  refine ⟨(2 ^ 63 + size.toNat - 1) / size.toNat + 1, Nat.le_add_left 1 _, ?_, ?_, ?_⟩
  · have hlast : (2 ^ 63 + size.toNat - 1) / size.toNat ≤ last.toNat - 1 := by
      apply Nat.le_of_lt_succ
      rw [Nat.div_lt_iff_lt_mul hpos, Nat.succ_mul]
      omega
    have hpositive : 0 < (2 ^ 63 + size.toNat - 1) / size.toNat :=
      Nat.div_pos (by omega) hpos
    omega
  · rw [Nat.add_sub_cancel]
    omega
  · rw [Nat.add_sub_cancel]
    omega

/-- Windows at the offsets of the pages partition a list of distinct members up to the last
page exactly if the list is empty or the offset of that page has 63 bits. -/
theorem partitions_windows_iff {α : Type} {l : List α} (hnodup : l.Nodup)
    (hsize : 1 ≤ size.toNat ∧ size.toNat ≤ 200) (last : UInt64) :
    Partitions l size.toNat (fun page =>
        window l size.toNat (pageOffset (pageNumber (.ofNat page)) size)) last.toNat ↔
      l = [] ∨ (last.toNat - 1) * size.toNat < 2 ^ 63 := by
  have hnumber : ∀ page, 1 ≤ page → page ≤ last.toNat →
      (UInt64.ofNat page).toNat = page ∧ pageNumber (.ofNat page) = .ofNat page := by
    intro page hpage hlast
    have htoNat : (UInt64.ofNat page).toNat = page :=
      UInt64.toNat_ofNat_of_lt' (Nat.lt_of_le_of_lt hlast last.toNat_lt)
    exact ⟨htoNat, pageNumber_of_pos (htoNat.symm ▸ hpage)⟩
  rw [partitions_iff]
  constructor
  · intro hpages
    by_contra hnot
    rw [not_or, Nat.not_lt] at hnot
    obtain ⟨page, hpage, hlast, hsign, hword⟩ := exists_signed_product hsize hnot.2
    obtain ⟨htoNat, hpageNumber⟩ := hnumber page hpage hlast
    have hoffset : (pageOffset (.ofNat page) size).toNat = 0 := by
      apply pageOffset_of_sign
      · rwa [htoNat]
      · rwa [htoNat]
      · rwa [htoNat]
    have hwindow := hpages page hpage hlast
    rw [hpageNumber, window_eq_slice_iff hnodup hsize.1, hoffset] at hwindow
    rcases hwindow with h | ⟨h, -⟩
    · omega
    · exact hnot.1 (List.length_eq_zero_iff.mp (Nat.le_zero.mp h))
  · rintro (rfl | hsmall) page hpage hlast
    · simp [window, slice]
    · obtain ⟨htoNat, hpageNumber⟩ := hnumber page hpage hlast
      have hpageSmall : (page - 1) * size.toNat < 2 ^ 63 :=
        Nat.lt_of_le_of_lt (Nat.mul_le_mul_right _ (Nat.sub_le_sub_right hlast 1)) hsmall
      show window l size.toNat (pageOffset (pageNumber (.ofNat page)) size) = _
      rw [hpageNumber, window_eq_slice_iff hnodup hsize.1, pageOffset_of_lt, htoNat]
      · exact .inl rfl
      · rwa [htoNat]
      · rwa [htoNat]

/-- A listing of distinct rows is paged soundly exactly if nothing is selected or the offset of
the last page has 63 bits. -/
theorem pagesSound_iff {α β : Type} {selected listing : List α} (f : α → β)
    (hperm : listing.Perm selected) (hdistinct : (listing.map f).Nodup)
    (hsize : 1 ≤ size.toNat ∧ size.toNat ≤ 200) (last : UInt64) :
    PagesSound (selected.map f) (listing.map f) size (fun _ => selected.length)
        (fun page => (window listing size.toNat (pageOffset (pageNumber page) size)).map f) last ↔
      selected = [] ∨ (last.toNat - 1) * size.toNat < 2 ^ 63 := by
  have hempty : listing.map f = [] ↔ selected = [] := by
    rw [List.map_eq_nil_iff, ← List.length_eq_zero_iff, hperm.length_eq,
      List.length_eq_zero_iff]
  have hpages : (fun page => (window listing size.toNat
      (pageOffset (pageNumber (.ofNat page)) size)).map f) = fun page =>
        window (listing.map f) size.toNat (pageOffset (pageNumber (.ofNat page)) size) := by
    funext page
    exact map_window f listing size.toNat _
  have hpartition := partitions_windows_iff hdistinct hsize last
  rw [hempty, ← hpages] at hpartition
  constructor
  · intro h
    exact hpartition.mp h.partition
  · intro h
    constructor
    · exact hperm.map f
    · exact hdistinct
    · intro page _
      rw [List.length_map, hperm.length_eq]
    · exact hpartition.mpr h

end Offsets

section Listings

variable {F : Type} {lib : Libraries} {rows : List (NodeRow F)} {filters : NodeFilters}
  {s : Store F} {states : List (ClientNodeRow F)} {client : String} {pageSize last : UInt64}

theorem listedNodes_perm [F64 F] : (listedNodes rows filters).Perm (rows.filter filters.selects) :=
  List.perm_insertionSort _ _

theorem statesOf_perm :
    (statesOf states client).Perm (states.filter fun row => row.clientId = client) :=
  List.perm_insertionSort _ _

/-- Members with distinct keys stay distinct in what shows the key. -/
theorem nodup_map_of_key {α β κ : Type} {selected listing l : List α} (f : α → β) (key : α → κ)
    (keyOf : β → κ) (hshown : ∀ x, keyOf (f x) = key x) (hperm : listing.Perm selected)
    (hsublist : selected.Sublist l) (hkeys : (l.map key).Nodup) : (listing.map f).Nodup := by
  have hselected : (selected.map key).Nodup := hkeys.sublist (hsublist.map key)
  have hlisting : (listing.map key).Nodup := (hperm.map key).nodup_iff.mpr hselected
  have hcomp : (listing.map f).map keyOf = listing.map key := by
    rw [List.map_map]
    exact List.map_congr_left fun x _ => hshown x
  exact List.Nodup.of_map keyOf (hcomp ▸ hlisting)

theorem nodesPaged_iff [F64 F] (hkeys : (rows.map (·.id)).Nodup) :
    NodesPaged lib rows filters pageSize last ↔
      (∀ row ∈ rows, filters.selects row = false) ∨
        (last.toNat - 1) * (clampPageSize pageSize).toNat < 2 ^ 63 := by
  have hperm : (listedNodes rows filters).Perm (rows.filter filters.selects) := listedNodes_perm
  have hdistinct := nodup_map_of_key (fun row => rowToSummary lib row.toListedRow) (·.id) (·.id)
    (fun _ => rfl) hperm List.filter_sublist hkeys
  have hsound := pagesSound_iff _ hperm hdistinct (clampPageSize_bounds pageSize) last
  have htotal : (fun page => (listNodes lib rows page pageSize filters).total) =
      fun _ => (rows.filter filters.selects).length := by
    funext page
    exact List.countP_eq_length_filter
  rw [NodesPaged, htotal]
  refine hsound.trans (or_congr ?_ Iff.rfl)
  rw [List.filter_eq_nil_iff]
  exact forall₂_congr fun row _ => Bool.eq_false_iff.symm

theorem statusesPaged_iff [F64 F]
    (hkeys : (states.map fun row => (row.clientId, row.nodeId)).Nodup) :
    StatusesPaged s states client pageSize last ↔
      (∀ row ∈ states, row.clientId ≠ client) ∨
        (last.toNat - 1) * (clampPageSize pageSize).toNat < 2 ^ 63 := by
  have hperm : (statesOf states client).Perm (states.filter fun row => row.clientId = client) :=
    statesOf_perm
  have hdistinct := nodup_map_of_key (fun row => row.toStatus (s.findNode row.nodeId))
    (fun row => (row.clientId, row.nodeId)) (fun status => (status.client, status.nodeId))
    (fun _ => rfl) hperm List.filter_sublist hkeys
  have hsound := pagesSound_iff _ hperm hdistinct (clampPageSize_bounds pageSize) last
  have htotal : (fun page => (clientStatus s states client page pageSize).total) =
      fun _ => (states.filter fun row => row.clientId = client).length := by
    funext page
    exact List.countP_eq_length_filter
  rw [StatusesPaged, htotal]
  refine hsound.trans (or_congr ?_ Iff.rfl)
  rw [List.filter_eq_nil_iff]
  exact forall₂_congr fun row _ => by rw [decide_eq_true_iff]

/-- Up to any page number the pages partition what is listed exactly if nothing is or the offset
of the last page has 63 bits. -/
theorem pages_partition_iff [F64 F] (lib : Libraries) {rows : List (NodeRow F)}
    (hids : (rows.map (·.id)).Nodup) (filters : NodeFilters) (s : Store F)
    {states : List (ClientNodeRow F)}
    (hkeys : (states.map fun row => (row.clientId, row.nodeId)).Nodup) (client : String)
    (pageSize last : UInt64) :
    (NodesPaged lib rows filters pageSize last ↔
      (∀ row ∈ rows, filters.selects row = false) ∨
        (last.toNat - 1) * (clampPageSize pageSize).toNat < 2 ^ 63) ∧
    (StatusesPaged s states client pageSize last ↔
      (∀ row ∈ states, row.clientId ≠ client) ∨
        (last.toNat - 1) * (clampPageSize pageSize).toNat < 2 ^ 63) :=
  ⟨nodesPaged_iff hids, statusesPaged_iff hkeys⟩

end Listings

/-- A row of the sample server. -/
def sampleNodeRow : NodeRow ℚ where
  id := "node"
  configHash := "1894755e72756d0e7178756b6b0b05b5bef4a59be2e8e898017e53f31a598d4a"
  rawConfig := "trojan://secret@host.example:443".toList
  sourceSubs := ["manual"]
  sourceSubsText := "[\"manual\"]".toList
  lifecycleState := "ACTIVE"
  status := "ACTIVE"
  exitCountry := ""

def sampleStatusRow : ClientNodeRow ℚ where
  clientId := "client"
  nodeId := "node"
  state := "CLOSED"
  failStreak := some 0
  rateLimitStreak := some 0
  cooldownUntil := none
  successRateEwma := some 1

/-- Three nodes, of which the filter selects two. -/
def sampleNodeRows : List (NodeRow ℚ) :=
  [sampleNodeRow, { sampleNodeRow with id := "idle", lifecycleState := "DORMANT" },
    { sampleNodeRow with id := "other" }]

def sampleStatusRows : List (ClientNodeRow ℚ) :=
  [sampleStatusRow, { sampleStatusRow with nodeId := "other" },
    { sampleStatusRow with clientId := "another" }]

/-- Two pages of one node each, and two pages of one state each. -/
theorem pages_partition_iff_sample :
    (NodesPaged sampleLibraries sampleNodeRows { status := some "ACTIVE" } 1 2 ↔
      (∀ row ∈ sampleNodeRows,
        ({ status := some "ACTIVE" } : NodeFilters).selects row = false) ∨
        ((2 : UInt64).toNat - 1) * (clampPageSize 1).toNat < 2 ^ 63) ∧
    (StatusesPaged { nodes := [] } sampleStatusRows "client" 1 2 ↔
      (∀ row ∈ sampleStatusRows, row.clientId ≠ "client") ∨
        ((2 : UInt64).toNat - 1) * (clampPageSize 1).toNat < 2 ^ 63) :=
  pages_partition_iff sampleLibraries (by decide) { status := some "ACTIVE" }
    { nodes := [] } (by decide) "client" 1 2

/-- The page 2 ^ 63 + 1 of one node is its first page again. -/
theorem first_page_is_shown_again :
    (listNodes sampleLibraries [sampleNodeRow] 9223372036854775809 1 {}).nodes =
      (listNodes sampleLibraries [sampleNodeRow] 1 1 {}).nodes ∧
    (listNodes sampleLibraries [sampleNodeRow] 9223372036854775809 1 {}).nodes.length = 1 ∧
    ¬ NodesPaged sampleLibraries [sampleNodeRow] {} 1 18446744073709551615 := by
  have hlisted : listedNodes [sampleNodeRow] {} = [sampleNodeRow] := rfl
  have hnodes : ∀ page, (pageOffset (pageNumber page) (clampPageSize 1)).toNat = 0 →
      (listNodes sampleLibraries [sampleNodeRow] page 1 {}).nodes =
        [rowToSummary sampleLibraries sampleNodeRow.toListedRow] := by
    intro page hoffset
    simp only [listNodes, hlisted, window, hoffset]
    rfl
  have hwrapped : (pageOffset (pageNumber 9223372036854775809) (clampPageSize 1)).toNat = 0 := by
    decide +kernel
  have hfirst : (pageOffset (pageNumber 1) (clampPageSize 1)).toNat = 0 := by decide +kernel
  refine ⟨?_, ?_, fun hpaged => ?_⟩
  · rw [hnodes _ hwrapped, hnodes _ hfirst]
  · rw [hnodes _ hwrapped, List.length_singleton]
  · rcases (nodesPaged_iff (by decide)).mp hpaged with hnone | hsmall
    · have hselected : ({} : NodeFilters).selects sampleNodeRow = true := rfl
      rw [hnone sampleNodeRow List.mem_cons_self] at hselected
      cases hselected
    · revert hsmall
      decide +kernel

end ProxyFleet
