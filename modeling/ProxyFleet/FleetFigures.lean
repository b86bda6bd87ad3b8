import Mathlib.Algebra.BigOperators.Group.List.Lemmas
import ProxyFleet.NodePages

/-!
# The figures of the dashboard

The dashboard shows how many nodes there are, how many are in each state, and one page of those
that its filters select, with the number of pages. The figures agree with the listing and with
the feed. The pages that it offers partition the listing, since none of them is far enough behind
for its offset to wrap.
-/
namespace ProxyFleet

open OffsetPages TextLines

section Groups

variable {κ : Type*} [DecidableEq κ]

/-- `SELECT key, COUNT(*) … GROUP BY key`. -/
def groupCounts (keys : List κ) : List (κ × ℕ) := keys.dedup.map fun key => (key, keys.count key)

theorem lookup_map_key (keys : List κ) (f : κ → ℕ) (key : κ) :
    (keys.map fun k => (k, f k)).lookup key = if key ∈ keys then some (f key) else none := by
  induction keys with
  | nil => rfl
  | cons k keys ih =>
    rw [List.map_cons, List.lookup_cons, ih]
    by_cases hkey : key = k
    · subst hkey
      simp
    · simp [hkey, beq_eq_false_iff_ne.mpr hkey]

/-- A key that is in no group is counted as none. -/
theorem lookup_groupCounts (keys : List κ) (key : κ) :
    ((groupCounts keys).lookup key).getD 0 = keys.count key := by
  rw [groupCounts, lookup_map_key]
  split
  · rfl
  · rename_i habsent
    rw [List.mem_dedup] at habsent
    exact (List.count_eq_zero_of_not_mem habsent).symm

theorem sum_groupCounts (keys : List κ) : ((groupCounts keys).map Prod.snd).sum = keys.length := by
  rw [groupCounts, List.map_map]
  exact List.sum_map_count_dedup_eq_length keys

end Groups

structure FleetCounts where
  total : ℕ
  candidate : ℕ
  testing : ℕ
  active : ℕ
  probation : ℕ
  dormant : ℕ
  invalid : ℕ
  retired : ℕ
  waitingForPort : ℕ
  publishable : ℕ

namespace FleetCounts

def take (values : List (LifecycleState × ℕ)) (key : LifecycleState) : ℕ :=
  (values.lookup key).getD 0

/-- The figure of a state. -/
def ofState (counts : FleetCounts) : LifecycleState → ℕ
  | .candidate => counts.candidate
  | .testing => counts.testing
  | .active => counts.active
  | .probation => counts.probation
  | .dormant => counts.dormant
  | .invalid => counts.invalid
  | .retired => counts.retired
  | .waitingForPort => counts.waitingForPort

/-- The figures of the response, with the old names of two states. -/
def statusCounts (counts : FleetCounts) : List (String × ℕ) := [
  ("ACTIVE", counts.active), ("PROBATION", counts.probation), ("CANDIDATE", counts.candidate),
  ("TESTING", counts.testing), ("DORMANT", counts.dormant), ("DEAD", counts.dormant),
  ("INVALID", counts.invalid), ("RETIRED", counts.retired), ("REMOVED", counts.retired),
  ("WAITING_FOR_PORT", counts.waitingForPort)]

end FleetCounts

section Figures

variable {F : Type}

def Store.counts (s : Store F) (now : Time) : FleetCounts :=
  let counts := groupCounts (s.nodes.map (·.lifecycleState))
  { total := (counts.map Prod.snd).sum
    candidate := FleetCounts.take counts .candidate
    testing := FleetCounts.take counts .testing
    active := FleetCounts.take counts .active
    probation := FleetCounts.take counts .probation
    dormant := FleetCounts.take counts .dormant
    invalid := FleetCounts.take counts .invalid
    retired := FleetCounts.take counts .retired
    waitingForPort := FleetCounts.take counts .waitingForPort
    publishable := s.nodes.countP fun row => row.publishable now }

structure NodeQuery where
  page : Option UInt64 := none
  pageSize : Option UInt64 := none
  status : Option String := none
  country : Option String := none
  search : Option String := none
  source : Option String := none
  protocol : Option String := none
  failureClass : Option String := none

structure NodesResponse (F : Type) where
  totalNodes : ℕ
  filteredTotal : ℕ
  page : UInt64
  pageSize : UInt64
  totalPages : ℕ
  statusCounts : List (String × ℕ)
  nodes : List (NodeSummary F)

/-- `u64::div_ceil`. -/
def divCeil (n d : ℕ) : ℕ := if 0 < n % d then n / d + 1 else n / d

def totalPages (total : ℕ) (pageSize : UInt64) : ℕ := max (divCeil (max total 1) pageSize.toNat) 1

namespace NodeQuery

def nonEmpty (value : Option String) : Option String :=
  value.bind fun value =>
    let trimmed := trim isWhitespace value.toList
    if trimmed.isEmpty then none else some (String.ofList trimmed)

def filters (query : NodeQuery) : NodeFilters where
  status := nonEmpty query.status
  country := nonEmpty query.country
  search := nonEmpty query.search
  source := nonEmpty query.source
  protocol := nonEmpty query.protocol
  failureClass := nonEmpty query.failureClass

/-- The response to a query. No write comes between the listing and the figures. -/
def nodes [F64 F] (query : NodeQuery) (lib : Libraries) (s : Store F) (rows : List (NodeRow F))
    (now : Time) : NodesResponse F :=
  let result := listNodes lib rows (query.page.getD 1) (query.pageSize.getD 50) query.filters
  let counts := s.counts now
  { totalNodes := counts.total
    filteredTotal := result.total
    page := result.page
    pageSize := result.pageSize
    totalPages := totalPages result.total result.pageSize
    statusCounts := counts.statusCounts
    nodes := result.nodes }

/-- The same query for another page. -/
def onPage (query : NodeQuery) (page : ℕ) : NodeQuery :=
  { query with page := some (.ofNat page) }

end NodeQuery

/-- The row that the listing reads for a node. -/
structure ShownAs (node : Node F) (row : NodeRow F) : Prop where
  id : row.id = node.id
  lifecycleState : row.lifecycleState = node.lifecycleState.asStr

end Figures

section Agreement

variable {F : Type}

theorem asStr_injective : Function.Injective LifecycleState.asStr := by
  intro a b h
  cases a <;> cases b <;> first | rfl | simp [LifecycleState.asStr] at h

theorem counts_ofState (s : Store F) (now : Time) (state : LifecycleState) :
    (s.counts now).ofState state = (s.nodes.map (·.lifecycleState)).count state := by
  cases state <;> exact lookup_groupCounts _ _

theorem counts_total (s : Store F) (now : Time) : (s.counts now).total = s.nodes.length :=
  (sum_groupCounts _).trans (List.length_map _)

/-- Every node is in one of the states. -/
theorem length_eq_counts (states : List LifecycleState) : states.length =
    states.count .candidate + states.count .testing + states.count .active +
      states.count .probation + states.count .dormant + states.count .invalid +
      states.count .retired + states.count .waitingForPort := by
  induction states with
  | nil => rfl
  | cons state states ih =>
    rw [List.length_cons, ih]
    cases state <;> simp <;> omega

/-- A figure is the total of the listing of its state. -/
theorem count_state_eq {nodes : List (Node F)} {rows : List (NodeRow F)}
    (shown : List.Forall₂ ShownAs nodes rows) (state : LifecycleState) :
    (nodes.map (·.lifecycleState)).count state =
      rows.countP fun row => decide (row.lifecycleState = state.asStr) := by
  induction shown with
  | nil => rfl
  | cons hshown _ ih =>
    rw [List.map_cons, List.count_cons, List.countP_cons, ih, hshown.lifecycleState]
    congr 1
    simp [asStr_injective.eq_iff]

theorem selects_status (row : NodeRow F) (state : LifecycleState) :
    ({ status := some state.asStr } : NodeFilters).selects row =
      decide (row.lifecycleState = state.asStr) := by
  have hnonempty : nonEmpty (some state.asStr) = some state.asStr := by
    cases state <;> rfl
  have hnone : nonEmpty none = none := rfl
  simp [NodeFilters.selects, NodeFilters.clauses, hnonempty, hnone]

end Agreement

section Pages

variable {n d : ℕ}

theorem le_divCeil_mul (hd : 0 < d) (n : ℕ) : n ≤ divCeil n d * d := by
  have hdiv := Nat.div_add_mod n d
  have hmod := Nat.mod_lt n hd
  unfold divCeil
  rw [Nat.mul_comm] at hdiv
  split
  · rw [Nat.succ_mul]
    omega
  · omega

theorem divCeil_pred_mul_lt (hn : 0 < n) (d : ℕ) : (divCeil n d - 1) * d < n := by
  have hdiv := Nat.div_add_mod n d
  unfold divCeil
  rw [Nat.mul_comm] at hdiv
  split
  · rw [Nat.add_sub_cancel]
    omega
  · rw [Nat.sub_mul]
    rcases Nat.eq_zero_or_pos d with rfl | hd
    · omega
    · omega

theorem divCeil_pos (hn : 0 < n) (hd : 0 < d) : 0 < divCeil n d := by
  have hle := le_divCeil_mul hd n
  rcases Nat.eq_zero_or_pos (divCeil n d) with hzero | hpos
  · rw [hzero] at hle
    omega
  · exact hpos

/-- The last page that is offered begins in front of the end, and ends behind it. -/
theorem totalPages_spec (total : ℕ) {size : UInt64} (hsize : 1 ≤ size.toNat) :
    1 ≤ totalPages total size ∧ total ≤ totalPages total size * size.toNat ∧
      (totalPages total size - 1) * size.toNat < max total 1 ∧
      totalPages total size ≤ max total 1 := by
  have htotal : 0 < max total 1 := by omega
  have hpos := divCeil_pos htotal hsize
  have hmax : totalPages total size = divCeil (max total 1) size.toNat := max_eq_left hpos
  have hcover := le_divCeil_mul hsize (max total 1)
  have hlast := divCeil_pred_mul_lt htotal size.toNat
  rw [hmax]
  refine ⟨hpos, by omega, hlast, ?_⟩
  have hpages : divCeil (max total 1) size.toNat - 1 ≤
      (divCeil (max total 1) size.toNat - 1) * size.toNat := Nat.le_mul_of_pos_right _ hsize
  omega

end Pages

section Dashboard

variable {F : Type} [F64 F] (lib : Libraries) {s : Store F} {rows : List (NodeRow F)} (now : Time)

/-- The summaries that a query selects, in the order of the listing. -/
def NodeQuery.selected (query : NodeQuery) (rows : List (NodeRow F)) : List (NodeSummary F) :=
  (listedNodes rows query.filters).map fun row => rowToSummary lib row.toListedRow

theorem length_selected (query : NodeQuery) :
    (query.selected lib rows).length = rows.countP query.filters.selects := by
  rw [NodeQuery.selected, List.length_map, listedNodes_perm.length_eq, List.countP_eq_length_filter]

/-- Each page that is offered is a slice of what is selected. -/
theorem offered_page (hids : (rows.map (·.id)).Nodup) (hcount : rows.length < 2 ^ 63)
    (query : NodeQuery) {page : ℕ} (hpage : 1 ≤ page)
    (hoffered : page ≤ (query.nodes lib s rows now).totalPages) :
    ((query.onPage page).nodes lib s rows now).nodes =
      slice (query.selected lib rows) (query.nodes lib s rows now).pageSize.toNat page := by
  have hsize := (clampPageSize_bounds (query.pageSize.getD 50)).1
  have htotal : rows.countP query.filters.selects ≤ rows.length := List.countP_le_length
  obtain ⟨-, -, hlast, hbound⟩ := totalPages_spec (rows.countP query.filters.selects) hsize
  have htoNat : (UInt64.ofNat (query.nodes lib s rows now).totalPages).toNat =
      (query.nodes lib s rows now).totalPages := by
    apply UInt64.toNat_ofNat_of_lt'
    exact hbound.trans_lt (show max (rows.countP query.filters.selects) 1 < 2 ^ 64 by omega)
  have hpaged : NodesPaged lib rows query.filters (query.pageSize.getD 50)
      (.ofNat (query.nodes lib s rows now).totalPages) := by
    refine (nodesPaged_iff hids).mpr (.inr ?_)
    rw [htoNat]
    exact hlast.trans_le (by omega)
  refine partitions_iff.mp hpaged.partition page hpage ?_
  rw [htoNat]
  exact hoffered

theorem slice_ne_nil {α : Type*} {l : List α} {size page : ℕ} (hsize : 0 < size)
    (hstart : (page - 1) * size < l.length) : slice l size page ≠ [] := by
  intro hnil
  have hlength := congrArg List.length hnil
  rw [slice, List.length_take, List.length_drop, List.length_nil] at hlength
  omega

/-- Every state has its figure in the response, which is the total of its listing. -/
theorem statusCounts_lookup (shown : List.Forall₂ ShownAs s.nodes rows)
    (state : LifecycleState) :
    (s.counts now).statusCounts.lookup state.asStr =
      some (listNodes lib rows 1 1 { status := some state.asStr }).total := by
  have hfigure : (s.counts now).statusCounts.lookup state.asStr =
      some ((s.counts now).ofState state) := by
    cases state <;> rfl
  rw [hfigure, counts_ofState, count_state_eq shown]
  congr 1
  apply List.countP_congr
  intro row _
  rw [selects_status]

theorem publishable_eq (s : Store F) :
    (s.counts now).publishable = (s.publicationSnapshot now).rawConfigs.length := by
  show s.nodes.countP _ = ((s.publishedNodes now).map _).length
  rw [List.length_map, Store.publishedNodes, (List.perm_insertionSort _ _).length_eq,
    List.countP_eq_length_filter]

/-- The figures of the dashboard agree with the listing and with the feed: each node is counted
in one state. The pages that it offers, each with at most as many nodes as it says and none empty
unless nothing is selected, join to all that the query selects. -/
theorem figures_agree (shown : List.Forall₂ ShownAs s.nodes rows)
    (hids : (rows.map (·.id)).Nodup) (hcount : rows.length < 2 ^ 63) (query : NodeQuery) :
    let response := query.nodes lib s rows now
    let counts := s.counts now
    let page := fun n => ((query.onPage n).nodes lib s rows now).nodes
    (response.totalNodes = rows.length ∧
      rows.length = counts.candidate + counts.testing + counts.active + counts.probation +
        counts.dormant + counts.invalid + counts.retired + counts.waitingForPort ∧
      (∀ state : LifecycleState, response.statusCounts.lookup state.asStr =
        some (listNodes lib rows 1 1 { status := some state.asStr }).total) ∧
      counts.publishable = (s.publicationSnapshot now).rawConfigs.length) ∧
    (List.range response.totalPages).flatMap (fun i => page (i + 1)) =
      query.selected lib rows ∧
    (query.selected lib rows).length = response.filteredTotal ∧
    ∀ n, 1 ≤ n → n ≤ response.totalPages → (page n).length ≤ response.pageSize.toNat ∧
      (query.selected lib rows ≠ [] → page n ≠ []) := by
  intro response counts page
  have hsize := (clampPageSize_bounds (query.pageSize.getD 50)).1
  have hselected : (query.selected lib rows).length = rows.countP query.filters.selects :=
    length_selected lib query
  obtain ⟨-, hcover, hlast, -⟩ :=
    totalPages_spec (rows.countP query.filters.selects) hsize
  have hpage : ∀ n, 1 ≤ n → n ≤ response.totalPages →
      page n = slice (query.selected lib rows) response.pageSize.toNat n := fun n hn hoffered =>
    offered_page lib now hids hcount query hn hoffered
  refine ⟨⟨?_, ?_, statusCounts_lookup lib now shown, publishable_eq now s⟩, ?_, hselected, ?_⟩
  · exact (counts_total s now).trans shown.length_eq
  · have hstates := length_eq_counts (s.nodes.map (·.lifecycleState))
    simp only [← counts_ofState s now] at hstates
    rw [List.length_map] at hstates
    exact shown.length_eq.symm.trans hstates
  · have hpages : (List.range response.totalPages).flatMap (fun i => page (i + 1)) =
        (List.range response.totalPages).flatMap fun i =>
          slice (query.selected lib rows) response.pageSize.toNat (i + 1) := by
      apply List.flatMap_congr
      intro i hi
      exact hpage (i + 1) (Nat.le_add_left 1 i) (List.mem_range.mp hi)
    rw [hpages, flatMap_slice]
    apply List.take_of_length_le
    rw [hselected]
    exact hcover
  · intro n hn hoffered
    rw [hpage n hn hoffered]
    refine ⟨List.length_take_le _ _, fun hne => slice_ne_nil hsize ?_⟩
    have hpos := List.length_pos_iff.mpr hne
    have hbefore : (n - 1) * response.pageSize.toNat ≤
        (response.totalPages - 1) * response.pageSize.toNat :=
      Nat.mul_le_mul_right _ (Nat.sub_le_sub_right hoffered 1)
    rw [hselected] at hpos ⊢
    exact hbefore.trans_lt (hlast.trans_le (by omega))

end Dashboard

section Examples

def activeNode : Node ℚ where
  id := "node"
  configHash := sampleNodeRow.configHash
  rawConfig := sampleNodeRow.rawConfig
  sourceSubs := ["manual"]
  lifecycleState := .active
  healthAlpha := 1
  healthBeta := 1
  healthScore := 1 / 2
  createdAt := 0

/-- A node in service and a retired one. -/
def twoNodes : Store ℚ where
  nodes := [activeNode, { activeNode with id := "other", lifecycleState := .retired }]

def twoRows : List (NodeRow ℚ) :=
  [sampleNodeRow, { sampleNodeRow with id := "other", lifecycleState := "RETIRED" }]

theorem figures_agree_two :
    let query : NodeQuery := { pageSize := some 1 }
    (query.nodes sampleLibraries twoNodes twoRows 0).totalPages = 2 ∧
      (query.nodes sampleLibraries twoNodes twoRows 0).statusCounts.lookup "RETIRED" =
        some (listNodes sampleLibraries twoRows 1 1 { status := some "RETIRED" }).total ∧
      (List.range 2).flatMap (fun i =>
          ((query.onPage (i + 1)).nodes sampleLibraries twoNodes twoRows 0).nodes) =
        query.selected sampleLibraries twoRows := by
  intro query
  have hshown : List.Forall₂ ShownAs twoNodes.nodes twoRows :=
    .cons ⟨rfl, rfl⟩ (.cons ⟨rfl, rfl⟩ .nil)
  obtain ⟨⟨-, -, hfigures, -⟩, hjoined, -⟩ :=
    figures_agree sampleLibraries 0 hshown (by decide) (by decide) query
  have hpages : (query.nodes sampleLibraries twoNodes twoRows 0).totalPages = 2 := by
    decide +kernel
  rw [hpages] at hjoined
  exact ⟨hpages, hfigures .retired, hjoined⟩

end Examples

end ProxyFleet
