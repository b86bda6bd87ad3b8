import ProxyFleet.StoreRuns
import ProxyFleet.VipScores
import Mathlib.Algebra.Order.Field.Basic
import Mathlib.Data.Prod.Lex
import Mathlib.Data.String.Basic

/-!
# The choice of the VIP node

The query orders the nodes by health, and looks at download, delay and hash only among nodes
of the same health. The score that is compared later weighs health against download, latency
and low use, each at its own rate. So the choice is right as long as no node makes up by the
three for the health that it lacks; where it just does, rounding decides.
-/
namespace ProxyFleet

open RoundedArithmetic F64.Rounded

variable {F : Type} [F64 F] [F64.Rounded F]

namespace Node

/-- The order of the query as one key. -/
def vipKey (row : Node F) : ℚᵒᵈ ×ₗ ℤᵒᵈ ×ₗ ℤ ×ₗ String :=
  toLex (OrderDual.toDual (val row.healthScore), toLex (OrderDual.toDual
    (row.downloadKbps.getD 0), toLex (row.relayDelayMs.getD 999999, row.configHash)))

theorem vipBefore_iff {a b : Node F} : VipBefore a b ↔ a.vipKey ≤ b.vipKey := by
  simp only [vipKey, Prod.Lex.toLex_le_toLex, OrderDual.toDual_lt_toDual,
    EmbeddingLike.apply_eq_iff_eq]
  simp only [VipBefore, lt_iff, lt_eq_false_iff]
  constructor
  · rintro (h | ⟨h, hrest⟩)
    · exact .inl h
    · rcases h.lt_or_eq with h | h
      · exact .inl h
      · exact .inr ⟨h.symm, hrest⟩
  · rintro (h | ⟨h, hrest⟩)
    · exact .inl h
    · exact .inr ⟨h.ge, hrest⟩

instance : Std.Total (VipBefore (F := F)) where
  total a b := by
    rw [vipBefore_iff, vipBefore_iff]
    exact le_total _ _

instance : IsTrans (Node F) VipBefore where
  trans _ _ _ hab hbc := vipBefore_iff.mpr ((vipBefore_iff.mp hab).trans (vipBefore_iff.mp hbc))

theorem configHash_of_vipBefore {a b : Node F} (hab : VipBefore a b) (hba : VipBefore b a) :
    a.configHash = b.configHash := by
  have hkey : a.vipKey = b.vipKey := le_antisymm (vipBefore_iff.mp hab) (vipBefore_iff.mp hba)
  have hpair := toLex.injective hkey
  exact congrArg (fun key => (ofLex (ofLex key.2).2).2) hpair

/-- The download that counts, in kbps. -/
def countedKbps (row : Node F) : ℤ := max 0 (min 1000 (row.downloadKbps.getD 0))

/-- The delay that counts, in milliseconds. -/
def countedDelay (row : Node F) : ℤ := max 0 (min 3000 (row.relayDelayMs.getD 3000))

/-- By how much the columns put one node before another: 0.55 for health, 0.22 for 1000 kbps,
0.15 for three seconds and 0.08 for the share of uses. -/
def vipLead (a b : Node F) (usesA usesB : ℕ) : ℚ :=
  (val a.healthScore - val b.healthScore) * (55 / 100) +
    ((a.countedKbps - b.countedKbps : ℤ) : ℚ) / 1000 * (22 / 100) +
    ((b.countedDelay - a.countedDelay : ℤ) : ℚ) / 3000 * (15 / 100) +
    ((usesB : ℚ) - usesA) / ((1 + usesA) * (1 + usesB)) * (8 / 100)

/-- In no column that the score weighs is `a` better than `b`. -/
structure NoBetter (a b : Node F) (usesA usesB : ℕ) : Prop where
  health : val a.healthScore ≤ val b.healthScore
  kbps : a.countedKbps ≤ b.countedKbps
  delay : b.countedDelay ≤ a.countedDelay
  uses : usesB ≤ usesA

instance (a b : Node F) (usesA usesB : ℕ) : Decidable (a.NoBetter b usesA usesB) :=
  decidable_of_iff (val a.healthScore ≤ val b.healthScore ∧ a.countedKbps ≤ b.countedKbps ∧
    b.countedDelay ≤ a.countedDelay ∧ usesB ≤ usesA)
    ⟨fun ⟨health, kbps, delay, uses⟩ => ⟨health, kbps, delay, uses⟩,
      fun ⟨health, kbps, delay, uses⟩ => ⟨health, kbps, delay, uses⟩⟩

/-- The columns as the statements fill them. -/
structure Measured (row : Node F) : Prop where
  health : 0 ≤ val row.healthScore ∧ val row.healthScore ≤ 1
  kbps : ∀ n, row.downloadKbps = some n → IsI64 n
  delay : ∀ n, row.relayDelayMs = some n → IsI64 n

section Columns

variable {row : Node F}

theorem Measured.kbps_i64 (h : row.Measured) : IsI64 (row.downloadKbps.getD 0) := by
  cases hkbps : row.downloadKbps with
  | none => exact ⟨by norm_num, by norm_num⟩
  | some n => exact h.kbps n hkbps

theorem Measured.delay_i64 (h : row.Measured) : IsI64 (row.relayDelayMs.getD 3000) := by
  cases hdelay : row.relayDelayMs with
  | none => exact ⟨by norm_num, by norm_num⟩
  | some n => exact h.delay n hdelay

omit [F64 F] [F64.Rounded F] in
theorem unit_kbps : unit (row.downloadKbps.getD 0 / 1000) = (row.countedKbps : ℚ) / 1000 := by
  rw [countedKbps, unit]
  push_cast
  rw [← max_div_div_right (by norm_num), ← min_div_div_right (by norm_num), zero_div,
    div_self (by norm_num)]

omit [F64 F] [F64.Rounded F] in
theorem unit_delay :
    unit (1 - row.relayDelayMs.getD 3000 / 3000) = 1 - (row.countedDelay : ℚ) / 3000 := by
  rw [countedDelay, unit]
  push_cast
  rw [← max_div_div_right (by norm_num), ← min_div_div_right (by norm_num), zero_div,
    div_self (by norm_num)]
  rcases le_total ((row.relayDelayMs.getD 3000 : ℚ) / 3000) 0 with hneg | hpos
  · rw [min_eq_left (by linarith), min_eq_right (by linarith), max_eq_right (by linarith),
      max_eq_left hneg]
    ring
  · rcases le_total 1 ((row.relayDelayMs.getD 3000 : ℚ) / 3000) with hlarge | hsmall
    · rw [min_eq_right (by linarith), max_eq_left (by linarith), min_eq_left hlarge,
        max_eq_right (by linarith)]
      ring
    · rw [min_eq_right (by linarith), max_eq_right (by linarith), min_eq_right hsmall,
        max_eq_right hpos]

/-- The score lies within 64 roundoffs of what the columns are worth. -/
theorem vipScore_near (h : row.Measured) {uses : ℕ} (huses : uses < 2 ^ 63) :
    |val (Store.vipScore row uses) - (val row.healthScore * (55 / 100) +
      (row.countedKbps : ℚ) / 1000 * (22 / 100) + (1 - (row.countedDelay : ℚ) / 3000) * (15 / 100) +
        1 / (1 + uses) * (8 / 100))| ≤ 64 * (rounding F).roundoff := by
  rw [val_vipScore h.health h.kbps_i64 h.delay_i64 huses, ← unit_kbps, ← unit_delay]
  exact (rounding F).vipScore_error h.health h.kbps_i64.abs_cast_le h.delay_i64.abs_cast_le huses

end Columns

section Pairs

variable {a b : Node F} {usesA usesB : ℕ} (ha : a.Measured) (hb : b.Measured)
  (husesA : usesA < 2 ^ 63) (husesB : usesB < 2 ^ 63)
include ha hb husesA husesB

/-- The scores of two nodes differ by the lead, up to 128 roundoffs. -/
theorem vipScore_sub_near :
    |val (Store.vipScore a usesA) - val (Store.vipScore b usesB) - a.vipLead b usesA usesB| ≤
      128 * (rounding F).roundoff := by
  obtain ⟨hal, har⟩ := abs_le.mp (vipScore_near ha husesA)
  obtain ⟨hbl, hbr⟩ := abs_le.mp (vipScore_near hb husesB)
  have huse : ((usesB : ℚ) - usesA) / ((1 + usesA) * (1 + usesB)) =
      1 / (1 + usesA) - 1 / (1 + usesB) := by
    have hposA : (1 : ℚ) + usesA ≠ 0 := by positivity
    have hposB : (1 : ℚ) + usesB ≠ 0 := by positivity
    field_simp
    ring
  rw [vipLead, huse, abs_le]
  push_cast
  constructor <;> linarith

/-- A node that is better in no column has no higher score, whatever is rounded. -/
theorem NoBetter.score_le (h : a.NoBetter b usesA usesB) :
    val (Store.vipScore a usesA) ≤ val (Store.vipScore b usesB) := by
  rw [val_vipScore ha.health ha.kbps_i64 ha.delay_i64 husesA,
    val_vipScore hb.health hb.kbps_i64 hb.delay_i64 husesB]
  exact (rounding F).vipScore_mono h.health h.kbps h.delay h.uses

end Pairs

theorem val_half : 0 ≤ val (F64.ofRat (1 / 2) : F) ∧ val (F64.ofRat (1 / 2) : F) ≤ 1 := by
  rw [val_ofRat (by norm_num [abs_le])]
  exact ⟨(rounding F).round_nonneg (by norm_num), (rounding F).round_le_one (by norm_num)⟩

/-- The score of an event lies in the unit interval. -/
theorem val_health (alpha beta : F) :
    0 ≤ val (health alpha beta) ∧ val (health alpha beta) ≤ 1 := by
  simp only [health]
  split
  · exact val_half
  · rw [val_clamp_unit]
    exact ⟨unit_nonneg _, unit_le_one _⟩

/-- Every row of a reachable store is measured. -/
theorem measured_writes (ws : List (Write F)) :
    ∀ row ∈ (Store.empty.writes ws).nodes, row.Measured := by
  refine rows_law (A := fun _ => True) (P := Measured) ?_ ?_ fun _ _ => trivial
  · intro s w row _ hi
    cases hi
    exact ⟨val_half, by simp [ingested], by simp [ingested]⟩
  · intro s w row row' _ _ _ h hs
    have hround : ∀ {x : Option F} {column : Option ℤ} {n : ℤ}, (∀ n, column = some n → IsI64 n) →
        (x.map F64.round <|> column) = some n → IsI64 n := by
      intro x column n hcolumn hn
      cases x with
      | none => exact hcolumn n hn
      | some x => exact Option.some.inj hn ▸ F64.Rounded.round_i64 x
    cases hs with
    | applied row own fresh =>
      refine ⟨val_health _ _, fun n hn => ?_, fun n hn => ?_⟩
      · rename_i event _ _
        refine hround (x := event.downloadBps.map fun bps => F64.div bps (F64.ofRat 1024)) h.kbps ?_
        rw [Option.map_map]
        exact hn
      · exact hround h.delay hn
    | kept | port | metadata | seeded | reingested | claimed | released | waiting | missed
    | missedRetired | retired | seenAgain | dormantRevived | revived | scheduled =>
      exact ⟨h.health, h.kbps, h.delay⟩

end Node

namespace Store

/-- The uses of a node that its score counts. -/
def vipUsage (tables : ClientTables F) (now : Time) (row : Node F) : ℕ :=
  tables.usageSince row.id (now - minutes 5)

/-- The first row of the query for the VIP node. -/
def vipRow (s : Store F) (now : Time) : Option (Node F) :=
  ((s.nodes.filter fun row => row.selectable now).insertionSort Node.VipBefore).head?

omit [F64.Rounded F] in
theorem bestVipCandidate_eq (s : Store F) (tables : ClientTables F)
    (now : Time) : s.bestVipCandidate tables now = (s.vipRow now).map fun row =>
      ⟨row.id, row.rawConfig, vipScore row (vipUsage tables now row)⟩ := rfl

omit [F64.Rounded F] in
theorem bestVipCandidate_of_vipRow {s : Store F} {tables : ClientTables F}
    {now : Time} {row : Node F} (h : s.vipRow now = some row) :
    s.bestVipCandidate tables now =
      some ⟨row.id, row.rawConfig, vipScore row (vipUsage tables now row)⟩ := by
  rw [bestVipCandidate_eq, h, Option.map_some]

omit [F64.Rounded F] in
theorem exists_vipRow {s : Store F} {now : Time}
    (h : ∃ row ∈ s.nodes, row.selectable now = true) :
    ∃ first ∈ s.nodes, first.selectable now = true ∧ s.vipRow now = some first := by
  obtain ⟨row, hrow, hselectable⟩ := h
  cases hfirst : s.vipRow now with
  | none =>
    have hmem : row ∈ (s.nodes.filter fun row => row.selectable now).insertionSort
        Node.VipBefore := by
      rw [List.mem_insertionSort, List.mem_filter]
      exact ⟨hrow, hselectable⟩
    rw [List.head?_eq_none_iff.mp hfirst] at hmem
    cases hmem
  | some first =>
    have hmem := List.mem_of_mem_head? hfirst
    rw [List.mem_insertionSort, List.mem_filter] at hmem
    exact ⟨first, hmem.1, hmem.2, rfl⟩

variable (s : Store F) (tables : ClientTables F) (now : Time)

/-- Some node is chosen if any is eligible, and no eligible node has a higher score. -/
def MaximisesVipScore : Prop :=
  (∃ row ∈ s.nodes, row.selectable now = true) →
    ∃ candidate, s.bestVipCandidate tables now = some candidate ∧
      ∃ row ∈ s.nodes, row.selectable now = true ∧ row.id = candidate.id ∧
        vipScore row (vipUsage tables now row) = candidate.score ∧
        ∀ other ∈ s.nodes, other.selectable now = true →
          F64.lt candidate.score (vipScore other (vipUsage tables now other)) = false

/-- Beside the first node in the order every other one is no better in any column, or is behind
by at least `margin` in all columns together. -/
def LeadsBy (margin : ℚ) : Prop :=
  ∀ first ∈ s.nodes, first.selectable now = true →
    (∀ other ∈ s.nodes, other.selectable now = true → Node.VipBefore first other) →
    ∀ other ∈ s.nodes, other.selectable now = true →
      other.NoBetter first (vipUsage tables now other) (vipUsage tables now first) ∨
        margin ≤ first.vipLead other (vipUsage tables now first) (vipUsage tables now other)

instance (margin : ℚ) : Decidable (s.LeadsBy tables now margin) :=
  inferInstanceAs (Decidable (∀ first ∈ s.nodes, _ → (∀ other ∈ s.nodes, _ → _) →
    ∀ other ∈ s.nodes, _ → _))

variable {s tables now}

omit [F64 F] [F64.Rounded F] in
/-- A count of rows is a 64-bit integer, as long as the table is. -/
theorem vipUsage_lt (h : tables.usage.length < 2 ^ 63) (now : Time) (row : Node F) :
    vipUsage tables now row < 2 ^ 63 :=
  (List.countP_le_length).trans_lt h

/-- The first row comes before every eligible one. -/
theorem vipBefore_of_vipRow {first other : Node F} (hfirst : s.vipRow now = some first)
    (hother : other ∈ s.nodes) (hselectable : other.selectable now = true) :
    Node.VipBefore first other := by
  obtain ⟨rest, hlist⟩ := List.head?_eq_some_iff.mp hfirst
  have hsorted := List.pairwise_insertionSort Node.VipBefore
    (s.nodes.filter fun row => row.selectable now)
  have hmem : other ∈ (s.nodes.filter fun row => row.selectable now).insertionSort
      Node.VipBefore := by
    rw [List.mem_insertionSort, List.mem_filter]
    exact ⟨hother, hselectable⟩
  rw [hlist] at hsorted hmem
  rcases List.mem_cons.mp hmem with rfl | hrest
  · exact (Std.Total.total other other).elim id id
  · exact (List.pairwise_cons.mp hsorted).1 other hrest

/-- The choice maximises its score if the first node leads by 128 roundoffs beside every node that
is better in some column, and only if it is nowhere behind by more than as many. -/
theorem maximisesVipScore_of_lead (keyed : s.WellKeyed) (measured : ∀ row ∈ s.nodes, row.Measured)
    (counted : tables.usage.length < 2 ^ 63) :
    (s.LeadsBy tables now (128 * (rounding F).roundoff) → s.MaximisesVipScore tables now) ∧
      (s.MaximisesVipScore tables now → s.LeadsBy tables now (-128 * (rounding F).roundoff)) := by
  have hnear : ∀ a ∈ s.nodes, ∀ b ∈ s.nodes, _ := fun a ha b hb =>
    abs_le.mp (Node.vipScore_sub_near (measured a ha) (measured b hb)
      (vipUsage_lt counted now a) (vipUsage_lt counted now b))
  constructor
  · intro hleads heligible
    obtain ⟨first, hfirst, hselectable, hrowFirst⟩ := exists_vipRow heligible
    refine ⟨_, bestVipCandidate_of_vipRow hrowFirst, first, hfirst, hselectable, rfl, rfl, ?_⟩
    intro other hother hotherSelectable
    rw [lt_eq_false_iff]
    rcases hleads first hfirst hselectable (fun row => vipBefore_of_vipRow hrowFirst) other hother
      hotherSelectable with hno | hlead
    · exact hno.score_le (measured other hother) (measured first hfirst)
        (vipUsage_lt counted now other) (vipUsage_lt counted now first)
    · have hclose := (hnear first hfirst other hother).1
      linarith
  · intro hmaximal first hfirst hselectable hleast other hother hotherSelectable
    obtain ⟨row, hrow, hrowSelectable, hrowFirst⟩ := exists_vipRow ⟨first, hfirst, hselectable⟩
    obtain rfl : first = row :=
      RowUpdates.eq_of_key_eq keyed.hashes hfirst hrow (Node.configHash_of_vipBefore
        (hleast row hrow hrowSelectable) (vipBefore_of_vipRow hrowFirst hfirst hselectable))
    obtain ⟨candidate, hcandidate, -, -, -, -, -, hle⟩ := hmaximal ⟨first, hfirst, hselectable⟩
    rw [bestVipCandidate_of_vipRow hrowFirst] at hcandidate
    obtain rfl := Option.some.inj hcandidate
    have hscore := hle other hother hotherSelectable
    rw [lt_eq_false_iff] at hscore
    have hclose := (hnear first hfirst other hother).2
    exact .inr (by linarith)

/-- Without rounding the two bounds meet. -/
theorem maximisesVipScore_iff_of_exact (exact : (rounding F).roundoff = 0) (keyed : s.WellKeyed)
    (measured : ∀ row ∈ s.nodes, row.Measured) (counted : tables.usage.length < 2 ^ 63) :
    s.MaximisesVipScore tables now ↔ s.LeadsBy tables now 0 := by
  have h : (s.LeadsBy tables now (128 * (rounding F).roundoff) → s.MaximisesVipScore tables now) ∧
      (s.MaximisesVipScore tables now → s.LeadsBy tables now (-128 * (rounding F).roundoff)) :=
    maximisesVipScore_of_lead keyed measured counted
  rw [exact, mul_zero, mul_zero] at h
  exact ⟨h.2, h.1⟩

end Store

/-- An eligible node with its measurements. -/
def measuredRow (id : String) (healthScore : ℚ) (downloadKbps relayDelayMs : ℤ) : Node ℚ where
  id := id
  configHash := id
  rawConfig := []
  sourceSubs := []
  status := .active
  lifecycleState := .active
  healthAlpha := 1
  healthBeta := 1
  healthScore := healthScore
  publicationLeaseUntil := some (hours 12)
  downloadKbps := some downloadKbps
  relayDelayMs := some relayDelayMs
  mainPort := some 5000
  createdAt := 0

/-- A healthy node that is slow beside a fast one. -/
def slowBesideFast : Store ℚ where
  nodes := [measuredRow "slow" (80 / 100) 0 3000, measuredRow "fast" (79 / 100) 1000 0]

theorem measured_of_columns {id : String} {healthScore : ℚ} {downloadKbps relayDelayMs : ℤ}
    (h : 0 ≤ healthScore ∧ healthScore ≤ 1) (hkbps : IsI64 downloadKbps)
    (hdelay : IsI64 relayDelayMs) :
    (measuredRow id healthScore downloadKbps relayDelayMs).Measured :=
  ⟨h, fun _ hn => Option.some.inj hn ▸ hkbps, fun _ hn => Option.some.inj hn ▸ hdelay⟩

/-- A healthy node beside one that is faster and has been used, and beside one like itself. -/
def steadyBesideQuick : Store ℚ where
  nodes := [measuredRow "quick" (60 / 100) 1000 50, measuredRow "steady" (90 / 100) 800 200,
    measuredRow "twin" (90 / 100) 800 200]

def quickUsed : ClientTables ℚ where
  usage := [⟨"client", "quick", 0⟩, ⟨"client", "twin", 0⟩]

/-- The healthy node leads, and is chosen with the highest score. -/
theorem maximisesVipScore_of_lead_steady :
    steadyBesideQuick.LeadsBy quickUsed 0 (128 * (rounding ℚ).roundoff) ∧
      steadyBesideQuick.MaximisesVipScore quickUsed 0 := by
  have hleads : steadyBesideQuick.LeadsBy quickUsed 0 (128 * (rounding ℚ).roundoff) := by
    decide +kernel
  have hmeasured : ∀ row ∈ steadyBesideQuick.nodes, row.Measured := by
    simp only [steadyBesideQuick, List.forall_mem_cons]
    refine ⟨?_, ?_, ?_, by simp⟩ <;>
      exact measured_of_columns (by norm_num) (by norm_num [IsI64]) (by norm_num [IsI64])
  exact ⟨hleads, (Store.maximisesVipScore_of_lead ⟨by decide, by decide⟩ hmeasured
    (by decide)).1 hleads⟩

/-- The slow node is chosen with a score of 0.52, where the fast one would have 0.8845. -/
theorem slow_node_is_chosen :
    ((slowBesideFast.bestVipCandidate {} 0).map fun candidate =>
      (candidate.id, candidate.score)) = some ("slow", 52 / 100) ∧
    ¬ slowBesideFast.MaximisesVipScore {} 0 := by
  have hchosen : ((slowBesideFast.bestVipCandidate {} 0).map fun candidate =>
      (candidate.id, candidate.score)) = some ("slow", 52 / 100) := by
    decide +kernel
  refine ⟨hchosen, fun hmaximal => ?_⟩
  obtain ⟨candidate, hcandidate, -, -, -, -, -, hle⟩ :=
    hmaximal ⟨_, List.mem_cons_self, by decide⟩
  rw [hcandidate] at hchosen
  obtain ⟨-, hscore⟩ := Prod.ext_iff.mp (Option.some.inj hchosen)
  have hfast := hle (measuredRow "fast" (79 / 100) 1000 0)
    (List.mem_cons_of_mem _ List.mem_cons_self) (by decide)
  rw [show candidate.score = 52 / 100 from hscore] at hfast
  exact absurd hfast (by decide +kernel)

end ProxyFleet
