import Mathlib.Data.Finset.Insert
import Mathlib.Data.Fintype.Defs
import ProxyFleet.StoreRuns

/-!
# Members and validators of the upstream sources

What the statements of a refresh do to the tables of sources, generations and members.
A `304` copies the newest generation that holds members of the source. The members
are read as a set: insertion ignores what is there.
-/
namespace ProxyFleet

variable {F : Type}

inductive Validator where
  | etag | lastModified
  deriving DecidableEq

instance : Fintype Validator where
  elems := {.etag, .lastModified}
  complete v := by cases v <;> decide

namespace Store

/-- The validator that the next request to the source sends. -/
def cachedValidator (s : Store F) (name : String) : Validator → Option String
  | .etag => (s.sourceHttpCache name).1
  | .lastModified => (s.sourceHttpCache name).2

/-- The identity is a member of the source's newest generation. -/
def Newest (s : Store F) (name hash : String) : Prop :=
  ∃ generation, ⟨generation, name, hash⟩ ∈ s.members ∧
    ∀ m ∈ s.members, m.sourceName = name → m.generation ≤ generation

theorem mem_memberHashes {s : Store F} {name hash : String} {generation : ℤ} :
    hash ∈ s.memberHashes name generation ↔ ⟨generation, name, hash⟩ ∈ s.members := by
  simp only [memberHashes, List.mem_map, List.mem_filter, Bool.and_eq_true, decide_eq_true_eq]
  constructor
  · rintro ⟨⟨g, n, h⟩, ⟨hm, rfl, rfl⟩, rfl⟩
    exact hm
  · intro hm
    exact ⟨_, ⟨hm, rfl, rfl⟩, rfl⟩

theorem previousGeneration_eq_some {s : Store F} {name : String} {generation previous : ℤ} :
    s.previousGeneration name generation = some previous ↔
      (∃ hash, ⟨previous, name, hash⟩ ∈ s.members) ∧ previous < generation ∧
        ∀ m ∈ s.members, m.sourceName = name → m.generation < generation →
          m.generation ≤ previous := by
  rw [previousGeneration, List.max?_eq_some_iff]
  simp only [List.mem_map, List.mem_filter, Bool.and_eq_true, decide_eq_true_eq]
  constructor
  · rintro ⟨⟨⟨g, n, h⟩, ⟨hm, rfl, hlt⟩, rfl⟩, hall⟩
    exact ⟨⟨h, hm⟩, hlt, fun m hm' hn hl => hall _ ⟨m, ⟨hm', hn, hl⟩, rfl⟩⟩
  · rintro ⟨⟨h, hm⟩, hlt, hall⟩
    refine ⟨⟨_, ⟨hm, rfl, hlt⟩, rfl⟩, ?_⟩
    rintro _ ⟨m, ⟨hm', hn, hl⟩, rfl⟩
    exact hall m hm' hn hl

/-- An update of one source rewrites the row that is looked up, or leaves it. -/
theorem find?_updateSources (sources : List UpstreamSource) (name other : String)
    {f : UpstreamSource → UpstreamSource} (hf : ∀ source, (f source).name = source.name) :
    (RowUpdates.updateWhere (fun source => decide (source.name = name)) f sources).find?
        (fun source => decide (source.name = other)) =
      (sources.find? fun source => decide (source.name = other)).map fun source =>
        if source.name = name then f source else source := by
  simp only [RowUpdates.updateWhere, List.find?_map]
  congr 1
  · funext source
    by_cases h : source.name = name <;> simp [h]
  · congr 1
    funext source
    by_cases h : source.name = name <;> simp [h, hf]

section Statements

variable (s : Store F) (now : Time) (name url : String)

theorem sourceHttpCache_recordSourceSuccess (etag lastModified : Option String) (other : String) :
    (s.recordSourceSuccess now name url etag lastModified).sourceHttpCache other =
      if other = name then
        (etag <|> (s.sourceHttpCache name).1, lastModified <|> (s.sourceHttpCache name).2)
      else s.sourceHttpCache other := by
  unfold recordSourceSuccess
  split
  · next hany =>
    rw [sourceHttpCache, find?_updateSources]
    · cases hf : s.sources.find? fun source => decide (source.name = other) with
      | none =>
        have hne : other ≠ name := by
          rintro rfl
          obtain ⟨source, hs, hn⟩ := List.any_eq_true.mp hany
          exact absurd hn (List.find?_eq_none.mp hf source hs)
        simp [sourceHttpCache, hf, hne]
      | some found =>
        have hname : found.name = other := by simpa using List.find?_some hf
        by_cases heq : other = name
        · subst heq
          simp [sourceHttpCache, hf, hname]
        · simp [sourceHttpCache, hf, hname, heq]
    · exact fun _ => rfl
  · next hany =>
    have hnone : s.sources.find? (fun source => decide (source.name = name)) = none := by
      rw [List.find?_eq_none]
      simpa using hany
    by_cases heq : other = name
    · subst heq
      simp [sourceHttpCache, List.find?_append, hnone]
    · simp [sourceHttpCache, List.find?_append, heq, Ne.symm heq]

theorem sourceHttpCache_recordSourceFailure (other : String) :
    (s.recordSourceFailure name url).sourceHttpCache other = s.sourceHttpCache other := by
  unfold recordSourceFailure
  split
  · rw [sourceHttpCache, find?_updateSources]
    · cases hf : s.sources.find? fun source => decide (source.name = other) with
      | none => simp [sourceHttpCache, hf]
      | some found => by_cases hname : found.name = name <;> simp [sourceHttpCache, hf, hname]
    · exact fun _ => rfl
  · cases hf : s.sources.find? fun source => decide (source.name = other) with
    | some found => simp [sourceHttpCache, List.find?_append, hf]
    | none => by_cases hname : name = other <;> simp [sourceHttpCache, List.find?_append, hf, hname]

theorem mem_insertMember {member m : GenerationMember} :
    m ∈ (s.insertMember member).members ↔ m ∈ s.members ∨ m = member := by
  unfold insertMember
  split
  · next hmem =>
    constructor
    · exact .inl
    · rintro (h | rfl)
      · exact h
      · exact hmem
  · simp

@[simp] theorem insertMember_sources (member : GenerationMember) :
    (s.insertMember member).sources = s.sources := by
  unfold insertMember
  split <;> rfl

@[simp] theorem insertMember_refreshRuns (member : GenerationMember) :
    (s.insertMember member).refreshRuns = s.refreshRuns := by
  unfold insertMember
  split <;> rfl

theorem mem_foldl_insertMember {α : Type} (toMember : α → GenerationMember) (items : List α)
    {m : GenerationMember} :
    m ∈ (items.foldl (fun t item => t.insertMember (toMember item)) s).members ↔
      m ∈ s.members ∨ ∃ item ∈ items, m = toMember item := by
  induction items generalizing s with
  | nil => simp
  | cons item items ih =>
    rw [List.foldl_cons, ih, mem_insertMember]
    simp only [List.mem_cons, exists_eq_or_imp, or_assoc]

theorem foldl_insertMember_sources {α : Type} (toMember : α → GenerationMember) (items : List α) :
    (items.foldl (fun t item => t.insertMember (toMember item)) s).sources = s.sources := by
  induction items generalizing s with
  | nil => rfl
  | cons item items ih => rw [List.foldl_cons, ih, insertMember_sources]

theorem foldl_insertMember_refreshRuns {α : Type} (toMember : α → GenerationMember)
    (items : List α) : (items.foldl (fun t item => t.insertMember (toMember item)) s).refreshRuns =
      s.refreshRuns := by
  induction items generalizing s with
  | nil => rfl
  | cons item items ih => rw [List.foldl_cons, ih, insertMember_refreshRuns]

/-- A `304` gives the generation the members of the newest earlier one. -/
theorem mem_copyCachedSourceGeneration {generation : ℤ} {m : GenerationMember} :
    m ∈ (s.copyCachedSourceGeneration name generation).1.members ↔ m ∈ s.members ∨
      ∃ previous, s.previousGeneration name generation = some previous ∧
        m.generation = generation ∧ m.sourceName = name ∧
          ⟨previous, name, m.configHash⟩ ∈ s.members := by
  unfold copyCachedSourceGeneration
  split
  · next hp => simp [hp]
  · next previous hp =>
    have hfold := mem_foldl_insertMember s (fun hash => ⟨generation, name, hash⟩)
      (s.memberHashes name previous) (m := m)
    refine Iff.trans (show _ ↔ _ from hfold) (or_congr_right ?_)
    constructor
    · rintro ⟨hash, hmem, rfl⟩
      exact ⟨previous, hp, rfl, rfl, mem_memberHashes.mp hmem⟩
    · rintro ⟨previous', hp', hg, hn, hmem⟩
      obtain rfl : previous = previous' := by simpa [hp] using hp'
      refine ⟨m.configHash, mem_memberHashes.mpr hmem, ?_⟩
      rw [← hg, ← hn]

/-- In a generation without members of the source, a `304` puts the newest members there. -/
theorem member_copied_iff {generation : ℤ} {hash : String}
    (older : ∀ m ∈ s.members, m.sourceName = name → m.generation < generation) :
    ⟨generation, name, hash⟩ ∈ (s.copyCachedSourceGeneration name generation).1.members ↔
      s.Newest name hash := by
  have hfresh : ⟨generation, name, hash⟩ ∉ s.members := fun hm => lt_irrefl _ (older _ hm rfl)
  rw [mem_copyCachedSourceGeneration, or_iff_right hfresh]
  constructor
  · rintro ⟨previous, hp, -, -, hm⟩
    obtain ⟨-, -, hmax⟩ := previousGeneration_eq_some.mp hp
    exact ⟨previous, hm, fun m hm' hn => hmax m hm' hn (older m hm' hn)⟩
  · rintro ⟨g, hm, hmax⟩
    refine ⟨g, ?_, rfl, rfl, hm⟩
    rw [previousGeneration_eq_some]
    exact ⟨⟨hash, hm⟩, older _ hm rfl, fun m hm' hn _ => hmax m hm' hn⟩

theorem copyCachedSourceGeneration_sources (generation : ℤ) :
    (s.copyCachedSourceGeneration name generation).1.sources = s.sources := by
  unfold copyCachedSourceGeneration
  split
  · rfl
  · exact foldl_insertMember_sources s _ _

theorem copyCachedSourceGeneration_runs (generation : ℤ) :
    (s.copyCachedSourceGeneration name generation).1.refreshRuns = s.refreshRuns := by
  unfold copyCachedSourceGeneration
  split
  · rfl
  · exact foldl_insertMember_refreshRuns s _ _

variable {s} in
theorem generation_lt_next {g : ℤ} (h : g ∈ s.refreshRuns.map (·.generation)) :
    g < s.nextGeneration := by
  unfold nextGeneration
  cases hmax : (s.refreshRuns.map (·.generation)).max? with
  | none =>
    rw [List.max?_eq_none_iff] at hmax
    rw [hmax] at h
    cases h
  | some top =>
    have hle := (List.max?_eq_some_iff.mp hmax).2 g h
    rw [Option.getD_some]
    omega

theorem nextGeneration_beginRefresh (runId : String) (count : ℕ) :
    (s.beginRefresh now runId count).nextGeneration = s.nextGeneration + 1 := by
  have hmax : ((s.beginRefresh now runId count).refreshRuns.map (·.generation)).max? =
      some s.nextGeneration := by
    rw [List.max?_eq_some_iff]
    constructor
    · simp [beginRefresh]
    · intro g hg
      simp only [beginRefresh, List.map_append, List.map_cons, List.map_nil, List.mem_append,
        List.mem_singleton] at hg
      rcases hg with hg | rfl
      · exact (generation_lt_next hg).le
      · exact le_rfl
  rw [nextGeneration, hmax, Option.getD_some]

theorem nextGeneration_recordFinishedRun (runId : String) (status : RefreshStatus)
    (successful parsed : ℕ) :
    (s.recordFinishedRun now runId status successful parsed).nextGeneration =
      s.nextGeneration := by
  have hgens : (s.recordFinishedRun now runId status successful parsed).refreshRuns.map
      (·.generation) = s.refreshRuns.map (·.generation) := by
    apply RowUpdates.map_updateWhere
    exact fun _ => rfl
  rw [nextGeneration, hgens, nextGeneration]

end Statements

section Newest

variable {s t : Store F} {name hash : String}

/-- The newest members of a source depend on its own members alone. -/
theorem newest_congr (h : ∀ m : GenerationMember, m.sourceName = name →
    (m ∈ t.members ↔ m ∈ s.members)) : t.Newest name hash ↔ s.Newest name hash := by
  unfold Newest
  refine exists_congr fun g => and_congr (h _ rfl) ?_
  constructor
  · intro hmax m hm hn
    exact hmax m ((h m hn).mpr hm) hn
  · intro hmax m hm hn
    exact hmax m ((h m hn).mp hm) hn

/-- New members of one later generation are the newest ones. -/
theorem newest_of_added {generation : ℤ} {added : String → Prop}
    (members : ∀ m : GenerationMember, m.sourceName = name →
      (m ∈ t.members ↔ m ∈ s.members ∨ m.generation = generation ∧ added m.configHash))
    (older : ∀ m ∈ s.members, m.sourceName = name → m.generation < generation)
    (some_added : ∃ hash, added hash) : t.Newest name hash ↔ added hash := by
  obtain ⟨other, hother⟩ := some_added
  have hnew : ∀ h, added h → ⟨generation, name, h⟩ ∈ t.members :=
    fun h ha => (members _ rfl).mpr (.inr ⟨rfl, ha⟩)
  constructor
  · rintro ⟨g, hg, hmax⟩
    rcases (members _ rfl).mp hg with hold | ⟨-, hadd⟩
    · exact absurd (hmax _ (hnew other hother) rfl) (not_le.mpr (older _ hold rfl))
    · exact hadd
  · intro hadd
    refine ⟨generation, hnew hash hadd, fun m hm hn => ?_⟩
    rcases (members m hn).mp hm with hold | ⟨hg, -⟩
    · exact (older m hold hn).le
    · exact hg.le

/-- A `304` keeps the newest members of every source. -/
theorem newest_copyCachedSourceGeneration {source : String} {generation : ℤ}
    (older : ∀ m ∈ s.members, m.sourceName = source → m.generation < generation) :
    (s.copyCachedSourceGeneration source generation).1.Newest name hash ↔ s.Newest name hash := by
  by_cases hn : name = source
  · subst hn
    cases hp : s.previousGeneration name generation with
    | none =>
      refine newest_congr fun m _ => ?_
      rw [mem_copyCachedSourceGeneration]
      simp [hp]
    | some previous =>
      obtain ⟨⟨old, hold⟩, -, hmax⟩ := previousGeneration_eq_some.mp hp
      have hiff : s.Newest name hash ↔ ⟨previous, name, hash⟩ ∈ s.members := by
        constructor
        · rintro ⟨g, hg, hall⟩
          have heq : g = previous := le_antisymm (hmax _ hg rfl (older _ hg rfl)) (hall _ hold rfl)
          exact heq ▸ hg
        · intro hm
          exact ⟨previous, hm, fun m hm' hn' => hmax m hm' hn' (older m hm' hn')⟩
      rw [hiff]
      have hadded : ∃ h, (⟨previous, name, h⟩ : GenerationMember) ∈ s.members := ⟨old, hold⟩
      refine newest_of_added (fun m hm => ?_) older hadded
      rw [mem_copyCachedSourceGeneration]
      simp [hp, hm]
  · refine newest_congr fun m hm => ?_
    rw [mem_copyCachedSourceGeneration]
    constructor
    · rintro (h | ⟨-, -, -, hsource, -⟩)
      · exact h
      · exact absurd (hm.symm.trans hsource) hn
    · exact .inl

end Newest

end Store

end ProxyFleet
