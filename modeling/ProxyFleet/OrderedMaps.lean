import ProxyFleet.ShareUrlParser
import Mathlib.Data.List.Nodup
import Mathlib.Data.String.Basic

/-!
# Maps that are ordered by their keys

Lookups after insertion and removal, and equality of maps by their lookups. A map that
is collected from entries holds the last value of each key; the order of entries with
distinct keys is lost.
-/
namespace ProxyFleet.OrderedMap

variable {α : Type} {m m₁ m₂ : List (String × α)} {key other : String} {value : α}

/-- Each key occurs once, in the order of the keys. -/
def Sorted (m : List (String × α)) : Prop := m.Pairwise fun a b => a.1 < b.1

/-- Other keys do not matter for a lookup. -/
theorem lookup_filter (keep : String → Bool) (h : keep other = true) :
    (m.filter fun entry => keep entry.1).lookup other = m.lookup other := by
  induction m with
  | nil => rfl
  | cons entry m ih =>
    rw [List.filter_cons]
    split
    · rw [List.lookup_cons, List.lookup_cons, ih]
    · next hkeep =>
      have hne : other ≠ entry.1 := fun he => hkeep (he ▸ h)
      rw [ih, List.lookup_cons, beq_false_of_ne hne]

theorem lookup_filter_ne (h : other ≠ key) :
    (m.filter fun entry => entry.1 ≠ key).lookup other = m.lookup other :=
  lookup_filter (fun k => decide (k ≠ key)) (decide_eq_true h)

theorem get_remove : get (remove m key) other = if other = key then none else get m other := by
  split
  · next h =>
    subst h
    rw [get, remove, List.lookup_eq_none_iff]
    intro entry hentry
    have hne : entry.1 ≠ other := by simpa using (List.mem_filter.mp hentry).2
    simpa using hne.symm
  · next h => exact lookup_filter_ne h

/-- Insertion decides the lookup of its key alone. -/
theorem get_insert :
    get (insert m key value) other = if other = key then some value else get m other := by
  have hinsert : ∀ l : List (String × α), (∀ entry ∈ l, entry.1 ≠ key) →
      (List.orderedInsert (fun a b => a.1 ≤ b.1) (key, value) l).lookup other =
        if other = key then some value else l.lookup other := by
    intro l
    induction l with
    | nil =>
      intro _
      by_cases h : other = key
      · simp [h]
      · simp [List.lookup_cons, beq_false_of_ne h, h]
    | cons entry l ih =>
      intro hl
      rw [List.orderedInsert_cons]
      split
      · by_cases h : other = key
        · simp [h]
        · simp [List.lookup_cons, beq_false_of_ne h, h]
      · rw [List.lookup_cons, ih fun e he => hl e (List.mem_cons_of_mem _ he), List.lookup_cons]
        by_cases h : other = key
        · have hne : other ≠ entry.1 := fun he => hl entry List.mem_cons_self (he ▸ h)
          simp [h, beq_false_of_ne (h ▸ hne)]
        · simp [h]
  rw [get, insert, hinsert]
  · by_cases h : other = key
    · simp [h]
    · rw [if_neg h, if_neg h, lookup_filter_ne h, get]
  · intro entry hentry
    simpa using (List.mem_filter.mp hentry).2

theorem sorted_remove (h : Sorted m) : Sorted (remove m key) := h.sublist List.filter_sublist

theorem sorted_insert (h : Sorted m) : Sorted (insert m key value) := by
  have hinsert : ∀ l : List (String × α), Sorted l → (∀ entry ∈ l, entry.1 ≠ key) →
      Sorted (List.orderedInsert (fun a b => a.1 ≤ b.1) (key, value) l) := by
    intro l
    induction l with
    | nil => exact fun _ _ => List.pairwise_singleton _ _
    | cons entry l ih =>
      intro hl hne
      obtain ⟨hhead, htail⟩ := List.pairwise_cons.mp hl
      rw [List.orderedInsert_cons]
      split
      · next hle =>
        have hlt : key < entry.1 := lt_of_le_of_ne hle (hne entry List.mem_cons_self).symm
        refine List.pairwise_cons.mpr ⟨fun e he => ?_, hl⟩
        rcases List.mem_cons.mp he with rfl | he
        · exact hlt
        · exact hlt.trans (hhead e he)
      · next hle =>
        have hrest := ih htail fun e he => hne e (List.mem_cons_of_mem _ he)
        refine List.pairwise_cons.mpr ⟨fun e he => ?_, hrest⟩
        rcases (List.mem_orderedInsert _).mp he with rfl | he
        · exact not_le.mp hle
        · exact hhead e he
  refine hinsert _ (h.sublist List.filter_sublist) fun entry hentry => ?_
  simpa using (List.mem_filter.mp hentry).2

theorem Sorted.nodup_keys (h : Sorted m) : (m.map Prod.fst).Nodup := by
  rw [List.nodup_iff_pairwise_ne, List.pairwise_map]
  exact h.imp fun hlt => hlt.ne

theorem lookup_eq_some_iff_mem (h : (m.map Prod.fst).Nodup) :
    m.lookup key = some value ↔ (key, value) ∈ m := by
  induction m with
  | nil => simp
  | cons entry m ih =>
    obtain ⟨k, v⟩ := entry
    rw [List.map_cons, List.nodup_cons] at h
    rw [List.lookup_cons, List.mem_cons, ← ih h.2]
    by_cases hk : key = k
    · subst hk
      have hnone : m.lookup key ≠ some value := by
        intro hsome
        exact h.1 (List.mem_map.mpr ⟨_, (ih h.2).mp hsome, rfl⟩)
      simp [hnone, eq_comm]
    · simp [beq_false_of_ne hk, hk]

/-- A map is given by its lookups. -/
theorem ext (h₁ : Sorted m₁) (h₂ : Sorted m₂) (h : ∀ key, get m₁ key = get m₂ key) :
    m₁ = m₂ := by
  have hmem : ∀ entry, entry ∈ m₁ ↔ entry ∈ m₂ := by
    rintro ⟨key, value⟩
    rw [← lookup_eq_some_iff_mem h₁.nodup_keys, ← lookup_eq_some_iff_mem h₂.nodup_keys]
    exact iff_of_eq (congrArg (· = some value) (h key))
  have hperm := (List.perm_ext_iff_of_nodup h₁.nodup_keys.of_map h₂.nodup_keys.of_map).mpr hmem
  exact hperm.eq_of_pairwise (fun a b _ _ hab hba => absurd hab hba.asymm) h₁ h₂

section Collection

variable {entries entries₁ entries₂ : List (String × α)}

/-- The map of entries, of which later ones replace earlier ones. -/
def collect (entries : List (String × α)) : List (String × α) :=
  entries.foldl (fun m entry => insert m entry.1 entry.2) []

theorem collect_append_singleton (entry : String × α) :
    collect (entries ++ [entry]) = insert (collect entries) entry.1 entry.2 := by
  simp [collect]

theorem sorted_collect : Sorted (collect entries) := by
  induction entries using List.reverseRecOn with
  | nil => exact List.Pairwise.nil
  | append_singleton entries entry ih =>
    rw [collect_append_singleton]
    exact sorted_insert ih

/-- The last entry of a key decides. -/
theorem get_collect : get (collect entries) key = entries.reverse.lookup key := by
  induction entries using List.reverseRecOn with
  | nil => rfl
  | append_singleton entries entry ih =>
    rw [collect_append_singleton, get_insert, ih, List.reverse_append, List.reverse_singleton,
      List.singleton_append, List.lookup_cons]
    by_cases h : key = entry.1
    · simp [h]
    · simp [beq_false_of_ne h, h]

/-- A sorted map is collected from its entries. -/
theorem get_collect_of_nodup (h : (entries.map Prod.fst).Nodup) :
    get (collect entries) key = entries.lookup key := by
  have hreverse : (entries.reverse.map Prod.fst).Nodup := by
    rw [List.map_reverse, List.nodup_reverse]
    exact h
  rw [get_collect]
  ext value
  rw [lookup_eq_some_iff_mem hreverse, lookup_eq_some_iff_mem h, List.mem_reverse]

/-- Entries with distinct keys can be collected in any order. -/
theorem collect_perm (h : entries₁.Perm entries₂) (distinct : (entries₁.map Prod.fst).Nodup) :
    collect entries₁ = collect entries₂ := by
  refine ext sorted_collect sorted_collect fun key => ?_
  rw [get_collect_of_nodup distinct,
    get_collect_of_nodup ((h.map Prod.fst).nodup_iff.mp distinct)]
  ext value
  rw [lookup_eq_some_iff_mem distinct,
    lookup_eq_some_iff_mem ((h.map Prod.fst).nodup_iff.mp distinct), h.mem_iff]

/-- The entries of a list of fields, where one is given. -/
def fieldEntries (name : String → String) (field : String → Option α) (keys : List String) :
    List (String × α) :=
  keys.filterMap fun key => (field key).map fun value => (name key, value)

variable {name : String → String} {field : String → Option α} {keys : List String}

theorem mem_fieldEntries : (other, value) ∈ fieldEntries name field keys ↔
    ∃ key ∈ keys, name key = other ∧ field key = some value := by
  simp only [fieldEntries, List.mem_filterMap, Option.map_eq_some_iff, Prod.mk.injEq]
  constructor
  · rintro ⟨key, hkey, _, hvalue, hname, rfl⟩
    exact ⟨key, hkey, hname, hvalue⟩
  · rintro ⟨key, hkey, hname, hvalue⟩
    exact ⟨key, hkey, value, hvalue, hname, rfl⟩

theorem nodup_fieldEntries (distinct : (keys.map name).Nodup) :
    ((fieldEntries name field keys).map Prod.fst).Nodup := by
  refine distinct.sublist ?_
  rw [fieldEntries, List.map_filterMap, ← List.filterMap_eq_map]
  induction keys with
  | nil => exact List.Sublist.slnil
  | cons key keys ih =>
    rw [List.map_cons, List.nodup_cons] at distinct
    cases hf : field key with
    | none => simpa [hf] using (ih distinct.2).cons (name key)
    | some value => simpa [hf] using ih distinct.2

theorem get_collect_fieldEntries (distinct : (keys.map name).Nodup) (h : key ∈ keys) :
    get (collect (fieldEntries name field keys)) (name key) = field key := by
  rw [get_collect_of_nodup (nodup_fieldEntries distinct)]
  ext value
  rw [lookup_eq_some_iff_mem (nodup_fieldEntries distinct), mem_fieldEntries]
  constructor
  · rintro ⟨other, hother, hname, hvalue⟩
    rwa [← List.inj_on_of_nodup_map distinct hother h hname]
  · exact fun hvalue => ⟨key, h, rfl, hvalue⟩

theorem get_collect_fieldEntries_eq_none (h : other ∉ keys.map name) :
    get (collect (fieldEntries name field keys)) other = none := by
  rw [get_collect, List.lookup_eq_none_iff]
  rintro ⟨key, value⟩ hentry
  obtain ⟨key, hkey, rfl, -⟩ := mem_fieldEntries.mp (List.mem_reverse.mp hentry)
  have hne : other ≠ name key := fun he => h (he ▸ List.mem_map_of_mem hkey)
  simpa using hne

end Collection

end ProxyFleet.OrderedMap
