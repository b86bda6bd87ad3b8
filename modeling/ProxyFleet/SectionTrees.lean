import Mathlib.Data.List.Basic

/-!
# Documents made of sections

A document is a tree of mappings and sequences. A layout says which keys each section knows
and below which of them another section is expected. A walk along the layout collects the
keys that are not known and stops where a section is no mapping. What is read field by
field from the known keys does not depend on other keys that are scalars, and a key that is
a sequence or a mapping cannot be read at all.
-/
namespace ProxyFleet.SectionTrees

/-- A key of a mapping, by what is written there. -/
inductive Key where
  | text (name : String)
  /-- A number, a truth value or nothing. -/
  | scalar (literal : String)
  /-- A sequence or a mapping. -/
  | nested (flow : String)
  deriving DecidableEq

def Key.asStr : Key → Option String
  | .text name => some name
  | _ => none

def Key.isNested : Key → Bool
  | .nested _ => true
  | _ => false

inductive Document (σ : Type) where
  | scalar (value : σ)
  | sequence (items : List (Document σ))
  | mapping (entries : List (Key × Document σ))

variable {σ α ε : Type}

/-- The sections of a document, each named by its path. -/
structure Layout where
  known : String → List String
  mappings : String → List String
  sequences : String → List (String × String)
  childPath : String → String → String

def get (entries : List (Key × Document σ)) (key : String) : Option (Document σ) :=
  (entries.find? fun entry => decide (entry.1 = .text key)).map Prod.snd

theorem get_mem {entries : List (Key × Document σ)} {key : String} {value : Document σ}
    (h : get entries key = some value) : (.text key, value) ∈ entries := by
  obtain ⟨entry, hfind, rfl⟩ := Option.map_eq_some_iff.mp h
  have hkey := List.find?_some hfind
  have hmem := List.mem_of_find?_eq_some hfind
  rw [decide_eq_true_eq] at hkey
  rw [← hkey]
  exact hmem

namespace Layout

variable (layout : Layout)

def isKnown (path : String) (entry : Key × Document σ) : Bool :=
  entry.1.asStr.any fun key => decide (key ∈ layout.known path)

/-- The entry has a part in what is read. -/
def isKept (path : String) (entry : Key × Document σ) : Bool :=
  layout.isKnown path entry || entry.1.isNested

/-- The sections below a mapping, those of sequences last. -/
def children (path : String) (entries : List (Key × Document σ)) :
    List (Document σ × String) :=
  (layout.mappings path).filterMap (fun key =>
      (get entries key).map fun value => (value, layout.childPath path key)) ++
    (layout.sequences path).flatMap fun item =>
      match get entries item.1 with
      | some (.sequence values) => values.map fun value => (value, item.2)
      | _ => []

theorem sizeOf_entry {entries : List (Key × Document σ)}
    {entry : Key × Document σ} (h : entry ∈ entries) :
    sizeOf entry.2 < sizeOf (Document.mapping entries) := by
  have hentry := List.sizeOf_lt_of_mem h
  cases entry
  simp only [Prod.mk.sizeOf_spec, Document.mapping.sizeOf_spec] at hentry ⊢
  omega

theorem sizeOf_child {path : String} {entries : List (Key × Document σ)}
    {child : Document σ × String} (h : child ∈ layout.children path entries) :
    sizeOf child.1 < sizeOf (Document.mapping entries) := by
  rcases List.mem_append.mp h with h | h
  · obtain ⟨key, -, hkey⟩ := List.mem_filterMap.mp h
    obtain ⟨value, hvalue, rfl⟩ := Option.map_eq_some_iff.mp hkey
    exact sizeOf_entry (get_mem hvalue)
  · obtain ⟨item, -, hitem⟩ := List.mem_flatMap.mp h
    split at hitem
    · rename_i values hvalues
      obtain ⟨value, hvalue, rfl⟩ := List.mem_map.mp hitem
      have hsequence := sizeOf_entry (get_mem hvalues)
      have hitem := List.sizeOf_lt_of_mem hvalue
      simp only [Document.sequence.sizeOf_spec] at hsequence
      show sizeOf value < _
      omega
    · cases hitem

end Layout

/-- What a walk has seen: the unknown keys with the sections they are in, and the section that
is no mapping, if it stopped at one. -/
structure Walk where
  unknown : List (String × Option String) := []
  stopped : Option String := none

/-- One walk after the other, unless the first one stopped. -/
def Walk.andThen (first second : Walk) : Walk :=
  match first.stopped with
  | some _ => first
  | none => ⟨first.unknown ++ second.unknown, second.stopped⟩

namespace Layout

variable (layout : Layout)

/-- The keys of a section that it does not know. -/
def unknownKeys (path : String) (entries : List (Key × Document σ)) :
    List (String × Option String) :=
  (entries.filter fun entry => !layout.isKnown path entry).map fun entry => (path, entry.1.asStr)

def walk : Document σ → String → Walk
  | .mapping entries, path =>
    ((layout.children path entries).attach.map fun child =>
      walk child.1.1 child.1.2).foldl Walk.andThen
        { unknown := layout.unknownKeys path entries }
  | _, path => { stopped := some path }
termination_by value => sizeOf value
decreasing_by exact Layout.sizeOf_child _ child.2

/-- What a section expects below a key. -/
inductive Role where
  | mapping (path : String)
  | items (path : String)
  | field

def role (path key : String) : Role :=
  if key ∈ layout.mappings path then .mapping (layout.childPath path key)
  else match (layout.sequences path).lookup key with
    | some itemPath => .items itemPath
    | none => .field

/-- The document without the scalar keys that the layout does not know. -/
def prune : Document σ → String → Document σ
  | .mapping entries, path =>
    .mapping ((entries.filter (layout.isKept path)).map fun entry =>
      (entry.1,
        match (entry.1.asStr.map (layout.role path)).getD .field with
        | .mapping childPath => prune entry.2 childPath
        | .items itemPath =>
          match _h : entry.2 with
          | .sequence items => .sequence (items.map fun item => prune item itemPath)
          | value => value
        | .field => entry.2))
  | value, _ => value
termination_by value => sizeOf value
decreasing_by
  · exact sizeOf_entry ‹entry ∈ entries›
  · have hentry := sizeOf_entry ‹entry ∈ entries›
    have hitem := List.sizeOf_lt_of_mem ‹item ∈ items›
    rw [_h] at hentry
    simp only [Document.sequence.sizeOf_spec] at hentry
    omega

/-- What is left of the value below a key. -/
def pruneAt (path : String) (key : Key) (value : Document σ) : Document σ :=
  match (key.asStr.map (layout.role path)).getD .field, value with
  | .mapping childPath, value => layout.prune value childPath
  | .items itemPath, .sequence items => .sequence (items.map fun item => layout.prune item itemPath)
  | _, value => value

def pruneEntries (path : String) (entries : List (Key × Document σ)) :
    List (Key × Document σ) :=
  (entries.filter (layout.isKept path)).map fun entry =>
    (entry.1, layout.pruneAt path entry.1 entry.2)

theorem prune_mapping (path : String) (entries : List (Key × Document σ)) :
    layout.prune (.mapping entries) path = .mapping (layout.pruneEntries path entries) := by
  rw [prune, pruneEntries]
  congr 2
  funext entry
  unfold pruneAt
  cases (entry.1.asStr.map (layout.role path)).getD .field with
  | mapping childPath => rfl
  | field => rfl
  | items itemPath =>
    obtain ⟨key, value⟩ := entry
    cases value <;> rfl

theorem walk_mapping (path : String) (entries : List (Key × Document σ)) :
    layout.walk (.mapping entries) path =
      ((layout.children path entries).map fun child => layout.walk child.1 child.2).foldl
        Walk.andThen { unknown := layout.unknownKeys path entries } := by
  rw [walk]
  congr 1
  exact List.attach_map_val (f := fun child : Document σ × String => layout.walk child.1 child.2)

/-- Every section on the layout is a mapping. -/
inductive Shaped : Document σ → String → Prop where
  | mapping (entries : List (Key × Document σ)) (path : String)
      (children : ∀ child ∈ layout.children path entries, Shaped child.1 child.2) :
      Shaped (.mapping entries) path

/-- No section on the layout has a sequence or a mapping for a key. -/
inductive PlainKeys : Document σ → String → Prop where
  | leaf (value : Document σ) (path : String) (leaf : ∀ entries, value ≠ .mapping entries) :
      PlainKeys value path
  | mapping (entries : List (Key × Document σ)) (path : String)
      (keys : ∀ entry ∈ entries, entry.1.isNested = false)
      (children : ∀ child ∈ layout.children path entries, PlainKeys child.1 child.2) :
      PlainKeys (.mapping entries) path

theorem foldl_stopped (walks : List Walk) (start : Walk) :
    (walks.foldl Walk.andThen start).stopped = none ↔
      start.stopped = none ∧ ∀ w ∈ walks, w.stopped = none := by
  induction walks generalizing start with
  | nil => simp
  | cons w walks ih =>
    rw [List.foldl_cons, ih]
    cases hstart : start.stopped with
    | none => simp [Walk.andThen, hstart]
    | some path => simp [Walk.andThen, hstart]

/-- Induction along the sections of a document. -/
theorem section_induction {motive : Document σ → String → Prop}
    (leaf : ∀ value path, (∀ entries, value ≠ .mapping entries) → motive value path)
    (mapping : ∀ entries path, (∀ child ∈ layout.children path entries, motive child.1 child.2) →
      motive (.mapping entries) path) (value : Document σ) (path : String) : motive value path := by
  induction hsize : sizeOf value using Nat.strongRecOn generalizing value path with
  | ind size ih =>
    subst hsize
    cases value with
    | scalar value => exact leaf _ _ (by simp)
    | sequence items => exact leaf _ _ (by simp)
    | mapping entries =>
      exact mapping entries path fun child hchild =>
        ih _ (layout.sizeOf_child hchild) child.1 child.2 rfl

theorem walk_leaf {value : Document σ} (h : ∀ entries, value ≠ .mapping entries) (path : String) :
    layout.walk value path = { stopped := some path } := by
  cases value with
  | scalar value => rw [walk]; simp
  | sequence items => rw [walk]; simp
  | mapping entries => exact absurd rfl (h entries)

/-- The walk gets through exactly the documents whose sections are mappings. -/
theorem walk_stopped_iff (value : Document σ) (path : String) :
    (layout.walk value path).stopped = none ↔ layout.Shaped value path := by
  induction value, path using layout.section_induction with
  | leaf value path hleaf =>
    rw [layout.walk_leaf hleaf]
    constructor
    · simp
    · rintro ⟨entries, -⟩
      exact absurd rfl (hleaf entries)
  | mapping entries path ih =>
    rw [walk_mapping, foldl_stopped]
    constructor
    · intro h
      refine .mapping entries path fun child hmem => (ih child hmem).mp ?_
      exact h.2 _ (List.mem_map_of_mem hmem)
    · rintro ⟨_, _, hshaped⟩
      refine ⟨rfl, ?_⟩
      intro w hw
      obtain ⟨child, hmem, rfl⟩ := List.mem_map.mp hw
      exact (ih child hmem).mpr (hshaped child hmem)

end Layout

/-- The keys below which sections are expected are known, and are told apart. -/
structure Layout.Sound (layout : Layout) : Prop where
  mappings : ∀ path, ∀ key ∈ layout.mappings path, key ∈ layout.known path
  sequences : ∀ path, ∀ item ∈ layout.sequences path, item.1 ∈ layout.known path ∧
    layout.role path item.1 = .items item.2

namespace Layout

variable {layout : Layout}

theorem get_pruneEntries {path key : String} (hknown : key ∈ layout.known path)
    (entries : List (Key × Document σ)) :
    get (layout.pruneEntries path entries) key =
      (get entries key).map (layout.pruneAt path (.text key)) := by
  induction entries with
  | nil => rfl
  | cons entry entries ih =>
    obtain ⟨name, value⟩ := entry
    by_cases hname : name = .text key
    · subst hname
      simp [pruneEntries, isKept, isKnown, Key.asStr, hknown, get]
    · have hskip : get ((name, value) :: entries) key = get entries key := by
        simp [get, hname]
      rw [hskip, ← ih]
      unfold pruneEntries
      rw [List.filter_cons]
      split
      · simp [get, hname]
      · rfl

/-- The sections below a pruned mapping are those below the mapping, pruned. -/
theorem children_pruneEntries (sound : layout.Sound) (path : String)
    (entries : List (Key × Document σ)) :
    layout.children path (layout.pruneEntries path entries) =
      (layout.children path entries).map fun child => (layout.prune child.1 child.2, child.2) := by
  unfold children
  rw [List.map_append, List.map_filterMap, List.map_flatMap]
  congr 1
  · apply List.filterMap_congr
    intro key hkey
    rw [get_pruneEntries (sound.mappings path key hkey), Option.map_map, Option.map_map]
    congr 1
    funext value
    simp [pruneAt, Key.asStr, role, hkey]
  · apply List.flatMap_congr
    intro item hitem
    obtain ⟨hknown, hrole⟩ := sound.sequences path item hitem
    rw [get_pruneEntries hknown]
    cases hget : get entries item.1 with
    | none => rfl
    | some value =>
      cases value <;> simp [pruneAt, Key.asStr, hrole]

theorem prune_leaf {value : Document σ} (h : ∀ entries, value ≠ .mapping entries)
    (path : String) : layout.prune value path = value := by
  cases value with
  | scalar value => rw [prune]; simp
  | sequence items => rw [prune]; simp
  | mapping entries => exact absurd rfl (h entries)

/-- Walks stop where the first of them does. -/
theorem stopped_foldl (walks : List Walk) (start : Walk) :
    (walks.foldl Walk.andThen start).stopped =
      (walks.map (·.stopped)).foldl Option.or start.stopped := by
  induction walks generalizing start with
  | nil => rfl
  | cons w walks ih =>
    rw [List.foldl_cons, ih, List.map_cons, List.foldl_cons]
    congr 1
    cases hstart : start.stopped <;> simp [Walk.andThen, hstart]

theorem unknown_foldl_nil {walks : List Walk} {start : Walk} (hstart : start.unknown = [])
    (h : ∀ w ∈ walks, w.unknown = []) : (walks.foldl Walk.andThen start).unknown = [] := by
  induction walks generalizing start with
  | nil => exact hstart
  | cons w walks ih =>
    refine ih ?_ fun w hw => h w (List.mem_cons_of_mem _ hw)
    cases hstopped : start.stopped <;>
      simp [Walk.andThen, hstopped, hstart, h w List.mem_cons_self]

/-- The walk along a pruned document stops where it stopped before. -/
theorem walk_prune_stopped (sound : layout.Sound) (value : Document σ) (path : String) :
    (layout.walk (layout.prune value path) path).stopped = (layout.walk value path).stopped := by
  induction value, path using layout.section_induction with
  | leaf value path hleaf => rw [prune_leaf hleaf]
  | mapping entries path ih =>
    rw [prune_mapping, walk_mapping, walk_mapping, stopped_foldl, stopped_foldl,
      children_pruneEntries sound, List.map_map, List.map_map, List.map_map]
    congr 1
    exact List.map_congr_left ih

theorem unknownKeys_pruneEntries (path : String) {entries : List (Key × Document σ)}
    (keys : ∀ entry ∈ entries, entry.1.isNested = false) :
    layout.unknownKeys path (layout.pruneEntries path entries) = [] := by
  simp only [unknownKeys, List.map_eq_nil_iff, List.filter_eq_nil_iff]
  intro entry hentry
  obtain ⟨entry, hmem, rfl⟩ := List.mem_map.mp hentry
  obtain ⟨hentries, hkept⟩ := List.mem_filter.mp hmem
  have hknown : layout.isKnown path entry = true := by
    rwa [isKept, keys entry hentries, Bool.or_false] at hkept
  simpa [isKnown] using hknown

/-- It finds nothing unknown, where no key is a sequence or a mapping. -/
theorem walk_prune_unknown (sound : layout.Sound) {value : Document σ} {path : String}
    (plain : layout.PlainKeys value path) :
    (layout.walk (layout.prune value path) path).unknown = [] := by
  induction plain with
  | leaf value path hleaf => rw [prune_leaf hleaf, layout.walk_leaf hleaf]
  | mapping entries path keys children ih =>
    rw [prune_mapping, walk_mapping, children_pruneEntries sound, List.map_map]
    refine unknown_foldl_nil (unknownKeys_pruneEntries path keys) fun w hw => ?_
    obtain ⟨child, hchild, rfl⟩ := List.mem_map.mp hw
    exact ih child hchild

/-- Nothing is pruned below a key that holds no section. -/
theorem pruneAt_field {path key : String} (h : layout.role path key = .field)
    (value : Document σ) :
    layout.pruneAt path (.text key) value = value := by
  cases value <;> simp [Layout.pruneAt, Key.asStr, h]

theorem pruneAt_mapping {path key childPath : String}
    (h : layout.role path key = .mapping childPath) (value : Document σ) :
    layout.pruneAt path (.text key) value = layout.prune value childPath := by
  cases value <;> simp [Layout.pruneAt, Key.asStr, h]

/-- Nothing is pruned below a key that is no string. -/
theorem pruneAt_other {path : String} {key : Key} (h : key.asStr = none) (value : Document σ) :
    layout.pruneAt path key value = value := by
  cases value <;> simp [pruneAt, h]

theorem mem_children_mapping {path key childPath : String}
    {entries : List (Key × Document σ)} {value : Document σ}
    (hrole : layout.role path key = .mapping childPath) (hget : get entries key = some value) :
    (value, childPath) ∈ layout.children path entries := by
  unfold role at hrole
  split at hrole
  · rename_i hkey
    cases hrole
    refine List.mem_append_left _ (List.mem_filterMap.mpr ⟨key, hkey, ?_⟩)
    rw [hget]
    rfl
  · split at hrole <;> cases hrole

theorem mem_children_items {path key itemPath : String}
    {entries : List (Key × Document σ)} {items : List (Document σ)}
    (hrole : layout.role path key = .items itemPath)
    (hget : get entries key = some (.sequence items)) {item : Document σ} (hitem : item ∈ items) :
    (item, itemPath) ∈ layout.children path entries := by
  unfold role at hrole
  split at hrole
  · cases hrole
  · split at hrole
    · rename_i hlookup
      cases hrole
      obtain ⟨before, after, hsequences, -⟩ := List.lookup_eq_some_iff.mp hlookup
      refine List.mem_append_right _ (List.mem_flatMap.mpr ⟨(key, itemPath), ?_, ?_⟩)
      · rw [hsequences]
        simp
      · rw [hget]
        exact List.mem_map_of_mem hitem
    · cases hrole

/-- No mapping has a key twice. -/
inductive Distinct : Document σ → Prop where
  | scalar (value : σ) : Distinct (.scalar value)
  | sequence (items : List (Document σ)) (each : ∀ item ∈ items, Distinct item) :
      Distinct (.sequence items)
  | mapping (entries : List (Key × Document σ)) (keys : (entries.map Prod.fst).Nodup)
      (each : ∀ entry ∈ entries, Distinct entry.2) : Distinct (.mapping entries)

theorem Distinct.entries {entries : List (Key × Document σ)}
    (h : Distinct (.mapping entries)) :
    (entries.map Prod.fst).Nodup ∧ ∀ entry ∈ entries, Distinct entry.2 := by
  cases h with
  | mapping _ keys each => exact ⟨keys, each⟩

theorem Distinct.item {items : List (Document σ)} (h : Distinct (.sequence items))
    {item : Document σ} (hitem : item ∈ items) : Distinct item := by
  cases h with
  | sequence _ each => exact each item hitem

theorem get_of_mem {entries : List (Key × Document σ)} {key : String}
    {value : Document σ} (keys : (entries.map Prod.fst).Nodup)
    (h : (.text key, value) ∈ entries) : get entries key = some value := by
  induction entries with
  | nil => cases h
  | cons entry entries ih =>
    rw [List.map_cons, List.nodup_cons] at keys
    rcases List.mem_cons.mp h with rfl | h
    · simp [get]
    · have hkey : entry.1 ≠ .text key := by
        intro hsame
        rw [hsame] at keys
        exact keys.1 (List.mem_map_of_mem h)
      have hrest := ih keys.2 h
      simpa [get, hkey] using hrest

theorem foldl_unknown (walks : List Walk) (start : Walk)
    (hstopped : (walks.foldl Walk.andThen start).stopped = none) :
    (walks.foldl Walk.andThen start).unknown = [] ↔
      start.unknown = [] ∧ ∀ w ∈ walks, w.unknown = [] := by
  induction walks generalizing start with
  | nil => simp
  | cons w walks ih =>
    have hstart := ((foldl_stopped (w :: walks) start).mp hstopped).1
    rw [List.foldl_cons] at hstopped ⊢
    rw [ih _ hstopped]
    simp [Walk.andThen, hstart, and_assoc]

/-- A walk that gets through a mapping and reports nothing has reported nothing on the way. -/
theorem known_of_walk_mapping {path : String} {entries : List (Key × Document σ)}
    (hstopped : (layout.walk (.mapping entries) path).stopped = none)
    (hunknown : (layout.walk (.mapping entries) path).unknown = []) :
    (∀ entry ∈ entries, layout.isKnown path entry = true) ∧
      ∀ child ∈ layout.children path entries, (layout.walk child.1 child.2).stopped = none ∧
        (layout.walk child.1 child.2).unknown = [] := by
  rw [walk_mapping] at hstopped hunknown
  obtain ⟨hknown, hquiet⟩ := (foldl_unknown _ _ hstopped).mp hunknown
  constructor
  · intro entry hentry
    have hnone := List.filter_eq_nil_iff.mp (List.map_eq_nil_iff.mp hknown) entry hentry
    simpa using hnone
  · intro child hmem
    exact ⟨((foldl_stopped _ _).mp hstopped).2 _ (List.mem_map_of_mem hmem),
      hquiet _ (List.mem_map_of_mem hmem)⟩

theorem isNested_of_isKnown {path : String} {entry : Key × Document σ}
    (h : layout.isKnown path entry = true) : entry.1.isNested = false := by
  obtain ⟨key, value⟩ := entry
  cases key with
  | text name => rfl
  | scalar literal => rfl
  | nested flow => cases h

/-- If nothing is reported, no key is a sequence or a mapping. -/
theorem plainKeys_of_walk (value : Document σ) (path : String)
    (hstopped : (layout.walk value path).stopped = none)
    (hunknown : (layout.walk value path).unknown = []) : layout.PlainKeys value path := by
  induction value, path using layout.section_induction with
  | leaf value path hleaf => exact .leaf value path hleaf
  | mapping entries path ih =>
    obtain ⟨hknown, hchildren⟩ := known_of_walk_mapping hstopped hunknown
    refine .mapping entries path (fun entry hentry => isNested_of_isKnown (hknown entry hentry)) ?_
    exact fun child hmem => ih child hmem (hchildren child hmem).1 (hchildren child hmem).2

/-- A walk that gets through and reports nothing has seen all that there is. -/
theorem prune_eq_self (value : Document σ) (path : String) (distinct : Distinct value)
    (hstopped : (layout.walk value path).stopped = none)
    (hunknown : (layout.walk value path).unknown = []) : layout.prune value path = value := by
  induction value, path using layout.section_induction with
  | leaf value path hleaf => exact prune_leaf hleaf path
  | mapping entries path ih =>
    obtain ⟨hkeys, heach⟩ := distinct.entries
    obtain ⟨hknown, hchildren⟩ := known_of_walk_mapping hstopped hunknown
    have hchild : ∀ child ∈ layout.children path entries, Distinct child.1 →
        layout.prune child.1 child.2 = child.1 := fun child hmem hdistinct =>
      ih child hmem hdistinct (hchildren child hmem).1 (hchildren child hmem).2
    have hall : entries.filter (layout.isKept path) = entries := by
      rw [List.filter_eq_self]
      intro entry hentry
      rw [isKept, hknown entry hentry, Bool.true_or]
    have heq : ∀ entry ∈ entries, (entry.1, layout.pruneAt path entry.1 entry.2) = entry := by
      rintro ⟨name, value⟩ hentry
      congr 1
      cases name with
      | scalar literal | nested flow => exact pruneAt_other rfl value
      | text key =>
        have hget := get_of_mem hkeys hentry
        cases hrole : layout.role path key with
        | field => exact pruneAt_field hrole value
        | mapping childPath =>
          rw [pruneAt_mapping hrole]
          exact hchild (value, childPath) (mem_children_mapping hrole hget) (heach _ hentry)
        | items itemPath =>
          cases value with
          | scalar value => simp [pruneAt, Key.asStr, hrole]
          | mapping entries => simp [pruneAt, Key.asStr, hrole]
          | sequence items =>
            have hsame : ∀ item ∈ items, layout.prune item itemPath = item := by
              intro item hitem
              refine hchild (item, itemPath) (mem_children_items hrole hget hitem) ?_
              exact (heach _ hentry).item hitem
            have hitems : items.map (fun item => layout.prune item itemPath) = items :=
              (List.map_congr_left hsame).trans (List.map_id _)
            simp [pruneAt, Key.asStr, hrole, hitems]
    rw [prune_mapping, pruneEntries, hall]
    congr 1
    exact (List.map_congr_left heq).trans (List.map_id _)

/-- What is expected below a key has no sequence or mapping for a key. -/
def PlainBelow (layout : Layout) (path key : String) (value : Document σ) : Prop :=
  match layout.role path key with
  | .mapping childPath => layout.PlainKeys value childPath
  | .items itemPath => ∀ items, value = .sequence items → ∀ item ∈ items,
      layout.PlainKeys item itemPath
  | .field => True

/-- A reader of a section does not see what is pruned, and refuses a key that is a sequence or a
mapping. -/
structure Reads (layout : Layout) (path : String) (read : Document σ → Except ε α) : Prop where
  prune : ∀ value, read (layout.prune value path) = read value
  plain : ∀ value a, read value = .ok a → layout.PlainKeys value path

theorem Reads.bind {β : Type} {path : String} {read : Document σ → Except ε α}
    (h : layout.Reads path read) (next : α → Except ε β) :
    layout.Reads path fun value => read value >>= next where
  prune value := by simp only [h.prune value]
  plain value b hb := by
    cases hread : read value with
    | error error =>
      simp only [hread] at hb
      cases hb
    | ok a => exact h.plain value a hread

end Layout

/-- The entry sets a field, if its key is a string. The reader of keys takes any scalar. -/
def setEntry (refused : ε) (set : α → String → Document σ → Except ε α) (fields : α)
    (entry : Key × Document σ) : Except ε α :=
  match entry.1 with
  | .text key => set fields key entry.2
  | .scalar _ => .ok fields
  | .nested _ => .error refused

/-- A value whose fields are set in the order of the entries. -/
def readFields (refused : ε) (set : α → String → Document σ → Except ε α) (start : α)
    (entries : List (Key × Document σ)) : Except ε α :=
  entries.foldlM (setEntry refused set) start

theorem readFields_cons (refused : ε) (set : α → String → Document σ → Except ε α) (start : α)
    (entry : Key × Document σ) (entries : List (Key × Document σ)) :
    readFields refused set start (entry :: entries) =
      (setEntry refused set start entry).bind fun fields => readFields refused set fields entries :=
  rfl

/-- What was read has had each entry set. -/
theorem set_of_readFields {refused : ε} {set : α → String → Document σ → Except ε α} {start a : α}
    {entries : List (Key × Document σ)} (h : readFields refused set start entries = .ok a) :
    ∀ entry ∈ entries, ∃ s b, setEntry refused set s entry = .ok b := by
  induction entries generalizing start with
  | nil => simp
  | cons entry entries ih =>
    rw [readFields_cons] at h
    cases hset : setEntry refused set start entry with
    | error error =>
      rw [hset] at h
      cases h
    | ok next =>
      rw [hset] at h
      intro other hother
      rcases List.mem_cons.mp hother with rfl | hrest
      · exact ⟨start, next, hset⟩
      · exact ih h other hrest

open Layout in
/-- What is read from the known keys does not depend on other keys that are scalars. -/
theorem readFields_pruneEntries {layout : Layout} {path : String} {refused : ε}
    {set : α → String → Document σ → Except ε α}
    (hunknown : ∀ fields key value, key ∉ layout.known path → set fields key value = .ok fields)
    (hknown : ∀ fields key value, key ∈ layout.known path →
      set fields key (layout.pruneAt path (.text key) value) = set fields key value)
    (start : α) (entries : List (Key × Document σ)) :
    readFields refused set start (layout.pruneEntries path entries) =
      readFields refused set start entries := by
  induction entries generalizing start with
  | nil => rfl
  | cons entry entries ih =>
    obtain ⟨name, value⟩ := entry
    cases hentry : layout.isKept path (name, value) with
    | true =>
      have hprune : layout.pruneEntries path ((name, value) :: entries) =
          (name, layout.pruneAt path name value) :: layout.pruneEntries path entries := by
        simp [pruneEntries, hentry]
      have hset : setEntry refused set start (name, layout.pruneAt path name value) =
          setEntry refused set start (name, value) := by
        cases name with
        | scalar literal | nested flow => rfl
        | text key =>
          refine hknown start key value ?_
          simpa [isKept, isKnown, Key.asStr, Key.isNested] using hentry
      rw [hprune, readFields_cons, readFields_cons, hset]
      simp only [ih]
    | false =>
      have hprune : layout.pruneEntries path ((name, value) :: entries) =
          layout.pruneEntries path entries := by
        simp [pruneEntries, hentry]
      have hskip : setEntry refused set start (name, value) = .ok start := by
        cases name with
        | scalar literal => rfl
        | nested flow => simp [isKept, Key.isNested] at hentry
        | text key =>
          refine hunknown start key value ?_
          simpa [isKept, isKnown, Key.asStr, Key.isNested] using hentry
      rw [hprune, readFields_cons, hskip, ih]
      rfl

/-- A field of a struct, with how an entry sets it. -/
structure StructField (σ α ε : Type) where
  name : String
  set : α → Document σ → Except ε α

/-- The field that a reader of its type fills. -/
def field {β : Type} (name : String) (read : Document σ → Except ε β) (put : α → β → α) :
    StructField σ α ε where
  name := name
  set fields value := (read value).map (put fields)

/-- Keys that are no field are skipped. -/
def setField (fields : List (StructField σ α ε)) (start : α) (key : String) (value : Document σ) :
    Except ε α :=
  match fields.find? fun f => decide (f.name = key) with
  | some f => f.set start value
  | none => .ok start

/-- A struct whose missing fields keep their defaults. -/
def readStruct (refused : ε) (other : Document σ → Except ε Unit)
    (fields : List (StructField σ α ε)) (default : α) : Document σ → Except ε α
  | .mapping entries => readFields refused (setField fields) default entries
  | value => (other value).map fun _ => default

def readSequence (other : Document σ → Except ε Unit) (item : Document σ → Except ε α) :
    Document σ → Except ε (List α)
  | .sequence items => items.mapM item
  | value => (other value).map fun _ => []

section Structs

variable {layout : Layout} {path : String} {fields : List (StructField σ α ε)}

/-- A field that does not see what is pruned below it, and refuses what it must. -/
structure StructField.Fits (layout : Layout) (path : String) (f : StructField σ α ε) : Prop where
  prune : ∀ start value,
    f.set start (layout.pruneAt path (.text f.name) value) = f.set start value
  plain : ∀ start value a, f.set start value = .ok a → layout.PlainBelow path f.name value

theorem read_of_field {β : Type} {name : String} {read : Document σ → Except ε β}
    {put : α → β → α} {start : α} {value : Document σ} {a : α}
    (h : (field name read put).set start value = .ok a) : ∃ b, read value = .ok b := by
  cases hread : read value with
  | error error =>
    simp only [field, hread] at h
    cases h
  | ok b => exact ⟨b, rfl⟩

theorem fits_field {f : StructField σ α ε} (hrole : layout.role path f.name = .field) :
    f.Fits layout path where
  prune start value := by rw [Layout.pruneAt_field hrole]
  plain start value a _ := by
    unfold Layout.PlainBelow
    rw [hrole]
    trivial

theorem fits_mapping {β : Type} {name childPath : String} {read : Document σ → Except ε β}
    {put : α → β → α} (hrole : layout.role path name = .mapping childPath)
    (h : layout.Reads childPath read) : (field name read put).Fits layout path where
  prune start value := by
    simp only [field, Layout.pruneAt_mapping hrole, h.prune]
  plain start value a ha := by
    obtain ⟨b, hb⟩ := read_of_field ha
    simp only [Layout.PlainBelow, field, hrole]
    exact h.plain value b hb

theorem mapM_ok {β : Type} {f : α → Except ε β} {items : List α} {bs : List β}
    (h : items.mapM f = .ok bs) : ∀ item ∈ items, ∃ b, f item = .ok b := by
  induction items generalizing bs with
  | nil => simp
  | cons item items ih =>
    rw [List.mapM_cons] at h
    cases hitem : f item with
    | error error =>
      rw [hitem] at h
      cases h
    | ok b =>
      rw [hitem] at h
      cases hitems : items.mapM f with
      | error error =>
        rw [hitems] at h
        cases h
      | ok rest =>
        intro other hother
        rcases List.mem_cons.mp hother with rfl | hrest
        · exact ⟨b, hitem⟩
        · exact ih hitems other hrest

/-- A sequence of structs. -/
theorem fits_items {β : Type} {name itemPath : String} {other : Document σ → Except ε Unit}
    {item : Document σ → Except ε β} {put : α → List β → α}
    (hrole : layout.role path name = .items itemPath) (h : layout.Reads itemPath item) :
    (field name (readSequence other item) put).Fits layout path where
  prune start value := by
    show ((readSequence other item) (layout.pruneAt path (.text name) value)).map (put start) = _
    congr 1
    cases value with
    | scalar value => simp [Layout.pruneAt, Key.asStr, hrole]
    | mapping entries => simp [Layout.pruneAt, Key.asStr, hrole]
    | sequence items =>
      simp only [Layout.pruneAt, Key.asStr, Option.map_some, Option.getD_some, hrole, readSequence]
      rw [List.mapM_map]
      simp only [Function.comp_def, h.prune]
  plain start value a ha := by
    obtain ⟨b, hb⟩ := read_of_field ha
    simp only [Layout.PlainBelow, field, hrole]
    rintro items rfl entry hentry
    obtain ⟨c, hc⟩ := mapM_ok hb entry hentry
    exact h.plain entry c hc

theorem role_of_flat (hmappings : layout.mappings path = [])
    (hsequences : layout.sequences path = []) (key : String) :
    layout.role path key = .field := by
  simp [Layout.role, hmappings, hsequences]

theorem find_field (hnames : fields.map (·.name) = layout.known path) {key : String}
    (hkey : key ∈ layout.known path) :
    ∃ f ∈ fields, f.name = key ∧ fields.find? (fun f => decide (f.name = key)) = some f := by
  cases hfind : fields.find? fun f => decide (f.name = key) with
  | none =>
    rw [← hnames] at hkey
    obtain ⟨f, hf, rfl⟩ := List.mem_map.mp hkey
    simpa using List.find?_eq_none.mp hfind f hf
  | some f =>
    have hname : f.name = key := by simpa using List.find?_some hfind
    exact ⟨f, List.mem_of_find?_eq_some hfind, hname, rfl⟩

/-- A struct whose fields are what the layout knows is read alike from the pruned document. -/
theorem readStruct_prune (refused : ε) (other : Document σ → Except ε Unit) (default : α)
    (hnames : fields.map (·.name) = layout.known path)
    (hfits : ∀ f ∈ fields, f.Fits layout path) (value : Document σ) :
    readStruct refused other fields default (layout.prune value path) =
      readStruct refused other fields default value := by
  cases value with
  | scalar value => rw [Layout.prune]; simp
  | sequence items => rw [Layout.prune]; simp
  | mapping entries =>
    rw [Layout.prune_mapping]
    apply readFields_pruneEntries
    · intro start key value hkey
      have hnone : (fields.find? fun f => decide (f.name = key)) = none := by
        rw [List.find?_eq_none]
        intro f hf
        rw [decide_eq_true_eq]
        rintro rfl
        exact hkey (by rw [← hnames]; exact List.mem_map_of_mem hf)
      simp only [setField, hnone]
    · intro start key value hkey
      obtain ⟨f, hf, rfl, hfind⟩ := find_field hnames hkey
      simp only [setField, hfind]
      exact (hfits f hf).prune start value

/-- What a known key held was set by its field. -/
theorem plainBelow_of_read {refused : ε} {default a : α} {entries : List (Key × Document σ)}
    (hnames : fields.map (·.name) = layout.known path)
    (hfits : ∀ f ∈ fields, f.Fits layout path)
    (h : readFields refused (setField fields) default entries = .ok a) {key : String}
    (hkey : key ∈ layout.known path) {value : Document σ} (hget : get entries key = some value) :
    layout.PlainBelow path key value := by
  obtain ⟨s, b, hset⟩ := set_of_readFields h _ (get_mem hget)
  obtain ⟨f, hf, rfl, hfind⟩ := find_field hnames hkey
  simp only [setEntry, setField, hfind] at hset
  exact (hfits f hf).plain s value b hset

theorem readStruct_reads (sound : layout.Sound) (refused : ε) (other : Document σ → Except ε Unit)
    (default : α) (hnames : fields.map (·.name) = layout.known path)
    (hfits : ∀ f ∈ fields, f.Fits layout path) :
    layout.Reads path (readStruct refused other fields default) where
  prune := readStruct_prune refused other default hnames hfits
  plain value a h := by
    cases value with
    | scalar value => exact .leaf _ _ (by simp)
    | sequence items => exact .leaf _ _ (by simp)
    | mapping entries =>
      have h : readFields refused (setField fields) default entries = .ok a := h
      refine .mapping entries path (fun entry hentry => ?_) fun child hchild => ?_
      · obtain ⟨s, b, hset⟩ := set_of_readFields h entry hentry
        cases hkey : entry.1 with
        | text key => rfl
        | scalar literal => rfl
        | nested flow =>
          rw [setEntry, hkey] at hset
          cases hset
      · rcases List.mem_append.mp hchild with hchild | hchild
        · obtain ⟨key, hkey, hchild⟩ := List.mem_filterMap.mp hchild
          obtain ⟨value, hget, rfl⟩ := Option.map_eq_some_iff.mp hchild
          have hbelow := plainBelow_of_read hnames hfits h (sound.mappings path key hkey) hget
          simpa only [Layout.PlainBelow, Layout.role, if_pos hkey] using hbelow
        · obtain ⟨item, hitem, hchild⟩ := List.mem_flatMap.mp hchild
          obtain ⟨hknown, hrole⟩ := sound.sequences path item hitem
          split at hchild
          · rename_i values hget
            obtain ⟨value, hvalue, rfl⟩ := List.mem_map.mp hchild
            have hbelow := plainBelow_of_read hnames hfits h hknown hget
            simp only [Layout.PlainBelow, hrole] at hbelow
            exact hbelow values rfl value hvalue
          · cases hchild

/-- A struct without sections below it. -/
theorem readStruct_reads_flat (sound : layout.Sound) (refused : ε)
    (other : Document σ → Except ε Unit) (default : α)
    (hnames : fields.map (·.name) = layout.known path) (hmappings : layout.mappings path = [])
    (hsequences : layout.sequences path = []) :
    layout.Reads path (readStruct refused other fields default) :=
  readStruct_reads sound refused other default hnames fun f _ =>
    fits_field (role_of_flat hmappings hsequences f.name)

end Structs

end ProxyFleet.SectionTrees
