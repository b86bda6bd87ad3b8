import ProxyFleet.OrderedMaps

/-!
# Canonical queries

The canonical form of a query is the map that is collected from its parameters, without
the labels and with the caseless values in lower case. A name keeps its last value.
-/
namespace ProxyFleet

section LowerCase

/-- Only capital letters are changed. -/
theorem toLower_cases (c : Char) :
    c.toLower = c ∨ 0x41 ≤ c.toNat ∧ c.toNat ≤ 0x5A ∧ c.toLower.toNat = c.toNat + 0x20 := by
  by_cases h : c.val ≥ 'A'.val ∧ c.val ≤ 'Z'.val
  · right
    have hlower : c.toLower.val = c.val + ('a'.val - 'A'.val) := congrArg Char.val (dif_pos h)
    have h₁ := UInt32.le_iff_toNat_le.mp h.1
    have h₂ := UInt32.le_iff_toNat_le.mp h.2
    have hA : 'A'.val.toNat = 0x41 := rfl
    have hZ : 'Z'.val.toNat = 0x5A := rfl
    have hd : ('a'.val - 'A'.val).toNat = 0x20 := rfl
    rw [hA] at h₁
    rw [hZ] at h₂
    refine ⟨h₁, h₂, ?_⟩
    show c.toLower.val.toNat = c.val.toNat + 0x20
    rw [hlower, UInt32.toNat_add, hd]
    omega
  · exact .inl (dif_neg h)

theorem toLower_toLower (c : Char) : c.toLower.toLower = c.toLower := by
  rcases toLower_cases c with h | ⟨hlow, -, hc⟩
  · rw [h, h]
  · rcases toLower_cases c.toLower with h | ⟨-, hhigh, -⟩
    · exact h
    · omega

@[simp] theorem toAsciiLowercase_idem (t : Text) :
    toAsciiLowercase (toAsciiLowercase t) = toAsciiLowercase t := by
  rw [toAsciiLowercase, toAsciiLowercase, List.map_map]
  exact List.map_congr_left fun c _ => toLower_toLower c

end LowerCase

@[simp] theorem Json.asStr_text (value : Text) : (Json.text value).asStr = some value := by
  simp [Json.text, Json.asStr]

section Queries

variable (lib : Libraries)

/-- The parameters of a URL in their order. -/
def queryPairs (url : Url) : List (Text × Text) := lib.parseForm (utf8Encode (url.query.getD []))

/-- A value as far as it distinguishes two parameters of a name in lower case. -/
def canonicalValue (key value : Text) : Text :=
  if key ∈ caselessKeys then toAsciiLowercase value else value

/-- What the canonical query keeps of a parameter. -/
def canonicalPair (pair : Text × Text) : Option (String × Json) :=
  if toAsciiLowercase pair.1 ∈ remarkKeys then none
  else some (String.ofList (toAsciiLowercase pair.1),
    .text (canonicalValue (toAsciiLowercase pair.1) pair.2))

theorem canonicalQuery_eq (url : Url) :
    canonicalQuery lib url =
      OrderedMap.collect ((queryPairs lib url).filterMap canonicalPair) := by
  rw [OrderedMap.collect, List.foldl_filterMap, canonicalQuery, queryPairs]
  congr 1
  funext params pair
  rw [canonicalPair]
  dsimp only
  split
  · rfl
  · rfl

variable {lib} {url : Url}

theorem sorted_canonicalQuery : OrderedMap.Sorted (canonicalQuery lib url) := by
  rw [canonicalQuery_eq]
  exact OrderedMap.sorted_collect

theorem mem_of_mem_collect {α : Type} {entries : List (String × α)} {entry : String × α}
    (h : entry ∈ OrderedMap.collect entries) : entry ∈ entries := by
  have hget := (OrderedMap.lookup_eq_some_iff_mem OrderedMap.sorted_collect.nodup_keys).mpr h
  rw [← OrderedMap.get, OrderedMap.get_collect] at hget
  obtain ⟨front, behind, hsplit, -⟩ := List.lookup_eq_some_iff.mp hget
  have hmem : entry ∈ entries.reverse := by simp [hsplit]
  exact List.mem_reverse.mp hmem

/-- Names are in lower case, and values are texts. -/
theorem mem_canonicalQuery {entry : String × Json} (h : entry ∈ canonicalQuery lib url) :
    ∃ key value, entry = (String.ofList (toAsciiLowercase key), .text value) := by
  rw [canonicalQuery_eq] at h
  obtain ⟨pair, -, hpair⟩ := List.mem_filterMap.mp (mem_of_mem_collect h)
  rw [canonicalPair] at hpair
  split at hpair
  · cases hpair
  · exact ⟨_, _, (Option.some.inj hpair).symm⟩

/-- The text of a parameter in the canonical query. -/
def queryText (lib : Libraries) (url : Url) (key : String) : Option Text :=
  (OrderedMap.get (canonicalQuery lib url) key).bind Json.asStr

end Queries

section LastValues

variable {name : Text} {pairs pairs₁ pairs₂ : List (Text × Text)}

/-- The last value of the parameters that are called alike. -/
def lastValue (name : Text) (pairs : List (Text × Text)) : Option Text :=
  ((pairs.filter fun pair => toAsciiLowercase pair.1 = name).getLast?).map Prod.snd

theorem lastValue_append :
    lastValue name (pairs₁ ++ pairs₂) = (lastValue name pairs₂).or (lastValue name pairs₁) := by
  rw [lastValue, List.filter_append, List.getLast?_append, Option.map_or, lastValue, lastValue]

theorem lastValue_singleton (pair : Text × Text) :
    lastValue name [pair] = if toAsciiLowercase pair.1 = name then some pair.2 else none := by
  rw [lastValue, List.filter_singleton]
  split <;> simp_all

theorem lastValue_eq_none :
    lastValue name pairs = none ↔ ∀ pair ∈ pairs, toAsciiLowercase pair.1 ≠ name := by
  rw [lastValue, Option.map_eq_none_iff, List.getLast?_eq_none_iff, List.filter_eq_nil_iff]
  simp

/-- What is collected under a name. -/
theorem get_collect_canonicalPair (name : Text) (pairs : List (Text × Text)) :
    OrderedMap.get (OrderedMap.collect (pairs.filterMap canonicalPair)) (String.ofList name) =
      if name ∈ remarkKeys then none
      else (lastValue name pairs).map fun value => .text (canonicalValue name value) := by
  induction pairs using List.reverseRecOn with
  | nil => simp [OrderedMap.collect, OrderedMap.get, lastValue]
  | append_singleton pairs pair ih =>
    rw [List.filterMap_append, lastValue_append, lastValue_singleton]
    by_cases hlabel : toAsciiLowercase pair.1 ∈ remarkKeys
    · have hnone : [pair].filterMap canonicalPair = [] := by simp [canonicalPair, hlabel]
      rw [hnone, List.append_nil, ih]
      split
      · rfl
      · next hname =>
        rw [if_neg fun he : toAsciiLowercase pair.1 = name => hname (he ▸ hlabel), Option.none_or]
    · have hsome : [pair].filterMap canonicalPair =
          [(String.ofList (toAsciiLowercase pair.1),
            .text (canonicalValue (toAsciiLowercase pair.1) pair.2))] := by
        simp [canonicalPair, hlabel]
      rw [hsome, OrderedMap.collect_append_singleton, OrderedMap.get_insert, ih]
      by_cases hname : name = toAsciiLowercase pair.1
      · subst hname
        simp [hlabel]
      · rw [if_neg fun he => hname (String.ofList_injective he), if_neg (Ne.symm hname),
          Option.none_or]

/-- Two queries agree when they agree on the last value of every name that is no label. -/
theorem collect_canonicalPair_eq_iff :
    OrderedMap.collect (pairs₁.filterMap canonicalPair) =
        OrderedMap.collect (pairs₂.filterMap canonicalPair) ↔
      ∀ name, name ∉ remarkKeys → (lastValue name pairs₁).map (canonicalValue name) =
        (lastValue name pairs₂).map (canonicalValue name) := by
  have htext : ∀ (name : Text) (value : Option Text),
      (value.map fun value => Json.text (canonicalValue name value)) =
        (value.map (canonicalValue name)).map Json.text := by
    intro name value
    rw [Option.map_map]
    rfl
  have hinjective : Function.Injective Json.text := by
    intro t u h
    have hstr := congrArg Json.asStr h
    rw [Json.asStr_text, Json.asStr_text] at hstr
    exact Option.some.inj hstr
  constructor
  · intro h name hname
    have hget := congrArg (OrderedMap.get · (String.ofList name)) h
    rw [get_collect_canonicalPair, get_collect_canonicalPair, if_neg hname, if_neg hname, htext,
      htext] at hget
    exact Option.map_injective hinjective hget
  · intro h
    refine OrderedMap.ext OrderedMap.sorted_collect OrderedMap.sorted_collect fun key => ?_
    rw [← String.ofList_toList (s := key), get_collect_canonicalPair, get_collect_canonicalPair]
    split
    · rfl
    · next hname => rw [htext, htext, h _ hname]

end LastValues

end ProxyFleet
