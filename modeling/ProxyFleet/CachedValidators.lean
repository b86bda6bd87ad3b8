import ProxyFleet.SettledSources

/-!
# Cached validators describe ingested content

Every statement of a careful refresh keeps each source settled or pending. So between
refreshes a `304` answer copies the identities of the body whose validators
the request sent. Without that care it copies older ones.
-/
namespace ProxyFleet

variable {F : Type}

namespace RefreshWorld

variable {lib : Libraries} {s t : Store F} {history : List RefreshEvent} {p p' : RefreshProgress}

/-- Progress that gathers the same proxies on the same tables. -/
theorem Refreshing.frame (h : Refreshing lib s history p) (same : SameUpstream t s)
    (generation : p'.generation = p.generation)
    (remaining : (p'.remaining.map (·.name)).Sublist (p.remaining.map (·.name)))
    (gathering : p'.gathering = p.gathering) (gathered : p'.gathered lib = p.gathered lib) :
    Refreshing lib t history p' where
  positive := generation ▸ h.positive
  newest := by rw [generation, same.next, h.newest]
  distinct := h.distinct.sublist remaining
  distinctPending := h.distinctPending
  apart name hn := fun hr => h.apart name hn (remaining.subset hr)
  untouched m hm hg := by
    rw [same.members] at hm
    obtain ⟨hr, hp⟩ := h.untouched m hm (hg.trans generation)
    exact ⟨fun hn => hr (remaining.subset hn), hp⟩
  carried entry he := (h.carried entry he).frame (fun v => same.cached _ v) (fun _ => rfl)
    fun m hm _ => same.members ▸ hm
  gathered hg := by
    rw [gathered]
    exact h.gathered (gathering ▸ hg)
  done hg := h.done (gathering ▸ hg)

variable {w : RefreshWorld F}

/-- A step that leaves the upstream tables and the history alone. -/
theorem Validated.frame (h : Validated lib w) (same : SameUpstream t w.store)
    {progress : Option RefreshProgress} (idle : progress = none → pendingBodies w.history = [])
    (refreshing : ∀ p', progress = some p' → Refreshing lib t w.history p') :
    Validated lib { store := t, progress := progress, history := w.history : RefreshWorld F } where
  positive := lt_of_lt_of_eq h.positive same.next.symm
  bounded m hm := by
    have hm : m ∈ w.store.members := same.members ▸ hm
    exact lt_of_lt_of_eq (h.bounded m hm) same.next.symm
  settled name hn := (h.settled name hn).frame (fun v => same.cached name v) (fun _ => rfl)
    (fun _ hi => hi) fun _ => Store.newest_congr fun m _ => by rw [same.members]
  idle := idle
  refreshing := refreshing

/-- Nothing is pending where a refresh ends. -/
theorem Validated.closed (h : Validated lib w) (same : SameUpstream t w.store)
    {event : RefreshEvent} (ends : (∃ g, event = .completed g) ∨ event = .ended ∨ event = .stopped)
    (pending : ∀ name ∈ pendingNames w.history, Settled w.store w.history name)
    {progress : Option RefreshProgress}
    (refreshing : ∀ p', progress = some p' → Refreshing lib t (event :: w.history) p') :
    Validated lib {
      store := t, progress := progress, history := event :: w.history : RefreshWorld F } := by
  have hsettled : ∀ name, Settled w.store w.history name := by
    intro name
    by_cases hn : name ∈ pendingNames w.history
    · exact pending name hn
    · exact h.settled name hn
  refine ⟨?_, ?_, ?_, ?_, refreshing⟩
  · exact lt_of_lt_of_eq h.positive same.next.symm
  · intro m hm
    have hm : m ∈ w.store.members := same.members ▸ hm
    exact lt_of_lt_of_eq (h.bounded m hm) same.next.symm
  · intro name _
    refine (hsettled name).frame (fun v => same.cached name v) ?_ ?_
      fun _ => Store.newest_congr fun m _ => by rw [same.members]
    · rcases ends with ⟨g, rfl⟩ | rfl | rfl <;> exact fun _ => rfl
    · rcases ends with ⟨g, rfl⟩ | rfl | rfl <;> exact fun _ hi => hi
  · rcases ends with ⟨g, rfl⟩ | rfl | rfl <;> exact fun _ => rfl

/-- A refresh that may be given up leaves every pending source settled. -/
theorem Validated.abandoned [F64 F] (h : Validated lib w) (abandonable : w.Abandonable lib) :
    ∀ name ∈ pendingNames w.history, Settled w.store w.history name := by
  intro name hn
  cases hp : w.progress with
  | none => simp [pendingNames, h.idle hp] at hn
  | some p =>
    have hr := h.refreshing p hp
    obtain ⟨identities, hentry⟩ := mem_pendingNames.mp hn
    cases hg : p.gathering with
    | false => simp [hr.done hg] at hentry
    | true =>
      rcases List.eq_nil_or_concat identities with rfl | ⟨_, hash, rfl⟩
      · exact (hr.carried _ hentry).settled_of_empty fun _ => rfl
      · obtain ⟨proxy, hproxy, rfl, -⟩ := (hr.gathered hg name hash).mpr ⟨_, hentry, rfl, by simp⟩
        intro v hv
        simp [abandonable p hp hg proxy hproxy v] at hv

theorem Validated.begun (h : Validated lib w) (idle : w.progress = none) (now : Time)
    (runId : String) {sources : List SubscriptionSource} (distinct : (sources.map (·.name)).Nodup) :
    Validated lib {
      store := w.store.beginRefresh now runId sources.length
      progress := some {
        runId := runId
        generation := w.store.nextGeneration
        sourceCount := sources.length
        remaining := sources }
      history := .begun w.store.nextGeneration :: w.history : RefreshWorld F } := by
  have hpending := h.idle idle
  have hnext := Store.nextGeneration_beginRefresh w.store now runId sources.length
  have hpositive := h.positive
  constructor
  · refine lt_of_lt_of_eq ?_ hnext.symm
    omega
  · intro m hm
    have hlt := h.bounded m hm
    refine lt_of_lt_of_eq ?_ hnext.symm
    omega
  · intro name _
    exact (h.settled name (by simp [pendingNames, hpending])).frame
      (fun v => cachedValidator_of_sources rfl name v) (fun _ => rfl) (fun _ hi => hi)
      fun _ => Store.newest_congr fun _ _ => Iff.rfl
  · exact fun hp => by cases hp
  · rintro p hp
    obtain rfl := Option.some.inj hp
    refine ⟨hpositive, hnext.symm, distinct, List.nodup_nil, by simp [pendingBodies], ?_,
      by simp [pendingBodies], ?_, fun _ => rfl⟩
    · intro m hm hg
      exact absurd hg (ne_of_lt (h.bounded m hm))
    · intro _ name hash
      simp [RefreshProgress.gathered, pendingBodies]

/-- The validators after a body: those that it brought, or else those that were stored. -/
theorem cachedValidator_recordSourceSuccess (s : Store F) (now : Time) (name url : String)
    (etag lastModified : Option String) (v : Validator) :
    (s.recordSourceSuccess now name url etag lastModified).cachedValidator name v =
      ((match v with
        | .etag => etag
        | .lastModified => lastModified) <|> s.cachedValidator name v) := by
  cases v <;>
    rw [Store.cachedValidator, Store.sourceHttpCache_recordSourceSuccess, if_pos rfl] <;> rfl

theorem cachedValidator_recordSourceSuccess_ne (s : Store F) (now : Time) {name other : String}
    (url : String) (etag lastModified : Option String) (h : other ≠ name) (v : Validator) :
    (s.recordSourceSuccess now name url etag lastModified).cachedValidator other v =
      s.cachedValidator other v := by
  cases v <;>
    rw [Store.cachedValidator, Store.sourceHttpCache_recordSourceSuccess, if_neg h] <;> rfl

theorem carrier_body_ne {generation : ℤ} {time : Time} {source name : String}
    {etag lastModified : Option String} {identities : List String} (h : source ≠ name)
    (v : Validator) :
    carrier name v (.body generation time source etag lastModified identities :: history) =
      carrier name v history := if_neg fun hc => h hc.1

/-- The proxies of a body, by source and identity. -/
theorem exists_accepted_iff (source : SubscriptionSource) (body : Text) (name hash : String) :
    (∃ proxy ∈ (parseSubscription lib body source.name).accepted,
      proxy.source = name ∧ proxy.configHash = hash) ↔
      source.name = name ∧ hash ∈ bodyIdentities lib source body := by
  have hsource : ∀ proxy ∈ (parseSubscription lib body source.name).accepted,
      proxy.source = source.name := by
    intro proxy hp
    obtain ⟨line, -, hline⟩ := mem_accepted hp
    obtain ⟨-, -, -, hs, -⟩ := parseShareUrl_ok hline
    exact hs
  constructor
  · rintro ⟨proxy, hp, rfl, rfl⟩
    exact ⟨(hsource proxy hp).symm, List.mem_map_of_mem hp⟩
  · rintro ⟨rfl, hmem⟩
    obtain ⟨proxy, hp, rfl⟩ := List.mem_map.mp hmem
    exact ⟨proxy, hp, hsource proxy hp, rfl⟩

/-- The members of the store are not newer than the current refresh. -/
theorem Validated.generation_le (h : Validated lib w) (progress : w.progress = some p) :
    ∀ m ∈ w.store.members, m.generation ≤ p.generation := by
  intro m hm
  have hlt := h.bounded m hm
  have hnew := (h.refreshing p progress).newest
  omega

/-- A source is settled once the identities of the body that carried its validators are its
members in a new generation. -/
theorem settled_of_carried {s t : Store F} {history : List RefreshEvent} {name : String}
    {identities ingested : List String} {generation : ℤ}
    (carried : CarriedBy s history name identities) (sources : t.sources = s.sources)
    (added : ∀ m : GenerationMember, m.sourceName = name → (m ∈ t.members ↔
      m ∈ s.members ∨ m.generation = generation ∧ m.configHash ∈ identities))
    (older : ∀ m ∈ s.members, m.sourceName = name → m.generation < generation)
    (complete : ∀ hash ∈ identities, hash ∈ ingested ++ ingestedIdentities history) :
    Settled t (.ingested ingested :: history) name := by
  intro v hv
  rw [cachedValidator_of_sources sources] at hv
  obtain ⟨hc, hnone⟩ := carried v hv
  refine ⟨identities, hc, fun hash => ?_, complete⟩
  by_cases hempty : identities = []
  · subst hempty
    refine iff_of_false ?_ List.not_mem_nil
    rintro ⟨g, hg, -⟩
    rcases (added _ rfl).mp hg with hg | ⟨-, hg⟩
    · exact hnone rfl _ hg rfl
    · cases hg
  · exact Store.newest_of_added added older (List.exists_mem_of_ne_nil _ hempty)

/-- The validators that a body brings are carried by it, when it replaces all that were
stored. -/
theorem carriedBy_recordBody {s : Store F} {now : Time} {name url : String}
    {etag lastModified : Option String} {identities : List String} {generation : ℤ}
    (replaced : etag = none → s.cachedValidator name .etag = none)
    (replaced' : lastModified = none → s.cachedValidator name .lastModified = none)
    (memberless : etag.isSome = true ∨ lastModified.isSome = true → identities = [] →
      ∀ m ∈ (s.recordSourceSuccess now name url etag lastModified).members, m.sourceName ≠ name) :
    CarriedBy (s.recordSourceSuccess now name url etag lastModified)
      (.body generation now name etag lastModified identities :: history) name identities := by
  intro v hv
  -- The stored validator is the one that the body brought.
  rw [cachedValidator_recordSourceSuccess] at hv
  have hown : (match v with
      | .etag => etag
      | .lastModified => lastModified).isSome = true := by
    cases v with
    | etag =>
      cases etag with
      | some _ => rfl
      | none => simp [replaced rfl] at hv
    | lastModified =>
      cases lastModified with
      | some _ => rfl
      | none => simp [replaced' rfl] at hv
  refine ⟨if_pos ⟨rfl, hown⟩, memberless ?_⟩
  cases v with
  | etag => exact .inl hown
  | lastModified => exact .inr hown

section Careful

variable [F64 F]

/-- A body makes its source pending and leaves the other sources alone. -/
theorem Validated.bodyRecorded (h : Validated lib w) (progress : w.progress = some p)
    (phase : p.phase = .fetching) {source : SubscriptionSource} (asked : source ∈ p.remaining)
    {now : Time} {body : Text} {etag lastModified : Option String}
    (careful : w.Careful lib (.answer now source (.ok (.body body etag lastModified)))) :
    Validated lib {
      store := w.store.recordSourceSuccess now source.name source.url etag lastModified
      progress := some (p.recordBody source body)
      history := .body p.generation now source.name etag lastModified
        (bodyIdentities lib source body) :: w.history : RefreshWorld F } := by
  have hr := h.refreshing p progress
  have hasked : source.name ∈ p.remaining.map (·.name) := List.mem_map_of_mem asked
  obtain ⟨hmembers, hruns⟩ := w.store.recordSourceSuccess_upstream now source.name source.url etag
    lastModified
  have hnext := nextGeneration_of_runs hruns
  have hnewest : ∀ name hash, (w.store.recordSourceSuccess now source.name source.url etag
      lastModified).Newest name hash ↔ w.store.Newest name hash :=
    fun name hash => Store.newest_congr fun m _ => by rw [hmembers]
  constructor
  · exact lt_of_lt_of_eq h.positive hnext.symm
  · intro m hm
    rw [hmembers] at hm
    exact lt_of_lt_of_eq (h.bounded m hm) hnext.symm
  · intro name hn
    simp only [pendingNames, pendingBodies, List.map_cons, List.mem_cons, not_or] at hn
    exact (h.settled name hn.2).frame
      (cachedValidator_recordSourceSuccess_ne w.store now source.url etag lastModified hn.1)
      (carrier_body_ne (Ne.symm hn.1)) (fun _ hi => hi) (hnewest name)
  · exact fun hp => by cases hp
  · rintro q hq
    obtain rfl := Option.some.inj hq
    have hnot : source.name ∉ pendingNames w.history := fun hn => hr.apart _ hn hasked
    constructor
    · exact hr.positive
    · exact hr.newest.trans hnext.symm
    · exact hr.distinct.sublist (List.erase_sublist.map _)
    · exact List.nodup_cons.mpr ⟨hnot, hr.distinctPending⟩
    · intro name hn
      rcases List.mem_cons.mp hn with rfl | hn
      · exact not_mem_names_erase hr.distinct asked
      · exact fun hrem => hr.apart name hn (names_erase_subset _ _ hrem)
    · intro m hm hg
      rw [hmembers] at hm
      obtain ⟨hrem, hpend⟩ := hr.untouched m hm hg
      refine ⟨fun hn => hrem (names_erase_subset _ _ hn), fun hn => ?_⟩
      rcases List.mem_cons.mp hn with he | hn
      · exact hrem (he ▸ hasked)
      · exact hpend hn
    · intro entry he
      rcases List.mem_cons.mp he with rfl | he
      · exact carriedBy_recordBody careful.1 careful.2.1 fun hbrought hnil m hm =>
          careful.2.2 hbrought hnil m (hmembers ▸ hm)
      · have hne : entry.1 ≠ source.name :=
          fun heq => hnot (heq ▸ List.mem_map_of_mem he)
        exact (hr.carried entry he).frame
          (cachedValidator_recordSourceSuccess_ne w.store now source.url etag lastModified hne)
          (carrier_body_ne (Ne.symm hne)) fun m hm _ => hmembers ▸ hm
    · intro _ name hash
      have hold := hr.gathered (by simp [RefreshProgress.gathering, phase]) name hash
      simp only [RefreshProgress.gathered, phase, List.append_nil] at hold
      simp only [RefreshProgress.gathered, RefreshProgress.recordBody, List.mem_append,
        or_and_right, exists_or, pendingBodies, List.mem_cons, exists_eq_left, hold,
        exists_accepted_iff]
      exact or_comm
    · intro hg
      cases hg

omit [F64 F] in
/-- A `304` copies the newest members of its source, which stays as settled as it was. -/
theorem Validated.membersCopied (h : Validated lib w) (progress : w.progress = some p)
    (phase : p.phase = .fetching) {source : SubscriptionSource} (asked : source ∈ p.remaining)
    (now : Time) (identities : List String) :
    Validated lib {
      store := (w.store.copyCachedSourceGeneration source.name p.generation).1
      progress := some (p.recordCopy source
        (w.store.copyCachedSourceGeneration source.name p.generation).2)
      history := .notModified p.generation now source.name identities :: w.history :
        RefreshWorld F } := by
  have hr := h.refreshing p progress
  have hasked : source.name ∈ p.remaining.map (·.name) := List.mem_map_of_mem asked
  have older : ∀ m ∈ w.store.members, m.sourceName = source.name → m.generation < p.generation :=
    fun m hm hn => lt_of_le_of_ne (h.generation_le progress m hm)
      fun hg => (hr.untouched m hm hg).1 (hn ▸ hasked)
  have hsources : (w.store.copyCachedSourceGeneration source.name p.generation).1.sources =
      w.store.sources := Store.copyCachedSourceGeneration_sources w.store source.name p.generation
  have hnext : (w.store.copyCachedSourceGeneration source.name p.generation).1.nextGeneration =
      w.store.nextGeneration :=
    nextGeneration_of_runs (Store.copyCachedSourceGeneration_runs w.store source.name p.generation)
  have hnot : source.name ∉ pendingNames w.history := fun hn => hr.apart _ hn hasked
  constructor
  · exact lt_of_lt_of_eq h.positive hnext.symm
  · intro m hm
    rcases (Store.mem_copyCachedSourceGeneration _ _).mp hm with hm | ⟨-, -, hg, -, -⟩
    · exact lt_of_lt_of_eq (h.bounded m hm) hnext.symm
    · have hnew := hr.newest
      refine lt_of_lt_of_eq ?_ hnext.symm
      omega
  · intro name hn
    exact (h.settled name hn).frame (cachedValidator_of_sources hsources name) (fun _ => rfl)
      (fun _ hi => hi) fun _ => Store.newest_copyCachedSourceGeneration older
  · exact fun hp => by cases hp
  · rintro q hq
    obtain rfl := Option.some.inj hq
    constructor
    · exact hr.positive
    · exact hr.newest.trans hnext.symm
    · exact hr.distinct.sublist (List.erase_sublist.map _)
    · exact hr.distinctPending
    · exact fun name hn hrem => hr.apart name hn (names_erase_subset _ _ hrem)
    · intro m hm hg
      rcases (Store.mem_copyCachedSourceGeneration _ _).mp hm with hm | ⟨-, -, -, hname, -⟩
      · obtain ⟨hrem, hpend⟩ := hr.untouched m hm hg
        exact ⟨fun hn => hrem (names_erase_subset _ _ hn), hpend⟩
      · rw [hname]
        exact ⟨not_mem_names_erase hr.distinct asked, hnot⟩
    · intro entry he
      have hne : entry.1 ≠ source.name := fun heq => hnot (heq ▸ List.mem_map_of_mem he)
      refine (hr.carried entry he).frame (cachedValidator_of_sources hsources entry.1)
        (fun _ => rfl) fun m hm hname => ?_
      rcases (Store.mem_copyCachedSourceGeneration _ _).mp hm with hm | ⟨-, -, -, hsource, -⟩
      · exact hm
      · exact absurd (hname.symm.trans hsource) hne
    · intro _ name hash
      have hold := hr.gathered (by simp [RefreshProgress.gathering, phase]) name hash
      simp only [RefreshProgress.gathered, phase, List.append_nil] at hold
      simp only [RefreshProgress.gathered, RefreshProgress.recordCopy, List.append_nil,
        pendingBodies]
      exact hold
    · intro hg
      cases hg

/-- The ingest settles every source whose body was pending. -/
theorem Validated.ingested (h : Validated lib w) (progress : w.progress = some p)
    (phase : p.phase = .fetching) (answered : p.remaining = []) {now : Time}
    {newId : ℕ → String} {store : Store F} {inserted : ℕ}
    (ok : w.store.ingestMany now p.generation p.parsed newId = .ok (store, inserted)) :
    Validated lib {
      store := store
      progress := some { p with phase := .ingested }
      history := .ingested (p.parsed.map (·.configHash)) :: w.history : RefreshWorld F } := by
  have hr := h.refreshing p progress
  obtain ⟨hmembers, hsources, hruns⟩ := Store.members_ingestMany ok
  have hnext : store.nextGeneration = w.store.nextGeneration := nextGeneration_of_runs hruns
  have hgathered := hr.gathered (by simp [RefreshProgress.gathering, phase])
  simp only [RefreshProgress.gathered, phase, List.append_nil] at hgathered
  constructor
  · exact lt_of_lt_of_eq h.positive hnext.symm
  · intro m hm
    rcases (hmembers m).mp hm with hm | ⟨proxy, -, rfl⟩
    · exact lt_of_lt_of_eq (h.bounded m hm) hnext.symm
    · have hnew := hr.newest
      refine lt_of_lt_of_eq ?_ hnext.symm
      show p.generation < w.store.nextGeneration
      omega
  · intro name _
    have hadded : ∀ m : GenerationMember, m.sourceName = name → (m ∈ store.members ↔
        m ∈ w.store.members ∨ m.generation = p.generation ∧
          ∃ entry ∈ pendingBodies w.history, entry.1 = name ∧ m.configHash ∈ entry.2) := by
      intro m hm
      rw [hmembers, ← hgathered]
      refine or_congr_right ?_
      constructor
      · rintro ⟨proxy, hp, rfl⟩
        exact ⟨rfl, proxy, hp, hm, rfl⟩
      · rintro ⟨hg, proxy, hp, hs, hh⟩
        exact ⟨proxy, hp, by rw [← hg, hs, ← hm, hh]⟩
    by_cases hn : name ∈ pendingNames w.history
    · obtain ⟨identities, hentry⟩ := mem_pendingNames.mp hn
      have hcarried : CarriedBy w.store w.history name identities := hr.carried _ hentry
      have honly : ∀ hash, (∃ entry ∈ pendingBodies w.history, entry.1 = name ∧ hash ∈ entry.2) ↔
          hash ∈ identities := by
        intro hash
        constructor
        · rintro ⟨entry, he, hname, hmem⟩
          obtain rfl := RowUpdates.eq_of_key_eq hr.distinctPending he hentry hname
          exact hmem
        · exact fun hmem => ⟨_, hentry, rfl, hmem⟩
      simp only [honly] at hadded
      apply settled_of_carried hcarried hsources hadded
      · intro m hm hname
        exact lt_of_le_of_ne (h.generation_le progress m hm)
          fun hg => (hr.untouched m hm hg).2 (hname ▸ hn)
      · intro hash hh
        obtain ⟨proxy, hp, -, rfl⟩ := (hgathered name hash).mpr ⟨_, hentry, rfl, hh⟩
        exact List.mem_append_left _ (List.mem_map_of_mem hp)
    · refine (h.settled name hn).frame (cachedValidator_of_sources hsources name) (fun _ => rfl)
        (List.subset_append_right _ _) fun _ => Store.newest_congr fun m hm => ?_
      rw [hadded m hm]
      refine or_iff_left ?_
      rintro ⟨-, entry, he, rfl, -⟩
      exact hn (List.mem_map_of_mem he)
  · exact fun hp => by cases hp
  · rintro q hq
    obtain rfl := Option.some.inj hq
    refine ⟨hr.positive, hr.newest.trans hnext.symm, hr.distinct, List.nodup_nil,
      by simp [pendingBodies], ?_, by simp [pendingBodies], fun hg => (by cases hg), fun _ => rfl⟩
    intro m _ _
    simp [answered, pendingBodies]

omit [F64 F] in
/-- The end of a whole refresh comes after its ingest. -/
theorem Validated.runRecorded (h : Validated lib w) (progress : w.progress = some p)
    (phase : p.phase = .ingested) (now : Time) :
    Validated lib {
      store := w.store.recordFinishedRun now p.runId
        (if p.complete then .complete else .partialRun) p.successfulSources p.accepted
      progress := if p.complete then some { p with phase := .runRecorded } else none
      history := (if p.complete then .completed p.generation else .ended) :: w.history :
        RefreshWorld F } := by
  have hr := h.refreshing p progress
  have hdone := hr.done (by simp [RefreshProgress.gathering, phase])
  have same := SameUpstream.recordFinishedRun w.store now p.runId
    (if p.complete then .complete else .partialRun) p.successfulSources p.accepted
  have hnone : pendingBodies
      ((if p.complete then .completed p.generation else .ended) :: w.history) = [] := by
    split <;> rfl
  refine h.closed same ?_ ?_ ?_
  · split
    · exact .inl ⟨_, rfl⟩
    · exact .inr (.inl rfl)
  · simp [pendingNames, hdone]
  · rintro q hq
    split at hq
    · obtain rfl := Option.some.inj hq
      refine ⟨hr.positive, hr.newest.trans same.next.symm, hr.distinct,
        by simp [pendingNames, hnone], by simp [pendingNames, hnone], ?_, by simp [hnone],
        fun hg => (by cases hg), fun _ => hnone⟩
      intro m hm hg
      exact ⟨(hr.untouched m hm hg).1, by simp [pendingNames, hnone]⟩
    · cases hq

/-- A manual import gives the generation `0` a member of a source without validators. -/
theorem Validated.importedManually (h : Validated lib w) {write : Write F}
    (manual : write.importsManually w.store = true) :
    Validated lib { w with store := w.store.write write } := by
  cases write with
  | ingestOne now proxy newId generation =>
    obtain ⟨rfl, hnone⟩ := of_decide_eq_true manual
    rw [Store.write]
    cases hone : w.store.ingestOne now proxy newId 0 with
    | error e => exact h
    | ok t =>
      rw [Store.commit_ok]
      obtain ⟨hmembers, hsources, hruns⟩ := Store.ingestOne_upstream hone
      have hcached := fun name v => cachedValidator_of_sources hsources name v
      have hnext := nextGeneration_of_runs hruns
      have hother : ∀ m : GenerationMember, m.sourceName ≠ proxy.source →
          (m ∈ t.members ↔ m ∈ w.store.members) := by
        intro m hm
        rw [hmembers]
        refine or_iff_left ?_
        rintro rfl
        exact hm rfl
      constructor
      · exact lt_of_lt_of_eq h.positive hnext.symm
      · intro m hm
        rcases (hmembers m).mp hm with hm | rfl
        · exact lt_of_lt_of_eq (h.bounded m hm) hnext.symm
        · exact lt_of_lt_of_eq h.positive hnext.symm
      · intro name hn
        by_cases heq : name = proxy.source
        · subst heq
          intro v hv
          simp [hcached, hnone] at hv
        · exact (h.settled name hn).frame (hcached name) (fun _ => rfl) (fun _ hi => hi)
            fun _ => Store.newest_congr fun m hm => hother m (hm ▸ heq)
      · exact h.idle
      · intro p hp
        have hr := h.refreshing p hp
        refine ⟨hr.positive, hr.newest.trans hnext.symm, hr.distinct, hr.distinctPending, hr.apart,
          ?_, ?_, hr.gathered, hr.done⟩
        · intro m hm hg
          rcases (hmembers m).mp hm with hm | rfl
          · exact hr.untouched m hm hg
          · exact absurd hg (ne_of_lt hr.positive)
        · intro entry he
          by_cases heq : entry.1 = proxy.source
          · intro v hv
            simp [hcached, heq, hnone] at hv
          · exact (hr.carried entry he).frame (hcached entry.1) (fun _ => rfl)
              fun m hm hname => (hother m (hname ▸ heq)).mp hm
  | _ => cases manual

/-- Every careful step keeps the sources settled or pending. -/
theorem Validated.step (h : Validated lib w) {a : RefreshStep F} (careful : w.Careful lib a) :
    Validated lib (w.step lib a) := by
  have hstep := stepped lib w a
  generalize w.step lib a = w' at hstep ⊢
  cases hstep with
  | unchanged => exact h
  | begun idle => exact h.begun idle _ _ careful
  | bodyRecorded p progress phase asked => exact h.bodyRecorded progress phase asked careful
  | membersCopied p progress phase asked => exact h.membersCopied progress phase asked _ _
  | failed p progress phase asked =>
    refine h.frame (SameUpstream.recordSourceFailure _ _ _) (fun hp => by cases hp) ?_
    rintro q hq
    obtain rfl := Option.some.inj hq
    exact (h.refreshing p progress).frame (SameUpstream.recordSourceFailure _ _ _) rfl
      (List.erase_sublist.map _) rfl rfl
  | parsed p source body progress phase =>
    refine h.frame (SameUpstream.recordRejections _ _ _ _) (fun hp => by cases hp) ?_
    rintro q hq
    obtain rfl := Option.some.inj hq
    refine (h.refreshing p progress).frame (SameUpstream.recordRejections _ _ _ _) rfl
      (List.Sublist.refl _) ?_ ?_
    · simp [RefreshProgress.gathering, RefreshProgress.extend, phase]
    · simp [RefreshProgress.gathered, RefreshProgress.extend, phase]
  | confirmed p source copied progress phase =>
    refine h.frame (SameUpstream.confirmSource _ _ _ _) (fun hp => by cases hp) ?_
    rintro q hq
    obtain rfl := Option.some.inj hq
    refine (h.refreshing p progress).frame (SameUpstream.confirmSource _ _ _ _) rfl
      (List.Sublist.refl _) ?_ ?_
    · simp [RefreshProgress.gathering, RefreshProgress.addCopied, phase]
    · simp [RefreshProgress.gathered, RefreshProgress.addCopied, phase]
  | ingested p store inserted progress phase answered ok =>
    exact h.ingested progress phase answered ok
  | ingestFailed p error progress phase answered failed =>
    refine h.closed (SameUpstream.of_tables rfl rfl rfl) (.inr (.inr rfl))
      (h.abandoned (careful p progress (by rw [failed]; rfl))) ?_
    rintro q hq
    cases hq
  | runRecorded p progress phase => exact h.runRecorded progress phase _
  | reconciled p progress phase =>
    have hdone := (h.refreshing p progress).done (by simp [RefreshProgress.gathering, phase])
    refine h.frame (SameUpstream.reconcile _ _ _ _) (fun _ => hdone) ?_
    rintro q hq
    cases hq
  | stopped =>
    refine h.closed (SameUpstream.of_tables rfl rfl rfl) (.inr (.inr rfl))
      (h.abandoned careful) ?_
    rintro q hq
    cases hq
  | other write =>
    rcases careful with spares | manual
    · have same := SameUpstream.write w.store spares
      exact h.frame same h.idle fun q hq => (h.refreshing q hq).frame same rfl
        (List.Sublist.refl _) rfl rfl
    · exact h.importedManually manual

omit [F64 F] in
theorem validated_empty : Validated lib ({} : RefreshWorld F) where
  positive := Int.zero_lt_one
  bounded m hm := by cases hm
  settled name _ v hv := by cases v <;> cases hv
  idle _ := rfl
  refreshing p hp := by cases hp

/-- A `304` would put exactly the identities of the body that carried the source's validators
into the generation, and they were ingested. -/
def ConfirmsIngested (w : RefreshWorld F) (name : String) (generation : ℤ) : Prop :=
  ∀ v, (w.store.cachedValidator name v).isSome = true →
    ∃ identities, carrier name v w.history = some identities ∧
      (∀ hash, ⟨generation, name, hash⟩ ∈
        (w.store.copyCachedSourceGeneration name generation).1.members ↔ hash ∈ identities) ∧
      ∀ hash ∈ identities, hash ∈ ingestedIdentities w.history

/-- Every request that is out, or that the next refresh sends, confirms ingested content. -/
def CacheSafe (w : RefreshWorld F) : Prop :=
  match w.progress with
  | none => ∀ name, w.ConfirmsIngested name w.store.nextGeneration
  | some p => ∀ source ∈ p.remaining, w.ConfirmsIngested source.name p.generation

omit [F64 F] in
theorem Validated.confirmsIngested (h : Validated lib w) {name : String} {generation : ℤ}
    (settled : name ∉ pendingNames w.history)
    (older : ∀ m ∈ w.store.members, m.sourceName = name → m.generation < generation) :
    w.ConfirmsIngested name generation := by
  intro v hv
  obtain ⟨identities, hcarrier, hnewest, hingested⟩ := h.settled name settled v hv
  refine ⟨identities, hcarrier, fun hash => ?_, hingested⟩
  rw [Store.member_copied_iff _ _ older]
  exact hnewest hash

omit [F64 F] in
theorem Validated.cacheSafe (h : Validated lib w) : w.CacheSafe := by
  unfold CacheSafe
  split
  · next idle =>
    intro name
    refine h.confirmsIngested ?_ fun m hm _ => h.bounded m hm
    simp [pendingNames, h.idle idle]
  · next p progress =>
    intro source asked
    have hr := h.refreshing p progress
    have hasked : source.name ∈ p.remaining.map (·.name) := List.mem_map_of_mem asked
    refine h.confirmsIngested (fun hn => hr.apart _ hn hasked) fun m hm hname => ?_
    have hlt := h.bounded m hm
    have hnew := hr.newest
    have hne : m.generation ≠ p.generation := fun hg => (hr.untouched m hm hg).1 (hname ▸ hasked)
    omega

/-- After careful steps, whatever fails, a `304` confirms ingested content. -/
theorem cached_validators_confirm_ingested {steps : List (RefreshStep F)}
    (careful : ObservedRuns.Admitted (step lib) (Careful lib) {} steps) :
    (ObservedRuns.run (step lib) {} steps).CacheSafe := by
  have hstep : ∀ (w : RefreshWorld F) a, w.Careful lib a → Validated lib w →
      Validated lib (w.step lib a) := fun w a hcareful hw => hw.step hcareful
  exact (ObservedRuns.run_invariant hstep validated_empty careful).cacheSafe

end Careful

def sampleSource : SubscriptionSource where
  name := "feed"
  url := "https://feed.example"

def sampleBody : FetchResult :=
  .body "trojan://secret@host.example:443".toList (some "v1") none

/-- One refresh with one body, complete. -/
def completedRefresh : List (RefreshStep ℚ) :=
  refreshSteps 0 "first" [sampleSource] [(sampleSource, .ok sampleBody)] (fun _ => "node") 3

theorem cached_validators_confirm_ingested_completedRefresh :
    ∃ identities, carrier "feed" .etag
        (ObservedRuns.run (step sampleLibraries) {} completedRefresh).history = some identities ∧
      identities ≠ [] ∧ ∀ hash ∈ identities, hash ∈ ingestedIdentities
        (ObservedRuns.run (step sampleLibraries) {} completedRefresh).history := by
  have careful : ObservedRuns.Admitted (step sampleLibraries) (Careful sampleLibraries) {}
      completedRefresh := by decide +kernel
  have hsafe := cached_validators_confirm_ingested careful
  obtain ⟨identities, hcarrier, -, hingested⟩ := hsafe "feed" .etag (by decide +kernel)
  refine ⟨identities, hcarrier, ?_, hingested⟩
  rintro rfl
  exact absurd hcarrier (by decide +kernel)

/-- The service stops after the body's validators are stored and before its ingest. -/
def crashedRefresh : List (RefreshStep ℚ) :=
  [.begin 0 "first" [sampleSource], .answer 0 sampleSource (.ok sampleBody), .stop]

theorem cached_validators_not_always_ingested :
    ¬ ∀ steps : List (RefreshStep ℚ),
      (ObservedRuns.run (step sampleLibraries) {} steps).CacheSafe := by
  intro h
  have hsafe := h crashedRefresh
  obtain ⟨identities, hcarrier, -, hingested⟩ := hsafe "feed" .etag (by decide +kernel)
  have hone : carrier "feed" .etag
      (ObservedRuns.run (step sampleLibraries) {} crashedRefresh).history =
        some [sampleProxy.configHash] := by decide +kernel
  have hnone : ingestedIdentities
      (ObservedRuns.run (step sampleLibraries) {} crashedRefresh).history = [] := by decide +kernel
  obtain rfl := Option.some.inj (hcarrier.symm.trans hone)
  have hmem := hingested _ (List.mem_singleton.mpr rfl)
  rw [hnone] at hmem
  cases hmem

end RefreshWorld

end ProxyFleet
