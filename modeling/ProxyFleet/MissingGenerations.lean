import ProxyFleet.SettledSources

/-!
# Missing generations

A row counts the complete generations that did not see it. The generations themselves
are in the history: which answers contained an identity, and which generations were
complete. The counter never runs ahead of the history.
-/
namespace ProxyFleet

variable {F : Type}

/-- What a source contained, and when. -/
structure Answer where
  generation : ℤ
  time : Time
  identities : List String

def answers : List RefreshEvent → List Answer
  | [] => []
  | .body generation time _ _ _ identities :: history =>
    ⟨generation, time, identities⟩ :: answers history
  | .notModified generation time _ identities :: history =>
    ⟨generation, time, identities⟩ :: answers history
  | _ :: history => answers history

/-- The complete generations, newest first. -/
def completedGenerations : List RefreshEvent → List ℤ
  | [] => []
  | .completed generation :: history => generation :: completedGenerations history
  | _ :: history => completedGenerations history

/-- The identity was in no source in each of the last complete generations, nor in between. -/
def Unseen (minimum : ℕ) (history : List RefreshEvent) (hash : String) : Prop :=
  minimum ≤ (completedGenerations history).length ∧
    ∀ g ∈ (completedGenerations history).take minimum, ∀ a ∈ answers history,
      hash ∈ a.identities → a.generation < g

/-- Below the bound, the generation came after every answer that contained the identity. -/
def Missed (bound : ℤ) (history : List RefreshEvent) (hash : String) (g : ℤ) : Prop :=
  g < bound ∧
    ∀ a ∈ answers history, hash ∈ a.identities → a.generation < bound → a.generation < g

instance (bound : ℤ) (history : List RefreshEvent) (hash : String) :
    DecidablePred (Missed bound history hash) := fun _ => inferInstanceAs (Decidable (_ ∧ _))

def missedBefore (bound : ℤ) (history : List RefreshEvent) (hash : String) : ℕ :=
  (completedGenerations history).countP fun g => Missed bound history hash g

section Counts

variable {history : List RefreshEvent} {hash : String}

/-- What passes on to earlier members holds of the first members that it counts. -/
theorem forall_mem_take_of_le_countP {α : Type} {P : α → Bool} {l : List α}
    (earlier : l.Pairwise fun x y => P y = true → P x = true) {m : ℕ} (h : m ≤ l.countP P) :
    ∀ x ∈ l.take m, P x = true := by
  induction l generalizing m with
  | nil => simp
  | cons top rest ih =>
    obtain ⟨htop, hrest⟩ := List.pairwise_cons.mp earlier
    cases m with
    | zero => simp
    | succ m =>
      have hP : P top = true := by
        obtain ⟨x, hx, hP⟩ := List.countP_pos_iff.mp (Nat.lt_of_lt_of_le (Nat.succ_pos m) h)
        rcases List.mem_cons.mp hx with rfl | hx
        · exact hP
        · exact htop x hx hP
      rw [List.countP_cons_of_pos hP] at h
      intro x hx
      rw [List.take_succ_cons] at hx
      rcases List.mem_cons.mp hx with rfl | hx
      · exact hP
      · exact ih hrest (by omega) x hx

/-- An identity that missed as many generations is unseen. -/
theorem unseen_of_le_missedBefore {bound : ℤ}
    (sorted : (completedGenerations history).Pairwise (· > ·))
    (completed : ∀ g ∈ completedGenerations history, g < bound)
    (answered : ∀ a ∈ answers history, a.generation < bound) {minimum : ℕ}
    (h : minimum ≤ missedBefore bound history hash) : Unseen minimum history hash := by
  refine ⟨h.trans List.countP_le_length, fun g hg a ha hmem => ?_⟩
  have hall := forall_mem_take_of_le_countP ?_ h g hg
  · exact (of_decide_eq_true hall).2 a ha hmem (answered a ha)
  · refine sorted.imp_of_mem fun {x y} hx _ hlt hP => decide_eq_true ?_
    refine ⟨completed x hx, fun a ha hmem hbound => ?_⟩
    exact ((of_decide_eq_true hP).2 a ha hmem hbound).trans hlt

variable {g : ℤ}

/-- The next generation, when it is complete, counts for what it did not contain. -/
theorem missedBefore_succ (absent : ∀ a ∈ answers history, a.generation = g → hash ∉ a.identities) :
    missedBefore g history hash + (completedGenerations history).count g ≤
      missedBefore (g + 1) history hash := by
  have past : ∀ a ∈ answers history, hash ∈ a.identities → a.generation < g + 1 →
      a.generation < g := by
    intro a ha hmem hlt
    have hne : a.generation ≠ g := fun heq => absent a ha heq hmem
    omega
  have mono : ∀ top, Missed g history hash top → Missed (g + 1) history hash top :=
    fun top h => ⟨by have := h.1; omega, fun a ha hmem hlt => h.2 a ha hmem (past a ha hmem hlt)⟩
  have own : Missed (g + 1) history hash g := ⟨by omega, past⟩
  have other : ¬ Missed g history hash g := fun h => lt_irrefl _ h.1
  unfold missedBefore
  induction completedGenerations history with
  | nil => simp
  | cons top rest ih =>
    rw [List.countP_cons, List.countP_cons, List.count_cons]
    by_cases htop : top = g
    · subst htop
      simp only [decide_eq_false other, decide_eq_true own, beq_self_eq_true, if_true,
        Bool.false_eq_true, if_false]
      omega
    · have hne : (top == g) = false := beq_false_of_ne htop
      by_cases hmissed : Missed g history hash top
      · simp only [hne, decide_eq_true hmissed, decide_eq_true (mono top hmissed), if_true,
          Bool.false_eq_true, if_false]
        omega
      · simp only [hne, decide_eq_false hmissed, Bool.false_eq_true, if_false]
        omega

end Counts

/-- The generation has seen the row, which then misses none. -/
def Node.SeenIn (row : Node F) (g : ℤ) : Prop :=
  row.upstreamMissingGenerations = 0 ∧ row.missedBy g = false

namespace Store

/-- Every row with the identity was seen. -/
def Seen (s : Store F) (g : ℤ) (hash : String) : Prop :=
  ∀ row ∈ s.nodes, row.configHash = hash → row.SeenIn g

/-- Each row was seen since, or has the counter and the sources of an earlier row. -/
def Tracks (g : ℤ) (s t : Store F) : Prop :=
  ∀ row' ∈ t.nodes, row'.SeenIn g ∨ ∃ row ∈ s.nodes, row'.configHash = row.configHash ∧
    row'.upstreamMissingGenerations = row.upstreamMissingGenerations ∧
      row'.missedBy g = row.missedBy g ∧ row'.likeManual = row.likeManual

variable {g : ℤ} {s t u : Store F} {hash : String}

theorem Tracks.of_nodes (h : t.nodes = s.nodes) : Tracks g s t :=
  fun row hr => .inr ⟨row, h ▸ hr, rfl, rfl, rfl, rfl⟩

theorem Tracks.trans (h : Tracks g s t) (h' : Tracks g t u) : Tracks g s u := by
  intro row'' hr''
  rcases h' row'' hr'' with seen | ⟨row', hr', hhash', hcount', hmissed', hmanual'⟩
  · exact .inl seen
  · rcases h row' hr' with ⟨hcount, hmissed⟩ | ⟨row, hr, hhash, hcount, hmissed, hmanual⟩
    · exact .inl ⟨hcount'.trans hcount, hmissed'.trans hmissed⟩
    · exact .inr ⟨row, hr, hhash'.trans hhash, hcount'.trans hcount, hmissed'.trans hmissed,
        hmanual'.trans hmanual⟩

theorem Seen.tracks (h : s.Seen g hash) (ht : Tracks g s t) : t.Seen g hash := by
  intro row' hr' hhash
  rcases ht row' hr' with seen | ⟨row, hr, hhash', hcount, hmissed, -⟩
  · exact seen
  · obtain ⟨hzero, hfalse⟩ := h row hr (hhash'.symm.trans hhash)
    exact ⟨hcount.trans hzero, hmissed.trans hfalse⟩

end Store

/-- A write that belongs to no refresh and imports nothing. -/
def Write.bystander : Write F → Bool
  | .reconcile _ _ _ => false
  | w => w.sparesUpstream

section Writes

variable {s t : Store F} {g : ℤ}

theorem likeManual_of_mem {row : Node F} (h : "manual" ∈ row.sourceSubs) :
    row.likeManual = true :=
  List.any_eq_true.mpr ⟨"manual", h, by decide⟩

theorem mem_insertSource (source : String) (sources : List String) :
    source ∈ Node.insertSource source sources := by
  unfold Node.insertSource
  split
  · assumption
  · simp

variable [F64 F]

/-- A row that was ingested now, under the generation or by hand, was seen. -/
theorem seenIn_ingested {now : Time} {proxy : ParsedProxy} {newId : String} {generation : ℤ}
    (current : generation = g ∨ proxy.source = "manual") :
    (Node.ingested (F := F) now proxy newId generation).SeenIn g := by
  refine ⟨rfl, ?_⟩
  rcases current with rfl | manual
  · simp [Node.missedBy, Node.ingested]
  · have hmem : "manual" ∈ (Node.ingested (F := F) now proxy newId generation).sourceSubs :=
      List.mem_singleton.mpr manual.symm
    simp [Node.missedBy, likeManual_of_mem hmem]

omit [F64 F] in
theorem seenIn_reingested {now : Time} {proxy : ParsedProxy} {generation : ℤ} (row : Node F)
    (current : generation = g ∨ proxy.source = "manual") :
    (row.reingested now proxy generation).SeenIn g := by
  refine ⟨rfl, ?_⟩
  rcases current with rfl | manual
  · simp [Node.missedBy, Node.reingested]
  · have hmem : "manual" ∈ (row.reingested now proxy generation).sourceSubs := by
      rw [← manual]
      exact mem_insertSource _ _
    simp [Node.missedBy, likeManual_of_mem hmem]

theorem Store.tracks_ingestOne (hk : s.WellKeyed) {now : Time} {proxy : ParsedProxy}
    {newId : String} {generation : ℤ} (ok : s.ingestOne now proxy newId generation = .ok t)
    (current : generation = g ∨ proxy.source = "manual") :
    Store.Tracks g s t ∧ t.Seen g proxy.configHash := by
  have hwrite := Store.write_ingestOne ok
  have hrow : ∀ row' ∈ t.nodes, row'.SeenIn g ∨ row'.configHash ≠ proxy.configHash ∧
      ∃ row ∈ s.nodes, row'.configHash = row.configHash ∧
        row'.upstreamMissingGenerations = row.upstreamMissingGenerations ∧
          row'.missedBy g = row.missedBy g ∧ row'.likeManual = row.likeManual := by
    intro row' hr'
    rcases row_of_write hk (hwrite ▸ hr') with inserted | ⟨row, hr, hstep⟩
    · cases inserted with
      | ingested => exact .inl (seenIn_ingested current)
    · cases hstep with
      | kept _ unselected => exact .inr ⟨unselected, row', hr, rfl, rfl, rfl, rfl⟩
      | reingested => exact .inl (seenIn_reingested row current)
      | port _ port unselected => exact .inr ⟨unselected, row, hr, rfl, rfl, rfl, rfl⟩
      | metadata _ fetched lease unselected =>
        exact .inr ⟨unselected, row, hr, rfl, rfl, rfl, rfl⟩
  constructor
  · intro row' hr'
    exact (hrow row' hr').imp_right fun h => h.2
  · intro row' hr' hhash
    exact (hrow row' hr').resolve_right fun h => h.1 hhash

/-- A batch tracks the counters, and all of it is seen. -/
theorem Store.tracks_ingestMany (hk : s.WellKeyed) {now : Time} {batch : List ParsedProxy}
    {newId : ℕ → String} {inserted : ℕ} (ok : s.ingestMany now g batch newId = .ok (t, inserted)) :
    Store.Tracks g s t ∧ ∀ proxy ∈ batch, t.Seen g proxy.configHash := by
  suffices hall : t.WellKeyed ∧ Store.Tracks g s t ∧ ∀ proxy ∈ batch, t.Seen g proxy.configHash
    from hall.2
  apply Store.ingestMany_rule (I := fun seen u => u.WellKeyed ∧ Store.Tracks g s u ∧
    ∀ proxy ∈ seen, u.Seen g proxy.configHash) ok
  · exact ⟨hk, Store.Tracks.of_nodes rfl, fun _ hp => by cases hp⟩
  · rintro seen proxy - k - u v ⟨hku, htracks, hseen⟩ hone
    obtain ⟨hstep, hnew⟩ := Store.tracks_ingestOne hku hone (.inl rfl)
    refine ⟨hku.ingestOne hone, htracks.trans hstep, fun other hother => ?_⟩
    rcases List.mem_append.mp hother with hother | hother
    · exact (hseen other hother).tracks hstep
    · rw [List.mem_singleton.mp hother]
      exact hnew

/-- A `304` tracks the counters, and what it copies is seen. -/
theorem Store.tracks_copy (hk : s.WellKeyed) (name : String) :
    Store.Tracks g s (s.copyCachedSourceGeneration name g).1 ∧
      ∀ previous ∈ s.previousGeneration name g, ∀ hash ∈ s.memberHashes name previous,
        (s.copyCachedSourceGeneration name g).1.Seen g hash := by
  have hrow : ∀ row' ∈ (s.copyCachedSourceGeneration name g).1.nodes, row'.SeenIn g ∨
      ¬ (Write.copyCachedSourceGeneration name g).Selects s row' ∧
        ∃ row ∈ s.nodes, row'.configHash = row.configHash ∧
          row'.upstreamMissingGenerations = row.upstreamMissingGenerations ∧
            row'.missedBy g = row.missedBy g ∧ row'.likeManual = row.likeManual := by
    intro row' hr'
    have hw : row' ∈ (s.write (.copyCachedSourceGeneration name g)).nodes := hr'
    rcases row_of_write hk hw with inserted | ⟨row, hr, hstep⟩
    · cases inserted
    · cases hstep with
      | kept _ unselected => exact .inr ⟨unselected, row', hr, rfl, rfl, rfl, rfl⟩
      | seenAgain => exact .inl ⟨rfl, by simp [Node.missedBy, Node.seenAgain]⟩
      | port _ port unselected => exact .inr ⟨unselected, row, hr, rfl, rfl, rfl, rfl⟩
      | metadata _ fetched lease unselected =>
        exact .inr ⟨unselected, row, hr, rfl, rfl, rfl, rfl⟩
  constructor
  · intro row' hr'
    exact (hrow row' hr').imp_right fun h => h.2
  · intro previous hprevious hash hmem row' hr' hhash
    refine (hrow row' hr').resolve_right fun h => h.1 ⟨?_, ?_⟩
    · exact Option.isSome_iff_exists.mpr ⟨previous, hprevious⟩
    · rw [hhash, Store.mem_memberHashes, Store.mem_copyCachedSourceGeneration]
      exact .inr ⟨previous, hprevious, rfl, rfl, Store.mem_memberHashes.mp hmem⟩

/-- The other writes leave counters and sources alone. -/
theorem Store.tracks_bystander (hk : s.WellKeyed) {w : Write F} (h : w.bystander = true) :
    Store.Tracks g s (s.write w) := by
  intro row' hr'
  rcases row_of_write hk hr' with inserted | ⟨row, hr, hstep⟩
  · cases inserted
    cases h
  · refine .inr ⟨row, hr, hstep.configHash_eq, ?_⟩
    cases hstep with
    | reingested | missed | missedRetired | retired | seenAgain => cases h
    | kept | claimed | applied | released | waiting | dormantRevived | revived | scheduled
    | seeded | port | metadata => exact ⟨rfl, rfl, rfl⟩

/-- No counter rises and no row is retired. -/
def Store.Quiet (s t : Store F) : Prop :=
  ∀ row' ∈ t.nodes, row'.upstreamMissingGenerations = 0 ∧ row'.lifecycleState ≠ .retired ∨
    ∃ row ∈ s.nodes, row'.id = row.id ∧
      (row'.upstreamMissingGenerations = row.upstreamMissingGenerations ∨
        row'.upstreamMissingGenerations = 0) ∧
      (row'.lifecycleState = .retired → row.lifecycleState = .retired)

omit [F64 F] in
theorem Store.Quiet.of_nodes (h : t.nodes = s.nodes) : Store.Quiet s t :=
  fun row hr => .inr ⟨row, h ▸ hr, rfl, .inl rfl, fun hretired => hretired⟩

omit [F64 F] in
theorem Store.Quiet.trans {u : Store F} (h : Store.Quiet s t) (h' : Store.Quiet t u) :
    Store.Quiet s u := by
  intro row'' hr''
  rcases h' row'' hr'' with fresh | ⟨row', hr', hid', hcount', hretired'⟩
  · exact .inl fresh
  · rcases h row' hr' with ⟨hzero, hlive⟩ | ⟨row, hr, hid, hcount, hretired⟩
    · exact .inl ⟨by omega, fun hr => hlive (hretired' hr)⟩
    · exact .inr ⟨row, hr, hid'.trans hid, by omega, fun hr => hretired (hretired' hr)⟩

omit [F64 F] in
/-- Between rows of one key, a quiet change raises nothing and retires nothing. -/
theorem Store.Quiet.row (h : Store.Quiet s t) (hk : s.WellKeyed) {row row' : Node F}
    (hr : row ∈ s.nodes) (hr' : row' ∈ t.nodes) (own : row'.id = row.id)
    (nonneg : 0 ≤ row.upstreamMissingGenerations) :
    row'.upstreamMissingGenerations ≤ row.upstreamMissingGenerations ∧
      (row'.lifecycleState = .retired → row.lifecycleState = .retired) := by
  rcases h row' hr' with ⟨hzero, hlive⟩ | ⟨other, ho, hid, hcount, hretired⟩
  · exact ⟨by omega, fun hretired => absurd hretired hlive⟩
  · obtain rfl := RowUpdates.eq_of_key_eq hk.ids ho hr (hid.symm.trans own)
    exact ⟨by omega, hretired⟩

theorem Store.quiet_copy (hk : s.WellKeyed) (name : String) :
    Store.Quiet s (s.copyCachedSourceGeneration name g).1 := by
  intro row' hr'
  have hw : row' ∈ (s.write (.copyCachedSourceGeneration name g)).nodes := hr'
  rcases row_of_write hk hw with inserted | ⟨row, hr, hstep⟩
  · cases inserted
  · refine .inr ⟨row, hr, hstep.id_eq, ?_⟩
    cases hstep with
    | seenAgain => exact ⟨.inr rfl, fun hretired => hretired⟩
    | kept | port | metadata => exact ⟨.inl rfl, fun hretired => hretired⟩

theorem Store.quiet_ingestOne (hk : s.WellKeyed) (now : Time) (proxy : ParsedProxy)
    (newId : String) (generation : ℤ) :
    Store.Quiet s (s.write (.ingestOne now proxy newId generation)) := by
  intro row' hr'
  rcases row_of_write hk hr' with inserted | ⟨row, hr, hstep⟩
  · cases inserted with
    | ingested => exact .inl ⟨rfl, by simp [Node.ingested]⟩
  · refine .inr ⟨row, hr, hstep.id_eq, ?_⟩
    cases hstep with
    | reingested =>
      refine ⟨.inr rfl, fun hretired => ?_⟩
      by_contra hlive
      simp [Node.reingested, hlive] at hretired
    | kept | port | metadata => exact ⟨.inl rfl, fun hretired => hretired⟩

theorem Store.quiet_ingestMany (hk : s.WellKeyed) {now : Time} {generation : ℤ}
    {batch : List ParsedProxy} {newId : ℕ → String} {inserted : ℕ}
    (ok : s.ingestMany now generation batch newId = .ok (t, inserted)) : Store.Quiet s t := by
  obtain ⟨rfl, hadm⟩ := Store.ingestMany_ok ok
  refine (ObservedRuns.run_invariant (I := fun t => t.WellKeyed ∧ Store.Quiet s t) ?_
    ⟨hk, Store.Quiet.of_nodes rfl⟩ hadm).2
  rintro u w ⟨now', proxy, id, g, rfl, -⟩ ⟨hku, hquiet⟩
  exact ⟨hku.write _, hquiet.trans (Store.quiet_ingestOne hku now' proxy id g)⟩

end Writes

end ProxyFleet
