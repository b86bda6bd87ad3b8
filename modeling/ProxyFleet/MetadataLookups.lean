import ProxyFleet.LeasedLookups
import ProxyFleet.StoreRuns

/-!
# Lookups of exit metadata

After a real download the service looks up the exit of a node through its runtime. A statement
claims the lookup in the row of the node, for five seconds longer than the client waits for the
provider, and an answer is cached for a while. As long as a worker needs less than these seconds
beside the wait, the rows coordinate the workers as a leased cache does.
-/
namespace ProxyFleet

open LeasedLookups

structure MetadataConfig where
  timeoutSeconds : ℕ := 5
  cacheTtlSeconds : ℕ := 24 * 60 * 60

def MetadataConfig.cacheTtl (config : MetadataConfig) : Time :=
  seconds (max config.cacheTtlSeconds 1 : ℕ)

/-- The timeout of the client for the whole request. -/
def MetadataConfig.timeout (config : MetadataConfig) : Time :=
  seconds (max config.timeoutSeconds 1 : ℕ)

def MetadataConfig.lease (config : MetadataConfig) : Time :=
  seconds (max config.timeoutSeconds 1 + 5 : ℕ)

variable {F : Type}

/-- The columns of a row that coordinate its lookups. -/
def Node.metadataColumns (row : Node F) : Option Time × Option Time :=
  (row.metadataLeaseUntil, row.exitInfoFetchedAt)

/-- The write does not insert the node and is no metadata statement about it. -/
def Write.LeavesMetadata (id : String) : Write F → Prop
  | .ingestOne _ _ newId _ => newId ≠ id
  | .claimMetadataRefresh _ other _ _ => other ≠ id
  | .recordExitMetadata _ other => other ≠ id
  | .releaseMetadataLease other => other ≠ id
  | _ => True

section Columns

variable {s : Store F} {id : String}

def Store.metadataOf (s : Store F) (id : String) : Option (Option Time × Option Time) :=
  (s.findNode id).map Node.metadataColumns

theorem metadataOf_of_nodes_eq {t : Store F} (h : t.nodes = s.nodes) :
    t.metadataOf id = s.metadataOf id := by
  rw [Store.metadataOf, Store.metadataOf, Store.findNode, Store.findNode, h]

/-- An update that keeps the columns of the node, or does not select it, keeps them. -/
theorem metadataOf_updateNodes (s : Store F) (guard : Node F → Bool) {f : Node F → Node F}
    (hid : ∀ row, (f row).id = row.id)
    (h : ∀ row, row.id = id → guard row = true → (f row).metadataColumns = row.metadataColumns) :
    (s.updateNodes guard f).metadataOf id = s.metadataOf id := by
  rw [Store.metadataOf, Store.findNode_updateNodes s guard hid, Option.map_map, Store.metadataOf]
  cases hfind : s.findNode id with
  | none => rfl
  | some row =>
    have hrow := (Store.mem_of_findNode hfind).2
    rw [Option.map_some, Option.map_some, Function.comp_apply]
    split
    · next hguard => rw [h row hrow hguard]
    · rfl

variable [F64 F]

/-- Other writes leave the columns of a node alone, or remove the node. -/
theorem metadataOf_write (keyed : s.WellKeyed) {w : Write F} (h : w.LeavesMetadata id) :
    (s.write w).metadataOf id = s.metadataOf id ∨ (s.write w).metadataOf id = none := by
  cases w with
  | ingestOne now proxy newId generation =>
    simp only [Store.write, Store.ingestOne]
    split
    · rw [Store.commit_ok, metadataOf_of_nodes_eq (Store.insertMember_nodes _ _)]
      exact .inl (metadataOf_updateNodes s _ (fun _ => by rfl) fun _ _ _ => by rfl)
    · split
      · exact .inl rfl
      · rw [Store.commit_ok, metadataOf_of_nodes_eq (Store.insertMember_nodes _ _)]
        have hother : decide ((Node.ingested now proxy newId generation : Node F).id = id) =
            false := decide_eq_false h
        left
        simp [Store.metadataOf, Store.findNode, List.find?_append, hother]
  | applyTestEvent now event cadence draw =>
    rw [Store.write_applyTestEvent]
    split
    · exact .inl (metadataOf_updateNodes _ _ (fun _ => by rfl) fun _ _ _ => by rfl)
    · exact .inl rfl
  | reconcile now generation minimum =>
    left
    rw [Store.write, Store.reconcile,
      metadataOf_updateNodes _ _ (fun _ => by rfl) fun _ _ _ => by rfl]
    exact metadataOf_updateNodes s _ (fun _ => by rfl) fun _ _ _ => by rfl
  | copyCachedSourceGeneration sourceName generation =>
    simp only [Store.write, Store.copyCachedSourceGeneration]
    split
    · exact .inl rfl
    · left
      rw [metadataOf_updateNodes _ _ (fun _ => by rfl) fun _ _ _ => by rfl]
      exact metadataOf_of_nodes_eq (Store.foldl_insertMember_nodes _ _ _)
  | reviveNode now other =>
    simp only [Store.write, Store.reviveNode]
    split
    · exact .inl (metadataOf_updateNodes s _ (fun _ => by rfl) fun _ _ _ => by rfl)
    · exact .inl rfl
  | scheduleManualTest now other =>
    simp only [Store.write, Store.scheduleManualTest]
    split
    · exact .inl (metadataOf_updateNodes s _ (fun _ => by rfl) fun _ _ _ => by rfl)
    · exact .inl rfl
  | seedLegacyDownloadLeases now leaseHours =>
    simp only [Store.write, Store.seedLegacyDownloadLeases]
    split
    · exact .inl rfl
    · exact .inl (metadataOf_updateNodes s _ (fun _ => by rfl) fun _ _ _ => by rfl)
  | cleanupRetired now =>
    cases hfind : (s.write (.cleanupRetired now)).findNode id with
    | none =>
      right
      rw [Store.metadataOf, hfind]
      rfl
    | some row =>
      obtain ⟨hr, rfl⟩ := Store.mem_of_findNode hfind
      have hold : s.findNode row.id = some row :=
        Store.findNode_eq_some keyed (List.mem_of_mem_filter hr)
      exact .inl (by rw [Store.metadataOf, Store.metadataOf, hfind, hold])
  | recordSourceSuccess now name url etag lastModified =>
    exact .inl (metadataOf_of_nodes_eq
      (Store.recordSourceSuccess_nodes s now name url etag lastModified))
  | recordSourceFailure name url =>
    exact .inl (metadataOf_of_nodes_eq (Store.recordSourceFailure_nodes s name url))
  | claimMetadataRefresh now other =>
    refine .inl (metadataOf_updateNodes s _ (fun _ => by rfl) fun row hrow hguard => ?_)
    simp only [Bool.and_eq_true, decide_eq_true_eq] at hguard
    exact absurd (hguard.1.symm.trans hrow) h
  | recordExitMetadata now other =>
    refine .inl (metadataOf_updateNodes s _ (fun _ => by rfl) fun row hrow hguard => ?_)
    exact absurd ((of_decide_eq_true hguard).symm.trans hrow) h
  | releaseMetadataLease other =>
    refine .inl (metadataOf_updateNodes s _ (fun _ => by rfl) fun row hrow hguard => ?_)
    exact absurd ((of_decide_eq_true hguard).symm.trans hrow) h
  | beginRefresh | recordFinishedRun | recordSystemEvent | setQuotaDebt =>
    exact .inl (metadataOf_of_nodes_eq rfl)
  | claimRow | releaseTestLease | markWaitingForPort | reviveDormant | setMainPort | clearMainPort
  | clearStaleRuntimePorts =>
    exact .inl (metadataOf_updateNodes s _ (fun _ => by rfl) fun _ _ _ => by rfl)

end Columns

/-- What a lookup takes beside the wait of its client: until its request goes out, and until its
outcome is written down. -/
structure LookupDelays where
  starting : Time
  storing : Time
  starting_nonneg : 0 ≤ starting
  storing_nonneg : 0 ≤ storing
  within : starting + storing < seconds 5

/-- A claimed lookup that has not ended, and when its request went out. -/
structure PendingLookup where
  lookup : Lookup ℕ Time
  asked : Option Time := none
  deriving DecidableEq

/-- The client gives up in time, so that an unfinished lookup ends by this time or is lost. -/
def PendingLookup.deadline (config : MetadataConfig) (delays : LookupDelays) (p : PendingLookup) :
    Time :=
  match p.asked with
  | none => p.lookup.granted + delays.starting
  | some asked => asked + config.timeout + delays.storing

/-- The store and the lookups of one node: the unfinished ones, the answers so far, newest first,
and the clock. -/
structure LookupWorld (F : Type) where
  store : Store F
  pending : List PendingLookup := []
  answers : List Time := []
  clock : Time

/-- A worker claims a lookup, sends its request, writes its answer, releases its lease after a
failure or is lost, and the rest of the service writes. -/
inductive LookupEvent (F : Type) where
  | claim (now : Time) (worker : ℕ)
  | ask (now : Time) (p : PendingLookup)
  | record (now : Time) (p : PendingLookup)
  | release (now : Time) (p : PendingLookup)
  | crash (p : PendingLookup)
  | write (now : Time) (w : Write F)

namespace LookupWorld

variable [F64 F] (config : MetadataConfig) (delays : LookupDelays) (id : String)

/-- `claim_metadata_refresh` affects one row exactly if the node is due. -/
def due (w : LookupWorld F) (now : Time) : Bool :=
  w.store.nodes.any fun row => row.id = id && row.metadataDue now config.cacheTtl

def step (w : LookupWorld F) : LookupEvent F → LookupWorld F
  | .claim now worker =>
    { w with
      store := w.store.write (.claimMetadataRefresh now id config.cacheTtl config.lease)
      pending :=
        if w.due config id now then ⟨⟨worker, now, now + config.lease⟩, none⟩ :: w.pending
        else w.pending
      clock := now }
  | .ask now p =>
    { w with
      pending := w.pending.map fun other =>
        if other = p then { other with asked := some now } else other
      clock := now }
  | .record now p =>
    { w with
      store := w.store.write (.recordExitMetadata now id)
      pending := w.pending.erase p
      answers := now :: w.answers
      clock := now }
  | .release now p =>
    { w with
      store := w.store.write (.releaseMetadataLease id)
      pending := w.pending.erase p
      clock := now }
  | .crash p => { w with pending := w.pending.erase p }
  | .write now write => { w with store := w.store.write write, clock := now }

/-- The clock does not go back, nor beyond the deadline of an unfinished lookup. -/
def Passes (w : LookupWorld F) (now : Time) : Prop :=
  w.clock ≤ now ∧ ∀ p ∈ w.pending, now ≤ p.deadline config delays

/-- Time passes, only unfinished lookups go on, an answer follows a request, and the node is not
inserted a second time. -/
def Admits (w : LookupWorld F) : LookupEvent F → Prop
  | .claim now _ => w.Passes config delays now
  | .ask now p => w.Passes config delays now ∧ p ∈ w.pending ∧ p.asked = none
  | .record now p => w.Passes config delays now ∧ p ∈ w.pending ∧ p.asked.isSome = true
  | .release now p => w.Passes config delays now ∧ p ∈ w.pending
  | .crash _ => True
  | .write now write => w.Passes config delays now ∧ write.LeavesMetadata id

/-- The leased cache behind the columns of a node, which are lost with the node. -/
def cacheOf (columns : Option (Option Time × Option Time)) (unfinished : List (Lookup ℕ Time))
    (answers : List Time) (clock : Time) : Cache ℕ Time where
  present := columns.isSome
  lease := columns.bind Prod.fst
  fetched := columns.bind Prod.snd
  unfinished := unfinished
  answers := answers
  clock := clock

/-- The leased cache that a world implements. -/
def cache (w : LookupWorld F) : Cache ℕ Time :=
  cacheOf (w.store.metadataOf id) (w.pending.map (·.lookup)) w.answers w.clock

variable {config delays id} {w : LookupWorld F}

omit [F64 F] in
theorem metadataDue_iff {row : Node F} {now cacheTtl : Time} :
    row.metadataDue now cacheTtl = true ↔
      (∀ lease, row.metadataLeaseUntil = some lease → lease ≤ now) ∧
        ∀ fetched, row.exitInfoFetchedAt = some fetched → fetched + cacheTtl ≤ now := by
  unfold Node.metadataDue
  rw [Bool.and_eq_true]
  refine and_congr ?_ ?_
  · cases row.metadataLeaseUntil <;> simp
  · cases row.exitInfoFetchedAt <;> simp [le_sub_iff_add_le]

variable (config id) in
omit [F64 F] in
theorem due_eq (keyed : w.store.WellKeyed) (now : Time) :
    w.due config id now =
      ((w.store.findNode id).map fun row => row.metadataDue now config.cacheTtl).getD false := by
  rw [Bool.eq_iff_iff, due, List.any_eq_true]
  constructor
  · rintro ⟨row, hr, hrow⟩
    simp only [Bool.and_eq_true, decide_eq_true_eq] at hrow
    obtain ⟨rfl, hdue⟩ := hrow
    rw [Store.findNode_eq_some keyed hr]
    exact hdue
  · intro h
    cases hfind : w.store.findNode id with
    | none => simp [hfind] at h
    | some row =>
      obtain ⟨hr, hid⟩ := Store.mem_of_findNode hfind
      rw [hfind] at h
      exact ⟨row, hr, by simpa [hid] using h⟩

variable (config id) in
/-- What the statements of a lookup leave in the columns of its node. -/
theorem metadataOf_statements (s : Store F) (now : Time) :
    (s.write (.claimMetadataRefresh now id config.cacheTtl config.lease)).metadataOf id =
        (s.findNode id).map (fun row =>
          if row.metadataDue now config.cacheTtl then
            (some (now + config.lease), row.exitInfoFetchedAt)
          else row.metadataColumns) ∧
      (s.write (.recordExitMetadata now id)).metadataOf id =
        (s.metadataOf id).map (fun _ => (none, some now)) ∧
      (s.write (.releaseMetadataLease id)).metadataOf id =
        (s.metadataOf id).map (fun columns => (none, columns.2)) := by
  simp only [Store.write, Store.claimMetadataRefresh, Store.recordExitMetadata,
    Store.releaseMetadataLease, Store.metadataOf]
  rw [Store.findNode_updateNodes s _ (fun _ => by rfl),
    Store.findNode_updateNodes s _ (fun _ => by rfl),
    Store.findNode_updateNodes s _ (fun _ => by rfl)]
  cases hfind : s.findNode id with
  | none => exact ⟨rfl, rfl, rfl⟩
  | some row =>
    have hid := (Store.mem_of_findNode hfind).2
    refine ⟨?_, ?_, ?_⟩
    · by_cases hdue : row.metadataDue now config.cacheTtl = true
      · simp [hid, hdue, Node.metadataColumns]
      · simp [hid, hdue]
    · simp [hid, Node.metadataColumns]
    · simp [hid, Node.metadataColumns]

/-- The unfinished lookups are as old as their deadlines allow. -/
structure Timely (config : MetadataConfig) (delays : LookupDelays) (w : LookupWorld F) :
    Prop where
  expires : ∀ p ∈ w.pending, p.lookup.expires = p.lookup.granted + config.lease
  asked : ∀ p ∈ w.pending, ∀ asked, p.asked = some asked →
    asked ≤ p.lookup.granted + delays.starting
  clock : ∀ p ∈ w.pending, w.clock ≤ p.deadline config delays

/-- The lease outlasts the wait of the client and both delays. -/
theorem deadline_lt_expires {p : PendingLookup}
    (expires : p.lookup.expires = p.lookup.granted + config.lease)
    (asked : ∀ asked, p.asked = some asked → asked ≤ p.lookup.granted + delays.starting) :
    p.deadline config delays < p.lookup.expires := by
  have hwithin := delays.within
  have hstoring := delays.storing_nonneg
  have hlease : config.lease = config.timeout + seconds 5 := by
    simp only [MetadataConfig.lease, MetadataConfig.timeout, seconds]
    push_cast
    ring
  have htimeout : 0 ≤ config.timeout := by
    unfold MetadataConfig.timeout seconds
    positivity
  rw [expires, hlease, PendingLookup.deadline]
  cases hasked : p.asked with
  | none =>
    dsimp only
    linarith
  | some time =>
    have hle := asked time hasked
    dsimp only
    linarith

omit [F64 F] in
/-- So every unfinished lookup still holds its lease. -/
theorem Timely.running (h : w.Timely config delays) :
    (w.cache id).running = w.pending.map (·.lookup) := by
  apply List.filter_eq_self.mpr
  intro l hl
  obtain ⟨p, hp, rfl⟩ := List.mem_map.mp hl
  exact decide_eq_true ((h.clock p hp).trans_lt (deadline_lt_expires (h.expires p hp)
    (h.asked p hp)))

omit [F64 F] in
/-- A lookup that ends leaves the others as they are. -/
theorem Timely.erase (h : w.Timely config delays) (p : PendingLookup) {now : Time}
    (inTime : ∀ q ∈ w.pending, now ≤ q.deadline config delays) (store : Store F)
    (answers : List Time) : Timely config delays ⟨store, w.pending.erase p, answers, now⟩ where
  expires q hq := h.expires q (List.mem_of_mem_erase hq)
  asked q hq := h.asked q (List.mem_of_mem_erase hq)
  clock q hq := inTime q (List.mem_of_mem_erase hq)

theorem Timely.step (h : w.Timely config delays) {event : LookupEvent F}
    (admitted : w.Admits config delays id event) :
    (w.step config id event).Timely config delays := by
  cases event with
  | claim now worker =>
    rw [LookupWorld.step]
    split
    · refine ⟨?_, ?_, ?_⟩
      · exact List.forall_mem_cons.mpr ⟨rfl, h.expires⟩
      · refine List.forall_mem_cons.mpr ⟨?_, h.asked⟩
        rintro _ ⟨⟩
      · exact List.forall_mem_cons.mpr
          ⟨le_add_of_nonneg_right delays.starting_nonneg, admitted.2⟩
    · exact ⟨h.expires, h.asked, admitted.2⟩
  | ask now p =>
    obtain ⟨⟨-, hdeadline⟩, hmem, hasked⟩ := admitted
    have htimeout : 0 ≤ config.timeout := by
      unfold MetadataConfig.timeout seconds
      positivity
    refine ⟨?_, ?_, ?_⟩
    all_goals
      intro q hq
      obtain ⟨other, hother, rfl⟩ := List.mem_map.mp hq
    · split
      · exact h.expires other hother
      · exact h.expires other hother
    · split
      · next hsame =>
        rintro _ ⟨⟩
        have hle := hdeadline p hmem
        rw [PendingLookup.deadline, hasked] at hle
        rw [hsame]
        exact hle
      · exact h.asked other hother
    · split
      · have hstoring := delays.storing_nonneg
        show now ≤ now + config.timeout + delays.storing
        linarith
      · exact hdeadline other hother
  | record now p => exact h.erase p admitted.1.2 _ _
  | release now p => exact h.erase p admitted.1.2 _ _
  | crash p => exact h.erase p h.clock _ _
  | write now write => exact ⟨h.expires, h.asked, admitted.1.2⟩

/-- The lookups of a node and the columns of its row: coordinated, and none overdue. -/
structure Orderly (config : MetadataConfig) (delays : LookupDelays) (id : String)
    (w : LookupWorld F) : Prop where
  keyed : w.store.WellKeyed
  timely : w.Timely config delays
  coordinated : Coordinated config.cacheTtl (w.cache id)

omit [F64 F] in
/-- At most one lookup of the node is unfinished. -/
theorem Orderly.single (h : w.Orderly config delays id) : w.pending.length ≤ 1 := by
  have hsingle := h.coordinated.single
  rwa [h.timely.running, List.length_map] at hsingle

omit [F64 F] in
theorem Orderly.pending_eq (h : w.Orderly config delays id) {p : PendingLookup}
    (mem : p ∈ w.pending) : w.pending = [p] := by
  obtain ⟨only, honly⟩ := List.length_eq_one_iff.mp
    (le_antisymm h.single (List.length_pos_of_mem mem))
  rw [honly] at mem
  rw [honly, List.mem_singleton.mp mem]

omit [F64 F] in
/-- A lookup that ends in time is the only one, and its lease runs. -/
theorem Orderly.ends (h : w.Orderly config delays id) {p : PendingLookup} (mem : p ∈ w.pending)
    {now : Time} (inTime : ∀ p ∈ w.pending, now ≤ p.deadline config delays) :
    p.lookup ∈ (w.cache id).unfinished ∧ now < p.lookup.expires ∧
      (w.pending.erase p).map (·.lookup) = (w.cache id).unfinished.erase p.lookup := by
  refine ⟨List.mem_map_of_mem mem, (inTime p mem).trans_lt
    (deadline_lt_expires (h.timely.expires p mem) (h.timely.asked p mem)), ?_⟩
  rw [cache, cacheOf, h.pending_eq mem]
  simp

/-- A claim grants the lease of a node that is due, and is without effect otherwise. -/
theorem coordinated_claim (h : w.Orderly config delays id) {now : Time} (later : w.clock ≤ now)
    (worker : ℕ) :
    Coordinated config.cacheTtl ((w.step config id (.claim now worker)).cache id) := by
  have hc := h.coordinated
  obtain ⟨hcolumns, -, -⟩ := metadataOf_statements config id w.store now
  have hdue := due_eq config id h.keyed now
  rw [cache, step, hcolumns, hdue]
  rw [cache, Store.metadataOf] at hc
  cases hfind : w.store.findNode id with
  | none =>
    rw [hfind] at hc
    exact hc.step (.passed now later)
  | some row =>
    rw [hfind] at hc
    by_cases hrow : row.metadataDue now config.cacheTtl = true
    · obtain ⟨hfree, hstale⟩ := metadataDue_iff.mp hrow
      simp only [Option.map_some, Option.getD_some, if_pos hrow]
      exact hc.step (.granted
        (c := cacheOf (some row.metadataColumns) (w.pending.map (·.lookup)) w.answers w.clock)
        now later worker (now + config.lease) rfl hfree hstale)
    · simp only [Option.map_some, Option.getD_some, if_neg hrow]
      exact hc.step (.passed now later)

/-- A step of the service is a step of the leased cache, or a step and the loss of the node. -/
theorem coordinated_step (h : w.Orderly config delays id) {event : LookupEvent F}
    (admitted : w.Admits config delays id event) :
    Coordinated config.cacheTtl ((w.step config id event).cache id) := by
  have hc := h.coordinated
  cases event with
  | claim now worker => exact coordinated_claim h admitted.1 worker
  | ask now p =>
    have hsame : (w.step config id (.ask now p)).pending.map (·.lookup) =
        w.pending.map (·.lookup) := by
      rw [step, List.map_map]
      refine List.map_congr_left fun other _ => ?_
      rw [Function.comp_apply]
      split <;> rfl
    rw [cache, hsame]
    exact hc.step (.passed now admitted.1.1)
  | record now p =>
    obtain ⟨⟨later, hdeadline⟩, hpending, -⟩ := admitted
    obtain ⟨mem, running, herase⟩ := h.ends hpending hdeadline
    obtain ⟨-, hcolumns, -⟩ := metadataOf_statements config id w.store now
    have hanswered := hc.step (.answered now later p.lookup mem running)
    rw [← herase] at hanswered
    rw [cache, step, hcolumns]
    cases hold : w.store.metadataOf id with
    | none =>
      rw [cache, hold] at hanswered
      exact hanswered.step (.vanished none)
    | some columns =>
      rw [cache, hold] at hanswered
      exact hanswered
  | release now p =>
    obtain ⟨⟨later, hdeadline⟩, hpending⟩ := admitted
    obtain ⟨mem, running, herase⟩ := h.ends hpending hdeadline
    obtain ⟨-, -, hcolumns⟩ := metadataOf_statements config id w.store now
    have hgaveUp := hc.step (.gaveUp now later p.lookup mem running)
    rw [← herase] at hgaveUp
    rw [cache, step, hcolumns]
    cases hold : w.store.metadataOf id with
    | none =>
      rw [cache, hold] at hgaveUp
      exact hgaveUp
    | some columns =>
      rw [cache, hold] at hgaveUp
      exact hgaveUp
  | crash p =>
    by_cases hpending : p ∈ w.pending
    · obtain ⟨-, -, herase⟩ := h.ends hpending h.timely.clock
      rw [cache, step, herase]
      exact hc.step (.crashed p.lookup)
    · rw [cache, step, List.erase_of_not_mem hpending]
      exact hc
  | write now write =>
    obtain ⟨⟨later, -⟩, hleaves⟩ := admitted
    have hpassed := hc.step (.passed now later)
    rw [cache, step]
    rcases metadataOf_write h.keyed hleaves with hsame | hgone
    · rw [hsame]
      exact hpassed
    · rw [hgone]
      exact hpassed.step (.vanished none)

/-- Every step keeps the keys of the store. -/
theorem wellKeyed_step (keyed : w.store.WellKeyed) (event : LookupEvent F) :
    (w.step config id event).store.WellKeyed := by
  cases event with
  | claim now worker =>
    exact keyed.write (.claimMetadataRefresh now id config.cacheTtl config.lease)
  | ask now p => exact keyed
  | record now p => exact keyed.write (.recordExitMetadata now id)
  | release now p => exact keyed.write (.releaseMetadataLease id)
  | crash p => exact keyed
  | write now write => exact keyed.write write

/-- From any store without unfinished lookups, in every run whose lookups take less than five
seconds beside the wait of their clients: at most one lookup of the node is unfinished at any time,
and its answers are a time to live apart, however claims, failures, crashes and the other writes of
the service interleave. -/
theorem lookups_coordinated {store : Store F} (keyed : store.WellKeyed) (start : Time)
    {events : List (LookupEvent F)}
    (admitted : ObservedRuns.Admitted (step config id) (Admits config delays id)
      { store, clock := start } events) :
    (ObservedRuns.run (step config id) { store, clock := start } events).pending.length ≤ 1 ∧
    (ObservedRuns.run (step config id) { store, clock := start } events).answers.Pairwise
      fun newer older => older + config.cacheTtl ≤ newer := by
  have hstart : Orderly config delays id ({ store, clock := start } : LookupWorld F) :=
    ⟨keyed, ⟨by simp, by simp, by simp⟩, coordinated_of_idle rfl rfl⟩
  have hrun := ObservedRuns.run_invariant
    (I := fun w : LookupWorld F => w.Orderly config delays id)
    (fun w event hadmits h => ⟨wellKeyed_step h.keyed event, h.timely.step hadmits,
      coordinated_step h hadmits⟩) hstart admitted
  exact ⟨hrun.single, hrun.coordinated.spaced⟩

/-- A store of one node and no lookups. -/
def idleWorld : LookupWorld ℚ := {
  store := Store.empty.writes [.ingestOne 0 sampleProxy "node" 1]
  clock := 0
}

/-- The lookup of a worker, from its claim on. -/
def lookupOf (worker : ℕ) (granted : Time) (asked : Option Time) : PendingLookup :=
  ⟨⟨worker, granted, granted + ({} : MetadataConfig).lease⟩, asked⟩

/-- The second worker is refused while the first waits until its timeout and while the answer is
fresh, and answers a day later itself. -/
def renewedLookups : List (LookupEvent ℚ) := [
  .claim 1 7, .ask 2 (lookupOf 7 1 none), .claim (seconds 5) 8,
  .record (seconds 5 + 3) (lookupOf 7 1 (some 2)), .claim (seconds 6) 8,
  .claim (hours 25) 8, .claim (hours 25) 7, .ask (hours 25) (lookupOf 8 (hours 25) none),
  .record (hours 25 + 1) (lookupOf 8 (hours 25) (some (hours 25)))]

/-- A second before the request and another before the statement. -/
def briefDelays : LookupDelays where
  starting := seconds 1
  storing := seconds 1
  starting_nonneg := by decide
  storing_nonneg := by decide
  within := by decide

instance (w : LookupWorld ℚ) (now : Time) : Decidable (w.Passes {} briefDelays now) :=
  inferInstanceAs (Decidable (_ ∧ _))

theorem lookups_coordinated_renewed :
    ∃ w : LookupWorld ℚ,
      ObservedRuns.run (step {} "node") idleWorld renewedLookups = w ∧
      w.answers = [hours 25 + 1, seconds 5 + 3] ∧ w.pending.length ≤ 1 ∧
      w.answers.Pairwise fun newer older => older + ({} : MetadataConfig).cacheTtl ≤ newer := by
  have hadmitted : ObservedRuns.Admitted (step {} "node") (Admits {} briefDelays "node") idleWorld
      renewedLookups := by
    refine ⟨show Passes {} briefDelays _ _ from ?_, ⟨?_, ?_, rfl⟩,
      show Passes {} briefDelays _ _ from ?_, ⟨?_, ?_, rfl⟩, show Passes {} briefDelays _ _ from ?_,
      show Passes {} briefDelays _ _ from ?_, show Passes {} briefDelays _ _ from ?_, ⟨?_, ?_, rfl⟩,
      ⟨?_, ?_, rfl⟩, trivial⟩
    all_goals decide +kernel
  obtain ⟨hpending, hspaced⟩ := lookups_coordinated (Store.wellKeyed_empty.writes _) 0 hadmitted
  exact ⟨_, rfl, by decide +kernel, hpending, hspaced⟩

end LookupWorld

end ProxyFleet
