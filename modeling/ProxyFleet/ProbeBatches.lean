import ProxyFleet.SurvivorBatches

/-!
# Batches of probes

A batch of jobs is parsed and preflighted, the survivors are tested behind Xray, and the
results of both are merged under the ids of the jobs.
-/
namespace ProxyFleet

structure ProbeJob where
  id : String
  rawConfig : Text
  downloadDue : Bool

/-- What became of a job. -/
structure Probed (F : Type) where
  proxy : Option ParsedProxy
  outcome : ProbeOutcome F

def Probed.report {F : Type} (probed : Probed F) : ProbeReport F :=
  ⟨probed.proxy, probed.outcome.events⟩

structure Preflighted (F : Type) where
  id : String
  probed : Probed F
  deadline : ℕ
  downloadDue : Bool

/-- What a batch meets: the moments at which its jobs begin, their preflights and the order in
which these complete, and the calls for the survivors. -/
structure BatchView where
  startedAt : ℕ → ℕ
  preflight : ℕ → PreflightView
  picks : ℕ → ℕ
  world : BatchWorld

/-- The events of a second probe, after the steps of a first. -/
def ProbeOutcome.andThen {F : Type} (first second : ProbeOutcome F) : ProbeOutcome F :=
  ⟨second.events, first.steps ++ second.steps, second.endedAt⟩

section Batch

variable {F : Type} [F64 F] (lib : Libraries) (source : String) (config : ProbeConfig F)

def preflightReport (view : PreflightView) (startedAt : ℕ) (rawConfig : Text) : Probed F :=
  match parseShareUrl lib rawConfig source with
  | .error error =>
    ⟨none, ⟨[event .static .invalidConfig none [("error", .string error)]], [], startedAt⟩⟩
  | .ok proxy =>
    match preflight proxy config (probeDeadline config startedAt) view with
    | .ok steps => ⟨some proxy, ⟨[], steps, view.connectEndedAt⟩⟩
    | .error outcome => ⟨some proxy, outcome⟩

def preflightJob (view : BatchView) (i : ℕ) (job : ProbeJob) : Preflighted F where
  id := job.id
  probed := preflightReport lib source config (view.preflight i) (view.startedAt i) job.rawConfig
  deadline := probeDeadline config (view.startedAt i)
  downloadDue := job.downloadDue

variable (downloadConcurrency : ℕ) (view : BatchView) (jobs : List ProbeJob)

def preflightResults : List (Preflighted F) :=
  bufferUnordered (min (max downloadConcurrency 1 * 2) (2 ^ 64 - 1)) view.picks
    (jobs.mapIdx fun i job => preflightJob lib source config view i job)

/-- A job that goes on behind Xray. -/
def Preflighted.survivor (result : Preflighted F) : Option Survivor :=
  match result.probed.proxy with
  | some proxy =>
    if result.probed.outcome.events.isEmpty then
      some ⟨result.id, proxy, result.deadline, result.downloadDue⟩
    else none
  | none => none

def batchSurvivors : List Survivor :=
  (preflightResults lib source config downloadConcurrency view jobs).filterMap
    Preflighted.survivor

/-- One result of the survivors is written over the report of its id. -/
def mergeResult (results : List (String × Probed F)) (result : String × ProbeOutcome F) :
    List (String × Probed F) :=
  match OrderedMap.get results result.1 with
  | some probed =>
    OrderedMap.insert results result.1
      { probed with outcome := probed.outcome.andThen result.2 }
  | none => results

variable [F64Convert F]

def testBatch : List (String × Probed F) :=
  let preflighted := preflightResults lib source config downloadConcurrency view jobs
  let results := OrderedMap.collect (preflighted.map fun result => (result.id, result.probed))
  (testSurvivorBatch lib config downloadConcurrency view.world
    (batchSurvivors lib source config downloadConcurrency view jobs)).foldl mergeResult results

end Batch

section Merge

variable {F : Type}

theorem Preflighted.survivor_eq_some {result : Preflighted F} {survivor : Survivor} :
    result.survivor = some survivor ↔ ∃ proxy, result.probed.proxy = some proxy ∧
      result.probed.outcome.events = [] ∧
      ⟨result.id, proxy, result.deadline, result.downloadDue⟩ = survivor := by
  rw [Preflighted.survivor]
  cases result.probed.proxy with
  | none => simp
  | some proxy => simp

theorem filterMap_survivor_ids (results : List (Preflighted F)) :
    ((results.filterMap Preflighted.survivor).map (·.id)).Sublist (results.map (·.id)) := by
  induction results with
  | nil => exact List.Sublist.refl _
  | cons result results ih =>
    cases hsurvivor : result.survivor with
    | none =>
      rw [List.filterMap_cons_none hsurvivor]
      exact ih.cons _
    | some survivor =>
      obtain ⟨proxy, -, -, rfl⟩ := Preflighted.survivor_eq_some.mp hsurvivor
      rw [List.filterMap_cons_some hsurvivor]
      exact ih.cons_cons _

theorem get_mergeResult {m : List (String × Probed F)} {result : String × ProbeOutcome F}
    {id : String} :
    OrderedMap.get (mergeResult m result) id =
      if id = result.1 then
        (OrderedMap.get m id).map fun probed =>
          { probed with outcome := probed.outcome.andThen result.2 }
      else OrderedMap.get m id := by
  rw [mergeResult]
  cases hget : OrderedMap.get m result.1 with
  | none =>
    by_cases hid : id = result.1
    · rw [if_pos hid, hid, hget]
      rfl
    · rw [if_neg hid]
  | some probed =>
    dsimp only
    rw [OrderedMap.get_insert]
    by_cases hid : id = result.1
    · rw [if_pos hid, if_pos hid, hid, hget]
      rfl
    · rw [if_neg hid, if_neg hid]

/-- The merge of results with distinct ids continues the outcome of each. -/
theorem get_foldl_mergeResult {results : List (String × ProbeOutcome F)}
    {m : List (String × Probed F)} {id : String} (hids : (results.map Prod.fst).Nodup) :
    OrderedMap.get (results.foldl mergeResult m) id =
      match results.lookup id with
      | some outcome =>
        (OrderedMap.get m id).map fun probed =>
          { probed with outcome := probed.outcome.andThen outcome }
      | none => OrderedMap.get m id := by
  induction results generalizing m with
  | nil => rfl
  | cons result results ih =>
    obtain ⟨hfresh, hrest⟩ := List.nodup_cons.mp hids
    rw [List.foldl_cons, ih hrest, get_mergeResult, List.lookup_cons]
    by_cases hid : id = result.1
    · have hnone : results.lookup id = none := by
        rw [List.lookup_eq_none_iff]
        intro entry hentry
        have hne : id ≠ entry.1 := fun he => hfresh (hid ▸ he ▸ List.mem_map_of_mem hentry)
        simpa using hne
      rw [hnone, if_pos hid, beq_iff_eq.mpr hid]
    · rw [if_neg hid, beq_false_of_ne hid]

end Merge

section Results

variable {F : Type} [F64 F] {lib : Libraries} {source : String} {config : ProbeConfig F}
  {downloadConcurrency : ℕ} {view : BatchView} {jobs : List ProbeJob}

theorem preflightResults_perm :
    (preflightResults lib source config downloadConcurrency view jobs).Perm
      (jobs.mapIdx fun i job => preflightJob lib source config view i job) :=
  bufferUnordered_perm (lt_min (by omega) (by decide))

theorem mem_preflightResults {result : Preflighted F} :
    result ∈ preflightResults lib source config downloadConcurrency view jobs ↔
      ∃ i job, jobs[i]? = some job ∧ preflightJob lib source config view i job = result := by
  rw [preflightResults_perm.mem_iff, List.mem_mapIdx]
  constructor
  · rintro ⟨i, hi, rfl⟩
    exact ⟨i, jobs[i], List.getElem?_eq_getElem hi, rfl⟩
  · rintro ⟨i, job, hjob, rfl⟩
    obtain ⟨hi, rfl⟩ := List.getElem?_eq_some_iff.mp hjob
    exact ⟨i, hi, rfl⟩

theorem preflightResults_nodup (hids : (jobs.map (·.id)).Nodup) :
    ((preflightResults lib source config downloadConcurrency view jobs).map (·.id)).Nodup := by
  refine ((preflightResults_perm (F := F)).map (·.id)).nodup_iff.mpr ?_
  have hmap : (jobs.mapIdx fun i job => preflightJob lib source config view i job).map (·.id) =
      jobs.map (·.id) := List.ext_getElem (by simp) fun i h₁ h₂ => by simp [preflightJob]
  rwa [hmap]

theorem batchSurvivors_nodup (hids : (jobs.map (·.id)).Nodup) :
    ((batchSurvivors lib source config downloadConcurrency view jobs).map (·.id)).Nodup :=
  (preflightResults_nodup hids).sublist (filterMap_survivor_ids _)

theorem mem_batchSurvivors {survivor : Survivor} :
    survivor ∈ batchSurvivors lib source config downloadConcurrency view jobs ↔
      ∃ i job, jobs[i]? = some job ∧
        (preflightJob lib source config view i job).survivor = some survivor := by
  rw [batchSurvivors, List.mem_filterMap]
  constructor
  · rintro ⟨result, hresult, hsurvivor⟩
    obtain ⟨i, job, hjob, rfl⟩ := mem_preflightResults.mp hresult
    exact ⟨i, job, hjob, hsurvivor⟩
  · rintro ⟨i, job, hjob, hsurvivor⟩
    exact ⟨_, mem_preflightResults.mpr ⟨i, job, hjob, rfl⟩, hsurvivor⟩

section Jobs

variable {i : ℕ} {job : ProbeJob}

theorem index_of_id {j : ℕ} {other : ProbeJob} (hids : (jobs.map (·.id)).Nodup)
    (hjob : jobs[i]? = some job) (hother : jobs[j]? = some other) (hid : other.id = job.id) :
    j = i := by
  obtain ⟨hlt, rfl⟩ := List.getElem?_eq_some_iff.mp hother
  refine (List.getElem?_inj (by simpa using hlt) hids).mp ?_
  rw [List.getElem?_map, List.getElem?_map, hjob, List.getElem?_eq_getElem hlt]
  exact congrArg some hid

theorem get_preflighted (hids : (jobs.map (·.id)).Nodup) (hjob : jobs[i]? = some job) :
    OrderedMap.get (OrderedMap.collect
      ((preflightResults lib source config downloadConcurrency view jobs).map
        fun result => (result.id, result.probed))) job.id =
      some (preflightJob lib source config view i job).probed := by
  have hnodup : (((preflightResults lib source config downloadConcurrency view jobs).map
      fun result => (result.id, result.probed)).map Prod.fst).Nodup := by
    rw [List.map_map]
    exact preflightResults_nodup hids
  rw [OrderedMap.get_collect_of_nodup hnodup, OrderedMap.lookup_eq_some_iff_mem hnodup]
  exact List.mem_map.mpr ⟨_, mem_preflightResults.mpr ⟨i, job, hjob, rfl⟩, rfl⟩

variable [F64Convert F]

theorem survivorResults_nodup (hids : (jobs.map (·.id)).Nodup) :
    ((testSurvivorBatch lib config downloadConcurrency view.world
      (batchSurvivors lib source config downloadConcurrency view jobs)).map Prod.fst).Nodup :=
  testSurvivorBatch_ids.nodup_iff.mpr (batchSurvivors_nodup hids)

/-- A job that did not survive keeps the report of its preflight. -/
theorem get_testBatch_settled (hids : (jobs.map (·.id)).Nodup) (hjob : jobs[i]? = some job)
    (hsettled : (preflightJob lib source config view i job).survivor = none) :
    OrderedMap.get (testBatch lib source config downloadConcurrency view jobs) job.id =
      some (preflightJob lib source config view i job).probed := by
  have hnone : (testSurvivorBatch lib config downloadConcurrency view.world
      (batchSurvivors lib source config downloadConcurrency view jobs)).lookup job.id = none := by
    rw [List.lookup_eq_none_iff]
    intro entry hentry
    have hid := testSurvivorBatch_ids.mem_iff.mp (List.mem_map_of_mem hentry)
    obtain ⟨survivor, hmem, hsurvivor⟩ := List.mem_map.mp hid
    obtain ⟨j, other, hindex, hresult⟩ := mem_batchSurvivors.mp hmem
    have hne : job.id ≠ entry.1 := by
      intro he
      have hother : other.id = job.id := by
        obtain ⟨proxy, -, -, rfl⟩ := Preflighted.survivor_eq_some.mp hresult
        exact hsurvivor.trans he.symm
      obtain rfl := index_of_id hids hjob hindex hother
      obtain rfl := Option.some.inj (hindex.symm.trans hjob)
      rw [hsettled] at hresult
      exact absurd hresult (by simp)
    simpa using hne
  rw [testBatch, get_foldl_mergeResult (survivorResults_nodup hids), hnone]
  exact get_preflighted hids hjob

/-- A survivor reports the outcome of its service. -/
theorem get_testBatch_served (hids : (jobs.map (·.id)).Nodup) (hjob : jobs[i]? = some job)
    {survivor : Survivor} {service : Service}
    (hsurvivor : (preflightJob lib source config view i job).survivor = some survivor)
    (hserved : Served lib config view.world
      (batchSurvivors lib source config downloadConcurrency view jobs) survivor service) :
    OrderedMap.get (testBatch lib source config downloadConcurrency view jobs) job.id =
      some ⟨(preflightJob lib source config view i job).probed.proxy,
        (preflightJob lib source config view i job).probed.outcome.andThen
          (service.outcome config survivor)⟩ := by
  have hid : survivor.id = job.id := by
    obtain ⟨proxy, -, -, rfl⟩ := Preflighted.survivor_eq_some.mp hsurvivor
    rfl
  have hsome := (OrderedMap.lookup_eq_some_iff_mem (survivorResults_nodup hids)).mpr
    (mem_of_served downloadConcurrency hserved)
  rw [testBatch, get_foldl_mergeResult (survivorResults_nodup hids), ← hid, hsome, hid,
    get_preflighted hids hjob]
  rfl

end Jobs

end Results

end ProxyFleet
