import Mathlib.Data.List.Basic
import Mathlib.Order.Lattice

/-!
# Lookups under a lease

One cached value that workers renew. A worker is granted a lookup when no lease runs and the
value is older than its time to live, and it writes its answer or gives up while its lease runs.
Then the leases of unfinished lookups do not overlap, and answers are a time to live apart.
-/
namespace ProxyFleet.LeasedLookups

variable {ω T : Type*}

/-- A lookup that a worker was granted. -/
structure Lookup (ω T : Type*) where
  worker : ω
  granted : T
  expires : T
  deriving DecidableEq

/-- The cached value: whether it can be renewed at all, the stored lease, the time of the last
answer, the unfinished lookups, the answers so far, newest first, and the clock. -/
structure Cache (ω T : Type*) where
  present : Bool
  lease : Option T
  fetched : Option T
  unfinished : List (Lookup ω T)
  answers : List T
  clock : T

variable [LinearOrder T] [Add T] [DecidableEq ω]

/-- The lookups whose leases run. -/
def Cache.running (c : Cache ω T) : List (Lookup ω T) :=
  c.unfinished.filter fun l => decide (c.clock < l.expires)

/-- The steps of the workers and of the clock, for values that live for `ttl`. -/
inductive Step (ttl : T) : Cache ω T → Cache ω T → Prop
  | passed {c} (now : T) (later : c.clock ≤ now) : Step ttl c { c with clock := now }
  | granted {c} (now : T) (later : c.clock ≤ now) (worker : ω) (expires : T)
      (present : c.present = true) (free : ∀ lease, c.lease = some lease → lease ≤ now)
      (stale : ∀ fetched, c.fetched = some fetched → fetched + ttl ≤ now) :
      Step ttl c { c with
        lease := some expires
        unfinished := ⟨worker, now, expires⟩ :: c.unfinished
        clock := now }
  | answered {c} (now : T) (later : c.clock ≤ now) (lookup : Lookup ω T)
      (mem : lookup ∈ c.unfinished) (running : now < lookup.expires) :
      Step ttl c { c with
        lease := none
        fetched := some now
        unfinished := c.unfinished.erase lookup
        answers := now :: c.answers
        clock := now }
  | gaveUp {c} (now : T) (later : c.clock ≤ now) (lookup : Lookup ω T)
      (mem : lookup ∈ c.unfinished) (running : now < lookup.expires) :
      Step ttl c { c with
        lease := none
        unfinished := c.unfinished.erase lookup
        clock := now }
  | crashed {c} (lookup : Lookup ω T) :
      Step ttl c { c with unfinished := c.unfinished.erase lookup }
  | vanished {c} (fetched : Option T) :
      Step ttl c { c with present := false, lease := none, fetched := fetched }

/-- The invariant: the lease of a running lookup is the stored one, at most one lookup runs, it
was granted when the last answer was stale, and answers are a time to live apart. -/
structure Coordinated (ttl : T) (c : Cache ω T) : Prop where
  stored : c.present = true → ∀ l ∈ c.running, c.lease = some l.expires
  single : c.running.length ≤ 1
  stale : ∀ l ∈ c.running, ∀ answer ∈ c.answers.head?, answer + ttl ≤ l.granted
  known : c.present = true → ∀ answer ∈ c.answers.head?, c.fetched = some answer
  granted : ∀ l ∈ c.unfinished, l.granted ≤ c.clock
  past : ∀ answer ∈ c.answers, answer ≤ c.clock
  spaced : c.answers.Pairwise fun newer older => older + ttl ≤ newer

section Running

variable {c : Cache ω T} {l : Lookup ω T} {now : T}

omit [Add T] [DecidableEq ω] in
theorem mem_running : l ∈ c.running ↔ l ∈ c.unfinished ∧ c.clock < l.expires := by
  simp [Cache.running]

omit [Add T] [DecidableEq ω] in
/-- What runs later runs already. -/
theorem running_later (later : c.clock ≤ now) :
    ({ c with clock := now } : Cache ω T).running.Sublist c.running :=
  List.monotone_filter_right _ fun _ h =>
    decide_eq_true (later.trans_lt (of_decide_eq_true h))

omit [Add T] in
/-- Without the only running lookup none runs. -/
theorem running_erase (single : c.running.length ≤ 1) (later : c.clock ≤ now)
    (mem : l ∈ c.unfinished) (running : now < l.expires) :
    (c.unfinished.erase l).filter (fun l => decide (now < l.expires)) = [] := by
  have hmem : l ∈ ({ c with clock := now } : Cache ω T).running := mem_running.mpr ⟨mem, running⟩
  have hlength := ((running_later later).length_le).trans single
  obtain ⟨only, honly⟩ := List.length_eq_one_iff.mp
    (le_antisymm hlength (List.length_pos_of_mem hmem))
  obtain rfl : l = only := List.mem_singleton.mp (honly ▸ hmem)
  have hfilter : c.unfinished.filter (fun l => decide (now < l.expires)) = [l] := honly
  rw [← List.erase_filter, hfilter, List.erase_cons_head]

end Running

omit [DecidableEq ω] in
theorem coordinated_of_idle {ttl : T} {c : Cache ω T} (unfinished : c.unfinished = [])
    (answers : c.answers = []) : Coordinated ttl c := by
  constructor
  all_goals simp [Cache.running, unfinished, answers]

section Steps

variable {ttl : T} {c c' : Cache ω T} (h : Coordinated ttl c) {now : T} (later : c.clock ≤ now)

include h later

omit [DecidableEq ω] in
/-- A free lease means that no lookup runs. -/
theorem Coordinated.none_running (present : c.present = true)
    (free : ∀ lease, c.lease = some lease → lease ≤ now) :
    c.unfinished.filter (fun l => decide (now < l.expires)) = [] := by
  rw [List.filter_eq_nil_iff]
  intro l hl hrunning
  have hnow : now < l.expires := of_decide_eq_true hrunning
  have hlease := h.stored present l (mem_running.mpr ⟨hl, later.trans_lt hnow⟩)
  exact not_le.mpr hnow (free _ hlease)

/-- A lookup that ends while its lease runs leaves none running. -/
theorem Coordinated.ended {lookup : Lookup ω T} (mem : lookup ∈ c.unfinished)
    (running : now < lookup.expires) {answers : List T} {fetched : Option T}
    (known : c.present = true → ∀ answer ∈ answers.head?, fetched = some answer)
    (past : ∀ answer ∈ answers, answer ≤ now)
    (spaced : answers.Pairwise fun newer older => older + ttl ≤ newer) :
    Coordinated ttl { c with
      lease := none
      fetched := fetched
      unfinished := c.unfinished.erase lookup
      answers := answers
      clock := now } := by
  have hnone := running_erase h.single later mem running
  have hidle : ∀ l ∈ c.unfinished.erase lookup, ¬ now < l.expires := fun l hl hrunning =>
    List.filter_eq_nil_iff.mp hnone l hl (decide_eq_true hrunning)
  refine ⟨fun _ l hl => ?_, ?_, fun l hl => ?_, known,
    fun l hl => (h.granted l (List.mem_of_mem_erase hl)).trans later, past, spaced⟩
  · exact absurd (mem_running.mp hl).2 (hidle l (mem_running.mp hl).1)
  · exact (congrArg List.length hnone).le.trans (Nat.zero_le 1)
  · exact absurd (mem_running.mp hl).2 (hidle l (mem_running.mp hl).1)

end Steps

/-- Every step keeps lookups coordinated. -/
theorem Coordinated.step {ttl : T} {c c' : Cache ω T} (h : Coordinated ttl c)
    (hstep : Step ttl c c') : Coordinated ttl c' := by
  cases hstep with
  | passed now later =>
    have hsub := running_later later
    exact ⟨fun hp l hl => h.stored hp l (hsub.subset hl), hsub.length_le.trans h.single,
      fun l hl => h.stale l (hsub.subset hl), h.known, fun l hl => (h.granted l hl).trans later,
      fun a ha => (h.past a ha).trans later, h.spaced⟩
  | granted now later worker expires present free stale =>
    have hnone := h.none_running later present free
    have hlength : ((⟨worker, now, expires⟩ :: c.unfinished).filter
        fun l => decide (now < l.expires)).length ≤ 1 := by
      rw [List.filter_cons, hnone]
      split
      · exact le_refl 1
      · exact Nat.zero_le 1
    have honly : ∀ l ∈ (⟨worker, now, expires⟩ :: c.unfinished).filter
        (fun l => decide (now < l.expires)), l = ⟨worker, now, expires⟩ := by
      intro l hl
      rw [List.filter_cons, hnone] at hl
      split at hl
      · exact List.mem_singleton.mp hl
      · exact absurd hl List.not_mem_nil
    refine ⟨fun _ l hl => ?_, hlength, fun l hl answer hanswer => ?_, h.known, ?_,
      fun a ha => (h.past a ha).trans later, h.spaced⟩
    · rw [honly l hl]
    · rw [honly l hl]
      exact stale answer (h.known present answer hanswer)
    · rintro l hl
      rcases List.mem_cons.mp hl with rfl | hl
      · exact le_refl now
      · exact (h.granted l hl).trans later
  | answered now later lookup mem running =>
    have hlookup : lookup ∈ c.running := mem_running.mpr ⟨mem, later.trans_lt running⟩
    have hpast : ∀ answer ∈ c.answers, answer + ttl ≤ now := by
      intro answer hanswer
      cases hanswers : c.answers with
      | nil => exact absurd (hanswers ▸ hanswer) List.not_mem_nil
      | cons newest rest =>
        rw [hanswers] at hanswer
        have hspaced := h.spaced
        rw [hanswers, List.pairwise_cons] at hspaced
        rcases List.mem_cons.mp hanswer with rfl | hrest
        · exact (h.stale lookup hlookup answer (by simp [hanswers])).trans
            ((h.granted lookup mem).trans later)
        · exact (hspaced.1 answer hrest).trans
            ((h.past newest (by simp [hanswers])).trans later)
    exact h.ended later mem running (fun _ answer hanswer => hanswer ▸ rfl)
      (List.forall_mem_cons.mpr ⟨le_refl now, fun a ha => (h.past a ha).trans later⟩)
      (List.pairwise_cons.mpr ⟨hpast, h.spaced⟩)
  | gaveUp now later lookup mem running =>
    exact h.ended later mem running h.known (fun a ha => (h.past a ha).trans later) h.spaced
  | crashed lookup =>
    have hsub : ((c.unfinished.erase lookup).filter fun l => decide (c.clock < l.expires)).Sublist
        c.running := List.Sublist.filter _ List.erase_sublist
    exact ⟨fun hp l hl => h.stored hp l (hsub.subset hl), hsub.length_le.trans h.single,
      fun l hl => h.stale l (hsub.subset hl), h.known,
      fun l hl => h.granted l (List.mem_of_mem_erase hl), h.past, h.spaced⟩
  | vanished fetched =>
    exact ⟨(fun hp => nomatch hp), h.single, h.stale, (fun hp => nomatch hp), h.granted, h.past,
      h.spaced⟩

end ProxyFleet.LeasedLookups
