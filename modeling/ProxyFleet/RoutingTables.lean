import Mathlib.Data.List.Nodup

/-!
# Routing tables

A gateway with listening ports, rules that send the connections of an inbound to an outbound,
and outbounds under their tags. The first rule that names the tag of an inbound decides, and a
connection that no rule claims leaves through the first outbound. A pinned gateway gives each
port an outbound of its own.
-/
namespace ProxyFleet.RoutingTables

/-- A rule for the connections of some inbounds. -/
structure Rule (T : Type) where
  inbounds : List T
  outbound : T

/-- A gateway with ports of type `P`, tags of type `T` and outbounds of type `O`. -/
structure Gateway (P T O : Type) where
  inbounds : List (P × Option T)
  rules : List (Rule T)
  outbounds : List (Option T × O)

variable {P T O : Type} [DecidableEq P] [DecidableEq T]

/-- The outbound that the rules choose for an inbound. -/
def route (rules : List (Rule T)) (inbound : T) : Option T :=
  (rules.find? fun rule => decide (inbound ∈ rule.inbounds)).map Rule.outbound

/-- The outbound through which the connections of a port leave. -/
def Gateway.egress (gateway : Gateway P T O) (port : P) : Option O :=
  (gateway.inbounds.lookup port).bind fun inbound =>
    match inbound.bind (route gateway.rules) with
    | some outbound => gateway.outbounds.lookup (some outbound)
    | none => gateway.outbounds.head?.map Prod.snd

/-- The gateway of one port, without rules. -/
def direct (port : P) (tag : Option T) (outbound : O) : Gateway P T O :=
  ⟨[(port, none)], [], [(tag, outbound)]⟩

/-- Each port under the tags of its position, with a rule from one tag to the other. -/
def pinned (inTag outTag : ℕ → T) (ports : List P) (outbounds : List O) : Gateway P T O where
  inbounds := ports.mapIdx fun index port => (port, some (inTag index))
  rules := (List.range ports.length).map fun index => ⟨[inTag index], outTag index⟩
  outbounds := outbounds.mapIdx fun index outbound => (some (outTag index), outbound)

theorem egress_direct (port other : P) (tag : Option T) (outbound : O) :
    (direct port tag outbound).egress other = if other = port then some outbound else none := by
  by_cases h : other = port
  · simp [direct, Gateway.egress, h]
  · simp [direct, Gateway.egress, List.lookup_cons, beq_false_of_ne h, h]

/-- A lookup under the names of the positions. -/
theorem lookup_mapIdx {name : ℕ → T} (hname : Function.Injective name) (values : List O)
    (index : ℕ) :
    (values.mapIdx fun i value => (some (name i), value)).lookup (some (name index)) =
      values[index]? := by
  induction values generalizing name index with
  | nil => rfl
  | cons value values ih =>
    rw [List.mapIdx_cons, List.lookup_cons]
    cases index with
    | zero => simp
    | succ index =>
      have hne : some (name (index + 1)) ≠ some (name 0) := fun h =>
        Nat.succ_ne_zero index (hname (Option.some.inj h))
      rw [beq_false_of_ne hne]
      exact ih (fun i j h => Nat.succ.inj (hname h)) index

/-- A lookup among keys whose values are made from their positions. -/
theorem lookup_mapIdx_key (keys : List P) (value : ℕ → O) (key : P) :
    (keys.mapIdx fun i k => (k, value i)).lookup key =
      if key ∈ keys then some (value (keys.idxOf key)) else none := by
  induction keys generalizing value with
  | nil => rfl
  | cons first keys ih =>
    rw [List.mapIdx_cons, List.lookup_cons]
    by_cases h : key = first
    · subst h
      simp
    · rw [beq_false_of_ne h, ih fun i => value (i + 1), List.idxOf_cons_ne keys (Ne.symm h)]
      simp [h]

theorem lookup_zip (keys : List P) (values : List O) (key : P) :
    (keys.zip values).lookup key = if key ∈ keys then values[keys.idxOf key]? else none := by
  induction keys generalizing values with
  | nil => rfl
  | cons first keys ih =>
    cases values with
    | nil => simp
    | cons value values =>
      rw [List.zip_cons_cons, List.lookup_cons]
      by_cases h : key = first
      · subst h
        simp
      · rw [beq_false_of_ne h, ih, List.idxOf_cons_ne keys (Ne.symm h)]
        simp [h]

/-- The rules of the positions send each tag to its partner. -/
theorem route_pinned {inTag outTag : ℕ → T} (hin : Function.Injective inTag) {count index : ℕ}
    (h : index < count) :
    route ((List.range count).map fun i => ⟨[inTag i], outTag i⟩) (inTag index) =
      some (outTag index) := by
  have hfind : (List.range count).find? (fun i => decide (inTag index ∈ [inTag i])) =
      some index := by
    rw [List.find?_range_eq_some]
    refine ⟨by simp, List.mem_range.mpr h, fun i hi => ?_⟩
    have hne : inTag index ≠ inTag i := fun heq => (Nat.ne_of_gt hi) (hin heq)
    simpa using hne
  rw [route, List.find?_map, Option.map_map]
  exact congrArg (Option.map _) hfind

/-- A pinned gateway serves exactly its ports, each through the outbound of its position. -/
theorem egress_pinned {inTag outTag : ℕ → T} (hin : Function.Injective inTag)
    (hout : Function.Injective outTag) (ports : List P) (outbounds : List O) (port : P) :
    (pinned inTag outTag ports outbounds).egress port = (ports.zip outbounds).lookup port := by
  rw [Gateway.egress, pinned, lookup_mapIdx_key ports (fun i => some (inTag i)), lookup_zip]
  split
  · next h =>
    have hindex : ports.idxOf port < ports.length := List.idxOf_lt_length_of_mem h
    rw [Option.bind_some, Option.bind_some, route_pinned hin hindex]
    exact lookup_mapIdx hout outbounds _
  · rfl

end ProxyFleet.RoutingTables
