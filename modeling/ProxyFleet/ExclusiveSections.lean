import Mathlib.Logic.Basic

/-!
# Sections behind a gate

Callers enter a section through a gate that closes behind them. As long as the gate is found open
only when the section is empty, at most one caller is inside, whoever asks and in whatever order
callers enter, leave and fail.
-/
namespace ProxyFleet

variable {ι : Type*} {closed closed' : Prop} {inside inside' : ι → Prop}

/-- The gate is closed while somebody is inside, and at most one caller is. -/
structure Guarded (closed : Prop) (inside : ι → Prop) : Prop where
  closed : ∀ c, inside c → closed
  single : ∀ c d, inside c → inside d → c = d

namespace Guarded

theorem of_empty (h : ∀ c, ¬ inside c) : Guarded closed inside :=
  ⟨fun c hc => absurd hc (h c), fun c _ hc => absurd hc (h c)⟩

/-- Nobody enters. -/
theorem mono (h : Guarded closed inside) (shut : closed → closed')
    (fewer : ∀ c, inside' c → inside c) : Guarded closed' inside' :=
  ⟨fun c hc => shut (h.closed c (fewer c hc)),
    fun c d hc hd => h.single c d (fewer c hc) (fewer d hd)⟩

/-- A caller finds the gate open and closes it. -/
theorem enter (h : Guarded closed inside) (opened : ¬ closed) (shut : closed') {c : ι}
    (entered : ∀ d, inside' d → d = c ∨ inside d) : Guarded closed' inside' := by
  have honly : ∀ d, inside' d → d = c := fun d hd =>
    (entered d hd).resolve_right fun hin => opened (h.closed d hin)
  exact ⟨fun _ _ => shut, fun d e hd he => (honly d hd).trans (honly e he).symm⟩

/-- The caller inside leaves and opens the gate. -/
theorem leave (h : Guarded closed inside) {c : ι} (hc : inside c)
    (left : ∀ d, inside' d → inside d ∧ d ≠ c) : Guarded closed' inside' :=
  of_empty fun d hd => (left d hd).2 (h.single d c (left d hd).1 hc)

end Guarded

end ProxyFleet
