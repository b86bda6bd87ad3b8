import Mathlib.Data.List.Basic

/-!
# Histories of one branch

A branch is the list of its commits, the oldest first. A rebase puts the commits that
an upstream branch does not have behind those that it has, and a push is accepted if
it only adds commits. Two branches that grew from a common base with different
commits are rebased without losing any of either.
-/
namespace ProxyFleet.LinearHistories

variable {α : Type*} [DecidableEq α]

/-- The number of commits that two branches have in common. -/
def mergeBase : List α → List α → ℕ
  | a :: as, b :: bs => if a = b then mergeBase as bs + 1 else 0
  | _, _ => 0

/-- The commits of a branch that its upstream lacks. -/
def ahead (upstream head : List α) : List α := head.drop (mergeBase upstream head)

def rebase (upstream head : List α) : List α := upstream ++ ahead upstream head

@[simp] theorem mergeBase_nil_left (head : List α) : mergeBase [] head = 0 := by
  simp [mergeBase]

@[simp] theorem mergeBase_nil_right (upstream : List α) : mergeBase upstream [] = 0 := by
  cases upstream <;> simp [mergeBase]

theorem mergeBase_append (base upstream head : List α) :
    mergeBase (base ++ upstream) (base ++ head) = base.length + mergeBase upstream head := by
  induction base with
  | nil => simp
  | cons a base ih =>
    simp only [List.cons_append, mergeBase, if_true, ih, List.length_cons]
    omega

theorem mergeBase_of_disjoint {upstream head : List α} (h : upstream.Disjoint head) :
    mergeBase upstream head = 0 := by
  cases upstream with
  | nil => simp
  | cons a upstream =>
    cases head with
    | nil => simp
    | cons b head =>
      have hab : a ≠ b := by
        rintro rfl
        exact h (List.mem_cons_self ..) (List.mem_cons_self ..)
      simp [mergeBase, hab]

/-- Branches with a common base and nothing else in common. -/
theorem ahead_append {base upstream head : List α} (h : upstream.Disjoint head) :
    ahead (base ++ upstream) (base ++ head) = head := by
  rw [ahead, mergeBase_append, mergeBase_of_disjoint h, Nat.add_zero, List.drop_left]

theorem rebase_append {base upstream head : List α} (h : upstream.Disjoint head) :
    rebase (base ++ upstream) (base ++ head) = base ++ upstream ++ head := by
  rw [rebase, ahead_append h]

/-- A branch that only adds to its upstream is ahead by what it adds. -/
@[simp] theorem ahead_self_append (upstream head : List α) :
    ahead upstream (upstream ++ head) = head := by
  have h : ahead (upstream ++ []) (upstream ++ head) = head :=
    ahead_append (List.disjoint_nil_left head)
  rwa [List.append_nil] at h

end ProxyFleet.LinearHistories
