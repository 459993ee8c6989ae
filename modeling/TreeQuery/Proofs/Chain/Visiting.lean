import TreeQuery.Proofs.Chain.Meaning
import TreeQuery.Proofs.Chain.Running

/-!
# Visiting the candidates of an axis

A visitor of a run either hands a candidate on or refuses it, and never stops.
Such a visitor is known by what holds after the candidates handed on so far,
and an axis brings it to all its candidates in turn.
-/

namespace TreeQuery

open Run

variable {S N : Type}

/-- How a visitor treats one candidate: `holds` is kept for the list of those handed on, and an
error is one that is known of that list. -/
structure Visits {A : Type} (accepts : A → Bool) (visit : A → Run S N Flow)
    (holds : List A → Session S N → Prop) (known : List A → SelectError → Prop) : Prop where
  accepted : ∀ {pre a s}, accepts a = true → holds pre s →
    Ends (visit a) s (fun flow left => flow = .onward ∧ holds (pre ++ [a]) left)
      (fun e _ => known (pre ++ [a]) e)
  refused : ∀ {pre a s}, accepts a = false → holds pre s →
    Ends (visit a) s (fun flow left => flow = .prune ∧ holds pre left)
      (fun e _ => known pre e)
  widens : ∀ {pre e}, known pre e → ∀ more, known (pre ++ more) e

namespace Visits

section

variable {A : Type} {accepts : A → Bool} {visit : A → Run S N Flow}
  {holds : List A → Session S N → Prop} {known : List A → SelectError → Prop}

theorem each (h : Visits accepts visit holds known) (as : List A) {pre : List A}
    {s : Session S N} (hpre : holds pre s) :
    Ends (Flow.each visit as) s
      (fun stopped left => stopped = false ∧ holds (pre ++ as.filter accepts) left)
      (fun e _ => known (pre ++ as.filter accepts) e) := by
  induction as generalizing pre s with
  | nil =>
      rw [Flow.each, ends_pure]
      simpa using hpre
  | cons a rest ih =>
      rw [Flow.each, ends_bind]
      cases haccepts : accepts a with
      | true =>
          have hfilter : pre ++ (a :: rest).filter accepts =
              (pre ++ [a]) ++ rest.filter accepts := by
            simp [haccepts]
          rw [hfilter]
          apply (h.accepted haccepts hpre).imp
          · intro flow left hafter
            rcases hafter with ⟨rfl, hleft⟩
            exact ih hleft
          · intro e left he
            exact h.widens he _
      | false =>
          have hfilter : (a :: rest).filter accepts = rest.filter accepts := by
            simp [haccepts]
          rw [hfilter]
          apply (h.refused haccepts hpre).imp
          · intro flow left hafter
            rcases hafter with ⟨rfl, hleft⟩
            exact ih hleft
          · intro e left he
            exact h.widens he _

mutual

theorem below (h : Visits accepts visit holds known) : ∀ (t : Rose A) {pre : List A}
    {s : Session S N}, holds pre s →
    Ends (Flow.below visit t) s
      (fun stopped left => stopped = false ∧ holds (pre ++ t.pruned accepts) left)
      (fun e _ => known (pre ++ t.pruned accepts) e)
  | .node a branches, pre, s, hpre => by
      rw [Flow.below, ends_bind, Rose.pruned]
      cases haccepts : accepts a with
      | true =>
          have hjoin : pre ++ (a :: Rose.prunedAll accepts branches) =
              (pre ++ [a]) ++ Rose.prunedAll accepts branches := by
            simp
          simp only [if_true]
          rw [hjoin]
          apply (h.accepted haccepts hpre).imp
          · intro flow left hafter
            rcases hafter with ⟨rfl, hleft⟩
            exact belowAll h branches hleft
          · intro e left he
            exact h.widens he _
      | false =>
          simp only [Bool.false_eq_true, if_false, List.append_nil]
          apply (h.refused haccepts hpre).imp
          · intro flow left hafter
            rcases hafter with ⟨rfl, hleft⟩
            rw [ends_pure]
            exact ⟨rfl, hleft⟩
          · intro e left he
            exact he

theorem belowAll (h : Visits accepts visit holds known) : ∀ (ts : List (Rose A)) {pre : List A}
    {s : Session S N}, holds pre s →
    Ends (Flow.belowAll visit ts) s
      (fun stopped left => stopped = false ∧ holds (pre ++ Rose.prunedAll accepts ts) left)
      (fun e _ => known (pre ++ Rose.prunedAll accepts ts) e)
  | [], pre, s, hpre => by
      rw [Flow.belowAll, ends_pure, Rose.prunedAll]
      simpa using hpre
  | t :: ts, pre, s, hpre => by
      rw [Flow.belowAll, ends_bind, Rose.prunedAll, ← List.append_assoc]
      apply (below h t hpre).imp
      · intro stopped left hafter
        rcases hafter with ⟨rfl, hleft⟩
        exact belowAll h ts hleft
      · intro e left he
        exact h.widens he _

end

end

variable [DecidableEq N] [Navigable N] {accepts : N → Bool} {visit : N → Run S N Flow}
  {holds : List N → Session S N → Prop} {known : List N → SelectError → Prop}

theorem traverse (h : Visits accepts visit holds known) (axis : Axis) (n : N)
    {s : Session S N} (hs : holds [] s) :
    Ends (axis.traverse n visit) s
      (fun _ left => holds (axis.candidates accepts n) left)
      (fun e _ => known (axis.candidates accepts n) e) := by
  rw [Axis.traverse_eq_walk]
  unfold Axis.walk
  cases axis with
  | descendant =>
      exact ends_bind.mpr ((h.belowAll _ hs).imp (fun _ _ hleft => hleft.2) fun _ _ he => he)
  | descendantOrSelf =>
      exact ends_bind.mpr ((h.below _ hs).imp (fun _ _ hleft => hleft.2) fun _ _ he => he)
  | following =>
      exact ends_bind.mpr ((h.belowAll _ hs).imp (fun _ _ hleft => hleft.2) fun _ _ he => he)
  | _ =>
      exact ends_bind.mpr ((h.each _ hs).imp (fun _ _ hleft => hleft.2) fun _ _ he => he)

end Visits
end TreeQuery
