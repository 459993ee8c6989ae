import TreeQuery.Chain.Session

/-!
# How a run ends

A run ends with a result or with an error and leaves a session behind either
way.  The facts below take a run apart into the operations on its session, so
that nothing later has to open the monad.
-/

namespace TreeQuery
namespace Run

variable {S N A B : Type}

def Ends (m : Run S N A) (s : Session S N) (good : A → Session S N → Prop)
    (bad : SelectError → Session S N → Prop) : Prop :=
  match (m.run.run s : Except SelectError A × Session S N) with
  | (.ok a, left) => good a left
  | (.error e, left) => bad e left

section

variable {s : Session S N} {good : A → Session S N → Prop}
  {bad : SelectError → Session S N → Prop}

theorem ends_pure {a : A} : Ends (pure a) s good bad ↔ good a s :=
  Iff.rfl

theorem ends_throw {e : SelectError} : Ends (throw e : Run S N A) s good bad ↔ bad e s :=
  Iff.rfl

theorem ends_bind {m : Run S N B} {f : B → Run S N A} :
    Ends (m >>= f) s good bad ↔ Ends m s (fun b left => Ends (f b) left good bad) bad := by
  unfold Ends
  simp only [ExceptT.run_bind, StateT.run_bind]
  generalize StateT.run (ExceptT.run m) s = reached
  rcases reached with ⟨outcome, left⟩
  cases outcome with
  | ok b => rfl
  | error e => rfl

theorem ends_get {good : Session S N → Session S N → Prop} :
    Ends (get : Run S N (Session S N)) s good bad ↔ good s s :=
  Iff.rfl

theorem ends_set {good : PUnit → Session S N → Prop} {t : Session S N} :
    Ends (set t : Run S N PUnit) s good bad ↔ good ⟨⟩ t :=
  Iff.rfl

theorem ends_modify {good : PUnit → Session S N → Prop} {f : Session S N → Session S N} :
    Ends (modify f : Run S N PUnit) s good bad ↔ good ⟨⟩ (f s) :=
  Iff.rfl

theorem Ends.imp {m : Run S N A} {good' : A → Session S N → Prop}
    {bad' : SelectError → Session S N → Prop} (h : Ends m s good bad)
    (hgood : ∀ a left, good a left → good' a left)
    (hbad : ∀ e left, bad e left → bad' e left) : Ends m s good' bad' := by
  unfold Ends at h ⊢
  generalize StateT.run (ExceptT.run m) s = reached at h ⊢
  rcases reached with ⟨outcome, left⟩
  cases outcome with
  | ok a => exact hgood a left h
  | error e => exact hbad e left h

end
end Run

/-!
# Operations on a running session

As long as a run is not finished no operation refuses to work.
-/

namespace Hooks

variable {S N : Type}

def FiltersBy (h : Hooks S N) (accepts : N → Bool) : Prop :=
  match h.filter with
  | .none => ∀ n, accepts n = true
  | .some filter => ∀ n s, (filter n s).1 = accepts n

end Hooks

namespace Setting

open Run

variable {S N : Type} {g : Setting S N} {s : Session S N}
  {bad : SelectError → Session S N → Prop}

theorem ends_running {operation : String} {good : Unit → Session S N → Prop}
    (hs : s.finished = false) :
    Ends (running operation) s good bad ↔ good () s := by
  unfold running
  rw [ends_bind, ends_get]
  simp only [hs, Bool.false_eq_true, if_false]
  exact ends_pure

theorem ends_isFinished {good : Bool → Session S N → Prop}
    (hfinisher : g.hooks.finisher = none) (hs : s.finished = false) :
    Ends g.isFinished s good bad ↔ good false s := by
  unfold isFinished
  rw [ends_bind, ends_get]
  simp only [hs, hfinisher, Bool.false_eq_true, if_false]
  exact ends_pure

theorem ends_test {good : Bool → Session S N → Prop} {accepts : N → Bool} {candidate : N}
    (hfilter : g.hooks.FiltersBy accepts) (hs : s.finished = false)
    (h : ∀ progress caller,
      good (accepts candidate) { s with progress := progress, caller := caller }) :
    Ends (g.test candidate) s good bad := by
  unfold Hooks.FiltersBy at hfilter
  unfold test
  rw [ends_bind, ends_running hs, ends_bind, ends_get]
  cases hask : g.hooks.filter with
  | none =>
      simp only [hask] at hfilter ⊢
      rw [ends_bind, ends_set, ends_pure]
      have hgood := h { s.progress with visited := s.progress.visited + 1 } s.caller
      rw [hfilter] at hgood
      exact hgood
  | some filter =>
      simp only [hask] at hfilter ⊢
      rw [ends_bind, ends_set, ends_pure, hfilter]
      exact h _ _

theorem ends_setNode {good : Unit → Session S N → Prop} {node : N} (hs : s.finished = false) :
    Ends (setNode node) s good bad ↔ good () { s with current := some node } := by
  unfold setNode
  rw [ends_bind, ends_running hs, ends_modify]

theorem ends_evaluate [DecidableEq N] [Navigable N]
    {good : Except EvalError Value → Session S N → Prop} {e : Expression} {node : N}
    {position : Nat} (hs : s.finished = false) :
    Ends (g.evaluate e node position) s good bad ↔
      good (e.evaluate g.functions ⟨node, position, g.arithmetic⟩) s := by
  unfold evaluate
  rw [ends_bind, ends_running hs, ends_pure]

theorem ends_resetCounters {good : Unit → Session S N → Prop} {first count : Nat} :
    Ends (resetCounters first count) s good bad ↔
      good () { s with positions := s.positions.mapIdx fun i p =>
        if first ≤ i ∧ i < first + count then 0 else p } :=
  ends_modify

theorem ends_advance {good : Nat → Session S N → Prop} {slot : Nat} :
    Ends (advance slot) s good bad ↔
      good (s.positions.getD slot 0 + 1)
        { s with positions := s.positions.set slot (s.positions.getD slot 0 + 1) } := by
  unfold advance
  rw [ends_bind, ends_get, ends_bind, ends_set, ends_pure]

theorem ends_select [DecidableEq N] {good : Unit → Session S N → Prop} {node : N}
    (hs : s.finished = false)
    (hknown : node ∈ s.selected → good () s)
    (hnew : node ∉ s.selected → ∀ progress caller,
      good () { s with
        progress := progress, caller := caller, selected := s.selected ++ [node] }) :
    Ends (g.select node) s good bad := by
  unfold select
  rw [ends_bind, ends_running hs, ends_bind, ends_get]
  by_cases hmem : node ∈ s.selected
  · simp only [hmem, if_true]
    exact hknown hmem
  · simp only [hmem, if_false]
    rw [ends_set]
    exact hnew hmem _ _

end Setting
end TreeQuery
