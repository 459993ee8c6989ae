import Mathlib.Data.List.Induction
import TreeQuery.Proofs.Chain.Outcome
import TreeQuery.Proofs.Expression.Deciding
import TreeQuery.Proofs.Expression.Observing

/-!
# Two predicates in one

Of two predicates that follow each other the second one counts only what the
first one admits.  If neither comes out as a number and the second one does not
ask for the position, they can be joined by `and`: the steps behind them see
the same candidates and count the same positions, although every counter has
moved to another slot.
-/

namespace TreeQuery

namespace Value

theorem map_ne_number {A : Type} {f : A → Value} {number : Number}
    (hf : ∀ a, f a ≠ .number number) (outcome : Except EvalError A) :
    outcome.map f ≠ .ok (.number number) := by
  cases outcome with
  | ok a => exact fun h => hf a (Except.ok.inj h)
  | error e => nofun

theorem operate_ne_number {arithmetic : Arithmetic} {op : Operator} (hop : op.strength ≤ 3)
    (a b : Value) (number : Number) : operate arithmetic op a b ≠ .ok (.number number) := by
  cases op with
  | or | and => nofun
  | equal | notEqual | less | lessOrEqual | greater | greaterOrEqual =>
      exact map_ne_number nofun _
  | add | subtract | multiply | divide | modulo => exact absurd hop (by decide)

end Value

namespace Expression

variable {N : Type} [DecidableEq N] [Navigable N] {functions : Registry N} {focus : Focus N}
  {left right : Expression} {v : Value}

/-- Wherever axes lead to from the start, and at whatever position, the expression does not come
out as a number. -/
def NeverNumber (e : Expression) (functions : Registry N) (arithmetic : Arithmetic) (start : N) :
    Prop :=
  ∀ n, Axis.Leads start n → ∀ place number,
    e.evaluate functions ⟨n, place + 1, arithmetic⟩ ≠ .ok (.number number)

theorem evaluate_binary_ne_number {op : Operator} (hop : op.strength ≤ 3) (number : Number) :
    (binary left op right).evaluate functions focus ≠ .ok (.number number) := by
  cases hleft : left.evaluate functions focus with
  | error e =>
      rw [evaluate, hleft]
      nofun
  | ok a =>
      cases op with
      | and =>
          rw [evaluate_and_of_ok hleft]
          split
          · exact Value.map_ne_number nofun _
          · nofun
      | or =>
          rw [evaluate_or_of_ok hleft]
          split
          · nofun
          · exact Value.map_ne_number nofun _
      | _ =>
          rw [evaluate, hleft]
          cases right.evaluate functions focus with
          | error e => nofun
          | ok b => exact Value.operate_ne_number hop a b number

end Expression

theorem Predicate.accepts_eq_toBoolean {v : Value} (h : ∀ number, v ≠ .number number)
    (place : Nat) : Predicate.accepts v place = v.toBoolean := by
  cases v with
  | number x => exact absurd rfl (h x)
  | _ => rfl

namespace Environment

variable {N : Type} [DecidableEq N] [Navigable N] {env : Environment N} {tree : N → Prop}
  {p q both : Predicate} {n : N}

theorem kept_concat_of_not_admitted {ns : List N}
    (h : env.verdict p n (ns.length + 1) ≠ .ok true) : env.kept p (ns ++ [n]) = env.kept p ns := by
  rw [Nat.add_comm] at h
  simp [kept, List.zipIdx_append]

structure Fusible (env : Environment N) (tree : N → Prop) (p q both : Predicate) : Prop where
  joined : both.expression = .binary p.expression .and q.expression
  first : ∀ n, tree n → ∀ place number,
    p.expression.evaluate env.functions ⟨n, place + 1, env.arithmetic⟩ ≠ .ok (.number number)
  second : ∀ n, tree n → ∀ place number,
    q.expression.evaluate env.functions ⟨n, place + 1, env.arithmetic⟩ ≠ .ok (.number number)
  anywhere : ∀ n i j, q.expression.evaluate env.functions ⟨n, i, env.arithmetic⟩ =
    q.expression.evaluate env.functions ⟨n, j, env.arithmetic⟩

namespace Fusible

theorem verdict (h : env.Fusible tree p q both) (hn : tree n) (i j : Nat) :
    (env.verdict both n (i + 1)).mapError SelectError.bare =
      (do
        if ← env.verdict p n (i + 1) then env.verdict q n (j + 1)
        else return false : Except SelectError Bool).mapError SelectError.bare := by
  unfold Environment.verdict
  rw [h.joined]
  cases hp : p.expression.evaluate env.functions ⟨n, i + 1, env.arithmetic⟩ with
  | error e =>
      rw [Expression.evaluate, hp]
      exact congrArg Except.error (SelectError.bare_ofEvaluation both p e)
  | ok v =>
      have hv : Predicate.accepts v (i + 1) = v.toBoolean :=
        Predicate.accepts_eq_toBoolean (fun x hx => h.first n hn i x (hx ▸ hp)) (i + 1)
      dsimp only
      rw [hv]
      cases hdecided : v.toBoolean with
      | false =>
          rw [Expression.evaluate_and_of_ok hp, hdecided]
          rfl
      | true =>
          rw [Expression.evaluate_and_of_ok hp, hdecided, if_pos rfl,
            h.anywhere n (i + 1) (j + 1)]
          cases hq : q.expression.evaluate env.functions ⟨n, j + 1, env.arithmetic⟩ with
          | error e => exact congrArg Except.error (SelectError.bare_ofEvaluation both q e)
          | ok w =>
              have hw : Predicate.accepts w (j + 1) = w.toBoolean :=
                Predicate.accepts_eq_toBoolean (fun x hx => h.second n hn j x (hx ▸ hq)) (j + 1)
              exact congrArg Except.ok hw.symm

theorem admits_iff (h : env.Fusible tree p q both) (hn : tree n) (i j : Nat) :
    env.verdict both n (i + 1) = .ok true ↔
      env.verdict p n (i + 1) = .ok true ∧ env.verdict q n (j + 1) = .ok true := by
  rw [← mapError_eq_ok_iff (f := SelectError.bare), h.verdict hn i j, mapError_eq_ok_iff]
  cases env.verdict p n (i + 1) with
  | error e => exact ⟨nofun, nofun⟩
  | ok admitted =>
      cases admitted with
      | false => exact ⟨nofun, nofun⟩
      | true => exact ⟨fun hq => ⟨rfl, hq⟩, fun hboth => hboth.2⟩

theorem kept (h : env.Fusible tree p q both) {ns : List N} (hns : ∀ n ∈ ns, tree n) :
    env.kept q (env.kept p ns) = env.kept both ns := by
  induction ns using List.reverseRecOn with
  | nil => rfl
  | append_singleton ns n ih =>
      rcases List.forall_mem_append.mp hns with ⟨hns, hn⟩
      have hboth := h.admits_iff (hn n List.mem_cons_self) ns.length (env.kept p ns).length
      by_cases hp : env.verdict p n (ns.length + 1) = .ok true
      · rw [kept_concat_of_admitted hp]
        by_cases hq : env.verdict q n ((env.kept p ns).length + 1) = .ok true
        · rw [kept_concat_of_admitted hq, kept_concat_of_admitted (hboth.mpr ⟨hp, hq⟩), ih hns]
        · rw [kept_concat_of_not_admitted hq,
            kept_concat_of_not_admitted fun hadmitted => hq (hboth.mp hadmitted).2, ih hns]
      · rw [kept_concat_of_not_admitted hp,
          kept_concat_of_not_admitted fun hadmitted => hp (hboth.mp hadmitted).1, ih hns]

/-- Behind the one predicate the steps have dealt with as many candidates as behind the two. -/
theorem sameOutcome (h : env.Fusible tree p q both) (rest : List Step) :
    env.SameOutcome tree (.predicate p :: .predicate q :: rest) (.predicate both :: rest) := by
  intro seen hseen
  constructor
  · rw [nodes, nodes, nodes, h.kept hseen]
  · intro n hn
    simp only [bare_failureAfter_predicate,
      h.verdict hn seen.length (env.kept p seen).length, h.kept hseen]
    cases env.verdict p n (seen.length + 1) with
    | error e => rfl
    | ok admitted => cases admitted <;> rfl

end Fusible
end Environment

/-!
# Selecting
-/

namespace Chain

variable {N : Type} [DecidableEq N] [Navigable N]

/-- Two predicates of which neither is a number and the second one does not ask for the position
can be joined: the chain selects the same nodes, or fails for the same reason. -/
theorem select_fused (first rest : List Step) {p q both : Predicate}
    (hboth : both.expression = .binary p.expression .and q.expression)
    {arithmetic : Arithmetic} {start : N}
    (hp : p.expression.NeverNumber .builtins arithmetic start)
    (hq : q.expression.NeverNumber .builtins arithmetic start)
    (hposition : "position" ∉ q.expression.functionNames) :
    (select ⟨first ++ .predicate p :: .predicate q :: rest⟩ .builtins arithmetic start).mapError
        SelectError.bare =
      (select ⟨first ++ .predicate both :: rest⟩ .builtins arithmetic start).mapError
        SelectError.bare := by
  have hfusible : Environment.Fusible ⟨.builtins, arithmetic, fun _ => true⟩
      (Axis.Leads start) p q both :=
    { joined := hboth
      first := hp
      second := hq
      anywhere := fun n i j =>
        Expression.evaluate_builtins_congr (Focus.resembles_moved n arithmetic i j)
          fun h => absurd h hposition }
  apply select_bare_congr
  exact .behind (fun a _ hn _ hm => .onward a hn hm) first (hfusible.sameOutcome rest)

/-- From the leaves behind the first one, the second one that is not `c`. -/
theorem select_fused_forest :
    let p := Predicate.ofExpression
      (.binary (.call "position" []) .greater (.number (.ofInt64 1)))
    let q := Predicate.ofExpression (.binary (.attr "id") .notEqual (.text "c"))
    let both := Predicate.ofExpression (.binary p.expression .and q.expression)
    let first : List Step := [.axis .descendant, .name (.named "leaf")]
    let rest : List Step := [.predicate (.ofExpression (.number (.ofInt64 2)))]
    let start := (Sample.forest.run 0).1
    (p.expression.NeverNumber .builtins .standard start ∧
      q.expression.NeverNumber .builtins .standard start ∧
        "position" ∉ q.expression.functionNames) ∧
      (select ⟨first ++ .predicate p :: .predicate q :: rest⟩ .builtins .standard start).mapError
          SelectError.bare =
        (select ⟨first ++ .predicate both :: rest⟩ .builtins .standard start).mapError
          SelectError.bare ∧
      (select ⟨first ++ .predicate both :: rest⟩ .builtins .standard start).toOption.map
          (List.map Node.idOrDash) = some ["e"] := by
  intro p q both first rest start
  have hp : p.expression.NeverNumber .builtins .standard start :=
    fun _ _ _ => Expression.evaluate_binary_ne_number (by decide)
  have hq : q.expression.NeverNumber .builtins .standard start :=
    fun _ _ _ => Expression.evaluate_binary_ne_number (by decide)
  have hposition : "position" ∉ q.expression.functionNames := by decide
  exact ⟨⟨hp, hq, hposition⟩, select_fused first rest rfl hp hq hposition, by decide +kernel⟩

end Chain
end TreeQuery
