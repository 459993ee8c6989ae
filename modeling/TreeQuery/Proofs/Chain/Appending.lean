import Mathlib.Data.List.Forall2
import Mathlib.Data.List.Induction
import TreeQuery.Proofs.Chain.Interchange

/-!
# One chain behind the other

A chain that begins with an axis, or has no steps, treats every candidate by
itself.  So it may be run on each node that the chain before it selects, with
counters of its own every time, and nodes that are selected repeatedly may be
dropped between the two as well as at the end.
-/

namespace TreeQuery

/-!
# Later duplicates
-/

section

variable {A B : Type} [DecidableEq A] [DecidableEq B]

theorem eraseDups_append_of_subset {as bs : List A} (h : bs ⊆ as) :
    (as ++ bs).eraseDups = as.eraseDups := by
  have hnone : bs.removeAll as = [] := by
    rw [List.removeAll, List.filter_eq_nil_iff]
    intro b hb
    simpa using h hb
  rw [List.eraseDups_append, hnone, List.eraseDups_nil, List.append_nil]

theorem eraseDups_eraseDups (as : List A) : as.eraseDups.eraseDups = as.eraseDups := by
  induction as using List.reverseRecOn with
  | nil => rfl
  | append_singleton as a ih =>
      by_cases ha : a ∈ as
      · rw [Environment.eraseDups_concat_of_mem ha, ih]
      · have ha' : a ∉ as.eraseDups := fun h => ha (List.mem_eraseDups.mp h)
        rw [Environment.eraseDups_concat_of_notMem ha, Environment.eraseDups_concat_of_notMem ha',
          ih]

theorem eraseDups_filter (keeps : A → Bool) (as : List A) :
    (as.filter keeps).eraseDups = as.eraseDups.filter keeps := by
  induction as using List.reverseRecOn with
  | nil => rfl
  | append_singleton as a ih =>
      cases hkeeps : keeps a with
      | false =>
          by_cases ha : a ∈ as
          · simp [ha, hkeeps, ih, Environment.eraseDups_concat_of_mem]
          · simp [ha, hkeeps, ih, Environment.eraseDups_concat_of_notMem]
      | true =>
          have hmem : a ∈ as.filter keeps ↔ a ∈ as := by simp [hkeeps]
          by_cases ha : a ∈ as
          · simp [ha, hkeeps, ih, hmem, Environment.eraseDups_concat_of_mem]
          · simp [ha, hkeeps, ih, hmem, Environment.eraseDups_concat_of_notMem]

theorem eraseDups_append_congr {as as' bs bs' : List A} (has : as.eraseDups = as'.eraseDups)
    (hbs : bs.eraseDups = bs'.eraseDups) : (as ++ bs).eraseDups = (as' ++ bs').eraseDups := by
  have hmem : ∀ a, a ∈ as ↔ a ∈ as' := by
    intro a
    rw [← List.mem_eraseDups, has, List.mem_eraseDups]
  rw [List.eraseDups_append, List.eraseDups_append, List.removeAll, List.removeAll,
    eraseDups_filter, eraseDups_filter, has, hbs]
  simp only [List.elem_eq_mem, hmem]

/-- Nodes may be dropped that were met before, and so may what is found at each of the others. -/
theorem eraseDups_flatMap (f : A → List B) (as : List A) :
    (as.flatMap f).eraseDups =
      (as.eraseDups.flatMap fun a => (f a).eraseDups).eraseDups := by
  induction as using List.reverseRecOn with
  | nil => rfl
  | append_singleton as a ih =>
      rw [List.flatMap_append, List.flatMap_singleton]
      by_cases ha : a ∈ as
      · have hmet : f a ⊆ as.flatMap f := fun b hb => List.mem_flatMap.mpr ⟨a, ha, hb⟩
        rw [eraseDups_append_of_subset hmet, ih, Environment.eraseDups_concat_of_mem ha]
      · rw [Environment.eraseDups_concat_of_notMem ha, List.flatMap_append,
          List.flatMap_singleton]
        exact eraseDups_append_congr ih (eraseDups_eraseDups (f a)).symm

end

/-!
# Steps behind steps
-/

namespace Environment

open Interchangeable

variable {N : Type} [DecidableEq N] [Navigable N] {env : Environment N} {more : List Step}

theorem nodes_flatMap (h : Additive env more) {A : Type} (f : A → List N) (as : List A) :
    env.nodes more (as.flatMap f) = as.flatMap fun a => env.nodes more (f a) := by
  have hparts : ∀ a, env.nodes more (f a) = (f a).flatMap fun n => env.nodes more [n] :=
    fun a => (h (f a)).1
  rw [(h _).1, List.flatMap_assoc]
  simp only [hparts]

theorem failures_flatMap (h : Additive env more) {A : Type} (f : A → List N) (as : List A) :
    env.failures more (as.flatMap f) = as.flatMap fun a => env.failures more (f a) := by
  have hparts : ∀ a, env.failures more (f a) = (f a).flatMap fun n => env.failures more [n] :=
    fun a => (h (f a)).2
  rw [(h _).2, List.flatMap_assoc]
  simp only [hparts]

theorem nodes_append (h : Additive env more) (steps : List Step) (ns : List N) :
    env.nodes (steps ++ more) ns = env.nodes more (env.nodes steps ns) := by
  induction steps generalizing ns with
  | nil => rfl
  | cons step rest ih =>
      cases step with
      | axis a => simp only [List.cons_append, nodes, ih, nodes_flatMap h]
      | name test => exact ih _
      | predicate p => exact ih _

/-- The first steps fail, or what comes behind them fails at a node they lead to. -/
theorem failures_append_eq_nil_iff (h : Additive env more) (steps : List Step) (ns : List N) :
    env.failures (steps ++ more) ns = [] ↔
      env.failures steps ns = [] ∧ env.failures more (env.nodes steps ns) = [] := by
  induction steps generalizing ns with
  | nil => exact ⟨fun hmore => ⟨rfl, hmore⟩, fun hboth => hboth.2⟩
  | cons step rest ih =>
      cases step with
      | axis a =>
          simp only [List.cons_append, failures, nodes, List.flatMap_eq_nil_iff, ih,
            failures_flatMap h]
          exact forall₂_and
      | name test => exact ih _
      | predicate p =>
          rw [List.cons_append, failures, failures, nodes, List.append_eq_nil_iff,
            List.append_eq_nil_iff, ih, and_assoc]

end Environment

namespace Chain

open Environment.Interchangeable

variable {N : Type} [DecidableEq N] [Navigable N]

def beginsAnew (c : Chain) : Bool :=
  c.steps.head?.all Step.isAxis

theorem additive_of_beginsAnew {c : Chain} (h : c.beginsAnew = true) (env : Environment N) :
    Additive env c.steps := by
  rcases c with ⟨steps⟩
  cases steps with
  | nil => exact additive_nil
  | cons step rest =>
      cases step with
      | axis a => exact additive_axis a rest
      | name test => cases h
      | predicate p => cases h

/-- Two chains in a row select something exactly when the first one does and the second one does
at every node selected by the first; what is found at these nodes, in their order and without
later duplicates, is what both select together. -/
theorem select_append_eq_ok_iff {a b : Chain} (hb : b.beginsAnew = true)
    (functions : Registry N) (arithmetic : Arithmetic) (start : N) (found : List N) :
    (a.append b).select functions arithmetic start = .ok found ↔
      ∃ reached parts, a.select functions arithmetic start = .ok reached ∧
        List.Forall₂ (fun n part => b.select functions arithmetic n = .ok part) reached parts ∧
          found = parts.flatten.eraseDups := by
  generalize henv : (⟨functions, arithmetic, fun _ => true⟩ : Environment N) = env
  have hadditive := additive_of_beginsAnew hb env
  have hselect : ∀ {c : Chain} {n : N} {ns : List N},
      c.select functions arithmetic n = .ok ns ↔
        env.failures c.steps [n] = [] ∧ (env.nodes c.steps [n]).eraseDups = ns := by
    intro c n ns
    rw [select_eq_ok_iff, henv, eq_comm (a := ns)]
  have hparts : ∀ {reached : List N} {parts : List (List N)},
      List.Forall₂ (fun n part => b.select functions arithmetic n = .ok part) reached parts ↔
        (∀ n ∈ reached, env.failures b.steps [n] = []) ∧
          reached.map (fun n => (env.nodes b.steps [n]).eraseDups) = parts := by
    intro reached parts
    simp only [hselect]
    rw [List.forall₂_and_left, ← List.forall₂_map_left_iff (R := Eq), List.forall₂_eq_eq_eq]
  simp only [hparts]
  simp only [hselect]
  have hfailures : env.failures b.steps (env.nodes a.steps [start]) = [] ↔
      ∀ n ∈ (env.nodes a.steps [start]).eraseDups, env.failures b.steps [n] = [] := by
    rw [(hadditive _).2, List.flatMap_eq_nil_iff]
    simp only [List.mem_eraseDups]
  have hnodes : (env.nodes b.steps (env.nodes a.steps [start])).eraseDups =
      ((env.nodes a.steps [start]).eraseDups.map fun n =>
        (env.nodes b.steps [n]).eraseDups).flatten.eraseDups := by
    rw [(hadditive _).1, eraseDups_flatMap, List.flatMap_def]
  rw [append, Environment.nodes_append hadditive,
    Environment.failures_append_eq_nil_iff hadditive, hfailures, hnodes]
  constructor
  · intro h
    rcases h with ⟨⟨ha, hb⟩, hfound⟩
    exact ⟨_, _, ⟨ha, rfl⟩, ⟨hb, rfl⟩, hfound.symm⟩
  · intro h
    rcases h with ⟨_, _, ⟨ha, rfl⟩, ⟨hb, rfl⟩, hfound⟩
    exact ⟨⟨ha, hb⟩, hfound.symm⟩

/-- The parents of the leaves, each of them met once for every leaf below it, and the second child
of each. -/
theorem select_append_forest :
    let a := ((empty.axis .descendant).named "leaf").axis .parent
    let b := (empty.axis .child).position 2
    let start := (Sample.forest.run 0).1
    b.beginsAnew = true ∧
      ∃ found, (a.append b).select .empty .standard start = .ok found ∧
        found.map Node.idOrDash = ["b", "d"] ∧
          ∃ reached parts, a.select .empty .standard start = .ok reached ∧
            List.Forall₂ (fun n part => b.select .empty .standard n = .ok part) reached parts ∧
              found = parts.flatten.eraseDups := by
  intro a b start
  have hb : b.beginsAnew = true := rfl
  obtain ⟨found, hfound, hids⟩ : ∃ found,
      (a.append b).select .empty .standard start = .ok found ∧
        found.map Node.idOrDash = ["b", "d"] :=
    ⟨_, select_eq_ok_iff.mpr ⟨by decide, rfl⟩, by decide⟩
  exact ⟨hb, found, hfound, hids,
    (select_append_eq_ok_iff hb .empty .standard start found).mp hfound⟩

end Chain
end TreeQuery
