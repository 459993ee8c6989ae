import Mathlib.Data.List.Perm.Subperm
import TreeQuery.Proofs.Chain.Outcome
import TreeQuery.Proofs.Chain.Surrounding

/-!
# What arrives at a step

The steps of a chain hand lists of candidates on to each other.  The lists that
arrive at a step hold nodes of one tree and none of them twice, so that none is
longer than the tree is large.  They are also all that a predicate is asked
about: where two predicates give the same verdict on them, one can stand for
the other.
-/

namespace TreeQuery

theorem toList_subperm {N : Type} {o : Option N} {ns : List N} (h : ∀ n, o = some n → n ∈ ns) :
    o.toList.Subperm ns := by
  cases o with
  | none => exact List.nil_subperm
  | some n => exact List.singleton_subperm_iff.mpr (h n rfl)

/-!
# Candidates of an axis
-/

namespace Navigable

variable {N : Type} [DecidableEq N] [Navigable N] {m n p : N}

theorem document_congr (h : root m = root n) : document m = document n :=
  congrArg descendantsOrSelf h

theorem sublist_flatMap_descendantsOrSelf (ns : List N) :
    ns.Sublist (ns.flatMap descendantsOrSelf) := by
  induction ns with
  | nil => exact .slnil
  | cons n rest ih =>
      rw [List.flatMap_cons, descendantsOrSelf_eq, List.cons_append]
      exact (ih.trans (List.sublist_append_right ..)).cons_cons n

variable [Lawful N]

theorem self_mem_document (n : N) : n ∈ document n :=
  mem_document_iff.mpr rfl

theorem mem_document_of_parent (h : parent n = some p) : p ∈ document n :=
  mem_document_iff.mpr (root_of_parent h).symm

theorem mem_document_of_child (h : m ∈ children n) : m ∈ document n :=
  mem_document_iff.mpr (root_of_parent (Lawful.mem_children_iff.mp h))

theorem descendantsOrSelf_subperm (n : N) : (descendantsOrSelf n).Subperm (document n) := by
  rw [document_eq]
  exact ((List.sublist_append_right ..).trans (List.sublist_append_left ..)).subperm

theorem descendants_subperm (n : N) :
    ((children n).flatMap descendantsOrSelf).Subperm (document n) := by
  have hbelow := descendantsOrSelf_subperm n
  rw [descendantsOrSelf_eq] at hbelow
  exact (List.sublist_cons_self ..).subperm.trans hbelow

theorem children_subperm (n : N) : (children n).Subperm (document n) :=
  (sublist_flatMap_descendantsOrSelf _).subperm.trans (descendants_subperm n)

theorem siblings_subperm (n : N) :
    (precedingSiblings n).Subperm (document n) ∧ (followingSiblings n).Subperm (document n) := by
  cases hp : parent n with
  | none =>
      rw [(Lawful.siblings_of_no_parent hp).1, (Lawful.siblings_of_no_parent hp).2]
      exact ⟨List.nil_subperm, List.nil_subperm⟩
  | some p =>
      have hall := children_subperm p
      rw [document_congr (root_of_parent hp).symm, Lawful.children_eq hp] at hall
      constructor
      · exact (List.reverse_perm _).symm.subperm.trans
          ((List.sublist_append_left ..).subperm.trans hall)
      · exact ((List.sublist_cons_self ..).trans
          (List.sublist_append_right ..)).subperm.trans hall

theorem line_subperm (n : N) : (n :: ancestors n).Subperm (document n) := by
  have habove : (ancestors n).Subperm (leading n) :=
    (List.sublist_append_right ..).subperm.trans
      (Axis.precedingNodes_append_ancestors_perm n).subperm
  have hline : (ancestors n ++ [n]).Subperm (leading n ++ [n]) :=
    (List.subperm_append_right [n]).mpr habove
  rw [document_eq_cons]
  exact (List.perm_append_singleton n _).symm.subperm.trans
    (hline.trans ((List.sublist_append_left ..).cons_cons n |>.append_left _).subperm)

end Navigable

namespace Axis

open Navigable

variable {N : Type} [DecidableEq N] [Navigable N] [LawfulShortcuts N]

/-- An axis leads to nodes of the tree, and to none of them twice. -/
theorem candidates_subperm (a : Axis) (n : N) :
    (a.candidates (fun _ => true) n).Subperm (document n) := by
  have haround : ∀ {ns : List N}, ns.Sublist (around n) → ns.Subperm (document n) :=
    fun h => h.subperm.trans (around_perm n).subperm
  cases a with
  | root =>
      rw [candidates, List.filter_true]
      exact List.singleton_subperm_iff.mpr (self_mem_descendantsOrSelf (Navigable.root n))
  | self =>
      rw [candidates, List.filter_true]
      exact List.singleton_subperm_iff.mpr (self_mem_document n)
  | child =>
      rw [candidates, List.filter_true]
      exact children_subperm n
  | descendant =>
      rw [candidates, Rose.prunedAll_true, Rose.preorderAll_map]
      exact descendants_subperm n
  | descendantOrSelf =>
      rw [candidates, Rose.pruned_true]
      exact descendantsOrSelf_subperm n
  | parent =>
      rw [candidates, List.filter_true]
      exact toList_subperm fun p => mem_document_of_parent
  | ancestor =>
      rw [candidates, List.filter_true]
      exact (List.sublist_cons_self ..).subperm.trans (line_subperm n)
  | ancestorOrSelf =>
      rw [candidates, List.filter_true]
      exact line_subperm n
  | firstChild =>
      rw [candidates, List.filter_true, LawfulShortcuts.firstChild_eq]
      exact toList_subperm fun c hc => mem_document_of_child (List.mem_of_head? hc)
  | lastChild =>
      rw [candidates, List.filter_true, LawfulShortcuts.lastChild_eq]
      exact toList_subperm fun c hc => mem_document_of_child (List.mem_of_getLast? hc)
  | followingSibling =>
      rw [candidates, List.filter_true]
      exact (siblings_subperm n).2
  | precedingSibling =>
      rw [candidates, List.filter_true]
      exact (siblings_subperm n).1
  | following =>
      rw [← visited_eq]
      exact haround (List.sublist_append_right ..)
  | preceding =>
      rw [← visited_eq]
      exact haround ((List.sublist_append_left ..).trans
        ((List.sublist_append_left ..).trans (List.sublist_append_left ..)))

end Axis

namespace Environment

variable {N : Type} [DecidableEq N] [Navigable N] {env : Environment N}

/-!
# Lists that arrive
-/

/-- The lists of candidates that the steps hand on, one for every application of the last axis. -/
def arrivals (env : Environment N) : List Step → List N → List (List N)
  | [], ns => [ns]
  | .axis a :: rest, ns => ns.flatMap fun n => arrivals env rest (a.candidates env.accepts n)
  | .name test :: rest, ns => arrivals env rest (named test ns)
  | .predicate p :: rest, ns => arrivals env rest (env.kept p ns)

theorem exists_prefix_of_mem_arrivals {steps : List Step} {ns : List N} {arrived : List N}
    (h : arrived ∈ env.arrivals steps ns) (more : List N) :
    ∃ longer ∈ env.arrivals steps (ns ++ more), arrived <+: longer := by
  -- Where more candidates come in, longer lists arrive.
  induction steps generalizing ns more with
  | nil =>
      obtain rfl : arrived = ns := List.mem_singleton.mp h
      exact ⟨arrived ++ more, List.mem_singleton_self _, List.prefix_append ..⟩
  | cons step rest ih =>
      cases step with
      | axis a =>
          refine ⟨arrived, ?_, List.prefix_refl _⟩
          rw [arrivals, List.flatMap_append]
          exact List.mem_append_left _ h
      | name test =>
          rw [arrivals, named_append]
          exact ih h _
      | predicate p =>
          rcases env.kept_append p ns more with ⟨tail, htail⟩
          rw [arrivals, htail]
          exact ih h tail

theorem arrivals_subperm [Navigable.LawfulShortcuts N] (henv : env.accepts = fun _ => true)
    {start : N} {steps : List Step} {ns : List N} (hns : ns.Subperm (Navigable.document start)) :
    ∀ arrived ∈ env.arrivals steps ns, arrived.Subperm (Navigable.document start) := by
  induction steps generalizing ns with
  | nil =>
      intro arrived h
      rw [List.mem_singleton.mp h]
      exact hns
  | cons step rest ih =>
      cases step with
      | axis a =>
          intro arrived h
          rcases List.mem_flatMap.mp h with ⟨n, hn, harrived⟩
          have hroot := Navigable.mem_document_iff.mp (hns.subset hn)
          have hcandidates := a.candidates_subperm n
          rw [Navigable.document_congr hroot, ← henv] at hcandidates
          exact ih hcandidates arrived harrived
      | name test => exact ih (List.filter_sublist.subperm.trans hns)
      | predicate p => exact ih ((env.kept_sublist p ns).subperm.trans hns)

/-!
# One predicate for another
-/

def AgreeOn (env : Environment N) (p q : Predicate) (ns : List N) : Prop :=
  ∀ x ∈ ns.zipIdx 1, (env.verdict p x.1 x.2).mapError SelectError.bare =
    (env.verdict q x.1 x.2).mapError SelectError.bare

section

variable {p q : Predicate} {first rest : List Step} {ns : List N} {n : N}

theorem AgreeOn.shorter {longer : List N} (h : env.AgreeOn p q longer) (hns : ns <+: longer) :
    env.AgreeOn p q ns := by
  rcases hns with ⟨more, rfl⟩
  intro x hx
  rw [AgreeOn, List.zipIdx_append] at h
  exact h x (List.mem_append_left _ hx)

theorem AgreeOn.kept_eq (h : env.AgreeOn p q ns) : env.kept p ns = env.kept q ns := by
  apply List.filterMap_congr
  intro x hx
  have hverdict := h x hx
  dsimp only
  cases hp : env.verdict p x.1 x.2 with
  | ok admitted =>
      rw [hp] at hverdict
      rw [mapError_eq_ok_iff.mp hverdict.symm]
  | error e =>
      cases hq : env.verdict q x.1 x.2 with
      | ok admitted =>
          rw [hp, hq] at hverdict
          cases hverdict
      | error e' => rfl

theorem AgreeOn.last (h : env.AgreeOn p q (ns ++ [n])) :
    (env.verdict p n (ns.length + 1)).mapError SelectError.bare =
      (env.verdict q n (ns.length + 1)).mapError SelectError.bare := by
  apply h (n, ns.length + 1)
  rw [List.zipIdx_append, Nat.add_comm]
  simp

theorem nodes_replace (h : ∀ arrived ∈ env.arrivals first ns, env.AgreeOn p q arrived) :
    env.nodes (first ++ .predicate p :: rest) ns =
      env.nodes (first ++ .predicate q :: rest) ns := by
  induction first generalizing ns with
  | nil =>
      show env.nodes rest (env.kept p ns) = env.nodes rest (env.kept q ns)
      rw [(h ns (List.mem_singleton_self ns)).kept_eq]
  | cons step first ih =>
      cases step with
      | axis a =>
          apply List.flatMap_congr
          intro n hn
          exact ih fun arrived harrived => h arrived (List.mem_flatMap.mpr ⟨n, hn, harrived⟩)
      | name test => exact ih h
      | predicate r => exact ih h

/-- Whatever the steps in front have dealt with, one more candidate fares the same. -/
theorem failureAfter_replace (seen : List N) (n : N)
    (h : ∀ arrived ∈ env.arrivals first (seen ++ [n]), env.AgreeOn p q arrived) :
    (env.failureAfter (first ++ .predicate p :: rest) seen n).map SelectError.bare =
      (env.failureAfter (first ++ .predicate q :: rest) seen n).map SelectError.bare := by
  induction first generalizing seen n with
  | nil =>
      have hagree := h (seen ++ [n]) (List.mem_singleton_self _)
      rw [List.nil_append, List.nil_append, bare_failureAfter_predicate,
        bare_failureAfter_predicate, hagree.last,
        (hagree.shorter (List.prefix_append ..)).kept_eq]
  | cons step first ih =>
      cases step with
      | axis a =>
          apply map_firstFailure_congr_of_splits
          intro before m behind hcandidates
          rw [List.nil_append]
          apply ih
          intro arrived harrived
          -- The candidates up to this one arrive at the front of a list of all of them.
          rcases exists_prefix_of_mem_arrivals harrived behind with ⟨longer, hlonger, hfront⟩
          rw [List.append_assoc, List.singleton_append, ← hcandidates] at hlonger
          exact (h longer (List.mem_flatMap.mpr ⟨n, by simp, hlonger⟩)).shorter hfront
      | name test =>
          rw [List.cons_append, List.cons_append, failureAfter, failureAfter]
          split
          · rename_i haccepts
            apply ih
            have hnamed : named test (seen ++ [n]) = named test seen ++ [n] := by
              rw [named_append]
              simp [named, haccepts]
            rw [← hnamed]
            exact h
          · rfl
      | predicate r =>
          rw [List.cons_append, List.cons_append, failureAfter, failureAfter]
          split
          · rfl
          · rename_i hverdict
            apply ih
            rw [← kept_concat_of_admitted hverdict]
            exact h
          · rfl

end

end Environment
end TreeQuery
