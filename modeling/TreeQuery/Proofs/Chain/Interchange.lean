import TreeQuery.Proofs.Chain.Positions
import TreeQuery.Proofs.Chain.Writing

/-!
# Chains that can stand for one another

Two rows of steps are interchangeable on lists of candidates if they lead to the
same nodes and fail together.  Sometimes this is only needed, and only true, for
lists of at most one candidate: a step from the node to itself hands every
candidate on by itself, so that the predicates behind it count from one again.
-/

namespace TreeQuery

namespace Axis

variable {N : Type} [DecidableEq N] [Navigable N]

def single : Axis → Bool
  | .root | .self | .parent | .firstChild | .lastChild => true
  | _ => false

theorem length_candidates_le {a : Axis} (h : a.single = true) (accepts : N → Bool) (n : N) :
    (a.candidates accepts n).length ≤ 1 := by
  have hfilter : ∀ ns : List N, ns.length ≤ 1 → (ns.filter accepts).length ≤ 1 :=
    fun ns hns => Nat.le_trans (List.length_filter_le accepts ns) hns
  have hoption : ∀ o : Option N, o.toList.length ≤ 1 := by
    intro o
    cases o with
    | none => exact Nat.zero_le 1
    | some n => exact Nat.le_refl 1
  cases a with
  | root | self => exact hfilter _ (Nat.le_refl 1)
  | parent | firstChild | lastChild => exact hfilter _ (hoption _)
  | _ => cases h

end Axis

namespace Environment

variable {N : Type} [DecidableEq N] [Navigable N] {env : Environment N}
  {single : Bool} {steps steps' steps'' : List Step}

def Stable (env : Environment N) (p : Predicate) : Prop :=
  ∀ n place, Together Eq (env.verdict p.reread n place) (env.verdict p n place)

theorem stable_of_indifferent {context : DecimalContext} {p : Predicate}
    (harithmetic : env.arithmetic.representation = .decimal)
    (hprintable : p.expression.Printable context)
    (hindifferent : p.expression.Indifferent env.functions) : env.Stable p := by
  intro n place
  unfold verdict Predicate.reread
  dsimp only
  rcases hindifferent with htrimmed | hfaithful
  · rw [htrimmed]
    cases p.expression.evaluate env.functions ⟨n, place, env.arithmetic⟩ with
    | ok value => exact rfl
    | error e => exact trivial
  · have hevaluate : Together Value.Alike
        (p.expression.trimmed.evaluate env.functions ⟨n, place, env.arithmetic⟩)
        (p.expression.evaluate env.functions ⟨n, place, env.arithmetic⟩) :=
      Expression.together_trimmed harithmetic hprintable hfaithful
    rcases hevaluate.cases with ⟨v, v', hleft, hright, hsame⟩ | ⟨e, e', hleft, hright⟩
    · rw [hleft, hright]
      exact hsame.accepts_eq place
    · rw [hleft, hright]
      exact trivial

/-- On all lists of candidates, or only on those of at most one, the steps lead to the same nodes
and fail together. -/
def Interchangeable (env : Environment N) (single : Bool) (steps steps' : List Step) : Prop :=
  ∀ ns : List N, (single = true → ns.length ≤ 1) →
    env.nodes steps ns = env.nodes steps' ns ∧
      (env.failures steps ns = [] ↔ env.failures steps' ns = [])

namespace Interchangeable

theorem refl (steps : List Step) : env.Interchangeable single steps steps :=
  fun _ _ => ⟨rfl, Iff.rfl⟩

theorem trans (h : env.Interchangeable single steps steps')
    (h' : env.Interchangeable single steps' steps'') :
    env.Interchangeable single steps steps'' :=
  fun ns hns => ⟨(h ns hns).1.trans (h' ns hns).1, (h ns hns).2.trans (h' ns hns).2⟩

theorem weaken (h : env.Interchangeable false steps steps') :
    env.Interchangeable single steps steps' :=
  fun ns _ => h ns nofun

/-!
# Step by step
-/

theorem axis (a : Axis) (h : env.Interchangeable a.single steps steps') :
    env.Interchangeable single (.axis a :: steps) (.axis a :: steps') := by
  intro ns _
  have hstep : ∀ n : N, _ := fun n =>
    h (a.candidates env.accepts n) fun hsingle => Axis.length_candidates_le hsingle env.accepts n
  constructor
  · show ns.flatMap _ = ns.flatMap _
    congr 1
    funext n
    exact (hstep n).1
  · show ns.flatMap _ = [] ↔ ns.flatMap _ = []
    rw [List.flatMap_eq_nil_iff, List.flatMap_eq_nil_iff]
    exact forall₂_congr fun n _ => (hstep n).2

theorem name (test : NameTest) (h : env.Interchangeable single steps steps') :
    env.Interchangeable single (.name test :: steps) (.name test :: steps') := by
  intro ns hns
  apply h (named test ns)
  intro hsingle
  exact Nat.le_trans (List.length_filter_le _ ns) (hns hsingle)

theorem anyName (h : env.Interchangeable single steps steps') :
    env.Interchangeable single steps (.name .any :: steps') := by
  have hnamed : ∀ ns : List N, named .any ns = ns := fun ns =>
    List.filter_eq_self.mpr fun _ _ => rfl
  intro ns hns
  have hrest := h ns hns
  rw [nodes, failures, hnamed]
  exact hrest

/-!
# Steps from a node to itself
-/

theorem candidates_self (haccepts : env.accepts = fun _ => true) (n : N) :
    Axis.candidates env.accepts .self n = [n] := by
  rw [haccepts]
  rfl

theorem self_of_single (haccepts : env.accepts = fun _ => true)
    (h : env.Interchangeable true steps steps') :
    env.Interchangeable true steps (.axis .self :: steps') := by
  intro ns hns
  have hrest := h ns hns
  rw [nodes, failures]
  have hlength := hns rfl
  cases ns with
  | nil => simp
  | cons n more =>
      have hmore : more = [] :=
        List.length_eq_zero_iff.mp (Nat.le_zero.mp (Nat.le_of_succ_le_succ hlength))
      subst hmore
      simpa [candidates_self haccepts] using hrest

def Additive (env : Environment N) (steps : List Step) : Prop :=
  ∀ ns : List N, env.nodes steps ns = ns.flatMap (fun n => env.nodes steps [n]) ∧
    env.failures steps ns = ns.flatMap fun n => env.failures steps [n]

theorem additive_nil : Additive env [] :=
  fun ns => ⟨(List.flatMap_singleton' ns).symm, (List.flatMap_eq_nil_iff.mpr fun _ _ => rfl).symm⟩

theorem additive_axis (a : Axis) (steps : List Step) : Additive env (.axis a :: steps) := by
  intro ns
  simp [nodes, failures]

theorem flatMap_named {B : Type} (test : NameTest) (f : List N → List B) (hf : f [] = [])
    (ns : List N) :
    (named test ns).flatMap (fun n => f [n]) = ns.flatMap fun n => f (named test [n]) := by
  induction ns with
  | nil => rfl
  | cons n ns ih =>
      have hcons : named test (n :: ns) = named test [n] ++ named test ns :=
        named_append test [n] ns
      have hsingle : (named test [n]).flatMap (fun n => f [n]) = f (named test [n]) := by
        unfold named
        rw [List.filter_singleton]
        cases test.accepts (Navigable.name n) with
        | true => exact List.append_nil _
        | false => exact hf.symm
      rw [hcons, List.flatMap_append, List.flatMap_cons, hsingle, ih]

theorem additive_name (test : NameTest) (h : Additive env steps) :
    Additive env (.name test :: steps) := by
  intro ns
  have hrest := h (named test ns)
  constructor
  · rw [nodes, hrest.1]
    exact flatMap_named test (env.nodes steps) (nodes_nil steps) ns
  · rw [failures, hrest.2]
    exact flatMap_named test (env.failures steps) (failures_nil steps) ns

/-- Where every candidate is treated by itself anyway, a step to itself changes nothing. -/
theorem self_of_additive (haccepts : env.accepts = fun _ => true) (hadditive : Additive env steps')
    (h : env.Interchangeable single steps steps') :
    env.Interchangeable single steps (.axis .self :: steps') := by
  intro ns hns
  have hrest := h ns hns
  have hself := hadditive ns
  rw [hself.1, hself.2] at hrest
  simp only [nodes, failures, candidates_self haccepts]
  exact hrest

/-!
# Predicates written in another way
-/

section

variable {p p' : Predicate}

theorem predicate (hkept : ∀ ns : List N, env.kept p ns = env.kept p' ns)
    (hfaults : ∀ ns : List N, env.faults p ns = [] ↔ env.faults p' ns = [])
    (h : env.Interchangeable single steps steps') :
    env.Interchangeable single (.predicate p :: steps) (.predicate p' :: steps') := by
  intro ns hns
  have hrest := h (env.kept p ns) fun hsingle =>
    Nat.le_trans (env.kept_sublist p ns).length_le (hns hsingle)
  rw [nodes, nodes, failures, failures, List.append_eq_nil_iff, List.append_eq_nil_iff, ← hkept,
    hfaults ns]
  exact ⟨hrest.1, and_congr_right fun _ => hrest.2⟩

theorem reread (hp : env.Stable p) (h : env.Interchangeable single steps steps') :
    env.Interchangeable single (.predicate p :: steps) (.predicate p.reread :: steps') := by
  apply predicate _ _ h
  · intro ns
    apply List.filterMap_congr
    rintro ⟨n, place⟩ _
    rcases (hp n place).cases with ⟨b, _, hleft, hright, rfl⟩ | ⟨e, e', hleft, hright⟩
    · simp only [hleft, hright]
    · simp only [hleft, hright]
  · intro ns
    unfold faults
    rw [List.filterMap_eq_nil_iff, List.filterMap_eq_nil_iff]
    apply forall₂_congr
    rintro ⟨n, place⟩ _
    rcases (hp n place).cases with ⟨b, _, hleft, hright, rfl⟩ | ⟨e, e', hleft, hright⟩
    · simp only [hleft, hright]
    · simp only [hleft, hright, reduceCtorEq]

end

/-!
# Legs
-/

theorem predicates {ps : List Predicate} (hps : ∀ p ∈ ps, env.Stable p)
    (h : env.Interchangeable single steps steps') :
    env.Interchangeable single (ps.map .predicate ++ steps)
      ((ps.map Predicate.reread).map .predicate ++ steps') := by
  induction ps with
  | nil => exact h
  | cons p ps ih =>
      rcases List.forall_mem_cons.mp hps with ⟨hfirst, hrest⟩
      exact reread hfirst (ih hrest)

theorem leg {l : Leg} (hl : ∀ p ∈ l.predicates, env.Stable p)
    (h : env.Interchangeable false steps steps') :
    env.Interchangeable single (l.steps ++ steps) (l.reread.steps ++ steps') := by
  have hpredicates := predicates hl h
  unfold Leg.reread Leg.steps Leg.tests
  rw [List.cons_append, List.cons_append, List.append_assoc, List.append_assoc]
  apply axis
  cases l.test with
  | none => exact (anyName hpredicates).weaken
  | some test => exact (name test hpredicates).weaken

/-- Legs lead to the same nodes as what their text reads as. -/
theorem legs {ls : List Leg} (hls : ∀ l ∈ ls, ∀ p ∈ l.predicates, env.Stable p) :
    env.Interchangeable single (ls.flatMap Leg.steps) ((ls.map Leg.reread).flatMap Leg.steps) := by
  apply weaken
  induction ls with
  | nil => exact refl []
  | cons l ls ih =>
      rcases List.forall_mem_cons.mp hls with ⟨hfirst, hrest⟩
      exact leg hfirst (ih hrest)

end Interchangeable
end Environment

/-!
# Selecting
-/

namespace Chain

variable {N : Type} [DecidableEq N] [Navigable N]

/-- Selecting ends with the first failure, if there is one, and otherwise gives the nodes that the
steps lead to. -/
theorem select_eq (c : Chain) (functions : Registry N) (arithmetic : Arithmetic) (start : N) :
    c.select functions arithmetic start =
      match Environment.failureAfter ⟨functions, arithmetic, fun _ => true⟩ c.steps [] start with
      | some e => .error e
      | none =>
          .ok (Environment.nodes ⟨functions, arithmetic, fun _ => true⟩ c.steps
            [start]).eraseDups := by
  have hplain : (Hooks.none : Hooks Unit N).FiltersBy fun _ => true := fun _ => rfl
  have hends := run_ends_first (g := ⟨functions, arithmetic, .none⟩) hplain rfl c () start
  unfold select
  generalize c.run (S := Unit) ⟨functions, arithmetic, .none⟩ () start = reached at hends
  rcases reached with ⟨outcome, left⟩
  cases outcome with
  | ok _ =>
      rcases hends with ⟨hfaultless, hselected⟩
      have hnone := (Environment.failureAfter_eq_none_iff (Environment.failures_nil c.steps)).mpr
        hfaultless
      change Environment.failureAfter ⟨functions, arithmetic, fun _ => true⟩ _ _ _ = none at hnone
      rw [hnone]
      exact congrArg Except.ok hselected
  | error e =>
      change Environment.failureAfter ⟨functions, arithmetic, fun _ => true⟩ _ _ _ = some e
        at hends
      rw [hends]
      rfl

theorem select_eq_ok_iff {c : Chain} {functions : Registry N} {arithmetic : Arithmetic}
    {start : N} {found : List N} :
    c.select functions arithmetic start = .ok found ↔
      Environment.failures ⟨functions, arithmetic, fun _ => true⟩ c.steps [start] = [] ∧
        found =
          (Environment.nodes ⟨functions, arithmetic, fun _ => true⟩ c.steps [start]).eraseDups := by
  have hfaultless : Environment.failureAfter ⟨functions, arithmetic, fun _ => true⟩ c.steps []
      start = none ↔ _ :=
    Environment.failureAfter_eq_none_iff (Environment.failures_nil c.steps)
  rw [List.nil_append] at hfaultless
  rw [select_eq, ← hfaultless]
  split
  · rename_i e hfailure
    rw [hfailure]
    exact ⟨nofun, nofun⟩
  · rename_i hnone
    rw [Except.ok.injEq, eq_comm]
    exact ⟨fun h => ⟨hnone, h⟩, fun h => h.2⟩

theorem toOption_select (c : Chain) (functions : Registry N) (arithmetic : Arithmetic) (start : N) :
    (c.select functions arithmetic start).toOption =
      if Environment.failures ⟨functions, arithmetic, fun _ => true⟩ c.steps [start] = [] then
        some (Environment.nodes ⟨functions, arithmetic, fun _ => true⟩ c.steps [start]).eraseDups
      else none := by
  have hok := @select_eq_ok_iff N _ _ c functions arithmetic start
  cases hselect : c.select functions arithmetic start with
  | ok found =>
      rcases hok.mp hselect with ⟨hnone, hfound⟩
      rw [if_pos hnone, hfound]
      rfl
  | error e =>
      rw [if_neg]
      · rfl
      · intro hnone
        rw [hok.mpr ⟨hnone, rfl⟩] at hselect
        cases hselect

/-- Chains with interchangeable steps select the same nodes or both fail. -/
theorem toOption_select_congr {c c' : Chain} {functions : Registry N} {arithmetic : Arithmetic}
    (h : Environment.Interchangeable ⟨functions, arithmetic, fun _ => true⟩ true c.steps c'.steps)
    (start : N) :
    (c.select functions arithmetic start).toOption =
      (c'.select functions arithmetic start).toOption := by
  rcases h [start] fun _ => Nat.le_refl 1 with ⟨hnodes, hfailures⟩
  rw [toOption_select, toOption_select, hnodes]
  split
  · rename_i hnone
    rw [if_pos (hfailures.mp hnone)]
  · rename_i hsome
    rw [if_neg fun hnone => hsome (hfailures.mpr hnone)]

end Chain
end TreeQuery
