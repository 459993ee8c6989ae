import TreeQuery.Proofs.Chain.Compiling

/-!
# Compiled chains

What is known of a chain that was compiled from a path of the grammar: its
functions, the names it tests and how deeply its expressions are nested.  No
error of compiling blames the form of a token.
-/

namespace TreeQuery

/-- The outcome is as described, or an error that does not blame the form of a token. -/
def Compiles {A : Type} (outcome : Except SelectError A) (result : A → Prop) : Prop :=
  match outcome with
  | .ok a => result a
  | .error (.unexpectedToken _ _) => False
  | .error _ => True

section

variable {A : Type} {result : A → Prop}

theorem Compiles.imp {outcome : Except SelectError A} {result' : A → Prop}
    (h : Compiles outcome result) (himp : ∀ a, result a → result' a) :
    Compiles outcome result' := by
  cases outcome with
  | ok a => exact himp a h
  | error e =>
      cases e with
      | unexpectedToken => exact h.elim
      | _ => exact trivial

theorem Settles.compiles {N : Type} {policy : NamePolicy} {functions : Registry N}
    {mentions : List (Nat × Mention)} {outcome : Except SelectError A}
    (h : Settles policy functions mentions outcome result) : Compiles outcome result := by
  unfold Settles at h
  split at h
  · rename_i x _
    subst h
    cases x.2 with
    | step name => exact trivial
    | function name body => exact trivial
  · rcases h with ⟨a, rfl, ha⟩
    exact ha

theorem Compiles.ne_unexpected {outcome : Except SelectError A} (h : Compiles outcome result)
    (expected found : String) : outcome ≠ .error (.unexpectedToken expected found) := by
  rintro rfl
  exact h

end

variable {N : Type} {functions : Registry N} {arithmetic : Arithmetic} {policy : NamePolicy}
  {depth : Nat}

structure Predicate.Compiled (functions : Registry N) (arithmetic : Arithmetic) (depth : Nat)
    (p : Predicate) : Prop where
  known : ∀ name ∈ p.expression.functionNames, functions.contains name = true
  nesting : p.expression.nesting < depth
  printable : ∀ context, arithmetic = ⟨.decimal, context⟩ → p.expression.Printable context

def NameTest.Compiled (policy : NamePolicy) : NameTest → Prop
  | .any => True
  | .named name => ∃ n, Lexeme.IsName n.toList ∧ name = policy.factory n

structure Leg.Compiled (functions : Registry N) (arithmetic : Arithmetic) (policy : NamePolicy)
    (depth : Nat) (l : Leg) : Prop where
  axis : l.axis ≠ .root
  test : ∀ test ∈ l.test, test.Compiled policy
  predicates : ∀ p ∈ l.predicates, p.Compiled functions arithmetic depth

theorem Leg.Compiled.of_mem {absolute : Bool} {legs : List Leg} {p : Predicate}
    (h : ∀ l ∈ legs, l.Compiled functions arithmetic policy depth)
    (hp : .predicate p ∈ Chain.rootSteps absolute ++ legs.flatMap Leg.steps) :
    p.Compiled functions arithmetic depth := by
  rcases List.mem_append.mp hp with hroot | hlegs
  · cases absolute with
    | false => cases hroot
    | true =>
        rcases List.mem_singleton.mp hroot with ⟨⟩
  · rcases List.mem_flatMap.mp hlegs with ⟨l, hl, hp⟩
    simp only [Leg.steps, Leg.tests, List.mem_cons, List.mem_append, List.mem_map, reduceCtorEq,
      and_false, exists_false, false_or] at hp
    rcases hp with ⟨p', hp', hsame⟩
    cases hsame
    exact (h l hl).predicates p hp'

theorem AxisMark.axis_ne_root (mark : AxisMark) : mark.axis ≠ .root := by
  cases mark <;> decide

namespace Token

variable {t : Token} {ts : List Token} {axis : Axis} {test? : Option NameTest} {test : NameTest}
  {p : Predicate} {l : Leg}

/-!
# Steps
-/

theorem Tests.compiled (h : Tests policy t test) (hspelled : t.Spelled arithmetic) :
    test.Compiled policy := by
  cases h with
  | wildcard => exact trivial
  | @name n text => exact ⟨n, isName_of_spelled hspelled, rfl⟩

theorem Heads.compiled (h : Heads policy ts axis test?)
    (hspelled : ∀ t ∈ ts, t.Spelled arithmetic) :
    axis ≠ .root ∧ ∀ test ∈ test?, test.Compiled policy := by
  cases h with
  | plain h =>
      refine ⟨by decide, ?_⟩
      rintro _ ⟨⟩
      exact h.compiled (hspelled _ (by simp))
  | @marked mark _ _ _ h =>
      refine ⟨mark.axis_ne_root, ?_⟩
      rintro _ ⟨⟩
      exact h.compiled (hspelled _ (by simp))
  | @alone mark => exact ⟨mark.axis_ne_root, nofun⟩

theorem Brackets.compiled (h : Brackets functions ts p) (hspelled : ∀ t ∈ ts, t.Spelled arithmetic)
    (hnesting : nestingAll ts ≤ depth) : p.Compiled functions arithmetic depth := by
  cases h with
  | @enclosed _ _ space _ _ inner e hspace hbefore hinner hafter he hknown =>
      rw [nestingAll_append, hspace.nestingAll_eq, Nat.zero_max, nestingAll_singleton,
        nesting_enclosed rfl hbefore hafter] at hnesting
      rcases exists_stands hinner with ⟨e', he'⟩
      rw [he'.meaning] at he
      cases he
      refine ⟨hknown, ?_, ?_⟩
      · show e.nesting < depth
        have hle := he'.nesting
        omega
      · intro context harithmetic
        subst harithmetic
        have hbrackets := hspelled _ (List.mem_append_right space List.mem_cons_self)
        exact he'.printable context (hbrackets.parts inner (by simp))

theorem exists_of_forall₂ {A B : Type} {relation : A → B → Prop} {as : List A} {bs : List B}
    (h : List.Forall₂ relation as bs) : ∀ b ∈ bs, ∃ a ∈ as, relation a b := by
  induction h with
  | nil => exact List.forall_mem_nil _
  | cons hab _ ih =>
      refine List.forall_mem_cons.mpr ⟨⟨_, List.mem_cons_self, hab⟩, ?_⟩
      intro b hb
      rcases ih b hb with ⟨a, ha, hrelated⟩
      exact ⟨a, List.mem_cons_of_mem _ ha, hrelated⟩

theorem Renders.compiled (h : Renders policy functions t l) (hspelled : t.Spelled arithmetic)
    (hnesting : t.nesting ≤ depth) : l.Compiled functions arithmetic policy depth := by
  cases h with
  | step hheading hbrackets =>
      rw [nesting_phrase rfl, nestingAll_append_le, nestingAll_flatten_le] at hnesting
      rcases List.forall_mem_append.mp hspelled.parts with ⟨hspelledHeading, hspelledRest⟩
      rcases hheading.compiled hspelledHeading with ⟨haxis, htest⟩
      refine ⟨haxis, htest, ?_⟩
      intro p hp
      rcases exists_of_forall₂ hbrackets p hp with ⟨ts, hts, hbracket⟩
      exact hbracket.compiled (fun t ht => hspelledRest t (List.mem_flatten_of_mem hts ht))
        (hnesting.2 ts hts)

/-!
# Paths
-/

theorem nesting_le_of_mem (h : nestingAll ts ≤ depth) (ht : t ∈ ts) : t.nesting ≤ depth := by
  rcases List.append_of_mem ht with ⟨before, after, rfl⟩
  rw [nestingAll_append_le, nestingAll, Nat.max_le] at h
  exact h.2.1

theorem steps_ne_nil (h : IsPath t) (hrelative : t.isAbsolute = false) : t.steps ≠ [] := by
  rcases h.exists_phrase with ⟨absolute, parts, rfl⟩
  rw [isAbsolute_path h] at hrelative
  subst hrelative
  cases h with
  | relative hbefore hinner hafter =>
      cases hinner with
      | steps hfirst hmore =>
          apply List.ne_nil_of_mem
          apply List.mem_filter.mpr
          exact ⟨by simp, hfirst.isStep⟩

/-- A path of the grammar compiles to a jump to the root if it is absolute, and then one axis with
its tests after the other. -/
theorem compiles_of_wellFormed (policy : NamePolicy) (functions : Registry N) {t : Token}
    (h : WellFormed arithmetic t) (hnesting : t.nesting ≤ depth) :
    Compiles (t.compile policy functions) fun c =>
      ∃ absolute legs, c.steps = Chain.rootSteps absolute ++ legs.flatMap Leg.steps ∧
        (absolute = false → legs ≠ []) ∧
          ∀ l ∈ legs, l.Compiled functions arithmetic policy depth := by
  rcases h with ⟨hpath, hfits⟩
  have hspelled : t.Spelled arithmetic := hfits.spells
  apply (settles_compile policy functions hpath).compiles.imp
  rintro c ⟨legs, hsteps, hlegs⟩
  refine ⟨t.isAbsolute, legs, hsteps, ?_, ?_⟩
  · rintro hrelative rfl
    exact steps_ne_nil hpath hrelative (List.forall₂_nil_right_iff.mp hlegs)
  · intro l hl
    rcases exists_of_forall₂ hlegs l hl with ⟨step, hstep, hrenders⟩
    rcases hpath.exists_phrase with ⟨absolute, parts, rfl⟩
    have hmem : step ∈ parts := (List.mem_filter.mp hstep).1
    rw [nesting_phrase rfl] at hnesting
    exact hrenders.compiled (hspelled.parts step hmem) (nesting_le_of_mem hnesting hmem)

end Token
end TreeQuery
