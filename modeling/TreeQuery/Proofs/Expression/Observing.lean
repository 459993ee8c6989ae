import Mathlib.Data.List.Forall2
import TreeQuery.Proofs.Expression.Resolving
import TreeQuery.Tree.Sample

/-!
# What an expression can see

The built-in functions look at a node only through its name, its attributes,
its own value and the number of its children, and only one of them looks at the
position.  So expressions over them cannot tell two foci apart that agree in
all this, even where the nodes belong to trees of different kinds.
-/

namespace TreeQuery

variable {N M : Type} [DecidableEq N] [Navigable N] [DecidableEq M] [Navigable M]
variable {a : Focus N} {b : Focus M}

/-- Both foci have the same arithmetic and nodes that look the same from the inside.  Their
positions may differ. -/
structure Focus.Resembles (a : Focus N) (b : Focus M) : Prop where
  name : Navigable.name a.node = Navigable.name b.node
  attributes : ∀ key, Navigable.attribute? a.node key = Navigable.attribute? b.node key
  value : Navigable.value a.node = Navigable.value b.node
  childCount : Navigable.childCount a.node = Navigable.childCount b.node
  arithmetic : a.arithmetic = b.arithmetic

theorem Focus.resembles_moved (n : N) (arithmetic : Arithmetic) (i j : Nat) :
    Focus.Resembles (N := N) (M := N) ⟨n, i, arithmetic⟩ ⟨n, j, arithmetic⟩ :=
  ⟨rfl, fun _ => rfl, rfl, rfl, rfl⟩

/-!
# Functions
-/

namespace Arguments

variable {function : String}

omit [DecidableEq N] [Navigable N] [DecidableEq M] [Navigable M] in
theorem nullary_congr {result : Focus N → Value} {result' : Focus M → Value}
    (h : result a = result' b) : nullary function result a = nullary function result' b := by
  funext args
  rw [nullary, nullary, h]

omit [DecidableEq N] [Navigable N] [DecidableEq M] [Navigable M] in
theorem unary_congr {f : Focus N → Value → Except EvalError Value}
    {f' : Focus M → Value → Except EvalError Value} (h : f a = f' b) :
    unary function f a = unary function f' b := by
  funext args
  rw [unary, unary, h]

theorem optional_congr {f : Focus N → Value → Except EvalError Value}
    {f' : Focus M → Value → Except EvalError Value} (hab : a.Resembles b) (h : f a = f' b) :
    optional function f a = optional function f' b := by
  funext args
  rw [optional, optional, h, hab.value]

end Arguments

namespace Registry

/-!
# Registries

Functions are looked up by name, so that two registries give corresponding
functions as long as their entries correspond one by one.
-/

section

variable {N M : Type} {a : Focus N} {b : Focus M}

/-- Entries of the same name, whose functions give the same at both foci.  The one called
`position` need not, unless the positions are equal. -/
def EntryAt (a : Focus N) (b : Focus M) (x : String × Function N) (y : String × Function M) :
    Prop :=
  x.1 = y.1 ∧ ((x.1 = "position" → a.position = b.position) → x.2 a = y.2 b)

def SameAt (functions : Registry N) (functions' : Registry M) (a : Focus N) (b : Focus M) : Prop :=
  ∀ name, (name = "position" → a.position = b.position) →
    Option.Rel (fun f g => f a = g b) (functions.get? name) (functions'.get? name)

theorem forall₂_insert {name : String} {f : Function N} {g : Function M}
    {xs : List (String × Function N)} {ys : List (String × Function M)}
    (hfg : EntryAt a b (name, f) (name, g)) (h : List.Forall₂ (EntryAt a b) xs ys) :
    List.Forall₂ (EntryAt a b) (insert name f xs) (insert name g ys) := by
  induction h with
  | nil => exact .cons hfg .nil
  | @cons x y xs ys hxy hrest ih =>
      rcases x with ⟨key, f'⟩
      rcases y with ⟨key', g'⟩
      obtain rfl : key = key' := hxy.1
      rw [insert, insert]
      split
      · exact .cons hfg hrest
      · split
        · exact .cons hfg (.cons hxy hrest)
        · exact .cons hxy ih

theorem forall₂_ofList {xs : List (String × Function N)} {ys : List (String × Function M)}
    (h : List.Forall₂ (EntryAt a b) xs ys) :
    List.Forall₂ (EntryAt a b) (ofList xs).entries (ofList ys).entries := by
  have hfold : ∀ (r : Registry N) (r' : Registry M),
      List.Forall₂ (EntryAt a b) r.entries r'.entries →
      List.Forall₂ (EntryAt a b)
        (xs.foldl (fun r entry => r.register entry.1 entry.2) r).entries
        (ys.foldl (fun r entry => r.register entry.1 entry.2) r').entries := by
    induction h with
    | nil => exact fun _ _ hr => hr
    | @cons x y xs ys hxy _ ih =>
        intro r r' hr
        rcases x with ⟨name, f⟩
        rcases y with ⟨name', g⟩
        obtain rfl : name = name' := hxy.1
        exact ih _ _ (forall₂_insert hxy hr)
  exact hfold empty empty .nil

theorem sameAt_of_forall₂ {functions : Registry N} {functions' : Registry M}
    (h : List.Forall₂ (EntryAt a b) functions.entries functions'.entries) :
    SameAt functions functions' a b := by
  intro name hposition
  show Option.Rel _ (functions.entries.lookup name) (functions'.entries.lookup name)
  generalize functions.entries = xs at h ⊢
  generalize functions'.entries = ys at h ⊢
  induction h with
  | nil => exact .none
  | @cons x y xs ys hxy _ ih =>
      rcases x with ⟨key, f⟩
      rcases y with ⟨key', g⟩
      obtain rfl : key = key' := hxy.1
      rw [List.lookup_cons, List.lookup_cons]
      split
      · rename_i hkey
        obtain rfl : name = key := beq_iff_eq.mp hkey
        exact .some (hxy.2 hposition)
      · exact ih

end

open Arguments

theorem forall₂_builtins (hab : a.Resembles b) :
    List.Forall₂ (EntryAt a b) Builtin.list Builtin.list := by
  have hnumbers : ∀ f : Number → Number,
      (fun v : Value => v.mapNumber a.arithmetic f) = fun v => v.mapNumber b.arithmetic f := by
    intro f
    rw [hab.arithmetic]
  simp only [Builtin.list, Builtin.mapText, Builtin.mapNumber, List.forall₂_cons, EntryAt,
    true_and]
  exact ⟨fun h => nullary_congr (by rw [h trivial, hab.arithmetic]),
    fun _ => nullary_congr (by rw [hab.name]),
    fun _ => nullary_congr (by rw [hab.childCount, hab.arithmetic]),
    fun _ => unary_congr (by simp only [hab.attributes]),
    fun _ => optional_congr hab rfl,
    fun _ => optional_congr hab (by rw [hab.arithmetic]),
    fun _ => unary_congr rfl,
    fun _ => unary_congr rfl,
    fun _ => nullary_congr rfl,
    fun _ => nullary_congr rfl,
    fun _ => trivial, fun _ => rfl, fun _ => rfl, fun _ => rfl,
    fun _ => optional_congr hab (by rw [hab.arithmetic]),
    fun _ => optional_congr hab rfl,
    fun _ => unary_congr rfl,
    fun _ => unary_congr rfl,
    fun _ => unary_congr (hnumbers _), fun _ => unary_congr (hnumbers _),
    fun _ => unary_congr (hnumbers _), fun _ => unary_congr (hnumbers _),
    .nil⟩

theorem sameAt_builtins (hab : a.Resembles b) : SameAt builtins builtins a b :=
  sameAt_of_forall₂ (forall₂_ofList (forall₂_builtins hab))

end Registry

/-!
# Expressions
-/

namespace Expression

variable {functions : Registry N} {functions' : Registry M}

mutual

/-- The positions matter only to an expression that asks for the position somewhere. -/
theorem evaluate_congr (hab : a.Resembles b) (hfunctions : functions.SameAt functions' a b) :
    ∀ e : Expression, ("position" ∈ e.functionNames → a.position = b.position) →
      e.evaluate functions a = e.evaluate functions' b
  | .number _, _ => rfl
  | .text _, _ => rfl
  | .attr name, _ => by rw [evaluate, evaluate, hab.attributes]
  | .call name args, hposition => by
      have hargs := evaluateAll_congr hab hfunctions args fun h =>
        hposition (List.mem_cons_of_mem name h)
      have hcalled : name = "position" → a.position = b.position := by
        rintro rfl
        exact hposition List.mem_cons_self
      have hsame := hfunctions name hcalled
      rw [evaluate, evaluate, hargs]
      generalize functions.get? name = found at hsame ⊢
      generalize functions'.get? name = found' at hsame ⊢
      cases hsame with
      | none => rfl
      | some hfg =>
          dsimp only
          rw [hfg]
  | .binary left op right, hposition => by
      rw [evaluate, evaluate, hab.arithmetic,
        evaluate_congr hab hfunctions left fun h => hposition (List.mem_append_left _ h),
        evaluate_congr hab hfunctions right fun h => hposition (List.mem_append_right _ h)]
  | .negate inner, hposition => by
      rw [evaluate, evaluate, hab.arithmetic, evaluate_congr hab hfunctions inner hposition]

theorem evaluateAll_congr (hab : a.Resembles b) (hfunctions : functions.SameAt functions' a b) :
    ∀ es : List Expression, ("position" ∈ functionNamesAll es → a.position = b.position) →
      evaluateAll functions a es = evaluateAll functions' b es
  | [], _ => rfl
  | e :: es, hposition => by
      rw [evaluateAll, evaluateAll,
        evaluate_congr hab hfunctions e fun h => hposition (List.mem_append_left _ h),
        evaluateAll_congr hab hfunctions es fun h => hposition (List.mem_append_right _ h)]

end

theorem evaluate_builtins_congr (hab : a.Resembles b) {e : Expression}
    (hposition : "position" ∈ e.functionNames → a.position = b.position) :
    e.evaluate .builtins a = e.evaluate .builtins b :=
  evaluate_congr hab (Registry.sameAt_builtins hab) e hposition

/-- Evaluation is local: it sees of a node no more than its name, its attributes, its value and
the number of its children, and of the position only what is asked for. -/
theorem evaluate_local {n : N} {m : M} (hname : Navigable.name n = Navigable.name m)
    (hattributes : ∀ key, Navigable.attribute? n key = Navigable.attribute? m key)
    (hvalue : Navigable.value n = Navigable.value m)
    (hchildCount : Navigable.childCount n = Navigable.childCount m) (arithmetic : Arithmetic)
    (e : Expression) :
    (∀ i, e.evaluate .builtins ⟨n, i, arithmetic⟩ = e.evaluate .builtins ⟨m, i, arithmetic⟩) ∧
      ("position" ∉ e.functionNames → ∀ i j,
        e.evaluate .builtins ⟨n, i, arithmetic⟩ = e.evaluate .builtins ⟨m, j, arithmetic⟩) := by
  have hab : ∀ i j, Focus.Resembles (N := N) (M := M) ⟨n, i, arithmetic⟩ ⟨m, j, arithmetic⟩ :=
    fun _ _ => ⟨hname, hattributes, hvalue, hchildCount, rfl⟩
  constructor
  · exact fun i => evaluate_builtins_congr (hab i i) fun _ => rfl
  · exact fun hposition i j => evaluate_builtins_congr (hab i j) fun h => absurd h hposition

/-- A branch between its siblings, and a plain node without a parent over other children. -/
theorem evaluate_local_branches :
    let top := (Sample.forest.run 0).1
    let n : Node := (top.child? 1).getD top
    let m : PlainNode := ⟨((Sample.element "branch" "2" [top, top, top]).run 20).1⟩
    let e : Expression := .binary
      (.binary (.call "concat" [.call "name" [], .attr "id"]) .equal (.text "branch2")) .and
      (.binary (.call "child-count" []) .greater (.number (.ofInt64 2)))
    ((Navigable.parent n).isSome ∧ (Navigable.parent m).isNone) ∧
      (Navigable.name n = Navigable.name m ∧
        (∀ key, Navigable.attribute? n key = Navigable.attribute? m key) ∧
        Navigable.value n = Navigable.value m ∧
        Navigable.childCount n = Navigable.childCount m ∧ "position" ∉ e.functionNames) ∧
      e.evaluate .builtins ⟨n, 2, .standard⟩ = e.evaluate .builtins ⟨m, 1, .standard⟩ ∧
      (e.evaluate .builtins ⟨n, 2, .standard⟩).toOption.map Value.toBoolean = some true := by
  intro top n m e
  have hname : Navigable.name n = Navigable.name m := by decide +kernel
  have hattributes : ∀ key, Navigable.attribute? n key = Navigable.attribute? m key :=
    fun _ => rfl
  have hvalue : Navigable.value n = Navigable.value m := by decide +kernel
  have hchildCount : Navigable.childCount n = Navigable.childCount m := by decide +kernel
  have hposition : "position" ∉ e.functionNames := by decide
  have hsame := (evaluate_local hname hattributes hvalue hchildCount .standard e).2 hposition 2 1
  exact ⟨by decide +kernel, ⟨hname, hattributes, hvalue, hchildCount, hposition⟩, hsame,
    by decide +kernel⟩

end Expression
end TreeQuery
