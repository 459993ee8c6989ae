import TreeQuery.Expression.Evaluate

/-!
# Functions that are known

Evaluation complains about an unknown function only where a call is looked up
in vain or where a function itself complains.  With every called name in the
registry and functions that do not complain it never happens, whatever the
values are.
-/

namespace TreeQuery

def Resolves {A : Type} (outcome : Except EvalError A) : Prop :=
  match outcome with
  | .error (.unknownFunction _) => False
  | _ => True

section

variable {A B : Type}

theorem resolves_ok {a : A} : Resolves (.ok a) :=
  trivial

theorem resolves_pure {a : A} : Resolves (pure a) :=
  trivial

theorem Resolves.ne_unknown {outcome : Except EvalError A} (h : Resolves outcome) (name : String) :
    outcome ≠ .error (.unknownFunction name) := by
  rintro rfl
  exact h

theorem Resolves.bind {m : Except EvalError B} {k : B → Except EvalError A} (hm : Resolves m)
    (hk : ∀ b, Resolves (k b)) : Resolves (m >>= k) := by
  cases m with
  | ok b => exact hk b
  | error e =>
      cases e with
      | unknownFunction name => exact hm.elim
      | _ => exact trivial

theorem Resolves.map {m : Except EvalError B} (hm : Resolves m) (f : B → A) :
    Resolves (m.map f) := by
  cases m with
  | ok b => exact trivial
  | error e =>
      cases e with
      | unknownFunction name => exact hm.elim
      | _ => exact trivial

end

namespace Value

variable (arithmetic : Arithmetic) (a b : Value)

theorem resolves_toNumber : Resolves (a.toNumber arithmetic) := by
  cases a with
  | text t =>
      rw [toNumber]
      split <;> exact trivial
  | _ => exact trivial

theorem resolves_compare : Resolves (compare arithmetic a b) :=
  (a.resolves_toNumber arithmetic).bind fun _ =>
    (b.resolves_toNumber arithmetic).bind fun _ => resolves_pure

theorem resolves_equal : Resolves (equal arithmetic a b) := by
  unfold equal
  split
  all_goals first
    | exact resolves_ok
    | exact (resolves_compare arithmetic _ _).map _

theorem resolves_notEqual : Resolves (notEqual arithmetic a b) := by
  unfold notEqual
  split
  · exact resolves_ok
  · exact (resolves_equal arithmetic a b).map _

theorem resolves_ordered (holds : Ordering → Bool) : Resolves (ordered arithmetic holds a b) := by
  unfold ordered
  split
  · exact resolves_ok
  · exact (resolves_compare arithmetic a b).map _

theorem resolves_calculate
    (operation : DecimalContext → Number → Number → Except NumberError Number) :
    Resolves (calculate arithmetic operation a b) := by
  unfold calculate
  split
  · exact resolves_ok
  · refine (a.resolves_toNumber arithmetic).bind fun x =>
      (b.resolves_toNumber arithmetic).bind fun y => ?_
    split <;> exact trivial

theorem resolves_operate (op : Operator) : Resolves (operate arithmetic op a b) := by
  cases op with
  | or | and => exact resolves_ok
  | equal => exact (resolves_equal arithmetic a b).map _
  | notEqual => exact (resolves_notEqual arithmetic a b).map _
  | less | lessOrEqual | greater | greaterOrEqual => exact (resolves_ordered arithmetic a b _).map _
  | add | subtract | multiply | divide | modulo => exact resolves_calculate arithmetic a b _

theorem resolves_mapNumber (f : Number → Number) : Resolves (a.mapNumber arithmetic f) := by
  unfold mapNumber
  split
  · exact resolves_ok
  · exact (a.resolves_toNumber arithmetic).map _

end Value

/-!
# Registries
-/

def Function.Resolved {N : Type} (f : Function N) : Prop :=
  ∀ focus args, Resolves (f focus args)

namespace Registry

variable {N : Type}

/-- No function of the registry complains about an unknown function. -/
def Resolved (functions : Registry N) : Prop :=
  ∀ name f, functions.get? name = some f → Function.Resolved f

theorem mem_insert {name : String} {f : Function N} {entries : List (String × Function N)}
    {entry : String × Function N} (h : entry ∈ insert name f entries) :
    entry = (name, f) ∨ entry ∈ entries := by
  induction entries with
  | nil => exact Or.inl (List.mem_singleton.mp h)
  | cons head rest ih =>
      rw [insert] at h
      split at h
      · exact (List.mem_cons.mp h).imp_right (List.mem_cons_of_mem head)
      · split at h
        · exact List.mem_cons.mp h
        · rcases List.mem_cons.mp h with rfl | hrest
          · exact Or.inr List.mem_cons_self
          · exact (ih hrest).imp_right (List.mem_cons_of_mem head)

theorem mem_of_mem_ofList {functions : List (String × Function N)}
    {entry : String × Function N} (h : entry ∈ (ofList functions).entries) :
    entry ∈ functions := by
  have hfold : ∀ (functions : List (String × Function N)) (r : Registry N),
      entry ∈ (functions.foldl (fun r entry => r.register entry.1 entry.2) r).entries →
        entry ∈ functions ∨ entry ∈ r.entries := by
    intro functions
    induction functions with
    | nil => exact fun _ => Or.inr
    | cons head rest ih =>
        intro r hentry
        rcases ih _ hentry with hrest | hregistered
        · exact Or.inl (List.mem_cons_of_mem head hrest)
        · rcases mem_insert hregistered with rfl | hr
          · exact Or.inl List.mem_cons_self
          · exact Or.inr hr
  exact (hfold functions empty h).resolve_right (List.not_mem_nil)

theorem mem_of_lookup {name : String} {f : Function N} {entries : List (String × Function N)}
    (h : entries.lookup name = some f) : (name, f) ∈ entries := by
  induction entries with
  | nil => cases h
  | cons head rest ih =>
      rcases head with ⟨key, g⟩
      rw [List.lookup_cons] at h
      split at h
      · rename_i hkey
        cases h
        rw [beq_iff_eq.mp hkey]
        exact List.mem_cons_self
      · exact List.mem_cons_of_mem _ (ih h)

theorem lookup_insert_self (name : String) (f : Function N)
    (entries : List (String × Function N)) : (insert name f entries).lookup name = some f := by
  induction entries with
  | nil => rw [insert, List.lookup_cons, beq_self_eq_true]
  | cons head rest ih =>
      rcases head with ⟨key, g⟩
      rw [insert]
      split
      · rw [List.lookup_cons, beq_self_eq_true]
      · rename_i hne
        split
        · rw [List.lookup_cons, beq_self_eq_true]
        · rw [List.lookup_cons, beq_eq_false_iff_ne.mpr hne]
          exact ih

theorem lookup_insert_of_ne {name sought : String} (h : sought ≠ name) (f : Function N)
    (entries : List (String × Function N)) :
    (insert name f entries).lookup sought = entries.lookup sought := by
  have hpast : ∀ rest : List (String × Function N),
      ((name, f) :: rest).lookup sought = rest.lookup sought := by
    intro rest
    rw [List.lookup_cons, beq_eq_false_iff_ne.mpr h]
  induction entries with
  | nil => exact hpast []
  | cons head rest ih =>
      rcases head with ⟨key, g⟩
      rw [insert]
      split
      · rename_i hkey
        rw [hpast, List.lookup_cons, ← hkey, beq_eq_false_iff_ne.mpr h]
      · split
        · exact hpast _
        · rw [List.lookup_cons, List.lookup_cons, ih]

theorem get?_foldl_register {name : String} {f : Function N} {r : Registry N}
    {rest : List (String × Function N)} (h : name ∉ rest.map (·.1)) (hr : r.get? name = some f) :
    (rest.foldl (fun r entry => r.register entry.1 entry.2) r).get? name = some f := by
  induction rest generalizing r with
  | nil => exact hr
  | cons head rest ih =>
      rw [List.map_cons, List.mem_cons, not_or] at h
      rcases h with ⟨hne, hrest⟩
      exact ih hrest ((lookup_insert_of_ne hne head.2 r.entries).trans hr)

theorem get?_ofList_append {name : String} {f : Function N} (before : List (String × Function N))
    {rest : List (String × Function N)} (h : name ∉ rest.map (·.1)) :
    (ofList (before ++ (name, f) :: rest)).get? name = some f := by
  rw [ofList, List.foldl_append, List.foldl_cons]
  exact get?_foldl_register h (lookup_insert_self name f _)

theorem forall_ofList {functions : List (String × Function N)} {property : Function N → Prop}
    (h : ∀ entry ∈ functions, property entry.2) (name : String) (f : Function N)
    (hf : (ofList functions).get? name = some f) : property f :=
  h (name, f) (mem_of_mem_ofList (mem_of_lookup hf))

end Registry

namespace Arguments

variable {N : Type}

theorem resolves_within (function : String) (least : Nat) (most : Option Nat)
    (args : List Value) : Resolves (within function least most args) := by
  unfold within
  split
  · exact resolves_ok
  · exact trivial

theorem resolved_nullary (function : String) (result : Focus N → Value) :
    Function.Resolved (nullary function result) := by
  intro focus args
  exact (resolves_within function 0 (some 0) args).bind fun _ => resolves_pure

theorem resolved_unary (function : String) {f : Focus N → Value → Except EvalError Value}
    (hf : ∀ focus v, Resolves (f focus v)) : Function.Resolved (unary function f) := by
  intro focus args
  apply (resolves_within function 1 (some 1) args).bind
  intro args
  cases args with
  | nil => exact trivial
  | cons v rest => exact hf focus v

theorem resolved_optional [DecidableEq N] [Navigable N] (function : String)
    {f : Focus N → Value → Except EvalError Value} (hf : ∀ focus v, Resolves (f focus v)) :
    Function.Resolved (optional function f) := by
  intro focus args
  apply (resolves_within function 0 (some 1) args).bind
  intro args
  cases args with
  | nil =>
      dsimp only
      split <;> exact hf focus _
  | cons v rest => exact hf focus v

theorem resolved_texts (function : String) (test : List Char → List Char → Bool) :
    Function.Resolved (texts (N := N) function test) := by
  intro focus args
  apply (resolves_within function 2 (some 2) args).bind
  intro args
  split
  · exact resolves_pure
  · exact trivial

end Arguments

namespace Registry

open Arguments

variable {N : Type} [DecidableEq N] [Navigable N]

theorem resolved_builtins : (builtins (N := N)).Resolved := by
  have hnumbers : ∀ (f : Number → Number) (focus : Focus N) (v : Value),
      Resolves (v.mapNumber focus.arithmetic f) :=
    fun f focus v => v.resolves_mapNumber focus.arithmetic f
  apply forall_ofList
  simp only [Builtin.list, Builtin.mapText, Builtin.mapNumber, List.forall_mem_cons]
  exact ⟨resolved_nullary _ _, resolved_nullary _ _, resolved_nullary _ _,
    resolved_unary _ fun _ _ => resolves_ok,
    resolved_optional _ fun _ _ => resolves_ok,
    resolved_optional _ fun focus v => (v.resolves_toNumber focus.arithmetic).map _,
    resolved_unary _ fun _ _ => resolves_ok,
    resolved_unary _ fun _ _ => resolves_ok,
    resolved_nullary _ _, resolved_nullary _ _,
    fun _ args => (resolves_within _ _ _ args).bind fun _ => resolves_pure,
    resolved_texts _ _, resolved_texts _ _, resolved_texts _ _,
    resolved_optional _ fun _ _ => resolves_ok,
    resolved_optional _ fun _ _ => resolves_ok,
    resolved_unary _ fun _ _ => resolves_ok,
    resolved_unary _ fun _ _ => resolves_ok,
    resolved_unary _ (hnumbers _), resolved_unary _ (hnumbers _), resolved_unary _ (hnumbers _),
    resolved_unary _ (hnumbers _), nofun⟩

end Registry

/-!
# Evaluation
-/

namespace Expression

variable {N : Type} [DecidableEq N] [Navigable N] {functions : Registry N}

mutual

/-- Every name that is called is among the names of the expression, however deep the call is. -/
theorem resolves_evaluate (hresolved : functions.Resolved) (focus : Focus N) :
    ∀ e : Expression, (∀ name ∈ e.functionNames, functions.contains name = true) →
      Resolves (e.evaluate functions focus)
  | .number _, _ => resolves_ok
  | .text _, _ => resolves_ok
  | .attr name, _ => by
      rw [evaluate]
      split <;> exact resolves_ok
  | .call name args, hknown => by
      rcases List.forall_mem_cons.mp hknown with ⟨hname, hargs⟩
      rw [evaluate]
      rcases Option.isSome_iff_exists.mp hname with ⟨f, hf⟩
      rw [hf]
      exact (resolves_evaluateAll hresolved focus args hargs).bind fun values =>
        hresolved name f hf focus values
  | .binary left op right, hknown => by
      rcases List.forall_mem_append.mp hknown with ⟨hleft, hright⟩
      have hsecond := resolves_evaluate hresolved focus right hright
      rw [evaluate]
      apply (resolves_evaluate hresolved focus left hleft).bind
      intro a
      split
      · split
        · exact hsecond.bind fun _ => resolves_pure
        · exact resolves_pure
      · split
        · exact resolves_pure
        · exact hsecond.bind fun _ => resolves_pure
      · exact hsecond.bind fun b => Value.resolves_operate _ a b op
  | .negate inner, hknown => by
      rw [evaluate]
      exact (resolves_evaluate hresolved focus inner hknown).bind fun a =>
        a.resolves_mapNumber _ _

theorem resolves_evaluateAll (hresolved : functions.Resolved) (focus : Focus N) :
    ∀ es : List Expression, (∀ name ∈ functionNamesAll es, functions.contains name = true) →
      Resolves (evaluateAll functions focus es)
  | [], _ => resolves_ok
  | e :: es, hknown => by
      rcases List.forall_mem_append.mp hknown with ⟨he, hes⟩
      rw [evaluateAll]
      exact (resolves_evaluate hresolved focus e he).bind fun _ =>
        (resolves_evaluateAll hresolved focus es hes).bind fun _ => resolves_pure

end

end Expression
end TreeQuery
