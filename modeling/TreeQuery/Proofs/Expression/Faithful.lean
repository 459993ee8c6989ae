import Mathlib.Data.List.Forall2
import TreeQuery.Proofs.Expression.Alike
import TreeQuery.Proofs.Expression.Printing
import TreeQuery.Proofs.Expression.Resolving

/-!
# Numbers written in another way

An expression with its decimals in normal form has the same text, calls the same
functions and evaluates alike, as long as the functions it calls answer alike
arguments alike.  The built-in functions do.
-/

namespace TreeQuery

/-!
# Functions
-/

variable {N : Type}

/-- Under decimal arithmetic the function answers alike arguments alike. -/
def Function.Faithful (f : Function N) : Prop :=
  ∀ (focus : Focus N) (args args' : List Value), focus.arithmetic.representation = .decimal →
    List.Forall₂ Value.Alike args args' → Together Value.Alike (f focus args) (f focus args')

namespace Arguments

def Steady (f : Focus N → Value → Except EvalError Value) : Prop :=
  ∀ (focus : Focus N) (v v' : Value), focus.arithmetic.representation = .decimal →
    v.Alike v' → Together Value.Alike (f focus v) (f focus v')

theorem steady_ofText (f : Focus N → String → Value)
    (hf : ∀ focus t, focus.arithmetic.representation = .decimal → (f focus t).Alike (f focus t)) :
    Steady fun focus v => .ok (f focus v.toText) := by
  intro focus v v' harithmetic hv
  dsimp only
  rw [hv.toText_eq]
  exact hf focus _ harithmetic

theorem steady_ofTruth (test : Bool → Bool) :
    Steady (N := N) fun _ v => .ok (.boolean (test v.toBoolean)) := by
  intro focus v v' _ hv
  dsimp only
  rw [hv.toBoolean_eq]
  exact .boolean _

theorem steady_toNumber :
    Steady (N := N) fun focus v => (v.toNumber focus.arithmetic).map .number :=
  fun _ _ _ harithmetic hv => (hv.toNumber harithmetic).map fun _ _ => .number

theorem steady_mapNumber {f : Number → Number}
    (hf : ∀ {x x' : Number}, x.Alike x' → (f x).Alike (f x')) :
    Steady (N := N) fun focus v => v.mapNumber focus.arithmetic f :=
  fun _ _ _ harithmetic hv => Value.together_mapNumber hf hv harithmetic

theorem together_within (function : String) (least : Nat) (most : Option Nat)
    {args args' : List Value} (h : List.Forall₂ Value.Alike args args') :
    Together (List.Forall₂ Value.Alike) (within function least most args)
      (within function least most args') := by
  unfold within
  rw [h.length_eq]
  split
  · exact h
  · exact trivial

theorem faithful_nullary (function : String) {result : Focus N → Value}
    (h : ∀ focus : Focus N, focus.arithmetic.representation = .decimal →
      (result focus).Alike (result focus)) : Function.Faithful (nullary function result) := by
  intro focus args args' harithmetic hargs
  apply (together_within function 0 (some 0) hargs).bind
  intro _ _ _
  exact h focus harithmetic

theorem faithful_unary (function : String) {f : Focus N → Value → Except EvalError Value}
    (h : Steady f) : Function.Faithful (unary function f) := by
  intro focus args args' harithmetic hargs
  apply (together_within function 1 (some 1) hargs).bind
  intro _ _ hwithin
  cases hwithin with
  | nil => exact trivial
  | cons hv _ => exact h focus _ _ harithmetic hv

theorem faithful_optional [DecidableEq N] [Navigable N] (function : String)
    {f : Focus N → Value → Except EvalError Value} (h : Steady f) :
    Function.Faithful (optional function f) := by
  intro focus args args' harithmetic hargs
  apply (together_within function 0 (some 1) hargs).bind
  intro _ _ hwithin
  cases hwithin with
  | nil =>
      dsimp only
      split
      · exact h focus _ _ harithmetic (.text _)
      · exact h focus _ _ harithmetic .absent
  | cons hv _ => exact h focus _ _ harithmetic hv

theorem faithful_texts (function : String) (test : List Char → List Char → Bool) :
    Function.Faithful (texts (N := N) function test) := by
  intro focus args args' harithmetic hargs
  apply (together_within function 2 (some 2) hargs).bind
  intro _ _ hwithin
  cases hwithin with
  | nil => exact trivial
  | cons ha hrest =>
      cases hrest with
      | nil => exact trivial
      | cons hb _ =>
          dsimp only
          rw [ha.toText_eq, hb.toText_eq]
          exact .boolean _

theorem faithful_join (function : String) (least : Nat) (join : List String → String) :
    Function.Faithful (N := N) fun _ args => do
      let parts ← within function least none args
      return .text (join (parts.map Value.toText)) := by
  intro focus args args' harithmetic hargs
  apply (together_within function least none hargs).bind
  intro parts parts' hwithin
  have htexts : parts.map Value.toText = parts'.map Value.toText := by
    induction hwithin with
    | nil => rfl
    | cons hv _ ih => rw [List.map_cons, List.map_cons, hv.toText_eq, ih]
  rw [htexts]
  exact .text _

end Arguments

namespace Registry

open Arguments

def Faithful (functions : Registry N) (names : List String) : Prop :=
  ∀ name ∈ names, ∀ f, functions.get? name = some f → f.Faithful

theorem alike_count (n : Nat) (focus : Focus N) (h : focus.arithmetic.representation = .decimal) :
    Value.Alike (.number (.count n focus.arithmetic.representation))
      (.number (.count n focus.arithmetic.representation)) :=
  .number (Number.alike_integer _ h)

theorem faithful_builtins [DecidableEq N] [Navigable N] (names : List String) :
    (builtins (N := N)).Faithful names := by
  have htext : ∀ g : List Char → List Char,
      Steady (N := N) fun _ v => .ok (.text (String.ofList (g v.toText.toList))) :=
    fun g => steady_ofText (fun _ t => .text (String.ofList (g t.toList))) fun _ _ _ => .text _
  intro name _
  apply forall_ofList
  simp only [Builtin.list, Builtin.mapText, Builtin.mapNumber, List.forall_mem_cons]
  exact ⟨faithful_nullary _ fun _ => alike_count _ _,
    faithful_nullary _ fun _ _ => .text _,
    faithful_nullary _ fun _ => alike_count _ _,
    faithful_unary _ (steady_ofText
      (fun focus t => .boolean (Navigable.attribute? focus.node t).isSome) fun _ _ _ => .boolean _),
    faithful_optional _ (steady_ofText (fun _ t => .text t) fun _ _ _ => .text _),
    faithful_optional _ steady_toNumber,
    faithful_unary _ (steady_ofTruth fun b => b),
    faithful_unary _ (steady_ofTruth fun b => !b),
    faithful_nullary _ fun _ _ => .boolean _,
    faithful_nullary _ fun _ _ => .boolean _,
    faithful_join _ _ String.join,
    faithful_texts _ _,
    faithful_texts _ _,
    faithful_texts _ _,
    faithful_optional _ (steady_ofText
      (fun focus t => .number (.count t.length focus.arithmetic.representation))
      fun focus _ => alike_count _ focus),
    faithful_optional _ (htext _),
    faithful_unary _ (htext _),
    faithful_unary _ (htext _),
    faithful_unary _ (steady_mapNumber Number.Alike.floor),
    faithful_unary _ (steady_mapNumber Number.Alike.ceiling),
    faithful_unary _ (steady_mapNumber Number.Alike.round),
    faithful_unary _ (steady_mapNumber Number.Alike.abs),
    List.forall_mem_nil _⟩

end Registry

/-!
# Expressions
-/

namespace Expression

mutual

theorem functionNames_trimmed : ∀ e : Expression, e.trimmed.functionNames = e.functionNames
  | .number (.decimal _) | .number (.double _) | .text _ | .attr _ => rfl
  | .call name args => congrArg (name :: ·) (functionNamesAll_trimmedAll args)
  | .binary left _ right =>
      congrArg₂ (· ++ ·) (functionNames_trimmed left) (functionNames_trimmed right)
  | .negate inner => functionNames_trimmed inner

theorem functionNamesAll_trimmedAll :
    ∀ es : List Expression, functionNamesAll (trimmedAll es) = functionNamesAll es
  | [] => rfl
  | e :: es => congrArg₂ (· ++ ·) (functionNames_trimmed e) (functionNamesAll_trimmedAll es)

end

theorem strength_trimmed (e : Expression) : e.trimmed.strength = e.strength := by
  fun_cases trimmed e <;> rfl

theorem isBinary_trimmed (e : Expression) : e.trimmed.isBinary = e.isBinary := by
  fun_cases trimmed e <;> rfl

theorem charsAll_eq_map (e : Expression) (es : List Expression) :
    charsAll (e :: es) = e.chars ++ (es.map chars).flatMap fun x => ',' :: ' ' :: x := by
  rw [charsAll_cons, List.flatMap_map]

mutual

theorem chars_trimmed : ∀ e : Expression, e.trimmed.chars = e.chars
  | .number (.decimal d) => congrArg String.toList (Decimal.text_congr d.normalize_beq)
  | .number (.double _) | .text _ | .attr _ => rfl
  | .call _ [] => rfl
  | .call _ (e :: es) => by
      rw [trimmed, trimmedAll, chars, chars, charsAll_eq_map, charsAll_eq_map, chars_trimmed e,
        map_chars_trimmedAll es]
  | .binary left _ right => by
      rw [trimmed, chars, chars, strength_trimmed, strength_trimmed, chars_trimmed left,
        chars_trimmed right]
  | .negate inner => by
      rw [trimmed, chars, chars, isBinary_trimmed, chars_trimmed inner]

theorem map_chars_trimmedAll :
    ∀ es : List Expression, (trimmedAll es).map chars = es.map chars
  | [] => rfl
  | e :: es => congrArg₂ List.cons (chars_trimmed e) (map_chars_trimmedAll es)

end

/-!
# Evaluation
-/

/-- The functions called by the expression do not mind if its numbers are in normal form: they are
already, or else none of these functions tells such numbers apart. -/
def Indifferent (functions : Registry N) (e : Expression) : Prop :=
  e.trimmed = e ∨ functions.Faithful e.functionNames

variable [DecidableEq N] [Navigable N] {functions : Registry N} {focus : Focus N}
  {context : DecimalContext}

mutual

theorem together_trimmed (harithmetic : focus.arithmetic.representation = .decimal) :
    ∀ {e : Expression}, e.Printable context → functions.Faithful e.functionNames →
      Together Value.Alike (e.trimmed.evaluate functions focus) (e.evaluate functions focus)
  | .number (.decimal d), _, _ => Value.Alike.number (.decimal d.normalize_beq)
  | .number (.double _), hprintable, _ => hprintable.elim
  | .text t, _, _ => Value.Alike.text t
  | .attr name, _, _ => by
      rw [trimmed, evaluate]
      split
      · exact .text _
      · exact .absent
  | .call name args, hprintable, hfaithful => by
      rcases List.forall_mem_cons.mp hfaithful with ⟨hname, hargs⟩
      rw [trimmed, evaluate, evaluate]
      cases hf : functions.get? name with
      | none => exact trivial
      | some f =>
          apply (together_trimmedAll harithmetic hprintable.2 hargs).bind
          intro values values' hvalues
          exact hname f hf focus values values' harithmetic hvalues
  | .binary left op right, hprintable, hfaithful => by
      rcases List.forall_mem_append.mp hfaithful with ⟨hfirst, hsecond⟩
      have hleft := together_trimmed harithmetic hprintable.1 hfirst
      have hright := together_trimmed harithmetic hprintable.2 hsecond
      have htruth : ∀ b b' : Value, b.Alike b' →
          Together Value.Alike (pure (.boolean b.toBoolean) : Except EvalError Value)
            (pure (.boolean b'.toBoolean) : Except EvalError Value) := by
        intro b b' hb
        rw [hb.toBoolean_eq]
        exact .boolean _
      rw [trimmed, evaluate, evaluate]
      apply hleft.bind
      intro a a' ha
      rw [ha.toBoolean_eq]
      split
      · split
        · exact hright.bind htruth
        · exact .boolean _
      · split
        · exact .boolean _
        · exact hright.bind htruth
      · apply hright.bind
        intro b b' hb
        exact Value.together_operate op ha hb harithmetic
  | .negate inner, hprintable, hfaithful => by
      have hinner : inner.Printable context := hprintable
      rw [trimmed, evaluate, evaluate]
      apply (together_trimmed harithmetic hinner hfaithful).bind
      intro a a' ha
      exact Value.together_mapNumber Number.Alike.negate ha harithmetic

theorem together_trimmedAll (harithmetic : focus.arithmetic.representation = .decimal) :
    ∀ {es : List Expression}, PrintableAll context es →
      functions.Faithful (functionNamesAll es) →
        Together (List.Forall₂ Value.Alike) (evaluateAll functions focus (trimmedAll es))
          (evaluateAll functions focus es)
  | [], _, _ => List.Forall₂.nil
  | e :: es, hprintable, hfaithful => by
      rcases List.forall_mem_append.mp hfaithful with ⟨hfirst, hrest⟩
      rw [trimmedAll, evaluateAll, evaluateAll]
      apply (together_trimmed harithmetic hprintable.1 hfirst).bind
      intro v v' hv
      apply (together_trimmedAll harithmetic hprintable.2 hrest).bind
      intro vs vs' hvs
      exact .cons hv hvs

end

end Expression
end TreeQuery
