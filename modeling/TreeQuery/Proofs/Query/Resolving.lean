import TreeQuery.Proofs.Chain.Compiled
import TreeQuery.Proofs.Chain.Finishing
import TreeQuery.Proofs.Chain.Positions
import TreeQuery.Proofs.Chain.Rewriting
import TreeQuery.Proofs.Expression.Resolving

/-!
# Compiled queries

A text that is accepted has the form that compiling counts on.  Compiling looks
up every function that a predicate calls, so that a compiled query can run
without ever missing one.
-/

namespace TreeQuery

namespace Environment

variable {N : Type} [DecidableEq N] [Navigable N] {env : Environment N}

theorem exists_of_mem_failures {steps : List Step} {ns : List N} {e : SelectError}
    (h : e ∈ env.failures steps ns) :
    ∃ p focus source, .predicate p ∈ steps ∧
      p.expression.evaluate env.functions focus = .error source ∧ e = .ofEvaluation p source := by
  have hlater : ∀ {step : Step} {rest : List Step},
      (∃ p focus source, .predicate p ∈ rest ∧
        p.expression.evaluate env.functions focus = .error source ∧ e = .ofEvaluation p source) →
      ∃ p focus source, .predicate p ∈ step :: rest ∧
        p.expression.evaluate env.functions focus = .error source ∧ e = .ofEvaluation p source := by
    rintro step rest ⟨p, focus, source, hp, hsource⟩
    exact ⟨p, focus, source, List.mem_cons_of_mem step hp, hsource⟩
  induction steps generalizing ns with
  | nil => cases h
  | cons step rest ih =>
      cases step with
      | axis a =>
          rcases List.mem_flatMap.mp h with ⟨n, _, hn⟩
          exact hlater (ih hn)
      | name test => exact hlater (ih h)
      | predicate p =>
          rcases List.mem_append.mp h with hfault | hrest
          · rcases List.mem_filterMap.mp hfault with ⟨⟨n, place⟩, _, hverdict⟩
            unfold verdict at hverdict
            cases heval : p.expression.evaluate env.functions ⟨n, place, env.arithmetic⟩ with
            | ok value => simp [heval] at hverdict
            | error source =>
                simp only [heval, Option.some.injEq] at hverdict
                exact ⟨p, _, source, List.mem_cons_self, heval, hverdict.symm⟩
          · exact hlater (ih hrest)

end Environment

namespace Chain

variable {S N : Type} [DecidableEq N] [Navigable N]

/-- A run of a chain whose functions are all known does not miss any. -/
theorem run_resolves {c : Chain} {g : Setting S N} (hresolved : g.functions.Resolved)
    (hknown : ∀ p, .predicate p ∈ c.steps →
      ∀ name ∈ p.expression.functionNames, g.functions.contains name = true)
    (hfilter : g.hooks.filter = none) (hfinisher : g.hooks.finisher = none) (caller : S)
    (start : N) (function predicate : String) :
    (c.run g caller start).1 ≠ .error (.unknownFunction function predicate) := by
  intro hrun
  have hplain : g.hooks.FiltersBy fun _ => true := by
    unfold Hooks.FiltersBy
    rw [hfilter]
    exact fun _ => rfl
  have hends := run_ends hplain hfinisher c caller start
  generalize c.run g caller start = reached at hrun hends
  rcases reached with ⟨outcome, left⟩
  cases hrun
  rcases Environment.exists_of_mem_failures hends with ⟨p, focus, source, hp, heval, he⟩
  cases source with
  | unknownFunction name =>
      exact (Expression.resolves_evaluate hresolved focus _ (hknown p hp)).ne_unknown name heval
  | _ => cases he

end Chain

namespace Query

variable {N : Type} {text : String} {settings : QuerySettings} {factory : String → String}
  {functions : Registry N} {q : Query N}

theorem compile_of_parse {token : Token} (h : Token.parse text settings.arithmetic = .ok token) :
    compile text settings factory functions =
      match token.compile (settings.names.policy factory) functions with
      | .ok chain => .ok ⟨text, token, chain, functions, settings.arithmetic⟩
      | .error e => .error (.select e) := by
  unfold compile
  rw [h]
  show ((token.compile (settings.names.policy factory) functions).mapError
    QueryError.select).bind _ = _
  cases token.compile (settings.names.policy factory) functions with
  | ok chain => rfl
  | error e => rfl

theorem compile_of_parse_error {e : ParseError}
    (h : Token.parse text settings.arithmetic = .error e) :
    compile text settings factory functions = .error (.parse e) := by
  unfold compile
  rw [h]
  rfl

theorem compile_eq_ok_iff :
    compile text settings factory functions = .ok q ↔
      ∃ token chain, Token.parse text settings.arithmetic = .ok token ∧
        token.compile (settings.names.policy factory) functions = .ok chain ∧
        q = ⟨text, token, chain, functions, settings.arithmetic⟩ := by
  cases hparse : Token.parse text settings.arithmetic with
  | error e =>
      rw [compile_of_parse_error hparse]
      simp
  | ok token =>
      rw [compile_of_parse hparse]
      cases hchain : token.compile (settings.names.policy factory) functions with
      | error e => simp [hchain]
      | ok chain => simp [hchain, eq_comm]

theorem compile_ne_unexpected (expected found : String) :
    compile text settings factory functions ≠
      .error (.select (.unexpectedToken expected found)) := by
  cases hparse : Token.parse text settings.arithmetic with
  | error e =>
      rw [compile_of_parse_error hparse]
      exact nofun
  | ok token =>
      have hcompiles := Token.compiles_of_wellFormed (settings.names.policy factory) functions
        (Token.wellFormed_of_parse hparse).1 (Nat.le_refl _)
      rw [compile_of_parse hparse]
      split
      · exact nofun
      · rename_i e hchain
        intro h
        cases h
        exact hcompiles.ne_unexpected expected found hchain

/-- Every function that a compiled query calls was found. -/
theorem known_of_compile (h : compile text settings factory functions = .ok q) (p : Predicate)
    (hp : .predicate p ∈ q.chain.steps) :
    ∀ name ∈ p.expression.functionNames, q.functions.contains name = true := by
  rcases compile_eq_ok_iff.mp h with ⟨token, chain, hparse, hchain, rfl⟩
  have hcompiles := Token.compiles_of_wellFormed (settings.names.policy factory) functions
    (Token.wellFormed_of_parse hparse).1 (Nat.le_refl _)
  rw [hchain] at hcompiles
  rcases hcompiles with ⟨absolute, legs, hsteps, _, hlegs⟩
  change .predicate p ∈ chain.steps at hp
  rw [hsteps] at hp
  exact (Leg.Compiled.of_mem hlegs hp).known

theorem functions_of_compile (h : compile text settings factory functions = .ok q) :
    q.functions = functions := by
  rcases compile_eq_ok_iff.mp h with ⟨token, chain, _, _, rfl⟩
  rfl

section

variable [DecidableEq N] [Navigable N]

theorem run_resolves (h : compile text settings factory functions = .ok q)
    (hresolved : functions.Resolved) (start : N) (function predicate : String) :
    (q.chain.run (S := Unit) (q.setting .none) () start).1 ≠
      .error (.unknownFunction function predicate) := by
  apply Chain.run_resolves _ (known_of_compile h) rfl rfl
  show q.functions.Resolved
  rw [functions_of_compile h]
  exact hresolved

theorem select_resolves (h : compile text settings factory functions = .ok q)
    (hresolved : functions.Resolved) (start : N) (function predicate : String) :
    q.select start ≠ .error (.select (.unknownFunction function predicate)) := by
  have hrun := run_resolves h hresolved start function predicate
  rw [select_eq]
  intro hselect
  change (((q.chain.run (S := Unit) (q.setting .none) () start).1.map fun _ => _).mapError _) = _
    at hselect
  cases houtcome : (q.chain.run (S := Unit) (q.setting .none) () start).1 with
  | ok _ =>
      rw [houtcome] at hselect
      cases hselect
  | error e =>
      rw [houtcome] at hselect
      cases hselect
      exact hrun houtcome

theorem first_resolves (h : compile text settings factory functions = .ok q)
    (hresolved : functions.Resolved) (start : N) (function predicate : String) :
    q.first start ≠ .error (.select (.unknownFunction function predicate)) := by
  have hrun := run_resolves h hresolved start function predicate
  have hfirst := q.first_eq start
  rw [hfirst]
  split
  · exact nofun
  · intro hmap
    cases houtcome : (q.chain.run (S := Unit) (q.setting .none) () start).1 with
    | ok _ =>
        rw [houtcome] at hmap
        cases hmap
    | error e =>
        rw [houtcome] at hmap
        cases hmap
        exact hrun houtcome

end

theorem replace_resolves {functions : Registry Node} {q : Query Node} {T : Type}
    (h : compile text settings factory functions = .ok q) (hresolved : functions.Resolved)
    (mapper : Node → Replacing T Node) (start : Node) (t : T) (stamp : Nat)
    (function predicate : String) :
    Replacing.Ends (q.replace mapper start) t stamp fun outcome _ _ =>
      outcome ≠ .error (.select (.unknownFunction function predicate)) := by
  have hrun := run_resolves h hresolved start function predicate
  unfold replace Chain.replace
  generalize q.chain.run (S := Unit) (q.setting .none) () start = reached at hrun
  rcases reached with ⟨outcome, left⟩
  cases outcome with
  | error e =>
      intro he
      cases he
      exact hrun rfl
  | ok _ =>
      rw [Replacing.ends_bind, Replacing.ends_bind]
      exact nofun

/-- Compiling an accepted text never stumbles over the form of its tokens.  With functions that do
not themselves complain of an unknown function, no run of a compiled query ever does: neither
selecting all matches, nor the first, nor replacing them by whatever mapper. -/
theorem compile_resolves (text : String) (settings : QuerySettings) (factory : String → String) :
    (∀ {N : Type} (functions : Registry N) (expected found : String),
      compile text settings factory functions ≠
        .error (.select (.unexpectedToken expected found))) ∧
      (∀ {N : Type} [DecidableEq N] [Navigable N] {functions : Registry N} {q : Query N},
        compile text settings factory functions = .ok q → functions.Resolved →
          ∀ (start : N) (function predicate : String),
            q.select start ≠ .error (.select (.unknownFunction function predicate)) ∧
              q.first start ≠ .error (.select (.unknownFunction function predicate))) ∧
      ∀ {functions : Registry Node} {q : Query Node},
        compile text settings factory functions = .ok q → functions.Resolved →
          ∀ {T : Type} (mapper : Node → Replacing T Node) (start : Node) (t : T) (stamp : Nat)
            (function predicate : String),
            Replacing.Ends (q.replace mapper start) t stamp fun outcome _ _ =>
              outcome ≠ .error (.select (.unknownFunction function predicate)) := by
  constructor
  · intro N functions expected found
    exact compile_ne_unexpected expected found
  · constructor
    · intro N _ _ functions q h hresolved start function predicate
      exact ⟨select_resolves h hresolved start function predicate,
        first_resolves h hresolved start function predicate⟩
    · intro functions q h hresolved T mapper start t stamp function predicate
      exact replace_resolves h hresolved mapper start t stamp function predicate

/-- Calls stand among arguments, behind a minus sign and beside an operator. -/
theorem compile_resolves_nested :
    let text := "//leaf[not(contains(name(), concat('x', -number(position() = 1))))]"
    let functions : Registry Node := .builtins
    let start := (Sample.forest.run 0).1
    functions.Resolved ∧ ∃ q, compile text .standard id functions = .ok q ∧
      (∀ function predicate,
          q.select start ≠ .error (.select (.unknownFunction function predicate))) ∧
        (q.select start).toOption.map (·.map Node.idOrDash) =
          some ["a", "b", "c", "e", "f", "g"] := by
  intro text functions start
  have hresolved : functions.Resolved := Registry.resolved_builtins
  have hselected : (compile text .standard id functions).toOption.map (fun q =>
      (q.select start).toOption.map (·.map Node.idOrDash)) =
        some (some ["a", "b", "c", "e", "f", "g"]) := by
    decide +kernel
  cases hcompile : compile text .standard id functions with
  | error e =>
      rw [hcompile] at hselected
      cases hselected
  | ok q =>
      rw [hcompile] at hselected
      refine ⟨hresolved, q, rfl, ?_, Option.some.inj hselected⟩
      intro function predicate
      exact ((compile_resolves text .standard id).2.1 hcompile hresolved start function
        predicate).1

end Query
end TreeQuery
