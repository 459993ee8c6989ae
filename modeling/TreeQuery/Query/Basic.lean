import TreeQuery.Query.Settings
import TreeQuery.Parser.Grammar
import TreeQuery.Chain.Replacement

/-!
# Queries

A query is a text together with everything that running it takes: its tokens,
its chain, the functions it may call and the arithmetic it calculates with.
Every run starts afresh, so that one query can be run any number of times.
-/

namespace TreeQuery

inductive QueryError where
  | parse (error : ParseError)
  | select (error : SelectError)

namespace QueryError

def message : QueryError → String
  | .parse error => "syntax error: " ++ error.message
  | .select error => error.message

end QueryError

structure Query (N : Type) where
  source : String
  token : Token
  chain : Chain
  functions : Registry N
  arithmetic : Arithmetic

namespace Query

variable {N S : Type}

/-- Parses and compiles a text.  Names of nodes are made from names in the text by `factory`. -/
def compile (text : String) (settings : QuerySettings) (factory : String → String)
    (functions : Registry N) : Except QueryError (Query N) := do
  let token ← (Token.parse text settings.arithmetic).mapError .parse
  let chain ← (token.compile (settings.names.policy factory) functions).mapError .select
  return ⟨text, token, chain, functions, settings.arithmetic⟩

/-- The query with its chain; names are written by `nameText`. -/
def fullText (q : Query N) (nameText : String → String) : String :=
  "Query \x7b source: " ++ Quoted.quote q.source ++ ", selector: " ++ q.chain.fullText nameText ++
    " \x7d"

def setting (q : Query N) (hooks : Hooks S N) : Setting S N :=
  ⟨q.functions, q.arithmetic, hooks⟩

/-- Every distinct match, in the order in which the listener hears of them. -/
def select [DecidableEq N] [Navigable N] (q : Query N) (start : N) : Except QueryError (List N) :=
  let hooks : Hooks (List N) N := ⟨.none, .none, some fun node found => found ++ [node]⟩
  let (outcome, session) := q.chain.apply (q.setting hooks) [] start
  (outcome.map fun _ => session.caller).mapError .select

/-- The match that the listener has heard of last, in a run that ends after one. -/
def first [DecidableEq N] [Navigable N] (q : Query N) (start : N) : Except QueryError (Option N) :=
  let hooks : Hooks (Option N) N := ⟨.none, some (Hooks.after 1), some fun node _ => some node⟩
  let (outcome, session) := q.chain.apply (q.setting hooks) none start
  (outcome.map fun _ => session.caller).mapError .select

/-- Replaces every match at or below the start. -/
def replace {T : Type} (q : Query Node) (mapper : Node → Replacing T Node) (start : Node) :
    Replacing T (Except QueryError Node) := do
  let outcome ← q.chain.replace (S := Unit) (q.setting .none) () mapper start
  return outcome.mapError .select

end Query
end TreeQuery
