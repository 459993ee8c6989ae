import TreeQuery.Token.Basic
import TreeQuery.Text.Quoted

/-!
# Walking a token tree

A visitor is told of every token before and after its parts.  When it starts a
phrase it decides whether the parts are walked; the phrase is ended either way.
-/

namespace TreeQuery

inductive Visit where
  | parts
  | skip
deriving DecidableEq, Repr

structure Visitor (m : Type → Type) where
  enter : Token → m Unit
  leave : Token → m Unit
  start : Phrase → List Token → m Visit
  finish : Phrase → List Token → m Unit
  leaf : Lexeme → String → m Unit

namespace Token

variable {m : Type → Type} [Monad m]

mutual

def walk (v : Visitor m) : Token → m Unit
  | t@(.leaf lexeme text) => do
      v.enter t
      v.leaf lexeme text
      v.leave t
  | t@(.phrase kind parts) => do
      v.enter t
      match ← v.start kind parts with
      | .parts => walkAll v parts
      | .skip => pure ()
      v.finish kind parts
      v.leave t

def walkAll (v : Visitor m) : List Token → m Unit
  | [] => pure ()
  | t :: ts => do
      walk v t
      walkAll v ts

end

/-!
# Traces

A trace is the list of everything a visitor is told.
-/

inductive Event where
  | enter (token : Token)
  | leave (token : Token)
  | start (kind : Phrase) (parts : List Token)
  | finish (kind : Phrase) (parts : List Token)
  | leaf (lexeme : Lexeme) (text : String)

/-- Runs a rule that may look at everything seen before, and writes down what happens. -/
def tracer {S : Type} (rule : Phrase → List Token → StateM S Visit) :
    Visitor (StateM (S × List Event)) where
  enter t := modify fun (s, events) => (s, events ++ [.enter t])
  leave t := modify fun (s, events) => (s, events ++ [.leave t])
  start kind parts := modifyGet fun (s, events) =>
    let (visit, s) := (rule kind parts).run s
    (visit, s, events ++ [.start kind parts])
  finish kind parts := modify fun (s, events) => (s, events ++ [.finish kind parts])
  leaf lexeme text := modify fun (s, events) => (s, events ++ [.leaf lexeme text])

/-- The trace of a walk that skips the phrases a rule names. -/
def trace (skip : Phrase → Bool) (t : Token) : List Event :=
  let rule : Phrase → List Token → StateM Unit Visit := fun kind _ =>
    pure (if skip kind then .skip else .parts)
  ((walk (tracer rule) t).run ((), [])).2.2

/-!
# Outlines

An outline has one line for every token, indented by two spaces for each phrase
around it.
-/

structure Outline where
  depth : Nat
  text : String

namespace Outline

def line (label text : String) (o : Outline) : Outline :=
  { o with
    text := o.text ++ String.ofList (List.replicate (2 * o.depth) ' ') ++ label ++ " " ++
      Quoted.quote text ++ "\n" }

end Outline

def outliner (showBlanks : Bool) : Visitor (StateM Outline) where
  enter _ := pure ()
  leave _ := pure ()
  start kind parts := do
    modify (Outline.line kind.label (String.ofList (charsAll parts)))
    modify fun o => { o with depth := o.depth + 1 }
    return .parts
  finish _ _ := modify fun o => { o with depth := o.depth - 1 }
  leaf lexeme text :=
    match lexeme with
    | .blank => if showBlanks then modify (Outline.line lexeme.label text) else pure ()
    | _ => modify (Outline.line lexeme.label text)

def outline (t : Token) (showBlanks : Bool) : String :=
  ((walk (outliner showBlanks) t).run ⟨0, ""⟩).2.text

end Token
end TreeQuery
