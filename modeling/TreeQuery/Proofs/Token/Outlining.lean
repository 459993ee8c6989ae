import TreeQuery.Proofs.Token.Tracing

/-!
# Outlines

The printer of outlines is a visitor that keeps count of the phrases around the
token it is told of.  Since every phrase that is started is finished, the count
comes back to where it was, and is never lowered below zero on the way.
-/

namespace TreeQuery
namespace Token

namespace Outline

def lineAt (depth : Nat) (t : Token) : String :=
  String.ofList (List.replicate (2 * depth) ' ') ++ t.label ++ " " ++ Quoted.quote t.text ++ "\n"

def shows (showBlanks : Bool) (t : Token) : Bool :=
  showBlanks || !t.isBlank

theorem shows_phrase (showBlanks : Bool) (kind : Phrase) (parts : List Token) :
    shows showBlanks (.phrase kind parts) = true :=
  Bool.or_true showBlanks

/-- The lines of tokens with places, where the token at the top has a depth. -/
def lines (showBlanks : Bool) (depth : Nat) (xs : List (List Nat × Token)) : List String :=
  (xs.filter fun x => shows showBlanks x.2).map fun x => lineAt (depth + x.1.length) x.2

theorem lines_append (showBlanks : Bool) (depth : Nat) (xs ys : List (List Nat × Token)) :
    lines showBlanks depth (xs ++ ys) = lines showBlanks depth xs ++ lines showBlanks depth ys := by
  rw [lines, List.filter_append, List.map_append, lines, lines]

theorem lines_cons {showBlanks : Bool} {t : Token} (h : shows showBlanks t = true) (depth : Nat)
    (p : List Nat) (xs : List (List Nat × Token)) :
    lines showBlanks depth ((p, t) :: xs) =
      lineAt (depth + p.length) t :: lines showBlanks depth xs := by
  rw [lines, List.filter_cons, if_pos h, List.map_cons, lines]

theorem line_eq (o : Outline) (t : Token) :
    o.line t.label t.text = ⟨o.depth, o.text ++ lineAt o.depth t⟩ := by
  rw [line, lineAt]
  simp only [String.append_assoc]

end Outline

theorem run_bind_eq {S A B : Type} {x : StateM S A} {f : A → StateM S B} {a : A} {s s' : S}
    (h : x.run s = (a, s')) : (x >>= f).run s = (f a).run s' := by
  show (f (x.run s).1).run (x.run s).2 = _
  rw [h]

section

variable (showBlanks : Bool) (depth : Nat) (p : List Nat) (before : String)

theorem run_outliner_leaf (lexeme : Lexeme) (text : String) :
    ((outliner showBlanks).leaf lexeme text).run ⟨depth + p.length, before⟩ =
      ((), ⟨depth + p.length,
        before ++ String.join (Outline.lines showBlanks depth [(p, .leaf lexeme text)])⟩) := by
  have hshown : Outline.shows showBlanks (.leaf lexeme text) = true →
      ((), Outline.line lexeme.label text ⟨depth + p.length, before⟩) =
        ((), ⟨depth + p.length,
          before ++ String.join (Outline.lines showBlanks depth [(p, .leaf lexeme text)])⟩) := by
    intro h
    have htext : Token.text (.leaf lexeme text) = text := String.ofList_toList
    have hline := Outline.line_eq ⟨depth + p.length, before⟩ (.leaf lexeme text)
    rw [htext] at hline
    rw [Outline.lines_cons h, String.join_cons]
    exact congrArg _ (hline.trans (congrArg _ (congrArg _ String.append_empty.symm)))
  cases lexeme with
  | blank =>
      cases showBlanks with
      | true => exact hshown rfl
      | false => exact congrArg (fun text => ((), Outline.mk _ text)) String.append_empty.symm
  | _ => exact hshown (Bool.or_true showBlanks)

theorem run_outliner_start (kind : Phrase) (parts : List Token) :
    ((outliner showBlanks).start kind parts).run ⟨depth + p.length, before⟩ =
      (.parts, ⟨depth + p.length + 1,
        before ++ Outline.lineAt (depth + p.length) (.phrase kind parts)⟩) := by
  have hline := Outline.line_eq ⟨depth + p.length, before⟩ (.phrase kind parts)
  exact congrArg (fun o : Outline => (Visit.parts, { o with depth := o.depth + 1 })) hline

end

mutual

theorem walk_outliner (showBlanks : Bool) (depth : Nat) :
    ∀ (t : Token) (p : List Nat) (before : String),
      (walk (outliner showBlanks) t).run ⟨depth + p.length, before⟩ =
        ((), ⟨depth + p.length,
          before ++ String.join (Outline.lines showBlanks depth (locatedFrom p t))⟩)
  | .leaf lexeme text, p, before => by
      rw [walk]
      exact run_outliner_leaf showBlanks depth p before lexeme text
  | .phrase kind parts, p, before => by
      have hparts := walkAll_outliner showBlanks depth parts p 0
        (before ++ Outline.lineAt (depth + p.length) (.phrase kind parts))
      have henter : ((outliner showBlanks).enter (.phrase kind parts)).run
          ⟨depth + p.length, before⟩ = ((), ⟨depth + p.length, before⟩) := rfl
      rw [walk_phrase, run_bind_eq henter,
        run_bind_eq (run_outliner_start showBlanks depth p before kind parts), walkParts,
        run_bind_eq hparts, locatedFrom,
        Outline.lines_cons (Outline.shows_phrase showBlanks kind parts), String.join_cons,
        ← String.append_assoc]
      rfl

theorem walkAll_outliner (showBlanks : Bool) (depth : Nat) :
    ∀ (ts : List Token) (p : List Nat) (i : Nat) (before : String),
      (walkAll (outliner showBlanks) ts).run ⟨depth + p.length + 1, before⟩ =
        ((), ⟨depth + p.length + 1,
          before ++ String.join (Outline.lines showBlanks depth (locatedFromAll p i ts))⟩)
  | [], p, i, before => by
      rw [locatedFromAll, Outline.lines, List.filter_nil, List.map_nil, String.join_nil,
        String.append_empty, walkAll]
      rfl
  | t :: ts, p, i, before => by
      have ht := walk_outliner showBlanks depth t (p ++ [i]) before
      have hts := walkAll_outliner showBlanks depth ts p (i + 1)
        (before ++ String.join (Outline.lines showBlanks depth (locatedFrom (p ++ [i]) t)))
      rw [List.length_append, List.length_singleton, ← Nat.add_assoc] at ht
      rw [walkAll, locatedFromAll, Outline.lines_append, String.join_append,
        ← String.append_assoc, run_bind_eq ht]
      exact hts

end

def Note.IsDeep (n : Note Outline) : Prop :=
  match n.event with
  | .finish _ _ => 0 < n.state.depth
  | _ => True

mutual

theorem adds_outliner (showBlanks : Bool) : ∀ (t : Token) (o : Outline),
    ∃ new, Visitor.Adds (walk (outliner showBlanks) t) (walk (outliner showBlanks).traced t) o new ∧
      ∀ n ∈ new, n.IsDeep
  | .leaf lexeme text, o => by
      have hadds := ((outliner showBlanks).adds_enter o (.leaf lexeme text)).andThen
        (((outliner showBlanks).adds_leaf _ lexeme text).andThen
          ((outliner showBlanks).adds_leave _ (.leaf lexeme text)))
      rw [walk, walk]
      refine ⟨_, hadds, List.forall_mem_append.mpr ⟨?_, List.forall_mem_append.mpr ⟨?_, ?_⟩⟩⟩
      · exact List.forall_mem_singleton.mpr trivial
      · exact List.forall_mem_singleton.mpr trivial
      · exact List.forall_mem_singleton.mpr trivial
  | .phrase kind parts, ⟨depth, before⟩ => by
      have hopened := run_outliner_start showBlanks depth [] before kind parts
      rcases adds_outlinerAll showBlanks parts
        ⟨depth + 1, before ++ Outline.lineAt depth (.phrase kind parts)⟩ with ⟨new, hparts, hnew⟩
      have henter := (outliner showBlanks).adds_enter ⟨depth, before⟩ (.phrase kind parts)
      have hstart := (outliner showBlanks).adds_start ⟨depth, before⟩ hopened
      have hclose := hparts.andThen (((outliner showBlanks).adds_finish _ kind parts).andThen
        ((outliner showBlanks).adds_leave _ (.phrase kind parts)))
      rw [walk_phrase, walk_phrase]
      have hdeep : 0 < ((walkAll (outliner showBlanks) parts).run
          ⟨depth + 1, before ++ Outline.lineAt depth (.phrase kind parts)⟩).2.depth := by
        have hrun := walkAll_outliner showBlanks depth parts [] 0
          (before ++ Outline.lineAt depth (.phrase kind parts))
        exact Nat.lt_of_lt_of_eq depth.succ_pos (congrArg (fun r => r.2.depth) hrun).symm
      refine ⟨_, henter.andThen (hstart.bind hopened hclose), List.forall_mem_append.mpr
        ⟨?_, List.forall_mem_append.mpr ⟨?_, List.forall_mem_append.mpr
          ⟨hnew, List.forall_mem_append.mpr ⟨?_, ?_⟩⟩⟩⟩⟩
      · exact List.forall_mem_singleton.mpr trivial
      · exact List.forall_mem_singleton.mpr trivial
      · exact List.forall_mem_singleton.mpr hdeep
      · exact List.forall_mem_singleton.mpr trivial

theorem adds_outlinerAll (showBlanks : Bool) : ∀ (ts : List Token) (o : Outline),
    ∃ new, Visitor.Adds (walkAll (outliner showBlanks) ts) (walkAll (outliner showBlanks).traced ts)
      o new ∧ ∀ n ∈ new, n.IsDeep
  | [], o => ⟨[], Visitor.adds_pure () o, List.forall_mem_nil _⟩
  | t :: ts, o => by
      rcases adds_outliner showBlanks t o with ⟨head, ht, hhead⟩
      rcases adds_outlinerAll showBlanks ts ((walk (outliner showBlanks) t).run o).2 with
        ⟨tail, hts, htail⟩
      rw [walkAll, walkAll]
      exact ⟨head ++ tail, ht.andThen hts, List.forall_mem_append.mpr ⟨hhead, htail⟩⟩

end

/-- A walk over any token tree with any visitor, however it answers, tells properly nested events:
what is reached is entered and left once, every phrase among it started and finished in between,
and the leaves outside skipped phrases come in the order of the text, which they make up if nothing
is skipped.  So a printer of outlines never finishes a phrase at depth zero, and writes one line for
every token it shows, indented by twice its depth. -/
theorem walk_traced (t : Token) :
    (∀ {S : Type} (v : Visitor (StateM S)) (s : S), ∃ τ : Trace S,
        (walk v.traced t).run (s, []) = ((), ((walk v t).run s).2, τ.map Prod.snd) ∧
          IsTrace t τ ∧
          (leavesAmong t.located).map Prod.snd = t.leaves ∧
          ((∀ n ∈ τ, n.2.answer ≠ some .skip) →
            String.join (τ.leaves.map fun leaf => leaf.2.2) = t.text)) ∧
      (t.located.map Prod.fst).Nodup ∧ ∀ (showBlanks : Bool) (o : Outline),
        ((walk (outliner showBlanks) t).run o).2 =
            ⟨o.depth, o.text ++ String.join (Outline.lines showBlanks o.depth t.located)⟩ ∧
          ∀ n ∈ ((walk (outliner showBlanks).traced t).run (o, [])).2.2, ∀ kind parts,
            n.event = .finish kind parts → 0 < n.state.depth := by
  refine ⟨?_, nodup_locatedFrom [] t, ?_⟩
  · intro S v s
    rcases exists_walked v t [] s with ⟨τ, hτ, hadds⟩
    exact ⟨τ, hadds [], hτ.isTrace, map_leavesAmong_locatedFrom [] t, hτ.isTrace.join_leaves⟩
  · intro showBlanks o
    rcases adds_outliner showBlanks t o with ⟨new, hadds, hdeep⟩
    constructor
    · exact congrArg Prod.snd (walk_outliner showBlanks o.depth t [] o.text)
    · rw [hadds []]
      intro n hn kind parts hfinish
      have hn := hdeep n hn
      rw [Note.IsDeep, hfinish] at hn
      exact hn

/-- A visitor that counts leaves, once without those in predicates and once with all of them. -/
theorem walk_traced_predicate :
    let t : Token := .phrase (.path false) [.phrase .step [axis .child, name "a",
      .phrase .predicate [symbol .openBracket, blank " ", name "x", symbol .closeBracket]]]
    let counter (skipped : Phrase → Bool) : Visitor (StateM Nat) :=
      { enter := fun _ => pure (), leave := fun _ => pure (),
        start := fun kind _ => pure (if skipped kind then .skip else .parts),
        finish := fun _ _ => pure (), leaf := fun _ _ => modify (· + 1) }
    (∃ τ : Trace Nat,
        (walk (counter (· == .predicate)).traced t).run (0, []) = ((), 2, τ.map Prod.snd) ∧
          IsTrace t τ) ∧
      (∃ τ : Trace Nat,
        (walk (counter fun _ => false).traced t).run (0, []) = ((), 6, τ.map Prod.snd) ∧
          (∀ n ∈ τ, n.2.answer ≠ some .skip) ∧
          String.join (τ.leaves.map fun leaf => leaf.2.2) = "child::a[ x]") ∧
      outline t false = String.join (Outline.lines false 0 t.located) ∧
      outline t false = "Path \"child::a[ x]\"\n  Step \"child::a[ x]\"\n    Axis \"child::\"\n" ++
        "    Name \"a\"\n    Predicate \"[ x]\"\n      Symbol \"[\"\n      Name \"x\"\n" ++
        "      Symbol \"]\"\n" := by
  intro t counter
  refine ⟨?_, ?_, ?_, by decide +kernel⟩
  · rcases (walk_traced t).1 (counter (· == .predicate)) 0 with ⟨τ, hrun, htrace, _, _⟩
    exact ⟨τ, hrun, htrace⟩
  · rcases (walk_traced t).1 (counter fun _ => false) 0 with ⟨τ, hrun, _, _, hjoin⟩
    have hall : ∀ n ∈ τ, n.2.answer ≠ some .skip := by
      have hnotes : ∀ n ∈ ((walk (counter fun _ => false).traced t).run (0, [])).2.2,
          n.answer ≠ some .skip := by
        decide
      rw [hrun] at hnotes
      exact fun n hn => hnotes n.2 (List.mem_map_of_mem hn)
    exact ⟨τ, hrun, hall, (hjoin hall).trans (by decide +kernel)⟩
  · rw [outline, ((walk_traced t).2.2 false ⟨0, ""⟩).1]
    exact String.empty_append

end Token
end TreeQuery
