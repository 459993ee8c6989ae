import TreeQuery.Proofs.Chain.Compiled
import TreeQuery.Proofs.Expression.Faithful

/-!
# Chains in writing

The text of a chain has a token of its own: a mark, a node test and brackets
for every axis, and a slash between one axis and the next.  The token is built
up in that order, and each part comes with the form the grammar asks for, the
characters it covers and the steps it compiles to.
-/

namespace TreeQuery

def Predicate.chars (p : Predicate) : List Char :=
  '[' :: (p.expression.chars ++ [']'])

/-- What the text of a predicate reads as: its numbers are in normal form and its text is the
canonical one. -/
def Predicate.reread (p : Predicate) : Predicate :=
  ⟨p.expression.trimmed, p.expression.displayText⟩

theorem Predicate.chars_reread (p : Predicate) : p.reread.chars = p.chars := by
  unfold chars reread
  rw [p.expression.chars_trimmed]

namespace Leg

def chars (l : Leg) : List Char :=
  l.axis.text.toList ++ ((l.test.getD .any).text.toList ++ l.predicates.flatMap Predicate.chars)

def charsAll : List Leg → List Char
  | [] => []
  | l :: ls => l.chars ++ ls.flatMap fun l => '/' :: l.chars

def reread (l : Leg) : Leg :=
  ⟨l.axis, some (l.test.getD .any), l.predicates.map Predicate.reread⟩

theorem chars_reread (l : Leg) : l.reread.chars = l.chars := by
  unfold chars reread
  rw [List.flatMap_map, Option.getD_some]
  simp only [Predicate.chars_reread]

theorem charsAll_reread (ls : List Leg) : charsAll (ls.map reread) = charsAll ls := by
  cases ls with
  | nil => rfl
  | cons l ls =>
      rw [List.map_cons, charsAll, charsAll, List.flatMap_map]
      simp only [chars_reread]

end Leg

def Chain.pathChars (absolute : Bool) (legs : List Leg) : List Char :=
  (if absolute then ['/'] else []) ++ Leg.charsAll legs

theorem Axis.exists_mark {a : Axis} (h : a ≠ .root) :
    ∃ mark : AxisMark, mark.axis = a ∧ mark.spelling = a.text := by
  cases a with
  | root => exact absurd rfl h
  | self => exact ⟨.self, rfl, rfl⟩
  | child => exact ⟨.child, rfl, rfl⟩
  | descendant => exact ⟨.descendant, rfl, rfl⟩
  | descendantOrSelf => exact ⟨.descendantOrSelf, rfl, rfl⟩
  | parent => exact ⟨.parent, rfl, rfl⟩
  | ancestor => exact ⟨.ancestor, rfl, rfl⟩
  | ancestorOrSelf => exact ⟨.ancestorOrSelf, rfl, rfl⟩
  | firstChild => exact ⟨.firstChild, rfl, rfl⟩
  | lastChild => exact ⟨.lastChild, rfl, rfl⟩
  | followingSibling => exact ⟨.followingSibling, rfl, rfl⟩
  | precedingSibling => exact ⟨.precedingSibling, rfl, rfl⟩
  | following => exact ⟨.following, rfl, rfl⟩
  | preceding => exact ⟨.preceding, rfl, rfl⟩

namespace Token

variable {N : Type} {functions : Registry N} {context : DecimalContext} {policy : NamePolicy}
  {depth : Nat}

/-!
# Predicates
-/

structure WritesPredicate (functions : Registry N) (context : DecimalContext) (policy : NamePolicy)
    (depth : Nat) (p : Predicate) (t : Token) : Prop where
  form : IsPredicate t
  covers : ∀ rest, t.Covers ⟨.decimal, context⟩ (p.chars ++ rest) rest
  nesting : t.nesting ≤ depth
  meaning : toSteps policy functions t = .ok [.predicate p.reread]

theorem exists_writesPredicate (policy : NamePolicy) {p : Predicate}
    (h : p.Compiled functions ⟨.decimal, context⟩ depth) :
    ∃ t, WritesPredicate functions context policy depth p t := by
  have hstrength := p.expression.strength_pos
  have hprintable := h.printable context rfl
  rcases exists_writes hprintable with ⟨body, hbody⟩
  have hform := hbody.form.mono (by omega : 6 - p.expression.strength ≤ 5)
  refine ⟨bracketed body, isPredicate_bracketed hform, ?_, ?_, ?_⟩
  · intro rest
    have hcovers := covers_bracketed hbody.covers rest
    unfold Predicate.chars
    rw [List.cons_append, List.append_assoc]
    exact hcovers
  · rw [nesting_bracketed, hbody.nesting, Nat.add_comm]
    exact h.nesting
  · have hknown : p.expression.trimmed.functionNames.find? (!functions.contains ·) = none := by
      apply List.find?_eq_none.mpr
      intro name hname
      rw [Expression.functionNames_trimmed] at hname
      rw [h.known name hname]
      exact Bool.false_ne_true
    have htext : body.text = p.expression.displayText := by
      rw [Token.text, hbody.chars_eq, Expression.displayText]
    have hpredicate : toPredicate functions (leaf (.symbol .openBracket) "[" :: [] ++ body :: [] ++
        [leaf (.symbol .closeBracket) "]"]) = .ok p.reread := by
      rw [toPredicate_enclosed .none hform.isOperand hbody.meaning, hknown, htext]
      rfl
    rw [bracketed, toSteps]
    show (toPredicate functions (leaf (.symbol .openBracket) "[" :: [] ++ body :: [] ++
      [leaf (.symbol .closeBracket) "]"])).bind _ = _
    rw [hpredicate]
    rfl

structure WritesPredicates (functions : Registry N) (context : DecimalContext)
    (policy : NamePolicy) (depth : Nat) (ps : List Predicate) (ts : List Token) : Prop where
  form : ∀ t ∈ ts, IsPredicate t
  covers : ∀ rest, CoverAll ⟨.decimal, context⟩ ts (ps.flatMap Predicate.chars ++ rest) rest
  nesting : nestingAll ts ≤ depth
  meaning : toStepsAll policy functions ts = .ok ((ps.map Predicate.reread).map .predicate)

theorem exists_writesPredicates (policy : NamePolicy) {ps : List Predicate}
    (h : ∀ p ∈ ps, p.Compiled functions ⟨.decimal, context⟩ depth) :
    ∃ ts, WritesPredicates functions context policy depth ps ts := by
  induction ps with
  | nil =>
      exact ⟨[], nofun, fun _ => coverAll_nil.mpr rfl, Nat.zero_le depth, rfl⟩
  | cons p ps ih =>
      rcases List.forall_mem_cons.mp h with ⟨hp, hps⟩
      rcases exists_writesPredicate policy hp with ⟨t, ht⟩
      rcases ih hps with ⟨ts, hts⟩
      refine ⟨t :: ts, List.forall_mem_cons.mpr ⟨ht.form, hts.form⟩, ?_,
        Nat.max_le.mpr ⟨ht.nesting, hts.nesting⟩, ?_⟩
      · intro rest
        rw [List.flatMap_cons, List.append_assoc]
        exact (ht.covers _).cons (hts.covers rest)
      · rw [toStepsAll, ht.meaning, hts.meaning]
        rfl

theorem stops_predicates (ps : List Predicate) {rest : List Char} (hrest : Stops rest) :
    Stops (ps.flatMap Predicate.chars ++ rest) := by
  cases ps with
  | nil => exact hrest
  | cons p ps => exact stops_cons (by decide) _

/-!
# Steps
-/

def nodeTest : NameTest → Token
  | .any => wildcard
  | .named n => Token.name n

theorem isNodeTest_nodeTest (test : NameTest) : IsNodeTest (nodeTest test) := by
  cases test with
  | any => exact .wildcard
  | named n => exact .name

theorem covers_nodeTest (arithmetic : Arithmetic) {test : NameTest} {rest : List Char}
    (h : ∀ n, test = .named n → Lexeme.IsName n.toList) (hrest : Stops rest) :
    (nodeTest test).Covers arithmetic (test.text.toList ++ rest) rest := by
  cases test with
  | any => exact covers_leaf.mpr ⟨rfl, rfl, fun _ _ => id⟩
  | named n => exact covers_name arithmetic (h n rfl) hrest

theorem covers_axis (arithmetic : Arithmetic) (mark : AxisMark) (rest : List Char) :
    (Token.axis mark).Covers arithmetic (mark.spelling.toList ++ rest) rest := by
  have hspells : mark.spelling.toList.map Char.toLower = mark.spelling.toList := by
    cases mark <;> decide
  exact covers_leaf.mpr ⟨rfl, hspells, fun _ _ => id⟩

def Keeps (policy : NamePolicy) : Prop :=
  ∀ n, policy.name n = .ok n

theorem toSteps_nodeTest (hpolicy : Keeps policy) (test : NameTest) :
    toSteps policy functions (nodeTest test) = .ok [.name test] := by
  cases test with
  | any => rw [nodeTest, wildcard, toSteps]
  | named n =>
      rw [nodeTest, Token.name, toSteps, hpolicy n]
      rfl

theorem isName_of_compiled (hpolicy : Keeps policy) {n : String}
    (h : (NameTest.named n).Compiled policy) : Lexeme.IsName n.toList := by
  rcases h with ⟨name, hname, rfl⟩
  have hkept := hpolicy name
  unfold NamePolicy.name at hkept
  split at hkept
  · rw [Except.ok.inj hkept]
    exact hname
  · cases hkept

structure WritesLeg (functions : Registry N) (context : DecimalContext) (policy : NamePolicy)
    (depth : Nat) (l : Leg) (t : Token) : Prop where
  form : IsStep t
  covers : ∀ {rest}, Stops rest → t.Covers ⟨.decimal, context⟩ (l.chars ++ rest) rest
  nesting : t.nesting ≤ depth
  meaning : toSteps policy functions t = .ok l.reread.steps

theorem exists_writesLeg (hpolicy : Keeps policy) {l : Leg}
    (h : l.Compiled functions ⟨.decimal, context⟩ policy depth) :
    ∃ t, WritesLeg functions context policy depth l t := by
  rcases Axis.exists_mark h.axis with ⟨mark, hmark, hspelling⟩
  rcases exists_writesPredicates policy h.predicates with ⟨ts, hts⟩
  have hspaced : ∀ x ∈ ts.map ([·]), IsSpacedPredicate x := by
    intro x hx
    rcases List.mem_map.mp hx with ⟨t, ht, rfl⟩
    exact .spaced .none (hts.form t ht)
  have hheading : IsHeading [Token.axis mark, nodeTest (l.test.getD .any)] :=
    .marked (isNodeTest_nodeTest _)
  have hname : ∀ n, l.test.getD .any = .named n → Lexeme.IsName n.toList := by
    intro n hn
    apply isName_of_compiled hpolicy
    cases htest : l.test with
    | none =>
        rw [htest] at hn
        cases hn
    | some test =>
        rw [htest] at hn
        rw [← hn]
        exact h.test test htest
  refine ⟨.phrase .step ([Token.axis mark, nodeTest (l.test.getD .any)] ++ ts), ?_, ?_, ?_, ?_⟩
  · have hstep := IsStep.step hheading hspaced
    rw [← List.flatMap_def, List.flatMap_singleton'] at hstep
    exact hstep
  · intro rest hrest
    have haxis := covers_axis ⟨.decimal, context⟩ mark
    have htest := covers_nodeTest ⟨.decimal, context⟩ hname
      (stops_predicates l.predicates hrest)
    rw [covers_phrase, Leg.chars, ← hspelling, List.append_assoc, List.append_assoc]
    exact (haxis _).cons (htest.cons (hts.covers rest))
  · rw [nesting_phrase rfl, nestingAll_append_le, hheading.nestingAll_eq]
    exact ⟨Nat.zero_le depth, hts.nesting⟩
  · have hparts : toStepsAll policy functions
        ([Token.axis mark, nodeTest (l.test.getD .any)] ++ ts) =
        .ok (.name (l.test.getD .any) :: (l.predicates.map Predicate.reread).map .predicate) := by
      rw [List.cons_append, List.cons_append, List.nil_append, Token.axis,
        toStepsAll_leaf (.axis mark) nofun nofun, toStepsAll, toSteps_nodeTest hpolicy,
        hts.meaning]
      rfl
    rw [toSteps]
    show (toStepsAll policy functions _).bind _ = _
    rw [hparts, Leg.reread, ← hmark]
    rfl

/-!
# Paths
-/

theorem covers_slash (arithmetic : Arithmetic) {l : Leg} (h : l.axis ≠ .root) (rest : List Char) :
    (symbol .slash).Covers arithmetic ('/' :: (l.chars ++ rest)) (l.chars ++ rest) := by
  have hword : ∀ a : Axis, a ≠ .root → ∃ c more, a.text.toList = c :: more ∧ c ≠ '/' := by
    intro a ha
    cases a with
    | root => exact absurd rfl ha
    | _ => exact ⟨_, _, rfl, by decide⟩
  rcases hword l.axis h with ⟨c, more, htext, hc⟩
  refine covers_leaf.mpr ⟨rfl, rfl, ?_⟩
  unfold Leg.chars
  rw [htext]
  rintro _ ⟨⟩
  exact hc

structure WritesFurther (functions : Registry N) (context : DecimalContext) (policy : NamePolicy)
    (depth : Nat) (ls : List Leg) (found : List (List Token)) : Prop where
  form : ∀ x ∈ found, IsFurtherStep x
  covers : CoverAll ⟨.decimal, context⟩ found.flatten (ls.flatMap fun l => '/' :: l.chars) []
  nesting : nestingAll found.flatten ≤ depth
  meaning : toStepsAll policy functions found.flatten = .ok ((ls.map Leg.reread).flatMap Leg.steps)

theorem stops_further (ls : List Leg) : Stops (ls.flatMap fun l => '/' :: l.chars) := by
  cases ls with
  | nil => exact nofun
  | cons l ls => exact stops_cons (by decide) _

theorem exists_writesFurther (hpolicy : Keeps policy) {ls : List Leg}
    (h : ∀ l ∈ ls, l.Compiled functions ⟨.decimal, context⟩ policy depth) :
    ∃ found, WritesFurther functions context policy depth ls found := by
  induction ls with
  | nil => exact ⟨[], List.forall_mem_nil _, coverAll_nil.mpr rfl, Nat.zero_le depth, rfl⟩
  | cons l ls ih =>
      rcases List.forall_mem_cons.mp h with ⟨hl, hls⟩
      rcases exists_writesLeg hpolicy hl with ⟨t, ht⟩
      rcases ih hls with ⟨found, hfound⟩
      refine ⟨[symbol .slash, t] :: found, List.forall_mem_cons.mpr ⟨?_, hfound.form⟩, ?_, ?_, ?_⟩
      · exact IsFurtherStep.slashed .none .none ht.form
      · have hslash := covers_slash ⟨.decimal, context⟩ hl.axis
        have hleg := ht.covers (stops_further ls)
        rw [List.flatten_cons, List.flatMap_cons]
        exact CoverAll.append ((hslash _).cons hleg.single) hfound.covers
      · rw [List.flatten_cons, nestingAll_append_le]
        refine ⟨?_, hfound.nesting⟩
        show max 0 (max t.nesting 0) ≤ depth
        rw [Nat.zero_max, Nat.max_zero]
        exact ht.nesting
      · rw [List.flatten_cons, List.cons_append, List.singleton_append, symbol,
          toStepsAll_symbol, toStepsAll, ht.meaning, hfound.meaning]
        rfl

structure WritesLegs (functions : Registry N) (context : DecimalContext) (policy : NamePolicy)
    (depth : Nat) (ls : List Leg) (ts : List Token) : Prop where
  form : AreSteps ts
  covers : CoverAll ⟨.decimal, context⟩ ts (Leg.charsAll ls) []
  nesting : nestingAll ts ≤ depth
  meaning : toStepsAll policy functions ts = .ok ((ls.map Leg.reread).flatMap Leg.steps)

theorem exists_writesLegs (hpolicy : Keeps policy) {ls : List Leg} (hne : ls ≠ [])
    (h : ∀ l ∈ ls, l.Compiled functions ⟨.decimal, context⟩ policy depth) :
    ∃ ts, WritesLegs functions context policy depth ls ts := by
  cases ls with
  | nil => exact absurd rfl hne
  | cons l ls =>
      rcases List.forall_mem_cons.mp h with ⟨hl, hls⟩
      rcases exists_writesLeg hpolicy hl with ⟨t, ht⟩
      rcases exists_writesFurther hpolicy hls with ⟨found, hfound⟩
      refine ⟨t :: found.flatten, .steps ht.form hfound.form,
        (ht.covers (stops_further ls)).cons hfound.covers,
        Nat.max_le.mpr ⟨ht.nesting, hfound.nesting⟩, ?_⟩
      rw [toStepsAll, ht.meaning, hfound.meaning]
      rfl

/-- Legs have a well-formed token that covers their text and compiles to what they read as. -/
theorem exists_path (hpolicy : Keeps policy) {absolute : Bool} {ls : List Leg}
    (hne : absolute = false → ls ≠ [])
    (h : ∀ l ∈ ls, l.Compiled functions ⟨.decimal, context⟩ policy depth) :
    ∃ t, WellFormed ⟨.decimal, context⟩ t ∧ t.nesting ≤ depth ∧
      t.chars = Chain.pathChars absolute ls ∧
      t.compile policy functions =
        .ok ⟨Chain.rootSteps absolute ++ (ls.map Leg.reread).flatMap Leg.steps⟩ := by
  have hcompile : ∀ {parts : List Token} {steps : List Step},
      toStepsAll policy functions parts = .ok steps →
        (phrase (.path absolute) parts).compile policy functions =
          .ok ⟨Chain.rootSteps absolute ++ steps⟩ := by
    intro parts steps hparts
    rw [compile_path, toSteps, hparts]
    rfl
  have hslash : ∀ {ts : List Token} {steps : List Step},
      toStepsAll policy functions ts = .ok steps →
        toStepsAll policy functions (symbol .slash :: ts) = .ok steps := by
    intro ts steps hts
    rw [symbol, toStepsAll_symbol]
    exact hts
  cases ls with
  | nil =>
      cases absolute with
      | false => exact absurd rfl (hne rfl)
      | true =>
          have hcovers : (symbol .slash).Covers ⟨.decimal, context⟩ ['/'] [] :=
            covers_leaf.mpr ⟨rfl, rfl, fun c hc => absurd hc (Option.not_mem_none c)⟩
          exact ⟨.phrase (.path true) [symbol .slash], ⟨.root .none .none, hcovers.single.2⟩,
            Nat.zero_le depth, rfl, hcompile (hslash rfl)⟩
  | cons l ls =>
      rcases exists_writesLegs hpolicy (List.cons_ne_nil l ls) h with ⟨ts, hts⟩
      cases absolute with
      | false =>
          have hpath := IsPath.relative .none hts.form .none
          rw [List.nil_append, List.append_nil] at hpath
          refine ⟨.phrase (.path false) ts, ⟨hpath, hts.covers.2⟩, ?_, ?_, hcompile hts.meaning⟩
          · rw [nesting_phrase rfl]
            exact hts.nesting
          · rw [chars, Chain.pathChars, ← List.append_nil (charsAll ts)]
            exact hts.covers.1.symm
      | true =>
          have hpath : IsPath (.phrase (.path true)
              ([] ++ [leaf (.symbol .slash) "/"] ++ ([] ++ ts) ++ [])) :=
            .absolute .none .none hts.form .none
          rw [List.nil_append, List.nil_append, List.append_nil] at hpath
          rcases List.forall_mem_cons.mp h with ⟨hl, _⟩
          have hcovers := (covers_slash ⟨.decimal, context⟩ hl.axis _).cons hts.covers
          refine ⟨.phrase (.path true) (symbol .slash :: ts), ⟨hpath, hcovers.2⟩, ?_, ?_,
            hcompile (hslash hts.meaning)⟩
          · rw [nesting_phrase rfl]
            exact Nat.max_le.mpr ⟨Nat.zero_le depth, hts.nesting⟩
          · rw [chars, Chain.pathChars, ← List.append_nil (charsAll (symbol .slash :: ts))]
            exact hcovers.1.symm

end Token
end TreeQuery
