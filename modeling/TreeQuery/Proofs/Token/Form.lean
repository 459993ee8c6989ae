import TreeQuery.Parser.Grammar

/-!
# Well-formed tokens

A token tree is well formed when its phrases are put together by the grammar
and its leaves fit: every leaf spells what it stands for, and none would be
taken to go on into the characters that follow it.
-/

namespace TreeQuery

/-!
# Leaves
-/

theorem AxisMark.spelling_ne_nil (mark : AxisMark) : mark.spelling.toList ≠ [] := by
  cases mark <;> decide

theorem Symbol.spelling_ne_nil (s : Symbol) : s.spelling.toList ≠ [] := by
  cases s with
  | operator op => cases op <;> decide
  | _ => decide

namespace Lexeme

def IsName : List Char → Prop
  | [] => False
  | c :: rest => Scan.isNameStart c = true ∧ ∀ d ∈ rest, Scan.isNameChar d = true

def IsNumber (chars : List Char) : Prop :=
  (∀ c ∈ chars, Literal.isDigit c = true ∨ c = '.') ∧ chars.count '.' ≤ 1 ∧
    ∃ c ∈ chars, Literal.isDigit c = true

/-- Keywords may be written with capitals. -/
def Spells (arithmetic : Arithmetic) : Lexeme → List Char → Prop
  | .name n, chars => IsName chars ∧ n = String.ofList chars
  | .number value, chars =>
      IsNumber chars ∧ Number.parse (String.ofList chars) arithmetic = .ok value
  | .text value, chars =>
      ∃ quote, (quote = '\'' ∨ quote = '"') ∧ quote ∉ value.toList ∧
        chars = quote :: (value.toList ++ [quote])
  | .axis mark, chars => chars.map Char.toLower = mark.spelling.toList
  | .wildcard, chars => chars = ['*']
  | .symbol (.operator op), chars =>
      if op.isWord then chars.map Char.toLower = op.spelling.toList
      else chars = op.spelling.toList
  | .symbol s, chars => chars = s.spelling.toList
  | .blank, chars => chars ≠ [] ∧ ∀ c ∈ chars, Scan.isSpace c = true

/-- Whether a leaf would go on into the character behind it. -/
def Extends : Lexeme → List Char → Char → Prop
  | .name _, chars, c => IsName (chars ++ [c])
  | .number _, chars, c => IsNumber (chars ++ [c])
  | .symbol .slash, _, c => c = '/'
  | .symbol (.operator op), _, c => op.isWord = true ∧ Scan.isNameChar c = true
  | _, _, _ => False

theorem Spells.ne_nil {arithmetic : Arithmetic} {lexeme : Lexeme} {chars : List Char}
    (h : lexeme.Spells arithmetic chars) : chars ≠ [] := by
  intro hchars
  subst hchars
  cases lexeme with
  | name n => exact h.1
  | number value =>
      rcases h.1.2.2 with ⟨c, hc, _⟩
      cases hc
  | text value =>
      rcases h with ⟨quote, _, _, hquote⟩
      cases hquote
  | axis mark => exact mark.spelling_ne_nil h.symm
  | wildcard => cases h
  | symbol s =>
      have hspelling : [] = s.spelling.toList := by
        cases s with
        | operator op =>
            simp only [Spells, List.map_nil] at h
            split at h
            · exact h
            · exact h
        | _ => exact h
      exact s.spelling_ne_nil hspelling.symm
  | blank => exact h.1 rfl

end Lexeme

namespace Token

def leafChars (leaves : List (Lexeme × String)) : List Char :=
  leaves.flatMap fun leaf => leaf.2.toList

/-- Every leaf spells what it stands for and ends before the characters that follow it. -/
def Fits (arithmetic : Arithmetic) : List (Lexeme × String) → List Char → Prop
  | [], _ => True
  | (lexeme, text) :: leaves, rest =>
      lexeme.Spells arithmetic text.toList ∧
        (∀ c ∈ (leafChars leaves ++ rest).head?, ¬ lexeme.Extends text.toList c) ∧
        Fits arithmetic leaves rest

theorem leafChars_append (xs ys : List (Lexeme × String)) :
    leafChars (xs ++ ys) = leafChars xs ++ leafChars ys :=
  List.flatMap_append

theorem fits_append {arithmetic : Arithmetic} {xs ys : List (Lexeme × String)}
    {rest : List Char} :
    Fits arithmetic (xs ++ ys) rest ↔
      Fits arithmetic xs (leafChars ys ++ rest) ∧ Fits arithmetic ys rest := by
  induction xs with
  | nil => simp [Fits]
  | cons x xs ih =>
      rw [List.cons_append, Fits, Fits, ih, leafChars_append, List.append_assoc]
      simp only [and_assoc]

theorem Fits.length_le {arithmetic : Arithmetic} {leaves : List (Lexeme × String)}
    {rest : List Char} (h : Fits arithmetic leaves rest) :
    leaves.length ≤ (leafChars leaves).length := by
  induction leaves with
  | nil => exact Nat.zero_le _
  | cons leaf leaves ih =>
      rcases h with ⟨hspells, _, hrest⟩
      have hleaf : 0 < leaf.2.toList.length := List.length_pos_iff.mpr hspells.ne_nil
      have hleaves := ih hrest
      show leaves.length + 1 ≤ (leaf.2.toList ++ leafChars leaves).length
      rw [List.length_append]
      omega

mutual

theorem leafChars_leaves (t : Token) : leafChars t.leaves = t.chars := by
  cases t with
  | leaf lexeme text =>
      rw [leaves, chars]
      exact List.append_nil _
  | phrase kind parts =>
      rw [leaves, chars]
      exact leafChars_leavesAll parts

theorem leafChars_leavesAll (ts : List Token) : leafChars (leavesAll ts) = charsAll ts := by
  cases ts with
  | nil => rfl
  | cons t ts =>
      rw [leavesAll, charsAll, leafChars_append, leafChars_leaves t, leafChars_leavesAll ts]

end

theorem leavesAll_append (xs ys : List Token) :
    leavesAll (xs ++ ys) = leavesAll xs ++ leavesAll ys := by
  induction xs with
  | nil => rfl
  | cons x xs ih => rw [List.cons_append, leavesAll, leavesAll, ih, List.append_assoc]

/-!
# Phrases

The grammar of token trees.  Expressions are ranked by how many of the five
levels of binary operators they may have outside brackets, the tightest level
first.
-/

inductive IsGap : List Token → Prop where
  | none : IsGap []
  | blank {text : String} : IsGap [.leaf .blank text]

structure FurtherArgument where
  before : List Token
  comma : String
  after : List Token
  value : Token

def FurtherArgument.parts (x : FurtherArgument) : List Token :=
  x.before ++ .leaf (.symbol .comma) x.comma :: x.after ++ [x.value]

inductive IsExpression : Nat → Token → Prop where
  | number {value : Number} {text : String} : IsExpression 0 (.leaf (.number value) text)
  | text {value text : String} : IsExpression 0 (.leaf (.text value) text)
  | attribution {sign n key : String} :
      IsExpression 0 (.phrase .attribution [.leaf (.symbol .at) sign, .leaf (.name n) key])
  | bareCall {n function opening closing : String} {before after : List Token}
      (hbefore : IsGap before) (hafter : IsGap after) :
      IsExpression 0 (.phrase .call (.leaf (.name n) function :: before ++
        .leaf (.symbol .openParen) opening :: after ++
        [.leaf (.symbol .closeParen) closing]))
  | call {n function opening closing : String} {before after trailing : List Token} {first : Token}
      {more : List FurtherArgument} (hbefore : IsGap before) (hafter : IsGap after)
      (hfirst : IsExpression 5 first)
      (hgaps : ∀ x ∈ more, IsGap x.before ∧ IsGap x.after)
      (hmore : ∀ x ∈ more, IsExpression 5 x.value) (htrailing : IsGap trailing) :
      IsExpression 0 (.phrase .call (.leaf (.name n) function :: before ++
        .leaf (.symbol .openParen) opening :: after ++
        (first :: more.flatMap FurtherArgument.parts ++ trailing) ++
        [.leaf (.symbol .closeParen) closing]))
  | group {opening closing : String} {before after : List Token} {inner : Token}
      (hbefore : IsGap before) (hinner : IsExpression 5 inner) (hafter : IsGap after) :
      IsExpression 0 (.phrase .group (.leaf (.symbol .openParen) opening :: before ++
        inner :: after ++ [.leaf (.symbol .closeParen) closing]))
  | negation {sign : String} {space : List Token} {operand : Token} (hspace : IsGap space)
      (hoperand : IsExpression 0 operand) :
      IsExpression 0 (.phrase .negation
        (.leaf (.symbol (.operator .subtract)) sign :: space ++ [operand]))
  | binary {rank : Nat} {op : Operator} {sign : String} {before after : List Token}
      {left right : Token} (hop : op.strength + rank = 5) (hleft : IsExpression (rank + 1) left)
      (hbefore : IsGap before) (hafter : IsGap after) (hright : IsExpression rank right) :
      IsExpression (rank + 1) (.phrase (.binary op) (left ::
        (before ++ .leaf (.symbol (.operator op)) sign :: after ++ [right])))
  | tighter {rank : Nat} {t : Token} (h : IsExpression rank t) : IsExpression (rank + 1) t

inductive IsPredicate : Token → Prop where
  | enclosed {opening closing : String} {before after : List Token} {inner : Token}
      (hbefore : IsGap before) (hinner : IsExpression 5 inner) (hafter : IsGap after) :
      IsPredicate (.phrase .predicate (.leaf (.symbol .openBracket) opening :: before ++
        inner :: after ++ [.leaf (.symbol .closeBracket) closing]))

inductive IsSpacedPredicate : List Token → Prop where
  | spaced {space : List Token} {t : Token} (hspace : IsGap space) (h : IsPredicate t) :
      IsSpacedPredicate (space ++ [t])

inductive IsNodeTest : Token → Prop where
  | wildcard {text : String} : IsNodeTest (.leaf .wildcard text)
  | name {n text : String} : IsNodeTest (.leaf (.name n) text)

inductive IsHeading : List Token → Prop where
  | plain {test : Token} (htest : IsNodeTest test) : IsHeading [test]
  | marked {mark : AxisMark} {text : String} {test : Token} (htest : IsNodeTest test) :
      IsHeading [.leaf (.axis mark) text, test]
  | alone {mark : AxisMark} {text : String} (hmark : mark.standsAlone = true) :
      IsHeading [.leaf (.axis mark) text]

inductive IsStep : Token → Prop where
  | step {heading : List Token} {predicates : List (List Token)} (hheading : IsHeading heading)
      (hpredicates : ∀ p ∈ predicates, IsSpacedPredicate p) :
      IsStep (.phrase .step (heading ++ predicates.flatten))

inductive IsFurtherStep : List Token → Prop where
  | slashed {text : String} {before after : List Token} {t : Token} (hbefore : IsGap before)
      (hafter : IsGap after) (h : IsStep t) :
      IsFurtherStep (before ++ (.leaf (.symbol .slash) text :: after ++ [t]))
  | doubled {text : String} {before parts : List Token} (hbefore : IsGap before)
      (h : IsStep (.phrase .step (.leaf (.axis .doubleSlash) text :: parts))) :
      IsFurtherStep (before ++ [.phrase .step (.leaf (.axis .doubleSlash) text :: parts)])

inductive AreSteps : List Token → Prop where
  | steps {first : Token} {more : List (List Token)} (hfirst : IsStep first)
      (hmore : ∀ x ∈ more, IsFurtherStep x) : AreSteps (first :: more.flatten)

inductive IsPath : Token → Prop where
  | relative {before inner after : List Token} (hbefore : IsGap before) (hinner : AreSteps inner)
      (hafter : IsGap after) : IsPath (.phrase (.path false) (before ++ inner ++ after))
  | absolute {slash : String} {before space inner after : List Token} (hbefore : IsGap before)
      (hspace : IsGap space) (hinner : AreSteps inner) (hafter : IsGap after) :
      IsPath (.phrase (.path true)
        (before ++ [.leaf (.symbol .slash) slash] ++ (space ++ inner) ++ after))
  | root {slash : String} {before after : List Token} (hbefore : IsGap before)
      (hafter : IsGap after) :
      IsPath (.phrase (.path true) (before ++ [.leaf (.symbol .slash) slash] ++ after))

def WellFormed (arithmetic : Arithmetic) (t : Token) : Prop :=
  IsPath t ∧ Fits arithmetic t.leaves []

/-!
# Parts of a path

Besides steps a path only has blanks and slashes, and a step has nothing but
leaves and predicates.
-/

section

variable {t : Token} {ts : List Token}

theorem isLeaf_of_not_isOperand (h : t.isOperand = false) : t.isLeaf = true := by
  cases t with
  | leaf => rfl
  | phrase => cases h

theorem IsGap.not_isOperand {gap : List Token} {other : Token → Prop} (h : IsGap gap) :
    ∀ t ∈ gap, t.isOperand = false ∨ other t := by
  cases h with
  | none => exact List.forall_mem_nil _
  | blank => exact List.forall_mem_singleton.mpr (Or.inl rfl)

theorem IsSpacedPredicate.forall_mem (h : IsSpacedPredicate ts) :
    ∀ t ∈ ts, t.isOperand = false ∨ IsPredicate t := by
  cases h with
  | spaced hspace h =>
      exact List.forall_mem_append.mpr
        ⟨hspace.not_isOperand, List.forall_mem_singleton.mpr (Or.inr h)⟩

theorem IsHeading.isLeaf {heading : List Token} (h : IsHeading heading) :
    ∀ t ∈ heading, t.isLeaf = true := by
  have htest : ∀ {t : Token}, IsNodeTest t → t.isLeaf = true := by
    intro t h
    cases h with
    | wildcard => rfl
    | name => rfl
  cases h with
  | plain h => exact List.forall_mem_singleton.mpr (htest h)
  | marked h => exact List.forall_mem_cons.mpr ⟨rfl, List.forall_mem_singleton.mpr (htest h)⟩
  | alone => exact List.forall_mem_singleton.mpr rfl

theorem IsStep.exists_phrase (h : IsStep t) : ∃ parts, t = .phrase .step parts := by
  cases h with
  | step => exact ⟨_, rfl⟩

theorem IsStep.forall_mem {parts : List Token} (h : IsStep (.phrase .step parts)) :
    ∀ t ∈ parts, t.isLeaf = true ∨ IsPredicate t := by
  cases h with
  | step hheading hpredicates =>
      rw [List.forall_mem_append]
      constructor
      · exact fun t ht => Or.inl (hheading.isLeaf t ht)
      · intro t ht
        rcases List.mem_flatten.mp ht with ⟨spaced, hspaced, ht⟩
        have hpart := (hpredicates spaced hspaced).forall_mem t ht
        exact hpart.imp_left isLeaf_of_not_isOperand

theorem IsFurtherStep.forall_mem (h : IsFurtherStep ts) :
    ∀ t ∈ ts, t.isOperand = false ∨ IsStep t := by
  cases h with
  | slashed hbefore hafter h =>
      simp only [List.cons_append, List.forall_mem_append, List.forall_mem_cons]
      exact ⟨hbefore.not_isOperand, Or.inl rfl, hafter.not_isOperand, Or.inr h,
        List.forall_mem_nil _⟩
  | doubled hbefore h =>
      simp only [List.forall_mem_append, List.forall_mem_cons]
      exact ⟨hbefore.not_isOperand, Or.inr h, List.forall_mem_nil _⟩

theorem AreSteps.forall_mem (h : AreSteps ts) : ∀ t ∈ ts, t.isOperand = false ∨ IsStep t := by
  cases h with
  | steps hfirst hmore =>
      rw [List.forall_mem_cons]
      constructor
      · exact Or.inr hfirst
      · intro t ht
        rcases List.mem_flatten.mp ht with ⟨further, hfurther, ht⟩
        exact (hmore further hfurther).forall_mem t ht

theorem IsPath.forall_mem {parts : List Token} {absolute : Bool}
    (h : IsPath (.phrase (.path absolute) parts)) :
    ∀ t ∈ parts, t.isOperand = false ∨ IsStep t := by
  cases h with
  | relative hbefore hinner hafter =>
      simp only [List.forall_mem_append]
      exact ⟨⟨hbefore.not_isOperand, hinner.forall_mem⟩, hafter.not_isOperand⟩
  | absolute hbefore hspace hinner hafter =>
      simp only [List.forall_mem_append, List.forall_mem_cons]
      exact ⟨⟨⟨hbefore.not_isOperand, Or.inl rfl, List.forall_mem_nil _⟩, hspace.not_isOperand,
        hinner.forall_mem⟩, hafter.not_isOperand⟩
  | root hbefore hafter =>
      simp only [List.forall_mem_append, List.forall_mem_cons]
      exact ⟨⟨hbefore.not_isOperand, Or.inl rfl, List.forall_mem_nil _⟩, hafter.not_isOperand⟩

theorem IsPath.exists_phrase (h : IsPath t) :
    ∃ absolute parts, t = .phrase (.path absolute) parts := by
  cases h with
  | relative => exact ⟨_, _, rfl⟩
  | absolute => exact ⟨_, _, rfl⟩
  | root => exact ⟨_, _, rfl⟩

end

/-!
# Nesting

Predicates, groups, calls and negations enclose expressions.  A call counts
even if it has no arguments.
-/

end Token

/-- Whether the phrase is one more expression around its parts. -/
def Phrase.encloses : Phrase → Bool
  | .predicate | .negation | .call | .group => true
  | _ => false

namespace Token

mutual

/-- How many phrases that enclose expressions stand inside one another. -/
def nesting : Token → Nat
  | .leaf _ _ => 0
  | .phrase kind parts => (if kind.encloses then 1 else 0) + nestingAll parts

def nestingAll : List Token → Nat
  | [] => 0
  | t :: ts => max (nesting t) (nestingAll ts)

end

theorem nestingAll_append (xs ys : List Token) :
    nestingAll (xs ++ ys) = max (nestingAll xs) (nestingAll ys) := by
  induction xs with
  | nil => exact (Nat.zero_max _).symm
  | cons x xs ih => rw [List.cons_append, nestingAll, nestingAll, ih, Nat.max_assoc]

theorem IsGap.nestingAll_eq {ts : List Token} (h : IsGap ts) : nestingAll ts = 0 := by
  cases h with
  | none => rfl
  | blank => rfl

theorem IsHeading.nestingAll_eq {ts : List Token} (h : IsHeading ts) : nestingAll ts = 0 := by
  have htest {t : Token} (h : IsNodeTest t) : t.nesting = 0 := by
    cases h with
    | wildcard => rfl
    | name => rfl
  cases h with
  | plain h => rw [nestingAll, htest h]; rfl
  | marked h => rw [nestingAll, nestingAll, htest h]; rfl
  | alone hmark => rfl

theorem nestingAll_append_le {xs ys : List Token} {n : Nat} :
    nestingAll (xs ++ ys) ≤ n ↔ nestingAll xs ≤ n ∧ nestingAll ys ≤ n := by
  rw [nestingAll_append, Nat.max_le]

theorem nestingAll_flatten_le {found : List (List Token)} {n : Nat} :
    nestingAll found.flatten ≤ n ↔ ∀ ts ∈ found, nestingAll ts ≤ n := by
  induction found with
  | nil => simp [nestingAll]
  | cons ts found ih => rw [List.flatten_cons, nestingAll_append_le, ih, List.forall_mem_cons]

theorem nesting_phrase {kind : Phrase} {parts : List Token} (hkind : kind.encloses = false) :
    (phrase kind parts).nesting = nestingAll parts := by
  rw [nesting, hkind]
  exact Nat.zero_add _

theorem nestingAll_singleton (t : Token) : nestingAll [t] = t.nesting :=
  Nat.max_zero _

section

variable {before after : List Token}

theorem nesting_binary {op : Operator} {lexeme : Lexeme} {sign : String} {left right : Token}
    (hbefore : IsGap before) (hafter : IsGap after) :
    (phrase (.binary op) (left :: (before ++ leaf lexeme sign :: after ++ [right]))).nesting =
      max left.nesting right.nesting := by
  simp [nesting, nestingAll, nestingAll_append, Phrase.encloses, hbefore.nestingAll_eq,
    hafter.nestingAll_eq]

theorem nesting_negation {lexeme : Lexeme} {sign : String} {operand : Token}
    (hbefore : IsGap before) :
    (phrase .negation (leaf lexeme sign :: before ++ [operand])).nesting = 1 + operand.nesting := by
  simp [nesting, nestingAll, nestingAll_append, Phrase.encloses, hbefore.nestingAll_eq]

theorem nesting_enclosed {kind : Phrase} {l r : Lexeme} {opening closing : String} {inner : Token}
    (hkind : kind.encloses = true) (hbefore : IsGap before) (hafter : IsGap after) :
    (phrase kind (leaf l opening :: before ++ inner :: after ++ [leaf r closing])).nesting =
      1 + inner.nesting := by
  simp [nesting, nestingAll, nestingAll_append, hkind, hbefore.nestingAll_eq,
    hafter.nestingAll_eq]

theorem nesting_call {n l r : Lexeme} {function opening closing : String} {inner : List Token}
    (hbefore : IsGap before) (hafter : IsGap after) :
    (phrase .call (leaf n function :: before ++ leaf l opening :: after ++ inner ++
      [leaf r closing])).nesting = 1 + nestingAll inner := by
  simp [nesting, nestingAll, nestingAll_append, Phrase.encloses, hbefore.nestingAll_eq,
    hafter.nestingAll_eq]

theorem nesting_bareCall {n l r : Lexeme} {function opening closing : String}
    (hbefore : IsGap before) (hafter : IsGap after) :
    (phrase .call (leaf n function :: before ++ leaf l opening :: after ++
      [leaf r closing])).nesting = 1 := by
  simp [nesting, nestingAll, nestingAll_append, Phrase.encloses, hbefore.nestingAll_eq,
    hafter.nestingAll_eq]

theorem nestingAll_furtherArguments {more : List FurtherArgument} {n : Nat}
    (hgaps : ∀ x ∈ more, IsGap x.before ∧ IsGap x.after) :
    nestingAll (more.flatMap FurtherArgument.parts) ≤ n ↔ ∀ x ∈ more, x.value.nesting ≤ n := by
  induction more with
  | nil => simp [nestingAll]
  | cons x more ih =>
      have hx : nestingAll x.parts = x.value.nesting := by
        have hgap := hgaps x List.mem_cons_self
        simp [FurtherArgument.parts, nesting, nestingAll, nestingAll_append,
          hgap.1.nestingAll_eq, hgap.2.nestingAll_eq]
      rw [List.flatMap_cons, nestingAll_append, hx, Nat.max_le,
        ih fun y hy => hgaps y (List.mem_cons_of_mem x hy), List.forall_mem_cons]

theorem nestingAll_arguments {first : Token} {more : List FurtherArgument} {trailing : List Token}
    {n : Nat} (hgaps : ∀ x ∈ more, IsGap x.before ∧ IsGap x.after) (htrailing : IsGap trailing) :
    nestingAll (first :: more.flatMap FurtherArgument.parts ++ trailing) ≤ n ↔
      first.nesting ≤ n ∧ ∀ x ∈ more, x.value.nesting ≤ n := by
  rw [nestingAll_append, htrailing.nestingAll_eq, Nat.max_zero, nestingAll, Nat.max_le,
    nestingAll_furtherArguments hgaps]

end

/-!
# Calls without arguments

Room is asked for before it is known whether a call has arguments, and so a
call counts as one expression around others even if there is nothing between
its brackets.
-/

def isBareCall : Phrase → List Token → Bool
  | .call, parts => parts.all isLeaf && decide (parts.countP isOperand ≤ 1)
  | _, _ => false

mutual

/-- How many expressions stand inside one another, with nothing counted for a call that has no
arguments. -/
def levels : Token → Nat
  | .leaf _ _ => 0
  | .phrase kind parts =>
      (if kind.encloses && !isBareCall kind parts then 1 else 0) + levelsAll parts

def levelsAll : List Token → Nat
  | [] => 0
  | t :: ts => max (levels t) (levelsAll ts)

end

theorem nestingAll_of_leaves {ts : List Token} (h : ts.all isLeaf = true) : nestingAll ts = 0 := by
  induction ts with
  | nil => rfl
  | cons t ts ih =>
      rcases Bool.and_eq_true_iff.mp h with ⟨ht, hts⟩
      cases t with
      | leaf lexeme text =>
          rw [nestingAll, nesting, ih hts]
          rfl
      | phrase kind parts => cases ht

theorem nesting_of_bareCall {kind : Phrase} {parts : List Token}
    (h : isBareCall kind parts = true) : (phrase kind parts).nesting = 1 := by
  cases kind with
  | call =>
      rw [nesting, nestingAll_of_leaves (Bool.and_eq_true_iff.mp h).1]
      rfl
  | _ => cases h

mutual

/-- Room for one more expression is enough for all calls without arguments, since they have nothing
inside them. -/
theorem levels_le_nesting : ∀ t : Token, t.levels ≤ t.nesting ∧ t.nesting ≤ t.levels + 1
  | .leaf _ _ => ⟨Nat.le_refl 0, Nat.zero_le _⟩
  | .phrase kind parts => by
      have hparts := levelsAll_le_nestingAll parts
      cases hbare : isBareCall kind parts with
      | false =>
          rw [levels, nesting, hbare, Bool.not_false, Bool.and_true]
          omega
      | true =>
          have hone := nesting_of_bareCall hbare
          rw [levels, hbare, Bool.not_true, Bool.and_false, hone]
          rw [nesting] at hone
          cases kind with
          | call =>
              rw [nestingAll_of_leaves (Bool.and_eq_true_iff.mp hbare).1] at hparts
              simp
              omega
          | _ => cases hbare

theorem levelsAll_le_nestingAll :
    ∀ ts : List Token, levelsAll ts ≤ nestingAll ts ∧ nestingAll ts ≤ levelsAll ts + 1
  | [] => ⟨Nat.le_refl 0, Nat.zero_le _⟩
  | t :: ts => by
      have ht := levels_le_nesting t
      have hts := levelsAll_le_nestingAll ts
      rw [levelsAll, nestingAll]
      omega

end

theorem levelsAll_append (xs ys : List Token) :
    levelsAll (xs ++ ys) = max (levelsAll xs) (levelsAll ys) := by
  induction xs with
  | nil => exact (Nat.zero_max _).symm
  | cons x xs ih => rw [List.cons_append, levelsAll, levelsAll, ih, Nat.max_assoc]

theorem levels_phrase {kind : Phrase} {parts : List Token} (hbare : isBareCall kind parts = false)
    (hparts : levelsAll parts = nestingAll parts) :
    (phrase kind parts).levels = (phrase kind parts).nesting := by
  rw [levels, nesting, hbare, hparts, Bool.not_false, Bool.and_true]

theorem isBareCall_of_operand {kind : Phrase} {function t : Token} {parts : List Token}
    (hfunction : function.isOperand = true) (hmem : t ∈ parts) (ht : t.isOperand = true) :
    isBareCall kind (function :: parts) = false := by
  have hpos : 0 < parts.countP isOperand := List.countP_pos_iff.mpr ⟨t, hmem, ht⟩
  have hmany : ¬ (function :: parts).countP isOperand ≤ 1 := by
    rw [List.countP_cons_of_pos hfunction]
    omega
  cases kind with
  | call => rw [isBareCall, decide_eq_false hmany, Bool.and_false]
  | _ => rfl

/-!
# Covering a text

Tokens cover a text up to a rest when they are what stands before the rest and
their leaves fit.
-/

def Covers (arithmetic : Arithmetic) (t : Token) (input rest : List Char) : Prop :=
  input = t.chars ++ rest ∧ Fits arithmetic t.leaves rest

def CoverAll (arithmetic : Arithmetic) (ts : List Token) (input rest : List Char) : Prop :=
  input = charsAll ts ++ rest ∧ Fits arithmetic (leavesAll ts) rest

section

variable {arithmetic : Arithmetic} {input middle rest : List Char} {t : Token} {xs ys : List Token}

theorem covers_phrase {kind : Phrase} :
    (phrase kind xs).Covers arithmetic input rest ↔ CoverAll arithmetic xs input rest := by
  rw [Covers, CoverAll, chars, leaves]

theorem covers_leaf {lexeme : Lexeme} {text : String} :
    (leaf lexeme text).Covers arithmetic input rest ↔
      input = text.toList ++ rest ∧ lexeme.Spells arithmetic text.toList ∧
        ∀ c ∈ rest.head?, ¬ lexeme.Extends text.toList c := by
  rw [Covers, chars, leaves]
  simp [Fits, leafChars]

theorem coverAll_nil : CoverAll arithmetic [] input rest ↔ input = rest := by
  rw [CoverAll, charsAll, leavesAll]
  simp [Fits]

theorem coverAll_append :
    CoverAll arithmetic (xs ++ ys) input rest ↔
      ∃ middle, CoverAll arithmetic xs input middle ∧ CoverAll arithmetic ys middle rest := by
  simp only [CoverAll, charsAll_append, leavesAll_append, fits_append, leafChars_leavesAll,
    List.append_assoc]
  constructor
  · intro h
    exact ⟨charsAll ys ++ rest, ⟨h.1, h.2.1⟩, rfl, h.2.2⟩
  · intro h
    rcases h with ⟨middle, ⟨hinput, hxs⟩, rfl, hys⟩
    exact ⟨hinput, hxs, hys⟩

theorem coverAll_cons :
    CoverAll arithmetic (t :: ys) input rest ↔
      ∃ middle, t.Covers arithmetic input middle ∧ CoverAll arithmetic ys middle rest := by
  simp only [Covers, CoverAll, charsAll, leavesAll, fits_append, leafChars_leavesAll,
    List.append_assoc]
  constructor
  · intro h
    exact ⟨charsAll ys ++ rest, ⟨h.1, h.2.1⟩, rfl, h.2.2⟩
  · intro h
    rcases h with ⟨middle, ⟨hinput, ht⟩, rfl, hys⟩
    exact ⟨hinput, ht, hys⟩

theorem coverAll_singleton :
    CoverAll arithmetic [t] input rest ↔ t.Covers arithmetic input rest := by
  rw [coverAll_cons]
  simp only [coverAll_nil, exists_eq_right]

theorem Covers.cons (ht : t.Covers arithmetic input middle)
    (hys : CoverAll arithmetic ys middle rest) : CoverAll arithmetic (t :: ys) input rest :=
  coverAll_cons.mpr ⟨middle, ht, hys⟩

theorem Covers.single (ht : t.Covers arithmetic input rest) :
    CoverAll arithmetic [t] input rest :=
  coverAll_singleton.mpr ht

theorem CoverAll.append (hxs : CoverAll arithmetic xs input middle)
    (hys : CoverAll arithmetic ys middle rest) : CoverAll arithmetic (xs ++ ys) input rest :=
  coverAll_append.mpr ⟨middle, hxs, hys⟩

theorem CoverAll.length_lt (h : CoverAll arithmetic xs input rest) (hne : leavesAll xs ≠ []) :
    rest.length < input.length := by
  rcases h with ⟨rfl, hfits⟩
  have hleaves := hfits.length_le
  rw [leafChars_leavesAll] at hleaves
  have hpos := List.length_pos_iff.mpr hne
  rw [List.length_append]
  omega

end

end Token
end TreeQuery
