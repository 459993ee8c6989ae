import TreeQuery.Proofs.Parser.Leaves

/-!
# What the grammar reads is well formed

Whatever a rule reads has the form that the rule stands for, is not nested
deeper than the rule has room for and covers exactly the characters that were
taken.  The expressions inside one another are read with ever less room, and
the proof is by induction on it.
-/

namespace TreeQuery
namespace Grammar

open TreeQuery.Parser Token

/-!
# Levels of operators
-/

def choicesAt (rank : Nat) : List Operator :=
  levels.reverse.getD rank []

def tier (operand : Parser Token) : Nat → Parser Token
  | 0 => operand
  | rank + 1 => binaryLevel (choicesAt rank) (tier operand rank)

theorem mem_choicesAt_iff {op : Operator} {rank : Nat} :
    op ∈ choicesAt rank ↔ op.strength + rank = 5 := by
  match rank with
  | 0 | 1 | 2 | 3 | 4 => cases op <;> decide
  | rank + 5 =>
      have hnone : choicesAt (rank + 5) = [] := rfl
      have hpos : 0 < op.strength := by cases op <;> decide
      rw [hnone]
      constructor
      · intro h
        cases h
      · intro h
        omega

def deeper (arithmetic : Arithmetic) : Nat → Parser Token
  | 0 => tooDeep
  | room + 1 => unary arithmetic room

theorem unary_eq (arithmetic : Arithmetic) (room : Nat) :
    unary arithmetic room =
      unaryOver arithmetic (deeper arithmetic room) (expression arithmetic room) := by
  cases room with
  | zero => rfl
  | succ room => rfl

/-!
# Expressions
-/

/-- Whatever the rule reads is of the given form and covers what was taken. -/
def Sound (arithmetic : Arithmetic) (p : Parser Token) (form : Token → Prop) : Prop :=
  ∀ input t rest, Reads p input t rest → form t ∧ t.Covers arithmetic input rest

variable {arithmetic : Arithmetic} {p : Parser Token} {form : Token → Prop}
  {input rest : List Char} {t : Token}

theorem sound_tooDeep : Sound arithmetic tooDeep form := by
  intro input t rest h
  cases h

theorem sound_enclosed {kind : Phrase} {opening closing : Symbol} {first last : Production}
    (hp : Sound arithmetic p form) (hopening : opening.isClosed = true)
    (hclosing : closing.isClosed = true)
    (h : Reads (enclosed kind (symbol opening first) (symbol closing last) p) input t rest) :
    t.Covers arithmetic input rest ∧ ∃ before inner after left right,
      IsGap before ∧ form inner ∧ IsGap after ∧
      t = .phrase kind (.leaf (.symbol opening) left :: before ++ inner :: after ++
        [.leaf (.symbol closing) right]) := by
  simp only [enclosed, reads_bind, reads_pure] at h
  rcases h with ⟨_, _, hleft, before, _, hbefore, inner, _, hinner, after, _, hafter, _, _, hright,
    rfl, rfl⟩
  rcases (reads_symbol arithmetic hopening).mp hleft with ⟨⟨left, rfl⟩, hleft⟩
  rcases (reads_blanks arithmetic).mp hbefore with ⟨hgap, hbefore, _⟩
  rcases hp _ _ _ hinner with ⟨hform, hinner⟩
  rcases (reads_blanks arithmetic).mp hafter with ⟨hgap', hafter, _⟩
  rcases (reads_symbol arithmetic hclosing).mp hright with ⟨⟨right, rfl⟩, hright⟩
  refine ⟨covers_phrase.mpr ?_, before, inner, after, left, right, hgap, hform, hgap', rfl⟩
  exact ((hleft.cons hbefore).append (hinner.cons hafter)).append hright.single

theorem sound_continuation {choices : List Operator} {op : Operator} {parts : List Token}
    (hp : Sound arithmetic p form) (h : Reads (continuation p choices) input (op, parts) rest) :
    op ∈ choices ∧ CoverAll arithmetic parts input rest ∧ ∃ before sign after right,
      IsGap before ∧ IsGap after ∧ form right ∧
      parts = before ++ .leaf (.symbol (.operator op)) sign :: after ++ [right] := by
  simp only [continuation, reads_bind, reads_pure] at h
  rcases h with ⟨before, _, hbefore, ⟨_, _⟩, _, hsign, after, _, hafter, right, _, hright, hparts,
    rfl⟩
  cases hparts
  rcases (reads_blanks arithmetic).mp hbefore with ⟨hgap, hbefore, _⟩
  rcases covers_of_reads_operator arithmetic hsign with ⟨hop, ⟨sign, rfl⟩, hsign⟩
  rcases (reads_blanks arithmetic).mp hafter with ⟨hgap', hafter, _⟩
  rcases hp _ _ _ hright with ⟨hform, hright⟩
  refine ⟨hop, ?_, before, sign, after, right, hgap, hgap', hform, rfl⟩
  exact (hbefore.append (hsign.cons hafter)).append hright.single

def Fitting (room rank : Nat) (t : Token) : Prop :=
  IsExpression rank t ∧ t.nesting ≤ room

/-- Joins a row of continuations to an expression, from the left. -/
def joined (left : Token) (more : List (Operator × List Token)) : Token :=
  more.foldl (fun left (op, parts) => .phrase (.binary op) (left :: parts)) left

/-- The expression on the left grows with every continuation. -/
theorem sound_joined {room rank : Nat} (hp : Sound arithmetic p (Fitting room rank))
    {middle : List Char} {more : List (Operator × List Token)}
    (h : Reads (many (continuation p (choicesAt rank))) middle more rest) :
    ∀ left, Fitting room (rank + 1) left → left.Covers arithmetic input middle →
      Fitting room (rank + 1) (joined left more) ∧
        (joined left more).Covers arithmetic input rest := by
  refine Reads.many_induction (motive := fun middle more rest => ∀ left,
    Fitting room (rank + 1) left → left.Covers arithmetic input middle →
      Fitting room (rank + 1) (joined left more) ∧
        (joined left more).Covers arithmetic input rest) ?_ ?_ h
  · intro middle left hleft hcovers
    exact ⟨hleft, hcovers⟩
  · intro middle x next more rest hx ih left hleft hcovers
    rcases x with ⟨op, parts⟩
    rcases sound_continuation hp hx with
      ⟨hop, hparts, before, sign, after, right, hbefore, hafter, hright, rfl⟩
    apply ih
    · refine ⟨.binary (mem_choicesAt_iff.mp hop) hleft.1 hbefore hafter hright.1, ?_⟩
      rw [nesting_binary hbefore hafter]
      exact Nat.max_le.mpr ⟨hleft.2, hright.2⟩
    · exact covers_phrase.mpr (hcovers.cons hparts)

theorem sound_binaryLevel {room rank : Nat} (hp : Sound arithmetic p (Fitting room rank)) :
    Sound arithmetic (binaryLevel (choicesAt rank) p) (Fitting room (rank + 1)) := by
  intro input t rest h
  simp only [binaryLevel, reads_bind, reads_pure] at h
  rcases h with ⟨first, middle, hfirst, more, _, hmany, rfl, rfl⟩
  rcases hp _ _ _ hfirst with ⟨⟨hform, hnesting⟩, hfirst⟩
  exact sound_joined hp hmany first ⟨hform.tighter, hnesting⟩ hfirst

theorem sound_tier {room : Nat} (hp : Sound arithmetic p (Fitting room 0)) (rank : Nat) :
    Sound arithmetic (tier p rank) (Fitting room rank) := by
  induction rank with
  | zero => exact hp
  | succ rank ih => exact sound_binaryLevel ih

/-!
# Operands
-/

def Inside (room rank : Nat) (t : Token) : Prop :=
  IsExpression rank t ∧ t.nesting < room

theorem Inside.nesting_le {room rank : Nat} (h : Inside room rank t) : 1 + t.nesting ≤ room := by
  rw [Nat.add_comm]
  exact h.2

theorem Sound.inside {room rank : Nat} (hp : Sound arithmetic p (Fitting room rank)) :
    Sound arithmetic p (Inside (room + 1) rank) := by
  intro input t rest h
  rcases hp _ _ _ h with ⟨hform, hcovers⟩
  exact ⟨⟨hform.1, Nat.lt_succ_of_le hform.2⟩, hcovers⟩

theorem sound_attribution : Sound arithmetic attribution (Fitting 0 0) := by
  intro input t rest h
  simp only [attribution, reads_bind, reads_pure] at h
  rcases h with ⟨_, _, hsign, _, _, hkey, rfl, rfl⟩
  rcases (reads_symbol arithmetic rfl).mp hsign with ⟨⟨sign, rfl⟩, hsign⟩
  rcases (reads_name arithmetic).mp hkey with ⟨⟨n, key, rfl⟩, hkey⟩
  exact ⟨⟨.attribution, Nat.le_refl 0⟩, covers_phrase.mpr (hsign.cons hkey.single)⟩

theorem sound_nextArgument {parts : List Token} (hp : Sound arithmetic p form)
    (h : Reads (nextArgument p) input parts rest) :
    CoverAll arithmetic parts input rest ∧ ∃ x : FurtherArgument,
      parts = x.parts ∧ (IsGap x.before ∧ IsGap x.after) ∧ form x.value := by
  simp only [nextArgument, reads_bind, reads_pure] at h
  rcases h with ⟨before, _, hbefore, _, _, hcomma, after, _, hafter, value, _, hvalue, rfl, rfl⟩
  rcases (reads_blanks arithmetic).mp hbefore with ⟨hgap, hbefore, _⟩
  rcases (reads_symbol arithmetic rfl).mp hcomma with ⟨⟨comma, rfl⟩, hcomma⟩
  rcases (reads_blanks arithmetic).mp hafter with ⟨hgap', hafter, _⟩
  rcases hp _ _ _ hvalue with ⟨hform, hvalue⟩
  exact ⟨(hbefore.append (hcomma.cons hafter)).append hvalue.single,
    ⟨before, comma, after, value⟩, rfl, ⟨hgap, hgap'⟩, hform⟩

theorem sound_furtherArguments {middle : List Char} {found : List (List Token)}
    (hp : Sound arithmetic p form) (h : Reads (many (nextArgument p)) middle found rest) :
    CoverAll arithmetic found.flatten middle rest ∧ ∃ more : List FurtherArgument,
      found.flatten = more.flatMap FurtherArgument.parts ∧
      (∀ x ∈ more, IsGap x.before ∧ IsGap x.after) ∧ ∀ x ∈ more, form x.value := by
  refine Reads.many_induction (motive := fun middle found rest =>
    CoverAll arithmetic found.flatten middle rest ∧ ∃ more : List FurtherArgument,
      found.flatten = more.flatMap FurtherArgument.parts ∧
      (∀ x ∈ more, IsGap x.before ∧ IsGap x.after) ∧ ∀ x ∈ more, form x.value) ?_ ?_ h
  · intro middle
    exact ⟨coverAll_nil.mpr rfl, [], rfl, by simp, by simp⟩
  · intro middle parts next found rest hparts ih
    rcases ih with ⟨hfound, more, hmore, hgaps, hforms⟩
    rcases sound_nextArgument hp hparts with ⟨hcovers, x, rfl, hgap, hform⟩
    refine ⟨hcovers.append hfound, x :: more, ?_, ?_, ?_⟩
    · rw [List.flatten_cons, hmore]
      rfl
    · exact List.forall_mem_cons.mpr ⟨hgap, hgaps⟩
    · exact List.forall_mem_cons.mpr ⟨hform, hforms⟩

theorem sound_arguments {ts : List Token} (hp : Sound arithmetic p form)
    (h : Reads (arguments p) input ts rest) :
    CoverAll arithmetic ts input rest ∧ ∃ (first : Token) (more : List FurtherArgument)
      (trailing : List Token), form first ∧
      (∀ x ∈ more, IsGap x.before ∧ IsGap x.after) ∧ (∀ x ∈ more, form x.value) ∧
      IsGap trailing ∧ ts = first :: more.flatMap FurtherArgument.parts ++ trailing := by
  simp only [arguments, reads_bind, reads_pure] at h
  rcases h with ⟨first, _, hfirst, found, _, hmany, trailing, _, htrailing, rfl, rfl⟩
  rcases hp _ _ _ hfirst with ⟨hform, hfirst⟩
  rcases sound_furtherArguments hp hmany with ⟨hfound, more, hmore, hgaps, hforms⟩
  rcases (reads_blanks arithmetic).mp htrailing with ⟨hgap, htrailing, _⟩
  refine ⟨(hfirst.cons hfound).append htrailing, first, more, trailing, hform, hgaps, hforms, hgap,
    ?_⟩
  rw [hmore]

theorem room_of_misses_arguments {room : Nat} (hp : Sound arithmetic p (Inside room 5))
    (hroom : ∀ input, Misses p input → 0 < room) (h : Misses (arguments p) input) : 0 < room := by
  -- Where no arguments can be read there was still room for one.
  rcases misses_bind.mp h with hmiss | ⟨first, middle, hfirst, _⟩
  · exact hroom input hmiss
  · exact Nat.zero_lt_of_lt (hp _ _ _ hfirst).1.2

theorem sound_call {room : Nat} (hp : Sound arithmetic p (Inside room 5))
    (hroom : ∀ input, Misses p input → 0 < room) :
    Sound arithmetic (call p) (Fitting room 0) := by
  intro input t rest h
  simp only [call, reads_bind, reads_pure] at h
  rcases h with ⟨_, _, hfunction, before, _, hbefore, _, _, hopening, after, _, hafter, inner, _,
    hinner, _, _, hclosing, rfl, rfl⟩
  rcases (reads_name arithmetic).mp hfunction with ⟨⟨n, function, rfl⟩, hfunction⟩
  rcases (reads_blanks arithmetic).mp hbefore with ⟨hgap, hbefore, _⟩
  rcases (reads_symbol arithmetic rfl).mp hopening with ⟨⟨opening, rfl⟩, hopening⟩
  rcases (reads_blanks arithmetic).mp hafter with ⟨hgap', hafter, _⟩
  rcases (reads_symbol arithmetic rfl).mp hclosing with ⟨⟨closing, rfl⟩, hclosing⟩
  have hhead := (hfunction.cons hbefore).append (hopening.cons hafter)
  rw [reads_option] at hinner
  cases inner with
  | none =>
      rcases hinner with ⟨hmiss, rfl⟩
      rw [Option.getD_none, List.append_nil]
      refine ⟨⟨.bareCall hgap hgap', ?_⟩, covers_phrase.mpr (hhead.append hclosing.single)⟩
      rw [nesting_bareCall hgap hgap']
      exact room_of_misses_arguments hp hroom hmiss
  | some ts =>
      rcases sound_arguments hp hinner with
        ⟨hcovers, first, more, trailing, hfirst, hgaps, hforms, htrailing, rfl⟩
      refine ⟨⟨?_, ?_⟩, covers_phrase.mpr ((hhead.append hcovers).append hclosing.single)⟩
      · exact .call hgap hgap' hfirst.1 hgaps (fun x hx => (hforms x hx).1) htrailing
      · rw [nesting_call hgap hgap', Nat.add_comm, Option.getD_some]
        cases room with
        | zero => exact absurd hfirst.2 (Nat.not_lt_zero _)
        | succ room =>
            refine Nat.add_le_add_right ((nestingAll_arguments hgaps htrailing).mpr ?_) 1
            exact ⟨Nat.le_of_lt_succ hfirst.2, fun x hx => Nat.le_of_lt_succ (hforms x hx).2⟩

theorem sound_primary {room : Nat} (hp : Sound arithmetic p (Inside room 5))
    (hroom : ∀ input, Misses p input → 0 < room) :
    Sound arithmetic (primary arithmetic p) (Fitting room 0) := by
  intro input t rest h
  simp only [primary, reads_orElse] at h
  rcases h with h | ⟨_, h | ⟨_, h | ⟨_, h | ⟨_, h⟩⟩⟩⟩
  · rcases reads_number.mp h with ⟨⟨value, text, rfl⟩, hcovers⟩
    exact ⟨⟨.number, Nat.zero_le room⟩, hcovers⟩
  · rcases (reads_quotedText arithmetic).mp h with ⟨⟨value, text, rfl⟩, hcovers⟩
    exact ⟨⟨.text, Nat.zero_le room⟩, hcovers⟩
  · rcases sound_attribution _ _ _ h with ⟨hform, hcovers⟩
    exact ⟨⟨hform.1, hform.2.trans (Nat.zero_le room)⟩, hcovers⟩
  · exact sound_call hp hroom input t rest h
  · rcases sound_enclosed hp rfl rfl h with
      ⟨hcovers, before, inner, after, left, right, hbefore, hinner, hafter, rfl⟩
    refine ⟨⟨.group hbefore hinner.1 hafter, ?_⟩, hcovers⟩
    rw [nesting_enclosed rfl hbefore hafter]
    exact hinner.nesting_le

theorem sound_unaryOver {room : Nat} {deeper : Parser Token}
    (hdeeper : Sound arithmetic deeper (Inside room 0)) (hp : Sound arithmetic p (Inside room 5))
    (hroom : ∀ input, Misses p input → 0 < room) :
    Sound arithmetic (unaryOver arithmetic deeper p) (Fitting room 0) := by
  intro input t rest h
  unfold Reads unaryOver at h
  split at h
  · rename_i sign left seen hsign
    have hsign : Reads (symbol (.operator .subtract) .minus) input sign left := by
      unfold Reads
      rw [hsign]
    have hinner : Reads (do
        let space ← blanks
        let operand ← deeper
        return .phrase .negation (sign :: space ++ [operand])) left t rest := h
    simp only [reads_bind, reads_pure] at hinner
    rcases hinner with ⟨space, _, hspace, operand, _, hoperand, rfl, rfl⟩
    rcases (reads_symbol arithmetic rfl).mp hsign with ⟨⟨text, rfl⟩, hsign⟩
    rcases (reads_blanks arithmetic).mp hspace with ⟨hgap, hspace, _⟩
    rcases hdeeper _ _ _ hoperand with ⟨hform, hoperand⟩
    refine ⟨⟨.negation hgap hform.1, ?_⟩,
      covers_phrase.mpr ((hsign.cons hspace).append hoperand.single)⟩
    rw [nesting_negation hgap]
    exact hform.nesting_le
  · exact sound_primary hp hroom input t rest h

theorem sound_unary (room : Nat) : Sound arithmetic (unary arithmetic room) (Fitting room 0) := by
  induction room with
  | zero =>
      refine sound_unaryOver sound_tooDeep sound_tooDeep ?_
      intro input h
      cases h
  | succ room ih =>
      have hoperand : Sound arithmetic (unary arithmetic room) (Inside (room + 1) 0) := ih.inside
      exact sound_unaryOver hoperand (sound_tier ih 5).inside fun _ _ => Nat.succ_pos room

theorem sound_expression (room : Nat) :
    Sound arithmetic (expression arithmetic room) (Inside room 5) := by
  cases room with
  | zero => exact sound_tooDeep
  | succ room => exact (sound_tier (sound_unary room) 5).inside

/-!
# Paths
-/

def SoundAll (arithmetic : Arithmetic) (p : Parser (List Token)) (form : List Token → Prop) :
    Prop :=
  ∀ input ts rest, Reads p input ts rest →
    form ts ∧ nestingAll ts ≤ maxNesting ∧ CoverAll arithmetic ts input rest

theorem sound_many {p : Parser (List Token)} {form : List Token → Prop}
    {found : List (List Token)} (hp : SoundAll arithmetic p form)
    (h : Reads (many p) input found rest) :
    (∀ ts ∈ found, form ts) ∧ nestingAll found.flatten ≤ maxNesting ∧
      CoverAll arithmetic found.flatten input rest := by
  refine Reads.many_induction (motive := fun input found rest =>
    (∀ ts ∈ found, form ts) ∧ nestingAll found.flatten ≤ maxNesting ∧
      CoverAll arithmetic found.flatten input rest) ?_ ?_ h
  · intro input
    refine ⟨?_, Nat.zero_le _, coverAll_nil.mpr rfl⟩
    intro ts hts
    cases hts
  · intro input ts middle found rest hts ih
    rcases hp _ _ _ hts with ⟨hform, hnesting, hcovers⟩
    rcases ih with ⟨hforms, hnestings, hcoverss⟩
    rw [List.flatten_cons, nestingAll_append_le]
    exact ⟨List.forall_mem_cons.mpr ⟨hform, hforms⟩, ⟨hnesting, hnestings⟩,
      hcovers.append hcoverss⟩

theorem sound_predicate : SoundAll arithmetic (predicate arithmetic) IsSpacedPredicate := by
  intro input ts rest h
  simp only [predicate, reads_bind, reads_pure] at h
  rcases h with ⟨space, _, hspace, body, _, hbody, rfl, rfl⟩
  rcases (reads_blanks arithmetic).mp hspace with ⟨hgap, hspace, _⟩
  rcases sound_enclosed (sound_expression maxNesting) rfl rfl hbody with
    ⟨hbody, before, inner, after, left, right, hbefore, hinner, hafter, rfl⟩
  refine ⟨.spaced hgap (.enclosed hbefore hinner.1 hafter), ?_, hspace.append hbody.single⟩
  rw [nestingAll_append, hgap.nestingAll_eq, Nat.zero_max, nestingAll_singleton,
    nesting_enclosed rfl hbefore hafter]
  exact hinner.nesting_le

variable (arithmetic) in
theorem sound_heading {mark : Option (AxisMark × Token)} {test : List Token} {middle : List Char}
    (hmark : Reads (option axisMark) input mark middle)
    (htest : Reads (testAfter mark) middle test rest) :
    IsHeading ((mark.map (·.2)).toList ++ test) ∧
      CoverAll arithmetic ((mark.map (·.2)).toList ++ test) input rest := by
  rw [reads_option] at hmark
  cases mark with
  | none =>
      rcases hmark with ⟨_, rfl⟩
      simp only [testAfter, reads_bind, reads_pure] at htest
      rcases htest with ⟨t, _, ht, rfl, rfl⟩
      rcases (reads_nodeTest arithmetic).mp ht with ⟨hform, hcovers⟩
      exact ⟨.plain hform, hcovers.single⟩
  | some found =>
      rcases found with ⟨mark, t⟩
      rcases covers_of_reads_axisMark arithmetic hmark with ⟨⟨text, rfl⟩, hmark⟩
      simp only [testAfter] at htest
      split at htest
      · rename_i halone
        simp only [reads_bind, reads_pure] at htest
        rcases htest with ⟨test, _, htest, rfl, rfl⟩
        rw [reads_option] at htest
        cases test with
        | none =>
            rcases htest with ⟨_, rfl⟩
            exact ⟨.alone halone, hmark.single⟩
        | some t =>
            rcases (reads_nodeTest arithmetic).mp htest with ⟨hform, hcovers⟩
            exact ⟨.marked hform, hmark.cons hcovers.single⟩
      · simp only [reads_bind, reads_pure] at htest
        rcases htest with ⟨t, _, ht, rfl, rfl⟩
        rcases (reads_nodeTest arithmetic).mp ht with ⟨hform, hcovers⟩
        exact ⟨.marked hform, hmark.cons hcovers.single⟩

theorem sound_step :
    Sound arithmetic (step arithmetic) fun t => IsStep t ∧ t.nesting ≤ maxNesting := by
  intro input t rest h
  simp only [step, reads_bind, reads_pure] at h
  rcases h with ⟨mark, _, hmark, test, _, htest, predicates, _, hpredicates, rfl, rfl⟩
  rcases sound_heading arithmetic hmark htest with ⟨hheading, hcovers⟩
  rcases sound_many sound_predicate hpredicates with ⟨hforms, hnesting, hcovers'⟩
  refine ⟨⟨.step hheading hforms, ?_⟩, covers_phrase.mpr (hcovers.append hcovers')⟩
  rw [nesting_phrase rfl, nestingAll_append, hheading.nestingAll_eq, Nat.zero_max]
  exact hnesting

theorem mark_of_prefix_doubleSlash :
    ∀ mark ∈ AxisMark.all, mark.spelling.toList <+: ['/', '/'] ∨
      ['/', '/'] <+: mark.spelling.toList → mark = .doubleSlash := by
  decide +kernel

theorem mark_of_doubleSlash {mark : AxisMark} {text : String}
    (h : (Token.leaf (.axis mark) text).Covers arithmetic input rest)
    (hinput : ['/', '/'] <+: input) : mark = .doubleSlash := by
  rcases covers_leaf.mp h with ⟨rfl, hspells, _⟩
  have hspelling : text.toList.map Char.toLower = mark.spelling.toList := hspells
  have hlower := hinput.map Char.toLower
  rw [List.map_append, hspelling] at hlower
  exact mark_of_prefix_doubleSlash mark mark.mem_all
    (List.prefix_or_prefix_of_prefix (List.prefix_append _ _) hlower)

theorem heading_of_doubleSlash {heading : List Token} (h : IsHeading heading)
    (hcovers : CoverAll arithmetic heading input rest) (hinput : ['/', '/'] <+: input) :
    ∃ text more, heading = .leaf (.axis .doubleSlash) text :: more := by
  cases h with
  | plain htest =>
      rw [coverAll_singleton] at hcovers
      have hreads := (reads_nodeTest arithmetic).mpr ⟨htest, hcovers⟩
      refine absurd (misses_nodeTest ?_) hreads.not_misses
      rcases hinput with ⟨left, rfl⟩
      intro c hc
      cases hc
      decide
  | marked htest =>
      rcases coverAll_cons.mp hcovers with ⟨middle, hleaf, _⟩
      rw [mark_of_doubleSlash hleaf hinput]
      exact ⟨_, _, rfl⟩
  | alone halone =>
      rcases coverAll_cons.mp hcovers with ⟨middle, hleaf, _⟩
      rw [mark_of_doubleSlash hleaf hinput]
      exact ⟨_, _, rfl⟩

theorem sound_furtherStep : SoundAll arithmetic (furtherStep arithmetic) IsFurtherStep := by
  intro input ts rest h
  simp only [furtherStep, separatedStep, reads_bind, reads_ahead, reads_pure] at h
  rcases h with ⟨space, middle, hspace, next, _, ⟨double, _, ⟨rfl, rfl⟩, hnext⟩, rfl, rfl⟩
  rcases (reads_blanks arithmetic).mp hspace with ⟨hgap, hspace, _⟩
  split at hnext
  · rename_i hahead
    simp only [reads_bind, reads_pure] at hnext
    rcases hnext with ⟨t, _, ht, rfl, rfl⟩
    rcases sound_step _ _ _ ht with ⟨⟨hstep, hnesting⟩, hcovers⟩
    refine ⟨?_, ?_, hspace.append hcovers.single⟩
    · cases hstep with
      | step hheading hpredicates =>
          rcases coverAll_append.mp (covers_phrase.mp hcovers) with ⟨_, hheadings, _⟩
          rcases heading_of_doubleSlash hheading hheadings (List.isPrefixOf_iff_prefix.mp hahead)
            with ⟨text, more, rfl⟩
          exact .doubled hgap (.step hheading hpredicates)
    · rw [nestingAll_append, hgap.nestingAll_eq, Nat.zero_max, nestingAll_singleton]
      exact hnesting
  · rename_i hahead
    simp only [reads_bind, reads_pure] at hnext
    rcases hnext with ⟨slash, _, hslash, after, _, hafter, t, _, ht, rfl, rfl⟩
    rcases (reads_slash arithmetic).mp ⟨hslash, Bool.eq_false_iff.mpr hahead⟩ with
      ⟨⟨text, rfl⟩, hslash⟩
    rcases (reads_blanks arithmetic).mp hafter with ⟨hgap', hafter, _⟩
    rcases sound_step _ _ _ ht with ⟨⟨hstep, hnesting⟩, hcovers⟩
    refine ⟨.slashed hgap hgap' hstep, ?_,
      hspace.append ((hslash.cons hafter).append hcovers.single)⟩
    rw [nestingAll_append, hgap.nestingAll_eq, Nat.zero_max, nestingAll_append, nestingAll,
      hgap'.nestingAll_eq, nestingAll_singleton, Nat.max_zero]
    exact Nat.max_le.mpr ⟨Nat.zero_le _, hnesting⟩

theorem sound_steps : SoundAll arithmetic (steps arithmetic) AreSteps := by
  intro input ts rest h
  simp only [steps, reads_bind, reads_pure] at h
  rcases h with ⟨first, _, hfirst, more, _, hmore, rfl, rfl⟩
  rcases sound_step _ _ _ hfirst with ⟨⟨hstep, hnesting⟩, hcovers⟩
  rcases sound_many sound_furtherStep hmore with ⟨hforms, hnestings, hcoverss⟩
  exact ⟨.steps hstep hforms, Nat.max_le.mpr ⟨hnesting, hnestings⟩, hcovers.cons hcoverss⟩

variable (arithmetic) in
theorem sound_rootSlash (h : Reads rootSlash input t rest) :
    (∃ text, t = .leaf (.symbol .slash) text) ∧ t.Covers arithmetic input rest := by
  simp only [rootSlash, reads_bind, reads_ahead] at h
  rcases h with ⟨double, _, ⟨rfl, rfl⟩, h⟩
  split at h
  · cases h
  · rename_i hahead
    exact (reads_slash arithmetic).mp ⟨h, Bool.eq_false_iff.mpr hahead⟩

theorem nesting_path {absolute : Bool} {before inner after : List Token} (hbefore : IsGap before)
    (hafter : IsGap after) :
    (phrase (.path absolute) (before ++ inner ++ after)).nesting = nestingAll inner := by
  rw [nesting_phrase rfl, nestingAll_append, nestingAll_append, hbefore.nestingAll_eq,
    hafter.nestingAll_eq, Nat.zero_max, Nat.max_zero]

theorem reads_endOfInput : Reads endOfInput input () rest ↔ input = [] ∧ rest = [] := by
  cases input with
  | nil => simp [Reads, endOfInput, eq_comm]
  | cons c more => simp [Reads, endOfInput, fail]

theorem sound_pathParts {start first last : List Char} {before inner after : List Token}
    {slash : Option Token} (hbefore : Reads blanks input before start)
    (hslash : Reads (option rootSlash) start slash first)
    (hinner : Reads (pathSteps arithmetic slash.isSome) first inner last)
    (hafter : Reads blanks last after rest) :
    IsPath (.phrase (.path slash.isSome) (before ++ slash.toList ++ inner ++ after)) ∧
      (phrase (.path slash.isSome) (before ++ slash.toList ++ inner ++ after)).nesting ≤
        maxNesting ∧
      CoverAll arithmetic (before ++ slash.toList ++ inner ++ after) input rest := by
  rcases (reads_blanks arithmetic).mp hbefore with ⟨hgap, hbefore, _⟩
  rcases (reads_blanks arithmetic).mp hafter with ⟨hgap', hafter, _⟩
  rw [reads_option] at hslash
  cases slash with
  | none =>
      rcases hslash with ⟨_, rfl⟩
      rcases sound_steps _ _ _ hinner with ⟨hsteps, hnesting, hinner⟩
      rw [Option.toList_none, List.append_nil, Option.isSome_none]
      refine ⟨.relative hgap hsteps hgap', ?_,
        (hbefore.append hinner).append hafter⟩
      rw [nesting_path hgap hgap']
      exact hnesting
  | some slash =>
      rcases sound_rootSlash arithmetic hslash with ⟨⟨text, rfl⟩, hslash⟩
      rw [Option.toList_some, Option.isSome_some]
      simp only [Option.isSome_some, pathSteps, if_true, reads_bind, reads_pure] at hinner
      rcases hinner with ⟨found, _, hfound, rfl, rfl⟩
      rw [reads_option] at hfound
      cases found with
      | none =>
          rcases hfound with ⟨_, rfl⟩
          rw [Option.getD_none, List.append_nil]
          refine ⟨.root hgap hgap', ?_,
            (hbefore.append hslash.single).append hafter⟩
          rw [nesting_path hgap hgap']
          exact Nat.zero_le _
      | some inner =>
          simp only [spacedSteps, reads_bind, reads_pure] at hfound
          rcases hfound with ⟨space, _, hspace, inner, _, hinner, rfl, rfl⟩
          rcases (reads_blanks arithmetic).mp hspace with ⟨hgap'', hspace, _⟩
          rcases sound_steps _ _ _ hinner with ⟨hsteps, hnesting, hinner⟩
          refine ⟨.absolute hgap hgap'' hsteps hgap', ?_,
            ((hbefore.append hslash.single).append (hspace.append hinner)).append hafter⟩
          rw [List.append_assoc before, nesting_path hgap hgap', nestingAll_append,
            Option.getD_some, nestingAll_append, hgap''.nestingAll_eq, Nat.zero_max]
          exact Nat.max_le.mpr ⟨Nat.zero_le _, hnesting⟩

theorem sound_path (h : Reads (path arithmetic) input t rest) :
    rest = [] ∧ IsPath t ∧ t.nesting ≤ maxNesting ∧ t.Covers arithmetic input [] := by
  simp only [path, reads_bind, reads_pure] at h
  rcases h with ⟨before, _, hbefore, slash, _, hslash, inner, _, hinner, after, _, hafter, _, _,
    hend, rfl, rfl⟩
  rcases reads_endOfInput.mp hend with ⟨rfl, rfl⟩
  rcases sound_pathParts hbefore hslash hinner hafter with ⟨hpath, hnesting, hcovers⟩
  exact ⟨rfl, hpath, hnesting, covers_phrase.mpr hcovers⟩

end Grammar

namespace Token

variable {arithmetic : Arithmetic} {text : String} {t : Token}

theorem parse_eq_ok_iff :
    parse text arithmetic = .ok t ↔
      ∃ rest, Parser.Reads (Grammar.path arithmetic) text.toList t rest := by
  rcases hpath : Grammar.path arithmetic text.toList with ⟨outcome, frontier⟩
  simp only [parse, Parser.Reads, hpath]
  cases outcome with
  | done found rest => simp [eq_comm]
  | miss => simp
  | halt reason => cases reason <;> simp

theorem wellFormed_of_parse (h : parse text arithmetic = .ok t) :
    WellFormed arithmetic t ∧ t.nesting ≤ Grammar.maxNesting ∧ t.text = text := by
  rcases parse_eq_ok_iff.mp h with ⟨rest, hreads⟩
  rcases Grammar.sound_path hreads with ⟨_, hpath, hnesting, hinput, hfits⟩
  refine ⟨⟨hpath, hfits⟩, hnesting, ?_⟩
  rw [List.append_nil] at hinput
  rw [Token.text, ← hinput, String.ofList_toList]

/-- A token that has been read keeps every character: its leaves from left to right, blanks
included, are not empty and are the slices of the text that begin where the ones before them
end. -/
theorem parse_lossless (h : parse text arithmetic = .ok t) :
    t.text = text ∧ leafChars t.leaves = text.toList ∧
      ∀ before leaf after, t.leaves = before ++ leaf :: after →
        leaf.2 ≠ "" ∧
          (text.toList.drop (leafChars before).length).take leaf.2.toList.length =
            leaf.2.toList := by
  rcases wellFormed_of_parse h with ⟨⟨_, hfits⟩, _, htext⟩
  have hchars : leafChars t.leaves = text.toList := by
    rw [leafChars_leaves, ← htext, Token.text, String.toList_ofList]
  refine ⟨htext, hchars, ?_⟩
  intro before leaf after hleaves
  rw [hleaves] at hfits hchars
  constructor
  · intro hempty
    have hspells := (fits_append.mp hfits).2.1
    rw [hempty] at hspells
    exact hspells.ne_nil rfl
  · rw [← hchars, leafChars_append, List.drop_left]
    exact List.take_left

/-- The blank behind a root slash and the one before a bracket are leaves like all others. -/
theorem parse_lossless_predicate :
    let text := "/ a  [2 ]"
    ∃ t, parse text .standard = .ok t ∧ t.text = text ∧
      t.leaves.map (·.2) = ["/", " ", "a", "  ", "[", "2", " ", "]"] := by
  intro text
  have hleaves : (parse text .standard).toOption.map (fun t => t.leaves.map (·.2)) =
      some ["/", " ", "a", "  ", "[", "2", " ", "]"] := by
    decide +kernel
  cases hparse : parse text .standard with
  | error e =>
      rw [hparse] at hleaves
      cases hleaves
  | ok t =>
      rw [hparse] at hleaves
      exact ⟨t, rfl, (parse_lossless hparse).1, Option.some.inj hleaves⟩

end Token
end TreeQuery
