import TreeQuery.Proofs.Token.Standing

/-!
# The names in a query

A query mentions the names of its steps and the functions that its predicates
call.  Each mention has a place, the number of characters before it, and the
mentions of a query are listed from left to right.
-/

namespace TreeQuery

/-- A name that has to be known before a query can be used. -/
inductive Mention where
  | step (name : String)
  /-- A function that is called in the body of a predicate. -/
  | function (name : String) (body : String)
deriving DecidableEq, Repr

namespace Mention

def name : Mention → String
  | .step name => name
  | .function name _ => name

/-- The name stands at a place of a text.  That of a function stands in the body between two
brackets. -/
def StandsAt (text : List Char) (place : Nat) : Mention → Prop
  | .step name => ∃ before after, text = before ++ name.toList ++ after ∧ place = before.length
  | .function name body => ∃ before left front back right after : List Char,
      text = before ++ '[' :: left ++ body.toList ++ (right ++ ']' :: after) ∧
        (∀ c ∈ left ++ right, Scan.isSpace c = true) ∧
        body.toList = front ++ name.toList ++ back ∧
        place = (before ++ '[' :: left ++ front).length

theorem StandsAt.append {text : List Char} {place : Nat} {m : Mention} (h : m.StandsAt text place)
    (before after : List Char) : m.StandsAt (before ++ text ++ after) (before.length + place) := by
  cases m with
  | step name =>
      rcases h with ⟨front, back, rfl, rfl⟩
      exact ⟨before ++ front, back ++ after, by simp, by simp⟩
  | function name body =>
      rcases h with ⟨outer, left, front, back, right, rest, rfl, hblank, hbody, rfl⟩
      exact ⟨before ++ outer, left, front, back, right, rest ++ after, by simp, hblank, hbody,
        by simp⟩

end Mention

namespace Token

/-!
# Rows
-/

def along {A : Type} (collect : Nat → Token → List A) (place : Nat) : List Token → List A
  | [] => []
  | t :: ts => collect place t ++ along collect (place + t.chars.length) ts

def placed (place : Nat) : List (Lexeme × String) → List (Nat × String)
  | [] => []
  | (_, text) :: leaves => (place, text) :: placed (place + text.toList.length) leaves

section

variable {A : Type} {collect : Nat → Token → List A} {place : Nat} {ts : List Token}
  {leaves : List (Lexeme × String)} {x : Nat × String}

theorem along_append (collect : Nat → Token → List A) (place : Nat) (xs ys : List Token) :
    along collect place (xs ++ ys) =
      along collect place xs ++ along collect (place + (charsAll xs).length) ys := by
  induction xs generalizing place with
  | nil => rfl
  | cons t ts ih =>
      rw [List.cons_append, along, along, ih, charsAll, List.length_append, List.append_assoc,
        Nat.add_assoc]

theorem along_singleton (collect : Nat → Token → List A) (place : Nat) (t : Token) :
    along collect place [t] = collect place t :=
  List.append_nil _

theorem exists_of_mem_along {a : A} (h : a ∈ along collect place ts) :
    ∃ before t after, ts = before ++ t :: after ∧
      a ∈ collect (place + (charsAll before).length) t := by
  induction ts generalizing place with
  | nil => cases h
  | cons t ts ih =>
      rcases List.mem_append.mp h with h | h
      · exact ⟨[], t, ts, rfl, h⟩
      · rcases ih h with ⟨before, t', after, rfl, ha⟩
        refine ⟨t :: before, t', after, rfl, ?_⟩
        rw [charsAll, List.length_append, ← Nat.add_assoc]
        exact ha

theorem placed_append (place : Nat) (xs ys : List (Lexeme × String)) :
    placed place (xs ++ ys) = placed place xs ++ placed (place + (leafChars xs).length) ys := by
  induction xs generalizing place with
  | nil => rfl
  | cons x xs ih =>
      rcases x with ⟨lexeme, text⟩
      have hchars : leafChars ((lexeme, text) :: xs) = text.toList ++ leafChars xs := rfl
      rw [List.cons_append, placed, placed, ih, hchars, List.length_append, List.cons_append,
        Nat.add_assoc]

theorem stands_of_mem_placed (h : x ∈ placed place leaves) :
    ∃ front back, leafChars leaves = front ++ x.2.toList ++ back ∧ x.1 = place + front.length := by
  induction leaves generalizing place with
  | nil => cases h
  | cons leaf leaves ih =>
      rcases leaf with ⟨lexeme, text⟩
      rcases List.mem_cons.mp h with rfl | h
      · exact ⟨[], leafChars leaves, rfl, rfl⟩
      · rcases ih h with ⟨front, back, hchars, hplace⟩
        refine ⟨text.toList ++ front, back, ?_, ?_⟩
        · show text.toList ++ leafChars leaves = _
          rw [hchars, List.append_assoc, List.append_assoc, List.append_assoc]
        · rw [hplace, List.length_append, Nat.add_assoc]

theorem pairwise_placed (h : ∀ leaf ∈ leaves, leaf.2.toList ≠ []) :
    (placed place leaves).Pairwise fun x y => x.1 < y.1 := by
  -- Leaves that are not empty have places from left to right.
  induction leaves generalizing place with
  | nil => exact .nil
  | cons leaf leaves ih =>
      rcases leaf with ⟨lexeme, text⟩
      rcases List.forall_mem_cons.mp h with ⟨hleaf, hleaves⟩
      refine .cons ?_ (ih hleaves)
      intro x hx
      rcases stands_of_mem_placed hx with ⟨front, _, _, hplace⟩
      have hpos : 0 < text.toList.length := List.length_pos_iff.mpr hleaf
      show place < x.1
      omega

theorem along_sublist {write : A → Nat × String}
    (h : ∀ t ∈ ts, ∀ place, ((collect place t).map write).Sublist (placed place t.leaves))
    (place : Nat) : ((along collect place ts).map write).Sublist (placed place (leavesAll ts)) := by
  induction ts generalizing place with
  | nil => exact .slnil
  | cons t ts ih =>
      rcases List.forall_mem_cons.mp h with ⟨ht, hts⟩
      rw [along, List.map_append, leavesAll, placed_append, leafChars_leaves]
      exact (ht place).append (ih hts _)

end

/-!
# Calls
-/

def callee? : Phrase → List Token → Option String
  | .call, .leaf (.name f) _ :: _ => some f
  | _, _ => none

mutual

def callsFrom (place : Nat) : Token → List (Nat × String)
  | .leaf _ _ => []
  | .phrase kind parts => (callee? kind parts).toList.map (place, ·) ++ callsFromAll place parts

def callsFromAll (place : Nat) : List Token → List (Nat × String)
  | [] => []
  | t :: ts => callsFrom place t ++ callsFromAll (place + t.chars.length) ts

end

/-!
# Mentions
-/

def functionsFrom (place : Nat) (body : Token) : List (Nat × Mention) :=
  (body.callsFrom place).map fun (place, f) => (place, .function f body.text)

mutual

def mentionsFrom (place : Nat) : Token → List (Nat × Mention)
  | .leaf (.name n) _ => [(place, .step n)]
  | .leaf _ _ => []
  | .phrase .predicate parts => along functionsFrom place parts
  | .phrase _ parts => mentionsFromAll place parts

def mentionsFromAll (place : Nat) : List Token → List (Nat × Mention)
  | [] => []
  | t :: ts => mentionsFrom place t ++ mentionsFromAll (place + t.chars.length) ts

end

/-- The names that a query mentions, each with its place, in the order of the text. -/
def mentions (t : Token) : List (Nat × Mention) :=
  t.mentionsFrom 0

variable {arithmetic : Arithmetic} {place : Nat} {t : Token} {ts : List Token}

theorem callsFromAll_eq (place : Nat) (ts : List Token) :
    callsFromAll place ts = along callsFrom place ts := by
  induction ts generalizing place with
  | nil => rfl
  | cons t ts ih => rw [callsFromAll, along, ih]

theorem mentionsFromAll_eq (place : Nat) (ts : List Token) :
    mentionsFromAll place ts = along mentionsFrom place ts := by
  induction ts generalizing place with
  | nil => rfl
  | cons t ts ih => rw [mentionsFromAll, along, ih]

theorem mentionsFrom_phrase {kind : Phrase} (hkind : kind ≠ .predicate) (place : Nat)
    (parts : List Token) :
    mentionsFrom place (.phrase kind parts) = along mentionsFrom place parts := by
  rw [← mentionsFromAll_eq, mentionsFrom]
  exact hkind

/-!
# Left to right
-/

mutual

theorem induction_parts {motive : Token → Prop} (leaf : ∀ lexeme text, motive (.leaf lexeme text))
    (phrase : ∀ kind parts, (∀ t ∈ parts, motive t) → motive (.phrase kind parts)) :
    ∀ t, motive t
  | .leaf lexeme text => leaf lexeme text
  | .phrase kind parts => phrase kind parts (induction_rows leaf phrase parts)

theorem induction_rows {motive : Token → Prop} (leaf : ∀ lexeme text, motive (.leaf lexeme text))
    (phrase : ∀ kind parts, (∀ t ∈ parts, motive t) → motive (.phrase kind parts)) :
    ∀ ts : List Token, ∀ t ∈ ts, motive t
  | [] => List.forall_mem_nil motive
  | t :: ts => List.forall_mem_cons.mpr
      ⟨induction_parts leaf phrase t, induction_rows leaf phrase ts⟩

end

theorem name_of_spelled {n text : String} (h : (leaf (.name n) text).Spelled arithmetic) :
    n = text := by
  rw [(spells_of_spelled h).2, String.ofList_toList]

theorem callsFrom_sublist (h : t.Spelled arithmetic) (place : Nat) :
    (callsFrom place t).Sublist (placed place t.leaves) := by
  induction t using induction_parts generalizing place with
  | leaf lexeme text => exact List.nil_sublist _
  | phrase kind parts ih =>
      have hrow : ∀ {ts : List Token}, (∀ t ∈ ts, t ∈ parts) → ∀ place,
          (callsFromAll place ts).Sublist (placed place (leavesAll ts)) := by
        intro ts hts place
        rw [callsFromAll_eq, ← List.map_id (along callsFrom place ts)]
        apply along_sublist
        intro t ht place
        rw [List.map_id]
        exact ih t (hts t ht) (h.parts t (hts t ht)) place
      rw [callsFrom, leaves]
      unfold callee?
      split
      · -- The name of the function is the first leaf.
        rename_i f text rest
        have hname := name_of_spelled (h.parts _ List.mem_cons_self)
        subst hname
        exact (hrow fun t ht => List.mem_cons_of_mem _ ht) _ |>.cons_cons _
      · exact hrow (fun t ht => ht) place

theorem mentionsFrom_sublist (h : t.Spelled arithmetic) (place : Nat) :
    ((mentionsFrom place t).map fun x => (x.1, x.2.name)).Sublist (placed place t.leaves) := by
  induction t using induction_parts generalizing place with
  | leaf lexeme text =>
      cases lexeme with
      | name n =>
          have hname := name_of_spelled h
          subst hname
          exact List.Sublist.refl _
      | _ => exact List.nil_sublist _
  | phrase kind parts ih =>
      rw [leaves]
      by_cases hkind : kind = .predicate
      · subst hkind
        rw [mentionsFrom]
        apply along_sublist
        intro t ht place
        have hcalls := callsFrom_sublist (h.parts t ht) place
        rw [functionsFrom, List.map_map, ← List.map_id (placed place t.leaves)]
        exact hcalls.map id
      · rw [mentionsFrom_phrase hkind]
        exact along_sublist (fun t ht place => ih t ht (h.parts t ht) place) place

/-- The mentions of a query are listed from left to right. -/
theorem pairwise_mentions (h : t.Spelled arithmetic) :
    (t.mentions.map Prod.fst).Pairwise (· < ·) := by
  have hplaced : (placed 0 t.leaves).Pairwise fun x y => x.1 < y.1 :=
    pairwise_placed fun leaf hleaf => (h leaf hleaf).ne_nil
  have hmentions := hplaced.sublist (mentionsFrom_sublist h 0)
  rw [List.pairwise_map] at hmentions ⊢
  exact hmentions

/-!
# The functions of an expression
-/

section

variable {rank : Nat} {gap : List Token} {e : Expression}

theorem IsGap.along_eq_nil {A : Type} {collect : Nat → Token → List A} (h : IsGap gap)
    (hblank : ∀ place text, collect place (.leaf .blank text) = []) (place : Nat) :
    along collect place gap = [] := by
  cases h with
  | none => rfl
  | blank => rw [along_singleton, hblank]

theorem IsGap.along_callsFrom (h : IsGap gap) (place : Nat) : along callsFrom place gap = [] :=
  h.along_eq_nil (fun _ _ => rfl) place

theorem callsFrom_leaf (place : Nat) (lexeme : Lexeme) (text : String) :
    callsFrom place (.leaf lexeme text) = [] := rfl

theorem callsFrom_phrase {kind : Phrase} (hkind : kind ≠ .call) (place : Nat) (parts : List Token) :
    callsFrom place (.phrase kind parts) = along callsFrom place parts := by
  have hcallee : callee? kind parts = none := by
    unfold callee?
    split
    · exact absurd rfl hkind
    · rfl
  rw [callsFrom, hcallee, callsFromAll_eq]
  rfl

theorem callsFrom_call (place : Nat) (n text : String) (parts : List Token) :
    callsFrom place (.phrase .call (.leaf (.name n) text :: parts)) =
      (place, n) :: along callsFrom (place + text.toList.length) parts := by
  rw [callsFrom, callsFromAll_eq]
  rfl

theorem map_along_furtherArguments {more : List FurtherArgument} {es : List Expression}
    (hgaps : ∀ x ∈ more, IsGap x.before ∧ IsGap x.after)
    (hmore : ∀ x ∈ more, ∀ e, x.value.toExpression = .ok e →
      ∀ place, (callsFrom place x.value).map Prod.snd = e.functionNames)
    (hall : List.Forall₂ (Stands 5) (more.map FurtherArgument.value) es) (place : Nat) :
    (along callsFrom place (more.flatMap FurtherArgument.parts)).map Prod.snd =
      Expression.functionNamesAll es := by
  induction more generalizing es place with
  | nil =>
      cases hall
      rfl
  | cons x more ih =>
      rcases List.forall_mem_cons.mp hgaps with ⟨⟨hbefore, hafter⟩, hgaps⟩
      rcases List.forall_mem_cons.mp hmore with ⟨hx, hmore⟩
      cases hall with
      | @cons _ e _ es he hall =>
          rw [List.flatMap_cons, along_append, List.map_append, ih hgaps hmore hall,
            FurtherArgument.parts]
          simp only [along_append, along, callsFrom_leaf, hbefore.along_callsFrom,
            hafter.along_callsFrom, List.nil_append, List.append_nil]
          rw [hx e he.meaning]
          rfl

/-- The functions that a token calls are those of its expression, in the same order. -/
theorem map_callsFrom (h : IsExpression rank t) (he : t.toExpression = .ok e) (place : Nat) :
    (callsFrom place t).map Prod.snd = e.functionNames := by
  induction h generalizing e place with
  | number =>
      rw [stands_number.meaning] at he
      cases he
      rfl
  | text =>
      rw [stands_text.meaning] at he
      cases he
      rfl
  | attribution =>
      rw [stands_attribution.meaning] at he
      cases he
      rfl
  | bareCall hbefore hafter =>
      rw [(stands_bareCall hbefore hafter).meaning] at he
      cases he
      simp only [List.cons_append, List.append_assoc, callsFrom_call, along_append, along,
        callsFrom_leaf, hbefore.along_callsFrom, hafter.along_callsFrom, List.nil_append]
      rfl
  | @call _ _ _ _ _ _ _ first more hbefore hafter hfirst hgaps hmore htrailing ih ihmore =>
      have hvalues : ∀ t ∈ first :: more.map FurtherArgument.value, ∃ e, Stands 5 t e :=
        List.forall_mem_cons.mpr
          ⟨exists_stands hfirst, List.forall_mem_map.mpr fun x hx => exists_stands (hmore x hx)⟩
      rcases exists_standsAll hvalues with ⟨es, hmeaning, hall⟩
      rw [(stands_call hbefore hafter hfirst.isOperand hgaps hmore htrailing hmeaning hall).meaning]
        at he
      cases he
      cases hall with
      | @cons _ e _ es hone hothers =>
          simp only [List.cons_append, List.append_assoc, callsFrom_call, along_append, along,
            callsFrom_leaf, hbefore.along_callsFrom, hafter.along_callsFrom,
            htrailing.along_callsFrom, List.nil_append, List.append_nil, List.map_cons,
            List.map_append]
          rw [ih hone.meaning, map_along_furtherArguments hgaps
            (fun x hx e he place => ihmore x hx he place) hothers]
          rfl
  | group hbefore hinner hafter ih =>
      rcases exists_stands hinner with ⟨inner, hstands⟩
      rw [(stands_group hbefore hafter hinner.isOperand hstands).meaning] at he
      cases he
      rw [callsFrom_phrase (by decide)]
      simp only [List.cons_append, List.append_assoc, along_append, along, callsFrom_leaf,
        hbefore.along_callsFrom, hafter.along_callsFrom, List.nil_append, List.append_nil]
      exact ih hstands.meaning _
  | negation hspace hoperand ih =>
      rcases exists_stands hoperand with ⟨inner, hstands⟩
      rw [(stands_negation hspace hoperand.isOperand hstands).meaning] at he
      cases he
      rw [callsFrom_phrase (by decide)]
      simp only [List.cons_append, along_append, along, callsFrom_leaf, hspace.along_callsFrom,
        List.nil_append, List.append_nil]
      exact ih hstands.meaning _
  | binary hop hleft hbefore hafter hright ihleft ihright =>
      rcases exists_stands hleft with ⟨left, hstandsLeft⟩
      rcases exists_stands hright with ⟨right, hstandsRight⟩
      rw [(stands_binary hop hbefore hafter hleft.isOperand hright.isOperand hstandsLeft
        hstandsRight).meaning] at he
      cases he
      rw [callsFrom_phrase (by simp)]
      simp only [List.cons_append, List.append_assoc, along_append, along, callsFrom_leaf,
        hbefore.along_callsFrom, hafter.along_callsFrom, List.nil_append, List.append_nil,
        List.map_append]
      rw [ihleft hstandsLeft.meaning, ihright hstandsRight.meaning]
      rfl
  | tighter _ ih => exact ih he place

end

/-!
# Standing in the text
-/

section

variable {gap before after : List Token} {inner : Token} {opening closing : String}

theorem mentionsFrom_enclosed (hbefore : IsGap before) (hafter : IsGap after) (place : Nat) :
    mentionsFrom place (.phrase .predicate (.leaf (.symbol .openBracket) opening :: before ++
        inner :: after ++ [.leaf (.symbol .closeBracket) closing])) =
      functionsFrom (place + opening.toList.length + (charsAll before).length) inner := by
  have hleaf : ∀ place lexeme text, functionsFrom place (.leaf lexeme text) = [] :=
    fun _ _ _ => rfl
  have hgap : ∀ {gap : List Token}, IsGap gap → ∀ place, along functionsFrom place gap = [] :=
    fun h => h.along_eq_nil fun _ _ => rfl
  rw [mentionsFrom]
  simp only [List.cons_append, List.append_assoc, along_append, along, hleaf,
    hgap hbefore, hgap hafter, List.nil_append, List.append_nil]
  rfl

theorem IsGap.isSpace (h : IsGap gap) (hspelled : ∀ t ∈ gap, t.Spelled arithmetic) :
    ∀ c ∈ charsAll gap, Scan.isSpace c = true := by
  cases h with
  | none => exact List.forall_mem_nil _
  | @blank text =>
      have hchars : charsAll [leaf .blank text] = text.toList := List.append_nil _
      rw [hchars]
      exact (spells_of_spelled (hspelled _ List.mem_cons_self)).2

end

def Locates (t : Token) : Prop :=
  ∀ place, ∀ x ∈ t.mentionsFrom place,
    ∃ offset, x.1 = place + offset ∧ x.2.StandsAt t.chars offset

theorem locates_leaf {lexeme : Lexeme} {text : String} (h : (leaf lexeme text).Spelled arithmetic) :
    (leaf lexeme text).Locates := by
  intro place x hx
  cases lexeme with
  | name n =>
      cases List.mem_singleton.mp hx
      have hname := name_of_spelled h
      subst hname
      exact ⟨0, rfl, [], [], (List.append_nil _).symm, rfl⟩
  | _ => cases hx

theorem locates_phrase {kind : Phrase} {parts : List Token} (hkind : kind ≠ .predicate)
    (h : ∀ t ∈ parts, t.Locates) : (phrase kind parts).Locates := by
  intro place x hx
  rw [mentionsFrom_phrase hkind] at hx
  rcases exists_of_mem_along hx with ⟨before, t, after, rfl, hpart⟩
  rcases h t (List.mem_append_right before List.mem_cons_self) _ x hpart with
    ⟨offset, hplace, hstands⟩
  refine ⟨(charsAll before).length + offset, ?_, ?_⟩
  · rw [hplace, Nat.add_assoc]
  · rw [chars, charsAll_append, charsAll, ← List.append_assoc]
    exact hstands.append (charsAll before) (charsAll after)

theorem locates_predicate (h : IsPredicate t) (hspelled : t.Spelled arithmetic) : t.Locates := by
  cases h with
  | @enclosed opening closing before after inner hbefore hinner hafter =>
      have hparts := hspelled.parts
      have hopening : opening.toList = ['['] :=
        spells_of_spelled (hparts (.leaf (.symbol .openBracket) opening) (by simp))
      have hclosing : closing.toList = [']'] :=
        spells_of_spelled (hparts (.leaf (.symbol .closeBracket) closing) (by simp))
      intro place x hx
      rw [mentionsFrom_enclosed hbefore hafter] at hx
      rcases List.mem_map.mp hx with ⟨⟨start, f⟩, hcall, rfl⟩
      have hplaced := (callsFrom_sublist (hparts inner (by simp)) _).subset hcall
      rcases stands_of_mem_placed hplaced with ⟨front, back, hchars, hstart⟩
      rw [leafChars_leaves] at hchars
      refine ⟨('[' :: charsAll before ++ front).length, ?_, [], charsAll before, front, back,
        charsAll after, [], ?_, ?_, ?_, rfl⟩
      · dsimp only at hstart
        rw [hstart, hopening]
        simp only [List.length_append, List.length_cons, List.length_nil]
        omega
      · simp [chars, charsAll, charsAll_append, hopening, hclosing, Token.text]
      · exact List.forall_mem_append.mpr ⟨hbefore.isSpace fun t ht => hparts t (by simp [ht]),
          hafter.isSpace fun t ht => hparts t (by simp [ht])⟩
      · rw [Token.text, String.toList_ofList]
        exact hchars

theorem locates_of_isLeaf (h : t.isLeaf = true) (hspelled : t.Spelled arithmetic) : t.Locates := by
  cases t with
  | leaf => exact locates_leaf hspelled
  | phrase => cases h

theorem locates_step (h : IsStep t) (hspelled : t.Spelled arithmetic) : t.Locates := by
  rcases h.exists_phrase with ⟨parts, rfl⟩
  apply locates_phrase (by decide)
  intro part hpart
  rcases h.forall_mem part hpart with hleaf | hpredicate
  · exact locates_of_isLeaf hleaf (hspelled.parts part hpart)
  · exact locates_predicate hpredicate (hspelled.parts part hpart)

theorem locates_path (h : IsPath t) (hspelled : t.Spelled arithmetic) : t.Locates := by
  rcases h.exists_phrase with ⟨absolute, parts, rfl⟩
  apply locates_phrase (by simp)
  intro part hpart
  rcases h.forall_mem part hpart with hquiet | hstep
  · exact locates_of_isLeaf (isLeaf_of_not_isOperand hquiet) (hspelled.parts part hpart)
  · exact locates_step hstep (hspelled.parts part hpart)

end Token
end TreeQuery
