import TreeQuery.Proofs.Numeric.Written
import TreeQuery.Proofs.Parser.Signs
import TreeQuery.Proofs.Token.Continuing

/-!
# What the signs of a rule say

A rule that looks for a production could have gone on: what it has taken so far,
a leaf that answers to the production and a few more make a token of its form.
A rule that halts does so at a number that the arithmetic refuses, or behind as
many openers as it had room for.  What is said about a part of a phrase is
carried over to the phrase: to what stands behind other tokens, behind blanks, in
front of a closing symbol.
-/

namespace TreeQuery
namespace Grammar

open TreeQuery.Parser Token

/-- What a sign says about a rule that has started at the input and stands for the given form. -/
inductive Outlook (arithmetic : Arithmetic) (within : Phrase) (room : Nat)
    (form : List Token → Prop) (input : List Char) : Sign → Prop where
  | expects {taken rest : List Char} {ts : List Token} {production : Production}
      (hinput : input = taken ++ rest) (hform : form ts)
      (hfits : Fits arithmetic (leavesAll ts) [])
      (hcontinues : Continues within production taken ts) :
      Outlook arithmetic within room form input (.expects rest.length production)
  | tooDeep {taken rest : List Char} (hinput : input = taken ++ rest)
      (hroom : room ≤ openers taken) :
      Outlook arithmetic within room form input (.halts (.tooDeep rest))
  | badNumber {taken literal rest : List Char} {error : NumberError}
      (hinput : input = taken ++ (literal ++ rest)) (hliteral : Lexeme.IsNumber literal)
      (hstop : ∀ c ∈ rest.head?, ¬ Lexeme.IsNumber (literal ++ [c]))
      (herror : Number.parse (String.ofList literal) arithmetic = .error error) :
      Outlook arithmetic within room form input (.halts (.badNumber (literal ++ rest) error))

def Joined (input : List Char) (form : List Token → Prop) (ts : List Token) : Prop :=
  form ts ∧ Replaces input (charsAll ts)

def Spaced (form : List Token → Prop) (ts : List Token) : Prop :=
  ∃ space inner, IsGap space ∧ form inner ∧ ts = space ++ inner

def Single (form : Token → Prop) (ts : List Token) : Prop :=
  ∃ t, form t ∧ ts = [t]

variable {arithmetic : Arithmetic} {within kind : Phrase} {room : Nat}
  {form form' : List Token → Prop} {input middle rest : List Char} {sign : Sign}

namespace Outlook

/-!
# From parts to phrases
-/

theorem imp (h : Outlook arithmetic within room form input sign)
    (hform : ∀ ts, form ts → form' ts) : Outlook arithmetic within room form' input sign := by
  cases h with
  | expects hinput hts hfits hcontinues => exact .expects hinput (hform _ hts) hfits hcontinues
  | tooDeep hinput hroom => exact .tooDeep hinput hroom
  | badNumber hinput hliteral hstop herror => exact .badNumber hinput hliteral hstop herror

theorem start {production : Production} (ts : List Token) (hform : form ts)
    (hfits : Fits arithmetic (leavesAll ts) [])
    (hfirst : (answersAll within ts).head?.map Prod.fst = some (some production))
    (hopeners : openers (charsAll ts) ≤ 1) :
    Outlook arithmetic within room form input (.expects input.length production) :=
  .expects rfl hform hfits (.start hfirst hopeners)

theorem behind {xs : List Token} {room' : Nat} (hinput : input = charsAll xs ++ middle)
    (h : Outlook arithmetic within room form middle sign)
    (hfits : ∀ ts, form ts → Fits arithmetic (leavesAll xs) (charsAll ts))
    (hform : ∀ ts, form ts → form' (xs ++ ts)) (hroom : room' ≤ openers (charsAll xs) + room) :
    Outlook arithmetic within room' form' input sign := by
  subst hinput
  cases h with
  | @expects taken rest ts production hinput hts hts' hcontinues =>
      rw [hinput, ← List.append_assoc]
      refine .expects rfl (hform ts hts) ?_ (hcontinues.behind xs)
      rw [leavesAll_append, fits_append, leafChars_leavesAll, List.append_nil]
      exact ⟨hfits ts hts, hts'⟩
  | tooDeep hinput hopeners =>
      rw [hinput, ← List.append_assoc]
      refine .tooDeep rfl ?_
      rw [openers_append]
      exact hroom.trans (Nat.add_le_add_left hopeners _)
  | badNumber hinput hliteral hstop herror =>
      rw [hinput, ← List.append_assoc]
      exact .badNumber rfl hliteral hstop herror

theorem joined_append {xs ts : List Token} (hcovers : CoverAll arithmetic xs input middle)
    (hts : Replaces middle (charsAll ts)) : Replaces input (charsAll (xs ++ ts)) := by
  rw [hcovers.1, charsAll_append]
  cases charsAll xs with
  | nil => exact hts
  | cons c more =>
      intro d hd
      exact Or.inl hd

/-- Behind tokens that have been read, where what comes next may take the place of what has come
next in the text. -/
theorem after {xs : List Token} {room' : Nat} (hcovers : CoverAll arithmetic xs input middle)
    (h : Outlook arithmetic within room (Joined middle form) middle sign)
    (hform : ∀ ts, form ts → form' (xs ++ ts)) (hroom : room' ≤ openers (charsAll xs) + room) :
    Outlook arithmetic within room' (Joined input form') input sign := by
  refine behind hcovers.1 h ?_ ?_ hroom
  · intro ts hts
    exact hcovers.2.replace hts.2
  · intro ts hts
    exact ⟨hform ts hts.1, joined_append hcovers hts.2⟩

theorem fits_blank {text : String} {rest rest' : List Char}
    (h : Fits arithmetic (leavesAll [leaf .blank text]) rest) :
    Fits arithmetic (leavesAll [leaf .blank text]) rest' :=
  ⟨h.1, fun _ _ => id, trivial⟩

theorem fits_space (rest : List Char) : Fits arithmetic (leavesAll [blank " "]) rest := by
  refine ⟨⟨List.cons_ne_nil ' ' [], ?_⟩, fun _ _ => id, trivial⟩
  intro c hc
  rw [List.mem_singleton.mp hc]
  rfl

/-- Behind blanks that have been read.  If there are none and nothing has been taken behind them
either, a blank is put in. -/
theorem spaced {space : List Token} (hgap : IsGap space)
    (hcovers : CoverAll arithmetic space input middle)
    (h : Outlook arithmetic within room form middle sign) :
    Outlook arithmetic within room (Joined input (Spaced form)) input sign := by
  cases h with
  | @expects taken rest ts production hinput hts hfits hcontinues =>
      have hbehind (hspace : Fits arithmetic (leavesAll space) (charsAll ts))
          (hjoined : Replaces input (charsAll (space ++ ts))) :
          Outlook arithmetic within room (Joined input (Spaced form)) input
            (.expects rest.length production) := by
        refine .expects ?_ ⟨⟨space, ts, hgap, hts, rfl⟩, hjoined⟩ ?_ (hcontinues.behind space)
        · rw [hcovers.1, hinput, List.append_assoc]
        · rw [leavesAll_append, fits_append, leafChars_leavesAll, List.append_nil]
          exact ⟨hspace, hfits⟩
      cases taken with
      | cons c taken =>
          have hreplaces : Replaces middle (charsAll ts) := by
            rcases hcontinues.chars_eq with ⟨more, hmore⟩
            rw [hinput, hmore]
            intro d hd
            exact Or.inl hd
          exact hbehind (hcovers.2.replace hreplaces) (joined_append hcovers hreplaces)
      | nil =>
          cases hgap with
          | none =>
              have hblank : ∀ c ∈ charsAll [blank " "], Scan.isSpace c = true := by
                intro c hc
                rw [List.mem_singleton.mp hc]
                rfl
              refine .expects ((coverAll_nil.mp hcovers).trans hinput)
                ⟨⟨[blank " "], ts, .blank, hts, rfl⟩, ?_⟩ ?_ (hcontinues.behind_gap hblank rfl)
              · intro c hc
                cases hc
                exact Or.inr rfl
              · rw [leavesAll_append, fits_append, leafChars_leavesAll, List.append_nil]
                exact ⟨fits_space _, hfits⟩
          | @blank text =>
              refine hbehind (fits_blank hcovers.2) ?_
              have hne : charsAll [leaf .blank text] ≠ [] := by
                rw [charsAll, charsAll, chars, List.append_nil]
                exact hcovers.2.1.ne_nil
              rcases List.exists_cons_of_ne_nil hne with ⟨d, more, hchars⟩
              rw [hcovers.1, charsAll_append, hchars]
              intro c hc
              exact Or.inl hc
  | tooDeep hinput hroom =>
      rw [hcovers.1, hinput, ← List.append_assoc]
      refine .tooDeep rfl ?_
      rw [openers_append]
      exact hroom.trans (Nat.le_add_left _ _)
  | badNumber hinput hliteral hstop herror =>
      rw [hcovers.1, hinput, ← List.append_assoc]
      exact .badNumber rfl hliteral hstop herror

theorem closedBy {s : Symbol} (h : Outlook arithmetic within room form input sign)
    (hs : s.isClosed = true) (hopeners : openers s.spelling.toList = 0)
    (hform : ∀ ts, form ts → form' (ts ++ [blank " ", Token.symbol s])) :
    Outlook arithmetic within room form' input sign := by
  -- A symbol that closes a phrase is put behind the tokens, and a blank between them.
  cases h with
  | @expects taken rest ts production hinput hts hfits hcontinues =>
      have hblank : Replaces [] (charsAll [blank " ", Token.symbol s]) := by
        intro c hc
        cases hc
        exact Or.inr rfl
      have hnone : openers (charsAll [blank " ", Token.symbol s]) = 0 := by
        show openers (' ' :: (s.spelling.toList ++ [])) = 0
        rw [List.append_nil]
        exact hopeners
      refine .expects hinput (hform ts hts) ?_ (hcontinues.before hnone)
      rw [leavesAll_append, fits_append, leafChars_leavesAll, List.append_nil]
      refine ⟨hfits.replace hblank, (fits_space []).1, fun _ _ => id, ?_⟩
      exact ⟨(spells_symbol hs).mpr rfl, fun c _ => not_extends_symbol hs c, trivial⟩
  | tooDeep hinput hroom => exact .tooDeep hinput hroom
  | badNumber hinput hliteral hstop herror => exact .badNumber hinput hliteral hstop herror

theorem phrase (h : Outlook arithmetic kind room form input sign)
    (hform : ∀ parts, form parts → form' [.phrase kind parts]) :
    Outlook arithmetic within room form' input sign := by
  cases h with
  | @expects taken rest ts production hinput hts hfits hcontinues =>
      refine .expects hinput (hform ts hts) ?_ hcontinues.phrase
      rw [leavesAll, leaves, leavesAll, List.append_nil]
      exact hfits
  | tooDeep hinput hroom => exact .tooDeep hinput hroom
  | badNumber hinput hliteral hstop herror => exact .badNumber hinput hliteral hstop herror

theorem phraseAfter {xs : List Token} {room' : Nat} {shape : Token → Prop}
    (hcovers : CoverAll arithmetic xs input middle)
    (h : Outlook arithmetic kind room (Joined middle form) middle sign)
    (hform : ∀ ts, form ts → shape (.phrase kind (xs ++ ts)))
    (hroom : room' ≤ openers (charsAll xs) + room) :
    Outlook arithmetic within room' (Single shape) input sign := by
  have hafter : Outlook arithmetic kind room' (Joined input fun ts => shape (.phrase kind ts))
      input sign :=
    .after hcovers h hform hroom
  exact hafter.phrase fun parts hparts => ⟨_, hparts.1, rfl⟩

end Outlook

/-!
# Leaves
-/

theorem shows_symbol {s : Symbol} {production : Production}
    (h : Shows (symbol s production) input sign) : sign = .expects input.length production :=
  h.of_bind_pure.of_scan

theorem shows_name (h : Shows name input sign) : sign = .expects input.length .name :=
  h.of_bind_pure.of_scan

theorem shows_nodeTest (h : Shows nodeTest input sign) :
    sign = .expects input.length .wildcard ∨ sign = .expects input.length .name := by
  rcases h.of_orElse with h | ⟨_, h⟩
  · exact Or.inl h.of_bind_pure.of_scan
  · exact Or.inr (shows_name h)

theorem shows_axisMark (h : Shows axisMark input sign) :
    sign = .expects input.length .axisMark ∧ Misses axisMark input := by
  revert h
  unfold Shows Misses axisMark
  split
  · exact fun h => absurd h (Reply.not_shows_none fun _ h => by cases h)
  · exact fun h => ⟨h.of_single, rfl⟩

theorem shows_operator {choices : List Operator} (h : Shows (operator choices) input sign) :
    sign = .expects input.length .operator := by
  revert h
  unfold Shows operator
  split
  · exact fun h => absurd h (Reply.not_shows_none fun _ h => by cases h)
  · exact fun h => h.of_single

theorem shows_blanks_bind (arithmetic : Arithmetic) {A : Type} {f : List Token → Parser A}
    (h : Shows (blanks >>= f) input sign) :
    ∃ space middle, IsGap space ∧ CoverAll arithmetic space input middle ∧
      Shows (f space) middle sign := by
  rcases h.of_bind with h | ⟨space, middle, hspace, h⟩
  · exact absurd h (Reply.not_shows_none fun _ h => by cases h)
  · rcases (reads_blanks arithmetic).mp hspace with ⟨hgap, hcovers, _⟩
    exact ⟨space, middle, hgap, hcovers, h⟩

end Grammar
end TreeQuery
