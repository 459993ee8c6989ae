import TreeQuery.Proofs.Parser.Reading
import TreeQuery.Proofs.Token.Form
import Mathlib.Data.List.TakeWhile

/-!
# What scanners take

A scanner takes a leaf exactly when the leaf stands at the front of the text
and ends there.  The rules for single leaves are therefore the same as the
covering of the text by a leaf of that kind.
-/

namespace TreeQuery
namespace Scan

open Lexeme

variable {input taken rest : List Char}

theorem takeWhile_of_head {member : Char → Bool} (h : ∀ c ∈ rest.head?, member c = false) :
    rest.takeWhile member = [] := by
  cases rest with
  | nil => rfl
  | cons c more => rw [List.takeWhile_cons, h c rfl]; rfl

theorem dropWhile_of_head {member : Char → Bool} (h : ∀ c ∈ rest.head?, member c = false) :
    rest.dropWhile member = rest := by
  cases rest with
  | nil => rfl
  | cons c more => rw [List.dropWhile_cons, h c rfl]; rfl

theorem run_eq_iff {member : Char → Bool} :
    run member input = (taken, rest) ↔
      input = taken ++ rest ∧ (∀ c ∈ taken, member c = true) ∧
        ∀ c ∈ rest.head?, member c = false := by
  constructor
  · intro h
    cases h
    refine ⟨List.takeWhile_append_dropWhile.symm, fun c hc => List.mem_takeWhile_imp hc, ?_⟩
    intro c hc
    have hhead := List.head?_dropWhile_not member input
    rw [Option.mem_def.mp hc] at hhead
    exact hhead
  · intro h
    rcases h with ⟨rfl, hall, hstop⟩
    unfold run
    rw [List.takeWhile_append_of_pos hall, List.dropWhile_append_of_pos hall,
      takeWhile_of_head hstop, dropWhile_of_head hstop, List.append_nil]

theorem run1_eq_some_iff {member : Char → Bool} :
    run1 member input = some (taken, rest) ↔ taken ≠ [] ∧ run member input = (taken, rest) := by
  unfold run1 run
  cases h : input.takeWhile member with
  | nil =>
      simp only [reduceCtorEq, Prod.mk.injEq, false_iff, not_and]
      intro hne htaken
      exact absurd htaken.symm hne
  | cons c more =>
      simp only [Option.some.injEq, Prod.mk.injEq]
      constructor
      · intro h
        rcases h with ⟨rfl, rfl⟩
        exact ⟨List.cons_ne_nil c more, rfl, rfl⟩
      · intro h
        exact h.2

theorem exactly_eq_some_iff {word : List Char} :
    exactly word input = some (taken, rest) ↔ taken = word ∧ input = word ++ rest := by
  unfold exactly
  constructor
  · intro h
    split at h
    · rename_i hbegins
      cases h
      rcases List.isPrefixOf_iff_prefix.mp hbegins with ⟨rest, rfl⟩
      rw [List.drop_left]
      exact ⟨rfl, rfl⟩
    · cases h
  · intro h
    rcases h with ⟨rfl, rfl⟩
    rw [if_pos (List.isPrefixOf_iff_prefix.mpr (List.prefix_append _ rest)), List.drop_left]

theorem ignoringCase_eq_some_iff {word : List Char} :
    ignoringCase word input = some (taken, rest) ↔
      taken.map Char.toLower = word ∧ input = taken ++ rest := by
  unfold ignoringCase
  constructor
  · intro h
    simp only at h
    split at h
    · rename_i hword
      cases h
      exact ⟨hword, (List.take_append_drop _ _).symm⟩
    · cases h
  · intro h
    rcases h with ⟨rfl, rfl⟩
    rw [List.length_map, List.take_left, List.drop_left]
    simp

theorem isNameChar_of_isNameStart {c : Char} (h : isNameStart c = true) : isNameChar c = true := by
  unfold isNameStart at h
  unfold isNameChar Char.isAlphanum
  rcases Bool.or_eq_true_iff.mp h with hc | hc
  · rw [hc]
    rfl
  · rw [hc]
    simp

theorem all_of_isName (h : IsName taken) : ∀ c ∈ taken, isNameChar c = true := by
  cases taken with
  | nil => cases h
  | cons c more =>
      exact List.forall_mem_cons.mpr ⟨isNameChar_of_isNameStart h.1, h.2⟩

theorem isName_append_iff {c : Char} (h : IsName taken) :
    IsName (taken ++ [c]) ↔ isNameChar c = true := by
  cases taken with
  | nil => cases h
  | cons d more =>
      rw [List.cons_append, IsName]
      simp only [List.mem_append, List.mem_singleton]
      constructor
      · intro hmore
        exact hmore.2 c (Or.inr rfl)
      · intro hc
        refine ⟨h.1, ?_⟩
        intro e he
        rcases he with he | rfl
        · exact h.2 e he
        · exact hc

theorem name_eq_some_iff :
    name input = some (taken, rest) ↔
      input = taken ++ rest ∧ IsName taken ∧ ∀ c ∈ rest.head?, ¬ IsName (taken ++ [c]) := by
  have hstops (hname : IsName taken) : (∀ c ∈ rest.head?, ¬ IsName (taken ++ [c])) ↔
      ∀ c ∈ rest.head?, isNameChar c = false := by
    simp only [isName_append_iff hname, Bool.not_eq_true]
  constructor
  · intro h
    cases input with
    | nil => cases h
    | cons c more =>
        simp only [name] at h
        split at h
        · rename_i hstart
          rcases run_eq_iff.mp (Option.some.inj h) with ⟨hinput, hall, hstop⟩
          have hname : IsName taken := by
            cases taken with
            | nil =>
                rw [List.nil_append] at hinput
                subst hinput
                have hc := hstop c rfl
                rw [isNameChar_of_isNameStart hstart] at hc
                cases hc
            | cons d others =>
                rw [List.cons_append] at hinput
                cases hinput
                exact ⟨hstart, fun e he => hall e (List.mem_cons_of_mem c he)⟩
          exact ⟨hinput, hname, (hstops hname).mpr hstop⟩
        · cases h
  · intro h
    rcases h with ⟨rfl, hname, hstop⟩
    cases taken with
    | nil => cases hname
    | cons c more =>
        rw [List.cons_append, name, if_pos hname.1, ← List.cons_append,
          run_eq_iff.mpr ⟨rfl, all_of_isName hname, (hstops hname).mp hstop⟩]

/-!
# Numbers

A number goes on into a digit, and into a point if it has none yet.
-/

theorem isDigit_point : Literal.isDigit '.' = false := by
  decide

theorem isNumber_append_iff {c : Char} (h : IsNumber taken) :
    IsNumber (taken ++ [c]) ↔ Literal.isDigit c = true ∨ c = '.' ∧ taken.count '.' = 0 := by
  rcases h with ⟨hall, hcount, d, hd, hdigit⟩
  constructor
  · intro hmore
    rcases hmore.1 c (List.mem_append_right _ List.mem_cons_self) with hc | rfl
    · exact Or.inl hc
    · have hpoints := hmore.2.1
      rw [List.count_append, List.count_singleton_self] at hpoints
      exact Or.inr ⟨rfl, Nat.le_zero.mp (Nat.le_of_succ_le_succ hpoints)⟩
  · intro hc
    refine ⟨?_, ?_, d, List.mem_append_left _ hd, hdigit⟩
    · intro e he
      rcases List.mem_append.mp he with he | he
      · exact hall e he
      · rw [List.mem_singleton.mp he]
        exact hc.imp id And.left
    · rw [List.count_append]
      rcases hc with hc | ⟨rfl, hnone⟩
      · have hne : c ≠ '.' := by
          intro hpoint
          rw [hpoint, isDigit_point] at hc
          cases hc
        rw [List.count_singleton, beq_false_of_ne hne]
        exact hcount
      · rw [hnone, List.count_singleton_self]

theorem isNumber_digits (hne : taken ≠ []) (hall : ∀ c ∈ taken, Literal.isDigit c = true) :
    IsNumber taken ∧ taken.count '.' = 0 := by
  have hcount : taken.count '.' = 0 := by
    rw [List.count_eq_zero]
    intro hpoint
    have hdigit := hall '.' hpoint
    rw [isDigit_point] at hdigit
    cases hdigit
  rcases List.exists_mem_of_ne_nil taken hne with ⟨d, hd⟩
  exact ⟨⟨fun c hc => Or.inl (hall c hc), by omega, d, hd, hall d hd⟩, hcount⟩

theorem mem_pointed_iff {whole fraction : List Char} {c : Char} :
    c ∈ whole ++ '.' :: fraction ↔ c ∈ whole ++ fraction ∨ c = '.' := by
  rw [List.mem_append, List.mem_cons, or_left_comm, List.mem_append, or_comm]

theorem isNumber_pointed {whole fraction : List Char} (hne : whole ++ fraction ≠ [])
    (hall : ∀ c ∈ whole ++ fraction, Literal.isDigit c = true) :
    IsNumber (whole ++ '.' :: fraction) ∧ (whole ++ '.' :: fraction).count '.' = 1 := by
  have hcount : (whole ++ '.' :: fraction).count '.' = 1 := by
    have hdigits := (isNumber_digits hne hall).2
    rw [List.count_append] at hdigits
    rw [List.count_append, List.count_cons_self]
    omega
  rcases List.exists_mem_of_ne_nil _ hne with ⟨d, hd⟩
  refine ⟨⟨?_, by omega, d, mem_pointed_iff.mpr (Or.inl hd), hall d hd⟩, hcount⟩
  intro c hc
  exact (mem_pointed_iff.mp hc).imp (hall c) id

theorem isNumber_cases (h : IsNumber taken) :
    (∀ c ∈ taken, Literal.isDigit c = true) ∨
      ∃ whole fraction, taken = whole ++ '.' :: fraction ∧ whole ++ fraction ≠ [] ∧
        ∀ c ∈ whole ++ fraction, Literal.isDigit c = true := by
  rcases h with ⟨hall, hcount, d, hd, hdigit⟩
  by_cases hpoint : '.' ∈ taken
  · right
    rcases List.append_of_mem hpoint with ⟨whole, fraction, rfl⟩
    have hnone : '.' ∉ whole ++ fraction := by
      rw [List.count_append, List.count_cons_self] at hcount
      rw [← List.count_eq_zero, List.count_append]
      omega
    refine ⟨whole, fraction, rfl, ?_, ?_⟩
    · intro hnil
      rcases List.append_eq_nil_iff.mp hnil with ⟨rfl, rfl⟩
      rw [List.nil_append, List.mem_singleton] at hd
      rw [hd, isDigit_point] at hdigit
      cases hdigit
    · intro c hc
      refine (hall c (mem_pointed_iff.mpr (Or.inl hc))).resolve_right ?_
      intro heq
      exact hnone (heq ▸ hc)
  · left
    intro c hc
    refine (hall c hc).resolve_right ?_
    intro heq
    exact hpoint (heq ▸ hc)

theorem number_eq_some_iff :
    number input = some (taken, rest) ↔
      input = taken ++ rest ∧ IsNumber taken ∧ ∀ c ∈ rest.head?, ¬ IsNumber (taken ++ [c]) := by
  constructor
  · intro h
    unfold number at h
    rcases hrun : run Literal.isDigit input with ⟨whole, left⟩
    rcases run_eq_iff.mp hrun with ⟨rfl, hwhole, hstop⟩
    rw [hrun] at h
    simp only at h
    split at h
    · rcases Option.map_eq_some_iff.mp h with ⟨⟨fraction, after⟩, hfraction, hpair⟩
      cases hpair
      rcases run1_eq_some_iff.mp hfraction with ⟨hne, hrun⟩
      rcases run_eq_iff.mp hrun with ⟨rfl, hfraction, hstop⟩
      have hnumber : IsNumber ('.' :: fraction) ∧ ('.' :: fraction).count '.' = 1 :=
        @isNumber_pointed [] fraction hne hfraction
      refine ⟨rfl, hnumber.1, ?_⟩
      intro c hc
      rw [isNumber_append_iff hnumber.1, hnumber.2, hstop c hc]
      simp
    · cases h
    · rename_i left hne
      rcases hrun : run Literal.isDigit left with ⟨fraction, after⟩
      rcases run_eq_iff.mp hrun with ⟨rfl, hfraction, hstop⟩
      rw [hrun] at h
      cases h
      have hall : ∀ c ∈ whole ++ fraction, Literal.isDigit c = true := by
        intro c hc
        exact (List.mem_append.mp hc).elim (hwhole c) (hfraction c)
      have hnumber := isNumber_pointed (List.append_ne_nil_of_left_ne_nil hne fraction) hall
      refine ⟨by rw [List.append_assoc, List.cons_append], hnumber.1, ?_⟩
      intro c hc
      rw [isNumber_append_iff hnumber.1, hnumber.2, hstop c hc]
      simp
    · rename_i hne hpoint _
      cases h
      have hnumber := isNumber_digits (fun hnil => hne hnil) hwhole
      refine ⟨rfl, hnumber.1, ?_⟩
      intro c hc hmore
      rcases (isNumber_append_iff hnumber.1).mp hmore with hdigit | ⟨rfl, _⟩
      · rw [hstop c hc] at hdigit
        cases hdigit
      · rcases List.head?_eq_some_iff.mp hc with ⟨more, rfl⟩
        exact hpoint more rfl
  · intro h
    rcases h with ⟨rfl, hnumber, hstop⟩
    simp only [isNumber_append_iff hnumber] at hstop
    have hdigits : ∀ c ∈ rest.head?, Literal.isDigit c = false := by
      intro c hc
      exact Bool.eq_false_iff.mpr fun hdigit => hstop c hc (Or.inl hdigit)
    unfold number
    rcases isNumber_cases hnumber with hall | ⟨whole, fraction, rfl, hne, hall⟩
    · rw [run_eq_iff.mpr ⟨rfl, hall, hdigits⟩]
      cases taken with
      | nil =>
          rcases hnumber.2.2 with ⟨d, hd, _⟩
          cases hd
      | cons d more =>
          cases rest with
          | nil => rfl
          | cons c after =>
              have hc : c ≠ '.' := by
                intro heq
                exact hstop c rfl (Or.inr ⟨heq, (isNumber_digits (List.cons_ne_nil d more) hall).2⟩)
              simp [hc]
    · have hwhole : ∀ c ∈ whole, Literal.isDigit c = true := fun c hc =>
        hall c (List.mem_append_left fraction hc)
      have hfraction : ∀ c ∈ fraction, Literal.isDigit c = true := fun c hc =>
        hall c (List.mem_append_right whole hc)
      have hafter : run Literal.isDigit (fraction ++ rest) = (fraction, rest) :=
        run_eq_iff.mpr ⟨rfl, hfraction, hdigits⟩
      have hbefore : run Literal.isDigit (whole ++ '.' :: (fraction ++ rest)) =
          (whole, '.' :: (fraction ++ rest)) := by
        refine run_eq_iff.mpr ⟨rfl, hwhole, ?_⟩
        intro c hc
        cases hc
        exact isDigit_point
      rw [List.append_assoc, List.cons_append, hbefore]
      cases whole with
      | nil =>
          have hone : run1 Literal.isDigit (fraction ++ rest) = some (fraction, rest) :=
            run1_eq_some_iff.mpr ⟨hne, hafter⟩
          simp only [hone]
          rfl
      | cons d more =>
          simp only [hafter]

/-!
# Quoted text and operators
-/

theorem quoted_eq_some_iff :
    quoted input = some (taken, rest) ↔
      ∃ quote value, (quote = '\'' ∨ quote = '"') ∧ quote ∉ value ∧
        taken = quote :: (value ++ [quote]) ∧ input = taken ++ rest := by
  constructor
  · intro h
    cases input with
    | nil => cases h
    | cons q left =>
        rcases hrun : run (· != q) left with ⟨value, after⟩
        rcases run_eq_iff.mp hrun with ⟨rfl, hvalue, hstop⟩
        simp only [quoted, hrun] at h
        split at h
        · rename_i hq
          cases after with
          | nil => cases h
          | cons c more =>
              cases h
              have hc : c = q := by simpa using hstop c rfl
              subst hc
              refine ⟨c, value, by simpa using hq, ?_, rfl, by simp⟩
              intro hmem
              simpa using hvalue c hmem
        · cases h
  · intro h
    rcases h with ⟨q, value, hq, hmem, rfl, rfl⟩
    have hrun : run (· != q) (value ++ q :: rest) = (value, q :: rest) := by
      refine run_eq_iff.mpr ⟨rfl, ?_, ?_⟩
      · intro c hc
        exact bne_iff_ne.mpr fun heq => hmem (heq ▸ hc)
      · intro c hc
        cases hc
        exact bne_self_eq_false q
    have hquote : (q == '\'' || q == '"') = true := by simpa using hq
    rw [List.cons_append, List.append_assoc, List.singleton_append]
    simp only [quoted, hquote, hrun, if_true]

theorem operator_eq_some_iff (arithmetic : Arithmetic) {op : Operator} :
    operator op input = some (taken, rest) ↔
      input = taken ++ rest ∧ (Lexeme.symbol (.operator op)).Spells arithmetic taken ∧
        ∀ c ∈ rest.head?, ¬ (Lexeme.symbol (.operator op)).Extends taken c := by
  simp only [Spells, Extends, operator]
  split
  · rename_i hword
    have hstop : (rest.takeWhile isNameChar).isEmpty = true ↔
        ∀ c ∈ rest.head?, ¬ (op.isWord = true ∧ isNameChar c = true) := by
      cases rest with
      | nil => simp
      | cons c more => cases h : isNameChar c <;> simp [h, hword]
    constructor
    · intro h
      split at h
      · rename_i found left hfound
        split at h
        · rename_i hempty
          cases h
          rcases ignoringCase_eq_some_iff.mp hfound with ⟨hspelling, hinput⟩
          exact ⟨hinput, hspelling, hstop.mp hempty⟩
        · cases h
      · cases h
    · intro h
      rcases h with ⟨hinput, hspelling, hrest⟩
      rw [ignoringCase_eq_some_iff.mpr ⟨hspelling, hinput⟩]
      simp only [hstop.mpr hrest, if_true]
  · rename_i hword
    rw [exactly_eq_some_iff]
    constructor
    · intro h
      rcases h with ⟨rfl, rfl⟩
      exact ⟨rfl, rfl, fun c _ hc => hword hc.1⟩
    · intro h
      rcases h with ⟨rfl, rfl, _⟩
      exact ⟨rfl, rfl⟩

end Scan
end TreeQuery
