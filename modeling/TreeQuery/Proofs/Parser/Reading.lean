import TreeQuery.Parser.Basic

/-!
# What readers read

A reader either reads something from the front of a text, misses or halts.  The
first two are relations here, with one lemma for every way of making a larger
reader from smaller ones.  The frontier plays no part in them.
-/

namespace TreeQuery
namespace Parser

variable {A B : Type}

/-- The reader takes a value from the front of the text and leaves the rest. -/
def Reads (p : Parser A) (input : List Char) (a : A) (rest : List Char) : Prop :=
  (p input).outcome = .done a rest

def Misses (p : Parser A) (input : List Char) : Prop :=
  (p input).outcome = .miss

section

variable {p : Parser A} {input rest : List Char} {a : A}

theorem Reads.not_misses (h : Reads p input a rest) : ¬ Misses p input := by
  intro hmiss
  unfold Reads at h
  unfold Misses at hmiss
  rw [h] at hmiss
  cases hmiss

end

/-!
# One after the other
-/

theorem reads_pure {a b : A} {input rest : List Char} :
    Reads (pure a : Parser A) input b rest ↔ b = a ∧ rest = input := by
  constructor
  · intro h
    cases h
    exact ⟨rfl, rfl⟩
  · intro h
    rcases h with ⟨rfl, rfl⟩
    rfl

theorem reads_bind {p : Parser A} {f : A → Parser B} {input rest : List Char} {b : B} :
    Reads (p >>= f) input b rest ↔
      ∃ a middle, Reads p input a middle ∧ Reads (f a) middle b rest := by
  show (Parser.bind p f input).outcome = _ ↔ _
  unfold Reads Parser.bind
  constructor
  · intro h
    rcases hp : p input with ⟨outcome, seen⟩
    rw [hp] at h
    cases outcome with
    | done a middle => exact ⟨a, middle, rfl, h⟩
    | miss => cases h
    | halt reason => cases h
  · intro h
    rcases h with ⟨a, middle, ha, hb⟩
    rcases hp : p input with ⟨outcome, seen⟩
    rw [hp] at ha
    cases ha
    exact hb

theorem Reads.bind {p : Parser A} {f : A → Parser B} {input middle rest : List Char} {a : A}
    {b : B} (ha : Reads p input a middle) (hb : Reads (f a) middle b rest) :
    Reads (p >>= f) input b rest :=
  reads_bind.mpr ⟨a, middle, ha, hb⟩

theorem misses_bind {p : Parser A} {f : A → Parser B} {input : List Char} :
    Misses (p >>= f) input ↔
      Misses p input ∨ ∃ a middle, Reads p input a middle ∧ Misses (f a) middle := by
  show (Parser.bind p f input).outcome = _ ↔ _
  unfold Reads Misses Parser.bind
  rcases p input with ⟨outcome, seen⟩
  cases outcome with
  | done a middle =>
      constructor
      · intro h
        exact Or.inr ⟨a, middle, rfl, h⟩
      · intro h
        rcases h with h | ⟨_, _, h, hmiss⟩
        · cases h
        · cases h
          exact hmiss
  | miss => simp
  | halt reason => simp

theorem Misses.bind {p : Parser A} {f : A → Parser B} {input : List Char} (h : Misses p input) :
    Misses (p >>= f) input :=
  misses_bind.mpr (Or.inl h)

theorem Reads.misses_bind {p : Parser A} {f : A → Parser B} {input middle : List Char} {a : A}
    (ha : Reads p input a middle) (hb : Misses (f a) middle) : Misses (p >>= f) input :=
  Parser.misses_bind.mpr (Or.inr ⟨a, middle, ha, hb⟩)

/-!
# One or the other
-/

theorem reads_orElse {p q : Parser A} {input rest : List Char} {a : A} :
    Reads (p.orElse q) input a rest ↔
      Reads p input a rest ∨ Misses p input ∧ Reads q input a rest := by
  unfold Reads Misses orElse
  rcases p input with ⟨outcome, seen⟩
  cases outcome with
  | done b left => simp
  | miss => simp
  | halt reason => simp

theorem misses_orElse {p q : Parser A} {input : List Char} :
    Misses (p.orElse q) input ↔ Misses p input ∧ Misses q input := by
  unfold Misses orElse
  rcases p input with ⟨outcome, seen⟩
  cases outcome with
  | done b left => simp
  | miss => simp
  | halt reason => simp

theorem Reads.orElse_left {p : Parser A} {input rest : List Char} {a : A}
    (h : Reads p input a rest) (q : Parser A) : Reads (p.orElse q) input a rest :=
  reads_orElse.mpr (Or.inl h)

theorem Reads.orElse_right {p q : Parser A} {input rest : List Char} {a : A}
    (h : Reads q input a rest) (hmiss : Misses p input) : Reads (p.orElse q) input a rest :=
  reads_orElse.mpr (Or.inr ⟨hmiss, h⟩)

theorem reads_option {p : Parser A} {input rest : List Char} {found : Option A} :
    Reads (option p) input found rest ↔
      match found with
      | some a => Reads p input a rest
      | none => Misses p input ∧ rest = input := by
  unfold Reads Misses option
  rcases p input with ⟨outcome, seen⟩
  cases outcome with
  | done b left => cases found <;> simp
  | miss => cases found <;> simp [eq_comm]
  | halt reason => cases found <;> simp

theorem Reads.option {p : Parser A} {input rest : List Char} {a : A} (h : Reads p input a rest) :
    Reads (option p) input (some a) rest :=
  reads_option.mpr h

theorem Misses.option {p : Parser A} {input : List Char} (h : Misses p input) :
    Reads (Parser.option p) input none input :=
  reads_option.mpr ⟨h, rfl⟩

/-!
# Again and again

A series is a row of readings, each of which takes something, up to a miss.
-/

inductive Series (p : Parser A) : List Char → List A → List Char → Prop where
  | stop {input : List Char} (h : Misses p input) : Series p input [] input
  | more {input middle rest : List Char} {a : A} {found : List A} (h : Reads p input a middle)
      (hshorter : middle.length < input.length) (hrest : Series p middle found rest) :
      Series p input (a :: found) rest

theorem Series.reads_manyWithin {p : Parser A} {input rest : List Char} {found : List A}
    (h : Series p input found rest) :
    ∀ fuel, input.length < fuel → Reads (manyWithin p fuel) input found rest := by
  induction h with
  | @stop input hmiss =>
      intro fuel hfuel
      cases fuel with
      | zero => cases hfuel
      | succ fuel =>
          unfold Misses at hmiss
          unfold Reads manyWithin
          rcases hp : p input with ⟨outcome, seen⟩
          rw [hp] at hmiss
          cases hmiss
          rfl
  | @more input middle rest a found ha hshorter _ ih =>
      intro fuel hfuel
      cases fuel with
      | zero => cases hfuel
      | succ fuel =>
          have hmiddle : middle.length < fuel :=
            Nat.lt_of_lt_of_le hshorter (Nat.le_of_lt_succ hfuel)
          have hnext : Reads (manyWithin p fuel >>= fun more => pure (a :: more)) middle
              (a :: found) rest :=
            (ih fuel hmiddle).bind (reads_pure.mpr ⟨rfl, rfl⟩)
          unfold Reads at ha
          unfold Reads manyWithin
          rcases hp : p input with ⟨outcome, seen⟩
          rw [hp] at ha
          cases ha
          exact hnext

theorem Series.reads_many {p : Parser A} {input rest : List Char} {found : List A}
    (h : Series p input found rest) : Reads (many p) input found rest :=
  h.reads_manyWithin (input.length + 1) (Nat.lt_succ_self input.length)

theorem Reads.many_induction {p : Parser A} {motive : List Char → List A → List Char → Prop}
    (hstop : ∀ input, motive input [] input)
    (hmore : ∀ input a middle found rest, Reads p input a middle → motive middle found rest →
      motive input (a :: found) rest)
    {input rest : List Char} {found : List A} (h : Reads (many p) input found rest) :
    motive input found rest := by
  have hwithin : ∀ fuel input found rest,
      Reads (manyWithin p fuel) input found rest → motive input found rest := by
    intro fuel
    induction fuel with
    | zero =>
        intro input found rest h
        cases h
        exact hstop input
    | succ fuel ih =>
        intro input found rest h
        unfold Reads manyWithin at h
        rcases hp : p input with ⟨outcome, seen⟩
        rw [hp] at h
        cases outcome with
        | done a middle =>
            have hnext : Reads (manyWithin p fuel >>= fun more => pure (a :: more)) middle
                found rest := h
            rcases reads_bind.mp hnext with ⟨more, left, hmany, hpure⟩
            rcases reads_pure.mp hpure with ⟨rfl, rfl⟩
            have ha : Reads p input a middle := by
              unfold Reads
              rw [hp]
            exact hmore input a middle more rest ha (ih middle more rest hmany)
        | miss =>
            cases h
            exact hstop input
        | halt reason => cases h
  exact hwithin (input.length + 1) input found rest h

/-!
# Scanners and what lies ahead
-/

variable {production : Production} {scanner : List Char → Option (List Char × List Char)}

theorem reads_scan {input taken rest : List Char} :
    Reads (scan production scanner) input taken rest ↔ scanner input = some (taken, rest) := by
  unfold Reads scan
  rcases scanner input with _ | ⟨found, left⟩
  · simp
  · simp

theorem misses_scan {input : List Char} :
    Misses (scan production scanner) input ↔ scanner input = none := by
  unfold Misses scan
  rcases scanner input with _ | ⟨found, left⟩
  · simp
  · simp

theorem reads_ahead {chars input rest : List Char} {found : Bool} :
    Reads (ahead chars) input found rest ↔ found = chars.isPrefixOf input ∧ rest = input := by
  unfold Reads ahead
  simp [eq_comm]

theorem misses_fail {input : List Char} : Misses (fail production : Parser A) input :=
  rfl

end Parser
end TreeQuery
