import TreeQuery.Proofs.Parser.Reading

/-!
# What readers report

Beside what it reads, a reader shows signs: the productions of its frontier, and
the reason if it halts.  Every sign of a larger reader is one of its parts, which
has started where the parts before it have left off.  This goes in one direction
only, since a frontier further on hides the nearer ones.
-/

namespace TreeQuery

namespace Frontier

def Holds (f : Frontier) (remaining : Nat) (production : Production) : Prop :=
  f.remaining = remaining ∧ production ∈ f.expected

theorem not_holds_none {remaining : Nat} {production : Production} :
    ¬ Frontier.none.Holds remaining production := by
  intro h
  cases h.2

theorem Holds.of_join {a b : Frontier} {remaining : Nat} {production : Production}
    (h : (a.join b).Holds remaining production) :
    a.Holds remaining production ∨ b.Holds remaining production := by
  unfold join at h
  split at h
  · exact Or.inr h
  · split at h
    · exact Or.inl h
    · split at h
      · exact Or.inl h
      · split at h
        · exact Or.inr h
        · rename_i hle hge
          rcases List.mem_append.mp h.2 with hmem | hmem
          · exact Or.inl ⟨h.1, hmem⟩
          · have hsame : b.remaining = a.remaining :=
              Nat.le_antisymm (Nat.le_of_not_lt hle) (Nat.le_of_not_lt hge)
            exact Or.inr ⟨hsame.trans h.1, (List.mem_filter.mp hmem).1⟩

theorem join_expected_ne_nil {a b : Frontier} (h : a.expected ≠ [] ∨ b.expected ≠ []) :
    (a.join b).expected ≠ [] := by
  unfold join
  split
  · rename_i ha
    exact h.resolve_left fun hne => hne (List.isEmpty_iff.mp ha)
  · rename_i ha
    have ha : a.expected ≠ [] := fun hnil => ha (List.isEmpty_iff.mpr hnil)
    split
    · exact ha
    · rename_i hb
      split
      · exact ha
      · split
        · exact fun hnil => hb (List.isEmpty_iff.mpr hnil)
        · exact List.append_ne_nil_of_left_ne_nil ha _

end Frontier

inductive Sign where
  | expects (remaining : Nat) (production : Production)
  | halts (reason : Halt)

namespace Reply

variable {A B : Type} {sign : Sign}

def Shows (r : Reply A) : Sign → Prop
  | .expects remaining production => r.frontier.Holds remaining production
  | .halts reason => r.outcome = .halt reason

theorem Shows.of_same {r : Reply A} {r' : Reply B} (h : r.Shows sign)
    (hfrontier : r.frontier = r'.frontier)
    (houtcome : ∀ reason, r.outcome = .halt reason → r'.outcome = .halt reason) :
    r'.Shows sign := by
  cases sign with
  | expects remaining production =>
      have h : r.frontier.Holds remaining production := h
      rw [hfrontier] at h
      exact h
  | halts reason => exact houtcome reason h

theorem Shows.of_join {r : Reply A} {next : Reply B}
    (h : Shows ⟨next.outcome, r.frontier.join next.frontier⟩ sign) :
    r.Shows sign ∨ next.Shows sign := by
  cases sign with
  | expects remaining production => exact Frontier.Holds.of_join h
  | halts reason => exact Or.inr h

theorem not_shows_none {outcome : Outcome A} (houtcome : ∀ reason, outcome ≠ .halt reason) :
    ¬ Shows ⟨outcome, .none⟩ sign := by
  intro h
  cases sign with
  | expects remaining production => exact Frontier.not_holds_none h
  | halts reason => exact houtcome reason h

theorem Shows.of_single {production : Production} {remaining : Nat}
    (h : Shows (⟨.miss, ⟨remaining, [production]⟩⟩ : Reply A) sign) :
    sign = .expects remaining production := by
  cases sign with
  | expects remaining' production' =>
      rcases h with ⟨hremaining, hmem⟩
      rw [List.mem_singleton.mp hmem, ← hremaining]
  | halts reason => cases h

end Reply

namespace Parser

variable {A B : Type}

def Shows (p : Parser A) (input : List Char) (sign : Sign) : Prop :=
  (p input).Shows sign

section

variable {input : List Char} {sign : Sign}

/-!
# Signs of the parts
-/

theorem not_shows_pure {a : A} : ¬ Shows (pure a : Parser A) input sign :=
  Reply.not_shows_none fun _ h => by cases h

theorem Shows.of_bind {p : Parser A} {f : A → Parser B} (h : Shows (p >>= f) input sign) :
    Shows p input sign ∨ ∃ a middle, Reads p input a middle ∧ Shows (f a) middle sign := by
  have h : (Parser.bind p f input).Shows sign := h
  revert h
  unfold Shows Reads Parser.bind
  rcases p input with ⟨outcome, seen⟩
  intro h
  cases outcome with
  | done a middle => exact h.of_join.imp id fun h => ⟨a, middle, rfl, h⟩
  | miss => exact Or.inl (h.of_same rfl fun _ h => by cases h)
  | halt reason => exact Or.inl (h.of_same rfl fun _ h => by cases h; rfl)

theorem Shows.of_bind_pure {p : Parser A} {f : A → B}
    (h : Shows (p >>= fun a => pure (f a)) input sign) : Shows p input sign := by
  rcases h.of_bind with h | ⟨a, middle, _, h⟩
  · exact h
  · exact absurd h not_shows_pure

theorem Shows.of_orElse {p q : Parser A} (h : Shows (p.orElse q) input sign) :
    Shows p input sign ∨ Misses p input ∧ Shows q input sign := by
  revert h
  unfold Shows Misses orElse
  rcases p input with ⟨outcome, seen⟩
  intro h
  cases outcome with
  | done a middle => exact Or.inl h
  | miss => exact h.of_join.imp id fun h => ⟨rfl, h⟩
  | halt reason => exact Or.inl h

theorem Shows.of_option {p : Parser A} (h : Shows (option p) input sign) :
    Shows p input sign := by
  revert h
  unfold Shows option
  rcases p input with ⟨outcome, seen⟩
  intro h
  cases outcome with
  | done a middle => exact h.of_same rfl fun _ h => by cases h
  | miss => exact h.of_same rfl fun _ h => by cases h
  | halt reason => exact h.of_same rfl fun _ h => by cases h; rfl

theorem Shows.of_manyWithin_succ {p : Parser A} {fuel : Nat}
    (h : Shows (manyWithin p (fuel + 1)) input sign) :
    Shows p input sign ∨ ∃ a middle, Reads p input a middle ∧
      Shows (manyWithin p fuel) middle sign := by
  revert h
  unfold Shows Reads
  rw [manyWithin]
  dsimp only
  rcases p input with ⟨outcome, seen⟩
  intro h
  cases outcome with
  | done a middle =>
      refine h.of_join.imp id fun h => ⟨a, middle, rfl, ?_⟩
      have h : Shows (manyWithin p fuel >>= fun more => pure (a :: more)) middle sign := h
      exact h.of_bind_pure
  | miss => exact Or.inl (h.of_same rfl fun _ h => by cases h)
  | halt reason => exact Or.inl (h.of_same rfl fun _ h => by cases h; rfl)

/-- What a repetition shows is shown by one of its rounds, after some others. -/
theorem Shows.many_induction {p : Parser A} {motive : List Char → Prop}
    (hhere : ∀ input, Shows p input sign → motive input)
    (hmore : ∀ input a middle, Reads p input a middle → motive middle → motive input)
    (h : Shows (many p) input sign) : motive input := by
  have hwithin : ∀ fuel input, Shows (manyWithin p fuel) input sign → motive input := by
    intro fuel
    induction fuel with
    | zero =>
        intro input h
        exact absurd h not_shows_pure
    | succ fuel ih =>
        intro input h
        rcases h.of_manyWithin_succ with h | ⟨a, middle, ha, h⟩
        · exact hhere input h
        · exact hmore input a middle ha (ih middle h)
  exact hwithin (input.length + 1) input h

theorem Shows.of_scan {production : Production}
    {scanner : List Char → Option (List Char × List Char)}
    (h : Shows (scan production scanner) input sign) :
    sign = .expects input.length production := by
  revert h
  unfold Shows scan
  rcases scanner input with _ | ⟨taken, rest⟩
  · exact fun h => h.of_single
  · exact fun h => absurd h (Reply.not_shows_none fun _ h => by cases h)

theorem Shows.of_fail {production : Production}
    (h : Shows (fail production : Parser A) input sign) :
    sign = .expects input.length production :=
  Reply.Shows.of_single h

theorem not_shows_ahead {chars : List Char} : ¬ Shows (ahead chars) input sign :=
  Reply.not_shows_none fun _ h => by cases h

end

/-!
# Misses and their frontier

A reader that misses has looked for something in vain.
-/

/-- Whenever the reader misses there is something at its frontier. -/
def Accounts (p : Parser A) : Prop :=
  ∀ input, Misses p input → (p input).frontier.expected ≠ []

theorem accounts_pure {a : A} : Accounts (pure a : Parser A) := by
  intro input h
  cases h

theorem accounts_scan {production : Production}
    {scanner : List Char → Option (List Char × List Char)} :
    Accounts (scan production scanner) := by
  intro input
  unfold Misses scan
  rcases scanner input with _ | ⟨taken, rest⟩
  · intro _
    exact List.cons_ne_nil production []
  · intro h
    cases h

theorem Accounts.bind {p : Parser A} {f : A → Parser B} (hp : Accounts p)
    (hf : ∀ a, Accounts (f a)) : Accounts (p >>= f) := by
  intro input
  have hp := hp input
  revert hp
  show _ → Misses (Parser.bind p f) input → (Parser.bind p f input).frontier.expected ≠ []
  unfold Misses Parser.bind
  rcases p input with ⟨outcome, seen⟩
  intro hp h
  cases outcome with
  | done a middle => exact Frontier.join_expected_ne_nil (Or.inr (hf a middle h))
  | miss => exact hp rfl
  | halt reason => cases h

theorem Accounts.orElse {p q : Parser A} (hq : Accounts q) : Accounts (p.orElse q) := by
  intro input
  unfold Misses Parser.orElse
  rcases p input with ⟨outcome, seen⟩
  intro h
  cases outcome with
  | done a middle => cases h
  | miss => exact Frontier.join_expected_ne_nil (Or.inr (hq input h))
  | halt reason => cases h

theorem accounts_option {p : Parser A} : Accounts (option p) := by
  intro input
  unfold Misses option
  rcases p input with ⟨outcome, seen⟩
  intro h
  cases outcome <;> cases h

theorem not_misses_manyWithin {p : Parser A} (fuel : Nat) :
    ∀ input, ¬ Misses (manyWithin p fuel) input := by
  induction fuel with
  | zero =>
      intro input h
      cases h
  | succ fuel ih =>
      intro input
      unfold Misses manyWithin
      rcases p input with ⟨outcome, seen⟩
      intro h
      cases outcome with
      | done a middle =>
          have h : Misses (manyWithin p fuel >>= fun more => pure (a :: more)) middle := h
          rcases misses_bind.mp h with h | ⟨more, rest, _, h⟩
          · exact ih middle h
          · cases h
      | miss => cases h
      | halt reason => cases h

theorem accounts_many {p : Parser A} : Accounts (many p) := by
  intro input h
  exact absurd h (not_misses_manyWithin (input.length + 1) input)

end Parser
end TreeQuery
