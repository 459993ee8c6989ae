import Mathlib.Data.List.Nodup
import TreeQuery.Proofs.Token.Form
import TreeQuery.Token.Walk

/-!
# What a walk tells

A walk tells a visitor about a token tree in one call after another.  With the
place of the token each call is about, the calls are properly nested: every
token that is reached is entered and left once, every phrase that is reached is
started and finished in between, even if its parts are skipped, and the leaves
come in the order of the text.
-/

namespace TreeQuery
namespace Token

/-!
# Places

The place of a token is the row of indexes that leads to it from the top.
-/

mutual

/-- All tokens in a token that stands at a place, each with its own place, in the order of the
text and phrases before their parts. -/
def locatedFrom (p : List Nat) : Token → List (List Nat × Token)
  | .leaf lexeme text => [(p, .leaf lexeme text)]
  | .phrase kind parts => (p, .phrase kind parts) :: locatedFromAll p 0 parts

def locatedFromAll (p : List Nat) (i : Nat) : List Token → List (List Nat × Token)
  | [] => []
  | t :: ts => locatedFrom (p ++ [i]) t ++ locatedFromAll p (i + 1) ts

end

def located (t : Token) : List (List Nat × Token) :=
  locatedFrom [] t

def leaf? : Token → Option (Lexeme × String)
  | .leaf lexeme text => some (lexeme, text)
  | .phrase _ _ => none

def leavesAmong (xs : List (List Nat × Token)) : List (List Nat × Lexeme × String) :=
  xs.filterMap fun x => x.2.leaf?.map (x.1, ·)

theorem leavesAmong_append (xs ys : List (List Nat × Token)) :
    leavesAmong (xs ++ ys) = leavesAmong xs ++ leavesAmong ys :=
  List.filterMap_append

theorem exists_token_of_mem_leavesAmong {xs : List (List Nat × Token)}
    {leaf : List Nat × Lexeme × String} (h : leaf ∈ leavesAmong xs) : ∃ x ∈ xs, x.1 = leaf.1 := by
  rcases List.mem_filterMap.mp h with ⟨x, hx, hleaf⟩
  rcases Option.map_eq_some_iff.mp hleaf with ⟨_, _, rfl⟩
  exact ⟨x, hx, rfl⟩

mutual

theorem map_leavesAmong_locatedFrom (p : List Nat) :
    ∀ t : Token, (leavesAmong (locatedFrom p t)).map Prod.snd = t.leaves
  | .leaf _ _ => rfl
  | .phrase _ parts => map_leavesAmong_locatedFromAll p 0 parts

theorem map_leavesAmong_locatedFromAll (p : List Nat) (i : Nat) :
    ∀ ts : List Token, (leavesAmong (locatedFromAll p i ts)).map Prod.snd = leavesAll ts
  | [] => rfl
  | t :: ts => by
      rw [locatedFromAll, leavesAmong_append, List.map_append,
        map_leavesAmong_locatedFrom (p ++ [i]) t, map_leavesAmong_locatedFromAll p (i + 1) ts,
        leavesAll]

end

mutual

theorem locatedFrom_beyond {p : List Nat} {x : List Nat × Token} :
    ∀ {t : Token}, x ∈ locatedFrom p t → ∃ q, x.1 = p ++ q
  | .leaf _ _, hx => by
      rw [List.mem_singleton.mp hx]
      exact ⟨[], (List.append_nil p).symm⟩
  | .phrase _ _, hx => by
      rcases List.mem_cons.mp hx with rfl | hx
      · exact ⟨[], (List.append_nil p).symm⟩
      · rcases locatedFromAll_beyond hx with ⟨j, q, _, hplace⟩
        exact ⟨j :: q, hplace⟩

theorem locatedFromAll_beyond {p : List Nat} {i : Nat} {x : List Nat × Token} :
    ∀ {ts : List Token}, x ∈ locatedFromAll p i ts → ∃ j q, i ≤ j ∧ x.1 = p ++ j :: q
  | t :: ts, hx => by
      rcases List.mem_append.mp hx with hx | hx
      · rcases locatedFrom_beyond hx with ⟨q, hplace⟩
        exact ⟨i, q, Nat.le_refl i, hplace.trans (List.append_assoc p [i] q)⟩
      · rcases locatedFromAll_beyond hx with ⟨j, q, hj, hplace⟩
        exact ⟨j, q, Nat.le_of_succ_le hj, hplace⟩

end

theorem ne_beyond (p : List Nat) (i : Nat) (q : List Nat) : p ++ i :: q ≠ p :=
  fun h => List.cons_ne_nil i q (List.append_right_eq_self.mp h)

theorem ne_of_beyond {p x y : List Nat} {i : Nat} (hx : ∃ q, x = p ++ [i] ++ q)
    (hy : ∃ j q, i < j ∧ y = p ++ j :: q) : x ≠ y := by
  rcases hx with ⟨q, rfl⟩
  rcases hy with ⟨j, r, hj, rfl⟩
  intro heq
  rw [List.append_assoc] at heq
  exact Nat.ne_of_lt hj (List.cons.inj (List.append_cancel_left heq)).1

mutual

theorem nodup_locatedFrom (p : List Nat) :
    ∀ t : Token, ((locatedFrom p t).map Prod.fst).Nodup
  | .leaf _ _ => List.nodup_singleton p
  | .phrase kind parts => by
      rw [locatedFrom, List.map_cons, List.nodup_cons]
      refine ⟨?_, nodup_locatedFromAll p 0 parts⟩
      intro hp
      rcases List.mem_map.mp hp with ⟨x, hx, hplace⟩
      rcases locatedFromAll_beyond hx with ⟨j, q, _, hbeyond⟩
      exact ne_beyond p j q (hbeyond.symm.trans hplace)

theorem nodup_locatedFromAll (p : List Nat) (i : Nat) :
    ∀ ts : List Token, ((locatedFromAll p i ts).map Prod.fst).Nodup
  | [] => .nil
  | t :: ts => by
      rw [locatedFromAll, List.map_append, List.nodup_append]
      refine ⟨nodup_locatedFrom (p ++ [i]) t, nodup_locatedFromAll p (i + 1) ts, ?_⟩
      intro place hplace place' hplace'
      rcases List.mem_map.mp hplace with ⟨x, hx, rfl⟩
      rcases List.mem_map.mp hplace' with ⟨y, hy, rfl⟩
      exact ne_of_beyond (locatedFrom_beyond hx) (locatedFromAll_beyond hy)

end

/-!
# Notes

A visitor can be made to write down what it is told.
-/

/-- What a visitor is told, the state it is told in, and its answer if it is asked for one. -/
structure Note (S : Type) where
  state : S
  event : Event
  answer : Option Visit

end Token

namespace Visitor

open Token (Note Event)

variable {S A : Type}

def noted (event : Event) (answer? : A → Option Visit) (hook : StateM S A) :
    StateM (S × List (Note S)) A :=
  modifyGet fun (s, notes) =>
    let (a, s') := hook.run s
    (a, s', notes ++ [⟨s, event, answer? a⟩])

/-- The visitor, with notes on everything it is told. -/
def traced (v : Visitor (StateM S)) : Visitor (StateM (S × List (Note S))) where
  enter t := noted (.enter t) (fun _ => none) (v.enter t)
  leave t := noted (.leave t) (fun _ => none) (v.leave t)
  start kind parts := noted (.start kind parts) some (v.start kind parts)
  finish kind parts := noted (.finish kind parts) (fun _ => none) (v.finish kind parts)
  leaf lexeme text := noted (.leaf lexeme text) (fun _ => none) (v.leaf lexeme text)

def Adds (plain : StateM S A) (traced : StateM (S × List (Note S)) A) (s : S)
    (new : List (Note S)) : Prop :=
  ∀ notes, traced.run (s, notes) = ((plain.run s).1, (plain.run s).2, notes ++ new)

section

variable (v : Visitor (StateM S)) (s : S)

theorem adds_enter (t : Token) :
    Adds (v.enter t) (v.traced.enter t) s [⟨s, .enter t, none⟩] :=
  fun _ => rfl

theorem adds_leave (t : Token) :
    Adds (v.leave t) (v.traced.leave t) s [⟨s, .leave t, none⟩] :=
  fun _ => rfl

theorem adds_start {s' : S} {kind : Phrase} {parts : List Token} {answer : Visit}
    (h : (v.start kind parts).run s = (answer, s')) :
    Adds (v.start kind parts) (v.traced.start kind parts) s
      [⟨s, .start kind parts, some answer⟩] := by
  cases congrArg Prod.fst h
  exact fun _ => rfl

theorem adds_finish (kind : Phrase) (parts : List Token) :
    Adds (v.finish kind parts) (v.traced.finish kind parts) s [⟨s, .finish kind parts, none⟩] :=
  fun _ => rfl

theorem adds_leaf (lexeme : Lexeme) (text : String) :
    Adds (v.leaf lexeme text) (v.traced.leaf lexeme text) s [⟨s, .leaf lexeme text, none⟩] :=
  fun _ => rfl

end

theorem adds_pure (a : A) (s : S) : Adds (pure a) (pure a) s [] :=
  fun notes => congrArg (fun notes => (a, s, notes)) (List.append_nil notes).symm

theorem Adds.bind {B : Type} {x : StateM S A} {x' : StateM (S × List (Note S)) A}
    {f : A → StateM S B} {f' : A → StateM (S × List (Note S)) B} {a : A} {s s' : S}
    {first rest : List (Note S)} (hx : Adds x x' s first) (h : x.run s = (a, s'))
    (hf : Adds (f a) (f' a) s' rest) : Adds (x >>= f) (x' >>= f') s (first ++ rest) := by
  intro notes
  show (f' (x'.run (s, notes)).1).run (x'.run (s, notes)).2 =
    (((f (x.run s).1).run (x.run s).2).1, ((f (x.run s).1).run (x.run s).2).2, _)
  rw [hx notes, h, ← List.append_assoc]
  exact hf (notes ++ first)

theorem Adds.andThen {B : Type} {x : StateM S A} {x' : StateM (S × List (Note S)) A}
    {y : StateM S B} {y' : StateM (S × List (Note S)) B} {s : S} {first rest : List (Note S)}
    (hx : Adds x x' s first) (hy : Adds y y' (x.run s).2 rest) :
    Adds (x >>= fun _ => y) (x' >>= fun _ => y') s (first ++ rest) :=
  hx.bind rfl hy

end Visitor

namespace Token

variable {S : Type}

def ownEvents : Token → List Event
  | .leaf lexeme text => [.enter (.leaf lexeme text), .leaf lexeme text, .leave (.leaf lexeme text)]
  | .phrase kind parts =>
      [.enter (.phrase kind parts), .start kind parts, .finish kind parts,
        .leave (.phrase kind parts)]

/-- Events with places of which each that opens something is followed by the one that closes it,
at the same place and in the right order. -/
inductive WellNested : List (List Nat × Event) → Prop
  | nil : WellNested []
  | leaf (p : List Nat) (lexeme : Lexeme) (text : String) :
      WellNested [(p, .enter (.leaf lexeme text)), (p, .leaf lexeme text),
        (p, .leave (.leaf lexeme text))]
  | phrase (p : List Nat) (kind : Phrase) (parts : List Token) {inner : List (List Nat × Event)}
      (h : WellNested inner) :
      WellNested ((p, .enter (.phrase kind parts)) :: (p, .start kind parts) ::
        (inner ++ [(p, .finish kind parts), (p, .leave (.phrase kind parts))]))
  | append {xs ys : List (List Nat × Event)} (hxs : WellNested xs) (hys : WellNested ys) :
      WellNested (xs ++ ys)

/-!
# Traces

Notes with the places of the tokens they are about.
-/

abbrev Trace (S : Type) :=
  List (List Nat × Note S)

namespace Trace

def events (τ : Trace S) : List (List Nat × Event) :=
  τ.map fun n => (n.1, n.2.event)

def eventsAt (τ : Trace S) (p : List Nat) : List Event :=
  (τ.filter fun n => n.1 == p).map fun n => n.2.event

def answers (τ : Trace S) : List (List Nat × Visit) :=
  τ.filterMap fun n => n.2.answer.map (n.1, ·)

def leaves (τ : Trace S) : List (List Nat × Lexeme × String) :=
  τ.filterMap fun n =>
    match n.2.event with
    | .leaf lexeme text => some (n.1, lexeme, text)
    | _ => none

def skips (τ : Trace S) (p : List Nat) : Bool :=
  τ.answers.contains (p, .skip)

end Trace

def isReached (skips : List Nat → Bool) (p : List Nat) : Bool :=
  (List.range p.length).all fun k => !skips (p.take k)

/-- A proper trace of a walk over a token, whatever phrases are skipped. -/
structure IsTrace (t : Token) (τ : Trace S) : Prop where
  wellNested : WellNested τ.events
  /-- Nothing is told but of tokens of the tree. -/
  located : ∀ n ∈ τ, ∃ u, (n.1, u) ∈ t.located
  /-- A token that is reached is entered and left, and started and finished in between if it is a
  phrase, once each.  Of any other token nothing is told. -/
  eventsAt : ∀ x ∈ t.located,
    τ.eventsAt x.1 = if isReached τ.skips x.1 then x.2.ownEvents else []
  /-- The leaves come in the order of the text, and none is missing but those in skipped phrases. -/
  leaves : τ.leaves = (leavesAmong t.located).filter fun x => isReached τ.skips x.1

namespace Trace

variable {p : List Nat} {τ inner : Trace S}

def around (p : List Nat) (kind : Phrase) (parts : List Token) (answer : Visit)
    (s₁ s₂ s₃ s₄ : S) (inner : Trace S) : Trace S :=
  [(p, ⟨s₁, .enter (.phrase kind parts), none⟩), (p, ⟨s₂, .start kind parts, some answer⟩)] ++
    inner ++
    [(p, ⟨s₃, .finish kind parts, none⟩), (p, ⟨s₄, .leave (.phrase kind parts), none⟩)]

theorem eventsAt_append (xs ys : Trace S) (p : List Nat) :
    eventsAt (xs ++ ys) p = xs.eventsAt p ++ ys.eventsAt p := by
  rw [eventsAt, List.filter_append, List.map_append, eventsAt, eventsAt]

theorem answers_append (xs ys : Trace S) : answers (xs ++ ys) = xs.answers ++ ys.answers :=
  List.filterMap_append

theorem leaves_append (xs ys : Trace S) : leaves (xs ++ ys) = xs.leaves ++ ys.leaves :=
  List.filterMap_append

theorem eventsAt_eq_nil (h : ∀ n ∈ τ, n.1 ≠ p) : τ.eventsAt p = [] := by
  rw [eventsAt, List.filter_eq_nil_iff.mpr fun n hn => by simpa using h n hn, List.map_nil]

theorem exists_note_of_mem_answers {x : List Nat × Visit} (h : x ∈ τ.answers) :
    ∃ n ∈ τ, n.1 = x.1 := by
  rcases List.mem_filterMap.mp h with ⟨n, hn, hx⟩
  rcases Option.map_eq_some_iff.mp hx with ⟨answer, _, rfl⟩
  exact ⟨n, hn, rfl⟩

section

variable {kind : Phrase} {parts : List Token} {answer : Visit} {s₁ s₂ s₃ s₄ : S}

theorem mem_around {n : List Nat × Note S}
    (h : n ∈ around p kind parts answer s₁ s₂ s₃ s₄ inner) : n.1 = p ∨ n ∈ inner := by
  rcases List.mem_append.mp h with h | hclosing
  · rcases List.mem_append.mp h with hopening | hinner
    · rcases List.mem_pair.mp hopening with rfl | rfl
      · exact Or.inl rfl
      · exact Or.inl rfl
    · exact Or.inr hinner
  · rcases List.mem_pair.mp hclosing with rfl | rfl
    · exact Or.inl rfl
    · exact Or.inl rfl

theorem events_around : (around p kind parts answer s₁ s₂ s₃ s₄ inner).events =
    [(p, .enter (.phrase kind parts)), (p, .start kind parts)] ++ inner.events ++
      [(p, .finish kind parts), (p, .leave (.phrase kind parts))] := by
  rw [around, events, List.map_append, List.map_append]
  rfl

theorem answers_around : (around p kind parts answer s₁ s₂ s₃ s₄ inner).answers =
    (p, answer) :: inner.answers := by
  rw [around, answers_append, answers_append]
  exact List.append_nil _

theorem leaves_around :
    (around p kind parts answer s₁ s₂ s₃ s₄ inner).leaves = inner.leaves := by
  rw [around, leaves_append, leaves_append]
  exact List.append_nil _

theorem eventsAt_around (h : ∀ n ∈ inner, n.1 ≠ p) :
    (around p kind parts answer s₁ s₂ s₃ s₄ inner).eventsAt p =
      (Token.phrase kind parts).ownEvents := by
  rw [around, eventsAt_append, eventsAt_append, eventsAt_eq_nil h]
  simp [eventsAt, ownEvents]

theorem eventsAt_around_of_ne {q : List Nat} (h : q ≠ p) :
    (around p kind parts answer s₁ s₂ s₃ s₄ inner).eventsAt q = inner.eventsAt q := by
  rw [around, eventsAt_append, eventsAt_append]
  simp [eventsAt, h.symm]

end

end Trace

/-!
# Walks

The notes on a walk are those of its tokens, one after the other, with those of
the parts in the middle of those of the phrase.
-/

mutual

inductive Walked : List Nat → Token → Trace S → Prop
  | leaf (p : List Nat) (lexeme : Lexeme) (text : String) (s₁ s₂ s₃ : S) :
      Walked p (.leaf lexeme text)
        [(p, ⟨s₁, .enter (.leaf lexeme text), none⟩), (p, ⟨s₂, .leaf lexeme text, none⟩),
          (p, ⟨s₃, .leave (.leaf lexeme text), none⟩)]
  | phrase {p : List Nat} {parts : List Token} {answer : Visit} {inner : Trace S} (kind : Phrase)
      (s₁ s₂ s₃ s₄ : S) (h : WalkedAll p 0 answer parts inner) :
      Walked p (.phrase kind parts) (.around p kind parts answer s₁ s₂ s₃ s₄ inner)

inductive WalkedAll : List Nat → Nat → Visit → List Token → Trace S → Prop
  | skipped (p : List Nat) (i : Nat) (ts : List Token) : WalkedAll p i .skip ts []
  | nil (p : List Nat) (i : Nat) : WalkedAll p i .parts [] []
  | cons {p : List Nat} {i : Nat} {t : Token} {ts : List Token} {head tail : Trace S}
      (hhead : Walked (p ++ [i]) t head) (htail : WalkedAll p (i + 1) .parts ts tail) :
      WalkedAll p i .parts (t :: ts) (head ++ tail)

end

def walkParts (v : Visitor (StateM S)) (parts : List Token) : Visit → StateM S Unit
  | .parts => walkAll v parts
  | .skip => pure ()

theorem walk_phrase (v : Visitor (StateM S)) (kind : Phrase) (parts : List Token) :
    walk v (.phrase kind parts) =
      (v.enter (.phrase kind parts) >>= fun _ => v.start kind parts >>= fun answer =>
        walkParts v parts answer >>= fun _ => v.finish kind parts >>= fun _ =>
          v.leave (.phrase kind parts)) := by
  rw [walk]
  refine congrArg _ (funext fun _ => congrArg _ (funext fun answer => ?_))
  cases answer with
  | parts => rfl
  | skip => rfl

theorem exists_walkedParts {v : Visitor (StateM S)} {parts : List Token} {p : List Nat} {s : S}
    (h : ∃ τ, WalkedAll p 0 .parts parts τ ∧
      Visitor.Adds (walkAll v parts) (walkAll v.traced parts) s (τ.map Prod.snd)) :
    ∀ answer, ∃ τ, WalkedAll p 0 answer parts τ ∧
      Visitor.Adds (walkParts v parts answer) (walkParts v.traced parts answer) s (τ.map Prod.snd)
  | .parts => h
  | .skip => ⟨[], .skipped p 0 parts, Visitor.adds_pure () s⟩

mutual

/-- Writing down what it is told does not disturb a visitor, and the notes are those on a walk. -/
theorem exists_walked (v : Visitor (StateM S)) : ∀ (t : Token) (p : List Nat) (s : S),
    ∃ τ, Walked p t τ ∧ Visitor.Adds (walk v t) (walk v.traced t) s (τ.map Prod.snd)
  | .leaf lexeme text, p, s => by
      have hadds := (v.adds_enter s (.leaf lexeme text)).andThen
        ((v.adds_leaf _ lexeme text).andThen (v.adds_leave _ (.leaf lexeme text)))
      rw [walk, walk]
      exact ⟨_, .leaf p lexeme text _ _ _, hadds⟩
  | .phrase kind parts, p, s => by
      have henter := v.adds_enter s (.phrase kind parts)
      rcases h : (v.start kind parts).run ((v.enter (.phrase kind parts)).run s).2 with
        ⟨answer, s'⟩
      rcases exists_walkedParts (exists_walkedAll v parts p 0 s') answer with
        ⟨inner, hinner, hparts⟩
      have hclose := hparts.andThen
        ((v.adds_finish _ kind parts).andThen (v.adds_leave _ (.phrase kind parts)))
      have hadds : ∃ s₁ s₂ s₃ s₄, Visitor.Adds (walk v (.phrase kind parts))
          (walk v.traced (.phrase kind parts)) s
          ((Trace.around p kind parts answer s₁ s₂ s₃ s₄ inner).map Prod.snd) := by
        rw [walk_phrase, walk_phrase]
        simp only [Trace.around, List.map_append, List.append_assoc]
        exact ⟨_, _, _, _, henter.andThen ((v.adds_start _ h).bind h hclose)⟩
      rcases hadds with ⟨s₁, s₂, s₃, s₄, hadds⟩
      exact ⟨_, .phrase kind s₁ s₂ s₃ s₄ hinner, hadds⟩

theorem exists_walkedAll (v : Visitor (StateM S)) : ∀ (ts : List Token) (p : List Nat) (i : Nat)
    (s : S), ∃ τ, WalkedAll p i .parts ts τ ∧
      Visitor.Adds (walkAll v ts) (walkAll v.traced ts) s (τ.map Prod.snd)
  | [], p, i, s => ⟨[], .nil p i, Visitor.adds_pure () s⟩
  | t :: ts, p, i, s => by
      rcases exists_walked v t (p ++ [i]) s with ⟨head, hhead, ht⟩
      rcases exists_walkedAll v ts p (i + 1) ((walk v t).run s).2 with ⟨tail, htail, hts⟩
      refine ⟨_, .cons hhead htail, ?_⟩
      rw [walkAll, walkAll, List.map_append]
      exact ht.andThen hts

end

/-!
# Nesting
-/

mutual

theorem Walked.wellNested {p : List Nat} {t : Token} {τ : Trace S} :
    Walked p t τ → WellNested τ.events
  | .leaf p lexeme text _ _ _ => .leaf p lexeme text
  | .phrase kind _ _ _ _ h => by
      rw [Trace.events_around]
      exact .phrase _ kind _ h.wellNested

theorem WalkedAll.wellNested {p : List Nat} {i : Nat} {answer : Visit} {ts : List Token}
    {τ : Trace S} : WalkedAll p i answer ts τ → WellNested τ.events
  | .skipped _ _ _ => .nil
  | .nil _ _ => .nil
  | .cons hhead htail => by
      rw [Trace.events, List.map_append]
      exact .append hhead.wellNested htail.wellNested

end

/-!
# Locations
-/

mutual

theorem Walked.located {p : List Nat} {t : Token} {τ : Trace S} :
    Walked p t τ → ∀ n ∈ τ, ∃ u, (n.1, u) ∈ locatedFrom p t
  | .leaf p lexeme text _ _ _, n, hn => by
      have hplace : n.1 = p := by
        rcases List.mem_cons.mp hn with rfl | hn
        · rfl
        · rcases List.mem_pair.mp hn with rfl | rfl
          · rfl
          · rfl
      rw [hplace]
      exact ⟨_, List.mem_singleton_self _⟩
  | .phrase _ _ _ _ _ h, n, hn => by
      rcases Trace.mem_around hn with hplace | hinner
      · rw [hplace]
        exact ⟨_, List.mem_cons_self⟩
      · rcases h.located n hinner with ⟨u, hu⟩
        exact ⟨u, List.mem_cons_of_mem _ hu⟩

theorem WalkedAll.located {p : List Nat} {i : Nat} {answer : Visit} {ts : List Token}
    {τ : Trace S} : WalkedAll p i answer ts τ → ∀ n ∈ τ, ∃ u, (n.1, u) ∈ locatedFromAll p i ts
  | .cons hhead htail, n, hn => by
      rcases List.mem_append.mp hn with hn | hn
      · rcases hhead.located n hn with ⟨u, hu⟩
        exact ⟨u, List.mem_append_left _ hu⟩
      · rcases htail.located n hn with ⟨u, hu⟩
        exact ⟨u, List.mem_append_right _ hu⟩

end

theorem Walked.beyond {p : List Nat} {t : Token} {τ : Trace S} (h : Walked p t τ) :
    ∀ n ∈ τ, ∃ q, n.1 = p ++ q := by
  intro n hn
  rcases h.located n hn with ⟨u, hu⟩
  exact locatedFrom_beyond hu

theorem WalkedAll.beyond {p : List Nat} {i : Nat} {answer : Visit} {ts : List Token}
    {τ : Trace S} (h : WalkedAll p i answer ts τ) :
    ∀ n ∈ τ, ∃ j q, i ≤ j ∧ n.1 = p ++ j :: q := by
  intro n hn
  rcases h.located n hn with ⟨u, hu⟩
  exact locatedFromAll_beyond hu

theorem WalkedAll.ne_place {p : List Nat} {i : Nat} {answer : Visit} {ts : List Token}
    {τ : Trace S} (h : WalkedAll p i answer ts τ) : ∀ n ∈ τ, n.1 ≠ p := by
  intro n hn
  rcases h.beyond n hn with ⟨j, q, _, hplace⟩
  rw [hplace]
  exact ne_beyond p j q

/-!
# Answers
-/

mutual

theorem Walked.nodup_answers {p : List Nat} {t : Token} {τ : Trace S} :
    Walked p t τ → (τ.answers.map Prod.fst).Nodup
  | .leaf _ _ _ _ _ _ => .nil
  | .phrase _ _ _ _ _ h => by
      rw [Trace.answers_around, List.map_cons, List.nodup_cons]
      refine ⟨?_, h.nodup_answers⟩
      intro hp
      rcases List.mem_map.mp hp with ⟨x, hx, hplace⟩
      rcases Trace.exists_note_of_mem_answers hx with ⟨n, hn, hnx⟩
      exact h.ne_place n hn (hnx.trans hplace)

theorem WalkedAll.nodup_answers {p : List Nat} {i : Nat} {answer : Visit} {ts : List Token}
    {τ : Trace S} : WalkedAll p i answer ts τ → (τ.answers.map Prod.fst).Nodup
  | .skipped _ _ _ => .nil
  | .nil _ _ => .nil
  | .cons hhead htail => by
      rw [Trace.answers_append, List.map_append, List.nodup_append]
      refine ⟨hhead.nodup_answers, htail.nodup_answers, ?_⟩
      intro place hplace place' hplace'
      rcases List.mem_map.mp hplace with ⟨x, hx, rfl⟩
      rcases List.mem_map.mp hplace' with ⟨y, hy, rfl⟩
      rcases Trace.exists_note_of_mem_answers hx with ⟨n, hn, hnx⟩
      rcases Trace.exists_note_of_mem_answers hy with ⟨m, hm, hmy⟩
      rw [← hnx, ← hmy]
      exact ne_of_beyond (hhead.beyond n hn) (htail.beyond m hm)

end

/-- The phrases the trace tells of are skipped if they were answered so, and else not. -/
def Agrees (skips : List Nat → Bool) (τ : Trace S) : Prop :=
  ∀ x ∈ τ.answers, skips x.1 = true ↔ x.2 = .skip

theorem Walked.agrees {p : List Nat} {t : Token} {τ : Trace S} (h : Walked p t τ) :
    Agrees τ.skips τ := by
  rintro ⟨place, answer⟩ hx
  rw [Trace.skips, List.contains_iff_mem]
  constructor
  · intro hskip
    have heq := List.inj_on_of_nodup_map h.nodup_answers hx hskip rfl
    exact congrArg Prod.snd heq
  · rintro rfl
    exact hx

/-!
# Reaching
-/

section

variable {skips : List Nat → Bool} {p : List Nat}

theorem isReached_iff : isReached skips p = true ↔ ∀ k < p.length, skips (p.take k) = false := by
  simp only [isReached, List.all_eq_true, List.mem_range, Bool.not_eq_true']

theorem isReached_nil (skips : List Nat → Bool) : isReached skips [] = true :=
  rfl

theorem isReached_snoc (h : isReached skips p = true) (hp : skips p = false) (i : Nat) :
    isReached skips (p ++ [i]) = true := by
  rw [isReached_iff] at h ⊢
  intro k hk
  rw [List.length_append, List.length_singleton] at hk
  rw [List.take_append_of_le_length (Nat.le_of_lt_succ hk)]
  rcases Nat.lt_succ_iff_lt_or_eq.mp hk with hlt | rfl
  · exact h k hlt
  · rw [List.take_length]
    exact hp

theorem isReached_beyond (hp : skips p = true) (i : Nat) (q : List Nat) :
    isReached skips (p ++ i :: q) = false := by
  rw [← Bool.not_eq_true, isReached_iff]
  intro h
  have hlt : p.length < (p ++ i :: q).length := by
    rw [List.length_append, List.length_cons]
    omega
  have hskip := h p.length hlt
  rw [List.take_left] at hskip
  exact Bool.false_ne_true (hskip.symm.trans hp)

end

theorem Agrees.around {skips : List Nat → Bool} {p : List Nat} {kind : Phrase}
    {parts : List Token} {answer : Visit} {s₁ s₂ s₃ s₄ : S} {inner : Trace S}
    (h : Agrees skips (.around p kind parts answer s₁ s₂ s₃ s₄ inner)) :
    (skips p = true ↔ answer = .skip) ∧ Agrees skips inner := by
  rw [Agrees, Trace.answers_around] at h
  exact List.forall_mem_cons.mp h

theorem Agrees.append {skips : List Nat → Bool} {head tail : Trace S}
    (h : Agrees skips (head ++ tail)) : Agrees skips head ∧ Agrees skips tail := by
  rw [Agrees, Trace.answers_append] at h
  exact List.forall_mem_append.mp h

theorem not_skips {skips : List Nat → Bool} {p : List Nat}
    (h : skips p = true ↔ Visit.parts = .skip) : skips p = false := by
  rw [← Bool.not_eq_true, h]
  decide

mutual

theorem Walked.eventsAt {skips : List Nat → Bool} {p : List Nat} {t : Token} {τ : Trace S} :
    Walked p t τ → Agrees skips τ → isReached skips p = true → ∀ x ∈ locatedFrom p t,
      τ.eventsAt x.1 = if isReached skips x.1 then x.2.ownEvents else []
  | .leaf p lexeme text _ _ _, _, hp, x, hx => by
      rw [List.mem_singleton.mp hx, if_pos hp]
      simp [Trace.eventsAt, ownEvents]
  | .phrase _ _ _ _ _ h, hagrees, hp, x, hx => by
      rcases List.mem_cons.mp hx with rfl | hx
      · rw [if_pos hp]
        exact Trace.eventsAt_around h.ne_place
      · rcases locatedFromAll_beyond hx with ⟨j, q, _, hplace⟩
        have hne : x.1 ≠ p := by
          rw [hplace]
          exact ne_beyond p j q
        rw [Trace.eventsAt_around_of_ne hne]
        exact h.eventsAt hagrees.around.2 hp hagrees.around.1 x hx

theorem WalkedAll.eventsAt {skips : List Nat → Bool} {p : List Nat} {i : Nat} {answer : Visit}
    {ts : List Token} {τ : Trace S} : WalkedAll p i answer ts τ → Agrees skips τ →
      isReached skips p = true → (skips p = true ↔ answer = .skip) → ∀ x ∈ locatedFromAll p i ts,
        τ.eventsAt x.1 = if isReached skips x.1 then x.2.ownEvents else []
  | .skipped _ _ _, _, _, hskip, x, hx => by
      rcases locatedFromAll_beyond hx with ⟨j, q, _, hplace⟩
      rw [hplace, isReached_beyond (hskip.mpr rfl) j q]
      rfl
  | .cons hhead htail, hagrees, hp, hskip, x, hx => by
      have hparts := not_skips hskip
      rw [Trace.eventsAt_append]
      rcases List.mem_append.mp hx with hx | hx
      · have hempty : Trace.eventsAt _ x.1 = [] := Trace.eventsAt_eq_nil fun n hn =>
          (ne_of_beyond (locatedFrom_beyond hx) (htail.beyond n hn)).symm
        rw [hempty, List.append_nil]
        exact hhead.eventsAt hagrees.append.1 (isReached_snoc hp hparts _) x hx
      · have hempty : Trace.eventsAt _ x.1 = [] := Trace.eventsAt_eq_nil fun n hn =>
          ne_of_beyond (hhead.beyond n hn) (locatedFromAll_beyond hx)
        rw [hempty, List.nil_append]
        exact htail.eventsAt hagrees.append.2 hp hskip x hx

end

mutual

theorem Walked.leaves {skips : List Nat → Bool} {p : List Nat} {t : Token} {τ : Trace S} :
    Walked p t τ → Agrees skips τ → isReached skips p = true →
      τ.leaves = (leavesAmong (locatedFrom p t)).filter fun x => isReached skips x.1
  | .leaf p lexeme text _ _ _, _, hp => by
      show [(p, lexeme, text)] = [(p, lexeme, text)].filter fun x => isReached skips x.1
      exact (List.filter_eq_self.mpr (by simpa using hp)).symm
  | .phrase _ _ _ _ _ h, hagrees, hp => by
      rw [Trace.leaves_around]
      exact h.leaves hagrees.around.2 hp hagrees.around.1

theorem WalkedAll.leaves {skips : List Nat → Bool} {p : List Nat} {i : Nat} {answer : Visit}
    {ts : List Token} {τ : Trace S} : WalkedAll p i answer ts τ → Agrees skips τ →
      isReached skips p = true → (skips p = true ↔ answer = .skip) →
        τ.leaves = (leavesAmong (locatedFromAll p i ts)).filter fun x => isReached skips x.1
  | .skipped p i ts, _, _, hskip => by
      refine (List.filter_eq_nil_iff.mpr ?_).symm
      intro x hx
      rcases exists_token_of_mem_leavesAmong hx with ⟨y, hy, hxy⟩
      rcases locatedFromAll_beyond hy with ⟨j, q, _, hplace⟩
      rw [← hxy, hplace, isReached_beyond (hskip.mpr rfl) j q]
      exact Bool.false_ne_true
  | .nil _ _, _, _, _ => rfl
  | .cons hhead htail, hagrees, hp, hskip => by
      have hparts := not_skips hskip
      rw [Trace.leaves_append, locatedFromAll, leavesAmong_append, List.filter_append,
        hhead.leaves hagrees.append.1 (isReached_snoc hp hparts _),
        htail.leaves hagrees.append.2 hp hskip]

end

/-!
# Whole walks
-/

theorem Walked.isTrace {t : Token} {τ : Trace S} (h : Walked [] t τ) : IsTrace t τ where
  wellNested := h.wellNested
  located := h.located
  eventsAt := h.eventsAt h.agrees (isReached_nil τ.skips)
  leaves := h.leaves h.agrees (isReached_nil τ.skips)

/-- Unless something is skipped, the leaves of a trace make up the text. -/
theorem IsTrace.join_leaves {t : Token} {τ : Trace S} (h : IsTrace t τ)
    (hall : ∀ n ∈ τ, n.2.answer ≠ some .skip) :
    String.join (τ.leaves.map fun leaf => leaf.2.2) = t.text := by
  have hskips : ∀ p, τ.skips p = false := by
    intro p
    rw [← Bool.not_eq_true, Trace.skips, List.contains_iff_mem]
    intro hp
    rcases List.mem_filterMap.mp hp with ⟨n, hn, hanswer⟩
    rcases Option.map_eq_some_iff.mp hanswer with ⟨answer, hanswer, heq⟩
    cases heq
    exact hall n hn hanswer
  have hreached : ∀ p, isReached τ.skips p = true := fun p => isReached_iff.mpr fun k _ => hskips _
  have hleaves : τ.leaves = leavesAmong t.located :=
    h.leaves.trans (List.filter_eq_self.mpr fun x _ => hreached x.1)
  have htexts : (τ.leaves.map fun leaf => leaf.2.2) = t.leaves.map Prod.snd := by
    rw [hleaves, ← map_leavesAmong_locatedFrom [] t, List.map_map]
    rfl
  apply String.toList_injective
  rw [htexts, String.toList_join, List.flatMap_map, text, String.toList_ofList]
  exact leafChars_leaves t

end Token
end TreeQuery
