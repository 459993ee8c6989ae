import TreeQuery.Proofs.Chain.Guarding

/-!
# Two runs side by side

A run is followed by another one under different hooks.  Both do the same as
long as the hooks give the same answers.  The first one may be finished before
the other; from then on it does nothing, while the other goes on and can only
add to what was selected.
-/

namespace TreeQuery

open Run

namespace Run

variable {S T N A B : Type}

def result (m : Run S N A) (s : Session S N) : Except SelectError A × Session S N :=
  m.run.run s

theorem result_of_ends {m : Run S N A} {s left : Session S N} {a : A}
    (h : Ends m s (fun b last => b = a ∧ last = left) fun _ _ => False) :
    result m s = (.ok a, left) := by
  unfold result
  unfold Ends at h
  split at h
  · rename_i hrun
    rw [hrun, h.1, h.2]
  · exact h.elim

theorem result_bind {m : Run S N A} {f : A → Run S N B} {s : Session S N} :
    result (m >>= f) s =
      match result m s with
      | (.ok a, left) => result (f a) left
      | (.error e, left) => (.error e, left) := by
  unfold result
  simp only [ExceptT.run_bind, StateT.run_bind]
  generalize StateT.run (ExceptT.run m) s = reached
  rcases reached with ⟨outcome, left⟩
  cases outcome with
  | ok a => rfl
  | error e => rfl

theorem result_bind_of_ok {m : Run S N A} {f : A → Run S N B} {s left : Session S N} {a : A}
    (h : result m s = (.ok a, left)) : result (m >>= f) s = result (f a) left := by
  rw [result_bind, h]

theorem left_of_ends {m : Run S N A} {s : Session S N} {holds : Session S N → Prop}
    (h : Ends m s (fun _ left => holds left) fun _ left => holds left) :
    holds (result m s).2 := by
  unfold result
  unfold Ends at h
  split at h
  · rename_i hrun
    rw [hrun]
    exact h
  · rename_i hrun
    rw [hrun]
    exact h

/-!
# Results side by side
-/

/-- The first run came to the same as the second one, in sessions that are alike, or, where `early`
allows that, it was finished before. -/
inductive Beside (early : Prop) (alike : Session S N → Session T N → Prop) :
    Except SelectError A × Session S N → Except SelectError A × Session T N → Prop where
  | same {outcome : Except SelectError A} {left : Session S N} {right : Session T N}
      (h : alike left right) : Beside early alike (outcome, left) (outcome, right)
  | cut {a : A} {outcome : Except SelectError A} {left : Session S N} {right : Session T N}
      (hearly : early) (hfinished : left.finished = true)
      (hselected : left.selected <+: right.selected) :
      Beside early alike (.ok a, left) (outcome, right)

def Grows (m : Run T N A) : Prop :=
  ∀ found t, found <+: t.selected →
    Ends m t (fun _ left => found <+: left.selected) fun _ left => found <+: left.selected

def Idles (m : Run S N A) : Prop :=
  ∀ s : Session S N, s.finished = true → ∃ a, result m s = (.ok a, s)

variable {early : Prop} {alike : Session S N → Session T N → Prop}

theorem grows_pure {a : A} : Grows (pure a : Run T N A) :=
  fun _ _ hfound => ends_pure.mpr hfound

theorem idles_pure {a : A} : Idles (pure a : Run S N A) :=
  fun _ _ => ⟨a, rfl⟩

theorem Grows.bind {m : Run T N A} {f : A → Run T N B} (hm : Grows m) (hf : ∀ a, Grows (f a)) :
    Grows (m >>= f) := by
  intro found t hfound
  rw [ends_bind]
  apply (hm found t hfound).imp
  · intro a left hleft
    exact hf a found left hleft
  · intro e left he
    exact he

theorem Idles.bind {m : Run S N A} {f : A → Run S N B} (hm : Idles m) (hf : ∀ a, Idles (f a)) :
    Idles (m >>= f) := by
  intro s hs
  rcases hm s hs with ⟨a, ha⟩
  rw [result_bind_of_ok ha]
  exact hf a s hs

theorem Beside.bind {m : Run S N A} {m' : Run T N A} {f : A → Run S N B} {f' : A → Run T N B}
    {s : Session S N} {t : Session T N} (h : Beside early alike (result m s) (result m' t))
    (hmore : ∀ a left right, alike left right →
      Beside early alike (result (f a) left) (result (f' a) right))
    (hidles : ∀ a, Idles (f a)) (hgrows : ∀ a, Grows (f' a)) :
    Beside early alike (result (m >>= f) s) (result (m' >>= f') t) := by
  rw [result_bind, result_bind]
  generalize result m s = reached at h ⊢
  generalize result m' t = reached' at h ⊢
  cases h with
  | @same outcome left right halike =>
      cases outcome with
      | ok a => exact hmore a left right halike
      | error e => exact .same halike
  | @cut a outcome left right hearly hfinished hselected =>
      rcases hidles a left hfinished with ⟨b, hb⟩
      cases outcome with
      | ok a' =>
          have hgrown := left_of_ends (hgrows a' left.selected right hselected)
          simp only [hb]
          exact .cut hearly hfinished hgrown
      | error e =>
          simp only [hb]
          exact .cut hearly hfinished hselected

/-!
# Axes side by side
-/

structure Visited (early : Prop) (alike : Session S N → Session T N → Prop)
    (visit : A → Run S N Flow) (visit' : A → Run T N Flow) : Prop where
  beside : ∀ a {s t}, alike s t → Beside early alike (result (visit a) s) (result (visit' a) t)
  idles : ∀ a, Idles (visit a)
  grows : ∀ a, Grows (visit' a)

namespace Visited

variable {visit : A → Run S N Flow} {visit' : A → Run T N Flow}

theorem idles_each (h : ∀ a, Idles (visit a)) (as : List A) : Idles (Flow.each visit as) := by
  induction as with
  | nil => exact idles_pure
  | cons a rest ih =>
      rw [Flow.each]
      refine (h a).bind ?_
      intro flow
      cases flow with
      | stop => exact idles_pure
      | onward => exact ih
      | prune => exact ih

mutual

theorem idles_below (h : ∀ a, Idles (visit a)) : ∀ t : Rose A, Idles (Flow.below visit t)
  | .node a branches => by
      rw [Flow.below]
      refine (h a).bind ?_
      intro flow
      cases flow with
      | stop => exact idles_pure
      | prune => exact idles_pure
      | onward => exact idles_belowAll h branches

theorem idles_belowAll (h : ∀ a, Idles (visit a)) :
    ∀ ts : List (Rose A), Idles (Flow.belowAll visit ts)
  | [] => by
      rw [Flow.belowAll]
      exact idles_pure
  | t :: ts => by
      rw [Flow.belowAll]
      refine (idles_below h t).bind ?_
      intro stopped
      cases stopped with
      | true => exact idles_pure
      | false => exact idles_belowAll h ts

end

theorem beside_each (h : Visited early alike visit visit') (as : List A) {s : Session S N}
    {t : Session T N} (halike : alike s t) :
    Beside early alike (result (Flow.each visit as) s) (result (Flow.each visit' as) t) := by
  induction as generalizing s t with
  | nil => exact .same halike
  | cons a rest ih =>
      rw [Flow.each, Flow.each]
      refine (h.beside a halike).bind ?_ ?_ ?_
      · intro flow left right halike
        cases flow with
        | stop => exact .same halike
        | onward => exact ih halike
        | prune => exact ih halike
      · intro flow
        cases flow with
        | stop => exact idles_pure
        | onward => exact idles_each h.idles rest
        | prune => exact idles_each h.idles rest
      · intro flow
        cases flow with
        | stop => exact grows_pure
        | onward => exact fun found t => ends_each (h.grows · found) rest
        | prune => exact fun found t => ends_each (h.grows · found) rest

mutual

theorem beside_below (h : Visited early alike visit visit') : ∀ (tree : Rose A) {s : Session S N}
    {t : Session T N}, alike s t →
    Beside early alike (result (Flow.below visit tree) s) (result (Flow.below visit' tree) t)
  | .node a branches, s, t, halike => by
      rw [Flow.below, Flow.below]
      refine (h.beside a halike).bind ?_ ?_ ?_
      · intro flow left right halike
        cases flow with
        | stop => exact .same halike
        | prune => exact .same halike
        | onward => exact beside_belowAll h branches halike
      · intro flow
        cases flow with
        | stop => exact idles_pure
        | prune => exact idles_pure
        | onward => exact idles_belowAll h.idles branches
      · intro flow
        cases flow with
        | stop => exact grows_pure
        | prune => exact grows_pure
        | onward => exact fun found t => ends_belowAll (h.grows · found) branches

theorem beside_belowAll (h : Visited early alike visit visit') : ∀ (trees : List (Rose A))
    {s : Session S N} {t : Session T N}, alike s t →
    Beside early alike (result (Flow.belowAll visit trees) s)
      (result (Flow.belowAll visit' trees) t)
  | [], s, t, halike => by
      rw [Flow.belowAll, Flow.belowAll]
      exact .same halike
  | tree :: trees, s, t, halike => by
      rw [Flow.belowAll, Flow.belowAll]
      refine (beside_below h tree halike).bind ?_ ?_ ?_
      · intro stopped left right halike
        cases stopped with
        | true => exact .same halike
        | false => exact beside_belowAll h trees halike
      · intro stopped
        cases stopped with
        | true => exact idles_pure
        | false => exact idles_belowAll h.idles trees
      · intro stopped
        cases stopped with
        | true => exact grows_pure
        | false => exact fun found t => ends_belowAll (h.grows · found) trees

end

theorem beside_traverse [DecidableEq N] [Navigable N] {visit : N → Run S N Flow}
    {visit' : N → Run T N Flow} (h : Visited early alike visit visit') (axis : Axis) (n : N)
    {s : Session S N} {t : Session T N} (halike : alike s t) :
    Beside early alike (result (axis.traverse n visit) s) (result (axis.traverse n visit') t) := by
  have hlast : ∀ {m : Run S N Bool} {m' : Run T N Bool},
      Beside early alike (result m s) (result m' t) →
      Beside early alike (result (do let _ ← m; return ()) s)
        (result (do let _ ← m'; return ()) t) :=
    fun hm => hm.bind (fun _ _ _ halike => .same halike) (fun _ => idles_pure) fun _ => grows_pure
  rw [Axis.traverse_eq_walk, Axis.traverse_eq_walk]
  unfold Axis.walk
  cases axis with
  | descendant => exact hlast (h.beside_belowAll _ halike)
  | descendantOrSelf => exact hlast (h.beside_below _ halike)
  | following => exact hlast (h.beside_belowAll _ halike)
  | _ => exact hlast (h.beside_each _ halike)

end Visited
end Run

/-!
# Chains side by side
-/

namespace Setting

variable {S T N : Type} {g : Setting S N} {h : Setting T N}

theorem result_isFinished (g : Setting S N) (s : Session S N) :
    result g.isFinished s = (.ok (g.inquired s).finished, g.inquired s) :=
  result_of_ends (ends_isFinished_iff.mpr ⟨rfl, rfl⟩)

theorem result_test {candidate : N} {s : Session S N} (hs : s.finished = false) :
    result (g.test candidate) s =
      (.ok (g.hooks.filtered candidate s.caller).1,
        s.tested (g.hooks.filtered candidate s.caller)) :=
  result_of_ends ((ends_test_iff hs).mpr ⟨rfl, rfl⟩)

theorem result_setNode {node : N} {s : Session S N} (hs : s.finished = false) :
    result (setNode node) s = (.ok (), { s with current := some node }) :=
  result_of_ends ((ends_setNode hs).mpr ⟨rfl, rfl⟩)

theorem result_select [DecidableEq N] {node : N} {s : Session S N} (hs : s.finished = false) :
    result (g.select node) s = (.ok (),
      if node ∈ s.selected then s else s.reported node (g.hooks.told node s.caller)) :=
  result_of_ends ((ends_select_iff hs).mpr ⟨rfl, rfl⟩)

theorem result_evaluate [DecidableEq N] [Navigable N] {e : Expression} {node : N} {position : Nat}
    {s : Session S N} (hs : s.finished = false) :
    result (g.evaluate e node position) s =
      (.ok (e.evaluate g.functions ⟨node, position, g.arithmetic⟩), s) :=
  result_of_ends ((ends_evaluate hs).mpr ⟨rfl, rfl⟩)

theorem result_resetCounters {first count : Nat} {s : Session S N} :
    result (resetCounters first count) s = (.ok (),
      { s with positions := s.positions.mapIdx fun i p =>
        if first ≤ i ∧ i < first + count then 0 else p }) :=
  result_of_ends (ends_resetCounters.mpr ⟨rfl, rfl⟩)

theorem result_advance {slot : Nat} {s : Session S N} :
    result (advance slot) s = (.ok (s.positions.getD slot 0 + 1),
      { s with positions := s.positions.set slot (s.positions.getD slot 0 + 1) }) :=
  result_of_ends (ends_advance.mpr ⟨rfl, rfl⟩)

/-- Everything that a run of a chain does begins with the question whether it is finished. -/
theorem idles_unless {A : Type} {b : A} {m : Run S N A} :
    Idles (do if ← g.isFinished then return b else m) := by
  intro s hs
  rw [result_bind_of_ok (result_isFinished g s), inquired_of_finished g hs, hs]
  exact ⟨b, rfl⟩

theorem guards_growth (h : Setting T N) (found : List N) :
    h.Guards (found <+: ·.selected) (fun t => found <+: t.selected ∧ t.finished = false) where
  weakens hready := hready.1
  running hready := hready.2
  asked {t} hfound := by
    rw [inquired_eq]
    exact ⟨hfound, fun hfinished => ⟨hfound, hfinished⟩⟩
  tested _ hready := hready
  reported _ hready _ := hready.1.trans (List.prefix_append ..)
  moved _ _ hready := hready

/-- Hooks of two settings that answer alike, until the first run is finished. -/
structure Follows (g : Setting S N) (h : Setting T N) (early : Prop)
    (alike : Session S N → Session T N → Prop) : Prop where
  functions : g.functions = h.functions
  arithmetic : g.arithmetic = h.arithmetic
  finished : ∀ {s t}, alike s t → s.finished = t.finished
  selected : ∀ {s t}, alike s t → s.selected = t.selected
  positions : ∀ {s t}, alike s t → s.positions = t.positions
  asked : ∀ {s t}, alike s t →
    alike (g.inquired s) (h.inquired t) ∨ early ∧ (g.inquired s).finished = true
  tested : ∀ {s t} candidate, alike s t →
    (g.hooks.filtered candidate s.caller).1 = (h.hooks.filtered candidate t.caller).1 ∧
      alike (s.tested (g.hooks.filtered candidate s.caller))
        (t.tested (h.hooks.filtered candidate t.caller))
  reported : ∀ {s t} node, alike s t →
    alike (s.reported node (g.hooks.told node s.caller))
      (t.reported node (h.hooks.told node t.caller))
  entered : ∀ {s t} node, alike s t →
    alike { s with current := some node } { t with current := some node }
  counted : ∀ {s t} positions, alike s t →
    alike { s with positions := positions } { t with positions := positions }

variable {early : Prop} {alike : Session S N → Session T N → Prop}

theorem Follows.beside_unless (f : g.Follows h early alike) {A : Type} {b : A} {m : Run S N A}
    {m' : Run T N A} {s : Session S N} {t : Session T N} (halike : alike s t)
    (hgrows : Grows (do if ← h.isFinished then return b else m'))
    (hmore : ∀ left right, alike left right → left.finished = false → right.finished = false →
      Beside early alike (result m left) (result m' right)) :
    Beside early alike (result (do if ← g.isFinished then return b else m) s)
      (result (do if ← h.isFinished then return b else m') t) := by
  have hselected : (g.inquired s).selected <+: t.selected := by
    rw [inquired_eq]
    exact f.selected halike ▸ List.prefix_rfl
  have hgrown := left_of_ends (hgrows _ t hselected)
  rw [result_bind_of_ok (result_isFinished g s)]
  rcases f.asked halike with hsame | ⟨hearly, hcut⟩
  · rw [result_bind_of_ok (result_isFinished h t), ← f.finished hsame]
    cases hfinished : (g.inquired s).finished with
    | true => exact .same hsame
    | false => exact hmore _ _ hsame hfinished (f.finished hsame ▸ hfinished)
  · rw [hcut]
    exact .cut hearly hcut hgrown

variable [DecidableEq N] [Navigable N]

theorem grows_runFrom (h : Setting T N) (steps : List Step) (slot : Nat) (node : N) :
    Grows (Chain.runFrom h steps slot node) := by
  intro found t hfound
  apply ((guards_growth h found).ends_runFrom steps slot node hfound).imp
  · intro _ left hleft
    exact hleft
  · intro e left he
    exact he.1.1

theorem grows_visit (h : Setting T N) (steps : List Step) (slot : Nat) (candidate : N) :
    Grows (h.visit (Chain.runFrom h steps slot) candidate) := by
  intro found t hfound
  have hguards := guards_growth h found
  have hvisit := hguards.ends_visit
    (fun node _ hnode => hguards.ends_runFrom steps slot node hnode) candidate hfound
  apply hvisit.imp
  · intro _ left hleft
    exact hleft
  · intro e left he
    exact he.1.1

theorem Follows.beside_visit (f : g.Follows h early alike) {steps : List Step} {slot : Nat}
    (hnext : ∀ node {s t}, alike s t →
      Beside early alike (result (Chain.runFrom g steps slot node) s)
        (result (Chain.runFrom h steps slot node) t))
    (candidate : N) {s : Session S N} {t : Session T N} (halike : alike s t) :
    Beside early alike (result (g.visit (Chain.runFrom g steps slot) candidate) s)
      (result (h.visit (Chain.runFrom h steps slot) candidate) t) := by
  refine f.beside_unless halike (grows_visit h steps slot candidate) ?_
  intro s t halike hs ht
  rcases f.tested candidate halike with ⟨hanswer, htested⟩
  rw [result_bind_of_ok (result_test hs), result_bind_of_ok (result_test ht), ← hanswer]
  cases (g.hooks.filtered candidate s.caller).1 with
  | false => exact .same htested
  | true =>
      simp only [if_true]
      rw [result_bind_of_ok (result_setNode (s := s.tested _) hs),
        result_bind_of_ok (result_setNode (s := t.tested _) ht)]
      exact (hnext candidate (f.entered candidate htested)).bind
        (fun _ _ _ halike => .same halike) (fun _ => idles_pure) fun _ => grows_pure

/-- A chain under hooks that give the same answers. -/
theorem Follows.beside_runFrom (f : g.Follows h early alike) (steps : List Step) {slot : Nat}
    (node : N) {s : Session S N} {t : Session T N} (halike : alike s t) :
    Beside early alike (result (Chain.runFrom g steps slot node) s)
      (result (Chain.runFrom h steps slot node) t) := by
  induction steps generalizing slot node s t with
  | nil =>
      have hgrows := grows_runFrom h [] slot node
      rw [Chain.runFrom] at hgrows ⊢
      rw [Chain.runFrom]
      refine f.beside_unless halike hgrows ?_
      intro s t halike hs ht
      rw [result_select hs, result_select ht, f.selected halike]
      split
      · exact .same halike
      · exact .same (f.reported node halike)
  | cons step rest ih =>
      have hgrows := grows_runFrom h (step :: rest) slot node
      cases step with
      | axis a =>
          rw [runFrom_axis] at hgrows ⊢
          rw [runFrom_axis]
          refine f.beside_unless halike hgrows ?_
          intro s t halike hs ht
          have hvisited : Visited early alike (g.visit (Chain.runFrom g rest (slot + 1)))
              (h.visit (Chain.runFrom h rest (slot + 1))) :=
            { beside := f.beside_visit ih
              idles := fun _ => idles_unless
              grows := grows_visit h rest (slot + 1) }
          rw [result_bind_of_ok result_resetCounters, result_bind_of_ok result_resetCounters,
            f.positions halike]
          exact hvisited.beside_traverse a node (f.counted _ halike)
      | name test =>
          rw [Chain.runFrom] at hgrows ⊢
          rw [Chain.runFrom]
          refine f.beside_unless halike hgrows ?_
          intro s t halike hs ht
          split
          · exact ih node halike
          · exact .same halike
      | predicate p =>
          rw [Chain.runFrom] at hgrows ⊢
          rw [Chain.runFrom]
          refine f.beside_unless halike hgrows ?_
          intro s t halike hs ht
          rw [result_bind_of_ok result_advance, result_bind_of_ok result_advance,
            f.positions halike]
          generalize t.positions.getD slot 0 + 1 = position
          generalize t.positions.set slot position = positions
          have hcounted := f.counted positions halike
          rw [result_bind_of_ok (result_evaluate (s := { s with positions := positions }) hs),
            result_bind_of_ok (result_evaluate (s := { t with positions := positions }) ht),
            f.functions, f.arithmetic]
          split
          · exact .same hcounted
          · split
            · exact ih node hcounted
            · exact .same hcounted

end Setting
end TreeQuery
