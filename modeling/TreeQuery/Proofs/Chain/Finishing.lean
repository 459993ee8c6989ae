import TreeQuery.Query.Basic
import TreeQuery.Tree.Sample
import TreeQuery.Proofs.Chain.Following

/-!
# Runs that are cut short

A run with a finisher is compared with the same run without one.  Whatever the
finisher does, the run is finished at its first yes and nothing is reported from
then on, so what was selected is the beginning of what would have been.
-/

namespace TreeQuery

open Run

/-!
# Watching a run
-/

inductive Event (N : Type) where
  /-- The finisher has said whether the run is finished. -/
  | answered (finished : Bool)
  /-- The listener has heard of a node. -/
  | reported (node : N)

namespace Event

variable {N : Type}

def reports (events : List (Event N)) : List N :=
  events.filterMap fun
    | .answered _ => none
    | .reported node => some node

/-- Nothing happens after the first yes of the finisher, and only a finished run has seen one. -/
def Settled (finished : Bool) (events : List (Event N)) : Prop :=
  ∀ before after, events = before ++ .answered true :: after → finished = true ∧ after = []

theorem reports_concat_answered (events : List (Event N)) (finished : Bool) :
    reports (events ++ [.answered finished]) = reports events := by
  simp [reports]

theorem reports_concat_reported (events : List (Event N)) (node : N) :
    reports (events ++ [.reported node]) = reports events ++ [node] := by
  simp [reports]

theorem Settled.concat {events : List (Event N)} (h : Settled false events) (finished : Bool)
    (last : Event N) (hlast : last = .answered true → finished = true) :
    Settled finished (events ++ [last]) := by
  intro before after hevents
  rcases List.eq_nil_or_concat after with rfl | ⟨most, e, rfl⟩
  · exact ⟨hlast (List.singleton_inj.mp (List.append_inj' hevents rfl).2), rfl⟩
  · have hjoin : events ++ [last] = (before ++ .answered true :: most) ++ [e] := by
      simpa using hevents
    have hfinished := (h before most (List.append_inj' hjoin rfl).1).1
    cases hfinished

end Event

namespace Hooks

variable {S N : Type}

/-- The hooks with a record of the answers of the finisher and the reports to the listener. -/
def watched (h : Hooks S N) : Hooks (S × List (Event N)) N where
  filter := h.filter.map fun filter candidate caller =>
    let (answer, left) := filter candidate caller.1
    (answer, (left, caller.2))
  finisher := h.finisher.map fun finisher progress caller =>
    let (answer, left) := finisher progress caller.1
    (answer, (left, caller.2 ++ [.answered answer]))
  listener := some fun node caller => (h.told node caller.1, caller.2 ++ [.reported node])

def upTo (limit? : Option Nat) (listener? : Option (N → S → S)) : Hooks S N :=
  ⟨.none, limit?.map after, listener?⟩

end Hooks

namespace Session

variable {S N : Type}

def unwatched (s : Session (S × List (Event N)) N) : Session S N :=
  ⟨s.finished, s.progress, s.positions, s.current, s.selected, s.caller.1⟩

end Session

namespace Setting

variable {S N : Type}

def watched (g : Setting S N) : Setting (S × List (Event N)) N :=
  ⟨g.functions, g.arithmetic, g.hooks.watched⟩

def unending (g : Setting S N) : Setting S N :=
  ⟨g.functions, g.arithmetic, { g.hooks with finisher := none }⟩

def finishing (g : Setting S N) (finisher : Progress → S → Bool × S) : Setting S N :=
  ⟨g.functions, g.arithmetic, { g.hooks with finisher := some finisher }⟩

section

variable {g : Setting S N} {t : Session (S × List (Event N)) N}

theorem watched_inquired_of_asked {finisher : Progress → S → Bool × S}
    (hfinisher : g.hooks.finisher = some finisher) (ht : t.finished = false) :
    let answer := finisher t.progress t.caller.1
    g.watched.inquired t =
      { t with
        finished := answer.1
        caller := (answer.2, t.caller.2 ++ [.answered answer.1]) } := by
  have hwatched : g.watched.hooks.finisher = some fun progress caller =>
      ((finisher progress caller.1).1, ((finisher progress caller.1).2,
        caller.2 ++ [.answered (finisher progress caller.1).1])) := by
    simp [watched, Hooks.watched, hfinisher]
  rw [inquired_of_asked hwatched ht]

theorem watched_inquired_of_endless (hfinisher : g.hooks.finisher = none) :
    g.watched.inquired t = t := by
  apply inquired_of_endless
  simp [watched, Hooks.watched, hfinisher]

end

/-- Watching a run changes nothing about it. -/
theorem watched_follows (g : Setting S N) :
    g.Follows g.watched False (fun s t => s = t.unwatched) where
  functions := rfl
  arithmetic := rfl
  finished h := by rw [h]; rfl
  selected h := by rw [h]; rfl
  positions h := by rw [h]; rfl
  asked {s t} h := by
    subst h
    refine Or.inl ?_
    cases ht : t.finished with
    | true => rw [inquired_of_finished g (s := t.unwatched) ht, inquired_of_finished g.watched ht]
    | false =>
        cases hfinisher : g.hooks.finisher with
        | none => rw [inquired_of_endless hfinisher, watched_inquired_of_endless hfinisher]
        | some finisher =>
            rw [inquired_of_asked hfinisher (s := t.unwatched) ht,
              watched_inquired_of_asked hfinisher ht]
            rfl
  tested candidate h := by
    subst h
    unfold Hooks.filtered watched Hooks.watched
    cases g.hooks.filter with
    | none => exact ⟨rfl, rfl⟩
    | some filter => exact ⟨rfl, rfl⟩
  reported node h := by
    subst h
    rfl
  entered node h := by
    subst h
    rfl
  counted positions h := by
    subst h
    rfl

/-- The record has all that was selected and ends with the first yes. -/
theorem guards_watched (g : Setting S N) :
    g.watched.Guards
      (fun t => Event.reports t.caller.2 = t.selected ∧ Event.Settled t.finished t.caller.2)
      (fun t => t.finished = false ∧
        Event.reports t.caller.2 = t.selected ∧ Event.Settled false t.caller.2) where
  weakens h := ⟨h.2.1, h.1 ▸ h.2.2⟩
  running h := h.1
  asked {t} h := by
    rcases h with ⟨hreports, hsettled⟩
    cases ht : t.finished with
    | true =>
        rw [inquired_of_finished g.watched ht, ht]
        exact ⟨⟨hreports, ht ▸ hsettled⟩, fun hfinished => nomatch hfinished⟩
    | false =>
        rw [ht] at hsettled
        cases hfinisher : g.hooks.finisher with
        | none =>
            rw [watched_inquired_of_endless hfinisher, ht]
            exact ⟨⟨hreports, hsettled⟩, fun _ => ⟨rfl, hreports, hsettled⟩⟩
        | some finisher =>
            rw [watched_inquired_of_asked hfinisher ht]
            dsimp only
            rw [Event.reports_concat_answered]
            have hlast := hsettled.concat (finisher t.progress t.caller.1).1 (.answered _)
              fun h => by injection h
            exact ⟨⟨hreports, hlast⟩, fun hfinished => ⟨hfinished, hreports, hfinished ▸ hlast⟩⟩
  tested candidate h := by
    have hcaller := h.2
    unfold Hooks.filtered watched Hooks.watched
    cases g.hooks.filter with
    | none => exact h
    | some filter => exact h
  reported {t} node h _ := by
    have hlast := h.2.2.concat false (.reported node) nofun
    refine ⟨?_, h.1.symm ▸ hlast⟩
    show Event.reports (t.caller.2 ++ [.reported node]) = t.selected ++ [node]
    rw [Event.reports_concat_reported, h.2.1]
  moved _ _ h := h

/-- Without its finisher a run goes on where it would have been cut. -/
theorem follows_unending (g : Setting S N) {accepts : N → Bool}
    (hfilter : g.hooks.FiltersBy accepts) :
    g.Follows g.unending True (fun s t =>
      s.finished = false ∧ t.finished = false ∧ s.selected = t.selected ∧
        s.positions = t.positions) where
  functions := rfl
  arithmetic := rfl
  finished h := by rw [h.1, h.2.1]
  selected h := h.2.2.1
  positions h := h.2.2.2
  asked {s t} h := by
    cases hfinished : (g.inquired s).finished with
    | true => exact Or.inr ⟨trivial, rfl⟩
    | false =>
        rw [inquired_of_endless (g := g.unending) rfl, inquired_eq, hfinished]
        exact Or.inl ⟨rfl, h.2⟩
  tested candidate h := by
    have hfilter' : g.unending.hooks.FiltersBy accepts := hfilter
    rw [hfilter.filtered_eq, hfilter'.filtered_eq]
    exact ⟨rfl, h⟩
  reported {s t} node h := by
    refine ⟨h.1, h.2.1, ?_, h.2.2.2⟩
    show s.selected ++ [node] = t.selected ++ [node]
    rw [h.2.2.1]
  entered _ h := h
  counted _ h := ⟨h.1, h.2.1, h.2.2.1, rfl⟩

theorem follows_listening (functions : Registry N) (arithmetic : Arithmetic) (limit? : Option Nat)
    (listener : N → S → S) (caller : S) :
    Follows (S := Unit) ⟨functions, arithmetic, .upTo limit? none⟩
      ⟨functions, arithmetic, .upTo limit? (some listener)⟩ False
      (fun s t => s.finished = t.finished ∧ s.progress = t.progress ∧ s.selected = t.selected ∧
        s.positions = t.positions ∧
          t.caller = s.selected.foldl (fun heard node => listener node heard) caller) where
  functions := rfl
  arithmetic := rfl
  finished h := h.1
  selected h := h.2.2.1
  positions h := h.2.2.2.1
  asked {s t} h := by
    refine Or.inl ?_
    rcases h with ⟨hfinished, hprogress, hsame⟩
    cases ht : t.finished with
    | true =>
        rw [inquired_of_finished _ (hfinished.trans ht), inquired_of_finished _ ht]
        exact ⟨hfinished, hprogress, hsame⟩
    | false =>
        cases limit? with
        | none =>
            rw [inquired_of_endless rfl, inquired_of_endless rfl]
            exact ⟨hfinished, hprogress, hsame⟩
        | some limit =>
            rw [inquired_of_asked rfl (hfinished.trans ht), inquired_of_asked rfl ht]
            refine ⟨?_, hprogress, hsame⟩
            dsimp only [Hooks.after]
            rw [hprogress]
  tested candidate h := by
    rcases h with ⟨hfinished, hprogress, hsame⟩
    refine ⟨rfl, hfinished, ?_, hsame⟩
    show Progress.mk (if _ then _ else _) _ = Progress.mk (if _ then _ else _) _
    rw [hprogress]
    rfl
  reported {s t} node h := by
    rcases h with ⟨hfinished, hprogress, hselected, hpositions, hcaller⟩
    refine ⟨hfinished, ?_, ?_, hpositions, ?_⟩
    · show Progress.mk _ _ = Progress.mk _ _
      rw [hprogress]
    · show s.selected ++ [node] = t.selected ++ [node]
      rw [hselected]
    · show listener node t.caller = (s.selected ++ [node]).foldl _ caller
      rw [List.foldl_append, hcaller]
      rfl
  entered _ h := h
  counted _ h := ⟨h.1, h.2.1, h.2.2.1, rfl, h.2.2.2.2⟩

theorem guards_count (g : Setting S N) :
    g.Guards (fun s => s.progress.selected = s.selected.length ∧ s.selected.Nodup)
      (fun s => s.finished = false ∧ s.progress.selected = s.selected.length ∧
        s.selected.Nodup) where
  weakens h := h.2
  running h := h.1
  asked h := by
    rw [inquired_eq]
    exact ⟨h, fun hfinished => ⟨hfinished, h⟩⟩
  tested _ h := h
  reported {s} node h hnew := by
    refine ⟨?_, List.nodup_append.mpr ⟨h.2.2, List.pairwise_singleton _ node, ?_⟩⟩
    · show s.progress.selected + 1 = (s.selected ++ [node]).length
      rw [h.2.1, List.length_append, List.length_singleton]
    · intro n hn m hm
      rw [List.mem_singleton.mp hm]
      exact fun heq => hnew (heq ▸ hn)
  moved _ _ h := h

theorem guards_after (g : Setting S N) (limit : Nat) :
    (g.finishing (Hooks.after limit)).Guards
      (fun s => s.progress.selected = s.selected.length ∧ s.selected.length ≤ limit ∧
        (s.finished = true → s.selected.length = limit))
      (fun s => s.finished = false ∧ s.progress.selected = s.selected.length ∧
        s.selected.length < limit) where
  weakens {s} h := by
    refine ⟨h.2.1, Nat.le_of_lt h.2.2, ?_⟩
    rw [h.1]
    exact nofun
  running h := h.1
  asked {s} h := by
    rcases h with ⟨hcount, hle, hreached⟩
    cases hs : s.finished with
    | true =>
        rw [inquired_of_finished _ hs, hs]
        exact ⟨⟨hcount, hle, fun _ => hreached hs⟩, nofun⟩
    | false =>
        rw [inquired_of_asked rfl hs]
        dsimp only [Hooks.after]
        rw [hcount, decide_eq_true_iff, decide_eq_false_iff_not]
        exact ⟨⟨rfl, hle, Nat.le_antisymm hle⟩, fun hlt => ⟨hlt, rfl, Nat.lt_of_not_le hlt⟩⟩
  tested _ h := h
  reported {s} node h _ := by
    rcases h with ⟨hs, hcount, hlt⟩
    refine ⟨?_, ?_, ?_⟩
    · show s.progress.selected + 1 = (s.selected ++ [node]).length
      rw [hcount, List.length_append, List.length_singleton]
    · show (s.selected ++ [node]).length ≤ limit
      rw [List.length_append, List.length_singleton]
      exact hlt
    · show s.finished = true → _
      rw [hs]
      exact nofun
  moved _ _ h := h

end Setting

/-!
# Whole runs
-/

namespace Chain

variable {S T N : Type} [DecidableEq N] [Navigable N] {g : Setting S N} {h : Setting T N}

def session (c : Chain) (caller : S) : Session S N :=
  { Session.start caller with positions := List.replicate c.steps.length 0 }

theorem run_eq_result (c : Chain) (g : Setting S N) (caller : S) (start : N) :
    c.run g caller start = result (runFrom g c.steps 0 start) (c.session caller) :=
  rfl

theorem run_of_guards {holds ready : Session S N → Prop} (hguards : g.Guards holds ready)
    (c : Chain) (caller : S) (start : N) (hstart : holds (c.session caller)) :
    let reached := c.run g caller start
    holds reached.2 ∧
      ∀ e, reached.1 = .error e → ready reached.2 ∧ Setting.OfEvaluation e := by
  have hends := hguards.ends_runFrom c.steps 0 start hstart
  rw [run_eq_result]
  unfold Ends at hends
  unfold result
  split at hends
  · rename_i hrun
    rw [hrun]
    exact ⟨hends, nofun⟩
  · rename_i e left hrun
    rw [hrun]
    refine ⟨hguards.weakens hends.1, ?_⟩
    intro e' he'
    cases he'
    exact hends

theorem run_beside {early : Prop} {alike : Session S N → Session T N → Prop}
    (hfollows : g.Follows h early alike) (c : Chain) (caller : S) (caller' : T) (start : N)
    (hstart : alike (c.session caller) (c.session caller')) :
    Beside early alike (c.run g caller start) (c.run h caller' start) :=
  hfollows.beside_runFrom c.steps start hstart

/-- What a listener has made of the nodes that it heard of is a fold over what was selected. -/
theorem run_listening (c : Chain) (functions : Registry N) (arithmetic : Arithmetic)
    (limit? : Option Nat) (listener : N → S → S) (caller : S) (start : N) :
    let quiet := c.run (S := Unit) ⟨functions, arithmetic, .upTo limit? none⟩ () start
    let heard := c.run ⟨functions, arithmetic, .upTo limit? (some listener)⟩ caller start
    heard.1 = quiet.1 ∧
      heard.2.caller = quiet.2.selected.foldl (fun heard node => listener node heard) caller := by
  have hbeside := run_beside
    (Setting.follows_listening functions arithmetic limit? listener caller) c () caller start
    ⟨rfl, rfl, rfl, rfl, rfl⟩
  intro quiet heard
  change Beside _ _ quiet heard at hbeside
  clear_value quiet heard
  cases hbeside with
  | same h => exact ⟨rfl, h.2.2.2.2⟩
  | cut hearly => exact hearly.elim

/-- Only predicates can fail. -/
theorem run_ne_finished (c : Chain) (g : Setting S N) (caller : S) (start : N)
    (operation : String) : (c.run g caller start).1 ≠ .error (.finished operation) := by
  intro hrun
  have hfails := (run_of_guards g.guards_count c caller start ⟨rfl, List.nodup_nil⟩).2
  rcases (hfails _ hrun).2 with ⟨p, source, he⟩
  cases source <;> cases he

theorem run_watched (c : Chain) (g : Setting S N) (caller : S) (start : N) :
    let plain := c.run g caller start
    let watched := c.run g.watched (caller, []) start
    watched.1 = plain.1 ∧ watched.2.unwatched = plain.2 := by
  have hbeside := run_beside g.watched_follows c caller (caller, []) start rfl
  intro plain watched
  change Beside _ _ plain watched at hbeside
  clear_value plain watched
  cases hbeside with
  | same h => exact ⟨rfl, h.symm⟩
  | cut hearly => exact hearly.elim

theorem run_events (c : Chain) (g : Setting S N) (caller : S) (start : N) :
    let watched := (c.run g.watched (caller, []) start).2
    Event.reports watched.caller.2 = watched.selected ∧
      Event.Settled watched.finished watched.caller.2 :=
  (run_of_guards g.guards_watched c _ start ⟨rfl, fun before _ h => by
    cases before <;> cases h⟩).1

theorem run_nodup (c : Chain) (g : Setting S N) (caller : S) (start : N) :
    (c.run g caller start).2.selected.Nodup :=
  (run_of_guards g.guards_count c caller start ⟨rfl, List.nodup_nil⟩).1.2

variable {accepts : N → Bool}

theorem run_beside_unending (hfilter : g.hooks.FiltersBy accepts) (c : Chain) (caller : S)
    (start : N) :
    Beside True (fun s t => s.selected = t.selected) (c.run g caller start)
      (c.run g.unending caller start) := by
  have hbeside := run_beside (Setting.follows_unending g hfilter) c caller caller start
    ⟨rfl, rfl, rfl, rfl⟩
  generalize c.run g caller start = cut at hbeside ⊢
  generalize c.run g.unending caller start = full at hbeside ⊢
  cases hbeside with
  | same h => exact .same h.2.2.1
  | cut hearly hfinished hselected => exact .cut hearly hfinished hselected

theorem run_prefix (hfilter : g.hooks.FiltersBy accepts) (c : Chain) (caller : S) (start : N) :
    (c.run g caller start).2.selected <+: (c.run g.unending caller start).2.selected := by
  have hbeside := run_beside_unending hfilter c caller start
  generalize c.run g caller start = cut at hbeside ⊢
  generalize c.run g.unending caller start = full at hbeside ⊢
  cases hbeside with
  | same h => exact h ▸ List.prefix_rfl
  | cut hearly hfinished hselected => exact hselected

/-- A run up to a limit selects as many nodes as there are, but no more than the limit. -/
theorem run_after (hfilter : g.hooks.FiltersBy accepts) (c : Chain) (caller : S) (start : N)
    (limit : Nat) :
    let limited := c.run (g.finishing (Hooks.after limit)) caller start
    let full := c.run g.unending caller start
    limited.2.selected = full.2.selected.take limit ∧
      (limit ≤ full.2.selected.length → limited.1 = .ok ()) ∧
      (full.2.selected.length < limit → limited.1 = full.1) := by
  have hbeside := run_beside_unending (g := g.finishing (Hooks.after limit)) hfilter c caller start
  rcases run_of_guards (g.guards_after limit) c caller start
    ⟨rfl, Nat.zero_le limit, nofun⟩ with ⟨⟨_, hle, hreached⟩, hfails⟩
  change Beside _ _ _ (c.run g.unending caller start) at hbeside
  dsimp only
  generalize c.run (g.finishing (Hooks.after limit)) caller start = limited at *
  generalize c.run g.unending caller start = full at *
  cases hbeside with
  | @same outcome left right hselected =>
      dsimp only at hle hfails hselected ⊢
      rw [← hselected, List.take_of_length_le hle]
      refine ⟨rfl, ?_, fun _ => rfl⟩
      intro hlimit
      cases outcome with
      | ok _ => rfl
      | error e => exact absurd hlimit (Nat.not_le_of_lt (hfails e rfl).1.2.2)
  | @cut _ outcome left right hearly hfinished hselected =>
      have hlimit := hreached hfinished
      dsimp only at hlimit hselected ⊢
      refine ⟨?_, fun _ => rfl, ?_⟩
      · rw [← hlimit]
        exact List.prefix_iff_eq_take.mp hselected
      · intro hlt
        exact absurd hselected.length_le (by omega)

end Chain

namespace Query

variable {S N : Type} [DecidableEq N] [Navigable N]

theorem apply_listening (q : Query N) (limit? : Option Nat) (listener : N → S → S) (caller : S)
    (start : N) :
    let heard := q.chain.apply (q.setting (.upTo limit? (some listener))) caller start
    let quiet := q.chain.run (S := Unit) (q.setting (.upTo limit? none)) () start
    (heard.1.map fun _ => heard.2.caller) =
      quiet.1.map fun _ =>
        quiet.2.selected.foldl (fun heard node => listener node heard) caller := by
  rcases q.chain.run_listening q.functions q.arithmetic limit? listener caller start with
    ⟨houtcome, hcaller⟩
  unfold Chain.apply setting
  dsimp only
  rw [houtcome, hcaller]
  cases (q.chain.run (S := Unit) ⟨q.functions, q.arithmetic, .upTo limit? none⟩ () start).1 with
  | ok _ => rfl
  | error e => rfl

/-- A listener that keeps every node has in the end what the session has. -/
theorem select_eq (q : Query N) (start : N) :
    q.select start = (q.chain.select q.functions q.arithmetic start).mapError .select := by
  have hheard := q.apply_listening none (fun node found => found ++ [node]) [] start
  have hkept : ∀ found more : List N, more.foldl (fun found node => found ++ [node]) found =
      found ++ more := by
    intro found more
    induction more generalizing found with
    | nil => exact (List.append_nil found).symm
    | cons node more ih => rw [List.foldl_cons, ih, List.append_assoc, List.singleton_append]
  dsimp only at hheard
  rw [hkept, List.nil_append] at hheard
  exact congrArg (Except.mapError QueryError.select) hheard

/-- The first match is the first of all matches, also of those found before a failure. -/
theorem first_eq (q : Query N) (start : N) :
    let full := q.chain.run (S := Unit) (q.setting .none) () start
    q.first start =
      match full.2.selected with
      | n :: _ => .ok (some n)
      | [] => (full.1.map fun _ => none).mapError .select := by
  intro full
  let limited := q.chain.run ((q.setting (S := Unit) .none).finishing (Hooks.after 1)) () start
  have hfilter : (q.setting (S := Unit) .none).hooks.FiltersBy fun _ => true := fun _ => rfl
  have hafter : limited.2.selected = full.2.selected.take 1 ∧
      (1 ≤ full.2.selected.length → limited.1 = .ok ()) ∧
      (full.2.selected.length < 1 → limited.1 = full.1) :=
    Chain.run_after hfilter q.chain () start 1
  have hfirst : q.first start =
      (limited.1.map fun _ => limited.2.selected.foldl (fun _ n => some n) none).mapError .select :=
    congrArg (Except.mapError QueryError.select)
      (q.apply_listening (some 1) (fun n _ => some n) none start)
  rcases hafter with ⟨hselected, hok, hsame⟩
  rw [hfirst, hselected]
  cases hfull : full.2.selected with
  | nil =>
      rw [hsame (by simp [hfull])]
      rfl
  | cons n rest =>
      rw [hok (by simp [hfull])]
      rfl

/-- A run under hooks of any kind, whose filter answers by the candidate alone.  It never works on
after its end: no operation is refused, and whoever watches it sees every node it selects, each
once, and nothing more after the first yes of the finisher, whatever that would say later.  What it
selects is the beginning of what it would select without a finisher, namely the first `limit` nodes
if it is to finish after so many; then it succeeds although the run without a finisher may fail
later on.  The first match is found in this way. -/
theorem run_cut_short (q : Query N) (hooks : Hooks S N) {accepts : N → Bool}
    (hfilter : hooks.FiltersBy accepts) (caller : S) (start : N) :
    let g := q.setting hooks
    let cut := q.chain.run g caller start
    let watched := q.chain.run g.watched (caller, []) start
    let full := q.chain.run g.unending caller start
    (∀ operation, cut.1 ≠ .error (.finished operation)) ∧
      (watched.1 = cut.1 ∧ watched.2.unwatched = cut.2 ∧
        Event.reports watched.2.caller.2 = cut.2.selected ∧
        ∀ before after, watched.2.caller.2 = before ++ .answered true :: after → after = []) ∧
      cut.2.selected.Nodup ∧
      cut.2.selected <+: full.2.selected ∧
      (∀ limit,
        let limited := q.chain.run (g.finishing (Hooks.after limit)) caller start
        limited.2.selected = full.2.selected.take limit ∧
          (limit ≤ full.2.selected.length → limited.1 = .ok ()) ∧
          (full.2.selected.length < limit → limited.1 = full.1)) ∧
      q.first start =
        let all := q.chain.run (S := Unit) (q.setting .none) () start
        match all.2.selected with
        | n :: _ => .ok (some n)
        | [] => (all.1.map fun _ => none).mapError .select := by
  intro g cut watched full
  have hwatched : watched.1 = cut.1 ∧ watched.2.unwatched = cut.2 :=
    Chain.run_watched q.chain g caller start
  have hevents : Event.reports watched.2.caller.2 = watched.2.selected ∧
      Event.Settled watched.2.finished watched.2.caller.2 :=
    Chain.run_events q.chain g caller start
  have hreports : Event.reports watched.2.caller.2 = cut.2.selected := by
    rw [hevents.1, ← hwatched.2]
    rfl
  refine ⟨Chain.run_ne_finished q.chain g caller start, ⟨hwatched.1, hwatched.2, hreports, ?_⟩,
    Chain.run_nodup q.chain g caller start, Chain.run_prefix hfilter q.chain caller start,
    Chain.run_after hfilter q.chain caller start, q.first_eq start⟩
  intro before after hlast
  exact (hevents.2 before after hlast).2

/-- A finisher that would say yes just once, to the thirteenth question, cuts the list of the leaves
of the sample forest short. -/
theorem run_cut_short_forest :
    let accepts : Node → Bool := fun n => n.element.name != "twig"
    let hooks : Hooks Nat Node :=
      ⟨some fun n asked => (accepts n, asked), some fun _ asked => (asked == 12, asked + 1), none⟩
    let q : Query Node :=
      ⟨"", .leaf .wildcard "*", (Chain.empty.axis .descendant).named "leaf", .empty, .standard⟩
    let start := (Sample.forest.run 0).1
    let cut := q.chain.run (q.setting hooks) 0 start
    let full := q.chain.run (q.setting hooks).unending 0 start
    hooks.FiltersBy accepts ∧ cut.2.selected.map Node.idOrDash = ["a", "b"] ∧
      full.2.selected.map Node.idOrDash = ["a", "b", "c", "f", "g"] ∧
      cut.2.selected <+: full.2.selected := by
  intro accepts hooks q start cut full
  have hfilter : hooks.FiltersBy accepts := fun _ _ => rfl
  have hselected : cut.2.selected.map Node.idOrDash = ["a", "b"] := by
    decide +kernel
  have hall : full.2.selected.map Node.idOrDash = ["a", "b", "c", "f", "g"] := by
    decide +kernel
  have hcut := run_cut_short q hooks hfilter 0 start
  clear_value accepts hooks q start
  exact ⟨hfilter, hselected, hall, hcut.2.2.2.1⟩

end Query
end TreeQuery
