import TreeQuery.Proofs.Chain.Meaning

/-!
# The first failure

Narrowing whole lists tells whether anything fails, but not what fails first:
the engine takes one candidate through all the steps before it looks at the
next.  The failure that ends a run is found by taking the candidates in that
order.  There are still no counters; the candidates that a row of steps has
dealt with stand for them.
-/

namespace TreeQuery
namespace Environment

section

variable {N : Type}

def firstFailure (after : List N → N → Option SelectError) (seen : List N) :
    List N → Option SelectError
  | [] => none
  | n :: ns => (after seen n).or (firstFailure after (seen ++ [n]) ns)

theorem firstFailure_append (after : List N → N → Option SelectError) (seen ns more : List N) :
    firstFailure after seen (ns ++ more) =
      (firstFailure after seen ns).or (firstFailure after (seen ++ ns) more) := by
  induction ns generalizing seen with
  | nil => simp [firstFailure]
  | cons n ns ih =>
      simp only [List.cons_append, firstFailure, ih, Option.or_assoc, List.append_assoc,
        List.nil_append]

theorem firstFailure_concat (after : List N → N → Option SelectError) (seen ns : List N) (n : N) :
    firstFailure after seen (ns ++ [n]) =
      (firstFailure after seen ns).or (after (seen ++ ns) n) := by
  rw [firstFailure_append, firstFailure, firstFailure, Option.or_none]

end

variable {N : Type} [DecidableEq N] [Navigable N]

/-- The failure that a candidate meets on its way through the steps, when they have dealt with
some candidates before it. -/
def failureAfter (env : Environment N) : List Step → List N → N → Option SelectError
  | [], _, _ => none
  | .axis a :: rest, _, n =>
      firstFailure (failureAfter env rest) [] (a.candidates env.accepts n)
  | .name test :: rest, seen, n =>
      if test.accepts (Navigable.name n) then failureAfter env rest (named test seen) n else none
  | .predicate p :: rest, seen, n =>
      match env.verdict p n (seen.length + 1) with
      | .error e => some e
      | .ok true => failureAfter env rest (env.kept p seen) n
      | .ok false => none

/-!
# One failure and all failures

Where nothing has failed so far, one more candidate fails exactly when the list
with it does, and with a failure of that list.
-/

inductive Represents : Option SelectError → List SelectError → Prop where
  | none : Represents none []
  | some {e : SelectError} {errors : List SelectError} (h : e ∈ errors) : Represents (some e) errors

section

variable {env : Environment N} {steps : List Step} {seen : List N} {n : N} {e : SelectError}

theorem represents_append_of_step
    (hstep : ∀ {seen : List N} (n : N), env.failures steps seen = [] →
      Represents (env.failureAfter steps seen n) (env.failures steps (seen ++ [n])))
    {seen : List N} (hseen : env.failures steps seen = []) (ns : List N) :
    Represents (firstFailure (env.failureAfter steps) seen ns)
      (env.failures steps (seen ++ ns)) := by
  induction ns generalizing seen with
  | nil =>
      rw [List.append_nil, hseen]
      exact .none
  | cons n ns ih =>
      have hjoin : seen ++ n :: ns = (seen ++ [n]) ++ ns := by simp
      have hn := hstep n hseen
      rw [hjoin, firstFailure]
      generalize hfailure : env.failureAfter steps seen n = failure at hn
      generalize herrors : env.failures steps (seen ++ [n]) = errors at hn
      cases hn with
      | none => exact ih herrors
      | some he =>
          rw [← herrors] at he
          exact .some (mem_failures_append he ns)

theorem represents_concat (n : N) (hseen : env.failures steps seen = []) :
    Represents (env.failureAfter steps seen n) (env.failures steps (seen ++ [n])) := by
  induction steps generalizing seen n with
  | nil => exact .none
  | cons step rest ih =>
      cases step with
      | axis a =>
          have hlist := represents_append_of_step (fun n hseen => ih n hseen)
            (failures_nil rest) (a.candidates env.accepts n)
          rw [List.nil_append] at hlist
          rw [failures] at hseen
          simp only [failureAfter, failures, List.flatMap_append, hseen, List.nil_append,
            List.flatMap_singleton]
          exact hlist
      | name test =>
          simp only [failureAfter, failures, named_append] at hseen ⊢
          by_cases haccepts : test.accepts (Navigable.name n) = true
          · have hnamed : named test [n] = [n] := by simp [named, haccepts]
            rw [if_pos haccepts, hnamed]
            exact ih n hseen
          · have hnamed : named test [n] = [] := by simp [named, haccepts]
            rw [if_neg haccepts, hnamed, List.append_nil, hseen]
            exact .none
      | predicate p =>
          rw [failures, List.append_eq_nil_iff] at hseen
          rw [failureAfter, failures]
          cases hverdict : env.verdict p n (seen.length + 1) with
          | error e => exact .some (List.mem_append_left _ (mem_faults_concat_of_error hverdict))
          | ok admitted =>
              rw [faults_concat_of_ok hverdict, hseen.1, List.nil_append]
              cases admitted with
              | true =>
                  rw [kept_concat_of_admitted hverdict]
                  exact ih n hseen.2
              | false =>
                  rw [kept_concat_of_refused hverdict, hseen.2]
                  exact .none

theorem mem_failures_of_failureAfter (hseen : env.failures steps seen = [])
    (h : env.failureAfter steps seen n = some e) : e ∈ env.failures steps (seen ++ [n]) := by
  have hn := represents_concat n hseen
  rw [h] at hn
  cases hn with
  | some he => exact he

theorem failureAfter_eq_none_iff (hseen : env.failures steps seen = []) :
    env.failureAfter steps seen n = none ↔ env.failures steps (seen ++ [n]) = [] := by
  have hn := represents_concat n hseen
  generalize env.failureAfter steps seen n = failure at hn
  generalize env.failures steps (seen ++ [n]) = errors at hn
  cases hn with
  | none => exact iff_of_true rfl rfl
  | some he => exact iff_of_false (Option.some_ne_none _) (List.ne_nil_of_mem he)

theorem firstFailure_eq_none (hseen : env.failures steps seen = []) :
    firstFailure (env.failureAfter steps) [] seen = none := by
  have hlist : Represents (firstFailure (env.failureAfter steps) [] seen)
      (env.failures steps ([] ++ seen)) :=
    represents_append_of_step (fun n hseen => represents_concat n hseen) (failures_nil steps) seen
  rw [List.nil_append, hseen] at hlist
  generalize firstFailure (env.failureAfter steps) [] seen = failure at hlist
  cases hlist with
  | none => rfl
  | some he => cases he

end

end Environment
end TreeQuery
