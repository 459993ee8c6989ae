import TreeQuery.Proofs.Tree.Lawful

/-!
# Document order

The nodes of a tree in document order are those below its root, from the top
down.  Seen from one node they fall into three parts: what leads up to the node
with its ancestors in between, the subtree of the node, and what trails it.
-/

namespace TreeQuery

theorem mem_behind_iff_mem_front {A : Type} {a b : A} {as bs cs ds : List A}
    (h : as ++ a :: bs = cs ++ b :: ds) (hnodup : (as ++ a :: bs).Nodup) : b ∈ bs ↔ a ∈ cs := by
  rcases List.nodup_append.mp hnodup with ⟨_, hbehind, hdisjoint⟩
  have hself := (List.nodup_cons.mp hbehind).1
  have hfront : ∀ {x}, x ∈ as → x ∉ a :: bs := fun hx hmem => hdisjoint _ hx _ hmem rfl
  rcases List.append_eq_append_iff.mp h with ⟨middle, rfl, htail⟩ | ⟨middle, rfl, htail⟩
  · cases middle with
    | nil =>
        rcases List.cons.inj htail with ⟨rfl, rfl⟩
        rw [List.append_nil]
        exact ⟨fun hb => absurd hb hself, fun ha => absurd List.mem_cons_self (hfront ha)⟩
    | cons x middle =>
        rcases List.cons.inj htail with ⟨rfl, rfl⟩
        exact iff_of_true (by simp) (by simp)
  · cases middle with
    | nil =>
        rcases List.cons.inj htail with ⟨rfl, rfl⟩
        rw [List.append_nil] at hfront
        exact ⟨fun hb => absurd hb hself, fun ha => absurd List.mem_cons_self (hfront ha)⟩
    | cons x middle =>
        rcases List.cons.inj htail with ⟨rfl, rfl⟩
        apply iff_of_false
        · intro hb
          exact hfront (by simp) (List.mem_cons_of_mem a hb)
        · intro ha
          exact hfront (List.mem_append_left _ ha) List.mem_cons_self

namespace Navigable

variable {N : Type} [DecidableEq N] [Navigable N] {m n p : N}

/-!
# The root
-/

theorem root_of_parent (h : parent n = some p) : root n = root p := by
  rw [root, root, ancestors_of_parent h]
  cases ancestors p with
  | nil => rfl
  | cons a above => rfl

theorem root_of_no_parent (h : parent n = none) : root n = n := by
  rw [root, ancestors_of_no_parent h]
  rfl

theorem parent_root (n : N) : parent (root n) = none := by
  induction n using induction_parent with
  | h n ih =>
      cases hp : parent n with
      | none => rw [root_of_no_parent hp, hp]
      | some p => rw [root_of_parent hp, ih p hp]

theorem root_mem_line (n : N) : root n ∈ n :: ancestors n := by
  induction n using induction_parent with
  | h n ih =>
      cases hp : parent n with
      | none =>
          rw [root_of_no_parent hp]
          exact List.mem_cons_self
      | some p =>
          rw [root_of_parent hp, ancestors_of_parent hp]
          exact List.mem_cons_of_mem n (ih p hp)

theorem root_of_mem_line (h : m ∈ n :: ancestors n) : root m = root n := by
  induction n using induction_parent with
  | h n ih =>
      rcases List.mem_cons.mp h with rfl | habove
      · rfl
      · cases hp : parent n with
        | none =>
            rw [ancestors_of_no_parent hp] at habove
            cases habove
        | some p =>
            rw [ancestors_of_parent hp] at habove
            rw [root_of_parent hp]
            exact ih p hp habove

/-!
# Document order
-/

def document (n : N) : List N :=
  descendantsOrSelf (root n)

def before (n : N) : List N :=
  (document n).takeWhile fun m => decide (m ≠ n)

def after (n : N) : List N :=
  ((document n).dropWhile fun m => decide (m ≠ n)).drop 1

/-- What comes before the subtree of a node: ancestors and, between them, the subtrees of earlier
siblings. -/
def leading (n : N) : List N :=
  (n :: ancestors n).reverse.flatMap fun level =>
    (parent level).toList ++ (precedingSiblings level).reverse.flatMap descendantsOrSelf

def trailing (n : N) : List N :=
  (n :: ancestors n).flatMap fun level => (followingSiblings level).flatMap descendantsOrSelf

theorem leading_of_parent (h : parent n = some p) :
    leading n =
      leading p ++ p :: (precedingSiblings n).reverse.flatMap descendantsOrSelf := by
  rw [leading, leading, ancestors_of_parent h, List.reverse_cons, List.flatMap_append,
    List.flatMap_singleton, h]
  rfl

theorem trailing_of_parent (h : parent n = some p) :
    trailing n = (followingSiblings n).flatMap descendantsOrSelf ++ trailing p := by
  rw [trailing, trailing, ancestors_of_parent h, List.flatMap_cons]

variable [Lawful N]

theorem mem_document_iff : m ∈ document n ↔ root m = root n := by
  rw [document, mem_descendantsOrSelf_iff_mem_line]
  constructor
  · intro h
    have hroot := root_of_mem_line h
    rw [root_of_no_parent (parent_root n)] at hroot
    exact hroot.symm
  · intro h
    rw [← h]
    exact root_mem_line m

theorem nodup_document (n : N) : (document n).Nodup :=
  nodup_descendantsOrSelf (root n)

theorem leading_of_no_parent (h : parent n = none) : leading n = [] := by
  rw [leading, ancestors_of_no_parent h]
  simp [h, (Lawful.siblings_of_no_parent h).1]

theorem trailing_of_no_parent (h : parent n = none) : trailing n = [] := by
  rw [trailing, ancestors_of_no_parent h, List.flatMap_singleton,
    (Lawful.siblings_of_no_parent h).2]
  rfl

theorem document_eq (n : N) : document n = leading n ++ descendantsOrSelf n ++ trailing n := by
  induction n using induction_parent with
  | h n ih =>
      cases hp : parent n with
      | none =>
          rw [leading_of_no_parent hp, trailing_of_no_parent hp, document, root_of_no_parent hp,
            List.nil_append, List.append_nil]
      | some p =>
          have hdocument : document n = document p := congrArg descendantsOrSelf (root_of_parent hp)
          rw [hdocument, ih p hp, leading_of_parent hp, trailing_of_parent hp,
            descendantsOrSelf_eq p, Lawful.children_eq hp]
          simp only [List.flatMap_append, List.flatMap_cons, List.append_assoc, List.cons_append]

/-!
# Three parts
-/

theorem nodup_parts (n : N) : (leading n ++ descendantsOrSelf n ++ trailing n).Nodup := by
  rw [← document_eq]
  exact nodup_document n

theorem notMem_descendantsOrSelf_of_leading (h : m ∈ leading n) : m ∉ descendantsOrSelf n :=
  fun hm => (List.nodup_append.mp (List.nodup_append.mp (nodup_parts n)).1).2.2 m h m hm rfl

theorem notMem_descendantsOrSelf_of_trailing (h : m ∈ trailing n) : m ∉ descendantsOrSelf n :=
  fun hm => (List.nodup_append.mp (nodup_parts n)).2.2 m (List.mem_append_right _ hm) m h rfl

theorem self_notMem_leading (n : N) : n ∉ leading n :=
  fun h => notMem_descendantsOrSelf_of_leading h (self_mem_descendantsOrSelf n)

theorem document_eq_cons (n : N) :
    document n = leading n ++ n :: ((children n).flatMap descendantsOrSelf ++ trailing n) := by
  rw [document_eq, descendantsOrSelf_eq, List.append_assoc, List.cons_append]

theorem decide_ne_of_mem_leading : ∀ m ∈ leading n, decide (m ≠ n) = true := by
  intro m hm
  apply decide_eq_true
  rintro rfl
  exact self_notMem_leading m hm

theorem before_eq (n : N) : before n = leading n := by
  rw [before, document_eq_cons, List.takeWhile_append_of_pos decide_ne_of_mem_leading,
    List.takeWhile_cons_of_neg (by simp), List.append_nil]

theorem after_eq (n : N) : after n = (children n).flatMap descendantsOrSelf ++ trailing n := by
  rw [after, document_eq_cons, List.dropWhile_append_of_pos decide_ne_of_mem_leading,
    List.dropWhile_cons_of_neg (by simp)]
  rfl

/-- After a node come its descendants and what trails it. -/
theorem filter_after (n : N) :
    (after n).filter (fun m => decide (n ∉ ancestors m)) = trailing n := by
  have hbelow : ∀ m ∈ (children n).flatMap descendantsOrSelf,
      ¬ decide (n ∉ ancestors m) = true := by
    intro m hm
    rcases List.mem_flatMap.mp hm with ⟨c, hc, hmc⟩
    have hline := mem_descendantsOrSelf_iff_mem_line.mp hmc
    have habove := mem_ancestors_of_parent hline (Lawful.mem_children_iff.mp hc)
    simpa using habove
  have htrailing : ∀ m ∈ trailing n, decide (n ∉ ancestors m) = true := by
    intro m hm
    apply decide_eq_true
    intro habove
    apply notMem_descendantsOrSelf_of_trailing hm
    exact mem_descendantsOrSelf_iff_mem_line.mpr (List.mem_cons_of_mem m habove)
  rw [after_eq, List.filter_append, List.filter_eq_nil_iff.mpr hbelow,
    List.filter_eq_self.mpr htrailing, List.nil_append]

theorem filter_document (n : N) :
    (document n).filter (fun m => decide (n ∈ m :: ancestors m)) = descendantsOrSelf n := by
  have hmem : ∀ {m : N}, decide (n ∈ m :: ancestors m) = true ↔ m ∈ descendantsOrSelf n := by
    intro m
    rw [decide_eq_true_iff, mem_descendantsOrSelf_iff_mem_line]
  have hleading : ∀ m ∈ leading n, ¬ decide (n ∈ m :: ancestors m) = true :=
    fun m hm h => notMem_descendantsOrSelf_of_leading hm (hmem.mp h)
  have htrailing : ∀ m ∈ trailing n, ¬ decide (n ∈ m :: ancestors m) = true :=
    fun m hm h => notMem_descendantsOrSelf_of_trailing hm (hmem.mp h)
  rw [document_eq, List.filter_append, List.filter_append, List.filter_eq_nil_iff.mpr hleading,
    List.filter_eq_nil_iff.mpr htrailing, List.filter_eq_self.mpr fun m hm => hmem.mpr hm,
    List.nil_append, List.append_nil]

/-!
# Siblings
-/

theorem mem_followingSiblings_iff : m ∈ followingSiblings n ↔ n ∈ precedingSiblings m := by
  have hsplits : ∀ {p : N}, parent n = some p → parent m = some p →
      (m ∈ followingSiblings n ↔ n ∈ precedingSiblings m) := by
    intro p hn hm
    apply Iff.trans _ List.mem_reverse
    apply mem_behind_iff_mem_front
    · rw [← Lawful.children_eq hn, ← Lawful.children_eq hm]
    · rw [← Lawful.children_eq hn]
      exact Lawful.nodup_children p
  constructor
  · intro h
    cases hn : parent n with
    | none =>
        rw [(Lawful.siblings_of_no_parent hn).2] at h
        cases h
    | some p =>
        have hm : m ∈ children p := by
          rw [Lawful.children_eq hn]
          exact List.mem_append_right _ (List.mem_cons_of_mem n h)
        exact (hsplits hn (Lawful.mem_children_iff.mp hm)).mp h
  · intro h
    cases hm : parent m with
    | none =>
        rw [(Lawful.siblings_of_no_parent hm).1] at h
        cases h
    | some p =>
        have hn : n ∈ children p := by
          rw [Lawful.children_eq hm]
          exact List.mem_append_left _ (List.mem_reverse.mpr h)
        exact (hsplits (Lawful.mem_children_iff.mp hn) hm).mpr h

end Navigable
end TreeQuery
