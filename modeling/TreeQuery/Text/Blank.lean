/-!
# Blank characters

The characters of the Unicode property White_Space, which separate words and
surround number texts.
-/

namespace TreeQuery
namespace Blank

def isBlank (c : Char) : Bool :=
  let n := c.toNat
  (0x9 ≤ n && n ≤ 0xd) || n == 0x20 || n == 0x85 || n == 0xa0 || n == 0x1680 ||
    (0x2000 ≤ n && n ≤ 0x200a) || n == 0x2028 || n == 0x2029 || n == 0x202f ||
    n == 0x205f || n == 0x3000

def trimLeft (text : List Char) : List Char :=
  text.dropWhile isBlank

def trim (text : List Char) : List Char :=
  (trimLeft (trimLeft text).reverse).reverse

/-- The runs of other characters between blanks. -/
def words (text : List Char) : List (List Char) :=
  (text.splitOnP isBlank).filter (!·.isEmpty)

/-!
# Trimming

Blanks are taken off up to the first character that is none.
-/

variable {left right text : List Char}

theorem trimLeft_append (h : ∀ c ∈ left, isBlank c = true) (text : List Char) :
    trimLeft (left ++ text) = trimLeft text :=
  List.dropWhile_append_of_pos h

theorem trimLeft_of_not_blank (h : ∀ c ∈ text, isBlank c = false) (hne : text ≠ [])
    (rest : List Char) : trimLeft (text ++ rest) = text ++ rest := by
  rcases List.exists_cons_of_ne_nil hne with ⟨c, more, rfl⟩
  unfold trimLeft
  rw [List.cons_append, List.dropWhile_cons_of_neg]
  rw [h c List.mem_cons_self]
  exact Bool.false_ne_true

theorem trim_surrounded (hleft : ∀ c ∈ left, isBlank c = true)
    (hright : ∀ c ∈ right, isBlank c = true) (htext : ∀ c ∈ text, isBlank c = false)
    (hne : text ≠ []) : trim (left ++ text ++ right) = text := by
  have hbehind : ∀ c ∈ right.reverse, isBlank c = true := fun c hc =>
    hright c (List.mem_reverse.mp hc)
  have hreversed : ∀ c ∈ text.reverse, isBlank c = false := fun c hc =>
    htext c (List.mem_reverse.mp hc)
  have hlast := trimLeft_of_not_blank hreversed (mt List.reverse_eq_nil_iff.mp hne) []
  rw [List.append_nil] at hlast
  rw [trim, List.append_assoc, trimLeft_append hleft, trimLeft_of_not_blank htext hne,
    List.reverse_append, trimLeft_append hbehind, hlast, List.reverse_reverse]

end Blank
end TreeQuery
