import Reflection.Name
import Reflection.Token.Stream

/-!
# Texts of tokens

The spelling of tokens is put together from their texts. Labels hold no separator, so the segments of
a qualified name can be told apart in its spelling.

## Main statements

* `spelling_append`: the spelling of two lists of tokens.
* `ne_separator_of_isLabel`: no separator stands in a label.
-/
namespace Reflection

open Reflection.Text

/-! ## Labels -/

theorem mem_dropFinalNewline {cs : List Char} {c : Char} (h : c ∈ cs) :
    c ∈ dropFinalNewline cs ∨ c = '\n' := by
  simp only [dropFinalNewline]
  by_cases hlast : cs.getLast? = some '\n'
  · obtain ⟨front, rfl⟩ := List.getLast?_eq_some_iff.mp hlast
    simpa using h
  · rw [if_neg hlast]
    exact .inl h

/-- No separator stands in a label. -/
theorem ne_separator_of_isLabel {s : String} {c : Char} (h : isLabel s = true)
    (hc : c ∈ s.toList) : c ≠ Name.separator := by
  intro heq
  subst heq
  have hmem : Name.separator ∈ dropFinalNewline s.toList := by
    rcases mem_dropFinalNewline hc with hmem | hnewline
    · exact hmem
    · exact absurd hnewline (by decide)
  have hstart : isLabelStart Name.separator = false := by decide
  have hcontinue : isLabelContinue Name.separator = false := by decide
  simp only [isLabel] at h
  split at h
  · cases h
  · rename_i first rest heq
    rw [heq] at hmem
    rw [Bool.and_eq_true, List.all_eq_true] at h
    rcases List.mem_cons.mp hmem with hfirst | hrest
    · rw [← hfirst, hstart] at h
      cases h.1
    · have := h.2 _ hrest
      rw [hcontinue] at this
      cases this

theorem toList_ne_nil_of_isLabel {s : String} (h : isLabel s = true) : s.toList ≠ [] := by
  intro hnil
  simp [isLabel, hnil, dropFinalNewline] at h

theorem ne_of_isLabel {s : String} (h : isLabel s = true) : s ≠ "\\" := by
  intro heq
  exact ne_separator_of_isLabel (c := '\\') h (by rw [heq]; decide) rfl

namespace Token

/-! ## Spelling -/

@[simp] theorem spelling_nil : spelling [] = "" := by
  rw [spelling, List.map_nil, String.join_nil]

theorem spelling_cons (t : Token) (ts : List Token) : spelling (t :: ts) = t.text ++ spelling ts := by
  rw [spelling, List.map_cons, String.join_cons]
  rfl

theorem spelling_append (xs ys : List Token) :
    spelling (xs ++ ys) = spelling xs ++ spelling ys := by
  simp only [spelling, List.map_append, String.join_append]

/-! ## Classes of tokens -/

theorem isLabel_of_isIdentifier {t : Token} (h : t.isIdentifier = true) :
    isLabel t.text = true :=
  (Bool.and_eq_true_iff.mp h).2

theorem isIgnorable_of_isIdentifier {t : Token} (h : t.isIdentifier = true) :
    t.isIgnorable = false := by
  have hkind := (Bool.and_eq_true_iff.mp h).1
  simp only [Bool.or_eq_true, beq_iff_eq] at hkind
  rcases hkind with hkind | hkind <;> simp [isIgnorable, hkind, TokenKind.isIgnorable]

theorem kind_of_isPunct {t : Token} {s : String} (h : t.isPunct s = true) :
    t.kind = .punctuation :=
  beq_iff_eq.mp (Bool.and_eq_true_iff.mp h).1

theorem text_of_isPunct {t : Token} {s : String} (h : t.isPunct s = true) : t.text = s :=
  beq_iff_eq.mp (Bool.and_eq_true_iff.mp h).2

theorem isIgnorable_of_isPunct {t : Token} {s : String} (h : t.isPunct s = true) :
    t.isIgnorable = false := by
  simp [isIgnorable, kind_of_isPunct h, TokenKind.isIgnorable]

/-- A punctuation token has one text. -/
theorem isPunct_of_isPunct {t : Token} {s : String} (h : t.isPunct s = true) (s' : String) :
    t.isPunct s' = (s == s') := by
  simp [isPunct, kind_of_isPunct h, text_of_isPunct h]

end Token
end Reflection
