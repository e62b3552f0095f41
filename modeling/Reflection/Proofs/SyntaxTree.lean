import Mathlib.Data.List.Chain
import Reflection.Proofs.Text.Encoding
import Reflection.Proofs.Token
import Reflection.SyntaxTree

/-!
# Flattening keeps the source

The leaves of a syntax tree leave gaps, and the tokens of the tree fill these. Where the leaves stand in
order at places of the source, no octet is left out and none comes twice, and the lines of the tokens
follow from the rows of the leaves.

## Main definitions

* `Marks`, `Leaf.LiesIn`: the places of a text, and leaves that stand at such places.
* `Covers`: tokens that make up a stretch of text.

## Main statements

* `covers_tokensFrom`: the tokens from a place on cover what remains of the source.
* `tokens_lossless`: the tokens of a tree make up the source.
-/
namespace Reflection

open Reflection.Text Token

/-! ## Places of a text -/

/-- An offset and a row mark a place of a text: the characters before it take that many octets and
hold that many line feeds. -/
def Marks (source : String) (offset row : Nat) : Prop :=
  ∃ before after, source = before ++ after ∧ (encodeUtf8 before).length = offset ∧
    before.toList.count '\n' = row

/-- A leaf stands between two places of a text. -/
structure Leaf.LiesIn (source : String) (leaf : Leaf) : Prop where
  start : Marks source leaf.start leaf.startRow
  stop : Marks source leaf.stop leaf.stopRow

/-- Line of the character that follows a text. -/
def lineAfter (before : String) : Int := before.toList.count '\n' + 1

theorem length_encodeUtf8_append (s t : String) :
    (encodeUtf8 (s ++ t)).length = (encodeUtf8 s).length + (encodeUtf8 t).length := by
  rw [encodeUtf8_append, List.length_append]

/-- Of two places of a text, the one with the smaller offset comes first. -/
theorem exists_between {before rest before' rest' : String}
    (heq : before ++ rest = before' ++ rest')
    (hle : (encodeUtf8 before).length ≤ (encodeUtf8 before').length) :
    ∃ mid, before' = before ++ mid ∧ rest = mid ++ rest' := by
  have hlists : before.toList ++ rest.toList = before'.toList ++ rest'.toList := by
    rw [← String.toList_append, heq, String.toList_append]
  rcases List.append_eq_append_iff.mp hlists with ⟨mid, hbefore, hrest⟩ | ⟨mid, hbefore, hrest⟩
  · refine ⟨String.ofList mid, String.toList_inj.mp ?_, String.toList_inj.mp ?_⟩
    · rw [String.toList_append, String.toList_ofList, hbefore]
    · rw [String.toList_append, String.toList_ofList, hrest]
  · -- The other way round what lies between takes no octets.
    have hsplit : before = before' ++ String.ofList mid := by
      rw [← String.toList_inj, String.toList_append, String.toList_ofList, hbefore]
    have hnil : String.ofList mid = "" := by
      rw [hsplit, length_encodeUtf8_append] at hle
      exact eq_empty_of_encodeUtf8 (List.eq_nil_of_length_eq_zero (by omega))
    have hmid : mid = [] := by simpa using hnil
    rw [hmid, List.nil_append] at hrest
    rw [hnil, String.append_empty] at hsplit
    refine ⟨"", ?_, ?_⟩
    · rw [String.append_empty, hsplit]
    · rw [String.empty_append, String.toList_inj.mp hrest]

/-- The octets between two places of a text are those of the text between them. -/
theorem spanText_encodeUtf8 (before mid after : String) :
    spanText (encodeUtf8 (before ++ mid ++ after)) (encodeUtf8 before).length
      (encodeUtf8 (before ++ mid)).length = mid := by
  rw [spanText, encodeUtf8_append _ after, List.take_left, encodeUtf8_append, List.drop_left,
    decodeLossy_encodeUtf8]

/-! ## Tokens of a stretch of text -/

/-- The tokens of a stretch of text that stands after `before`. They are numbered from `index` on, none
of them is empty, and the line of each is that of its first character. -/
inductive Covers : String → Int → List Token → String → Prop
  | nil (before : String) (index : Int) : Covers before index [] ""
  | cons {before : String} {index : Int} {t : Token} {rest : List Token} {text : String}
      (hnonempty : t.text ≠ "") (hindex : t.index = index) (hline : t.line = lineAfter before)
      (hrest : Covers (before ++ t.text) (index + 1) rest text) :
      Covers before index (t :: rest) (t.text ++ text)

namespace Covers

variable {before text text' : String} {index : Int} {tokens tokens' : List Token}

theorem append (h : Covers before index tokens text)
    (h' : Covers (before ++ text) (index + tokens.length) tokens' text') :
    Covers before index (tokens ++ tokens') (text ++ text') := by
  induction h with
  | nil before index => simpa using h'
  | @cons before index t rest text hnonempty hindex hline hrest ih =>
    rw [String.append_assoc, List.cons_append]
    refine .cons hnonempty hindex hline (ih ?_)
    have hlength : index + 1 + (rest.length : Int) = index + ((t :: rest).length : Int) := by
      simp only [List.length_cons]
      omega
    rw [String.append_assoc, hlength]
    exact h'

theorem spelling_eq (h : Covers before index tokens text) : spelling tokens = text := by
  induction h with
  | nil => exact spelling_nil
  | cons _ _ _ _ ih => rw [spelling_cons, ih]

/-- A token of a stretch follows the text of the tokens before it. -/
theorem token (h : Covers before index tokens text) {front back : List Token} {t : Token}
    (hsplit : tokens = front ++ t :: back) :
    t.text ≠ "" ∧ t.index = index + front.length ∧ t.line = lineAfter (before ++ spelling front) := by
  induction h generalizing front with
  | nil => simp at hsplit
  | @cons before index first rest text hnonempty hindex hline hrest ih =>
    cases front with
    | nil =>
      cases hsplit
      rw [spelling_nil, String.append_empty]
      exact ⟨hnonempty, by simpa using hindex, hline⟩
    | cons _ front =>
      cases hsplit
      obtain ⟨hnonempty', hindex', hline'⟩ := ih rfl
      refine ⟨hnonempty', ?_, ?_⟩
      · rw [hindex', List.length_cons]
        omega
      · rw [hline', spelling_cons, String.append_assoc]

end Covers

/-- One token that is not empty covers its own text. -/
theorem Covers.single {before : String} {index : Int} {t : Token} (hnonempty : t.text ≠ "")
    (hindex : t.index = index) (hline : t.line = lineAfter before) :
    Covers before index [t] t.text := by
  have h := Covers.cons hnonempty hindex hline (.nil (before ++ t.text) (index + 1))
  rwa [String.append_empty] at h

/-! ## The tokens of leaves -/

/-- Texts of different octets differ, so what lies between two places is not empty. -/
theorem ne_empty_of_length_lt {before mid : String}
    (h : (encodeUtf8 before).length < (encodeUtf8 (before ++ mid)).length) : mid ≠ "" := by
  intro hmid
  rw [hmid, String.append_empty] at h
  exact Nat.lt_irrefl _ h

/-- A gap gives one token, or none where it is empty. -/
theorem covers_gapToken (before mid after : String) (index : Int) :
    Covers before index
      (gapToken (encodeUtf8 (before ++ mid ++ after)) (encodeUtf8 before).length
        (encodeUtf8 (before ++ mid)).length (lineAfter before) index) mid := by
  rw [gapToken, spanText_encodeUtf8]
  by_cases hlt : (encodeUtf8 before).length < (encodeUtf8 (before ++ mid)).length
  · rw [if_pos hlt]
    exact .single (ne_empty_of_length_lt hlt) rfl rfl
  · rw [if_neg hlt]
    have hmid : mid = "" := by
      rw [length_encodeUtf8_append] at hlt
      exact eq_empty_of_encodeUtf8 (List.eq_nil_of_length_eq_zero (by omega))
    rw [hmid]
    exact .nil before index

variable {source before rest : String} {leaves : List Leaf}

/-- The tokens from a place of the source on cover what remains of it, whatever was passed before. -/
theorem covers_tokensFrom (hsource : source = before ++ rest) (index : Int)
    (hin : ∀ leaf ∈ leaves, leaf.LiesIn source ∧ leaf.start < leaf.stop)
    (horder : leaves.IsChain fun a b => a.stop ≤ b.start)
    (hfirst : ∀ leaf ∈ leaves.head?, (encodeUtf8 before).length ≤ leaf.start) :
    Covers before index
      (tokensFrom (encodeUtf8 source) (encodeUtf8 before).length (lineAfter before) index leaves)
      rest := by
  induction leaves generalizing before rest index with
  | nil =>
    have hgap := covers_gapToken before rest "" index
    rw [String.append_empty, ← hsource] at hgap
    exact hgap
  | cons leaf leaves ih =>
    obtain ⟨⟨hleaf, hlt⟩, hin⟩ := List.forall_mem_cons.mp hin
    obtain ⟨untilStart, fromStart, hsplit, hstart, hstartRow⟩ := hleaf.start
    obtain ⟨untilStop, fromStop, hsplit', hstop, hstopRow⟩ := hleaf.stop
    -- The source is what was passed, a gap, the text of the leaf and what remains.
    obtain ⟨gap, rfl, rfl⟩ := exists_between (hsource.symm.trans hsplit)
      (by rw [hstart]; exact hfirst leaf rfl)
    obtain ⟨text, rfl, rfl⟩ := exists_between (hsplit.symm.trans hsplit') (by omega)
    have hgap := covers_gapToken before gap (text ++ fromStop) index
    rw [← hsplit, hstart] at hgap
    have htext := spanText_encodeUtf8 (before ++ gap) text fromStop
    rw [← hsplit', hstart, hstop] at htext
    have hlonger :
        (encodeUtf8 (before ++ gap)).length < (encodeUtf8 (before ++ gap ++ text)).length := by
      omega
    have hpassed : ¬ leaf.stop ≤ (encodeUtf8 before).length := by
      have hle : (encodeUtf8 before).length ≤ leaf.start := hfirst leaf rfl
      omega
    rw [tokensFrom, if_neg hpassed, htext]
    refine hgap.append (.cons (ne_empty_of_length_lt hlonger) rfl ?_ ?_)
    · show (leaf.startRow : Int) + 1 = lineAfter (before ++ gap)
      rw [lineAfter, hstartRow]
    · have hline : ((leaf.stopRow : Nat) : Int) + 1 = lineAfter (before ++ gap ++ text) := by
        rw [lineAfter, hstopRow]
      rw [← hstop, hline]
      refine ih hsplit' _ hin horder.tail fun next hnext => ?_
      rw [hstop]
      exact horder.rel_head? hnext

/-! ## The tokens of a tree -/

namespace SyntaxTree

mutual

/-- No leaf of a tree is empty. -/
theorem lt_of_mem_leaves : ∀ (tree : SyntaxTree), ∀ leaf ∈ tree.leaves, leaf.start < leaf.stop
  | node type named start stop startRow stopRow children, leaf, h => by
    rw [leaves] at h
    split_ifs at h with hwhole hlt
    · rw [List.mem_singleton.mp h]
      exact hlt
    · cases h
    · exact lt_of_mem_leavesOfAll children leaf h

theorem lt_of_mem_leavesOfAll : ∀ (trees : List SyntaxTree), ∀ leaf ∈ leavesOfAll trees,
    leaf.start < leaf.stop
  | [], leaf, h => by cases h
  | tree :: rest, leaf, h => by
    rw [leavesOfAll] at h
    rcases List.mem_append.mp h with h | h
    · exact lt_of_mem_leaves tree leaf h
    · exact lt_of_mem_leavesOfAll rest leaf h

end

end SyntaxTree

/-- Flattening loses nothing. Where the leaves of a tree stand at places of a source without overlap, the
texts of its tokens make up the source. Every token, be it that of a leaf, of a gap or of what remains
at the end, has a text, its position in the stream, and the line of its first character. -/
theorem tokens_lossless (source : String) (tree : SyntaxTree)
    (hin : ∀ leaf ∈ tree.leaves, leaf.LiesIn source)
    (horder : tree.leaves.IsChain fun a b => a.stop ≤ b.start) :
    spelling (tree.tokens (encodeUtf8 source)) = source ∧
      ∀ (front : List Token) (t : Token) (back : List Token),
        tree.tokens (encodeUtf8 source) = front ++ t :: back →
          t.text ≠ "" ∧ t.index = front.length ∧
            t.line = (spelling front).toList.count '\n' + 1 := by
  have hcovers : Covers "" 0 (tree.tokens (encodeUtf8 source)) source := by
    have h := covers_tokensFrom (String.empty_append (s := source)).symm 0
      (fun leaf hleaf => ⟨hin leaf hleaf, tree.lt_of_mem_leaves leaf hleaf⟩) horder
      (fun leaf _ => by simp)
    rwa [encodeUtf8_empty] at h
  refine ⟨hcovers.spelling_eq, fun front t back hsplit => ?_⟩
  obtain ⟨hnonempty, hindex, hline⟩ := hcovers.token hsplit
  rw [String.empty_append] at hline
  exact ⟨hnonempty, by rw [hindex, Int.zero_add], hline⟩

/-- A comment of two lines, a variable and two line ends that no node covers. -/
def commentSource : String := "<?php\n/*é\n*/ $x\n"

/-- A tree of that source, with nodes below those that are taken whole and an empty node. -/
def commentTree : SyntaxTree :=
  .node "program" true 0 18 0 3 [
    .node "php_tag" true 0 5 0 0 [],
    .node "comment" true 6 13 1 2 [.node "/*" false 6 8 1 1 []],
    .node "variable_name" true 14 16 2 2 [
      .node "$" false 14 15 2 2 [], .node "name" true 15 16 2 2 []],
    .node ";" false 16 16 2 2 []]

/-- Every character of that source stands in one token, each on its line. -/
theorem tokens_lossless_comment :
    (∀ leaf ∈ commentTree.leaves, leaf.LiesIn commentSource) ∧
      (commentTree.leaves.IsChain fun a b => a.stop ≤ b.start) ∧
      spelling (commentTree.tokens (encodeUtf8 commentSource)) = commentSource ∧
      ∀ (front : List Token) (t : Token) (back : List Token),
        commentTree.tokens (encodeUtf8 commentSource) = front ++ t :: back →
          t.text ≠ "" ∧ t.index = front.length ∧
            t.line = (spelling front).toList.count '\n' + 1 := by
  have hin : ∀ leaf ∈ commentTree.leaves, leaf.LiesIn commentSource := by
    have hleaves : commentTree.leaves = [⟨"php_tag", true, 0, 5, 0, 0⟩,
        ⟨"comment", true, 6, 13, 1, 2⟩, ⟨"variable_name", true, 14, 16, 2, 2⟩] := by decide
    rw [hleaves]
    simp only [List.forall_mem_cons]
    refine ⟨⟨⟨"", commentSource, ?_⟩, ⟨"<?php", "\n/*é\n*/ $x\n", ?_⟩⟩,
      ⟨⟨"<?php\n", "/*é\n*/ $x\n", ?_⟩, ⟨"<?php\n/*é\n*/", " $x\n", ?_⟩⟩,
      ⟨⟨"<?php\n/*é\n*/ ", "$x\n", ?_⟩, ⟨"<?php\n/*é\n*/ $x", "\n", ?_⟩⟩, List.forall_mem_nil _⟩ <;>
      exact ⟨by decide, by rw [encodeUtf8_eq]; decide, by decide⟩
  have horder : commentTree.leaves.IsChain fun a b => a.stop ≤ b.start := by decide
  exact ⟨hin, horder, tokens_lossless commentSource commentTree hin horder⟩

end Reflection
