/-
# Where ranges stand

A range is placed by lengths alone: that of every chunk is added to the offset of the next
one.  As every token of a run is as long as its text, the range of a token holds just the
text of the token (`Range.Shows`), and what is between two ranges is what the run left
plain (`tokenize_ranges`).

That each such piece is one plain chunk, and not several or an empty one, takes the normal
form as well.  So the gaps are followed with the plain text in front of a token at hand
(`filter_gaps`): no chunk is added to it, since two plain chunks are not next to each
other.
-/

import Highlight.Chunk.Range
import Highlight.Proofs.Steps.Kept

namespace Highlight

open Chunk

/-- The texts of the plain ones among some chunks, in order. -/
def Chunk.plains (cs : List Chunk) : List Text :=
  cs.filterMap fun
    | .plain text => some text
    | .leaf .. | .node .. => none

namespace Range

/-- A range shows a token of a text whose first character is displayed at an offset: it lies
within what is displayed of the text, and has the text of the token, and its category. -/
structure Shows (text : Text) (offset : Int) (range : Range) (token : Chunk) : Prop where
  le_start : offset ≤ range.start
  start_le : range.start ≤ range.stop
  stop_le : range.stop ≤ offset + text.length
  text_eq : text.slice (range.start - offset).toNat (range.stop - offset).toNat = token.text
  category_eq : token.tag?.map Tag.category = some range.category

/-- What is displayed of a text from some place on, before, between and after ranges. -/
def gaps (text : Text) (offset place : Int) : List Range → List Text
  | [] => [text.drop (place - offset).toNat]
  | range :: ranges =>
    text.slice (place - offset).toNat (range.start - offset).toNat ::
      gaps text offset range.stop ranges

variable {text front pending : Text} {offset place : Int} {cs : List Chunk} {c token : Chunk}

theorem ofChunks_plain (place : Int) (text : Text) (cs : List Chunk) :
    ofChunks place (.plain text :: cs) = ofChunks (place + text.length) cs :=
  rfl

/-- The range of a token comes first. -/
theorem ofChunks_token (htoken : token.isToken = true) (place : Int) (cs : List Chunk) :
    ∃ category, token.tag?.map Tag.category = some category ∧
      ofChunks place (token :: cs) =
        ⟨place, place + token.length, category⟩ :: ofChunks (place + token.length) cs := by
  cases token with
  | plain text => cases htoken
  | leaf tag text | node tag parts => exact ⟨tag.category, rfl, rfl⟩

/-- A chunk is plain or a token. -/
theorem plain_or_isToken (c : Chunk) : (∃ text, c = .plain text) ∨ c.isToken = true := by
  cases c with
  | plain text => exact Or.inl ⟨text, rfl⟩
  | leaf tag text | node tag parts => exact Or.inr rfl

/-- No range of some chunks starts before them. -/
theorem le_start_of_mem (hcs : Faithful cs) {range : Range} (h : range ∈ ofChunks place cs) :
    place ≤ range.start := by
  induction cs generalizing place with
  | nil => cases h
  | cons c cs ih =>
    obtain ⟨hc, hcs⟩ := faithful_cons.mp hcs
    have hlength := length_eq_of_faithful hc
    rcases plain_or_isToken c with ⟨chunk, rfl⟩ | htoken
    · have := ih hcs h
      omega
    · obtain ⟨category, -, heq⟩ := ofChunks_token htoken place cs
      rw [heq] at h
      rcases List.mem_cons.mp h with rfl | h
      · exact Int.le_refl place
      · have := ih hcs h
        omega

/-- **Ranges do not overlap**, and stand in the order of their tokens. -/
theorem pairwise_ofChunks (hcs : Faithful cs) (place : Int) :
    (ofChunks place cs).Pairwise fun range next => range.stop ≤ next.start := by
  induction cs generalizing place with
  | nil => exact .nil
  | cons c cs ih =>
    obtain ⟨-, hcs⟩ := faithful_cons.mp hcs
    rcases plain_or_isToken c with ⟨chunk, rfl⟩ | htoken
    · exact ih hcs _
    · obtain ⟨category, -, heq⟩ := ofChunks_token htoken place cs
      rw [heq]
      exact .cons (fun _ hnext => le_start_of_mem hcs hnext) (ih hcs _)

/-- The text between two offsets that some text is in front of. -/
theorem slice_of_append {middle rest : Text} (htext : text = front ++ (middle ++ rest)) :
    text.slice front.length (front.length + middle.length) = middle := by
  rw [Text.slice, List.drop_take, htext, List.drop_left, Nat.add_sub_cancel_left, List.take_left]

/-- **Every token is shown by a range of its own.** -/
theorem forall₂_shows (hcs : Faithful cs) (htext : text = front ++ textOf cs) (offset : Int) :
    List.Forall₂ (Shows text offset) (ofChunks (offset + front.length) cs)
      (cs.filter Chunk.isToken) := by
  induction cs generalizing front with
  | nil => exact .nil
  | cons c cs ih =>
    obtain ⟨hc, hcs⟩ := faithful_cons.mp hcs
    have hlength := length_eq_of_faithful hc
    rw [textOf] at htext
    have hnext : text = front ++ c.text ++ textOf cs := by rw [htext, List.append_assoc]
    have hrest := ih hcs hnext
    rw [List.length_append, Int.natCast_add, ← Int.add_assoc, ← hlength] at hrest
    rcases plain_or_isToken c with ⟨chunk, rfl⟩ | htoken
    · exact hrest
    · obtain ⟨category, hcategory, heq⟩ := ofChunks_token htoken (offset + front.length) cs
      rw [heq, List.filter_cons_of_pos htoken]
      refine .cons ⟨?_, ?_, ?_, ?_, hcategory⟩ hrest
      · dsimp only
        omega
      · dsimp only
        omega
      · have htotal := congrArg List.length htext
        rw [List.length_append, List.length_append] at htotal
        dsimp only
        omega
      · have hfrom : (offset + front.length - offset).toNat = front.length := by omega
        have hto : (offset + front.length + c.length - offset).toNat =
            front.length + c.text.length := by
          omega
        dsimp only
        rw [hfrom, hto, slice_of_append htext]

theorem plains_append (cs ds : List Chunk) : plains (cs ++ ds) = plains cs ++ plains ds :=
  List.filterMap_append

theorem plains_token (htoken : token.isToken = true) (cs : List Chunk) :
    plains (token :: cs) = plains cs := by
  cases token with
  | plain text => cases htoken
  | leaf tag text | node tag parts => rfl

/-- A piece of text is one plain chunk, unless it is empty. -/
theorem filter_cons (pending : Text) (more : List Text) :
    (pending :: more).filter (· ≠ []) = plains (ofText pending) ++ more.filter (· ≠ []) := by
  by_cases hempty : pending = []
  · subst hempty
    rfl
  · rw [List.filter_cons_of_pos (by simpa using hempty), ofText, if_neg hempty]
    rfl

/-- **The gaps are the plain chunks.**  The text in front of the chunks has been displayed,
up to some plain text that no range has ended yet. -/
theorem filter_gaps (hcs : Faithful cs) (htidy : Tidy (ofText pending ++ cs))
    (htext : text = front ++ (pending ++ textOf cs)) (offset : Int) :
    (gaps text offset (offset + front.length)
        (ofChunks (offset + front.length + pending.length) cs)).filter (· ≠ []) =
      plains (ofText pending ++ cs) := by
  induction cs generalizing front pending with
  | nil =>
    have hfrom : (offset + front.length - offset).toNat = front.length := by omega
    rw [ofChunks, gaps, hfrom, htext, List.drop_left, textOf, List.append_nil, List.append_nil,
      filter_cons, List.filter_nil, List.append_nil]
  | cons c cs ih =>
    obtain ⟨hc, hcs⟩ := faithful_cons.mp hcs
    have hlength := length_eq_of_faithful hc
    rw [textOf] at htext
    rcases plain_or_isToken c with ⟨chunk, rfl⟩ | htoken
    · -- No text is pending in front of a plain chunk, which is now the pending text.
      have hempty : pending = [] := by
        by_contra hfull
        rw [ofText, if_neg hfull] at htidy
        cases htidy.isToken_before rfl
      have hchunk : ofText chunk = [.plain chunk] :=
        if_neg (htidy.full chunk (List.mem_append_right _ List.mem_cons_self))
      subst hempty
      have hnext : text = front ++ (chunk ++ textOf cs) := htext
      have hrest := ih hcs (by rwa [hchunk]) hnext
      rw [hchunk] at hrest
      rw [ofChunks_plain, List.length_nil, Int.natCast_zero, Int.add_zero]
      exact hrest
    · obtain ⟨category, -, heq⟩ := ofChunks_token htoken (offset + front.length + pending.length) cs
      have hfrom : (offset + front.length - offset).toNat = front.length := by omega
      have hto : (offset + front.length + pending.length - offset).toNat =
          front.length + pending.length := by
        omega
      have hnext : text = front ++ (pending ++ c.text) ++ ([] ++ textOf cs) := by
        rw [htext]
        simp
      have htidy : Tidy (ofText [] ++ cs) := ((tidy_token htoken).mp htidy).2
      have hrest := ih hcs htidy hnext
      have hplace : offset + front.length + pending.length + c.length =
          offset + (front ++ (pending ++ c.text)).length := by
        rw [List.length_append, List.length_append, hlength]
        omega
      rw [heq, gaps, hfrom, hto, slice_of_append htext, filter_cons, hplace]
      rw [List.length_nil, Int.natCast_zero, Int.add_zero] at hrest
      rw [hrest, plains_append (ofText pending), plains_token htoken]
      rfl

end Range

/-- **Ranges locate their text.**  Whatever offset the first character of a text that has
been tokenized is displayed at, there is one range for each token that is not part of
another, in order.  It lies within the text, holds the text of its token and has its
category; none overlaps the next one; and what is displayed before, between and after the
ranges are the plain chunks. -/
theorem tokenize_ranges {limits : Limits} {frames : Option Nat} {store : Store} {text : Text}
    {ref : Ref} {chunks : List Chunk}
    (h : (tokenize limits frames store text ref).result = .ok chunks) (offset : Int) :
    List.Forall₂ (Range.Shows text offset) (Range.ofChunks offset chunks)
        (chunks.filter Chunk.isToken) ∧
      (Range.ofChunks offset chunks).Pairwise (fun range next => range.stop ≤ next.start) ∧
      (Range.gaps text offset offset (Range.ofChunks offset chunks)).filter (· ≠ []) =
        Chunk.plains chunks := by
  obtain ⟨⟨htext, hfaithful⟩, htidy, -⟩ := tokenize_neat h
  have htidy : Tidy (ofText [] ++ chunks) := htidy
  have hfront : text = [] ++ textOf chunks := htext.symm
  have hpending : text = [] ++ ([] ++ textOf chunks) := htext.symm
  have hshows := Range.forall₂_shows hfaithful hfront offset
  have hgaps := Range.filter_gaps hfaithful htidy hpending offset
  rw [List.length_nil, Int.natCast_zero, Int.add_zero] at hshows hgaps
  rw [Int.add_zero] at hgaps
  exact ⟨hshows, Range.pairwise_ofChunks hfaithful offset, hgaps⟩

/-- Three tokens of `a'b'bxy`, displayed from offset ten on: the string, the letter and the
sign, with the `a` and the `x` left plain. -/
theorem tokenize_ranges_quoting :
    (tokenize {} none quoting "a'b'bxy".toList (.grammar 0)).result = .ok quoted ∧
      Range.ofChunks 10 quoted = [⟨11, 14, "string"⟩, ⟨14, 15, "letter"⟩, ⟨16, 17, "sign"⟩] ∧
      Chunk.plains quoted = [['a'], ['x']] ∧
      List.Forall₂ (Range.Shows "a'b'bxy".toList 10) (Range.ofChunks 10 quoted)
        (quoted.filter Chunk.isToken) ∧
      (Range.ofChunks 10 quoted).Pairwise (fun range next => range.stop ≤ next.start) ∧
      (Range.gaps "a'b'bxy".toList 10 10 (Range.ofChunks 10 quoted)).filter (· ≠ []) =
        Chunk.plains quoted :=
  ⟨tokenize_quoting, by decide +kernel, by decide +kernel, tokenize_ranges tokenize_quoting 10⟩

end Highlight
