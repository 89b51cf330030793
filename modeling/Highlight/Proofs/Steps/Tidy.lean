/-
# Chunks in normal form

Chunks are in normal form if none of the plain ones is empty and no two plain
ones are next to each other (`Chunk.Tidy`).  Chunks that cut a text, and are in
normal form at every depth, are `Neat`.

A cut keeps them so (`Neat.splice`).  What it takes away begins with a plain
chunk, so that a token or nothing is in front of it; and a token or nothing is
behind it, since a greedy rule takes plain chunks that follow, and any other
takes one chunk only.  So what is before the match and what is after it may each
become a plain chunk, with the new token between them.
-/

import Highlight.Proofs.Coverage
import Highlight.Proofs.Tape.Taking
import Mathlib.Data.List.Chain

namespace Highlight

namespace Chunk

/-- Chunks in normal form: no plain chunk is empty, and of two chunks next to
each other one is a token. -/
structure Tidy (cs : List Chunk) : Prop where
  full : ∀ text, .plain text ∈ cs → text ≠ []
  apart : cs.IsChain fun c d => c.isToken = true ∨ d.isToken = true

variable {cs ds left more right : List Chunk} {c d token : Chunk} {text chunk : Text}

theorem tidy_nil : Tidy [] where
  full := nofun
  apart := .nil

theorem tidy_append : Tidy (cs ++ ds) ↔ Tidy cs ∧ Tidy ds ∧
    ∀ c, cs.getLast? = some c → ∀ d, ds.head? = some d → c.isToken = true ∨ d.isToken = true := by
  constructor
  · rintro ⟨hfull, hapart⟩
    obtain ⟨hcs, hds, hends⟩ := List.isChain_append.mp hapart
    exact ⟨⟨fun text htext => hfull text (List.mem_append_left _ htext), hcs⟩,
      ⟨fun text htext => hfull text (List.mem_append_right _ htext), hds⟩, hends⟩
  · rintro ⟨hcs, hds, hends⟩
    exact ⟨fun text htext => (List.mem_append.mp htext).elim (hcs.full text) (hds.full text),
      List.isChain_append.mpr ⟨hcs.apart, hds.apart, hends⟩⟩

theorem tidy_plain (h : text ≠ []) : Tidy [.plain text] where
  full := fun text' htext => by
    cases List.mem_singleton.mp htext
    exact h
  apart := .singleton _

theorem tidy_ofText (text : Text) : Tidy (ofText text) := by
  unfold ofText
  split
  · exact tidy_nil
  · rename_i h
    exact tidy_plain h

/-- Chunks on both sides of a token are in normal form apart. -/
theorem tidy_token (h : token.isToken = true) :
    Tidy (cs ++ token :: ds) ↔ Tidy cs ∧ Tidy ds := by
  have hsingle : Tidy [token] := by
    refine ⟨fun text htext => ?_, .singleton _⟩
    rw [← List.mem_singleton.mp htext] at h
    cases h
  rw [← List.singleton_append, tidy_append, tidy_append]
  refine ⟨fun hall => ⟨hall.1, hall.2.1.2.1⟩, fun hsides =>
    ⟨hsides.1, ⟨hsingle, hsides.2, fun c hc _ _ => Or.inl ?_⟩, fun _ _ d hd => Or.inr ?_⟩⟩
  · cases hc
    exact h
  · cases hd
    exact h

/-- There is a token, if anything, in front of a plain chunk. -/
theorem Tidy.isToken_before (h : Tidy (left ++ .plain chunk :: right))
    (hc : left.getLast? = some c) : c.isToken = true :=
  ((tidy_append.mp h).2.2 c hc _ rfl).resolve_right (by simp [isToken])

/-- There is a token, if anything, behind a plain chunk. -/
theorem Tidy.isToken_after (h : Tidy (left ++ .plain chunk :: right))
    (hd : right.head? = some d) : d.isToken = true := by
  rw [← List.singleton_append, ← List.append_assoc] at h
  exact ((tidy_append.mp h).2.2 (.plain chunk) (by simp) d hd).resolve_left (by simp [isToken])

/-- There is a token, if anything, behind what a cut takes away. -/
theorem Tidy.isToken_behind {covered : List Chunk} {cut : Cut} {greedy : Bool}
    (h : Tidy (left ++ (covered ++ right))) (hfits : cut.Fits covered)
    (htakes : cut.Takes greedy covered right) (hd : right.head? = some d) :
    d.isToken = true := by
  cases greedy with
  | true => exact htakes.bounded rfl d hd
  | false =>
    obtain ⟨chunk, more, rfl⟩ := hfits.plain
    have hone := htakes.single rfl
    rw [List.length_cons, Nat.add_eq_right, List.length_eq_zero_iff] at hone
    subst hone
    exact h.isToken_after hd

/-- **A token, with text before and after it, may stand in the place** of chunks
that begin with a plain one and that a token, if anything, follows. -/
theorem Tidy.splice (h : Tidy (left ++ (.plain chunk :: more ++ right)))
    (hright : ∀ d, right.head? = some d → d.isToken = true) (htoken : token.isToken = true)
    (before after : Text) :
    Tidy (left ++ ofText before ++ token :: (ofText after ++ right)) := by
  have hleft := (tidy_append.mp h).1
  have hrest := (tidy_append.mp (tidy_append.mp h).2.1).2.1
  rw [tidy_token htoken, tidy_append, tidy_append]
  exact ⟨⟨hleft, tidy_ofText before, fun c hc _ _ => Or.inl (h.isToken_before hc)⟩,
    tidy_ofText after, hrest, fun _ _ d hd => Or.inr (hright d hd)⟩

end Chunk

open Chunk

/-- Chunks that cut a text, in normal form at every depth. -/
structure Neat (text : Text) (cs : List Chunk) : Prop where
  cuts : Cuts text cs
  tidy : Tidy cs
  deep : ∀ tag parts, .node tag parts ∈ tokensOf cs → Tidy parts

namespace Neat

variable {text : Text} {cs left covered right : List Chunk} {token : Chunk} {cut : Cut}

theorem nil : Neat [] [] where
  cuts := .ofText []
  tidy := tidy_nil
  deep := nofun

theorem plain (h : text ≠ []) : Neat text [.plain text] where
  cuts := .plain text
  tidy := tidy_plain h
  deep := nofun

/-- The token of a matched text is neat. -/
theorem leaf (clause : Clause) (matched : Text) :
    Neat matched [.leaf (clause.tag matched) matched] where
  cuts := .leaf clause matched
  tidy := ⟨by simp, .singleton _⟩
  deep := fun tag parts h => by simp [tokensOf, tokens] at h

/-- The token of a matched text is neat, if its parts are. -/
theorem node (h : Neat text cs) (clause : Clause) :
    Neat text [.node (clause.tag text) cs] where
  cuts := h.cuts.node clause
  tidy := ⟨by simp, .singleton _⟩
  deep := fun tag parts hmem => by
    rw [tokensOf, tokens, tokensOf, List.append_nil, List.mem_cons] at hmem
    rcases hmem with hmem | hmem
    · cases hmem
      exact h.tidy
    · exact h.deep tag parts hmem

/-- **A cut keeps chunks neat.** -/
theorem splice {greedy : Bool} (h : Neat text (left ++ (covered ++ right)))
    (hsegment : cut.segment = textOf covered) (hfits : cut.Fits covered)
    (htakes : cut.Takes greedy covered right) (htoken : token.isToken = true)
    (hneat : Neat cut.matched [token]) :
    Neat text (left ++ ofText cut.before ++ Tape.leftover cut token right) where
  cuts := h.cuts.replace hsegment hfits hneat.cuts
  tidy := by
    obtain ⟨chunk, more, rfl⟩ := hfits.plain
    exact h.tidy.splice (fun _ hnext => h.tidy.isToken_behind hfits htakes hnext) htoken _ _
  deep := by
    intro tag parts hmem
    rw [Tape.leftover, ← List.singleton_append] at hmem
    simp only [tokensOf_append, tokensOf_ofText, List.append_nil, List.nil_append,
      List.mem_append] at hmem
    rcases hmem with hmem | hmem | hmem
    · exact h.deep tag parts (by simp [hmem])
    · exact hneat.deep tag parts hmem
    · exact h.deep tag parts (by simp [hmem])

end Neat
end Highlight
