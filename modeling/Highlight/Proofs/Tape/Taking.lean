/-
# What a match takes

A cut takes away the chunks that its match covers (`Cut.Takes`).  Those of a
rule that is not greedy are one plain chunk.  Those of a greedy rule begin with
the plain chunk in which the match begins; each token among them begins before
the match ends; and what is behind them, if anything is, is a token, because
plain chunks that follow are taken as well.

All three are read off the two loops that look for the chunks (`Tape.seat` and
`Tape.cover`).  That a token begins before the end of the match counts for
empty tokens, too: an empty token where the match ends is not taken.
-/

import Highlight.Proofs.Tape.Moves

namespace Highlight

open Chunk

/-- What a cut takes away of the chunks from its place on, by whether its rule
is greedy. -/
structure Cut.Takes (greedy : Bool) (cut : Cut) (covered rest : List Chunk) : Prop where
  single : greedy = false → covered.length = 1
  inside : greedy = true → ∃ chunk more, covered = .plain chunk :: more ∧
    cut.before.length < chunk.length
  short : ∀ pre token post, covered = pre ++ token :: post → token.isToken = true →
    extents pre < cut.before.length + cut.matched.length
  bounded : greedy = true → ∀ next, rest.head? = some next → next.isToken = true

/-- What is before a match is as long as its offset says. -/
theorem Cut.Fits.length_before {cut : Cut} {covered : List Chunk} (h : cut.Fits covered)
    (hle : cut.offset ≤ extents covered) : cut.before.length = cut.offset := by
  rw [Cut.before, List.length_take_of_le (h.length_segment ▸ hle)]

namespace Tape

variable {target offset : Nat} {cs covered rest : List Chunk}

/-- A token that is covered begins before the offset up to which chunks are. -/
theorem lt_of_cover (h : cover target offset cs = (covered, rest)) {pre post : List Chunk}
    {token : Chunk} (hcovered : covered = pre ++ token :: post) (htoken : token.isToken = true) :
    offset + extents pre < target := by
  induction cs generalizing offset covered pre with
  | nil =>
    cases h
    exact absurd hcovered (by simp)
  | cons c cs ih =>
    rw [cover] at h
    split at h
    · rename_i hin
      cases h
      cases pre with
      | nil =>
        cases hcovered
        simpa [htoken] using hin
      | cons d pre =>
        obtain ⟨rfl, hmore⟩ := List.cons.inj hcovered
        rw [extents_cons, ← Nat.add_assoc]
        exact ih rfl hmore
    · cases h
      exact absurd hcovered (by simp)

/-- No plain chunk follows the chunks that are covered. -/
theorem isToken_of_cover (h : cover target offset cs = (covered, rest)) {next : Chunk}
    (hnext : rest.head? = some next) : next.isToken = true := by
  induction cs generalizing offset covered with
  | nil =>
    cases h
    cases hnext
  | cons c cs ih =>
    rw [cover] at h
    split at h
    · cases h
      exact ih rfl
    · rename_i hout
      cases h
      cases hnext
      simp only [Bool.or_eq_true, not_or] at hout
      simpa using hout.2

variable {text chunk : Text} {clause : Clause} {t : Tape} {found : Option Match} {cut : Cut}
  {skipped : List Chunk}

/-- The cut of a greedy rule covers what its match does. -/
theorem cover_of_greedyMove (h : t.greedyMove text found = .cut skipped covered rest cut) :
    ∃ m, found = some m ∧
      cover m.stop (t.offset + extents skipped) (covered ++ rest) = (covered, rest) := by
  cases found with
  | none => cases h
  | some m =>
    unfold greedyMove at h
    dsimp only at h
    split at h
    · cases h
    · rcases hseat : seat m.index t.offset t.ahead with ⟨skipped', ahead⟩
      rw [hseat] at h
      dsimp only at h
      split at h
      · cases h
      · rename_i chunk more
        rcases hcover : cover m.stop (t.offset + extents skipped') (.plain chunk :: more) with
          ⟨covered', rest'⟩
        rw [hcover] at h
        cases h
        exact ⟨m, rfl, by rw [cover_append hcover, hcover]⟩
      · cases h

/-- **What a match takes** is one plain chunk, or what a greedy rule covers. -/
theorem takes_of_choose (hcover : t.offset + extents t.ahead = text.length) {more : List Chunk}
    (hahead : t.ahead = .plain chunk :: more)
    (h : t.choose text clause chunk more = .cut skipped covered rest cut) :
    cut.Takes clause.rule.greedy covered rest := by
  have hchosen : Chosen text clause t chunk more _ := choose_cases hcover chunk more
  have hfits : (t.choose text clause chunk more).Fits t.ahead := choose_fits hahead hcover
  rw [h] at hchosen hfits
  cases hchosen with
  | some m hgreedy =>
    refine ⟨fun _ => rfl, by simp [hgreedy], fun pre token post hsplit htoken => ?_,
      by simp [hgreedy]⟩
    have hmem : token ∈ [Chunk.plain chunk] := by simp [hsplit]
    rw [List.mem_singleton.mp hmem] at htoken
    cases htoken
  | greedy hgreedy hmove =>
    rw [choose, if_pos hgreedy] at h
    obtain ⟨m, hfound, hcovers⟩ := cover_of_greedyMove h
    cases hmove with
    | inPlain m' _ _ tail first hfound' hindex _ hfrom hto hstop =>
      cases hfound.symm.trans hfound'
      have hle : m.index - (t.offset + extents skipped) ≤ extents (.plain first :: tail) := by
        rw [extents_cons, extent_plain]
        omega
      have hbefore := hfits.2.length_before hle
      refine ⟨by simp [hgreedy], fun _ => ⟨first, tail, rfl, ?_⟩,
        fun pre token post hsplit htoken => ?_, fun _ _ => isToken_of_cover hcovers⟩
      · rw [hbefore]
        dsimp only
        omega
      · have hlt := lt_of_cover hcovers hsplit htoken
        rw [Match.stop] at hlt
        rw [hbefore]
        dsimp only
        omega

end Tape
end Highlight
