/-
# The site of a sweep

What a walk relies on while it is on its way.  A sweep takes place at a site
(`Site`): there are cells in front of it, which stay, and cells from its start on,
which the walk has passed or has ahead (`Walk.Over`).

What steps may make of the cells of a site is kept small (`Site.Respects`).  They cut
the text of the site, so that a region keeps its text if it keeps its extent.  The
first of them stays if it is a token, so that a walk finds the token again behind
which it goes on.  And they have changed in a region at their start only, which ends,
then as now, at the offset reached (`Changes`).  Cells of equal extent may be put in
the place of others anywhere, as long as the offset goes up to their end
(`Changes.replace`).  A cut does that, and what a rematch has made of its own region
is put in the place of that region in the same way (`Changes.within`).
-/

import Highlight.Proofs.Coverage
import Highlight.Proofs.Steps.Parts
import Mathlib.Data.List.Basic

namespace Highlight

open Buffer Chunk

/-! ### Regions that change -/

/-- Some cells have become others, and only before an offset that both come to:
what is behind it is the same. -/
def Changes (offset : Nat) (cells cells' : List Cell) (reach : Nat) : Prop :=
  ∃ middle middle' rest, middle ≠ [] ∧ middle' ≠ [] ∧ cells = middle ++ rest ∧
    cells' = middle' ++ rest ∧ offset + extents (chunks middle) = reach ∧
    offset + extents (chunks middle') = reach

namespace Changes

variable {offset reach reach' : Nat} {cells middle pre part part' rest inner inner' : List Cell}

/-- Cells that have not changed have not changed before the end of any of
them. -/
theorem refl (hne : middle ≠ []) :
    Changes offset (middle ++ rest) (middle ++ rest) (offset + extents (chunks middle)) :=
  ⟨middle, middle, rest, hne, hne, rfl, rfl, rfl, rfl⟩

/-- Cells of equal extent may be put in the place of others, if the offset
goes up to their end. -/
theorem replace (h : Changes offset cells (part ++ rest) reach) (hne : part' ≠ [])
    (hextents : extents (chunks part') = extents (chunks part)) :
    Changes offset cells (part' ++ rest) (max reach (offset + extents (chunks part))) := by
  obtain ⟨middle, middle', rest', hmiddle, -, rfl, heq, hreach, hreach'⟩ := h
  rcases List.append_eq_append_iff.mp heq with ⟨more, hmore, hrest⟩ | ⟨more, hmore, hrest⟩
  · -- the part ends within what had changed already
    subst hmore hrest
    rw [chunks_append, extents_append] at hreach'
    refine ⟨middle, part' ++ more, rest', hmiddle, by simp [hne], rfl, by simp, ?_, ?_⟩
    · omega
    · rw [chunks_append, extents_append]
      omega
  · -- the part goes on behind what had changed
    subst hmore hrest
    rw [chunks_append, extents_append] at hextents ⊢
    refine ⟨middle ++ more, part', rest, by simp [hmiddle], hne, by simp, rfl, ?_, ?_⟩
    · rw [chunks_append, extents_append]
      omega
    · omega

/-- What has become of the last cells may be put in their place, if the offset
goes up to where they have changed. -/
theorem within (h : Changes offset cells (pre ++ inner) reach)
    (hinner : Changes (offset + extents (chunks pre)) inner inner' reach') :
    Changes offset cells (pre ++ inner') (max reach reach') := by
  obtain ⟨middle, middle', rest, -, hne, rfl, rfl, hreach, hreach'⟩ := hinner
  rw [← List.append_assoc] at h ⊢
  have hextents : extents (chunks (pre ++ middle')) = extents (chunks (pre ++ middle)) := by
    simp only [chunks_append, extents_append]
    omega
  have hchanges := h.replace (by simp [hne]) hextents
  rwa [chunks_append, extents_append, ← Nat.add_assoc, hreach] at hchanges

end Changes

/-! ### Sites of sweeps -/

/-- Where a sweep takes place: its text, the cells in front of it and those
from its start on, and the offset at which it ends, if it is a rematch. -/
structure Site where
  text : Text
  front : List Cell
  cells : List Cell
  reach : Option Nat

namespace Site

/-- The offset of a sweep is the number of characters in front of it. -/
def offset (p : Site) : Nat :=
  extents (chunks p.front)

/-- A sweep at a site. -/
def sweep (p : Site) (clauses : List Clause) (buffer : Buffer) : Sweep :=
  ⟨p.text, clauses, buffer, lastHandle p.front, p.offset, p.reach⟩

/-- What may become of the cells of a site: they cut the text, the first one
stays if it is a token, and if the sweep is a rematch then it reaches no less
far and has changed nothing behind. -/
structure Respects (p : Site) (cells' : List Cell) (reach' : Option Nat) : Prop where
  covers : p.offset + extents (chunks cells') = p.text.length
  cuts : Cuts (p.text.drop p.offset) (chunks cells')
  keeps : Keeps p.cells cells'
  reach_le : Option.Rel (· ≤ ·) p.reach reach'
  changes : ∀ reach, reach' = some reach → Changes p.offset p.cells cells' reach

/-- A sweep may start at a site: its cells cut the text, and those of a rematch
begin with a token and have an end where the rematch does. -/
structure Ready (p : Site) : Prop where
  respects : p.Respects p.cells p.reach
  token : p.reach ≠ none → ∃ first, p.cells.head? = some first ∧ first.2.isToken = true

end Site

/-- Where the sweep takes place that a text starts with: all of it is in one cell. -/
def Site.whole (text : Text) (new : Nat) : Site :=
  ⟨text, [], [(new, .plain text)], none⟩

/-- The sweep that a text starts with may start. -/
theorem Site.ready_whole (text : Text) (new : Nat) : (Site.whole text new).Ready where
  respects := {
    covers := by simp [Site.whole, Site.offset]
    cuts := .plain text
    keeps := fun _ hfirst _ => hfirst
    reach_le := .none
    changes := nofun }
  token := fun hne => absurd rfl hne

/-- What a sweep leaves of its site. -/
def Swept.Leaves (p : Site) (swept : Swept) : Prop :=
  ∃ cells', swept.buffer.Lists (p.front ++ cells') ∧ p.Respects cells' swept.reach

/-- A walk on its way over a site, with the cells that it has passed and those
ahead. -/
structure Walk.Over (p : Site) (passed ahead : List Cell) (w : Walk) : Prop where
  lists : w.buffer.Lists (p.front ++ (passed ++ ahead))
  handle_eq : w.handle = firstHandle ahead
  offset_eq : w.offset = p.offset + extents (chunks passed)
  respects : p.Respects (passed ++ ahead) w.reach

/-- The walk over a list of chunks that is at the same place. -/
def Walk.tape (passed ahead : List Cell) (w : Walk) : Tape :=
  ⟨chunks passed, chunks ahead, w.offset, w.reach⟩

/-- A walk is on its way over a site. -/
def Walk.At (p : Site) (w : Walk) : Prop :=
  ∃ passed ahead, w.Over p passed ahead

/-! ### Walks over a site -/

namespace Walk.Over

variable {p : Site} {passed ahead skipped covered rest before after : List Cell} {w : Walk}
  {cut : Cut} {new : Cell}

theorem tracks (h : w.Over p passed ahead) :
    w.Tracks p.front passed ahead (w.tape passed ahead) :=
  ⟨h.lists, rfl, rfl, h.handle_eq, rfl, rfl⟩

theorem covers (h : w.Over p passed ahead) : (w.tape passed ahead).Covers p.text p.offset where
  passed := h.offset_eq.symm
  ahead := by
    have hcovers := h.respects.covers
    rw [chunks_append, extents_append, ← Nat.add_assoc, ← h.offset_eq] at hcovers
    exact hcovers

/-- What is ahead cuts the text from the offset of the walk on. -/
theorem cuts_ahead (h : w.Over p passed ahead) :
    Cuts (p.text.drop w.offset) (chunks ahead) := by
  have hcuts := h.respects.cuts
  rw [chunks_append] at hcuts
  rw [h.offset_eq]
  exact hcuts.drop

/-- Passing cells stays on the way. -/
theorem pass (h : w.Over p passed (skipped ++ rest)) :
    Walk.Over p (passed ++ skipped) rest
      { w with handle := firstHandle rest, offset := w.offset + extents (chunks skipped) } where
  lists := by simpa using h.lists
  handle_eq := rfl
  offset_eq := by simp [h.offset_eq, Nat.add_assoc]
  respects := by simpa using h.respects

/-- Skipping a cell stays on the way. -/
theorem skip_eq {cell : Cell} (h : w.Over p passed (cell :: rest)) :
    ∃ w', w.skip cell.2.extent = pure w' ∧ w'.At p := by
  obtain ⟨w', heq, htracks⟩ := h.tracks.skip_eq
  refine ⟨w', heq, passed ++ [cell], rest, htracks.lists, htracks.handle_eq, ?_, ?_⟩
  · rw [htracks.offset_eq]
    simp [Tape.pass, tape, h.offset_eq, Nat.add_assoc]
  · rw [htracks.reach_eq]
    simpa [Tape.pass, tape] using h.respects

end Walk.Over

/-! ### Cuts -/

/-- What a cut puts in the place of the cells that it covers: what is before
the match, the token, and what is after the match. -/
structure Cut.Puts (cut : Cut) (covered before : List Cell) (new : Cell) (after : List Cell) :
    Prop where
  fits : cut.Fits (chunks covered)
  segment_eq : cut.segment = textOf (chunks covered)
  before_eq : chunks before = ofText cut.before
  after_eq : chunks after = ofText cut.after
  isToken : new.2.isToken = true
  extent_eq : new.2.extent = cut.matched.length
  cuts : Cuts cut.matched [new.2]

namespace Cut.Puts

variable {cut : Cut} {covered before after rest : List Cell} {new : Cell}

theorem leftover_eq (h : cut.Puts covered before new after) :
    chunks (new :: (after ++ rest)) = Tape.leftover cut new.2 (chunks rest) := by
  rw [chunks_cons, chunks_append, h.after_eq, Tape.leftover]

/-- The match and what is after it end where what is covered does. -/
theorem extents_eq (h : cut.Puts covered before new after) :
    cut.before.length + extents (chunks (new :: after)) = cut.segment.length := by
  have hjoin := h.fits.length_join
  rw [h.fits.length_segment, chunks_cons, extents_cons, h.extent_eq, h.after_eq, extents_ofText]
  exact hjoin

theorem extents_before (h : cut.Puts covered before new after) :
    extents (chunks before) = cut.before.length := by
  rw [h.before_eq, extents_ofText]

end Cut.Puts

/-- Where the rematch after a cut takes place. -/
def Walk.rematchSite (p : Site) (w : Walk) (passed before : List Cell) (new : Cell)
    (after rest : List Cell) (cut : Cut) : Site where
  text := p.text
  front := p.front ++ passed ++ before
  cells := new :: (after ++ rest)
  reach := some (w.offset + cut.segment.length)

namespace Walk.Over

variable {p : Site} {passed covered before after rest : List Cell} {w : Walk} {cut : Cut}
  {new : Cell}

/-- A rematch starts at the offset of the token. -/
theorem offset_rematchSite (h : w.Over p passed (covered ++ rest))
    (hputs : cut.Puts covered before new after) :
    (w.rematchSite p passed before new after rest cut).offset = w.offset + cut.before.length := by
  rw [h.offset_eq, ← hputs.extents_before, rematchSite, Site.offset, Site.offset]
  simp only [chunks_append, extents_append]

/-- A rematch may start after a cut. -/
theorem rematch_ready (h : w.Over p passed (covered ++ rest))
    (hputs : cut.Puts covered before new after) :
    (w.rematchSite p passed before new after rest cut).Ready where
  respects := by
    have hoffset := h.offset_rematchSite hputs
    refine ⟨?_, ?_, fun _ hfirst _ => hfirst, .some (Nat.le_refl _), ?_⟩
    · have hleft := h.covers.leftover (chunks_append ..) hputs.fits hputs.extent_eq
      rw [hoffset, rematchSite, hputs.leftover_eq]
      exact hleft
    · have hahead : Cuts (p.text.drop w.offset) ([] ++ (chunks covered ++ chunks rest)) := by
        rw [List.nil_append, ← chunks_append]
        exact h.cuts_ahead
      have hcuts := (hahead.replace hputs.segment_eq hputs.fits hputs.cuts).drop
      rw [List.nil_append, extents_ofText] at hcuts
      rw [hoffset, rematchSite, hputs.leftover_eq]
      exact hcuts
    · rintro _ ⟨⟩
      have hchanges : Changes (w.offset + cut.before.length) ((new :: after) ++ rest)
          ((new :: after) ++ rest) _ := .refl (List.cons_ne_nil new after)
      rw [Nat.add_assoc, hputs.extents_eq] at hchanges
      rw [hoffset]
      exact hchanges
  token := fun _ => ⟨new, rfl, hputs.isToken⟩

/-- What a cut has made of the cells has changed nothing behind its segment. -/
theorem changes_cut (h : w.Over p passed (covered ++ rest))
    (hputs : cut.Puts covered before new after) {r : Nat} (hreach : w.reach = some r) :
    Changes p.offset p.cells ((passed ++ before) ++ (new :: (after ++ rest)))
      (max r (w.offset + cut.segment.length)) := by
  have hchanges := h.respects.changes r hreach
  rw [← List.append_assoc] at hchanges
  have hne : passed ++ before ++ new :: after ≠ [] := by simp
  have hextents : extents (chunks (passed ++ before ++ new :: after)) =
      extents (chunks (passed ++ covered)) := by
    have hends := hputs.extents_eq
    have hlength := hputs.fits.length_segment
    simp only [chunks_append, extents_append, hputs.extents_before]
    omega
  have hreplaced := hchanges.replace hne hextents
  rw [chunks_append, extents_append, ← Nat.add_assoc, ← h.offset_eq,
    ← hputs.fits.length_segment] at hreplaced
  simpa using hreplaced

/-- What a cut and its rematch have made of the cells respects the site. -/
theorem respects_resume (h : w.Over p passed (covered ++ rest))
    (hputs : cut.Puts covered before new after) {cells' : List Cell} {reach : Nat}
    (hcells : (w.rematchSite p passed before new after rest cut).Respects cells' (some reach)) :
    p.Respects (passed ++ before ++ cells')
      (Walk.extend (Walk.extend w.reach (w.offset + cut.segment.length)) reach) where
  covers := by
    have hcovers := hcells.covers
    rw [rematchSite, Site.offset] at hcovers
    simp only [chunks_append, extents_append] at hcovers ⊢
    rw [Site.offset]
    omega
  cuts := by
    have hcuts := h.respects.cuts
    simp only [chunks_append] at hcuts
    have hleft := hcuts.replace hputs.segment_eq hputs.fits hputs.cuts
    rw [← hputs.before_eq, ← hputs.leftover_eq, ← chunks_append,
      ← List.append_nil (chunks (new :: (after ++ rest)))] at hleft
    have hswap := hleft.swap (h.rematch_ready hputs).respects.cuts hcells.cuts
    rwa [List.append_nil, ← chunks_append] at hswap
  keeps := by
    obtain ⟨chunk, more, hplain⟩ := hputs.fits.plain
    obtain ⟨cell, covered, rfl, hcell, -⟩ := exists_cons_of_chunks hplain
    have hkeeps := h.respects.keeps
    rw [List.append_assoc]
    exact hkeeps.of_plain hcell
  reach_le := rel_extend _ (rel_extend _ h.respects.reach_le)
  changes := by
    intro reach' hreach'
    cases hw : w.reach with
    | none =>
      rw [hw] at hreach'
      cases hreach'
    | some r =>
      rw [hw] at hreach'
      cases hreach'
      refine (h.changes_cut hputs hw).within ?_
      have hinner := hcells.changes reach rfl
      rw [rematchSite, Site.offset] at hinner
      rw [Site.offset, ← extents_append, ← chunks_append, ← List.append_assoc]
      exact hinner

/-- Going on behind the token of a cut stays on the way. -/
theorem behind_triple (h : w.Over p passed (covered ++ rest)) {s : Spliced}
    (hputs : cut.Puts covered before (s.handle, s.token) after) {swept : Swept}
    (hswept : swept.Leaves (w.rematchSite p passed before (s.handle, s.token) after rest cut)) :
    RunM.Triple (fun _ => True) (w.behind cut s swept) (fun w' _ => w'.At p) fun _ _ => True := by
  obtain ⟨cells', hlists, hrespects⟩ := hswept
  obtain ⟨ahead, rfl⟩ := List.head?_eq_some_iff.mp (hrespects.keeps _ rfl hputs.isToken)
  obtain ⟨reach, hreach⟩ : ∃ reach, swept.reach = some reach := by
    have hle := hrespects.reach_le
    cases hswept : swept.reach with
    | none => rw [hswept] at hle; cases hle
    | some reach => exact ⟨reach, rfl⟩
  rw [hreach] at hrespects
  unfold behind
  rw [hreach, RunM.next_cell_eq hlists, pure_bind]
  have hresume := h.respects_resume hputs hrespects
  refine .pure fun _ _ => ⟨passed ++ before ++ [(s.handle, s.token)], ahead, ?_, rfl, ?_, ?_⟩
  · simpa [rematchSite] using hlists
  · simp [h.offset_eq, hputs.extents_before, Nat.add_assoc]
  · simpa using hresume

end Walk.Over

end Highlight
