/-
# Plain text that a rule has settled

A rule has settled a plain chunk if it would find nothing in it; what that
means differs between rules, so it is a parameter here, a `Standard` that is
asked of the offset and the text of a plain chunk.

The reach of a walk says how far what it does may have unsettled anything.  A
cut sets text free only within the region that it merges, and moves the reach
to the end of that region, so what is beyond the reach stays settled
(`Settled.resume`).
-/

import Highlight.Proofs.Coverage

namespace Highlight

open Chunk RunM

/-! ### Settled chunks -/

/-- What is asked of a plain chunk, by its offset and its text. -/
abbrev Standard := Nat → Text → Prop

/-- The plain chunks among some chunks meet a standard, the first chunk
standing at an offset. -/
def Settled (P : Standard) : Nat → List Chunk → Prop
  | _, [] => True
  | offset, c :: cs => (∀ text, c = .plain text → P offset text) ∧
      Settled P (offset + c.extent) cs

/-- A standard asked only beyond an offset and beyond a reach.  Where there is
no reach, there is nothing beyond it. -/
def Standard.beyond (P : Standard) (least : Nat) (reach : Option Nat) : Standard :=
  fun offset text => ∀ e, reach = some e → least ≤ offset → e ≤ offset → P offset text

namespace Settled

variable {P P' : Standard} {offset : Nat} {c : Chunk} {cs ds : List Chunk}

theorem append : Settled P offset (cs ++ ds) ↔
    Settled P offset cs ∧ Settled P (offset + extents cs) ds := by
  induction cs generalizing offset with
  | nil => simp [Settled]
  | cons c cs ih =>
    rw [List.cons_append, Settled, Settled, ih, extents_cons, Nat.add_assoc, and_assoc]

theorem token (h : c.isToken = true) : Settled P offset [c] := by
  refine ⟨?_, trivial⟩
  rintro text rfl
  cases h

theorem ofText {text : Text} (h : text ≠ [] → P offset text) : Settled P offset (ofText text) := by
  unfold Chunk.ofText
  split
  · trivial
  · rename_i hne
    refine ⟨?_, trivial⟩
    rintro _ ⟨⟩
    exact h hne

/-- Less may be asked of chunks that stand where they can stand. -/
theorem imp (h : Settled P offset cs) (himp : ∀ o text, offset ≤ o → P o text → P' o text) :
    Settled P' offset cs := by
  induction cs generalizing offset with
  | nil => trivial
  | cons c cs ih =>
    exact ⟨fun text htext => himp _ _ (Nat.le_refl _) (h.1 text htext),
      ih h.2 fun o text hle => himp o text (Nat.le_trans (Nat.le_add_right ..) hle)⟩

/-- A plain chunk among settled ones meets the standard. -/
theorem plain {text : Text} (h : Settled P offset (cs ++ .plain text :: ds)) :
    P (offset + extents cs) text :=
  (append.mp h).2.1 text rfl

end Settled

/-- A standard that goes down to the parts of a text that are left when a match
is taken out of it. -/
structure Standard.Hereditary (P : Standard) : Prop where
  left : ∀ {offset text more}, P offset (text ++ more) → P offset text
  right : ∀ {offset text more}, P offset (text ++ more) → P (offset + text.length) more

/-! ### Beyond the reach -/

namespace Standard

variable {P : Standard} {least offset stop : Nat} {reach : Option Nat} {text : Text}

/-- Moving the reach to the right asks no more. -/
theorem beyond_extend (h : P.beyond least reach offset text) :
    P.beyond least (Walk.extend reach stop) offset text := by
  intro e he hleast hle
  cases reach with
  | none => cases he
  | some r =>
    cases he
    exact h r rfl hleast (Nat.le_trans (Nat.le_max_left ..) hle)

/-- Nothing is asked to the left of the reach. -/
theorem beyond_of_lt (h : offset < stop) : P.beyond least (Walk.extend reach stop) offset text := by
  intro e he _ hle
  cases reach with
  | none => cases he
  | some r =>
    cases he
    exact absurd (Nat.le_trans (Nat.le_max_right ..) hle) (Nat.not_le_of_lt h)

end Standard

/-- Beyond no reach everything is settled. -/
theorem Settled.beyond_none {P : Standard} {least offset : Nat} {cs : List Chunk} :
    Settled (P.beyond least none) offset cs := by
  induction cs generalizing offset with
  | nil => trivial
  | cons c cs ih => exact ⟨fun _ _ _ he => (nomatch he), ih⟩

section Cut

variable {P : Standard} {t : Tape} {cut : Cut} {token : Chunk} {covered rest more : List Chunk}

/-- What a cut leaves to a rematch is settled beyond the merged region if the
rest is, because what is after the match lies within the region. -/
theorem Settled.leftover (hfits : cut.Fits covered) (htoken : token.isToken = true)
    (hextent : token.extent = cut.matched.length) {least : Nat}
    (h : Settled (P.beyond least (some (t.offset + cut.segment.length)))
      (t.offset + extents covered) rest) :
    Settled (P.beyond least (some (t.offset + cut.segment.length)))
      (t.offset + cut.before.length) (Tape.leftover cut token rest) := by
  have hjoin := hfits.length_join
  have hsegment := hfits.length_segment
  rw [Tape.leftover, ← List.singleton_append, append, append, extents_cons, extents_nil,
    extents_ofText, hextent]
  refine ⟨.token htoken, .ofText fun hne e he _ hle => ?_, ?_⟩
  · cases he
    have := List.length_pos_iff.mpr hne
    omega
  · have hend : t.offset + cut.before.length + (cut.matched.length + 0) + cut.after.length =
        t.offset + extents covered := by
      omega
    rwa [hend]

/-- **A cut leaves nothing unsettled beyond the reach**, if the sweep over what
it has left does not. -/
theorem Settled.resume {text : Text} {start least reach : Nat} (hcovers : t.Covers text start)
    (hahead : t.ahead = covered ++ rest) (hfits : cut.Fits covered)
    (htoken : token.isToken = true) (hextent : token.extent = cut.matched.length)
    (hkeeps : ∀ m, Settled (P.beyond m (some (t.offset + cut.segment.length)))
      (t.offset + cut.before.length) (Tape.leftover cut token rest) →
      Settled (P.beyond m (some reach)) (t.offset + cut.before.length) (token :: more))
    (h : Settled (P.beyond least t.reach) start (t.passed ++ t.ahead)) :
    Settled (P.beyond least (t.resume cut token ⟨token :: more, some reach⟩).reach) start
      ((t.resume cut token ⟨token :: more, some reach⟩).passed ++
        (t.resume cut token ⟨token :: more, some reach⟩).ahead) := by
  have hjoin := hfits.length_join
  have hsegment := hfits.length_segment
  simp only [Tape.resume, List.tail_cons, Option.getD_some, List.append_assoc]
  cases hreach : t.reach with
  | none => exact .beyond_none
  | some r =>
    rw [hahead, hreach, append, append, hcovers.passed] at h
    obtain ⟨hpassed, -, hrest⟩ := h
    rw [append, append, hcovers.passed, extents_ofText]
    refine ⟨?_, .ofText fun hne => ?_, ?_⟩
    · exact hpassed.imp fun _ _ _ h => Standard.beyond_extend (Standard.beyond_extend h)
    · have := List.length_pos_iff.mpr hne
      exact Standard.beyond_extend (Standard.beyond_of_lt (by omega))
    · -- What the walk has not reached yet is no more settled for the rematch than for the walk.
      have hleft : Settled (P.beyond (max least r) (some (t.offset + cut.segment.length)))
          (t.offset + cut.before.length) (Tape.leftover cut token rest) :=
        .leftover hfits htoken hextent <| hrest.imp fun o text _ h e _ hleast _ =>
          h r rfl (by omega) (by omega)
      refine (hkeeps _ hleft).imp fun o text _ h e he hleast hle => ?_
      have he : max (max r (t.offset + cut.segment.length)) reach = e := Option.some.inj he
      exact h reach rfl (by omega) (by omega)

end Cut

end Highlight
