/-
# Chunks that are not empty

Where no chunk is empty there are no more chunks than characters
(`length_le_extents`), and so the check for too many of them is passed
(`size_le`).  Chunks are empty only where a match is: what is in front of a
match and what is after it become chunks only if there is some of it, and so a
cut that makes a token of something leaves no empty chunk (`filled_replace`).

With that, and with neither attempts nor time limited (`charge_unlimited`), the
depth is the only thing that a run can run out of.
-/

import Highlight.Proofs.Tape.Rules

namespace Highlight

open RunM

namespace Chunk

/-- Chunks none of which is empty, with tokens none of which, at any depth, has
a length of zero or less. -/
structure Filled (cs : List Chunk) : Prop where
  tokens : ∀ t ∈ tokensOf cs, 0 < t.length
  chunks : ∀ c ∈ cs, 0 < c.extent

variable {cs ds : List Chunk} {clause : Clause} {matched : Text}

theorem filled_nil : Filled [] where
  tokens := fun _ h => nomatch h
  chunks := fun _ h => nomatch h

theorem filled_append : Filled (cs ++ ds) ↔ Filled cs ∧ Filled ds := by
  constructor
  · rintro ⟨htokens, hchunks⟩
    rw [tokensOf_append] at htokens
    exact ⟨⟨fun t ht => htokens t (List.mem_append_left _ ht),
        fun c hc => hchunks c (List.mem_append_left _ hc)⟩,
      ⟨fun t ht => htokens t (List.mem_append_right _ ht),
        fun c hc => hchunks c (List.mem_append_right _ hc)⟩⟩
  · rintro ⟨hcs, hds⟩
    refine ⟨fun t ht => ?_, fun c hc => ?_⟩
    · rw [tokensOf_append] at ht
      exact (List.mem_append.mp ht).elim (hcs.tokens t) (hds.tokens t)
    · exact (List.mem_append.mp hc).elim (hcs.chunks c) (hds.chunks c)

theorem filled_plain {text : Text} (h : text ≠ []) : Filled [.plain text] where
  tokens := fun _ ht => nomatch ht
  chunks := fun c hc => by
    rw [List.mem_singleton] at hc
    rw [hc, extent_plain]
    exact List.length_pos_iff.mpr h

theorem filled_ofText (text : Text) : Filled (ofText text) := by
  unfold ofText
  split
  · exact filled_nil
  · rename_i h
    exact filled_plain h

/-- The token of a match is not empty if the match is not. -/
theorem filled_leaf (h : matched ≠ []) : Filled [.leaf (clause.tag matched) matched] := by
  have hlength : (0 : Int) < matched.length := Int.ofNat_lt.mpr (List.length_pos_iff.mpr h)
  refine ⟨fun t ht => ?_, fun c hc => ?_⟩
  · rw [tokensOf, Chunk.tokens, tokensOf, List.append_nil, List.mem_singleton] at ht
    rw [ht]
    exact hlength
  · rw [List.mem_singleton] at hc
    rw [hc]
    exact Int.lt_toNat.mpr hlength

/-- The token of a match that has been cut further is not empty if neither the
match nor any of its parts is. -/
theorem filled_node {parts : List Chunk} (h : matched ≠ []) (hparts : Filled parts) :
    Filled [.node (clause.tag matched) parts] := by
  have hlength : (0 : Int) < matched.length := Int.ofNat_lt.mpr (List.length_pos_iff.mpr h)
  refine ⟨fun t ht => ?_, fun c hc => ?_⟩
  · rw [tokensOf, Chunk.tokens, tokensOf, List.append_nil, List.mem_cons] at ht
    rcases ht with rfl | ht
    · exact hlength
    · exact hparts.tokens t ht
  · rw [List.mem_singleton] at hc
    rw [hc]
    exact Int.lt_toNat.mpr hlength

/-- **There are no more chunks than characters** where no chunk is empty. -/
theorem Filled.length_le_extents (h : Filled cs) : cs.length ≤ extents cs := by
  induction cs with
  | nil => exact Nat.le_refl 0
  | cons c cs ih =>
    rw [← List.singleton_append, filled_append] at h
    have hc := h.1.chunks c List.mem_cons_self
    have hcs := ih h.2
    rw [List.length_cons, extents_cons]
    omega

end Chunk

open Chunk

namespace Tape

variable {text : Text} {start base : Nat} {t : Tape} {covered rest : List Chunk}

/-- The check for too many chunks is passed where no chunk is empty, and no more
chunks than characters are to the left. -/
theorem size_le (hcovers : t.Covers text start) (hbase : base ≤ start)
    (h : Filled (t.passed ++ t.ahead)) :
    base + t.passed.length + t.ahead.length ≤ text.length := by
  have hpassed := hcovers.passed
  have hahead := hcovers.ahead
  rw [filled_append] at h
  have hleft := h.1.length_le_extents
  have hright := h.2.length_le_extents
  omega

/-- A cut that makes a token of something leaves no empty chunk. -/
theorem filled_replace (h : Filled (t.passed ++ (covered ++ rest))) (cut : Cut) {token : Chunk}
    (htoken : Filled [token]) :
    Filled (t.passed ++ ofText cut.before ++ leftover cut token rest) := by
  rw [filled_append, filled_append] at h
  rw [leftover, ← List.singleton_append]
  simp only [filled_append]
  exact ⟨⟨h.1, filled_ofText _⟩, htoken, filled_ofText _, h.2.2⟩

/-- What is to the left of a rematch counts no more chunks than characters. -/
theorem rematch_base_le (hcovers : t.Covers text start) (hbase : base ≤ start)
    (h : Filled t.passed) (cut : Cut) :
    base + (t.passed ++ ofText cut.before).length ≤ t.offset + cut.before.length := by
  have hpassed := hcovers.passed
  have hleft := (filled_append.mpr ⟨h, filled_ofText cut.before⟩).length_le_extents
  rw [extents_append, extents_ofText] at hleft
  omega

end Tape

/-- An attempt that nothing limits is charged. -/
theorem charge_unlimited {limits : Limits} (hsteps : limits.maxSteps = none)
    (htime : limits.timeout = none) {P : Run → Prop} {E : Failure → Run → Prop}
    (hcount : ∀ r, P r → P r.countAttempt) : Triple P (charge limits) (fun _ => P) E := by
  intro r hr
  rw [run_charge_of_unlimited hsteps htime]
  exact hcount r hr

end Highlight
