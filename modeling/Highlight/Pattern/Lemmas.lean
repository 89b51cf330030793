/-
# Where a match lies

Whatever a tree matches lies in the text: matching moves to the right only,
stays within the text, and captures nothing but parts of the text
(`Tree.onward_run`).  So a search that begins at an offset within the text
reports a span of the text that does not begin before it (`search?_bounds`).

Moving on within the text is a relation of scans that holds of a way if it holds
of its parts (`Scan.Advances`), so that only single steps, captures and assertions
have to be looked at.
-/

import Highlight.Pattern.Along
import Highlight.Pattern.Match

namespace Highlight
namespace Pattern

/-- A scan is a position of a text: what is before it and after it make up
the text, its offset counts what is before it, and every capture is part of
the text. -/
structure Scan.In (text : Text) (s : Scan) : Prop where
  text_eq : s.before.reverse ++ s.after = text
  offset_eq : s.offset = s.before.length
  infix_of_mem : ∀ c, some c ∈ s.captures → c <:+: text

/-- A way of matching is *onward* in a text if it hands to its continuation
only positions of the text that do not lie to the left. -/
def Matching.Onward (text : Text) (m : Matching) : Prop :=
  ∀ s k r, s.In text → m s k = some r → ∃ t, t.In text ∧ s.offset ≤ t.offset ∧ k t = some r

namespace Scan

variable {text : Text} {s t : Scan}

/-- A position is not beyond the end. -/
theorem In.offset_le (h : s.In text) : s.offset ≤ text.length := by
  have := congrArg List.length h.text_eq
  simp only [List.length_append, List.length_reverse] at this
  rw [h.offset_eq]
  omega

/-- Stepping over a character moves one to the right. -/
theorem In.step? (h : s.In text) {test : Char → Bool} (ht : s.step? test = some t) :
    t.In text ∧ t.offset = s.offset + 1 := by
  unfold Scan.step? at ht
  split at ht
  · cases ht
  · rename_i c rest hrest
    split at ht
    · cases ht
      refine ⟨⟨?_, ?_, h.infix_of_mem⟩, rfl⟩
      · rw [← h.text_eq, hrest]
        simp
      · simp [h.offset_eq]
    · cases ht

/-- Going back stays in the text. -/
theorem In.back? (h : s.In text) {n : Nat} (ht : s.back? n = some t) : t.In text := by
  induction n generalizing s with
  | zero =>
    cases ht
    exact h
  | succ n ih =>
    rw [Scan.back?] at ht
    split at ht
    · cases ht
    · rename_i c rest hrest
      refine ih (s := { s with before := rest, after := c :: s.after, offset := s.offset - 1 })
        ⟨?_, ?_, h.infix_of_mem⟩ ht
      · rw [← h.text_eq, hrest]
        simp
      · simp [h.offset_eq, hrest]

/-- Capturing the text since an earlier position captures a part of the
text. -/
theorem In.capture (ht : t.In text) (hs : s.In text) (index : Nat) :
    (t.capture index s).In text := by
  refine ⟨ht.text_eq, ht.offset_eq, fun c hc => ?_⟩
  rcases List.mem_or_eq_of_mem_set hc with hc | hc
  · exact ht.infix_of_mem c hc
  · cases hc
    rw [← hs.text_eq]
    exact (List.take_prefix _ _).isInfix.trans (List.suffix_append _ _).isInfix

/-- Taking over the captures of another position stays in the text. -/
theorem In.withCaptures (hs : s.In text) (ht : t.In text) :
    ({ s with captures := t.captures } : Scan).In text :=
  ⟨hs.text_eq, hs.offset_eq, ht.infix_of_mem⟩

/-- From a position of the text on one gets to positions of the text that do not
lie to the left. -/
def Advances (text : Text) (s t : Scan) : Prop :=
  s.In text → t.In text ∧ s.offset ≤ t.offset

theorem composes_advances (text : Text) : Composes (Advances text) where
  refl := fun _ hs => ⟨hs, Nat.le_refl _⟩
  trans := fun h h' hs => by
    obtain ⟨ht, hle⟩ := h hs
    obtain ⟨hu, hle'⟩ := h' ht
    exact ⟨hu, Nat.le_trans hle hle'⟩

theorem advances_of_step? {test : Char → Bool} (ht : s.step? test = some t) :
    s.Advances text t := by
  intro hs
  obtain ⟨hin, hoffset⟩ := hs.step? ht
  exact ⟨hin, by omega⟩

/-- What is found ahead or behind is a position of the text. -/
theorem In.glance (h : s.In text) {m : Matching} (hm : m.Along (Advances text))
    {behind : Option Nat} (ht : Matching.glance m behind s = some t) : t.In text := by
  cases behind with
  | none => exact (hm.of_eq_some ht h).1
  | some width =>
    obtain ⟨u, hu, ht⟩ := Option.bind_eq_some_iff.mp ht
    exact (hm.of_eq_some ht (h.back? hu)).1

end Scan

/-- Matching a tree leads to positions of the text that do not lie to the left. -/
theorem Tree.advances_run (text : Text) (flags : Flags) (t : Tree) :
    (t.run flags).Along (Scan.Advances text) := by
  have hR := Scan.composes_advances text
  induction t generalizing flags with
  | empty => exact Matching.along_skip hR
  | any | set =>
    intro s k r h
    obtain ⟨u, hu, hk⟩ := Option.bind_eq_some_iff.mp h
    exact ⟨u, Scan.advances_of_step? hu, hk⟩
  | anchor a =>
    intro s k r h
    unfold Tree.run at h
    split at h
    · exact Matching.along_skip hR s k r h
    · cases h
  | reference index =>
    intro s k r h
    unfold Tree.run at h
    split at h
    · cases h
    · obtain ⟨u, hu, hk⟩ := Option.bind_eq_some_iff.mp h
      exact ⟨u, Matching.along_steps? hR (fun _ _ _ => Scan.advances_of_step?) hu, hk⟩
  | seq first second ih₁ ih₂ => exact (ih₁ flags).andThen hR (ih₂ flags)
  | alt first second ih₁ ih₂ => exact (ih₁ flags).orElse (ih₂ flags)
  | group index body ih =>
    intro s k r h
    obtain ⟨u, hu, hk⟩ := ih flags s _ r h
    refine ⟨_, fun hs => ?_, hk⟩
    obtain ⟨hin, hle⟩ := hu hs
    exact ⟨hin.capture hs index, hle⟩
  | look behind negated body ih =>
    refine Matching.Along.look hR behind negated fun _ s t hfound hs => ?_
    have ht := hs.glance (ih flags) hfound
    exact ⟨hs.withCaptures ht, Nat.le_refl _⟩
  | atomic body ih => exact (ih flags).atomic
  | under change body ih => exact ih (flags.change change)
  | conditional index captured otherwise ih₁ ih₂ => exact (ih₁ flags).ifElse (ih₂ flags) _
  | rep greed least most body ih => exact (ih flags).repeated hR greed least most

namespace Matching

/-- What an onward way of matching reports on its own is a position that does
not lie to the left. -/
theorem Onward.of_eq_some {text : Text} {m : Matching} (hm : m.Onward text) {s t : Scan}
    (hs : s.In text) (h : m s some = some t) : t.In text ∧ s.offset ≤ t.offset := by
  obtain ⟨u, hu, hle, heq⟩ := hm s some t hs h
  cases heq
  exact ⟨hu, hle⟩

end Matching

/-- **Matching a tree moves to the right, within the text.** -/
theorem Tree.onward_run (text : Text) (flags : Flags) (t : Tree) :
    (t.run flags).Onward text := by
  intro s k r hs h
  obtain ⟨u, hu, hk⟩ := t.advances_run text flags s k r h
  obtain ⟨hin, hle⟩ := hu hs
  exact ⟨u, hin, hle, hk⟩

/-! ### Searches -/

variable {p : Pattern} {text : Text}

/-- A match at a position of a text begins there, ends within the text, and
captures parts of the text. -/
theorem hitAt?_bounds {before after : Text} {hit : Hit}
    (htext : before.reverse ++ after = text)
    (h : p.hitAt? before after before.length = some hit) :
    hit.start = before.length ∧ hit.start ≤ hit.stop ∧ hit.stop ≤ text.length ∧
      ∀ c, some c ∈ hit.captures → c <:+: text := by
  obtain ⟨t, ht, rfl⟩ := Option.map_eq_some_iff.mp h
  have hs : Scan.In text ⟨before, after, before.length, List.replicate p.groups none⟩ :=
    ⟨htext, rfl, fun c hc => by simp [List.mem_replicate] at hc⟩
  obtain ⟨hin, hle⟩ := (Tree.onward_run text p.flags p.tree).of_eq_some hs ht
  exact ⟨rfl, hle, hin.offset_le, hin.infix_of_mem⟩

/-- The first match from a position on begins there or later. -/
theorem seek?_bounds {before after : Text} {hit : Hit}
    (htext : before.reverse ++ after = text)
    (h : p.seek? before before.length after = some hit) :
    before.length ≤ hit.start ∧ hit.start ≤ hit.stop ∧ hit.stop ≤ text.length ∧
      ∀ c, some c ∈ hit.captures → c <:+: text := by
  induction after generalizing before with
  | nil =>
    obtain ⟨hstart, hrest⟩ := hitAt?_bounds htext h
    exact ⟨by omega, hrest⟩
  | cons c after ih =>
    rw [seek?] at h
    split at h
    · rename_i found hfound
      cases h
      obtain ⟨hstart, hrest⟩ := hitAt?_bounds htext hfound
      exact ⟨by omega, hrest⟩
    · have hnext : (c :: before).reverse ++ after = text := by simpa using htext
      obtain ⟨hstart, hrest⟩ := ih hnext h
      simp only [List.length_cons] at hstart
      exact ⟨by omega, hrest⟩

/-- **A search reports a span of the text.**  It does not begin before the
offset where the search began, or before the end if that offset lies beyond
it; and what the groups captured are parts of the text. -/
theorem search?_bounds {offset : Nat} {hit : Hit} (h : p.search? text offset = some hit) :
    min offset text.length ≤ hit.start ∧ hit.start ≤ hit.stop ∧ hit.stop ≤ text.length ∧
      ∀ c, some c ∈ hit.captures → c <:+: text := by
  have hlen : (text.take (min offset text.length)).reverse.length = min offset text.length := by
    simp
  have htext : (text.take (min offset text.length)).reverse.reverse ++
      text.drop (min offset text.length) = text := by
    simp
  rw [search?, ← hlen] at h
  have := seek?_bounds htext (by simpa using h)
  simpa using this

end Pattern
end Highlight
