/-
# What a search finds

A search from an offset reports the first offset, from there on, at which the
pattern matches (`at?_of_search?`, `at?_eq_none_of_search?`).  Whether it
matches at an offset (`at?`) depends on the text and the offset alone, not on
where the search began.

The match that a rule sees is a piece of the text at its own offset
(`find?_text`), also where the first capture is taken for context: an offset
beyond the end comes with no text.
-/

import Highlight.Pattern.Lemmas

namespace Highlight
namespace Pattern

variable {p : Pattern} {text : Text} {offset : Nat} {lookbehind : Bool}

/-- The match of a pattern at an offset of a text. -/
def at? (p : Pattern) (text : Text) (offset : Nat) : Option Hit :=
  p.hitAt? (text.take offset).reverse (text.drop offset) offset

/-- The position of an offset is one of the text. -/
theorem scan_in (hle : offset ≤ text.length) (groups : Nat) :
    Scan.In text ⟨(text.take offset).reverse, text.drop offset, offset,
      List.replicate groups none⟩ := by
  refine ⟨by simp, by simp [Nat.min_eq_left hle], fun c hc => by simp at hc⟩

/-- A position of a text, by what is before it. -/
theorem at?_length {before after : Text} (htext : before.reverse ++ after = text) :
    p.at? text before.length = p.hitAt? before after before.length := by
  have hlen : before.reverse.length = before.length := List.length_reverse
  rw [at?, ← htext, List.take_left' hlen, List.drop_left' hlen, List.reverse_reverse]

/-- Seeking from a position on finds nothing only where no offset matches. -/
theorem at?_eq_none_of_seek? {before after : Text} (htext : before.reverse ++ after = text)
    (h : p.seek? before before.length after = none) {s : Nat} (hs : before.length ≤ s)
    (hlen : s ≤ text.length) : p.at? text s = none := by
  induction after generalizing before with
  | nil =>
    have heq : s = before.length := by
      rw [← htext, List.append_nil, List.length_reverse] at hlen
      omega
    rw [heq, at?_length htext]
    exact h
  | cons c after ih =>
    rw [seek?] at h
    split at h
    · cases h
    · rename_i hnone
      rcases Nat.eq_or_lt_of_le hs with rfl | hlt
      · rw [at?_length htext, hnone]
      · exact ih (by simpa using htext) h hlt

/-- Seeking from a position on finds the first offset that matches. -/
theorem at?_of_seek? {before after : Text} (htext : before.reverse ++ after = text) {hit : Hit}
    (h : p.seek? before before.length after = some hit) :
    p.at? text hit.start = some hit ∧
      ∀ s, before.length ≤ s → s < hit.start → p.at? text s = none := by
  induction after generalizing before with
  | nil =>
    have hstart := (hitAt?_bounds htext h).1
    exact ⟨by rw [hstart, at?_length htext]; exact h, fun s hs hlt => by omega⟩
  | cons c after ih =>
    rw [seek?] at h
    split at h
    · rename_i found hfound
      cases h
      have hstart := (hitAt?_bounds htext hfound).1
      exact ⟨by rw [hstart, at?_length htext]; exact hfound, fun s hs hlt => by omega⟩
    · rename_i hnone
      obtain ⟨hat, hfirst⟩ := ih (by simpa using htext) h
      refine ⟨hat, fun s hs hlt => ?_⟩
      rcases Nat.eq_or_lt_of_le hs with rfl | hs
      · rw [at?_length htext, hnone]
      · exact hfirst s hs hlt

/-- A search is seeking from the position of its offset on. -/
theorem search?_eq_seek? (hle : offset ≤ text.length) :
    p.search? text offset = p.seek? (text.take offset).reverse
      (text.take offset).reverse.length (text.drop offset) := by
  rw [search?, Nat.min_eq_left hle, List.length_reverse, List.length_take, Nat.min_eq_left hle]

/-- **A search that finds nothing leaves no match** from its offset on. -/
theorem at?_eq_none_of_search? (hle : offset ≤ text.length) (h : p.search? text offset = none)
    {s : Nat} (hs : offset ≤ s) (hlen : s ≤ text.length) : p.at? text s = none := by
  rw [search?_eq_seek? hle] at h
  refine at?_eq_none_of_seek? (by simp) h ?_ hlen
  rw [List.length_reverse, List.length_take]
  omega

/-- **A search finds the first match** from its offset on. -/
theorem at?_of_search? (hle : offset ≤ text.length) {hit : Hit}
    (h : p.search? text offset = some hit) :
    p.at? text hit.start = some hit ∧ ∀ s, offset ≤ s → s < hit.start → p.at? text s = none := by
  rw [search?_eq_seek? hle] at h
  obtain ⟨hat, hfirst⟩ := at?_of_seek? (show _ = text by simp) h
  refine ⟨hat, fun s hs hlt => hfirst s ?_ hlt⟩
  rw [List.length_reverse, List.length_take]
  omega

/-- The first match from an offset on is the one that a search finds. -/
theorem search?_of_at? {start : Nat} (hle : offset ≤ start) (hlen : start ≤ text.length)
    {hit : Hit} (h : p.at? text start = some hit)
    (hfirst : ∀ s, offset ≤ s → s < start → p.at? text s = none) :
    p.search? text offset = some hit := by
  cases hfound : p.search? text offset with
  | none =>
    rw [at?_eq_none_of_search? (Nat.le_trans hle hlen) hfound hle hlen] at h
    cases h
  | some found =>
    obtain ⟨hat, hfirst'⟩ := at?_of_search? (Nat.le_trans hle hlen) hfound
    have hfrom := (search?_bounds hfound).1
    rw [Nat.min_eq_left (Nat.le_trans hle hlen)] at hfrom
    rcases Nat.lt_trichotomy found.start start with hlt | heq | hlt
    · rw [hfirst found.start hfrom hlt] at hat
      cases hat
    · rw [heq, h] at hat
      rw [hat]
    · rw [hfirst' start hle hlt] at h
      cases h

/-! ### The match that a rule sees -/

/-- What a rule sees is the match of a search, less the context. -/
theorem find?_eq_some {m : Match} (h : p.find? text offset lookbehind = some m) :
    ∃ hit context, p.search? text offset = some hit ∧
      context = (if lookbehind then (hit.captures.head?.join).getD [] else []) ∧
      m = ⟨hit.start + context.length,
        (text.slice hit.start hit.stop).drop context.length, hit.captures⟩ := by
  unfold find? at h
  split at h
  · cases h
  · rename_i hit hhit
    cases h
    exact ⟨hit, _, hhit, rfl, rfl⟩

/-- Without a match of the search there is none for the rule. -/
theorem find?_eq_none_iff :
    p.find? text offset lookbehind = none ↔ p.search? text offset = none := by
  unfold find?
  split <;> simp_all

/-- **The text of a match stands at its offset.** -/
theorem find?_text {m : Match} (h : p.find? text offset lookbehind = some m) :
    m.text = (text.drop m.index).take m.text.length := by
  obtain ⟨hit, context, -, -, rfl⟩ := find?_eq_some h
  dsimp only
  rw [Text.slice, List.drop_drop, List.drop_take]
  simp

/-- A match does not begin before the offset of the search. -/
theorem find?_index {m : Match} (hle : offset ≤ text.length)
    (h : p.find? text offset lookbehind = some m) : offset ≤ m.index := by
  obtain ⟨hit, context, hhit, -, rfl⟩ := find?_eq_some h
  have := (search?_bounds hhit).1
  dsimp only
  omega

/-- A match that begins within the text ends within the text. -/
theorem find?_stop_le {m : Match} (h : p.find? text offset lookbehind = some m)
    (hlt : m.index ≤ text.length) : m.stop ≤ text.length := by
  have hlen := congrArg List.length (find?_text h)
  rw [List.length_take, List.length_drop] at hlen
  unfold Match.stop
  omega

end Pattern
end Highlight
