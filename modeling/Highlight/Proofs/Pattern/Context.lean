/-
# Where a match stands

A search finds a span of the text.  If the first capture is context, the match that a rule
sees begins behind as many characters of the span as the capture is long.  That is where the
context ends only if the context is what the span begins with, and nothing makes sure of it:
a look behind may capture in front of the span, and a look ahead beyond its end.

What holds for every pattern is that the text of a match is the text at its offsets, and that
these are within the span if and only if the context is no longer than the span
(`findFrom?_span`).  The context is no longer if the first group captures nothing in what is
looked at ahead or behind (`Tree.capturesInStep`): whatever it captures then has been stepped
over, so that a match that is longer by a part is longer by what is captured in it
(`Scan.Holds`).

The pattern `(?<=(ab))c` captures what is in front of its span.  Its match in `abc` would be
beyond the end of the text (`not_within_span`).
-/

import Highlight.Grammar.Resolution
import Highlight.Pattern.Along
import Highlight.Proofs.Pattern.Width

namespace Highlight

/-- The context that is taken away from a hit: what its first group has captured. -/
def Hit.context (hit : Hit) (lookbehind : Bool) : Text :=
  if lookbehind then (hit.captures.head?.join).getD [] else []

namespace Pattern

/-! ### What the first group captures -/

/-- On the way from one scan to another one, to its right, the first group has captured
nothing, or no more than has been stepped over. -/
structure Scan.Holds (s t : Scan) : Prop where
  le : s.offset ≤ t.offset
  first : t.captures.head? = s.captures.head? ∨
    ∃ c, t.captures.head? = some (some c) ∧ c.length ≤ t.offset - s.offset

namespace Scan

variable {s t u : Scan}

theorem Holds.trans (h : s.Holds t) (h' : t.Holds u) : s.Holds u := by
  obtain ⟨hle, hfirst⟩ := h
  obtain ⟨hle', hfirst'⟩ := h'
  refine ⟨Nat.le_trans hle hle', ?_⟩
  rcases hfirst' with heq' | ⟨c, hc, hshort⟩
  · rcases hfirst with heq | ⟨c, hc, hshort⟩
    · exact Or.inl (heq'.trans heq)
    · exact Or.inr ⟨c, heq'.trans hc, by omega⟩
  · exact Or.inr ⟨c, hc, by omega⟩

theorem composes_holds : Composes Holds where
  refl := fun _ => ⟨Nat.le_refl _, Or.inl rfl⟩
  trans := Holds.trans

theorem holds_of_step? {test : Char → Bool} (h : s.step? test = some t) : s.Holds t := by
  obtain ⟨hoffset, hcaptures⟩ := step?_eq_some h
  exact ⟨by omega, Or.inl (by rw [hcaptures])⟩

/-- A group captures no more than has been stepped over since it began. -/
theorem Holds.capture (h : s.Holds t) (index : Nat) : s.Holds (t.capture index s) := by
  refine ⟨h.le, ?_⟩
  have hheads : (t.capture index s).captures =
      t.captures.set (index - 1) (some (s.after.take (t.offset - s.offset))) := rfl
  rw [hheads]
  by_cases hindex : index - 1 = 0
  · cases hcaptures : t.captures with
    | nil =>
      have hfirst := h.first
      rw [hcaptures] at hfirst
      exact hfirst
    | cons c captures =>
      rw [hindex, List.set_cons_zero, List.head?_cons]
      exact Or.inr ⟨_, rfl, List.length_take_le ..⟩
  · have hsame : (t.captures.set (index - 1) (some (s.after.take (t.offset - s.offset)))).head? =
        t.captures.head? := by
      rw [List.head?_eq_getElem?, List.head?_eq_getElem?, List.getElem?_set_ne hindex]
    rw [hsame]
    exact h.first

end Scan

/-- Whether a tree captures for the first group only what it steps over, and not what it
looks at ahead or behind.  Of a look that must not succeed no capture is kept. -/
def Tree.capturesInStep : Tree → Bool
  | .empty | .any | .set _ | .anchor _ | .reference _ => true
  | .seq first second | .alt first second | .conditional _ first second =>
    first.capturesInStep && second.capturesInStep
  | .group _ body | .atomic body | .under _ body | .rep _ _ _ body => body.capturesInStep
  | .look _ negated body => negated || body.spares

/-- **A tree holds no more than it has stepped over** for the first group, if no look
captures for it. -/
theorem Tree.holds_run (flags : Flags) {t : Tree} (h : t.capturesInStep = true) :
    (t.run flags).Along Scan.Holds := by
  have hstep {test : Scan → Char → Bool} :
      Matching.Along Scan.Holds fun s k => (s.step? (test s)).bind k := by
    intro s k r h
    obtain ⟨u, hu, hk⟩ := Option.bind_eq_some_iff.mp h
    exact ⟨u, Scan.holds_of_step? hu, hk⟩
  induction t generalizing flags with
  | empty => exact Matching.along_skip Scan.composes_holds
  | any => exact hstep
  | set chars => exact hstep
  | anchor a =>
    intro s k r h
    unfold Tree.run at h
    split at h
    · exact Matching.along_skip Scan.composes_holds s k r h
    · cases h
  | reference index =>
    intro s k r h
    unfold Tree.run at h
    split at h
    · cases h
    · obtain ⟨u, hu, hk⟩ := Option.bind_eq_some_iff.mp h
      exact ⟨u, Matching.along_steps? Scan.composes_holds (fun _ _ _ => Scan.holds_of_step?) hu, hk⟩
  | seq first second ih₁ ih₂ =>
    obtain ⟨h₁, h₂⟩ := Bool.and_eq_true_iff.mp h
    exact (ih₁ flags h₁).andThen Scan.composes_holds (ih₂ flags h₂)
  | alt first second ih₁ ih₂ =>
    obtain ⟨h₁, h₂⟩ := Bool.and_eq_true_iff.mp h
    exact (ih₁ flags h₁).orElse (ih₂ flags h₂)
  | group index body ih =>
    intro s k r hr
    obtain ⟨u, hu, hk⟩ := ih flags h s _ r hr
    exact ⟨_, hu.capture index, hk⟩
  | look behind negated body ih =>
    refine Matching.Along.look Scan.composes_holds behind negated fun hwanted s t hfound => ?_
    rw [capturesInStep, hwanted, Bool.false_or] at h
    have hsame := Scan.head?_glance (Tree.takes_run flags body).along h hfound
    exact ⟨Nat.le_refl _, Or.inl hsame⟩
  | atomic body ih => exact (ih flags h).atomic
  | under change body ih => exact ih (flags.change change) h
  | conditional index captured otherwise ih₁ ih₂ =>
    obtain ⟨h₁, h₂⟩ := Bool.and_eq_true_iff.mp h
    exact (ih₁ flags h₁).ifElse (ih₂ flags h₂) _
  | rep greed least most body ih => exact (ih flags h).repeated Scan.composes_holds greed least most

/-! ### Where the match stands -/

variable {p : Pattern} {text : Text} {lookbehind : Bool} {m : Match} {hit : Hit}

/-- The context is no longer than the span, if no look captures for the first group. -/
theorem length_context_le (hstep : p.tree.capturesInStep = true) {offset : Nat}
    (h : p.at? text offset = some hit) (lookbehind : Bool) :
    (hit.context lookbehind).length ≤ hit.stop - hit.start := by
  obtain ⟨t, ht, rfl⟩ := at?_eq_some h
  cases lookbehind with
  | false => exact Nat.zero_le _
  | true =>
    rw [Hit.context, if_pos rfl]
    rcases ((Tree.holds_run p.flags hstep).of_eq_some ht).first with hnone | ⟨c, hc, hshort⟩
    · have hempty : (t.captures.head?.join).getD [] = [] := by
        rw [hnone, List.head?_replicate]
        split <;> rfl
      rw [hempty]
      exact Nat.zero_le _
    · rw [hc]
      exact hshort

/-- What a search finds, the pattern matches where it starts. -/
theorem at?_start {offset : Nat} (h : p.search? text offset = some hit) :
    p.at? text hit.start = some hit := by
  have hmin : p.search? text (min offset text.length) = some hit := by
    rw [search?, Nat.min_assoc, Nat.min_self]
    exact h
  exact (at?_of_search? (Nat.min_le_right ..) hmin).1

/-- **A match is a piece of the text**, and its offsets are within the span that the search
has found if and only if the context is no longer than the span.  They are if nothing is taken
for context, or if the first group captures nothing that is only looked at. -/
theorem findFrom?_span {offset : Int} (h : p.findFrom? text offset lookbehind = some m) :
    ∃ hit, p.search? text offset.toNat = some hit ∧ m.groups = hit.captures ∧
      text.slice m.index m.stop = m.text ∧ hit.start ≤ m.index ∧ m.index ≤ m.stop ∧
      (m.stop ≤ hit.stop ↔ (hit.context lookbehind).length ≤ hit.stop - hit.start) ∧
      (lookbehind = false ∨ p.tree.capturesInStep = true →
        m.stop ≤ hit.stop ∧ m.stop ≤ text.length) := by
  have htext := find?_text h
  obtain ⟨hit, context, hhit, hcontext, rfl⟩ := find?_eq_some h
  obtain rfl : context = hit.context lookbehind := hcontext
  obtain ⟨-, hstart, hstop, -⟩ := search?_bounds hhit
  have hlength : ((text.slice hit.start hit.stop).drop (hit.context lookbehind).length).length =
      hit.stop - hit.start - (hit.context lookbehind).length := by
    rw [List.length_drop, Text.length_slice, Nat.min_eq_left hstop]
  have hwithin : hit.start + (hit.context lookbehind).length +
        (hit.stop - hit.start - (hit.context lookbehind).length) ≤ hit.stop ↔
      (hit.context lookbehind).length ≤ hit.stop - hit.start := by
    omega
  unfold Match.stop
  dsimp only at htext ⊢
  refine ⟨hit, hhit, rfl, ?_, by omega, by omega, by rw [hlength]; exact hwithin, fun hplain => ?_⟩
  · rw [Text.slice, List.drop_take, Nat.add_sub_cancel_left]
    exact htext.symm
  · have hshort : (hit.context lookbehind).length ≤ hit.stop - hit.start := by
      rcases hplain with rfl | hstep
      · exact Nat.zero_le _
      · exact length_context_le hstep (at?_start hhit) lookbehind
    have hle := hwithin.mpr hshort
    rw [hlength]
    exact ⟨hle, Nat.le_trans hle hstop⟩

/-- The pattern `(x)y`. -/
def following : Pattern where
  source := "(x)y".toList
  groups := 1
  tree := .seq (.group 1 (.set { items := [.range 120 120] })) (.set { items := [.range 121 121] })

/-- The `x` of `axy` is context, and the match is the `y` at 2. -/
theorem findFrom?_span_following :
    following.tree.capturesInStep = true ∧
      following.findFrom? "axy".toList 0 true = some ⟨2, ['y'], [some ['x']]⟩ ∧
      ∃ hit, following.search? "axy".toList 0 = some hit ∧ [some ['x']] = hit.captures ∧
        Text.slice "axy".toList 2 3 = ['y'] ∧ hit.start ≤ 2 ∧ 2 ≤ 3 ∧
        (3 ≤ hit.stop ↔ (hit.context true).length ≤ hit.stop - hit.start) ∧
        (true = false ∨ following.tree.capturesInStep = true →
          3 ≤ hit.stop ∧ 3 ≤ "axy".toList.length) := by
  have hfind : following.findFrom? "axy".toList 0 true = some ⟨2, ['y'], [some ['x']]⟩ := by
    decide +kernel
  exact ⟨rfl, hfind, findFrom?_span hfind⟩

/-- A rule for `c` behind `ab`, of which the group captures what is only looked at. -/
def looking : CompiledRule where
  pattern :=
    { source := "(?<=(ab))c".toList, groups := 1
      tree := .seq
        (.look (some 2) false
          (.group 1 (.seq (.set { items := [.range 97 97] }) (.set { items := [.range 98 98] }))))
        (.set { items := [.range 99 99] }) }
  lookbehind := true

/-- **A look behind misplaces the match.**  The rule is accepted; its pattern has the span from
2 to 3 in `abc`; and the match that is reported is empty and stands at 4, beyond the end of the
text. -/
theorem not_within_span :
    (Alternative.compile "c" (.rule {
        pattern := .expression (.source "(?<=(ab))c".toList)
        lookbehind := true })).toOption = some looking ∧
      looking.pattern.search? "abc".toList 0 = some ⟨2, 3, [some "ab".toList]⟩ ∧
      looking.pattern.findFrom? "abc".toList 0 looking.lookbehind =
        some ⟨4, [], [some "ab".toList]⟩ ∧
      ¬ Match.stop ⟨4, [], [some "ab".toList]⟩ ≤ 3 ∧
      ¬ Match.stop ⟨4, [], [some "ab".toList]⟩ ≤ "abc".toList.length := by
  decide +kernel

end Pattern
end Highlight
