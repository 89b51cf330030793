/-
# What matching keeps

A way of matching goes *along* a relation of scans if every scan that it hands to its
continuation is one that the scan it started from is related to (`Matching.Along`).  If the
relation holds of a way as soon as it holds of its parts (`Scan.Composes`), whatever is put
together from such ways of matching is one again: sequences, choices, atomic groups, and
loops of every kind.  So a statement about where matching leads needs a look at single
steps, captures and assertions only.

An assertion does not move, but keeps what was captured on the way (`Along.look`); whether
the relation bears that is left to it.
-/

import Highlight.Pattern.Matcher

namespace Highlight
namespace Pattern

/-- A relation of scans that holds of a way if it holds of the parts of the way. -/
structure Scan.Composes (R : Scan → Scan → Prop) : Prop where
  refl : ∀ s, R s s
  trans : ∀ {s t u}, R s t → R t u → R s u

namespace Matching

/-- A way of matching leads from a scan only to scans that it is related to. -/
def Along (R : Scan → Scan → Prop) (m : Matching) : Prop :=
  ∀ s k r, m s k = some r → ∃ t, R s t ∧ k t = some r

variable {R : Scan → Scan → Prop} {m n : Matching}

/-- What is found on its own is a scan that one is led to. -/
theorem Along.of_eq_some (hm : m.Along R) {s t : Scan} (h : m s some = some t) : R s t := by
  obtain ⟨u, hu, heq⟩ := hm s some t h
  cases heq
  exact hu

theorem Along.orElse (hm : m.Along R) (hn : n.Along R) : Along R fun s k => m s k <|> n s k := by
  intro s k r h
  dsimp only at h
  cases hfirst : m s k with
  | none =>
    rw [hfirst] at h
    exact hn s k r h
  | some t =>
    rw [hfirst] at h
    exact hm s k r (hfirst.trans h)

theorem Along.ifElse (hm : m.Along R) (hn : n.Along R) (test : Scan → Bool) :
    Along R fun s k => if test s then m s k else n s k := by
  intro s k r h
  dsimp only at h
  split at h
  · exact hm s k r h
  · exact hn s k r h

theorem Along.atomic (hm : m.Along R) : (atomic m).Along R := by
  intro s k r h
  unfold Matching.atomic at h
  split at h
  · cases h
  · rename_i t ht
    exact ⟨t, hm.of_eq_some ht, h⟩

theorem along_skip (hR : Scan.Composes R) : Along R fun s k => k s :=
  fun s _ _ h => ⟨s, hR.refl s, h⟩

theorem Along.andThen (hm : m.Along R) (hR : Scan.Composes R) (hn : n.Along R) :
    Along R fun s k => m s fun s => n s k := by
  intro s k r h
  obtain ⟨t, ht, hk⟩ := hm s _ r h
  obtain ⟨u, hu, hk'⟩ := hn t k r hk
  exact ⟨u, hR.trans ht hu, hk'⟩

/-! ### Loops -/

theorem Along.times (hm : m.Along R) (hR : Scan.Composes R) (count : Nat) :
    (times m count).Along R := by
  induction count with
  | zero => exact along_skip hR
  | succ count ih => exact hm.andThen hR ih

/-- An iteration and then the rest of a loop, or what follows the loop if the
iteration consumed nothing. -/
theorem Along.iterate (hm : m.Along R) (hR : Scan.Composes R) (hn : n.Along R) :
    Along R fun s k => m s fun t => if t.offset = s.offset then k t else n t k := by
  intro s k r h
  obtain ⟨t, ht, hk⟩ := hm s _ r h
  split at hk
  · exact ⟨t, ht, hk⟩
  · obtain ⟨u, hu, hk'⟩ := hn t k r hk
    exact ⟨u, hR.trans ht hu, hk'⟩

theorem Along.greedily (hm : m.Along R) (hR : Scan.Composes R) (fuel : Nat)
    (most : Option Nat) : (greedily m fuel most).Along R := by
  induction fuel generalizing most with
  | zero => exact along_skip hR
  | succ fuel ih =>
    intro s k r h
    unfold Matching.greedily at h
    split at h
    · exact along_skip hR s k r h
    · exact (hm.iterate hR (ih _)).orElse (along_skip hR) s k r h

theorem Along.lazily (hm : m.Along R) (hR : Scan.Composes R) (fuel : Nat)
    (most : Option Nat) : (lazily m fuel most).Along R := by
  induction fuel generalizing most with
  | zero => exact along_skip hR
  | succ fuel ih =>
    intro s k r h
    unfold Matching.lazily at h
    split at h
    · exact along_skip hR s k r h
    · exact (along_skip hR).orElse (hm.iterate hR (ih _)) s k r h

theorem Along.possessively (hm : m.Along R) (hR : Scan.Composes R) (fuel : Nat)
    (most : Option Nat) : (possessively m fuel most).Along R := by
  induction fuel generalizing most with
  | zero => exact along_skip hR
  | succ fuel ih =>
    intro s k r h
    unfold Matching.possessively at h
    split at h
    · exact along_skip hR s k r h
    · split at h
      · exact along_skip hR s k r h
      · rename_i t ht
        have ht := hm.of_eq_some ht
        split at h
        · exact ⟨t, ht, h⟩
        · obtain ⟨u, hu, hk⟩ := ih _ t k r h
          exact ⟨u, hR.trans ht hu, hk⟩

theorem Along.repeated (hm : m.Along R) (hR : Scan.Composes R) (greed : Greed) (least : Nat)
    (most : Option Nat) : (repeated m greed least most).Along R := by
  cases greed with
  | greedy => exact fun s => (hm.times hR least).andThen hR (fun t => hm.greedily hR _ _ t) s
  | lazy => exact fun s => (hm.times hR least).andThen hR (fun t => hm.lazily hR _ _ t) s
  | possessive =>
    exact fun s => (hm.atomic.times hR least).andThen hR (fun t => hm.possessively hR _ _ t) s

/-! ### Steps and assertions -/

/-- Stepping over a text is stepping over its characters. -/
theorem along_steps? (hR : Scan.Composes R)
    (hstep : ∀ (s t : Scan) test, s.step? test = some t → R s t) {same : Char → Char → Bool}
    {word : Text} {s t : Scan} (h : s.steps? same word = some t) : R s t := by
  induction word generalizing s with
  | nil =>
    cases h
    exact hR.refl _
  | cons c rest ih =>
    rw [Scan.steps?] at h
    split at h
    · cases h
    · rename_i u hu
      exact hR.trans (hstep s u _ hu) (ih h)

/-- A look ahead or behind that is wanted keeps what was captured on the way, and any other
changes nothing. -/
theorem Along.look (hR : Scan.Composes R) (behind : Option Nat) (negated : Bool)
    (hkeep : negated = false → ∀ s t, glance m behind s = some t →
      R s { s with captures := t.captures }) :
    (look m behind negated).Along R := by
  intro s k r h
  unfold Matching.look at h
  split at h
  · rename_i t hfound
    exact ⟨_, hkeep rfl s t hfound, h⟩
  · exact along_skip hR s k r h
  · cases h

end Matching
end Pattern
end Highlight
