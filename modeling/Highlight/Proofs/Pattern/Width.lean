/-
# Matches that are not empty

How many characters a tree consumes at the least can be read off it
(`Tree.least`, `Tree.takes_run`).  So a pattern whose tree consumes something
has no empty match.

Where the first capture is context, what is left of a match must not be empty
either.  That holds of a tree that begins with the first group, and in which
what follows the group consumes something and does not capture for it again:
the context is then what the group has consumed (`Pattern.text_ne_nil_of_find?`).
-/

import Highlight.Proofs.Pattern.Find

namespace Highlight
namespace Pattern

namespace Tree

/-- The least number of characters that a tree consumes. -/
def least : Tree → Nat
  | .any | .set _ => 1
  | .empty | .anchor _ | .reference _ | .look .. => 0
  | .seq first second => first.least + second.least
  | .alt first second | .conditional _ first second => min first.least second.least
  | .group _ body | .atomic body | .under _ body => body.least
  | .rep _ count _ body => count * body.least

/-- Whether a tree captures nothing for the first group. -/
def spares : Tree → Bool
  | .empty | .any | .set _ | .anchor _ | .reference _ => true
  | .seq first second | .alt first second | .conditional _ first second =>
    first.spares && second.spares
  | .group index body => 2 ≤ index && body.spares
  | .look _ _ body | .atomic body | .under _ body | .rep _ _ _ body => body.spares

end Tree

/-! ### What ways of matching consume -/

namespace Matching

/-- A way of matching takes a number of characters if it hands to its
continuation only scans at least that far to the right; and it spares the first
group if it hands on what that group has captured. -/
def Takes (least : Nat) (spares : Bool) (m : Matching) : Prop :=
  ∀ s k r, m s k = some r → ∃ t : Scan, s.offset + least ≤ t.offset ∧
    (spares = true → t.captures.head? = s.captures.head?) ∧ k t = some r

variable {m n : Matching} {least least' : Nat} {spares spares' : Bool}

theorem takes_skip : Takes 0 true fun s k => k s :=
  fun s _ _ h => ⟨s, Nat.le_refl _, fun _ => rfl, h⟩

/-- Less may be claimed. -/
theorem Takes.mono (hm : m.Takes least spares) (hle : least' ≤ least)
    (hspares : spares' = true → spares = true) : m.Takes least' spares' := by
  intro s k r h
  obtain ⟨t, ht, hkeep, hk⟩ := hm s k r h
  exact ⟨t, by omega, fun hs => hkeep (hspares hs), hk⟩

/-- What is found on its own is as far to the right. -/
theorem Takes.of_eq_some (hm : m.Takes least spares) {s t : Scan} (h : m s some = some t) :
    s.offset + least ≤ t.offset ∧ (spares = true → t.captures.head? = s.captures.head?) := by
  obtain ⟨u, hu, hkeep, heq⟩ := hm s some t h
  cases heq
  exact ⟨hu, hkeep⟩

theorem Takes.andThen (hm : m.Takes least spares) (hn : n.Takes least' spares') :
    Takes (least + least') (spares && spares') fun s k => m s fun s => n s k := by
  intro s k r h
  obtain ⟨t, ht, hkeep, hk⟩ := hm s _ r h
  obtain ⟨u, hu, hkeep', hk'⟩ := hn t k r hk
  refine ⟨u, by omega, fun hs => ?_, hk'⟩
  rw [Bool.and_eq_true] at hs
  rw [hkeep' hs.2, hkeep hs.1]

theorem Takes.orElse (hm : m.Takes least spares) (hn : n.Takes least' spares') :
    Takes (min least least') (spares && spares') fun s k => m s k <|> n s k := by
  intro s k r h
  dsimp only at h
  cases hfirst : m s k with
  | none =>
    rw [hfirst] at h
    exact (hn.mono (Nat.min_le_right ..) fun hs => (Bool.and_eq_true_iff.mp hs).2) s k r h
  | some t =>
    rw [hfirst] at h
    exact (hm.mono (Nat.min_le_left ..) fun hs => (Bool.and_eq_true_iff.mp hs).1) s k r
      (hfirst.trans h)

theorem Takes.ifElse (hm : m.Takes least spares) (hn : n.Takes least' spares')
    (test : Scan → Bool) :
    Takes (min least least') (spares && spares') fun s k => if test s then m s k else n s k := by
  intro s k r h
  dsimp only at h
  split at h
  · exact (hm.mono (Nat.min_le_left ..) fun hs => (Bool.and_eq_true_iff.mp hs).1) s k r h
  · exact (hn.mono (Nat.min_le_right ..) fun hs => (Bool.and_eq_true_iff.mp hs).2) s k r h

theorem Takes.atomic (hm : m.Takes least spares) : (atomic m).Takes least spares := by
  intro s k r h
  unfold Matching.atomic at h
  split at h
  · cases h
  · rename_i t ht
    obtain ⟨hle, hkeep⟩ := hm.of_eq_some ht
    exact ⟨t, hle, hkeep, h⟩

theorem Takes.times (hm : m.Takes least spares) (count : Nat) :
    (times m count).Takes (count * least) spares := by
  induction count with
  | zero => exact takes_skip.mono (by omega) fun _ => rfl
  | succ count ih =>
    refine (hm.andThen ih).mono ?_ fun hs => by rw [hs]; rfl
    rw [Nat.succ_mul]
    omega

end Matching

/-! ### What loops and assertions consume -/

namespace Scan

variable {s t : Scan} {spares : Bool}

/-- A scan is not to the left of another one, and has what that has captured for the first
group if the group is spared. -/
def Spares (spares : Bool) (s t : Scan) : Prop :=
  s.offset ≤ t.offset ∧ (spares = true → t.captures.head? = s.captures.head?)

theorem composes_spares (spares : Bool) : Composes (Spares spares) where
  refl := fun _ => ⟨Nat.le_refl _, fun _ => rfl⟩
  trans := fun h h' => ⟨Nat.le_trans h.1 h'.1, fun hs => (h'.2 hs).trans (h.2 hs)⟩

/-- Going back changes no captures. -/
theorem captures_of_back? {count : Nat} (h : s.back? count = some t) :
    t.captures = s.captures := by
  induction count generalizing s with
  | zero =>
    cases h
    rfl
  | succ count ih =>
    rw [back?] at h
    split at h
    · cases h
    · have hcaptures := ih h
      exact hcaptures

/-- A step over a character that passes a test. -/
theorem step?_eq_some {test : Char → Bool} (h : s.step? test = some t) :
    t.offset = s.offset + 1 ∧ t.captures = s.captures := by
  unfold step? at h
  split at h
  · cases h
  · split at h
    · cases h
      exact ⟨rfl, rfl⟩
    · cases h

theorem spares_of_step? {test : Char → Bool} (h : s.step? test = some t) : s.Spares spares t := by
  obtain ⟨hoffset, hcaptures⟩ := step?_eq_some h
  exact ⟨by omega, fun _ => by rw [hcaptures]⟩

/-- A look ahead or behind spares the first group if what is looked for does. -/
theorem head?_glance {m : Matching} (hm : m.Along (Spares spares)) (hspares : spares = true)
    {behind : Option Nat} (h : Matching.glance m behind s = some t) :
    t.captures.head? = s.captures.head? := by
  cases behind with
  | none => exact (hm.of_eq_some h).2 hspares
  | some width =>
    obtain ⟨u, hu, ht⟩ := Option.bind_eq_some_iff.mp h
    rw [(hm.of_eq_some ht).2 hspares, captures_of_back? hu]

end Scan

namespace Matching

variable {m n : Matching} {least : Nat} {spares : Bool}

/-- What takes nothing for certain may still spare the first group. -/
theorem takes_zero_iff : m.Takes 0 spares ↔ m.Along (Scan.Spares spares) := by
  constructor
  · intro hm s k r h
    obtain ⟨t, hle, hkeep, hk⟩ := hm s k r h
    exact ⟨t, ⟨hle, hkeep⟩, hk⟩
  · intro hm s k r h
    obtain ⟨t, ⟨hle, hkeep⟩, hk⟩ := hm s k r h
    exact ⟨t, hle, hkeep, hk⟩

/-- Whatever a way of matching takes, it advances and may spare the first group. -/
theorem Takes.along (hm : m.Takes least spares) : m.Along (Scan.Spares spares) :=
  takes_zero_iff.mp (hm.mono (Nat.zero_le _) fun hs => hs)

theorem Takes.repeated (hm : m.Takes least spares) (greed : Greed) (count : Nat)
    (most : Option Nat) : (repeated m greed count most).Takes (count * least) spares := by
  have hR := Scan.composes_spares spares
  have hjoin {n : Matching} (hn : n.Along (Scan.Spares spares)) {o : Matching}
      (ho : o.Takes (count * least) spares) :
      Takes (count * least) spares fun s k => o s fun s => n s k :=
    (ho.andThen (takes_zero_iff.mpr hn)).mono (Nat.le_refl _) fun hs => by rw [hs]; rfl
  cases greed with
  | greedy => exact hjoin (fun t => hm.along.greedily hR _ _ t) (hm.times count)
  | lazy => exact hjoin (fun t => hm.along.lazily hR _ _ t) (hm.times count)
  | possessive => exact hjoin (fun t => hm.along.possessively hR _ _ t) (hm.atomic.times count)

theorem Takes.look (hm : m.Takes least spares) (behind : Option Nat) (negated : Bool) :
    (look m behind negated).Takes 0 spares := by
  rw [takes_zero_iff]
  refine Along.look (Scan.composes_spares spares) behind negated fun _ s t hfound => ?_
  refine ⟨Nat.le_refl _, fun hspares => ?_⟩
  have hsame := Scan.head?_glance hm.along hspares hfound
  exact hsame

end Matching

/-- **A tree takes as many characters as it says**, and spares the first group
if it says so. -/
theorem Tree.takes_run (flags : Flags) (t : Tree) : (t.run flags).Takes t.least t.spares := by
  induction t generalizing flags with
  | empty => exact Matching.takes_skip
  | any | set =>
    intro s k r h
    obtain ⟨u, hu, hk⟩ := Option.bind_eq_some_iff.mp h
    obtain ⟨hoffset, hcaptures⟩ := Scan.step?_eq_some hu
    exact ⟨u, Nat.le_of_eq hoffset.symm, fun _ => by rw [hcaptures], hk⟩
  | anchor a =>
    intro s k r h
    unfold Tree.run at h
    split at h
    · exact Matching.takes_skip s k r h
    · cases h
  | reference index =>
    intro s k r h
    unfold Tree.run at h
    split at h
    · cases h
    · obtain ⟨u, hu, hk⟩ := Option.bind_eq_some_iff.mp h
      obtain ⟨hle, hkeep⟩ := Matching.along_steps? (Scan.composes_spares true)
        (fun _ _ _ => Scan.spares_of_step?) hu
      exact ⟨u, hle, hkeep, hk⟩
  | seq first second ih₁ ih₂ => exact (ih₁ flags).andThen (ih₂ flags)
  | alt first second ih₁ ih₂ => exact (ih₁ flags).orElse (ih₂ flags)
  | group index body ih =>
    intro s k r h
    obtain ⟨u, hle, hkeep, hk⟩ := ih flags s _ r h
    refine ⟨u.capture index s, hle, fun hs => ?_, hk⟩
    rw [Tree.spares, Bool.and_eq_true, decide_eq_true_eq] at hs
    rw [← hkeep hs.2, Scan.capture, List.head?_eq_getElem?, List.head?_eq_getElem?,
      List.getElem?_set_ne (by omega)]
  | look behind negated body ih => exact (ih flags).look behind negated
  | atomic body ih => exact (ih flags).atomic
  | under change body ih => exact ih (flags.change change)
  | conditional index captured otherwise ih₁ ih₂ => exact (ih₁ flags).ifElse (ih₂ flags) _
  | rep greed count most body ih => exact (ih flags).repeated greed count most

/-! ### Patterns that never match nothing -/

/-- Whether it can be seen of a tree that its matches are not empty, also when
the first capture is taken away from their front. -/
def Tree.isSolid : (lookbehind : Bool) → Tree → Bool
  | false, t => 1 ≤ t.least
  | true, .seq (.group 1 _) rest => 1 ≤ rest.least && rest.spares
  | true, _ => false

variable {p : Pattern} {text : Text} {offset : Nat}

/-- What a hit says about the run of the tree that made it. -/
theorem at?_eq_some {hit : Hit} (h : p.at? text offset = some hit) :
    ∃ t, p.tree.run p.flags ⟨(text.take offset).reverse, text.drop offset, offset,
      List.replicate p.groups none⟩ some = some t ∧ hit = ⟨offset, t.offset, t.captures⟩ := by
  obtain ⟨t, ht, rfl⟩ := Option.map_eq_some_iff.mp h
  exact ⟨t, ht, rfl⟩

/-- The context in front of a match is shorter than the match. -/
theorem context_lt_of_isSolid {first rest : Tree} {hit : Hit}
    (htree : p.tree = .seq (.group 1 first) rest) (hleast : 1 ≤ rest.least)
    (hspares : rest.spares = true) (hoffset : offset ≤ text.length)
    (h : p.at? text offset = some hit) :
    ((hit.captures.head?.join).getD []).length < hit.stop - hit.start := by
  obtain ⟨t, ht, rfl⟩ := at?_eq_some h
  rw [htree] at ht
  obtain ⟨u, hu, hle, hk⟩ :=
    Tree.onward_run text p.flags first _ _ _ (scan_in hoffset p.groups) ht
  obtain ⟨hlt, hkeep⟩ := (Tree.takes_run p.flags rest).of_eq_some hk
  have hlt : u.offset + rest.least ≤ t.offset := hlt
  dsimp only at hle ⊢
  rw [hkeep hspares]
  -- What the first group has captured is what it has consumed.
  have hcontext : (((u.captures.set 0 (some ((text.drop offset).take (u.offset - offset)))).head?
      |>.join).getD []).length ≤ u.offset - offset := by
    cases u.captures with
    | nil => exact Nat.zero_le _
    | cons c captures => exact List.length_take_le ..
  exact Nat.lt_of_le_of_lt hcontext (by omega)

/-- **A solid pattern leaves a rule no empty match.** -/
theorem text_ne_nil_of_find? {lookbehind : Bool} (hsolid : p.tree.isSolid lookbehind = true)
    {m : Match} (hoffset : offset ≤ text.length) (h : p.find? text offset lookbehind = some m) :
    m.text ≠ [] := by
  obtain ⟨hit, context, hhit, rfl, rfl⟩ := find?_eq_some h
  have hat := (at?_of_search? hoffset hhit).1
  obtain ⟨-, -, hstop, -⟩ := search?_bounds hhit
  refine List.ne_nil_of_length_pos ?_
  dsimp only
  rw [List.length_drop, Text.length_slice, Nat.min_eq_left hstop]
  unfold Tree.isSolid at hsolid
  split at hsolid
  · rw [decide_eq_true_eq] at hsolid
    obtain ⟨t, ht, heq⟩ := at?_eq_some hat
    have htakes := ((Tree.takes_run p.flags p.tree).of_eq_some ht).1
    have hend : hit.stop = t.offset := congrArg Hit.stop heq
    dsimp only at htakes
    simp only [Bool.false_eq_true, if_false, List.length_nil]
    omega
  · rename_i first rest htree
    rw [Bool.and_eq_true, decide_eq_true_eq] at hsolid
    have hstart : hit.start ≤ text.length := by
      have := (search?_bounds hhit).2.1
      omega
    have := context_lt_of_isSolid htree hsolid.1 hsolid.2 hstart hat
    rw [if_pos rfl]
    omega
  · cases hsolid

end Pattern
end Highlight
