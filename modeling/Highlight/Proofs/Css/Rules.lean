/-
# The rules of CSS

The three grammars lead to nothing but each other, and what each resolves to
(`resolved`) can be looked at once and for all.  No match of any of their rules
is empty, and only at-rules and locations are cut further (`Sound`).

What an at-rule matches begins with an at sign and a name (`Opens`), and that is
what the grammar of at-rules looks for first (`find?_name`).
-/

import Highlight.Language.Css
import Highlight.Proofs.Pattern.Width
import Highlight.Tokenizer.Sweep

namespace Highlight
namespace Css

open Pattern

/-- What a grammar of the three resolves to.  It is too large to be unfolded by
anything but an evaluation. -/
@[irreducible] def resolved (id : GrammarId) : Resolution :=
  ((store.get? id).bind fun g => (store.resolveOne g).toOption).getD ⟨[], none⟩

/-! ### The rules -/

/-- The set of the at sign. -/
def atSign : CharSet where
  items := [.range 64 64]

/-- The set of what a name is made of. -/
def nameSign : CharSet where
  items := [.category .word false, .range 45 45]

/-- A text that begins with an at sign and a sign of a name. -/
def Opens (text : Text) : Prop :=
  ∃ c d rest, text = c :: d :: rest ∧ atSign.accepts plainFlags c = true ∧
    nameSign.accepts plainFlags d = true

/-- Whether a tree begins with an at sign and a sign of a name. -/
def opens : Tree → Bool
  | .seq (.set first) (.seq (.set second) _) => first = atSign && second = nameSign
  | _ => false

/-- Whether a rule is as the rules of the three grammars are: without empty
matches, and cut further as an at-rule, as a location or not at all. -/
def isSound (c : Clause) : Bool :=
  c.rule.pattern.tree.isSolid c.rule.lookbehind &&
    (c.rule.inside = none || c.rule.inside = some urlId ||
      (c.rule.inside = some atRuleId && !c.rule.lookbehind && c.rule.pattern.flags = plainFlags &&
        opens c.rule.pattern.tree))

/-- The numbers of the three grammars. -/
def ids : List GrammarId :=
  [sheetId, atRuleId, urlId]

theorem isSound_clauses :
    (ids.all fun id => (resolved id).clauses.all isSound) = true := by
  decide +kernel

/-- What the rules of the three grammars are like. -/
structure Sound (c : Clause) : Prop where
  ne_nil : ∀ {text offset m}, offset ≤ text.length →
    c.rule.pattern.find? text offset c.rule.lookbehind = some m → m.text ≠ []
  inside : ∀ {id}, c.rule.inside = some id → id = urlId ∨ id = atRuleId
  opens : c.rule.inside = some atRuleId → ∀ {text offset m}, offset ≤ text.length →
    c.rule.pattern.find? text offset c.rule.lookbehind = some m → Opens m.text

/-- What a step over a character says about the text. -/
theorem after_of_step? {s t : Scan} {test : Char → Bool} (h : s.step? test = some t) :
    ∃ c, s.after = c :: t.after ∧ test c = true := by
  unfold Scan.step? at h
  split at h
  · cases h
  · rename_i c rest hafter
    split at h
    · rename_i htest
      cases h
      exact ⟨c, hafter, htest⟩
    · cases h

/-- A match of a tree that begins with an at sign and a sign of a name begins
so. -/
theorem opens_of_at? {p : Pattern} (hflags : p.flags = plainFlags) (htree : opens p.tree = true)
    {text : Text} {offset : Nat} {hit : Hit} (h : p.at? text offset = some hit) :
    Opens ((text.drop offset).take (hit.stop - offset)) := by
  unfold opens at htree
  split at htree
  · rename_i first second rest htree'
    rw [Bool.and_eq_true, decide_eq_true_eq, decide_eq_true_eq] at htree
    obtain ⟨rfl, rfl⟩ := htree
    obtain ⟨t, ht, rfl⟩ := at?_eq_some h
    rw [htree', hflags] at ht
    obtain ⟨u, hu, hk⟩ := Option.bind_eq_some_iff.mp ht
    obtain ⟨v, hv, hk⟩ := Option.bind_eq_some_iff.mp hk
    obtain ⟨c, hc, hcat⟩ := after_of_step? hu
    obtain ⟨d, hd, hdname⟩ := after_of_step? hv
    have hu := (Scan.step?_eq_some hu).1
    have hv := (Scan.step?_eq_some hv).1
    have hlt := ((Tree.takes_run plainFlags rest).of_eq_some hk).1
    dsimp only at hc hu ⊢
    rw [hc, hd]
    obtain ⟨n, hn⟩ : ∃ n, t.offset - offset = n + 2 := ⟨t.offset - offset - 2, by omega⟩
    exact ⟨c, d, v.after.take n, by rw [hn]; rfl, hcat, hdname⟩
  · cases htree

/-- **The rules of the three grammars are sound.** -/
theorem sound_of_mem {id : GrammarId} (hid : id ∈ ids) {c : Clause}
    (hc : c ∈ (resolved id).clauses) : Sound c := by
  have hsound := List.all_eq_true.mp (List.all_eq_true.mp isSound_clauses id hid) c hc
  simp only [isSound, Bool.and_eq_true, Bool.or_eq_true, decide_eq_true_eq,
    Bool.not_eq_true'] at hsound
  obtain ⟨hsolid, hinside⟩ := hsound
  refine ⟨fun hoffset h => text_ne_nil_of_find? hsolid hoffset h, fun h => ?_, fun h => ?_⟩
  · rw [h] at hinside
    rcases hinside with (hinside | hinside) | hinside
    · cases hinside
    · exact Or.inl (Option.some.inj hinside)
    · exact Or.inr (Option.some.inj hinside.1.1.1)
  · rw [h] at hinside
    rcases hinside with (hinside | hinside) | hinside
    · cases hinside
    · cases hinside
    · obtain ⟨⟨⟨-, hlookbehind⟩, hflags⟩, htree⟩ := hinside
      intro text offset m hoffset hfind
      rw [hlookbehind] at hfind
      obtain ⟨hit, context, hhit, rfl, rfl⟩ := find?_eq_some hfind
      have hopens := opens_of_at? hflags htree (at?_of_search? hoffset hhit).1
      rw [← List.drop_take] at hopens
      exact hopens

/-! ### The name of an at-rule -/

theorem ruleName_mem_sources : (ruleName, plainFlags) ∈ sources := by
  simp [sources]

/-- The first rule of the grammar of at-rules, which looks for their names. -/
def nameClause : Clause where
  type := "rule"
  rule := { pattern := pattern ruleName plainFlags ruleName_mem_sources }

theorem head?_atRule : (resolved atRuleId).clauses.head? = some nameClause := by
  decide +kernel

theorem tree_nameClause : nameClause.rule.pattern.tree =
    .seq (.anchor .lineStart) (.seq (.set atSign) (.rep .greedy 1 none (.set nameSign))) := by
  decide +kernel

theorem flags_nameClause : nameClause.rule.pattern.flags = plainFlags := by
  decide +kernel

/-- Matching as often as possible never fails on its own. -/
theorem greedily_isSome (m : Matching) (fuel : Nat) (most : Option Nat) (s : Scan) :
    (Matching.greedily m fuel most s some).isSome = true := by
  cases fuel with
  | zero => rfl
  | succ fuel =>
    unfold Matching.greedily
    split
    · rfl
    · simp

/-- **The name of an at-rule is found** where a text begins with one. -/
theorem find?_name {text : Text} (h : Opens text) :
    ∃ m, nameClause.rule.pattern.find? text 0 nameClause.rule.lookbehind = some m ∧
      m.index = 0 ∧ 2 ≤ m.text.length := by
  obtain ⟨c, d, rest, rfl, hc, hd⟩ := h
  have hat : (nameClause.rule.pattern.at? (c :: d :: rest) 0).isSome = true := by
    unfold at? hitAt?
    rw [tree_nameClause, flags_nameClause, Option.isSome_map]
    simp only [Tree.run, Anchor.holds, Scan.step?, Matching.repeated, Matching.times, hc, hd,
      List.take_zero, List.drop_zero, List.reverse_nil, List.isEmpty_nil, Bool.true_or, if_true,
      Option.bind_some, greedily_isSome]
  obtain ⟨hit, hhit⟩ := Option.isSome_iff_exists.mp hat
  have hsearch := search?_of_at? (Nat.le_refl 0) (Nat.zero_le _) hhit fun s _ hs => nomatch hs
  obtain ⟨t, ht, rfl⟩ := at?_eq_some hhit
  have htakes := ((Tree.takes_run _ nameClause.rule.pattern.tree).of_eq_some ht).1
  have hleast : nameClause.rule.pattern.tree.least = 2 := by
    rw [tree_nameClause]
    rfl
  have hstop := (search?_bounds hsearch).2.2.1
  rw [show nameClause.rule.lookbehind = false from rfl]
  refine ⟨_, by rw [find?, hsearch], rfl, ?_⟩
  dsimp only at htakes hstop ⊢
  rw [List.length_drop, Text.length_slice, Nat.min_eq_left hstop]
  simp only [Bool.false_eq_true, if_false, List.length_nil]
  omega

end Css
end Highlight
