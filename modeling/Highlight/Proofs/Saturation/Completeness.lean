/-
# Nothing that a rule would claim is left over

A rule that is not greedy sees plain chunks only.  If its pattern is local, in
the sense that a match in a part of a text means a match in the text, no
further right, then no plain chunk of a result has a match of the rule
(`find?_eq_none_of_mem`): what a later greedy rule set free was offered to it
again.

A greedy rule sees the whole text, so it can match across the end of a plain
chunk.  No plain chunk of a result has the start of a match of it in the text
(`le_index_of_greedy`).

Both are instances of one statement about sweeps
(`Highlight.Proofs.Saturation.Sweep`), for two standards: no match in the text
of the chunk, and no match in the whole text at any of its offsets.
-/

import Highlight.Proofs.Saturation.Sweep

namespace Highlight

open Chunk

namespace Pattern

/-- A pattern is local if a match in a part of a text means a match in the
text, no further right. -/
def Local (p : Pattern) : Prop :=
  ∀ (text : Text) (start stop : Nat) (hit : Hit), start ≤ stop → stop ≤ text.length →
    p.search? (text.slice start stop) 0 = some hit →
    ∃ hit', p.search? text 0 = some hit' ∧ hit'.start ≤ start + hit.start

/-- No match of a pattern is empty. -/
def NeverEmpty (p : Pattern) : Prop :=
  ∀ text hit, p.search? text 0 = some hit → hit.start < hit.stop

end Pattern

/-! ### Rules that see plain chunks -/

/-- The standard of a rule that is not greedy: it finds nothing in the
chunk. -/
def Pattern.absent (p : Pattern) : Standard :=
  fun _ text => p.search? text 0 = none

/-- Where a local pattern finds nothing, it finds nothing in any part. -/
theorem Pattern.Local.absent_slice {p : Pattern} (h : p.Local) {text : Text} {start stop : Nat}
    (hle : start ≤ stop) (hlen : stop ≤ text.length) (hnone : p.search? text 0 = none) :
    p.search? (text.slice start stop) 0 = none := by
  cases hhit : p.search? (text.slice start stop) 0 with
  | none => rfl
  | some hit =>
    obtain ⟨hit', hhit', -⟩ := h text start stop hit hle hlen hhit
    rw [hnone] at hhit'
    cases hhit'

theorem Pattern.Local.hereditary {p : Pattern} (h : p.Local) : p.absent.Hereditary where
  left := by
    intro offset text more hnone
    have hslice : (text ++ more).slice 0 text.length = text := by
      simp [Text.slice]
    have := h.absent_slice (Nat.zero_le text.length) (by simp) hnone
    rwa [hslice] at this
  right := by
    intro offset text more hnone
    have hslice : (text ++ more).slice text.length (text ++ more).length = more := by
      rw [Text.slice, List.take_length, List.drop_left]
    have := h.absent_slice (show text.length ≤ (text ++ more).length by simp) (Nat.le_refl _) hnone
    rwa [hslice] at this

/-- In front of its first match a local pattern finds nothing, if its matches
are not empty. -/
theorem Pattern.Local.absent_before {p : Pattern} (h : p.Local) (hne : p.NeverEmpty) {text : Text}
    {hit : Hit} (hhit : p.search? text 0 = some hit) :
    p.search? (text.take hit.start) 0 = none := by
  cases hbefore : p.search? (text.take hit.start) 0 with
  | none => rfl
  | some found =>
    have hbounds := Pattern.search?_bounds hhit
    have hbounds' := Pattern.search?_bounds hbefore
    have hlt := hne _ _ hbefore
    have hslice : text.slice 0 hit.start = text.take hit.start := by
      simp [Text.slice]
    obtain ⟨hit', hhit', hle⟩ := h text 0 hit.start found (Nat.zero_le _) (by omega)
      (by rw [hslice, hbefore])
    rw [hhit] at hhit'
    cases hhit'
    rw [List.length_take] at hbounds'
    omega

/-- A match without context begins where the search found it. -/
theorem Pattern.index_of_find? {p : Pattern} {text : Text} {offset : Nat} {m : Match}
    (h : p.find? text offset false = some m) :
    ∃ hit, p.search? text offset = some hit ∧ m.index = hit.start := by
  obtain ⟨hit, context, hhit, rfl, rfl⟩ := Pattern.find?_eq_some h
  exact ⟨hit, hhit, rfl⟩

/-- A rule that is not greedy settles by what it does not find. -/
theorem Clause.settlesOwn_absent {rule : Clause} (hgreedy : rule.rule.greedy = false)
    (hlookbehind : rule.rule.lookbehind = false) (hlocal : rule.rule.pattern.Local)
    (hne : rule.rule.pattern.NeverEmpty) : rule.SettlesOwn fun _ => rule.rule.pattern.absent where
  hereditary := fun _ => hlocal.hereditary
  stop := by
    intro text chunk t rest _ _ h
    cases h with
    | greedy hgreedy' _ => simp [hgreedy] at hgreedy'
  pass := by
    intro text chunk t rest skipped rest' _ _ h
    cases h with
    | greedy hgreedy' _ => simp [hgreedy] at hgreedy'
    | none _ hnone =>
      refine ⟨?_, trivial⟩
      rintro _ ⟨⟩
      exact Pattern.find?_eq_none_iff.mp hnone
  cut := by
    intro text chunk t rest skipped covered rest' cut _ _ h
    cases h with
    | greedy hgreedy' _ => simp [hgreedy] at hgreedy'
    | some m _ hsome =>
      rw [hlookbehind] at hsome
      obtain ⟨hit, hhit, hindex⟩ := Pattern.index_of_find? hsome
      refine .ofText fun _ => ?_
      rw [Pattern.absent, Cut.before]
      dsimp only
      rw [hindex]
      exact hlocal.absent_before hne hhit

/-- **No plain chunk has a match of a rule that is not greedy**, if the pattern
of the rule is local and its matches are not empty, whatever the other rules
are. -/
theorem find?_eq_none_of_mem {limits : Limits} {frames : Option Nat} {store : Store}
    {text : Text} {ref : Ref} {resolution : Resolution} {chunks : List Chunk} {rule : Clause}
    (hresolve : (store.resolve ref).map (·.1) = .ok resolution)
    (hrule : rule ∈ resolution.clauses) (hgreedy : rule.rule.greedy = false)
    (hlookbehind : rule.rule.lookbehind = false) (hlocal : rule.rule.pattern.Local)
    (hne : rule.rule.pattern.NeverEmpty)
    (h : (tokenize limits frames store text ref).result = .ok chunks) :
    ∀ chunk, .plain chunk ∈ chunks → rule.rule.pattern.find? chunk 0 false = none := by
  intro chunk hmem
  have hown := Clause.settlesOwn_absent hgreedy hlookbehind hlocal hne
  obtain ⟨-, hsettled⟩ := tokenize_settled hown hresolve hrule h
  obtain ⟨before, behind, rfl⟩ := List.append_of_mem hmem
  exact Pattern.find?_eq_none_iff.mpr hsettled.plain

/-! ### A character is local -/

section CharSet

variable {p : Pattern} {chars : Pattern.CharSet} {text : Text} {s : Nat}

/-- A set of characters matches wherever a character of it stands. -/
theorem Pattern.at?_set (h : p.tree = .set chars) :
    p.at? text s = match text.drop s with
      | [] => none
      | c :: _ =>
        if chars.accepts p.flags c then some ⟨s, s + 1, List.replicate p.groups none⟩
        else none := by
  unfold at? hitAt?
  rw [h]
  simp only [Tree.run, Scan.step?]
  cases text.drop s with
  | nil => rfl
  | cons c rest =>
    dsimp only
    split <;> rfl

/-- A set of characters is local. -/
theorem Pattern.local_of_set (h : p.tree = .set chars) : p.Local := by
  intro text start stop hit hle hlen hhit
  obtain ⟨hat, -⟩ := at?_of_search? (Nat.zero_le _) hhit
  have hbounds := search?_bounds hhit
  rw [Text.length_slice] at hbounds
  have hsame : p.at? text (start + hit.start) ≠ none := by
    rw [at?_set h] at hat ⊢
    rw [Text.slice, List.drop_drop, List.drop_take] at hat
    split at hat
    · cases hat
    · rename_i c rest hdrop
      obtain ⟨more, hmore⟩ := List.take_prefix (stop - (start + hit.start))
        (text.drop (start + hit.start))
      rw [hdrop] at hmore
      rw [← hmore]
      split at hat
      · rename_i haccepts
        simp [haccepts]
      · cases hat
  cases hhit' : p.search? text 0 with
  | none =>
    exact absurd (at?_eq_none_of_search? (Nat.zero_le _) hhit' (Nat.zero_le _) (by omega)) hsame
  | some hit' =>
    refine ⟨hit', rfl, Nat.le_of_not_lt fun hlt => hsame ?_⟩
    exact (at?_of_search? (Nat.zero_le _) hhit').2 _ (Nat.zero_le _) hlt

/-- A set of characters matches a character. -/
theorem Pattern.neverEmpty_of_set (h : p.tree = .set chars) : p.NeverEmpty := by
  intro text hit hhit
  obtain ⟨hat, -⟩ := at?_of_search? (Nat.zero_le _) hhit
  rw [at?_set h] at hat
  split at hat
  · cases hat
  · split at hat
    · rw [← Option.some.inj hat]
      exact Nat.lt_succ_self _
    · cases hat

end CharSet

/-- What `quoting` resolves to. -/
def quotingResolved : Resolution :=
  ((quoting.resolve (.grammar 0)).map (·.1)).toOption.getD ⟨[], none⟩

theorem resolve_quoting :
    (quoting.resolve (.grammar 0)).map (·.1) = .ok quotingResolved :=
  eq_ok_of_toOption (by decide +kernel)

/-- The rule for letters of `quoting`. -/
def letterClause : Clause where
  type := "letter"
  rule := { pattern := { source := "b".toList, tree := .set { items := [.range 98 98] } } }

/-- No letter is left over in what `quoting` makes of `a'b'bxy`, although a
string takes one in and sets another free. -/
theorem find?_letter_eq_none :
    letterClause ∈ quotingResolved.clauses ∧ letterClause.rule.greedy = false ∧
      letterClause.rule.lookbehind = false ∧ letterClause.rule.pattern.Local ∧
      letterClause.rule.pattern.NeverEmpty ∧
      ∀ chunk, .plain chunk ∈ quoted → letterClause.rule.pattern.find? chunk 0 false = none := by
  have hmem : letterClause ∈ quotingResolved.clauses := by decide +kernel
  have hlocal := Pattern.local_of_set (p := letterClause.rule.pattern) rfl
  have hne := Pattern.neverEmpty_of_set (p := letterClause.rule.pattern) rfl
  exact ⟨hmem, rfl, rfl, hlocal, hne,
    find?_eq_none_of_mem resolve_quoting hmem rfl rfl hlocal hne tokenize_quoting⟩

/-! ### Rules that see the whole text -/

/-- The standard of a greedy rule: it matches at no offset of the chunk. -/
def Pattern.noStart (p : Pattern) (text : Text) : Standard :=
  fun offset chunk => ∀ s, offset ≤ s → s < offset + chunk.length → p.at? text s = none

theorem Pattern.hereditary_noStart (p : Pattern) (text : Text) : (p.noStart text).Hereditary where
  left := by
    intro offset chunk more h s hle hlt
    rw [noStart, List.length_append] at h
    exact h s hle (by omega)
  right := by
    intro offset chunk more h s hle hlt
    rw [noStart, List.length_append] at h
    exact h s (by omega) (by omega)

/-- Chunks are settled where no offset that they cover has a match. -/
theorem Pattern.settled_noStart {p : Pattern} {text : Text} {offset : Nat} {cs : List Chunk}
    (h : ∀ s, offset ≤ s → s < offset + extents cs → p.at? text s = none) :
    Settled (p.noStart text) offset cs := by
  induction cs generalizing offset with
  | nil => trivial
  | cons c cs ih =>
    rw [extents_cons] at h
    refine ⟨?_, ih fun s hle hlt => h s (by omega) (by omega)⟩
    rintro chunk rfl s hle hlt
    rw [extent_plain] at h
    exact h s hle (by omega)

/-- In front of what a search finds there is no match. -/
theorem Pattern.at?_eq_none_of_lt_index {p : Pattern} {text : Text} {offset : Nat} {m : Match}
    (hle : offset ≤ text.length) (h : p.find? text offset false = some m) {s : Nat}
    (hs : offset ≤ s) (hlt : s < m.index) : p.at? text s = none := by
  obtain ⟨hit, hhit, hindex⟩ := Pattern.index_of_find? h
  exact (Pattern.at?_of_search? hle hhit).2 s hs (hindex ▸ hlt)

/-- A greedy rule settles what is in front of the matches that it finds. -/
theorem Clause.settlesOwn_noStart {rule : Clause} (hgreedy : rule.rule.greedy = true)
    (hlookbehind : rule.rule.lookbehind = false) :
    rule.SettlesOwn rule.rule.pattern.noStart where
  hereditary := rule.rule.pattern.hereditary_noStart
  stop := by
    intro text chunk t rest _ hcover h
    have hle : t.offset ≤ text.length := by omega
    cases h with
    | greedy _ h =>
      rw [hlookbehind] at h
      cases h with
      | none hnone =>
        have hnone := Pattern.find?_eq_none_iff.mp hnone
        exact Pattern.settled_noStart fun s hs hlt =>
          Pattern.at?_eq_none_of_search? hle hnone hs (by omega)
      | beyond m hsome hindex =>
        exact Pattern.settled_noStart fun s hs hlt =>
          Pattern.at?_eq_none_of_lt_index hle hsome hs (by omega)
  pass := by
    intro text chunk t rest skipped rest' _ hcover h
    have hle : t.offset ≤ text.length := by omega
    cases h with
    | none hgreedy' _ => simp [hgreedy] at hgreedy'
    | greedy _ h =>
      rw [hlookbehind] at h
      cases h with
      | inToken m skipped rest token hsome _ _ htoken hfrom _ =>
        rw [Settled.append]
        exact ⟨Pattern.settled_noStart fun s hs hlt =>
          Pattern.at?_eq_none_of_lt_index hle hsome hs (by omega), .token htoken⟩
  cut := by
    intro text chunk t rest skipped covered rest' cut _ hcover h
    have hle : t.offset ≤ text.length := by omega
    cases h with
    | some m hgreedy' _ => simp [hgreedy] at hgreedy'
    | greedy _ h =>
      rw [hlookbehind] at h
      cases h with
      | inPlain m skipped rest more chunk hsome _ _ hfrom _ _ =>
        refine Pattern.settled_noStart fun s hs hlt =>
          Pattern.at?_eq_none_of_lt_index hle hsome hs ?_
        rw [extents_append, extents_ofText, Cut.before, List.length_take] at hlt
        dsimp only at hlt
        omega

/-- **No plain chunk has the start of a match of a greedy rule**: from the offset
of the chunk on, the rule finds nothing in the text, or something that begins
behind the chunk. -/
theorem le_index_of_greedy {limits : Limits} {frames : Option Nat} {store : Store}
    {text : Text} {ref : Ref} {resolution : Resolution} {chunks before behind : List Chunk}
    {chunk : Text} {rule : Clause}
    (hresolve : (store.resolve ref).map (·.1) = .ok resolution)
    (hrule : rule ∈ resolution.clauses) (hgreedy : rule.rule.greedy = true)
    (hlookbehind : rule.rule.lookbehind = false)
    (h : (tokenize limits frames store text ref).result = .ok chunks)
    (hchunks : chunks = before ++ .plain chunk :: behind) :
    ∀ m, rule.rule.pattern.find? text (textOf before).length false = some m →
      (textOf before).length + chunk.length ≤ m.index := by
  intro m hfound
  have hown := Clause.settlesOwn_noStart hgreedy hlookbehind
  obtain ⟨⟨htext, hfaithful⟩, hsettled⟩ := tokenize_settled hown hresolve hrule h
  subst hchunks
  have hplain := hsettled.plain
  rw [Nat.zero_add, extents_of_faithful (faithful_append.mp hfaithful).1] at hplain
  have hle : (textOf before).length ≤ text.length := by
    rw [← htext, textOf_append, List.length_append]
    omega
  obtain ⟨hit, hhit, hindex⟩ := Pattern.index_of_find? hfound
  have hat := (Pattern.at?_of_search? hle hhit).1
  have hfrom := (Pattern.search?_bounds hhit).1
  rw [hindex]
  refine Nat.le_of_not_lt fun hlt => ?_
  rw [hplain hit.start (by omega) hlt] at hat
  cases hat

/-- The rule for strings of `quoting`. -/
def stringClause : Clause where
  type := "string"
  rule := {
    pattern := {
      source := "'[^']*'".toList
      tree := .seq (.set { items := [.range 39 39] })
        (.seq (.rep .greedy 0 none (.set { negated := true, items := [.range 39 39] }))
          (.set { items := [.range 39 39] })) }
    greedy := true
    inside := some 1 }

/-- The first chunk that `quoting` makes of `a'b'bxy` ends where the string
begins. -/
theorem le_index_string :
    stringClause ∈ quotingResolved.clauses ∧ stringClause.rule.greedy = true ∧
      stringClause.rule.lookbehind = false ∧ quoted = [] ++ .plain "a".toList :: quoted.tail ∧
      (∃ m, stringClause.rule.pattern.find? "a'b'bxy".toList 0 false = some m) ∧
      ∀ m, stringClause.rule.pattern.find? "a'b'bxy".toList (textOf []).length false = some m →
        (textOf []).length + "a".toList.length ≤ m.index := by
  have hmem : stringClause ∈ quotingResolved.clauses := by decide +kernel
  have hfound : (stringClause.rule.pattern.find? "a'b'bxy".toList 0 false).isSome = true := by
    decide +kernel
  exact ⟨hmem, rfl, rfl, rfl, Option.isSome_iff_exists.mp hfound,
    le_index_of_greedy resolve_quoting hmem rfl rfl tokenize_quoting rfl⟩

end Highlight
