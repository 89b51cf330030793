/-
# Tokens are spared

A rule that is not greedy takes away one plain chunk and no token.  A greedy
rule takes tokens away only if its match begins in front of them, in a plain
chunk, and ends behind the place where they begin (`Walk.Spares`).  So a match
that begins inside a token, or to its right, does not alter it, and the first
token of a level, if nothing is in front of it, is there to stay.

This is so in every step of every run (`runUnder_sparing`).  What stays is
stated of cells, because a cell has a handle of its own: two tokens may be equal,
and empty ones may be at the same offset.
-/

import Highlight.Proofs.Steps.Kept

namespace Highlight

open Buffer Chunk

/-! ### What a step takes away -/

/-- What a step takes away and what it leaves, when a match of its rule becomes
a token: `removed` are the cells that the match covers, and begin at the place of
the walk; the cells `before` and `after` are what is left of their text.  The
offset of a cell is the number of characters in front of it, and the match begins
where the new token does. -/
structure Walk.Spares (clause : Clause) (w : Walk) (cut : Cut) (s : Spliced)
    (left removed right before after : List Cell) : Prop where
  lists : w.buffer.Lists (left ++ (removed ++ right))
  lists' : s.buffer.Lists (left ++ before ++ (s.handle, s.token) :: (after ++ right))
  handle_eq : w.handle = firstHandle (removed ++ right)
  length_eq : removed.length = cut.covered
  isToken : s.token.isToken = true
  plain : ∀ cell ∈ before ++ after, cell.2.isToken = false
  /-- A rule that is not greedy takes away one plain chunk. -/
  single : clause.rule.greedy = false → ∃ cell, removed = [cell] ∧ cell.2.isToken = false
  /-- The match of a greedy rule begins in the first of the chunks that it takes away, and
  that one is plain. -/
  inside : clause.rule.greedy = true → ∃ cell more, removed = cell :: more ∧
    cell.2.isToken = false ∧
    extents (chunks (left ++ before)) < extents (chunks (left ++ [cell]))
  /-- A token that is taken away begins behind the start of the match, and before its end. -/
  within : ∀ pre cell post, removed = pre ++ cell :: post → cell.2.isToken = true →
    clause.rule.greedy = true ∧
      extents (chunks (left ++ before)) < extents (chunks (left ++ pre)) ∧
      extents (chunks (left ++ pre)) < extents (chunks (left ++ before)) + s.token.extent
  /-- A token that begins where the match does, or to the left of it, stays where it is; so
  does one at the offset 0, where no match begins to the left of it. -/
  stays : ∀ pre cell post, left ++ (removed ++ right) = pre ++ cell :: post →
    cell.2.isToken = true → extents (chunks pre) ≤ extents (chunks (left ++ before)) →
    ∃ pre' post',
      left ++ before ++ (s.handle, s.token) :: (after ++ right) = pre' ++ cell :: post' ∧
      extents (chunks pre') = extents (chunks pre)

/-- What a watch looks at that is after the tokens that steps take away. -/
def sparing : Watch where
  around _ _ _ := True
  cut _ clause w cut s := ∃ left removed right before after,
    w.Spares clause cut s left removed right before after

/-! ### What is spared -/

/-- Plain text is no token. -/
theorem Chunk.isToken_of_mem_ofText {text : Text} {c : Chunk} (h : c ∈ ofText text) :
    c.isToken = false := by
  unfold ofText at h
  split at h
  · cases h
  · cases List.mem_singleton.mp h
    rfl

/-- An element of two lists is one of the first or one of the second. -/
theorem mem_cases_of_append {α : Type} {xs ys pre post : List α} {a : α}
    (h : xs ++ ys = pre ++ a :: post) :
    (∃ more, xs = pre ++ a :: more ∧ post = more ++ ys) ∨
      ∃ more, pre = xs ++ more ∧ ys = more ++ a :: post := by
  rcases List.append_eq_append_iff.mp h with ⟨more, hpre, hys⟩ | ⟨more, hxs, hpost⟩
  · exact Or.inr ⟨more, hpre, hys⟩
  · cases more with
    | nil => exact Or.inr ⟨[], by simpa using hxs.symm, hpost.symm⟩
    | cons first more =>
      cases hpost
      exact Or.inl ⟨more, hxs, rfl⟩

namespace Walk.Splices

variable {text : Text} {clause : Clause} {w : Walk} {cut : Cut} {s : Spliced}
  {left covered right before after : List Cell}

/-- What a cut puts in the place of some cells is as long as they are. -/
theorem extents_eq (h : w.Splices text clause cut s left covered right before after) :
    extents (chunks (before ++ (s.handle, s.token) :: after)) = extents (chunks covered) := by
  have hends := h.puts.extents_eq
  rw [chunks_append, extents_append, h.puts.extents_before, ← h.puts.fits.length_segment]
  exact hends

/-- **A token that begins where the match does, or to the left of it, stays where
it is.** -/
theorem stays (h : w.Splices text clause cut s left covered right before after)
    {pre post : List Cell} {cell : Cell}
    (hcells : left ++ (covered ++ right) = pre ++ cell :: post) (htoken : cell.2.isToken = true)
    (hle : extents (chunks pre) ≤ extents (chunks (left ++ before))) :
    ∃ pre' post',
      left ++ before ++ (s.handle, s.token) :: (after ++ right) = pre' ++ cell :: post' ∧
      extents (chunks pre') = extents (chunks pre) := by
  have hextents := h.extents_eq
  have hbefore := h.puts.extents_before
  rcases mem_cases_of_append hcells with ⟨more, rfl, -⟩ | ⟨more, rfl, hrest⟩
  · exact ⟨pre, more ++ before ++ (s.handle, s.token) :: (after ++ right), by simp, rfl⟩
  · rcases mem_cases_of_append hrest with ⟨more', hcovered, -⟩ | ⟨more', rfl, rfl⟩
    · obtain ⟨-, hlt, -⟩ := h.within hcovered htoken
      simp only [chunks_append, extents_append] at hle
      omega
    · refine ⟨left ++ (before ++ (s.handle, s.token) :: after) ++ more', post, by simp, ?_⟩
      simp only [chunks_append, extents_append] at hextents ⊢
      omega

/-- **A step spares tokens.** -/
theorem spares (h : w.Splices text clause cut s left covered right before after) :
    w.Spares clause cut s left covered right before after where
  lists := h.lists
  lists' := h.spliced
  handle_eq := h.handle_eq
  length_eq := by rw [h.puts.fits.covered_eq, length_chunks]
  isToken := h.puts.isToken
  plain := by
    intro cell hcell
    rcases List.mem_append.mp hcell with hcell | hcell
    · have hmem : cell.2 ∈ chunks before := List.mem_map_of_mem hcell
      rw [h.puts.before_eq] at hmem
      exact isToken_of_mem_ofText hmem
    · have hmem : cell.2 ∈ chunks after := List.mem_map_of_mem hcell
      rw [h.puts.after_eq] at hmem
      exact isToken_of_mem_ofText hmem
  single := by
    intro hgreedy
    obtain ⟨first, more, chunk, rfl, hfirst, -⟩ := h.first
    have hone := h.takes.single hgreedy
    rw [length_chunks, List.length_cons, Nat.add_eq_right, List.length_eq_zero_iff] at hone
    exact ⟨first, by rw [hone], by rw [hfirst]; rfl⟩
  inside := by
    intro hgreedy
    obtain ⟨first, more, chunk, rfl, hfirst, hinside⟩ := h.first
    refine ⟨first, more, rfl, by rw [hfirst]; rfl, ?_⟩
    have hlt := hinside hgreedy
    simp [h.puts.extents_before, hfirst, hlt]
  within := by
    intro pre cell post hcovered htoken
    have hwithin := h.within hcovered htoken
    simp only [chunks_append, extents_append, h.puts.extents_before]
    exact ⟨hwithin.1, by omega, by omega⟩
  stays := fun _ _ _ => h.stays

end Walk.Splices

theorem calm_sparing : sparing.Calm where
  around := fun _ _ _ _ _ => trivial
  cut := fun _ _ _ _ _ left covered right before after h =>
    ⟨left, covered, right, before, after, h.spares⟩

/-- **Tokens are spared in every step of every run**: whatever the alarm is, a
run under watch is the run. -/
theorem runUnder_sparing (alarm : Failure) (limits : Limits) (frames : Option Nat) (text : Text)
    (ref : Ref) :
    Tokenizer.runUnder sparing alarm limits frames text ref =
      Tokenizer.run limits frames text ref :=
  runUnder_eq calm_sparing alarm limits frames text ref

end Highlight
