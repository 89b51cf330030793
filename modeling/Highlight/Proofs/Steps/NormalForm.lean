/-
# The normal form of chunks

In every result no plain chunk is empty and no two plain chunks are next to each
other, at any depth.  The same holds of the chunks that a rule walks over, before
every step (`normal_form`).

It follows that a match with no text takes one chunk only.  If it took a second,
that would be a token, because two plain chunks are not next to each other; and
a token that is taken begins behind the start of the match and before its end
(`Walk.Splices.within`), and there is nothing between the two.  So no rematch
starts after a match with no text.
-/

import Highlight.Proofs.Steps.Kept

namespace Highlight

open Buffer Chunk

/-- What a watch looks at that is after the normal form: the chunks before each
step, and how many of them a match with no text takes. -/
def tidying : Watch where
  around _ _ w := Tidy w.buffer.toList
  cut _ _ _ cut _ := cut.matched = [] → cut.covered = 1

/-- **A match with no text takes one chunk.** -/
theorem Walk.Splices.covered_eq_one {text : Text} {clause : Clause} {w : Walk} {cut : Cut}
    {s : Spliced} {left covered right before after : List Cell}
    (h : w.Splices text clause cut s left covered right before after)
    (hmatched : cut.matched = []) : cut.covered = 1 := by
  obtain ⟨first, more, chunk, rfl, hfirst, -⟩ := h.first
  rw [h.puts.fits.covered_eq, length_chunks, List.length_cons]
  cases more with
  | nil => rfl
  | cons second more =>
    have htidy := h.neat.tidy
    rw [h.lists.toList_eq] at htidy
    simp only [chunks_append, chunks_cons, hfirst, List.cons_append] at htidy
    have htoken : second.2.isToken = true := htidy.isToken_after rfl
    have hcovered : first :: second :: more = [first] ++ second :: more := rfl
    obtain ⟨-, hfrom, hto⟩ := h.within hcovered htoken
    have hextent := h.puts.extent_eq
    rw [hmatched, List.length_nil] at hextent
    dsimp only at hextent
    omega

theorem calm_tidying : tidying.Calm where
  around := fun _ _ _ _ hneat => hneat.tidy
  cut := fun _ _ _ _ _ _ _ _ _ _ h => h.covered_eq_one

/-- **Chunks are in normal form**: those of a result, at every depth, and those
that a rule walks over, before every step of every run; and whatever the alarm
is, no match with no text takes more than one chunk. -/
theorem normal_form (limits : Limits) (frames : Option Nat) (text : Text) (ref : Ref) :
    (∀ store chunks, (tokenize limits frames store text ref).result = .ok chunks →
      Tidy chunks ∧ ∀ tag parts, .node tag parts ∈ tokensOf chunks → Tidy parts) ∧
    ∀ alarm, Tokenizer.runUnder tidying alarm limits frames text ref =
      Tokenizer.run limits frames text ref :=
  ⟨fun _ _ h => ⟨(tokenize_neat h).tidy, (tokenize_neat h).deep⟩,
    fun alarm => runUnder_eq calm_tidying alarm limits frames text ref⟩

theorem normal_form_quoting :
    (tokenize {} none quoting "a'b'bxy".toList (.grammar 0)).result = .ok quoted ∧
      Tidy quoted ∧ ∀ tag parts, .node tag parts ∈ tokensOf quoted → Tidy parts :=
  ⟨tokenize_quoting,
    (normal_form {} none "a'b'bxy".toList (.grammar 0)).1 quoting quoted tokenize_quoting⟩

end Highlight
