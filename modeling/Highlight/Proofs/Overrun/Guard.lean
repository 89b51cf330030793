/-
# The check for too many chunks

The chunks of a walk may be more than the characters of its text only where
matches have been empty.  Each chunk that is not an empty token takes a
character of the text or more, because no plain chunk is empty (`Neat`); so the
chunks that are too many are no more than the tokens of no length among them
(`length_le_add_blanks`), in every step of every run.

With what is known of the number of chunks (`chunksOf_sparse`), and of runs where
no match is empty (`tokenize_filled`), that is all there is to the check
(`overrun_guard`): it is passed where no match is empty, it stops a run as soon
as there are one or two chunks too many, and what it lets through has one too
many at most.
-/

import Highlight.Proofs.Overrun.NonEmpty
import Highlight.Proofs.Overrun.Size
import Highlight.Proofs.Steps.Kept

namespace Highlight

open Buffer Chunk RunM

/-! ### Tokens of no length -/

namespace Chunk

/-- Whether a chunk is a token of no length. -/
def isBlank (c : Chunk) : Bool :=
  c.isToken && c.length == 0

/-- How many of some chunks are tokens of no length. -/
def blanks (cs : List Chunk) : Nat :=
  cs.countP isBlank

variable {cs : List Chunk} {c : Chunk}

/-- A chunk that is neither empty text nor a token of no length covers a
character. -/
theorem extent_pos (hfaithful : Faithful [c]) (hfull : ∀ text, c = .plain text → text ≠ [])
    (hblank : c.isBlank = false) : 0 < c.extent := by
  have hlength := length_eq_of_faithful hfaithful
  cases c with
  | plain text =>
    rw [extent_plain]
    exact List.length_pos_iff.mpr (hfull text rfl)
  | leaf tag text | node tag parts =>
    have hne : ¬ tag.length = 0 := by simpa [isBlank, isToken, length] using hblank
    rw [extent, Int.lt_toNat]
    rw [length] at hlength ⊢
    omega

/-- **Chunks are no more than the characters that they cover and the tokens of no
length among them.** -/
theorem length_le_add_blanks (hfaithful : Faithful cs)
    (hfull : ∀ text, .plain text ∈ cs → text ≠ []) : cs.length ≤ extents cs + blanks cs := by
  induction cs with
  | nil => exact Nat.zero_le _
  | cons c cs ih =>
    obtain ⟨hc, hcs⟩ := faithful_cons.mp hfaithful
    have hrest := ih hcs fun text htext => hfull text (List.mem_cons_of_mem c htext)
    have hfirst : 0 < c.extent ∨ c.isBlank = true := by
      cases hblank : c.isBlank with
      | true => exact Or.inr rfl
      | false =>
        refine Or.inl (extent_pos hc (fun text htext => hfull text ?_) hblank)
        rw [← htext]
        exact List.mem_cons_self
    rw [blanks, List.countP_cons, List.length_cons, extents_cons]
    rw [blanks] at hrest
    rcases hfirst with hpos | hblank
    · omega
    · rw [if_pos hblank]
      omega

end Chunk

/-- The chunks that a text is cut into are no more than its characters and the
tokens of no length among them. -/
theorem Neat.length_le {text : Text} {cs : List Chunk} (h : Neat text cs) :
    cs.length ≤ text.length + blanks cs := by
  have hle := length_le_add_blanks h.cuts.faithful h.tidy.full
  rwa [extents_of_faithful h.cuts.faithful, h.cuts.textOf_eq] at hle

/-! ### The check -/

/-- What a watch looks at that is after the check for too many chunks: whether a rule
that fails because of them reports how many chunks and characters there are, and those
that are too many are tokens of no length. -/
def guarding : Watch where
  around text clause w := ∀ limits r r' chunks length,
    (w.plan limits text clause).run r = .error (.overrun chunks length) r' →
      chunks = w.buffer.toList.length ∧ length = text.length ∧
        chunks - length ≤ blanks w.buffer.toList
  cut _ _ _ _ _ := True

theorem calm_guarding : guarding.Calm where
  around := by
    intro p clause w hat hneat limits r r' chunks length hfails
    have hreports := plan_triple limits clause hat r trivial
    rw [hfails] at hreports
    obtain ⟨rfl, rfl⟩ := hreports chunks length rfl
    obtain ⟨passed, ahead, h⟩ := hat
    have hsize : w.buffer.size = w.buffer.toList.length := by
      rw [h.lists.size_eq, h.lists.toList_eq, length_chunks]
    have hle := hneat.length_le
    exact ⟨hsize, rfl, by omega⟩
  cut := fun _ _ _ _ _ _ _ _ _ _ _ => trivial

/-- **What the check for too many chunks lets through and what it stops.**

A text, at any level and in any state of a run, is cut into no more chunks than it
has characters, and one, and so are the texts nested in it; and where this fails
because there are too many, there are one or two more than characters.

Whatever the alarm is, a run under watch is the run: in every step that fails because
there are too many chunks, as many of the chunks of its level as are too many are tokens
of no length.

So where no rule finds the empty text, in the grammar or in one that nests in it,
a run never fails because there are too many chunks, and all its tokens have a
positive length. -/
theorem overrun_guard (limits : Limits) (text : Text) (ref : Ref) :
    (∀ levels depth nested,
      Triple (fun _ => True)
        (chunksOf (Tokenizer.descend Walk.step limits levels depth) nested text ref)
        (fun chunks _ => chunks.length ≤ text.length + 1 ∧ Slim chunks) fun e _ => e.Narrow) ∧
    (∀ alarm frames, Tokenizer.runUnder guarding alarm limits frames text ref =
      Tokenizer.run limits frames text ref) ∧
    ∀ frames store, (∀ root, ref = .grammar root → store.FindsText root) →
      (∀ chunks, (tokenize limits frames store text ref).result = .ok chunks →
        ∀ t ∈ tokensOf chunks, 0 < t.length) ∧
      ∀ e, (tokenize limits frames store text ref).result = .error e → e.toClass ≠ .overrun := by
  refine ⟨fun levels depth nested => ?_,
    fun alarm frames => runUnder_eq calm_guarding alarm limits frames text ref,
    fun frames store hfinds => tokenize_filled hfinds⟩
  rw [chunksOf_eq (descend_simulates step_simulates limits levels depth)]
  exact chunksOf_sparse (descend_frugal limits levels depth) nested text ref

theorem overrun_guard_quoting :
    (∀ root, Ref.grammar 0 = .grammar root → quoting.FindsText root) ∧
      (tokenize {} none quoting "a'b'bxy".toList (.grammar 0)).result = .ok quoted ∧
      ∀ t ∈ tokensOf quoted, 0 < t.length := by
  have hfinds : ∀ root, Ref.grammar 0 = .grammar root → quoting.FindsText root :=
    fun root _ => Store.findsText_of_isSolid isSolid_quoting root
  obtain ⟨-, -, hfilled⟩ := overrun_guard {} "a'b'bxy".toList (.grammar 0)
  exact ⟨hfinds, tokenize_quoting, (hfilled none quoting hfinds).1 quoted tokenize_quoting⟩

/-- A grammar that finds nothing at the end of a text, and nothing again in front
of a letter. -/
def crowded : Store where
  grammars := #[
    { entries := [
        ("end", .single (.pattern (.source "$".toList))),
        ("middle", .single (.pattern (.source "(?=b)".toList)))] }]

/-- Two tokens of no length among the two characters of a text are two chunks too
many. -/
example :
    (tokenize {} none crowded "ab".toList (.grammar 0)).result = .error (.overrun 4 2) := by
  decide +kernel

end Highlight
