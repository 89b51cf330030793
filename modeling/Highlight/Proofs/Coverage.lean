/-
# The chunks of a text make up the text

Whatever a grammar holds, the chunks that a run returns join to the text it was
given, and every token among them, however deeply nested, is as long as its
text (`tokenize_covers`).

Lengths are what the tokenizer counts by: it finds the chunk of an offset by
adding up lengths, and cuts what a match covers out of the text between two
such sums.  So that the chunks join to the text and that tokens are as long as
their texts is one invariant (`Cuts`): if the lengths are right then so are the
sums, what a cut covers is the text of the chunks that it takes away
(`segment_eq`), and what it puts in their place joins to the same.
-/

import Highlight.Proofs.Tape.Leading
import Highlight.Proofs.Tape.Refinement
import Mathlib.Algebra.Ring.Int.Defs

namespace Highlight

open Chunk RunM

/-! ### Tokens that are as long as their texts -/

namespace Chunk

/-- Every token among some chunks, at every depth, is as long as its text. -/
def Faithful (cs : List Chunk) : Prop :=
  ∀ t ∈ tokensOf cs, t.length = t.text.length

variable {cs ds : List Chunk} {c : Chunk}

theorem faithful_append : Faithful (cs ++ ds) ↔ Faithful cs ∧ Faithful ds := by
  simp only [Faithful, tokensOf_append, List.mem_append, or_imp, forall_and]

theorem faithful_cons : Faithful (c :: cs) ↔ Faithful [c] ∧ Faithful cs := by
  rw [← List.singleton_append, faithful_append]

theorem faithful_plain (text : Text) : Faithful [.plain text] := by
  intro t ht
  cases ht

/-- There is no token in plain text. -/
@[simp] theorem tokensOf_ofText (text : Text) : tokensOf (ofText text) = [] := by
  unfold ofText
  split <;> rfl

theorem faithful_ofText (text : Text) : Faithful (ofText text) := by
  rw [Faithful, tokensOf_ofText]
  nofun

/-- A chunk is as long as its text if its tokens are. -/
theorem length_eq_of_faithful (h : Faithful [c]) : c.length = c.text.length := by
  cases c with
  | plain text => rfl
  | leaf tag text => exact h _ (by simp [tokensOf, tokens])
  | node tag parts => exact h _ (by simp [tokensOf, tokens])

/-- Chunks together are as long as their text if their tokens are. -/
theorem sum_length_of_faithful (h : Faithful cs) :
    (cs.map Chunk.length).sum = (textOf cs).length := by
  induction cs with
  | nil => rfl
  | cons c cs ih =>
    obtain ⟨hc, hcs⟩ := faithful_cons.mp h
    rw [List.map_cons, List.sum_cons, ih hcs, length_eq_of_faithful hc, textOf, List.length_append,
      Int.natCast_add]

/-- Chunks cover as many characters as their text has if their tokens do. -/
theorem extents_of_faithful (h : Faithful cs) : extents cs = (textOf cs).length := by
  induction cs with
  | nil => rfl
  | cons c cs ih =>
    obtain ⟨hc, hcs⟩ := faithful_cons.mp h
    rw [extents_cons, ih hcs, extent, length_eq_of_faithful hc, Int.toNat_natCast, textOf,
      List.length_append]

mutual

/-- The tokens of a token among those of a chunk are among those of the
chunk. -/
theorem tokensOf_subset_tokens {tag : Tag} {parts : List Chunk} :
    ∀ {c : Chunk}, .node tag parts ∈ c.tokens → tokensOf parts ⊆ c.tokens
  | .plain _, h => nomatch h
  | .leaf _ _, h => by
    rw [tokens, List.mem_singleton] at h
    cases h
  | .node _ _, h => by
    rw [tokens, List.mem_cons] at h
    rw [tokens]
    rcases h with h | h
    · cases h
      exact List.subset_cons_self ..
    · exact List.Subset.trans (tokensOf_subset h) (List.subset_cons_self ..)

/-- The tokens of a token among those of some chunks are among those of the
chunks. -/
theorem tokensOf_subset {tag : Tag} {parts : List Chunk} :
    ∀ {cs : List Chunk}, .node tag parts ∈ tokensOf cs → tokensOf parts ⊆ tokensOf cs
  | [], h => nomatch h
  | _ :: _, h => by
    rw [tokensOf, List.mem_append] at h
    rw [tokensOf]
    rcases h with h | h
    · exact List.Subset.trans (tokensOf_subset_tokens h) (List.subset_append_left ..)
    · exact List.Subset.trans (tokensOf_subset h) (List.subset_append_right ..)

end

@[simp] theorem textOf_ofText (text : Text) : textOf (ofText text) = text := by
  unfold ofText
  split
  · simp_all [textOf]
  · simp [textOf, Chunk.text]

end Chunk

/-! ### Chunks that cut a text -/

/-- Some chunks cut a text: they join to it, and their tokens are as long as
their texts. -/
structure Cuts (text : Text) (cs : List Chunk) : Prop where
  textOf_eq : textOf cs = text
  faithful : Faithful cs

namespace Cuts

variable {text more : Text} {cs ds : List Chunk}

theorem append (h : Cuts text cs) (h' : Cuts more ds) : Cuts (text ++ more) (cs ++ ds) where
  textOf_eq := by rw [textOf_append, h.textOf_eq, h'.textOf_eq]
  faithful := faithful_append.mpr ⟨h.faithful, h'.faithful⟩

theorem ofText (text : Text) : Cuts text (ofText text) :=
  ⟨textOf_ofText text, faithful_ofText text⟩

theorem plain (text : Text) : Cuts text [.plain text] :=
  ⟨by simp [textOf, Chunk.text], faithful_plain text⟩

/-- The token of a matched text cuts it. -/
theorem leaf (clause : Clause) (matched : Text) :
    Cuts matched [.leaf (clause.tag matched) matched] where
  textOf_eq := by simp [textOf, Chunk.text]
  faithful := fun t ht => by
    rw [tokensOf, tokens, tokensOf, List.append_nil, List.mem_singleton] at ht
    subst ht
    rfl

/-- The token of a matched text cuts it, if its parts do. -/
theorem node (h : Cuts text cs) (clause : Clause) :
    Cuts text [.node (clause.tag text) cs] where
  textOf_eq := by simp [textOf, Chunk.text, h.textOf_eq]
  faithful := fun t ht => by
    rw [tokensOf, tokens, tokensOf, List.append_nil, List.mem_cons] at ht
    rcases ht with rfl | ht
    · rw [Chunk.text, h.textOf_eq]
      rfl
    · exact h.faithful t ht

/-- What comes later among the chunks cuts what comes later in the text. -/
theorem drop {start : Nat} (h : Cuts (text.drop start) (cs ++ ds)) :
    Cuts (text.drop (start + extents cs)) ds := by
  obtain ⟨htext, hfaithful⟩ := h
  rw [faithful_append] at hfaithful
  rw [textOf_append] at htext
  refine ⟨?_, hfaithful.2⟩
  rw [← List.drop_drop, ← htext, extents_of_faithful hfaithful.1, List.drop_left]

/-- The text of some chunks in the middle is a slice of the text. -/
theorem slice {start : Nat} (h : Cuts (text.drop start) (cs ++ ds)) :
    textOf cs = text.slice start (start + extents cs) := by
  obtain ⟨htext, hfaithful⟩ := h
  rw [faithful_append] at hfaithful
  rw [textOf_append] at htext
  rw [Text.slice, extents_of_faithful hfaithful.1, List.drop_take, Nat.add_sub_cancel_left,
    ← htext, List.take_left]

/-- Chunks that cut the same text may stand for each other. -/
theorem swap {cs' ds' : List Chunk} (h : Cuts text (cs ++ (ds ++ cs'))) (hds : Cuts more ds)
    (hds' : Cuts more ds') : Cuts text (cs ++ (ds' ++ cs')) := by
  obtain ⟨htext, hfaithful⟩ := h
  simp only [faithful_append] at hfaithful
  refine ⟨?_, ?_⟩
  · rw [← htext]
    simp only [textOf_append, hds.textOf_eq, hds'.textOf_eq]
  · simp only [faithful_append]
    exact ⟨hfaithful.1, hds'.faithful, hfaithful.2.2⟩

end Cuts

/-! ### Sweeps that cut a text -/

/-- The chunks of a sweep cut the text from its offset on. -/
def Strip.Cuts (s : Strip) (chunks : List Chunk) : Prop :=
  Highlight.Cuts (s.text.drop s.offset) chunks

/-- A way of going deeper on which sweeps cut the text if they start so. -/
def Strip.Cutting (enter : Strip.Enter) : Prop :=
  ∀ s : Strip, s.Covers → Triple (fun _ => s.Cuts s.chunks) (enter s)
    (fun swept _ => s.Cuts swept.chunks) fun _ _ => True

variable {enter : Strip.Enter} {limits : Limits} {clause : Clause}

/-- The chunks of a text cut it, if sweeps do. -/
theorem chunksOf_cuts (henter : Strip.Cutting enter) (nested : Bool) (text : Text) (ref : Ref) :
    Triple (fun _ => True) (Strip.chunksOf enter nested text ref) (fun cs _ => Cuts text cs)
      fun _ _ => True := by
  refine Strip.chunksOf_triple (.intro _) (fun _ _ _ _ => trivial) ?_ ?_
  · rintro _ _ rfl _
    exact .ofText []
  · intro resolution htext
    exact (henter ⟨text, resolution.clauses, 0, [.plain text], 0, none⟩ (.whole ..)).imp
      (fun _ _ => .plain text) (fun _ _ h => h) fun _ _ h => h

/-- A token cuts the matched text, if sweeps do. -/
theorem tokenOf_cuts (henter : Strip.Cutting enter) (matched : Text) :
    Triple (fun _ => True) (Strip.tokenOf enter clause matched)
      (fun token _ => Cuts matched [token]) fun _ _ => True :=
  Strip.tokenOf_triple (fun _ _ _ => .leaf clause matched) fun id _ =>
    (chunksOf_cuts henter true matched (.grammar id)).post fun _ _ hparts => hparts.node clause

/-- What a cut covers is the text of the chunks that it takes away. -/
theorem Tape.segment_eq {text chunk : Text} {t : Tape} {skipped covered rest more : List Chunk}
    {cut : Cut} (hcuts : Cuts (text.drop t.offset) t.ahead)
    (hahead : t.ahead = .plain chunk :: more)
    (h : Chosen text clause t chunk more (.cut skipped covered rest cut)) :
    cut.segment = textOf covered := by
  cases h with
  | some m => simp [textOf, Chunk.text]
  | greedy _ h =>
    cases h with
    | inPlain m skipped rest more chunk _ _ hahead =>
      rw [hahead] at hcuts
      exact hcuts.drop.slice.symm

/-- What a cut leaves cuts the same text. -/
theorem Cuts.replace {text : Text} {cut : Cut} {passed covered rest : List Chunk} {token : Chunk}
    (h : Cuts text (passed ++ (covered ++ rest))) (hsegment : cut.segment = textOf covered)
    (hfits : cut.Fits covered) (htoken : Cuts cut.matched [token]) :
    Cuts text (passed ++ Chunk.ofText cut.before ++ Tape.leftover cut token rest) := by
  have hcovered : Cuts cut.segment covered := by
    refine ⟨hsegment.symm, ?_⟩
    have := h.faithful
    simp only [faithful_append] at this
    exact this.2.1
  have hnew : Cuts cut.segment
      (Chunk.ofText cut.before ++ ([token] ++ Chunk.ofText cut.after)) := by
    rw [← hfits.join]
    exact (Cuts.ofText _).append (htoken.append (.ofText _))
  have hswap := h.swap hcovered hnew
  simpa [Tape.leftover] using hswap

/-- The chunks ahead of a walk cut the text from its offset on. -/
theorem Strip.Cuts.ahead {s : Strip} {t : Tape} (h : s.Cuts (t.passed ++ t.ahead)) (hon : t.On s) :
    Highlight.Cuts (s.text.drop t.offset) t.ahead := by
  rw [← hon.covers.passed]
  exact Highlight.Cuts.drop h

/-- What a cut leaves to a rematch cuts the text from the token on. -/
theorem Strip.Cuts.leftover {s : Strip} {t : Tape} {covered rest : List Chunk} {cut : Cut}
    {token : Chunk} (h : s.Cuts (t.passed ++ t.ahead)) (hon : t.On s)
    (hahead : t.ahead = covered ++ rest) (hsegment : cut.segment = textOf covered)
    (hfits : cut.Fits covered) (htoken : Highlight.Cuts cut.matched [token]) :
    Highlight.Cuts (s.text.drop (t.offset + cut.before.length))
      (Tape.leftover cut token rest) := by
  rw [hahead] at h
  have hrest := (Highlight.Cuts.replace h hsegment hfits htoken).drop
  rwa [extents_append, extents_ofText, ← Nat.add_assoc, hon.covers.passed] at hrest

/-- A step leaves chunks that cut the text. -/
theorem step_cuts (hlead : Strip.Leading enter) (henter : Strip.Cutting enter) {s : Strip}
    {earlier : List Clause} {t : Tape} (hon : t.On s) (hcuts : s.Cuts (t.passed ++ t.ahead)) :
    Triple (fun _ => True) (t.step enter limits s.text s.base earlier clause)
      (fun next _ => ∀ t', next = some t' → s.Cuts (t'.passed ++ t'.ahead)) fun _ _ => True := by
  have hpass {skipped rest : List Chunk} (hahead : t.ahead = skipped ++ rest) :
      s.Cuts ((t.pass skipped rest).passed ++ (t.pass skipped rest).ahead) := by
    simpa [Tape.pass, hahead] using hcuts
  refine (Tape.step_keeps hon.covers.ahead (fun _ _ _ _ _ => trivial) (.intro _)
    (fun _ _ hahead => hpass hahead) ?_).post fun _ _ h => h.1
  intro chunk more skipped covered rest cut hplain hchosen hahead hfits
  have hsegment := Tape.segment_eq (hcuts.ahead hon) hplain hchosen
  have hon := hon.pass hahead
  have hcuts := hpass hahead
  -- What is in front of the token stays, so that a rematch has only to cut the rest.
  have hleft {token : Chunk} (htoken : Cuts cut.matched [token]) :
      s.Cuts (t.passed ++ skipped ++ ofText cut.before ++ Tape.leftover cut token rest) :=
    Cuts.replace hcuts hsegment hfits htoken
  refine hlead.replace_triple hon.covers rfl hfits (tokenOf_cuts henter cut.matched) ?_ ?_
  · intro _ token r _ _ htoken
    have := hleft htoken
    exact ⟨by simpa [Tape.resume, Tape.leftover, Tape.pass] using this, trivial⟩
  · intro _ token _ _ hrematch
    rintro r ⟨r₀, htoken, rfl⟩
    have hleft : s.Cuts (t.passed ++ skipped ++ ofText cut.before ++
        (Tape.leftover cut token rest ++ [])) := by
      simpa using hleft htoken
    have hrest := hcuts.leftover hon rfl hsegment hfits htoken
    refine ((henter _ hrematch).imp (fun _ (_ : True) => hrest) ?_ fun _ _ h => h) _ trivial
    rintro _ r hswept more reach rfl - -
    have hswap := Highlight.Cuts.swap hleft hrest hswept
    exact ⟨by simpa [Tape.resume, Tape.pass, Strip.Cuts] using hswap, trivial⟩

/-- **Sweeps cut the text** if those one recursion deeper do. -/
theorem run_cuts (hlead : Strip.Leading enter) (henter : Strip.Cutting enter) {s : Strip}
    (hs : s.Covers) :
    Triple (fun _ => s.Cuts s.chunks) (s.run Tape.step enter limits)
      (fun swept _ => s.Cuts swept.chunks) fun _ _ => True := by
  refine hlead.run_keeps hs (fun chunks _ => s.Cuts chunks) ?_
  intro earlier clause later _ t hon r hcuts
  exact (step_cuts hlead henter hon hcuts).post (fun _ _ h => ⟨fun _ => hcuts, h⟩) r trivial

/-- Every way of going deeper cuts the text. -/
theorem descend_cutting (limits : Limits) (levels depth : Nat) :
    Strip.Cutting (Strip.descend Tape.step limits levels depth) :=
  Strip.descend_triple (fun _ s _ => s.Cuts s.chunks) (fun _ s swept _ => s.Cuts swept.chunks)
    (fun _ _ _ => refuse_triple fun _ _ _ _ _ => trivial) (fun _ _ _ _ h => h)
    (fun _ _ hlead henter _ hs => run_cuts hlead henter hs) levels depth

/-- **The chunks of a text make up the text**, and every token is as long as
its text, which for a token with parts is the sum of the lengths of its parts.
No grammar, store or limit is left out. -/
theorem tokenize_covers {limits : Limits} {frames : Option Nat} {store : Store} {text : Text}
    {ref : Ref} {chunks : List Chunk}
    (h : (tokenize limits frames store text ref).result = .ok chunks) :
    textOf chunks = text ∧ ∀ t ∈ tokensOf chunks, t.length = t.text.length ∧
      ∀ tag parts, t = .node tag parts → t.length = (parts.map Chunk.length).sum := by
  have hcuts := chunksOf_cuts
    (descend_cutting limits (Tokenizer.levels limits frames) 0) false text ref
  have hend := tokenize_of_triple store hcuts trivial
  rw [h] at hend
  refine ⟨hend.textOf_eq, fun t ht => ⟨hend.faithful t ht, ?_⟩⟩
  rintro tag parts rfl
  have hparts : Faithful parts := fun t hmem => hend.faithful t (tokensOf_subset ht hmem)
  rw [hend.faithful _ ht, Chunk.text, sum_length_of_faithful hparts]

/-- A grammar whose strings run across the letters that it makes tokens of
first, and are cut further by a grammar of their own; and a sign that counts
only after another. -/
def quoting : Store where
  grammars := #[
    { entries := [
        ("letter", .single (.pattern (.source "b".toList))),
        ("string", .single (.rule {
          pattern := .expression (.source "'[^']*'".toList)
          greedy := true
          inside := some (.grammar 1) })),
        ("sign", .single (.rule {
          pattern := .expression (.source "(x)y".toList)
          lookbehind := true }))] },
    { entries := [("quote", .single (.pattern (.source "'".toList)))] }]

/-- What `quoting` makes of `a'b'bxy`. -/
def quoted : List Chunk :=
  [.plain "a".toList,
    .node { type := "string", length := 3 }
      [.leaf { type := "quote", length := 1 } "'".toList, .plain "b".toList,
        .leaf { type := "quote", length := 1 } "'".toList],
    .leaf { type := "letter", length := 1 } "b".toList, .plain "x".toList,
    .leaf { type := "sign", length := 1 } "y".toList]

/-- The string of `a'b'bxy` takes in a letter and is cut further, and what is
after it is offered to the rule for letters again. -/
theorem tokenize_quoting :
    (tokenize {} none quoting "a'b'bxy".toList (.grammar 0)).result = .ok quoted :=
  eq_ok_of_toOption (by decide +kernel)

theorem tokenize_covers_quoting :
    (tokenize {} none quoting "a'b'bxy".toList (.grammar 0)).result = .ok quoted ∧
      textOf quoted = "a'b'bxy".toList ∧ ∀ t ∈ tokensOf quoted, t.length = t.text.length ∧
        ∀ tag parts, t = .node tag parts → t.length = (parts.map Chunk.length).sum :=
  ⟨tokenize_quoting, tokenize_covers tokenize_quoting⟩

end Highlight
