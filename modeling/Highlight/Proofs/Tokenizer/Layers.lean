/-
# Rules as layers

Without greedy rules a run can be told without handles, offsets and walks.  Each rule is
a layer: it goes through the chunks that the rules before it have left, keeps every token,
and splits every plain chunk (`Clause.split`) into what is before its first match, the
token of that match, and what it splits the rest into.  A run lays one rule over the other,
over the text as the only chunk (`layers`).

What is behind a match is the whole text again if the match is empty and at its start.  A
run over such a text comes to no result, and the split has none, either.  So the split is
partial, and so is what it makes of a nested text; the theorem says that wherever a run has
a result, the layers have it, too (`tokenize_layers`).

The walk of a rule goes from left to right.  What is shown of each of its steps is that
the rule makes the same of all chunks as of those ahead, put behind those that have been
passed (`Walks`).  At the end nothing is ahead.
-/

import Highlight.Proofs.Provenance
import Highlight.Proofs.Saturation.Sweep
import Highlight.Proofs.Steps.Tidy

namespace Highlight

open Chunk RunM

/-! ### Layers -/

namespace Clause

/-- The token that a rule makes of a matched text, if the nested grammar, where it names
one, makes something of that text. -/
def token? (limits : Limits) (frames : Option Nat) (store : Store) (clause : Clause)
    (matched : Text) : Option Chunk :=
  match clause.rule.inside with
  | none => some (.leaf (clause.tag matched) matched)
  | some id =>
    Chunk.node (clause.tag matched) <$>
      (tokenize limits frames store matched (.grammar id)).result.toOption

/-- What a rule splits a plain text into: what is before its first match, the token of the
match, and what it splits the rest into.  It makes nothing of a text at whose start it
matches nothing: the rest would be the same text. -/
def split (make : Clause → Text → Option Chunk) (clause : Clause) (text : Text) :
    Option (List Chunk) :=
  if text = [] then some []
  else
    match clause.rule.pattern.find? text 0 clause.rule.lookbehind with
    | none => some [.plain text]
    | some m =>
      if 0 < m.index + m.text.length then do
        let token ← make clause m.text
        let more ← split make clause (text.drop (m.index + m.text.length))
        return ofText (text.take m.index) ++ token :: more
      else none
termination_by text.length
decreasing_by
  rename_i htext hgoes
  rw [List.length_drop]
  exact Nat.sub_lt (List.length_pos_iff.mpr htext) hgoes

/-- What a rule makes of some chunks: it splits the plain ones and keeps the tokens. -/
def layer (make : Clause → Text → Option Chunk) (clause : Clause) :
    List Chunk → Option (List Chunk)
  | [] => some []
  | .plain text :: cs => do
    let parts ← clause.split make text
    let more ← clause.layer make cs
    return parts ++ more
  | token :: cs => do
    let more ← clause.layer make cs
    return token :: more

end Clause

/-- What rules make of a text, one after the other. -/
def layers (make : Clause → Text → Option Chunk) (clauses : List Clause) (text : Text) :
    Option (List Chunk) :=
  clauses.foldlM (fun cs clause => clause.layer make cs) [.plain text]

section Layer

variable {limits : Limits} {frames : Option Nat} {store : Store}
  {make : Clause → Text → Option Chunk} {clause : Clause} {text matched : Text}
  {cs more : List Chunk} {token : Chunk}

/-- A token that holds what its rule makes of a text is the one that the rule makes. -/
theorem Clause.Holds.token?_eq (h : clause.Holds limits frames store matched token) :
    clause.token? limits frames store matched = some token := by
  unfold token?
  cases h with
  | leaf hinside => rw [hinside]
  | node id parts hinside hparts =>
    rw [hinside]
    dsimp only
    rw [hparts.1]
    rfl

@[simp] theorem Clause.split_nil : clause.split make [] = some [] := by
  rw [split, if_pos rfl]

/-- A text without a match stays as it is. -/
theorem Clause.split_of_none (htext : text ≠ [])
    (h : clause.rule.pattern.find? text 0 clause.rule.lookbehind = none) :
    clause.split make text = some [.plain text] := by
  rw [split, if_neg htext, h]

/-- A text with a match is split there, if what is behind the match can be. -/
theorem Clause.split_of_some {m : Match} (htext : text ≠ [])
    (h : clause.rule.pattern.find? text 0 clause.rule.lookbehind = some m)
    (htoken : make clause m.text = some token)
    (hmore : clause.split make (text.drop (m.index + m.text.length)) = some more) :
    clause.split make text = some (ofText (text.take m.index) ++ token :: more) := by
  by_cases hgoes : 0 < m.index + m.text.length
  · rw [split, if_neg htext, h]
    dsimp only
    rw [if_pos hgoes, htoken, hmore]
    rfl
  · -- Behind the match is the whole text again, and nothing is made of that.
    rw [Nat.eq_zero_of_not_pos hgoes, List.drop_zero, split, if_neg htext, h] at hmore
    dsimp only at hmore
    rw [if_neg hgoes] at hmore
    cases hmore

theorem Clause.layer_token (htoken : token.isToken = true) (h : clause.layer make cs = some more) :
    clause.layer make (token :: cs) = some (token :: more) := by
  cases token with
  | plain text => cases htoken
  | leaf tag text | node tag parts => simp [layer, h]

/-- What a rule makes of a text, which may be empty, and of some chunks after it. -/
theorem Clause.layer_ofText (h : clause.layer make (ofText text ++ cs) = some more) :
    ∃ parts rest, clause.split make text = some parts ∧ clause.layer make cs = some rest ∧
      more = parts ++ rest := by
  by_cases htext : text = []
  · rw [htext, ofText, if_pos rfl] at h
    exact ⟨[], more, htext ▸ split_nil, h, rfl⟩
  · rw [ofText, if_neg htext, List.singleton_append, layer] at h
    obtain ⟨parts, hparts, h⟩ := Option.bind_eq_some_iff.mp h
    obtain ⟨rest, hrest, h⟩ := Option.bind_eq_some_iff.mp h
    exact ⟨parts, rest, hparts, hrest, (Option.some.inj h).symm⟩

/-- The last rule comes on top of the others. -/
theorem layers_concat (clauses : List Clause) :
    layers make (clauses ++ [clause]) text =
      (layers make clauses text).bind (clause.layer make) := by
  simp [layers, List.foldlM_append]

theorem Clause.layer_plain {parts : List Chunk} (hparts : clause.split make text = some parts)
    (h : clause.layer make cs = some more) :
    clause.layer make (.plain text :: cs) = some (parts ++ more) := by
  rw [layer, hparts, h]
  rfl

end Layer

/-! ### Walks -/

/-- The walk of a rule over what the rules before it have made of a text, seen from the run
that it has led to.  No plain chunk is empty; and if the rule makes something of the chunks
ahead, on a store that extends the one of the run, then it makes what has been passed, and
that, of all. -/
structure Clause.Walks (limits : Limits) (frames : Option Nat) (text : Text)
    (earlier : List Clause) (clause : Clause) (t : Tape) (r : Run) : Prop where
  reach : t.reach = none
  full : ∀ chunk, .plain chunk ∈ t.passed ++ t.ahead → chunk ≠ []
  ahead : ∀ store more, r.store.Extends store →
    clause.layer (Clause.token? limits frames store) t.ahead = some more →
    layers (Clause.token? limits frames store) (earlier ++ [clause]) text =
      some (t.passed ++ more)

namespace Clause.Walks

variable {limits : Limits} {frames : Option Nat} {text : Text} {earlier : List Clause}
  {clause : Clause} {t : Tape} {r r' : Run} {chunk : Text} {rest : List Chunk} {next : Chunk}

/-- A walk stays one as more grammars are resolved. -/
theorem later (h : Walks limits frames text earlier clause t r)
    (hextends : r.store.Extends r'.store) :
    Walks limits frames text earlier clause t r' :=
  ⟨h.reach, h.full, fun store more hmore => h.ahead store more (hextends.trans hmore)⟩

/-- A walk that passes a token goes on. -/
theorem token (h : Walks limits frames text earlier clause t r) (hahead : t.ahead = next :: rest)
    (hnext : next.isToken = true) :
    Walks limits frames text earlier clause (t.pass [next] rest) r where
  reach := h.reach
  full := by
    have hfull := h.full
    rw [hahead] at hfull
    simpa [Tape.pass] using hfull
  ahead := by
    intro store more hextends hmore
    have := h.ahead store _ hextends (hahead ▸ layer_token hnext hmore)
    simpa [Tape.pass] using this

/-- A walk that passes a plain chunk without a match goes on. -/
theorem plain (h : Walks limits frames text earlier clause t r)
    (hahead : t.ahead = .plain chunk :: rest)
    (hnone : clause.rule.pattern.find? chunk 0 clause.rule.lookbehind = none) :
    Walks limits frames text earlier clause (t.pass [.plain chunk] rest) r where
  reach := h.reach
  full := by
    have hfull := h.full
    rw [hahead] at hfull
    simpa [Tape.pass] using hfull
  ahead := by
    intro store more hextends hmore
    have hchunk := h.full chunk (by simp [hahead])
    have := h.ahead store _ hextends (hahead ▸ layer_plain (split_of_none hchunk hnone) hmore)
    simpa [Tape.pass] using this

/-- **A walk that cuts out a match goes on** with what is behind the match. -/
theorem found {m : Match} (h : Walks limits frames text earlier clause t r)
    (hahead : t.ahead = .plain chunk :: rest)
    (hsome : clause.rule.pattern.find? chunk 0 clause.rule.lookbehind = some m)
    (hnext : next.isToken = true) (hholds : ∀ store, r.store.Extends store →
      clause.Holds limits frames store m.text next) (reach : Option Nat) :
    let cut : Cut := { segment := chunk, covered := 1, offset := m.index, matched := m.text }
    Walks limits frames text earlier clause
      (t.resume cut next ⟨Tape.leftover cut next rest, reach⟩) r where
  reach := by
    rw [Tape.resume, h.reach]
    rfl
  full := by
    intro part hpart
    have hfull := h.full part
    simp only [Tape.resume, Tape.leftover, List.tail_cons, List.mem_append, List.mem_singleton]
      at hpart
    rw [hahead] at hfull
    rcases hpart with ((hpassed | hbefore) | heq) | hafter | hrest
    · exact hfull (by simp [hpassed])
    · exact (tidy_ofText _).full part hbefore
    · rw [← heq] at hnext
      cases hnext
    · exact (tidy_ofText _).full part hafter
    · exact hfull (by simp [hrest])
  ahead := by
    intro store more hextends hmore
    have hchunk := h.full chunk (by simp [hahead])
    obtain ⟨parts, rest', hparts, hrest, rfl⟩ := layer_ofText hmore
    have hsplit := split_of_some hchunk hsome (hholds store hextends).token?_eq hparts
    have := h.ahead store _ hextends (hahead ▸ layer_plain hsplit hrest)
    simpa [Tape.resume, Cut.before] using this

end Clause.Walks

section Sweep

variable {limits : Limits} {frames : Option Nat} {levels depth : Nat} {clause : Clause}
  {earlier : List Clause} {s : Strip} {t : Tape} {text : Text}

/-- **A step goes on with a walk**, and stops when nothing is ahead. -/
theorem step_walks (hle : levels ≤ Tokenizer.levels limits frames)
    (hgreedy : clause.rule.greedy = false) (hon : t.On s) :
    Triple (Clause.Walks limits frames text earlier clause t)
      (t.step (Strip.descend Tape.step limits levels depth) limits s.text s.base earlier clause)
      (fun next r =>
        (next = none → t.ahead = [] ∧ Clause.Walks limits frames text earlier clause t r) ∧
        ∀ t', next = some t' → Clause.Walks limits frames text earlier clause t' r)
      fun _ _ => True := by
  let enter := Strip.descend Tape.step limits levels depth
  have hcharge : Triple (Clause.Walks limits frames text earlier clause t) (charge limits)
      (fun _ => Clause.Walks limits frames text earlier clause t) fun _ _ => True :=
    charge_triple (fun _ hr => hr.later (.refl _)) fun _ _ _ _ => trivial
  refine Tape.step_triple hon.covers.ahead (fun hover r hr => Tape.step_stops ⟨?_, hr⟩)
    (fun _ _ _ _ => trivial) hcharge
    (fun token rest hahead htoken _ _ r hr => Tape.step_goes (hr.token hahead htoken))
    fun chunk more move hahead _ _ hchosen hfits => ?_
  · refine hover.resolve_right fun hreach => ?_
    rw [hr.reach] at hreach
    cases hreach
  · cases hchosen with
    | greedy h => exact absurd h (by simp [hgreedy])
    | none _ hnone => exact fun r hr => Tape.step_goes (hr.plain hahead hnone)
    | some m _ hfound =>
      have hstay : t.pass [] ([.plain chunk] ++ more) = t := by
        simp [Tape.pass, ← hahead]
      dsimp only
      rw [hstay]
      have hgoes : Goes (fun r r' => r.store.Extends r'.store)
          (Strip.tokenOf enter clause m.text) :=
        @Strip.tokenOf_related limits limits _ enter enter (congruence_goes extends_course limits)
          (Strip.descend_goes extends_course limits levels depth) clause m.text
      -- The nested text resolves more grammars, but the walk does not mind.
      have htoken := hgoes.frame (R := Clause.Walks limits frames text earlier clause t)
        (fun hextends hr => hr.later hextends) (tokenOf_holds hle m.text)
      refine (Strip.descend_leading limits levels depth).replace_triple hon.covers hahead hfits.2
        (htoken.imp (fun _ hr => ⟨hr, trivial⟩) (fun _ _ h => h) fun _ _ _ => trivial) ?_ ?_
      · rintro - token r htoken - ⟨hr, hholds⟩
        exact Tape.step_goes (hr.found hahead hfound htoken hholds _)
      · exact fun hmore => absurd hmore (Nat.lt_irrefl 1)

/-- What a sweep without greedy rules has made of a text: no plain chunk is empty, and the
rules make these chunks, one after the other. -/
structure Layered (limits : Limits) (frames : Option Nat) (text : Text) (clauses : List Clause)
    (swept : Strip.Swept) (r : Run) : Prop where
  reach : swept.reach = none
  full : ∀ chunk, .plain chunk ∈ swept.chunks → chunk ≠ []
  eq : ∀ store, r.store.Extends store →
    layers (Clause.token? limits frames store) clauses text = some swept.chunks

/-- A walk begins with what the rules before have made. -/
theorem Layered.walks {swept : Strip.Swept} {r : Run}
    (h : Layered limits frames text earlier swept r) (clause : Clause) (offset : Nat) :
    clause.Walks limits frames text earlier ⟨[], swept.chunks, offset, swept.reach⟩ r where
  reach := h.reach
  full := h.full
  ahead := by
    intro store more hextends hmore
    rw [layers_concat, h.eq store hextends]
    exact hmore

/-- A walk with nothing ahead has made what its rule makes. -/
theorem Clause.Walks.layered {r : Run} (h : clause.Walks limits frames text earlier t r)
    (hahead : t.ahead = []) :
    Layered limits frames text (earlier ++ [clause]) ⟨t.passed ++ t.ahead, t.reach⟩ r where
  reach := h.reach
  full := h.full
  eq := by
    intro store hextends
    rw [hahead]
    exact h.ahead store [] hextends (by rw [hahead, layer])

/-- **A sweep lays one rule over the other.** -/
theorem run_layers (hle : levels ≤ Tokenizer.levels limits frames) (hs : s.Covers)
    (hgreedy : ∀ clause ∈ s.clauses, clause.rule.greedy = false) :
    Triple (Layered limits frames text [] ⟨s.chunks, s.reach⟩)
      (s.run Tape.step (Strip.descend Tape.step limits levels depth) limits)
      (Layered limits frames text s.clauses) fun _ _ => True := by
  refine (Strip.Leading.run_triple hs (Layered limits frames text) ?_).post fun _ _ h => h.2
  intro earlier clause later hclauses state hstate
  have hnot := hgreedy clause (by simp [hclauses])
  refine (Strip.descend_leading limits levels depth).walk_triple hstate
    (clause.Walks limits frames text earlier)
    (Layered limits frames text (earlier ++ [clause])) (fun t hon => ?_)
    fun r hr => hr.walks clause s.offset
  refine (step_walks hle hnot hon).post fun next r h => ⟨fun hnext => ?_, h.2⟩
  obtain ⟨hahead, hr⟩ := h.1 hnext
  exact hr.layered hahead

end Sweep

/-- **Without greedy rules a run is its rules laid one over the other**, in the order of
their priority, wherever it has a result: each splits the plain chunks that those before it
have left.  The grammars that are nested may have greedy rules. -/
theorem tokenize_layers {limits : Limits} {frames : Option Nat} {store : Store} {text : Text}
    {ref : Ref} {resolution : Resolution} {chunks : List Chunk}
    (hresolve : (store.resolve ref).map (·.1) = .ok resolution)
    (hgreedy : ∀ clause ∈ resolution.clauses, clause.rule.greedy = false) (htext : text ≠ [])
    (h : (tokenize limits frames store text ref).result = .ok chunks) :
    layers (Clause.token? limits frames (tokenize limits frames store text ref).run.store)
      resolution.clauses text = some chunks := by
  have hchunks : Triple (fun r => r.store = store)
      (Strip.chunksOf (Strip.descend Tape.step limits (Tokenizer.levels limits frames) 0) false
        text ref)
      (fun cs r => Layered limits frames text resolution.clauses ⟨cs, none⟩ r)
      fun _ _ => True := by
    refine Strip.chunksOf_triple (resolve_triple hresolve) (fun _ _ _ h => h)
      (fun _ _ hnil => absurd hnil htext) ?_
    intro found _
    cases hlevels : Tokenizer.levels limits frames with
    | zero => exact refuse_triple fun _ _ _ _ _ => trivial
    | succ levels =>
      refine Triple.bind (Q := fun _ _ => found = resolution) (.reachDepth fun _ h => h)
        fun _ => ?_
      rintro r rfl
      have hstart : Layered limits frames text [] ⟨[.plain text], none⟩ r :=
        ⟨rfl, (tidy_plain htext).full, fun _ _ => rfl⟩
      have hrun : Triple (Layered limits frames text [] ⟨[.plain text], none⟩)
          (Strip.run Tape.step (Strip.descend Tape.step limits levels 1) limits
            ⟨text, found.clauses, 0, [.plain text], 0, none⟩)
          (Layered limits frames text found.clauses) fun _ _ => True :=
        run_layers (by omega) (.whole text found.clauses) hgreedy
      exact hrun.post (fun _ _ h => ⟨rfl, h.full, h.eq⟩) r hstart
  have hend := tokenize_of_triple store hchunks rfl
  rw [h] at hend
  exact hend.eq _ (.refl _)

/-- The grammars of `quoting`, and one that cuts a text into lines with them.  A second
semicolon is a sign of its own. -/
def lining : Store where
  grammars := quoting.grammars.push
    { entries := [
        ("line", .single (.rule {
          pattern := .expression (.source "[^;]+".toList)
          inside := some (.grammar 0) })),
        ("end", .single (.rule {
          pattern := .expression (.source "(;);".toList)
          lookbehind := true }))] }

/-- What the grammar for lines resolves to. -/
def liningResolved : Resolution :=
  ((lining.resolve (.grammar 2)).map (·.1)).toOption.getD ⟨[], none⟩

/-- What `lining` makes of `a'b'bxy;;`. -/
def lined : List Chunk :=
  [.node { type := "line", length := 7 } quoted, .plain ";".toList,
    .leaf { type := "end", length := 1 } ";".toList]

/-- A line with a string that takes in a letter is cut as by the layers: the rules for
lines are not greedy, although one of the rules for what is in them is. -/
theorem tokenize_layers_lining :
    (lining.resolve (.grammar 2)).map (·.1) = .ok liningResolved ∧
      (∀ clause ∈ liningResolved.clauses, clause.rule.greedy = false) ∧
      (tokenize {} none lining "a'b'bxy;;".toList (.grammar 2)).result = .ok lined ∧
      layers (Clause.token? {} none
          (tokenize {} none lining "a'b'bxy;;".toList (.grammar 2)).run.store)
        liningResolved.clauses "a'b'bxy;;".toList = some lined := by
  have hresolve : (lining.resolve (.grammar 2)).map (·.1) = .ok liningResolved :=
    eq_ok_of_toOption (by decide +kernel)
  have hgreedy : ∀ clause ∈ liningResolved.clauses, clause.rule.greedy = false := by
    decide +kernel
  have hresult : (tokenize {} none lining "a'b'bxy;;".toList (.grammar 2)).result = .ok lined :=
    eq_ok_of_toOption (by decide +kernel)
  exact ⟨hresolve, hgreedy, hresult, tokenize_layers hresolve hgreedy (by decide) hresult⟩

end Highlight
