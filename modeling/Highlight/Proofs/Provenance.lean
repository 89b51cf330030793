/-
# Where tokens come from

Every token of a result, at every depth, is the work of one rule
(`tokenize_traced`): a rule of the grammar of its level has found the text of
the token just where the token stands, the token carries the type and the name
of that rule, and it holds the matched text itself or, if the rule names a
nested grammar, what a run with that grammar makes of the text.

Chunks are cut, covered and cut again, so that a token that is made need not
stay, and one that stays may have been made long ago.  But a cut changes no
offset: what it puts in the place of some chunks is as long as they are.
So at every moment each token is at the offset where it was made (`Made`), and
what was true of it there still is: what a rule finds depends on nothing but
the text, and what a nested run has made can be had again on every store that
extends the one it left.
-/

import Highlight.Proofs.Coverage
import Highlight.Proofs.Tokenizer.Replay

namespace Highlight

open Chunk RunM

/-! ### Tokens and their rules -/

/-- A rule finds a text at an offset of the text of its level.  A greedy rule
finds it in the whole text from some offset on; any other finds it in a
piece of the text, where an index beyond the end of the piece counts as the
end. -/
def Clause.Finds (clause : Clause) (text : Text) (offset : Nat) (matched : Text) : Prop :=
  if clause.rule.greedy then
    ∃ start ≤ offset, ∃ m,
      clause.rule.pattern.find? text start clause.rule.lookbehind = some m ∧
      m.index = offset ∧ m.text = matched
  else
    ∃ start stop m, start ≤ offset ∧ offset + matched.length ≤ stop ∧ stop ≤ text.length ∧
      clause.rule.pattern.find? (text.slice start stop) 0 clause.rule.lookbehind = some m ∧
      m.text = matched ∧ min m.index (stop - start) = offset - start

/-- What a rule makes of a matched text, given the store in which nested
grammars are resolved. -/
inductive Clause.Holds (limits : Limits) (frames : Option Nat) (store : Store) (clause : Clause)
    (matched : Text) : Chunk → Prop where
  | leaf (hinside : clause.rule.inside = none) :
    Holds limits frames store clause matched (.leaf (clause.tag matched) matched)
  | node (id : GrammarId) (parts : List Chunk) (hinside : clause.rule.inside = some id)
    (hparts : Reproduces limits frames store matched (.grammar id) parts) :
    Holds limits frames store clause matched (.node (clause.tag matched) parts)

/-- A token at an offset is what a rule makes of what it finds there. -/
structure Clause.Makes (limits : Limits) (frames : Option Nat) (store : Store) (text : Text)
    (clause : Clause) (offset : Nat) (token : Chunk) : Prop where
  finds : clause.Finds text offset (text.slice offset (offset + token.extent))
  holds : clause.Holds limits frames store (text.slice offset (offset + token.extent)) token

namespace Chunk

/-- Something holds of every token among some chunks and its offset, if the
first chunk is at a given one. -/
def Each (P : Nat → Chunk → Prop) : Nat → List Chunk → Prop
  | _, [] => True
  | offset, c :: cs => (c.isToken = true → P offset c) ∧ Each P (offset + c.extent) cs

variable {P : Nat → Chunk → Prop} {offset : Nat} {cs ds : List Chunk}

theorem each_append : Each P offset (cs ++ ds) ↔
    Each P offset cs ∧ Each P (offset + extents cs) ds := by
  induction cs generalizing offset with
  | nil => simp [Each]
  | cons c cs ih => simp [Each, ih, Nat.add_assoc, and_assoc]

/-- There is no token in plain text. -/
theorem each_ofText (text : Text) : Each P offset (ofText text) := by
  unfold ofText
  split
  · trivial
  · exact ⟨nofun, trivial⟩

end Chunk

/-- Every token among some chunks of a level is made by one of its rules. -/
def Made (limits : Limits) (frames : Option Nat) (store : Store) (text : Text)
    (clauses : List Clause) : Nat → List Chunk → Prop :=
  Each fun offset token => ∃ clause ∈ clauses, clause.Makes limits frames store text offset token

/-- Every token is made by a rule, and stays so as more grammars are resolved. -/
def MadeFrom (limits : Limits) (frames : Option Nat) (store : Store) (text : Text)
    (clauses : List Clause) (offset : Nat) (chunks : List Chunk) : Prop :=
  ∀ store', store.Extends store' → Made limits frames store' text clauses offset chunks

section Level

variable {limits : Limits} {frames : Option Nat} {store store' : Store} {text : Text}
  {clauses : List Clause} {offset : Nat} {cs ds : List Chunk}

theorem MadeFrom.extends (h : MadeFrom limits frames store text clauses offset cs)
    (hextends : store.Extends store') : MadeFrom limits frames store' text clauses offset cs :=
  fun _ hmore => h _ (hextends.trans hmore)

theorem madeFrom_append : MadeFrom limits frames store text clauses offset (cs ++ ds) ↔
    MadeFrom limits frames store text clauses offset cs ∧
      MadeFrom limits frames store text clauses (offset + extents cs) ds := by
  constructor
  · intro h
    exact ⟨fun _ hmore => (each_append.mp (h _ hmore)).1,
      fun _ hmore => (each_append.mp (h _ hmore)).2⟩
  · intro h store' hmore
    exact each_append.mpr ⟨h.1 _ hmore, h.2 _ hmore⟩

theorem madeFrom_ofText (more : Text) :
    MadeFrom limits frames store text clauses offset (ofText more) :=
  fun _ _ => each_ofText more

end Level

/-! ### What a rule has found -/

section Cut

variable {clause : Clause} {text chunk : Text} {t : Tape} {more skipped covered rest : List Chunk}
  {cut : Cut}

/-- **A cut stands where its rule has found the match.** -/
theorem Clause.finds_of_chosen (hcuts : Cuts (text.drop t.offset) t.ahead)
    (hcover : t.offset + extents t.ahead = text.length) (hplain : t.ahead = .plain chunk :: more)
    (hchosen : Tape.Chosen text clause t chunk more (.cut skipped covered rest cut))
    (hfits : cut.Fits covered) :
    clause.Finds text (t.offset + extents skipped + cut.before.length) cut.matched := by
  unfold Finds
  cases hchosen with
  | some m hgreedy hfound =>
    rw [if_neg (by simp [hgreedy])]
    have hjoin := hfits.length_join
    have hbefore : Cut.before ⟨chunk, 1, m.index, m.text⟩ = chunk.take m.index := rfl
    have hslice : text.slice t.offset (t.offset + chunk.length) = chunk := by
      rw [hplain, ← List.singleton_append] at hcuts
      have := hcuts.slice
      simpa [textOf, Chunk.text] using this.symm
    rw [hplain, extents_cons, extent_plain] at hcover
    simp only [extents_cons, extent_plain, extents_nil] at hjoin ⊢
    refine ⟨t.offset, t.offset + chunk.length, m, by omega, by omega, by omega, ?_, rfl, ?_⟩
    · rw [hslice]
      exact hfound
    · rw [hbefore, List.length_take]
      omega
  | greedy hgreedy hmove =>
    rw [if_pos hgreedy]
    cases hmove with
    | inPlain m _ _ tail chunk hfound _ _ hfrom hto =>
      refine ⟨t.offset, by omega, m, hfound, ?_, rfl⟩
      rw [Cut.before, List.length_take, hfits.length_segment, extents_cons, extent_plain]
      dsimp only
      omega

end Cut

/-! ### What sweeps make -/

section Sweep

variable {limits : Limits} {frames : Option Nat} {clauses earlier later : List Clause}
  {clause : Clause} {levels depth : Nat}

/-- A token is what its rule makes of the matched text, on every store that
extends the one that is left. -/
theorem tokenOf_holds (hle : levels ≤ Tokenizer.levels limits frames) (matched : Text) :
    Triple (fun _ => True)
      (Strip.tokenOf (Strip.descend Tape.step limits levels depth) clause matched)
      (fun token r => ∀ store, r.store.Extends store →
        clause.Holds limits frames store matched token) fun _ _ => True := by
  refine Strip.tokenOf_triple (fun hinside r _ store _ => .leaf hinside) fun id hinside r _ => ?_
  split
  · rename_i parts r' hrun
    intro store hextends
    exact .node id parts hinside (tokenize_of_nested hle hrun hextends)
  · trivial

/-- By the store of a run, every token among some chunks of a sweep is made by
one of its rules. -/
def Strip.Attributed (limits : Limits) (frames : Option Nat) (clauses : List Clause) (s : Strip)
    (chunks : List Chunk) (r : Run) : Prop :=
  MadeFrom limits frames r.store s.text clauses s.offset chunks

/-- A way of going deeper on which sweeps with some of the rules leave only
tokens that the rules make. -/
def Strip.Making (limits : Limits) (frames : Option Nat) (clauses : List Clause)
    (enter : Strip.Enter) : Prop :=
  ∀ s : Strip, s.Covers → s.clauses ⊆ clauses → s.Cuts s.chunks →
    Triple (s.Attributed limits frames clauses s.chunks) (enter s)
      (fun swept => s.Attributed limits frames clauses swept.chunks)
      fun _ _ => True

/-- A cut leaves every token where it is, and adds one that its rule makes. -/
theorem MadeFrom.cut {store : Store} {s : Strip} {t : Tape} {covered rest : List Chunk} {cut : Cut}
    {token : Chunk} (hon : t.On s) (hahead : t.ahead = covered ++ rest) (hfits : cut.Fits covered)
    (hmade : MadeFrom limits frames store s.text clauses s.offset (t.passed ++ t.ahead))
    (hclause : clause ∈ clauses)
    (hfinds : clause.Finds s.text (t.offset + cut.before.length) cut.matched)
    (hholds : ∀ store', store.Extends store' → clause.Holds limits frames store' cut.matched token)
    (htoken : Cuts cut.matched [token]) (hextent : token.extent = cut.matched.length)
    (hleft : Cuts (s.text.drop (t.offset + cut.before.length)) (Tape.leftover cut token rest)) :
    MadeFrom limits frames store s.text clauses s.offset (t.passed ++ ofText cut.before) ∧
      MadeFrom limits frames store s.text clauses (t.offset + cut.before.length)
        (Tape.leftover cut token rest) := by
  have hpassed := hon.covers.passed
  have hjoin := hfits.length_join
  rw [hahead, madeFrom_append, madeFrom_append, hpassed] at hmade
  obtain ⟨hpast, -, hrest⟩ := hmade
  have hslice : s.text.slice (t.offset + cut.before.length)
      (t.offset + cut.before.length + token.extent) = cut.matched := by
    have hleft : Cuts _ ([token] ++ (ofText cut.after ++ rest)) := hleft
    have hslice := hleft.slice
    rw [htoken.textOf_eq, extents_cons, extents_nil, Nat.add_zero] at hslice
    exact hslice.symm
  refine ⟨madeFrom_append.mpr ⟨hpast, madeFrom_ofText _⟩, ?_⟩
  intro store' hextends
  refine ⟨fun _ => ⟨clause, hclause, ?_, ?_⟩, each_append.mpr ⟨each_ofText _, ?_⟩⟩
  · rw [hslice]
    exact hfinds
  · rw [hslice]
    exact hholds store' hextends
  · have hend : t.offset + cut.before.length + token.extent + extents (ofText cut.after) =
        t.offset + extents covered := by
      rw [extents_ofText]
      omega
    rw [hend]
    exact hrest store' hextends

/-- A walk that goes on after a cut has only such tokens if what is before the
token and what is from there on have. -/
theorem MadeFrom.resume {store : Store} {s : Strip} {t : Tape} {cut : Cut} {token : Chunk}
    {more : List Chunk} {reach : Option Nat} (hon : t.On s)
    (hpast : MadeFrom limits frames store s.text clauses s.offset (t.passed ++ ofText cut.before))
    (hnew : MadeFrom limits frames store s.text clauses (t.offset + cut.before.length)
      (token :: more)) :
    MadeFrom limits frames store s.text clauses s.offset
      ((t.resume cut token ⟨token :: more, reach⟩).passed ++
        (t.resume cut token ⟨token :: more, reach⟩).ahead) := by
  have hoffset : s.offset + extents (t.passed ++ ofText cut.before) =
      t.offset + cut.before.length := by
    rw [extents_append, extents_ofText, ← Nat.add_assoc, hon.covers.passed]
  have hchunks : (t.resume cut token ⟨token :: more, reach⟩).passed ++
      (t.resume cut token ⟨token :: more, reach⟩).ahead =
        (t.passed ++ ofText cut.before) ++ (token :: more) := by
    simp [Tape.resume]
  rw [hchunks, madeFrom_append, hoffset]
  exact ⟨hpast, hnew⟩

/-- **A cut leaves only tokens that their rules make**, with its rematch, if
there is one. -/
theorem replace_made (hle : levels ≤ Tokenizer.levels limits frames)
    (hmaking : Strip.Making limits frames clauses (Strip.descend Tape.step limits levels depth))
    {s : Strip} {t : Tape} {covered rest : List Chunk} {cut : Cut} (hon : t.On s)
    (hahead : t.ahead = covered ++ rest) (hcuts : s.Cuts (t.passed ++ t.ahead))
    (hfits : cut.Fits covered) (hsegment : cut.segment = textOf covered)
    (hclause : clause ∈ clauses) (hearlier : earlier ⊆ clauses)
    (hfinds : clause.Finds s.text (t.offset + cut.before.length) cut.matched) :
    Triple (s.Attributed limits frames clauses (t.passed ++ t.ahead))
      (t.replace (Strip.descend Tape.step limits levels depth) s.text s.base earlier clause rest
        cut)
      (fun t' => s.Attributed limits frames clauses (t'.passed ++ t'.ahead)) fun _ _ => True := by
  let enter := Strip.descend Tape.step limits levels depth
  have hgoes (s : Strip) : Goes (fun r r' => r.store.Extends r'.store) (enter s) :=
    Strip.descend_goes extends_course limits levels depth s
  have htokenGoes : Goes (fun r r' => r.store.Extends r'.store)
      (Strip.tokenOf enter clause cut.matched) :=
    @Strip.tokenOf_related limits limits _ enter enter (congruence_goes extends_course limits)
      hgoes clause cut.matched
  have htoken := htokenGoes.frame (R := s.Attributed limits frames clauses (t.passed ++ t.ahead))
    (fun hextends hmade => hmade.extends hextends)
    ((tokenOf_holds hle cut.matched).and (tokenOf_cuts (descend_cutting limits levels depth)
      cut.matched))
  refine (Strip.descend_leading limits levels depth).replace_triple hon.covers hahead hfits
    (htoken.imp (fun _ hmade => ⟨hmade, trivial, trivial⟩) (fun _ _ h => h) fun _ _ _ => trivial)
    ?_ ?_
  · rintro - token r - hextent ⟨hmade, hholds, hcutsToken⟩
    have hleft := hcuts.leftover hon hahead hsegment hfits hcutsToken
    obtain ⟨hpast, hnew⟩ :=
      hmade.cut hon hahead hfits hclause hfinds hholds hcutsToken hextent hleft
    exact hpast.resume hon hnew
  · rintro - token - hextent hrematch _ ⟨r, ⟨hmade, hholds, hcutsToken⟩, rfl⟩
    have hleft := hcuts.leftover hon hahead hsegment hfits hcutsToken
    obtain ⟨hpast, hnew⟩ :=
      hmade.cut hon hahead hfits hclause hfinds hholds hcutsToken hextent hleft
    -- The rematch resolves more grammars, but what is before the token does not mind.
    have hsweep := (hgoes (t.rematch s.text s.base earlier cut token rest)).frame
      (R := s.Attributed limits frames clauses (t.passed ++ ofText cut.before))
      (fun hextends hmade => hmade.extends hextends) (hmaking _ hrematch hearlier hleft)
    refine hsweep.post ?_ r.countRematch ⟨hpast, hnew⟩
    rintro _ r' ⟨hpast, hnew⟩ more reach rfl - -
    exact hpast.resume hon hnew

/-- A step leaves only tokens that their rules make. -/
theorem step_made (hle : levels ≤ Tokenizer.levels limits frames)
    (hmaking : Strip.Making limits frames clauses (Strip.descend Tape.step limits levels depth))
    {s : Strip} {t : Tape} (hon : t.On s) (hcuts : s.Cuts (t.passed ++ t.ahead))
    (hclause : clause ∈ clauses) (hearlier : earlier ⊆ clauses) :
    Triple (s.Attributed limits frames clauses (t.passed ++ t.ahead))
      (t.step (Strip.descend Tape.step limits levels depth) limits s.text s.base earlier clause)
      (fun next r =>
        (next = none → s.Attributed limits frames clauses (t.passed ++ t.ahead) r) ∧
        ∀ t', next = some t' → s.Attributed limits frames clauses (t'.passed ++ t'.ahead) r)
      fun _ _ => True := by
  have hcharge : Triple (s.Attributed limits frames clauses (t.passed ++ t.ahead)) (charge limits)
      (fun _ => s.Attributed limits frames clauses (t.passed ++ t.ahead)) fun _ _ => True :=
    charge_triple (fun _ hr => hr) fun _ _ _ _ => trivial
  refine Tape.step_triple hon.covers.ahead (fun _ _ hr => Tape.step_stops hr)
    (fun _ _ _ _ => trivial) hcharge ?_ ?_
  · intro token rest hahead _ _ _ r hr
    have hahead : t.ahead = [token] ++ rest := hahead
    exact Tape.step_goes ((Tape.chunks_pass hahead).symm ▸ hr)
  · intro chunk more move hplain _ _ hchosen hmove
    cases move with
    | stop => exact fun _ hr => Tape.step_stops hr
    | pass skipped rest =>
      exact fun r hr => Tape.step_goes ((Tape.chunks_pass hmove).symm ▸ hr)
    | cut skipped covered rest cut =>
      have hahead := hcuts.ahead hon
      have hsegment := Tape.segment_eq hahead hplain hchosen
      have hfinds := Clause.finds_of_chosen hahead hon.covers.ahead hplain hchosen hmove.2
      have hcut := replace_made hle hmaking (hon.pass hmove.1) rfl
        ((Tape.chunks_pass hmove.1).symm ▸ hcuts) hmove.2 hsegment hclause hearlier hfinds
      rw [Tape.chunks_pass hmove.1] at hcut
      exact hcut.post fun _ _ hr => Tape.step_goes hr

/-- **Sweeps leave only tokens that their rules make**, if those one recursion
deeper do. -/
theorem run_made (hle : levels ≤ Tokenizer.levels limits frames)
    (hmaking : Strip.Making limits frames clauses (Strip.descend Tape.step limits levels depth))
    {s : Strip} (hs : s.Covers) (hclauses : s.clauses ⊆ clauses) (hcuts : s.Cuts s.chunks) :
    Triple (s.Attributed limits frames clauses s.chunks)
      (s.run Tape.step (Strip.descend Tape.step limits levels depth) limits)
      (fun swept => s.Attributed limits frames clauses swept.chunks) fun _ _ => True := by
  have hlead := Strip.descend_leading limits levels depth
  refine (hlead.run_keeps hs (fun chunks r => s.Cuts chunks ∧
    s.Attributed limits frames clauses chunks r) ?_).imp (fun _ hr => ⟨hcuts, hr⟩)
    (fun _ _ h => h.2) fun _ _ h => h
  intro earlier clause later hsplit t hon r ⟨hcuts, hmade⟩
  have hclause : clause ∈ clauses := hclauses (by rw [hsplit]; simp)
  have hearlier : earlier ⊆ clauses := fun c hc => hclauses (by rw [hsplit]; simp [hc])
  have hstep := (step_made hle hmaking hon hcuts hclause hearlier).also
    (step_cuts hlead (descend_cutting limits levels depth) hon hcuts)
  exact hstep.post (fun _ _ h => ⟨fun hnext => ⟨hcuts, h.1.1 hnext⟩,
    fun t' hnext => ⟨h.2 t' hnext, h.1.2 t' hnext⟩⟩) r hmade

/-- Every way of going deeper leaves only tokens that their rules make. -/
theorem descend_making (clauses : List Clause) (hle : levels ≤ Tokenizer.levels limits frames)
    (depth : Nat) :
    Strip.Making limits frames clauses (Strip.descend Tape.step limits levels depth) := by
  induction levels generalizing depth with
  | zero =>
    exact fun s _ _ _ => refuse_triple fun _ _ _ _ _ => trivial
  | succ levels ih =>
    intro s hs hclauses hcuts
    have hle : levels ≤ Tokenizer.levels limits frames := Nat.le_of_succ_le hle
    exact Triple.bind (.reachDepth fun _ hr => hr) fun _ =>
      run_made hle (ih hle (depth + 1)) hs hclauses hcuts

end Sweep

/-! ### Levels of a result -/

section Level

variable {limits : Limits} {frames : Option Nat} {store : Store} {text : Text} {ref : Ref}
  {chunks : List Chunk}

/-- What a grammar has been resolved to is kept for it. -/
theorem resolve_keeps (ref : Ref) :
    Triple (fun _ => True) (RunM.resolve ref)
      (fun resolution r => ∃ id, ref = .grammar id ∧ r.store.cached id = some resolution)
      fun _ _ => True := by
  refine .resolve (fun r resolution store events _ hresolve => ?_) fun _ _ _ _ => trivial
  obtain ⟨id, hid, hcached, -⟩ := Store.resolve_cases hresolve
  exact ⟨id, hid, hcached⟩

/-- The tokens that a text is cut into are made by the rules of its grammar. -/
theorem chunksOf_made (limits : Limits) (frames : Option Nat) (text : Text) (ref : Ref) :
    Triple (fun _ => True)
      (Strip.chunksOf (Strip.descend Tape.step limits (Tokenizer.levels limits frames) 0) false
        text ref)
      (fun chunks r => ∃ id resolution, ref = .grammar id ∧
        r.store.cached id = some resolution ∧
        MadeFrom limits frames r.store text resolution.clauses 0 chunks) fun _ _ => True := by
  refine Strip.chunksOf_triple (resolve_keeps ref) (fun _ _ _ h => h) ?_ ?_
  · rintro resolution r - ⟨id, hid, hcached⟩
    exact ⟨id, resolution, hid, hcached, fun _ _ => trivial⟩
  · rintro resolution - r ⟨id, hid, hcached⟩
    let enter := Strip.descend Tape.step limits (Tokenizer.levels limits frames) 0
    let s : Strip := ⟨text, resolution.clauses, 0, [.plain text], 0, none⟩
    have hmaking : Strip.Making limits frames resolution.clauses enter :=
      descend_making resolution.clauses (Nat.le_refl _) 0
    have hsweep := hmaking s (.whole ..) (List.Subset.refl _) (.plain text)
    have hgoes : Goes (fun r r' => r.store.Extends r'.store) (enter s) :=
      Strip.descend_goes extends_course limits (Tokenizer.levels limits frames) 0 s
    have hframe := hgoes.frame (R := fun r => r.store.cached id = some resolution)
      (fun hextends hcached => hextends.cached hcached) hsweep
    have hstart : s.Attributed limits frames resolution.clauses [.plain text] r :=
      fun _ _ => ⟨nofun, trivial⟩
    exact hframe.post (fun _ _ h => ⟨id, resolution, hid, h.1, h.2⟩) r ⟨hcached, hstart⟩

/-- **Every token of a level is made by a rule of its grammar.** -/
theorem tokenize_made (h : (tokenize limits frames store text ref).result = .ok chunks) :
    ∃ id resolution, ref = .grammar id ∧
      (tokenize limits frames store text ref).run.store.cached id = some resolution ∧
      Made limits frames (tokenize limits frames store text ref).run.store text
        resolution.clauses 0 chunks := by
  have hend := tokenize_of_triple store (chunksOf_made limits frames text ref) trivial
  rw [h] at hend
  obtain ⟨id, resolution, hid, hcached, hmade⟩ := hend
  exact ⟨id, resolution, hid, hcached, hmade _ (.refl _)⟩

mutual

/-- A chunk of a level, at an offset of its text, is plain or made by one of the
rules of the level; and so is, if it has parts, each of them on their own
level, the text of which is that of the token and the rules of which are those
of the nested grammar. -/
def Traced (limits : Limits) (frames : Option Nat) (store : Store) (text : Text)
    (clauses : List Clause) (offset : Nat) : Chunk → Prop
  | .plain _ => True
  | .leaf tag content => ∃ clause ∈ clauses,
    clause.Makes limits frames store text offset (.leaf tag content)
  | .node tag parts => ∃ clause ∈ clauses,
    clause.Makes limits frames store text offset (.node tag parts) ∧
      ∃ id resolution, clause.rule.inside = some id ∧ store.cached id = some resolution ∧
        TracedAll limits frames store (text.slice offset (offset + (Chunk.node tag parts).extent))
          resolution.clauses 0 parts

/-- Each of some chunks of a level, the first of which is at an offset of its
text, is plain or made by one of its rules, at every depth. -/
def TracedAll (limits : Limits) (frames : Option Nat) (store : Store) (text : Text)
    (clauses : List Clause) (offset : Nat) : List Chunk → Prop
  | [] => True
  | c :: cs => Traced limits frames store text clauses offset c ∧
    TracedAll limits frames store text clauses (offset + c.extent) cs

end

mutual

/-- A token that is made by a rule has its parts made by rules, too: they are
what a run of its own makes of its text. -/
theorem traced_of_made {text : Text} {clauses : List Clause} {offset : Nat} : ∀ {c : Chunk},
    (c.isToken = true → ∃ clause ∈ clauses, clause.Makes limits frames store text offset c) →
    Traced limits frames store text clauses offset c
  | .plain _, _ => trivial
  | .leaf _ _, h => h rfl
  | .node tag parts, h => by
    obtain ⟨clause, hclause, hmakes⟩ := h rfl
    obtain ⟨hfinds, hholds⟩ := hmakes
    generalize htext : text.slice offset (offset + (Chunk.node tag parts).extent) = matched
      at hholds
    cases hholds with
    | node id _ hinside hparts =>
      obtain ⟨id', resolution, hid, hcached, hmade⟩ := tokenize_made hparts.1
      cases hid
      rw [hparts.2] at hcached hmade
      rw [Traced]
      refine ⟨clause, hclause, ⟨hfinds, ?_⟩, id, resolution, hinside, hcached, ?_⟩
      · rw [htext]
        exact .node id parts hinside hparts
      · rw [htext]
        exact tracedAll_of_made hmade

/-- Tokens that are made by rules have their parts made by rules, too. -/
theorem tracedAll_of_made {text : Text} {clauses : List Clause} {offset : Nat} :
    ∀ {cs : List Chunk},
    Made limits frames store text clauses offset cs →
    TracedAll limits frames store text clauses offset cs
  | [], _ => trivial
  | _ :: _, h => ⟨traced_of_made h.1, tracedAll_of_made h.2⟩

end

/-- **Every token, at every depth, is the work of one rule.**  Where a run
succeeds, each token of a level has the type and the name of a rule of
the grammar of that level; the rule has found the text of the token where the
token stands; and the token holds that text, or what a run with the nested
grammar of the rule makes of it. -/
theorem tokenize_traced (h : (tokenize limits frames store text ref).result = .ok chunks) :
    ∃ id resolution, ref = .grammar id ∧
      (tokenize limits frames store text ref).run.store.cached id = some resolution ∧
      TracedAll limits frames (tokenize limits frames store text ref).run.store text
        resolution.clauses 0 chunks := by
  obtain ⟨id, resolution, hid, hcached, hmade⟩ := tokenize_made h
  exact ⟨id, resolution, hid, hcached, tracedAll_of_made hmade⟩

theorem tokenize_traced_quoting :
    (tokenize {} none quoting "a'b'bxy".toList (.grammar 0)).result = .ok quoted ∧
      ∃ id resolution, Ref.grammar 0 = .grammar id ∧
        (tokenize {} none quoting "a'b'bxy".toList (.grammar 0)).run.store.cached id =
          some resolution ∧
        TracedAll {} none (tokenize {} none quoting "a'b'bxy".toList (.grammar 0)).run.store
          "a'b'bxy".toList resolution.clauses 0 quoted :=
  ⟨tokenize_quoting, tokenize_traced tokenize_quoting⟩

end Level

end Highlight
