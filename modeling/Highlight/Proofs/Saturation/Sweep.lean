/-
# Sweeps settle what they should

There are two facts about every sweep (`Strip.Settles`).

  * Beyond its reach a sweep leaves nothing unsettled that was settled
    (`keeps`).
  * A sweep in which a rule takes part, and which starts with everything
    settled beyond its reach, leaves everything settled for the rule
    (`settles`).

For the second, look at the place of the rule among the others.  While rules
before it walk, everything beyond the reach stays settled.  While the rule
itself walks, what it has passed is settled, and where it stops, what is ahead
is settled or beyond the reach.  A later rule that sets text free starts a
rematch of all rules before it, so the rule takes part in that rematch, and the
reach of the rematch is where the region ends that was merged.

Both facts about a step refer only to sweeps one recursion deeper
(`step_settles`), so both hold at every depth (`descend_saturating`).
-/

import Highlight.Proofs.Saturation.Settled

namespace Highlight

open Chunk RunM

/-! ### What sweeps settle -/

/-- What the walks of some rules in a sweep leave.  Nothing is unsettled beyond
the reach; and if a rule is one of them, and everything beyond the reach is
settled at first, everything is settled. -/
structure Strip.Settles (P : Text → Standard) (rule : Clause) (s : Strip) (walked : List Clause)
    (swept : Strip.Swept) : Prop where
  keeps : ∀ m, Settled ((P s.text).beyond m s.reach) s.offset s.chunks →
    Settled ((P s.text).beyond m swept.reach) s.offset swept.chunks
  settles : rule ∈ walked → Settled ((P s.text).beyond 0 s.reach) s.offset s.chunks →
    Settled (P s.text) s.offset swept.chunks

/-- A way of going deeper on which sweeps settle what they should. -/
def Strip.Saturating (P : Text → Standard) (rule : Clause) (enter : Strip.Enter) : Prop :=
  ∀ s : Strip, s.Covers → Triple (fun _ => s.Cuts s.chunks) (enter s)
    (fun swept _ => s.Cuts swept.chunks ∧ Strip.Settles P rule s s.clauses swept) fun _ _ => True

/-- What a rule settles on its way: what it passes, what is in front of a match
that it cuts out, and, where it stops short of the end, everything. -/
structure Clause.SettlesOwn (P : Text → Standard) (rule : Clause) : Prop where
  hereditary : ∀ text, (P text).Hereditary
  stop : ∀ {text chunk : Text} {t : Tape} {rest : List Chunk}, t.ahead = .plain chunk :: rest →
    t.offset + extents t.ahead = text.length →
    Tape.Chosen text rule t chunk rest .stop → Settled (P text) t.offset t.ahead
  pass : ∀ {text chunk : Text} {t : Tape} {rest skipped rest' : List Chunk},
    t.ahead = .plain chunk :: rest → t.offset + extents t.ahead = text.length →
    Tape.Chosen text rule t chunk rest (.pass skipped rest') → Settled (P text) t.offset skipped
  cut : ∀ {text chunk : Text} {t : Tape} {rest skipped covered rest' : List Chunk} {cut : Cut},
    t.ahead = .plain chunk :: rest → t.offset + extents t.ahead = text.length →
    Tape.Chosen text rule t chunk rest (.cut skipped covered rest' cut) →
    Settled (P text) t.offset (skipped ++ ofText cut.before)

/-- What a step means for what is settled, in a walk on which nothing is
unsettled beyond the reach. -/
structure Tape.Settles (P : Standard) (rule : Clause) (earlier : List Clause) (clause : Clause)
    (start : Nat) (t t' : Tape) : Prop where
  keeps : ∀ m, Settled (P.beyond m t.reach) start (t.passed ++ t.ahead) →
    Settled (P.beyond m t'.reach) start (t'.passed ++ t'.ahead)
  passed : rule ∈ earlier ∨ rule = clause → (rule ∈ earlier → Settled P t.offset t.ahead) →
    Settled P start t.passed → Settled P start t'.passed
  ahead : rule ∈ earlier → Settled P t.offset t.ahead → Settled P t'.offset t'.ahead

section Step

variable {P : Text → Standard} {rule : Clause} {enter : Strip.Enter} {limits : Limits}
  {earlier : List Clause} {clause : Clause} {s : Strip} {t : Tape}
  {skipped covered rest : List Chunk}

theorem Strip.Saturating.cutting (h : Strip.Saturating P rule enter) : Strip.Cutting enter :=
  fun s hs => (h s hs).post fun _ _ h => h.1

/-- Passing chunks settles them, or leaves them settled. -/
theorem Tape.Settles.pass {P : Standard} {start : Nat} (hon : t.offset = start + extents t.passed)
    (hahead : t.ahead = skipped ++ rest)
    (hover : rule ∈ earlier ∨ rule = clause → (rule ∈ earlier → Settled P t.offset t.ahead) →
      Settled P t.offset skipped) :
    Tape.Settles P rule earlier clause start t (t.pass skipped rest) where
  keeps := fun m h => by
    simpa [Tape.pass, hahead] using h
  passed := fun hrule hearlier h => by
    rw [Tape.pass, Settled.append, ← hon]
    exact ⟨h, hover hrule hearlier⟩
  ahead := fun _ h => by
    rw [hahead, Settled.append] at h
    exact h.2

/-- What is in front of a match is in front of it in a plain chunk. -/
theorem Tape.before_eq {text chunk : Text} {more : List Chunk} {cut : Cut}
    (hchosen : Tape.Chosen text clause t chunk more (.cut skipped covered rest cut))
    (hsegment : cut.segment = textOf covered) :
    ∃ front behind tail, covered = .plain front :: tail ∧ front = cut.before ++ behind := by
  cases hchosen with
  | some m => exact ⟨chunk, _, [], rfl, (List.take_append_drop ..).symm⟩
  | greedy _ h =>
    cases h with
    | inPlain m skipped rest tail chunk _ _ _ _ hto =>
      refine ⟨chunk, chunk.drop (m.index - (t.offset + extents skipped)), tail, rfl, ?_⟩
      rw [Cut.before, hsegment, textOf, Chunk.text, List.take_append_of_le_length (by
        dsimp only
        omega), List.take_append_drop]

/-- A walk that goes on after a cut has settled what it has passed, and what is
ahead is as settled as the sweep after the cut has left it. -/
theorem Tape.Settles.resume {P : Standard} {start reach : Nat} {text : Text} {cut : Cut}
    {token : Chunk} {more : List Chunk} (hcovers : t.Covers text start)
    (hahead : t.ahead = skipped ++ (covered ++ rest)) (hfits : cut.Fits covered)
    (htoken : token.isToken = true) (hextent : token.extent = cut.matched.length)
    (hfront : rule ∈ earlier ∨ rule = clause → (rule ∈ earlier → Settled P t.offset t.ahead) →
      Settled P t.offset (skipped ++ ofText cut.before))
    (hkeeps : ∀ m, Settled (P.beyond m (some (t.offset + extents skipped + cut.segment.length)))
      (t.offset + extents skipped + cut.before.length) (Tape.leftover cut token rest) →
      Settled (P.beyond m (some reach)) (t.offset + extents skipped + cut.before.length)
        (token :: more))
    (hsettles : rule ∈ earlier → Settled P (t.offset + extents skipped) (covered ++ rest) →
      Settled P (t.offset + extents skipped + cut.before.length) (token :: more)) :
    Tape.Settles P rule earlier clause start t
      ((t.pass skipped (covered ++ rest)).resume cut token ⟨token :: more, some reach⟩) where
  keeps := fun m h => by
    refine Settled.resume (hcovers.pass hahead) rfl hfits htoken hextent hkeeps ?_
    simpa [Tape.pass, hahead] using h
  passed := fun hrule hearlier h => by
    have hfront := hfront hrule hearlier
    simp only [Tape.resume, Tape.pass]
    rw [List.append_assoc t.passed, Settled.append, Settled.append, hcovers.passed]
    exact ⟨⟨h, hfront⟩, .token htoken⟩
  ahead := fun hrule h => by
    rw [hahead, Settled.append] at h
    exact (hsettles hrule h.2).2

/-- A cut within a settled plain chunk leaves it settled. -/
theorem Settled.split {P : Standard} (hereditary : P.Hereditary) {offset : Nat} {cut : Cut}
    {token : Chunk} {text : Text} (hfits : cut.Fits [.plain text]) (htext : cut.segment = text)
    (htoken : token.isToken = true) (hextent : token.extent = cut.matched.length)
    (h : Settled P offset ([.plain text] ++ rest)) :
    Settled P (offset + cut.before.length) (Tape.leftover cut token rest) := by
  have hjoin := hfits.length_join
  rw [append, extents_cons, extents_nil, extent_plain] at h
  rw [extents_cons, extents_nil, extent_plain] at hjoin
  rw [Tape.leftover, ← List.singleton_append, append, append, extents_cons, extents_nil,
    extents_ofText, hextent]
  refine ⟨.token htoken, .ofText fun _ => ?_, ?_⟩
  · have hplain := h.1.1 text rfl
    rw [← htext, ← hfits.join] at hplain
    exact hereditary.right (hereditary.right hplain)
  · have hend : offset + cut.before.length + (cut.matched.length + 0) + cut.after.length =
        offset + (text.length + 0) := by
      omega
    rw [hend]
    exact h.2

/-- **What a cut means for what is settled.** -/
theorem cut_settles (hlead : Strip.Leading enter) (henter : Strip.Saturating P rule enter)
    (hown : rule.SettlesOwn P) (hon : t.On s) (hcuts : s.Cuts (t.passed ++ t.ahead)) {cut : Cut}
    {chunk : Text} {more : List Chunk} (hplain : t.ahead = .plain chunk :: more)
    (hchosen : Tape.Chosen s.text clause t chunk more (.cut skipped covered rest cut))
    (hahead : t.ahead = skipped ++ (covered ++ rest)) (hfits : cut.Fits covered) :
    Triple (fun _ => True)
      ((t.pass skipped (covered ++ rest)).replace enter s.text s.base earlier clause rest cut)
      (fun t' _ => Tape.Settles (P s.text) rule earlier clause s.offset t t') fun _ _ => True := by
  have hsegment := Tape.segment_eq (hcuts.ahead hon) hplain hchosen
  have hpass := hon.pass hahead
  have hcuts : s.Cuts ((t.pass skipped (covered ++ rest)).passed ++ (covered ++ rest)) := by
    simpa [Tape.pass, hahead] using hcuts
  have hfront (hrule : rule ∈ earlier ∨ rule = clause)
      (hearlier : rule ∈ earlier → Settled (P s.text) t.offset t.ahead) :
      Settled (P s.text) t.offset (skipped ++ ofText cut.before) := by
    rcases hrule with hrule | rfl
    · have h := hearlier hrule
      obtain ⟨front, behind, tail, rfl, rfl⟩ := Tape.before_eq hchosen hsegment
      rw [hahead, Settled.append] at h
      rw [Settled.append]
      exact ⟨h.1, .ofText fun _ => (hown.hereditary s.text).left (h.2.1 _ rfl)⟩
    · exact hown.cut hplain hon.covers.ahead hchosen
  refine hlead.replace_triple hpass.covers rfl hfits
    (tokenOf_cuts henter.cutting cut.matched) ?_ ?_
  · intro hone token r htoken hextent _
    refine Tape.Settles.resume hon.covers hahead hfits htoken hextent hfront (fun _ h => h) ?_
    intro _ h
    obtain ⟨front, _, tail, rfl, -⟩ := Tape.before_eq hchosen hsegment
    obtain rfl : tail = [] := List.length_eq_zero_iff.mp (by simpa using hone)
    refine .split (hown.hereditary s.text) hfits ?_ htoken hextent h
    simpa [textOf, Chunk.text] using hsegment
  · intro _ token htoken hextent hrematch
    rintro r ⟨r₀, hmatched, rfl⟩
    have hrest := hcuts.leftover hpass rfl hsegment hfits hmatched
    refine ((henter _ hrematch).imp (fun _ (_ : True) => hrest) ?_ fun _ _ h => h) _ trivial
    rintro _ r ⟨-, hsettles⟩ more reach rfl hreach hcover
    refine Tape.Settles.resume hon.covers hahead hfits htoken hextent hfront hsettles.keeps ?_
    intro hrule h
    rw [Settled.append] at h
    refine hsettles.settles hrule (.leftover hfits htoken hextent ?_)
    exact h.2.imp fun _ _ _ h _ _ _ _ => h

/-- **What a step means for what is settled.**  Where a walk stops for good,
what is ahead is settled: because the rule itself found nothing there, or
because it was settled before. -/
theorem step_settles (hlead : Strip.Leading enter) (henter : Strip.Saturating P rule enter)
    (hown : rule.SettlesOwn P) (hon : t.On s) (hcuts : s.Cuts (t.passed ++ t.ahead)) :
    Triple (fun _ => True) (t.step enter limits s.text s.base earlier clause)
      (fun next _ =>
        (∀ t', next = some t' → Tape.Settles (P s.text) rule earlier clause s.offset t t') ∧
        (next = none → rule ∈ earlier ∨ rule = clause →
          (rule ∈ earlier → Settled (P s.text) t.offset t.ahead) →
          Settled ((P s.text).beyond 0 t.reach) t.offset t.ahead →
          Settled (P s.text) t.offset t.ahead))
      fun _ _ => True := by
  have hcharge : Triple (fun _ => True) (charge limits) (fun _ _ => True) fun _ _ => True :=
    .intro _
  refine Tape.step_triple hon.covers.ahead (fun hover r _ => ⟨?_, ?_⟩) (fun _ _ _ _ => trivial)
    hcharge (fun token rest hahead htoken _ _ r _ => ⟨?_, ?_⟩)
    fun chunk more move hplain _ _ hchosen hfits => ?_
  · exact fun _ h => nomatch h
  · intro _ _ _ hbeyond
    rcases hover with hnil | hreach
    · rw [hnil]
      trivial
    · obtain ⟨e, he, hle⟩ := (Option.any_eq_true _ _).mp hreach
      have hle : e ≤ t.offset := of_decide_eq_true hle
      exact hbeyond.imp fun o text ho h => h e he (Nat.zero_le _) (Nat.le_trans hle ho)
  · rintro _ ⟨⟩
    exact .pass hon.covers.passed.symm hahead fun _ _ => .token htoken
  · exact fun h => nomatch h
  · cases move with
    | stop =>
      refine fun r _ => ⟨fun _ h => (nomatch h), fun _ hrule hearlier _ => ?_⟩
      rcases hrule with hrule | rfl
      · exact hearlier hrule
      · exact hown.stop hplain hon.covers.ahead hchosen
    | pass skipped rest =>
      refine fun r _ => ⟨?_, fun h => nomatch h⟩
      rintro _ ⟨⟩
      refine .pass hon.covers.passed.symm hfits fun hrule hearlier => ?_
      rcases hrule with hrule | rfl
      · have h := hearlier hrule
        rw [show t.ahead = skipped ++ rest from hfits, Settled.append] at h
        exact h.1
      · exact hown.pass hplain hon.covers.ahead hchosen
    | cut skipped covered rest cut =>
      refine (cut_settles hlead henter hown hon hcuts hplain hchosen hfits.1 hfits.2).post
        fun t' r h => ⟨?_, fun h => nomatch h⟩
      rintro _ ⟨⟩
      exact h

/-! ### Sweeps and their recursion -/

/-- What is known on the way of a rule, after the walks of those before it. -/
structure Tape.Settling (P : Text → Standard) (rule : Clause) (s : Strip) (earlier : List Clause)
    (clause : Clause) (t : Tape) : Prop where
  cuts : s.Cuts (t.passed ++ t.ahead)
  keeps : ∀ m, Settled ((P s.text).beyond m s.reach) s.offset s.chunks →
    Settled ((P s.text).beyond m t.reach) s.offset (t.passed ++ t.ahead)
  passed : rule ∈ earlier ∨ rule = clause →
    Settled ((P s.text).beyond 0 s.reach) s.offset s.chunks → Settled (P s.text) s.offset t.passed
  ahead : rule ∈ earlier → Settled ((P s.text).beyond 0 s.reach) s.offset s.chunks →
    Settled (P s.text) t.offset t.ahead

namespace Tape.Settling

variable {t' : Tape}

/-- At the start of a walk. -/
theorem start {state : Strip.Swept} (hcuts : s.Cuts state.chunks)
    (h : Strip.Settles P rule s earlier state) :
    Tape.Settling P rule s earlier clause ⟨[], state.chunks, s.offset, state.reach⟩ :=
  ⟨hcuts, h.keeps, fun _ _ => trivial, h.settles⟩

/-- After one more step. -/
theorem step (h : Tape.Settling P rule s earlier clause t)
    (hstep : Tape.Settles (P s.text) rule earlier clause s.offset t t')
    (hcuts : s.Cuts (t'.passed ++ t'.ahead)) : Tape.Settling P rule s earlier clause t' where
  cuts := hcuts
  keeps := fun m hm => hstep.keeps m (h.keeps m hm)
  passed := fun hrule h0 =>
    hstep.passed hrule (fun hearlier => h.ahead hearlier h0) (h.passed hrule h0)
  ahead := fun hrule h0 => hstep.ahead hrule (h.ahead hrule h0)

/-- At the end of a walk. -/
theorem settles (h : Tape.Settling P rule s earlier clause t) (hon : t.On s)
    (hend : rule ∈ earlier ∨ rule = clause →
      (rule ∈ earlier → Settled (P s.text) t.offset t.ahead) →
      Settled ((P s.text).beyond 0 t.reach) t.offset t.ahead →
      Settled (P s.text) t.offset t.ahead) :
    Strip.Settles P rule s (earlier ++ [clause]) ⟨t.passed ++ t.ahead, t.reach⟩ where
  keeps := h.keeps
  settles := fun hrule h0 => by
    rw [List.mem_append, List.mem_singleton] at hrule
    have hbeyond := h.keeps 0 h0
    rw [Settled.append, hon.covers.passed] at hbeyond
    rw [Settled.append, hon.covers.passed]
    exact ⟨h.passed hrule h0, hend hrule (fun hearlier => h.ahead hearlier h0) hbeyond.2⟩

end Tape.Settling

/-- What the rules before and a rule leave, when that rule has walked. -/
theorem walk_settles (hlead : Strip.Leading enter) (henter : Strip.Saturating P rule enter)
    (hown : rule.SettlesOwn P) {state : Strip.Swept} (hstate : s.Leads state) :
    Triple (fun _ => s.Cuts state.chunks ∧ Strip.Settles P rule s earlier state)
      (s.walk Tape.step enter limits earlier clause state)
      (fun swept _ => s.Leads swept ∧ s.Cuts swept.chunks ∧
        Strip.Settles P rule s (earlier ++ [clause]) swept) fun _ _ => True := by
  refine hlead.walk_triple hstate (fun t _ => Tape.Settling P rule s earlier clause t)
    (fun swept _ => s.Cuts swept.chunks ∧ Strip.Settles P rule s (earlier ++ [clause]) swept) ?_
    fun _ h => .start h.1 h.2
  intro t hon r h
  refine ((step_settles hlead henter hown hon h.cuts).also
    (step_cuts hlead henter.cutting hon h.cuts)).post ?_ r trivial
  rintro next r ⟨⟨hsome, hnone⟩, hcuts⟩
  exact ⟨fun hnext => ⟨h.cuts, h.settles hon (hnone hnext)⟩,
    fun t' hnext => h.step (hsome t' hnext) (hcuts t' hnext)⟩

/-- **Sweeps settle what they should** if those one recursion deeper do. -/
theorem run_saturating (hlead : Strip.Leading enter) (henter : Strip.Saturating P rule enter)
    (hown : rule.SettlesOwn P) (hs : s.Covers) :
    Triple (fun _ => s.Cuts s.chunks) (s.run Tape.step enter limits)
      (fun swept _ => s.Cuts swept.chunks ∧ Strip.Settles P rule s s.clauses swept)
      fun _ _ => True := by
  refine (Strip.Leading.run_triple hs (fun earlier state _ =>
    s.Cuts state.chunks ∧ Strip.Settles P rule s earlier state) ?_).imp
    (fun _ h => ⟨h, ⟨fun _ h => h, fun h => nomatch h⟩⟩) (fun _ _ h => h.2) fun _ _ h => h
  exact fun earlier clause later _ state hstate => walk_settles hlead henter hown hstate

end Step

/-- **Every way of going deeper settles what it should.** -/
theorem descend_saturating {P : Text → Standard} {rule : Clause} (hown : rule.SettlesOwn P)
    (limits : Limits) (levels depth : Nat) :
    Strip.Saturating P rule (Strip.descend Tape.step limits levels depth) :=
  Strip.descend_triple (fun _ s _ => s.Cuts s.chunks)
    (fun _ s swept _ => s.Cuts swept.chunks ∧ Strip.Settles P rule s s.clauses swept)
    (fun _ _ _ => refuse_triple fun _ _ _ _ _ => trivial) (fun _ _ _ _ h => h)
    (fun _ _ hlead henter _ hs => run_saturating hlead henter hown hs) levels depth

/-! ### Runs -/

/-- A grammar is resolved in the store that a run starts with. -/
theorem resolve_triple {store : Store} {ref : Ref} {resolution : Resolution}
    (h : (store.resolve ref).map (·.1) = .ok resolution) :
    Triple (fun r => r.store = store) (RunM.resolve ref) (fun found _ => found = resolution)
      fun _ _ => True := by
  refine .resolve (fun r found store' events hr hfound => ?_) fun _ _ _ _ => trivial
  rw [← hr, hfound] at h
  exact Except.ok.inj h

/-- **A run leaves everything settled** for every rule of the grammar. -/
theorem tokenize_settled {P : Text → Standard} {rule : Clause} (hown : rule.SettlesOwn P)
    {limits : Limits} {frames : Option Nat} {store : Store} {text : Text} {ref : Ref}
    {resolution : Resolution} {chunks : List Chunk}
    (hresolve : (store.resolve ref).map (·.1) = .ok resolution)
    (hrule : rule ∈ resolution.clauses)
    (h : (tokenize limits frames store text ref).result = .ok chunks) :
    Cuts text chunks ∧ Settled (P text) 0 chunks := by
  have hchunks : Triple (fun r => r.store = store)
      (Strip.chunksOf (Strip.descend Tape.step limits (Tokenizer.levels limits frames) 0) false
        text ref) (fun cs _ => Cuts text cs ∧ Settled (P text) 0 cs) fun _ _ => True := by
    refine Strip.chunksOf_triple (resolve_triple hresolve) (fun _ _ _ h => h) ?_ ?_
    · rintro _ _ rfl _
      exact ⟨.ofText [], trivial⟩
    · rintro found - r rfl
      refine (descend_saturating hown limits _ 0 _ (.whole text found.clauses)).imp
        (fun _ (_ : True) => .plain text) ?_ (fun _ _ h => h) r trivial
      rintro swept _ ⟨hcuts, hsettles⟩
      exact ⟨hcuts, hsettles.settles hrule .beyond_none⟩
  have hend := tokenize_of_triple store hchunks rfl
  rwa [h] at hend

end Highlight
