/-
# Every step keeps the chunks neat

The chunks of a level are neat whenever a rule is about to take a step, and
after it has put a token among them (`Neat`).  A `Watch` that asks for no more
than what follows from that, and from what a cut does to the chunks of its
buffer (`Walk.Splices`), makes no difference to any run (`runUnder_eq`).

This is the one induction over runs on which the statements about every step
rest.  It goes as the one for rematches does
(`Highlight.Proofs.Rematch.Locality`): a sweep starts at a site, and walks stay
on their way over it.  What is new is that the whole buffer is neat, in front
of the sweep, too; the buffer is one for all the walks and rematches of a level,
and each of them leaves it neat.
-/

import Highlight.Proofs.Steps.Tidy
import Highlight.Proofs.Steps.Watch
import Highlight.Proofs.Steps.Way

namespace Highlight

open Buffer Chunk RunM

/-! ### What a cut does to a buffer -/

/-- What a cut has made of the buffer of a walk: a token has been put in the place of
the cells that its match takes, and the chunks have stayed neat. -/
structure Walk.Splices (text : Text) (clause : Clause) (w : Walk) (cut : Cut) (s : Spliced)
    (left covered right before after : List Cell) : Prop extends
    w.Places cut s left covered right before after where
  takes : cut.Takes clause.rule.greedy (chunks covered) (chunks right)
  neat : Neat text w.buffer.toList
  neat' : Neat text s.buffer.toList

namespace Walk.Splices

variable {text : Text} {clause : Clause} {w : Walk} {cut : Cut} {s : Spliced}
  {left covered right before after : List Cell}

/-- The match begins in the first chunk that is covered, and that one is plain. -/
theorem first (h : w.Splices text clause cut s left covered right before after) :
    ∃ cell more chunk, covered = cell :: more ∧ cell.2 = .plain chunk ∧
      (clause.rule.greedy = true → cut.before.length < chunk.length) := by
  obtain ⟨chunk, more, hplain⟩ := h.puts.fits.plain
  obtain ⟨cell, cells, rfl, hcell, -⟩ := exists_cons_of_chunks hplain
  refine ⟨cell, cells, chunk, rfl, hcell, fun hgreedy => ?_⟩
  obtain ⟨chunk', more', hplain', hlt⟩ := h.takes.inside hgreedy
  rw [hplain] at hplain'
  cases hplain'
  exact hlt

/-- **A token that is covered lies behind the start of the match**, and begins
before its end. -/
theorem within (h : w.Splices text clause cut s left covered right before after)
    {pre post : List Cell} {cell : Cell} (hcovered : covered = pre ++ cell :: post)
    (htoken : cell.2.isToken = true) :
    clause.rule.greedy = true ∧ cut.before.length < extents (chunks pre) ∧
      extents (chunks pre) < cut.before.length + s.token.extent := by
  obtain ⟨first, more, chunk, rfl, hfirst, hinside⟩ := h.first
  -- The first chunk is plain, so that it is in front of the token.
  obtain ⟨pre, rfl⟩ : ∃ pre', pre = first :: pre' := by
    cases pre with
    | nil =>
      cases hcovered
      rw [hfirst] at htoken
      cases htoken
    | cons _ pre =>
      cases hcovered
      exact ⟨pre, rfl⟩
  have hgreedy : clause.rule.greedy = true := by
    by_contra hgreedy
    have hone := h.takes.single (by simpa using hgreedy)
    rw [hcovered] at hone
    simp at hone
  have hshort := h.takes.short (chunks (first :: pre)) cell.2 (chunks post)
    (by rw [hcovered, chunks_append, chunks_cons cell]) htoken
  have hlt := hinside hgreedy
  rw [chunks_cons, hfirst, extents_cons, extent_plain] at hshort ⊢
  rw [h.puts.extent_eq]
  exact ⟨hgreedy, by omega, hshort⟩

end Walk.Splices

/-- A watch that is never alarmed where walks are on their way, chunks are neat, and
cuts do what they do. -/
structure Watch.Calm (watch : Watch) : Prop where
  around : ∀ p clause w, Walk.At p w → Neat p.text w.buffer.toList →
    watch.around p.text clause w
  cut : ∀ text clause w cut s left covered right before after,
    Walk.Splices text clause w cut s left covered right before after →
    watch.cut text clause w cut s

/-- Two ways of going deeper make no difference at sites where a sweep may
start in neat chunks, and leave the chunks neat. -/
def Tidies (enter enter' : Enter) : Prop :=
  ∀ (p : Site) (clauses : List Clause) (buffer : Buffer),
    buffer.Lists (p.front ++ p.cells) → p.Ready → Neat p.text buffer.toList →
    Agrees (fun swept swept' => swept = swept' ∧ swept.Leaves p ∧ Neat p.text swept.buffer.toList)
      (enter (p.sweep clauses buffer)) (enter' (p.sweep clauses buffer))

/-! ### Nested texts -/

section Nested

variable {enter enter' : Enter}

/-- The chunks of a text are the same, and neat, if sweeps leave theirs so. -/
theorem Tidies.chunksOf_agrees (h : Tidies enter enter') (nested : Bool) (text : Text)
    (ref : Ref) :
    Agrees (fun cs cs' => cs = cs' ∧ Neat text cs) (chunksOf enter nested text ref)
      (chunksOf enter' nested text ref) := by
  refine chunksOf_confined (Neat text) (fun htext => htext ▸ .nil) ?_
  intro htext clauses b new hlists
  have hneat : Neat text b.toList := by
    rw [hlists.toList_eq]
    exact .plain htext
  have hsweep := h (.whole text new) clauses b hlists (Site.ready_whole text new) hneat
  exact hsweep.imp fun _ _ h => ⟨h.1, h.2.2⟩

/-- The token of a matched text is the same, and neat, if sweeps leave their
chunks so. -/
theorem Tidies.tokenOf_agrees (h : Tidies enter enter') (clause : Clause) (matched : Text) :
    Agrees (fun token token' => token = token' ∧ token.isToken = true ∧
        token.extent = matched.length ∧ Neat matched [token])
      (tokenOf enter clause matched) (tokenOf enter' clause matched) := by
  have hcount {token : Chunk} (htoken : token.isToken = true ∧ token.extent = matched.length ∧
      Neat matched [token]) :
      Agrees (fun token token' => token = token' ∧ token.isToken = true ∧
          token.extent = matched.length ∧ Neat matched [token])
        (do count fun p => { p with tokenCount := p.tokenCount + 1 }
            return token)
        (do count fun p => { p with tokenCount := p.tokenCount + 1 }
            return token) :=
    .bind_left _ fun _ => .pure ⟨rfl, htoken⟩
  unfold tokenOf
  cases clause.rule.inside with
  | none => exact hcount ⟨rfl, rfl, .leaf clause matched⟩
  | some id =>
    dsimp only
    rw [← bind_pure_comp, ← bind_pure_comp]
    simp only [bind_assoc, pure_bind]
    refine (h.chunksOf_agrees true matched (.grammar id)).bind ?_
    rintro parts _ ⟨rfl, hparts⟩
    exact hcount ⟨rfl, rfl, hparts.node clause⟩

end Nested

/-! ### Steps -/

section Step

variable {enter enter' : Enter} {limits : Limits} {p : Site} {earlier : List Clause}
  {clause : Clause} {passed covered rest : List Cell} {w : Walk} {cut : Cut}

/-- **Putting a token among the chunks makes no difference**, and keeps them
neat. -/
theorem splice_kept (henter : Tidies enter enter') (h : w.Over p passed (covered ++ rest))
    (hneat : Neat p.text w.buffer.toList) (hfits : cut.Fits (chunks covered))
    (hsegment : cut.segment = textOf (chunks covered))
    (htakes : cut.Takes clause.rule.greedy (chunks covered) (chunks rest)) :
    Agrees (fun s s' => s = s' ∧ ∃ before after,
        w.Splices p.text clause cut s (p.front ++ passed) covered rest before after)
      (w.splice enter clause cut) (w.splice enter' clause cut) := by
  have htoken := henter.tokenOf_agrees clause cut.matched
  refine (splice_confined h hfits hsegment (fun _ h => ⟨h.1, h.2.1, h.2.2.cuts⟩) htoken).imp ?_
  rintro s _ ⟨rfl, ⟨htoken, -, htokenNeat⟩, before, after, hs⟩
  refine ⟨rfl, before, after, hs, htakes, hneat, ?_⟩
  rw [hs.lists.toList_eq, chunks_append, chunks_append covered] at hneat
  rw [hs.spliced.toList_eq, chunks_append, chunks_append, hs.puts.leftover_eq, hs.puts.before_eq]
  exact hneat.splice hsegment hfits htakes htoken htokenNeat

/-- **Going on after a cut makes no difference**, stays on the way, and keeps the
chunks neat. -/
theorem resume_kept (henter : Tidies enter enter') (h : w.Over p passed (covered ++ rest))
    {s : Walk.Spliced} {before after : List Cell}
    (hs : w.Splices p.text clause cut s (p.front ++ passed) covered rest before after) :
    Agrees (fun w' w'' => w' = w'' ∧ w'.At p ∧ Neat p.text w'.buffer.toList)
      (w.resume enter p.text earlier cut s) (w.resume enter' p.text earlier cut s) :=
  resume_confined (fun b => Neat p.text b.toList) h hs.toPlaces hs.neat'
    (henter _ earlier s.buffer hs.spliced (h.rematch_ready hs.puts) hs.neat')

/-- **Watching a step makes no difference** where the chunks are neat, and the
step keeps them so. -/
theorem step_kept {watch : Watch} (hwatch : watch.Calm) (alarm : Failure)
    (henter : Tidies enter enter') (hw : w.At p ∧ Neat p.text w.buffer.toList) :
    Agrees (fun next next' => next = next' ∧
        ∀ w', next = some w' → w'.At p ∧ Neat p.text w'.buffer.toList)
      (w.step enter limits p.text earlier clause)
      (Walk.stepWatched watch alarm enter' limits p.text earlier clause w) := by
  obtain ⟨hat, hneat⟩ := hw
  unfold Walk.stepWatched
  rw [Walk.step_eq, RunM.require_of (hwatch.around _ _ _ hat hneat), pure_bind]
  refine (RunM.Agrees.of_triple (plan_triple limits clause hat)).bind ?_
  rintro plan _ ⟨rfl, hplan⟩
  cases hplan with
  | stop => exact .pure ⟨rfl, nofun⟩
  | skip passed rest cell w' hbuffer hover =>
    rw [← hbuffer] at hneat
    exact some_agrees (.of_triple (skip_triple (fun b => Neat p.text b.toList) hover hneat))
  | cut passed covered rest w' cut hbuffer hover hfits hsegment htakes =>
    rw [← hbuffer] at hneat
    dsimp only
    rw [Walk.replace_eq, bind_assoc]
    refine (splice_kept henter hover hneat hfits hsegment htakes).bind ?_
    rintro s _ ⟨rfl, before, after, hs⟩
    rw [RunM.require_of (hwatch.cut _ _ _ _ _ _ _ _ _ _ hs), pure_bind]
    exact some_agrees (resume_kept henter hover hs)

end Step

/-! ### Runs -/

section Run

variable {watch : Watch}

/-- **Watching makes no difference**, at any depth. -/
theorem descend_tidies (hwatch : watch.Calm) (alarm : Failure) (limits : Limits)
    (levels depth : Nat) :
    Tidies (Tokenizer.descend Walk.step limits levels depth)
      (Tokenizer.descend (Walk.stepWatched watch alarm) limits levels depth) := by
  induction levels generalizing depth with
  | zero =>
    intro p clauses buffer _ _ _
    unfold Tokenizer.descend Tokenizer.refuse
    dsimp only
    split
    · exact .giveUp _ _
    · exact .bind_left _ fun _ => .giveUp _ _
  | succ levels ih =>
    intro p clauses buffer hlists hready hneat
    refine .bind_left _ fun _ => ?_
    exact walks_confined (fun b => Neat p.text b.toList)
      (fun _ _ _ hw => step_kept hwatch alarm (ih (depth + 1)) hw) clauses [] clauses buffer
      ⟨p.cells, hlists, hready.respects⟩ hneat

/-- **A watch that is never alarmed where chunks are neat makes no difference to
any run**, whatever the alarm is. -/
theorem runUnder_eq (hwatch : watch.Calm) (alarm : Failure) (limits : Limits)
    (frames : Option Nat) (text : Text) (ref : Ref) :
    Tokenizer.runUnder watch alarm limits frames text ref = Tokenizer.run limits frames text ref :=
  ((((descend_tidies hwatch alarm limits _ 0).chunksOf_agrees false text ref).imp
    fun _ _ h => h.1).eq).symm

/-- **The chunks of a result are neat.** -/
theorem tokenize_neat {limits : Limits} {frames : Option Nat} {store : Store} {text : Text}
    {ref : Ref} {chunks : List Chunk}
    (h : (tokenize limits frames store text ref).result = .ok chunks) : Neat text chunks := by
  have hcalm : Watch.Calm ⟨fun _ _ _ => True, fun _ _ _ _ _ => True⟩ :=
    ⟨fun _ _ _ _ _ => trivial, fun _ _ _ _ _ _ _ _ _ _ _ => trivial⟩
  have hneat : Triple (fun _ => True) (Tokenizer.run limits frames text ref)
      (fun cs _ => Neat text cs) fun _ _ => True :=
    ((descend_tidies hcalm .runaway limits _ 0).chunksOf_agrees false text ref).triple
  rw [run_eq] at hneat
  have hend := tokenize_of_triple store hneat trivial
  rw [h] at hend
  exact hend

end Run

end Highlight
