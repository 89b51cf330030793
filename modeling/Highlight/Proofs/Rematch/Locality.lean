/-
# Rematches are local

Every sweep of a run starts where it should and, if it is a rematch, changes
nothing but what is between its start and the offset that it reports to have
reached (`runWatched_eq_run`).

A greedy rule may match beyond the region of its rematch, and a merge there
starts a rematch of its own that reaches farther still.  What carries the
argument through is what walks keep of their site
(`Highlight.Proofs.Rematch.Site`): the cells of a sweep then and now differ in a
region at their start, and the region ends, then as now, at the offset reached.
-/

import Highlight.Proofs.Rematch.Watch
import Highlight.Proofs.Steps.Way

namespace Highlight

open Buffer Chunk

/-! ### Going deeper -/

/-- Two ways of going deeper make no difference at sites where a sweep may
start, and leave what a sweep may. -/
def Confines (enter enter' : Enter) : Prop :=
  ∀ (p : Site) (clauses : List Clause) (buffer : Buffer),
    buffer.Lists (p.front ++ p.cells) → p.Ready →
    RunM.Agrees (fun swept swept' => swept = swept' ∧ swept.Leaves p)
      (enter (p.sweep clauses buffer)) (enter' (p.sweep clauses buffer))

/-- Two ways of going deeper make no difference to tokens, which are as long as
the matched text. -/
def Tokens (enter enter' : Enter) : Prop :=
  ∀ (clause : Clause) (matched : Text),
    RunM.Agrees (fun token token' => token = token' ∧ token.isToken = true ∧
        token.extent = matched.length ∧ Cuts matched [token])
      (tokenOf enter clause matched) (tokenOf enter' clause matched)

/-- The chunks of a text are the same, if sweeps are. -/
theorem Confines.chunksOf_eq {enter enter' : Enter} (h : Confines enter enter') (nested : Bool)
    (text : Text) (ref : Ref) :
    chunksOf enter nested text ref = chunksOf enter' nested text ref := by
  refine ((chunksOf_confined (fun _ => True) (fun _ => trivial) ?_).imp fun _ _ h => h.1).eq
  intro _ clauses b new hlists
  have hsweep := h (.whole text new) clauses b hlists (Site.ready_whole text new)
  exact hsweep.imp fun _ _ h => ⟨h.1, trivial⟩

/-- The token of a matched text is the same, if sweeps are. -/
theorem Confines.tokenOf_eq {enter enter' : Enter} (h : Confines enter enter') (clause : Clause)
    (matched : Text) : tokenOf enter clause matched = tokenOf enter' clause matched := by
  unfold tokenOf
  cases clause.rule.inside with
  | none => rfl
  | some id =>
    dsimp only
    rw [h.chunksOf_eq]

/-- Tokens are the same, and as long as the matched text, if sweeps are the
same. -/
theorem Confines.tokens {limits : Limits} {levels depth : Nat} {enter' : Enter}
    (h : Confines (Tokenizer.descend Walk.step limits levels depth) enter') :
    Tokens (Tokenizer.descend Walk.step limits levels depth) enter' := by
  intro clause matched
  rw [← h.tokenOf_eq, Highlight.tokenOf_eq (descend_simulates step_simulates limits levels depth)]
  have hextent := Strip.tokenOf_extent (P := fun _ => True)
    (Strip.descend Tape.step limits levels depth) clause matched
  have hcuts := @tokenOf_cuts _ clause (descend_cutting limits levels depth) matched
  exact .of_triple ((hextent.also hcuts).post fun _ _ h => ⟨h.1.1, h.1.2, h.2⟩)

/-! ### Steps -/

section Step

variable {enter enter' : Enter} {limits : Limits} {p : Site} {earlier : List Clause}
  {clause : Clause} {passed covered rest : List Cell} {w : Walk} {cut : Cut}

/-- Cutting a match out makes no difference, and stays on the way. -/
theorem replace_confined (henter : Confines enter enter') (htokens : Tokens enter enter')
    (h : w.Over p passed (covered ++ rest)) (hfits : cut.Fits (chunks covered))
    (hsegment : cut.segment = textOf (chunks covered)) :
    RunM.Agrees (fun w' w'' => w' = w'' ∧ w'.At p ∧ True)
      (w.replace enter p.text earlier clause cut) (w.replace enter' p.text earlier clause cut) := by
  rw [Walk.replace_eq, Walk.replace_eq]
  refine (splice_confined h hfits hsegment (fun _ h => h) (htokens clause cut.matched)).bind ?_
  rintro s _ ⟨rfl, -, before, after, hs⟩
  have hrematch := henter _ earlier s.buffer hs.spliced (h.rematch_ready hs.puts)
  exact resume_confined (fun _ => True) h hs trivial
    (hrematch.imp fun _ _ h => ⟨h.1, h.2, trivial⟩)

/-- **A step makes no difference**, and stays on the way. -/
theorem step_confined (henter : Confines enter enter') (htokens : Tokens enter enter')
    (hat : w.At p) :
    RunM.Agrees (fun next next' => next = next' ∧ ∀ w', next = some w' → w'.At p ∧ True)
      (w.step enter limits p.text earlier clause) (w.step enter' limits p.text earlier clause) := by
  rw [Walk.step_eq, Walk.step_eq]
  refine (RunM.Agrees.of_triple (plan_triple limits clause hat)).bind ?_
  rintro plan _ ⟨rfl, hplan⟩
  cases hplan with
  | stop => exact .pure ⟨rfl, nofun⟩
  | skip passed rest cell w' _ hover =>
    exact some_agrees (.of_triple (skip_triple (fun _ => True) hover trivial))
  | cut passed covered rest w' cut _ hover hfits hsegment _ =>
    exact some_agrees (replace_confined henter htokens hover hfits hsegment)

end Step

/-! ### Every sweep under watch -/

/-- A sweep at a site where it may start is placed. -/
theorem Site.placed {p : Site} {clauses : List Clause} {buffer : Buffer}
    (hlists : buffer.Lists (p.front ++ p.cells)) : (p.sweep clauses buffer).Placed :=
  ⟨p.front, p.cells, hlists, rfl, rfl⟩

/-- **What a sweep leaves of its site is local**: where it has changed
nothing behind the offset that it has reached, the region in front of that
offset has kept its text, and begins with the token that it began with. -/
theorem Swept.Leaves.local {p : Site} {clauses : List Clause} {buffer : Buffer} {swept : Swept}
    (hswept : swept.Leaves p) (hlists : buffer.Lists (p.front ++ p.cells)) (hready : p.Ready) :
    (p.sweep clauses buffer).Local swept := by
  obtain ⟨cells', hleft, hrespects⟩ := hswept
  intro reach hreach
  have hreach : p.reach = some reach := hreach
  obtain ⟨first, hfirst, htoken⟩ := hready.token (by simp [hreach])
  have hle := hrespects.reach_le
  have hcuts := hready.respects.cuts
  have hcuts' := hrespects.cuts
  have hhead := hrespects.keeps first hfirst htoken
  rw [hreach] at hle
  cases hreach' : swept.reach with
  | none => rw [hreach'] at hle; cases hle
  | some reach' =>
    rw [hreach'] at hle
    cases hle with
    | some hle =>
      obtain ⟨middle, middle', rest, hne, hne', hcells, rfl, hend, hend'⟩ :=
        hrespects.changes reach' hreach'
      rw [hcells] at hlists hfirst hcuts
      rw [chunks_append] at hcuts hcuts'
      refine ⟨⟨reach', hle, rfl⟩, p.front, middle, middle', rest, first, hlists, hleft, rfl, rfl,
        hreach'.trans (congrArg some hend.symm), ?_, htoken, ?_, ?_⟩
      · rw [hcuts.slice, hcuts'.slice, hend, hend']
      · rwa [List.head?_append_of_ne_nil _ hne] at hfirst
      · rwa [List.head?_append_of_ne_nil _ hne'] at hhead

/-- **Watching makes no difference**, at any depth. -/
theorem descend_confined (alarm : Failure) (limits : Limits) (levels depth : Nat) :
    Confines (Tokenizer.descend Walk.step limits levels depth)
      (Tokenizer.descendWatched alarm limits levels depth) := by
  induction levels generalizing depth with
  | zero =>
    intro p clauses buffer hlists hready
    refine Enter.watched_agrees (Site.placed hlists) (fun swept h => h.local hlists hready) ?_
    unfold Tokenizer.descend Tokenizer.refuse
    dsimp only
    split
    · exact .giveUp _ _
    · exact .bind_left _ fun _ => .giveUp _ _
  | succ levels ih =>
    intro p clauses buffer hlists hready
    refine Enter.watched_agrees (Site.placed hlists) (fun swept h => h.local hlists hready) ?_
    have henter := ih (depth + 1)
    refine .bind_left _ fun _ => ?_
    exact (walks_confined (fun _ => True)
      (fun earlier clause w hat => step_confined henter henter.tokens hat.1) clauses [] clauses
      buffer ⟨p.cells, hlists, hready.respects⟩ trivial).imp fun _ _ h => ⟨h.1, h.2.1⟩

/-- **Rematches are local**: whatever the alarm is, a run under watch is the
run.  So every sweep of every run starts with the first chunk after its handle,
at the offset of that chunk.  Every rematch that returns has reached no less far
than it was asked to, and has left as they were the token that it starts with
and all that is in front of its start or behind the offset it has reached. -/
theorem runWatched_eq_run (alarm : Failure) (limits : Limits) (frames : Option Nat) (text : Text)
    (ref : Ref) :
    Tokenizer.runWatched alarm limits frames text ref = Tokenizer.run limits frames text ref :=
  ((descend_confined alarm limits _ 0).chunksOf_eq false text ref).symm

/-- The string of `a'b'bxy` takes in a letter, so that there is a rematch. -/
example :
    (tokenize {} none quoting "a'b'bxy".toList (.grammar 0)).run.profile.rematchPasses = 1 := by
  decide +kernel

end Highlight
