/-
# Steps of a walk on its way

Wherever a walk is on its way over a site, what its rule is about to do is in order
(`plan_triple`), and whatever that is, the walk stays on its way: it passes a chunk
(`skip_triple`), or a token is put in the place of what the match covers
(`splice_confined`) and the walk goes on behind it (`resume_confined`).  Walks that stay
on their way leave a sweep what it may leave (`walks_confined`), and a text is cut into
what its sweep leaves (`chunksOf_confined`).

The last four compare two ways of going deeper that make no difference.  They carry
along whatever a sweep keeps of its buffer, so that what is shown of rematches and what
is shown of single steps both rest on them.
-/

import Highlight.Proofs.Rematch.Site
import Highlight.Proofs.Tape.Taking

namespace Highlight

open Buffer Chunk RunM

/-! ### What a rule is about to do -/

/-- What a rule is about to do from a walk on is in order: it passes the chunk
that it is at, or cuts out what its match takes. -/
inductive Walk.Plans (p : Site) (clause : Clause) (b : Buffer) : Plan → Prop where
  | stop : Plans p clause b .stop
  | skip (passed rest : List Cell) (cell : Cell) (w : Walk) (hbuffer : w.buffer = b)
    (h : w.Over p passed (cell :: rest)) : Plans p clause b (.skip w cell.2.extent)
  | cut (passed covered rest : List Cell) (w : Walk) (cut : Cut) (hbuffer : w.buffer = b)
    (h : w.Over p passed (covered ++ rest)) (hfits : cut.Fits (chunks covered))
    (hsegment : cut.segment = textOf (chunks covered))
    (htakes : cut.Takes clause.rule.greedy (chunks covered) (chunks rest)) :
    Plans p clause b (.cut w cut)

/-- If a rule makes out that there are too many chunks, then it reports how many chunks
and characters there are. -/
def Walk.Reports (text : Text) (w : Walk) (e : Failure) : Prop :=
  ∀ chunks length, e = .overrun chunks length → chunks = w.buffer.size ∧ length = text.length

section Plan

variable {limits : Limits} {p : Site} {clause : Clause} {passed ahead rest : List Cell} {w : Walk}

/-- Making an attempt does not report any chunks. -/
theorem charge_reports (text : Text) (w : Walk) :
    Triple (fun _ => True) (charge limits) (fun _ _ => True) fun e _ => w.Reports text e :=
  charge_triple (fun _ _ => trivial) fun _ _ _ _ => nofun

/-- What a greedy rule is about to do at a plain chunk is in order. -/
theorem greedyPlan_triple {chunk : Text} {more : List Chunk} (h : w.Over p passed ahead)
    (hahead : chunks ahead = .plain chunk :: more) (hgreedy : clause.rule.greedy = true) :
    Triple (fun _ => True)
      (do
        match ← w.greedyCut limits p.text clause with
        | none => return .stop
        | some (w, some cut) => return .cut w cut
        | some (w, none) =>
          let token ← RunM.value w.buffer w.handle
          return .skip w token.extent)
      (fun plan _ => Walk.Plans p clause w.buffer plan) fun e _ => w.Reports p.text e := by
  have hchosen : Tape.Chosen p.text clause (w.tape passed ahead) chunk more _ :=
    Tape.choose_cases h.covers.ahead chunk more
  have hfits : ((w.tape passed ahead).choose p.text clause chunk more).Fits _ :=
    Tape.choose_fits hahead h.covers.ahead
  have htakes (skipped covered rest : List Chunk) (cut : Cut)
      (hmove : (w.tape passed ahead).choose p.text clause chunk more =
        .cut skipped covered rest cut) : cut.Takes clause.rule.greedy covered rest :=
    Tape.takes_of_choose h.covers.ahead hahead hmove
  obtain ⟨found, heq, hfinds⟩ := h.tracks.greedyCut_eq h.covers.ahead limits clause
  rw [heq, bind_assoc]
  refine (charge_reports p.text w).bind fun _ => ?_
  rw [pure_bind]
  rw [Tape.choose, if_pos hgreedy] at hchosen hfits htakes
  generalize Tape.greedyMove p.text _ _ = move at hchosen hfits htakes hfinds
  cases hfinds with
  | nothing => exact .pure fun _ _ => .stop
  | token skipped rest cell hsplit =>
    subst hsplit
    have hvalue : RunM.value w.buffer cell.1 = pure cell.2 := RunM.value_eq h.lists (by simp)
    dsimp only
    rw [hvalue, pure_bind]
    exact .pure fun _ _ => .skip _ rest cell _ rfl h.pass
  | plain skipped covered rest cut hsplit =>
    subst hsplit
    exact .pure fun _ _ => .cut _ covered rest _ cut rfl h.pass hfits.2
      (Tape.segment_eq h.cuts_ahead hahead hchosen) (htakes _ _ _ _ rfl)

/-- What any other rule is about to do at a plain chunk is in order. -/
theorem localPlan_triple {cell : Cell} {chunk : Text} (h : w.Over p passed (cell :: rest))
    (hcell : cell.2 = .plain chunk) (hgreedy : clause.rule.greedy = false) :
    Triple (fun _ => True)
      (do
        match ← Walk.localCut limits clause chunk with
        | none => return .skip w chunk.length
        | some cut => return .cut w cut)
      (fun plan _ => Walk.Plans p clause w.buffer plan) fun e _ => w.Reports p.text e := by
  have hahead : chunks (cell :: rest) = .plain chunk :: chunks rest := by
    rw [chunks_cons, hcell]
  unfold Walk.localCut
  simp only [RunM.attempt, bind_assoc, pure_bind]
  refine (charge_reports p.text w).bind fun _ => ?_
  cases hfound : clause.rule.pattern.find? chunk 0 clause.rule.lookbehind with
  | none =>
    have hskip : Walk.Plans p clause w.buffer (.skip w cell.2.extent) :=
      .skip passed rest cell w rfl h
    rw [hcell, extent_plain] at hskip
    exact .pure fun _ _ => hskip
  | some m =>
    have hmove : (w.tape passed (cell :: rest)).choose p.text clause chunk (chunks rest) =
        .cut [] [.plain chunk] (chunks rest)
          { segment := chunk, covered := 1, offset := m.index, matched := m.text } := by
      rw [Tape.choose, if_neg (by simp [hgreedy]), hfound, Tape.localMove]
    have hfits : ((w.tape passed (cell :: rest)).choose p.text clause chunk (chunks rest)).Fits _ :=
      Tape.choose_fits hahead h.covers.ahead
    have htakes := Tape.takes_of_choose h.covers.ahead hahead hmove
    rw [hmove] at hfits
    have hcovered : chunks [cell] = [.plain chunk] := by
      rw [chunks_cons, hcell]
      rfl
    refine .pure fun _ _ => .cut passed [cell] rest w _ rfl h ?_ ?_ ?_
    · rw [hcovered]
      exact hfits.2
    · rw [hcovered]
      simp [textOf, Chunk.text]
    · rw [hcovered]
      exact htakes

/-- **What a rule is about to do is in order**, wherever its walk is. -/
theorem plan_triple (limits : Limits) (clause : Clause) (hat : w.At p) :
    Triple (fun _ => True) (w.plan limits p.text clause)
      (fun plan _ => Walk.Plans p clause w.buffer plan) fun e _ => w.Reports p.text e := by
  obtain ⟨passed, ahead, h⟩ := hat
  unfold Walk.plan
  split
  · exact .pure fun _ _ => .stop
  · rename_i hover
    split
    · refine .giveUp fun _ _ => ?_
      rintro _ _ ⟨⟩
      exact ⟨rfl, rfl⟩
    · cases ahead with
      | nil =>
        rw [h.tracks.isOver_eq] at hover
        exact absurd rfl hover
      | cons cell rest =>
        have hvalue : RunM.value w.buffer w.handle = pure cell.2 :=
          h.handle_eq ▸ RunM.value_eq h.lists (by simp)
        have hskip : Walk.Plans p clause w.buffer (.skip w cell.2.extent) :=
          .skip passed rest cell w rfl h
        rw [hvalue, pure_bind]
        cases hcell : cell.2 with
        | plain chunk =>
          dsimp only
          split
          · rename_i hgreedy
            have hahead : chunks (cell :: rest) = .plain chunk :: chunks rest := by
              rw [chunks_cons, hcell]
            exact greedyPlan_triple h hahead hgreedy
          · rename_i hgreedy
            exact localPlan_triple h hcell (by simpa using hgreedy)
        | leaf tag text | node tag parts =>
          rw [hcell] at hskip
          exact .pure fun _ _ => hskip

end Plan

/-! ### Carrying it out -/

/-- What putting a token among the cells of a walk does to its buffer: cells that begin
at the place of the walk have become the token, with what is before and after the
match. -/
structure Walk.Places (w : Walk) (cut : Cut) (s : Spliced)
    (left covered right before after : List Cell) : Prop where
  lists : w.buffer.Lists (left ++ (covered ++ right))
  spliced : s.buffer.Lists (left ++ before ++ (s.handle, s.token) :: (after ++ right))
  handle_eq : w.handle = firstHandle (covered ++ right)
  origin_eq : s.origin = lastHandle (left ++ before)
  offset_eq : w.offset = extents (chunks left)
  puts : cut.Puts covered before (s.handle, s.token) after

section Step

variable {enter enter' : Enter} {p : Site} {earlier : List Clause} {clause : Clause}
  {passed covered rest before after : List Cell} {w : Walk} {cut : Cut} {s : Walk.Spliced}

/-- Passing a chunk stays on the way, and leaves the buffer as it is. -/
theorem skip_triple (Inv : Buffer → Prop) {cell : Cell} (h : w.Over p passed (cell :: rest))
    (hinv : Inv w.buffer) :
    Triple (fun _ => True) (w.skip cell.2.extent) (fun w' _ => w'.At p ∧ Inv w'.buffer)
      fun _ _ => True := by
  obtain ⟨w', heq, hat⟩ := h.skip_eq
  have hway : Triple (fun _ => True) (w.skip cell.2.extent) (fun w' _ => w'.At p)
      fun _ _ => True := by
    rw [heq]
    exact .pure fun _ _ => hat
  have hbuffer : Triple (fun _ => True) (w.skip cell.2.extent) (fun w' _ => Inv w'.buffer)
      fun _ _ => True :=
    (Triple.intro _).bind fun _ => .pure fun _ _ => hinv
  exact hway.also hbuffer

/-- **Putting a token among the chunks makes no difference** if making it makes none. -/
theorem splice_confined {Made : Chunk → Prop} (h : w.Over p passed (covered ++ rest))
    (hfits : cut.Fits (chunks covered)) (hsegment : cut.segment = textOf (chunks covered))
    (hmade : ∀ token, Made token → token.isToken = true ∧ token.extent = cut.matched.length ∧
      Cuts cut.matched [token])
    (htoken : Agrees (fun token token' => token = token' ∧ Made token)
      (tokenOf enter clause cut.matched) (tokenOf enter' clause cut.matched)) :
    Agrees (fun s s' => s = s' ∧ Made s.token ∧ ∃ before after,
        w.Places cut s (p.front ++ passed) covered rest before after)
      (w.splice enter clause cut) (w.splice enter' clause cut) := by
  obtain ⟨chunk, more, hplain⟩ := hfits.plain
  obtain ⟨cell, cells, rfl, -, -⟩ := exists_cons_of_chunks hplain
  have hlists : w.buffer.Lists ((p.front ++ passed) ++ cell :: (cells ++ rest)) := by
    simpa using h.lists
  have hhandle : w.handle = cell.1 := h.handle_eq
  obtain ⟨before, _, _, hprev, hinsert, hremove, hcleared, hbefore⟩ :=
    RunM.clear_eq hlists cut (hfits.covered_eq.trans (length_chunks _))
  unfold Walk.splice
  simp only [hhandle, hprev, hinsert, hremove, pure_bind]
  refine htoken.bind ?_
  rintro token _ ⟨rfl, hmadeToken⟩
  obtain ⟨htoken, hextent, hcuts⟩ := hmade token hmadeToken
  obtain ⟨new, after, _, filled, _, hnew, hlast, hfilled, hafter⟩ :=
    RunM.fill_eq hcleared token cut.after
  simp only [hnew, hlast, pure_bind]
  refine .pure ⟨rfl, hmadeToken, before, after, ⟨hlists, hfilled, hhandle, rfl, ?_,
    ⟨hfits, hsegment, hbefore, hafter, htoken, hextent, hcuts⟩⟩⟩
  rw [h.offset_eq, Site.offset, chunks_append, extents_append]

/-- **Going on after a cut makes no difference** if the rematch makes none, and stays on
the way. -/
theorem resume_confined (Inv : Buffer → Prop) (h : w.Over p passed (covered ++ rest))
    (hs : w.Places cut s (p.front ++ passed) covered rest before after) (hinv : Inv s.buffer)
    (hrematch : Agrees
      (fun swept swept' => swept = swept' ∧
        swept.Leaves (w.rematchSite p passed before (s.handle, s.token) after rest cut) ∧
        Inv swept.buffer)
      (enter ((w.rematchSite p passed before (s.handle, s.token) after rest cut).sweep earlier
        s.buffer))
      (enter' ((w.rematchSite p passed before (s.handle, s.token) after rest cut).sweep earlier
        s.buffer))) :
    Agrees (fun w' w'' => w' = w'' ∧ w'.At p ∧ Inv w'.buffer)
      (w.resume enter p.text earlier cut s) (w.resume enter' p.text earlier cut s) := by
  -- The walk goes on in what the rematch has left, or in what the cut has.
  have hbehind {swept : Swept}
      (hswept : swept.Leaves (w.rematchSite p passed before (s.handle, s.token) after rest cut))
      (hinv : Inv swept.buffer) :
      Triple (fun _ => True) (w.behind cut s swept) (fun w' _ => w'.At p ∧ Inv w'.buffer)
        fun _ _ => True :=
    (h.behind_triple hs.puts hswept).also
      ((Triple.intro _).bind fun _ => .pure fun _ _ => hinv)
  unfold Walk.resume
  dsimp only
  split
  · rw [Site.sweep, h.offset_rematchSite hs.puts] at hrematch
    rw [hs.origin_eq]
    refine .bind_left _ fun _ => hrematch.bind ?_
    rintro swept _ ⟨rfl, hswept, hinv⟩
    exact .of_triple (hbehind hswept hinv)
  · have hleaves : Swept.Leaves (w.rematchSite p passed before (s.handle, s.token) after rest cut)
        ⟨s.buffer, some (w.offset + cut.segment.length)⟩ :=
      ⟨_, hs.spliced, (h.rematch_ready hs.puts).respects⟩
    exact .of_triple (hbehind hleaves hinv)

/-- A step goes where the walk that it ends with is. -/
theorem some_agrees {Inv : Walk → Prop} {m m' : RunM Walk}
    (h : Agrees (fun w' w'' => w' = w'' ∧ Inv w') m m') :
    Agrees (fun next next' => next = next' ∧ ∀ w', next = some w' → Inv w')
      (do return some (← m)) (do return some (← m')) := by
  refine h.bind ?_
  rintro w' _ ⟨rfl, hw'⟩
  refine .pure ⟨rfl, ?_⟩
  rintro _ ⟨⟩
  exact hw'

end Step

/-! ### Sweeps and their recursion -/

section Sweep

variable {stepper stepper' : Stepper} {enter enter' : Enter} {limits : Limits} {p : Site}
  (Inv : Buffer → Prop)

/-- Walks whose steps make no difference make none, and keep what the steps
keep. -/
theorem finish_confined (Inv : Walk → Prop) {step step' : Walk → RunM (Option Walk)}
    (hstep : ∀ w, Inv w → RunM.Agrees
      (fun next next' => next = next' ∧ ∀ w', next = some w' → Inv w') (step w) (step' w))
    (fuel : Nat) {w : Walk} (hw : Inv w) :
    RunM.Agrees (fun w' w'' => w' = w'' ∧ Inv w') (w.finish step fuel) (w.finish step' fuel) := by
  induction fuel generalizing w with
  | zero => exact fun r => .error _ r
  | succ fuel ih =>
    refine (hstep w hw).bind ?_
    rintro next _ ⟨rfl, hnext⟩
    cases next with
    | none => exact .pure ⟨rfl, hw⟩
    | some w' => exact ih (hnext w' rfl)

/-- The walk of a rule whose steps make no difference makes none. -/
theorem walk_confined {earlier : List Clause} {clause : Clause}
    (hstep : ∀ w, w.At p ∧ Inv w.buffer → RunM.Agrees
      (fun next next' => next = next' ∧ ∀ w', next = some w' → w'.At p ∧ Inv w'.buffer)
      (stepper enter limits p.text earlier clause w)
      (stepper' enter' limits p.text earlier clause w))
    (clauses : List Clause) (buffer : Buffer) {swept : Swept} (hswept : swept.Leaves p)
    (hinv : Inv swept.buffer) :
    RunM.Agrees (fun swept swept' => swept = swept' ∧ swept.Leaves p ∧ Inv swept.buffer)
      ((p.sweep clauses buffer).walk stepper enter limits earlier clause swept)
      ((p.sweep clauses buffer).walk stepper' enter' limits earlier clause swept) := by
  obtain ⟨cells', hlists, hrespects⟩ := hswept
  have hat : Walk.At p ⟨swept.buffer, firstHandle cells', p.offset, swept.reach⟩ :=
    ⟨[], cells', hlists, rfl, rfl, hrespects⟩
  unfold Sweep.walk Site.sweep
  dsimp only
  rw [RunM.next_eq hlists, pure_bind, pure_bind]
  refine (finish_confined (fun w => w.At p ∧ Inv w.buffer) hstep _ ⟨hat, hinv⟩).bind ?_
  rintro w _ ⟨rfl, ⟨passed, ahead, hover⟩, hinv⟩
  exact .pure ⟨rfl, ⟨passed ++ ahead, hover.lists, hover.respects⟩, hinv⟩

/-- The walks of rules whose steps make no difference make none. -/
theorem walks_confined
    (hstep : ∀ earlier clause w, w.At p ∧ Inv w.buffer → RunM.Agrees
      (fun next next' => next = next' ∧ ∀ w', next = some w' → w'.At p ∧ Inv w'.buffer)
      (stepper enter limits p.text earlier clause w)
      (stepper' enter' limits p.text earlier clause w))
    (clauses earlier later : List Clause) (buffer : Buffer) {swept : Swept}
    (hswept : swept.Leaves p) (hinv : Inv swept.buffer) :
    RunM.Agrees (fun swept swept' => swept = swept' ∧ swept.Leaves p ∧ Inv swept.buffer)
      ((p.sweep clauses buffer).walks stepper enter limits earlier later swept)
      ((p.sweep clauses buffer).walks stepper' enter' limits earlier later swept) := by
  induction later generalizing earlier swept with
  | nil => exact .pure ⟨rfl, hswept, hinv⟩
  | cons clause later ih =>
    refine (walk_confined Inv (hstep earlier clause) clauses buffer hswept hinv).bind ?_
    rintro swept _ ⟨rfl, hswept, hinv⟩
    exact ih _ hswept hinv

/-- Cutting a text makes no difference if the sweep over it makes none, and keeps what
is known of the chunks that the sweep leaves. -/
theorem chunksOf_confined (Left : List Chunk → Prop) {nested : Bool} {text : Text} {ref : Ref}
    (hempty : text = [] → Left [])
    (hsweep : text ≠ [] → ∀ clauses buffer new, buffer.Lists [(new, .plain text)] →
      RunM.Agrees (fun swept swept' => swept = swept' ∧ Left swept.buffer.toList)
        (enter ((Site.whole text new).sweep clauses buffer))
        (enter' ((Site.whole text new).sweep clauses buffer))) :
    RunM.Agrees (fun cs cs' => cs = cs' ∧ Left cs) (chunksOf enter nested text ref)
      (chunksOf enter' nested text ref) := by
  refine .bind_left _ fun resolution => .bind_left _ fun _ => ?_
  split
  · rename_i htext
    exact .pure ⟨rfl, hempty htext⟩
  · rename_i htext
    obtain ⟨new, b, heq, hlists⟩ :=
      RunM.insertAfter_eq (show Buffer.empty.Lists ([] ++ []) from Lists.empty) (.plain text)
    rw [show lastHandle [] = head from rfl] at heq
    rw [heq, pure_bind, pure_bind]
    refine (hsweep htext resolution.clauses b new hlists).bind ?_
    rintro swept _ ⟨rfl, hleft⟩
    exact .pure ⟨rfl, hleft⟩

end Sweep

end Highlight
