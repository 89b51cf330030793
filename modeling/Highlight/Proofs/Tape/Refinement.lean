/-
# Sweeps over lists are the sweeps of the tokenizer

The tokenizer and the sweeps over lists end alike from every run: with the
same chunks or the same failure, and with the same run left behind
(`run_eq`).  So every handle that the tokenizer uses is the head or live, and
it never meets a fault of its buffer, because sweeps over lists have no handles
and no faults.

The buffer of a walk lists three runs of cells: those in front of the sweep,
those that the rule has passed, and those ahead, with the handle at the first
of these (`Walk.Tracks`).  Two facts carry the argument through a rematch: the
chunks from the start of a sweep on cover the text from its offset to its end,
so that a place is found for every match; and the first cell of a sweep stays
what it is if it is a token, so that the walk can go on from it.
-/

import Highlight.Proofs.Buffer.Listing
import Highlight.Proofs.Tape.Halting
import Highlight.Proofs.Tape.Rules

namespace Highlight

open Buffer Chunk

/-! ### Actions on a listed buffer -/

namespace RunM

variable {b : Buffer} {pre post cells : List Cell} {cell : Cell}

/-- Using the head or a live handle leaves no trace. -/
theorem use_eq {handle : Nat} (h : handle = head ∨ b.isLive handle = true) :
    use b handle = pure () := by
  unfold use
  rcases h with h | h <;> simp [h]

theorem use_lastHandle (h : b.Lists (pre ++ post)) : use b (lastHandle pre) = pure () := by
  refine use_eq ?_
  rcases Lists.lastHandle_eq_or_mem pre with hhead | ⟨cell, hmem, heq⟩
  · exact Or.inl hhead
  · exact Or.inr (heq ▸ h.isLive_of_mem (List.mem_append_left _ hmem))

theorem use_of_mem (h : b.Lists cells) (hmem : cell ∈ cells) : use b cell.1 = pure () :=
  use_eq (Or.inr (h.isLive_of_mem hmem))

theorem next_eq (h : b.Lists (pre ++ post)) :
    next b (lastHandle pre) = pure (firstHandle post) := by
  rw [next, use_lastHandle h, pure_bind, h.next_lastHandle]
  rfl

/-- The handle after that of a cell. -/
theorem next_cell_eq (h : b.Lists (pre ++ cell :: post)) :
    next b cell.1 = pure (firstHandle post) := by
  have h : b.Lists ((pre ++ [cell]) ++ post) := by simpa using h
  rw [← lastHandle_concat pre cell]
  exact next_eq h

theorem prev_cell_eq (h : b.Lists (pre ++ cell :: post)) :
    prev b cell.1 = pure (lastHandle pre) := by
  have hprev := h.prev_firstHandle
  rw [prev, use_of_mem h (by simp), pure_bind]
  exact congrArg onBuffer hprev

theorem value_eq (h : b.Lists cells) (hmem : cell ∈ cells) : value b cell.1 = pure cell.2 := by
  rw [value, use_of_mem h hmem, pure_bind, h.value_of_mem hmem]
  rfl

theorem insertAfter_eq (h : b.Lists (pre ++ post)) (chunk : Chunk) :
    ∃ new b', insertAfter b (lastHandle pre) chunk = pure (new, b') ∧
      b'.Lists (pre ++ (new, chunk) :: post) := by
  obtain ⟨new, b', heq, hlists, -⟩ := h.insertAfter chunk
  refine ⟨new, b', ?_, hlists⟩
  rw [insertAfter, use_lastHandle h, pure_bind, heq]
  rfl

/-- Inserting a text inserts it as cells: one, or none if it is empty. -/
theorem insertText_eq (h : b.Lists (pre ++ post)) (text : Text) :
    ∃ new b', insertText b (lastHandle pre) text = pure (lastHandle (pre ++ new), b') ∧
      b'.Lists (pre ++ (new ++ post)) ∧ chunks new = ofText text := by
  unfold insertText ofText
  split
  · exact ⟨[], b, by simp, h, rfl⟩
  · obtain ⟨new, b', heq, hlists⟩ := insertAfter_eq h (.plain text)
    exact ⟨[(new, .plain text)], b', by simp [heq], hlists, rfl⟩

theorem removeRun_eq (h : b.Lists (pre ++ post)) (count : Nat) :
    ∃ b', removeRun b (lastHandle pre) count = pure b' ∧ b'.Lists (pre ++ post.drop count) := by
  obtain ⟨b', heq, hlists, -⟩ := h.removeRun count
  refine ⟨b', ?_, hlists⟩
  rw [removeRun, use_lastHandle h, pure_bind, heq]
  rfl

/-- What is in front of a match is put into a buffer in the place of what the
match covers. -/
theorem clear_eq (h : b.Lists (pre ++ cell :: (cells ++ post))) (cut : Cut)
    (hcovered : cut.covered = (cell :: cells).length) :
    ∃ new b₁ b₂, prev b cell.1 = pure (lastHandle pre) ∧
      insertText b (lastHandle pre) cut.before = pure (lastHandle (pre ++ new), b₁) ∧
      removeRun b₁ (lastHandle (pre ++ new)) cut.covered = pure b₂ ∧
      b₂.Lists (pre ++ new ++ post) ∧ chunks new = ofText cut.before := by
  obtain ⟨new, b₁, hinsert, hlists₁, hnew⟩ := insertText_eq h cut.before
  rw [← List.append_assoc] at hlists₁
  obtain ⟨b₂, hremove, hlists₂⟩ := removeRun_eq hlists₁ cut.covered
  rw [hcovered, ← List.cons_append, List.drop_left] at hlists₂
  exact ⟨new, b₁, b₂, prev_cell_eq h, hinsert, hcovered ▸ hremove, hlists₂, hnew⟩

/-- A token and what is after its match are put into a buffer. -/
theorem fill_eq (h : b.Lists (pre ++ post)) (token : Chunk) (after : Text) :
    ∃ new more b₁ b₂ last, insertAfter b (lastHandle pre) token = pure (new, b₁) ∧
      insertText b₁ new after = pure (last, b₂) ∧
      b₂.Lists (pre ++ (new, token) :: (more ++ post)) ∧ chunks more = ofText after := by
  obtain ⟨new, b₁, hinsert, hlists₁⟩ := insertAfter_eq h token
  have hlists₁ : b₁.Lists ((pre ++ [(new, token)]) ++ post) := by simpa using hlists₁
  obtain ⟨more, b₂, hafter, hlists₂, hmore⟩ := insertText_eq hlists₁ after
  rw [lastHandle_concat] at hafter
  exact ⟨new, more, b₁, b₂, _, hinsert, hafter, by simpa using hlists₂, hmore⟩

end RunM

/-! ### Finding a place -/

namespace Walk

variable {b : Buffer} {pre ahead : List Cell}

/-- The place of an offset is found in the buffer as in the list of its
chunks. -/
theorem seat_eq {target fuel offset : Nat} (h : b.Lists (pre ++ ahead)) (hle : offset ≤ target)
    (hlt : target < offset + extents (chunks ahead)) (hfuel : ahead.length < fuel) :
    ∃ skipped rest, ahead = skipped ++ rest ∧
      Tape.seat target offset (chunks ahead) = (chunks skipped, chunks rest) ∧
      seat b target fuel (firstHandle ahead) offset =
        pure (firstHandle rest, offset + extents (chunks skipped)) := by
  induction ahead generalizing fuel offset pre with
  | nil =>
    rw [show chunks [] = [] from rfl, extents_nil] at hlt
    omega
  | cons cell ahead ih =>
    obtain ⟨fuel, rfl⟩ := Nat.exists_eq_add_of_lt (Nat.zero_lt_of_lt hfuel)
    have hfirst : firstHandle (cell :: ahead) = cell.1 := rfl
    rw [chunks_cons, extents_cons] at hlt
    rw [hfirst, chunks_cons, Tape.seat, Nat.zero_add, seat, RunM.value_eq h (by simp), pure_bind]
    split
    · exact ⟨[], cell :: ahead, rfl, rfl, rfl⟩
    · rename_i hout
      have hnext : b.Lists ((pre ++ [cell]) ++ ahead) := by simpa using h
      rw [List.length_cons] at hfuel
      obtain ⟨skipped, rest, rfl, hseat, heq⟩ := ih hnext (Nat.le_of_not_lt hout)
        (by omega) (show _ < fuel by omega)
      refine ⟨cell :: skipped, rest, rfl, ?_, ?_⟩
      · rw [hseat]
        rfl
      · rw [RunM.next_cell_eq h, pure_bind, heq, chunks_cons, extents_cons, Nat.add_assoc]

/-- The chunks that a match covers are found in the buffer as in the list of
its chunks. -/
theorem cover_eq {fuel : Nat} (target offset count : Nat) (h : b.Lists (pre ++ ahead))
    (hfuel : ahead.length < fuel) :
    ∃ covered rest, ahead = covered ++ rest ∧
      Tape.cover target offset (chunks ahead) = (chunks covered, chunks rest) ∧
      cover b target fuel (firstHandle ahead) offset count =
        pure (count + covered.length, offset + extents (chunks covered)) := by
  induction ahead generalizing fuel offset count pre with
  | nil =>
    obtain ⟨fuel, rfl⟩ := Nat.exists_eq_add_of_lt (Nat.zero_lt_of_lt hfuel)
    exact ⟨[], [], rfl, rfl, rfl⟩
  | cons cell ahead ih =>
    obtain ⟨fuel, rfl⟩ := Nat.exists_eq_add_of_lt (Nat.zero_lt_of_lt hfuel)
    have hmem : cell ∈ pre ++ cell :: ahead := by simp
    have hfirst : firstHandle (cell :: ahead) = cell.1 := rfl
    rw [hfirst, chunks_cons, Tape.cover, Nat.zero_add, cover, if_neg (h.ne_tail_of_mem hmem),
      RunM.value_eq h hmem, pure_bind]
    split
    · have hnext : b.Lists ((pre ++ [cell]) ++ ahead) := by simpa using h
      rw [List.length_cons] at hfuel
      obtain ⟨covered, rest, rfl, hcover, heq⟩ := ih (offset + cell.2.extent) (count + 1) hnext
        (show _ < fuel by omega)
      refine ⟨cell :: covered, rest, rfl, ?_, ?_⟩
      · rw [hcover]
        rfl
      · rw [RunM.next_cell_eq h, pure_bind, heq, chunks_cons, extents_cons, List.length_cons,
          Nat.add_assoc, Nat.add_comm 1, Nat.add_assoc]
    · exact ⟨[], cell :: ahead, rfl, rfl, rfl⟩

end Walk

/-! ### Sweeps that end alike -/

/-- The first of some cells stays what it is if it is a token. -/
def Keeps (cells cells' : List Cell) : Prop :=
  ∀ cell, cells.head? = some cell → cell.2.isToken = true → cells'.head? = some cell

/-- A sweep of the tokenizer and a sweep over a list have left the same: the
buffer lists what was in front of the sweep and then the chunks of the list. -/
structure Swept.Matches (text : Text) (offset : Nat) (front cells : List Cell) (swept : Swept)
    (strip : Strip.Swept) : Prop where
  lists : ∃ cells', swept.buffer.Lists (front ++ cells') ∧ chunks cells' = strip.chunks ∧
    Keeps cells cells'
  reach_eq : swept.reach = strip.reach
  covers : offset + extents strip.chunks = text.length

/-- Two ways of going one recursion deeper end alike on every sweep whose
chunks cover the text. -/
def Simulates (enter : Enter) (enter' : Strip.Enter) : Prop :=
  ∀ (text : Text) (clauses : List Clause) (buffer : Buffer) (front cells : List Cell)
    (offset : Nat) (reach : Option Nat),
    buffer.Lists (front ++ cells) → offset + extents (chunks cells) = text.length →
    RunM.Agrees (Swept.Matches text offset front cells)
      (enter ⟨text, clauses, buffer, lastHandle front, offset, reach⟩)
      (enter' ⟨text, clauses, front.length, chunks cells, offset, reach⟩)

/-- The chunks of a text are the same, whichever way the sweeps go. -/
theorem chunksOf_eq {enter : Enter} {enter' : Strip.Enter} (h : Simulates enter enter')
    (nested : Bool) (text : Text) (ref : Ref) :
    chunksOf enter nested text ref = Strip.chunksOf enter' nested text ref := by
  refine RunM.Agrees.eq (.bind_left _ fun resolution => .bind_left _ fun _ => ?_)
  split
  · exact .refl _
  · have hempty : Buffer.empty.Lists ([] ++ []) := Lists.empty
    obtain ⟨new, b, heq, hlists⟩ := RunM.insertAfter_eq hempty (.plain text)
    have hhead : lastHandle [] = head := rfl
    rw [hhead] at heq
    rw [heq, pure_bind]
    refine (h text resolution.clauses b [] [(new, .plain text)] 0 none hlists ?_).bind ?_
    · simp [chunks]
    · rintro swept strip ⟨⟨cells, hcells, hchunks, -⟩, -, -⟩
      refine .pure ?_
      rw [← hchunks]
      exact hcells.toList_eq

/-- The token of a matched text is the same, whichever way the sweeps go. -/
theorem tokenOf_eq {enter : Enter} {enter' : Strip.Enter} (h : Simulates enter enter')
    (clause : Clause) (matched : Text) :
    tokenOf enter clause matched = Strip.tokenOf enter' clause matched := by
  unfold tokenOf Strip.tokenOf
  cases clause.rule.inside with
  | none => rfl
  | some id =>
    dsimp only
    rw [chunksOf_eq h]

/-! ### Walks that go alike -/

/-- A walk of the tokenizer and a walk over a list are at the same place: the
buffer lists what is in front of the sweep, what the rule has passed, and what
is ahead, and the handle is at the first cell ahead. -/
structure Walk.Tracks (front passed ahead : List Cell) (w : Walk) (t : Tape) : Prop where
  lists : w.buffer.Lists (front ++ (passed ++ ahead))
  passed_eq : chunks passed = t.passed
  ahead_eq : chunks ahead = t.ahead
  handle_eq : w.handle = firstHandle ahead
  offset_eq : w.offset = t.offset
  reach_eq : w.reach = t.reach

/-- A walk of the tokenizer and a walk over a list are at the same place, the
chunks cover the text, and the first cell of the sweep is what it was if it is
a token. -/
def Walk.Follows (text : Text) (start : Nat) (front cells : List Cell) (w : Walk) (t : Tape) :
    Prop :=
  ∃ passed ahead, w.Tracks front passed ahead t ∧ t.Covers text start ∧
    Keeps cells (passed ++ ahead)

namespace Walk.Tracks

variable {front passed ahead skipped rest : List Cell} {w : Walk} {t : Tape}

/-- Passing cells stays at the same place. -/
theorem pass (h : w.Tracks front passed (skipped ++ rest) t) :
    Walk.Tracks front (passed ++ skipped) rest
      { w with handle := firstHandle rest, offset := w.offset + extents (chunks skipped) }
      (t.pass (chunks skipped) (chunks rest)) where
  lists := by simpa using h.lists
  passed_eq := by simp [Tape.pass, h.passed_eq]
  ahead_eq := rfl
  handle_eq := rfl
  offset_eq := by simp [Tape.pass, h.offset_eq]
  reach_eq := h.reach_eq

/-- Skipping a cell stays at the same place. -/
theorem skip_eq {cell : Cell} (h : w.Tracks front passed (cell :: rest) t) :
    ∃ w', w.skip cell.2.extent = pure w' ∧
      Walk.Tracks front (passed ++ [cell]) rest w' (t.pass [cell.2] (chunks rest)) := by
  have hlists : w.buffer.Lists ((front ++ passed) ++ cell :: rest) := by simpa using h.lists
  have hpass := pass (show w.Tracks front passed ([cell] ++ rest) t from h)
  refine ⟨{ w with handle := firstHandle rest, offset := w.offset + cell.2.extent }, ?_, ?_⟩
  · rw [Walk.skip, show w.handle = cell.1 from h.handle_eq, RunM.next_cell_eq hlists, pure_bind]
  · simpa using hpass

/-- Both walks are over, or neither is. -/
theorem isOver_eq (h : w.Tracks front passed ahead t) :
    w.isOver = (t.ahead.isEmpty || t.reach.any (· ≤ t.offset)) := by
  have hempty : decide (w.handle = tail) = t.ahead.isEmpty := by
    rw [h.handle_eq, ← h.ahead_eq]
    cases ahead with
    | nil => rfl
    | cons cell ahead => exact decide_eq_false (h.lists.ne_tail_of_mem (by simp))
  rw [Walk.isOver, hempty, h.reach_eq, h.offset_eq]

/-- Both walks have as many chunks. -/
theorem size_eq (h : w.Tracks front passed ahead t) :
    w.buffer.size = ↑(front.length + t.passed.length + t.ahead.length) := by
  rw [h.lists.size_eq, ← h.passed_eq, ← h.ahead_eq, length_chunks, length_chunks,
    List.length_append, List.length_append, Nat.add_assoc]

end Walk.Tracks

/-- Going on after a cut goes alike: the token is still there after the
rematch, and the walk goes on behind it. -/
theorem resume_agrees {text : Text} {start : Nat} {t : Tape} {cut : Cut} {token : Chunk} {new : Nat}
    {front passed before more : List Cell} {swept : Swept} {strip : Strip.Swept}
    (hpassed : chunks passed = t.passed) (hcovers : t.Covers text start)
    (hbefore : chunks before = ofText cut.before) (htoken : token.isToken = true)
    (hswept : swept.Matches text (t.offset + cut.before.length) (front ++ passed ++ before)
      ((new, token) :: more) strip) :
    RunM.Agrees (fun w' t' => ∃ new ahead, Walk.Tracks front (passed ++ new) ahead w' t' ∧
        t'.Covers text start)
      (do
        let handle ← RunM.next swept.buffer new
        return Walk.mk swept.buffer handle (t.offset + cut.before.length + token.extent)
          (Walk.extend (Walk.extend t.reach (t.offset + cut.segment.length))
            (swept.reach.getD 0)))
      (pure (t.resume cut token strip)) := by
  obtain ⟨⟨cells, hlists, hchunks, hkeeps⟩, hreach, hcover⟩ := hswept
  -- The first cell is the new token, which the rematch has kept.
  obtain ⟨ahead, rfl⟩ : ∃ ahead, cells = (new, token) :: ahead :=
    List.head?_eq_some_iff.mp (hkeeps (new, token) rfl htoken)
  rw [RunM.next_cell_eq hlists, pure_bind]
  refine .pure ⟨before ++ [(new, token)], ahead, ?_, ?_⟩
  · constructor
    · simpa using hlists
    · simp [Tape.resume, hpassed, hbefore]
    · simp [Tape.resume, ← hchunks]
    · rfl
    · rfl
    · rw [Tape.resume, hreach]
  · obtain ⟨_, reach⟩ := strip
    cases hchunks
    exact hcovers.resume hcover

/-- Cutting a match out goes alike. -/
theorem replace_agrees {enter : Enter} {enter' : Strip.Enter} (henter : Simulates enter enter')
    {text : Text} {start : Nat} {earlier : List Clause} {clause : Clause} {w : Walk} {t : Tape}
    {cut : Cut} {front passed covered rest : List Cell}
    (h : w.Tracks front passed (covered ++ rest) t) (hcovers : t.Covers text start)
    (hfits : cut.Fits (chunks covered)) :
    RunM.Agrees (fun w' t' => ∃ new ahead, w'.Tracks front (passed ++ new) ahead t' ∧
        t'.Covers text start)
      (w.replace enter text earlier clause cut)
      (t.replace enter' text front.length earlier clause (chunks rest) cut) := by
  obtain ⟨chunk, more, hplain⟩ := hfits.plain
  obtain ⟨cell, covered, rfl, -, -⟩ := exists_cons_of_chunks hplain
  have hlists : w.buffer.Lists ((front ++ passed) ++ cell :: (covered ++ rest)) := by
    simpa using h.lists
  have hhandle : w.handle = cell.1 := h.handle_eq
  obtain ⟨before, _, _, hprev, hinsert, hremove, hcleared, hbefore⟩ :=
    RunM.clear_eq hlists cut (hfits.covered_eq.trans (length_chunks _))
  unfold Walk.replace Tape.replace
  rw [hhandle, h.offset_eq, h.reach_eq, hprev, pure_bind, hinsert, pure_bind]
  dsimp only
  rw [hremove, pure_bind, tokenOf_eq henter]
  refine (RunM.Agrees.of_triple (Strip.tokenOf_extent enter' clause cut.matched)).bind ?_
  rintro token _ ⟨rfl, htoken, hextent⟩
  obtain ⟨new, after, _, filled, _, hnew, hlast, hfilled, hafter⟩ :=
    RunM.fill_eq hcleared token cut.after
  rw [hnew, pure_bind]
  dsimp only
  rw [hlast, pure_bind]
  have hleft :
      chunks ((new, token) :: (after ++ rest)) = Tape.leftover cut token (chunks rest) := by
    rw [chunks_cons, chunks_append, hafter, Tape.leftover]
  have hleftover := hcovers.leftover (h.ahead_eq.symm.trans (chunks_append ..)) hfits hextent
  rw [← hleft] at hleftover
  split
  · have hrematch := henter text earlier filled (front ++ passed ++ before)
      ((new, token) :: (after ++ rest)) (t.offset + cut.before.length)
      (some (t.offset + cut.segment.length)) hfilled hleftover
    have hbase : (front ++ passed ++ before).length =
        front.length + (t.passed ++ ofText cut.before).length := by
      rw [← h.passed_eq, ← hbefore, List.append_assoc, List.length_append, List.length_append,
        List.length_append, length_chunks, length_chunks]
    rw [hbase, hleft] at hrematch
    exact .bind_left _ fun _ => hrematch.bind fun swept strip hswept =>
      resume_agrees h.passed_eq hcovers hbefore htoken hswept
  · rw [pure_bind, pure_bind]
    refine resume_agrees h.passed_eq hcovers hbefore htoken
      ⟨⟨_, hfilled, hleft, fun _ hhead _ => hhead⟩, rfl, ?_⟩
    rw [← hleft]
    exact hleftover

/-! ### Steps that go alike -/

/-- What a greedy rule finds in a buffer is the move that it makes over a
list. -/
inductive Walk.Finds (ahead : List Cell) (w : Walk) : Option (Walk × Option Cut) → Move → Prop where
  | nothing : Finds ahead w none .stop
  | token (skipped rest : List Cell) (cell : Cell) (h : ahead = skipped ++ cell :: rest) :
    Finds ahead w
      (some ({ w with handle := cell.1, offset := w.offset + extents (chunks skipped) }, none))
      (.pass (chunks skipped ++ [cell.2]) (chunks rest))
  | plain (skipped covered rest : List Cell) (cut : Cut)
    (h : ahead = skipped ++ (covered ++ rest)) :
    Finds ahead w
      (some ({ w with
        handle := firstHandle (covered ++ rest), offset := w.offset + extents (chunks skipped) },
        some cut))
      (.cut (chunks skipped) (chunks covered) (chunks rest) cut)

namespace Walk.Tracks

variable {front passed ahead skipped rest : List Cell} {cell : Cell} {w : Walk} {t : Tape}

/-- The chunk in which an offset lies is found in the buffer as in the list. -/
theorem seat_eq (h : w.Tracks front passed ahead t) {target : Nat} (hfrom : t.offset ≤ target)
    (hlt : target < t.offset + extents t.ahead) :
    ∃ skipped cell rest, ahead = skipped ++ cell :: rest ∧
      Tape.seat target t.offset t.ahead = (chunks skipped, cell.2 :: chunks rest) ∧
      Walk.seat w.buffer target (w.buffer.slots.size + 1) w.handle w.offset =
        pure (cell.1, w.offset + extents (chunks skipped)) := by
  rw [← h.ahead_eq, ← h.offset_eq] at hlt ⊢
  rw [← h.offset_eq] at hfrom
  have hlists : w.buffer.Lists ((front ++ passed) ++ ahead) := by simpa using h.lists
  have hlen := hlists.length_lt
  rw [List.length_append] at hlen
  obtain ⟨skipped, rest, rfl, hseat, heq⟩ := Walk.seat_eq hlists hfrom hlt
    (show ahead.length < w.buffer.slots.size + 1 by omega)
  obtain ⟨c, more, hrest, -⟩ := Tape.seat_spec hseat hfrom hlt
  obtain ⟨cell, rest, rfl, -, -⟩ := exists_cons_of_chunks hrest
  rw [h.handle_eq]
  exact ⟨skipped, cell, rest, rfl, hseat, heq⟩

/-- The chunks that a match covers from a cell on are found in the buffer as in
the list. -/
theorem cover_eq (h : w.Tracks front passed (skipped ++ cell :: rest) t) (target offset : Nat) :
    ∃ covered rest', cell :: rest = covered ++ rest' ∧
      Tape.cover target offset (cell.2 :: chunks rest) = (chunks covered, chunks rest') ∧
      Walk.cover w.buffer target (w.buffer.slots.size + 1) cell.1 offset 0 =
        pure (covered.length, offset + extents (chunks covered)) := by
  have hlists : w.buffer.Lists ((front ++ passed ++ skipped) ++ cell :: rest) := by
    simpa using h.lists
  have hlen := hlists.length_lt
  rw [List.length_append] at hlen
  obtain ⟨covered, rest', hsplit, hcover, heq⟩ := Walk.cover_eq target offset 0 hlists
    (show (cell :: rest).length < w.buffer.slots.size + 1 by omega)
  rw [Nat.zero_add] at heq
  exact ⟨covered, rest', hsplit, hcover, heq⟩

/-- A greedy rule finds in a buffer what it finds over a list, for the same
charge. -/
theorem greedyCut_eq {text : Text} (h : w.Tracks front passed ahead t)
    (hcover : t.offset + extents t.ahead = text.length) (limits : Limits) (clause : Clause) :
    ∃ found, w.greedyCut limits text clause = (do RunM.charge limits; return found) ∧
      w.Finds ahead found (t.greedyMove text
        (clause.rule.pattern.find? text t.offset clause.rule.lookbehind)) := by
  unfold Walk.greedyCut
  simp only [RunM.attempt, bind_assoc, pure_bind]
  rw [show w.offset = t.offset from h.offset_eq]
  cases hfound : clause.rule.pattern.find? text t.offset clause.rule.lookbehind with
  | none => exact ⟨none, rfl, .nothing⟩
  | some m =>
    unfold Tape.greedyMove
    dsimp only
    split
    · exact ⟨none, rfl, .nothing⟩
    · rename_i hindex
      have hfrom := Pattern.find?_index (by omega) hfound
      obtain ⟨skipped, cell, rest, rfl, hseat, heq⟩ := h.seat_eq hfrom (by omega)
      have hvalue : RunM.value w.buffer cell.1 = pure cell.2 := RunM.value_eq h.lists (by simp)
      rw [hseat, ← h.offset_eq, heq]
      simp only [pure_bind, hvalue]
      cases hcell : cell.2 with
      | plain chunk =>
        obtain ⟨covered, rest', hsplit, hcovered, heq'⟩ :=
          h.cover_eq m.stop (w.offset + extents (chunks skipped))
        rw [hcell] at hcovered
        simp only [isToken, heq', hcovered, pure_bind, length_chunks]
        have hfinds := Walk.Finds.plain (w := w) skipped covered rest'
          { segment := text.slice (w.offset + extents (chunks skipped))
              (w.offset + extents (chunks skipped) + extents (chunks covered))
            covered := covered.length
            offset := m.index - (w.offset + extents (chunks skipped))
            matched := m.text } (congrArg (skipped ++ ·) hsplit)
        rw [← hsplit] at hfinds
        exact ⟨_, rfl, hfinds⟩
      | leaf tag text | node tag parts =>
        have hfinds := Walk.Finds.token (w := w) skipped rest cell rfl
        rw [hcell] at hfinds
        exact ⟨_, rfl, hfinds⟩

end Walk.Tracks

/-- A cut keeps the first cell of the sweep if it is a token, because the first
cell that it covers is none. -/
theorem Keeps.of_plain {cells passed rest ahead : List Cell} {cell : Cell} {chunk : Text}
    (h : Keeps cells (passed ++ cell :: rest)) (hcell : cell.2 = .plain chunk) :
    Keeps cells (passed ++ ahead) := by
  intro first hfirst htoken
  have hhead := h first hfirst htoken
  cases passed with
  | nil =>
    cases hhead
    rw [hcell] at htoken
    cases htoken
  | cons _ _ => exact hhead

section Step

variable {enter : Enter} {enter' : Strip.Enter} {limits : Limits} {text : Text} {start : Nat}
  {earlier : List Clause} {clause : Clause} {front cells passed skipped covered rest : List Cell}
  {cell : Cell} {w : Walk} {t : Tape}

/-- A step over a cell goes alike. -/
theorem skip_agrees (h : w.Tracks front passed (cell :: rest) t)
    (hcovers : t.Covers text start) (hkeeps : Keeps cells (passed ++ cell :: rest)) :
    RunM.Agrees (Option.Rel (Walk.Follows text start front cells))
      (do return some (← w.skip cell.2.extent)) (pure (some (t.pass [cell.2] (chunks rest)))) := by
  obtain ⟨w', heq, hpass⟩ := h.skip_eq
  rw [heq, pure_bind]
  exact .pure (.some ⟨_, _, hpass, hcovers.pass h.ahead_eq.symm, by simpa using hkeeps⟩)

/-- A step that cuts a match out goes alike. -/
theorem cut_agrees (henter : Simulates enter enter') {cut : Cut}
    (h : w.Tracks front passed (covered ++ rest) t)
    (hcovers : t.Covers text start) (hkeeps : Keeps cells (passed ++ (covered ++ rest)))
    (hfits : cut.Fits (chunks covered)) :
    RunM.Agrees (Option.Rel (Walk.Follows text start front cells))
      (do return some (← w.replace enter text earlier clause cut))
      (do return some (← t.replace enter' text front.length earlier clause (chunks rest) cut)) := by
  refine (replace_agrees henter h hcovers hfits).bind ?_
  rintro w' t' ⟨new, ahead, htracks, hcovers'⟩
  refine .pure (.some ⟨_, _, htracks, hcovers', ?_⟩)
  obtain ⟨chunk, more, hplain⟩ := hfits.plain
  obtain ⟨cell, covered, rfl, hcell, -⟩ := exists_cons_of_chunks hplain
  rw [List.append_assoc]
  exact hkeeps.of_plain hcell

/-- Two ways of going on from a plain chunk, where a greedy rule finds nothing, go alike. -/
def HaltsAlike (halt : Walk → Text → RunM (Option Walk))
    (halt' : Tape → Text → List Chunk → Option Tape) : Prop :=
  ∀ {text : Text} {start : Nat} {front cells passed rest : List Cell} {cell : Cell} {w : Walk}
    {t : Tape} {chunk : Text}, w.Tracks front passed (cell :: rest) t → t.Covers text start →
    Keeps cells (passed ++ cell :: rest) → cell.2 = .plain chunk →
    RunM.Agrees (Option.Rel (Walk.Follows text start front cells)) (halt w chunk)
      (pure (halt' t chunk (chunks rest)))

/-- A step of a greedy rule from a plain chunk goes alike, if it does where the rule finds
nothing. -/
theorem greedy_agrees {ahead : List Cell} {chunk : Text} {more : List Chunk}
    {stay : RunM (Option Walk)} {stay' : Option Tape}
    (hstay : RunM.Agrees (Option.Rel (Walk.Follows text start front cells)) stay (pure stay'))
    (henter : Simulates enter enter') (h : w.Tracks front passed ahead t)
    (hcovers : t.Covers text start) (hkeeps : Keeps cells (passed ++ ahead))
    (hahead : t.ahead = .plain chunk :: more) (hgreedy : clause.rule.greedy = true) :
    RunM.Agrees (Option.Rel (Walk.Follows text start front cells))
      (do
        match ← w.greedyCut limits text clause with
        | none => stay
        | some (w, some cut) => return some (← w.replace enter text earlier clause cut)
        | some (w, none) =>
          let token ← RunM.value w.buffer w.handle
          return some (← w.skip token.extent))
      (do
        RunM.charge limits
        match t.choose text clause chunk more with
        | .stop => return stay'
        | .pass skipped rest => return some (t.pass skipped rest)
        | .cut skipped covered rest cut =>
          return some (← (t.pass skipped (covered ++ rest)).replace enter' text front.length earlier
            clause rest cut)) := by
  have hfits : (t.choose text clause chunk more).Fits t.ahead :=
    Tape.choose_fits hahead hcovers.ahead
  rw [Tape.choose, if_pos hgreedy] at hfits ⊢
  obtain ⟨found, heq, hfinds⟩ := h.greedyCut_eq hcovers.ahead limits clause
  rw [heq, bind_assoc]
  refine .bind_left _ fun _ => ?_
  rw [pure_bind]
  generalize t.greedyMove text _ = move at hfits hfinds
  cases hfinds with
  | nothing => exact hstay
  | token skipped rest cell hsplit =>
    subst hsplit
    have hpass := h.pass
    have hvalue : RunM.value w.buffer cell.1 = pure cell.2 :=
      RunM.value_eq h.lists (by simp)
    dsimp only
    rw [hvalue, pure_bind, ← Tape.pass_pass]
    have hahead : t.ahead = chunks skipped ++ chunks (cell :: rest) := by
      rw [← h.ahead_eq, chunks_append]
    exact skip_agrees hpass (hcovers.pass hahead) (by simpa using hkeeps)
  | plain skipped covered rest cut hsplit =>
    subst hsplit
    have hpass := h.pass
    rw [chunks_append] at hpass
    exact cut_agrees henter hpass (hcovers.pass hfits.1) (by simpa using hkeeps) hfits.2

/-- A step of any other rule from a plain chunk goes alike. -/
theorem local_agrees {chunk : Text} {stay' : Option Tape} (henter : Simulates enter enter')
    (h : w.Tracks front passed (cell :: rest) t)
    (hcovers : t.Covers text start) (hkeeps : Keeps cells (passed ++ cell :: rest))
    (hcell : cell.2 = .plain chunk) (hgreedy : clause.rule.greedy = false) :
    RunM.Agrees (Option.Rel (Walk.Follows text start front cells))
      (do
        match ← Walk.localCut limits clause chunk with
        | none => return some (← w.skip chunk.length)
        | some cut => return some (← w.replace enter text earlier clause cut))
      (do
        RunM.charge limits
        match t.choose text clause chunk (chunks rest) with
        | .stop => return stay'
        | .pass skipped rest => return some (t.pass skipped rest)
        | .cut skipped covered rest cut =>
          return some (← (t.pass skipped (covered ++ rest)).replace enter' text front.length earlier
            clause rest cut)) := by
  have hahead : t.ahead = .plain chunk :: chunks rest := by
    rw [← h.ahead_eq, chunks_cons, hcell]
  have hfits : (t.choose text clause chunk (chunks rest)).Fits t.ahead :=
    Tape.choose_fits hahead hcovers.ahead
  rw [Tape.choose, if_neg (by simp [hgreedy])] at hfits ⊢
  unfold Walk.localCut
  simp only [RunM.attempt, bind_assoc, pure_bind]
  refine .bind_left _ fun _ => ?_
  cases hfound : clause.rule.pattern.find? chunk 0 clause.rule.lookbehind with
  | none =>
    have hskip := skip_agrees h hcovers hkeeps
    rw [hcell, extent_plain] at hskip
    exact hskip
  | some m =>
    rw [hfound] at hfits
    have hstay : t.pass [] ([.plain chunk] ++ chunks rest) = t := by
      simp [Tape.pass, ← hahead]
    dsimp only [Tape.localMove, pure_bind]
    rw [hstay]
    have htracks : w.Tracks front passed ([cell] ++ rest) t := h
    refine cut_agrees henter htracks hcovers hkeeps ?_
    rw [chunks_cons, hcell]
    exact hfits.2

/-- **A step goes alike**, if it does where a greedy rule finds nothing. -/
theorem stepWith_agrees {halt : Walk → Text → RunM (Option Walk)}
    {halt' : Tape → Text → List Chunk → Option Tape} (hhalt : HaltsAlike halt halt')
    (henter : Simulates enter enter') (h : w.Follows text start front cells t) :
    RunM.Agrees (Option.Rel (Walk.Follows text start front cells))
      (Walk.stepWith halt enter limits text earlier clause w)
      (Tape.stepWith halt' enter' limits text front.length earlier clause t) := by
  obtain ⟨passed, ahead, htracks, hcovers, hkeeps⟩ := h
  unfold Walk.stepWith Tape.stepWith
  rw [htracks.isOver_eq, htracks.size_eq]
  split
  · exact .pure .none
  · rename_i hover
    dsimp only
    simp only [Int.ofNat_lt]
    split
    · exact .giveUp _ _
    · cases ahead with
      | nil =>
        rw [← htracks.ahead_eq] at hover
        simp at hover
      | cons cell ahead =>
        have hvalue : RunM.value w.buffer w.handle = pure cell.2 :=
          htracks.handle_eq ▸ RunM.value_eq htracks.lists (by simp)
        rw [hvalue, pure_bind]
        have hahead : t.ahead = cell.2 :: chunks ahead := htracks.ahead_eq.symm
        have hskip := skip_agrees htracks hcovers hkeeps
        cases hcell : cell.2 with
        | plain chunk =>
          rw [hcell] at hahead
          rw [hahead]
          dsimp only
          split
          · rename_i hgreedy
            exact greedy_agrees (hhalt htracks hcovers hkeeps hcell) henter htracks hcovers hkeeps
              hahead hgreedy
          · rename_i hgreedy
            exact local_agrees henter htracks hcovers hkeeps hcell (by simpa using hgreedy)
        | leaf tag text | node tag parts =>
          rw [hcell] at hahead hskip
          rw [hahead]
          exact hskip

end Step

/-! ### Sweeps and their recursion -/

/-- Two ways of stepping go alike, if the sweeps one recursion deeper end
alike. -/
def Stepper.Simulates (stepper : Stepper) (stepper' : Tape.Stepper) : Prop :=
  ∀ {enter : Enter} {enter' : Strip.Enter}, Highlight.Simulates enter enter' →
    ∀ {limits : Limits} {text : Text} {earlier : List Clause} {clause : Clause}
      {start : Nat} {front cells : List Cell} {w : Walk} {t : Tape},
      w.Follows text start front cells t →
      RunM.Agrees (Option.Rel (Walk.Follows text start front cells))
        (stepper enter limits text earlier clause w)
        (stepper' enter' limits text front.length earlier clause t)

/-- The steps of the tokenizer go alike: they stop on both sides. -/
theorem step_simulates : Stepper.Simulates Walk.step Tape.step := by
  rw [Walk.step_eq_stepWith, Tape.step_eq_stepWith]
  exact fun henter => stepWith_agrees (fun _ _ _ _ => .pure .none) henter

/-- Steps that do not stop go alike: they pass the chunk on both sides. -/
theorem stepPatiently_simulates : Stepper.Simulates Walk.stepPatiently Tape.stepPatiently := by
  refine fun henter => stepWith_agrees (fun htracks hcovers hkeeps hcell => ?_) henter
  have hskip := skip_agrees htracks hcovers hkeeps
  rw [hcell, extent_plain] at hskip
  exact hskip

/-- Walks whose steps go alike end alike. -/
theorem finish_agrees {text : Text} {start : Nat} {front cells : List Cell}
    {step : Walk → RunM (Option Walk)} {step' : Tape → RunM (Option Tape)}
    (hstep : ∀ {w t}, Walk.Follows text start front cells w t →
      RunM.Agrees (Option.Rel (Walk.Follows text start front cells)) (step w) (step' t))
    (fuel : Nat) {w : Walk} {t : Tape} (h : w.Follows text start front cells t) :
    RunM.Agrees (Walk.Follows text start front cells) (w.finish step fuel)
      (t.finish step' fuel) := by
  induction fuel generalizing w t with
  | zero => exact fun r => .error _ r
  | succ fuel ih =>
    refine (hstep h).bind fun next next' hnext => ?_
    cases hnext with
    | none => exact .pure h
    | some hnext => exact ih hnext

section Sweep

variable {stepper : Stepper} {stepper' : Tape.Stepper} {enter : Enter} {enter' : Strip.Enter}
  {limits : Limits} {text : Text} {clauses : List Clause} {front cells : List Cell}
  {offset : Nat} {reach : Option Nat} {buffer : Buffer}

/-- The walk of a rule ends alike. -/
theorem walk_agrees (hstepper : stepper.Simulates stepper') (henter : Simulates enter enter')
    (earlier : List Clause) (clause : Clause) {swept : Swept} {strip : Strip.Swept}
    (h : swept.Matches text offset front cells strip) :
    RunM.Agrees (Swept.Matches text offset front cells)
      (Sweep.walk stepper enter limits ⟨text, clauses, buffer, lastHandle front, offset, reach⟩
        earlier clause swept)
      (Strip.walk stepper' enter' limits ⟨text, clauses, front.length, chunks cells, offset, reach⟩
        earlier clause strip) := by
  obtain ⟨⟨cells', hlists, hchunks, hkeeps⟩, hreach, hcover⟩ := h
  unfold Sweep.walk Strip.walk
  dsimp only
  rw [RunM.next_eq hlists, pure_bind]
  refine (finish_agrees (hstepper henter) _ ⟨[], cells', ⟨hlists, rfl, hchunks, rfl, rfl, hreach⟩,
    ⟨rfl, hcover⟩, hkeeps⟩).bind ?_
  rintro w t ⟨passed, ahead, htracks, hcovers, hkeeps'⟩
  refine .pure ⟨⟨passed ++ ahead, htracks.lists, ?_, hkeeps'⟩, htracks.reach_eq, ?_⟩
  · rw [chunks_append, htracks.passed_eq, htracks.ahead_eq]
  · rw [extents_append, ← Nat.add_assoc, hcovers.passed, hcovers.ahead]

/-- The walks of all rules end alike. -/
theorem walks_agrees (hstepper : stepper.Simulates stepper') (henter : Simulates enter enter')
    (earlier later : List Clause) {swept : Swept} {strip : Strip.Swept}
    (h : swept.Matches text offset front cells strip) :
    RunM.Agrees (Swept.Matches text offset front cells)
      (Sweep.walks stepper enter limits ⟨text, clauses, buffer, lastHandle front, offset, reach⟩
        earlier later swept)
      (Strip.walks stepper' enter' limits
        ⟨text, clauses, front.length, chunks cells, offset, reach⟩ earlier later strip) := by
  induction later generalizing earlier swept strip with
  | nil => exact .pure h
  | cons clause later ih =>
    exact (walk_agrees hstepper henter earlier clause h).bind fun _ _ => ih _

end Sweep

/-- **Sweeps end alike at every depth.** -/
theorem descend_simulates {stepper : Stepper} {stepper' : Tape.Stepper}
    (hstepper : stepper.Simulates stepper') (limits : Limits) (levels depth : Nat) :
    Simulates (Tokenizer.descend stepper limits levels depth)
      (Strip.descend stepper' limits levels depth) := by
  induction levels generalizing depth with
  | zero =>
    intro _ _ _ _ _ _ _ _ _
    unfold Tokenizer.descend Strip.descend Tokenizer.refuse
    dsimp only
    split
    · exact .giveUp _ _
    · exact .bind_left _ fun _ => .giveUp _ _
  | succ levels ih =>
    intro text clauses buffer front cells offset reach hlists hcover
    exact .bind_left _ fun _ => walks_agrees hstepper (ih (depth + 1)) [] clauses
      ⟨⟨cells, hlists, rfl, fun _ hfirst _ => hfirst⟩, rfl, hcover⟩

/-- **The tokenizer is a sweep over a list.** -/
theorem run_eq (limits : Limits) (frames : Option Nat) (text : Text) (ref : Ref) :
    Tokenizer.run limits frames text ref =
      Strip.chunksOf (Strip.descend Tape.step limits (Tokenizer.levels limits frames) 0) false
        text ref :=
  chunksOf_eq (descend_simulates step_simulates limits _ 0) false text ref

/-- What sweeps over lists ensure, the tokenizer does. -/
theorem tokenize_of_triple {limits : Limits} {frames : Option Nat} (store : Store) {text : Text}
    {ref : Ref} {P : Run → Prop} {Q : List Chunk → Run → Prop} {E : Failure → Run → Prop}
    (h : RunM.Triple P
      (Strip.chunksOf (Strip.descend Tape.step limits (Tokenizer.levels limits frames) 0) false
        text ref) Q E)
    (hstore : P { store }) :
    match (tokenize limits frames store text ref).result with
    | .ok chunks => Q chunks (tokenize limits frames store text ref).run
    | .error failure => E failure (tokenize limits frames store text ref).run := by
  have hend := h _ hstore
  unfold tokenize
  rw [run_eq]
  split at hend
  · rename_i heq
    rw [heq]
    exact hend
  · rename_i heq
    rw [heq]
    exact hend

end Highlight
