/-
# Watching every sweep of a run

A rematch works on the buffer of the walk that asked for it, and that walk goes
on with the handle and the offset it had.  So a rematch must start where the
walk says (`Sweep.Placed`), and must change nothing but what lies between its
start and the offset that it says it has reached (`Sweep.Local`).

Which sweeps a run enters, and on which buffers, only the run itself decides.
To say something of all of them, the tokenizer is run under watch
(`Tokenizer.runWatched`): every sweep, at every depth, is looked at when it
is entered and when it returns, and an alarm ends the run as soon as one is not
as it should be.  If the alarm, whatever failure it is, makes no difference to any run,
then every sweep of every run is as it should be.
-/

import Highlight.Proofs.Tape.Moves
import Highlight.Proofs.Buffer.Listing
import Highlight.Proofs.Tokenizer.Computation

namespace Highlight

open Buffer Chunk

/-! ### What is looked at -/

/-- A sweep starts with the first chunk after its handle, and that chunk is at
its offset. -/
def Sweep.Placed (s : Sweep) : Prop :=
  ∃ front cells, s.buffer.Lists (front ++ cells) ∧ s.start = lastHandle front ∧
    s.offset = extents (chunks front)

/-- A sweep leaves everything as it is, but for the cells between its start and
the offset that it has reached, the first of which is a token.  These
make up the same text as before, and the token is still the first of them. -/
structure Sweep.Confined (s : Sweep) (swept : Swept) (front middle middle' rest : List Cell)
    (first : Cell) : Prop where
  entered : s.buffer.Lists (front ++ (middle ++ rest))
  left : swept.buffer.Lists (front ++ (middle' ++ rest))
  start_eq : s.start = lastHandle front
  offset_eq : s.offset = extents (chunks front)
  reach_eq : swept.reach = some (s.offset + extents (chunks middle))
  text_eq : textOf (chunks middle') = textOf (chunks middle)
  isToken : first.2.isToken = true
  head_eq : middle.head? = some first
  head_eq' : middle'.head? = some first

/-- A rematch is local: it reaches no less far than it was asked to, and is
confined to what is between its start and there. -/
def Sweep.Local (s : Sweep) (swept : Swept) : Prop :=
  ∀ reach, s.reach = some reach → (∃ reach' ≥ reach, swept.reach = some reach') ∧
    ∃ front middle middle' rest first, s.Confined swept front middle middle' rest first

/-! ### Runs under watch -/

open Classical in
/-- Goes on if a condition holds, and gives the alarm if not. -/
noncomputable def RunM.require (alarm : Failure) (condition : Prop) : RunM Unit :=
  if condition then pure () else throw alarm

theorem RunM.require_of {alarm : Failure} {condition : Prop} (h : condition) :
    RunM.require alarm condition = pure () :=
  if_pos h

theorem RunM.require_of_not {alarm : Failure} {condition : Prop} (h : ¬ condition) :
    RunM.require alarm condition = throw alarm :=
  if_neg h

/-- A way of going deeper, under watch. -/
noncomputable def Enter.watched (alarm : Failure) (enter : Enter) : Enter := fun s => do
  RunM.require alarm s.Placed
  let swept ← enter s
  RunM.require alarm (s.Local swept)
  return swept

namespace Tokenizer

/-- Sweeps at a depth, all of them under watch, with a number of levels left
below it. -/
noncomputable def descendWatched (alarm : Failure) (limits : Limits) :
    (levels depth : Nat) → Enter
  | 0, depth => Enter.watched alarm fun _ => refuse limits depth
  | levels + 1, depth => Enter.watched alarm fun sweep => do
    RunM.reachDepth (depth + 1)
    sweep.run Walk.step (descendWatched alarm limits levels (depth + 1)) limits

/-- A run over a text, as a computation, with all its sweeps under watch. -/
noncomputable def runWatched (alarm : Failure) (limits : Limits) (frames : Option Nat)
    (text : Text) (ref : Ref) : RunM (List Chunk) :=
  chunksOf (descendWatched alarm limits (levels limits frames) 0) false text ref

end Tokenizer

/-- The alarm is given where a sweep that returns is not as it should be. -/
theorem Enter.watched_alarm {alarm : Failure} {enter : Enter} {s : Sweep} {swept : Swept}
    {r r' : Run} (hrun : (enter s).run r = .ok swept r') (h : ¬ (s.Placed ∧ s.Local swept)) :
    ∃ r'', (Enter.watched alarm enter s).run r = .error alarm r'' := by
  unfold watched
  by_cases hplaced : s.Placed
  · have hlocal : ¬ s.Local swept := fun hlocal => h ⟨hplaced, hlocal⟩
    refine ⟨r', ?_⟩
    rw [RunM.require_of hplaced, pure_bind, EStateM.run_bind, hrun]
    dsimp only
    rw [RunM.require_of_not hlocal]
    rfl
  · refine ⟨r, ?_⟩
    rw [RunM.require_of_not hplaced]
    rfl

/-- Watching a sweep makes no difference if it starts where it should and what
it returns with is local. -/
theorem Enter.watched_agrees {alarm : Failure} {enter enter' : Enter} {s : Sweep}
    {Post : Swept → Prop} (hplaced : s.Placed) (hlocal : ∀ swept, Post swept → s.Local swept)
    (h : RunM.Agrees (fun swept swept' => swept = swept' ∧ Post swept) (enter s) (enter' s)) :
    RunM.Agrees (fun swept swept' => swept = swept' ∧ Post swept) (enter s)
      (Enter.watched alarm enter' s) := by
  unfold watched
  rw [RunM.require_of hplaced, pure_bind, ← bind_pure (enter s)]
  refine h.bind ?_
  rintro swept _ ⟨rfl, hpost⟩
  rw [RunM.require_of (hlocal swept hpost), pure_bind]
  exact .pure ⟨rfl, hpost⟩

end Highlight
