/-
# Runs use no dead handle

Five operations of a buffer take a handle: they go to the next or the previous
one, read a chunk, insert after it, and remove after it.  Within a run each of
them first looks whether the handle is the head or live, and the run counts
the handles that are neither (`strays_use`).  The count never goes down.

No run ever counts one (`tokenize_without_strays`).  A sweep holds on to handles
while a rematch removes elements and gives their slots to others, so that this
is nothing that one step could be seen to ensure.  But the sweeps over lists
have no handles and therefore count none, and they leave the same run
behind (`run_eq`).

Hence no fault of a buffer is ever the end of a run: what a run can fail for
are a grammar, a pattern, the depth, the budget, and too many chunks.
-/

import Highlight.Proofs.Tape.Congruence
import Highlight.Proofs.Tokenizer.Termination

namespace Highlight

open Chunk RunM

/-- The classes that the failures of runs are of. -/
def FailureClass.ofRuns : List FailureClass :=
  [.invalidGrammar, .patternRejected, .depthExceeded, .budgetExceeded, .overrun]

/-- A failure says what a run failed for if it is of one of these classes. -/
theorem Failure.documented_iff {e : Failure} :
    e.Documented ↔ e.toClass ∈ FailureClass.ofRuns := by
  unfold Documented
  cases e.toClass <;> decide

/-- Every operation on a buffer within a run counts its handle if that is
neither the head nor live, whatever its outcome is. -/
theorem RunM.strays_use {α : Type} (b : Buffer) (handle : Nat) (outcome : Except Buffer.Fault α)
    (r : Run) :
    (leaves ((do use b handle; onBuffer outcome).run r)).strays =
      r.strays + if handle = Buffer.head ∨ b.isLive handle = true then 0 else 1 := by
  have hend (r : Run) : leaves ((onBuffer outcome).run r) = r := by
    cases outcome <;> rfl
  unfold use
  rw [EStateM.run_bind]
  by_cases hhandle : handle = Buffer.head ∨ b.isLive handle = true
  · have hcond : (decide (handle = Buffer.head) || b.isLive handle) = true := by
      simpa using hhandle
    rw [if_pos hcond, if_pos hhandle]
    exact congrArg Run.strays (hend r)
  · have hcond : ¬(decide (handle = Buffer.head) || b.isLive handle) = true := by
      simpa using hhandle
    rw [if_neg hcond, if_neg hhandle]
    exact congrArg Run.strays (hend { r with strays := r.strays + 1 })

/-- Events, counts, numbers, depths and resolving grammars are no use of a handle. -/
theorem strays_course : Run.Course fun r r' => r'.strays = r.strays where
  refl _ := rfl
  trans h h' := h'.trans h
  report _ _ := rfl
  count _ _ _ := rfl
  take _ := rfl
  reach _ _ := rfl
  resolve _ _ _ _ _ _ := rfl

/-- Every run ends with chunks or with a failure that says what it failed for,
whatever the store is. -/
theorem tokenize_documented (limits : Limits) (frames : Option Nat) (store : Store) (text : Text)
    (ref : Ref) :
    (∃ chunks, (tokenize limits frames store text ref).result = .ok chunks) ∨
      ∃ e, (tokenize limits frames store text ref).result = .error e ∧ e.Documented := by
  let levels := Tokenizer.levels limits frames
  let budget := workBound store.breadth text.length levels
  have hcosts := chunksOf_costs (Strip.descend_costs store.breadth text.length budget limits
    levels 0) false (Nat.le_refl text.length) ref 0
  have hstart : Run.Affords store.breadth budget (false.toNat + (budget + 0)) { store } :=
    ⟨store.bounded_breadth, by simp [Run.work]⟩
  have hend := tokenize_of_triple store hcosts hstart
  cases hresult : (tokenize limits frames store text ref).result with
  | ok chunks => exact .inl ⟨chunks, rfl⟩
  | error e =>
    rw [hresult] at hend
    exact .inr ⟨e, rfl, hend.documented⟩

/-- **Runs fail only for what is documented, and use no dead handle**: whatever
the text, the grammars and the limits are, a run ends with chunks or with a
failure of one of five classes, and every handle that it gave to a buffer was
the head or live at that moment. -/
theorem tokenize_without_strays (limits : Limits) (frames : Option Nat) (store : Store)
    (text : Text) (ref : Ref) :
    ((∃ chunks, (tokenize limits frames store text ref).result = .ok chunks) ∨
        ∃ e, (tokenize limits frames store text ref).result = .error e ∧
          e.toClass ∈ FailureClass.ofRuns) ∧
      (tokenize limits frames store text ref).run.strays = 0 := by
  constructor
  · refine (tokenize_documented limits frames store text ref).imp_right ?_
    rintro ⟨e, hresult, hdocumented⟩
    exact ⟨e, hresult, Failure.documented_iff.mp hdocumented⟩
  · exact tokenize_goes strays_course limits frames store text ref

end Highlight
