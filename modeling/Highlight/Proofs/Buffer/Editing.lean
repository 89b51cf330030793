/-
# Editing a buffer is editing a list

A buffer is edited by two operations only, and each names the handle after
which it acts.  On the cells of the buffer they are

| edit | cells | answer |
| --- | --- | --- |
| `insert handle chunk` | one new cell at the rank of the handle | the handle of the new cell |
| `remove handle count` | up to `count` cells dropped from the rank on | how many were dropped |

where the rank of a handle (`rank`) is the number of cells up to it: 0 for the head.

`Edited b cells most` says that a buffer has come of the empty one by edits
after handles that could be named (`Accepts`: the head, or a live handle),
that the edits lead from no cells to `cells`, and that `most` was its greatest
size.  Such a buffer is in every respect the list of its cells (`Mirrors`):
what it lists, from either end, which handles are live and what they stand for,
and what the slots hold that no cell has.  Every further edit has an
answer (`Edited.refines`).

The invariant behind it is that no slot is ever given up: there are two for the
ends and one for each of the most cells there ever were.  A new slot is only
taken when no slot is free, and then all of these are in use.
-/

import Highlight.Proofs.Buffer.Listing
import Mathlib.Data.List.Basic
import Mathlib.Order.Lattice

namespace Highlight
namespace Buffer

/-- The two ways to change a buffer. -/
inductive Edit where
  | insert (handle : Nat) (chunk : Chunk)
  | remove (handle : Nat) (count : Int)
  deriving DecidableEq, Repr

/-- The number of cells up to a handle. -/
def rank (handle : Nat) (cells : List Cell) : Nat :=
  if handle = head then 0 else (handles cells).idxOf handle + 1

namespace Edit

/-- The handle after which an edit acts. -/
def handle : Edit → Nat
  | insert handle _ | remove handle _ => handle

/-- An edit of a buffer, with its answer. -/
def run (b : Buffer) : Edit → Except Fault (Nat × Buffer)
  | insert handle chunk => b.insertAfter handle chunk
  | remove handle count => b.removeRun handle count

/-- The cells after an edit, the answer to which is known. -/
def apply (cells : List Cell) (answer : Nat) : Edit → List Cell
  | insert handle chunk =>
    cells.take (rank handle cells) ++ (answer, chunk) :: cells.drop (rank handle cells)
  | remove handle count =>
    cells.take (rank handle cells) ++ cells.drop (rank handle cells + count.toNat)

/-- What an edit answers: a handle that is neither an end nor that of a cell,
or the number of cells that were dropped.  All other cells stay in their
order. -/
def Answers (cells : List Cell) (answer : Nat) (edit : Edit) : Prop :=
  match edit with
  | insert .. => answer ∉ spine cells ∧ cells.Sublist (edit.apply cells answer)
  | remove handle count =>
    answer = min count.toNat (cells.length - rank handle cells) ∧
      (edit.apply cells answer).Sublist cells

end Edit

/-- An edit may act after the head and after live elements. -/
def Accepts (b : Buffer) (handle : Nat) : Prop :=
  handle = head ∨ b.isLive handle = true

/-- A buffer that has come of the empty one by edits, its cells, and the
greatest size it ever had. -/
inductive Edited : Buffer → List Cell → Int → Prop where
  | empty : Edited Buffer.empty [] 0
  | edit {b b' : Buffer} {cells : List Cell} {most : Int} {e : Edit} {answer : Nat} :
      Edited b cells most → b.Accepts e.handle → e.run b = .ok (answer, b') →
      Edited b' (e.apply cells answer) (max most b'.size)

/-- A buffer is in every respect the list of its cells.  The handles that it
lists from left to right and from right to left are given for any limit that
they do not pass. -/
structure Mirrors (b : Buffer) (cells : List Cell) (most : Int) : Prop where
  toList_eq : b.toList = chunks cells
  size_eq : b.size = cells.length
  forward_eq : ∀ limit, cells.length ≤ limit → b.forward limit = handles cells
  backward_eq : ∀ limit, cells.length ≤ limit → b.backward limit = (handles cells).reverse
  isLive_iff : ∀ handle, b.isLive handle = true ↔ handle ∈ handles cells
  value_eq : ∀ cell ∈ cells, b.value cell.1 = .ok cell.2
  value_vacant : ∀ handle ∉ handles cells,
    b.value handle = .error (if handle < b.slots.size then .dead handle else .outOfRange)
  slots_perm : (spine cells ++ b.free).Perm (List.range b.slots.size)
  slots_eq : (b.slots.size : Int) = 2 + most

variable {b b' : Buffer} {cells : List Cell} {most : Int} {handle answer : Nat}

/-! ### Handles and their ranks -/

/-- The cells up to a handle end with it. -/
theorem lastHandle_take_rank (hhandle : handle = head ∨ handle ∈ handles cells) :
    lastHandle (cells.take (rank handle cells)) = handle := by
  unfold rank
  split_ifs with hhead
  · exact hhead.symm
  · have hmem := hhandle.resolve_left hhead
    have hidx : (handles cells)[(handles cells).idxOf handle]? = some handle :=
      List.getElem?_idxOf hmem
    rw [lastHandle, handles, List.map_take, ← handles, List.getLastD_eq_getLast?,
      List.getLast?_take, if_neg (Nat.succ_ne_zero _), Nat.add_sub_cancel, hidx]
    rfl

namespace Lists

/-- The live handles are those of the cells. -/
theorem isLive_iff (h : b.Lists cells) : b.isLive handle = true ↔ handle ∈ handles cells := by
  constructor
  · intro hlive
    by_contra hx
    have hnone := h.chunk?_vacant handle hx
    unfold isLive at hlive
    unfold chunk? at hnone
    cases hslot : b.slots[handle]? with
    | none => simp [hslot] at hlive
    | some slot => simp [hslot] at hlive hnone; simp [hnone] at hlive
  · intro hmem
    obtain ⟨cell, hcell, rfl⟩ := List.mem_map.mp hmem
    exact h.isLive_of_mem hcell

/-- A handle that is not that of a cell has no chunk to give, whether there is
a slot or not. -/
theorem value_vacant (h : b.Lists cells) (hx : handle ∉ handles cells) :
    b.value handle = .error (if handle < b.slots.size then .dead handle else .outOfRange) := by
  have hnone := h.chunk?_vacant handle hx
  unfold chunk? at hnone
  unfold value slot
  split_ifs with hlt
  · rw [Array.getElem?_eq_getElem hlt] at hnone ⊢
    dsimp only [Option.bind] at hnone ⊢
    rw [hnone]
  · rw [Array.getElem?_eq_none (Nat.le_of_not_lt hlt)]

/-- The ends, the cells and the free slots are all slots, each once. -/
theorem slots_perm (h : b.Lists cells) :
    (spine cells ++ b.free).Perm (List.range b.slots.size) :=
  (List.perm_ext_iff_of_nodup h.nodup List.nodup_range).mpr fun x => by
    rw [h.mem_iff_lt, List.mem_range]

theorem size_slots_eq (h : b.Lists cells) :
    b.slots.size = cells.length + 2 + b.free.length := by
  have hlength := h.slots_perm.length_eq
  simp [spine, handles] at hlength
  omega

end Lists

/-! ### Edits -/

/-- What editing a buffer keeps: it lists the cells, and has two slots for its
ends and one for each of the most cells there were. -/
structure Spans (b : Buffer) (cells : List Cell) (most : Int) : Prop where
  lists : b.Lists cells
  slots_eq : (b.slots.size : Int) = 2 + most
  length_le : (cells.length : Int) ≤ most

theorem Spans.mirrors (h : b.Spans cells most) : b.Mirrors cells most where
  toList_eq := h.lists.toList_eq
  size_eq := h.lists.size_eq
  forward_eq _ := h.lists.forward_eq
  backward_eq _ := h.lists.backward_eq
  isLive_iff _ := h.lists.isLive_iff
  value_eq _ := h.lists.value_of_mem
  value_vacant _ := h.lists.value_vacant
  slots_perm := h.lists.slots_perm
  slots_eq := h.slots_eq

/-- After an insertion there is a slot more only if the buffer is greater than
it ever was. -/
theorem Spans.insert (h : b.Spans cells most) (chunk : Chunk) {post : List Cell}
    {pre : List Cell} (hcells : cells = pre ++ post) :
    ∃ new b', b.insertAfter (lastHandle pre) chunk = .ok (new, b') ∧ new ∉ spine cells ∧
      b'.Spans (pre ++ (new, chunk) :: post) (max most b'.size) := by
  subst hcells
  obtain ⟨new, b', heq, hlists, hnew, hplaces⟩ := h.lists.insertAfter chunk
  refine ⟨new, b', heq, hnew, hlists, ?_, ?_⟩
  · have hslots := h.slots_eq
    have hsize := h.lists.size_slots_eq
    have hsize' := hlists.size_slots_eq
    have hlength := h.length_le
    have hcount := hlists.size_eq
    simp only [List.length_append, List.length_cons] at hsize hsize' hlength hcount
    rcases hplaces with ⟨hfree, hsame⟩ | ⟨hfree, -, -, hmore⟩
    · -- the slot was free, so the buffer has been greater before
      rw [hfree, List.length_cons] at hsize
      omega
    · -- no slot was free, so the buffer was as great as ever
      rw [hfree, List.length_nil] at hsize
      omega
  · rw [hlists.size_eq]
    exact le_max_right _ _

/-- A removal leaves all slots where they are. -/
theorem Spans.remove (h : b.Spans cells most) (count : Int) {pre post : List Cell}
    (hcells : cells = pre ++ post) :
    ∃ b', b.removeRun (lastHandle pre) count = .ok (min count.toNat post.length, b') ∧
      b'.Spans (pre ++ post.drop count.toNat) (max most b'.size) := by
  subst hcells
  obtain ⟨b', heq, hlists, hslots⟩ := h.lists.removeRun count
  have hle : (pre ++ post.drop count.toNat).length ≤ (pre ++ post).length := by
    simp only [List.length_append, List.length_drop]
    omega
  have hmost : max most b'.size = most := by
    have := h.length_le
    rw [hlists.size_eq]
    omega
  refine ⟨b', heq, hlists, ?_, ?_⟩
  · rw [hmost, hslots, h.slots_eq]
  · have := h.length_le
    rw [hmost]
    omega

/-- An edit after the head or a live handle has an answer, and what it makes of
the buffer it makes of the cells. -/
theorem Spans.run (h : b.Spans cells most) (edit : Edit) (hhandle : b.Accepts edit.handle) :
    ∃ answer b', edit.run b = .ok (answer, b') ∧ edit.Answers cells answer ∧
      b'.Spans (edit.apply cells answer) (max most b'.size) := by
  have hmem : edit.handle = head ∨ edit.handle ∈ handles cells :=
    hhandle.imp_right h.lists.isLive_iff.mp
  have hlast := lastHandle_take_rank hmem
  have hsplit := (List.take_append_drop (rank edit.handle cells) cells).symm
  cases edit with
  | insert handle chunk =>
    obtain ⟨new, b', heq, hnew, hspans⟩ := h.insert chunk hsplit
    rw [hlast] at heq
    refine ⟨new, b', heq, ⟨hnew, ?_⟩, hspans⟩
    nth_rewrite 1 [hsplit]
    exact (List.sublist_cons_self _ _).append_left _
  | remove handle count =>
    obtain ⟨b', heq, hspans⟩ := h.remove count hsplit
    rw [hlast] at heq
    rw [List.drop_drop] at hspans
    rw [List.length_drop] at heq
    refine ⟨_, b', heq, ⟨rfl, ?_⟩, hspans⟩
    nth_rewrite 4 [hsplit]
    rw [Edit.apply, ← List.drop_drop]
    exact (List.drop_sublist _ _).append_left _

theorem Edited.spans (h : Edited b cells most) : b.Spans cells most := by
  induction h with
  | empty => exact ⟨Lists.empty, rfl, le_refl 0⟩
  | edit _ hhandle hrun ih =>
    obtain ⟨answer, b', heq, -, hspans⟩ := ih.run _ hhandle
    obtain ⟨rfl, rfl⟩ := Prod.mk.inj (Except.ok.inj (hrun.symm.trans heq))
    exact hspans

/-- **An edited buffer is the list of its cells**: it mirrors them, and every
edit after the head or a live handle has its answer and makes of the buffer
what it makes of the list. -/
theorem Edited.refines (h : Edited b cells most) :
    b.Mirrors cells most ∧ ∀ edit : Edit, b.Accepts edit.handle →
      ∃ answer b', edit.run b = .ok (answer, b') ∧ edit.Answers cells answer ∧
        Edited b' (edit.apply cells answer) (max most b'.size) := by
  refine ⟨h.spans.mirrors, fun edit hhandle => ?_⟩
  obtain ⟨answer, b', heq, hanswer, -⟩ := h.spans.run edit hhandle
  exact ⟨answer, b', heq, hanswer, h.edit hhandle heq⟩

/-- Two elements, the first of which stands in the slot of one that was
removed. -/
def recycled : Buffer where
  slots := #[⟨none, 3, head⟩, ⟨none, tail, 2⟩, ⟨some (.plain ['a']), tail, 3⟩,
    ⟨some (.plain ['c']), 2, head⟩]
  free := []
  size := 2

/-- Two elements were inserted, the first one was removed, and its slot went to
the next. -/
theorem recycled_edited :
    Edited recycled [(3, .plain ['c']), (2, .plain ['a'])] 2 := by
  have hfirst := Edited.empty.edit (e := .insert head (.plain ['a'])) (.inl rfl) rfl
  have hsecond := hfirst.edit (e := .insert head (.plain ['b'])) (.inl rfl) rfl
  have hremoved := hsecond.edit (e := .remove head 1) (.inl rfl) rfl
  exact hremoved.edit (e := .insert head (.plain ['c'])) (.inl rfl) rfl

theorem refines_recycled :
    recycled.Mirrors [(3, .plain ['c']), (2, .plain ['a'])] 2 ∧
      recycled.Accepts 2 ∧ ∃ answer b', recycled.removeRun 2 5 = .ok (answer, b') ∧
        (Edit.remove 2 5).Answers [(3, .plain ['c']), (2, .plain ['a'])] answer := by
  have haccepts : recycled.Accepts 2 := .inr rfl
  obtain ⟨hmirrors, hedits⟩ := Edited.refines recycled_edited
  obtain ⟨answer, b', hrun, hanswers, -⟩ := hedits (.remove 2 5) haccepts
  exact ⟨hmirrors, haccepts, answer, b', hrun, hanswers⟩

end Buffer
end Highlight
