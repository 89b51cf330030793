/-
# What a buffer lists

A buffer is read as a list of cells, each a handle with its chunk, from first
to last (`Lists`).  The reading says all that the operations need: the links
run from the head through the cells to the tail and back, each cell holds its
chunk, no other slot holds one, and head, tail, cells and free slots are all
the slots there are, each once.

Every operation is then an operation on lists.  After the last cell of `pre`,

  * inserting a chunk turns `pre ++ post` into `pre ++ new :: post`, where the
    handle of `new` belongs to no other cell (`Lists.insertAfter`);
  * removing `count` chunks turns `pre ++ post` into `pre ++ post.drop count`
    (`Lists.removeRun`);

and no other cell changes its handle or its chunk.
-/

import Highlight.Buffer
import Mathlib.Data.List.Induction
import Mathlib.Tactic.SplitIfs

namespace Highlight
namespace Buffer

/-- An element of a buffer: a handle and the chunk it stands for. -/
abbrev Cell := Nat × Chunk

/-- The handles of cells. -/
def handles (cells : List Cell) : List Nat :=
  cells.map Prod.fst

/-- The chunks of cells. -/
def chunks (cells : List Cell) : List Chunk :=
  cells.map Prod.snd

/-- The last handle of some cells, or the head if there are none. -/
def lastHandle (cells : List Cell) : Nat :=
  (handles cells).getLastD head

/-- The first handle of some cells, or the tail if there are none. -/
def firstHandle (cells : List Cell) : Nat :=
  (handles cells).headD tail

/-- The handle to the right of a handle, if there is such a slot. -/
def next? (b : Buffer) (handle : Nat) : Option Nat :=
  (b.slots[handle]?).map (·.next)

/-- The handle to the left of a handle, if there is such a slot. -/
def prev? (b : Buffer) (handle : Nat) : Option Nat :=
  (b.slots[handle]?).map (·.prev)

/-- The chunk in a slot, if there is one. -/
def chunk? (b : Buffer) (handle : Nat) : Option Chunk :=
  (b.slots[handle]?).bind (·.value)

/-- The links run from a handle through a list of handles, and back. -/
def Threads (b : Buffer) : Nat → List Nat → Prop
  | _, [] => True
  | left, handle :: rest =>
    b.next? left = some handle ∧ b.prev? handle = some left ∧ Threads b handle rest

/-- The handles of cells between the two ends of a buffer. -/
def spine (cells : List Cell) : List Nat :=
  head :: (handles cells ++ [tail])

/-- A buffer lists cells: its links run through them, they hold their chunks,
no other slot holds a chunk, every slot is an end, a cell or free, and the
size is the number of cells. -/
structure Lists (b : Buffer) (cells : List Cell) : Prop where
  threads : b.Threads head (handles cells ++ [tail])
  chunk?_of_mem : ∀ cell ∈ cells, b.chunk? cell.1 = some cell.2
  chunk?_vacant : ∀ handle ∉ handles cells, b.chunk? handle = none
  nodup : (spine cells ++ b.free).Nodup
  mem_iff_lt : ∀ handle, handle ∈ spine cells ++ b.free ↔ handle < b.slots.size
  size_eq : b.size = cells.length

/-! ### Handles and chunks of lists of cells -/

@[simp] theorem handles_append (cells more : List Cell) :
    handles (cells ++ more) = handles cells ++ handles more :=
  List.map_append

@[simp] theorem handles_cons (cell : Cell) (cells : List Cell) :
    handles (cell :: cells) = cell.1 :: handles cells := rfl

@[simp] theorem chunks_append (cells more : List Cell) :
    chunks (cells ++ more) = chunks cells ++ chunks more :=
  List.map_append

@[simp] theorem chunks_nil : chunks [] = [] :=
  rfl

@[simp] theorem chunks_cons (cell : Cell) (cells : List Cell) :
    chunks (cell :: cells) = cell.2 :: chunks cells := rfl

/-- Cells whose chunks begin with one begin with a cell that holds it. -/
theorem exists_cons_of_chunks {cells : List Cell} {chunk : Chunk} {more : List Chunk}
    (h : chunks cells = chunk :: more) :
    ∃ cell rest, cells = cell :: rest ∧ cell.2 = chunk ∧ chunks rest = more := by
  cases cells with
  | nil => cases h
  | cons cell rest =>
    cases h
    exact ⟨cell, rest, rfl, rfl, rfl⟩

@[simp] theorem length_chunks (cells : List Cell) : (chunks cells).length = cells.length :=
  List.length_map ..

@[simp] theorem lastHandle_concat (cells : List Cell) (cell : Cell) :
    lastHandle (cells ++ [cell]) = cell.1 := by
  simp [lastHandle, handles]

/-- The handles after some cells begin with the first handle after them. -/
theorem handles_concat_tail (cells : List Cell) :
    ∃ rest, handles cells ++ [tail] = firstHandle cells :: rest := by
  cases cells with
  | nil => exact ⟨[], rfl⟩
  | cons cell cells => exact ⟨handles cells ++ [tail], rfl⟩

/-- The handles of a buffer are those before a place, with the head, and those
after it, with the tail. -/
theorem spine_append (pre post : List Cell) :
    spine (pre ++ post) = (head :: handles pre) ++ (handles post ++ [tail]) := by
  rw [spine, handles_append, List.append_assoc, List.cons_append]

theorem lastHandle_mem (cells : List Cell) : lastHandle cells ∈ head :: handles cells :=
  List.getLastD_mem_cons

theorem firstHandle_mem (cells : List Cell) : firstHandle cells ∈ handles cells ++ [tail] := by
  obtain ⟨rest, hrest⟩ := handles_concat_tail cells
  rw [hrest]
  exact List.mem_cons_self

/-! ### Links -/

variable {b b' : Buffer} {left : Nat}

/-- Links run through two lists one after the other if they run through the
first and then, from its last handle on, through the second. -/
theorem threads_append (xs ys : List Nat) :
    b.Threads left (xs ++ ys) ↔ b.Threads left xs ∧ b.Threads (xs.getLastD left) ys := by
  induction xs generalizing left with
  | nil => simp [Threads]
  | cons x xs ih =>
    rw [List.cons_append, Threads, Threads, ih, List.getLastD_cons, and_assoc, and_assoc]

/-- Links that are not changed still run.  The link to the right of the last
handle and the one to the left of the first are not among them. -/
theorem Threads.congr {hs : List Nat} (h : b.Threads left hs)
    (hnext : ∀ x ∈ (left :: hs).dropLast, b'.next? x = b.next? x)
    (hprev : ∀ x ∈ hs, b'.prev? x = b.prev? x) : b'.Threads left hs := by
  induction hs generalizing left with
  | nil => trivial
  | cons x hs ih =>
    obtain ⟨hn, hp, hrest⟩ := h
    refine ⟨?_, ?_, ih hrest (fun y hy => ?_) (fun y hy => ?_)⟩
    · rw [hnext left (by simp), hn]
    · rw [hprev x (by simp), hp]
    · exact hnext y (by rw [List.dropLast_cons_cons]; exact List.mem_cons_of_mem _ hy)
    · exact hprev y (List.mem_cons_of_mem _ hy)

/-- The last handle of a list without repetition is not among those before
it. -/
theorem ne_getLastD_of_mem_dropLast {xs : List Nat} (hnodup : (left :: xs).Nodup) {x : Nat}
    (hx : x ∈ (left :: xs).dropLast) : x ≠ xs.getLastD left := by
  rintro rfl
  have hsplit := List.dropLast_concat_getLast (List.cons_ne_nil left xs)
  rw [List.getLast_eq_getLastD] at hsplit
  rw [← hsplit, List.nodup_append] at hnodup
  exact hnodup.2.2 _ hx _ (by simp) rfl

theorem next_eq_ok_iff {handle following : Nat} :
    b.next handle = .ok following ↔ b.next? handle = some following := by
  unfold next next? slot
  split <;> simp_all [Except.map]

theorem prev_eq_ok_iff {handle preceding : Nat} :
    b.prev handle = .ok preceding ↔ b.prev? handle = some preceding := by
  unfold prev prev? slot
  split <;> simp_all [Except.map]

theorem value_eq_ok_iff {handle : Nat} {chunk : Chunk} :
    b.value handle = .ok chunk ↔ b.chunk? handle = some chunk := by
  unfold value chunk? slot
  cases b.slots[handle]? with
  | none => simp
  | some s => cases hs : s.value <;> simp [hs]

/-- A handle with a chunk is live. -/
theorem isLive_of_chunk? {handle : Nat} {chunk : Chunk} (h : b.chunk? handle = some chunk) :
    b.isLive handle = true := by
  unfold chunk? at h
  unfold isLive
  obtain ⟨s, hs, hv⟩ := Option.bind_eq_some_iff.mp h
  simp [hs, hv]

/-! ### What the parts of an operation change -/

theorem next?_setNext (b : Buffer) {handle : Nat} (hlt : handle < b.slots.size)
    (following x : Nat) :
    (b.setNext handle following).next? x = if x = handle then some following else b.next? x := by
  unfold next? setNext
  grind

theorem prev?_setNext (b : Buffer) (handle following x : Nat) :
    (b.setNext handle following).prev? x = b.prev? x := by
  unfold prev? setNext
  grind

theorem chunk?_setNext (b : Buffer) (handle following x : Nat) :
    (b.setNext handle following).chunk? x = b.chunk? x := by
  unfold chunk? setNext
  grind

theorem next?_setPrev (b : Buffer) (handle preceding x : Nat) :
    (b.setPrev handle preceding).next? x = b.next? x := by
  unfold next? setPrev
  grind

theorem prev?_setPrev (b : Buffer) {handle : Nat} (hlt : handle < b.slots.size)
    (preceding x : Nat) :
    (b.setPrev handle preceding).prev? x = if x = handle then some preceding else b.prev? x := by
  unfold prev? setPrev
  grind

theorem chunk?_setPrev (b : Buffer) (handle preceding x : Nat) :
    (b.setPrev handle preceding).chunk? x = b.chunk? x := by
  unfold chunk? setPrev
  grind

@[simp] theorem next?_release (b : Buffer) (handle x : Nat) :
    (b.release handle).next? x = b.next? x := by
  unfold next? release
  grind

@[simp] theorem prev?_release (b : Buffer) (handle x : Nat) :
    (b.release handle).prev? x = b.prev? x := by
  unfold prev? release
  grind

theorem chunk?_release (b : Buffer) (handle x : Nat) :
    (b.release handle).chunk? x = if x = handle then none else b.chunk? x := by
  unfold chunk? release
  grind

/-- A handle is placed where a handle was freed last, or behind all slots. -/
def Places (b b' : Buffer) (new : Nat) : Prop :=
  b.free = new :: b'.free ∧ b'.slots.size = b.slots.size ∨
    b.free = [] ∧ b'.free = [] ∧ new = b.slots.size ∧ b'.slots.size = b.slots.size + 1

/-- A slot goes to the place freed last, or to a new place at the end. -/
theorem place_eq (b : Buffer) (slot : Slot) (hfree : ∀ handle ∈ b.free, handle < b.slots.size) :
    ∃ new b', b.place slot = (new, b') ∧ b.Places b' new ∧
      b'.size = b.size ∧ ∀ x, b'.slots[x]? = if x = new then some slot else b.slots[x]? := by
  unfold place
  split
  · rename_i new free heq
    have hlt : new < b.slots.size := hfree new (by simp [heq])
    refine ⟨new, _, rfl, Or.inl ⟨heq, by simp⟩, rfl, fun x => ?_⟩
    simp only [Array.getElem?_setIfInBounds]
    grind
  · rename_i heq
    refine ⟨b.slots.size, _, rfl, Or.inr ⟨heq, heq, rfl, by simp⟩, rfl, fun x => ?_⟩
    exact Array.getElem?_push

/-- What inserting changes: the links on both sides of the new handle, and
what stands in its slot. -/
theorem insertAfter_eq {handle following : Nat} (chunk : Chunk)
    (hfree : ∀ h ∈ b.free, h < b.slots.size) (hnext : b.next? handle = some following)
    (hlt : following < b.slots.size) :
    ∃ new b', b.insertAfter handle chunk = .ok (new, b') ∧ b.Places b' new ∧
      b'.size = b.size + 1 ∧
      (∀ x, b'.next? x =
        if x = handle then some new else if x = new then some following else b.next? x) ∧
      (∀ x, b'.prev? x =
        if x = following then some new else if x = new then some handle else b.prev? x) ∧
      ∀ x, b'.chunk? x = if x = new then some chunk else b.chunk? x := by
  obtain ⟨new, b₁, hplace, hwhere, hsize, hslots⟩ :=
    place_eq b ⟨some chunk, following, handle⟩ hfree
  have hhandle_lt : handle < b.slots.size := by
    unfold next? at hnext
    grind
  have hlt₁ : handle < b₁.slots.size ∧ following < b₁.slots.size := by
    rcases hwhere with ⟨_, h⟩ | ⟨_, _, _, h⟩ <;> rw [h] <;> omega
  have hlt₂ : following < (b₁.setNext handle new).slots.size := by
    simpa [setNext] using hlt₁.2
  let b₂ := (b₁.setNext handle new).setPrev following new
  refine ⟨new, { b₂ with size := b₂.size + 1 }, ?_, Or.imp ?_ ?_ hwhere, ?_, fun x => ?_,
    fun x => ?_, fun x => ?_⟩
  · unfold insertAfter
    rw [next_eq_ok_iff.mpr hnext]
    simp only [hplace, b₂]
  · exact fun h => ⟨h.1, by simpa [b₂, setNext, setPrev] using h.2⟩
  · exact fun h => ⟨h.1, h.2.1, h.2.2.1, by simpa [b₂, setNext, setPrev] using h.2.2.2⟩
  · simp [b₂, setNext, setPrev, hsize]
  · change ((b₁.setNext handle new).setPrev following new).next? x = _
    rw [next?_setPrev, next?_setNext _ hlt₁.1]
    unfold next?
    rw [hslots]
    split_ifs <;> rfl
  · change ((b₁.setNext handle new).setPrev following new).prev? x = _
    rw [prev?_setPrev _ hlt₂, prev?_setNext]
    unfold prev?
    rw [hslots]
    split_ifs <;> rfl
  · change ((b₁.setNext handle new).setPrev following new).chunk? x = _
    rw [chunk?_setPrev, chunk?_setNext]
    unfold chunk?
    rw [hslots]
    split_ifs <;> rfl

/-- What releasing a run of cells changes: they hold no chunks any more and
are free, the last one released first in line. -/
theorem releaseRun_eq {post : List Cell} (count removed : Nat)
    (hthreads : b.Threads (firstHandle post) (handles post ++ [tail]).tail)
    (htail : tail ∉ handles post) :
    ∃ b', b.releaseRun (firstHandle post) removed count =
        (b', firstHandle (post.drop count), removed + min count post.length) ∧
      b'.free = (handles (post.take count)).reverse ++ b.free ∧
      b'.slots.size = b.slots.size ∧ b'.size = b.size ∧
      (∀ x, b'.next? x = b.next? x) ∧ (∀ x, b'.prev? x = b.prev? x) ∧
      ∀ x, b'.chunk? x = if x ∈ handles (post.take count) then none else b.chunk? x := by
  induction count generalizing b post removed with
  | zero => exact ⟨b, by simp [releaseRun], by simp [handles], rfl, rfl, by simp, by simp,
      by simp [handles]⟩
  | succ count ih =>
    cases post with
    | nil => exact ⟨b, by simp [releaseRun, firstHandle, handles], by simp [handles], rfl, rfl,
        by simp, by simp, by simp [handles]⟩
    | cons cell post =>
      obtain ⟨rest, hrest⟩ := handles_concat_tail post
      rw [handles_cons, List.mem_cons, not_or] at htail
      rw [handles_cons, List.cons_append, List.tail_cons, hrest] at hthreads
      have hright :
          (b.release cell.1).Threads (firstHandle post) (handles post ++ [tail]).tail := by
        rw [hrest]
        exact hthreads.2.2.congr (by simp) (by simp)
      obtain ⟨b', heq, hfree, hslots, hsize, hnext, hprev, hchunk⟩ :=
        ih (removed + 1) hright htail.2
      refine ⟨b', ?_, ?_, ?_, hsize, fun x => ?_, fun x => ?_, fun x => ?_⟩
      · have hfirst : firstHandle (cell :: post) = cell.1 := rfl
        rw [hfirst] at hthreads ⊢
        rw [releaseRun, if_neg (Ne.symm htail.1), next_eq_ok_iff.mpr hthreads.1]
        dsimp only
        rw [heq, List.drop_succ_cons, List.length_cons]
        congr 2
        omega
      · rw [hfree, List.take_succ_cons, handles_cons, List.reverse_cons, List.append_assoc]
        rfl
      · rw [hslots, size_slots_release]
      · rw [hnext, next?_release]
      · rw [hprev, prev?_release]
      · rw [hchunk, chunk?_release, List.take_succ_cons, handles_cons]
        split_ifs <;> simp_all

/-- What removing a run of cells changes: they are released, and the links
across them are those across a place. -/
theorem removeRun_eq {handle : Nat} {post : List Cell} (count : Int)
    (hnext : b.next? handle = some (firstHandle post))
    (hthreads : b.Threads (firstHandle post) (handles post ++ [tail]).tail)
    (htail : tail ∉ handles post)
    (hlt : firstHandle (post.drop count.toNat) < b.slots.size) :
    ∃ b', b.removeRun handle count = .ok (min count.toNat post.length, b') ∧
      b'.free = (handles (post.take count.toNat)).reverse ++ b.free ∧
      b'.slots.size = b.slots.size ∧ b'.size = b.size - (min count.toNat post.length : Nat) ∧
      (∀ x, b'.next? x =
        if x = handle then some (firstHandle (post.drop count.toNat)) else b.next? x) ∧
      (∀ x, b'.prev? x =
        if x = firstHandle (post.drop count.toNat) then some handle else b.prev? x) ∧
      ∀ x, b'.chunk? x = if x ∈ handles (post.take count.toNat) then none else b.chunk? x := by
  obtain ⟨b₁, hrelease, hfree, hslots, hsize, hnext₁, hprev₁, hchunk₁⟩ :=
    releaseRun_eq count.toNat 0 hthreads htail
  rw [Nat.zero_add] at hrelease
  have hhandle : handle < b₁.slots.size := by
    unfold next? at hnext
    grind
  have hfirst : firstHandle (post.drop count.toNat) <
      (b₁.setNext handle (firstHandle (post.drop count.toNat))).slots.size := by
    simpa [setNext, hslots] using hlt
  let b₂ := b₁.link handle (firstHandle (post.drop count.toNat))
  refine ⟨{ b₂ with size := b₂.size - (min count.toNat post.length : Nat) }, ?_, hfree, ?_, ?_,
    fun x => ?_, fun x => ?_, fun x => ?_⟩
  · unfold removeRun
    rw [next_eq_ok_iff.mpr hnext]
    dsimp only
    rw [hrelease]
  · exact (size_slots_link ..).trans hslots
  · exact congrArg (· - _) hsize
  · rw [← hnext₁ x]
    exact (next?_setPrev ..).trans (next?_setNext _ hhandle _ _)
  · rw [← hprev₁ x, ← prev?_setNext b₁ handle (firstHandle (post.drop count.toNat))]
    exact prev?_setPrev _ hfirst _ _
  · rw [← hchunk₁ x]
    exact (chunk?_setPrev ..).trans (chunk?_setNext ..)

/-! ### Reading a listed buffer -/

namespace Lists

variable {pre post cells : List Cell} {cell : Cell}

/-- The links run through the cells before a place, across it, and through the
cells after it. -/
theorem threads_split (h : b.Lists (pre ++ post)) :
    b.Threads head (handles pre) ∧ b.next? (lastHandle pre) = some (firstHandle post) ∧
      b.prev? (firstHandle post) = some (lastHandle pre) ∧
      b.Threads (firstHandle post) (handles post ++ [tail]).tail := by
  have hthreads := h.threads
  obtain ⟨rest, hrest⟩ := handles_concat_tail post
  rw [handles_append, List.append_assoc, hrest, threads_append] at hthreads
  rw [hrest]
  exact ⟨hthreads.1, hthreads.2⟩

/-- The handle after the last cell before a place is that of the first cell
after it. -/
theorem next_lastHandle (h : b.Lists (pre ++ post)) :
    b.next (lastHandle pre) = .ok (firstHandle post) :=
  next_eq_ok_iff.mpr h.threads_split.2.1

/-- The handle before the first cell after a place is that of the last cell
before it. -/
theorem prev_firstHandle (h : b.Lists (pre ++ post)) :
    b.prev (firstHandle post) = .ok (lastHandle pre) :=
  prev_eq_ok_iff.mpr h.threads_split.2.2.1

/-- A cell holds its chunk. -/
theorem value_of_mem (h : b.Lists cells) (hmem : cell ∈ cells) : b.value cell.1 = .ok cell.2 :=
  value_eq_ok_iff.mpr (h.chunk?_of_mem cell hmem)

/-- The handle of a cell is live. -/
theorem isLive_of_mem (h : b.Lists cells) (hmem : cell ∈ cells) : b.isLive cell.1 = true :=
  isLive_of_chunk? (h.chunk?_of_mem cell hmem)

/-- The last handle before a place is the head or that of a cell. -/
theorem lastHandle_eq_or_mem (cells : List Cell) :
    lastHandle cells = head ∨ ∃ cell ∈ cells, lastHandle cells = cell.1 := by
  rcases List.eq_nil_or_concat cells with rfl | ⟨init, cell, rfl⟩
  · exact Or.inl rfl
  · exact Or.inr ⟨cell, by simp, by simp⟩

/-- There are fewer cells than slots. -/
theorem length_lt (h : b.Lists cells) : cells.length + 2 ≤ b.slots.size := by
  have hsub : spine cells ++ b.free ⊆ List.range b.slots.size := fun x hx =>
    List.mem_range.mpr ((h.mem_iff_lt x).mp hx)
  have hle := List.Nodup.length_le_of_subset h.nodup hsub
  simp only [List.length_append, spine, List.length_cons, handles, List.length_map,
    List.length_nil, List.length_range] at hle
  omega

/-! ### Links on the two sides of a place -/

theorem nodup_spine (h : b.Lists cells) : (spine cells).Nodup :=
  (List.nodup_append.mp h.nodup).1

/-- The handles before a place, the head among them, are not those after it,
the tail among them. -/
theorem nodup_sides (h : b.Lists (pre ++ post)) :
    (head :: handles pre).Nodup ∧ (handles post ++ [tail]).Nodup ∧
      ∀ x ∈ head :: handles pre, ∀ y ∈ handles post ++ [tail], x ≠ y := by
  have hspine := h.nodup_spine
  rw [spine_append] at hspine
  exact List.nodup_append.mp hspine

/-- The handle of a cell is not the tail. -/
theorem ne_tail_of_mem (h : b.Lists cells) (hmem : cell ∈ cells) : cell.1 ≠ tail :=
  (List.nodup_append.mp (List.nodup_cons.mp h.nodup_spine).2).2.2 _ (List.mem_map_of_mem hmem)
    tail (by simp)

/-- The links before a place run on as long as no link changes but the one
across the place. -/
theorem threads_left (h : b.Lists (pre ++ post))
    (hnext : ∀ x ∈ head :: handles pre, x ≠ lastHandle pre → b'.next? x = b.next? x)
    (hprev : ∀ x ∈ handles pre, b'.prev? x = b.prev? x) : b'.Threads head (handles pre) :=
  h.threads_split.1.congr
    (fun x hx => hnext x (List.dropLast_subset _ hx)
      (ne_getLastD_of_mem_dropLast h.nodup_sides.1 hx)) hprev

/-- The links after a place run on as long as no link changes but the one
across the place. -/
theorem threads_right (h : b.Lists (pre ++ post))
    (hnext : ∀ x ∈ handles post, b'.next? x = b.next? x)
    (hprev : ∀ x ∈ handles post ++ [tail], x ≠ firstHandle post → b'.prev? x = b.prev? x) :
    b'.Threads (firstHandle post) (handles post ++ [tail]).tail := by
  have hthreads := h.threads_split.2.2.2
  have hnodup := h.nodup_sides.2.1
  have hinit : (handles post ++ [tail]).dropLast = handles post := List.dropLast_concat
  obtain ⟨rest, hrest⟩ := handles_concat_tail post
  rw [hrest] at hprev hthreads hnodup hinit ⊢
  refine hthreads.congr (fun x hx => hnext x (hinit ▸ hx)) (fun x hx => ?_)
  exact hprev x (List.mem_cons_of_mem _ hx) fun he => (List.nodup_cons.mp hnodup).1 (he ▸ hx)

/-- Links before a place, across it and after it make links through all. -/
theorem threads_join (hleft : b.Threads head (handles pre))
    (hnext : b.next? (lastHandle pre) = some (firstHandle post))
    (hprev : b.prev? (firstHandle post) = some (lastHandle pre))
    (hright : b.Threads (firstHandle post) (handles post ++ [tail]).tail) :
    b.Threads head (handles (pre ++ post) ++ [tail]) := by
  obtain ⟨rest, hrest⟩ := handles_concat_tail post
  rw [handles_append, List.append_assoc, threads_append, hrest]
  rw [hrest] at hright
  exact ⟨hleft, hnext, hprev, hright⟩

/-! ### Inserting -/

/-- A new cell adds its handle to those of a buffer. -/
theorem spine_insert_perm (pre post : List Cell) (cell : Cell) :
    (spine (pre ++ cell :: post)).Perm (cell.1 :: spine (pre ++ post)) := by
  rw [spine, spine, handles_append, handles_append, handles_cons, List.append_assoc,
    List.append_assoc]
  exact (List.perm_middle.cons head).trans (List.Perm.swap ..)

/-- Wherever an inserted slot comes from, the handles of the buffer and the
free ones are those from before, with the new one among them once. -/
theorem nodup_of_places {new : Nat} (hlist : b.Lists cells) (hwhere : b.Places b' new) :
    (new :: (spine cells ++ b'.free)).Nodup ∧
      ∀ x, x ∈ new :: (spine cells ++ b'.free) ↔ x < b'.slots.size := by
  rcases hwhere with ⟨hfree, hsize⟩ | ⟨hfree, hfree', hnew, hsize⟩
  · have hperm : (spine cells ++ b.free).Perm (new :: (spine cells ++ b'.free)) := by
      rw [hfree]
      exact List.perm_middle
    refine ⟨hperm.nodup_iff.mp hlist.nodup, fun x => ?_⟩
    rw [← hperm.mem_iff, hlist.mem_iff_lt, hsize]
  · have hmem := hlist.mem_iff_lt
    have hnodup := hlist.nodup
    rw [hfree] at hmem hnodup
    rw [hfree', hsize, hnew]
    refine ⟨List.nodup_cons.mpr ⟨fun hx => ?_, hnodup⟩, fun x => ?_⟩
    · exact Nat.lt_irrefl _ ((hmem _).mp hx)
    · rw [List.mem_cons, hmem]
      omega

/-- A handle that belongs to no cell and no end is none of those before a place, and none
of those after it. -/
theorem ne_of_not_mem_spine {new : Nat} (hnew : new ∉ spine (pre ++ post)) :
    (∀ x ∈ head :: handles pre, x ≠ new) ∧ ∀ x ∈ handles post ++ [tail], x ≠ new := by
  rw [spine_append, List.mem_append, not_or] at hnew
  exact ⟨fun x hx he => hnew.1 (he ▸ hx), fun x hx he => hnew.2 (he ▸ hx)⟩

/-- Where the links on both sides of a new handle are set, the links run through it. -/
theorem threads_insert (h : b.Lists (pre ++ post)) {new : Nat} (chunk : Chunk)
    (hnew : new ∉ spine (pre ++ post))
    (hnext : ∀ x, b'.next? x =
      if x = lastHandle pre then some new
      else if x = new then some (firstHandle post) else b.next? x)
    (hprev : ∀ x, b'.prev? x =
      if x = firstHandle post then some new
      else if x = new then some (lastHandle pre) else b.prev? x) :
    b'.Threads head (handles (pre ++ (new, chunk) :: post) ++ [tail]) := by
  obtain ⟨hpre, hpost⟩ := ne_of_not_mem_spine hnew
  obtain ⟨-, -, hapart⟩ := h.nodup_sides
  have hlast := lastHandle_mem pre
  have hfirst := firstHandle_mem post
  have hleft : b'.Threads head (handles pre) := by
    refine h.threads_left (fun x hx hne => ?_) fun x hx => ?_
    · rw [hnext, if_neg hne, if_neg (hpre x hx)]
    · have hx := List.mem_cons_of_mem head hx
      rw [hprev, if_neg (hapart x hx _ hfirst), if_neg (hpre x hx)]
  have hright : b'.Threads (firstHandle post) (handles post ++ [tail]).tail := by
    refine h.threads_right (fun x hx => ?_) fun x hx hne => ?_
    · have hx := List.mem_append_left [tail] hx
      rw [hnext, if_neg (hapart _ hlast x hx).symm, if_neg (hpost x hx)]
    · rw [hprev, if_neg hne, if_neg (hpost x hx)]
  -- The new handle lies between the two sides: there are two places to go across.
  refine threads_join hleft ((hnext _).trans (if_pos rfl))
    ((hprev _).trans ((if_neg (hpost _ hfirst).symm).trans (if_pos rfl))) ?_
  obtain ⟨rest, hrest⟩ := handles_concat_tail post
  rw [hrest] at hright
  rw [handles_cons, List.cons_append, List.tail_cons, hrest]
  exact ⟨(hnext _).trans ((if_neg (hpre _ hlast).symm).trans (if_pos rfl)),
    (hprev _).trans (if_pos rfl), hright⟩

/-- Where a new slot holds a chunk, it and the cells there were hold their chunks, and no
other slot holds one. -/
theorem chunk?_insert (h : b.Lists (pre ++ post)) {new : Nat} {chunk : Chunk}
    (hnew : new ∉ spine (pre ++ post))
    (hchunk : ∀ x, b'.chunk? x = if x = new then some chunk else b.chunk? x) :
    (∀ cell ∈ pre ++ (new, chunk) :: post, b'.chunk? cell.1 = some cell.2) ∧
      ∀ handle ∉ handles (pre ++ (new, chunk) :: post), b'.chunk? handle = none := by
  obtain ⟨hpre, hpost⟩ := ne_of_not_mem_spine hnew
  constructor
  · intro cell hcell
    rw [hchunk]
    rcases List.mem_append.mp hcell with hcell | hcell
    · have hx : cell.1 ∈ handles pre := List.mem_map_of_mem hcell
      rw [if_neg (hpre _ (List.mem_cons_of_mem _ hx))]
      exact h.chunk?_of_mem cell (List.mem_append_left _ hcell)
    · rcases List.mem_cons.mp hcell with rfl | hcell
      · exact if_pos rfl
      · have hx : cell.1 ∈ handles post := List.mem_map_of_mem hcell
        rw [if_neg (hpost _ (List.mem_append_left _ hx))]
        exact h.chunk?_of_mem cell (List.mem_append_right _ hcell)
  · intro x hx
    rw [handles_append, handles_cons, List.mem_append, List.mem_cons] at hx
    rw [hchunk, if_neg (fun he => hx (Or.inr (Or.inl he)))]
    refine h.chunk?_vacant x fun hmem => hx ?_
    rw [handles_append, List.mem_append] at hmem
    exact hmem.imp_right Or.inr

/-- **Inserting a chunk inserts a cell** after the last cell before a place.
Its handle is new, and is that of a free slot if there is one. -/
theorem insertAfter (h : b.Lists (pre ++ post)) (chunk : Chunk) :
    ∃ new b', b.insertAfter (lastHandle pre) chunk = .ok (new, b') ∧
      b'.Lists (pre ++ (new, chunk) :: post) ∧ new ∉ spine (pre ++ post) ∧ b.Places b' new := by
  obtain ⟨-, hnext, -, -⟩ := h.threads_split
  have hfree : ∀ x ∈ b.free, x < b.slots.size := fun x hx =>
    (h.mem_iff_lt x).mp (List.mem_append_right _ hx)
  have hlt : firstHandle post < b.slots.size := by
    rw [← h.mem_iff_lt, spine_append]
    exact List.mem_append_left _ (List.mem_append_right _ (firstHandle_mem post))
  obtain ⟨new, b', heq, hwhere, hsize, hnext', hprev', hchunk'⟩ :=
    insertAfter_eq chunk hfree hnext hlt
  obtain ⟨hnodup, hmem⟩ := nodup_of_places h hwhere
  have hperm := (spine_insert_perm pre post (new, chunk)).append_right b'.free
  have hnew : new ∉ spine (pre ++ post) := fun hx =>
    (List.nodup_cons.mp hnodup).1 (List.mem_append_left _ hx)
  obtain ⟨hholds, hvacant⟩ := chunk?_insert h hnew hchunk'
  refine ⟨new, b', heq, ⟨threads_insert h chunk hnew hnext' hprev', hholds, hvacant,
    hperm.nodup_iff.mpr hnodup, fun x => hperm.mem_iff.trans (hmem x), ?_⟩, hnew, hwhere⟩
  rw [hsize, h.size_eq]
  simp
  omega

/-! ### Removing -/

/-- Removed cells go from the handles of a buffer to the free ones. -/
theorem spine_remove_perm (pre post : List Cell) (count : Nat) (free : List Nat) :
    (spine (pre ++ post) ++ free).Perm
      (spine (pre ++ post.drop count) ++ ((handles (post.take count)).reverse ++ free)) := by
  have hsplit : handles post = handles (post.take count) ++ handles (post.drop count) := by
    rw [← handles_append, List.take_append_drop]
  have hmove (xs ys : List Nat) : (xs ++ (ys ++ free)).Perm (ys ++ (xs.reverse ++ free)) := by
    rw [← List.append_assoc, ← List.append_assoc]
    exact (List.perm_append_comm.trans ((List.reverse_perm xs).symm.append_left ys)).append_right _
  have hgoal := (hmove (handles (post.take count))
    (handles (post.drop count) ++ [tail])).append_left (head :: handles pre)
  rw [spine_append, spine_append, hsplit]
  simpa only [List.append_assoc] using hgoal

/-- Where the links across a removed run are those across a place, the links run past it. -/
theorem threads_remove (h : b.Lists (pre ++ post)) (count : Nat)
    (hnext : ∀ x, b'.next? x =
      if x = lastHandle pre then some (firstHandle (post.drop count)) else b.next? x)
    (hprev : ∀ x, b'.prev? x =
      if x = firstHandle (post.drop count) then some (lastHandle pre) else b.prev? x) :
    b'.Threads head (handles (pre ++ post.drop count) ++ [tail]) := by
  have hlists : b.Lists ((pre ++ post.take count) ++ post.drop count) := by
    rwa [List.append_assoc, List.take_append_drop]
  obtain ⟨-, -, hapart⟩ := hlists.nodup_sides
  rw [handles_append, ← List.cons_append] at hapart
  refine threads_join (h.threads_left (fun x _ hne => ?_) fun x hx => ?_)
    ((hnext _).trans (if_pos rfl)) ((hprev _).trans (if_pos rfl))
    (hlists.threads_right (fun x hx => ?_) fun x _ hne => ?_)
  · rw [hnext, if_neg hne]
  · have hx := List.mem_append_left (handles (post.take count)) (List.mem_cons_of_mem head hx)
    rw [hprev, if_neg (hapart x hx _ (firstHandle_mem _))]
  · have hlast := List.mem_append_left (handles (post.take count)) (lastHandle_mem pre)
    rw [hnext, if_neg (hapart _ hlast x (List.mem_append_left _ hx)).symm]
  · rw [hprev, if_neg hne]

/-- Where the slots of a removed run hold nothing any more, the cells that are left hold
their chunks, and no other slot holds one. -/
theorem chunk?_remove (h : b.Lists (pre ++ post)) (count : Nat)
    (hchunk : ∀ x, b'.chunk? x = if x ∈ handles (post.take count) then none else b.chunk? x) :
    (∀ cell ∈ pre ++ post.drop count, b'.chunk? cell.1 = some cell.2) ∧
      ∀ handle ∉ handles (pre ++ post.drop count), b'.chunk? handle = none := by
  have hnodup := (spine_remove_perm pre post count b.free).nodup_iff.mp h.nodup
  constructor
  · intro cell hcell
    have hx : cell.1 ∉ handles (post.take count) := by
      intro hx
      have hspine : cell.1 ∈ spine (pre ++ post.drop count) :=
        List.mem_cons_of_mem _ (List.mem_append_left _ (List.mem_map_of_mem hcell))
      exact (List.nodup_append.mp hnodup).2.2 _ hspine _
        (List.mem_append_left _ (List.mem_reverse.mpr hx)) rfl
    rw [hchunk, if_neg hx]
    refine h.chunk?_of_mem cell ?_
    rcases List.mem_append.mp hcell with hcell | hcell
    · exact List.mem_append_left _ hcell
    · exact List.mem_append_right _ (List.mem_of_mem_drop hcell)
  · intro x hx
    rw [hchunk]
    split
    · rfl
    · rename_i hrun
      refine h.chunk?_vacant x ?_
      rw [handles_append, List.mem_append, not_or] at hx ⊢
      refine ⟨hx.1, fun hpost => ?_⟩
      rw [← List.take_append_drop count post, handles_append, List.mem_append] at hpost
      exact hpost.elim hrun hx.2

/-- **Removing chunks drops cells** after the last cell before a place, as
many as there are and no more than asked for.  Their slots stay. -/
theorem removeRun (h : b.Lists (pre ++ post)) (count : Int) :
    ∃ b', b.removeRun (lastHandle pre) count = .ok (min count.toNat post.length, b') ∧
      b'.Lists (pre ++ post.drop count.toNat) ∧ b'.slots.size = b.slots.size := by
  obtain ⟨-, hnext, -, hthreads⟩ := h.threads_split
  have htail : tail ∉ handles post := fun hx =>
    (List.nodup_append.mp h.nodup_sides.2.1).2.2 _ hx tail (by simp) rfl
  have hperm := spine_remove_perm pre post count.toNat b.free
  have hlt : firstHandle (post.drop count.toNat) < b.slots.size := by
    rw [← h.mem_iff_lt, hperm.mem_iff, spine_append]
    exact List.mem_append_left _ (List.mem_append_right _ (firstHandle_mem _))
  obtain ⟨b', heq, hfree, hslots, hsize, hnext', hprev', hchunk'⟩ :=
    removeRun_eq count hnext hthreads htail hlt
  rw [← hfree] at hperm
  obtain ⟨hholds, hvacant⟩ := chunk?_remove h count.toNat hchunk'
  refine ⟨b', heq, ⟨threads_remove h count.toNat hnext' hprev', hholds, hvacant,
    hperm.nodup_iff.mp h.nodup, fun x => ?_, ?_⟩, hslots⟩
  · rw [← hperm.mem_iff, h.mem_iff_lt, hslots]
  · rw [hsize, h.size_eq, List.length_append, List.length_append, List.length_drop]
    omega

/-! ### Reading all chunks -/

/-- The trail to the right from the first handle on is the handles, given
enough steps. -/
theorem trail_next_eq {fuel : Nat}
    (hthreads : b.Threads (firstHandle cells) (handles cells ++ [tail]).tail)
    (htail : tail ∉ handles cells) (hfuel : cells.length ≤ fuel) :
    b.trail (·.next) tail fuel (firstHandle cells) = handles cells := by
  induction cells generalizing fuel with
  | nil => cases fuel <;> rfl
  | cons cell cells ih =>
    obtain ⟨fuel, rfl⟩ := Nat.exists_eq_add_of_lt (Nat.lt_of_succ_le hfuel)
    obtain ⟨rest, hrest⟩ := handles_concat_tail cells
    rw [handles_cons, List.mem_cons, not_or] at htail
    rw [handles_cons, List.cons_append, List.tail_cons, hrest] at hthreads
    obtain ⟨slot, hslot, hnext⟩ := Option.map_eq_some_iff.mp hthreads.1
    have hright : b.Threads (firstHandle cells) (handles cells ++ [tail]).tail := by
      rw [hrest]
      exact hthreads.2.2
    have hfirst : firstHandle (cell :: cells) = cell.1 := rfl
    rw [hfirst] at hslot ⊢
    rw [trail, if_neg (Ne.symm htail.1), hslot]
    dsimp only
    rw [hnext, ih hright htail.2 (by omega), handles_cons]

/-- The trail to the left from the last handle on is the handles in opposite
order, given enough steps. -/
theorem trail_prev_eq {fuel : Nat} (hthreads : b.Threads head (handles cells))
    (hhead : head ∉ handles cells) (hfuel : cells.length ≤ fuel) :
    b.trail (·.prev) head fuel (lastHandle cells) = (handles cells).reverse := by
  induction cells using List.reverseRecOn generalizing fuel with
  | nil => cases fuel <;> rfl
  | append_singleton init cell ih =>
    rw [List.length_append, List.length_singleton] at hfuel
    obtain ⟨fuel, rfl⟩ := Nat.exists_eq_add_of_lt (Nat.lt_of_succ_le hfuel)
    rw [handles_append, List.mem_append, not_or] at hhead
    rw [handles_append, threads_append] at hthreads
    obtain ⟨hinit, -, hprev, -⟩ := hthreads
    obtain ⟨slot, hslot, hleft⟩ := Option.map_eq_some_iff.mp hprev
    have hne : cell.1 ≠ head := fun heq => hhead.2 (heq ▸ List.mem_singleton_self _)
    rw [lastHandle_concat, trail, if_neg hne, hslot]
    dsimp only
    rw [hleft, handles_append, List.reverse_append]
    exact congrArg (cell.1 :: ·) (ih hinit hhead.1 (by omega))

theorem tail_not_mem (h : b.Lists cells) : tail ∉ handles cells := fun hx =>
  (List.nodup_append.mp (List.nodup_cons.mp h.nodup_spine).2).2.2 _ hx tail (by simp) rfl

theorem head_not_mem (h : b.Lists cells) : head ∉ handles cells := fun hx =>
  (List.nodup_cons.mp h.nodup_spine).1 (List.mem_append_left _ hx)

/-- The handles from left to right are those of the cells. -/
theorem forward_eq (h : b.Lists cells) {most : Nat} (hmost : cells.length ≤ most) :
    b.forward most = handles cells := by
  have hall : b.Lists ([] ++ cells) := h
  obtain ⟨-, hnext, -, hthreads⟩ := hall.threads_split
  obtain ⟨slot, hslot, hfirst⟩ := Option.map_eq_some_iff.mp hnext
  rw [forward, show b.slots[head]? = some slot from hslot]
  dsimp only
  rw [hfirst, trail_next_eq hthreads h.tail_not_mem hmost]

/-- The handles from right to left are those of the cells in opposite order. -/
theorem backward_eq (h : b.Lists cells) {most : Nat} (hmost : cells.length ≤ most) :
    b.backward most = (handles cells).reverse := by
  have hall : b.Lists (cells ++ []) := by simpa using h
  obtain ⟨hthreads, -, hprev, -⟩ := hall.threads_split
  obtain ⟨slot, hslot, hlast⟩ := Option.map_eq_some_iff.mp hprev
  rw [backward, show b.slots[tail]? = some slot from hslot]
  dsimp only
  rw [hlast, trail_prev_eq hthreads h.head_not_mem hmost]

/-- **The chunks of a buffer are those of its cells.** -/
theorem toList_eq (h : b.Lists cells) : b.toList = chunks cells := by
  have hvalues : b.values = cells.map fun cell => some cell.2 := by
    rw [values, h.forward_eq (by have := h.length_lt; omega), handles, List.map_map]
    exact List.map_congr_left fun cell hcell => h.chunk?_of_mem cell hcell
  rw [toList, hvalues, List.filterMap_map, chunks]
  exact congrFun List.filterMap_eq_map cells

/-- The buffer without elements lists no cells. -/
theorem empty : Buffer.empty.Lists [] where
  threads := ⟨rfl, rfl, trivial⟩
  chunk?_of_mem := by simp
  chunk?_vacant := by
    intro x _
    unfold chunk?
    match x with
    | 0 | 1 => rfl
    | _ + 2 => rfl
  nodup := by decide
  mem_iff_lt := by
    intro x
    simp [spine, handles, Buffer.empty, head, tail]
    omega
  size_eq := rfl

end Lists

end Buffer
end Highlight
