/-
# How many chunks there are

A text is cut into no more chunks than it has characters, and one, at every
level; and where a run fails because there are too many, there is one more than
characters, or there are two (`chunksOf_sparse`, with every way of going deeper by
`descend_frugal`).

There is a check at the head of each step, but only after it has been found that
the walk is not over, and none behind a rematch.  In between a cut may add two
chunks, and it does where it takes one and leaves text before and after the match.
Then the text after the match is still ahead, in the region of the walk, so that
the next step makes the check (`Tape.Sparse`).  A cut that takes more chunks
adds one at most, and leaves room for the rematch.
-/

import Highlight.Proofs.Coverage
import Highlight.Proofs.Store.Resolutions

namespace Highlight

open Chunk RunM

/-- A failure for too many chunks comes where there are one or two more than
characters. -/
def Failure.Narrow (e : Failure) : Prop :=
  ∀ chunks length, e = .overrun chunks length → chunks = length + 1 ∨ chunks = length + 2

theorem Failure.Narrow.of_toClass {e : Failure} {c : FailureClass} (h : e.toClass = c)
    (hc : c ≠ .overrun) : e.Narrow := by
  rintro chunks length rfl
  exact absurd h.symm hc

/-! ### Nested texts -/

namespace Chunk

/-- No nested text among some chunks has been cut into more chunks than it has
characters, and one. -/
def Slim (cs : List Chunk) : Prop :=
  ∀ tag parts, .node tag parts ∈ tokensOf cs → (parts.length : Int) ≤ tag.length + 1

variable {cs ds : List Chunk}

theorem slim_append : Slim (cs ++ ds) ↔ Slim cs ∧ Slim ds := by
  simp only [Slim, tokensOf_append, List.mem_append, or_imp, forall_and]

theorem slim_ofText (text : Text) : Slim (ofText text) := by
  rw [Slim, tokensOf_ofText]
  nofun

theorem slim_leaf (tag : Tag) (text : Text) : Slim [.leaf tag text] := by
  intro tag parts h
  simp [tokensOf, tokens] at h

/-- The token of a text that has been cut further is slim if its parts are few. -/
theorem slim_node {clause : Clause} {matched : Text} {parts : List Chunk}
    (hlength : parts.length ≤ matched.length + 1) (hparts : Slim parts) :
    Slim [.node (clause.tag matched) parts] := by
  intro tag parts' h
  rw [tokensOf, tokens, tokensOf, List.append_nil, List.mem_cons] at h
  rcases h with h | h
  · cases h
    exact Int.ofNat_le.mpr hlength
  · exact hparts tag parts' h

/-- A text is one chunk, or none. -/
theorem length_ofText (text : Text) : (ofText text).length = min 1 text.length := by
  unfold ofText
  split
  · rename_i h
    rw [h]
    rfl
  · rename_i h
    have hpos := List.length_pos_iff.mpr h
    rw [List.length_singleton]
    omega

end Chunk

/-! ### Steps -/

/-- The number of chunks that a text is cut into, when a walk is on its way. -/
def Tape.count (base : Nat) (t : Tape) : Nat :=
  base + t.passed.length + t.ahead.length

/-- Passing chunks leaves as many. -/
theorem Tape.count_pass {base : Nat} {t : Tape} {skipped rest : List Chunk}
    (hahead : t.ahead = skipped ++ rest) : (t.pass skipped rest).count base = t.count base := by
  rw [count, count, hahead]
  simp only [pass, List.length_append]
  omega

/-- There are no more chunks than characters, and one; or there is another one, and
the walk is not over. -/
structure Tape.Sparse (s : Strip) (t : Tape) : Prop where
  count : t.count s.base ≤ s.text.length + 1 ∨
    t.count s.base = s.text.length + 2 ∧ ¬ t.IsOver
  slim : Slim (t.passed ++ t.ahead)

/-- Some chunks of a sweep, with those to the left of it, are no more than there are
characters, and one. -/
structure Strip.Sparse (s : Strip) (chunks : List Chunk) : Prop where
  count : s.base + chunks.length ≤ s.text.length + 1
  slim : Slim chunks

/-- A way of going deeper on which sweeps leave no more chunks than there are
characters, and one, if they start so. -/
def Strip.Frugal (enter : Strip.Enter) : Prop :=
  ∀ s : Strip, s.Covers → Triple (fun _ => s.Sparse s.chunks) (enter s)
    (fun swept _ => s.Sparse swept.chunks) fun e _ => e.Narrow

section Step

variable {enter : Strip.Enter} {limits : Limits} {clause : Clause} {earlier : List Clause}
  {s : Strip} {t : Tape} {skipped covered rest : List Chunk} {cut : Cut} {token : Chunk}

/-- What a grammar cannot be resolved for is not that there are too many chunks. -/
theorem resolve_narrow (ref : Ref) :
    Triple (fun _ => True) (RunM.resolve ref) (fun _ _ => True) fun e _ => e.Narrow :=
  .resolve (fun _ _ _ _ _ _ => trivial) fun _ e _ hresolve =>
    (Store.blaming_resolve _ _ e hresolve).elim (.of_toClass · nofun) (.of_toClass · nofun)

/-- The chunks of a text are no more than its characters, and one, if sweeps leave
no more. -/
theorem chunksOf_sparse (henter : Strip.Frugal enter) (nested : Bool) (text : Text) (ref : Ref) :
    Triple (fun _ => True) (Strip.chunksOf enter nested text ref)
      (fun cs _ => cs.length ≤ text.length + 1 ∧ Slim cs) fun e _ => e.Narrow := by
  refine Strip.chunksOf_triple (resolve_narrow ref) (fun _ _ _ h => h) ?_ ?_
  · exact fun _ _ _ _ => ⟨Nat.zero_le _, nofun⟩
  · intro resolution htext
    have hpos := List.length_pos_iff.mpr htext
    have hstart : Strip.Sparse ⟨text, resolution.clauses, 0, [.plain text], 0, none⟩
        [.plain text] := ⟨Nat.le_add_left 1 _, nofun⟩
    refine (henter _ (.whole ..)).imp (fun _ _ => hstart) (fun swept _ h => ?_) fun _ _ h => h
    have hcount := h.count
    rw [Nat.zero_add] at hcount
    exact ⟨hcount, h.slim⟩

/-- The token of a matched text holds no more chunks than characters, and one. -/
theorem tokenOf_sparse (henter : Strip.Frugal enter) (matched : Text) :
    Triple (fun _ => True) (Strip.tokenOf enter clause matched) (fun token _ => Slim [token])
      fun e _ => e.Narrow :=
  Strip.tokenOf_triple (fun _ _ _ => slim_leaf _ _) fun id _ =>
    (chunksOf_sparse henter true matched (.grammar id)).post fun _ _ h => slim_node h.1 h.2

/-- What a cut leaves is slim if its token is. -/
theorem slim_replace (cut : Cut) (h : Slim (t.passed ++ (covered ++ rest)))
    (htoken : Slim [token]) :
    Slim (t.passed ++ ofText cut.before) ∧ Slim (Tape.leftover cut token rest) := by
  rw [Tape.leftover, ← List.singleton_append]
  simp only [slim_append] at h ⊢
  exact ⟨⟨h.1, slim_ofText _⟩, htoken, slim_ofText _, h.2.2⟩

/-- There is text ahead, in the region of a walk, where a match leaves some behind
it. -/
theorem not_isOver_resume (t : Tape) (rest : List Chunk) (hfits : cut.Fits covered)
    (hextent : token.extent = cut.matched.length) (hafter : 0 < cut.after.length) :
    ¬ (t.resume cut token
      ⟨Tape.leftover cut token rest, some (t.offset + cut.segment.length)⟩).IsOver := by
  have hjoin := hfits.length_join
  have hsegment := hfits.length_segment
  rintro (hahead | hreach)
  · have hlength := length_ofText cut.after
    simp only [Tape.resume, Tape.leftover, List.tail_cons, List.append_eq_nil_iff] at hahead
    rw [hahead.1, List.length_nil] at hlength
    omega
  · cases hr : t.reach with
    | none => simp [Tape.resume, Walk.extend, hr] at hreach
    | some reach =>
      simp [Tape.resume, Walk.extend, hr] at hreach
      omega

/-- **A cut that takes one chunk** adds two at most, and if it does then the walk is
not over. -/
theorem sparse_of_one (hahead : t.ahead = covered ++ rest) (hfits : cut.Fits covered)
    (hone : covered.length = 1) (hcount : t.count s.base ≤ s.text.length)
    (hslim : Slim (t.passed ++ t.ahead)) (htoken : Slim [token])
    (hextent : token.extent = cut.matched.length) :
    Tape.Sparse s (t.resume cut token
      ⟨Tape.leftover cut token rest, some (t.offset + cut.segment.length)⟩) where
  count := by
    have hbefore := length_ofText cut.before
    have hafter := length_ofText cut.after
    rw [Tape.count, hahead, List.length_append, hone] at hcount
    simp only [Tape.count, Tape.resume, Tape.leftover, List.tail_cons, List.length_append,
      List.length_singleton]
    rcases Nat.eq_zero_or_pos cut.after.length with hnone | hsome
    · left
      omega
    · have hnot := not_isOver_resume t rest hfits hextent hsome
      rw [Tape.resume, Tape.leftover] at hnot
      rcases Nat.lt_or_ge (s.text.length + 1) (s.base + (t.passed.length +
        (ofText cut.before).length + 1) + ((ofText cut.after).length + rest.length)) with hlt | hle
      · exact Or.inr ⟨by omega, hnot⟩
      · exact Or.inl hle
  slim := by
    rw [hahead] at hslim
    have := slim_append.mpr (slim_replace cut hslim htoken)
    simpa [Tape.resume, Tape.leftover] using this

/-- **A cut that takes more chunks** adds one at most, before the rematch. -/
theorem sparse_rematch (cut : Cut) (earlier : List Clause) (hahead : t.ahead = covered ++ rest)
    (hmore : 1 < covered.length) (hcount : t.count s.base ≤ s.text.length)
    (hslim : Slim (t.passed ++ t.ahead)) (htoken : Slim [token]) :
    (t.rematch s.text s.base earlier cut token rest).Sparse (Tape.leftover cut token rest) where
  count := by
    have hbefore := length_ofText cut.before
    have hafter := length_ofText cut.after
    rw [Tape.count, hahead, List.length_append] at hcount
    simp only [Tape.rematch, Tape.leftover, List.length_append, List.length_cons]
    omega
  slim := by
    rw [hahead] at hslim
    exact (slim_replace cut hslim htoken).2

/-- **Going on behind the token of a rematch** is as sparse as what the rematch has left. -/
theorem sparse_resume {more : List Chunk} {reach : Nat} (cut : Cut)
    (hfront : Slim (t.passed ++ ofText cut.before))
    (hswept : (t.rematch s.text s.base earlier cut token rest).Sparse (token :: more)) :
    Tape.Sparse s (t.resume cut token ⟨token :: more, some reach⟩) where
  count := by
    have hcount := hswept.count
    simp only [Tape.rematch, List.length_append, List.length_cons] at hcount
    simp only [Tape.count, Tape.resume, List.length_append, List.length_singleton, List.tail_cons]
    omega
  slim := by
    have := slim_append.mpr ⟨hfront, hswept.slim⟩
    simpa [Tape.resume] using this

/-- **A step keeps chunks sparse**, and where it ends a walk, or fails because there
are too many, they are no more than that allows. -/
theorem step_sparse (hlead : Strip.Leading enter) (henter : Strip.Frugal enter) (hon : t.On s)
    (h : t.Sparse s) :
    Triple (fun _ => True) (t.step enter limits s.text s.base earlier clause)
      (fun next _ => (next = none → s.Sparse (t.passed ++ t.ahead)) ∧
        ∀ t', next = some t' → t'.Sparse s) fun e _ => e.Narrow := by
  have hcharge : Triple (fun _ => True) (charge limits) (fun _ _ => True)
      fun e _ => e.Narrow :=
    charge_triple (fun _ _ => trivial) fun _ _ _ _ => .of_toClass (c := .budgetExceeded) rfl nofun
  have hdone (hcount : t.count s.base ≤ s.text.length + 1) : s.Sparse (t.passed ++ t.ahead) :=
    ⟨by rwa [List.length_append, ← Nat.add_assoc], h.slim⟩
  have hpass {skipped rest : List Chunk} (hahead : t.ahead = skipped ++ rest)
      (hcount : t.count s.base ≤ s.text.length) : (t.pass skipped rest).Sparse s := by
    refine ⟨Or.inl ?_, ?_⟩
    · rw [Tape.count_pass hahead]
      omega
    · simpa [Tape.pass, hahead] using h.slim
  refine Tape.step_triple hon.covers.ahead ?_ ?_ hcharge ?_ ?_
  · exact fun hover _ _ =>
      Tape.step_stops (hdone (h.count.resolve_right fun hmore => hmore.2 hover))
  · rintro r - hsize - chunks length ⟨⟩
    have hcount := h.count
    rw [Tape.count] at hcount
    omega
  · exact fun token rest hahead _ _ hsize _ _ => Tape.step_goes (hpass hahead hsize)
  · intro chunk more move hplain _ hsize hchosen hfits
    have hcount : t.count s.base ≤ s.text.length := hsize
    cases move with
    | stop => exact fun _ _ => Tape.step_stops (hdone (by omega))
    | pass skipped rest => exact fun _ _ => Tape.step_goes (hpass hfits hcount)
    | cut skipped covered rest cut =>
      have hahead := hfits.1
      have hcount' := (Tape.count_pass hahead).le.trans hcount
      have hslim := (hpass hahead hcount).slim
      refine hlead.replace_triple (hon.pass hahead).covers rfl hfits.2
        (tokenOf_sparse henter cut.matched) ?_ ?_
      · exact fun hone token r _ hextent htoken =>
          Tape.step_goes (sparse_of_one rfl hfits.2 hone hcount' hslim htoken hextent)
      · rintro hmore token - - hcovers r ⟨r₀, htoken, rfl⟩
        have hstart := sparse_rematch cut earlier rfl hmore hcount' hslim htoken
        refine ((henter _ hcovers).imp (fun _ (_ : True) => hstart) ?_ fun _ _ h => h) _ trivial
        rintro _ r hswept more reach rfl - -
        exact Tape.step_goes (sparse_resume cut (slim_replace cut hslim htoken).1 hswept)

/-- **A sweep keeps chunks sparse** if those one recursion deeper do. -/
theorem run_sparse (hlead : Strip.Leading enter) (henter : Strip.Frugal enter) (hs : s.Covers) :
    Triple (fun _ => s.Sparse s.chunks) (s.run Tape.step enter limits)
      (fun swept _ => s.Sparse swept.chunks) fun e _ => e.Narrow := by
  refine (Strip.Leading.run_triple hs (fun _ state _ => s.Sparse state.chunks) ?_).post
    fun _ _ h => h.2
  intro earlier clause later _ state hstate
  refine hlead.walk_triple hstate (fun t _ => t.Sparse s) (fun swept _ => s.Sparse swept.chunks)
    ?_ ?_
  · intro t hon r hsparse
    exact step_sparse hlead henter hon hsparse r trivial
  · refine fun _ h => ⟨Or.inl ?_, h.slim⟩
    exact h.count

end Step

/-- **Every way of going deeper keeps chunks sparse.** -/
theorem descend_frugal (limits : Limits) (levels depth : Nat) :
    Strip.Frugal (Strip.descend Tape.step limits levels depth) :=
  Strip.descend_triple (fun _ s _ => s.Sparse s.chunks) (fun _ s swept _ => s.Sparse swept.chunks)
    (fun _ _ _ => refuse_triple fun _ _ _ hclass _ => .of_toClass hclass nofun)
    (fun _ _ _ _ h => h) (fun _ _ hlead henter _ hs => run_sparse hlead henter hs) levels depth

end Highlight
