/-
# What every sweep leaves

Whatever the rules are, what a sweep leaves covers the text from the same
offset on as before, keeps the first chunk if it is a token, and reaches no
less far (`Strip.Leads`).  Every way of going deeper leads so
(`descend_leading`), and what is shown of a walk or of the walks of a sweep may
be shown with that known at each place (`walk_triple`, `run_triple`, `run_keeps`,
`descend_triple`).

The first chunk is what makes a rematch safe.  A rematch starts with the new
token, and the walk that asked for it goes on behind that token; so it must
still be there, and what comes after it must cover the rest of the text.
-/

import Highlight.Proofs.Tape.Rules

namespace Highlight

open Chunk RunM

/-- The chunks of a sweep cover the text from its offset to the end. -/
def Strip.Covers (s : Strip) : Prop :=
  s.offset + extents s.chunks = s.text.length

/-- The sweep that a text starts with covers it. -/
theorem Strip.Covers.whole (text : Text) (clauses : List Clause) :
    Strip.Covers ⟨text, clauses, 0, [.plain text], 0, none⟩ := by
  simp [Strip.Covers]

/-- What a sweep leaves covers the text, keeps the first chunk if it is a
token, and reaches no less far. -/
structure Strip.Leads (s : Strip) (swept : Strip.Swept) : Prop where
  covers : s.offset + extents swept.chunks = s.text.length
  keeps : ∀ first, s.chunks.head? = some first → first.isToken = true →
    swept.chunks.head? = some first
  reach : Option.Rel (· ≤ ·) s.reach swept.reach

/-- A walk covers the text of its sweep, and so far leads as the sweep
does. -/
structure Tape.On (s : Strip) (t : Tape) : Prop where
  covers : t.Covers s.text s.offset
  leads : s.Leads ⟨t.passed ++ t.ahead, t.reach⟩

/-- A way of going deeper on which every sweep leads. -/
def Strip.Leading (enter : Strip.Enter) : Prop :=
  ∀ s : Strip, s.Covers →
    Triple (fun _ => True) (enter s) (fun swept _ => s.Leads swept) fun _ _ => True

/-- A reach that is moved to the right reaches no less far. -/
theorem rel_extend {old reach : Option Nat} (offset : Nat) (h : Option.Rel (· ≤ ·) old reach) :
    Option.Rel (· ≤ ·) old (Walk.extend reach offset) := by
  cases h with
  | none => exact .none
  | some h => exact .some (Nat.le_trans h (Nat.le_max_left ..))

theorem Strip.Covers.leads {s : Strip} (h : s.Covers) : s.Leads ⟨s.chunks, s.reach⟩ where
  covers := h
  keeps := fun _ hfirst _ => hfirst
  reach := by
    cases s.reach with
    | none => exact .none
    | some n => exact .some (Nat.le_refl n)

namespace Tape.On

variable {s : Strip} {t : Tape} {skipped covered rest more : List Chunk} {cut : Cut} {token : Chunk}

/-- A walk starts on what the sweep has led to. -/
theorem start {swept : Strip.Swept} (h : s.Leads swept) :
    Tape.On s ⟨[], swept.chunks, s.offset, swept.reach⟩ :=
  ⟨⟨rfl, h.covers⟩, h⟩

/-- A walk that passes chunks leads as before. -/
theorem pass (h : t.On s) (hahead : t.ahead = skipped ++ rest) : (t.pass skipped rest).On s where
  covers := h.covers.pass hahead
  leads := by
    have hleads := h.leads
    rw [hahead, ← List.append_assoc] at hleads
    exact hleads

/-- A walk that goes on after a cut leads as before: a cut covers no token
first, so the first chunk is still there if it was one. -/
theorem resume (h : t.On s) (hahead : t.ahead = covered ++ rest) (hfits : cut.Fits covered)
    {reach : Option Nat}
    (hcover : t.offset + cut.before.length + extents (token :: more) = s.text.length) :
    (t.resume cut token ⟨token :: more, reach⟩).On s where
  covers := h.covers.resume hcover
  leads := by
    have hcovers : (t.resume cut token ⟨token :: more, reach⟩).Covers s.text s.offset :=
      h.covers.resume hcover
    refine ⟨?_, fun first hfirst htoken => ?_, rel_extend _ (rel_extend _ h.leads.reach)⟩
    · rw [extents_append, ← Nat.add_assoc, hcovers.passed, hcovers.ahead]
    · have hhead := h.leads.keeps first hfirst htoken
      obtain ⟨chunk, tail, rfl⟩ := hfits.plain
      dsimp only at hhead
      rw [hahead] at hhead
      cases hpassed : t.passed with
      | nil =>
        rw [hpassed] at hhead
        cases hhead
        cases htoken
      | cons _ _ =>
        rw [hpassed] at hhead
        simpa [Tape.resume, hpassed] using hhead

end Tape.On

namespace Strip.Leading

variable {P : Run → Prop} {E : Failure → Run → Prop} {enter : Strip.Enter} {limits : Limits}
  {earlier : List Clause} {clause : Clause}

/-- **A cut, where every sweep leads.**  The rematch begins with the token and
leaves it there, covers the rest of the text, and reaches no less far than the
region that was merged. -/
theorem replace_triple (hlead : Leading enter) {text : Text} {start base : Nat} {t : Tape}
    {covered rest : List Chunk} {cut : Cut} {T : Chunk → Run → Prop} {Q : Tape → Run → Prop}
    (hcovers : t.Covers text start) (hahead : t.ahead = covered ++ rest)
    (hfits : cut.Fits covered) (htoken : Triple P (Strip.tokenOf enter clause cut.matched) T E)
    (hone : covered.length = 1 → ∀ token r, token.isToken = true →
      token.extent = cut.matched.length → T token r →
      Q (t.resume cut token
        ⟨Tape.leftover cut token rest, some (t.offset + cut.segment.length)⟩) r)
    (hmore : 1 < covered.length → ∀ token, token.isToken = true →
      token.extent = cut.matched.length → (t.rematch text base earlier cut token rest).Covers →
      Triple (fun r => ∃ r₀, T token r₀ ∧ r = r₀.countRematch)
        (enter (t.rematch text base earlier cut token rest))
        (fun swept r => ∀ more reach, swept = ⟨token :: more, some reach⟩ →
          t.offset + cut.segment.length ≤ reach →
          t.offset + cut.before.length + extents (token :: more) = text.length →
          Q (t.resume cut token swept) r) E) :
    Triple P (t.replace enter text base earlier clause rest cut) Q E := by
  have hextent := Strip.tokenOf_extent (P := fun _ => True) enter clause cut.matched
  refine Tape.replace_triple (T := fun token r =>
      T token r ∧ token.isToken = true ∧ token.extent = cut.matched.length)
    (htoken.also hextent) ?_ ?_
  · intro hcovered token r hr
    obtain ⟨chunk, more, rfl⟩ := hfits.plain
    rw [hfits.covered_eq, List.length_cons] at hcovered
    exact hone (by rw [List.length_cons]; omega) token r hr.2.1 hr.2.2 hr.1
  · intro hcovered token r hr
    obtain ⟨r₀, ⟨hT, htok, hlen⟩, rfl⟩ := hr
    have hrematch := hcovers.leftover hahead hfits hlen
    have hsweep := hlead (t.rematch text base earlier cut token rest) hrematch
    have hend := (hmore (hfits.covered_eq ▸ hcovered) token htok hlen hrematch).also hsweep
    refine hend.post (fun swept r hr => ?_) _ ⟨r₀, hT, rfl⟩
    obtain ⟨hQ, hcover, hkeeps, hreach⟩ := hr
    obtain ⟨more, hchunks⟩ := List.head?_eq_some_iff.mp (hkeeps token rfl htok)
    obtain ⟨_, swept_reach⟩ := swept
    cases hchunks
    cases hreach with
    | some hle => exact hQ more _ rfl hle hcover

/-- A step leads as before. -/
theorem step_on (hlead : Leading enter) {s : Strip} {t : Tape} (hon : t.On s) :
    Triple (fun _ => True) (t.step enter limits s.text s.base earlier clause)
      (fun next _ => ∀ t', next = some t' → Tape.On s t') fun _ _ => True := by
  refine (Tape.step_keeps hon.covers.ahead (fun _ _ _ _ _ => trivial) (.intro _)
    (fun skipped rest hahead => hon.pass hahead) ?_).post fun _ _ h => h.1
  intro _ _ skipped covered rest cut _ _ hahead hfits
  have hpass := hon.pass hahead
  refine hlead.replace_triple hpass.covers rfl hfits (.intro _) ?_ ?_
  · intro _ token r _ hlen _
    exact ⟨hpass.resume rfl hfits (hpass.covers.leftover rfl hfits hlen), trivial⟩
  · intro _ token _ _ _
    refine (Triple.intro _).imp (fun _ _ => trivial) ?_ fun _ _ _ => trivial
    rintro _ r _ more reach rfl - hcover
    exact ⟨hpass.resume rfl hfits hcover, trivial⟩

/-- What holds where a step stops, if the steps up to there keep what they need, holds of
what the walk leaves; and every place on the way leads as the sweep does. -/
theorem walk_triple (hlead : Leading enter) {s : Strip} {state : Swept} (hstate : s.Leads state)
    (Inv : Tape → Run → Prop) (Left : Swept → Run → Prop)
    (hstep : ∀ t, t.On s → Triple (Inv t) (t.step enter limits s.text s.base earlier clause)
      (fun next r => (next = none → Left ⟨t.passed ++ t.ahead, t.reach⟩ r) ∧
        ∀ t', next = some t' → Inv t' r) E)
    (hstart : ∀ r, P r → Inv ⟨[], state.chunks, s.offset, state.reach⟩ r) :
    Triple P (s.walk Tape.step enter limits earlier clause state)
      (fun swept r => s.Leads swept ∧ Left swept r) E := by
  have hboth (t : Tape) : Triple (fun r => t.On s ∧ Inv t r)
      (t.step enter limits s.text s.base earlier clause)
      (fun next r => (next = none → s.Leads ⟨t.passed ++ t.ahead, t.reach⟩ ∧
          Left ⟨t.passed ++ t.ahead, t.reach⟩ r) ∧
        ∀ t', next = some t' → t'.On s ∧ Inv t' r) E := by
    intro r ⟨hon, hinv⟩
    refine ((hstep t hon).also (hlead.step_on hon)).post ?_ r hinv
    exact fun next r h => ⟨fun hnext => ⟨hon.leads, h.1.1 hnext⟩,
      fun t' hnext => ⟨h.2 t' hnext, h.1.2 t' hnext⟩⟩
  exact Strip.walk_triple _ (fun swept r => s.Leads swept ∧ Left swept r)
    (fun _ _ h => h.1.covers.ahead) hboth fun r hr => ⟨.start hstate, hstart r hr⟩

/-- What is kept from walk to walk, a sweep leaves. -/
theorem run_triple {s : Strip} (hs : s.Covers) (Between : List Clause → Swept → Run → Prop)
    (hwalk : ∀ earlier clause later, s.clauses = earlier ++ clause :: later →
      ∀ state, s.Leads state →
      Triple (Between earlier state) (s.walk Tape.step enter limits earlier clause state)
        (fun swept r => s.Leads swept ∧ Between (earlier ++ [clause]) swept r) E) :
    Triple (Between [] ⟨s.chunks, s.reach⟩) (s.run Tape.step enter limits)
      (fun swept r => s.Leads swept ∧ Between s.clauses swept r) E := by
  refine (Strip.run_triple (fun earlier state r => s.Leads state ∧ Between earlier state r)
    ?_).pre fun _ hr => ⟨hs.leads, hr⟩
  intro earlier clause later hclauses state r ⟨hstate, hr⟩
  exact hwalk earlier clause later hclauses state hstate r hr

/-- **What every step keeps, a sweep keeps.** -/
theorem run_keeps (hlead : Leading enter) {s : Strip} (hs : s.Covers)
    (Keeps : List Chunk → Run → Prop)
    (hstep : ∀ earlier clause later, s.clauses = earlier ++ clause :: later → ∀ t : Tape, t.On s →
      Triple (Keeps (t.passed ++ t.ahead)) (t.step enter limits s.text s.base earlier clause)
        (fun next r => (next = none → Keeps (t.passed ++ t.ahead) r) ∧
          ∀ t', next = some t' → Keeps (t'.passed ++ t'.ahead) r) E) :
    Triple (Keeps s.chunks) (s.run Tape.step enter limits) (fun swept => Keeps swept.chunks) E := by
  refine (run_triple hs (fun _ state => Keeps state.chunks) ?_).post fun _ _ h => h.2
  intro earlier clause later hclauses state hstate
  exact hlead.walk_triple hstate (fun t => Keeps (t.passed ++ t.ahead))
    (fun swept => Keeps swept.chunks) (hstep earlier clause later hclauses) fun _ hr => hr

end Strip.Leading

/-- A sweep leads if the sweeps one recursion deeper do. -/
theorem Strip.run_leading {enter : Strip.Enter} (hlead : Leading enter) (limits : Limits)
    (s : Strip) (hs : s.Covers) :
    Triple (fun _ => True) (s.run Tape.step enter limits) (fun swept _ => s.Leads swept)
      fun _ _ => True := by
  refine (Leading.run_triple hs (fun _ _ _ => True) ?_).post fun _ _ h => h.1
  intro earlier clause later _ state hstate
  refine hlead.walk_triple hstate (fun _ _ => True) (fun _ _ => True) ?_ fun _ h => h
  exact fun t _ => (Triple.intro _).post fun _ _ _ => ⟨fun _ => trivial, fun _ _ => trivial⟩

/-- **Every way of going deeper leads.** -/
theorem Strip.descend_leading (limits : Limits) (levels depth : Nat) :
    Leading (descend Tape.step limits levels depth) := by
  induction levels generalizing depth with
  | zero =>
    exact fun s _ => refuse_triple fun _ _ _ _ _ => trivial
  | succ levels ih =>
    intro s hs
    exact Triple.bind (.intro _) fun _ => run_leading (ih (depth + 1)) limits s hs

/-- What one level of sweeps ensures if the levels below it do, all levels
ensure. -/
theorem Strip.descend_triple {E : Failure → Run → Prop} {limits : Limits}
    (Pre : Nat → Strip → Run → Prop) (Post : Nat → Strip → Swept → Run → Prop)
    (hzero : ∀ s depth, s.Covers →
      Triple (Pre 0 s) (Tokenizer.refuse limits depth) (Post 0 s) E)
    (hpeak : ∀ levels s r peak, Pre levels s r → Pre levels s { r with peak })
    (hsucc : ∀ levels enter, Leading enter →
      (∀ s : Strip, s.Covers → Triple (Pre levels s) (enter s) (Post levels s) E) →
      ∀ s : Strip, s.Covers →
        Triple (Pre (levels + 1) s) (s.run Tape.step enter limits) (Post (levels + 1) s) E)
    (levels depth : Nat) (s : Strip) (hs : s.Covers) :
    Triple (Pre levels s) (descend Tape.step limits levels depth s) (Post levels s) E := by
  induction levels generalizing depth s with
  | zero => exact hzero s depth hs
  | succ levels ih =>
    exact Triple.bind (.reachDepth fun r hr => hpeak _ s r _ hr) fun _ =>
      hsucc levels _ (descend_leading limits levels (depth + 1)) (ih (depth + 1)) s hs

end Highlight
