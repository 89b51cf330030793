/-
# Every run comes to an end

Whatever the grammars, the text and the limits are, a run ends with chunks or with
a failure that says what it failed for (`tokenize_terminates`).  Empty matches and
grammars that lead back to themselves do not keep it going.

  * A walk has no more steps than the text has characters, and two more.  Empty
    matches make it pass chunks without getting on in the text, merges make chunks
    fewer again; but each step passes a chunk, none that has been passed comes
    back, and there are never more chunks than characters.
  * A match is made a token and looked over again one level deeper, and the levels
    are counted from the start.
  * The worklist of resolving looks at no number twice.

So it can be said beforehand how much there is to be done at most.  Each step makes
one attempt, and goes deeper at most twice: into the text of the token, and for a
rematch.  That gives `workBound`, level by level.  In the proofs a run carries with
it how much it may still do (`Run.Affords`), and what it does is paid for from that.
-/

import Highlight.Proofs.Coverage
import Highlight.Proofs.Store.Changes
import Mathlib.Data.Finset.Lattice.Fold
import Mathlib.Order.Lattice.Nat

namespace Highlight

open Chunk RunM

/-- A failure that says what the run failed for. -/
def Failure.Documented (e : Failure) : Prop :=
  e.toClass ≠ .general ∧ e.toClass ≠ .exhausted

theorem Failure.Documented.of_toClass {e : Failure} {c : FailureClass} (h : e.toClass = c)
    (hgeneral : c ≠ .general) (hexhausted : c ≠ .exhausted) : e.Documented :=
  ⟨h.symm ▸ hgeneral, h.symm ▸ hexhausted⟩

theorem Failure.BlamesGrammar.documented {e : Failure} (h : e.BlamesGrammar) : e.Documented :=
  h.elim (.of_toClass · nofun nofun) (.of_toClass · nofun nofun)

/-! ### How much there is to be done -/

/-- What a run has done: its attempts, and how often it has gone deeper. -/
def Run.work (r : Run) : Nat :=
  r.profile.patternAttempts + r.profile.nestedCalls + r.profile.rematchPasses

/-- What a step does at most: an attempt, and twice what is done one level deeper,
with what leads there. -/
def stepCost (deeper : Nat) : Nat :=
  1 + (1 + deeper) + (1 + deeper)

/-- What sweeps with a number of rules over a text of a length do at most, with a
number of levels left. -/
def workBound (rules length : Nat) : Nat → Nat
  | 0 => 0
  | levels + 1 => rules * ((length + 1) * stepCost (workBound rules length levels))

theorem Resolution.length_clauses (r : Resolution) : r.clauses.length = r.ruleCount := by
  simp [clauses, ruleCount, List.length_flatMap, List.sum_eq_foldr]

namespace Store

variable {s s' : Store} {rules : Nat}

/-- The number of rules that the grammar of a number has at most, by the resolution
that is kept or by resolving it. -/
def ruleCount (s : Store) (id : GrammarId) : Nat :=
  match s.get? id with
  | some g => max (g.resolution.elim 0 (·.ruleCount))
      ((s.resolveOne g).toOption.elim 0 (·.ruleCount))
  | none => 0

/-- The greatest number of rules that a grammar of a store has. -/
def breadth (s : Store) : Nat :=
  (Finset.range s.grammars.size).sup s.ruleCount

/-- A store none of whose grammars has more than a number of rules. -/
def Bounded (rules : Nat) (s : Store) : Prop :=
  ∀ id r, s.cached id = some r ∨ s.Yields id r → r.clauses.length ≤ rules

theorem bounded_breadth (s : Store) : s.Bounded s.breadth := by
  intro id r h
  rw [Resolution.length_clauses]
  obtain ⟨g, hget, hle⟩ : ∃ g, s.get? id = some g ∧ r.ruleCount ≤ s.ruleCount id := by
    rcases h with hr | ⟨g, hget, hone⟩
    · obtain ⟨g, hget, hr⟩ := Option.bind_eq_some_iff.mp hr
      refine ⟨g, hget, ?_⟩
      rw [ruleCount, hget]
      dsimp only
      rw [hr]
      exact Nat.le_max_left _ _
    · refine ⟨g, hget, ?_⟩
      rw [ruleCount, hget]
      dsimp only
      rw [hone]
      exact Nat.le_max_right _ _
  exact Nat.le_trans hle
    (Finset.le_sup (f := s.ruleCount) (Finset.mem_range.mpr (lt_of_get? hget)))

theorem Bounded.resolve {ref : Ref} {r : Resolution} {events : List Event} (h : s.Bounded rules)
    (hresolve : s.resolve ref = .ok (r, s', events)) :
    s'.Bounded rules ∧ r.clauses.length ≤ rules := by
  have hle : s'.Bounded rules := by
    rintro id r' (hr' | hr')
    · exact h id r' (cached_resolve hresolve hr')
    · exact h id r' (Or.inr ((resolve_extends hresolve).yields_iff.mp hr'))
  obtain ⟨id, -, hcached, -⟩ := resolve_cases hresolve
  exact ⟨hle, hle id r (Or.inl hcached)⟩

end Store

/-- A run may do an amount of work yet without going beyond a budget. -/
structure Run.Affords (rules budget left : Nat) (r : Run) : Prop where
  store : r.store.Bounded rules
  work : r.work + left ≤ budget

/-- A run has failed within a budget, and says what for. -/
structure Run.Failed (budget : Nat) (e : Failure) (r : Run) : Prop where
  documented : e.Documented
  work : r.work ≤ budget

theorem Run.Affords.mono {rules budget left left' : Nat} {r : Run} (h : r.Affords rules budget left)
    (hle : left' ≤ left) : r.Affords rules budget left' :=
  ⟨h.store, Nat.le_trans (Nat.add_le_add_left hle _) h.work⟩

theorem Run.Affords.failed {rules budget left : Nat} {r : Run} (h : r.Affords rules budget left)
    {e : Failure} (he : e.Documented) {steps : Nat} {events : List Event} :
    Run.Failed budget e { r with steps, events } :=
  ⟨he, Nat.le_trans (Nat.le_add_right _ _) h.work⟩

/-! ### What each part of a sweep does at most -/

/-- A way of going deeper on which sweeps do no more than a given amount of work,
and fail only in order to say what for. -/
def Strip.Costs (rules length budget cost : Nat) (enter : Strip.Enter) : Prop :=
  ∀ s : Strip, s.Covers → s.clauses.length ≤ rules → s.text.length ≤ length → ∀ left,
    Triple (Run.Affords rules budget (cost + left)) (enter s)
      (fun _ => Run.Affords rules budget left) (Run.Failed budget)

section Step

variable {rules length budget cost : Nat} {enter : Strip.Enter} {limits : Limits}
  {clause : Clause} {earlier later : List Clause} {s : Strip} {t : Tape}

/-- Resolving a grammar is no work. -/
theorem resolve_affords (ref : Ref) (left : Nat) :
    Triple (Run.Affords rules budget left) (RunM.resolve ref)
      (fun resolution r => resolution.clauses.length ≤ rules ∧ r.Affords rules budget left)
      (Run.Failed budget) := by
  refine .resolve (fun r resolution store events hr hresolve => ?_) fun r e hr hresolve =>
    hr.failed (Store.blaming_resolve _ _ e hresolve).documented
  obtain ⟨hstore, hle⟩ := hr.store.resolve hresolve
  exact ⟨hle, hstore, hr.work⟩

/-- A text is counted if it is nested, and swept once. -/
theorem chunksOf_costs (henter : Strip.Costs rules length budget cost enter) (nested : Bool)
    {text : Text} (htext : text.length ≤ length) (ref : Ref) (left : Nat) :
    Triple (Run.Affords rules budget (nested.toNat + (cost + left)))
      (Strip.chunksOf enter nested text ref) (fun _ => Run.Affords rules budget left)
      (Run.Failed budget) := by
  refine (resolve_affords ref _).bind fun resolution => ?_
  refine Triple.bind (Q := fun _ r => resolution.clauses.length ≤ rules ∧
    r.Affords rules budget (cost + left)) (.count fun r hr => ⟨hr.1, hr.2.store, ?_⟩) fun _ => ?_
  · have hwork := hr.2.work
    cases nested with
    | false => simpa [Run.work] using hwork
    | true =>
      simp only [Run.work, Bool.toNat_true, if_true] at hwork ⊢
      omega
  · split
    · exact .pure fun r hr => hr.2.mono (Nat.le_add_left ..)
    · refine Triple.bind (Q := fun _ => Run.Affords rules budget left) (fun r hr => ?_)
        fun swept => .pure fun r hr => hr
      exact henter _ (.whole ..) hr.1 htext left r hr.2

/-- A token costs no more than what cuts it further. -/
theorem tokenOf_costs (henter : Strip.Costs rules length budget cost enter) (clause : Clause)
    {matched : Text} (hmatched : matched.length ≤ length) (left : Nat) :
    Triple (Run.Affords rules budget (1 + (cost + left))) (Strip.tokenOf enter clause matched)
      (fun _ => Run.Affords rules budget left) (Run.Failed budget) :=
  Strip.tokenOf_triple (fun _ r hr => ⟨hr.store, (hr.mono (show left ≤ _ by omega)).work⟩)
    fun id _ => (chunksOf_costs henter true hmatched (.grammar id) left).post
      fun _ _ hr => ⟨hr.store, hr.work⟩

/-- **A step costs an attempt, a token and a rematch at most**, and only a step from
a place with a chunk ahead costs anything. -/
theorem step_costs (hlead : Strip.Leading enter)
    (henter : Strip.Costs rules length budget cost enter)
    (hclauses : s.clauses = earlier ++ clause :: later) (hrules : s.clauses.length ≤ rules)
    (hlength : s.text.length ≤ length) (hon : t.On s) (left : Nat) :
    Triple (fun r => r.Affords rules budget left ∧
        (t.passed.length < s.text.length → r.Affords rules budget (stepCost cost + left)))
      (t.step enter limits s.text s.base earlier clause)
      (fun _ => Run.Affords rules budget left) (Run.Failed budget) := by
  have hcharge : Triple (fun r => r.Affords rules budget left ∧
        (t.passed.length < s.text.length → r.Affords rules budget (stepCost cost + left)))
      (charge limits)
      (fun _ r => t.passed.length < s.text.length →
        r.Affords rules budget (1 + (cost + (1 + (cost + left))))) (Run.Failed budget) := by
    refine charge_triple (fun r hr hpassed => ⟨(hr.2 hpassed).store, ?_⟩)
      fun _ _ _ hr => hr.1.failed (.of_toClass (c := .budgetExceeded) rfl nofun nofun)
    have hwork := (hr.2 hpassed).work
    simp only [Run.work, Run.countAttempt, stepCost] at hwork ⊢
    omega
  refine Tape.step_triple hon.covers.ahead (fun _ _ hr => hr.1)
    (fun _ _ _ hr => hr.1.failed (.of_toClass (c := .overrun) rfl nofun nofun)) hcharge
    (fun _ _ _ _ _ _ _ hr => hr.1) fun _ _ move hplain _ hsize _ hfits => ?_
  have hpassed : t.passed.length < s.text.length := by
    rw [hplain, List.length_cons] at hsize
    omega
  -- The attempt is paid for.  A cut goes on to pay for its token, then for the rematch.
  cases move with
  | stop => exact fun r hr => (hr hpassed).mono (by omega)
  | pass skipped rest => exact fun r hr => (hr hpassed).mono (by omega)
  | cut skipped covered rest cut =>
    have hmatched : cut.matched.length ≤ length := by
      have hcovers := hon.covers.ahead
      have hjoin := hfits.2.length_join
      rw [hfits.1, extents_append, extents_append] at hcovers
      omega
    have hearlier : earlier.length ≤ rules := by
      rw [hclauses, List.length_append] at hrules
      omega
    have htoken := tokenOf_costs henter clause hmatched (1 + (cost + left))
    refine (hlead.replace_triple (hon.pass hfits.1).covers rfl hfits.2 htoken ?_ ?_).pre
      fun r hr => hr hpassed
    · exact fun _ _ r _ _ hr => hr.mono (by omega)
    · rintro - token - - hcovers _ ⟨r₀, hr, rfl⟩
      have hr' : r₀.countRematch.Affords rules budget (cost + left) := by
        have hwork := hr.work
        refine ⟨hr.store, ?_⟩
        simp only [Run.work, Run.countRematch] at hwork ⊢
        omega
      exact (henter _ hcovers hearlier hlength left).post (fun _ _ hr _ _ _ _ _ => hr) _ hr'

/-- What may be done yet goes down with each chunk that a step passes. -/
theorem step_spends (hlead : Strip.Leading enter)
    (henter : Strip.Costs rules length budget cost enter)
    (hclauses : s.clauses = earlier ++ clause :: later) (hrules : s.clauses.length ≤ rules)
    (hlength : s.text.length ≤ length) (hon : t.On s) (left : Nat) :
    Triple (Run.Affords rules budget ((length + 1 - t.passed.length) * stepCost cost + left))
      (t.step enter limits s.text s.base earlier clause)
      (fun next r => r.Affords rules budget left ∧ ∀ t', next = some t' →
        r.Affords rules budget ((length + 1 - t'.passed.length) * stepCost cost + left))
      (Run.Failed budget) := by
  refine ((step_costs hlead henter hclauses hrules hlength hon
    ((length - t.passed.length) * stepCost cost + left)).and
    (Tape.step_advances hon.covers.ahead)).imp (fun r hr => ⟨⟨?_, ?_⟩, trivial⟩)
    (fun next r h => ⟨h.1.mono (Nat.le_add_left ..), fun t' hnext => h.1.mono ?_⟩) fun _ _ h => h.1
  · have hfewer : length - t.passed.length ≤ length + 1 - t.passed.length := by omega
    exact hr.mono (Nat.add_le_add_right (Nat.mul_le_mul_right _ hfewer) left)
  · intro hpassed
    have hone : length + 1 - t.passed.length = length - t.passed.length + 1 := by omega
    rw [hone, Nat.add_mul, Nat.one_mul] at hr
    exact hr.mono (by omega)
  · obtain ⟨hlt, -⟩ := h.2 t' hnext
    have hfewer : length + 1 - t'.passed.length ≤ length - t.passed.length := by omega
    exact Nat.add_le_add_right (Nat.mul_le_mul_right _ hfewer) left

/-- **A walk costs as many steps as the text has characters, and one more.** -/
theorem walk_costs (hlead : Strip.Leading enter)
    (henter : Strip.Costs rules length budget cost enter)
    (hclauses : s.clauses = earlier ++ clause :: later) (hrules : s.clauses.length ≤ rules)
    (hlength : s.text.length ≤ length) {state : Strip.Swept} (hstate : s.Leads state) (left : Nat) :
    Triple (Run.Affords rules budget ((length + 1) * stepCost cost + left))
      (s.walk Tape.step enter limits earlier clause state)
      (fun swept r => s.Leads swept ∧ r.Affords rules budget left) (Run.Failed budget) := by
  refine hlead.walk_triple hstate (fun t => Run.Affords rules budget
      ((length + 1 - t.passed.length) * stepCost cost + left))
    (fun _ => Run.Affords rules budget left) (fun t hon => ?_) fun _ hr => hr
  exact (step_spends hlead henter hclauses hrules hlength hon left).post
    fun _ _ h => ⟨fun _ => h.1, h.2⟩

/-- **A sweep costs a walk for each of its rules.** -/
theorem run_costs (hlead : Strip.Leading enter)
    (henter : Strip.Costs rules length budget cost enter) (hs : s.Covers)
    (hrules : s.clauses.length ≤ rules) (hlength : s.text.length ≤ length) (left : Nat) :
    Triple (Run.Affords rules budget (rules * ((length + 1) * stepCost cost) + left))
      (s.run Tape.step enter limits) (fun _ => Run.Affords rules budget left)
      (Run.Failed budget) := by
  -- What may be done yet goes down by a walk with each rule that becomes an earlier one.
  refine (Strip.Leading.run_triple hs (fun earlier _ => Run.Affords rules budget
    ((s.clauses.length - earlier.length) * ((length + 1) * stepCost cost) + left)) ?_).imp
    (fun r hr => hr.mono ?_) (fun _ _ h => h.2.mono (Nat.le_add_left ..)) fun _ _ h => h
  · intro earlier clause later hclauses state hstate
    have hone : s.clauses.length - earlier.length =
        s.clauses.length - (earlier ++ [clause]).length + 1 := by
      simp only [hclauses, List.length_append, List.length_cons, List.length_nil]
      omega
    have hsum : (s.clauses.length - earlier.length) * ((length + 1) * stepCost cost) + left =
        (length + 1) * stepCost cost + ((s.clauses.length - (earlier ++ [clause]).length) *
          ((length + 1) * stepCost cost) + left) := by
      rw [hone, Nat.add_mul, Nat.one_mul]
      omega
    rw [hsum]
    exact walk_costs hlead henter hclauses hrules hlength hstate _
  · exact Nat.add_le_add_right (Nat.mul_le_mul_right _ (Nat.le_trans (Nat.sub_le ..) hrules)) left

end Step

/-- **Sweeps cost no more than can be said beforehand**, at every depth. -/
theorem Strip.descend_costs (rules length budget : Nat) (limits : Limits) (levels depth : Nat) :
    Costs rules length budget (workBound rules length levels)
      (descend Tape.step limits levels depth) := by
  induction levels generalizing depth with
  | zero =>
    intro s hs _ _ left
    exact refuse_triple fun _ _ r hclass hr => hr.failed (.of_toClass hclass nofun nofun)
  | succ levels ih =>
    intro s hs hrules hlength left
    refine Triple.bind (Q := fun _ => Run.Affords rules budget
      (workBound rules length (levels + 1) + left)) (.reachDepth fun r hr => ⟨hr.store, hr.work⟩)
      fun _ => ?_
    exact run_costs (descend_leading limits levels (depth + 1)) (ih (depth + 1)) hs hrules hlength
      left

/-- **Every run comes to an end**, with chunks or with a failure that says what it
failed for, whatever the text, the grammar and the limits are.  It has then done no
more than can be said beforehand; and resolving has come to its end each time,
because more rounds of the worklist change nothing. -/
theorem tokenize_terminates {store : Store} (hlinked : store.Linked) (limits : Limits)
    (frames : Option Nat) (text : Text) (ref : Ref) :
    ((∃ chunks, (tokenize limits frames store text ref).result = .ok chunks) ∨
        ∃ e, (tokenize limits frames store text ref).result = .error e ∧ e.Documented) ∧
      (tokenize limits frames store text ref).run.work ≤
        workBound store.breadth text.length (Tokenizer.levels limits frames) ∧
      ∀ store', store.Follows store' → ∀ id, id < store.grammars.size → ∀ more,
        store'.explore (store'.grammars.size + 1 + more) [] [id] =
          store'.explore (store'.grammars.size + 1) [] [id] := by
  have hend := tokenize_of_triple store (chunksOf_costs (Strip.descend_costs store.breadth
    text.length (workBound store.breadth text.length (Tokenizer.levels limits frames)) limits
    (Tokenizer.levels limits frames) 0) false (Nat.le_refl _) ref 0)
    ⟨store.bounded_breadth, by simp [Run.work]⟩
  refine ⟨?_, ?_, fun store' hfollows id hid more => ?_⟩
  · split at hend
    · rename_i chunks hresult
      exact Or.inl ⟨chunks, hresult⟩
    · rename_i e hresult
      exact Or.inr ⟨e, hresult, hend.documented⟩
  · split at hend <;> exact hend.work
  · have hextends := hfollows.extends
    exact Store.explore_fuel (hextends.linked hlinked)
      (.start (hextends.size_eq.symm ▸ hid) (Nat.lt_succ_self _)) more

/-- A grammar that cuts its own matches further, falls back on itself, and matches
the empty text. -/
def looping : Store where
  grammars := #[
    { entries := [
        ("letter", .single (.rule {
          pattern := .expression (.source "a".toList)
          inside := some (.grammar 0) })),
        ("nothing", .single (.pattern (.source "x*".toList)))]
      rest := some (.grammar 0) }]

theorem looping_fresh : looping.Fresh :=
  Store.fresh_of_isFresh (by decide)

/-- Three levels are gone through before the letter of `ab` is found to lead nowhere
else. -/
theorem tokenize_terminates_looping :
    looping.Linked ∧
      ((∃ chunks, (tokenize { maxDepth := 3 } none looping "ab".toList
          (.grammar 0)).result = .ok chunks) ∨
        ∃ e, (tokenize { maxDepth := 3 } none looping "ab".toList
          (.grammar 0)).result = .error e ∧ e.Documented) ∧
      (tokenize { maxDepth := 3 } none looping "ab".toList (.grammar 0)).run.work ≤ 2826 ∧
      looping.explore 1000 [] [0] = looping.explore 2 [] [0] := by
  obtain ⟨hends, hwork, hexplore⟩ := tokenize_terminates looping_fresh.linked
    { maxDepth := 3 } none "ab".toList (.grammar 0)
  have hbreadth : looping.breadth = 2 := by
    decide +kernel
  rw [hbreadth] at hwork
  exact ⟨looping_fresh.linked, hends, hwork,
    hexplore looping .refl 0 (by decide) 998⟩

end Highlight
