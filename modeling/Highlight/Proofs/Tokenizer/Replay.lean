/-
# What has been done can be done again

A computation that has ended with a result ends with the same result when it is
done again (`Replays`): on a store that has kept all its resolutions, with no more
attempts made before, so that none of them takes a later number or is later by
the clock, and with no fewer levels to go down.  Nothing is resolved any more
then, so that the second time leaves the store as it is.

Hence the parts of a token can be had again: what a run has made of a nested
text, from the middle of its work, is what a run of its own makes of that text
(`tokenize_of_nested`).
-/

import Highlight.Proofs.Store.Resolutions
import Highlight.Proofs.Tape.Congruence

namespace Highlight

open RunM

/-- Grammars that have been resolved stay so. -/
theorem extends_course : Run.Course fun r r' => r.store.Extends r'.store where
  refl r := .refl r.store
  trans h h' := h.trans h'
  report r _ := .refl r.store
  count r _ _ := .refl r.store
  take r := .refl r.store
  reach r _ := .refl r.store
  resolve _ _ _ _ _ h := Store.resolve_extends h

namespace RunM

variable {α β : Type} {limits : Limits}

/-- A computation does what another one has done with a result, when it is done
later: with the same result, without resolving anything, and within as
many attempts. -/
structure Replays (m m' : RunM α) : Prop where
  grows : Goes (fun r r' => r.store.Extends r'.store) m
  again : ∀ r a r₁ r', m.run r = .ok a r₁ → r₁.store.Extends r'.store →
    r'.steps ≤ r.steps →
    ∃ r₁', m'.run r' = .ok a r₁' ∧ r₁'.store = r'.store ∧ r₁'.steps ≤ r₁.steps

namespace Replays

theorem pure (a : α) : Replays (Pure.pure a) (Pure.pure a) where
  grows r := .refl r.store
  again := by
    rintro r _ _ r' ⟨⟩ - hattempts
    exact ⟨r', rfl, rfl, hattempts⟩

/-- The first part is done again on what the second has left, which extends what the
first has left. -/
theorem bind {m m' : RunM α} {f f' : α → RunM β} (h : Replays m m')
    (hf : ∀ a, Replays (f a) (f' a)) : Replays (m >>= f) (m' >>= f') where
  grows := h.grows.bind extends_course fun a => (hf a).grows
  again := by
    intro r b r₂ r' hrun hextends hattempts
    rw [EStateM.run_bind] at hrun
    cases hm : m.run r with
    | error e r₁ =>
      rw [hm] at hrun
      cases hrun
    | ok a r₁ =>
      rw [hm] at hrun
      have hgrows := (hf a).grows r₁
      dsimp only at hrun
      rw [hrun] at hgrows
      obtain ⟨r₁', hm', hstore, hmade⟩ := h.again r a r₁ r' hm (hgrows.trans hextends) hattempts
      obtain ⟨r₂', hf', hstore', hmade'⟩ :=
        (hf a).again r₁ b r₂ r₁' hrun (hstore ▸ hextends) hmade
      refine ⟨r₂', ?_, hstore'.trans hstore, hmade'⟩
      rw [EStateM.run_bind, hm']
      exact hf'

/-- What never has a result need not be done again. -/
theorem of_error {m m' : RunM α} (hgrows : Goes (fun r r' => r.store.Extends r'.store) m)
    (h : ∀ r, ∃ e r₁, m.run r = .error e r₁) : Replays m m' where
  grows := hgrows
  again := by
    intro r a r₁ r' hrun
    obtain ⟨e, r₂, herror⟩ := h r
    rw [herror] at hrun
    cases hrun

/-- Counts need not be the same. -/
theorem count (f f' : Profile → Profile) : Replays (RunM.count f) (RunM.count f') where
  grows r := .refl r.store
  again := by
    rintro r _ _ r' ⟨⟩ - hattempts
    exact ⟨{ r' with profile := f' r'.profile }, rfl, rfl, hattempts⟩

/-- Depths need not be the same. -/
theorem reachDepth (depth depth' : Nat) :
    Replays (RunM.reachDepth depth) (RunM.reachDepth depth') where
  grows r := .refl r.store
  again := by
    rintro r _ _ r' ⟨⟩ - hattempts
    exact ⟨_, rfl, rfl, hattempts⟩

/-- A grammar that was resolved is not resolved again. -/
theorem clauses (ref : Ref) :
    Replays (Resolution.clauses <$> resolve ref) (Resolution.clauses <$> resolve ref) where
  grows := (congruence_goes extends_course {}).clauses ref
  again := by
    intro r a r₁ r' hrun hextends hattempts
    rw [run_clauses] at hrun
    cases hresolve : r.store.resolve ref with
    | error e =>
      rw [hresolve] at hrun
      cases hrun
    | ok resolved =>
      obtain ⟨resolution, store, events⟩ := resolved
      rw [hresolve] at hrun
      cases hrun
      obtain ⟨id, rfl, hcached, -⟩ := Store.resolve_cases hresolve
      refine ⟨{ r' with events := r'.events ++ [] }, ?_, rfl, hattempts⟩
      rw [run_clauses, Store.resolve_of_cached (hextends.cached hcached)]

/-- An attempt that was allowed is allowed after fewer, and in time. -/
theorem charge : Replays (RunM.charge limits) (RunM.charge limits) where
  grows := (congruence_goes extends_course limits).charge
  again := by
    intro r a r₁ r' hrun _ hattempts
    have hle := Nat.succ_le_succ hattempts
    rw [run_charge] at hrun ⊢
    cases hallowed : limits.allowsStep (r.steps + 1) with
    | false =>
      rw [hallowed] at hrun
      cases hrun
    | true =>
      cases htime : limits.isExpired (r.steps + 1) with
      | true =>
        rw [hallowed, htime] at hrun
        cases hrun
      | false =>
        rw [hallowed, htime] at hrun
        cases hrun
        have htime' : limits.isExpired (r'.steps + 1) = false :=
          Bool.eq_false_iff.mpr fun h => Bool.eq_false_iff.mp htime (Limits.isExpired_of_le hle h)
        rw [Config.allowsStep_of_le hle hallowed, htime']
        exact ⟨_, rfl, rfl, hle⟩

/-- **Every action of a run can be done again.** -/
theorem congruence (limits : Limits) : Congruence limits limits Replays where
  pure := pure
  bind := bind
  runaway := .of_error (congruence_goes extends_course limits).runaway fun r => ⟨_, r, rfl⟩
  overrun type chunks length :=
    .of_error ((congruence_goes extends_course limits).overrun type chunks length)
      fun _ => ⟨_, _, rfl⟩
  count f _ := count f f
  clauses := clauses
  charge := charge

end Replays
end RunM

/-! ### Sweeps and nested texts -/

variable {limits : Limits}

/-- Going deeper is refused without a result. -/
theorem Tokenizer.refuse_error {α : Type} (limits : Limits) (depth : Nat) (r : Run) :
    ∃ e r', (Tokenizer.refuse limits depth : RunM α).run r = .error e r' := by
  unfold refuse
  dsimp only
  split
  · exact ⟨_, _, rfl⟩
  · exact ⟨_, _, rfl⟩

/-- **A sweep can be done again** with no fewer levels left. -/
theorem Strip.descend_replays {levels levels' : Nat} (hle : levels ≤ levels')
    (depth depth' : Nat) (s : Strip) :
    Replays (descend Tape.step limits levels depth s)
      (descend Tape.step limits levels' depth' s) := by
  induction levels generalizing levels' depth depth' s with
  | zero =>
    exact .of_error (descend_goes extends_course limits 0 depth s)
      (Tokenizer.refuse_error limits depth)
  | succ levels ih =>
    obtain ⟨levels', rfl⟩ := Nat.exists_eq_add_of_le' (Nat.zero_lt_of_lt hle)
    refine Replays.bind (.reachDepth (depth + 1) (depth' + 1)) fun _ => ?_
    exact run_related (Replays.congruence limits)
      (fun s => ih (Nat.le_of_succ_le_succ hle) (depth + 1) (depth' + 1) s) s

/-- The chunks of a nested text can be had again by a run of its own. -/
theorem Strip.chunksOf_replays {levels : Nat} {frames : Option Nat}
    (hle : levels ≤ Tokenizer.levels limits frames) (depth : Nat) (text : Text) (ref : Ref) :
    Replays (chunksOf (descend Tape.step limits levels depth) true text ref)
      (Tokenizer.run limits frames text ref) := by
  rw [run_eq, chunksOf_eq_chunksBy, chunksOf_eq_chunksBy]
  refine Replays.bind (.clauses ref) fun clauses =>
    Replays.bind (.count _ _) fun _ => ?_
  split
  · exact .pure []
  · exact Replays.bind (descend_replays hle depth 0 _) fun swept => .pure swept.chunks

/-- A run that has a result on a store, and has nothing to resolve any more. -/
def Reproduces (limits : Limits) (frames : Option Nat) (store : Store) (text : Text) (ref : Ref)
    (chunks : List Chunk) : Prop :=
  (tokenize limits frames store text ref).result = .ok chunks ∧
    (tokenize limits frames store text ref).run.store = store

/-- **What a run has made of a nested text a run of its own makes of it**, on
every store that extends the one that was left. -/
theorem tokenize_of_nested {levels depth : Nat} {frames : Option Nat} {text : Text} {ref : Ref}
    {parts : List Chunk} {r r₁ : Run} (hle : levels ≤ Tokenizer.levels limits frames)
    (hrun : (Strip.chunksOf (Strip.descend Tape.step limits levels depth) true text ref).run r =
      .ok parts r₁) {store : Store} (hextends : r₁.store.Extends store) :
    Reproduces limits frames store text ref parts := by
  obtain ⟨r₁', hrun', hstore, -⟩ := (Strip.chunksOf_replays hle depth text ref).again r parts r₁
    { store } hrun hextends (Nat.zero_le _)
  unfold Reproduces tokenize
  rw [hrun']
  exact ⟨rfl, hstore⟩

end Highlight
