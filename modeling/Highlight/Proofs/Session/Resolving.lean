/-
# What resolving does to a session

In a session whose store is linked and closed, resolving a grammar comes to its end,
succeeds just where all that the grammar reaches resolves, and then resolves just
that (`resolve_exact`).  A grammar that is resolved already keeps its resolution, a
new one gets what it resolves to by itself.

Where resolving fails, it has changed nothing, in any session: the worklist only
looks at grammars, and what it has found is published when it is empty.  The same
goes for a grammar that is resolved in the middle of a run.
-/

import Highlight.Proofs.Session.FailFast
import Highlight.Proofs.Store.Worklist

namespace Highlight

/-- Resolving within a run that fails leaves the run as it was. -/
theorem RunM.resolve_error {ref : Ref} {r r' : Run} {e : Failure}
    (h : (RunM.resolve ref).run r = .error e r') : r' = r := by
  unfold RunM.resolve at h
  simp only [EStateM.run_bind, EStateM.run_get] at h
  cases hresolve : r.store.resolve ref with
  | error failure =>
    rw [hresolve] at h
    cases h
    rfl
  | ok resolved =>
    rw [hresolve] at h
    cases h

namespace Session

variable {s : Session} {ref : Ref}

/-- Resolving in a session that succeeds leaves the store that resolving leaves. -/
theorem resolve_ok {r : Resolution} (h : (s.resolve ref).1 = .ok r) :
    ∃ events, s.store.resolve ref = .ok (r, (s.resolve ref).2.store, events) := by
  unfold Session.resolve at h ⊢
  cases hresolve : s.store.resolve ref with
  | error e =>
    rw [hresolve] at h
    cases h
  | ok resolved =>
    rw [hresolve] at h
    cases h
    exact ⟨_, rfl⟩

theorem exists_resolve_ok :
    (∃ r, (s.resolve ref).1 = .ok r) ↔
      ∃ r store events, s.store.resolve ref = .ok (r, store, events) := by
  constructor
  · rintro ⟨r, h⟩
    obtain ⟨events, hresolve⟩ := resolve_ok h
    exact ⟨r, _, events, hresolve⟩
  · rintro ⟨r, store, events, hresolve⟩
    refine ⟨r, ?_⟩
    rw [Session.resolve, hresolve]

/-- Resolving in a session that fails leaves the session as it was. -/
theorem resolve_error {e : Failure} (h : (s.resolve ref).1 = .error e) :
    (s.resolve ref).2 = s := by
  unfold Session.resolve at h ⊢
  cases hresolve : s.store.resolve ref with
  | error failure => rfl
  | ok resolved =>
    rw [hresolve] at h
    cases h

/-- **Resolving resolves just what can be reached, or nothing.**  Where no grammar
that has a resolution leads to one that has not, the worklist comes to its end by
itself; it succeeds if and only if all that the grammar reaches resolves; and then
the grammars that have resolutions are those that had them, each the old one, and
those that the grammar reaches, each what it resolves to.  Wherever it fails,
nothing has changed. -/
theorem resolve_exact (s : Session) :
    (s.store.Linked → s.store.Closed → ∀ id < s.store.grammars.size,
      s.store.Explores [] [id] (s.store.explore (s.store.grammars.size + 1) [] [id]) ∧
      ((∃ r, (s.resolve (.grammar id)).1 = .ok r) ↔
        ∀ next, s.store.Reaches id next → s.store.isResolved next = false →
          ∃ r, s.store.Yields next r) ∧
      ∀ r, (s.resolve (.grammar id)).1 = .ok r →
        (s.resolve (.grammar id)).2.store.cached id = some r ∧
        (s.resolve (.grammar id)).2.store.declared = s.store.declared ∧
        (∀ next, (s.resolve (.grammar id)).2.store.isResolved next = true ↔
          s.store.isResolved next = true ∨ s.store.Reaches id next) ∧
        ∀ next r', (s.resolve (.grammar id)).2.store.cached next = some r' ↔
          s.store.cached next = some r' ∨
            s.store.cached next = none ∧ s.store.Reaches id next ∧ s.store.Yields next r') ∧
    (∀ ref e, (s.resolve ref).1 = .error e → (s.resolve ref).2 = s) ∧
    ∀ ref r e r', (RunM.resolve ref).run r = .error e r' → r' = r := by
  refine ⟨fun hlinked hclosed id hid => ⟨?_, ?_, fun r hok => ?_⟩, fun _ _ => resolve_error,
    fun _ _ _ _ => RunM.resolve_error⟩
  · exact Store.explores_explore hlinked (.start hid (Nat.lt_succ_self _))
  · rw [exists_resolve_ok]
    exact Store.resolve_succeeds_iff hlinked hclosed hid
  · obtain ⟨events, hresolve⟩ := resolve_ok hok
    have hcached := Store.cached_resolve_iff hlinked hclosed hid hresolve
    obtain ⟨_, ⟨⟩, hroot, -⟩ := Store.resolve_cases hresolve
    refine ⟨hroot, (Store.resolve_extends hresolve).declared_eq, fun next => ?_, hcached⟩
    constructor
    · intro hnext
      obtain ⟨r', hr'⟩ := Option.isSome_iff_exists.mp hnext
      rcases (hcached next r').mp hr' with hr' | ⟨-, hreaches, -⟩
      · exact Or.inl (Option.isSome_iff_exists.mpr ⟨r', hr'⟩)
      · exact Or.inr hreaches
    · rintro (hnext | hreaches)
      · exact (Store.resolve_extends hresolve).isResolved hnext
      · by_cases hnext : s.store.isResolved next = true
        · exact (Store.resolve_extends hresolve).isResolved hnext
        · rw [Bool.not_eq_true] at hnext
          obtain ⟨r', hyields⟩ :=
            (Store.resolve_succeeds_iff hlinked hclosed hid).mp ⟨r, _, events, hresolve⟩ next
              hreaches hnext
          refine Option.isSome_iff_exists.mpr ⟨r', (hcached next r').mpr (Or.inr ?_)⟩
          exact ⟨Store.isResolved_eq_false_iff.mp hnext, hreaches, hyields⟩

/-- Two grammars that fall back on each other and cut each other's matches further; one
that does not resolve; and one that does, but leads to it. -/
def tied : Session where
  store := {
    grammars := #[
      { entries := [("left", .single (.rule {
          pattern := .expression (.source "a".toList)
          inside := some (.grammar 1) }))]
        rest := some (.grammar 1) },
      { entries := [("right", .single (.rule {
          pattern := .expression (.source "b".toList)
          inside := some (.grammar 0) }))]
        rest := some (.grammar 0) },
      { entries := [("defect", .single (.rule { pattern := .absent }))] },
      { entries := [("outer", .single (.rule {
          pattern := .expression (.source "c".toList)
          inside := some (.grammar 2) }))] }] }
  registry := {}
  frames := none

theorem tied_fresh : tied.store.Fresh :=
  Store.fresh_of_isFresh (by decide)

/-- The two grammars are resolved together.  The one that leads to a defect is not
resolved, and nothing else is either. -/
theorem resolve_exact_tied :
    tied.store.Linked ∧ tied.store.Closed ∧
      (∃ r, tied.store.Yields 1 r ∧
        (tied.resolve (.grammar 0)).2.store.cached 1 = some r) ∧
      ∃ e, (tied.resolve (.grammar 3)).1 = .error e ∧
        (tied.resolve (.grammar 3)).2 = tied := by
  obtain ⟨hexact, hatomic, -⟩ := resolve_exact tied
  have hlinked := tied_fresh.linked
  have hclosed := tied_fresh.closed
  refine ⟨hlinked, hclosed, ?_, ?_⟩
  · obtain ⟨-, -, hok⟩ := hexact hlinked hclosed 0 (by decide)
    have hsome : (tied.resolve (.grammar 0)).1.toOption.isSome = true := by
      decide +kernel
    obtain ⟨r, hr⟩ := Option.isSome_iff_exists.mp hsome
    obtain ⟨-, -, hresolved, hcached⟩ := hok r (eq_ok_of_toOption hr)
    have hleads : tied.store.Leads 0 1 := leads_of_any (by decide +kernel)
    obtain ⟨r', hr'⟩ :=
      Option.isSome_iff_exists.mp ((hresolved 1).mpr (Or.inr (.single hleads)))
    rcases (hcached 1 r').mp hr' with hbefore | ⟨-, -, hyields⟩
    · cases hbefore
    · exact ⟨r', hyields, hr'⟩
  · obtain ⟨-, hiff, -⟩ := hexact hlinked hclosed 3 (by decide)
    have hleads : tied.store.Leads 3 2 := leads_of_any (by decide +kernel)
    have hnone : ∀ g, tied.store.get? 2 = some g →
        (tied.store.resolveOne g).toOption = none := by
      rintro g ⟨⟩
      decide +kernel
    cases hend : (tied.resolve (.grammar 3)).1 with
    | error e => exact ⟨e, rfl, hatomic _ e hend⟩
    | ok r =>
      obtain ⟨r', g, hget, hone⟩ := hiff.mp ⟨r, hend⟩ 2 (.single hleads) rfl
      have hfails := hnone g hget
      rw [hone] at hfails
      cases hfails

end Session
end Highlight
