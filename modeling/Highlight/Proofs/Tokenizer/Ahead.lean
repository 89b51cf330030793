/-
# Runs ahead

Resolving a grammar resolves the grammars that it leads to, before a run comes to any of
them.  It makes no difference to the run when that is done: from a store that is ahead of
another one (`Store.Ahead`) a run ends with the same chunks or the same failure, and has
counted the same (`run_abides`).

The two runs are followed action by action, as those over stores that declare the same are
(`Highlight.Proofs.Session.Transparency`).  There the runs part where one of them blames a
grammar that the other one has no need to look at.  Here they do not, because what is
resolved ahead has no defect.
-/

import Highlight.Proofs.Store.Ahead
import Highlight.Proofs.Tape.Congruence

namespace Highlight

/-- A run is ahead of another one if its store is, and as much has been done. -/
structure Run.Ahead (r r' : Run) : Prop where
  linked : r.store.Linked
  store : r.store.Ahead r'.store
  profile : r.profile = r'.profile
  peak : r.peak = r'.peak
  steps : r.steps = r'.steps

namespace RunM

variable {α β : Type}

/-- Two ends of runs are the same result or the same failure, with the same counts, and the
one run stays ahead of the other while they go on. -/
inductive Abides :
    EStateM.Result Failure Run α → EStateM.Result Failure Run α → Prop where
  | ok (a : α) {r r' : Run} (h : r.Ahead r') : Abides (.ok a r) (.ok a r')
  | error (e : Failure) {r r' : Run} (h : r.profile = r'.profile) :
    Abides (.error e r) (.error e r')

/-- Two computations end the same from every run and one ahead of it. -/
def Abide (m m' : RunM α) : Prop :=
  ∀ r r', r.Ahead r' → Abides (m.run r) (m'.run r')

theorem Abide.bind {m m' : RunM α} {f f' : α → RunM β} (h : Abide m m')
    (hf : ∀ a, Abide (f a) (f' a)) : Abide (m >>= f) (m' >>= f') := by
  intro r r' hr
  have hends := h r r' hr
  rw [EStateM.run_bind, EStateM.run_bind]
  generalize m.run r = e at hends
  generalize m'.run r' = e' at hends
  cases hends with
  | ok a hr => exact hf a _ _ hr
  | error e hprofile => exact .error e hprofile

/-- Resolving a grammar gives the same rules, or fails for the same defect. -/
theorem abide_clauses (ref : Ref) :
    Abide (Resolution.clauses <$> resolve ref) (Resolution.clauses <$> resolve ref) := by
  intro r r' hr
  rw [run_clauses, run_clauses]
  cases hresolve : r.store.resolve ref with
  | error e =>
    rw [hr.store.resolve_error hr.linked hresolve]
    exact .error e hr.profile
  | ok resolved =>
    obtain ⟨resolution, store, events⟩ := resolved
    obtain ⟨store', events', hresolve', hahead⟩ := hr.store.resolve_ok hr.linked hresolve
    rw [hresolve']
    have hlinked := (Store.resolve_extends hresolve).linked hr.linked
    exact .ok _ ⟨hlinked, hahead, hr.profile, hr.peak, hr.steps⟩

/-- **All actions of a run end the same ahead.** -/
theorem congruence_abide (limits : Limits) : Congruence limits limits Abide where
  pure := fun a _ _ hr => .ok a hr
  bind := fun h hf => h.bind hf
  runaway := fun _ _ hr => .error _ hr.profile
  overrun := fun _ _ _ _ _ hr => .error _ hr.profile
  count := fun f _ _ _ hr =>
    .ok () ⟨hr.linked, hr.store, congrArg f hr.profile, hr.peak, hr.steps⟩
  clauses := abide_clauses
  charge := by
    intro r r' hr
    have hcharged := congrArg
      (fun p : Profile => { p with patternAttempts := p.patternAttempts + 1 }) hr.profile
    rcases run_charge_alike (.refl limits) hr.steps with
      ⟨hcount, hcount'⟩ | ⟨e, event, hrefuse, hrefuse'⟩
    · rw [hcount, hcount']
      exact .ok () ⟨hr.linked, hr.store, hcharged, hr.peak, congrArg (· + 1) hr.steps⟩
    · rw [hrefuse, hrefuse']
      exact .error e hr.profile

end RunM

/-- Sweeps end the same ahead, at any depth. -/
theorem Strip.descend_abide (limits : Limits) (levels depth : Nat) (s : Strip) :
    RunM.Abide (descend Tape.step limits levels depth s)
      (descend Tape.step limits levels depth s) := by
  refine descend_related (RunM.congruence_abide limits) (fun depth r r' hr => ?_)
    (fun depth r r' hr => ?_) levels depth s
  · exact .ok () ⟨hr.linked, hr.store, hr.profile, congrArg (max · depth) hr.peak, hr.steps⟩
  · unfold Tokenizer.refuse
    dsimp only
    split
    · exact .error _ hr.profile
    · simp only [EStateM.run_bind, EStateM.run_get, hr.peak]
      exact .error _ hr.profile

/-- A run over a text whose grammar resolves. -/
theorem run_of_resolve {store s : Store} {ref : Ref} {r : Resolution} {events : List Event}
    (h : store.resolve ref = .ok (r, s, events)) (limits : Limits) (frames : Option Nat)
    (text : Text) :
    (Tokenizer.run limits frames text ref).run { store } =
      (Strip.chunksBy (Strip.descend Tape.step limits (Tokenizer.levels limits frames) 0) false
        text r.clauses).run { store := s, events } := by
  rw [run_eq, Strip.chunksOf_eq_chunksBy, EStateM.run_bind, RunM.run_clauses]
  dsimp only
  rw [h]
  rfl

/-- **A run is what the rules of its grammar make of the text** in the store as it was, with
nothing resolved ahead. -/
theorem run_abides {store s : Store} (hlinked : store.Linked) {ref : Ref} {r : Resolution}
    {events : List Event} (h : store.resolve ref = .ok (r, s, events)) (limits : Limits)
    (frames : Option Nat) (text : Text) :
    RunM.Abides
      ((Strip.chunksBy (Strip.descend Tape.step limits (Tokenizer.levels limits frames) 0) false
        text r.clauses).run { store })
      ((Tokenizer.run limits frames text ref).run { store }) := by
  rw [run_of_resolve h]
  have habide := Strip.chunksBy_related (RunM.congruence_abide limits)
    (Strip.descend_abide limits (Tokenizer.levels limits frames) 0) false text r.clauses
  exact habide _ _ ⟨hlinked, Store.ahead_of_resolve hlinked h, rfl, rfl, rfl⟩

/-- **Grammars whose rules make the same of a text** have runs that end the same. -/
theorem tokenize_of_chunksBy {store s s' : Store} (hlinked : store.Linked) {ref ref' : Ref}
    {r r' : Resolution} {events events' : List Event}
    (h : store.resolve ref = .ok (r, s, events)) (h' : store.resolve ref' = .ok (r', s', events'))
    {limits : Limits} {frames : Option Nat} {text : Text}
    (hsame :
      Strip.chunksBy (Strip.descend Tape.step limits (Tokenizer.levels limits frames) 0) false
          text r.clauses =
        Strip.chunksBy (Strip.descend Tape.step limits (Tokenizer.levels limits frames) 0) false
          text r'.clauses) :
    (tokenize limits frames store text ref).result =
        (tokenize limits frames store text ref').result ∧
      (tokenize limits frames store text ref).run.profile =
        (tokenize limits frames store text ref').run.profile := by
  have hends := run_abides hlinked h limits frames text
  have hends' := run_abides hlinked h' limits frames text
  rw [hsame] at hends
  unfold tokenize
  generalize (Tokenizer.run limits frames text ref).run { store } = first at hends ⊢
  generalize (Tokenizer.run limits frames text ref').run { store } = second at hends' ⊢
  generalize (Strip.chunksBy _ false text r'.clauses).run { store } = direct at hends hends'
  cases hends with
  | ok chunks hahead =>
    cases hends' with
    | ok _ hahead' => exact ⟨rfl, hahead.profile.symm.trans hahead'.profile⟩
  | error e hprofile =>
    cases hends' with
    | error _ hprofile' => exact ⟨rfl, hprofile.symm.trans hprofile'⟩

end Highlight
