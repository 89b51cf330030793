/-
# Resolutions are a cache

In a reachable session a resolution is either absent or what the grammar would
resolve to now, and only a change of the grammar's own fallback drops it.  So it
cannot be told from the outcome of a run which grammars had resolutions before.
Neither can it be told what the tokenizer had served before: a call resets its
slots, and then all depends on its configuration and, if that limits the time, on
how much of it passes (`Limits.Alike`).

Two runs over stores that declare the same go on alike (`Run.Alike`): each time a
grammar is resolved, both get the same rules, be it from a resolution that is kept
or by resolving now (`Sound.clauses_eq`).  They part only where one of them fails
to resolve a grammar that the other one need not look at, which it tells by
blaming it (`RunM.Concurs`).
-/

import Highlight.Proofs.Coverage
import Highlight.Proofs.Session.History

namespace Highlight

/-- **Sound resolutions of what is declared alike have the same rules**, be they
kept or new. -/
theorem Store.Sound.clauses_eq {s s' : Store} {id : GrammarId} {r r' : Resolution}
    (h : s.Sound) (h' : s'.Sound) (hdeclared : s.declared = s'.declared)
    (hr : s.cached id = some r) (hr' : s'.cached id = some r') : r.clauses = r'.clauses := by
  obtain ⟨g, hget, hone⟩ := h id r hr
  obtain ⟨g', hget', hone'⟩ := h' id r' hr'
  have hsame := congrFun hdeclared id
  rw [declared, declared, hget, hget', Option.map_some, Option.map_some] at hsame
  obtain ⟨hentries, hrest⟩ := Prod.mk.inj (Option.some.inj hsame)
  rw [resolveOne_eq] at hone hone'
  rw [rules_congr hdeclared, hentries, hrest] at hone
  cases hrules : s'.rules g'.entries g'.rest with
  | error e =>
    rw [hrules] at hone
    cases hone
  | ok entries =>
    rw [hrules] at hone hone'
    cases hone
    cases hone'
    rfl

/-- Two runs are alike: what is declared is the same, the resolutions of either
are sound, and as much has been done. -/
structure Run.Alike (r r' : Run) : Prop where
  declared : r.store.declared = r'.store.declared
  sound : r.store.Sound
  sound' : r'.store.Sound
  profile : r.profile = r'.profile
  peak : r.peak = r'.peak
  steps : r.steps = r'.steps

namespace RunM

variable {α β : Type}

/-- Two ends of runs concur: they are the same result or the same failure, unless
one of them blames a grammar. -/
inductive Concurs :
    EStateM.Result Failure Run α → EStateM.Result Failure Run α → Prop where
  | ok (a : α) {r r' : Run} (h : r.Alike r') : Concurs (.ok a r) (.ok a r')
  | error (e : Failure) (r r' : Run) : Concurs (.error e r) (.error e r')
  | left {e : Failure} (h : e.BlamesGrammar) (r : Run) (end' : EStateM.Result Failure Run α) :
    Concurs (.error e r) end'
  | right {e : Failure} (h : e.BlamesGrammar) (r : Run) (end' : EStateM.Result Failure Run α) :
    Concurs end' (.error e r)

/-- Two computations concur from all runs that are alike. -/
def Concur (m m' : RunM α) : Prop :=
  ∀ r r', r.Alike r' → Concurs (m.run r) (m'.run r')

theorem Concur.bind {m m' : RunM α} {f f' : α → RunM β} (h : Concur m m')
    (hf : ∀ a, Concur (f a) (f' a)) : Concur (m >>= f) (m' >>= f') := by
  intro r r' hr
  have hends := h r r' hr
  rw [EStateM.run_bind, EStateM.run_bind]
  generalize m.run r = e at hends
  generalize m'.run r' = e' at hends
  cases hends with
  | ok a hr => exact hf a _ _ hr
  | error e r r' => exact .error e r r'
  | left he r e' => exact .left he r _
  | right he r e => exact .right he r _

/-- Resolving a grammar gives the same rules, or blames a grammar. -/
theorem concur_clauses (ref : Ref) :
    Concur (Resolution.clauses <$> resolve ref) (Resolution.clauses <$> resolve ref) := by
  intro r r' hr
  rw [run_clauses, run_clauses]
  cases hresolve : r.store.resolve ref with
  | error e => exact .left (Store.blaming_resolve _ _ e hresolve) _ _
  | ok resolved =>
    cases hresolve' : r'.store.resolve ref with
    | error e => exact .right (Store.blaming_resolve _ _ e hresolve') _ _
    | ok resolved' =>
      obtain ⟨resolution, store, events⟩ := resolved
      obtain ⟨resolution', store', events'⟩ := resolved'
      have hdeclared : store.declared = store'.declared := by
        rw [(Store.resolve_extends hresolve).declared_eq, hr.declared,
          (Store.resolve_extends hresolve').declared_eq]
      -- Both have resolutions now, kept or new, and what is declared has not changed.
      have hsound := hr.sound.resolve hresolve
      have hsound' := hr.sound'.resolve hresolve'
      obtain ⟨id, rfl, hcached, -⟩ := Store.resolve_cases hresolve
      obtain ⟨_, ⟨⟩, hcached', -⟩ := Store.resolve_cases hresolve'
      dsimp only
      rw [hsound.clauses_eq hsound' hdeclared hcached hcached']
      exact .ok _ ⟨hdeclared, hsound, hsound', hr.profile, hr.peak, hr.steps⟩

/-- **All actions of a run concur.** -/
theorem congruence_concur {limits limits' : Limits} (h : limits.Alike limits') :
    Congruence limits limits' Concur where
  pure := fun a _ _ hr => .ok a hr
  bind := fun h hf => h.bind hf
  runaway := fun r r' _ => .error _ r r'
  overrun := fun _ _ _ _ _ _ => .error _ _ _
  count := fun f _ _ _ hr =>
    .ok () ⟨hr.declared, hr.sound, hr.sound', congrArg f hr.profile, hr.peak, hr.steps⟩
  clauses := concur_clauses
  charge := by
    intro r r' hr
    have hcharged := congrArg
      (fun p : Profile => { p with patternAttempts := p.patternAttempts + 1 }) hr.profile
    rcases run_charge_alike h hr.steps with ⟨hcount, hcount'⟩ | ⟨e, event, hrefuse, hrefuse'⟩
    · rw [hcount, hcount']
      exact .ok () ⟨hr.declared, hr.sound, hr.sound', hcharged, hr.peak,
        congrArg (· + 1) hr.steps⟩
    · rw [hrefuse, hrefuse']
      exact .error e _ _

/-- Noting a depth concurs. -/
theorem concur_reachDepth (depth : Nat) : Concur (reachDepth depth) (reachDepth depth) :=
  fun _ _ hr => .ok () ⟨hr.declared, hr.sound, hr.sound', hr.profile,
    congrArg (max · depth) hr.peak, hr.steps⟩

/-- Refusing to go deeper concurs. -/
theorem concur_refuse {limits limits' : Limits} (h : limits.Alike limits') (depth : Nat) :
    Concur (Tokenizer.refuse limits depth : RunM α) (Tokenizer.refuse limits' depth) := by
  intro r r' hr
  unfold Tokenizer.refuse
  rw [h.config]
  dsimp only
  split
  · exact .error _ _ _
  · simp only [EStateM.run_bind, EStateM.run_get, hr.peak]
    exact .error _ _ _

end RunM

/-- **Runs over sound stores that declare the same end alike**, unless one of them
blames a grammar. -/
theorem tokenize_concurs {store store' : Store} (hsound : store.Sound) (hsound' : store'.Sound)
    (hdeclared : store.declared = store'.declared) {limits limits' : Limits}
    (h : limits.Alike limits') (frames : Option Nat) (text : Text) (ref : Ref) :
    (tokenize limits frames store text ref).result =
        (tokenize limits' frames store' text ref).result ∨
      ∃ e, e.BlamesGrammar ∧ ((tokenize limits frames store text ref).result = .error e ∨
        (tokenize limits' frames store' text ref).result = .error e) := by
  have hlevels : Tokenizer.levels limits frames = Tokenizer.levels limits' frames := by
    unfold Tokenizer.levels
    rw [h.config]
  have hends := Tokenizer.run_related (RunM.congruence_concur h) RunM.concur_reachDepth
    (RunM.concur_refuse h) hlevels text ref { store } { store := store' }
    ⟨hdeclared, hsound, hsound', rfl, rfl, rfl⟩
  unfold tokenize
  generalize (Tokenizer.run limits frames text ref).run { store } = first at hends ⊢
  generalize (Tokenizer.run limits' frames text ref).run { store := store' } = second at hends ⊢
  cases hends with
  | ok chunks _ => exact Or.inl rfl
  | error e r r' => exact Or.inl rfl
  | left he r second => exact Or.inr ⟨_, he, Or.inl rfl⟩
  | right he r first => exact Or.inr ⟨_, he, Or.inr rfl⟩

namespace Session

variable {s : Session} {id : GrammarId} {r : Resolution}

/-- **The outcome of a call is that of a run from the beginning** by the
configuration of the tokenizer. -/
theorem fst_call (s : Session) (t : Tokenizer) (text : Text) (ref : Ref) (clock : Clock) :
    (s.call t text ref clock).1 =
      (Highlight.tokenize (t.config.under clock) s.frames s.store text ref).result :=
  congrArg Report.result (t.fst_call clock s.profile?.isSome s.frames s.store text ref)

theorem fst_tokenize (s : Session) (text : Text) (ref : Ref) (config : Option Config)
    (clock : Clock) : (s.tokenize text ref config clock).1 =
      (Highlight.tokenize ((config.getD s.config).under clock) s.frames s.store text ref).result :=
  rfl

/-- **A resolution goes only with a change of its own grammar's fallback.** -/
theorem cached_perform (h : s.store.cached id = some r) {request : Request}
    (hrequest : ∀ rest, request ≠ .setRest id rest) :
    (s.perform request).store.cached id = some r := by
  cases request with
  | add g =>
    obtain ⟨g', hget, hr⟩ := Option.bind_eq_some_iff.mp h
    exact Option.bind_eq_some_iff.mpr ⟨g', Store.get?_add_of_get? hget g, hr⟩
  | setRest other rest =>
    have hne : id ≠ other := by
      rintro rfl
      exact hrequest rest rfl
    have hget : (s.perform (.setRest other rest)).store.get? id = s.store.get? id :=
      (Store.get?_setRest ..).trans (if_neg hne)
    rwa [Store.cached, hget]
  | resolve ref => exact (store_resolve_follows s ref).extends.cached h
  | tokenize t text ref clock =>
    exact (store_tokenize_follows s t text ref clock).extends.cached h

/-- **Resolutions are a cache, and tokenizers keep nothing but their
configuration.**  In a reachable session every resolution is what its grammar would
resolve to now; it stays until the grammar's own fallback is changed, and goes then.
Which grammars have resolutions, and what the slots of the tokenizer hold, makes no
difference to the outcome of a call, unless one that differs in that blames a
grammar; nor does the clock, where the time is not limited or passes alike.  No call
changes what is declared, or the configuration of its tokenizer. -/
theorem transparent_of_reachable (h : s.Reachable fun _ _ => True) :
    (∀ id r, s.store.cached id = some r → s.store.Yields id r) ∧
      (∀ request id r, s.store.cached id = some r → (∀ rest, request ≠ .setRest id rest) →
        (s.perform request).store.cached id = some r) ∧
      (∀ id rest, (s.perform (.setRest id rest)).store.cached id = none) ∧
      (∀ s' : Session, s'.Reachable (fun _ _ => True) → s'.store.declared = s.store.declared →
        s'.frames = s.frames → ∀ t t' : Tokenizer, t'.config = t.config →
        ∀ clock clock' : Clock,
          (t.config.timeout = none ∨ ∀ n, clock.elapsed n = clock'.elapsed n) → ∀ text ref,
          (s.call t text ref clock).1 = (s'.call t' text ref clock').1 ∨
            ∃ e, e.BlamesGrammar ∧ ((s.call t text ref clock).1 = .error e ∨
              (s'.call t' text ref clock').1 = .error e)) ∧
      ∀ t text ref clock, (s.call t text ref clock).2.2.store.declared = s.store.declared ∧
        (s.call t text ref clock).2.1.config = t.config := by
  refine ⟨h.linked_sound.2, fun request id r hr => cached_perform hr, fun id rest => ?_, ?_,
    fun t text ref clock =>
      ⟨(store_tokenize_follows s t text ref clock).extends.declared_eq, rfl⟩⟩
  · have hgone := Store.isResolved_setRest s.store id rest
    rwa [Store.isResolved, Option.isSome_eq_false_iff, Option.isNone_iff_eq_none] at hgone
  · intro s' h' hdeclared hframes t t' hconfig clock clock' htime text ref
    rw [fst_call, fst_call, hframes, hconfig]
    exact tokenize_concurs h.linked_sound.2 h'.linked_sound.2 hdeclared.symm
      (t.config.under_alike htime) _ text ref

/-- A session with the grammars of `quoting`. -/
def ofQuoting : Session where
  store := quoting
  registry := {}
  frames := none

theorem ofQuoting_fresh : ofQuoting.store.Fresh :=
  Store.fresh_of_isFresh (by decide)

/-- A tokenizer that has cut `a'b'bxy`, which took nine attempts and two levels. -/
def usedTokenizer : Tokenizer :=
  (ofQuoting.call { config := {} } "a'b'bxy".toList (.grammar 0)).2.1

/-- Resolving the grammar of `quoting` that has strings resolves the one that cuts
them further, and the strings are cut as before, by a new tokenizer or a used one. -/
theorem transparent_quoting :
    (ofQuoting.perform (.resolve (.grammar 0))).Reachable (fun _ _ => True) ∧
      usedTokenizer.steps = 9 ∧ usedTokenizer.peak = 2 ∧
      ∃ r, (ofQuoting.perform (.resolve (.grammar 0))).store.cached 1 = some r ∧
        (ofQuoting.perform (.resolve (.grammar 0))).store.Yields 1 r ∧
        ((ofQuoting.perform (.resolve (.grammar 0))).perform
          (.setRest 0 none)).store.cached 1 = some r ∧
        ((ofQuoting.perform (.resolve (.grammar 0))).call usedTokenizer "a'b'bxy".toList
          (.grammar 0)).1 = .ok quoted := by
  have hfresh : ofQuoting.Reachable (fun _ _ => True) := .fresh ofQuoting_fresh
  have hreachable : (ofQuoting.perform (.resolve (.grammar 0))).Reachable (fun _ _ => True) :=
    hfresh.perform trivial trivial
  obtain ⟨hyields, hkeeps, -, hends, -⟩ := transparent_of_reachable hreachable
  have hcached : ((ofQuoting.perform (.resolve (.grammar 0))).store.cached 1).isSome = true := by
    decide +kernel
  obtain ⟨r, hr⟩ := Option.isSome_iff_exists.mp hcached
  refine ⟨hreachable, by decide +kernel, by decide +kernel, r, hr, hyields 1 r hr,
    hkeeps _ 1 r hr fun rest h => ?_, ?_⟩
  · cases h
  · have hdone : ((ofQuoting.perform (.resolve (.grammar 0))).call usedTokenizer
        "a'b'bxy".toList (.grammar 0)).1.toOption.isSome = true := by
      decide +kernel
    have hdeclared := (store_resolve_follows ofQuoting (.grammar 0)).extends.declared_eq
    have hquoted : (ofQuoting.call { config := {} } "a'b'bxy".toList (.grammar 0)).1 =
        .ok quoted := by
      rw [fst_call]
      exact tokenize_quoting
    rcases hends ofQuoting hfresh hdeclared.symm (frames_perform ..).symm usedTokenizer
      { config := {} } rfl .ticking .ticking (Or.inl rfl) "a'b'bxy".toList
      (.grammar 0) with hsame | ⟨e, -, hfails | hfails⟩
    · rw [hsame, hquoted]
    · rw [hfails] at hdone
      cases hdone
    · rw [hquoted] at hfails
      cases hfails

end Session
end Highlight
