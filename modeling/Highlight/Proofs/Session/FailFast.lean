/-
# Defects are found before any text is scanned

In a closed store, resolving a grammar resolves all that can be reached from it.
So a run over a text, which begins by resolving its grammar, meets nothing but
resolutions that are there (`Store.Serves`): it changes the store no more, and
blames no grammar (`Strip.Blameless`).  If it blames one at all, it has done so
before its first attempt (`tokenize_fails_fast`).

A store is closed as long as no fallback is changed of a grammar that another
one with a resolution leads to (`Request.KeepsClosed`).  Such a change leaves the
other one resolved, though what it leads to is not; then resolving it finds
nothing wrong, and a run over it may fail in the middle of a text
(`not_fails_fast`).
-/

import Highlight.Proofs.Session.History
import Highlight.Proofs.Tape.Leading

namespace Highlight

open RunM

/-- Every grammar that some rules lead to has a resolution. -/
def Store.Serves (store : Store) (clauses : List Clause) : Prop :=
  ∀ c ∈ clauses, ∀ id, c.rule.inside = some id → store.isResolved id = true

/-- A store that is sound and closed. -/
structure Store.Complete (store : Store) : Prop where
  sound : store.Sound
  closed : store.Closed

/-- A complete store serves the resolutions that it has. -/
theorem Store.Complete.serves {store : Store} (h : store.Complete) {id : GrammarId}
    {r : Resolution} (hr : store.cached id = some r) : store.Serves r.clauses := by
  intro c hc next hinside
  obtain ⟨entry, hentry, hc⟩ := List.mem_flatMap.mp hc
  obtain ⟨rule, hrule, rfl⟩ := List.mem_map.mp hc
  obtain ⟨g, hget, hone⟩ := h.sound id r hr
  have hnext : next ∈ successors g r :=
    List.mem_append_left _ (List.mem_reverse.mpr (List.mem_flatMap.mpr
      ⟨entry, hentry, List.mem_filterMap.mpr ⟨rule, hrule, hinside⟩⟩))
  have hid : store.isResolved id = true := Option.isSome_iff_exists.mpr ⟨r, hr⟩
  exact h.closed id next hid ⟨g, hget, (mem_successors hone).mp hnext⟩

section Run

variable {store : Store} {enter : Strip.Enter} {limits : Limits} {clause : Clause}
  {earlier later : List Clause} {s : Strip} {t : Tape}

/-- A way of going deeper that changes nothing about a store, and blames no
grammar, if the store serves the rules. -/
def Strip.Blameless (store : Store) (enter : Strip.Enter) : Prop :=
  ∀ s : Strip, s.Covers → store.Serves s.clauses →
    Triple (fun r => r.store = store) (enter s) (fun _ r => r.store = store)
      fun e _ => ¬ e.BlamesGrammar

theorem not_blamesGrammar {e : Failure} {c : FailureClass} (h : e.toClass = c)
    (hinvalid : c ≠ .invalidGrammar) (hrejected : c ≠ .patternRejected) : ¬ e.BlamesGrammar := by
  rintro (hc | hc)
  · exact hinvalid (h.symm.trans hc)
  · exact hrejected (h.symm.trans hc)

/-- Resolving a grammar that has a resolution. -/
theorem resolve_cached_triple {E : Failure → Run → Prop} {id : GrammarId}
    (h : store.isResolved id = true) :
    Triple (fun r => r.store = store) (RunM.resolve (.grammar id))
      (fun resolution r => store.cached id = some resolution ∧ r.store = store) E := by
  rintro r rfl
  obtain ⟨resolution, hr⟩ := Option.isSome_iff_exists.mp h
  unfold RunM.resolve
  simp only [EStateM.run_bind, EStateM.run_get, Store.resolve_of_cached hr]
  exact ⟨hr, rfl⟩

/-- A token is made without blaming a grammar. -/
theorem tokenOf_blameless (hstore : store.Complete) (henter : Strip.Blameless store enter)
    (hserves : ∀ id, clause.rule.inside = some id → store.isResolved id = true)
    (matched : Text) :
    Triple (fun r => r.store = store) (Strip.tokenOf enter clause matched)
      (fun _ r => r.store = store) fun e _ => ¬ e.BlamesGrammar := by
  refine Strip.tokenOf_triple (fun _ _ hr => hr) fun id hinside => ?_
  refine Strip.chunksOf_triple (resolve_cached_triple (hserves id hinside)) (fun _ _ _ h => h)
    (fun _ _ _ h => h.2) fun resolution _ r hr => ?_
  exact henter _ (.whole ..) (hstore.serves hr.1) r hr.2

/-- A step blames no grammar. -/
theorem step_blameless (hstore : store.Complete) (hlead : Strip.Leading enter)
    (henter : Strip.Blameless store enter) (hserves : store.Serves s.clauses)
    (hclauses : s.clauses = earlier ++ clause :: later) (hon : t.On s) :
    Triple (fun r => r.store = store) (t.step enter limits s.text s.base earlier clause)
      (fun _ r => r.store = store) fun e _ => ¬ e.BlamesGrammar := by
  have hcharge : Triple (fun r => r.store = store) (RunM.charge limits)
      (fun _ r => r.store = store) fun e _ => ¬ e.BlamesGrammar :=
    charge_triple (fun _ hr => hr) fun _ _ _ _ => not_blamesGrammar rfl nofun nofun
  refine Tape.step_triple hon.covers.ahead (fun _ _ hr => hr)
    (fun _ _ _ _ => not_blamesGrammar rfl nofun nofun) hcharge (fun _ _ _ _ _ _ _ hr => hr)
    fun _ _ move hplain _ _ _ hfits => ?_
  cases move with
  | stop => exact fun _ hr => hr
  | pass skipped rest => exact fun _ hr => hr
  | cut skipped covered rest cut =>
    have hclause : clause ∈ s.clauses := by simp [hclauses]
    have hearlier : store.Serves earlier := fun c hc => hserves c (by simp [hclauses, hc])
    refine hlead.replace_triple (hon.pass hfits.1).covers rfl hfits.2
      (tokenOf_blameless hstore henter (hserves clause hclause) cut.matched)
      (fun _ _ _ _ _ hr => hr) fun _ _ _ _ hcovers => ?_
    refine (henter _ hcovers hearlier).imp ?_ (fun _ _ hr _ _ _ _ _ => hr) fun _ _ h => h
    rintro _ ⟨r, hr, rfl⟩
    exact hr

/-- **A sweep blames no grammar** if those one recursion deeper do not. -/
theorem run_blameless (hstore : store.Complete) (hlead : Strip.Leading enter)
    (henter : Strip.Blameless store enter) (hs : s.Covers) (hserves : store.Serves s.clauses) :
    Triple (fun r => r.store = store) (s.run Tape.step enter limits)
      (fun _ r => r.store = store) fun e _ => ¬ e.BlamesGrammar := by
  refine hlead.run_keeps hs (fun _ r => r.store = store) ?_
  intro earlier clause later hclauses t hon
  exact (step_blameless hstore hlead henter hserves hclauses hon).post
    fun _ _ hr => ⟨fun _ => hr, fun _ _ => hr⟩

end Run

/-- Every way of going deeper is blameless in a complete store. -/
theorem Strip.descend_blameless {store : Store} (hstore : store.Complete) (limits : Limits)
    (levels depth : Nat) : Blameless store (descend Tape.step limits levels depth) := by
  intro s hs hserves
  refine (Strip.descend_triple (fun _ s r => store.Serves s.clauses ∧ r.store = store)
    (fun _ _ _ r => r.store = store) ?_ (fun _ _ _ _ h => h) ?_ levels depth s hs).pre
    fun _ hr => ⟨hserves, hr⟩
  · intro _ _ _
    exact refuse_triple fun _ _ _ hclass _ => not_blamesGrammar hclass nofun nofun
  · intro levels enter hlead henter s hs r ⟨hserves, hr⟩
    refine run_blameless hstore hlead (fun s hs hserves r hr => ?_) hs hserves r hr
    exact henter s hs r ⟨hserves, hr⟩

/-- **A run that blames a grammar has made no attempt**, if resolving leaves a
complete store: it has failed to resolve the grammar that it was given. -/
theorem tokenize_fails_fast {limits : Limits} {frames : Option Nat} {store : Store} {text : Text}
    {ref : Ref} {e : Failure}
    (hcomplete : ∀ r store' events, store.resolve ref = .ok (r, store', events) → store'.Complete)
    (hfails : (tokenize limits frames store text ref).result = .error e)
    (hblames : e.BlamesGrammar) :
    store.resolve ref = .error e ∧
      (tokenize limits frames store text ref).run.profile.patternAttempts = 0 := by
  -- A grammar that cannot be resolved is blamed at once.
  have hresolve : Triple (fun r => r = { store }) (RunM.resolve ref)
      (fun resolution r => r.store.Complete ∧ r.store.Serves resolution.clauses)
      fun e r => e.BlamesGrammar →
        store.resolve ref = .error e ∧ r.profile.patternAttempts = 0 := by
    refine .resolve ?_ ?_
    · rintro _ resolution store' events rfl hcase
      have hstore := hcomplete _ _ _ hcase
      obtain ⟨id, -, hcached, -⟩ := Store.resolve_cases hcase
      exact ⟨hstore, hstore.serves hcached⟩
    · rintro _ e rfl hcase _
      exact ⟨hcase, rfl⟩
  have hrun : Triple (fun r => r = { store })
      (Strip.chunksOf (Strip.descend Tape.step limits (Tokenizer.levels limits frames) 0) false
        text ref) (fun _ _ => True)
      fun e r => e.BlamesGrammar →
        store.resolve ref = .error e ∧ r.profile.patternAttempts = 0 := by
    refine Strip.chunksOf_triple hresolve (fun _ _ _ h => h) (fun _ _ _ _ => trivial) ?_
    intro resolution _ r hr
    have hsweep := Strip.descend_blameless hr.1 limits (Tokenizer.levels limits frames) 0 _
      (.whole text resolution.clauses) hr.2
    exact (hsweep.imp (fun _ h => h) (fun _ _ _ => trivial) fun _ _ h hb => absurd hb h) r rfl
  have hend := tokenize_of_triple store hrun rfl
  rw [hfails] at hend
  exact hend hblames

namespace Store

variable {s : Store}

/-- Resolving completes a store that is linked and complete. -/
theorem Complete.resolve {s' : Store} {ref : Ref} {r : Resolution} {events : List Event}
    (h : s.Complete) (hlinked : s.Linked) (hresolve : s.resolve ref = .ok (r, s', events)) :
    s'.Complete :=
  ⟨h.sound.resolve hresolve, h.closed.resolve hlinked hresolve⟩

end Store

/-- A request leaves closed stores closed: it changes no fallback of a grammar that
another one with a resolution leads to. -/
def Request.KeepsClosed (store : Store) : Request → Prop
  | .setRest id _ => ∀ other, other ≠ id → store.isResolved other = true → ¬ store.Leads other id
  | _ => True

namespace Session

variable {s : Session}

theorem Reachable.closed (h : s.Reachable Request.KeepsClosed) : s.store.Closed := by
  have hkeeps := h.keeps (P := fun store => store.Linked ∧ store.Closed)
    (fun _ hs => ⟨hs.linked, hs.closed⟩)
    (fun _ _ hs hg => ⟨hs.1.add hg, hs.2.add hs.1 hg⟩)
    (fun _ _ _ hs hrest hallowed =>
      ⟨hs.1.setRest hrest, (Store.closed_setRest_iff hs.2).mpr hallowed⟩)
    fun hs hresolve => ⟨(Store.resolve_extends hresolve).linked hs.1, hs.2.resolve hs.1 hresolve⟩
  exact hkeeps.2

/-- **Defects are found before any text is scanned**, in every session in which no
fallback is changed of a grammar that another one with a resolution leads to.  A
grammar that resolves has then been resolved with all that can be reached from it,
and a run that blames a grammar has made no attempt. -/
theorem fails_fast_of_reachable (h : s.Reachable Request.KeepsClosed) :
    (∀ id r, (s.resolve (.grammar id)).1 = .ok r →
      ∀ next, Relation.ReflTransGen s.store.Leads id next →
        (s.resolve (.grammar id)).2.store.isResolved next = true) ∧
      ∀ text ref config clock e, (s.tokenize text ref config clock).1 = .error e →
        e.BlamesGrammar →
        (Highlight.tokenize ((config.getD s.config).under clock) s.frames s.store text
          ref).run.profile.patternAttempts = 0 := by
  obtain ⟨hlinked, hsound⟩ := h.linked_sound
  have hcomplete : s.store.Complete := ⟨hsound, h.closed⟩
  constructor
  · intro id r hok next hnext
    unfold Session.resolve at hok ⊢
    cases hresolve : s.store.resolve (.grammar id) with
    | error e =>
      rw [hresolve] at hok
      cases hok
    | ok resolved =>
      obtain ⟨r', store', events⟩ := resolved
      have hclosed := (hcomplete.resolve hlinked hresolve).closed
      have hextends := Store.resolve_extends hresolve
      obtain ⟨_, ⟨⟩, hcached, -⟩ := Store.resolve_cases hresolve
      refine hclosed.reaches (Option.isSome_iff_exists.mpr ⟨r', hcached⟩) ?_
      exact Relation.ReflTransGen.mono (fun _ _ hlead => hextends.leads_iff.mpr hlead) _ _
        hnext
  · intro text ref config clock e hfails hblames
    exact (tokenize_fails_fast (fun _ _ _ hresolve => hcomplete.resolve hlinked hresolve) hfails
      hblames).2

/-- A grammar whose matches another one cuts further. -/
def nesting : Session where
  store := {
    grammars := #[
      { entries := [("inner", .single (.pattern (.source "x".toList)))] },
      { entries := [("outer", .single (.rule {
          pattern := .expression (.source "a".toList)
          inside := some (.grammar 0) }))] }] }
  registry := {}
  frames := none

theorem nesting_fresh : nesting.store.Fresh :=
  Store.fresh_of_isFresh (by decide)

/-- `nesting`, with a fallback for the inner grammar that is no grammar. -/
def broken : Session :=
  nesting.perform (.setRest 0 (some (.other .integer)))

theorem leads_of_any {store : Store} {id next : GrammarId}
    (h : (store.get? id).any (fun g => (store.links g).contains next) = true) :
    store.Leads id next := by
  obtain ⟨g, hget, hmem⟩ := (Option.any_eq_true ..).mp h
  exact ⟨g, hget, List.contains_iff_mem.mp hmem⟩

/-- The inner grammar is resolved with the outer one; and if it cannot be, no text
is scanned. -/
theorem fails_fast_nesting :
    nesting.Reachable Request.KeepsClosed ∧
      (nesting.resolve (.grammar 1)).2.store.isResolved 0 = true ∧
      broken.Reachable Request.KeepsClosed ∧
      (broken.tokenize "a".toList (.grammar 1)).1 =
        .error (.invalidGrammar none (.restNotGrammar .integer)) ∧
      (Highlight.tokenize (((none : Option Config).getD broken.config).under .ticking)
        broken.frames broken.store "a".toList (.grammar 1)).run.profile.patternAttempts = 0 := by
  have hnesting : nesting.Reachable Request.KeepsClosed := .fresh nesting_fresh
  have hbroken : broken.Reachable Request.KeepsClosed := by
    refine .perform hnesting ?_ fun other _ hother => ?_
    · rintro next ⟨⟩
    · obtain ⟨g, hget, hg⟩ := Store.exists_of_isResolved hother
      rw [nesting_fresh.resolution other g hget] at hg
      cases hg
  have hok : (nesting.resolve (.grammar 1)).1.toOption.isSome = true := by
    decide +kernel
  obtain ⟨r, hr⟩ := Option.isSome_iff_exists.mp hok
  have hleads : nesting.store.Leads 1 0 := leads_of_any (by decide +kernel)
  have hfails : (broken.tokenize "a".toList (.grammar 1)).1 =
      .error (.invalidGrammar none (.restNotGrammar .integer)) := by
    decide +kernel
  exact ⟨hnesting,
    (fails_fast_of_reachable hnesting).1 1 r (eq_ok_of_toOption hr) 0 (.single hleads),
    hbroken, hfails,
    (fails_fast_of_reachable hbroken).2 "a".toList (.grammar 1) none .ticking _ hfails
      (Or.inl rfl)⟩

/-- `nesting` after its grammars have been resolved, and the inner one has then been
given a fallback that is no grammar. -/
def spoiled : Session :=
  (nesting.perform (.resolve (.grammar 1))).perform (.setRest 0 (some (.other .integer)))

theorem spoiled_reachable : spoiled.Reachable fun _ _ => True := by
  refine .perform (.perform (.fresh nesting_fresh) trivial trivial) ?_ trivial
  rintro next ⟨⟩

/-- A change of a fallback may leave a grammar resolved though one that it leads to
is not.  Resolving it then finds nothing wrong, and a run over it fails in the
middle of the text. -/
theorem not_fails_fast :
    (¬ ∀ s : Session, s.Reachable (fun _ _ => True) →
      ∀ id r, (s.resolve (.grammar id)).1 = .ok r →
        ∀ next, Relation.ReflTransGen s.store.Leads id next →
          (s.resolve (.grammar id)).2.store.isResolved next = true) ∧
      ¬ ∀ s : Session, s.Reachable (fun _ _ => True) →
        ∀ text ref config clock e, (s.tokenize text ref config clock).1 = .error e →
          e.BlamesGrammar →
          (Highlight.tokenize ((config.getD s.config).under clock) s.frames s.store text
            ref).run.profile.patternAttempts = 0 := by
  constructor
  · intro h
    have hok : (spoiled.resolve (.grammar 1)).1.toOption.isSome = true := by
      decide +kernel
    have hnot : (spoiled.resolve (.grammar 1)).2.store.isResolved 0 = false := by
      decide +kernel
    have hleads : spoiled.store.Leads 1 0 := leads_of_any (by decide +kernel)
    obtain ⟨r, hr⟩ := Option.isSome_iff_exists.mp hok
    have hnext := h spoiled spoiled_reachable 1 r (eq_ok_of_toOption hr) 0 (.single hleads)
    rw [hnot] at hnext
    cases hnext
  · intro h
    have hfails : (spoiled.tokenize "a".toList (.grammar 1)).1 =
        .error (.invalidGrammar none (.restNotGrammar .integer)) := by
      decide +kernel
    have hone : (Highlight.tokenize (((none : Option Config).getD spoiled.config).under .ticking)
        spoiled.frames spoiled.store "a".toList
        (.grammar 1)).run.profile.patternAttempts = 1 := by
      decide +kernel
    have hnone := h spoiled spoiled_reachable "a".toList (.grammar 1) none .ticking _ hfails
      (Or.inl rfl)
    rw [hone] at hnone
    cases hnone

end Session
end Highlight
