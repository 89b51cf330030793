/-
# What resolving does to a store

What a grammar resolves to depends on what is declared: its own entries, and
those of its fallback, one level deep (`Store.rules`).  It does not depend on
the resolutions that are kept, so a resolution that is what its grammar would
resolve to now stays so when others are published (`Store.Sound`).

Resolving leaves a store that declares the same and keeps every resolution that
it had (`Store.Extends`), and leaves it sound.  A failure to resolve blames a
grammar or a pattern, and nothing else.
-/

import Highlight.Grammar.Store
import Mathlib.Data.List.TakeWhile
import Mathlib.Logic.Relation

namespace Highlight

/-! ### Failures that blame a grammar -/

/-- A failure that blames a grammar, or a pattern in one. -/
def Failure.BlamesGrammar (e : Failure) : Prop :=
  e.toClass = .invalidGrammar ∨ e.toClass = .patternRejected

/-- A check that fails only in order to blame a grammar. -/
def Blaming {α : Type} (check : Except Failure α) : Prop :=
  ∀ e, check = .error e → e.BlamesGrammar

namespace Blaming

variable {α β : Type} {type : String}

theorem ok (a : α) : Blaming (.ok a) :=
  fun _ h => nomatch h

theorem invalid (type : Option String) (defect : Defect) :
    Blaming (.error (.invalidGrammar type defect) : Except Failure α) := by
  rintro _ ⟨⟩
  exact Or.inl rfl

theorem bind {x : Except Failure α} {f : α → Except Failure β} (hx : Blaming x)
    (hf : ∀ a, Blaming (f a)) : Blaming (x >>= f) := by
  cases x with
  | ok a => exact hf a
  | error failure =>
    rintro _ ⟨⟩
    exact hx _ rfl

theorem mapM {f : α → Except Failure β} (hf : ∀ a, Blaming (f a)) (as : List α) :
    Blaming (as.mapM f) := by
  induction as with
  | nil => exact ok []
  | cons a as ih =>
    rw [List.mapM_cons]
    exact (hf a).bind fun _ => ih.bind fun _ => ok _

theorem expression (e : Expression) : Blaming (e.compile type) := by
  cases e with
  | source text =>
    rw [Expression.compile]
    split
    · exact ok _
    · rintro e ⟨⟩
      exact Or.inr rfl
  | compiled pattern => exact ok pattern
  | bytes source => exact invalid _ _

theorem operand (o : Operand) : Blaming (o.compile type) := by
  cases o with
  | expression e => exact expression e
  | absent => exact invalid _ _
  | other kind => exact invalid _ _

theorem rule (r : Rule Operand Ref) : Blaming (r.compile type) := by
  refine (operand r.pattern).bind fun pattern => ?_
  dsimp only
  split
  · exact invalid _ _
  · split
    · exact ok _
    · exact ok _
    · exact invalid _ _

theorem alternative (a : Alternative) : Blaming (a.compile type) := by
  cases a with
  | pattern e => exact rule _
  | rule r => exact rule r
  | other kind => exact invalid _ _

theorem declaration (d : Declaration) : Blaming (d.compile type) := by
  unfold Declaration.compile
  split
  · exact invalid _ _
  · exact (alternative _).bind fun _ => ok _
  · exact mapM alternative _

theorem entries (es : Entries) : Blaming es.compile :=
  mapM (fun _ => (declaration _).bind fun _ => ok _) es

end Blaming

namespace Store

variable {s s' s'' : Store} {id : GrammarId} {g g' : Grammar} {r : Resolution}

/-! ### What is declared -/

/-- What is declared for a number: entries and a fallback. -/
def declared (s : Store) (id : GrammarId) : Option (Entries × Option Ref) :=
  (s.get? id).map fun g => (g.entries, g.rest)

/-- The resolution that the grammar of a number has. -/
def cached (s : Store) (id : GrammarId) : Option Resolution :=
  (s.get? id).bind (·.resolution)

/-- The rules that entries and a fallback resolve to. -/
def rules (s : Store) (own : Entries) (rest : Option Ref) :
    Except Failure (List (String × List CompiledRule)) := do
  let fallback ← s.fallbackEntries rest
  (Entries.merge own fallback).compile

/-- A grammar resolves to the rules of what is declared for it, under its name. -/
theorem resolveOne_eq (s : Store) (g : Grammar) :
    s.resolveOne g = (fun entries => { entries, name := g.name }) <$> s.rules g.entries g.rest := by
  unfold resolveOne rules
  rw [map_eq_pure_bind, bind_assoc]

/-- What a fallback contributes depends only on what is declared. -/
theorem fallbackEntries_congr (h : s.declared = s'.declared) :
    s.fallbackEntries = s'.fallbackEntries := by
  funext rest
  cases rest with
  | none => rfl
  | some ref =>
    cases ref with
    | other kind => rfl
    | grammar id =>
      have hentries : ((s.get? id).map (·.entries)) = (s'.get? id).map (·.entries) := by
        have hid := congrArg (Option.map Prod.fst) (congrFun h id)
        rwa [declared, declared, Option.map_map, Option.map_map] at hid
      rw [fallbackEntries, fallbackEntries, hentries]

theorem rules_congr (h : s.declared = s'.declared) : s.rules = s'.rules := by
  funext own rest
  rw [rules, rules, fallbackEntries_congr h]

/-- **What a grammar resolves to depends only on what is declared**, and on its
name. -/
theorem resolveOne_congr (h : s.declared = s'.declared) (hentries : g.entries = g'.entries)
    (hrest : g.rest = g'.rest) (hname : g.name = g'.name) : s.resolveOne g = s'.resolveOne g' := by
  rw [resolveOne_eq, resolveOne_eq, rules_congr h, hentries, hrest, hname]

theorem blaming_resolveOne (s : Store) (g : Grammar) : Blaming (s.resolveOne g) := by
  refine Blaming.bind ?_ fun _ => (Blaming.entries _).bind fun _ => .ok _
  unfold fallbackEntries
  split
  · exact .ok _
  · exact .invalid _ _
  · exact .ok _

/-- The grammar of a number resolves to something. -/
def Yields (s : Store) (id : GrammarId) (r : Resolution) : Prop :=
  ∃ g, s.get? id = some g ∧ s.resolveOne g = .ok r

/-- Every resolution that is kept is what its grammar would resolve to now. -/
def Sound (s : Store) : Prop :=
  ∀ id r, s.cached id = some r → s.Yields id r

/-! ### Stores that have more resolutions -/

end Store

/-- A grammar is another one, with a resolution if that had none. -/
structure Grammar.Fills (g g' : Grammar) : Prop where
  entries : g'.entries = g.entries
  rest : g'.rest = g.rest
  name : g'.name = g.name
  keeps : ∀ r, g.resolution = some r → g'.resolution = some r

theorem Grammar.Fills.refl (g : Grammar) : g.Fills g :=
  ⟨rfl, rfl, rfl, fun _ h => h⟩

theorem Grammar.Fills.trans {g g' g'' : Grammar} (h : g.Fills g') (h' : g'.Fills g'') :
    g.Fills g'' where
  entries := h'.entries.trans h.entries
  rest := h'.rest.trans h.rest
  name := h'.name.trans h.name
  keeps := fun r hr => h'.keeps r (h.keeps r hr)

namespace Store

variable {s s' s'' : Store} {id : GrammarId} {g g' : Grammar} {r : Resolution}

/-- A store holds the grammars of another one, some of them with resolutions that
they did not have. -/
def Extends (s s' : Store) : Prop :=
  ∀ id, Option.Rel Grammar.Fills (s.get? id) (s'.get? id)

theorem Extends.refl (s : Store) : s.Extends s := by
  intro id
  cases s.get? id with
  | none => exact .none
  | some g => exact .some (.refl g)

theorem Extends.trans (h : s.Extends s') (h' : s'.Extends s'') : s.Extends s'' := by
  intro id
  have hid := h id
  have hid' := h' id
  generalize s.get? id = first at hid ⊢
  generalize s'.get? id = middle at hid hid'
  generalize s''.get? id = last at hid' ⊢
  cases hid with
  | none => exact hid'
  | some hfills =>
    cases hid' with
    | some hfills' => exact .some (hfills.trans hfills')

theorem Extends.get? (h : s.Extends s') (hget : s.get? id = some g) :
    ∃ g', s'.get? id = some g' ∧ g.Fills g' := by
  have hid := h id
  rw [hget] at hid
  generalize s'.get? id = found at hid ⊢
  cases hid with
  | some hfills => exact ⟨_, rfl, hfills⟩

theorem Extends.get?' (h : s.Extends s') (hget : s'.get? id = some g') :
    ∃ g, s.get? id = some g ∧ g.Fills g' := by
  have hid := h id
  rw [hget] at hid
  generalize s.get? id = found at hid ⊢
  cases hid with
  | some hfills => exact ⟨_, rfl, hfills⟩

/-- Nothing that is declared changes. -/
theorem Extends.declared_eq (h : s.Extends s') : s'.declared = s.declared := by
  funext id
  have hid := h id
  rw [declared, declared]
  generalize s.get? id = found at hid ⊢
  generalize s'.get? id = found' at hid ⊢
  cases hid with
  | none => rfl
  | some hfills => rw [Option.map_some, Option.map_some, hfills.entries, hfills.rest]

/-- No resolution changes, or is taken away. -/
theorem Extends.cached (h : s.Extends s') (hr : s.cached id = some r) : s'.cached id = some r := by
  obtain ⟨g, hget, hg⟩ := Option.bind_eq_some_iff.mp hr
  obtain ⟨g', hget', hfills⟩ := h.get? hget
  exact Option.bind_eq_some_iff.mpr ⟨g', hget', hfills.keeps r hg⟩

/-- What a grammar resolves to does not change. -/
theorem Extends.resolveOne_eq (h : s.Extends s') (hg : g.Fills g') :
    s'.resolveOne g' = s.resolveOne g :=
  resolveOne_congr h.declared_eq hg.entries hg.rest hg.name

theorem Extends.yields_iff (h : s.Extends s') : s'.Yields id r ↔ s.Yields id r := by
  constructor
  · rintro ⟨g', hget', hone⟩
    obtain ⟨g, hget, hfills⟩ := h.get?' hget'
    exact ⟨g, hget, by rw [← h.resolveOne_eq hfills, hone]⟩
  · rintro ⟨g, hget, hone⟩
    obtain ⟨g', hget', hfills⟩ := h.get? hget
    exact ⟨g', hget', by rw [h.resolveOne_eq hfills, hone]⟩

/-! ### Publishing -/

/-- Publishing gives a grammar its resolution, unless it has one, and changes no
other grammar. -/
theorem get?_publish (s : Store) (id other : GrammarId) (r : Resolution) :
    (s.publish id r).1.get? other =
      if other = id then (s.get? id).map fun g =>
        if g.resolution.isSome then g
        else { g with resolution := some r, edition := g.edition + 1 }
      else s.get? other := by
  unfold publish
  cases hget : s.get? id with
  | none =>
    dsimp only
    split
    · rename_i heq
      rw [heq, hget]
      rfl
    · rfl
  | some g =>
    dsimp only
    rw [Option.map_some]
    cases hresolution : g.resolution with
    | some found =>
      dsimp only
      split
      · rename_i heq
        rw [heq]
        exact hget
      · rfl
    | none =>
      dsimp only [get?] at hget ⊢
      obtain ⟨hlt, -⟩ := Array.getElem?_eq_some_iff.mp hget
      rw [Array.getElem?_setIfInBounds]
      split
      · rename_i heq
        rw [if_pos heq.symm]
        rfl
      · rename_i hne
        rw [if_neg (Ne.symm hne)]

theorem publish_extends (s : Store) (id : GrammarId) (r : Resolution) :
    s.Extends (s.publish id r).1 := by
  intro other
  rw [get?_publish]
  split
  · rename_i heq
    rw [heq]
    cases s.get? id with
    | none => exact .none
    | some g =>
      rw [Option.map_some]
      split
      · exact .some (.refl g)
      · rename_i hnone
        exact .some ⟨rfl, rfl, rfl, fun _ hr => absurd (by rw [hr]; rfl) hnone⟩
  · exact Extends.refl s other

theorem publishAll_extends (s : Store) (found : List (GrammarId × Resolution)) :
    s.Extends (s.publishAll found).1 := by
  induction found generalizing s with
  | nil => exact .refl s
  | cons e found ih => exact (publish_extends s e.1 e.2).trans (ih _)

/-- A resolution that is kept after publishing one was kept before, or it is that
one. -/
theorem cached_publish {other : GrammarId} {r' : Resolution}
    (h : (s.publish id r).1.cached other = some r') :
    s.cached other = some r' ∨ other = id ∧ r' = r := by
  rw [cached, get?_publish] at h
  split at h
  · rename_i heq
    subst heq
    cases hget : s.get? other with
    | none =>
      rw [hget] at h
      cases h
    | some g =>
      rw [hget, Option.map_some, Option.bind_some] at h
      split at h
      · refine Or.inl ?_
        rw [cached, hget]
        exact h
      · cases h
        exact Or.inr ⟨rfl, rfl⟩
  · exact Or.inl h

theorem cached_publishAll {found : List (GrammarId × Resolution)}
    (h : (s.publishAll found).1.cached id = some r) :
    s.cached id = some r ∨ (id, r) ∈ found := by
  induction found generalizing s with
  | nil => exact Or.inl h
  | cons e found ih =>
    rcases ih (s := (s.publish e.1 e.2).1) h with hr | hr
    · refine (cached_publish hr).imp_right ?_
      rintro ⟨rfl, rfl⟩
      exact List.mem_cons_self
    · exact Or.inr (List.mem_cons_of_mem _ hr)

/-- A grammar that is published has a resolution. -/
theorem isResolved_publish (hget : (s.get? id).isSome = true) (r : Resolution) :
    (s.publish id r).1.isResolved id = true := by
  obtain ⟨g, hget⟩ := Option.isSome_iff_exists.mp hget
  rw [isResolved, get?_publish, if_pos rfl, hget, Option.map_some, Option.bind_some]
  split
  · assumption
  · rfl

/-- Grammars that have a resolution go on to have one. -/
theorem Extends.isResolved (h : s.Extends s') (hid : s.isResolved id = true) :
    s'.isResolved id = true := by
  obtain ⟨r, hr⟩ := Option.isSome_iff_exists.mp hid
  exact Option.isSome_iff_exists.mpr ⟨r, h.cached hr⟩

/-- All grammars that are published have resolutions. -/
theorem isResolved_publishAll {found : List (GrammarId × Resolution)}
    (hfound : ∀ e ∈ found, (s.get? e.1).isSome = true) :
    ∀ e ∈ found, (s.publishAll found).1.isResolved e.1 = true := by
  induction found generalizing s with
  | nil => exact fun _ h => nomatch h
  | cons e found ih =>
    intro e' he'
    have hextends := publish_extends s e.1 e.2
    rcases List.mem_cons.mp he' with rfl | he'
    · exact (publishAll_extends _ found).isResolved
        (isResolved_publish (hfound e' List.mem_cons_self) e'.2)
    · refine ih (fun e₁ he₁ => ?_) e' he'
      obtain ⟨g, hget⟩ := Option.isSome_iff_exists.mp (hfound e₁ (List.mem_cons_of_mem _ he₁))
      obtain ⟨g', hget', -⟩ := hextends.get? hget
      exact Option.isSome_iff_exists.mpr ⟨g', hget'⟩

/-! ### The worklist -/

section Explore

variable {fuel : Nat} {found found' : List (GrammarId × Resolution)} {pending : List GrammarId}

/-- What is kept when a number is skipped is kept when several are. -/
theorem skips (Inv : List GrammarId → Prop) {p : GrammarId → Bool}
    (hskip : ∀ id pending, p id = true → Inv (id :: pending) → Inv pending) (h : Inv pending) :
    Inv (pending.dropWhile p) := by
  induction pending with
  | nil => exact h
  | cons id pending ih =>
    rw [List.dropWhile_cons]
    split
    · rename_i hid
      exact ih (hskip id pending hid h)
    · exact h

/-- The number that a round looks at has not been looked at. -/
theorem lookup_of_dropWhile {id : GrammarId} {rest : List GrammarId}
    (h : (pending.dropWhile fun id => (found.lookup id).isSome) = id :: rest) :
    found.lookup id = none := by
  have hhead := List.head_dropWhile_not (l := pending) (fun id => (found.lookup id).isSome)
    (by rw [h]; exact List.cons_ne_nil _ _)
  simpa [h] using hhead

/-- **What each round keeps, the worklist leaves**, when it is empty or there are
no more rounds.  Numbers that have been looked at are skipped.  A round drops a
number that there is no grammar for; or it takes the resolution that a grammar
has; or it resolves a grammar and puts those that it leads to in front. -/
theorem explore_keeps (Inv : Nat → List (GrammarId × Resolution) → List GrammarId → Prop)
    (hskip : ∀ fuel found id pending, (found.lookup id).isSome = true →
      Inv fuel found (id :: pending) → Inv fuel found pending)
    (habsent : ∀ fuel found id pending, s.get? id = none →
      Inv (fuel + 1) found (id :: pending) → Inv fuel found pending)
    (hcached : ∀ fuel found id pending g r, found.lookup id = none → s.get? id = some g →
      g.resolution = some r → Inv (fuel + 1) found (id :: pending) →
      Inv fuel (found ++ [(id, r)]) pending)
    (hfresh : ∀ fuel found id pending g r, found.lookup id = none → s.get? id = some g →
      g.resolution = none → s.resolveOne g = .ok r → Inv (fuel + 1) found (id :: pending) →
      Inv fuel (found ++ [(id, r)]) (successors g r ++ pending))
    (h : s.explore fuel found pending = .ok found') (hinv : Inv fuel found pending) :
    ∃ fuel' pending', Inv fuel' found' pending' ∧ (fuel' = 0 ∨ pending' = []) := by
  -- By induction on the rounds, with a case for each thing that a round can do.
  induction fuel generalizing found pending with
  | zero =>
    cases h
    exact ⟨0, pending, hinv, Or.inl rfl⟩
  | succ fuel ih =>
    have hinv := skips (Inv (fuel + 1) found) (hskip (fuel + 1) found) hinv
    unfold explore at h
    split at h
    · rename_i hempty
      cases h
      exact ⟨fuel + 1, [], hempty ▸ hinv, Or.inr rfl⟩
    · rename_i id pending' heq
      have hnew := lookup_of_dropWhile heq
      rw [heq] at hinv
      cases hget : s.get? id with
      | none =>
        rw [hget] at h
        exact ih h (habsent _ _ _ _ hget hinv)
      | some g =>
        rw [hget] at h
        dsimp only at h
        cases hresolution : g.resolution with
        | some r =>
          rw [hresolution] at h
          exact ih h (hcached _ _ _ _ g r hnew hget hresolution hinv)
        | none =>
          rw [hresolution] at h
          dsimp only at h
          cases hone : s.resolveOne g with
          | error e =>
            rw [hone] at h
            cases h
          | ok r =>
            rw [hone] at h
            exact ih h (hfresh _ _ _ _ g r hnew hget hresolution hone hinv)

/-- The worklist finds resolutions that are kept, and what grammars resolve to. -/
theorem explore_found (h : s.explore fuel [] pending = .ok found) :
    ∀ e ∈ found, s.cached e.1 = some e.2 ∨ s.Yields e.1 e.2 := by
  have hmore {found : List (GrammarId × Resolution)} {id : GrammarId} {r : Resolution}
      (hr : s.cached id = some r ∨ s.Yields id r)
      (hfound : ∀ e ∈ found, s.cached e.1 = some e.2 ∨ s.Yields e.1 e.2) :
      ∀ e ∈ found ++ [(id, r)], s.cached e.1 = some e.2 ∨ s.Yields e.1 e.2 := by
    intro e he
    rcases List.mem_append.mp he with he | he
    · exact hfound e he
    · rw [List.mem_singleton.mp he]
      exact hr
  obtain ⟨-, -, hfound, -⟩ := explore_keeps
    (fun _ found _ => ∀ e ∈ found, s.cached e.1 = some e.2 ∨ s.Yields e.1 e.2)
    (fun _ _ _ _ _ h => h) (fun _ _ _ _ _ h => h)
    (fun _ _ id _ g r _ hget hr h =>
      hmore (Or.inl (Option.bind_eq_some_iff.mpr ⟨g, hget, hr⟩)) h)
    (fun _ _ id _ g r _ hget _ hone h => hmore (Or.inr ⟨g, hget, hone⟩) h) h fun _ h => nomatch h
  exact hfound

/-- The worklist fails only in order to blame a grammar. -/
theorem blaming_explore (s : Store) (fuel : Nat) (found : List (GrammarId × Resolution))
    (pending : List GrammarId) : Blaming (s.explore fuel found pending) := by
  induction fuel generalizing found pending with
  | zero => exact .ok _
  | succ fuel ih =>
    unfold explore
    split
    · exact .ok _
    · split
      · exact ih _ _
      · rename_i g _
        split
        · exact ih _ _
        · have hone := blaming_resolveOne s g
          cases hcase : s.resolveOne g with
          | ok r => exact ih _ _
          | error e =>
            rw [hcase] at hone
            rintro _ ⟨⟩
            exact hone _ rfl

end Explore

/-! ### Resolving -/

/-- **What resolving can do.**  A resolution that a grammar has is returned, and
nothing changes; or the worklist is published, and gives the grammar a
resolution. -/
theorem resolve_cases {ref : Ref} {events : List Event}
    (h : s.resolve ref = .ok (r, s', events)) :
    ∃ id, ref = .grammar id ∧ s'.cached id = some r ∧ (s' = s ∨ s.cached id = none ∧
      ∃ found, s.explore (s.grammars.size + 1) [] [id] = .ok found ∧
        s' = (s.publishAll found).1) := by
  cases ref with
  | other kind => cases h
  | grammar id =>
    refine ⟨id, rfl, ?_⟩
    unfold resolve at h
    dsimp only at h
    split at h
    · rename_i hcached
      cases h
      exact ⟨hcached, Or.inl rfl⟩
    · rename_i hcached
      split at h
      · cases h
      · rename_i found hexplore
        split at h
        · rename_i hpublished
          cases h
          exact ⟨hpublished, Or.inr ⟨hcached, found, hexplore, rfl⟩⟩
        · cases h

/-- A grammar that has a resolution resolves to it, and nothing changes. -/
theorem resolve_of_cached (h : s.cached id = some r) :
    s.resolve (.grammar id) = .ok (r, s, []) := by
  unfold cached at h
  rw [resolve, h]

/-- **Resolving fails only in order to blame a grammar.** -/
theorem blaming_resolve (s : Store) (ref : Ref) : Blaming (s.resolve ref) := by
  cases ref with
  | other kind => exact .invalid _ _
  | grammar id =>
    unfold resolve
    dsimp only
    split
    · exact .ok _
    · have hexplore := blaming_explore s (s.grammars.size + 1) [] [id]
      cases hcase : s.explore (s.grammars.size + 1) [] [id] with
      | error e =>
        rw [hcase] at hexplore
        rintro _ ⟨⟩
        exact hexplore _ rfl
      | ok found =>
        dsimp only
        split
        · exact .ok _
        · exact .invalid _ _

theorem resolve_extends {ref : Ref} {events : List Event}
    (h : s.resolve ref = .ok (r, s', events)) : s.Extends s' := by
  obtain ⟨id, -, -, rfl | ⟨-, found, -, rfl⟩⟩ := resolve_cases h
  · exact .refl _
  · exact publishAll_extends s found

/-- **A resolution that is kept after resolving was kept before, or is what its
grammar resolves to.** -/
theorem cached_resolve {ref : Ref} {r' : Resolution} {events : List Event}
    (h : s.resolve ref = .ok (r', s', events)) (hr : s'.cached id = some r) :
    s.cached id = some r ∨ s.Yields id r := by
  obtain ⟨_, -, -, rfl | ⟨-, found, hexplore, rfl⟩⟩ := resolve_cases h
  · exact Or.inl hr
  · rcases cached_publishAll hr with hr | hfound
    · exact Or.inl hr
    · exact explore_found hexplore _ hfound

/-- Resolving leaves a sound store sound. -/
theorem Sound.resolve {ref : Ref} {r : Resolution} {events : List Event} (hsound : s.Sound)
    (h : s.resolve ref = .ok (r, s', events)) : s'.Sound := by
  intro id r' hr'
  have hyields : s.Yields id r' := (cached_resolve h hr').elim (hsound id r') fun h => h
  exact (resolve_extends h).yields_iff.mpr hyields

/-- A store comes of another one by resolving grammars, one after the other. -/
def Follows (s s' : Store) : Prop :=
  Relation.ReflTransGen (fun s s' => ∃ ref r events, s.resolve ref = .ok (r, s', events)) s s'

/-- What resolving a grammar keeps, resolving many keeps. -/
theorem Follows.keeps {P : Store → Prop} (h : s.Follows s') (hs : P s)
    (hresolve : ∀ {s s' : Store} {ref : Ref} {r : Resolution} {events : List Event},
      P s → s.resolve ref = .ok (r, s', events) → P s') : P s' := by
  induction h with
  | refl => exact hs
  | tail _ hlast ih =>
    obtain ⟨ref, r, events, hlast⟩ := hlast
    exact hresolve ih hlast

theorem Follows.extends (h : s.Follows s') : s.Extends s' :=
  h.keeps (.refl s) fun hs hresolve => hs.trans (resolve_extends hresolve)

end Store
end Highlight
