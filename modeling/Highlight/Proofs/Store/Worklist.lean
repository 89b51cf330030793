/-
# Resolving resolves what can be reached

A grammar reaches what it leads to, in any number of steps.  In a closed store
resolving a grammar succeeds just where all that it reaches resolves
(`resolve_succeeds_iff`), and then it gives each of those grammars its own
resolution, and no grammar another one (`cached_resolve_iff`).

That takes both directions of a search.  What the worklist finds can be reached,
and what can be reached it finds, because what it began with is never lost
(`Rooted`).  Where a grammar leads is known only once it has resolved; so a grammar
that does not resolve ends the search, and what only it leads to is not looked for.
Nor is what only resolved grammars lead to, which a closed store has resolved
already.

The rounds of the worklist are numbered only so that it can be computed.  Without
numbers it is a relation (`Explores`), and it comes to its end by itself
(`explores_explore`).
-/

import Highlight.Proofs.Store.Closure

namespace Highlight

namespace Store

variable {s s' : Store} {id next root : GrammarId} {g : Grammar} {r : Resolution} {fuel : Nat}
  {found found' : List (GrammarId × Resolution)} {pending : List GrammarId}

/-- A grammar leads to another one, in any number of steps. -/
def Reaches (s : Store) : GrammarId → GrammarId → Prop :=
  Relation.ReflTransGen s.Leads

/-- The worklist comes to an outcome, however many rounds it takes. -/
inductive Explores (s : Store) : List (GrammarId × Resolution) → List GrammarId →
    Except Failure (List (GrammarId × Resolution)) → Prop where
  | done (found : List (GrammarId × Resolution)) : Explores s found [] (.ok found)
  | skip {found : List (GrammarId × Resolution)} {id : GrammarId} {pending : List GrammarId}
    {outcome : Except Failure (List (GrammarId × Resolution))}
    (hid : (found.lookup id).isSome = true) (hmore : Explores s found pending outcome) :
    Explores s found (id :: pending) outcome
  | cached {found : List (GrammarId × Resolution)} {id : GrammarId} {pending : List GrammarId}
    {outcome : Except Failure (List (GrammarId × Resolution))} {g : Grammar} {r : Resolution}
    (hid : found.lookup id = none) (hget : s.get? id = some g) (hr : g.resolution = some r)
    (hmore : Explores s (found ++ [(id, r)]) pending outcome) :
    Explores s found (id :: pending) outcome
  | failed {found : List (GrammarId × Resolution)} {id : GrammarId} {pending : List GrammarId}
    {g : Grammar} {e : Failure} (hid : found.lookup id = none) (hget : s.get? id = some g)
    (hr : g.resolution = none) (hone : s.resolveOne g = .error e) :
    Explores s found (id :: pending) (.error e)
  | fresh {found : List (GrammarId × Resolution)} {id : GrammarId} {pending : List GrammarId}
    {outcome : Except Failure (List (GrammarId × Resolution))} {g : Grammar} {r : Resolution}
    (hid : found.lookup id = none) (hget : s.get? id = some g) (hr : g.resolution = none)
    (hone : s.resolveOne g = .ok r)
    (hmore : Explores s (found ++ [(id, r)]) (successors g r ++ pending) outcome) :
    Explores s found (id :: pending) outcome

/-- Numbers that have been looked at may be put in front. -/
theorem Explores.of_dropWhile {outcome : Except Failure (List (GrammarId × Resolution))}
    (h : s.Explores found (pending.dropWhile fun id => (found.lookup id).isSome) outcome) :
    s.Explores found pending outcome := by
  induction pending with
  | nil => exact h
  | cons id pending ih =>
    rw [List.dropWhile_cons] at h
    split at h
    · rename_i hid
      exact .skip hid (ih h)
    · exact h

/-- **The worklist comes to its end by itself**: there are as many rounds as it needs. -/
theorem explores_explore (hlinked : s.Linked) (h : Exploring s fuel found pending) :
    s.Explores found pending (s.explore fuel found pending) := by
  induction fuel generalizing found pending with
  | zero => exact absurd h.fuel_pos (Nat.lt_irrefl 0)
  | succ fuel ih =>
    have hskipped := skips (Exploring s (fuel + 1) found)
      (fun _ _ hid h => h.skip (isSome_lookup.mp hid)) h
    refine .of_dropWhile ?_
    rw [explore]
    split
    · rename_i hempty
      rw [hempty]
      exact .done found
    · rename_i id pending' heq
      have hid := lookup_of_dropWhile heq
      have hnew := lookup_eq_none.mp hid
      rw [heq] at hskipped ⊢
      obtain ⟨g, hget⟩ := exists_get?_of_lt (hskipped.pending_lt id List.mem_cons_self)
      rw [hget]
      dsimp only
      split
      · rename_i r hr
        exact .cached hid hget hr (ih (hskipped.cached hnew hget hr))
      · rename_i hr
        split
        · rename_i e hone
          exact .failed hid hget hr hone
        · rename_i r hone
          exact .fresh hid hget hr hone (ih (hskipped.fresh hlinked hnew hget hone))

/-- What is known of a worklist that began with one number: the number has been looked
at or is to be, and it leads to all that has been looked at or is to be. -/
structure Rooted (s : Store) (root : GrammarId) (found : List (GrammarId × Resolution))
    (pending : List GrammarId) : Prop where
  begun : root ∈ found.map Prod.fst ∨ root ∈ pending
  reached : ∀ id ∈ found.map Prod.fst, s.Reaches root id
  ahead : ∀ id ∈ pending, s.Reaches root id

namespace Rooted

theorem start (s : Store) (root : GrammarId) : s.Rooted root [] [root] where
  begun := Or.inr (List.mem_singleton_self root)
  reached := nofun
  ahead := fun _ h => List.mem_singleton.mp h ▸ .refl

theorem skip (h : s.Rooted root found (id :: pending)) (hid : id ∈ found.map Prod.fst) :
    s.Rooted root found pending where
  begun := by
    rcases h.begun with hroot | hroot
    · exact Or.inl hroot
    · rcases List.mem_cons.mp hroot with rfl | hroot
      · exact Or.inl hid
      · exact Or.inr hroot
  reached := h.reached
  ahead := fun id' hid' => h.ahead id' (List.mem_cons_of_mem _ hid')

theorem look (h : s.Rooted root found (id :: pending)) (more : List GrammarId)
    (hmore : ∀ next ∈ more, s.Leads id next) (r : Resolution) :
    s.Rooted root (found ++ [(id, r)]) (more ++ pending) where
  begun := by
    rw [List.map_append, List.mem_append, List.mem_append]
    rcases h.begun with hroot | hroot
    · exact Or.inl (Or.inl hroot)
    · rcases List.mem_cons.mp hroot with rfl | hroot
      · exact Or.inl (Or.inr (List.mem_singleton_self root))
      · exact Or.inr (Or.inr hroot)
  reached := by
    intro id' hid'
    rw [List.map_append, List.mem_append] at hid'
    rcases hid' with hid' | hid'
    · exact h.reached id' hid'
    · rw [List.mem_singleton.mp hid']
      exact h.ahead id List.mem_cons_self
  ahead := by
    intro id' hid'
    rcases List.mem_append.mp hid' with hid' | hid'
    · exact (h.ahead id List.mem_cons_self).tail (hmore id' hid')
    · exact h.ahead id' (List.mem_cons_of_mem _ hid')

end Rooted

/-- **The worklist finds what can be reached**, and nothing else, as far as it goes
through grammars without a resolution. -/
theorem explore_rooted (hlinked : s.Linked) (hroot : root < s.grammars.size)
    (h : s.explore (s.grammars.size + 1) [] [root] = .ok found) :
    s.Rooted root found [] ∧ ∃ fuel, Exploring s fuel found [] := by
  obtain ⟨fuel, pending, ⟨hrooted, hend⟩, hdone⟩ := explore_keeps
    (fun fuel found pending => s.Rooted root found pending ∧ Exploring s fuel found pending)
    (fun _ _ _ _ hid h => ⟨h.1.skip (isSome_lookup.mp hid), h.2.skip (isSome_lookup.mp hid)⟩)
    (fun _ _ id _ hget h => by
      obtain ⟨g, hget'⟩ := exists_get?_of_lt (h.2.pending_lt id List.mem_cons_self)
      rw [hget] at hget'
      cases hget')
    (fun _ _ _ _ _ r hid hget hr h =>
      ⟨h.1.look [] nofun r, h.2.cached (lookup_eq_none.mp hid) hget hr⟩)
    (fun _ _ _ _ g r hid hget _ hone h =>
      ⟨h.1.look _ (fun _ hnext => ⟨g, hget, (mem_successors hone).mp hnext⟩) r,
        h.2.fresh hlinked (lookup_eq_none.mp hid) hget hone⟩) h
    ⟨.start s root, .start hroot (Nat.lt_succ_self _)⟩
  rcases hdone with rfl | rfl
  · exact absurd hend.fuel_pos (Nat.lt_irrefl 0)
  · exact ⟨hrooted, fuel, hend⟩

/-- The worklist does not fail where all that it may come to resolves. -/
theorem explore_succeeds (hpending : ∀ id ∈ pending, s.Reaches root id)
    (hyields : ∀ id, s.Reaches root id → s.isResolved id = false → ∃ r, s.Yields id r) :
    ∃ found', s.explore fuel found pending = .ok found' := by
  induction fuel generalizing found pending with
  | zero => exact ⟨found, rfl⟩
  | succ fuel ih =>
    have hpending := skips (fun pending => ∀ id ∈ pending, s.Reaches root id)
      (fun _ _ _ h id hid => h id (List.mem_cons_of_mem _ hid)) hpending
      (p := fun id => (found.lookup id).isSome)
    rw [explore]
    split
    · exact ⟨found, rfl⟩
    · rename_i id pending' heq
      rw [heq] at hpending
      have hrest : ∀ id ∈ pending', s.Reaches root id := fun id hid =>
        hpending id (List.mem_cons_of_mem _ hid)
      have hid := hpending id List.mem_cons_self
      split
      · exact ih hrest
      · rename_i g hget
        split
        · exact ih hrest
        · rename_i hr
          have hunresolved : s.isResolved id = false := by
            rw [isResolved, hget, Option.bind_some, hr]
            rfl
          obtain ⟨r, g', hget', hone⟩ := hyields id hid hunresolved
          rw [hget] at hget'
          cases hget'
          rw [hone]
          refine ih fun next hnext => ?_
          rcases List.mem_append.mp hnext with hnext | hnext
          · exact hid.tail ⟨g, hget, (mem_successors hone).mp hnext⟩
          · exact hrest next hnext

/-- What can be reached has a resolution, or the worklist has looked at it. -/
theorem Rooted.found_of_reaches (h : s.Rooted root found []) (hend : Exploring s fuel found [])
    (hclosed : s.Closed) (hnext : s.Reaches root next) :
    s.isResolved next = true ∨ next ∈ found.map Prod.fst := by
  induction hnext with
  | refl => exact Or.inr (h.begun.resolve_right List.not_mem_nil)
  | @tail id next _ hlead ih =>
    by_cases hid : s.isResolved id = true
    · exact Or.inl (hclosed id next hid hlead)
    · have hfound := ih.resolve_left hid
      rw [Bool.not_eq_true] at hid
      exact Or.inr ((hend.leads id hfound hid next hlead).resolve_right List.not_mem_nil)

/-- A grammar resolves to one thing only. -/
theorem Yields.eq {r' : Resolution} (h : s.Yields id r) (h' : s.Yields id r') : r = r' := by
  obtain ⟨g, hget, hone⟩ := h
  obtain ⟨g', hget', hone'⟩ := h'
  rw [hget] at hget'
  cases hget'
  rw [hone] at hone'
  exact Except.ok.inj hone'

theorem isResolved_eq_false_iff : s.isResolved id = false ↔ s.cached id = none := by
  rw [isResolved, Option.isSome_eq_false_iff, Option.isNone_iff_eq_none, cached]

/-- What the worklist finds is published. -/
theorem resolve_of_explore (hlinked : s.Linked) (hid : id < s.grammars.size)
    (hnone : s.cached id = none) (h : s.explore (s.grammars.size + 1) [] [id] = .ok found) :
    ∃ r events, s.resolve (.grammar id) = .ok (r, (s.publishAll found).1, events) := by
  obtain ⟨hrooted, fuel, hend⟩ := explore_rooted hlinked hid h
  have hresolved := hend.isResolved_of_mem (hrooted.begun.resolve_right List.not_mem_nil)
  obtain ⟨r, hr⟩ := Option.isSome_iff_exists.mp hresolved
  refine ⟨r, (s.publishAll found).2, ?_⟩
  unfold cached at hnone
  rw [resolve, hnone, h]
  dsimp only
  rw [hr]

/-- **Resolving succeeds just where all that can be reached resolves.** -/
theorem resolve_succeeds_iff (hlinked : s.Linked) (hclosed : s.Closed)
    (hid : id < s.grammars.size) :
    (∃ r s' events, s.resolve (.grammar id) = .ok (r, s', events)) ↔
      ∀ next, s.Reaches id next → s.isResolved next = false → ∃ r, s.Yields next r := by
  constructor
  · rintro ⟨r, s', events, h⟩ next hnext hunresolved
    obtain ⟨_, ⟨⟩, hcached, rfl | ⟨-, found, hexplore, rfl⟩⟩ := resolve_cases h
    · have hresolved := hclosed.reaches (Option.isSome_iff_exists.mpr ⟨r, hcached⟩) hnext
      rw [hunresolved] at hresolved
      cases hresolved
    · obtain ⟨hrooted, fuel, hend⟩ := explore_rooted hlinked hid hexplore
      have hfound := (hrooted.found_of_reaches hend hclosed hnext).resolve_left
        (by simp [hunresolved])
      obtain ⟨⟨_, r⟩, hmem, rfl⟩ := List.mem_map.mp hfound
      refine ⟨r, (explore_found hexplore _ hmem).resolve_left fun hr => ?_⟩
      rw [isResolved_eq_false_iff.mp hunresolved] at hr
      cases hr
  · intro hyields
    cases hcached : s.cached id with
    | some r => exact ⟨r, s, [], resolve_of_cached hcached⟩
    | none =>
      obtain ⟨found, hexplore⟩ :
          ∃ found, s.explore (s.grammars.size + 1) [] [id] = .ok found :=
        explore_succeeds (fun next hnext => List.mem_singleton.mp hnext ▸ .refl) hyields
      obtain ⟨r, events, h⟩ := resolve_of_explore hlinked hid hcached hexplore
      exact ⟨r, _, events, h⟩

/-- **Resolving gives what can be reached its resolutions**, each its own, and changes
none. -/
theorem cached_resolve_iff (hlinked : s.Linked) (hclosed : s.Closed)
    (hid : id < s.grammars.size) {events : List Event}
    (h : s.resolve (.grammar id) = .ok (r, s', events)) (next : GrammarId) (r' : Resolution) :
    s'.cached next = some r' ↔
      s.cached next = some r' ∨ s.cached next = none ∧ s.Reaches id next ∧ s.Yields next r' := by
  have hextends := resolve_extends h
  have hbefore {r' : Resolution} (hr' : s'.cached next = some r') (hsome : s.cached next ≠ none) :
      s.cached next = some r' := by
    obtain ⟨r₀, hr₀⟩ := Option.ne_none_iff_exists'.mp hsome
    rw [hextends.cached hr₀] at hr'
    rw [hr₀, hr']
  obtain ⟨_, ⟨⟩, hcached, rfl | ⟨-, found, hexplore, rfl⟩⟩ := resolve_cases h
  · refine ⟨Or.inl, ?_⟩
    rintro (hr' | ⟨hnone, hnext, -⟩)
    · exact hr'
    · have hresolved := hclosed.reaches (Option.isSome_iff_exists.mpr ⟨r, hcached⟩) hnext
      rw [isResolved_eq_false_iff.mpr hnone] at hresolved
      cases hresolved
  · obtain ⟨hrooted, fuel, hend⟩ := explore_rooted hlinked hid hexplore
    have hnew {r' : Resolution} (hr' : (s.publishAll found).1.cached next = some r')
        (hnone : s.cached next = none) : s.Reaches id next ∧ s.Yields next r' := by
      have hmem := (cached_publishAll hr').resolve_left (by simp [hnone])
      refine ⟨hrooted.reached next (List.mem_map_of_mem hmem), ?_⟩
      exact (explore_found hexplore _ hmem).resolve_left (by simp [hnone])
    constructor
    · intro hr'
      by_cases hnone : s.cached next = none
      · exact Or.inr ⟨hnone, hnew hr' hnone⟩
      · exact Or.inl (hbefore hr' hnone)
    · rintro (hr' | ⟨hnone, hnext, hyields⟩)
      · exact hextends.cached hr'
      · have hfound := (hrooted.found_of_reaches hend hclosed hnext).resolve_left
          (by simp [isResolved_eq_false_iff.mpr hnone])
        obtain ⟨r₁, hr₁⟩ := Option.isSome_iff_exists.mp (hend.isResolved_of_mem hfound)
        rw [(hnew hr₁ hnone).2.eq hyields] at hr₁
        exact hr₁

end Store
end Highlight
