/-
# Resolving the grammars of CSS

In a store that holds the three grammars as they were declared, resolved or not
and whatever else it holds (`Installed`), resolving one of them gives what it
resolves to, and leaves such a store (`resolve_installed`).

The worklist never leaves the three grammars.  So each round finds a grammar,
resolves it, or finds its resolution, and no round fails (`explore_installed`);
and what is published is what each of them resolves to.
-/

import Highlight.Proofs.Css.Rules
import Highlight.Proofs.Store.Resolutions
import Highlight.Proofs.Tape.Rules

namespace Highlight

namespace Css

/-- A grammar is one of the three as it was declared, with what it resolves to
or without a resolution. -/
structure Declares (id : GrammarId) (g : Grammar) : Prop where
  declared : store.get? id = some { g with resolution := none, edition := 0 }
  resolution : ∀ r, g.resolution = some r → r = resolved id

/-- A store holds the three grammars. -/
def Installed (s : Store) : Prop :=
  ∀ id ∈ ids, ∃ g, s.get? id = some g ∧ Declares id g

/-- Whether a grammar resolves, and leads to nothing but the three. -/
def isClosed (id : GrammarId) : Bool :=
  (store.get? id).any fun g =>
    (store.resolveOne g).toOption = some (resolved id) &&
      (Store.successors g (resolved id)).all (ids.contains ·) &&
      match g.rest with
      | none => true
      | some (.grammar id) => ids.contains id
      | some (.other _) => false

theorem isClosed_ids : ids.all isClosed = true := by
  decide +kernel

/-- The store of the three grammars holds them. -/
theorem installed_store : Installed store := by
  intro id hid
  simp only [ids, List.mem_cons, List.not_mem_nil, or_false] at hid
  rcases hid with rfl | rfl | rfl
  · exact ⟨sheet, rfl, rfl, fun _ h => nomatch h⟩
  · exact ⟨atRuleGrammar, rfl, rfl, fun _ h => nomatch h⟩
  · exact ⟨urlGrammar, rfl, rfl, fun _ h => nomatch h⟩

variable {s : Store} {id : GrammarId} {g : Grammar}

/-- What is known of a grammar of the three in a store that holds them. -/
theorem Declares.closed (h : Installed s) (hid : id ∈ ids) (hg : Declares id g) :
    s.resolveOne g = .ok (resolved id) ∧
      ∀ next ∈ Store.successors g (resolved id), next ∈ ids := by
  have hclosed := List.all_eq_true.mp isClosed_ids id hid
  rw [isClosed, hg.declared, Option.any_some, Bool.and_eq_true, Bool.and_eq_true] at hclosed
  obtain ⟨⟨hone, hnext⟩, hrest⟩ := hclosed
  have hone := eq_ok_of_toOption (of_decide_eq_true hone)
  have hfallback : s.fallbackEntries g.rest = store.fallbackEntries g.rest := by
    cases hcase : g.rest with
    | none => rfl
    | some ref =>
      rw [hcase] at hrest
      cases ref with
      | other kind => cases hrest
      | grammar id' =>
        obtain ⟨g', hget, hg'⟩ := h id' (List.contains_iff_mem.mp hrest)
        rw [Store.fallbackEntries, Store.fallbackEntries, hget, hg'.declared]
        rfl
  refine ⟨?_, fun next hmem => ?_⟩
  · rw [← hone, Store.resolveOne, Store.resolveOne, hfallback]
  · exact List.contains_iff_mem.mp (List.all_eq_true.mp hnext next hmem)

/-- **The worklist finds what the grammars resolve to**, and loses nothing that
has been found. -/
theorem explore_installed (h : Installed s) (fuel : Nat)
    (found : List (GrammarId × Resolution)) (pending : List GrammarId)
    (hpending : ∀ id ∈ pending, id ∈ ids) (hfound : ∀ e ∈ found, e.2 = resolved e.1) :
    ∃ found', s.explore fuel found pending = .ok found' ∧ found ⊆ found' ∧
      ∀ e ∈ found', e.2 = resolved e.1 := by
  induction fuel generalizing found pending with
  | zero => exact ⟨found, rfl, List.Subset.refl _, hfound⟩
  | succ fuel ih =>
    have hdrop := (List.dropWhile_sublist (l := pending) fun id => (found.lookup id).isSome).subset
    unfold Store.explore
    split
    · exact ⟨found, rfl, List.Subset.refl _, hfound⟩
    · rename_i id pending' heq
      rw [heq] at hdrop
      have hid : id ∈ ids := hpending id (hdrop List.mem_cons_self)
      have hpending' : ∀ id ∈ pending', id ∈ ids := fun id hmem =>
        hpending id (hdrop (List.mem_cons_of_mem _ hmem))
      have hfound' : ∀ e ∈ found ++ [(id, resolved id)], e.2 = resolved e.1 := by
        intro e he
        rcases List.mem_append.mp he with he | he
        · exact hfound e he
        · rw [List.mem_singleton] at he
          rw [he]
      have hsub : found ⊆ found ++ [(id, resolved id)] := List.subset_append_left ..
      obtain ⟨g, hget, hg⟩ := h id hid
      rw [hget]
      dsimp only
      split
      · rename_i r hresolution
        rw [hg.resolution r hresolution]
        obtain ⟨found', hok, hmore, hall⟩ := ih _ _ hpending' hfound'
        exact ⟨found', hok, List.Subset.trans hsub hmore, hall⟩
      · obtain ⟨hone, hnext⟩ := hg.closed h hid
        rw [hone]
        have hnext' : ∀ next ∈ Store.successors g (resolved id) ++ pending', next ∈ ids :=
          fun next hmem => (List.mem_append.mp hmem).elim (hnext next) (hpending' next)
        obtain ⟨found', hok, hmore, hall⟩ := ih _ _ hnext' hfound'
        exact ⟨found', hok, List.Subset.trans hsub hmore, hall⟩

/-- Publishing what a grammar resolves to leaves the three grammars as they
were declared. -/
theorem Installed.publish (h : Installed s) (id : GrammarId) :
    Installed (s.publish id (resolved id)).1 := by
  intro id' hid'
  obtain ⟨g, hget, hg⟩ := h id' hid'
  rw [Store.get?_publish]
  split
  · rename_i heq
    subst heq
    rw [hget]
    refine ⟨_, rfl, ?_⟩
    dsimp only
    split
    · exact hg
    · exact ⟨hg.declared, fun r hr => (Option.some.inj hr).symm⟩
  · exact ⟨g, hget, hg⟩

/-- Publishing what the grammars resolve to leaves them as they were declared,
and resolves those that have been found. -/
theorem Installed.publishAll (h : Installed s) {found : List (GrammarId × Resolution)}
    (hfound : ∀ e ∈ found, e.2 = resolved e.1) :
    Installed (s.publishAll found).1 ∧ ∀ id ∈ ids,
      s.isResolved id = true ∨ (∃ r, (id, r) ∈ found) →
        (s.publishAll found).1.isResolved id = true := by
  induction found generalizing s with
  | nil =>
    refine ⟨h, fun id _ hresolved => hresolved.resolve_right ?_⟩
    rintro ⟨r, hr⟩
    cases hr
  | cons e found ih =>
    obtain ⟨id', r⟩ := e
    obtain rfl : r = resolved id' := hfound _ List.mem_cons_self
    obtain ⟨hinstalled, hall⟩ := ih (h.publish id') fun e he =>
      hfound e (List.mem_cons_of_mem _ he)
    refine ⟨hinstalled, fun id hid hresolved => hall id hid ?_⟩
    obtain ⟨g, hget, -⟩ := h id hid
    have hsome : (s.get? id).isSome = true := by rw [hget]; rfl
    rcases hresolved with hresolved | ⟨r, hr⟩
    · exact Or.inl ((Store.publish_extends s id' _).isResolved hresolved)
    · rcases List.mem_cons.mp hr with heq | hr
      · cases heq
        exact Or.inl (Store.isResolved_publish hsome _)
      · exact Or.inr ⟨r, hr⟩

/-- A grammar of the three that has a resolution has what it resolves to. -/
theorem Installed.resolution_eq (h : Installed s) (hid : id ∈ ids)
    (hresolved : s.isResolved id = true) :
    (s.get? id).bind (·.resolution) = some (resolved id) := by
  obtain ⟨g, hget, hg⟩ := h id hid
  rw [Store.isResolved, hget, Option.bind_some] at hresolved
  obtain ⟨r, hr⟩ := Option.isSome_iff_exists.mp hresolved
  rw [hget, Option.bind_some, hr, hg.resolution r hr]

/-- **Resolving a grammar of the three never fails**, and gives what it resolves
to. -/
theorem resolve_installed (h : Installed s) (hid : id ∈ ids) :
    ∃ s' events, s.resolve (.grammar id) = .ok (resolved id, s', events) ∧ Installed s' := by
  unfold Store.resolve
  dsimp only
  cases hresolution : (s.get? id).bind (·.resolution) with
  | some r =>
    have hresolved : s.isResolved id = true := by
      rw [Store.isResolved, hresolution]
      rfl
    obtain rfl : r = resolved id := by
      have := h.resolution_eq hid hresolved
      rw [hresolution] at this
      exact Option.some.inj this
    exact ⟨s, [], rfl, h⟩
  | none =>
    obtain ⟨g, hget, hg⟩ := h id hid
    have hnone : g.resolution = none := by
      rw [hget] at hresolution
      exact hresolution
    obtain ⟨hone, hnext⟩ := hg.closed h hid
    obtain ⟨found, hok, hsub, hfound⟩ := explore_installed h s.grammars.size
      [(id, resolved id)] (Store.successors g (resolved id) ++ []) (by simpa using hnext) (by simp)
    have hexplore : s.explore (s.grammars.size + 1) [] [id] = .ok found := by
      rw [Store.explore]
      simpa [hget, hnone, hone] using hok
    rw [hexplore]
    obtain ⟨hinstalled, hresolved⟩ := h.publishAll hfound
    have hresolved := hresolved id hid (Or.inr ⟨_, hsub List.mem_cons_self⟩)
    dsimp only
    rw [hinstalled.resolution_eq hid hresolved]
    exact ⟨_, _, rfl, hinstalled⟩

/-- Resolving a grammar of the three within a run. -/
theorem resolve_triple {E : Failure → Run → Prop} (hid : id ∈ ids) :
    RunM.Triple (fun r => Installed r.store) (RunM.resolve (.grammar id))
      (fun resolution r => resolution = resolved id ∧ Installed r.store) E := by
  intro r hr
  obtain ⟨s', events, hok, hinstalled⟩ := resolve_installed hr hid
  unfold RunM.resolve
  simp only [EStateM.run_bind, EStateM.run_get, hok]
  exact ⟨rfl, hinstalled⟩

end Css
end Highlight
