/-
# Resolving ahead

A grammar may be resolved long before it is needed, because another one that leads to it is.
Then its resolution is kept until it is asked for.  A store in which that has happened is
*ahead* of the one that it was (`Store.Ahead`): it has more resolutions, each is what its
grammar resolves to, and the grammars that have them lead to none that has not.

Resolving a grammar now gives the same in both stores, also where it fails, and leaves the one
ahead of the other (`Ahead.resolve_ok`, `Ahead.resolve_error`).  That is no matter of what can
be reached only, because the first defect decides which failure it is.  So the two worklists
are followed side by side (`Explores.ahead`):

| the next number is          | behind                         | ahead                      |
|-----------------------------|--------------------------------|----------------------------|
| resolved in both stores     | takes its resolution           | takes the same resolution  |
| resolved ahead only         | resolves it, and looks further | takes the same resolution  |
| resolved in neither         | resolves it, and looks further | does the same              |

What the store behind looks at further in the second row is resolved ahead.  Such numbers are
pending behind only (`Thins`), and no defect can be found there.
-/

import Highlight.Proofs.Store.Worklist

namespace Highlight
namespace Store

variable {s s' t t' : Store} {id next : GrammarId} {r r' : Resolution}
  {found found' : List (GrammarId × Resolution)} {pending pending' : List GrammarId}

/-! ### Rounds -/

section Rounds

variable {outcome outcome' : Except Failure (List (GrammarId × Resolution))} {g : Grammar}
  {e : Failure}

/-- A number that has been looked at is skipped. -/
theorem explores_skip_iff (hid : (found.lookup id).isSome = true) :
    s.Explores found (id :: pending) outcome ↔ s.Explores found pending outcome := by
  refine ⟨fun h => ?_, .skip hid⟩
  cases h <;> grind

/-- A resolution that there is is taken. -/
theorem explores_cached_iff (hid : found.lookup id = none) (hget : s.get? id = some g)
    (hr : g.resolution = some r) :
    s.Explores found (id :: pending) outcome ↔
      s.Explores (found ++ [(id, r)]) pending outcome := by
  refine ⟨fun h => ?_, .cached hid hget hr⟩
  cases h <;> grind

/-- A grammar that does not resolve ends the search. -/
theorem explores_failed_iff (hid : found.lookup id = none) (hget : s.get? id = some g)
    (hr : g.resolution = none) (hone : s.resolveOne g = .error e) :
    s.Explores found (id :: pending) outcome ↔ outcome = .error e := by
  refine ⟨fun h => ?_, fun h => h ▸ .failed hid hget hr hone⟩
  cases h <;> grind

/-- A grammar that resolves is taken, and the search goes on where it leads. -/
theorem explores_fresh_iff (hid : found.lookup id = none) (hget : s.get? id = some g)
    (hr : g.resolution = none) (hone : s.resolveOne g = .ok r) :
    s.Explores found (id :: pending) outcome ↔
      s.Explores (found ++ [(id, r)]) (successors g r ++ pending) outcome := by
  refine ⟨fun h => ?_, .fresh hid hget hr hone⟩
  cases h <;> grind

/-- The worklist comes to one outcome only. -/
theorem Explores.eq (h : s.Explores found pending outcome)
    (h' : s.Explores found pending outcome') : outcome = outcome' := by
  induction h with
  | done found =>
    cases h'
    rfl
  | skip hid _ ih => exact ih ((explores_skip_iff hid).mp h')
  | cached hid hget hr _ ih => exact ih ((explores_cached_iff hid hget hr).mp h')
  | failed hid hget hr hone => exact ((explores_failed_iff hid hget hr hone).mp h').symm
  | fresh hid hget hr hone _ ih => exact ih ((explores_fresh_iff hid hget hr hone).mp h')

end Rounds

/-! ### Stores that are ahead -/

/-- A store has more resolutions than another one: those that their grammars resolve to, and
of grammars that lead to none without. -/
structure Ahead (s s' : Store) : Prop where
  grows : s.Extends s'
  yields : ∀ {id r}, s.cached id = none → s'.cached id = some r → s.Yields id r
  leads : ∀ {id next}, s.cached id = none → s'.isResolved id = true → s.Leads id next →
    s'.isResolved next = true

theorem Ahead.refl (s : Store) : s.Ahead s where
  grows := .refl s
  yields := fun hnone hr => by
    rw [hnone] at hr
    cases hr
  leads := fun hnone hid => by
    rw [isResolved_eq_false_iff.mpr hnone] at hid
    cases hid

theorem cached_of_get? {g : Grammar} (hget : s.get? id = some g) : s.cached id = g.resolution := by
  rw [cached, hget, Option.bind_some]

/-- What the store ahead yields is what the store behind does. -/
theorem Ahead.yields' (h : s.Ahead s') (hnone : s.cached id = none)
    (hr : s'.cached id = some r ∨ s'.Yields id r) : s.Yields id r :=
  hr.elim (h.yields hnone) h.grows.yields_iff.mp

/-- A grammar that has no resolution ahead is there as it is behind. -/
theorem Ahead.get?_of_not_isResolved (h : s.Ahead s') {g : Grammar} (hget : s.get? id = some g)
    (hid : s'.isResolved id = false) :
    ∃ g', s'.get? id = some g' ∧ g'.resolution = none ∧ s'.resolveOne g' = s.resolveOne g ∧
      ∀ r, successors g' r = successors g r := by
  obtain ⟨g', hget', hfills⟩ := h.grows.get? hget
  have hr' := (cached_of_get? hget').symm.trans (isResolved_eq_false_iff.mp hid)
  refine ⟨g', hget', hr', h.grows.resolveOne_eq hfills, fun r => ?_⟩
  rw [successors, successors, hfills.rest]

/-! ### Two worklists -/

/-- What is pending in the store behind is pending in the one ahead, in the same order, but for
numbers that have resolutions there. -/
inductive Thins (s' : Store) : List GrammarId → List GrammarId → Prop where
  | nil : Thins s' [] []
  | keep (id : GrammarId) {pending pending' : List GrammarId} (h : Thins s' pending pending') :
    Thins s' (id :: pending) (id :: pending')
  | drop {id : GrammarId} {pending pending' : List GrammarId} (hid : s'.isResolved id = true)
    (h : Thins s' pending pending') : Thins s' (id :: pending) pending'

theorem Thins.drop_append (h : Thins s' pending pending') {more : List GrammarId}
    (hmore : ∀ id ∈ more, s'.isResolved id = true) : Thins s' (more ++ pending) pending' := by
  induction more with
  | nil => exact h
  | cons id more ih =>
    exact .drop (hmore id List.mem_cons_self)
      (ih fun id hid => hmore id (List.mem_cons_of_mem _ hid))

theorem Thins.keep_append (h : Thins s' pending pending') (more : List GrammarId) :
    Thins s' (more ++ pending) (more ++ pending') := by
  induction more with
  | nil => exact h
  | cons id more ih => exact .keep id ih

/-- What has been looked at in the store ahead has been looked at in the one behind; and what
has been there has been here, or has a resolution. -/
structure Trails (s' : Store) (found found' : List (GrammarId × Resolution)) : Prop where
  mem : ∀ id ∈ found'.map Prod.fst, id ∈ found.map Prod.fst
  mem_or : ∀ id ∈ found.map Prod.fst, id ∈ found'.map Prod.fst ∨ s'.isResolved id = true

namespace Trails

theorem nil (s' : Store) : Trails s' [] [] :=
  ⟨nofun, nofun⟩

theorem mem_append : id ∈ (found ++ [(next, r)]).map Prod.fst ↔
    id ∈ found.map Prod.fst ∨ id = next := by
  simp

/-- A number that is new behind is new ahead. -/
theorem lookup_eq_none (h : Trails s' found found') (hid : found.lookup id = none) :
    found'.lookup id = none :=
  Store.lookup_eq_none.mpr fun hmem => Store.lookup_eq_none.mp hid (h.mem id hmem)

/-- Both stores look at a number. -/
theorem both (h : Trails s' found found') :
    Trails s' (found ++ [(id, r)]) (found' ++ [(id, r')]) where
  mem := fun other hother => by
    rw [mem_append] at hother ⊢
    exact hother.imp_left (h.mem other)
  mem_or := fun other hother => by
    rw [mem_append] at hother ⊢
    rcases hother with hother | rfl
    · exact (h.mem_or other hother).imp_left Or.inl
    · exact Or.inl (Or.inr rfl)

/-- Only the store behind looks at a number, which is resolved ahead. -/
theorem behind (h : Trails s' found found') (hid : s'.isResolved id = true) :
    Trails s' (found ++ [(id, r)]) found' where
  mem := fun other hother => mem_append.mpr (Or.inl (h.mem other hother))
  mem_or := fun other hother => by
    rcases mem_append.mp hother with hother | rfl
    · exact h.mem_or other hother
    · exact Or.inr hid

/-- Only the store ahead looks at a number, which has been looked at behind. -/
theorem ahead (h : Trails s' found found') (hid : id ∈ found.map Prod.fst) :
    Trails s' found (found' ++ [(id, r)]) where
  mem := fun other hother => by
    rcases mem_append.mp hother with hother | rfl
    · exact h.mem other hother
    · exact hid
  mem_or := fun other hother => (h.mem_or other hother).imp_left fun hmem =>
    mem_append.mpr (Or.inl hmem)

end Trails

/-- Two outcomes are alike: the same failure, or the one trails the other. -/
inductive Outcomes (s' : Store) : Except Failure (List (GrammarId × Resolution)) →
    Except Failure (List (GrammarId × Resolution)) → Prop where
  | ok {found found' : List (GrammarId × Resolution)} (h : Trails s' found found') :
    Outcomes s' (.ok found) (.ok found')
  | error (e : Failure) : Outcomes s' (.error e) (.error e)

/-- A number that has a resolution ahead is taken as it is. -/
theorem Explores.of_resolved (hid : s'.isResolved id = true) (hnew : found'.lookup id = none) :
    ∃ r, ∀ outcome, s'.Explores (found' ++ [(id, r)]) pending' outcome →
      s'.Explores found' (id :: pending') outcome := by
  obtain ⟨r, hr⟩ := Option.isSome_iff_exists.mp hid
  obtain ⟨g, hget, hg⟩ := Option.bind_eq_some_iff.mp hr
  exact ⟨r, fun _ hmore => .cached hnew hget hg hmore⟩

/-- What leads ahead to a resolution is not what the worklist fails at. -/
theorem Ahead.not_isResolved (h : s.Ahead s') {g : Grammar} {e : Failure}
    (hget : s.get? id = some g) (hr : g.resolution = none) (hone : s.resolveOne g = .error e) :
    s'.isResolved id = false := by
  by_contra hid
  rw [Bool.not_eq_false] at hid
  obtain ⟨r, hr'⟩ := Option.isSome_iff_exists.mp hid
  obtain ⟨g', hget', hone'⟩ := h.yields ((cached_of_get? hget).trans hr) hr'
  cases hget.symm.trans hget'
  cases hone.symm.trans hone'

/-- Where a new resolution ahead leads, there are resolutions, too. -/
theorem Ahead.isResolved_successors (h : s.Ahead s') {g : Grammar} (hget : s.get? id = some g)
    (hr : g.resolution = none) (hone : s.resolveOne g = .ok r) (hid : s'.isResolved id = true) :
    ∀ next ∈ successors g r, s'.isResolved next = true := fun _ hnext =>
  h.leads ((cached_of_get? hget).trans hr) hid ⟨g, hget, (mem_successors hone).mp hnext⟩

/-- **The worklist of the store ahead comes to the same outcome**, or looks at less. -/
theorem Explores.ahead (hahead : s.Ahead s')
    {outcome : Except Failure (List (GrammarId × Resolution))}
    (h : s.Explores found pending outcome) (hthins : Thins s' pending pending')
    (htrails : Trails s' found found') :
    ∃ outcome', s'.Explores found' pending' outcome' ∧ Outcomes s' outcome outcome' := by
  -- By induction on the rounds of the store behind.
  induction h generalizing found' pending' with
  | done found =>
    cases hthins
    exact ⟨_, .done found', .ok htrails⟩
  | @skip found id pending _ hid _ ih =>
    have hid := isSome_lookup.mp hid
    cases hthins with
    | drop _ hthins => exact ih hthins htrails
    | keep _ hthins =>
      by_cases hid' : id ∈ found'.map Prod.fst
      · exact (ih hthins htrails).imp fun _ => And.imp_left (.skip (isSome_lookup.mpr hid'))
      · have hresolved := (htrails.mem_or id hid).resolve_left hid'
        obtain ⟨r, hstep⟩ := of_resolved hresolved (lookup_eq_none.mpr hid')
        exact (ih hthins (htrails.ahead hid)).imp fun outcome' => And.imp_left (hstep outcome')
  | @cached found id pending _ g r hid hget hr _ ih =>
    have hresolved : s'.isResolved id = true :=
      Option.isSome_iff_exists.mpr ⟨r, hahead.grows.cached ((cached_of_get? hget).trans hr)⟩
    cases hthins with
    | drop _ hthins => exact ih hthins (htrails.behind hresolved)
    | keep _ hthins =>
      obtain ⟨r', hstep⟩ := of_resolved hresolved (htrails.lookup_eq_none hid)
      exact (ih hthins htrails.both).imp fun outcome' => And.imp_left (hstep outcome')
  | @failed found id pending g e hid hget hr hone =>
    have hunresolved := hahead.not_isResolved hget hr hone
    cases hthins with
    | drop hresolved _ =>
      rw [hunresolved] at hresolved
      cases hresolved
    | keep _ hthins =>
      have hid' := htrails.lookup_eq_none hid
      obtain ⟨g', hget', hr', hone', -⟩ := hahead.get?_of_not_isResolved hget hunresolved
      exact ⟨_, .failed hid' hget' hr' (hone'.trans hone), .error e⟩
  | @fresh found id pending _ g r hid hget hr hone _ ih =>
    have hdrops := hahead.isResolved_successors hget hr hone
    cases hthins with
    | drop hresolved hthins =>
      exact ih (hthins.drop_append (hdrops hresolved)) (htrails.behind hresolved)
    | keep _ hthins =>
      have hid' := htrails.lookup_eq_none hid
      by_cases hresolved : s'.isResolved id = true
      · obtain ⟨r', hstep⟩ := of_resolved hresolved hid'
        exact (ih (hthins.drop_append (hdrops hresolved)) htrails.both).imp fun outcome' =>
          And.imp_left (hstep outcome')
      · rw [Bool.not_eq_true] at hresolved
        obtain ⟨g', hget', hr', hone', hsuccessors⟩ :=
          hahead.get?_of_not_isResolved hget hresolved
        rw [← hsuccessors] at ih
        exact (ih (hthins.keep_append (Store.successors g' r)) htrails.both).imp fun _ =>
          And.imp_left (.fresh hid' hget' hr' (hone'.trans hone))

/-! ### Resolving -/

/-- Stores that hold the grammars of one store, and of which one has all resolutions of the
other. -/
theorem Extends.of_cached (h : s.Extends t) (h' : s.Extends t')
    (hkeeps : ∀ id r, t.cached id = some r → t'.cached id = some r) : t.Extends t' := by
  intro id
  cases hget : t.get? id with
  | none =>
    cases hget' : t'.get? id with
    | none => exact .none
    | some g' =>
      obtain ⟨g, hs, -⟩ := h'.get?' hget'
      obtain ⟨_, hsome, -⟩ := h.get? hs
      cases hget.symm.trans hsome
  | some g =>
    obtain ⟨g₀, hs, hfills⟩ := h.get?' hget
    obtain ⟨g', hget', hfills'⟩ := h'.get? hs
    rw [hget']
    refine .some ⟨?_, ?_, ?_, fun r hr => ?_⟩
    · rw [hfills.entries, hfills'.entries]
    · rw [hfills.rest, hfills'.rest]
    · rw [hfills.name, hfills'.name]
    · rw [← cached_of_get? hget']
      exact hkeeps id r ((cached_of_get? hget).trans hr)

/-- What has no resolution has had none before. -/
theorem Extends.cached_eq_none (h : s.Extends t) (hnone : t.cached id = none) :
    s.cached id = none := by
  by_contra hsome
  obtain ⟨r, hr⟩ := Option.ne_none_iff_exists'.mp hsome
  rw [h.cached hr] at hnone
  cases hnone

/-- What a worklist can be published for: it names grammars of the store, and has their
resolutions. -/
structure Publishes (s : Store) (found : List (GrammarId × Resolution)) : Prop where
  get? : ∀ e ∈ found, (s.get? e.1).isSome = true
  yields : ∀ e ∈ found, s.cached e.1 = some e.2 ∨ s.Yields e.1 e.2

theorem Publishes.nil (s : Store) : s.Publishes [] where
  get? := fun _ he => absurd he List.not_mem_nil
  yields := fun _ he => absurd he List.not_mem_nil

theorem Publishes.isResolved (h : s.Publishes found) (hid : id ∈ found.map Prod.fst) :
    (s.publishAll found).1.isResolved id = true := by
  obtain ⟨e, he, rfl⟩ := List.mem_map.mp hid
  exact isResolved_publishAll h.get? e he

/-- What is new after publishing is what the grammar resolves to. -/
theorem Publishes.yields_of_cached (h : s.Publishes found)
    (hr : (s.publishAll found).1.cached id = some r) : s.cached id = some r ∨ s.Yields id r :=
  (cached_publishAll hr).elim Or.inl fun hmem => h.yields _ hmem

/-- **Publishing leaves the one store ahead of the other**, if the worklist behind has looked
at all that the other one has. -/
theorem Ahead.publishAll (h : s.Ahead s') (hpublishes : s.Publishes found)
    (hpublishes' : s'.Publishes found') (htrails : Trails s' found found') :
    (s.publishAll found).1.Ahead (s'.publishAll found').1 := by
  have hgrows := publishAll_extends s found
  have hgrows' := publishAll_extends s' found'
  have hfrom := h.grows.trans hgrows'
  -- What only the store ahead has after publishing, it has had before.
  have hbefore {id : GrammarId} {r : Resolution} (hid : (s.publishAll found).1.cached id = none)
      (hr : (s'.publishAll found').1.cached id = some r) : s'.cached id = some r := by
    refine (cached_publishAll hr).resolve_right fun hmem => ?_
    have hresolved := hpublishes.isResolved (htrails.mem id (List.mem_map_of_mem hmem))
    rw [isResolved_eq_false_iff.mpr hid] at hresolved
    cases hresolved
  constructor
  · refine hgrows.of_cached hfrom fun id r hr => ?_
    by_cases hsome : s.cached id = none
    · have hyields := (hpublishes.yields_of_cached hr).resolve_left (by simp [hsome])
      have hmem := List.mem_map_of_mem (f := Prod.fst)
        ((cached_publishAll hr).resolve_left (by simp [hsome]))
      have hresolved : (s'.publishAll found').1.isResolved id = true :=
        (htrails.mem_or id hmem).elim hpublishes'.isResolved hgrows'.isResolved
      obtain ⟨r', hr'⟩ := Option.isSome_iff_exists.mp hresolved
      rw [hyields.eq (h.yields' hsome (hpublishes'.yields_of_cached hr'))]
      exact hr'
    · obtain ⟨r₀, hr₀⟩ := Option.ne_none_iff_exists'.mp hsome
      have heq := (hgrows.cached hr₀).symm.trans hr
      exact (hfrom.cached hr₀).trans heq
  · intro id r hid hr
    exact hgrows.yields_iff.mpr (h.yields (hgrows.cached_eq_none hid) (hbefore hid hr))
  · intro id next hid hresolved hlead
    obtain ⟨r, hr⟩ := Option.isSome_iff_exists.mp hresolved
    have hresolved : s'.isResolved id = true := Option.isSome_iff_exists.mpr ⟨r, hbefore hid hr⟩
    exact hgrows'.isResolved
      (h.leads (hgrows.cached_eq_none hid) hresolved (hgrows.leads_iff.mp hlead))

/-- What the worklist finds can be published. -/
theorem publishes_of_explore (hlinked : s.Linked) (hid : id < s.grammars.size)
    (h : s.explore (s.grammars.size + 1) [] [id] = .ok found) : s.Publishes found := by
  obtain ⟨-, fuel, hend⟩ := explore_rooted hlinked hid h
  refine ⟨fun e he => ?_, explore_found h⟩
  obtain ⟨g, hget⟩ := exists_get?_of_lt (hend.found_lt e.1 (List.mem_map_of_mem he))
  rw [hget]
  rfl

/-- Resolving a grammar leaves a store that is ahead. -/
theorem ahead_of_resolve (hlinked : s.Linked) {ref : Ref} {events : List Event}
    (h : s.resolve ref = .ok (r, t, events)) : s.Ahead t := by
  have hgrows := resolve_extends h
  obtain ⟨id, rfl, hcached, rfl | ⟨hnone, found, hexplore, rfl⟩⟩ := resolve_cases h
  · exact .refl _
  · have hid : id < s.grammars.size := by
      obtain ⟨g', hget', -⟩ := Option.bind_eq_some_iff.mp hcached
      obtain ⟨g, hget, -⟩ := hgrows.get?' hget'
      exact lt_of_get? hget
    have hpublishes := publishes_of_explore hlinked hid hexplore
    obtain ⟨-, fuel, hend⟩ := explore_rooted hlinked hid hexplore
    refine ⟨hgrows, fun hnone hr => ?_, fun hnone hresolved hlead => ?_⟩
    · exact (hpublishes.yields_of_cached hr).resolve_left (by simp [hnone])
    · obtain ⟨r, hr⟩ := Option.isSome_iff_exists.mp hresolved
      have hmem := (cached_publishAll hr).resolve_left (by simp [hnone])
      have hnext := hend.leads _ (List.mem_map_of_mem hmem) (isResolved_eq_false_iff.mpr hnone)
        _ hlead
      exact hpublishes.isResolved (hnext.resolve_right List.not_mem_nil)

/-- There is nothing to resolve a number to that is not in the store. -/
theorem resolve_absent (h : s.get? id = none) :
    s.resolve (.grammar id) = .error (.invalidGrammar none (.notGrammar .nothing)) := by
  have hexplore (fuel : Nat) : s.explore (fuel + 1) [] [id] = .ok [] := by
    have hdone : s.explore fuel [] [] = .ok [] := by cases fuel <;> rfl
    rw [explore, List.dropWhile_cons, List.lookup_nil]
    dsimp only [Option.isSome_none]
    rw [if_neg Bool.false_ne_true]
    dsimp only
    rw [h]
    exact hdone
  rw [resolve, h, Option.bind_none, hexplore]
  dsimp only [publishAll]
  rw [h]
  rfl

theorem resolve_of_explore_error (hnone : s.cached id = none) {e : Failure}
    (h : s.explore (s.grammars.size + 1) [] [id] = .error e) :
    s.resolve (.grammar id) = .error e := by
  unfold cached at hnone
  rw [resolve, hnone, h]

/-- The worklist that is started for a number. -/
theorem explores_root (hlinked : s.Linked) (hid : id < s.grammars.size) :
    s.Explores [] [id] (s.explore (s.grammars.size + 1) [] [id]) :=
  explores_explore hlinked (.start hid (Nat.lt_succ_self _))

/-- **A grammar that does not resolve does not resolve ahead**, for the same defect. -/
theorem Ahead.resolve_error (h : s.Ahead s') (hlinked : s.Linked) {ref : Ref} {e : Failure}
    (herror : s.resolve ref = .error e) : s'.resolve ref = .error e := by
  cases ref with
  | other kind => exact herror
  | grammar id =>
    cases hget : s.get? id with
    | none =>
      have hget' : s'.get? id = none := by
        by_contra hsome
        obtain ⟨g', hget'⟩ := Option.ne_none_iff_exists'.mp hsome
        obtain ⟨g, hsome, -⟩ := h.grows.get?' hget'
        cases hget.symm.trans hsome
      rw [resolve_absent hget] at herror
      rw [resolve_absent hget', ← herror]
    | some g =>
      have hid := lt_of_get? hget
      have hnone : s.cached id = none := by
        by_contra hsome
        obtain ⟨r, hr⟩ := Option.ne_none_iff_exists'.mp hsome
        rw [resolve_of_cached hr] at herror
        cases herror
      have hexplores := explores_root hlinked hid
      cases hexplore : s.explore (s.grammars.size + 1) [] [id] with
      | ok found =>
        obtain ⟨r, events, hok⟩ := resolve_of_explore hlinked hid hnone hexplore
        cases herror.symm.trans hok
      | error e' =>
        cases herror.symm.trans (resolve_of_explore_error hnone hexplore)
        rw [hexplore] at hexplores
        obtain ⟨_, hexplores', ⟨⟩⟩ := hexplores.ahead h (.keep id .nil) (.nil s')
        have hlinked' := h.grows.linked hlinked
        have hid' : id < s'.grammars.size := h.grows.size_eq ▸ hid
        cases hcached' : s'.cached id with
        | some r =>
          obtain ⟨g', hget', hr⟩ := Option.bind_eq_some_iff.mp hcached'
          cases hexplores'.eq (.cached rfl hget' hr (.done _))
        | none =>
          have hexplore' := (explores_root hlinked' hid').eq hexplores'
          exact resolve_of_explore_error hcached' hexplore'

/-- **A grammar that resolves resolves to the same ahead**, and the store goes on to be
ahead. -/
theorem Ahead.resolve_ok (h : s.Ahead s') (hlinked : s.Linked) {ref : Ref}
    {events : List Event} (hok : s.resolve ref = .ok (r, t, events)) :
    ∃ t' events', s'.resolve ref = .ok (r, t', events') ∧ t.Ahead t' := by
  obtain ⟨id, rfl, hr, rfl | ⟨hnone, found, hexplore, rfl⟩⟩ := resolve_cases hok
  · exact ⟨s', [], resolve_of_cached (h.grows.cached hr), h⟩
  · have hid : id < s.grammars.size := by
      by_contra hge
      rw [resolve_absent (Array.getElem?_eq_none (Nat.le_of_not_lt hge))] at hok
      cases hok
    have hpublishes := publishes_of_explore hlinked hid hexplore
    have hexplores := explores_root hlinked hid
    rw [hexplore] at hexplores
    cases hcached' : s'.cached id with
    | some r' =>
      -- The number is not pending in the store ahead, where nothing is to be done.
      have hresolved : s'.isResolved id = true := Option.isSome_iff_exists.mpr ⟨r', hcached'⟩
      obtain ⟨_, hexplores', halike⟩ := hexplores.ahead h (.drop hresolved .nil) (.nil s')
      cases hexplores'
      cases halike with
      | ok htrails =>
        have hahead : (s.publishAll found).1.Ahead s' :=
          h.publishAll hpublishes (.nil s') htrails
        exact ⟨s', [], resolve_of_cached (hahead.grows.cached hr), hahead⟩
    | none =>
      have hlinked' := h.grows.linked hlinked
      have hid' : id < s'.grammars.size := h.grows.size_eq ▸ hid
      obtain ⟨_, hexplores', halike⟩ := hexplores.ahead h (.keep id .nil) (.nil s')
      have hexplore' := (explores_root hlinked' hid').eq hexplores'
      cases halike with
      | @ok _ found' htrails =>
        have hpublishes' := publishes_of_explore hlinked' hid' hexplore'
        have hahead := h.publishAll hpublishes hpublishes' htrails
        obtain ⟨r', events', hok'⟩ := resolve_of_explore hlinked' hid' hcached' hexplore'
        obtain ⟨_, ⟨⟩, hr', -⟩ := resolve_cases hok'
        cases (hahead.grows.cached hr).symm.trans hr'
        exact ⟨_, events', hok', hahead⟩

end Store
end Highlight
