/-
# Where grammars lead

A grammar leads to its fallback, and to the grammars that cut the matches of its
rules further, those of the rules that its fallback contributes included
(`Store.Leads`).  A store is *linked* if every grammar that is named in it is
there, and *closed* if a grammar that has a resolution leads to none that has
not, so that everything that can be reached from it is resolved
(`Closed.reaches`).

Resolving a grammar leaves a closed store closed (`Closed.resolve`).  What the
worklist has looked at leads to what it has looked at or is still to look at
(`Exploring`), and it does not stop before that is nothing: it looks at no number
twice, so there are enough rounds.
-/

import Highlight.Proofs.Store.Resolutions
import Mathlib.Data.List.Nodup
import Mathlib.Data.List.Perm.Subperm

namespace Highlight

/-! ### The grammars that are named -/

/-- The number of the grammar that is referred to, if it is one. -/
def Ref.id? : Ref → Option GrammarId
  | .grammar id => some id
  | .other _ => none

/-- The grammar that cuts the matches of an alternative further. -/
def Alternative.inside? : Alternative → Option GrammarId
  | .rule r => r.inside.bind Ref.id?
  | _ => none

/-- The alternatives of a declaration, in order. -/
def Declaration.alternatives : Declaration → List Alternative
  | .single alternative => [alternative]
  | .several alternatives => alternatives

/-- The grammars that declarations name, in order. -/
def Entries.insides (es : Entries) : List GrammarId :=
  es.flatMap fun entry => entry.2.alternatives.filterMap (·.inside?)

/-- The grammars that a grammar names. -/
def Grammar.names (g : Grammar) : List GrammarId :=
  Entries.insides g.entries ++ (g.rest.bind Ref.id?).toList

namespace Entries

variable {id : GrammarId} {type : String} {d : Declaration} {es own fallback : Entries}

theorem insides_cons (entry : String × Declaration) (es : Entries) :
    insides (entry :: es) = entry.2.alternatives.filterMap (·.inside?) ++ insides es :=
  List.flatMap_cons

theorem mem_insides_put (h : id ∈ insides (put type d es)) :
    id ∈ d.alternatives.filterMap (·.inside?) ∨ id ∈ insides es := by
  induction es with
  | nil =>
    rw [put, insides_cons, List.mem_append] at h
    exact h
  | cons entry es ih =>
    rw [put] at h
    split at h
    · rw [insides_cons, List.mem_append] at h
      rw [insides_cons, List.mem_append]
      exact h.imp_right Or.inr
    · rw [insides_cons, List.mem_append] at h
      rw [insides_cons, List.mem_append]
      rcases h with h | h
      · exact Or.inr (Or.inl h)
      · exact (ih h).imp_right Or.inr

/-- Merged entries name what they named apart. -/
theorem mem_insides_merge (h : id ∈ insides (merge own fallback)) :
    id ∈ insides own ∨ id ∈ insides fallback := by
  induction fallback generalizing own with
  | nil => exact Or.inl h
  | cons entry fallback ih =>
    rw [insides_cons, List.mem_append]
    have h : id ∈ insides (merge (put entry.1 entry.2 own) fallback) := h
    rcases ih h with h | h
    · exact (mem_insides_put h).symm.imp_right Or.inl
    · exact Or.inr (Or.inr h)

end Entries

/-! ### Compiled rules lead where the declared ones do -/

section Compile

variable {α β γ : Type} {type : String}

/-- What comes of a check and another one after it, each of them has let
through. -/
theorem exists_of_bind_eq_ok {x : Except Failure α} {f : α → Except Failure β} {b : β}
    (h : x >>= f = .ok b) : ∃ a, x = .ok a ∧ f a = .ok b := by
  cases x with
  | error e => cases h
  | ok a => exact ⟨a, rfl, h⟩

/-- What each value tells of its image, all of them tell of theirs. -/
theorem map_eq_of_mapM {f : α → Except Failure β} {p : β → γ} {q : α → γ}
    (hf : ∀ a b, f a = .ok b → p b = q a) {as : List α} {bs : List β}
    (h : as.mapM f = .ok bs) : bs.map p = as.map q := by
  induction as generalizing bs with
  | nil =>
    cases h
    rfl
  | cons a as ih =>
    rw [List.mapM_cons] at h
    obtain ⟨b, hb, h⟩ := exists_of_bind_eq_ok h
    obtain ⟨bs', hbs, h⟩ := exists_of_bind_eq_ok h
    cases h
    rw [List.map_cons, List.map_cons, hf a b hb, ih hbs]

theorem Rule.inside_compile {r : Rule Operand Ref} {c : CompiledRule}
    (h : r.compile type = .ok c) : c.inside = r.inside.bind Ref.id? := by
  obtain ⟨pattern, -, h⟩ := exists_of_bind_eq_ok h
  dsimp only at h
  split at h
  · cases h
  · split at h
    · rename_i hinside
      cases h
      rw [hinside]
      rfl
    · rename_i hinside
      cases h
      rw [hinside]
      rfl
    · cases h

theorem Alternative.inside_compile {a : Alternative} {c : CompiledRule}
    (h : a.compile type = .ok c) : c.inside = a.inside? := by
  cases a with
  | pattern e => exact Rule.inside_compile h
  | rule r => exact Rule.inside_compile h
  | other kind => cases h

theorem Declaration.insides_compile {d : Declaration} {cs : List CompiledRule}
    (h : d.compile type = .ok cs) :
    cs.filterMap (·.inside) = d.alternatives.filterMap (·.inside?) := by
  unfold Declaration.compile at h
  split at h
  · cases h
  · obtain ⟨c, hc, h⟩ := exists_of_bind_eq_ok h
    cases h
    simp [alternatives, Alternative.inside_compile hc, List.filterMap_cons]
  · have hmap := map_eq_of_mapM (fun _ _ => Alternative.inside_compile) h
    have hinsides := congrArg (List.filterMap id) hmap
    rwa [List.filterMap_map, List.filterMap_map] at hinsides

theorem Entries.insides_compile {es : Entries} {entries : List (String × List CompiledRule)}
    (h : es.compile = .ok entries) :
    (entries.flatMap fun entry => entry.2.filterMap (·.inside)) = es.insides := by
  rw [insides, List.flatMap_def, List.flatMap_def]
  refine congrArg List.flatten (map_eq_of_mapM (fun entry compiled hentry => ?_) h)
  obtain ⟨rules, hrules, hentry⟩ := exists_of_bind_eq_ok hentry
  cases hentry
  exact Declaration.insides_compile hrules

end Compile

namespace Store

variable {s s' : Store} {id next : GrammarId} {g g' : Grammar} {r : Resolution}

/-! ### Leading -/

/-- The entries of a grammar, overridden and extended by those of its fallback. -/
def merged (s : Store) (g : Grammar) : Entries :=
  Entries.merge g.entries ((s.fallbackEntries g.rest).toOption.getD [])

/-- The grammars that a grammar leads to. -/
def links (s : Store) (g : Grammar) : List GrammarId :=
  (s.merged g).insides ++ (g.rest.bind Ref.id?).toList

/-- A grammar of a store leads to another one. -/
def Leads (s : Store) (id next : GrammarId) : Prop :=
  ∃ g, s.get? id = some g ∧ next ∈ s.links g

/-- Every grammar that is named in a store is there. -/
def Linked (s : Store) : Prop :=
  ∀ id g, s.get? id = some g → ∀ next ∈ g.names, next < s.grammars.size

/-- A grammar that has a resolution leads to none that has not. -/
def Closed (s : Store) : Prop :=
  ∀ id next, s.isResolved id = true → s.Leads id next → s.isResolved next = true

/-- What can be reached from a grammar that has a resolution has one, too. -/
theorem Closed.reaches (h : s.Closed) (hid : s.isResolved id = true)
    (hnext : Relation.ReflTransGen s.Leads id next) : s.isResolved next = true := by
  induction hnext with
  | refl => exact hid
  | tail _ hlast ih => exact h _ _ ih hlast

/-- The successors of a grammar that resolves are those that it leads to. -/
theorem mem_successors (h : s.resolveOne g = .ok r) :
    next ∈ successors g r ↔ next ∈ s.links g := by
  obtain ⟨fallback, hfallback, h⟩ := exists_of_bind_eq_ok h
  obtain ⟨entries, hentries, h⟩ := exists_of_bind_eq_ok h
  cases h
  have hinsides : Resolution.insides ⟨entries, g.name⟩ = (s.merged g).insides := by
    rw [merged, hfallback]
    exact Entries.insides_compile hentries
  rw [successors, links, hinsides, List.mem_append, List.mem_append, List.mem_reverse]
  refine or_congr_right ?_
  cases g.rest with
  | none => rfl
  | some ref => cases ref <;> rfl

theorem links_congr (h : s.declared = s'.declared) (hentries : g.entries = g'.entries)
    (hrest : g.rest = g'.rest) : s.links g = s'.links g' := by
  rw [links, links, merged, merged, fallbackEntries_congr h, hentries, hrest]

/-- In a linked store, grammars lead to grammars of the store. -/
theorem Linked.lt_of_leads (h : s.Linked) (hlead : s.Leads id next) :
    next < s.grammars.size := by
  obtain ⟨g, hget, hnext⟩ := hlead
  rcases List.mem_append.mp hnext with hnext | hnext
  · rcases Entries.mem_insides_merge hnext with hnext | hnext
    · exact h id g hget next (List.mem_append_left _ hnext)
    · cases hrest : g.rest with
      | none =>
        rw [hrest] at hnext
        cases hnext
      | some ref =>
        rw [hrest] at hnext
        cases ref with
        | other kind => cases hnext
        | grammar fallback =>
          cases hfallback : s.get? fallback with
          | none =>
            rw [fallbackEntries, hfallback] at hnext
            cases hnext
          | some g' =>
            rw [fallbackEntries, hfallback] at hnext
            exact h fallback g' hfallback next (List.mem_append_left _ hnext)
  · exact h id g hget next (List.mem_append_right _ hnext)

theorem exists_get?_of_lt (h : id < s.grammars.size) : ∃ g, s.get? id = some g :=
  ⟨s.grammars[id], Array.getElem?_eq_getElem h⟩

theorem lt_of_get? (h : s.get? id = some g) : id < s.grammars.size :=
  (Array.getElem?_eq_some_iff.mp h).1

/-- A store that has more resolutions has no more grammars, and no fewer. -/
theorem Extends.size_eq (h : s.Extends s') : s'.grammars.size = s.grammars.size := by
  refine Nat.le_antisymm (Nat.le_of_not_lt fun hlt => ?_) (Nat.le_of_not_lt fun hlt => ?_)
  · obtain ⟨g', hget'⟩ := exists_get?_of_lt hlt
    obtain ⟨g, hget, -⟩ := h.get?' hget'
    exact Nat.lt_irrefl _ (lt_of_get? hget)
  · obtain ⟨g, hget⟩ := exists_get?_of_lt hlt
    obtain ⟨g', hget', -⟩ := h.get? hget
    exact Nat.lt_irrefl _ (lt_of_get? hget')

theorem Extends.linked (h : s.Extends s') (hlinked : s.Linked) : s'.Linked := by
  intro id g' hget' next hnext
  obtain ⟨g, hget, hfills⟩ := h.get?' hget'
  rw [h.size_eq]
  rw [Grammar.names, hfills.entries, hfills.rest] at hnext
  exact hlinked id g hget next hnext

/-- Resolving changes nothing about where grammars lead. -/
theorem Extends.leads_iff (h : s.Extends s') : s'.Leads id next ↔ s.Leads id next := by
  constructor
  · rintro ⟨g', hget', hnext⟩
    obtain ⟨g, hget, hfills⟩ := h.get?' hget'
    exact ⟨g, hget, links_congr h.declared_eq hfills.entries hfills.rest ▸ hnext⟩
  · rintro ⟨g, hget, hnext⟩
    obtain ⟨g', hget', hfills⟩ := h.get? hget
    exact ⟨g', hget', links_congr h.declared_eq hfills.entries hfills.rest ▸ hnext⟩

/-! ### The worklist -/

section Explore

variable {fuel : Nat} {found found' : List (GrammarId × Resolution)}
  {pending : List GrammarId}

/-- What is known of a worklist: it names grammars of the store, and those that
it has resolved lead to what it has looked at or is to look at; and it has looked
at no number twice, so that there are more rounds than numbers left. -/
structure Exploring (s : Store) (fuel : Nat) (found : List (GrammarId × Resolution))
    (pending : List GrammarId) : Prop where
  leads : ∀ id ∈ found.map Prod.fst, s.isResolved id = false → ∀ next, s.Leads id next →
    next ∈ found.map Prod.fst ∨ next ∈ pending
  nodup : (found.map Prod.fst).Nodup
  found_lt : ∀ id ∈ found.map Prod.fst, id < s.grammars.size
  pending_lt : ∀ id ∈ pending, id < s.grammars.size
  rounds : s.grammars.size < fuel + found.length

theorem isSome_lookup : (found.lookup id).isSome = true ↔ id ∈ found.map Prod.fst := by
  induction found with
  | nil => simp
  | cons e found ih =>
    rw [List.lookup_cons, List.map_cons, List.mem_cons]
    cases heq : id == e.1 with
    | true => simp [eq_of_beq heq]
    | false =>
      have hne : id ≠ e.1 := ne_of_beq_false heq
      simp [hne, ih]

theorem lookup_eq_none : found.lookup id = none ↔ id ∉ found.map Prod.fst := by
  rw [← isSome_lookup, Bool.not_eq_true, Option.isSome_eq_false_iff, Option.isNone_iff_eq_none]

namespace Exploring

theorem start (hid : id < s.grammars.size) (hfuel : s.grammars.size < fuel) :
    Exploring s fuel [] [id] where
  leads := fun _ h => nomatch h
  nodup := List.nodup_nil
  found_lt := fun _ h => nomatch h
  pending_lt := fun _ h => List.mem_singleton.mp h ▸ hid
  rounds := hfuel

theorem skip (h : Exploring s fuel found (id :: pending)) (hid : id ∈ found.map Prod.fst) :
    Exploring s fuel found pending where
  leads := by
    intro id' hid' hresolved next hlead
    rcases h.leads id' hid' hresolved next hlead with hnext | hnext
    · exact Or.inl hnext
    · rcases List.mem_cons.mp hnext with rfl | hnext
      · exact Or.inl hid
      · exact Or.inr hnext
  nodup := h.nodup
  found_lt := h.found_lt
  pending_lt := fun id' hid' => h.pending_lt id' (List.mem_cons_of_mem _ hid')
  rounds := h.rounds

/-- A round looks at a grammar, and puts in front those that it leads to, unless
it has a resolution. -/
theorem look (more : List GrammarId) (h : Exploring s (fuel + 1) found (id :: pending))
    (hid : id ∉ found.map Prod.fst) (hmore : s.isResolved id = false → ∀ next, s.Leads id next →
      next ∈ more) (hlt : ∀ next ∈ more, next < s.grammars.size) (r : Resolution) :
    Exploring s fuel (found ++ [(id, r)]) (more ++ pending) := by
  have hmem (other : GrammarId) :
      other ∈ (found ++ [(id, r)]).map Prod.fst ↔ other ∈ found.map Prod.fst ∨ other = id := by
    simp
  constructor
  · intro id' hid' hresolved next hlead
    rw [hmem, List.mem_append]
    rcases (hmem id').mp hid' with hid' | rfl
    · rcases h.leads id' hid' hresolved next hlead with hnext | hnext
      · exact Or.inl (Or.inl hnext)
      · rcases List.mem_cons.mp hnext with rfl | hnext
        · exact Or.inl (Or.inr rfl)
        · exact Or.inr (Or.inr hnext)
    · exact Or.inr (Or.inl (hmore hresolved next hlead))
  · rw [List.map_append]
    exact h.nodup.append (List.nodup_singleton id) (List.disjoint_singleton.mpr hid)
  · intro id' hid'
    rcases (hmem id').mp hid' with hid' | rfl
    · exact h.found_lt id' hid'
    · exact h.pending_lt id' List.mem_cons_self
  · intro id' hid'
    rcases List.mem_append.mp hid' with hid' | hid'
    · exact hlt id' hid'
    · exact h.pending_lt id' (List.mem_cons_of_mem _ hid')
  · have hrounds := h.rounds
    rw [List.length_append, List.length_singleton]
    omega

/-- A round that finds a resolution. -/
theorem cached (h : Exploring s (fuel + 1) found (id :: pending))
    (hid : id ∉ found.map Prod.fst) (hget : s.get? id = some g) (hr : g.resolution = some r) :
    Exploring s fuel (found ++ [(id, r)]) pending := by
  have hresolved : s.isResolved id = true := by
    rw [isResolved, hget, Option.bind_some, hr]
    rfl
  exact h.look [] hid (fun hnot => absurd (hresolved.symm.trans hnot) (by decide))
    (fun _ hnext => absurd hnext List.not_mem_nil) r

/-- A round that resolves a grammar. -/
theorem fresh (hlinked : s.Linked) (h : Exploring s (fuel + 1) found (id :: pending))
    (hid : id ∉ found.map Prod.fst) (hget : s.get? id = some g)
    (hone : s.resolveOne g = .ok r) :
    Exploring s fuel (found ++ [(id, r)]) (successors g r ++ pending) := by
  refine h.look _ hid (fun _ next hlead => ?_)
    (fun next hnext => hlinked.lt_of_leads ⟨g, hget, (mem_successors hone).mp hnext⟩) r
  obtain ⟨g', hget', hnext⟩ := hlead
  rw [hget] at hget'
  cases hget'
  exact (mem_successors hone).mpr hnext

/-- There are rounds left, since no number has been looked at twice. -/
theorem fuel_pos (h : Exploring s fuel found pending) : 0 < fuel := by
  have hsub : found.map Prod.fst ⊆ List.range s.grammars.size := fun id hid =>
    List.mem_range.mpr (h.found_lt id hid)
  have hle := (List.subperm_of_subset h.nodup hsub).length_le
  rw [List.length_map, List.length_range] at hle
  have hrounds := h.rounds
  omega

end Exploring

/-- **The worklist comes to its end**, and leaves nothing out that can be reached
through grammars without a resolution. -/
theorem explore_exploring (hlinked : s.Linked) (h : s.explore fuel found pending = .ok found')
    (hexploring : Exploring s fuel found pending) : ∃ fuel', Exploring s fuel' found' [] := by
  obtain ⟨fuel', pending', hend, hdone⟩ := explore_keeps (Exploring s)
    (fun _ _ _ _ hid h => h.skip (isSome_lookup.mp hid))
    (fun _ _ id _ hget h => by
      obtain ⟨g, hget'⟩ := exists_get?_of_lt (h.pending_lt id List.mem_cons_self)
      rw [hget] at hget'
      cases hget')
    (fun _ _ _ _ _ _ hid hget hr h => h.cached (lookup_eq_none.mp hid) hget hr)
    (fun _ _ _ _ _ _ hid hget _ hone h => h.fresh hlinked (lookup_eq_none.mp hid) hget hone) h
    hexploring
  rcases hdone with rfl | rfl
  · exact absurd hend.fuel_pos (Nat.lt_irrefl 0)
  · exact ⟨fuel', hend⟩

/-- More rounds than there are grammars change nothing. -/
theorem explore_fuel (hlinked : s.Linked) (h : Exploring s fuel found pending) (more : Nat) :
    s.explore (fuel + more) found pending = s.explore fuel found pending := by
  induction fuel generalizing found pending with
  | zero => exact absurd h.fuel_pos (Nat.lt_irrefl 0)
  | succ fuel ih =>
    have hskipped := skips (Exploring s (fuel + 1) found)
      (fun _ _ hid h => h.skip (isSome_lookup.mp hid)) h
    rw [Nat.add_right_comm, explore, explore]
    split
    · rfl
    · rename_i id pending' heq
      have hnew := lookup_eq_none.mp (lookup_of_dropWhile heq)
      rw [heq] at hskipped
      split
      · rename_i hget
        obtain ⟨g, hget'⟩ := exists_get?_of_lt (hskipped.pending_lt id List.mem_cons_self)
        rw [hget] at hget'
        cases hget'
      · rename_i g hget
        split
        · rename_i hr
          exact ih (hskipped.cached hnew hget hr)
        · split
          · rfl
          · rename_i hone
            exact ih (hskipped.fresh hlinked hnew hget hone)

end Explore

/-! ### Resolving -/

/-- All that the worklist has looked at has a resolution once it is published. -/
theorem Exploring.isResolved_of_mem (h : Exploring s fuel found pending)
    (hid : id ∈ found.map Prod.fst) : (s.publishAll found).1.isResolved id = true := by
  obtain ⟨e, he, rfl⟩ := List.mem_map.mp hid
  refine isResolved_publishAll (fun e he => ?_) e he
  obtain ⟨g, hget⟩ := exists_get?_of_lt (h.found_lt e.1 (List.mem_map_of_mem he))
  rw [hget]
  rfl

/-- **Resolving leaves a closed store closed.** -/
theorem Closed.resolve {ref : Ref} {events : List Event} (hclosed : s.Closed)
    (hlinked : s.Linked) (h : s.resolve ref = .ok (r, s', events)) : s'.Closed := by
  have hextends := resolve_extends h
  obtain ⟨root, rfl, hroot, rfl | ⟨-, found, hexplore, rfl⟩⟩ := resolve_cases h
  · exact hclosed
  intro id next hid hlead
  replace hlead := hextends.leads_iff.mp hlead
  -- What had a resolution before led to nothing else; what is new, the worklist has
  -- looked at, and at all that it leads to.
  by_cases hbefore : s.isResolved id = true
  · exact hextends.isResolved (hclosed id next hbefore hlead)
  have hfresh : id ∈ found.map Prod.fst := by
    obtain ⟨r, hr⟩ := Option.isSome_iff_exists.mp hid
    rcases cached_publishAll hr with hr | hfound
    · exact absurd (Option.isSome_iff_exists.mpr ⟨r, hr⟩) hbefore
    · exact List.mem_map_of_mem hfound
  have hstart : root < s.grammars.size := by
    obtain ⟨g', hget', -⟩ := Option.bind_eq_some_iff.mp hroot
    obtain ⟨g, hget, -⟩ := hextends.get?' hget'
    exact lt_of_get? hget
  obtain ⟨fuel, hend⟩ := explore_exploring hlinked hexplore (.start hstart (Nat.lt_succ_self _))
  rcases hend.leads id hfresh (Bool.not_eq_true _ ▸ hbefore) next hlead with hnext | hnext
  · exact hend.isResolved_of_mem hnext
  · cases hnext

end Store
end Highlight
