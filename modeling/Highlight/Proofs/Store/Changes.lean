/-
# Adding grammars and changing fallbacks

A grammar that is added names grammars that are there already, so nothing in the
store has named it.  A fallback that is changed takes its grammar's resolution
with it, and no other one: what a grammar contributes to those that fall back on
it are its entries, not its fallback.  So both leave a sound store sound.

Both leave a linked store linked, but a change of a fallback need not leave a
closed store closed.  It does just where no other grammar that has a resolution
leads to the changed one (`closed_setRest_iff`).
-/

import Highlight.Proofs.Store.Closure

namespace Highlight
namespace Store

variable {s : Store} {id other next : GrammarId} {g g' : Grammar} {rest : Option Ref}

/-- A grammar can be added: it has no resolution yet, and what it names is
there. -/
structure Accepts (s : Store) (g : Grammar) : Prop where
  resolution : g.resolution = none
  names : ∀ next ∈ g.names, next < s.grammars.size

/-- A store of grammars that have not been resolved, and name each other. -/
structure Fresh (s : Store) : Prop where
  resolution : ∀ id g, s.get? id = some g → g.resolution = none
  linked : s.Linked

/-- Whether the grammars of a store have not been resolved, and name each
other. -/
def isFresh (s : Store) : Bool :=
  s.grammars.toList.all fun g =>
    g.resolution.isNone && g.names.all fun next => decide (next < s.grammars.size)

theorem fresh_of_isFresh (h : s.isFresh = true) : s.Fresh := by
  have hall (id : GrammarId) (g : Grammar) (hget : s.get? id = some g) :
      g.resolution = none ∧ ∀ next ∈ g.names, next < s.grammars.size := by
    have hmem : g ∈ s.grammars.toList := Array.mem_toList_iff.mpr (Array.mem_of_getElem? hget)
    have hg := List.all_eq_true.mp h g hmem
    rw [Bool.and_eq_true, Option.isNone_iff_eq_none, List.all_eq_true] at hg
    exact ⟨hg.1, fun next hnext => of_decide_eq_true (hg.2 next hnext)⟩
  exact ⟨fun id g hget => (hall id g hget).1, fun id g hget => (hall id g hget).2⟩

theorem not_isResolved (hget : s.get? id = some g) (h : g.resolution = none) :
    s.isResolved id = false := by
  rw [isResolved, hget, Option.bind_some, h]
  rfl

theorem exists_of_isResolved (h : s.isResolved id = true) :
    ∃ g, s.get? id = some g ∧ g.resolution.isSome = true := by
  obtain ⟨r, hr⟩ := Option.isSome_iff_exists.mp h
  obtain ⟨g, hget, hg⟩ := Option.bind_eq_some_iff.mp hr
  exact ⟨g, hget, by rw [hg]; rfl⟩

theorem Fresh.sound (h : s.Fresh) : s.Sound := by
  intro id r hr
  obtain ⟨g, hget, hg⟩ := Option.bind_eq_some_iff.mp hr
  rw [h.resolution id g hget] at hg
  cases hg

theorem Fresh.closed (h : s.Fresh) : s.Closed := by
  intro id next hid
  obtain ⟨g, hget, hg⟩ := exists_of_isResolved hid
  rw [h.resolution id g hget] at hg
  cases hg

/-! ### What a grammar resolves to -/

theorem resolveOne_of_fallback {s' : Store}
    (h : s'.fallbackEntries g.rest = s.fallbackEntries g.rest) :
    s'.resolveOne g = s.resolveOne g := by
  rw [resolveOne, resolveOne, h]

theorem links_of_fallback {s' : Store}
    (h : s'.fallbackEntries g.rest = s.fallbackEntries g.rest) : s'.links g = s.links g := by
  rw [links, links, merged, merged, h]

/-! ### Adding -/

theorem get?_add (s : Store) (g : Grammar) (id : GrammarId) :
    (s.add g).2.get? id = if id = s.grammars.size then some g else s.get? id :=
  Array.getElem?_push

/-- The grammars that are there stay as they are. -/
theorem get?_add_of_get? (hget : s.get? id = some g') (g : Grammar) :
    (s.add g).2.get? id = some g' := by
  rw [get?_add, if_neg (Nat.ne_of_lt (lt_of_get? hget)), hget]

/-- A grammar without a resolution is not resolved by being added. -/
theorem get?_of_isResolved_add (hnone : g.resolution = none)
    (h : (s.add g).2.isResolved id = true) : (s.add g).2.get? id = s.get? id := by
  rw [get?_add]
  split
  · rename_i heq
    have hget : (s.add g).2.get? id = some g := by rw [get?_add, if_pos heq]
    rw [not_isResolved hget hnone] at h
    cases h
  · rfl

theorem fallbackEntries_add (hlinked : s.Linked) (hget : s.get? id = some g') (g : Grammar) :
    (s.add g).2.fallbackEntries g'.rest = s.fallbackEntries g'.rest := by
  cases hrest : g'.rest with
  | none => rfl
  | some ref =>
    cases ref with
    | other kind => rfl
    | grammar fallback =>
      have hlt : fallback < s.grammars.size := hlinked id g' hget fallback
        (List.mem_append_right _ (by rw [hrest]; exact List.mem_singleton_self _))
      rw [fallbackEntries, fallbackEntries, get?_add, if_neg (Nat.ne_of_lt hlt)]

theorem Linked.add (h : s.Linked) (hg : s.Accepts g) : (s.add g).2.Linked := by
  intro id g' hget next hnext
  have hsize : (s.add g).2.grammars.size = s.grammars.size + 1 := Array.size_push ..
  rw [hsize]
  rw [get?_add] at hget
  split at hget
  · cases hget
    exact Nat.lt_succ_of_lt (hg.names next hnext)
  · exact Nat.lt_succ_of_lt (h id g' hget next hnext)

theorem Sound.add (h : s.Sound) (hlinked : s.Linked) (hg : s.Accepts g) : (s.add g).2.Sound := by
  intro id r hr
  have hget := get?_of_isResolved_add hg.resolution (Option.isSome_iff_exists.mpr ⟨r, hr⟩)
  rw [cached, hget] at hr
  obtain ⟨g', hget', hone⟩ := h id r hr
  refine ⟨g', hget.trans hget', ?_⟩
  rw [resolveOne_of_fallback (fallbackEntries_add hlinked hget' g), hone]

theorem Closed.add (h : s.Closed) (hlinked : s.Linked) (hg : s.Accepts g) :
    (s.add g).2.Closed := by
  intro id next hid ⟨g', hget', hnext⟩
  have hget := get?_of_isResolved_add hg.resolution hid
  have hid' : s.isResolved id = true := by rwa [isResolved, hget] at hid
  rw [hget] at hget'
  rw [links_of_fallback (fallbackEntries_add hlinked hget' g)] at hnext
  obtain ⟨g'', hget'', hr⟩ := exists_of_isResolved (h id next hid' ⟨g', hget', hnext⟩)
  rw [isResolved, get?_add_of_get? hget'' g]
  exact hr

/-! ### Changing fallbacks -/

theorem get?_setRest (s : Store) (id other : GrammarId) (rest : Option Ref) :
    (s.setRest id rest).get? other =
      if other = id then (s.get? id).map (·.setRest rest) else s.get? other := by
  rw [get?, setRest, Array.getElem?_modify]
  by_cases heq : id = other
  · rw [if_pos heq, if_pos heq.symm, heq]
    rfl
  · rw [if_neg heq, if_neg (Ne.symm heq)]
    rfl

/-- A grammar whose fallback is changed has no resolution. -/
theorem isResolved_setRest (s : Store) (id : GrammarId) (rest : Option Ref) :
    (s.setRest id rest).isResolved id = false := by
  rw [isResolved, get?_setRest, if_pos rfl]
  cases s.get? id <;> rfl

theorem fallbackEntries_setRest (s : Store) (id : GrammarId) (rest : Option Ref) :
    (s.setRest id rest).fallbackEntries = s.fallbackEntries := by
  funext fallback
  cases fallback with
  | none => rfl
  | some ref =>
    cases ref with
    | other kind => rfl
    | grammar other =>
      have hentries : ((s.setRest id rest).get? other).map (·.entries) =
          (s.get? other).map (·.entries) := by
        rw [get?_setRest]
        split
        · rename_i heq
          rw [heq, Option.map_map]
          rfl
        · rfl
      rw [fallbackEntries, fallbackEntries, hentries]

theorem Linked.setRest (h : s.Linked) (hrest : ∀ next ∈ rest.bind Ref.id?, next < s.grammars.size) :
    (s.setRest id rest).Linked := by
  intro other g' hget next hnext
  have hsize : (s.setRest id rest).grammars.size = s.grammars.size := Array.size_modify ..
  rw [hsize]
  rw [get?_setRest] at hget
  split at hget
  · obtain ⟨g, hbefore, rfl⟩ := Option.map_eq_some_iff.mp hget
    rcases List.mem_append.mp hnext with hnext | hnext
    · exact h id g hbefore next (List.mem_append_left _ hnext)
    · exact hrest next (Option.mem_toList.mp hnext)
  · exact h other g' hget next hnext

theorem Sound.setRest (h : s.Sound) : (s.setRest id rest).Sound := by
  intro other r hr
  have hne : other ≠ id := by
    rintro rfl
    have hnone := isResolved_setRest s other rest
    rw [isResolved, ← cached, hr] at hnone
    cases hnone
  have hget : (s.setRest id rest).get? other = s.get? other := by
    rw [get?_setRest, if_neg hne]
  rw [cached, hget] at hr
  obtain ⟨g, hget', hone⟩ := h other r hr
  refine ⟨g, hget.trans hget', ?_⟩
  rw [resolveOne_of_fallback (congrFun (fallbackEntries_setRest s id rest) g.rest), hone]

/-- The other grammars are resolved as before, and lead where they did. -/
theorem isResolved_setRest_of_ne (hne : other ≠ id) :
    (s.setRest id rest).isResolved other = s.isResolved other := by
  rw [isResolved, get?_setRest, if_neg hne]
  rfl

theorem leads_setRest_of_ne (hne : other ≠ id) :
    (s.setRest id rest).Leads other next ↔ s.Leads other next := by
  have hlinks (g : Grammar) : (s.setRest id rest).links g = s.links g :=
    links_of_fallback (congrFun (fallbackEntries_setRest s id rest) g.rest)
  unfold Leads
  rw [get?_setRest, if_neg hne]
  simp only [hlinks]

/-- **A change of a fallback leaves a closed store closed just where no other
grammar that has a resolution leads to the changed one.** -/
theorem closed_setRest_iff (h : s.Closed) :
    (s.setRest id rest).Closed ↔
      ∀ other, other ≠ id → s.isResolved other = true → ¬ s.Leads other id := by
  constructor
  · intro hafter other hne hother hlead
    have hsame : (s.setRest id rest).isResolved other = s.isResolved other :=
      isResolved_setRest_of_ne hne
    have hid := hafter other id (hsame.trans hother) ((leads_setRest_of_ne hne).mpr hlead)
    rw [isResolved_setRest] at hid
    cases hid
  · intro hnone other next hother hlead
    have hne : other ≠ id := by
      rintro rfl
      rw [isResolved_setRest] at hother
      cases hother
    rw [isResolved_setRest_of_ne hne] at hother
    replace hlead := (leads_setRest_of_ne hne).mp hlead
    have hnext : next ≠ id := by
      rintro rfl
      exact hnone other hne hother hlead
    rw [isResolved_setRest_of_ne hnext]
    exact h other next hother hlead

end Store
end Highlight
