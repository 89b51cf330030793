/-
# How deep a run goes

A sweep goes deeper for two reasons: a match is cut further by another grammar, or
a greedy rule has merged several chunks and a rematch follows.  A rematch is for the
rules before the greedy one alone, so that there is one greedy rule fewer in it, and
rematches within rematches are no more than there are greedy rules, however many of
them follow one another.

If no grammar nests in itself, in any number of steps, then the levels that a run
needs can be read off the grammars (`Store.height`): one for the sweep, one for each
greedy rule, and those of the nested grammar that needs most.  A run that has these
never fails for the depth (`tokenize_of_height_le`).
-/

import Highlight.Proofs.Overrun.NonEmpty
import Mathlib.Data.List.MinMax

namespace Highlight

open Chunk RunM

/-! ### The height of a grammar -/

namespace Store

variable {s : Store} {id next : GrammarId} {r : Resolution}

/-- The rules that a grammar works by, in order of priority.  There are none if the
grammar cannot be resolved. -/
def clausesOf (s : Store) (id : GrammarId) : List Clause :=
  match s.get? id with
  | none => []
  | some g => ((g.resolution <|> (s.resolveOne g).toOption).map (·.clauses)).getD []

/-- The grammars that cut the matches of a grammar further. -/
def insides (s : Store) (id : GrammarId) : List GrammarId :=
  (s.clausesOf id).filterMap (·.rule.inside)

/-- A grammar cuts matches of another one further. -/
def NestedIn (s : Store) (next id : GrammarId) : Prop :=
  next ∈ s.insides id

/-- The height of a grammar in which nested grammars come to an end: one more than
it has greedy rules, and the greatest height of a grammar that is nested in it. -/
noncomputable def height (s : Store) (id : GrammarId) (h : Acc s.NestedIn id) : Nat :=
  h.rec fun id _ below => 1 + (s.clausesOf id).countP (·.rule.greedy) +
    ((s.insides id).pmap below fun _ hnext => hnext).foldr max 0

theorem height_eq (h : Acc s.NestedIn id) :
    s.height id h = 1 + (s.clausesOf id).countP (·.rule.greedy) +
      ((s.insides id).pmap (fun next (hnext : s.NestedIn next id) => s.height next (h.inv hnext))
        fun _ hnext => hnext).foldr max 0 := by
  cases h
  rfl

/-- What a grammar works by are its rules. -/
theorem Works.clausesOf_eq (h : s.Works id r) : s.clausesOf id = r.clauses := by
  rcases h with hcached | ⟨hnone, g, hget, hone⟩
  · obtain ⟨g, hget, hr⟩ := Option.bind_eq_some_iff.mp hcached
    simp [clausesOf, hget, hr]
  · have hr : g.resolution = none := by
      rw [cached, hget] at hnone
      exact hnone
    simp [clausesOf, hget, hr, hone, Except.toOption]

/-- A grammar is higher than it has greedy rules. -/
theorem greedy_lt_height (h : Acc s.NestedIn id) :
    (s.clausesOf id).countP (·.rule.greedy) < s.height id h := by
  rw [height_eq]
  omega

/-- A grammar is higher, by its greedy rules, than one that is nested in it. -/
theorem height_lt_height (h : Acc s.NestedIn id) (hnext : s.NestedIn next id) :
    (s.clausesOf id).countP (·.rule.greedy) + s.height next (h.inv hnext) < s.height id h := by
  have hmem : s.height next (h.inv hnext) ∈ (s.insides id).pmap
      (fun next (hnext : s.NestedIn next id) => s.height next (h.inv hnext)) fun _ hnext => hnext :=
    List.mem_pmap.mpr ⟨next, hnext, rfl⟩
  have hle := List.le_max_of_le' 0 hmem (Nat.le_refl _)
  rw [height_eq h]
  omega

end Store

/-! ### Rules that have the levels that they need -/

/-- Some rules have the levels that they need: one for the sweep, one for each greedy
rule, and those of a grammar that cuts matches further. -/
structure Roomy (store : Store) (levels : Nat) (clauses : List Clause) : Prop where
  rematches : clauses.countP (·.rule.greedy) < levels
  nested : ∀ c ∈ clauses, ∀ id, c.rule.inside = some id → ∃ h : Acc store.NestedIn id,
    clauses.countP (·.rule.greedy) + store.height id h < levels

namespace Roomy

variable {store : Store} {levels : Nat} {clauses earlier later : List Clause} {clause : Clause}
  {id : GrammarId}

/-- The rules of a grammar have what they need with as many levels as it is high. -/
theorem of_height_le (h : Acc store.NestedIn id) (hle : store.height id h ≤ levels) :
    Roomy store levels (store.clausesOf id) := by
  constructor
  · exact Nat.lt_of_lt_of_le (Store.greedy_lt_height h) hle
  · intro c hc next hinside
    have hnext : store.NestedIn next id := List.mem_filterMap.mpr ⟨c, hc, hinside⟩
    exact ⟨h.inv hnext, Nat.lt_of_lt_of_le (Store.height_lt_height h hnext) hle⟩

/-- One level deeper a nested grammar still has as many levels as it is high. -/
theorem height_le (h : Roomy store (levels + 1) clauses) (hclause : clause ∈ clauses)
    (hinside : clause.rule.inside = some id) :
    ∃ h : Acc store.NestedIn id, store.height id h ≤ levels := by
  obtain ⟨hacc, hlt⟩ := h.nested clause hclause id hinside
  exact ⟨hacc, by omega⟩

/-- **A rematch has what it needs one level deeper**: it is for one greedy rule
fewer. -/
theorem rematch (h : Roomy store (levels + 1) (earlier ++ clause :: later))
    (hgreedy : clause.rule.greedy = true) : Roomy store levels earlier := by
  have hfewer : earlier.countP (·.rule.greedy) <
      (earlier ++ clause :: later).countP (·.rule.greedy) := by
    simp [hgreedy]
  constructor
  · have hall := h.rematches
    omega
  · intro c hc id hinside
    obtain ⟨hacc, hlt⟩ := h.nested c (List.mem_append_left _ hc) id hinside
    exact ⟨hacc, by omega⟩

end Roomy

/-! ### Runs -/

/-- A way of going deeper, with a number of levels left, on which no sweep fails for
the depth that has the levels that its rules need. -/
def Strip.Fitting (store : Store) (levels : Nat) (enter : Strip.Enter) : Prop :=
  ∀ s : Strip, s.Covers → Triple (fun r => r.From store ∧ Roomy store levels s.clauses) (enter s)
    (fun _ r => r.From store) fun e _ => e.toClass ≠ .depthExceeded

section Step

variable {store : Store} {levels : Nat} {enter : Strip.Enter} {limits : Limits} {id : GrammarId}
  {clause : Clause} {earlier later : List Clause} {s : Strip} {t : Tape}

/-- A grammar is resolved to the rules that it works by. -/
theorem resolve_clausesOf :
    Triple (Run.From store) (RunM.resolve (.grammar id))
      (fun resolution r => r.From store ∧ resolution.clauses = store.clausesOf id)
      fun e _ => e.toClass ≠ .depthExceeded := by
  refine .resolve (fun r resolution store' events hr hresolve => ?_) fun _ e _ hresolve => ?_
  · have hfrom : Run.From store { r with store := store' } := fun id resolution h =>
      hr id resolution (h.of_resolve hresolve)
    obtain ⟨_, ⟨⟩, hcached, -⟩ := Store.resolve_cases hresolve
    have hworks : store.Works id resolution := hfrom id resolution (Or.inl hcached)
    exact ⟨hfrom, hworks.clausesOf_eq.symm⟩
  · rcases Store.blaming_resolve _ _ e hresolve with h | h <;> simp [h]

/-- A text is cut without failing for the depth with as many levels as its grammar is
high. -/
theorem chunksOf_fitting (henter : Strip.Fitting store levels enter)
    (h : Acc store.NestedIn id) (hle : store.height id h ≤ levels) (nested : Bool) (text : Text) :
    Triple (Run.From store) (Strip.chunksOf enter nested text (.grammar id))
      (fun _ r => r.From store) fun e _ => e.toClass ≠ .depthExceeded := by
  refine Strip.chunksOf_triple resolve_clausesOf (fun _ _ _ h => h) (fun _ _ _ hr => hr.1) ?_
  rintro resolution - r ⟨hr, hclauses⟩
  exact henter _ (.whole ..) r ⟨hr, hclauses ▸ Roomy.of_height_le h hle⟩

/-- **A step does not fail for the depth** if the rules of its sweep have the levels
that they need. -/
theorem step_fitting (hlead : Strip.Leading enter) (henter : Strip.Fitting store levels enter)
    (hclauses : s.clauses = earlier ++ clause :: later)
    (hroomy : Roomy store (levels + 1) s.clauses) (hon : t.On s) :
    Triple (Run.From store) (t.step enter limits s.text s.base earlier clause)
      (fun _ r => r.From store) fun e _ => e.toClass ≠ .depthExceeded := by
  have hcharge : Triple (Run.From store) (charge limits) (fun _ => Run.From store)
      fun e _ => e.toClass ≠ .depthExceeded :=
    charge_triple (fun _ hr => hr) fun _ _ _ _ => nofun
  have hkeeps : Triple (Run.From store) (t.step enter limits s.text s.base earlier clause)
      (fun next r => (∀ t', next = some t' → True) ∧ r.From store)
      fun e _ => e.toClass ≠ .depthExceeded := by
    refine Tape.step_keeps hon.covers.ahead (fun _ _ _ _ _ => nofun) hcharge
      (fun _ _ _ => trivial) ?_
    intro chunk more skipped covered rest cut _ hchosen hahead hfits
    have htoken : Triple (Run.From store) (Strip.tokenOf enter clause cut.matched)
        (fun _ r => r.From store) fun e _ => e.toClass ≠ .depthExceeded := by
      refine Strip.tokenOf_triple (fun _ _ hr => hr) fun id hinside => ?_
      obtain ⟨hacc, hle⟩ := hroomy.height_le (by simp [hclauses]) hinside
      exact chunksOf_fitting henter hacc hle true cut.matched
    refine hlead.replace_triple (hon.covers.pass hahead) rfl hfits htoken ?_ ?_
    · exact fun _ _ r _ _ hr => ⟨trivial, hr⟩
    · rintro hcovered token - - hrematch r ⟨r₀, hr, rfl⟩
      rw [hclauses] at hroomy
      have hearlier := hroomy.rematch (Tape.greedy_of_chosen hchosen hcovered)
      exact ((henter _ hrematch).imp (fun r (hr : r.From store) => ⟨hr, hearlier⟩)
        (fun _ r hr _ _ _ _ _ => ⟨trivial, hr⟩) fun _ _ h => h) r₀.countRematch hr
  exact hkeeps.post fun _ _ h => h.2

/-- **A sweep does not fail for the depth** if those one recursion deeper do not. -/
theorem run_fitting (hlead : Strip.Leading enter) (henter : Strip.Fitting store levels enter)
    (hs : s.Covers) :
    Triple (fun r => r.From store ∧ Roomy store (levels + 1) s.clauses)
      (s.run Tape.step enter limits) (fun _ r => r.From store)
      fun e _ => e.toClass ≠ .depthExceeded := by
  rintro r ⟨hr, hroomy⟩
  refine hlead.run_keeps hs (fun _ => Run.From store) ?_ r hr
  intro earlier clause later hclauses t hon
  exact (step_fitting hlead henter hclauses hroomy hon).post
    fun _ _ hr => ⟨fun _ => hr, fun _ _ => hr⟩

end Step

/-- No sweep fails for the depth, at any depth, that has the levels that it needs. -/
theorem descend_fitting (store : Store) (limits : Limits) (levels depth : Nat) :
    Strip.Fitting store levels (Strip.descend Tape.step limits levels depth) :=
  Strip.descend_triple (fun levels s r => r.From store ∧ Roomy store levels s.clauses)
    (fun _ _ _ r => r.From store)
    (fun _ _ _ _ hr => absurd hr.2.rematches (Nat.not_lt_zero _)) (fun _ _ _ _ h => h)
    (fun _ _ hlead henter _ hs => run_fitting hlead henter hs) levels depth

/-- **A run never fails for the depth if its limit is no less than the height of its
grammar**, however long the text is, however often its rules merge chunks, and
whatever its other limits are. -/
theorem tokenize_of_height_le {limits : Limits} {store : Store} {root : GrammarId}
    (h : Acc store.NestedIn root) (hdepth : (store.height root h : Int) ≤ limits.maxDepth)
    (text : Text) :
    ∀ e, (tokenize limits none store text (.grammar root)).result = .error e →
      e.toClass ≠ .depthExceeded := by
  have hlevels : store.height root h ≤ Tokenizer.levels limits none :=
    Tokenizer.le_levels_iff.mpr ⟨by omega, by simp⟩
  have hfits := chunksOf_fitting (descend_fitting store limits (Tokenizer.levels limits none) 0) h
    hlevels false text
  have hend := tokenize_of_triple store hfits fun _ _ h => h
  intro e hresult
  rw [hresult] at hend
  exact hend

/-- A grammar in which what is in brackets may take in a part of what is in quotes,
what is in quotes a part of what is made of letters, and letters are cut further. -/
def interlocking : Store where
  grammars := #[
    { entries := [
        ("letters", .single (.rule {
          pattern := .expression (.source "b'b|b".toList)
          inside := some (.grammar 1) })),
        ("quoted", .single (.rule {
          pattern := .expression (.source "'[^']*'".toList)
          greedy := true })),
        ("bracketed", .single (.rule {
          pattern := .expression (.source "<[^>]*>".toList)
          greedy := true }))] },
    { entries := [("quote", .single (.pattern (.source "'".toList)))] }]

theorem insides_interlocking : interlocking.insides 0 = [1] ∧ interlocking.insides 1 = [] := by
  decide +kernel

theorem acc_interlocking : Acc interlocking.NestedIn 0 := by
  have hinner : Acc interlocking.NestedIn 1 := by
    refine ⟨1, fun next hnext => ?_⟩
    rw [Store.NestedIn, insides_interlocking.2] at hnext
    cases hnext
  refine ⟨0, fun next hnext => ?_⟩
  rw [Store.NestedIn, insides_interlocking.1, List.mem_singleton] at hnext
  exact hnext ▸ hinner

theorem greedy_interlocking :
    (interlocking.clausesOf 0).countP (·.rule.greedy) = 2 ∧
      (interlocking.clausesOf 1).countP (·.rule.greedy) = 0 := by
  decide +kernel

theorem height_interlocking : interlocking.height 0 acc_interlocking = 4 := by
  obtain ⟨hinside, hnone⟩ := insides_interlocking
  obtain ⟨houter, hinner⟩ := greedy_interlocking
  rw [Store.height_eq]
  simp only [houter, hinside, List.pmap, List.foldr]
  rw [Store.height_eq]
  simp only [hinner, hnone, List.pmap, List.foldr]
  rfl

/-- The brackets of `<'x>'b'b` set a quote free, that quote takes letters away, and one
of the letters is set free and cut further: that takes all four levels. -/
theorem tokenize_interlocking :
    Acc interlocking.NestedIn 0 ∧ interlocking.height 0 acc_interlocking = 4 ∧
      (∀ e, (tokenize { maxDepth := 4 } none interlocking "<'x>'b'b".toList
        (.grammar 0)).result = .error e → e.toClass ≠ .depthExceeded) ∧
      (tokenize { maxDepth := 4 } none interlocking "<'x>'b'b".toList (.grammar 0)).run.peak = 4 :=
  ⟨acc_interlocking, height_interlocking,
    tokenize_of_height_le acc_interlocking (by simp [height_interlocking]) _, by decide +kernel⟩

end Highlight
