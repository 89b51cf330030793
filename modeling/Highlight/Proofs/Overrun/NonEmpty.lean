/-
# Where no match is empty

A run comes to the grammars that nest, in any number of steps, in the one that it
was given (`Store.Nests`).  If no rule of these ever finds the empty text
(`Store.FindsText`), then a run never fails because there are too many chunks, and
every token that it makes has a positive length (`tokenize_filled`).

What a grammar works by is the resolution that it has, or else the one that it
gets when it is resolved.  Resolving a grammar changes nothing about that
(`Store.Works.of_resolve`), so that what the rules are can be said of the store
that the run starts with.
-/

import Highlight.Proofs.Coverage
import Highlight.Proofs.Pattern.Width
import Highlight.Proofs.Store.Resolutions
import Highlight.Proofs.Tape.Filled

namespace Highlight

open Chunk RunM

/-! ### The grammars that a run comes to -/

/-- A rule never finds the empty text. -/
def Clause.FindsText (clause : Clause) : Prop :=
  ∀ text offset m, offset ≤ text.length →
    clause.rule.pattern.find? text offset clause.rule.lookbehind = some m → m.text ≠ []

namespace Store

variable {s s' : Store} {root id : GrammarId} {r : Resolution}

/-- A grammar works by a resolution: the one that it has, or else the one that it
gets when it is resolved. -/
def Works (s : Store) (id : GrammarId) (r : Resolution) : Prop :=
  s.cached id = some r ∨ s.cached id = none ∧ s.Yields id r

/-- A rule of a grammar cuts its matches further by another grammar. -/
def Nests (s : Store) (id next : GrammarId) : Prop :=
  ∃ r clause, s.Works id r ∧ clause ∈ r.clauses ∧ clause.rule.inside = some next

/-- No rule of a grammar, or of one that nests in it, ever finds the empty text. -/
def FindsText (s : Store) (root : GrammarId) : Prop :=
  ∀ id r clause, Relation.ReflTransGen s.Nests root id → s.Works id r → clause ∈ r.clauses →
    clause.FindsText

/-- **Resolving a grammar changes nothing about what grammars work by.** -/
theorem Works.of_resolve {ref : Ref} {r' : Resolution} {events : List Event}
    (hresolve : s.resolve ref = .ok (r', s', events)) (h : s'.Works id r) : s.Works id r := by
  have hextends := resolve_extends hresolve
  rcases h with hcached | ⟨hnone, hyields⟩
  · cases hbefore : s.cached id with
    | none =>
      have hyields := (cached_resolve hresolve hcached).resolve_left (by simp [hbefore])
      exact Or.inr ⟨hbefore, hyields⟩
    | some r₀ =>
      rw [hextends.cached hbefore] at hcached
      exact Or.inl (hcached ▸ hbefore)
  · refine Or.inr ⟨?_, hextends.yields_iff.mp hyields⟩
    cases hbefore : s.cached id with
    | none => rfl
    | some r₀ =>
      rw [hextends.cached hbefore] at hnone
      cases hnone

end Store

/-! ### Runs -/

/-- The grammars of a run work as they did in the store that it started with. -/
def Run.From (store : Store) (r : Run) : Prop :=
  ∀ id resolution, r.store.Works id resolution → store.Works id resolution

/-- A rule is one of a grammar that a run comes to. -/
structure Clause.Met (store : Store) (root : GrammarId) (clause : Clause) : Prop where
  findsText : clause.FindsText
  inside : ∀ id, clause.rule.inside = some id → Relation.ReflTransGen store.Nests root id

/-- A sweep with rules of grammars that a run comes to, over chunks none of which is
empty, and with no more chunks than characters to the left of it. -/
structure Strip.Starts (store : Store) (root : GrammarId) (s : Strip) : Prop where
  base : s.base ≤ s.offset
  met : ∀ clause ∈ s.clauses, clause.Met store root
  filled : Filled s.chunks

/-- A way of going deeper on which no sweep fails because there are too many chunks,
and none leaves an empty one. -/
def Strip.Filling (store : Store) (root : GrammarId) (enter : Strip.Enter) : Prop :=
  ∀ s : Strip, s.Covers → Triple (fun r => r.From store ∧ s.Starts store root) (enter s)
    (fun swept r => r.From store ∧ Filled swept.chunks) fun e _ => e.toClass ≠ .overrun

section Step

variable {store : Store} {root : GrammarId} {enter : Strip.Enter} {limits : Limits}
  {clause : Clause} {earlier later : List Clause} {s : Strip} {t : Tape}

/-- The rules that a grammar is resolved to are rules that the run comes to. -/
theorem resolve_met (hstore : store.FindsText root) {id : GrammarId}
    (hid : Relation.ReflTransGen store.Nests root id) :
    Triple (Run.From store) (RunM.resolve (.grammar id))
      (fun resolution r => r.From store ∧ ∀ clause ∈ resolution.clauses, clause.Met store root)
      fun e _ => e.toClass ≠ .overrun := by
  refine .resolve (fun r resolution store' events hr hresolve => ?_) fun _ e _ hresolve => ?_
  · have hfrom : Run.From store { r with store := store' } := fun id resolution h =>
      hr id resolution (h.of_resolve hresolve)
    obtain ⟨_, ⟨⟩, hcached, -⟩ := Store.resolve_cases hresolve
    have hworks : store.Works id resolution := hfrom id resolution (Or.inl hcached)
    exact ⟨hfrom, fun clause hclause => ⟨hstore id resolution clause hid hworks hclause,
      fun next hinside => hid.tail ⟨resolution, clause, hworks, hclause, hinside⟩⟩⟩
  · rcases Store.blaming_resolve _ _ e hresolve with h | h <;> simp [h]

/-- No chunk of a text is empty, if sweeps leave none that is. -/
theorem chunksOf_filled (hstore : store.FindsText root) (henter : Strip.Filling store root enter)
    {id : GrammarId} (hid : Relation.ReflTransGen store.Nests root id) (nested : Bool)
    (text : Text) :
    Triple (Run.From store) (Strip.chunksOf enter nested text (.grammar id))
      (fun cs r => r.From store ∧ Filled cs) fun e _ => e.toClass ≠ .overrun := by
  refine Strip.chunksOf_triple (resolve_met hstore hid) (fun _ _ _ h => h) ?_ ?_
  · exact fun _ _ _ hr => ⟨hr.1, filled_nil⟩
  · rintro resolution htext r ⟨hr, hmet⟩
    exact henter _ (.whole ..) r ⟨hr, Nat.le_refl 0, hmet, filled_plain htext⟩

/-- A rule makes of a match a token that is not empty. -/
theorem tokenOf_filled (hstore : store.FindsText root) (henter : Strip.Filling store root enter)
    (hmet : clause.Met store root) {matched : Text} (hmatched : matched ≠ []) :
    Triple (Run.From store) (Strip.tokenOf enter clause matched)
      (fun token r => r.From store ∧ Filled [token]) fun e _ => e.toClass ≠ .overrun :=
  Strip.tokenOf_triple (fun _ _ hr => ⟨hr, filled_leaf hmatched⟩) fun id hinside =>
    (chunksOf_filled hstore henter (hmet.inside id hinside) true matched).post
      fun _ _ h => ⟨h.1, filled_node hmatched h.2⟩

/-- **A step leaves no empty chunk**, and does not fail because there are too many. -/
theorem step_filled (hlead : Strip.Leading enter) (hstore : store.FindsText root)
    (henter : Strip.Filling store root enter) (hs : s.Starts store root)
    (hclauses : s.clauses = earlier ++ clause :: later) (hon : t.On s)
    (hfilled : Filled (t.passed ++ t.ahead)) :
    Triple (Run.From store) (t.step enter limits s.text s.base earlier clause)
      (fun next r => (∀ t', next = some t' → Filled (t'.passed ++ t'.ahead)) ∧ r.From store)
      fun e _ => e.toClass ≠ .overrun := by
  have hsize := Tape.size_le hon.covers hs.base hfilled
  have hcharge : Triple (Run.From store) (charge limits) (fun _ => Run.From store)
      fun e _ => e.toClass ≠ .overrun := charge_triple (fun _ hr => hr) fun _ _ _ _ => nofun
  have hpass {skipped rest : List Chunk} (hahead : t.ahead = skipped ++ rest) :
      Filled ((t.pass skipped rest).passed ++ (t.pass skipped rest).ahead) := by
    simpa [Tape.pass, hahead] using hfilled
  refine Tape.step_keeps hon.covers.ahead (fun _ _ _ hover _ => by omega) hcharge
    (fun _ _ hahead => hpass hahead) ?_
  intro chunk more skipped covered rest cut hplain hchosen hahead hfits
  have hmet := hs.met clause (by simp [hclauses])
  have hcover := hon.covers.ahead
  obtain ⟨source, offset, m, hoffset, hfound, hmatched⟩ :=
    Tape.found_of_chosen hchosen (by omega)
  have htoken := tokenOf_filled hstore henter hmet
    (hmatched ▸ hmet.findsText source offset m hoffset hfound)
  have hleft {token : Chunk} (htoken : Filled [token]) :=
    Tape.filled_replace (hpass hahead) cut htoken
  refine hlead.replace_triple (hon.covers.pass hahead) rfl hfits htoken ?_ ?_
  · rintro _ token r - - ⟨hr, htoken⟩
    have := hleft htoken
    exact ⟨by simpa [Tape.resume, Tape.leftover] using this, hr⟩
  · rintro - token - - hrematch r ⟨r₀, ⟨hr, htoken⟩, rfl⟩
    have hbase := Tape.rematch_base_le (hon.covers.pass hahead) hs.base
      (filled_append.mp (hpass hahead)).1 cut
    have hstarts : Strip.Starts store root
        ((t.pass skipped (covered ++ rest)).rematch s.text s.base earlier cut token rest) :=
      ⟨hbase, fun c hc => hs.met c (by rw [hclauses]; exact List.mem_append_left _ hc),
        (filled_append.mp (hleft htoken)).2⟩
    refine ((henter _ hrematch).imp (fun r (hr : r.From store) => ⟨hr, hstarts⟩) ?_
      fun _ _ h => h) r₀.countRematch hr
    rintro _ r ⟨hr, hswept⟩ more reach rfl - -
    have hfront := (filled_append.mp (hleft htoken)).1
    exact ⟨by simpa [Tape.resume] using filled_append.mpr ⟨hfront, hswept⟩, hr⟩

/-- **A sweep leaves no empty chunk** if those one recursion deeper do not. -/
theorem run_filled (hlead : Strip.Leading enter) (hstore : store.FindsText root)
    (henter : Strip.Filling store root enter) (hs : s.Covers) :
    Triple (fun r => r.From store ∧ s.Starts store root) (s.run Tape.step enter limits)
      (fun swept r => r.From store ∧ Filled swept.chunks) fun e _ => e.toClass ≠ .overrun := by
  rintro r ⟨hr, hstarts⟩
  refine hlead.run_keeps hs (fun chunks r => r.From store ∧ Filled chunks) ?_ r
    ⟨hr, hstarts.filled⟩
  rintro earlier clause later hclauses t hon r ⟨hr, hfilled⟩
  refine (step_filled hlead hstore henter hstarts hclauses hon hfilled).post ?_ r hr
  rintro next r ⟨hnextFilled, hr⟩
  exact ⟨fun _ => ⟨hr, hfilled⟩, fun t' hnext => ⟨hr, hnextFilled t' hnext⟩⟩

end Step

/-- Every way of going deeper leaves no empty chunk. -/
theorem descend_filling {store : Store} {root : GrammarId} (hstore : store.FindsText root)
    (limits : Limits) (levels depth : Nat) :
    Strip.Filling store root (Strip.descend Tape.step limits levels depth) :=
  Strip.descend_triple (fun _ s r => r.From store ∧ s.Starts store root)
    (fun _ _ swept r => r.From store ∧ Filled swept.chunks)
    (fun _ _ _ => refuse_triple fun _ _ _ hclass _ => by rw [hclass]; nofun)
    (fun _ _ _ _ h => h) (fun _ _ hlead henter _ hs => run_filled hlead hstore henter hs)
    levels depth

/-- What is no grammar has no chunks. -/
theorem chunksOf_other {enter : Strip.Enter} (nested : Bool) (text : Text) (kind : Kind) :
    Triple (fun _ => True) (Strip.chunksOf enter nested text (.other kind)) (fun _ _ => False)
      fun e _ => e.toClass ≠ .overrun := by
  have hresolve : Triple (fun _ => True) (RunM.resolve (.other kind)) (fun _ _ => False)
      fun e _ => e.toClass ≠ .overrun :=
    .resolve (fun _ _ _ _ _ h => nomatch h) fun _ e _ h => by
      rcases Store.blaming_resolve _ _ e h with h | h <;> simp [h]
  exact Strip.chunksOf_triple hresolve (fun _ _ _ h => h) (fun _ _ _ h => h.elim)
    fun _ _ _ h => h.elim

/-- **Where no match is empty there are never too many chunks**, and every token,
however deeply nested, has a positive length. -/
theorem tokenize_filled {limits : Limits} {frames : Option Nat} {store : Store} {text : Text}
    {ref : Ref} (hstore : ∀ root, ref = .grammar root → store.FindsText root) :
    (∀ chunks, (tokenize limits frames store text ref).result = .ok chunks →
      ∀ t ∈ tokensOf chunks, 0 < t.length) ∧
    ∀ e, (tokenize limits frames store text ref).result = .error e → e.toClass ≠ .overrun := by
  have hfilled : Triple (· = { store })
      (Strip.chunksOf (Strip.descend Tape.step limits (Tokenizer.levels limits frames) 0) false
        text ref) (fun cs _ => Filled cs) fun e _ => e.toClass ≠ .overrun := by
    cases ref with
    | grammar root =>
      have henter := descend_filling (hstore root rfl) limits (Tokenizer.levels limits frames) 0
      refine (chunksOf_filled (hstore root rfl) henter .refl false text).imp ?_ (fun _ _ h => h.2)
        fun _ _ h => h
      rintro _ rfl
      exact fun _ _ h => h
    | other kind =>
      exact (chunksOf_other false text kind).imp (fun _ _ => trivial) (fun _ _ h => h.elim)
        fun _ _ h => h
  have hend := tokenize_of_triple store hfilled rfl
  refine ⟨fun chunks hresult => ?_, fun e hresult => ?_⟩
  · rw [hresult] at hend
    exact hend.tokens
  · rw [hresult] at hend
    exact hend

/-! ### Telling that no match is empty -/

/-- Whether it can be seen of all rules of a store that they find no empty text. -/
def Store.isSolid (s : Store) : Bool :=
  s.grammars.toList.all fun g =>
    (g.resolution.toList ++ (s.resolveOne g).toOption.toList).all fun r =>
      r.clauses.all fun c => c.rule.pattern.tree.isSolid c.rule.lookbehind

/-- Where it can be seen of all rules, no grammar comes to one that finds the empty
text. -/
theorem Store.findsText_of_isSolid {s : Store} (h : s.isSolid = true) (root : GrammarId) :
    s.FindsText root := by
  intro id r clause _ hworks hclause text offset m hoffset hfound
  obtain ⟨g, hget, hr⟩ : ∃ g, s.get? id = some g ∧
      r ∈ g.resolution.toList ++ (s.resolveOne g).toOption.toList := by
    rcases hworks with hcached | ⟨-, g, hget, hone⟩
    · obtain ⟨g, hget, hr⟩ := Option.bind_eq_some_iff.mp hcached
      exact ⟨g, hget, by simp [hr]⟩
    · exact ⟨g, hget, by simp [hone, Except.toOption]⟩
  have hmem : g ∈ s.grammars.toList := by
    rw [Array.mem_toList_iff]
    exact Array.mem_of_getElem? hget
  have hsolid := List.all_eq_true.mp (List.all_eq_true.mp (List.all_eq_true.mp h g hmem) r hr)
    clause hclause
  exact Pattern.text_ne_nil_of_find? hsolid hoffset hfound

theorem isSolid_quoting : quoting.isSolid = true := by
  decide +kernel

end Highlight
