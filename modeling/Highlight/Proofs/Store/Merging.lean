/-
# What a fallback changes

A grammar is resolved from two lists of entries, its own and those of its fallback, put
together before anything is compiled.  For every type one of the two declarations is
chosen, and only those that are chosen are compiled:

| declared by           | place                     | declaration      |
|-----------------------|---------------------------|------------------|
| the grammar           | its own                   | its own          |
| the fallback          | after the grammar's types | the fallback's   |
| both                  | that in the grammar       | the fallback's   |

The merge goes through the entries of the fallback one by one, each put in its place.
`types_merge` and `lookup_merge` say what comes out: the types of the table's second
column, and under each of them the declaration of its third (`Entries.chosen`).

What compiling gives is said apart from how it goes.  An alternative makes a rule
(`Alternative.Makes`) if the pattern is one that can be compiled, the capture that is taken
for context is there, and the nested grammar is a grammar; all else is taken over.  The
entries compile if and only if every alternative in them makes a rule
(`Entries.compile_eq_ok_iff`), and so a defect in a declaration that is not chosen is not
seen (`resolveOne_merges`).
-/

import Highlight.Proofs.Store.Changes
import Mathlib.Data.List.Forall2

namespace Highlight

namespace Entries

variable {es own fallback : Entries} {type : String} {d : Declaration}

/-- The types that entries declare, in order. -/
def types (es : Entries) : List String :=
  es.map Prod.fst

/-- The declaration that counts for a type: that of the fallback, or else its own. -/
def chosen (own fallback : Entries) (type : String) : Option Declaration :=
  (fallback.lookup type).or (own.lookup type)

theorem types_cons (entry : String × Declaration) (es : Entries) :
    types (entry :: es) = entry.1 :: types es :=
  rfl

theorem merge_cons (own : Entries) (entry : String × Declaration) (fallback : Entries) :
    merge own (entry :: fallback) = merge (put entry.1 entry.2 own) fallback :=
  rfl

theorem lookup_cons (entry : String × Declaration) (es : Entries) (type : String) :
    (entry :: es).lookup type = if type = entry.1 then some entry.2 else es.lookup type := by
  rw [List.lookup_cons]
  by_cases heq : type = entry.1
  · rw [if_pos heq, beq_iff_eq.mpr heq]
  · rw [if_neg heq, beq_false_of_ne heq]

theorem lookup_eq_none : es.lookup type = none ↔ type ∉ types es := by
  rw [List.lookup_eq_none_iff, types, List.mem_map]
  constructor
  · rintro h ⟨entry, hentry, rfl⟩
    simpa using h entry hentry
  · rintro h entry hentry
    rw [bne_iff_ne]
    rintro rfl
    exact h ⟨entry, hentry, rfl⟩

/-- The entries are those that are found by their types, if no type stands twice. -/
theorem mem_iff_lookup (hnodup : (types es).Nodup) :
    (type, d) ∈ es ↔ es.lookup type = some d := by
  induction es with
  | nil => simp
  | cons entry es ih =>
    obtain ⟨hentry, hnodup⟩ := List.nodup_cons.mp hnodup
    rw [List.mem_cons, lookup_cons, ih hnodup]
    split
    · rename_i heq
      rw [heq, lookup_eq_none.mpr hentry]
      simp [Prod.ext_iff, eq_comm]
    · rename_i hne
      simp [hne, Prod.ext_iff]

/-! ### Putting one entry -/

theorem types_put (es : Entries) (type : String) (d : Declaration) :
    types (put type d es) = if type ∈ types es then types es else types es ++ [type] := by
  induction es with
  | nil => rfl
  | cons entry es ih =>
    rw [put]
    by_cases heq : entry.1 = type
    · simp [heq, types_cons]
    · rw [if_neg heq, types_cons, types_cons, ih]
      by_cases hmem : type ∈ types es
      · simp [hmem]
      · simp [hmem, Ne.symm heq]

theorem lookup_put (es : Entries) (type : String) (d : Declaration) (other : String) :
    (put type d es).lookup other = if other = type then some d else es.lookup other := by
  induction es with
  | nil => rw [put, lookup_cons]
  | cons entry es ih =>
    rw [put]
    by_cases heq : entry.1 = type
    · rw [if_pos heq, lookup_cons, lookup_cons, heq]
      by_cases hother : other = type
      · rw [if_pos hother, if_pos hother]
      · rw [if_neg hother, if_neg hother, if_neg hother]
    · rw [if_neg heq, lookup_cons, lookup_cons, ih]
      by_cases hother : other = type
      · rw [if_pos hother, if_pos hother, if_neg (hother ▸ Ne.symm heq)]
      · rw [if_neg hother, if_neg hother]

/-- Nothing changes if an entry is put that is there. -/
theorem put_eq_self (h : es.lookup type = some d) : put type d es = es := by
  induction es with
  | nil => cases h
  | cons entry es ih =>
    rw [lookup_cons] at h
    rw [put]
    by_cases heq : entry.1 = type
    · rw [if_pos heq.symm] at h
      cases h
      rw [if_pos heq, ← heq]
    · rw [if_neg (Ne.symm heq)] at h
      rw [if_neg heq, ih h]

/-! ### Merging -/

/-- **The types of merged entries**: the own ones, then those that only the fallback
declares. -/
theorem types_merge (own : Entries) (hnodup : (types fallback).Nodup) :
    types (merge own fallback) = types own ++ (types fallback).filter (· ∉ types own) := by
  induction fallback generalizing own with
  | nil => exact (List.append_nil _).symm
  | cons entry fallback ih =>
    obtain ⟨hentry, hnodup⟩ := List.nodup_cons.mp hnodup
    rw [merge_cons, ih _ hnodup, types_put, types_cons]
    by_cases hmem : entry.1 ∈ types own
    · rw [if_pos hmem, List.filter_cons_of_neg (by simpa using hmem)]
    · rw [if_neg hmem, List.filter_cons_of_pos (by simpa using hmem), List.append_assoc]
      refine congrArg (types own ++ entry.1 :: ·) (List.filter_congr fun type htype => ?_)
      have hne : type ≠ entry.1 := fun heq => hentry (heq ▸ htype)
      simp [hne]

/-- No type stands twice in merged entries. -/
theorem nodup_merge (hown : (types own).Nodup) (hfallback : (types fallback).Nodup) :
    (types (merge own fallback)).Nodup := by
  rw [types_merge own hfallback]
  refine hown.append (hfallback.filter _) fun type htype hfresh => ?_
  simpa [htype] using List.of_mem_filter hfresh

/-- **The declaration of the fallback is chosen** wherever there is one. -/
theorem lookup_merge (own : Entries) (hnodup : (types fallback).Nodup) (type : String) :
    (merge own fallback).lookup type = chosen own fallback type := by
  induction fallback generalizing own with
  | nil => rfl
  | cons entry fallback ih =>
    obtain ⟨hentry, hnodup⟩ := List.nodup_cons.mp hnodup
    rw [merge_cons, ih _ hnodup, chosen, chosen, lookup_put, lookup_cons]
    by_cases heq : type = entry.1
    · have hnone : fallback.lookup type = none := lookup_eq_none.mpr (heq ▸ hentry)
      rw [if_pos heq, if_pos heq, hnone]
      rfl
    · rw [if_neg heq, if_neg heq]

/-- Entries that are there already change nothing. -/
theorem merge_eq_self (h : ∀ entry ∈ fallback, own.lookup entry.1 = some entry.2) :
    merge own fallback = own := by
  induction fallback with
  | nil => rfl
  | cons entry fallback ih =>
    rw [merge_cons, put_eq_self (h entry List.mem_cons_self)]
    exact ih fun entry hentry => h entry (List.mem_cons_of_mem _ hentry)

end Entries

/-! ### What compiling makes -/

/-- The pattern that an expression stands for. -/
inductive Expression.Denotes : Expression → Pattern → Prop where
  | source {text : Text} {pattern : Pattern} (h : Pattern.compile text = .ok pattern) :
    Denotes (.source text) pattern
  | compiled (pattern : Pattern) : Denotes (.compiled pattern) pattern

/-- A declared rule is in order, and a compiled one is what it comes to. -/
structure Rule.Makes (r : Rule Operand Ref) (c : CompiledRule) : Prop where
  pattern : ∃ e, r.pattern = .expression e ∧ e.Denotes c.pattern
  capture : r.lookbehind = true → c.pattern.groups ≠ 0
  lookbehind : c.lookbehind = r.lookbehind
  greedy : c.greedy = r.greedy
  inside : c.inside.map Ref.grammar = r.inside
  display : c.display = r.display

/-- An alternative is in order, and a compiled rule is what it comes to. -/
def Alternative.Makes : Alternative → CompiledRule → Prop
  | .pattern e, c => Rule.Makes { pattern := .expression e } c
  | .rule r, c => r.Makes c
  | .other _, _ => False

/-- A declaration is in order, and compiled rules are what its alternatives come to. -/
def Declaration.Makes (d : Declaration) (cs : List CompiledRule) : Prop :=
  List.Forall₂ Alternative.Makes d.alternatives cs

section Compile

variable {α β : Type} {type : String} {c : CompiledRule}

theorem bind_eq_ok_iff {x : Except Failure α} {f : α → Except Failure β} {b : β} :
    x >>= f = .ok b ↔ ∃ a, x = .ok a ∧ f a = .ok b := by
  refine ⟨exists_of_bind_eq_ok, ?_⟩
  rintro ⟨a, rfl, h⟩
  exact h

/-- A check lets a list through if it lets every member through. -/
theorem mapM_eq_ok_iff {f : α → Except Failure β} {as : List α} {bs : List β} :
    as.mapM f = .ok bs ↔ List.Forall₂ (fun a b => f a = .ok b) as bs := by
  induction as generalizing bs with
  | nil =>
    rw [List.forall₂_nil_left_iff]
    constructor
    · rintro ⟨⟩
      rfl
    · rintro rfl
      rfl
  | cons a as ih =>
    rw [List.mapM_cons, List.forall₂_cons_left_iff, bind_eq_ok_iff]
    constructor
    · rintro ⟨b, hb, h⟩
      obtain ⟨bs', hbs, h⟩ := bind_eq_ok_iff.mp h
      cases h
      exact ⟨b, bs', hb, ih.mp hbs, rfl⟩
    · rintro ⟨b, bs', hb, hbs, rfl⟩
      exact ⟨b, hb, bind_eq_ok_iff.mpr ⟨bs', ih.mpr hbs, rfl⟩⟩

theorem Expression.compile_eq_ok_iff {e : Expression} {pattern : Pattern} :
    e.compile type = .ok pattern ↔ e.Denotes pattern := by
  constructor
  · intro h
    cases e with
    | source text =>
      rw [compile] at h
      split at h
      · rename_i hcompile
        cases h
        exact .source hcompile
      · cases h
    | compiled pattern =>
      cases h
      exact .compiled _
    | bytes source => cases h
  · rintro (hcompile | _)
    · rw [compile, hcompile]
    · rfl

theorem Operand.compile_eq_ok_iff {o : Operand} {pattern : Pattern} :
    o.compile type = .ok pattern ↔ ∃ e, o = .expression e ∧ e.Denotes pattern := by
  cases o with
  | expression e =>
    rw [compile, Expression.compile_eq_ok_iff]
    constructor
    · exact fun h => ⟨e, rfl, h⟩
    · rintro ⟨_, ⟨⟩, h⟩
      exact h
  | absent => exact ⟨nofun, nofun⟩
  | other kind => exact ⟨nofun, nofun⟩

theorem Rule.compile_eq_ok_iff {r : Rule Operand Ref} : r.compile type = .ok c ↔ r.Makes c := by
  constructor
  · intro h
    obtain ⟨pattern, hpattern, h⟩ := exists_of_bind_eq_ok h
    have hdenotes := Operand.compile_eq_ok_iff.mp hpattern
    dsimp only at h
    split at h
    · cases h
    · rename_i hcapture
      have hcapture : r.lookbehind = true → pattern.groups ≠ 0 := by simpa using hcapture
      split at h
      · rename_i hinside
        cases h
        exact ⟨hdenotes, hcapture, rfl, rfl, hinside.symm, rfl⟩
      · rename_i hinside
        cases h
        exact ⟨hdenotes, hcapture, rfl, rfl, hinside.symm, rfl⟩
      · cases h
  · rintro ⟨hpattern, hcapture, hlookbehind, hgreedy, hinside, hdisplay⟩
    refine bind_eq_ok_iff.mpr ⟨c.pattern, Operand.compile_eq_ok_iff.mpr hpattern, ?_⟩
    have hpass : ¬ (r.lookbehind && decide (c.pattern.groups = 0)) = true := by simpa using hcapture
    rw [if_neg hpass, ← hinside]
    obtain ⟨pattern, lookbehind, greedy, inside, display⟩ := c
    subst hlookbehind hgreedy hdisplay
    cases inside with
    | none => rfl
    | some id => rfl

theorem Alternative.compile_eq_ok_iff {a : Alternative} : a.compile type = .ok c ↔ a.Makes c := by
  cases a with
  | pattern e => exact Rule.compile_eq_ok_iff
  | rule r => exact Rule.compile_eq_ok_iff
  | other kind => exact ⟨nofun, nofun⟩

theorem Declaration.compile_eq_ok_iff {d : Declaration} {cs : List CompiledRule} :
    d.compile type = .ok cs ↔ d.Makes cs := by
  have hmany (as : List Alternative) :
      as.mapM (·.compile type) = .ok cs ↔ List.Forall₂ Alternative.Makes as cs := by
    simp only [mapM_eq_ok_iff, Alternative.compile_eq_ok_iff]
  have hone (a : Alternative) :
      (do return [← a.compile type] : Except Failure _) = .ok cs ↔
        [a].mapM (·.compile type) = .ok cs := by
    rw [List.mapM_cons, List.mapM_nil]
    rfl
  rw [Makes]
  match d with
  | .single (.other kind) =>
    refine ⟨nofun, fun h => ?_⟩
    obtain ⟨c, _, hmakes, -⟩ := List.forall₂_cons_left_iff.mp h
    cases hmakes
  | .single (.pattern e) => exact (hone _).trans (hmany _)
  | .single (.rule r) => exact (hone _).trans (hmany _)
  | .several as => exact hmany as

/-- **Entries compile to what each of them makes**, in order. -/
theorem Entries.compile_eq_ok_iff {es : Entries} {entries : List (String × List CompiledRule)} :
    es.compile = .ok entries ↔
      List.Forall₂ (fun entry compiled => compiled.1 = entry.1 ∧ entry.2.Makes compiled.2) es
        entries := by
  rw [compile, mapM_eq_ok_iff]
  refine iff_of_eq (congrArg (List.Forall₂ · es entries) ?_)
  funext entry compiled
  rw [bind_eq_ok_iff, eq_iff_iff]
  constructor
  · rintro ⟨rules, hrules, h⟩
    cases h
    exact ⟨rfl, Declaration.compile_eq_ok_iff.mp hrules⟩
  · rintro ⟨htype, hrules⟩
    exact ⟨compiled.2, Declaration.compile_eq_ok_iff.mpr hrules, by rw [← htype]; rfl⟩

/-- What a relation tells of the members of one list, it tells of some in the other. -/
theorem exists_of_forall₂ {P : α → β → Prop} {as : List α} {bs : List β}
    (h : List.Forall₂ P as bs) {b : β} (hb : b ∈ bs) : ∃ a ∈ as, P a b := by
  induction h with
  | nil => cases hb
  | @cons a _ _ _ hfirst _ ih =>
    rcases List.mem_cons.mp hb with rfl | hb
    · exact ⟨a, List.mem_cons_self, hfirst⟩
    · obtain ⟨a, ha, hP⟩ := ih hb
      exact ⟨a, List.mem_cons_of_mem _ ha, hP⟩

/-- A list is related to some list if every member is related to something. -/
theorem exists_forall₂_iff {P : α → β → Prop} {as : List α} :
    (∃ bs, List.Forall₂ P as bs) ↔ ∀ a ∈ as, ∃ b, P a b := by
  induction as with
  | nil => exact ⟨fun _ _ ha => absurd ha List.not_mem_nil, fun _ => ⟨[], .nil⟩⟩
  | cons a as ih =>
    rw [List.forall_mem_cons, ← ih]
    constructor
    · rintro ⟨_, h⟩
      obtain ⟨b, bs, hb, hbs, -⟩ := List.forall₂_cons_left_iff.mp h
      exact ⟨⟨b, hb⟩, bs, hbs⟩
    · rintro ⟨⟨b, hb⟩, bs, hbs⟩
      exact ⟨b :: bs, .cons hb hbs⟩

/-- Entries compile if every alternative in them is in order. -/
theorem Entries.exists_compile_iff {es : Entries} :
    (∃ entries, es.compile = .ok entries) ↔
      ∀ entry ∈ es, ∀ a ∈ entry.2.alternatives, ∃ c, a.Makes c := by
  simp only [Entries.compile_eq_ok_iff, exists_forall₂_iff]
  refine forall₂_congr fun entry _ => ?_
  rw [← exists_forall₂_iff]
  constructor
  · rintro ⟨compiled, -, hmakes⟩
    exact ⟨compiled.2, hmakes⟩
  · rintro ⟨rules, hmakes⟩
    exact ⟨(entry.1, rules), rfl, hmakes⟩

end Compile

/-! ### Resolving -/

/-- A resolution has the types of both lists of entries, those of the fallback that are new
at the end, and under each of them what the chosen declaration makes. -/
structure Resolution.Merges (r : Resolution) (own fallback : Entries) : Prop where
  types_eq : r.types = own.types ++ fallback.types.filter (· ∉ own.types)
  nodup : r.types.Nodup
  makes : ∀ type rules, (type, rules) ∈ r.entries →
    ∃ d, own.chosen fallback type = some d ∧ d.Makes rules

namespace Store

variable {s : Store} {g : Grammar} {fallback : Entries} {r : Resolution}

/-- A grammar resolves to what its merged entries compile to, under its name. -/
theorem resolveOne_of_fallbackEntries (hrest : s.fallbackEntries g.rest = .ok fallback) :
    s.resolveOne g =
      (fun entries => ⟨entries, g.name⟩) <$> (Entries.merge g.entries fallback).compile := by
  rw [resolveOne_eq, rules, hrest]
  rfl

theorem merges_of_compile {entries : List (String × List CompiledRule)} {own : Entries}
    (hown : own.types.Nodup) (hfallback : fallback.types.Nodup)
    (h : (Entries.merge own fallback).compile = .ok entries) (name : Option String) :
    Resolution.Merges ⟨entries, name⟩ own fallback := by
  have hnodup := Entries.nodup_merge hown hfallback
  have htypes : Resolution.types ⟨entries, name⟩ = (Entries.merge own fallback).types :=
    map_eq_of_mapM (fun entry compiled hentry => by
      obtain ⟨rules, -, hentry⟩ := exists_of_bind_eq_ok hentry
      cases hentry
      rfl) h
  refine ⟨htypes.trans (Entries.types_merge own hfallback), by rwa [htypes], ?_⟩
  intro type rules hmem
  obtain ⟨entry, hentry, rfl, hmakes⟩ :=
    exists_of_forall₂ (Entries.compile_eq_ok_iff.mp h) hmem
  refine ⟨entry.2, ?_, hmakes⟩
  rw [← Entries.lookup_merge own hfallback, ← Entries.mem_iff_lookup hnodup]
  exact hentry

theorem exists_resolveOne_iff (hown : (Entries.types g.entries).Nodup)
    (hrest : s.fallbackEntries g.rest = .ok fallback) (hfallback : fallback.types.Nodup) :
    (∃ r, s.resolveOne g = .ok r) ↔ ∀ type d, Entries.chosen g.entries fallback type = some d →
      ∀ a ∈ d.alternatives, ∃ c, a.Makes c := by
  have hnodup := Entries.nodup_merge hown hfallback
  have hcompile : (∃ r, s.resolveOne g = .ok r) ↔
      ∃ entries, (Entries.merge g.entries fallback).compile = .ok entries := by
    rw [resolveOne_of_fallbackEntries hrest]
    cases (Entries.merge g.entries fallback).compile with
    | error e => exact ⟨nofun, nofun⟩
    | ok entries => exact ⟨fun _ => ⟨entries, rfl⟩, fun _ => ⟨_, rfl⟩⟩
  rw [hcompile, Entries.exists_compile_iff, Prod.forall]
  simp only [Entries.mem_iff_lookup hnodup, Entries.lookup_merge _ hfallback]

/-- The fallbacks of other grammars play no part. -/
theorem resolveOne_setRest (s : Store) (g : Grammar) (id : GrammarId) (rest : Option Ref) :
    (s.setRest id rest).resolveOne g = s.resolveOne g :=
  resolveOne_of_fallback (congrFun (fallbackEntries_setRest s id rest) g.rest)

/-- A grammar that is its own fallback resolves to what it does without one. -/
theorem resolveOne_self {id : GrammarId} (hown : (Entries.types g.entries).Nodup)
    (hget : s.get? id = some g) :
    s.resolveOne (g.setRest (some (.grammar id))) = s.resolveOne (g.setRest none) := by
  have hself : s.fallbackEntries (some (.grammar id)) = .ok g.entries := by
    rw [fallbackEntries, hget]
    rfl
  have hmerge : Entries.merge g.entries g.entries = g.entries :=
    Entries.merge_eq_self fun _ hentry => (Entries.mem_iff_lookup hown).mp hentry
  have hnone : s.fallbackEntries (g.setRest none).rest = .ok [] := rfl
  rw [resolveOne_of_fallbackEntries (g := g.setRest (some (.grammar id))) hself,
    resolveOne_of_fallbackEntries hnone]
  exact congrArg (_ <$> Entries.compile ·) hmerge

/-- **Merging goes one level deep.**  When a grammar and its fallback declare no type twice,
the grammar resolves to the types of both, its own first, with the fallback's declarations
wherever there are any; it resolves whenever all the declarations so chosen are in order,
whatever has been overridden; and neither the fallback of another grammar makes a difference
to it, nor that of the fallback, nor being one's own fallback. -/
theorem resolveOne_merges (hown : (Entries.types g.entries).Nodup)
    (hrest : s.fallbackEntries g.rest = .ok fallback) (hfallback : fallback.types.Nodup) :
    (∀ r, s.resolveOne g = .ok r → r.Merges g.entries fallback) ∧
      ((∃ r, s.resolveOne g = .ok r) ↔
        ∀ type d, Entries.chosen g.entries fallback type = some d →
          ∀ a ∈ d.alternatives, ∃ c, a.Makes c) ∧
      (∀ id rest, (s.setRest id rest).resolveOne g = s.resolveOne g) ∧
      ∀ id, s.get? id = some g →
        (s.setRest id (some (.grammar id))).resolveOne (g.setRest (some (.grammar id))) =
          (s.setRest id none).resolveOne (g.setRest none) := by
  refine ⟨fun r h => ?_, exists_resolveOne_iff hown hrest hfallback,
    fun id rest => resolveOne_setRest s g id rest, fun id hget => ?_⟩
  · rw [resolveOne_of_fallbackEntries hrest] at h
    cases hcompile : (Entries.merge g.entries fallback).compile with
    | error e =>
      rw [hcompile] at h
      cases h
    | ok entries =>
      rw [hcompile] at h
      cases h
      exact merges_of_compile hown hfallback hcompile g.name
  · rw [resolveOne_setRest, resolveOne_setRest, resolveOne_self hown hget]

/-- Numbers with a fallback that declares their signs anew, and falls back on them in turn.
What they declare for signs themselves is no pattern. -/
def numbers : Grammar where
  entries := [
    ("digit", .single (.pattern (.source "[0-9]".toList))),
    ("sign", .single (.pattern (.source "(".toList))),
    ("blank", .single (.pattern (.source " ".toList)))]
  rest := some (.grammar 1)

/-- The fallback of `numbers`. -/
def signs : Grammar where
  entries := [
    ("letter", .single (.pattern (.source "[a-z]".toList))),
    ("sign", .several [
      .pattern (.source "[+]".toList),
      .rule { pattern := .expression (.source "( )-".toList), lookbehind := true }])]
  rest := some (.grammar 0)

/-- The store of `numbers` and `signs`. -/
def overlapping : Store where
  grammars := #[numbers, signs]

/-- The signs stay between digits and blanks, with the two rules of the fallback; the type
that is new comes last. -/
theorem resolveOne_merges_overlapping :
    (overlapping.resolveOne numbers).toOption.map (fun r => (r.types, r.ruleCount)) =
        some (["digit", "sign", "blank", "letter"], 5) ∧
      (∀ r, overlapping.resolveOne numbers = .ok r → r.Merges numbers.entries signs.entries) ∧
      ((∃ r, overlapping.resolveOne numbers = .ok r) ↔
        ∀ type d, Entries.chosen numbers.entries signs.entries type = some d →
          ∀ a ∈ d.alternatives, ∃ c, a.Makes c) ∧
      (∀ id rest, (overlapping.setRest id rest).resolveOne numbers =
        overlapping.resolveOne numbers) ∧
      ∀ id, overlapping.get? id = some numbers →
        (overlapping.setRest id (some (.grammar id))).resolveOne
            (numbers.setRest (some (.grammar id))) =
          (overlapping.setRest id none).resolveOne (numbers.setRest none) :=
  ⟨by decide +kernel, resolveOne_merges (by decide +kernel) rfl (by decide +kernel)⟩

end Store
end Highlight
