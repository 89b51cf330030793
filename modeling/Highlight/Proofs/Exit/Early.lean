/-
# What stopping early loses

A greedy rule stops where its search finds nothing in the rest of the text, or something
that begins beyond the end.  A rule that goes on all the same, chunk by chunk
(`Walk.stepPatiently`), searches again from each plain chunk that is left.

If those searches find nothing either then it makes no difference that the rule stops
(`tokenizePatiently_eq`).  So it is if the rule sees its whole match, because a search finds
the first match from its offset on (`Clause.movesRight_of_lookbehind`); and so it is if it
never finds the empty text, because what begins beyond the end is empty
(`Clause.movesRight_of_findsText`).

A rule that takes its first capture for context may find the empty text at the end of the
context, and that may be the end of the text, where the match itself is not.  Then a match
further on is lost (`loses_later_match`).
-/

import Highlight.Proofs.Exit.Abreast
import Highlight.Proofs.Saturation.Completeness

namespace Highlight

open Chunk RunM

/-! ### Runs that do not stop early -/

/-- A run over a text, as a computation, in which greedy rules go on where they find
nothing. -/
def Tokenizer.runPatiently (limits : Limits) (frames : Option Nat) (text : Text) (ref : Ref) :
    RunM (List Chunk) :=
  chunksOf (descend Walk.stepPatiently limits (levels limits frames) 0) false text ref

/-- Cuts a text into chunks by greedy rules that go on where they find nothing. -/
def tokenizePatiently (limits : Limits) (frames : Option Nat) (store : Store) (text : Text)
    (ref : Ref) : Report :=
  .of ((Tokenizer.runPatiently limits frames text ref).run { store })

/-! ### Rules whose matches move right -/

/-- Where a pattern matches nowhere before the end, a search finds nothing before the end. -/
theorem Pattern.length_le_start {p : Pattern} {text : Text} {offset : Nat} {hit : Hit}
    (hnone : ∀ s, offset ≤ s → s < text.length → p.at? text s = none)
    (hlen : offset ≤ text.length) (h : p.search? text offset = some hit) :
    text.length ≤ hit.start := by
  have hfrom := (search?_bounds h).1
  rw [Nat.min_eq_left hlen] at hfrom
  have hat := (at?_of_search? hlen h).1
  by_contra hlt
  rw [hnone hit.start hfrom (Nat.lt_of_not_le hlt)] at hat
  cases hat

namespace Clause

variable {clause : Clause} {text : Text} {offset : Nat}

/-- A rule finds nothing from an offset on, or only something beyond the end. -/
def Spent (clause : Clause) (text : Text) (offset : Nat) : Prop :=
  ∀ m, clause.rule.pattern.find? text offset clause.rule.lookbehind = some m →
    text.length ≤ m.index

/-- Where a greedy rule finds nothing, it finds nothing further on. -/
def MovesRight (clause : Clause) : Prop :=
  clause.rule.greedy = true → ∀ text offset offset', offset ≤ offset' → offset' ≤ text.length →
    clause.Spent text offset → clause.Spent text offset'

/-- The matches of a rule that takes nothing for context move right. -/
theorem movesRight_of_lookbehind (h : clause.rule.lookbehind = false) : clause.MovesRight := by
  intro _ text offset offset' hle hlen hspent m hm
  have hstart := Nat.le_trans hle hlen
  -- What the search from the left finds is the first match there is.
  have hnone (s : Nat) (hs : offset ≤ s) (hend : s < text.length) :
      clause.rule.pattern.at? text s = none := by
    cases hfound : clause.rule.pattern.find? text offset clause.rule.lookbehind with
    | none =>
      exact Pattern.at?_eq_none_of_search? hstart (Pattern.find?_eq_none_iff.mp hfound) hs hend.le
    | some m' =>
      have hbeyond := hspent m' hfound
      rw [h] at hfound
      obtain ⟨hit, hhit, hindex⟩ := Pattern.index_of_find? hfound
      exact (Pattern.at?_of_search? hstart hhit).2 s hs (by omega)
  rw [h] at hm
  obtain ⟨hit, hhit, hindex⟩ := Pattern.index_of_find? hm
  rw [hindex]
  exact Pattern.length_le_start (fun s hs => hnone s (Nat.le_trans hle hs)) hlen hhit

/-- The matches of a rule that never finds the empty text move right. -/
theorem movesRight_of_findsText (h : clause.FindsText) : clause.MovesRight := by
  intro _ text offset offset' hle hlen hspent m hm
  have hstart := Nat.le_trans hle hlen
  have hnone : clause.rule.pattern.find? text offset clause.rule.lookbehind = none := by
    cases hfound : clause.rule.pattern.find? text offset clause.rule.lookbehind with
    | none => rfl
    | some m' =>
      have hempty := Pattern.find?_text hfound
      rw [List.drop_eq_nil_of_le (hspent m' hfound), List.take_nil] at hempty
      exact absurd hempty (h text offset m' hstart hfound)
  have hsearch := Pattern.find?_eq_none_iff.mp hnone
  obtain ⟨hit, context, hhit, -, rfl⟩ := Pattern.find?_eq_some hm
  have hbeyond := Pattern.length_le_start (fun s hs hend =>
    Pattern.at?_eq_none_of_search? hstart hsearch (Nat.le_trans hle hs) hend.le) hlen hhit
  exact Nat.le_trans hbeyond (Nat.le_add_right ..)

end Clause

/-! ### Going on where nothing is found -/

namespace Tape

variable {enter enter' : Strip.Enter} {limits : Limits} {text chunk : Text} {base : Nat}
  {earlier : List Clause} {clause : Clause} {t : Tape} {rest : List Chunk}

/-- A rule that stops is greedy and finds nothing. -/
theorem spent_of_stop (h : Chosen text clause t chunk rest .stop) :
    clause.rule.greedy = true ∧ clause.Spent text t.offset := by
  cases h with
  | greedy hgreedy h =>
    refine ⟨hgreedy, fun m hm => ?_⟩
    cases h with
    | none h =>
      rw [h] at hm
      cases hm
    | beyond m' h hindex =>
      rw [h] at hm
      cases hm
      exact hindex

/-- A greedy rule that finds nothing stops. -/
theorem choose_of_spent (hgreedy : clause.rule.greedy = true) (h : clause.Spent text t.offset) :
    t.choose text clause chunk rest = .stop := by
  rw [choose, if_pos hgreedy]
  cases hfound : clause.rule.pattern.find? text t.offset clause.rule.lookbehind with
  | none => rfl
  | some m => rw [greedyMove, if_pos (h m hfound)]

/-- Where a greedy rule finds nothing it passes one chunk, or is at the end of its region. -/
theorem stepPatiently_of_spent (hsteps : limits.maxSteps = none) (htime : limits.timeout = none)
    (hgreedy : clause.rule.greedy = true) (hspent : clause.Spent text t.offset)
    (hsize : base + t.passed.length + t.ahead.length ≤ text.length) (r : Run) :
    ∃ next n, (stepPatiently enter limits text base earlier clause t).run r =
        .ok next (r.withAttempts n) ∧
      (next = none ∨ ∃ c rest, t.ahead = c :: rest ∧ next = some (t.pass [c] rest)) := by
  unfold stepPatiently stepWith
  split
  · exact ⟨none, r.attempts, rfl, Or.inl rfl⟩
  · dsimp only
    rw [if_neg (Nat.not_lt.mpr hsize)]
    cases hahead : t.ahead with
    | nil => exact ⟨none, r.attempts, rfl, Or.inl rfl⟩
    | cons c rest =>
      cases c with
      | plain chunk =>
        refine ⟨some (t.pass [.plain chunk] rest), r.countAttempt.attempts, ?_,
          Or.inr ⟨_, rest, rfl, rfl⟩⟩
        dsimp only
        rw [EStateM.run_bind, run_charge_of_unlimited hsteps htime]
        dsimp only
        rw [choose_of_spent hgreedy hspent]
        rfl
      | leaf tag text | node tag parts =>
        exact ⟨_, r.attempts, rfl, Or.inr ⟨_, rest, rfl, rfl⟩⟩

/-- **A greedy rule that goes on where it finds nothing changes nothing**, if it finds
nothing further on. -/
theorem finish_of_spent (hsteps : limits.maxSteps = none) (htime : limits.timeout = none)
    (hgreedy : clause.rule.greedy = true) (hright : clause.MovesRight)
    (hcover : t.offset + extents t.ahead = text.length) (hspent : clause.Spent text t.offset)
    (hsize : base + t.passed.length + t.ahead.length ≤ text.length) {fuel : Nat}
    (hfuel : t.ahead.length < fuel) (r : Run) :
    ∃ t' n, (finish (stepPatiently enter limits text base earlier clause) fuel t).run r =
        .ok t' (r.withAttempts n) ∧
      t'.passed ++ t'.ahead = t.passed ++ t.ahead ∧ t'.reach = t.reach := by
  induction fuel generalizing t r with
  | zero => omega
  | succ fuel ih =>
    obtain ⟨next, n, hrun, hnext⟩ :=
      stepPatiently_of_spent hsteps htime hgreedy hspent hsize r
    rw [finish, EStateM.run_bind, hrun]
    dsimp only
    rcases hnext with rfl | ⟨c, rest, hahead, rfl⟩
    · exact ⟨t, n, rfl, rfl, rfl⟩
    · have hoffset : (t.pass [c] rest).offset = t.offset + c.extent := by simp [pass]
      have hpassed : (t.pass [c] rest).passed.length = t.passed.length + 1 := by simp [pass]
      have hleft : (t.pass [c] rest).ahead = rest := rfl
      rw [hahead, extents_cons, ← Nat.add_assoc] at hcover
      rw [hahead, List.length_cons] at hsize hfuel
      have hmore : clause.Spent text (t.pass [c] rest).offset :=
        hright hgreedy text t.offset _ (by omega) (by omega) hspent
      obtain ⟨t', n', hend, hchunks, hreach⟩ := ih (t := t.pass [c] rest)
        (by rw [hoffset, hleft, hcover]) hmore (by rw [hpassed, hleft]; omega)
        (by rw [hleft]; omega) (r.withAttempts n)
      refine ⟨t', n', hend, ?_, hreach⟩
      rw [hchunks, hahead]
      simp [pass]

/-- Where a step of a rule leads that stops, and where one that goes on: to the same place;
or the first stops where it finds nothing, and the second passes a chunk. -/
inductive Parting (text : Text) (base : Nat) (clause : Clause) (t : Tape) :
    Option Tape → Option Tape → Prop where
  | along (next : Option Tape) : Parting text base clause t next next
  | apart (chunk : Text) (rest : List Chunk) (hahead : t.ahead = .plain chunk :: rest)
    (hgreedy : clause.rule.greedy = true) (hspent : clause.Spent text t.offset)
    (hsize : base + t.passed.length + t.ahead.length ≤ text.length) :
    Parting text base clause t none (some (t.pass [.plain chunk] rest))

end Tape

section Sweep

variable {store : Store} {root : GrammarId} {enter enter' : Strip.Enter} {limits : Limits}
  {earlier later : List Clause} {clause : Clause} {s : Strip} {t : Tape}

/-- **Steps part only where a greedy rule finds nothing.** -/
theorem step_parting (hsteps : limits.maxSteps = none) (htime : limits.timeout = none)
    (henter : Strip.Abreast store root enter enter') (hon : t.On s)
    (hmeets : store.Meets root clause) (hearlier : ∀ c ∈ earlier, store.Meets root c) :
    RunM.Abreast store (Tape.Parting s.text s.base clause t)
      (t.step enter limits s.text s.base earlier clause)
      (t.stepPatiently enter' limits s.text s.base earlier clause) := by
  unfold Tape.step Tape.stepPatiently Tape.stepWith
  split
  · exact .pure (.along none)
  · dsimp only
    split
    · exact .giveUp _ _
    · rename_i hsize
      have hsize := Nat.le_of_not_lt hsize
      cases hahead : t.ahead with
      | nil => exact .pure (.along none)
      | cons c rest =>
        cases c with
        | plain chunk =>
          refine (Abreast.charge hsteps htime).bind fun _ _ _ => ?_
          have hchosen : Tape.Chosen s.text clause t chunk rest _ :=
            Tape.choose_cases hon.covers.ahead chunk rest
          have hfits : (t.choose s.text clause chunk rest).Fits t.ahead :=
            Tape.choose_fits hahead hon.covers.ahead
          cases hmove : t.choose s.text clause chunk rest with
          | stop =>
            rw [hmove] at hchosen
            obtain ⟨hgreedy, hspent⟩ := Tape.spent_of_stop hchosen
            exact .pure (.apart chunk rest hahead hgreedy hspent hsize)
          | pass skipped rest => exact .pure (.along _)
          | cut skipped covered rest cut =>
            rw [hmove] at hfits
            refine (replace_abreast henter hmeets hearlier (hon.covers.pass hfits.1) rfl
              hfits.2).bind ?_
            rintro t' _ rfl
            exact .pure (.along _)
        | leaf tag text | node tag parts => exact .pure (.along _)

/-- **Walks end alike**, as far as what they leave is concerned. -/
theorem finish_abreast (hsteps : limits.maxSteps = none) (htime : limits.timeout = none)
    (hlead : Strip.Leading enter) (henter : Strip.Abreast store root enter enter')
    (hmeets : store.Meets root clause) (hearlier : ∀ c ∈ earlier, store.Meets root c)
    (hright : clause.MovesRight) (hon : t.On s) {fuel : Nat}
    (hfuel : s.text.length < fuel + min t.passed.length s.text.length) :
    RunM.Abreast store
      (fun t t' => t.passed ++ t.ahead = t'.passed ++ t'.ahead ∧ t.reach = t'.reach)
      (t.finish (Tape.step enter limits s.text s.base earlier clause) fuel)
      (t.finish (Tape.stepPatiently enter' limits s.text s.base earlier clause) fuel) := by
  induction fuel generalizing t with
  | zero => exact .runaway
  | succ fuel ih =>
    have hstep := ((step_parting hsteps htime henter hon hmeets hearlier).also
      (hlead.step_on hon)).also (Tape.step_advances hon.covers.ahead)
    refine hstep.bind ?_
    rintro next next' ⟨⟨hparting, hon'⟩, hadvances⟩
    cases hparting with
    | along =>
      cases next with
      | none => exact .pure ⟨rfl, rfl⟩
      | some t' =>
        obtain ⟨hpassed, hlt⟩ := hadvances t' rfl
        exact ih (hon' t' rfl) (by omega)
    | apart chunk rest hahead hgreedy hspent hsize =>
      have hpass : (t.pass [.plain chunk] rest).On s := hon.pass hahead
      have hcover := hpass.covers.ahead
      rw [hahead, List.length_cons] at hsize
      have hmore : clause.Spent s.text (t.pass [.plain chunk] rest).offset :=
        hright hgreedy s.text t.offset _ (Nat.le_add_right ..) (by omega) hspent
      have hsize' : s.base + (t.pass [.plain chunk] rest).passed.length +
          (t.pass [.plain chunk] rest).ahead.length ≤ s.text.length := by
        simp only [Tape.pass, List.length_append, List.length_singleton]
        omega
      have hleft : (t.pass [.plain chunk] rest).ahead.length < fuel := by
        simp only [Tape.pass]
        omega
      intro r n hr
      obtain ⟨t', n', hrun, hchunks, hreach⟩ := Tape.finish_of_spent hsteps htime hgreedy hright
        hcover hmore hsize' hleft (r.withAttempts n)
      rw [hrun]
      refine .ok r n' ⟨?_, hreach.symm⟩ hr
      rw [hchunks, hahead]
      simp [Tape.pass]

/-- **Walks leave the same**, if sweeps one recursion deeper do. -/
theorem walk_abreast (hsteps : limits.maxSteps = none) (htime : limits.timeout = none)
    (hlead : Strip.Leading enter) (henter : Strip.Abreast store root enter enter')
    (hmeets : store.Meets root clause) (hearlier : ∀ c ∈ earlier, store.Meets root c)
    (hright : clause.MovesRight) {state : Strip.Swept} (hstate : s.Leads state) :
    RunM.Abreast store (fun swept swept' => swept = swept' ∧ s.Leads swept)
      (s.walk Tape.step enter limits earlier clause state)
      (s.walk Tape.stepPatiently enter' limits earlier clause state) := by
  have hleads : Triple (fun _ => True) (s.walk Tape.step enter limits earlier clause state)
      (fun swept _ => s.Leads swept) fun _ _ => True :=
    (hlead.walk_triple hstate (fun _ _ => True) (fun _ _ => True) (fun t _ => (Triple.intro _).post
      fun _ _ _ => ⟨fun _ => trivial, fun _ _ => trivial⟩) fun _ h => h).post fun _ _ h => h.1
  refine Abreast.also ?_ hleads
  unfold Strip.walk
  have hfuel := Nat.le_mul_of_pos_right (s.text.length + 3) (show 0 < s.text.length + 3 by omega)
  refine (finish_abreast hsteps htime hlead henter hmeets hearlier hright (.start hstate)
    (by simp only [Walk.fuel, List.length_nil]; omega)).bind ?_
  rintro t t' ⟨hchunks, hreach⟩
  rw [hchunks, hreach]
  exact .pure rfl

/-- **Sweeps leave the same**, if those one recursion deeper do. -/
theorem run_abreast (hsteps : limits.maxSteps = none) (htime : limits.timeout = none)
    (hlead : Strip.Leading enter) (henter : Strip.Abreast store root enter enter')
    (hright : ∀ clause, store.Meets root clause → clause.MovesRight) (hs : s.Covers)
    (hmeets : ∀ clause ∈ s.clauses, store.Meets root clause) :
    RunM.Abreast store Eq (s.run Tape.step enter limits)
      (s.run Tape.stepPatiently enter' limits) := by
  have hwalks (later : List Clause) : ∀ earlier state, s.clauses = earlier ++ later →
      s.Leads state → RunM.Abreast store Eq (s.walks Tape.step enter limits earlier later state)
        (s.walks Tape.stepPatiently enter' limits earlier later state) := by
    induction later with
    | nil => exact fun _ _ _ _ => .pure rfl
    | cons clause later ih =>
      intro earlier state hclauses hstate
      have hclause := hmeets clause (by simp [hclauses])
      have hearlier (c : Clause) (hc : c ∈ earlier) : store.Meets root c :=
        hmeets c (by simp [hclauses, hc])
      refine (walk_abreast hsteps htime hlead henter hclause hearlier (hright clause hclause)
        hstate).bind ?_
      rintro swept _ ⟨rfl, hleads⟩
      exact ih _ _ (by rw [hclauses, List.append_assoc]; rfl) hleads
  exact hwalks s.clauses [] _ rfl hs.leads

end Sweep

/-- Sweeps leave the same, at any depth. -/
theorem descend_abreast {store : Store} {root : GrammarId} {limits : Limits}
    (hsteps : limits.maxSteps = none) (htime : limits.timeout = none)
    (hright : ∀ clause, store.Meets root clause → clause.MovesRight) (levels depth : Nat) :
    Strip.Abreast store root (Strip.descend Tape.step limits levels depth)
      (Strip.descend Tape.stepPatiently limits levels depth) := by
  induction levels generalizing depth with
  | zero =>
    intro _ _ _
    unfold Strip.descend Tokenizer.refuse
    dsimp only
    split
    · exact .giveUp _ _
    · exact fun r n _ => .error _ _ n
  | succ levels ih =>
    intro s hs hmeets
    exact (Abreast.reachDepth _).bind fun _ _ _ => run_abreast hsteps htime
      (Strip.descend_leading limits levels (depth + 1)) (ih (depth + 1)) hright hs hmeets

/-- A run that does not stop early is a sweep over a list. -/
theorem runPatiently_eq (limits : Limits) (frames : Option Nat) (text : Text) (ref : Ref) :
    Tokenizer.runPatiently limits frames text ref =
      Strip.chunksOf (Strip.descend Tape.stepPatiently limits (Tokenizer.levels limits frames) 0)
        false text ref :=
  chunksOf_eq (descend_simulates stepPatiently_simulates limits _ 0) false text ref

/-- **Stopping early loses nothing**, with neither attempts nor time limited, if all matches
of the greedy rules that the run comes to move right. -/
theorem tokenizePatiently_eq {limits : Limits} (hsteps : limits.maxSteps = none)
    (htime : limits.timeout = none) (frames : Option Nat) {store : Store} {root : GrammarId}
    (hright : ∀ clause, store.Meets root clause → clause.MovesRight) (text : Text) :
    (tokenize limits frames store text (.grammar root)).result =
      (tokenizePatiently limits frames store text (.grammar root)).result := by
  have hend := chunksOf_abreast (descend_abreast hsteps htime hright
    (Tokenizer.levels limits frames) 0) .refl false text { store } ⟨0, 0⟩ fun _ _ h => h
  unfold tokenize tokenizePatiently
  rw [run_eq, runPatiently_eq]
  rw [show Run.withAttempts { store } ⟨0, 0⟩ = { store } from rfl] at hend
  generalize (Strip.chunksOf (Strip.descend Tape.step limits _ 0) false text _).run _ = x,
    (Strip.chunksOf (Strip.descend Tape.stepPatiently limits _ 0) false text _).run _ = y at hend ⊢
  cases hend with
  | ok r n heq _ =>
    rw [heq]
    rfl
  | error e r n => rfl

/-- No rule of `quoting` finds the empty text, so that its strings lose nothing by stopping
behind the last quote. -/
theorem tokenizePatiently_eq_quoting :
    (∀ clause, quoting.Meets 0 clause → clause.MovesRight) ∧
      (tokenize {} none quoting "a'b'bxy".toList (.grammar 0)).result =
        (tokenizePatiently {} none quoting "a'b'bxy".toList (.grammar 0)).result := by
  have hright (clause : Clause) (h : quoting.Meets 0 clause) : clause.MovesRight := by
    obtain ⟨id, r, hreaches, hworks, hclause⟩ := h
    exact Clause.movesRight_of_findsText
      (Store.findsText_of_isSolid isSolid_quoting 0 id r clause hreaches hworks hclause)
  exact ⟨hright, tokenizePatiently_eq rfl rfl none hright _⟩

/-! ### A match that is lost -/

/-- A greedy rule that takes an `a` and all that follows for context, and otherwise matches
a `b`; with blanks as tokens. -/
def hasty : Store where
  grammars := #[
    { entries := [
        ("blank", .single (.pattern (.source " ".toList))),
        ("letter", .single (.rule {
          pattern := .expression (.source "(a.*)|b".toList)
          lookbehind := true
          greedy := true }))] }]

/-- **Stopping early loses a match.**  From the start of `a b` the rule for letters finds the
empty text at the end, and stops; from the last chunk on it finds the `b`. -/
theorem loses_later_match :
    (tokenize {} none hasty "a b".toList (.grammar 0)).result =
        .ok [.plain "a".toList, .leaf { type := "blank", length := 1 } " ".toList,
          .plain "b".toList] ∧
      (tokenizePatiently {} none hasty "a b".toList (.grammar 0)).result =
        .ok [.plain "a".toList, .leaf { type := "blank", length := 1 } " ".toList,
          .leaf { type := "letter", length := 1 } "b".toList] ∧
      (tokenize {} none hasty "a b".toList (.grammar 0)).result ≠
        (tokenizePatiently {} none hasty "a b".toList (.grammar 0)).result := by
  have hstops : (tokenize {} none hasty "a b".toList (.grammar 0)).result =
      .ok [.plain "a".toList, .leaf { type := "blank", length := 1 } " ".toList,
        .plain "b".toList] :=
    eq_ok_of_toOption (by decide +kernel)
  have hgoes : (tokenizePatiently {} none hasty "a b".toList (.grammar 0)).result =
      .ok [.plain "a".toList, .leaf { type := "blank", length := 1 } " ".toList,
        .leaf { type := "letter", length := 1 } "b".toList] :=
    eq_ok_of_toOption (by decide +kernel)
  refine ⟨hstops, hgoes, ?_⟩
  rw [hstops, hgoes]
  simp

end Highlight
