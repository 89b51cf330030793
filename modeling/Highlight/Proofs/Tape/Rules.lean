/-
# Rules for sweeps over lists

What a sweep ensures is put together from what its parts ensure.  There is one
rule for each part: a token (`tokenOf_triple`), a cut (`replace_triple`), a step
(`step_triple`), a walk (`walk_triple`) and the walks of a sweep (`run_triple`).

A walk always comes to its end.  Each step passes at least one chunk, what has
been passed is never taken back, and there is no step with more chunks than
characters; so there are no more steps than characters, and two more to find
that out.
-/

import Highlight.Proofs.Tokenizer.Computation
import Highlight.Proofs.Tape.Moves

namespace Highlight

open Chunk RunM

/-- The tag of the token that a rule makes of a matched text. -/
def Clause.tag (clause : Clause) (matched : Text) : Tag where
  type := clause.type
  display := clause.rule.display
  length := matched.length

/-- A run with one more token counted. -/
def Run.countToken (r : Run) : Run :=
  { r with profile := { r.profile with tokenCount := r.profile.tokenCount + 1 } }

/-- A run with one more rematch counted. -/
def Run.countRematch (r : Run) : Run :=
  { r with profile := { r.profile with rematchPasses := r.profile.rematchPasses + 1 } }

/-- A run with one more attempt counted. -/
def Run.countAttempt (r : Run) : Run :=
  { r with
    steps := r.steps + 1
    profile := { r.profile with patternAttempts := r.profile.patternAttempts + 1 } }

/-- A run with one more attempt given up. -/
def Run.giveUpAttempt (r : Run) (event : Event) : Run :=
  { r with steps := r.steps + 1, events := r.events ++ [event] }

/-- **What a charge does**: the number is compared with the limit, and after that
the clock is read. -/
theorem RunM.run_charge (limits : Limits) (r : Run) :
    (charge limits).run r =
      if limits.allowsStep (r.steps + 1) then
        if limits.isExpired (r.steps + 1) then
          .error (.budgetExceeded (.time (limits.timeout.getD ⟨0, 0⟩)))
            (r.giveUpAttempt (.timeExhausted (limits.timeout.getD ⟨0, 0⟩)))
        else .ok () r.countAttempt
      else
        .error (.budgetExceeded (.steps (limits.maxSteps.getD 0)))
          (r.giveUpAttempt (.stepsExhausted (limits.maxSteps.getD 0))) := by
  have htake : takeNumber.run r = .ok (r.steps + 1) { r with steps := r.steps + 1 } := rfl
  unfold charge
  rw [EStateM.run_bind, htake]
  dsimp only
  cases limits.allowsStep (r.steps + 1) with
  | false => rfl
  | true => cases limits.isExpired (r.steps + 1) <;> rfl

/-- Without a limit on time an attempt is counted, or refused for its number. -/
theorem RunM.run_charge_of_untimed {limits : Limits} (htime : limits.timeout = none) (r : Run) :
    (charge limits).run r =
      if limits.allowsStep (r.steps + 1) then .ok () r.countAttempt
      else
        .error (.budgetExceeded (.steps (limits.maxSteps.getD 0)))
          (r.giveUpAttempt (.stepsExhausted (limits.maxSteps.getD 0))) := by
  rw [run_charge, Limits.isExpired, htime]
  rfl

/-- Without any limit no attempt is refused. -/
theorem RunM.run_charge_of_unlimited {limits : Limits} (hsteps : limits.maxSteps = none)
    (htime : limits.timeout = none) (r : Run) : (charge limits).run r = .ok () r.countAttempt := by
  rw [run_charge_of_untimed htime, Config.allowsStep, hsteps]
  rfl

/-- **A charge depends on the number only**: under limits that are alike, two runs
count an attempt with the same number or refuse it alike. -/
theorem RunM.run_charge_alike {limits limits' : Limits} (h : limits.Alike limits') {r r' : Run}
    (hsteps : r.steps = r'.steps) :
    (charge limits).run r = .ok () r.countAttempt ∧
        (charge limits').run r' = .ok () r'.countAttempt ∨
      ∃ e event, (charge limits).run r = .error e (r.giveUpAttempt event) ∧
        (charge limits').run r' = .error e (r'.giveUpAttempt event) := by
  rw [run_charge, run_charge, h.config, h.isExpired, hsteps]
  cases limits'.allowsStep (r'.steps + 1) with
  | false => exact Or.inr ⟨_, _, rfl, rfl⟩
  | true =>
    cases limits'.isExpired (r'.steps + 1) with
    | true => exact Or.inr ⟨_, _, rfl, rfl⟩
    | false => exact Or.inl ⟨rfl, rfl⟩

section Limits

variable {α : Type} {P P' : Run → Prop} {Q : α → Run → Prop} {E : Failure → Run → Prop}
  {limits : Limits} {depth : Nat}

/-- A refusal to go deeper is a failure for the depth. -/
theorem refuse_triple
    (h : ∀ failure event r, failure.toClass = .depthExceeded → P r →
      E failure { r with events := r.events ++ [event] }) :
    Triple P (Tokenizer.refuse limits depth) Q E := by
  unfold Tokenizer.refuse
  dsimp only
  split
  · exact .giveUp fun r => h _ _ r rfl
  · intro r hr
    exact h _ _ r rfl hr

/-- An attempt is counted, or refused because an allowance is used up. -/
theorem charge_triple (hcount : ∀ r, P r → P' r.countAttempt)
    (hrefuse : ∀ budget event r, P r → E (.budgetExceeded budget) (r.giveUpAttempt event)) :
    Triple P (charge limits) (fun _ => P') E := by
  intro r hr
  rw [run_charge]
  cases limits.allowsStep (r.steps + 1) with
  | false => exact hrefuse _ _ r hr
  | true =>
    cases limits.isExpired (r.steps + 1) with
    | true => exact hrefuse _ _ r hr
    | false => exact hcount r hr

end Limits

namespace Strip

variable {P : Run → Prop} {E : Failure → Run → Prop} {enter : Strip.Enter} {clause : Clause}
  {matched : Text}

/-- A token holds the matched text, or what the nested grammar makes of it. -/
theorem tokenOf_triple {Q : Chunk → Run → Prop}
    (hleaf : clause.rule.inside = none →
      ∀ r, P r → Q (.leaf (clause.tag matched) matched) r.countToken)
    (hnode : ∀ id, clause.rule.inside = some id →
      Triple P (chunksOf enter true matched (.grammar id))
        (fun parts r => Q (.node (clause.tag matched) parts) r.countToken) E) :
    Triple P (tokenOf enter clause matched) Q E := by
  have hcount (token : Chunk) : Triple (fun r => Q token r.countToken)
      (do RunM.count fun p => { p with tokenCount := p.tokenCount + 1 }
          return token) Q E :=
    Triple.bind (.count fun _ hr => hr) fun _ => .pure fun _ hr => hr
  unfold tokenOf
  cases hinside : clause.rule.inside with
  | none => exact Triple.bind (.pure (hleaf hinside)) hcount
  | some id => exact Triple.bind (.map (hnode id hinside) fun _ _ hr => hr) hcount

/-- A token is as long as the matched text. -/
theorem tokenOf_extent (enter : Strip.Enter) (clause : Clause) (matched : Text) :
    Triple P (tokenOf enter clause matched)
      (fun token _ => token.isToken = true ∧ token.extent = matched.length) fun _ _ => True :=
  tokenOf_triple (fun _ _ _ => ⟨rfl, rfl⟩) fun _ _ =>
    (Triple.intro _).imp (fun _ _ => trivial) (fun _ _ _ => ⟨rfl, rfl⟩) fun _ _ h => h

/-- Where nothing that is known depends on the counts, a nested text need only
be resolved and, unless it is empty, swept. -/
theorem chunksOf_triple {Q : List Chunk → Run → Prop} {P' : Resolution → Run → Prop}
    {nested : Bool} {text : Text} {ref : Ref}
    (hresolve : Triple P (RunM.resolve ref) P' E)
    (hcount : ∀ resolution profile r, P' resolution r → P' resolution { r with profile })
    (hempty : ∀ resolution r, text = [] → P' resolution r → Q [] r)
    (henter : ∀ resolution : Resolution, text ≠ [] →
      Triple (P' resolution)
        (enter ⟨text, resolution.clauses, 0, [.plain text], 0, none⟩)
        (fun swept r => Q swept.chunks r) E) :
    Triple P (chunksOf enter nested text ref) Q E := by
  refine hresolve.bind fun resolution =>
    Triple.bind (Q := fun _ => P' resolution) (.count fun r => hcount resolution _ r) fun _ => ?_
  split
  · rename_i htext
    exact .pure fun r => hempty resolution r htext
  · rename_i htext
    exact (henter resolution htext).bind fun _ => .pure fun _ hr => hr

end Strip

namespace Tape

variable {P P' : Run → Prop} {E : Failure → Run → Prop} {enter : Strip.Enter} {limits : Limits}
  {text : Text} {base fuel : Nat} {earlier : List Clause} {clause : Clause} {t : Tape}

/-- A cut makes a token and, where it covers more than one chunk, starts a
rematch. -/
theorem replace_triple {T : Chunk → Run → Prop} {Q : Tape → Run → Prop} {rest : List Chunk}
    {cut : Cut} (htoken : Triple P (Strip.tokenOf enter clause cut.matched) T E)
    (hone : cut.covered ≤ 1 → ∀ token r, T token r →
      Q (t.resume cut token ⟨leftover cut token rest, some (t.offset + cut.segment.length)⟩) r)
    (hmore : 1 < cut.covered → ∀ token,
      Triple (fun r => ∃ r₀, T token r₀ ∧ r = r₀.countRematch)
        (enter (t.rematch text base earlier cut token rest))
        (fun swept r => Q (t.resume cut token swept) r) E) :
    Triple P (t.replace enter text base earlier clause rest cut) Q E := by
  unfold replace
  refine htoken.bind fun token => ?_
  have hresume (swept : Strip.Swept) : Triple (fun r => Q (t.resume cut token swept) r)
      (Pure.pure (t.resume cut token swept)) Q E :=
    .pure fun _ hr => hr
  split
  · rename_i hcovered
    refine Triple.bind (Q := fun _ r => ∃ r₀, T token r₀ ∧ r = r₀.countRematch) ?_ fun _ =>
      (hmore hcovered token).bind hresume
    exact .count fun r hr => ⟨r, hr, rfl⟩
  · rename_i hcovered
    exact Triple.bind (.pure (hone (by omega) token)) hresume

/-- Whether a walk over a list has come to the end of its region. -/
def IsOver (t : Tape) : Prop :=
  t.ahead = [] ∨ t.reach.any (· ≤ t.offset) = true

/-- What a step can do, by the move that the match says: at the end of its region it
stops; with too many chunks it fails; over a token it passes; and at a plain chunk it
makes the move. -/
theorem step_choose {Q : Option Tape → Run → Prop}
    (hover : t.IsOver → ∀ r, P r → Q none r)
    (hoverrun : ∀ r, ¬ t.IsOver → text.length < base + t.passed.length + t.ahead.length → P r →
      E (.overrun ↑(base + t.passed.length + t.ahead.length) text.length)
        { r with events := r.events ++
          [.overrun clause.type ↑(base + t.passed.length + t.ahead.length) text.length] })
    (hcharge : Triple P (RunM.charge limits) (fun _ => P') E)
    (htoken : ∀ token rest, t.ahead = token :: rest → token.isToken = true → ¬ t.IsOver →
      base + t.passed.length + t.ahead.length ≤ text.length →
      ∀ r, P r → Q (some (t.pass [token] rest)) r)
    (hmove : ∀ chunk rest, t.ahead = .plain chunk :: rest → ¬ t.IsOver →
      base + t.passed.length + t.ahead.length ≤ text.length →
      match t.choose text clause chunk rest with
      | .stop => ∀ r, P' r → Q none r
      | .pass skipped rest => ∀ r, P' r → Q (some (t.pass skipped rest)) r
      | .cut skipped covered rest cut =>
        Triple P'
          ((t.pass skipped (covered ++ rest)).replace enter text base earlier clause rest cut)
          (fun t' r => Q (some t') r) E) :
    Triple P (t.step enter limits text base earlier clause) Q E := by
  have hisOver : (t.ahead.isEmpty || t.reach.any (· ≤ t.offset)) = true ↔ t.IsOver := by
    rw [Bool.or_eq_true, List.isEmpty_iff, IsOver]
  unfold step
  split
  · rename_i h
    exact .pure (hover (hisOver.mp h))
  · rename_i h
    have hnot : ¬ t.IsOver := fun ho => h (hisOver.mpr ho)
    dsimp only
    split
    · rename_i hsize
      exact .giveUp fun r => hoverrun r hnot hsize
    · rename_i hsize
      have hsize := Nat.le_of_not_lt hsize
      split
      · rename_i hahead
        exact absurd (Or.inl hahead) hnot
      · rename_i chunk rest hahead
        refine hcharge.bind fun _ => ?_
        have hmove := hmove chunk rest hahead hnot hsize
        split
        · rename_i hchoice
          rw [hchoice] at hmove
          exact .pure hmove
        · rename_i hchoice
          rw [hchoice] at hmove
          exact .pure hmove
        · rename_i hchoice
          rw [hchoice] at hmove
          exact hmove.bind fun _ => .pure fun _ hr => hr
      · rename_i token rest hplain hahead
        exact .pure (htoken token rest hahead (isToken_of_ne_plain hplain) hnot hsize)

/-- **What a step can do.**  The move that it makes at a plain chunk is one that the match
there says, and leaves the chunks ahead in order. -/
theorem step_triple {Q : Option Tape → Run → Prop}
    (hcover : t.offset + extents t.ahead = text.length)
    (hover : t.IsOver → ∀ r, P r → Q none r)
    (hoverrun : ∀ r, ¬ t.IsOver → text.length < base + t.passed.length + t.ahead.length → P r →
      E (.overrun ↑(base + t.passed.length + t.ahead.length) text.length)
        { r with events := r.events ++
          [.overrun clause.type ↑(base + t.passed.length + t.ahead.length) text.length] })
    (hcharge : Triple P (RunM.charge limits) (fun _ => P') E)
    (htoken : ∀ token rest, t.ahead = token :: rest → token.isToken = true → ¬ t.IsOver →
      base + t.passed.length + t.ahead.length ≤ text.length →
      ∀ r, P r → Q (some (t.pass [token] rest)) r)
    (hmove : ∀ chunk rest move, t.ahead = .plain chunk :: rest → ¬ t.IsOver →
      base + t.passed.length + t.ahead.length ≤ text.length →
      Chosen text clause t chunk rest move → move.Fits t.ahead →
      match move with
      | .stop => ∀ r, P' r → Q none r
      | .pass skipped rest => ∀ r, P' r → Q (some (t.pass skipped rest)) r
      | .cut skipped covered rest cut =>
        Triple P'
          ((t.pass skipped (covered ++ rest)).replace enter text base earlier clause rest cut)
          (fun t' r => Q (some t') r) E) :
    Triple P (t.step enter limits text base earlier clause) Q E :=
  step_choose hover hoverrun hcharge htoken fun chunk rest hahead hnot hsize =>
    hmove chunk rest _ hahead hnot hsize (choose_cases hcover chunk rest)
      (choose_fits hahead hcover)

/-- What holds however chunks are passed, and after every cut, holds wherever a
step goes. -/
theorem step_keeps {Inv : Tape → Prop} (hcover : t.offset + extents t.ahead = text.length)
    (hoverrun : ∀ chunks event r, text.length < base + t.passed.length + t.ahead.length → P r →
      E (.overrun chunks text.length) { r with events := r.events ++ [event] })
    (hcharge : Triple P (RunM.charge limits) (fun _ => P) E)
    (hpass : ∀ skipped rest, t.ahead = skipped ++ rest → Inv (t.pass skipped rest))
    (hcut : ∀ chunk more skipped covered rest cut, t.ahead = .plain chunk :: more →
      Chosen text clause t chunk more (.cut skipped covered rest cut) →
      t.ahead = skipped ++ (covered ++ rest) → cut.Fits covered →
      Triple P ((t.pass skipped (covered ++ rest)).replace enter text base earlier clause rest cut)
        (fun t' r => Inv t' ∧ P r) E) :
    Triple P (t.step enter limits text base earlier clause)
      (fun next r => (∀ t', next = some t' → Inv t') ∧ P r) E := by
  have hnone (r : Run) (hr : P r) : (∀ t', none = some t' → Inv t') ∧ P r :=
    ⟨fun _ h => (nomatch h), hr⟩
  have hsome {t' : Tape} (h : Inv t') (r : Run) (hr : P r) :
      (∀ t'', some t' = some t'' → Inv t'') ∧ P r := by
    refine ⟨?_, hr⟩
    rintro _ ⟨⟩
    exact h
  refine step_triple hcover (fun _ => hnone) (fun r _ h hr => hoverrun _ _ r h hr) hcharge
    (fun token rest hahead _ _ _ => hsome (hpass [token] rest hahead))
    fun chunk more move hplain _ _ hchosen hfits => ?_
  cases move with
  | stop => exact hnone
  | pass skipped rest => exact hsome (hpass skipped rest hfits)
  | cut skipped covered rest cut =>
    exact (hcut chunk more skipped covered rest cut hplain hchosen hfits.1 hfits.2).post
      fun _ r h => hsome h.1 r h.2

/-- What is to hold at the end of a walk, and wherever it goes, at a step that stops. -/
theorem step_stops {Done : Prop} {Inv : Tape → Prop} (h : Done) :
    ((none : Option Tape) = none → Done) ∧ ∀ t', none = some t' → Inv t' :=
  ⟨fun _ => h, fun t' hnext => absurd hnext.symm (Option.some_ne_none t')⟩

/-- What is to hold at the end of a walk, and wherever it goes, at a step that goes on. -/
theorem step_goes {Done : Prop} {Inv : Tape → Prop} (h : Inv t) :
    (some t = none → Done) ∧ ∀ t', some t = some t' → Inv t' :=
  ⟨fun hnext => absurd hnext (Option.some_ne_none t), fun _ hnext => Option.some.inj hnext ▸ h⟩

/-- A walk goes on only past another chunk, and only with more characters than
chunks passed. -/
def Advances (text : Text) (t : Tape) (next : Option Tape) : Prop :=
  ∀ t', next = some t' → t.passed.length < t'.passed.length ∧ t.passed.length < text.length

/-- Every step advances. -/
theorem step_advances (hcover : t.offset + extents t.ahead = text.length) :
    Triple (fun _ => True) (t.step enter limits text base earlier clause)
      (fun next _ => Advances text t next) fun _ _ => True := by
  have hcharge : Triple (fun _ => True) (charge limits) (fun _ _ => True) fun _ _ => True :=
    .intro _
  refine step_triple hcover (fun _ _ _ _ h => nomatch h) (fun _ _ _ _ => trivial) hcharge
    (fun token rest hahead _ _ hsize _ _ => ?_) fun chunk more move hahead _ hsize hchosen _ => ?_
  · rintro _ ⟨⟩
    rw [hahead, List.length_cons] at hsize
    simp only [pass, List.length_append, List.length_cons, List.length_nil]
    omega
  · rw [hahead, List.length_cons] at hsize
    have hpassed : t.passed.length < text.length := by omega
    cases move with
    | stop => exact fun _ _ _ h => nomatch h
    | pass skipped rest =>
      rintro r - _ ⟨⟩
      have hskipped := List.length_pos_iff.mpr (ne_nil_of_chosen hchosen)
      simp only [pass, List.length_append]
      omega
    | cut skipped covered rest cut =>
      have hlonger (token : Chunk) (swept : Strip.Swept) : t.passed.length <
          ((t.pass skipped (covered ++ rest)).resume cut token swept).passed.length := by
        simp only [resume, pass, List.length_append, List.length_cons]
        omega
      refine replace_triple (.intro _) (fun _ token r _ => ?_) fun _ token =>
        (Triple.intro _).post fun swept r _ => ?_
      · rintro _ ⟨⟩
        exact ⟨hlonger token _, hpassed⟩
      · rintro _ ⟨⟩
        exact ⟨hlonger token swept, hpassed⟩

/-- **A walk comes to its end**, and what each step keeps is kept to the end. -/
theorem finish_triple {Inv Done : Tape → Run → Prop}
    (hcover : ∀ t r, Inv t r → t.offset + extents t.ahead = text.length)
    (hstep : ∀ t, Triple (Inv t) (t.step enter limits text base earlier clause)
      (fun next r => (next = none → Done t r) ∧ ∀ t', next = some t' → Inv t' r) E)
    (hfuel : text.length < fuel + min t.passed.length text.length) :
    Triple (Inv t) (finish (step enter limits text base earlier clause) fuel t) Done E := by
  induction fuel generalizing t with
  | zero => omega
  | succ fuel ih =>
    intro r hr
    have hadvance := (hstep t).also (step_advances (hcover t r hr))
    refine hadvance.bind (fun next => ?_) r hr
    cases next with
    | none => exact .pure fun r hr => hr.1.1 rfl
    | some t' =>
      intro r hr
      obtain ⟨hlt, hpassed⟩ := hr.2 t' rfl
      exact ih (by omega) r (hr.1.2 t' rfl)

end Tape

namespace Strip

variable {P : Run → Prop} {E : Failure → Run → Prop} {enter : Strip.Enter} {limits : Limits}

/-- What holds where a step stops, if the steps up to there keep what they need, holds of
what the walk leaves. -/
theorem walk_triple {s : Strip} {earlier : List Clause} {clause : Clause} {state : Swept}
    (Inv : Tape → Run → Prop) (Left : Swept → Run → Prop)
    (hcover : ∀ t r, Inv t r → t.offset + extents t.ahead = s.text.length)
    (hstep : ∀ t, Triple (Inv t) (t.step enter limits s.text s.base earlier clause)
      (fun next r => (next = none → Left ⟨t.passed ++ t.ahead, t.reach⟩ r) ∧
        ∀ t', next = some t' → Inv t' r) E)
    (hstart : ∀ r, P r → Inv ⟨[], state.chunks, s.offset, state.reach⟩ r) :
    Triple P (s.walk Tape.step enter limits earlier clause state) Left E := by
  refine Triple.bind ((Tape.finish_triple hcover hstep ?_).pre hstart) fun t =>
    .pure fun _ hr => hr
  have hle := Nat.le_mul_of_pos_right (s.text.length + 3) (show 0 < s.text.length + 3 by omega)
  simp only [Walk.fuel, List.length_nil]
  omega

/-- What is kept from walk to walk, a sweep leaves. -/
theorem run_triple {stepper : Tape.Stepper} {s : Strip}
    (Between : List Clause → Swept → Run → Prop)
    (hwalk : ∀ earlier clause later, s.clauses = earlier ++ clause :: later → ∀ state,
      Triple (Between earlier state) (s.walk stepper enter limits earlier clause state)
        (Between (earlier ++ [clause])) E) :
    Triple (Between [] ⟨s.chunks, s.reach⟩) (s.run stepper enter limits)
      (Between s.clauses) E := by
  have hwalks (later : List Clause) : ∀ earlier state, s.clauses = earlier ++ later →
      Triple (Between earlier state) (s.walks stepper enter limits earlier later state)
        (Between s.clauses) E := by
    induction later with
    | nil =>
      intro earlier state hclauses
      rw [hclauses, List.append_nil]
      exact .pure fun _ hr => hr
    | cons clause later ih =>
      intro earlier state hclauses
      exact (hwalk earlier clause later hclauses state).bind fun state =>
        ih _ state (by rw [hclauses, List.append_assoc]; rfl)
  exact hwalks s.clauses [] _ rfl

end Strip
end Highlight
