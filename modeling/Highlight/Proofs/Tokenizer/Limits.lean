/-
# Limits cut a run off and change nothing else

A run under tighter limits is the run under looser ones up to the place where a
limit stops it (`tokenize_curtailed`).  Where none does, it ends alike, and has
done the same.  Where the depth does, the run under the looser limits goes
deeper than that; where the attempts do, it makes more of them.  Either way it
can be told from what the looser run has done whether the tighter one ends
alike.

What a run has done only grows (`Run.grown_course`), so once it has passed a tighter
limit it stays beyond it.  That is what lets a curtailed computation be followed
by any other (`Curtails.bind`).
-/

import Highlight.Proofs.Tape.Congruence
import Highlight.Proofs.Coverage

namespace Highlight

/-- Limits leave the time open, and limit depth and attempts no less than others
that leave the time open do. -/
structure Limits.Tightens (limits limits' : Limits) : Prop where
  timeout : limits.timeout = none
  timeout' : limits'.timeout = none
  depth : limits.maxDepth ≤ limits'.maxDepth
  steps : ∀ most', limits'.maxSteps = some most' →
    ∃ most, limits.maxSteps = some most ∧ most ≤ most'

/-- What tighter limits allow, looser ones allow. -/
theorem Limits.Tightens.allowsStep {limits limits' : Limits} (h : limits.Tightens limits')
    {number : Nat} (hallowed : limits.allowsStep number = true) :
    limits'.allowsStep number = true := by
  unfold Config.allowsStep at hallowed ⊢
  cases hsteps' : limits'.maxSteps with
  | none => rfl
  | some most' =>
    obtain ⟨most, hsteps, hle⟩ := h.steps most' hsteps'
    rw [hsteps] at hallowed
    exact decide_eq_true (Int.le_trans (of_decide_eq_true hallowed) hle)

namespace Run

/-- What a run has done is within its limits, and no attempt has been given up. -/
structure Within (limits : Limits) (r : Run) : Prop where
  tally : r.steps = r.profile.patternAttempts
  peak : r.peak ≤ limits.maxDepth.toNat
  attempts : ∀ most, limits.maxSteps = some most → r.profile.patternAttempts ≤ most.toNat

/-- Limits below zero are as strict as zero. -/
theorem Within.bounds {limits : Limits} {r : Run} (h : r.Within limits) :
    (∀ most, limits.maxSteps = some most → (r.profile.patternAttempts : Int) ≤ max most 0) ∧
      (r.peak : Int) ≤ max limits.maxDepth 0 := by
  refine ⟨fun most hmost => ?_, ?_⟩
  · have hattempts := h.attempts most hmost
    omega
  · have hpeak := h.peak
    omega

/-- A run has gone as deep as another, and has made as many attempts. -/
structure Grown (r r' : Run) : Prop where
  peak : r.peak ≤ r'.peak
  attempts : r.profile.patternAttempts ≤ r'.profile.patternAttempts

/-- What a run has done only grows. -/
theorem grown_course : Course Grown where
  refl := fun _ => ⟨Nat.le_refl _, Nat.le_refl _⟩
  trans := fun h h' => ⟨Nat.le_trans h.peak h'.peak, Nat.le_trans h.attempts h'.attempts⟩
  report := fun _ _ => ⟨Nat.le_refl _, Nat.le_refl _⟩
  count := fun _ _ h => ⟨Nat.le_refl _, h⟩
  take := fun _ => ⟨Nat.le_refl _, Nat.le_refl _⟩
  reach := fun _ _ => ⟨Nat.le_max_left .., Nat.le_refl _⟩
  resolve := fun _ _ _ _ _ _ => ⟨Nat.le_refl _, Nat.le_refl _⟩

end Run

namespace RunM

variable {α β : Type} {limits limits' : Limits}

/-! ### Computations that limits cut off -/

/-- The end of a computation under limits, and its end under looser ones: the
same end, within the limits; or a failure at a limit, which the other end is
beyond unless it is a failure, too. -/
inductive Curtailed (limits : Limits) :
    EStateM.Result Failure Run α → EStateM.Result Failure Run α → Prop where
  | same (e : EStateM.Result Failure Run α) (h : (leaves e).Within limits) : Curtailed limits e e
  | deep (r : Run) (e : EStateM.Result Failure Run α)
    (h : ∀ a r', e = .ok a r' → limits.maxDepth.toNat < r'.peak) :
    Curtailed limits (.error (.depthExceeded (limits.maxDepth.toNat + 1) limits.maxDepth none) r) e
  | spent (most : Int) (r : Run) (e : EStateM.Result Failure Run α)
    (hmost : limits.maxSteps = some most) (hr : r.profile.patternAttempts = most.toNat)
    (h : ∀ a r', e = .ok a r' → most.toNat < r'.profile.patternAttempts) :
    Curtailed limits (.error (.budgetExceeded (.steps most)) r) e

/-- A computation that has a result under the looser limits has it under the tighter
ones just where it stays within them. -/
theorem Curtailed.ok_iff {e : EStateM.Result Failure Run α} {a : α} {r : Run}
    (h : Curtailed limits e (.ok a r)) : (∃ r', e = .ok a r') ↔
      (∀ most, limits.maxSteps = some most → (r.profile.patternAttempts : Int) ≤ max most 0) ∧
        (r.peak : Int) ≤ max limits.maxDepth 0 := by
  cases h with
  | same _ hwithin => exact ⟨fun _ => hwithin.bounds, fun _ => ⟨r, rfl⟩⟩
  | deep _ _ hbeyond =>
    refine ⟨fun ⟨_, hok⟩ => (nomatch hok), fun hbounds => ?_⟩
    have hdeeper := hbeyond a r rfl
    have hpeak := hbounds.2
    omega
  | spent most _ _ hmost _ hbeyond =>
    refine ⟨fun ⟨_, hok⟩ => (nomatch hok), fun hbounds => ?_⟩
    have hmore := hbeyond a r rfl
    have hattempts := hbounds.1 most hmost
    omega

/-- A computation is another one, cut off by limits. -/
structure Curtails (limits : Limits) (m m' : RunM α) : Prop where
  grows : Goes Run.Grown m'
  curtailed : ∀ r, r.Within limits → Curtailed limits (m.run r) (m'.run r)

/-- A computation that stays within the limits is not cut off. -/
theorem Curtails.of_within {m : RunM α} (hgrows : Goes Run.Grown m)
    (h : ∀ r, r.Within limits → (leaves (m.run r)).Within limits) : Curtails limits m m :=
  ⟨hgrows, fun r hr => .same _ (h r hr)⟩

/-- What follows on a computation goes no way back behind a limit that it has
passed. -/
theorem Curtails.bind {m m' : RunM α} {f f' : α → RunM β} (h : Curtails limits m m')
    (hf : ∀ a, Curtails limits (f a) (f' a)) : Curtails limits (m >>= f) (m' >>= f') := by
  refine ⟨h.grows.bind Run.grown_course fun a => (hf a).grows, fun r hr => ?_⟩
  have hend := h.curtailed r hr
  rw [EStateM.run_bind, EStateM.run_bind]
  generalize m.run r = e at hend
  generalize m'.run r = e' at hend
  cases hend with
  | same e he =>
    cases e with
    | ok a r' => exact (hf a).curtailed r' he
    | error failure r' => exact .same _ he
  | deep r' e' hbeyond =>
    refine .deep r' _ fun b r'' hok => ?_
    cases e' with
    | ok a r₁ =>
      have hgrown := (hf a).grows r₁
      dsimp only at hok
      rw [hok] at hgrown
      exact Nat.lt_of_lt_of_le (hbeyond a r₁ rfl) hgrown.peak
    | error failure r₁ => cases hok
  | spent most r' e' hmost hr' hbeyond =>
    refine .spent most r' _ hmost hr' fun b r'' hok => ?_
    cases e' with
    | ok a r₁ =>
      have hgrown := (hf a).grows r₁
      dsimp only at hok
      rw [hok] at hgrown
      exact Nat.lt_of_lt_of_le (hbeyond a r₁ rfl) hgrown.attempts
    | error failure r₁ => cases hok

/-- **An attempt is made under both limits, or is cut off** by the tighter one
when as many have been made as it allows. -/
theorem Curtails.charge (h : limits.Tightens limits') :
    Curtails limits (RunM.charge limits) (RunM.charge limits') := by
  refine ⟨(congruence_goes Run.grown_course limits').charge, fun r hr => ?_⟩
  have htally := hr.tally
  rw [run_charge_of_untimed h.timeout, run_charge_of_untimed h.timeout']
  cases hallowed : limits.allowsStep (r.steps + 1) with
  | true =>
    rw [if_pos rfl, if_pos (h.allowsStep hallowed)]
    refine .same _ ⟨congrArg (· + 1) htally, hr.peak, fun most hmost => ?_⟩
    rw [Config.allowsStep, hmost] at hallowed
    have hle := of_decide_eq_true hallowed
    dsimp only [leaves, Run.countAttempt]
    omega
  | false =>
    obtain ⟨most, hmost⟩ : ∃ most, limits.maxSteps = some most := by
      cases hsteps : limits.maxSteps with
      | none =>
        rw [Config.allowsStep, hsteps] at hallowed
        cases hallowed
      | some most => exact ⟨most, rfl⟩
    have hmade := hr.attempts most hmost
    rw [Config.allowsStep, hmost] at hallowed
    have hmore := of_decide_eq_false hallowed
    rw [if_neg Bool.false_ne_true, hmost]
    refine .spent most _ _ hmost (by dsimp only [Run.giveUpAttempt]; omega) fun a r' hok => ?_
    split at hok
    · cases hok
      dsimp only [Run.countAttempt]
      omega
    · cases hok

/-- **Every action of a run is cut off or left alone.** -/
theorem congruence_curtails (h : limits.Tightens limits') :
    Congruence limits limits' (Curtails limits) where
  pure := fun a => .of_within ((congruence_goes Run.grown_course limits).pure a) fun _ hr => hr
  bind := fun hm hf => hm.bind hf
  runaway := .of_within (congruence_goes Run.grown_course limits).runaway fun _ hr => hr
  overrun := fun type chunks length =>
    .of_within ((congruence_goes Run.grown_course limits).overrun type chunks length)
      fun _ hr => ⟨hr.tally, hr.peak, hr.attempts⟩
  count := fun f hf => .of_within ((congruence_goes Run.grown_course limits).count f hf)
    fun r hr => by
      have hsame := (hf r.profile).symm
      exact ⟨hr.tally.trans hsame, hr.peak, fun most hmost => hsame ▸ hr.attempts most hmost⟩
  clauses := fun ref => by
    refine .of_within ((congruence_goes Run.grown_course limits).clauses ref) fun r hr => ?_
    rw [run_clauses]
    split
    · exact hr
    · exact ⟨hr.tally, hr.peak, hr.attempts⟩
  charge := .charge h

end RunM

/-! ### Whole runs -/

open RunM

variable {limits limits' : Limits}

/-- Without limits of the host, a run that may go no deeper is refused for the
limit that it goes by. -/
theorem Tokenizer.run_refuse {α : Type} {depth : Nat} (hdepth : limits.maxDepth ≤ depth) (r : Run) :
    (Tokenizer.refuse limits depth : RunM α).run r =
      .error (.depthExceeded (depth + 1) limits.maxDepth none)
        { r with events := r.events ++ [.depthExceeded (depth + 1) limits.maxDepth] } := by
  unfold Tokenizer.refuse
  dsimp only
  rw [if_pos hdepth]
  rfl

/-- **Sweeps are cut off or left alone**, at every depth. -/
theorem Strip.descend_curtails (h : limits.Tightens limits') (levels levels' depth : Nat)
    (hlevels : levels + depth = limits.maxDepth.toNat)
    (hlevels' : levels' + depth = limits'.maxDepth.toNat) (s : Strip) :
    Curtails limits (descend Tape.step limits levels depth s)
      (descend Tape.step limits' levels' depth s) := by
  induction levels generalizing levels' depth s with
  | zero =>
    refine ⟨descend_goes Run.grown_course limits' levels' depth s, fun r hr => ?_⟩
    obtain rfl : depth = limits.maxDepth.toNat := by omega
    rw [descend, Tokenizer.run_refuse (Int.self_le_toNat _)]
    refine .deep _ _ fun swept r' hok => ?_
    cases levels' with
    | zero =>
      rw [descend, Tokenizer.run_refuse (by omega)] at hok
      cases hok
    | succ levels' =>
      -- One level deeper than the tighter limit, and it never comes back up in its peak.
      have hgrown := run_goes Run.grown_course
        (descend_goes Run.grown_course limits' levels' (limits.maxDepth.toNat + 1)) limits' s
        { r with peak := max r.peak (limits.maxDepth.toNat + 1) }
      have hdescend : (descend Tape.step limits' (levels' + 1) limits.maxDepth.toNat s).run r =
          (s.run Tape.step (descend Tape.step limits' levels' (limits.maxDepth.toNat + 1))
            limits').run { r with peak := max r.peak (limits.maxDepth.toNat + 1) } := rfl
      rw [← hdescend, hok] at hgrown
      exact Nat.lt_of_lt_of_le (Nat.le_max_right r.peak _) hgrown.peak
  | succ levels ih =>
    obtain ⟨levels', rfl⟩ : ∃ n, levels' = n + 1 :=
      ⟨levels' - 1, by have := h.depth; omega⟩
    refine Curtails.bind (.of_within (fun r => ⟨Nat.le_max_left .., Nat.le_refl _⟩) fun r hr =>
      ⟨hr.tally, Nat.max_le.mpr ⟨hr.peak, by omega⟩, hr.attempts⟩) fun _ => ?_
    exact run_related (congruence_curtails h)
      (fun s => ih levels' (depth + 1) (by omega) (by omega) s) s

/-- The end of a run under limits, and its end under looser ones. -/
theorem Tokenizer.run_curtailed (h : limits.Tightens limits') (store : Store) (text : Text)
    (ref : Ref) :
    Curtailed limits ((Tokenizer.run limits none text ref).run { store })
      ((Tokenizer.run limits' none text ref).run { store }) := by
  rw [run_eq, run_eq]
  refine (Strip.chunksOf_related (congruence_curtails h) (Strip.descend_curtails h _ _ 0 rfl rfl)
    false text ref).curtailed _ ⟨rfl, Nat.zero_le _, fun _ _ => Nat.zero_le _⟩

/-- **Limits cut a run off and change nothing else.**  Under tighter limits a
run ends as under looser ones, or with a failure: for the depth, at the first
one beyond the limit, or for the attempts, after as many as are allowed.  It
ends with the same chunks just where the run under the looser limits has made
no more attempts, and gone no deeper, than the tighter ones allow. -/
theorem tokenize_curtailed (h : limits.Tightens limits') (store : Store) (text : Text)
    (ref : Ref) :
    ((tokenize limits none store text ref).result = (tokenize limits' none store text ref).result ∨
      (tokenize limits none store text ref).result =
        .error (.depthExceeded (max limits.maxDepth 0 + 1) limits.maxDepth none) ∨
      ∃ most, limits.maxSteps = some most ∧
        (tokenize limits none store text ref).result = .error (.budgetExceeded (.steps most)) ∧
        ((tokenize limits none store text ref).run.profile.patternAttempts : Int) = max most 0) ∧
    ∀ chunks, (tokenize limits' none store text ref).result = .ok chunks →
      ((tokenize limits none store text ref).result = .ok chunks ↔
        (∀ most, limits.maxSteps = some most →
          ((tokenize limits' none store text ref).run.profile.patternAttempts : Int) ≤
            max most 0) ∧
        ((tokenize limits' none store text ref).run.peak : Int) ≤ max limits.maxDepth 0) := by
  have hend := Tokenizer.run_curtailed h store text ref
  unfold tokenize
  generalize (Tokenizer.run limits none text ref).run { store } = cut at hend ⊢
  generalize (Tokenizer.run limits' none text ref).run { store } = whole at hend ⊢
  constructor
  · cases hend with
    | same _ _ => exact Or.inl rfl
    | deep _ _ _ =>
      refine Or.inr (Or.inl ?_)
      rw [Report.of, Int.ofNat_toNat]
    | spent most r _ hmost hmade _ =>
      refine Or.inr (Or.inr ⟨most, hmost, rfl, ?_⟩)
      dsimp only [Report.of]
      omega
  · intro chunks hok
    cases whole with
    | error e r => cases hok
    | ok chunks' r =>
      cases hok
      refine Iff.trans ?_ hend.ok_iff
      cases cut with
      | ok chunks' r' => simp [Report.of]
      | error e r' => simp [Report.of]

/-- Limits on depth and attempts. -/
def limited (depth steps : Int) : Limits where
  maxDepth := depth
  maxSteps := some steps

theorem limited_tightens {depth depth' steps steps' : Int} (hdepth : depth ≤ depth')
    (hsteps : steps ≤ steps') : (limited depth steps).Tightens (limited depth' steps') where
  timeout := rfl
  timeout' := rfl
  depth := hdepth
  steps := fun _ hmost => ⟨steps, rfl, Option.some.inj hmost ▸ hsteps⟩

/-- What `quoting` does of `a'b'bxy` under limits that it does not come to. -/
theorem tokenize_limited_quoting :
    (tokenize (limited 100 20) none quoting "a'b'bxy".toList (.grammar 0)).result = .ok quoted ∧
      (tokenize (limited 100 20) none quoting
        "a'b'bxy".toList (.grammar 0)).run.profile.patternAttempts = 9 ∧
      (tokenize (limited 100 20) none quoting "a'b'bxy".toList (.grammar 0)).run.peak = 2 :=
  ⟨eq_ok_of_toOption (by decide +kernel), by decide +kernel, by decide +kernel⟩

/-- Two levels and nine attempts are what the chunks of `a'b'bxy` take. -/
theorem tokenize_curtailed_quoting :
    (limited 2 9).Tightens (limited 100 20) ∧ (limited 2 8).Tightens (limited 100 20) ∧
      (tokenize (limited 2 9) none quoting "a'b'bxy".toList (.grammar 0)).result = .ok quoted ∧
      (tokenize (limited 2 8) none quoting "a'b'bxy".toList (.grammar 0)).result ≠ .ok quoted := by
  obtain ⟨hdone, hattempts, hpeak⟩ := tokenize_limited_quoting
  have enough := limited_tightens (show (2 : Int) ≤ 100 by decide) (show (9 : Int) ≤ 20 by decide)
  have short := limited_tightens (show (2 : Int) ≤ 100 by decide) (show (8 : Int) ≤ 20 by decide)
  refine ⟨enough, short, ?_, fun hshort => ?_⟩
  · refine ((tokenize_curtailed enough quoting _ _).2 _ hdone).mpr ⟨fun most hmost => ?_, ?_⟩
    · cases hmost
      rw [hattempts]
      decide
    · rw [hpeak]
      decide
  · have hattempts' := (((tokenize_curtailed short quoting _ _).2 _ hdone).mp hshort).1 8 rfl
    rw [hattempts] at hattempts'
    exact absurd hattempts' (by decide)

end Highlight
