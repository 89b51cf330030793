/-
# The deadline

A run reads the clock at the attempts that the limit on their number allows, and
nowhere else.  So it fails for the time at the first attempt at which the time is over;
and however it ends, the time was not over at any attempt that it counted
(`tokenize_deadline`).

`Run.InTime` is what is known of a run in the middle of its work, and `Run.Timely` what
a failure says about the time.
-/

import Highlight.Proofs.Coverage
import Highlight.Proofs.Store.Resolutions
import Highlight.Proofs.Tape.Congruence

namespace Highlight

/-- The time was not over at any of the first attempts, up to a number. -/
def Limits.InTime (limits : Limits) (number : Nat) : Prop :=
  ∀ n, 0 < n → n ≤ number → limits.isExpired n = false

/-- One attempt more that is in time. -/
theorem Limits.InTime.succ {limits : Limits} {number : Nat} (h : limits.InTime number)
    (hnext : limits.isExpired (number + 1) = false) : limits.InTime (number + 1) := by
  intro n hpos hle
  rcases Nat.lt_or_eq_of_le hle with hlt | rfl
  · exact h n hpos (Nat.le_of_lt_succ hlt)
  · exact hnext

namespace Run

/-- A run that has counted every attempt for which it took a number, all in time. -/
structure InTime (limits : Limits) (r : Run) : Prop where
  tally : r.steps = r.profile.patternAttempts
  early : limits.InTime r.steps

/-- What a failure says about the time: all attempts that were counted were in time, and
if it is for the time, the next one was not. -/
structure Timely (limits : Limits) (e : Failure) (r : Run) : Prop where
  early : limits.InTime r.profile.patternAttempts
  late : ∀ allowed, e = .budgetExceeded (.time allowed) → limits.timeout = some allowed ∧
    limits.isExpired (r.profile.patternAttempts + 1) = true

variable {limits : Limits}

/-- Failures for something else, from a run in time. -/
theorem InTime.timely {e : Failure} {r : Run} (h : r.InTime limits)
    (he : ∀ allowed, e ≠ .budgetExceeded (.time allowed)) {steps : Nat} {events : List Event} :
    Timely limits e { r with steps, events } where
  early := h.tally ▸ h.early
  late allowed hlate := absurd hlate (he allowed)

end Run

namespace RunM

/-- An attempt is counted in time, or given up. -/
theorem charge_timely (limits : Limits) :
    Triple (Run.InTime limits) (charge limits) (fun _ => Run.InTime limits)
      (Run.Timely limits) := by
  intro r hr
  have htally := hr.tally
  rw [run_charge]
  cases limits.allowsStep (r.steps + 1) with
  | false => exact hr.timely (by simp)
  | true =>
    cases hlate : limits.isExpired (r.steps + 1) with
    | false => exact ⟨congrArg (· + 1) htally, hr.early.succ hlate⟩
    | true =>
      obtain ⟨allowed, htimeout⟩ : ∃ allowed, limits.timeout = some allowed := by
        rw [← Option.isSome_iff_exists, Option.isSome_iff_ne_none]
        intro hnone
        rw [Limits.isExpired, hnone] at hlate
        cases hlate
      refine ⟨htally ▸ hr.early, ?_⟩
      rintro _ hsame
      rw [htimeout] at hsame
      cases hsame
      exact ⟨htimeout, htally ▸ hlate⟩

/-- **Every action of a run keeps it in time, or ends it.** -/
theorem congruence_timely (limits : Limits) :
    Congruence limits limits fun m _ =>
      Triple (Run.InTime limits) m (fun _ => Run.InTime limits) (Run.Timely limits) where
  pure _ := .pure fun _ hr => hr
  bind hm hf := hm.bind hf
  runaway _ hr := hr.timely (by simp)
  overrun _ _ _ := .giveUp fun _ hr => hr.timely (by simp)
  count _ hf := .count fun _ hr => ⟨hr.tally.trans (hf _).symm, hr.early⟩
  clauses ref := by
    refine .map (Q := fun _ => Run.InTime limits) (.resolve ?_ ?_) fun _ _ hr => hr
    · exact fun _ _ _ _ hr _ => ⟨hr.tally, hr.early⟩
    · intro r e hr hresolve
      refine hr.timely fun allowed he => ?_
      have hblames := Store.blaming_resolve _ _ e hresolve
      rw [he] at hblames
      exact hblames.elim nofun nofun
  charge := charge_timely limits

end RunM

/-- **A run is kept in time, or ended**, from its start on. -/
theorem Tokenizer.run_timely (limits : Limits) (frames : Option Nat) (text : Text) (ref : Ref) :
    RunM.Triple (Run.InTime limits) (run limits frames text ref) (fun _ => Run.InTime limits)
      (Run.Timely limits) := by
  refine run_related (RunM.congruence_timely limits)
    (fun _ => .reachDepth fun _ hr => ⟨hr.tally, hr.early⟩) (fun _ => ?_)
    (@rfl _ (levels limits frames)) text ref
  refine refuse_triple fun e event r hclass hr => hr.timely fun allowed he => ?_
  rw [he] at hclass
  cases hclass

/-- **A run fails for the time at the first attempt at which it is over**, after which no
other is made; and all attempts that it counts, however it ends, are in time. -/
theorem tokenize_deadline (limits : Limits) (frames : Option Nat) (store : Store) (text : Text)
    (ref : Ref) :
    (∀ n, 0 < n → n ≤ (tokenize limits frames store text ref).run.profile.patternAttempts →
        limits.isExpired n = false) ∧
      ∀ allowed,
        (tokenize limits frames store text ref).result = .error (.budgetExceeded (.time allowed)) →
        limits.timeout = some allowed ∧
          limits.isExpired
            ((tokenize limits frames store text ref).run.profile.patternAttempts + 1) = true := by
  have hend := Tokenizer.run_timely limits frames text ref { store }
    ⟨rfl, fun n hpos hle => absurd hle (Nat.not_le_of_lt hpos)⟩
  unfold tokenize
  cases hcase : (Tokenizer.run limits frames text ref).run { store } with
  | ok chunks r =>
    rw [hcase] at hend
    exact ⟨hend.tally ▸ hend.early, nofun⟩
  | error e r =>
    rw [hcase] at hend
    refine ⟨hend.early, ?_⟩
    rintro allowed ⟨⟩
    exact hend.late allowed rfl

/-- Where five nanoseconds are allowed and one passes between two readings, `a'b'bxy` takes
too long: of its nine attempts the sixth is given up. -/
example :
    (tokenize (({ timeout := some ⟨5, 9⟩ } : Config).under .ticking) none quoting
        "a'b'bxy".toList (.grammar 0)).result = .error (.budgetExceeded (.time ⟨5, 9⟩)) ∧
      (tokenize (({ timeout := some ⟨5, 9⟩ } : Config).under .ticking) none quoting
        "a'b'bxy".toList (.grammar 0)).run.profile.patternAttempts = 5 := by
  decide +kernel

end Highlight
