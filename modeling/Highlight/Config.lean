/-
# Limits of a run

A configuration may limit a run in the depth of its recursion, in the number
of its pattern attempts, and in time.  A limit that is absent is infinite; a
limit below zero is as strict as zero.

Time is told by a clock, of which nothing is known but that it never goes
back.  It is read when a run begins, to tell when the time is over, and at
each attempt.  `Limits` is a configuration with a clock and the reading at
the beginning: all that a run has to go by.
-/

import Highlight.Decimal

namespace Highlight

/-- What a run may use up. -/
structure Config where
  maxDepth : Int := 100
  maxSteps : Option Int := none
  timeout : Option Decimal := none
  deriving DecidableEq, Repr

namespace Config

/-- Changes the limit that a key names to a number, or to none where there
can be none.  Other keys change nothing. -/
def put (c : Config) (key : String) (value : Option Decimal) : Config :=
  match key, value with
  | "max_depth", some n => { c with maxDepth := n.mantissa }
  | "max_steps", n => { c with maxSteps := n.map (·.mantissa) }
  | "timeout", n => { c with timeout := n }
  | _, _ => c

/-- The default limits with some of them changed. -/
def ofSettings (settings : List (String × Option Decimal)) : Config :=
  settings.foldl (fun c s => c.put s.1 s.2) {}

/-- Whether an attempt with this number, counted from one, is within the limit
on attempts. -/
def allowsStep (c : Config) (number : Nat) : Bool :=
  match c.maxSteps with
  | none => true
  | some most => (number : Int) ≤ most

/-- What is allowed with a number is allowed with a smaller one. -/
theorem allowsStep_of_le {c : Config} {m n : Nat} (hle : m ≤ n) (h : c.allowsStep n = true) :
    c.allowsStep m = true := by
  unfold allowsStep at h ⊢
  split at h
  · rfl
  · exact decide_eq_true (Int.le_trans (Int.ofNat_le.mpr hle) (of_decide_eq_true h))

end Config

/-- The readings of a clock in nanoseconds, in the order in which a run takes
them: one when it begins, and one at each attempt. -/
structure Clock where
  reading : Nat → Int
  mono : ∀ n, reading n ≤ reading (n + 1)

namespace Clock

/-- A clock that goes on by a nanosecond from one reading to the next. -/
def ticking : Clock where
  reading n := n
  mono n := Int.ofNat_le.mpr (Nat.le_succ n)

/-- The time from the first reading to a later one. -/
def elapsed (c : Clock) (n : Nat) : Int :=
  c.reading n - c.reading 0

/-- A clock never goes back. -/
theorem reading_le (c : Clock) {m n : Nat} (h : m ≤ n) : c.reading m ≤ c.reading n := by
  induction h with
  | refl => exact Int.le_refl _
  | step _ ih => exact Int.le_trans ih (c.mono _)

end Clock

/-- What a run has to go by: its configuration, the clock, and the reading from
which on the time is allowed. -/
structure Limits extends Config where
  started : Int := 0
  clock : Clock := .ticking

/-- The limits of a run that begins at the first reading of a clock. -/
def Config.under (config : Config) (clock : Clock) : Limits :=
  { config with started := clock.reading 0, clock }

namespace Limits

/-- Whether the time is over at an attempt with this number. -/
def isExpired (l : Limits) (number : Nat) : Bool :=
  match l.timeout with
  | none => false
  | some allowed =>
    allowed.mantissa * 1000000000 <
      (l.clock.reading number - l.started) * Int.pow 10 allowed.places

/-- Time that is over stays so. -/
theorem isExpired_of_le {l : Limits} {m n : Nat} (hle : m ≤ n) (h : l.isExpired m = true) :
    l.isExpired n = true := by
  unfold isExpired at h ⊢
  split at h
  · cases h
  · rename_i allowed _
    have helapsed := Int.sub_le_sub_right (l.clock.reading_le hle) l.started
    have hscale : 0 ≤ Int.pow 10 allowed.places := Int.pow_nonneg (by decide)
    exact decide_eq_true (Int.lt_of_lt_of_le (of_decide_eq_true h)
      (Int.mul_le_mul_of_nonneg_right helapsed hscale))

/-- Limits that come of the same configuration, and under which the time is over at
the same attempts. -/
structure Alike (l l' : Limits) : Prop where
  config : l.toConfig = l'.toConfig
  isExpired : ∀ number, l.isExpired number = l'.isExpired number

theorem Alike.refl (l : Limits) : l.Alike l where
  config := rfl
  isExpired _ := rfl

end Limits

/-- Without a limit on time the clock makes no difference, and with one only the time
that has passed does. -/
theorem Config.under_alike (config : Config) {clock clock' : Clock}
    (h : config.timeout = none ∨ ∀ n, clock.elapsed n = clock'.elapsed n) :
    (config.under clock).Alike (config.under clock') where
  config := rfl
  isExpired number := by
    unfold Limits.isExpired under
    rcases h with hnone | hsame
    · dsimp only
      rw [hnone]
    · have helapsed : clock.reading number - clock.reading 0 =
          clock'.reading number - clock'.reading 0 := hsame number
      dsimp only
      rw [helapsed]

end Highlight
