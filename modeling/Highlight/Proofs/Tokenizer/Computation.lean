/-
# Statements about computations

A computation within a run ends with a result or a failure, and leaves a run
behind either way.  Two kinds of statements about it are used throughout.

  * `RunM.Triple P m Q E`: from every run that meets `P`, a result and the run
    left with it meet `Q`, and a failure and the run left with it meet `E`.
  * `RunM.Agrees R m m'`: from every run, `m` and `m'` leave the same run, and
    end with the same failure or with results that `R` relates.

Both go through sequences of computations, so that each action needs its
statement once.
-/

import Highlight.Tokenizer.Run

namespace Highlight
namespace RunM

variable {α β γ δ : Type}

/-! ### What a computation ensures -/

/-- From every run that meets `P`, results meet `Q` and failures meet `E`, each
with the run that is left. -/
def Triple (P : Run → Prop) (m : RunM α) (Q : α → Run → Prop) (E : Failure → Run → Prop) : Prop :=
  ∀ r, P r → match m.run r with
    | .ok a r' => Q a r'
    | .error e r' => E e r'

namespace Triple

variable {P P' : Run → Prop} {Q Q' : α → Run → Prop} {E E' : Failure → Run → Prop} {m : RunM α}

/-- What is known before may be more, what is known after may be less. -/
theorem imp (h : Triple P m Q E) (hP : ∀ r, P' r → P r) (hQ : ∀ a r, Q a r → Q' a r)
    (hE : ∀ e r, E e r → E' e r) : Triple P' m Q' E' := by
  intro r hr
  have hend := h r (hP r hr)
  split at hend
  · exact hQ _ _ hend
  · exact hE _ _ hend

/-- What is known before may be more. -/
theorem pre (h : Triple P m Q E) (hP : ∀ r, P' r → P r) : Triple P' m Q E :=
  h.imp hP (fun _ _ hend => hend) fun _ _ hend => hend

/-- What is known of the result may be less. -/
theorem post (h : Triple P m Q E) (hQ : ∀ a r, Q a r → Q' a r) : Triple P m Q' E :=
  h.imp (fun _ hr => hr) hQ fun _ _ hend => hend

/-- Of every computation nothing at all is known. -/
theorem intro (m : RunM α) : Triple P m (fun _ _ => True) fun _ _ => True := by
  intro r _
  split <;> trivial

/-- What is known in two ways is known in both. -/
theorem and (h : Triple P m Q E) (h' : Triple P' m Q' E') :
    Triple (fun r => P r ∧ P' r) m (fun a r => Q a r ∧ Q' a r) (fun e r => E e r ∧ E' e r) := by
  intro r hr
  have hend := h r hr.1
  have hend' := h' r hr.2
  split at hend <;> simp_all

/-- What is known of the result anyway is known besides. -/
theorem also (h : Triple P m Q E) (h' : Triple (fun _ => True) m Q' fun _ _ => True) :
    Triple P m (fun a r => Q a r ∧ Q' a r) E :=
  (h.and h').imp (fun _ hr => ⟨hr, trivial⟩) (fun _ _ hend => hend) fun _ _ hend => hend.1

/-- Returning a value. -/
theorem pure {a : α} (h : ∀ r, P r → Q a r) : Triple P (Pure.pure a) Q E :=
  fun r hr => h r hr

/-- One computation and then another. -/
theorem bind {R : β → Run → Prop} {f : α → RunM β} (h : Triple P m Q E)
    (hf : ∀ a, Triple (Q a) (f a) R E) : Triple P (m >>= f) R E := by
  intro r hr
  have hend := h r hr
  rw [EStateM.run_bind]
  cases hm : m.run r with
  | ok a r' =>
    rw [hm] at hend
    exact hf a r' hend
  | error e r' =>
    rw [hm] at hend
    exact hend

/-- A computation whose result is passed through a function. -/
theorem map {R : β → Run → Prop} {f : α → β} (h : Triple P m Q E)
    (hf : ∀ a r, Q a r → R (f a) r) : Triple P (f <$> m) R E := by
  have heq : f <$> m = m >>= fun a => Pure.pure (f a) := (bind_pure_comp f m).symm
  rw [heq]
  exact h.bind fun a => pure fun r => hf a r

/-- Counting. -/
theorem count {f : Profile → Profile} {Q : Unit → Run → Prop}
    (h : ∀ r, P r → Q () { r with profile := f r.profile }) : Triple P (RunM.count f) Q E :=
  fun r hr => h r hr

/-- Noting a depth. -/
theorem reachDepth {depth : Nat} {Q : Unit → Run → Prop}
    (h : ∀ r, P r → Q () { r with peak := max r.peak depth }) :
    Triple P (RunM.reachDepth depth) Q E :=
  fun r hr => h r hr

/-- Resolving a grammar. -/
theorem resolve {ref : Ref} {Q : Resolution → Run → Prop}
    (hok : ∀ r resolution store events, P r →
      r.store.resolve ref = .ok (resolution, store, events) →
      Q resolution { r with store, events := r.events ++ events })
    (herror : ∀ r e, P r → r.store.resolve ref = .error e → E e r) :
    Triple P (RunM.resolve ref) Q E := by
  intro r hr
  unfold RunM.resolve
  simp only [EStateM.run_bind, EStateM.run_get]
  cases hresolve : r.store.resolve ref with
  | error e => exact herror r e hr hresolve
  | ok resolved => exact hok r _ _ _ hr hresolve

/-- Failing, with an event. -/
theorem giveUp {event : Event} {failure : Failure}
    (h : ∀ r, P r → E failure { r with events := r.events ++ [event] }) :
    Triple P (RunM.giveUp event failure) Q E :=
  fun r hr => h r hr

end Triple

/-! ### Computations that agree -/

/-- Two ends of computations are alike: the same failure, or related results,
and the same run. -/
inductive Alike (R : α → β → Prop) : EStateM.Result Failure Run α →
    EStateM.Result Failure Run β → Prop where
  | ok {a : α} {b : β} (r : Run) : R a b → Alike R (.ok a r) (.ok b r)
  | error (e : Failure) (r : Run) : Alike R (.error e r) (.error e r)

/-- Two computations end alike from every run. -/
def Agrees (R : α → β → Prop) (m : RunM α) (m' : RunM β) : Prop :=
  ∀ r, Alike R (m.run r) (m'.run r)

namespace Agrees

variable {R : α → β → Prop} {m : RunM α} {m' : RunM β}

/-- Returning related values. -/
theorem pure {a : α} {b : β} (h : R a b) : Agrees R (Pure.pure a) (Pure.pure b) :=
  fun r => .ok r h

/-- A computation agrees with itself. -/
theorem refl (m : RunM α) : Agrees Eq m m := by
  intro r
  cases m.run r with
  | ok a r' => exact .ok r' rfl
  | error e r' => exact .error e r'

/-- A computation agrees with itself, in results that are known of it. -/
theorem of_triple {Q : α → Prop} {E : Failure → Run → Prop} {m : RunM α}
    (h : Triple (fun _ => True) m (fun a _ => Q a) E) :
    Agrees (fun a b => a = b ∧ Q a) m m := by
  intro r
  have hend := h r trivial
  cases hm : m.run r with
  | ok a r' =>
    rw [hm] at hend
    exact .ok r' ⟨rfl, hend⟩
  | error e r' => exact .error e r'

/-- What is known of the results of computations that agree is known of the
first one. -/
theorem triple {Q : α → Prop} {m m' : RunM α} (h : Agrees (fun a b => a = b ∧ Q a) m m') :
    Triple (fun _ => True) m (fun a _ => Q a) fun _ _ => True := by
  intro r _
  have hend := h r
  cases hm : m.run r <;> cases hm' : m'.run r <;> rw [hm, hm'] at hend <;> cases hend
  · rename_i hab
    exact hab.2
  · trivial

/-- Failing in the same way. -/
theorem giveUp (event : Event) (failure : Failure) :
    Agrees R (RunM.giveUp event failure) (RunM.giveUp event failure) :=
  fun _ => .error _ _

/-- Computations that agree, and then computations that agree on related
results. -/
theorem bind {S : γ → δ → Prop} {f : α → RunM γ} {f' : β → RunM δ} (h : Agrees R m m')
    (hf : ∀ a b, R a b → Agrees S (f a) (f' b)) : Agrees S (m >>= f) (m' >>= f') := by
  intro r
  have hend := h r
  rw [EStateM.run_bind, EStateM.run_bind]
  cases hm : m.run r <;> cases hm' : m'.run r <;> rw [hm, hm'] at hend
  · cases hend with
    | ok _ hab => exact hf _ _ hab _
  · cases hend
  · cases hend
  · cases hend with
    | error => exact .error _ _

/-- The same computation, and then computations that agree. -/
theorem bind_left {S : γ → δ → Prop} {f : α → RunM γ} {f' : α → RunM δ} (m : RunM α)
    (hf : ∀ a, Agrees S (f a) (f' a)) : Agrees S (m >>= f) (m >>= f') :=
  (refl m).bind fun a _ hab => hab ▸ hf a

/-- Related results may be related otherwise. -/
theorem imp {S : α → β → Prop} (h : Agrees R m m') (hRS : ∀ a b, R a b → S a b) :
    Agrees S m m' := by
  intro r
  have hend := h r
  cases hm : m.run r <;> cases hm' : m'.run r <;> rw [hm, hm'] at hend
  · cases hend with
    | ok _ hab => exact .ok _ (hRS _ _ hab)
  · cases hend
  · cases hend
  · cases hend with
    | error => exact .error _ _

/-- Computations that agree up to equality are equal. -/
theorem eq {m m' : RunM α} (h : Agrees Eq m m') : m = m' := by
  funext r
  have hend := h r
  unfold EStateM.run at hend
  cases hm : m r <;> cases hm' : m' r <;> rw [hm, hm'] at hend <;> cases hend
  · rename_i hab
    rw [hab]
  · rfl

end Agrees
end RunM

/-- What a result holds, where it can be computed. -/
theorem eq_ok_of_toOption {ε α : Type} {result : Except ε α} {a : α}
    (h : result.toOption = some a) : result = .ok a := by
  cases result with
  | ok b =>
    cases h
    rfl
  | error e => cases h

end Highlight
