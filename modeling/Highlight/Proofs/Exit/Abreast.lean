/-
# Runs side by side

Two computations are abreast if, from runs that differ in nothing but the attempts that
they have made, they end with the same failure or with related results, and leave runs that
again differ in nothing but that (`RunM.Abreast`).  Where attempts and time are unlimited no
action of a run looks at the attempts, so that every action is abreast of itself.

Of the runs it is known besides that grammars work in them as in the store that they
started with (`Run.From`).  So the rules of all sweeps are rules that the run comes to
(`Store.Meets`).
-/

import Highlight.Proofs.Overrun.NonEmpty
import Highlight.Proofs.Tape.Congruence

namespace Highlight

open RunM

/-- How many attempts a run has made, and the number of the last one. -/
structure Run.Attempts where
  made : Nat
  number : Nat

/-- The attempts that a run has made. -/
def Run.attempts (r : Run) : Run.Attempts :=
  ⟨r.profile.patternAttempts, r.steps⟩

/-- A run that has made other attempts. -/
def Run.withAttempts (r : Run) (n : Run.Attempts) : Run :=
  { r with steps := n.number, profile := { r.profile with patternAttempts := n.made } }

/-- A rule of a grammar that a run comes to. -/
def Store.Meets (s : Store) (root : GrammarId) (clause : Clause) : Prop :=
  ∃ id r, Relation.ReflTransGen s.Nests root id ∧ s.Works id r ∧ clause ∈ r.clauses

/-- A grammar that cuts the matches of such a rule further is one that the run comes to. -/
theorem Store.Meets.inside {s : Store} {root id : GrammarId} {clause : Clause}
    (h : s.Meets root clause) (hinside : clause.rule.inside = some id) :
    Relation.ReflTransGen s.Nests root id := by
  obtain ⟨from', r, hreaches, hworks, hclause⟩ := h
  exact hreaches.tail ⟨r, clause, hworks, hclause, hinside⟩

namespace RunM

variable {α β γ δ : Type}

/-- Ends that differ in nothing but the attempts made: the same failure, or related results. -/
inductive SideBySide (store : Store) (R : α → β → Prop) : EStateM.Result Failure Run α →
    EStateM.Result Failure Run β → Prop where
  | ok {a : α} {b : β} (r : Run) (n : Run.Attempts) : R a b → r.From store →
    SideBySide store R (.ok a r) (.ok b (r.withAttempts n))
  | error (e : Failure) (r : Run) (n : Run.Attempts) :
    SideBySide store R (.error e r) (.error e (r.withAttempts n))

/-- Two computations end side by side from runs that differ in nothing but the attempts
made. -/
def Abreast (store : Store) (R : α → β → Prop) (m : RunM α) (m' : RunM β) : Prop :=
  ∀ r n, r.From store → SideBySide store R (m.run r) (m'.run (r.withAttempts n))

namespace Abreast

variable {store : Store} {R : α → β → Prop} {m : RunM α} {m' : RunM β}

theorem pure {a : α} {b : β} (h : R a b) : Abreast store R (Pure.pure a) (Pure.pure b) :=
  fun r n hr => .ok r n h hr

/-- Computations that are abreast, and then computations that are on related results. -/
theorem bind {S : γ → δ → Prop} {f : α → RunM γ} {f' : β → RunM δ} (h : Abreast store R m m')
    (hf : ∀ a b, R a b → Abreast store S (f a) (f' b)) :
    Abreast store S (m >>= f) (m' >>= f') := by
  intro r n hr
  have hend := h r n hr
  rw [EStateM.run_bind, EStateM.run_bind]
  generalize m.run r = x, m'.run (r.withAttempts n) = y at hend
  cases hend with
  | ok r n hab hr => exact hf _ _ hab r n hr
  | error e r n => exact .error e r n

theorem imp {S : α → β → Prop} (h : Abreast store R m m') (hRS : ∀ a b, R a b → S a b) :
    Abreast store S m m' := by
  intro r n hr
  have hend := h r n hr
  generalize m.run r = x, m'.run (r.withAttempts n) = y at hend ⊢
  cases hend with
  | ok r n hab hr => exact .ok r n (hRS _ _ hab) hr
  | error e r n => exact .error e r n

/-- What is known of the first result anyway is known besides. -/
theorem also {Q : α → Prop} {E : Failure → Run → Prop} (h : Abreast store R m m')
    (hm : Triple (fun _ => True) m (fun a _ => Q a) E) :
    Abreast store (fun a b => R a b ∧ Q a) m m' := by
  intro r n hr
  have hend := h r n hr
  have hknown := hm r trivial
  generalize m.run r = x, m'.run (r.withAttempts n) = y at hend hknown ⊢
  cases hend with
  | ok r n hab hr => exact .ok r n ⟨hab, hknown⟩ hr
  | error e r n => exact .error e r n

theorem giveUp (event : Event) (failure : Failure) :
    Abreast store R (RunM.giveUp event failure) (RunM.giveUp event failure) :=
  fun _ n _ => .error _ _ n

theorem runaway : Abreast store R (throw .runaway) (throw .runaway) :=
  fun _ n _ => .error _ _ n

/-- Counts of something else than attempts. -/
theorem count {f : Profile → Profile}
    (hf : ∀ p n, f { p with patternAttempts := n } = { f p with patternAttempts := n }) :
    Abreast store (fun _ _ => True) (RunM.count f) (RunM.count f) := by
  intro r n hr
  have hcount : (RunM.count f).run (r.withAttempts n) =
      .ok () (Run.withAttempts { r with profile := f r.profile } n) := by
    have hprofile := hf r.profile n.made
    simp only [Run.withAttempts, ← hprofile]
    rfl
  rw [hcount]
  exact .ok _ n trivial hr

theorem reachDepth (depth : Nat) :
    Abreast store (fun _ _ => True) (RunM.reachDepth depth) (RunM.reachDepth depth) :=
  fun r n hr => .ok { r with peak := max r.peak depth } n trivial hr

/-- Attempts are made alike where there is no limit. -/
theorem charge {limits : Limits} (hsteps : limits.maxSteps = none)
    (htime : limits.timeout = none) :
    Abreast store (fun _ _ => True) (RunM.charge limits) (RunM.charge limits) := by
  intro r n hr
  rw [run_charge_of_unlimited hsteps htime, run_charge_of_unlimited hsteps htime]
  exact .ok r.countAttempt ⟨n.made + 1, n.number + 1⟩ trivial hr

/-- A grammar is resolved to the same rules, which the run comes to. -/
theorem resolve {root id : GrammarId} (hid : Relation.ReflTransGen store.Nests root id) :
    Abreast store (fun found found' => found = found' ∧
        ∀ clause ∈ found.clauses, store.Meets root clause)
      (RunM.resolve (.grammar id)) (RunM.resolve (.grammar id)) := by
  intro r n hr
  unfold RunM.resolve
  simp only [EStateM.run_bind, EStateM.run_get]
  rw [show (r.withAttempts n).store = r.store from rfl]
  cases hresolve : r.store.resolve (.grammar id) with
  | error e => exact .error e r n
  | ok resolved =>
    obtain ⟨resolution, store', events⟩ := resolved
    have hfrom : Run.From store { r with store := store', events := r.events ++ events } :=
      fun id resolution h => hr id resolution (h.of_resolve hresolve)
    obtain ⟨_, ⟨⟩, hcached, -⟩ := Store.resolve_cases hresolve
    have hworks : store.Works id resolution := hfrom id resolution (Or.inl hcached)
    exact .ok _ n ⟨rfl, fun clause hclause => ⟨id, resolution, hid, hworks, hclause⟩⟩ hfrom

end Abreast
end RunM

/-! ### Texts, tokens and cuts -/

/-- Two ways of going deeper are abreast on all sweeps that cover their text with rules that
the run comes to. -/
def Strip.Abreast (store : Store) (root : GrammarId) (enter enter' : Strip.Enter) : Prop :=
  ∀ s : Strip, s.Covers → (∀ clause ∈ s.clauses, store.Meets root clause) →
    RunM.Abreast store Eq (enter s) (enter' s)

section Sweep

variable {store : Store} {root : GrammarId} {enter enter' : Strip.Enter} {clause : Clause}

/-- The chunks of a text are the same, if sweeps leave the same. -/
theorem chunksOf_abreast (henter : Strip.Abreast store root enter enter') {id : GrammarId}
    (hid : Relation.ReflTransGen store.Nests root id) (nested : Bool) (text : Text) :
    RunM.Abreast store Eq (Strip.chunksOf enter nested text (.grammar id))
      (Strip.chunksOf enter' nested text (.grammar id)) := by
  have hcount : RunM.Abreast store (fun _ _ => True)
      (RunM.count (Profile.countText nested text)) (RunM.count (Profile.countText nested text)) :=
    .count fun p n => by cases nested <;> rfl
  refine (Abreast.resolve hid).bind ?_
  rintro found _ ⟨rfl, hmeets⟩
  refine hcount.bind fun _ _ _ => ?_
  split
  · exact .pure rfl
  · refine (henter _ (.whole ..) hmeets).bind ?_
    rintro swept _ rfl
    exact .pure rfl

/-- The token of a matched text is the same, if sweeps leave the same. -/
theorem tokenOf_abreast (henter : Strip.Abreast store root enter enter')
    (hmeets : store.Meets root clause) (matched : Text) :
    RunM.Abreast store Eq (Strip.tokenOf enter clause matched)
      (Strip.tokenOf enter' clause matched) := by
  have hcount (token : Chunk) : RunM.Abreast store Eq
      (do RunM.count fun p => { p with tokenCount := p.tokenCount + 1 }
          return token)
      (do RunM.count fun p => { p with tokenCount := p.tokenCount + 1 }
          return token) :=
    (Abreast.count fun _ _ => rfl).bind fun _ _ _ => .pure rfl
  unfold Strip.tokenOf
  cases hinside : clause.rule.inside with
  | none => exact hcount _
  | some id =>
    dsimp only
    rw [← bind_pure_comp, ← bind_pure_comp]
    simp only [bind_assoc, pure_bind]
    refine (chunksOf_abreast henter (hmeets.inside hinside) true matched).bind ?_
    rintro parts _ rfl
    exact hcount _

/-- **Cutting a match out is the same**, if sweeps leave the same. -/
theorem replace_abreast (henter : Strip.Abreast store root enter enter') {text : Text}
    {start base : Nat} {earlier : List Clause} {t : Tape} {covered rest : List Chunk} {cut : Cut}
    (hmeets : store.Meets root clause) (hearlier : ∀ c ∈ earlier, store.Meets root c)
    (hcovers : t.Covers text start) (hahead : t.ahead = covered ++ rest)
    (hfits : cut.Fits covered) :
    RunM.Abreast store Eq (t.replace enter text base earlier clause rest cut)
      (t.replace enter' text base earlier clause rest cut) := by
  have htoken := (tokenOf_abreast henter hmeets cut.matched).also
    (Strip.tokenOf_extent enter clause cut.matched)
  unfold Tape.replace
  refine htoken.bind ?_
  rintro token _ ⟨rfl, -, hextent⟩
  split
  · refine (Abreast.count fun _ _ => rfl).bind fun _ _ _ => ?_
    have hrematch : (t.rematch text base earlier cut token rest).Covers :=
      hcovers.leftover hahead hfits hextent
    refine (henter _ hrematch hearlier).bind ?_
    rintro swept _ rfl
    exact .pure rfl
  · exact .pure rfl

end Sweep
end Highlight
