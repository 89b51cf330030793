/-
# What relates the parts of a run relates the runs

A run does a few things only: it returns, goes on, fails, counts, resolves a
grammar and charges an attempt.  A relation between computations that goes
through sequences and holds of each of these (`RunM.Congruence`) holds of whole
sweeps, as soon as it holds of the sweeps one recursion deeper
(`Strip.run_related`).  The two sides may have different limits, and different
ways of going deeper.

The relation need not tell two sides apart.  So whatever the actions of a run
make of it, step by step, whole runs make of it (`tokenize_goes`).
-/

import Highlight.Proofs.Tape.Refinement

namespace Highlight

namespace RunM

/-- A relation between computations under two sets of limits, which goes through
sequences and holds of each action of a run. -/
structure Congruence (limits limits' : Limits)
    (Rel : ∀ {α : Type}, RunM α → RunM α → Prop) : Prop where
  pure {α : Type} (a : α) : Rel (Pure.pure a : RunM α) (Pure.pure a)
  bind {α β : Type} {m m' : RunM α} {f f' : α → RunM β} :
    Rel m m' → (∀ a, Rel (f a) (f' a)) → Rel (m >>= f) (m' >>= f')
  runaway {α : Type} : Rel (throw .runaway : RunM α) (throw .runaway)
  overrun {α : Type} (type : String) (chunks length : Int) :
    Rel (giveUp (.overrun type chunks length) (.overrun chunks length) : RunM α)
      (giveUp (.overrun type chunks length) (.overrun chunks length))
  count (f : Profile → Profile) (hf : ∀ p, (f p).patternAttempts = p.patternAttempts) :
    Rel (count f) (count f)
  clauses (ref : Ref) :
    Rel (Resolution.clauses <$> resolve ref) (Resolution.clauses <$> resolve ref)
  charge : Rel (charge limits) (charge limits')

/-- What resolving a grammar for its rules does to a run. -/
theorem run_clauses (ref : Ref) (r : Run) :
    (Resolution.clauses <$> resolve ref).run r =
      match r.store.resolve ref with
      | .error failure => .error failure r
      | .ok (resolution, store, events) =>
        .ok resolution.clauses { r with store, events := r.events ++ events } := by
  rw [map_eq_pure_bind, resolve, bind_assoc, EStateM.run_bind, EStateM.run_get]
  dsimp only
  cases r.store.resolve ref <;> rfl

end RunM

/-- A run over a text that is counted, nested in another text or not. -/
def Profile.countText (nested : Bool) (text : Text) (p : Profile) : Profile :=
  if nested then { p with nestedCalls := p.nestedCalls + 1 }
  else { p with
    tokenizeCalls := p.tokenizeCalls + 1
    sourceLength := p.sourceLength + text.length }

/-- The chunks of a text cut by rules. -/
def Strip.chunksBy (enter : Strip.Enter) (nested : Bool) (text : Text) (clauses : List Clause) :
    RunM (List Chunk) := do
  RunM.count (Profile.countText nested text)
  if text = [] then return []
  let swept ←
    enter { text, clauses, base := 0, chunks := [.plain text], offset := 0, reach := none }
  return swept.chunks

/-- Of what a grammar resolves to only the rules are used. -/
theorem Strip.chunksOf_eq_chunksBy (enter : Strip.Enter) (nested : Bool) (text : Text)
    (ref : Ref) :
    Strip.chunksOf enter nested text ref =
      Resolution.clauses <$> RunM.resolve ref >>= Strip.chunksBy enter nested text := by
  rw [bind_map_left]
  rfl

section Related

variable {limits limits' : Limits} {Rel : ∀ {α : Type}, RunM α → RunM α → Prop}
  {enter enter' : Strip.Enter} {text : Text} {base : Nat} {earlier : List Clause}
  {clause : Clause}

/-- The chunks that rules cut a text into are related if the sweeps are. -/
theorem Strip.chunksBy_related (h : RunM.Congruence limits limits' @Rel)
    (henter : ∀ s, Rel (enter s) (enter' s)) (nested : Bool) (text : Text)
    (clauses : List Clause) :
    Rel (Strip.chunksBy enter nested text clauses) (Strip.chunksBy enter' nested text clauses) := by
  have hcount (p : Profile) : (p.countText nested text).patternAttempts = p.patternAttempts := by
    cases nested <;> rfl
  refine h.bind (h.count _ hcount) fun _ => ?_
  split
  · exact h.pure _
  · exact h.bind (henter _) fun swept => h.pure _

/-- The chunks of a text are related if the sweeps are. -/
theorem Strip.chunksOf_related (h : RunM.Congruence limits limits' @Rel)
    (henter : ∀ s, Rel (enter s) (enter' s)) (nested : Bool) (text : Text) (ref : Ref) :
    Rel (Strip.chunksOf enter nested text ref) (Strip.chunksOf enter' nested text ref) := by
  rw [chunksOf_eq_chunksBy, chunksOf_eq_chunksBy]
  exact h.bind (h.clauses ref) (Strip.chunksBy_related h henter nested text)

/-- The token of a matched text is related if the sweeps are. -/
theorem Strip.tokenOf_related (h : RunM.Congruence limits limits' @Rel)
    (henter : ∀ s, Rel (enter s) (enter' s)) (clause : Clause) (matched : Text) :
    Rel (Strip.tokenOf enter clause matched) (Strip.tokenOf enter' clause matched) := by
  have hcount (token : Chunk) : Rel
      (do RunM.count fun p => { p with tokenCount := p.tokenCount + 1 }
          return token)
      (do RunM.count fun p => { p with tokenCount := p.tokenCount + 1 }
          return token) :=
    h.bind (h.count _ fun _ => rfl) fun _ => h.pure _
  unfold Strip.tokenOf
  cases clause.rule.inside with
  | none => exact h.bind (h.pure _) hcount
  | some id =>
    refine h.bind ?_ hcount
    rw [map_eq_pure_bind, map_eq_pure_bind]
    exact h.bind (Strip.chunksOf_related h henter true matched _) fun _ => h.pure _

namespace Tape

/-- Cutting a match out is related if the sweeps are. -/
theorem replace_related (h : RunM.Congruence limits limits' @Rel)
    (henter : ∀ s, Rel (enter s) (enter' s)) (t : Tape) (rest : List Chunk) (cut : Cut) :
    Rel (t.replace enter text base earlier clause rest cut)
      (t.replace enter' text base earlier clause rest cut) := by
  unfold replace
  refine h.bind (Strip.tokenOf_related h henter clause cut.matched) fun token => ?_
  split
  · exact h.bind (h.count _ fun _ => rfl) fun _ => h.bind (henter _) fun _ => h.pure _
  · exact h.bind (h.pure _) fun _ => h.pure _

/-- Steps are related if the sweeps are. -/
theorem step_related (h : RunM.Congruence limits limits' @Rel)
    (henter : ∀ s, Rel (enter s) (enter' s)) (t : Tape) :
    Rel (t.step enter limits text base earlier clause)
      (t.step enter' limits' text base earlier clause) := by
  unfold step
  split
  · exact h.pure _
  · dsimp only
    split
    · exact h.overrun _ _ _
    · split
      · exact h.pure _
      · refine h.bind h.charge fun _ => ?_
        split
        · exact h.pure _
        · exact h.pure _
        · exact h.bind (replace_related h henter _ _ _) fun _ => h.pure _
      · exact h.pure _

/-- Walks are related if their steps are. -/
theorem finish_related (h : RunM.Congruence limits limits' @Rel)
    {step step' : Tape → RunM (Option Tape)} (hstep : ∀ t, Rel (step t) (step' t)) (fuel : Nat)
    (t : Tape) : Rel (finish step fuel t) (finish step' fuel t) := by
  induction fuel generalizing t with
  | zero => exact h.runaway
  | succ fuel ih =>
    refine h.bind (hstep t) fun next => ?_
    cases next with
    | none => exact h.pure _
    | some t => exact ih t

end Tape

/-- **Sweeps are related** if those one recursion deeper are. -/
theorem Strip.run_related (h : RunM.Congruence limits limits' @Rel)
    (henter : ∀ s, Rel (enter s) (enter' s)) (s : Strip) :
    Rel (s.run Tape.step enter limits) (s.run Tape.step enter' limits') := by
  have hwalk (earlier : List Clause) (clause : Clause) (state : Swept) :
      Rel (s.walk Tape.step enter limits earlier clause state)
        (s.walk Tape.step enter' limits' earlier clause state) :=
    h.bind (Tape.finish_related h (Tape.step_related h henter) _ _) fun _ => h.pure _
  have hwalks (later : List Clause) : ∀ earlier state,
      Rel (s.walks Tape.step enter limits earlier later state)
        (s.walks Tape.step enter' limits' earlier later state) := by
    induction later with
    | nil => exact fun _ _ => h.pure _
    | cons clause later ih =>
      exact fun earlier state => h.bind (hwalk earlier clause state) fun state => ih _ state
  exact hwalks s.clauses [] _

/-- Sweeps are related at every depth, if noting a depth is, and refusing to go deeper. -/
theorem Strip.descend_related (h : RunM.Congruence limits limits' @Rel)
    (hreach : ∀ depth, Rel (RunM.reachDepth depth) (RunM.reachDepth depth))
    (hrefuse : ∀ depth, Rel (Tokenizer.refuse limits depth : RunM Swept)
      (Tokenizer.refuse limits' depth)) (levels depth : Nat) (s : Strip) :
    Rel (descend Tape.step limits levels depth s)
      (descend Tape.step limits' levels depth s) := by
  induction levels generalizing depth s with
  | zero => exact hrefuse depth
  | succ levels ih =>
    exact h.bind (hreach (depth + 1)) fun _ => run_related h (ih (depth + 1)) s

/-- **Runs are related**, if they may go down the same number of levels. -/
theorem Tokenizer.run_related (h : RunM.Congruence limits limits' @Rel)
    (hreach : ∀ depth, Rel (RunM.reachDepth depth) (RunM.reachDepth depth))
    (hrefuse : ∀ depth, Rel (refuse limits depth : RunM Strip.Swept) (refuse limits' depth))
    {frames : Option Nat} (hlevels : levels limits frames = levels limits' frames) (text : Text)
    (ref : Ref) : Rel (run limits frames text ref) (run limits' frames text ref) := by
  rw [run_eq, run_eq, hlevels]
  exact Strip.chunksOf_related h (Strip.descend_related h hreach hrefuse _ 0) false text ref

end Related

/-! ### Where runs go -/

/-- A way from runs to what becomes of them: by events, counts, numbers taken, depths
reached and grammars resolved, one after the other. -/
structure Run.Course (Way : Run → Run → Prop) : Prop where
  refl (r : Run) : Way r r
  trans {r r' r'' : Run} : Way r r' → Way r' r'' → Way r r''
  report (r : Run) (events : List Event) : Way r { r with events }
  count (r : Run) (profile : Profile) :
    r.profile.patternAttempts ≤ profile.patternAttempts → Way r { r with profile }
  take (r : Run) : Way r { r with steps := r.steps + 1 }
  reach (r : Run) (depth : Nat) : Way r { r with peak := max r.peak depth }
  resolve (r : Run) {ref : Ref} {resolution : Resolution} {store : Store} {events : List Event} :
    r.store.resolve ref = .ok (resolution, store, events) → Way r { r with store }

namespace RunM

variable {α β : Type} {Way : Run → Run → Prop}

/-- The run that an end leaves. -/
def leaves : EStateM.Result Failure Run α → Run
  | .ok _ r | .error _ r => r

/-- A computation goes a way, whether it fails or not. -/
def Goes (Way : Run → Run → Prop) (m : RunM α) : Prop :=
  ∀ r : Run, Way r (leaves (m.run r))

theorem Goes.bind (h : Run.Course Way) {m : RunM α} {f : α → RunM β} (hm : Goes Way m)
    (hf : ∀ a, Goes Way (f a)) : Goes Way (m >>= f) := by
  intro r
  have hend := hm r
  rw [EStateM.run_bind]
  cases hm : m.run r with
  | ok a r' =>
    rw [hm] at hend
    exact h.trans hend (hf a r')
  | error e r' =>
    rw [hm] at hend
    exact hend

/-- What the way keeps, a computation leaves alone. -/
theorem Goes.frame {m : RunM α} (hgoes : Goes Way m) {P R : Run → Prop} {Q : α → Run → Prop}
    {E : Failure → Run → Prop} (hkeeps : ∀ {r r'}, Way r r' → R r → R r') (h : Triple P m Q E) :
    Triple (fun r => R r ∧ P r) m (fun a r => R r ∧ Q a r) E := by
  intro r hr
  have hend := h r hr.2
  have hway := hgoes r
  cases hm : m.run r with
  | ok a r' =>
    rw [hm] at hend hway
    exact ⟨hkeeps hway hr.1, hend⟩
  | error e r' =>
    rw [hm] at hend
    exact hend

/-- Every action of a run goes a way that events, counts and resolving do. -/
theorem congruence_goes (h : Run.Course Way) (limits : Limits) :
    Congruence limits limits (fun m _ => Goes Way m) where
  pure := fun _ r => h.refl r
  bind := fun hm hf => hm.bind h hf
  runaway := fun r => h.refl r
  overrun := fun _ _ _ r => h.report r _
  count := fun _ hf r => h.count r _ (Nat.le_of_eq (hf r.profile).symm)
  clauses := fun ref r => by
    rw [run_clauses]
    split
    · exact h.refl r
    · rename_i hresolve
      exact h.trans (h.resolve r hresolve) (h.report _ _)
  charge := fun r => by
    rw [run_charge]
    split
    · split
      · exact h.trans (h.take r) (h.report _ _)
      · exact h.trans (h.take r) (h.count _ _ (Nat.le_succ _))
    · exact h.trans (h.take r) (h.report _ _)

end RunM

section Goes

variable {Way : Run → Run → Prop} {enter : Strip.Enter}

/-- Sweeps go a way if those one recursion deeper do. -/
theorem Strip.run_goes (h : Run.Course Way) (henter : ∀ s, RunM.Goes Way (enter s))
    (limits : Limits) (s : Strip) : RunM.Goes Way (s.run Tape.step enter limits) :=
  @run_related limits limits _ enter enter (RunM.congruence_goes h limits) henter s

/-- Refusing to go deeper is an event. -/
theorem Tokenizer.refuse_goes {α : Type} (h : Run.Course Way) (limits : Limits) (depth : Nat) :
    RunM.Goes Way (refuse limits depth : RunM α) := by
  intro r
  unfold refuse
  dsimp only
  split
  · exact h.report r _
  · exact h.report r _

/-- Sweeps go a way, at any depth. -/
theorem Strip.descend_goes (h : Run.Course Way) (limits : Limits) (levels depth : Nat)
    (s : Strip) : RunM.Goes Way (descend Tape.step limits levels depth s) :=
  descend_related (RunM.congruence_goes h limits) (fun _ r => h.reach r _)
    (Tokenizer.refuse_goes h limits) levels depth s

/-- **Whole runs go every way that their actions do.** -/
theorem tokenize_goes (h : Run.Course Way) (limits : Limits) (frames : Option Nat)
    (store : Store) (text : Text) (ref : Ref) :
    Way { store } (tokenize limits frames store text ref).run := by
  have hend := Tokenizer.run_related (RunM.congruence_goes h limits) (fun _ r => h.reach r _)
    (Tokenizer.refuse_goes h limits) (@rfl _ (Tokenizer.levels limits frames)) text ref { store }
  unfold tokenize
  cases hcase : (Tokenizer.run limits frames text ref).run { store } <;>
    rw [hcase] at hend <;> exact hend

end Goes
end Highlight
