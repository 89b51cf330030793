/-
# Histories of sessions

What becomes of the grammars of a session, four kinds of requests decide.

| request | what becomes of the store |
| --- | --- |
| `add g` | one grammar more |
| `setRest id rest` | another fallback, and no resolution, for one grammar |
| `resolve ref` | more resolutions, or none more |
| `tokenize t text ref clock` | more resolutions, at any moment of the run |

A text is cut by a tokenizer, which may be new or have served any calls before.

A session is *reachable* if its grammars have come of fresh ones by requests like
these, each of which named only grammars that were there (`Session.Reachable`).
What it holds may be made to depend on what is asked of it: `Allowed` says which
requests are made.

Runs touch a store only by resolving grammars (`store_tokenize_follows`).  So what each
of the three other requests keeps, every history keeps (`Reachable.keeps`).
-/

import Highlight.Proofs.Store.Changes
import Highlight.Proofs.Tape.Congruence
import Highlight.Session

namespace Highlight

/-- A request that concerns the grammars of a session. -/
inductive Request where
  | add (g : Grammar)
  | setRest (id : GrammarId) (rest : Option Ref)
  | resolve (ref : Ref)
  | tokenize (t : Tokenizer) (text : Text) (ref : Ref) (clock : Clock)

/-- A request can be made: the grammars that it declares something of are there. -/
def Request.Possible (store : Store) : Request → Prop
  | .add g => store.Accepts g
  | .setRest _ rest => ∀ next ∈ rest.bind Ref.id?, next < store.grammars.size
  | .resolve _ | .tokenize .. => True

namespace Session

/-- The session after a request, whatever the answer was. -/
def perform (s : Session) : Request → Session
  | .add g => (s.addGrammar g).2
  | .setRest id rest => s.setRest id rest
  | .resolve ref => (s.resolve ref).2
  | .tokenize t text ref clock => (s.call t text ref clock).2.2

/-- The frames of the host stay the same. -/
theorem frames_perform (s : Session) (request : Request) :
    (s.perform request).frames = s.frames := by
  cases request with
  | add g => rfl
  | setRest id rest => rfl
  | resolve ref =>
    unfold perform Session.resolve
    dsimp only
    cases s.store.resolve ref <;> rfl
  | tokenize t text ref clock => rfl

/-- A session that has come of fresh grammars by requests that are allowed. -/
inductive Reachable (Allowed : Store → Request → Prop) : Session → Prop where
  | fresh {s : Session} : s.store.Fresh → Reachable Allowed s
  | perform {s : Session} {request : Request} : Reachable Allowed s →
      request.Possible s.store → Allowed s.store request → Reachable Allowed (s.perform request)

variable {s : Session} {Allowed : Store → Request → Prop}

/-- Grammars are resolved in the course of a run. -/
theorem follows_course : Run.Course fun r r' => r.store.Follows r'.store where
  refl := fun _ => .refl
  trans := Relation.ReflTransGen.trans
  report := fun _ _ => .refl
  count := fun _ _ _ => .refl
  take := fun _ => .refl
  reach := fun _ _ => .refl
  resolve := fun _ _ _ _ _ h => .single ⟨_, _, _, h⟩

theorem store_resolve_follows (s : Session) (ref : Ref) :
    s.store.Follows (s.perform (.resolve ref)).store := by
  unfold perform Session.resolve
  dsimp only
  cases hresolve : s.store.resolve ref with
  | error e => exact .refl
  | ok resolved => exact .single ⟨ref, _, _, hresolve⟩

/-- **A run touches a store only by resolving grammars**, whether it fails or
not. -/
theorem store_tokenize_follows (s : Session) (t : Tokenizer) (text : Text) (ref : Ref)
    (clock : Clock) : s.store.Follows (s.perform (.tokenize t text ref clock)).store :=
  tokenize_goes follows_course _ _ _ _ _

/-- **What is kept by adding grammars, changing fallbacks and resolving, every
history keeps.** -/
theorem Reachable.keeps {P : Store → Prop} (h : s.Reachable Allowed)
    (hfresh : ∀ s : Store, s.Fresh → P s)
    (hadd : ∀ (s : Store) (g : Grammar), P s → s.Accepts g → P (s.add g).2)
    (hsetRest : ∀ (s : Store) (id : GrammarId) (rest : Option Ref), P s →
      (∀ next ∈ rest.bind Ref.id?, next < s.grammars.size) → Allowed s (.setRest id rest) →
      P (s.setRest id rest))
    (hresolve : ∀ {s s' : Store} {ref : Ref} {r : Resolution} {events : List Event},
      P s → s.resolve ref = .ok (r, s', events) → P s') : P s.store := by
  induction h with
  | fresh hs => exact hfresh _ hs
  | @perform s request _ hpossible hallowed ih =>
    cases request with
    | add g => exact hadd _ g ih hpossible
    | setRest id rest => exact hsetRest _ id rest ih hpossible hallowed
    | resolve ref => exact (store_resolve_follows s ref).keeps ih hresolve
    | tokenize t text ref clock =>
      exact (store_tokenize_follows s t text ref clock).keeps ih hresolve

/-- In a reachable session all grammars that are named are there, and all
resolutions are what their grammars resolve to. -/
theorem Reachable.linked_sound (h : s.Reachable Allowed) : s.store.Linked ∧ s.store.Sound :=
  h.keeps (P := fun store => store.Linked ∧ store.Sound) (fun _ hs => ⟨hs.linked, hs.sound⟩)
    (fun _ _ hs hg => ⟨hs.1.add hg, hs.2.add hs.1 hg⟩)
    (fun _ _ _ hs hrest _ => ⟨hs.1.setRest hrest, hs.2.setRest⟩)
    fun hs hresolve => ⟨(Store.resolve_extends hresolve).linked hs.1, hs.2.resolve hresolve⟩

end Session
end Highlight
