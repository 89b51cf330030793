/-
# What a profile accounts for

A run counts every token as it makes it, every nested text before it cuts it, and every
rematch.  Of the tokens that it makes some are lost again: a greedy rule that covers
several chunks takes away the tokens among them, with all that is nested in them.
Nothing else loses a token.

| what a run does | tokens there are | tokens counted | rematches counted |
| --- | --- | --- | --- |
| makes a token | one more, and those in it | as many more | those in it |
| covers one chunk | no fewer | | |
| covers several | one fewer, at least | | one more |

In the last line it matters that no two plain chunks are next to each other
(`Chunk.Tidy`): of several chunks that are covered the second is a token.  So tokens and
rematches together never exceed the tokens that were counted, and as long as there has
been no rematch all counts are exact (`Profile.Balances`).  A `Ledger` holds what the
counts are weighed against.  What is outside a sweep is entered in it before the sweep
begins, so that a statement about a sweep is about its own chunks alone.
-/

import Highlight.Proofs.Steps.Tidy
import Highlight.Proofs.Session.Transparency

namespace Highlight

open Chunk RunM

/-! ### Ledgers -/

/-- What the counts of a profile are weighed against: the runs asked for, the characters
of their texts, the tokens that there are, and those among them that a nested grammar has
cut further. -/
structure Ledger where
  calls : Nat := 0
  source : Nat := 0
  tokens : Nat := 0
  nested : Nat := 0

namespace Ledger

/-- A text is going to be cut, nested in another text or not. -/
def addText (nested : Bool) (text : Text) (l : Ledger) : Ledger :=
  if nested then { l with nested := l.nested + 1 }
  else { l with calls := l.calls + 1, source := l.source + text.length }

/-- There are some more chunks, with all that is nested in them. -/
def addChunks (l : Ledger) (cs : List Chunk) : Ledger :=
  { l with
    tokens := l.tokens + (tokensOf cs).length
    nested := l.nested + (tokensOf cs).countP isNested }

variable {l : Ledger} {cs ds : List Chunk}

theorem addChunks_append : l.addChunks (cs ++ ds) = (l.addChunks cs).addChunks ds := by
  simp [addChunks, Nat.add_assoc]

/-- Plain text is not accounted for. -/
theorem addChunks_plain (text : Text) : l.addChunks [.plain text] = l := by
  simp [addChunks, tokensOf, Chunk.tokens]

theorem addChunks_nil : l.addChunks [] = l := by
  simp [addChunks, tokensOf]

end Ledger

/-- A profile balances: there are runs and characters as counted; tokens and rematches
together are no more than tokens counted; and if there was no rematch, tokens and nested
texts are exactly those counted. -/
structure Profile.Balances (p : Profile) (l : Ledger) : Prop where
  calls_eq : p.tokenizeCalls = l.calls
  source_eq : p.sourceLength = l.source
  paid : l.tokens + p.rematchPasses ≤ p.tokenCount
  even : p.rematchPasses = 0 → p.tokenCount = l.tokens ∧ p.nestedCalls = l.nested

namespace Profile.Balances

variable {p : Profile} {l : Ledger} {left covered right parts : List Chunk} {token : Chunk}
  {cut : Cut} {tag : Tag}

/-- The profile of a run that has done nothing balances. -/
theorem zero : ({} : Profile).Balances {} :=
  ⟨rfl, rfl, Nat.le_refl 0, fun _ => ⟨rfl, rfl⟩⟩

/-- A text that is counted is accounted for. -/
theorem countText (h : p.Balances l) (nested : Bool) (text : Text) :
    (p.countText nested text).Balances (l.addText nested text) := by
  obtain ⟨hcalls, hsource, hpaid, heven⟩ := h
  cases nested with
  | true =>
    refine ⟨hcalls, hsource, hpaid, fun hnone => ?_⟩
    obtain ⟨htokens, hnested⟩ := heven hnone
    exact ⟨htokens, congrArg (· + 1) hnested⟩
  | false => exact ⟨congrArg (· + 1) hcalls, congrArg (· + text.length) hsource, hpaid, heven⟩

/-- The token of a matched text is accounted for. -/
theorem leaf (h : p.Balances l) (text : Text) :
    ({ p with tokenCount := p.tokenCount + 1 } : Profile).Balances
      (l.addChunks [.leaf tag text]) := by
  obtain ⟨hcalls, hsource, hpaid, heven⟩ := h
  constructor
  · exact hcalls
  · exact hsource
  · simp only [Ledger.addChunks, tokensOf, tokens, List.append_nil, List.length_singleton]
    omega
  · intro hnone
    obtain ⟨htokens, hnested⟩ := heven hnone
    simp [Ledger.addChunks, tokensOf, tokens, isNested, htokens, hnested]

/-- The token of a nested text is accounted for, if its parts are. -/
theorem node {text : Text} (h : p.Balances ((l.addText true text).addChunks parts)) :
    ({ p with tokenCount := p.tokenCount + 1 } : Profile).Balances
      (l.addChunks [.node tag parts]) := by
  obtain ⟨hcalls, hsource, hpaid, heven⟩ := h
  simp only [Ledger.addChunks, Ledger.addText, if_true] at hcalls hsource hpaid heven
  constructor
  · exact hcalls
  · exact hsource
  · simp only [Ledger.addChunks, tokensOf, tokens, List.append_nil, List.length_cons]
    omega
  · intro hnone
    obtain ⟨htokens, hnested⟩ := heven hnone
    simp only [Ledger.addChunks, tokensOf, tokens, List.append_nil, List.length_cons,
      List.countP_cons, isNested, if_true]
    omega

/-- A cut that covers no token loses none. -/
theorem replace (hnone : tokensOf covered = [])
    (h : p.Balances ((l.addChunks (left ++ (covered ++ right))).addChunks [token])) :
    p.Balances (l.addChunks (left ++ ofText cut.before ++ Tape.leftover cut token right)) := by
  obtain ⟨hcalls, hsource, hpaid, heven⟩ := h
  rw [Tape.leftover, ← List.singleton_append]
  simp only [Ledger.addChunks, tokensOf_append, tokensOf_ofText, hnone, List.nil_append,
    List.append_nil, List.length_append, List.countP_append] at hcalls hsource hpaid heven ⊢
  refine ⟨hcalls, hsource, ?_, fun hzero => ?_⟩
  · dsimp only
    omega
  · obtain ⟨htokens, hnested⟩ := heven hzero
    dsimp only
    omega

/-- **A rematch is paid for by a token that is lost.** -/
theorem swallow (hlost : tokensOf covered ≠ [])
    (h : p.Balances ((l.addChunks (left ++ (covered ++ right))).addChunks [token])) :
    ({ p with rematchPasses := p.rematchPasses + 1 } : Profile).Balances
      (l.addChunks (left ++ ofText cut.before ++ Tape.leftover cut token right)) := by
  obtain ⟨hcalls, hsource, hpaid, -⟩ := h
  have hpos := List.length_pos_iff.mpr hlost
  rw [Tape.leftover, ← List.singleton_append]
  simp only [Ledger.addChunks, tokensOf_append, tokensOf_ofText, List.nil_append,
    List.append_nil, List.length_append] at hcalls hsource hpaid ⊢
  refine ⟨hcalls, hsource, ?_, fun hzero => absurd hzero (Nat.succ_ne_zero _)⟩
  dsimp only
  omega

end Profile.Balances

/-- Of several chunks in normal form that begin with a plain one, one is a token. -/
theorem Chunk.Tidy.tokensOf_ne_nil {covered : List Chunk} (h : Tidy covered)
    (hplain : ∃ chunk more, covered = .plain chunk :: more) (hmore : 1 < covered.length) :
    tokensOf covered ≠ [] := by
  obtain ⟨chunk, more, rfl⟩ := hplain
  cases more with
  | nil => exact absurd hmore (Nat.lt_irrefl 1)
  | cons next more =>
    have htidy : Tidy ([] ++ .plain chunk :: next :: more) := h
    have htoken : next.isToken = true := htidy.isToken_after rfl
    cases next with
    | plain text => cases htoken
    | leaf tag text | node tag parts => simp [tokensOf, tokens]

/-! ### Sweeps -/

/-- Chunks in normal form that are accounted for. -/
def Accounted (l : Ledger) (cs : List Chunk) (r : Run) : Prop :=
  Tidy cs ∧ r.profile.Balances (l.addChunks cs)

/-- A way of going deeper on which every sweep leaves chunks that are accounted for,
whatever there is besides. -/
def Strip.Accounting (enter : Strip.Enter) : Prop :=
  ∀ (s : Strip) (l : Ledger), s.Covers → Triple (Accounted l s.chunks) (enter s)
    (fun swept => Accounted l swept.chunks) fun _ _ => True

section Sweep

variable {enter : Strip.Enter} {limits : Limits} {clause : Clause} {earlier : List Clause}
  {s : Strip} {t : Tape} {l : Ledger}

/-- The chunks of a text are accounted for, if those of sweeps are. -/
theorem chunksOf_accounted (henter : Strip.Accounting enter) (nested : Bool) (text : Text)
    (ref : Ref) : Triple (fun r => r.profile.Balances l) (Strip.chunksOf enter nested text ref)
      (Accounted (l.addText nested text)) fun _ _ => True := by
  have hresolve : Triple (fun r => r.profile.Balances l) (RunM.resolve ref)
      (fun _ r => r.profile.Balances l) fun _ _ => True :=
    .resolve (fun _ _ _ _ hr _ => hr) fun _ _ _ _ => trivial
  have hclauses := hresolve.map (f := Resolution.clauses) (R := fun _ r => r.profile.Balances l)
    fun _ _ hr => hr
  rw [Strip.chunksOf_eq_chunksBy]
  refine hclauses.bind fun clauses => Triple.bind
    (Q := fun _ r => r.profile.Balances (l.addText nested text))
    (.count fun r hr => hr.countText nested text) fun _ => ?_
  split
  · refine .pure fun r hr => ⟨tidy_nil, ?_⟩
    rw [Ledger.addChunks_nil]
    exact hr
  · rename_i htext
    refine Triple.bind ((henter _ (l.addText nested text) (.whole text clauses)).pre
      fun r hr => ⟨tidy_plain htext, ?_⟩) fun _ => .pure fun _ hr => hr
    rw [Ledger.addChunks_plain]
    exact hr

/-- A token is accounted for, if the chunks of sweeps are. -/
theorem tokenOf_balances (henter : Strip.Accounting enter) (clause : Clause) (matched : Text) :
    Triple (fun r => r.profile.Balances l) (Strip.tokenOf enter clause matched)
      (fun token r => r.profile.Balances (l.addChunks [token])) fun _ _ => True :=
  Strip.tokenOf_triple (fun _ _ hr => hr.leaf matched) fun id _ =>
    (chunksOf_accounted henter true matched (.grammar id)).post fun _ _ hparts => hparts.2.node

/-- **A cut leaves chunks that are accounted for.** -/
theorem replace_accounted (hlead : Strip.Leading enter) (henter : Strip.Accounting enter)
    {covered rest : List Chunk} {cut : Cut} (hon : t.On s) (hahead : t.ahead = covered ++ rest)
    (hfits : cut.Fits covered) (hnext : ∀ d, rest.head? = some d → d.isToken = true) :
    Triple (Accounted l (t.passed ++ t.ahead))
      (t.replace enter s.text s.base earlier clause rest cut)
      (fun t' => Accounted l (t'.passed ++ t'.ahead)) fun _ _ => True := by
  rintro r ⟨htidy, hbalances⟩
  rw [hahead] at htidy hbalances
  have hcovered : Tidy covered := (tidy_append.mp (tidy_append.mp htidy).2.1).1
  obtain ⟨chunk, more, hplain⟩ := hfits.plain
  have hsplice (token : Chunk) (htoken : token.isToken = true) :
      Tidy (t.passed ++ ofText cut.before ++ Tape.leftover cut token rest) :=
    (hplain ▸ htidy).splice hnext htoken cut.before cut.after
  refine hlead.replace_triple (T := fun token r => r.profile.Balances
      ((l.addChunks (t.passed ++ (covered ++ rest))).addChunks [token]))
    hon.covers hahead hfits (tokenOf_balances henter clause cut.matched) ?_ ?_ r hbalances
  · intro hone token r htoken _ hr
    have hnone : tokensOf covered = [] := by
      rw [hplain, List.length_cons, Nat.add_eq_right, List.length_eq_zero_iff] at hone
      rw [hplain, hone]
      simp [tokensOf, tokens]
    have hleft : (t.resume cut token ⟨Tape.leftover cut token rest,
        some (t.offset + cut.segment.length)⟩).passed ++ (ofText cut.after ++ rest) =
        t.passed ++ ofText cut.before ++ Tape.leftover cut token rest := by
      simp [Tape.resume, Tape.leftover]
    exact hleft ▸ ⟨hsplice token htoken, hr.replace hnone⟩
  · intro hmore token htoken _ hrematch
    have hlost := hcovered.tokensOf_ne_nil hfits.plain hmore
    -- The chunks in front of the token are none of the rematch's, and stay.
    have hdeeper := henter _ (l.addChunks (t.passed ++ ofText cut.before)) hrematch
    refine hdeeper.imp ?_ ?_ fun _ _ h => h
    · rintro _ ⟨r₀, hr, rfl⟩
      refine ⟨(tidy_append.mp (hsplice token htoken)).2.1, ?_⟩
      rw [← Ledger.addChunks_append]
      exact hr.swallow hlost
    · rintro _ r ⟨hswept, hr⟩ more reach rfl - -
      have hleft : (t.resume cut token ⟨token :: more, some reach⟩).passed ++ more =
          t.passed ++ ofText cut.before ++ token :: more := by
        simp [Tape.resume]
      rw [← Ledger.addChunks_append] at hr
      have hbefore := ((tidy_token htoken).mp (hsplice token htoken)).1
      have hswept : Tidy ([] ++ token :: more) := hswept
      have hbehind := ((tidy_token htoken).mp hswept).2
      exact hleft ▸ ⟨(tidy_token htoken).mpr ⟨hbefore, hbehind⟩, hr⟩

/-- A step leaves chunks that are accounted for. -/
theorem step_accounted (hlead : Strip.Leading enter) (henter : Strip.Accounting enter)
    (hon : t.On s) : Triple (Accounted l (t.passed ++ t.ahead))
      (t.step enter limits s.text s.base earlier clause)
      (fun next r => (next = none → Accounted l (t.passed ++ t.ahead) r) ∧
        ∀ t', next = some t' → Accounted l (t'.passed ++ t'.ahead) r) fun _ _ => True := by
  have hcharge : Triple (Accounted l (t.passed ++ t.ahead)) (charge limits)
      (fun _ => Accounted l (t.passed ++ t.ahead)) fun _ _ => True :=
    charge_triple (fun _ hr => ⟨hr.1, hr.2.1, hr.2.2, hr.2.3, hr.2.4⟩) fun _ _ _ _ => trivial
  refine Tape.step_choose (fun _ _ hr => Tape.step_stops hr) (fun _ _ _ _ => trivial) hcharge ?_
    fun chunk more hplain _ _ => ?_
  · intro token rest hahead _ _ _ r hr
    have hahead : t.ahead = [token] ++ rest := hahead
    exact Tape.step_goes ((Tape.chunks_pass hahead).symm ▸ hr)
  have hfits : (t.choose s.text clause chunk more).Fits t.ahead :=
    Tape.choose_fits hplain hon.covers.ahead
  cases hmove : t.choose s.text clause chunk more with
  | stop => exact fun _ hr => Tape.step_stops hr
  | pass skipped rest =>
    rw [hmove] at hfits
    exact fun r hr => Tape.step_goes ((Tape.chunks_pass hfits).symm ▸ hr)
  | cut skipped covered rest cut =>
    rw [hmove] at hfits
    obtain ⟨hahead, hfits⟩ := hfits
    have htakes := Tape.takes_of_choose hon.covers.ahead hplain hmove
    intro r hr
    have htidy : Tidy (t.passed ++ skipped ++ (covered ++ rest)) := by
      rw [List.append_assoc, ← hahead]
      exact hr.1
    have hnext (d : Chunk) (hd : rest.head? = some d) : d.isToken = true :=
      htidy.isToken_behind hfits htakes hd
    exact (replace_accounted hlead henter (hon.pass hahead) rfl hfits hnext).post
      (fun _ _ h => Tape.step_goes h) r ((Tape.chunks_pass hahead).symm ▸ hr)

/-- **Sweeps leave chunks that are accounted for** if those one recursion deeper do. -/
theorem run_accounted (hlead : Strip.Leading enter) (henter : Strip.Accounting enter)
    (hs : s.Covers) : Triple (Accounted l s.chunks) (s.run Tape.step enter limits)
      (fun swept => Accounted l swept.chunks) fun _ _ => True :=
  hlead.run_keeps hs (Accounted l) fun _ _ _ _ _ hon => step_accounted hlead henter hon

end Sweep

/-- Every way of going deeper leaves chunks that are accounted for. -/
theorem descend_accounting (limits : Limits) (levels depth : Nat) :
    Strip.Accounting (Strip.descend Tape.step limits levels depth) := by
  induction levels generalizing depth with
  | zero => exact fun _ _ _ => refuse_triple fun _ _ _ _ _ => trivial
  | succ levels ih =>
    intro s l hs
    exact Triple.bind (Q := fun _ => Accounted l s.chunks) (.reachDepth fun _ hr => hr) fun _ =>
      run_accounted (Strip.descend_leading limits levels (depth + 1)) (ih (depth + 1)) hs

/-! ### Profiles being taken -/

/-- **What a profile says about a run.**  A profile that is taken of a run that has a
result counts one run and all characters of its text.  Tokens counted are no fewer than
tokens in the result and rematches together; the two numbers of tokens are equal exactly if
there was no rematch; and then the nested texts are those of the tokens that are cut
further. -/
theorem profile_accounts (s : Session) (text : Text) (ref : Ref) (config : Option Config)
    (clock : Clock) {chunks : List Chunk}
    (h : (s.pushProfile.tokenize text ref config clock).1 = .ok chunks) :
    ∃ p, (s.pushProfile.tokenize text ref config clock).2.profile? = some p ∧
      p.tokenizeCalls = 1 ∧ p.sourceLength = text.length ∧
      (tokensOf chunks).length + p.rematchPasses ≤ p.tokenCount ∧
      (p.tokenCount = (tokensOf chunks).length ↔ p.rematchPasses = 0) ∧
      (p.rematchPasses = 0 → p.nestedCalls = (tokensOf chunks).countP isNested) := by
  let limits := (config.getD s.config).under clock
  have hend := tokenize_of_triple s.store (chunksOf_accounted (l := {})
    (descend_accounting limits (Tokenizer.levels limits s.frames) 0) false text ref)
    Profile.Balances.zero
  have hresult : (Highlight.tokenize limits s.frames s.store text ref).result = .ok chunks := h
  rw [hresult] at hend
  obtain ⟨-, hcalls, hsource, hpaid, heven⟩ := hend
  obtain ⟨p, hp⟩ : ∃ p, p = (Highlight.tokenize limits s.frames s.store text ref).run.profile :=
    ⟨_, rfl⟩
  rw [← hp] at hcalls hsource hpaid heven
  simp only [Ledger.addText, Ledger.addChunks, Bool.false_eq_true, if_false, Nat.zero_add]
    at hcalls hsource hpaid heven
  refine ⟨p, ?_, hcalls, hsource, hpaid, ?_, fun hnone => (heven hnone).2⟩
  · rw [hp]
    exact congrArg some (Profile.zero_add _)
  · exact ⟨fun hcount => by omega, fun hnone => (heven hnone).1⟩

/-- Of the six tokens that are made of `a'b'bxy` one, a letter, is taken into a string, and
the rematch that follows makes up for it. -/
theorem profile_accounts_quoting :
    (Session.ofQuoting.pushProfile.tokenize "a'b'bxy".toList (.grammar 0) none).1 = .ok quoted ∧
      (tokensOf quoted).length = 5 ∧
      ∃ p, (Session.ofQuoting.pushProfile.tokenize "a'b'bxy".toList
          (.grammar 0) none).2.profile? = some p ∧
        p.tokenizeCalls = 1 ∧ p.sourceLength = 7 ∧ 5 + p.rematchPasses ≤ p.tokenCount ∧
        (p.tokenCount = 5 ↔ p.rematchPasses = 0) ∧
        (p.rematchPasses = 0 → p.nestedCalls = 1) := by
  have hlength : (tokensOf quoted).length = 5 := by decide
  have hnested : (tokensOf quoted).countP isNested = 1 := by decide
  have htext : "a'b'bxy".toList.length = 7 := by decide
  have hresult : (Session.ofQuoting.pushProfile.tokenize "a'b'bxy".toList
      (.grammar 0) none).1 = .ok quoted := by
    rw [Session.fst_tokenize]
    exact tokenize_quoting
  have hprofile :=
    profile_accounts Session.ofQuoting "a'b'bxy".toList (.grammar 0) none .ticking hresult
  rw [hlength, hnested, htext] at hprofile
  exact ⟨hresult, hlength, hprofile⟩

end Highlight
