/-
# The grammar of CSS fails for the depth only

A run of the grammar of style sheets, with neither attempts nor time limited,
fails for its depth or not at all.  It does not wherever the limit on depth, and
the host, allow twice as many levels as the text has characters, and ten more
(`tokenize_css`).

Nothing but the depth can run out, because no match is empty (`Sound`) and so
no chunk is (`Highlight.Chunk.Filled`).  What goes deeper are rematches, tokens
of locations, and tokens of at-rules.

  * A rematch is one level deeper and has one greedy rule fewer.  There are two.
  * The grammar of locations leads nowhere and has no greedy rule.
  * The grammar of at-rules leads back to itself.  But its first rule takes the
    name of the at-rule, two characters or more, from the front of the text
    (`find?_name`), and that token is kept to the end.  So whatever is cut
    further begins behind it: a *fence* of two characters that no plain text
    lies in front of (`Fenced`), and no rule goes deeper on that many fewer.

`needed` adds these up, and `Starts` is what a sweep needs to come to its end.
How sweeps that have fewer levels fail is left open until the end (`Total`):
with some levels missing, they may be refused for the depth (`descend_total`).
-/

import Highlight.Proofs.Css.Installed
import Highlight.Proofs.Tape.Filled
import Highlight.Proofs.Tape.Leading
import Highlight.Proofs.Tape.Refinement

namespace Highlight
namespace Css

open Chunk RunM

/-! ### What a sweep needs -/

/-- The number of levels that the grammar of a number needs for a text of a
length. -/
def needed (id : GrammarId) (length : Nat) : Nat :=
  if id = urlId then 1
  else if id = atRuleId then 2 * length + 3
  else 2 * length + 6

/-- The number of greedy rules. -/
def greedies (clauses : List Clause) : Nat :=
  clauses.countP (·.rule.greedy)

/-- No plain text begins in front of a fence: the chunks begin there or later,
or with a token that reaches there. -/
def Fenced (fence offset : Nat) (chunks : List Chunk) : Prop :=
  fence ≤ offset ∨ ∃ first, chunks.head? = some first ∧ first.isToken = true ∧
    fence ≤ offset + first.extent

/-- A sweep has the levels that it needs, if its rules go deeper on nothing in
front of a fence. -/
structure Ready (levels fence : Nat) (s : Strip) : Prop where
  base : s.base ≤ s.offset
  sound : ∀ c ∈ s.clauses, Sound c
  enough : ∃ below, 1 + greedies s.clauses + below ≤ levels ∧
    ∀ c ∈ s.clauses, ∀ id, c.rule.inside = some id → needed id (s.text.length - fence) ≤ below

/-- A sweep over the text of an at-rule, from which its name has not been taken
yet. -/
structure Opening (s : Strip) : Prop where
  clauses : s.clauses.head? = some nameClause
  chunks : s.chunks = [.plain s.text]
  offset : s.offset = 0
  reach : s.reach = none
  opens : Opens s.text

/-- What a sweep starts with: no empty chunks, the levels that it needs, and a
fence in front, which the name of the at-rule is to become where it is not
there yet. -/
structure Starts (levels : Nat) (s : Strip) : Prop where
  filled : Filled s.chunks
  ready : ∃ fence, Ready levels fence s ∧
    (Fenced fence s.offset s.chunks ∨ fence = 2 ∧ Opening s)

/-- A way of going deeper on which a sweep that would have what it needs on a
number of levels leaves no empty chunks, or fails as it may. -/
def Total (E : Failure → Run → Prop) (levels : Nat) (enter : Strip.Enter) : Prop :=
  ∀ s : Strip, s.Covers → Triple (fun r => Installed r.store ∧ Starts levels s) (enter s)
    (fun swept r => Installed r.store ∧ Filled swept.chunks) E

/-! ### The three grammars -/

theorem greedies_resolved :
    greedies (resolved sheetId).clauses = 2 ∧ greedies (resolved atRuleId).clauses = 2 ∧
      greedies (resolved urlId).clauses = 0 := by
  decide +kernel

theorem inside_url : ((resolved urlId).clauses.all (·.rule.inside = none)) = true := by
  decide +kernel

/-- A text of two characters or more begins an at-rule. -/
theorem Opens.two_le {text : Text} (h : Opens text) : 2 ≤ text.length := by
  obtain ⟨c, d, rest, rfl, -, -⟩ := h
  simp

/-- What a rule goes deeper with needs no more than an at-rule does. -/
theorem Sound.needed_le {c : Clause} (h : Sound c) {id : GrammarId}
    (hinside : c.rule.inside = some id) (length : Nat) : needed id length ≤ 2 * length + 3 := by
  rcases h.inside hinside with rfl | rfl
  · exact Nat.le_add_left 1 _
  · exact Nat.le_refl _

/-- A longer text needs no fewer levels. -/
theorem needed_mono (id : GrammarId) {length length' : Nat} (h : length ≤ length') :
    needed id length ≤ needed id length' := by
  unfold needed
  split
  · exact Nat.le_refl 1
  · split <;> omega

/-- **The sweep that a text starts with has what it needs.** -/
theorem starts_whole {id : GrammarId} (hid : id ∈ ids) {levels : Nat} {text : Text}
    (hlevels : needed id text.length ≤ levels) (htext : text ≠ [])
    (hopens : id = atRuleId → Opens text) :
    Starts levels ⟨text, (resolved id).clauses, 0, [.plain text], 0, none⟩ := by
  have hsound : ∀ c ∈ (resolved id).clauses, Sound c := fun c hc => sound_of_mem hid hc
  have hbelow (length : Nat) : ∀ c ∈ (resolved id).clauses, ∀ id', c.rule.inside = some id' →
      needed id' length ≤ 2 * length + 3 :=
    fun c hc id' hinside => (hsound c hc).needed_le hinside length
  obtain ⟨hsheet, hatRule, hurl⟩ := greedies_resolved
  refine ⟨filled_plain htext, ?_⟩
  simp only [ids, List.mem_cons, List.not_mem_nil, or_false] at hid
  rcases hid with rfl | rfl | rfl
  · have hlevels : 2 * text.length + 6 ≤ levels := hlevels
    refine ⟨0, ⟨Nat.le_refl 0, hsound, _, ?_, hbelow _⟩, Or.inl (Or.inl (Nat.zero_le _))⟩
    dsimp only
    omega
  · have hlevels : 2 * text.length + 3 ≤ levels := hlevels
    have htwo := (hopens rfl).two_le
    refine ⟨2, ⟨Nat.le_refl 0, hsound, _, ?_, hbelow _⟩,
      Or.inr ⟨rfl, head?_atRule, rfl, rfl, rfl, hopens rfl⟩⟩
    dsimp only
    omega
  · have hlevels : 1 ≤ levels := hlevels
    refine ⟨0, ⟨Nat.le_refl 0, hsound, 0, ?_, fun c hc id' hinside => ?_⟩,
      Or.inl (Or.inl (Nat.zero_le _))⟩
    · dsimp only
      omega
    · have hnone := of_decide_eq_true (List.all_eq_true.mp inside_url c hc)
      rw [hnone] at hinside
      cases hinside

/-! ### Tokens -/

section Step

variable {E : Failure → Run → Prop} {levels fence : Nat} {enter : Strip.Enter} {limits : Limits}
  {clause : Clause} {earlier later : List Clause} {s : Strip} {t : Tape}

/-- A text on which a grammar of the three has the levels that it needs is cut
into chunks that are not empty. -/
theorem chunksOf_total (henter : Total E levels enter) {id : GrammarId} (hid : id ∈ ids)
    {text : Text} (hlevels : needed id text.length ≤ levels)
    (hopens : id = atRuleId → Opens text) (nested : Bool) :
    Triple (fun r => Installed r.store) (Strip.chunksOf enter nested text (.grammar id))
      (fun chunks r => Installed r.store ∧ Filled chunks) E := by
  refine Strip.chunksOf_triple (resolve_triple hid) (fun _ _ _ h => h) ?_ ?_
  · rintro _ r - ⟨-, hr⟩
    exact ⟨hr, filled_nil⟩
  · rintro _ htext r ⟨rfl, hr⟩
    exact henter _ (.whole ..) r ⟨hr, starts_whole hid hlevels htext hopens⟩

/-- A rule makes of a match a token that is not empty. -/
theorem tokenOf_total (henter : Total E levels enter) (hsound : Sound clause) {matched : Text}
    (hmatched : matched ≠ []) (hopens : clause.rule.inside = some atRuleId → Opens matched)
    (hlevels : ∀ id, clause.rule.inside = some id → needed id matched.length ≤ levels) :
    Triple (fun r => Installed r.store) (Strip.tokenOf enter clause matched)
      (fun token r => Installed r.store ∧ Filled [token]) E := by
  refine Strip.tokenOf_triple (fun _ r hr => ⟨hr, filled_leaf hmatched⟩) fun id hinside => ?_
  have hid : id ∈ ids := by
    rcases hsound.inside hinside with rfl | rfl <;> simp [ids]
  refine (chunksOf_total henter hid (hlevels id hinside) ?_ true).post ?_
  · rintro rfl
    exact hopens hinside
  · rintro parts r ⟨hr, hparts⟩
    exact ⟨hr, filled_node hmatched hparts⟩

/-! ### Steps -/

/-- A fence in front of the chunks of a sweep is in front of what it leaves. -/
theorem Fenced.of_leads {swept : Strip.Swept} (h : Fenced fence s.offset s.chunks)
    (hleads : s.Leads swept) : Fenced fence s.offset swept.chunks := by
  rcases h with hle | ⟨first, hfirst, htoken, hle⟩
  · exact Or.inl hle
  · exact Or.inr ⟨first, hleads.keeps first hfirst htoken, htoken, hle⟩

/-- A rule at a plain chunk is behind the fence. -/
theorem Fenced.le_offset {text chunk : Text} {start : Nat} {rest : List Chunk}
    (h : Fenced fence start (t.passed ++ t.ahead)) (hcovers : t.Covers text start)
    (hahead : t.ahead = .plain chunk :: rest) : fence ≤ t.offset := by
  have hpassed := hcovers.passed
  rcases h with hle | ⟨first, hfirst, htoken, hle⟩
  · omega
  · cases hcase : t.passed with
    | nil =>
      rw [hcase, hahead] at hfirst
      cases hfirst
      cases htoken
    | cons c passed =>
      rw [hcase] at hfirst hpassed
      cases hfirst
      rw [extents_cons] at hpassed
      omega

/-- What a rule of a sweep goes deeper with, behind the fence, has the levels
that it needs. -/
theorem Ready.needed_le (h : Ready (levels + 1) fence s) (hmem : clause ∈ s.clauses)
    {id : GrammarId} (hinside : clause.rule.inside = some id) {length : Nat}
    (hlength : length ≤ s.text.length - fence) : needed id length ≤ levels := by
  obtain ⟨below, hlevels, hneeded⟩ := h.enough
  have hmono := needed_mono id hlength
  have hbelow := hneeded clause hmem id hinside
  omega

/-- A rematch has what it needs: it is for one greedy rule fewer. -/
theorem Ready.rematch (h : Ready (levels + 1) fence s)
    (hclauses : s.clauses = earlier ++ clause :: later) (hgreedy : clause.rule.greedy = true)
    {cut : Cut} {token : Chunk} {rest : List Chunk}
    (hbase : s.base + (t.passed ++ ofText cut.before).length ≤ t.offset + cut.before.length) :
    Ready levels fence (t.rematch s.text s.base earlier cut token rest) := by
  obtain ⟨below, hlevels, hneeded⟩ := h.enough
  have hmem : ∀ c ∈ earlier, c ∈ s.clauses := fun c hc => by
    rw [hclauses]
    exact List.mem_append_left _ hc
  refine ⟨hbase, fun c hc => h.sound c (hmem c hc), below, ?_, fun c hc => hneeded c (hmem c hc)⟩
  have hcount : greedies s.clauses = greedies earlier + (greedies later + 1) := by
    simp [hclauses, greedies, hgreedy]
  dsimp only [Tape.rematch]
  omega

/-- What a rule cuts out becomes a token that is not empty, if the rule is
behind the fence where it goes deeper. -/
theorem matched_total (henter : Total E levels enter) (hready : Ready (levels + 1) fence s)
    (hmem : clause ∈ s.clauses) (hcovers : t.Covers s.text s.offset)
    {chunk : Text} {more skipped covered rest : List Chunk} {cut : Cut}
    (hchosen : Tape.Chosen s.text clause t chunk more (.cut skipped covered rest cut))
    (hahead : t.ahead = skipped ++ (covered ++ rest)) (hfits : cut.Fits covered)
    (hbehind : clause.rule.inside ≠ none → fence ≤ t.offset) :
    Triple (fun r => Installed r.store) (Strip.tokenOf enter clause cut.matched)
      (fun token r => Installed r.store ∧ Filled [token]) E := by
  have hsound := hready.sound clause hmem
  have hcover := hcovers.ahead
  obtain ⟨source, offset, m, hoffset, hfound, hmatched⟩ :=
    Tape.found_of_chosen hchosen (by omega)
  refine tokenOf_total henter hsound (hmatched ▸ hsound.ne_nil hoffset hfound)
    (fun hinside => hmatched ▸ hsound.opens hinside hoffset hfound) fun id hinside => ?_
  refine hready.needed_le hmem hinside ?_
  have hle := hbehind (by simp [hinside])
  have hjoin := hfits.length_join
  rw [hahead, extents_append, extents_append] at hcover
  omega

/-- **A step does not fail**, and leaves no empty chunk, if its rule goes deeper
on nothing in front of the fence. -/
theorem step_total (hlead : Strip.Leading enter) (henter : Total E levels enter)
    (hsteps : limits.maxSteps = none) (htime : limits.timeout = none)
    (hready : Ready (levels + 1) fence s) (hclauses : s.clauses = earlier ++ clause :: later)
    (hcovers : t.Covers s.text s.offset) (hfilled : Filled (t.passed ++ t.ahead))
    (hfence : clause = nameClause ∨ Fenced fence s.offset (t.passed ++ t.ahead)) :
    Triple (fun r => Installed r.store) (t.step enter limits s.text s.base earlier clause)
      (fun next r => (∀ t', next = some t' → Filled (t'.passed ++ t'.ahead)) ∧
        Installed r.store) E := by
  have hsize := Tape.size_le hcovers hready.base hfilled
  have hpass {skipped rest : List Chunk} (hahead : t.ahead = skipped ++ rest) :
      Filled ((t.pass skipped rest).passed ++ (t.pass skipped rest).ahead) := by
    simpa [Tape.pass, hahead] using hfilled
  refine Tape.step_keeps hcovers.ahead (fun _ _ _ hover _ => ?_)
    (charge_unlimited hsteps htime fun _ hr => hr) (fun _ _ hahead => hpass hahead) ?_
  · omega
  intro chunk more skipped covered rest cut hplain hchosen hahead hfits
  -- The rule that takes the name of an at-rule does not go deeper.
  have hbehind (h : clause.rule.inside ≠ none ∨ clause.rule.greedy = true) :
      fence ≤ t.offset := by
    rcases hfence with rfl | hfence
    · exact absurd h (by decide)
    · exact hfence.le_offset hcovers hplain
  have htoken := matched_total henter hready (by simp [hclauses]) hcovers hchosen hahead hfits
    fun hinside => hbehind (Or.inl hinside)
  have hleft {token : Chunk} (htoken : Filled [token]) :=
    Tape.filled_replace (hpass hahead) cut htoken
  refine hlead.replace_triple (hcovers.pass hahead) rfl hfits htoken ?_ ?_
  · rintro _ token r - - ⟨hr, htoken⟩
    have := hleft htoken
    exact ⟨by simpa [Tape.resume, Tape.leftover] using this, hr⟩
  · rintro hcovered token - - hrematch r ⟨r₀, ⟨hr, htoken⟩, rfl⟩
    have hgreedy := Tape.greedy_of_chosen hchosen hcovered
    have hbase := Tape.rematch_base_le (hcovers.pass hahead) hready.base
      (filled_append.mp (hpass hahead)).1 cut
    have hstarts : Starts levels
        ((t.pass skipped (covered ++ rest)).rematch s.text s.base earlier cut token rest) := by
      refine ⟨(filled_append.mp (hleft htoken)).2, fence,
        hready.rematch hclauses hgreedy hbase, Or.inl (Or.inl ?_)⟩
      have hle := hbehind (Or.inr hgreedy)
      dsimp only [Tape.rematch, Tape.pass]
      omega
    refine ((henter _ hrematch).imp (fun r (hr : Installed r.store) => ⟨hr, hstarts⟩) ?_
      fun _ _ h => h) r₀.countRematch hr
    rintro _ r ⟨hr, hswept⟩ more reach rfl - -
    have hfront := (filled_append.mp (hleft htoken)).1
    exact ⟨by simpa [Tape.resume] using filled_append.mpr ⟨hfront, hswept⟩, hr⟩

/-- A fence that is there stays there. -/
theorem step_fenced (hlead : Strip.Leading enter) (hcovers : t.Covers s.text s.offset)
    (hfence : Fenced fence s.offset (t.passed ++ t.ahead)) :
    Triple (fun _ => True) (t.step enter limits s.text s.base earlier clause)
      (fun next _ => ∀ t', next = some t' → Fenced fence s.offset (t'.passed ++ t'.ahead))
      fun _ _ => True := by
  have hon : t.On { s with chunks := t.passed ++ t.ahead, reach := t.reach } := by
    refine ⟨hcovers, Strip.Covers.leads ?_⟩
    dsimp only [Strip.Covers]
    rw [extents_append, ← Nat.add_assoc, hcovers.passed, hcovers.ahead]
  refine (hlead.step_on hon).post fun next _ h t' hnext => ?_
  exact Fenced.of_leads (s := { s with chunks := t.passed ++ t.ahead, reach := t.reach }) hfence
    (h t' hnext).leads

/-- **The name of an at-rule becomes a fence** in the first step over its
text. -/
theorem step_opening (hlead : Strip.Leading enter) (hopening : Opening s) :
    Triple (fun _ => True)
      (Tape.step enter limits s.text s.base earlier nameClause
        ⟨[], [.plain s.text], s.offset, none⟩)
      (fun next _ => next ≠ none ∧
        ∀ t', next = some t' → Fenced 2 s.offset (t'.passed ++ t'.ahead)) fun _ _ => True := by
  have hcovers : Tape.Covers s.text s.offset ⟨[], [.plain s.text], s.offset, none⟩ :=
    ⟨by simp, by simp [hopening.offset]⟩
  have hcharge : Triple (fun _ => True) (charge limits) (fun _ _ => True) fun _ _ => True :=
    .intro _
  obtain ⟨m, hm, hindex, htwo⟩ := find?_name hopening.opens
  refine Tape.step_triple hcovers.ahead (fun hover => ?_) (fun _ _ _ _ => trivial) hcharge ?_ ?_
  · rcases hover with h | h <;> cases h
  · rintro _ _ ⟨⟩ htoken
    cases htoken
  · rintro _ _ move ⟨⟩ - - hchosen hfits
    cases hchosen with
    | greedy hgreedy => exact absurd hgreedy (by decide)
    | none _ hnone =>
      rw [hm] at hnone
      cases hnone
    | some m' _ hsome =>
      rw [hm] at hsome
      cases hsome
      refine (hlead.replace_triple (hcovers.pass hfits.1) rfl hfits.2 (.intro _)
        (fun _ token r htoken hextent _ => ?_) fun hcovered => ?_).post
        fun t' r (h : Fenced 2 s.offset (t'.passed ++ t'.ahead)) => ?_
      · refine Or.inr ⟨token, ?_, htoken, ?_⟩
        · simp [Tape.resume, Tape.pass, Cut.before, ofText, hindex]
        · rw [hextent]
          exact Nat.le_trans htwo (Nat.le_add_left ..)
      · exact absurd hcovered (Nat.lt_irrefl 1)
      · refine ⟨Option.some_ne_none _, ?_⟩
        rintro _ ⟨⟩
        exact h

/-! ### Sweeps and their recursion -/

/-- What is known between two walks: no chunk is empty, and the fence is there,
or the first walk is still to come. -/
structure Between (fence : Nat) (s : Strip) (earlier : List Clause) (state : Strip.Swept) :
    Prop where
  filled : Filled state.chunks
  fenced : Fenced fence s.offset state.chunks ∨
    earlier = [] ∧ fence = 2 ∧ Opening s ∧ state = ⟨s.chunks, s.reach⟩

/-- What is known on the way of a rule: no chunk is empty, and the fence is
there, or the rule is about to put it there. -/
structure Along (fence : Nat) (s : Strip) (clause : Clause) (t : Tape) : Prop where
  filled : Filled (t.passed ++ t.ahead)
  fenced : Fenced fence s.offset (t.passed ++ t.ahead) ∨
    clause = nameClause ∧ fence = 2 ∧ Opening s ∧ t = ⟨[], [.plain s.text], s.offset, none⟩

/-- A walk starts with what the walks before it have left. -/
theorem Between.start {state : Strip.Swept} (h : Between fence s earlier state)
    (hclauses : s.clauses = earlier ++ clause :: later) :
    Along fence s clause ⟨[], state.chunks, s.offset, state.reach⟩ := by
  refine ⟨h.filled, ?_⟩
  rcases h.fenced with hfence | ⟨rfl, hfence, hopening, rfl⟩
  · exact Or.inl hfence
  · have hhead := hopening.clauses
    rw [hclauses] at hhead
    refine Or.inr ⟨Option.some.inj hhead, hfence, hopening, ?_⟩
    rw [hopening.chunks, hopening.reach]

/-- **A step does not fail**, and after it the fence is there. -/
theorem step_along (hlead : Strip.Leading enter) (henter : Total E levels enter)
    (hsteps : limits.maxSteps = none) (htime : limits.timeout = none)
    (hready : Ready (levels + 1) fence s) (hclauses : s.clauses = earlier ++ clause :: later)
    (hcovers : t.Covers s.text s.offset) (h : Along fence s clause t) :
    Triple (fun r => Installed r.store) (t.step enter limits s.text s.base earlier clause)
      (fun next r => (next = none → Installed r.store ∧ Filled (t.passed ++ t.ahead) ∧
          Fenced fence s.offset (t.passed ++ t.ahead)) ∧
        ∀ t', next = some t' → Installed r.store ∧ Along fence s clause t') E := by
  rcases h.fenced with hfence | ⟨rfl, rfl, hopening, rfl⟩
  · refine ((step_total hlead henter hsteps htime hready hclauses hcovers h.filled
      (Or.inr hfence)).also (step_fenced hlead hcovers hfence)).post ?_
    rintro next r ⟨⟨hfilled, hr⟩, hfences⟩
    exact ⟨fun _ => ⟨hr, h.filled, hfence⟩,
      fun t' hnext => ⟨hr, hfilled t' hnext, Or.inl (hfences t' hnext)⟩⟩
  · refine ((step_total hlead henter hsteps htime hready hclauses hcovers h.filled
      (Or.inl rfl)).also (step_opening hlead hopening)).post ?_
    rintro next r ⟨⟨hfilled, hr⟩, hgoes, hfences⟩
    exact ⟨fun hnone => absurd hnone hgoes,
      fun t' hnext => ⟨hr, hfilled t' hnext, Or.inl (hfences t' hnext)⟩⟩

/-- **A sweep does not fail** if it has what it needs, and those one recursion
deeper do not. -/
theorem run_total (hlead : Strip.Leading enter) (henter : Total E levels enter)
    (hsteps : limits.maxSteps = none) (htime : limits.timeout = none) (hs : s.Covers) :
    Triple (fun r => Installed r.store ∧ Starts (levels + 1) s) (s.run Tape.step enter limits)
      (fun swept r => Installed r.store ∧ Filled swept.chunks) E := by
  rintro r ⟨hr, hfilled, fence, hready, hfence⟩
  have hstart : Between fence s [] ⟨s.chunks, s.reach⟩ :=
    ⟨hfilled, hfence.imp_right fun h => ⟨rfl, h.1, h.2, rfl⟩⟩
  refine ((Strip.Leading.run_triple hs
    (fun earlier state r => Installed r.store ∧ Between fence s earlier state) ?_).imp
    (fun r (hr : Installed r.store) => ⟨hr, hstart⟩) (fun _ _ h => ⟨h.2.1, h.2.2.filled⟩)
    fun _ _ h => h) r hr
  intro earlier clause later hclauses state hstate
  refine (hlead.walk_triple hstate (fun t r => Installed r.store ∧ Along fence s clause t)
    (fun swept r => Installed r.store ∧ Filled swept.chunks ∧
      Fenced fence s.offset swept.chunks) ?_ fun r hr => ⟨hr.1, hr.2.start hclauses⟩).post ?_
  · intro t hon r ⟨hr, halong⟩
    exact step_along hlead henter hsteps htime hready hclauses hon.covers halong r hr
  · rintro swept r ⟨hleads, hr, hfilled, hfence⟩
    exact ⟨hleads, hr, hfilled, Or.inl hfence⟩

end Step

/-- **Every way of going deeper is total**, with failures for the depth if levels
are missing. -/
theorem descend_total {limits : Limits} (hsteps : limits.maxSteps = none)
    (htime : limits.timeout = none) (missing levels depth : Nat) :
    Total (fun e _ => e.toClass = .depthExceeded ∧ 0 < missing) (levels + missing)
      (Strip.descend Tape.step limits levels depth) := by
  refine Strip.descend_triple (fun levels s r => Installed r.store ∧ Starts (levels + missing) s)
    (fun _ _ swept r => Installed r.store ∧ Filled swept.chunks) ?_ (fun _ _ _ _ h => h) ?_
    levels depth
  · intro s depth _
    refine refuse_triple ?_
    rintro e event r hclass ⟨-, -, fence, hready, -⟩
    obtain ⟨below, hlevels, -⟩ := hready.enough
    exact ⟨hclass, by omega⟩
  · intro levels enter hlead henter s hs
    rw [Nat.add_right_comm]
    exact run_total hlead henter hsteps htime hs

/-- **The grammar of CSS fails for the depth only** where nothing else is
limited, and every token, however deeply nested, has a positive length.  It does
not fail if the limit on depth, and the frames of the host, allow twice as many
levels as the text has characters, and ten more. -/
theorem tokenize_css {limits : Limits} {frames : Option Nat} {store : Store} {text : Text}
    (hstore : Installed store) (hsteps : limits.maxSteps = none) (htime : limits.timeout = none) :
    (∀ chunks, (tokenize limits frames store text (.grammar sheetId)).result = .ok chunks →
        ∀ t ∈ tokensOf chunks, 0 < t.length) ∧
      (∀ e, (tokenize limits frames store text (.grammar sheetId)).result = .error e →
        e.toClass = .depthExceeded) ∧
      (2 * (text.length : Int) + 10 ≤ limits.maxDepth →
        (∀ n, frames = some n → 2 * text.length + 10 ≤ n) →
        ∃ chunks, (tokenize limits frames store text (.grammar sheetId)).result = .ok chunks) := by
  let levels := Tokenizer.levels limits frames
  have hneeded : needed sheetId text.length = 2 * text.length + 6 := rfl
  have henter := descend_total hsteps htime (needed sheetId text.length - levels) levels 0
  have hopens : sheetId = atRuleId → Opens text := fun h => absurd h (by decide)
  have hend := tokenize_of_triple store (chunksOf_total henter (by simp [ids]) (by omega) hopens
    false) hstore
  cases hresult : (tokenize limits frames store text (.grammar sheetId)).result with
  | ok chunks =>
    rw [hresult] at hend
    refine ⟨?_, ?_, fun _ _ => ⟨chunks, rfl⟩⟩
    · rintro _ ⟨⟩
      exact hend.2.tokens
    · rintro _ ⟨⟩
  | error e =>
    rw [hresult] at hend
    refine ⟨?_, ?_, fun hdepth hframes => ?_⟩
    · rintro _ ⟨⟩
    · rintro _ ⟨⟩
      exact hend.1
    have hmissing : levels < needed sheetId text.length := Nat.lt_of_sub_pos hend.2
    have hlevels : 2 * text.length + 10 ≤ levels :=
      Tokenizer.le_levels_iff.mpr ⟨by omega, hframes⟩
    omega

theorem tokenize_css_import :
    Installed store ∧ ∃ chunks,
      (tokenize { maxDepth := 48 } (some 48) store "@import url(a.css);".toList
        (.grammar sheetId)).result = .ok chunks ∧ ∀ t ∈ tokensOf chunks, 0 < t.length := by
  have hframes : ∀ n, some 48 = some n → 2 * "@import url(a.css);".toList.length + 10 ≤ n := by
    rintro n ⟨⟩
    decide
  obtain ⟨htokens, -, hroom⟩ := @tokenize_css { maxDepth := 48 } (some 48) store
    "@import url(a.css);".toList installed_store rfl rfl
  obtain ⟨chunks, hresult⟩ := hroom (by decide) hframes
  exact ⟨installed_store, chunks, hresult, htokens chunks hresult⟩

/-- The limit on depth is not enough: at-rules go as deep as there are signs
in a row, and so run out of the frames of a host that has only a few. -/
theorem tokenize_css_needs_frames :
    ¬ ∀ (limits : Limits) (frames : Option Nat) (text : Text), limits.maxSteps = none →
      limits.timeout = none → 2 * (text.length : Int) + 10 ≤ limits.maxDepth →
      ∃ chunks, (tokenize limits frames store text (.grammar sheetId)).result = .ok chunks ∧
        ∀ t ∈ tokensOf chunks, 0 < t.length := by
  intro h
  obtain ⟨chunks, hresult, -⟩ :=
    h { maxDepth := 30 } (some 3) "@a @a @a;".toList rfl rfl (by decide)
  have hfails : (tokenize { maxDepth := 30 } (some 3) store "@a @a @a;".toList
      (.grammar sheetId)).result.toOption = none := by
    decide +kernel
  rw [hresult] at hfails
  cases hfails

end Css
end Highlight
