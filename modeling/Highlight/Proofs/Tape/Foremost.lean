/-
# The first rule of a sweep

A greedy rule seeks its match in the whole text, from the chunk on that it is at, and takes
in the tokens that the match runs across.  Any other rule seeks it in the chunk.  For the first
rule of a sweep there are no tokens to run across: at every step the rest of the text is ahead
as one chunk (`Tape.Lone`).  So if a search from an offset finds what it finds in the rest of
the text on its own (`Pattern.Shifts`), the rule makes the same cuts, greedy or not
(`choose_lone`).

One difference is left.  Where nothing is found, a greedy rule stops, and any other rule
passes the chunk and stops then, at the end of the text.  That takes one more step, but no
more attempts, and the chunks are the same (`finish_lone`).

The rules after the first one are offered what they make no merge of, if they are not greedy
themselves.  Then none of their cuts starts a rematch, and it does not matter which rules
were before them (`walks_earlier`).
-/

import Highlight.Proofs.Store.Changes
import Highlight.Proofs.Tokenizer.Ahead

namespace Highlight

open Chunk RunM

/-- A search from any offset of a text finds what a search finds in the rest of the text on
its own, moved by the offset, and never the empty text. -/
structure Pattern.Shifts (p : Pattern) (lookbehind : Bool) (text : Text) : Prop where
  find?_eq : ∀ offset ≤ text.length,
    (p.find? text offset lookbehind).map (fun m => (m.index, m.text)) =
      (p.find? (text.drop offset) 0 lookbehind).map fun m => (m.index + offset, m.text)
  ne_nil : ∀ offset ≤ text.length, ∀ m, p.find? text offset lookbehind = some m → m.text ≠ []

instance (p : Pattern) (lookbehind : Bool) (text : Text) : Decidable (p.Shifts lookbehind text) :=
  decidable_of_iff
    ((∀ offset ≤ text.length,
      (p.find? text offset lookbehind).map (fun m => (m.index, m.text)) =
        (p.find? (text.drop offset) 0 lookbehind).map fun m => (m.index + offset, m.text)) ∧
      ∀ offset ≤ text.length, ∀ m ∈ p.find? text offset lookbehind, m.text ≠ [])
    ⟨fun h => ⟨h.1, h.2⟩, fun h => ⟨h.find?_eq, h.ne_nil⟩⟩

/-- The rule, seeking its matches in one chunk at a time. -/
def Clause.ungreedy (c : Clause) : Clause :=
  { c with rule := { c.rule with greedy := false } }

namespace Tape

variable {enter : Strip.Enter} {limits : Limits} {text chunk : Text} {base fuel : Nat}
  {earlier earlier' : List Clause} {clause : Clause} {t : Tape} {rest : List Chunk} {cut : Cut}

/-! ### One chunk ahead -/

/-- The rest of the text is ahead as one chunk, or as none. -/
structure Lone (text : Text) (t : Tape) : Prop where
  ahead : t.ahead = ofText (text.drop t.offset)
  le : t.offset ≤ text.length
  reach : t.reach = none

/-- At the end of the text a walk stops. -/
theorem step_nil (hahead : t.ahead = []) :
    t.step enter limits text base earlier clause = pure none := by
  rw [step, hahead]
  rfl

/-- What a step does that has one chunk ahead. -/
theorem step_lone (hlone : t.Lone text) (hchunk : t.ahead = [.plain chunk]) :
    t.step enter limits text base earlier clause =
      if text.length < base + t.passed.length + 1 then
        giveUp (.overrun clause.type ↑(base + t.passed.length + 1) text.length)
          (.overrun ↑(base + t.passed.length + 1) text.length)
      else do
        charge limits
        match t.choose text clause chunk [] with
        | .stop => return none
        | .pass skipped rest => return some (t.pass skipped rest)
        | .cut skipped covered rest cut =>
          return some (← (t.pass skipped (covered ++ rest)).replace enter text base earlier clause
            rest cut) := by
  unfold step
  rw [hlone.reach, hchunk]
  rfl

/-- What the rule does is the same, greedy or not, but that a greedy rule stops where any
other passes the chunk. -/
inductive Foremost (chunk : Text) : Move → Move → Prop where
  | none : Foremost chunk .stop (.pass [.plain chunk] [])
  | some (cut : Cut) (hfits : cut.Fits [.plain chunk]) (hsegment : cut.segment = chunk)
    (hmatched : cut.matched ≠ []) :
    Foremost chunk (.cut [] [.plain chunk] [] cut) (.cut [] [.plain chunk] [] cut)

/-- The chunk ahead is the rest of the text. -/
theorem Lone.chunk_eq (hlone : t.Lone text) (hchunk : t.ahead = [.plain chunk]) :
    chunk = text.drop t.offset ∧ chunk ≠ [] := by
  have hahead := hlone.ahead
  rw [hchunk, ofText] at hahead
  split at hahead
  · cases hahead
  · rename_i hfull
    cases hahead
    exact ⟨rfl, hfull⟩

/-- With one chunk ahead, a greedy rule cuts a match out of the chunk. -/
theorem greedyMove_lone (hlone : t.Lone text) (hchunk : t.ahead = [.plain chunk]) {m : Match}
    (hto : m.index < text.length) :
    t.greedyMove text (some m) = .cut [] [.plain chunk] []
      { segment := chunk, covered := 1, offset := m.index - t.offset, matched := m.text } := by
  obtain ⟨rfl, -⟩ := hlone.chunk_eq hchunk
  have hle := hlone.le
  have hlen : (text.drop t.offset).length = text.length - t.offset := List.length_drop
  have hseat : seat m.index t.offset t.ahead = ([], [.plain (text.drop t.offset)]) := by
    rw [hchunk, seat, extent_plain, if_pos (by omega)]
  have hcover : cover m.stop t.offset [.plain (text.drop t.offset)] =
      ([.plain (text.drop t.offset)], []) := by
    rw [cover, if_pos (by simp [isToken])]
    rfl
  have hslice : text.slice t.offset (t.offset + (text.drop t.offset).length) =
      text.drop t.offset := by
    rw [Text.slice, List.take_of_length_le (by omega)]
  unfold greedyMove
  dsimp only
  rw [if_neg (by omega), hseat]
  dsimp only
  rw [extents_nil, Nat.add_zero, hcover]
  dsimp only
  rw [extents_cons, extents_nil, Nat.add_zero, extent_plain, hslice]
  rfl

/-- **With one chunk ahead, the rule does the same**, greedy or not. -/
theorem choose_lone (hlone : t.Lone text) (hchunk : t.ahead = [.plain chunk])
    (hgreedy : clause.rule.greedy = true)
    (hshifts : clause.rule.pattern.Shifts clause.rule.lookbehind text) :
    Foremost chunk (t.choose text clause chunk []) (t.choose text clause.ungreedy chunk []) := by
  have hle := hlone.le
  obtain ⟨hrest, -⟩ := hlone.chunk_eq hchunk
  have hfind := hshifts.find?_eq t.offset hle
  rw [← hrest] at hfind
  have hlocal : t.choose text clause.ungreedy chunk [] =
      localMove chunk [] (clause.rule.pattern.find? chunk 0 clause.rule.lookbehind) :=
    if_neg Bool.false_ne_true
  rw [hlocal, choose, if_pos hgreedy]
  cases hfound : clause.rule.pattern.find? text t.offset clause.rule.lookbehind with
  | none =>
    rw [hfound, Option.map_none, eq_comm, Option.map_eq_none_iff] at hfind
    rw [hfind]
    exact .none
  | some m =>
    rw [hfound, Option.map_some, eq_comm, Option.map_eq_some_iff] at hfind
    obtain ⟨m', hfound', heq⟩ := hfind
    obtain ⟨hindex, htext⟩ := Prod.mk.inj heq
    have hmatched := hshifts.ne_nil t.offset hle m hfound
    -- A match that is not empty begins within the text.
    have hto : m.index < text.length := by
      by_contra hbeyond
      have hempty := Pattern.find?_text hfound
      rw [List.drop_eq_nil_of_le (Nat.le_of_not_lt hbeyond), List.take_nil] at hempty
      exact hmatched hempty
    have hcut : (⟨chunk, 1, m.index - t.offset, m.text⟩ : Cut) =
        ⟨chunk, 1, m'.index, m'.text⟩ := by
      rw [htext, ← hindex, Nat.add_sub_cancel]
    have hfits : (⟨chunk, 1, m'.index, m'.text⟩ : Cut).Fits [.plain chunk] :=
      ⟨⟨chunk, [], rfl⟩, rfl, by simp, Cut.join_of_matched (Pattern.find?_text hfound')⟩
    rw [greedyMove_lone hlone hchunk hto, hcut, hfound']
    exact .some _ hfits rfl (htext ▸ hmatched)

/-- After a cut the rest of the text is ahead as one chunk again, and there is less of it. -/
theorem replace_lone (hlone : t.Lone text) (hchunk : t.ahead = [.plain chunk])
    (hfits : cut.Fits [.plain chunk]) (hsegment : cut.segment = chunk)
    (hmatched : cut.matched ≠ []) :
    Triple (fun _ => True) (t.replace enter text base earlier clause [] cut)
      (fun t' _ => t'.Lone text ∧ t.offset < t'.offset) fun _ _ => True := by
  obtain ⟨hrest, -⟩ := hlone.chunk_eq hchunk
  have hle := hlone.le
  have hjoin := hfits.length_join
  have hlen : chunk.length = text.length - t.offset := by rw [hrest, List.length_drop]
  rw [extents_cons, extents_nil, extent_plain] at hjoin
  have hpos := List.length_pos_iff.mpr hmatched
  have hafter : text.drop (t.offset + cut.before.length + cut.matched.length) = cut.after := by
    rw [← List.drop_drop, ← List.drop_drop, ← hrest, ← hsegment, ← hfits.join, List.drop_left,
      List.drop_left]
  refine replace_triple (Strip.tokenOf_extent enter clause cut.matched)
    (fun _ token r htoken => ?_) fun hmore => absurd hmore (by rw [hfits.covered_eq]; simp)
  refine ⟨⟨?_, ?_, ?_⟩, ?_⟩
  · dsimp only [resume, leftover, List.tail_cons]
    rw [htoken.2, hafter, List.append_nil]
  · dsimp only [resume]
    omega
  · dsimp only [resume]
    rw [hlone.reach]
    rfl
  · dsimp only [resume]
    omega

/-! ### Walks -/

/-- Two walks end the same: with the same chunks, and at the same reach. -/
def EndsAs (t t' : Tape) : Prop :=
  t.passed ++ t.ahead = t'.passed ++ t'.ahead ∧ t.reach = t'.reach

/-- **The walk of the first rule is the same**, greedy or not, but for its last step. -/
theorem finish_lone (hgreedy : clause.rule.greedy = true)
    (hshifts : clause.rule.pattern.Shifts clause.rule.lookbehind text) (hlone : t.Lone text)
    (hfuel : text.length - t.offset + 1 < fuel) :
    Agrees EndsAs (finish (step enter limits text base earlier clause) fuel t)
      (finish (step enter limits text base earlier clause.ungreedy) fuel t) := by
  -- By induction on the rest of the text, which is shorter after every cut.
  induction fuel generalizing t with
  | zero => omega
  | succ fuel ih =>
    rw [finish, finish]
    by_cases hempty : text.drop t.offset = []
    · have hnil : t.ahead = [] := by rw [hlone.ahead, hempty]; rfl
      rw [step_nil hnil, step_nil hnil]
      exact .pure ⟨rfl, rfl⟩
    · have hchunk : t.ahead = [.plain (text.drop t.offset)] := by
        rw [hlone.ahead, ofText, if_neg hempty]
      have hpos := List.length_pos_iff.mpr hempty
      rw [List.length_drop] at hpos
      have hmoves := choose_lone hlone hchunk hgreedy hshifts
      rw [step_lone hlone hchunk, step_lone hlone hchunk]
      split
      · exact fun r => .error _ _
      · simp only [bind_assoc]
        refine .bind_left _ fun _ => ?_
        generalize t.choose text clause (text.drop t.offset) [] = move at hmoves ⊢
        generalize t.choose text clause.ungreedy (text.drop t.offset) [] = move' at hmoves ⊢
        cases hmoves with
        | none =>
          obtain ⟨fuel, rfl⟩ : ∃ more, fuel = more + 1 := ⟨fuel - 1, by omega⟩
          rw [pure_bind, pure_bind]
          dsimp only
          rw [finish, step_nil rfl, pure_bind]
          exact .pure ⟨by rw [hchunk]; exact (List.append_nil _).symm, rfl⟩
        | some cut hfits hsegment hmatched =>
          have hstay : t.pass [] ([.plain (text.drop t.offset)] ++ []) = t := by
            simp [pass, ← hchunk]
          simp only [bind_assoc, pure_bind]
          rw [hstay]
          refine (Agrees.of_triple (replace_lone hlone hchunk hfits hsegment hmatched)).bind ?_
          rintro t' _ ⟨rfl, hlone', hlt⟩
          have hle := hlone'.le
          exact ih hlone' (by omega)

/-! ### The rules after the first one -/

/-- A cut that covers one chunk starts no rematch, whatever rules were before. -/
theorem replace_earlier (hcovered : cut.covered = 1) :
    t.replace enter text base earlier clause rest cut =
      t.replace enter text base earlier' clause rest cut := by
  unfold replace
  rw [hcovered]
  rfl

/-- A rule that is not greedy takes no notice of the rules before it. -/
theorem step_earlier (hgreedy : clause.rule.greedy = false) :
    t.step enter limits text base earlier clause =
      t.step enter limits text base earlier' clause := by
  have hlocal (chunk : Text) (rest : List Chunk) : t.choose text clause chunk rest =
      localMove chunk rest (clause.rule.pattern.find? chunk 0 clause.rule.lookbehind) :=
    if_neg (by simp [hgreedy])
  unfold step
  dsimp only
  split
  · rfl
  · split
    · rfl
    · split
      · rfl
      · rename_i chunk rest _
        rw [hlocal]
        refine bind_congr fun _ => ?_
        cases clause.rule.pattern.find? chunk 0 clause.rule.lookbehind with
        | none => rfl
        | some m =>
          dsimp only [localMove]
          rw [replace_earlier rfl]
      · rfl

end Tape

namespace Strip

variable {enter : Strip.Enter} {limits : Limits} {s s' : Strip} {earlier earlier' : List Clause}
  {clause : Clause} {text : Text}

/-- The walks of rules that are not greedy take no notice of the rules before them. -/
theorem walks_earlier (htext : s.text = s'.text) (hbase : s.base = s'.base)
    (hoffset : s.offset = s'.offset) {later : List Clause}
    (hlater : ∀ clause ∈ later, clause.rule.greedy = false) (state : Swept) :
    s.walks Tape.step enter limits earlier later state =
      s'.walks Tape.step enter limits earlier' later state := by
  induction later generalizing earlier earlier' state with
  | nil => rfl
  | cons clause later ih =>
    have hstep : Tape.step enter limits s.text s.base earlier clause =
        Tape.step enter limits s'.text s'.base earlier' clause := by
      rw [htext, hbase]
      exact funext fun _ => Tape.step_earlier (hlater clause List.mem_cons_self)
    rw [walks, walks, walk, walk, hstep, htext, hoffset]
    exact bind_congr fun state => ih (fun c hc => hlater c (List.mem_cons_of_mem _ hc)) state

/-- The walk of the first rule leaves the same, greedy or not. -/
theorem walk_foremost (hgreedy : clause.rule.greedy = true)
    (hshifts : clause.rule.pattern.Shifts clause.rule.lookbehind text) (hfull : text ≠ [])
    (clauses clauses' : List Clause) :
    walk Tape.step enter limits ⟨text, clauses, 0, [.plain text], 0, none⟩ earlier clause
        ⟨[.plain text], none⟩ =
      walk Tape.step enter limits ⟨text, clauses', 0, [.plain text], 0, none⟩ earlier
        clause.ungreedy ⟨[.plain text], none⟩ := by
  have hlone : Tape.Lone text ⟨[], [.plain text], 0, none⟩ :=
    ⟨by rw [List.drop_zero, ofText, if_neg hfull], Nat.zero_le _, rfl⟩
  have hfuel : text.length - 0 + 1 < Walk.fuel text := by
    have hle := Nat.le_mul_of_pos_right (text.length + 3) (show 0 < text.length + 3 by omega)
    rw [Walk.fuel]
    omega
  refine Agrees.eq ((Tape.finish_lone hgreedy hshifts hlone hfuel).bind ?_)
  rintro t t' ⟨hchunks, hreach⟩
  rw [hchunks, hreach]
  exact .pure rfl

/-- **The first rule may seek its matches in one chunk at a time**, if what it finds does not
depend on what is before the chunk, and no other rule is greedy. -/
theorem chunksBy_ungreedy {later : List Clause} (hgreedy : clause.rule.greedy = true)
    (hlater : ∀ clause ∈ later, clause.rule.greedy = false)
    (hshifts : clause.rule.pattern.Shifts clause.rule.lookbehind text) (nested : Bool)
    (levels depth : Nat) :
    chunksBy (descend Tape.step limits levels depth) nested text (clause :: later) =
      chunksBy (descend Tape.step limits levels depth) nested text
        (clause.ungreedy :: later) := by
  unfold chunksBy
  refine bind_congr fun _ => ?_
  split
  · rfl
  · rename_i hfull
    refine congrArg (· >>= _) ?_
    cases levels with
    | zero => rfl
    | succ levels =>
      refine bind_congr fun _ => ?_
      rw [run, run, walks, walks,
        walk_foremost hgreedy hshifts hfull _ (clause.ungreedy :: later)]
      refine bind_congr fun state => walks_earlier ?_ ?_ ?_ hlater state
      · rfl
      · rfl
      · rfl

end Strip

/-- **Greedy or not, the first rule makes the same of a text** in which its matches depend on
nothing to their left, and are not empty.  Two grammars may resolve to the same rules, none of
them greedy but the first one, and that in one of the grammars only.  Then their runs over the
text end the same, in as many attempts, whatever the limits are. -/
theorem tokenize_ungreedy {store s s' : Store} (hlinked : store.Linked) {g g' : GrammarId}
    {r r' : Resolution} {events events' : List Event}
    (hg : store.resolve (.grammar g) = .ok (r, s, events))
    (hg' : store.resolve (.grammar g') = .ok (r', s', events'))
    {first : Clause} {later : List Clause} (hr : r.clauses = first :: later)
    (hr' : r'.clauses = first.ungreedy :: later) (hgreedy : first.rule.greedy = true)
    (hlater : ∀ clause ∈ later, clause.rule.greedy = false) {text : Text}
    (hshifts : first.rule.pattern.Shifts first.rule.lookbehind text) (limits : Limits)
    (frames : Option Nat) :
    (tokenize limits frames store text (.grammar g)).result =
        (tokenize limits frames store text (.grammar g')).result ∧
      (tokenize limits frames store text (.grammar g)).run.profile.patternAttempts =
        (tokenize limits frames store text (.grammar g')).run.profile.patternAttempts := by
  have hsame := @Strip.chunksBy_ungreedy limits first text later hgreedy hlater hshifts false
    (Tokenizer.levels limits frames) 0
  rw [← hr, ← hr'] at hsame
  obtain ⟨hresult, hprofile⟩ := tokenize_of_chunksBy hlinked hg hg' hsame
  exact ⟨hresult, congrArg Profile.patternAttempts hprofile⟩

/-- Numbers, greedy in the first grammar and not in the second one, and words. -/
def counted : Store where
  grammars := #[
    { entries := [
        ("number", .single (.rule {
          pattern := .expression (.source "[0-9]+".toList)
          greedy := true })),
        ("word", .single (.pattern (.source "[a-z]+".toList)))] },
    { entries := [
        ("number", .single (.pattern (.source "[0-9]+".toList))),
        ("word", .single (.pattern (.source "[a-z]+".toList)))] }]

/-- The greedy rule for numbers of `counted`. -/
def numberClause : Clause where
  type := "number"
  rule := {
    pattern := {
      source := "[0-9]+".toList
      tree := .rep .greedy 1 none (.set { items := [.range 48 57] }) }
    greedy := true }

/-- The rule for words of `counted`. -/
def wordClause : Clause where
  type := "word"
  rule := {
    pattern := {
      source := "[a-z]+".toList
      tree := .rep .greedy 1 none (.set { items := [.range 97 122] }) } }

/-- Two numbers are found one by one in `1a23!`, greedy or not, before the word between
them is. -/
theorem tokenize_ungreedy_counted :
    counted.Linked ∧
      (counted.resolve (.grammar 0)).toOption.map (·.1.clauses) =
        some [numberClause, wordClause] ∧
      (counted.resolve (.grammar 1)).toOption.map (·.1.clauses) =
        some [numberClause.ungreedy, wordClause] ∧
      numberClause.rule.greedy = true ∧
      numberClause.rule.pattern.Shifts false "1a23!".toList ∧
      (tokenize {} none counted "1a23!".toList (.grammar 0)).result =
        (tokenize {} none counted "1a23!".toList (.grammar 1)).result ∧
      (tokenize {} none counted "1a23!".toList (.grammar 0)).run.profile.patternAttempts =
        (tokenize {} none counted "1a23!".toList (.grammar 1)).run.profile.patternAttempts ∧
      (tokenize {} none counted "1a23!".toList (.grammar 0)).run.profile.patternAttempts = 5 := by
  have hlinked : counted.Linked := (Store.fresh_of_isFresh (by decide)).linked
  have hclauses : (counted.resolve (.grammar 0)).toOption.map (·.1.clauses) =
      some [numberClause, wordClause] := by decide +kernel
  have hclauses' : (counted.resolve (.grammar 1)).toOption.map (·.1.clauses) =
      some [numberClause.ungreedy, wordClause] := by decide +kernel
  have hshifts : numberClause.rule.pattern.Shifts false "1a23!".toList := by decide +kernel
  have hlater : ∀ clause ∈ [wordClause], clause.rule.greedy = false := by decide
  obtain ⟨⟨r, s, events⟩, hg, hr⟩ := Option.map_eq_some_iff.mp hclauses
  obtain ⟨⟨r', s', events'⟩, hg', hr'⟩ := Option.map_eq_some_iff.mp hclauses'
  obtain ⟨hresult, hattempts⟩ := tokenize_ungreedy hlinked (eq_ok_of_toOption hg)
    (eq_ok_of_toOption hg') hr hr' rfl hlater hshifts {} none
  exact ⟨hlinked, hclauses, hclauses', rfl, hshifts, hresult, hattempts, by decide +kernel⟩

end Highlight
