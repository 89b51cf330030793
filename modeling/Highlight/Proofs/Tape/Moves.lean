/-
# Where a move goes

A move leaves the chunks ahead in order: it passes some of them, covers some,
and keeps the rest (`Move.Fits`).  What it covers begins with a plain chunk,
and the match that becomes a token lies in the covered text: what is before
it, the match, and what is after it make up that text (`Cut.Fits`).

This holds wherever the chunks ahead cover the text from the offset on
(`choose_fits`).  `choose_cases` says, more exactly, what a rule has found when
it makes a move.
-/

import Highlight.Proofs.Tape.Basic
import Highlight.Proofs.Pattern.Find
import Mathlib.Tactic.NthRewrite

namespace Highlight

namespace Chunk

@[simp] theorem extents_nil : extents [] = 0 := rfl

@[simp] theorem extents_cons (c : Chunk) (cs : List Chunk) :
    extents (c :: cs) = c.extent + extents cs := by
  simp [extents]

@[simp] theorem extents_append (cs ds : List Chunk) :
    extents (cs ++ ds) = extents cs + extents ds := by
  simp [extents]

@[simp] theorem extent_plain (text : Text) : (Chunk.plain text).extent = text.length := by
  simp [extent, length]

@[simp] theorem extents_ofText (text : Text) : extents (ofText text) = text.length := by
  unfold ofText
  split
  · simp_all
  · simp

/-- A chunk that is not plain is a token. -/
theorem isToken_of_ne_plain {c : Chunk} (h : ∀ text, c ≠ .plain text) : c.isToken = true := by
  cases c with
  | plain text => exact absurd rfl (h text)
  | leaf tag text | node tag parts => rfl

end Chunk

open Chunk

/-- A cut fits the chunks that it covers: they begin with a plain chunk, the
cut counts them and holds their text, and the match lies in it. -/
structure Cut.Fits (cut : Cut) (covered : List Chunk) : Prop where
  plain : ∃ chunk more, covered = .plain chunk :: more
  covered_eq : cut.covered = covered.length
  length_segment : cut.segment.length = extents covered
  join : cut.before ++ (cut.matched ++ cut.after) = cut.segment

/-- What is before a match, the match, and what is after it make up the
segment, if the match stands at its offset. -/
theorem Cut.join_of_matched {cut : Cut}
    (h : cut.matched = (cut.segment.drop cut.offset).take cut.matched.length) :
    cut.before ++ (cut.matched ++ cut.after) = cut.segment := by
  rw [before, after, ← List.drop_drop]
  nth_rewrite 1 [h]
  rw [List.take_append_drop, List.take_append_drop]

namespace Cut.Fits

variable {cut : Cut} {covered : List Chunk}

/-- A match with what is before and after it is as long as what it covers. -/
theorem length_join (h : cut.Fits covered) :
    cut.before.length + (cut.matched.length + cut.after.length) = extents covered := by
  rw [← h.length_segment, ← h.join, List.length_append, List.length_append]

end Cut.Fits

/-- A move leaves the chunks ahead in order, and its cut fits what it
covers. -/
def Move.Fits (ahead : List Chunk) : Move → Prop
  | .stop => True
  | .pass skipped rest => ahead = skipped ++ rest
  | .cut skipped covered rest c => ahead = skipped ++ (covered ++ rest) ∧ c.Fits covered

namespace Tape

variable {target offset : Nat} {cs skipped rest covered : List Chunk}

/-! ### Finding a place -/

/-- Nothing gets lost on the way to a place. -/
theorem seat_append (h : seat target offset cs = (skipped, rest)) : skipped ++ rest = cs := by
  induction cs generalizing offset skipped with
  | nil =>
    cases h
    rfl
  | cons c cs ih =>
    rw [seat] at h
    split at h
    · cases h
      rfl
    · cases h
      rw [List.cons_append, ih rfl]

/-- An offset within the chunks lies in the chunk that is found for it. -/
theorem seat_spec (h : seat target offset cs = (skipped, rest)) (hle : offset ≤ target)
    (hlt : target < offset + extents cs) :
    ∃ c more, rest = c :: more ∧ offset + extents skipped ≤ target ∧
      target < offset + extents skipped + c.extent := by
  induction cs generalizing offset skipped with
  | nil => exact absurd hlt (by simpa using hle)
  | cons c cs ih =>
    rw [extents_cons] at hlt
    rw [seat] at h
    split at h
    · rename_i hin
      cases h
      exact ⟨c, cs, rfl, by simpa using hle, by simpa using hin⟩
    · rename_i hout
      cases h
      obtain ⟨d, more, hrest, hfrom, hto⟩ := ih rfl (by omega) (by omega)
      exact ⟨d, more, hrest, by rw [extents_cons]; omega, by rw [extents_cons]; omega⟩

/-- Nothing gets lost when chunks are covered. -/
theorem cover_append (h : cover target offset cs = (covered, rest)) : covered ++ rest = cs := by
  induction cs generalizing offset covered with
  | nil =>
    cases h
    rfl
  | cons c cs ih =>
    rw [cover] at h
    split at h
    · cases h
      rw [List.cons_append, ih rfl]
    · cases h
      rfl

/-- An offset within the chunks is within those that are covered up to it. -/
theorem le_extents_cover (h : cover target offset cs = (covered, rest))
    (hle : target ≤ offset + extents cs) : target ≤ offset + extents covered := by
  induction cs generalizing offset covered with
  | nil =>
    cases h
    exact hle
  | cons c cs ih =>
    rw [cover] at h
    split at h
    · cases h
      rw [extents_cons] at hle ⊢
      have := ih rfl (by omega)
      omega
    · rename_i hout
      cases h
      simp only [Bool.or_eq_true, decide_eq_true_eq, not_or] at hout
      rw [extents_nil]
      omega

/-- A plain chunk is covered. -/
theorem cover_plain {chunk : Text}
    (h : cover target offset (.plain chunk :: cs) = (covered, rest)) :
    ∃ more, covered = .plain chunk :: more := by
  rw [cover, if_pos (by simp [isToken])] at h
  cases h
  exact ⟨_, rfl⟩

/-! ### What a rule has found when it moves -/

variable {text chunk : Text} {clause : Clause} {t : Tape}

/-- What a greedy rule has found when it moves. -/
inductive Greedily (text : Text) (t : Tape) (found : Option Match) : Move → Prop where
  | none (h : found = none) : Greedily text t found .stop
  | beyond (m : Match) (h : found = some m) (hindex : text.length ≤ m.index) :
    Greedily text t found .stop
  | inToken (m : Match) (skipped rest : List Chunk) (token : Chunk) (h : found = some m)
    (hindex : m.index < text.length) (hahead : t.ahead = skipped ++ token :: rest)
    (htoken : token.isToken = true) (hfrom : t.offset + extents skipped ≤ m.index)
    (hto : m.index < t.offset + extents skipped + token.extent) :
    Greedily text t found (.pass (skipped ++ [token]) rest)
  | inPlain (m : Match) (skipped rest more : List Chunk) (chunk : Text) (h : found = some m)
    (hindex : m.index < text.length) (hahead : t.ahead = skipped ++ (.plain chunk :: more ++ rest))
    (hfrom : t.offset + extents skipped ≤ m.index)
    (hto : m.index < t.offset + extents skipped + chunk.length)
    (hstop : m.stop ≤ t.offset + extents skipped + extents (.plain chunk :: more)) :
    Greedily text t found (.cut skipped (.plain chunk :: more) rest
      { segment := text.slice (t.offset + extents skipped)
          (t.offset + extents skipped + extents (.plain chunk :: more))
        covered := more.length + 1
        offset := m.index - (t.offset + extents skipped)
        matched := m.text })

/-- A greedy rule moves by what it has found, as far as the chunks ahead cover
the text. -/
theorem greedily_greedyMove {p : Pattern} {lookbehind : Bool}
    (hcover : t.offset + extents t.ahead = text.length) :
    Greedily text t (p.find? text t.offset lookbehind)
      (t.greedyMove text (p.find? text t.offset lookbehind)) := by
  cases hfound : p.find? text t.offset lookbehind with
  | none => exact .none rfl
  | some m =>
    unfold greedyMove
    dsimp only
    split
    · rename_i hindex
      exact .beyond m rfl hindex
    · rename_i hindex
      have hindex : m.index < text.length := by omega
      have hle := Pattern.find?_index (by omega) hfound
      rcases hseat : seat m.index t.offset t.ahead with ⟨skipped, ahead⟩
      obtain ⟨c, more, rfl, hfrom, hto⟩ := seat_spec hseat hle (by omega)
      have happend := seat_append hseat
      dsimp only
      split
      · contradiction
      · rename_i chunk rest heq
        cases heq
        rcases hcovers : cover m.stop (t.offset + extents skipped) (.plain chunk :: more) with
          ⟨covered, rest⟩
        obtain ⟨tail, rfl⟩ := cover_plain hcovers
        have hsplit := cover_append hcovers
        have hstop := Pattern.find?_stop_le hfound (by omega)
        have hreach := le_extents_cover hcovers (by
          rw [← happend, extents_append] at hcover
          omega)
        exact .inPlain m skipped rest tail chunk rfl hindex (by rw [hsplit, happend]) hfrom
          (by simpa using hto) hreach
      · rename_i token rest hplain heq
        cases heq
        have htoken := isToken_of_ne_plain hplain
        exact .inToken m skipped more c rfl hindex happend.symm htoken hfrom hto

/-- What a rule has found when it moves from a plain chunk. -/
inductive Chosen (text : Text) (clause : Clause) (t : Tape) (chunk : Text) (rest : List Chunk) :
    Move → Prop where
  | greedy {move : Move} (hgreedy : clause.rule.greedy = true)
    (h : Greedily text t (clause.rule.pattern.find? text t.offset clause.rule.lookbehind) move) :
    Chosen text clause t chunk rest move
  | none (hgreedy : clause.rule.greedy = false)
    (h : clause.rule.pattern.find? chunk 0 clause.rule.lookbehind = none) :
    Chosen text clause t chunk rest (.pass [.plain chunk] rest)
  | some (m : Match) (hgreedy : clause.rule.greedy = false)
    (h : clause.rule.pattern.find? chunk 0 clause.rule.lookbehind = some m) :
    Chosen text clause t chunk rest (.cut [] [.plain chunk] rest
      { segment := chunk, covered := 1, offset := m.index, matched := m.text })

/-- **What a move from a plain chunk says about the match.** -/
theorem choose_cases (hcover : t.offset + extents t.ahead = text.length) (chunk : Text)
    (rest : List Chunk) : Chosen text clause t chunk rest (t.choose text clause chunk rest) := by
  unfold choose
  split
  · rename_i hgreedy
    exact .greedy hgreedy (greedily_greedyMove hcover)
  · rename_i hgreedy
    rw [Bool.not_eq_true] at hgreedy
    cases hfound : clause.rule.pattern.find? chunk 0 clause.rule.lookbehind with
    | none => exact .none hgreedy hfound
    | some m => exact .some m hgreedy hfound

/-- What is cut out has been found by the rule, in the text or in the plain
chunk. -/
theorem found_of_chosen {rest' : List Chunk} {cut : Cut}
    (h : Chosen text clause t chunk rest (.cut skipped covered rest' cut))
    (hle : t.offset ≤ text.length) :
    ∃ source offset m, offset ≤ source.length ∧
      clause.rule.pattern.find? source offset clause.rule.lookbehind = some m ∧
      cut.matched = m.text := by
  cases h with
  | some m _ h => exact ⟨chunk, 0, m, Nat.zero_le _, h, rfl⟩
  | greedy _ h =>
    cases h with
    | inPlain m _ _ _ _ h => exact ⟨text, t.offset, m, hle, h, rfl⟩

/-- Only a greedy rule covers more than one chunk. -/
theorem greedy_of_chosen {rest' : List Chunk} {cut : Cut}
    (h : Chosen text clause t chunk rest (.cut skipped covered rest' cut))
    (hcovered : 1 < covered.length) : clause.rule.greedy = true := by
  cases h with
  | some m => exact absurd hcovered (Nat.lt_irrefl 1)
  | greedy h => exact h

/-- A move that passes passes something. -/
theorem ne_nil_of_chosen {rest' : List Chunk}
    (h : Chosen text clause t chunk rest (.pass skipped rest')) : skipped ≠ [] := by
  cases h with
  | none => exact List.cons_ne_nil _ _
  | greedy _ h =>
    cases h with
    | inToken m skipped _ token => exact List.append_ne_nil_of_right_ne_nil _ (List.cons_ne_nil _ _)

/-- The text of a match that lies in a slice stands in the slice. -/
theorem matched_eq_of_slice {m : Match} {start stop : Nat}
    (htext : m.text = (text.drop m.index).take m.text.length) (hfrom : start ≤ m.index)
    (hto : m.stop ≤ stop) :
    m.text = ((text.slice start stop).drop (m.index - start)).take m.text.length := by
  unfold Match.stop at hto
  rw [Text.slice, List.drop_drop, Nat.add_sub_cancel' hfrom, List.drop_take, List.take_take,
    Nat.min_eq_left (by omega)]
  exact htext

/-- **A move leaves the chunks ahead in order**, and its cut fits what it
covers, as far as the chunks ahead cover the text. -/
theorem choose_fits (hahead : t.ahead = .plain chunk :: rest)
    (hcover : t.offset + extents t.ahead = text.length) :
    (t.choose text clause chunk rest).Fits t.ahead := by
  have hchosen : Chosen text clause t chunk rest _ := choose_cases hcover chunk rest
  generalize t.choose text clause chunk rest = move at hchosen
  cases hchosen with
  | none => exact hahead
  | some m _ hfound =>
    exact ⟨hahead, ⟨chunk, [], rfl⟩, rfl, by simp, Cut.join_of_matched (Pattern.find?_text hfound)⟩
  | greedy _ hmove =>
    cases hmove with
    | none | beyond => trivial
    | inToken m skipped rest token _ _ hahead =>
      rw [Move.Fits, List.append_assoc, hahead]
      rfl
    | inPlain m skipped rest more chunk hfound _ hahead hfrom _ hstop =>
      have hlen : t.offset + extents skipped + extents (.plain chunk :: more) ≤ text.length := by
        rw [hahead, extents_append, extents_append] at hcover
        omega
      refine ⟨hahead, ⟨chunk, more, rfl⟩, rfl, ?_, ?_⟩
      · rw [Text.length_slice]
        omega
      · exact Cut.join_of_matched (matched_eq_of_slice (Pattern.find?_text hfound) hfrom hstop)

/-! ### Walks that cover the text -/

/-- The chunks of a walk cover the text: those that it has passed from the
offset of the sweep to its own, and those ahead from there to the end. -/
structure Covers (text : Text) (start : Nat) (t : Tape) : Prop where
  passed : start + extents t.passed = t.offset
  ahead : t.offset + extents t.ahead = text.length

/-- Passing chunks leaves them in order. -/
theorem chunks_pass (hahead : t.ahead = skipped ++ rest) :
    (t.pass skipped rest).passed ++ (t.pass skipped rest).ahead = t.passed ++ t.ahead := by
  simp [pass, hahead]

/-- Passing chunks in two goes. -/
theorem pass_pass {skipped' rest' : List Chunk} :
    (t.pass skipped rest).pass skipped' rest' = t.pass (skipped ++ skipped') rest' := by
  simp [pass, Nat.add_assoc]

namespace Covers

variable {start : Nat} {cut : Cut} {token : Chunk}

/-- A walk that passes chunks still covers the text. -/
theorem pass (h : t.Covers text start) (hahead : t.ahead = skipped ++ rest) :
    (t.pass skipped rest).Covers text start := by
  have hpassed := h.passed
  have hcover := h.ahead
  rw [hahead, extents_append] at hcover
  constructor
  · simp only [Tape.pass, extents_append]
    omega
  · simp only [Tape.pass]
    omega

/-- What a cut leaves covers the text from the token on. -/
theorem leftover (h : t.Covers text start) (hahead : t.ahead = covered ++ rest)
    (hfits : cut.Fits covered) (htoken : token.extent = cut.matched.length) :
    t.offset + cut.before.length + extents (leftover cut token rest) = text.length := by
  have hcover := h.ahead
  have hjoin := hfits.length_join
  rw [hahead, extents_append] at hcover
  rw [Tape.leftover, extents_cons, extents_append, extents_ofText, htoken]
  omega

/-- A walk that goes on after a cut still covers the text, if what the sweep
after it has left does and begins with the token. -/
theorem resume (h : t.Covers text start) {more : List Chunk} {reach : Option Nat}
    (hcover : t.offset + cut.before.length + extents (token :: more) = text.length) :
    (t.resume cut token ⟨token :: more, reach⟩).Covers text start := by
  have hpassed := h.passed
  rw [extents_cons] at hcover
  constructor
  · simp only [Tape.resume, extents_append, extents_ofText, extents_cons, extents_nil]
    omega
  · simp only [Tape.resume, List.tail_cons]
    omega

end Covers
end Tape
end Highlight
