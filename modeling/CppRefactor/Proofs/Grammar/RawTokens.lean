import CppRefactor.Proofs.Grammar.Ends
import CppRefactor.Proofs.Syntax.Bare

/-!
The tokens under the words. A parser over all the tokens of a text skips trivia when it looks ahead,
and puts trivia into the open node as it goes on. What it sees is what the words say, and `Mirrors`,
kept by each step, says that the trees it has are the outlines built so far, woven with its tokens.
-/

namespace CppRefactor.Grammar

open Outline (Feed weaveAll)

/-- The place of the `n`-th token that is no trivia. -/
def sigIndex : Nat → List Token → Option Nat
  | _, [] => none
  | n, t :: ts =>
    if t.isTrivia then (sigIndex n ts).map (· + 1)
    else if n = 0 then some 0
    else (sigIndex (n - 1) ts).map (· + 1)

def sigToken? (n : Nat) (ts : List Token) : Option Token := (sigIndex n ts).bind (ts[·]?)

/-- The place from which on line breaks count for the `n`-th token that is no trivia. -/
def gapStart : Nat → List Token → Option Nat
  | 0, _ => some 0
  | n + 1, ts => (sigIndex n ts).map (· + 1)

def newlineBeforeNth (n : Nat) (ts : List Token) : Bool :=
  match gapStart n ts, sigIndex n ts with
  | some start, some stop => ((ts.take stop).drop start).any (·.breaksLine)
  | _, _ => true

def lookahead (limit : Nat) (ts : List Token) : List Token :=
  (ts.filter (!·.isTrivia)).take limit

theorem getElem?_behind (i : Option Nat) (t : Token) (ts : List Token) :
    ((i.map (· + 1)).bind fun n => (t :: ts)[n]?) = i.bind fun n => ts[n]? := by
  cases i <;> rfl

theorem sigToken?_eq (n : Nat) (ts : List Token) :
    sigToken? n ts = (ts.filter (!·.isTrivia))[n]? := by
  unfold sigToken?
  induction ts generalizing n with
  | nil => rfl
  | cons t ts ih =>
    by_cases ht : t.isTrivia = true
    · rw [sigIndex, if_pos ht, getElem?_behind, ih, List.filter_cons_of_neg (by simp [ht])]
    · rw [sigIndex, if_neg ht, List.filter_cons_of_pos (by simp [ht])]
      cases n with
      | zero => rfl
      | succ n => exact (getElem?_behind _ t ts).trans (ih n)

theorem sigToken?_bare (n : Nat) (gap : Gap) (ts : List Token) :
    (sigToken? n ts).map Token.bare = ((wordsOf gap ts)[n]?).map Word.bare := by
  rw [sigToken?_eq, ← List.getElem?_map, ← List.getElem?_map, wordsOf_bare]

theorem lookahead_bare (limit : Nat) (gap : Gap) (ts : List Token) :
    (lookahead limit ts).map Token.bare = ((wordsOf gap ts).take limit).map Word.bare := by
  rw [lookahead, List.map_take, List.map_take, wordsOf_bare]

theorem newlineBeforeNth_trivia (ht : t.isTrivia = true) (n : Nat) (ts : List Token) :
    newlineBeforeNth n (t :: ts) = ((n == 0 && t.breaksLine) || newlineBeforeNth n ts) := by
  cases n with
  | zero => cases hi : sigIndex 0 ts <;> simp [newlineBeforeNth, gapStart, sigIndex, ht, hi]
  | succ n =>
    cases hi : sigIndex n ts <;> cases hj : sigIndex (n + 1) ts <;>
      simp [newlineBeforeNth, gapStart, sigIndex, ht, hi, hj]

theorem newlineBeforeNth_word (ht : t.isTrivia = false) (n : Nat) (ts : List Token) :
    newlineBeforeNth n (t :: ts) = (n != 0 && newlineBeforeNth (n - 1) ts) := by
  match n with
  | 0 => simp [newlineBeforeNth, gapStart, sigIndex, ht]
  | 1 => cases hi : sigIndex 0 ts <;> simp [newlineBeforeNth, gapStart, sigIndex, ht, hi]
  | n + 2 =>
    cases hi : sigIndex n ts <;> cases hj : sigIndex (n + 1) ts <;>
      simp [newlineBeforeNth, gapStart, sigIndex, ht, hi, hj]

/-- A word's gap says whether a line break is before it; for the next word it also counts what was
passed already. -/
theorem wordsOf_newline (n : Nat) (gap : Gap) (ts : List Token) :
    ((wordsOf gap ts)[n]?).all (·.gap == .newline) =
      (newlineBeforeNth n ts || (n == 0 && gap == .newline)) := by
  induction ts generalizing n gap with
  | nil => cases n <;> rfl
  | cons t ts ih =>
    by_cases ht : t.isTrivia = true
    · rw [wordsOf, if_pos ht, ih, add_beq_newline, newlineBeforeNth_trivia ht]
      cases n <;> simp [Bool.or_comm, Bool.or_left_comm]
    · rw [wordsOf, if_neg ht, newlineBeforeNth_word (by simpa using ht)]
      cases n with
      | zero => simp
      | succ n => simp [ih]

/-- The tokens a parser has ahead, and the trees of the open nodes. -/
structure Raw where
  feed : Feed
  trees : List Tree

/-- Where a node may begin: the number of trees before it, and the offset. -/
structure Checkpoint where
  trees : Nat
  offset : Nat

namespace Raw

def skipFrom (offset : Nat) (trees : List Tree) : List Token → Raw
  | [] => ⟨⟨offset, []⟩, trees⟩
  | t :: ts =>
    if t.isTrivia then skipFrom (offset + t.text.utf8ByteSize) (trees ++ [.token t]) ts
    else ⟨⟨offset, t :: ts⟩, trees⟩

def skipTrivia (r : Raw) : Raw := skipFrom r.feed.offset r.trees r.feed.tokens

def bump (r : Raw) : Raw :=
  match r.skipTrivia with
  | ⟨⟨offset, t :: ts⟩, trees⟩ =>
    ⟨⟨offset + t.text.utf8ByteSize, ts⟩, trees ++ [.token t]⟩
  | ⟨⟨offset, []⟩, trees⟩ => ⟨⟨offset, []⟩, trees⟩

/-- The place behind the trivia ahead, which goes into the open node. -/
def checkpoint (r : Raw) : Checkpoint := ⟨r.skipTrivia.trees.length, r.skipTrivia.feed.offset⟩

/-- Ends a node that began at a checkpoint. -/
def finish (r : Raw) (c : Checkpoint) (k : Kind) : Raw :=
  { r with
    trees := r.trees.take c.trees ++ [.node k ⟨c.offset, r.feed.offset⟩ (r.trees.drop c.trees)] }

theorem skipTrivia_eq (r : Raw) : r.skipTrivia = ⟨r.feed.trivia.2, r.trees ++ r.feed.trivia.1⟩ := by
  obtain ⟨⟨offset, tokens⟩, trees⟩ := r
  simp only [skipTrivia, Feed.trivia]
  induction tokens generalizing offset trees with
  | nil => simp [skipFrom, Feed.advance]
  | cons t ts ih => by_cases ht : t.isTrivia = true <;> simp [skipFrom, ht, ih, Feed.advance]

theorem skipTrivia_skipTrivia (r : Raw) : r.skipTrivia.skipTrivia = r.skipTrivia := by
  simp [skipTrivia_eq, Feed.trivia_trivia]

theorem bump_eq (r : Raw) :
    r.bump = ⟨r.skipTrivia.feed.next.2, r.skipTrivia.trees ++ r.skipTrivia.feed.next.1⟩ := by
  unfold bump
  split <;> simp_all [Feed.next]

theorem finish_checkpoint {r r' : Raw} (h : r'.trees = r.skipTrivia.trees ++ ts) (k : Kind) :
    r'.finish r.checkpoint k =
      ⟨r'.feed, r.skipTrivia.trees ++ [.node k ⟨r.checkpoint.offset, r'.feed.offset⟩ ts]⟩ := by
  simp [finish, checkpoint, h]

end Raw

theorem Gap.add_ne_none (gap : Gap) (t : Token) : gap.add t ≠ .none := by
  unfold add
  split <;> simp

theorem gap_ne_none_of_wordsOf (hgap : gap ≠ .none) (h : wordsOf gap ts = w :: ws) :
    w.gap ≠ .none := by
  induction ts generalizing gap with
  | nil => cases h
  | cons t ts ih =>
    by_cases ht : t.isTrivia = true
    · rw [wordsOf, if_pos ht] at h
      exact ih (gap.add_ne_none t) h
    · rw [wordsOf, if_neg ht] at h
      cases h
      exact hgap

theorem exists_wordsOf_trivia (gap : Gap) (f : Feed) :
    ∃ gap', wordsOf gap f.tokens = wordsOf gap' f.trivia.2.tokens := by
  obtain ⟨offset, tokens⟩ := f
  simp only [Feed.trivia]
  induction tokens generalizing gap with
  | nil => exact ⟨gap, rfl⟩
  | cons t ts ih =>
    by_cases ht : t.isTrivia = true
    · simpa [wordsOf, ht] using ih (gap.add t)
    · exact ⟨gap, by simp [ht]⟩

variable {outer : List Tree} {start : Feed} {s s' : State} {r r' : Raw}

/-- The trees of what is built in a node that began at `start`, and what is left of the tokens. -/
def State.woven (s : State) (start : Feed) : List Tree × Feed := weaveAll s.built.reverse start

theorem State.woven_cons (s s' : State) (start : Feed) (h : s'.built = p :: s.built) :
    s'.woven start =
      ((s.woven start).1 ++ ((s.woven start).2.trivia.1 ++ (p.weave (s.woven start).2.trivia.2).1),
        (p.weave (s.woven start).2.trivia.2).2) := by
  simp [woven, h, Outline.weaveAll_append, weaveAll]

/-- The state over tokens in a node that began at `start`, with `outer` the trees before it: behind
the trivia ahead, if that has been passed. -/
def State.raw (s : State) (outer : List Tree) (start : Feed) : Raw :=
  let r : Raw := ⟨(s.woven start).2, outer ++ (s.woven start).1⟩
  if s.settled then r.skipTrivia else r

/-- No trivia has been passed behind the last part that is built. -/
def State.Tight (s : State) (start : Feed) : Prop :=
  s.settled = true → (s.woven start).2.trivia.1 = []

theorem State.raw_of_tight (h : s.Tight start) (outer : List Tree) :
    s.raw outer start = ⟨(s.woven start).2, outer ++ (s.woven start).1⟩ := by
  cases hs : s.settled with
  | false => rw [State.raw, hs]; rfl
  | true =>
    have hf := Feed.trivia_of_nil (h hs)
    simp [State.raw, hs, Raw.skipTrivia_eq, hf]

/-- A parser over words stands where one over tokens does. The gap of the next word counts trivia
that has been passed, so that it is the gap ahead only before any of it has. -/
structure Mirrors (outer : List Tree) (start : Feed) (s : State) (r : Raw) : Prop where
  raw : r = s.raw outer start
  ahead : ∃ gap, s.ahead = wordsOf gap r.feed.tokens ∧ (s.settled = false → gap = .none)

namespace Mirrors

theorem begin (tokens : List Token) :
    Mirrors [] ⟨0, tokens⟩ (.start (wordsOf .none tokens)) ⟨⟨0, tokens⟩, []⟩ :=
  ⟨rfl, .none, rfl, fun _ => rfl⟩

theorem word? (h : Mirrors outer start s r) (n : Nat) :
    (s.ahead[n]?).map Word.bare = (sigToken? n r.feed.tokens).map Token.bare := by
  obtain ⟨gap, hs, -⟩ := h.ahead
  rw [hs, sigToken?_bare n gap]

theorem upcoming (h : Mirrors outer start s r) (limit : Nat) :
    (s.ahead.take limit).map Word.bare = (lookahead limit r.feed.tokens).map Token.bare := by
  obtain ⟨gap, hs, -⟩ := h.ahead
  rw [hs, lookahead_bare limit gap]

theorem newline (h : Mirrors outer start s r) (hn : n ≠ 0 ∨ s.settled = false) :
    (s.ahead[n]?).all (·.gap == .newline) = newlineBeforeNth n r.feed.tokens := by
  obtain ⟨gap, hs, hgap⟩ := h.ahead
  rw [hs, wordsOf_newline]
  rcases hn with hn | hn
  · simp [hn]
  · simp [hgap hn]

theorem isClosed_iff (h : Mirrors outer start s r) (hs : s.ahead ≠ []) :
    s.isClosed = true ↔ ∃ t ts, r.feed.tokens = t :: ts ∧ t.isTrivia = false := by
  obtain ⟨gap, ha, hgap⟩ := h.ahead
  obtain ⟨w, ws, hw⟩ := List.exists_cons_of_ne_nil hs
  obtain ⟨t, ts, ht⟩ : ∃ t ts, r.feed.tokens = t :: ts :=
    List.exists_cons_of_ne_nil fun he => hs (by rw [ha, he, wordsOf])
  cases hsettled : s.settled with
  | true =>
    have hskip : r.skipTrivia = r := by
      rw [h.raw, State.raw, hsettled, if_pos rfl, Raw.skipTrivia_skipTrivia]
    have htokens := r.feed.trivia_tokens
    have hfeed : r.feed.trivia.2 = r.feed := congrArg Raw.feed (r.skipTrivia_eq.symm.trans hskip)
    rw [hfeed, ht] at htokens
    simp_all [State.isClosed]
  | false =>
    obtain rfl := hgap hsettled
    by_cases htrivia : t.isTrivia = true
    · have hopen : w.gap ≠ .none := by
        rw [ht, wordsOf, if_pos htrivia, hw] at ha
        exact gap_ne_none_of_wordsOf (Gap.none.add_ne_none t) ha.symm
      simp [State.isClosed, hsettled, hw, ht, htrivia, hopen]
    · rw [ht, wordsOf, if_neg htrivia] at ha
      simp [State.isClosed, hsettled, ha, ht, htrivia]

theorem settle (h : Mirrors outer start s r) : Mirrors outer start s.settle r.skipTrivia := by
  obtain ⟨gap, hs, -⟩ := h.ahead
  obtain ⟨gap', hgap'⟩ := exists_wordsOf_trivia gap r.feed
  refine ⟨?_, gap', ?_, fun hopen => absurd hopen (by simp [State.settle])⟩
  · rw [h.raw, State.raw, State.raw, State.settle]
    cases s.settled <;> simp [Raw.skipTrivia_skipTrivia, State.woven]
  · rw [State.settle_ahead, hs, hgap', Raw.skipTrivia_eq]

theorem skipTrivia_eq (h : Mirrors outer start s r) :
    r.skipTrivia =
      ⟨(s.woven start).2.trivia.2, outer ++ (s.woven start).1 ++ (s.woven start).2.trivia.1⟩ :=
  h.settle.raw.trans (Raw.skipTrivia_eq _)

theorem mark (h : Mirrors outer start s r) :
    Ends mark s fun n s' => n = s.built.length ∧ Mirrors outer start s' r.skipTrivia :=
  ⟨_, _, rfl, rfl, h.settle⟩

theorem enter (h : Mirrors outer start s r) :
    Mirrors r.skipTrivia.trees r.skipTrivia.feed s.enter r.skipTrivia ∧
      s.enter.Tight r.skipTrivia.feed := by
  obtain ⟨gap, hs, -⟩ := h.settle.ahead
  have htight : s.enter.Tight r.skipTrivia.feed := by
    intro _
    simp [State.enter, State.woven, weaveAll, r.skipTrivia_eq, Feed.trivia_trivia]
  refine ⟨⟨?_, gap, hs, fun hopen => absurd hopen (by simp [State.enter])⟩, htight⟩
  rw [State.raw_of_tight htight]
  simp [State.enter, State.woven, weaveAll]

/-- Taking a word is passing its token with the trivia before it, or at the end all trivia. -/
theorem advance (h : Mirrors outer start s r) :
    Ends advance s fun _ s' => Mirrors outer start s' r.bump ∧ s'.Tight start := by
  obtain ⟨gap, ha, -⟩ := h.settle.ahead
  have hskip := h.skipTrivia_eq
  have htokens := r.feed.trivia_tokens
  rw [State.settle_ahead, r.skipTrivia_eq] at ha
  obtain ⟨ahead, taken, settled, built, faults⟩ := s
  rcases htokens with he | ⟨t, ts, he, ht⟩
  · obtain rfl : ahead = [] := by simpa [he, wordsOf] using ha
    have hbump : r.bump = r.skipTrivia := by
      rw [r.bump_eq, r.skipTrivia_eq]
      simp [Feed.next, he]
    have hwoven := State.woven_cons ⟨[], taken, settled, built, faults⟩
      ⟨[], taken, true, .gap :: built, faults⟩ start rfl
    have htight : State.Tight ⟨[], taken, true, .gap :: built, faults⟩ start := by
      intro _
      rw [hwoven, Outline.weave, Feed.trivia_trivia]
    refine ⟨(), _, rfl, ⟨?_, .none, ?_, fun _ => rfl⟩, htight⟩
    · rw [hbump, hskip, State.raw_of_tight htight, hwoven]
      simp [Outline.weave]
    · rw [hbump, r.skipTrivia_eq, he]
      rfl
  · rw [he, wordsOf, if_neg (by simp [ht])] at ha
    subst ha
    have hwoven := State.woven_cons
      ⟨⟨t.kind, t.text, gap⟩ :: wordsOf .none ts, taken, settled, built, faults⟩
      ⟨wordsOf .none ts, taken + 1, false, .word :: built, faults⟩ start rfl
    have htight : State.Tight ⟨wordsOf .none ts, taken + 1, false, .word :: built, faults⟩ start :=
      fun h => absurd h Bool.false_ne_true
    refine ⟨(), _, rfl, ⟨?_, .none, ?_, fun _ => rfl⟩, htight⟩
    · rw [r.bump_eq, hskip, State.raw_of_tight htight, hwoven]
      simp [Outline.weave]
    · rw [r.bump_eq, r.skipTrivia_eq]
      simp [Feed.next, he]

/-- A node of what was built since it began, if no trivia has been passed behind that. -/
theorem leave (h : Mirrors outer start s r)
    (hi : Mirrors r.skipTrivia.trees r.skipTrivia.feed s' r') (ht : s'.Tight r.skipTrivia.feed)
    (hs₁ : s₁ = { s' with built := .node k s'.built.reverse :: s.built }) :
    Mirrors outer start s₁ (r'.finish r.checkpoint k) ∧ s₁.Tight start := by
  have hskip := h.skipTrivia_eq
  have hr' := hi.raw.trans (State.raw_of_tight ht _)
  have hwoven := State.woven_cons s s₁ start (congrArg State.built hs₁)
  have hnode : Outline.weave (.node k s'.built.reverse) (s.woven start).2.trivia.2 =
      ([.node k ⟨r.checkpoint.offset, r'.feed.offset⟩ (s'.woven r.skipTrivia.feed).1],
        r'.feed) := by
    rw [Raw.checkpoint, hr', hskip]
    rfl
  rw [hnode] at hwoven
  have htight : s₁.Tight start := by
    intro hs
    rw [hwoven, hr']
    exact ht (by rwa [hs₁] at hs)
  refine ⟨⟨?_, ?_⟩, htight⟩
  · rw [State.raw_of_tight htight, hwoven, Raw.finish_checkpoint (congrArg Raw.trees hr'),
      congrArg Raw.trees hskip]
    simp
  · rw [hs₁]
    exact hi.ahead

theorem node {body : Parser α} (h : Mirrors outer start s r)
    (hb : Ends body s.enter fun _ s' => Mirrors r.skipTrivia.trees r.skipTrivia.feed s' r' ∧
      s'.Tight r.skipTrivia.feed) (k : Kind) :
    Ends (node k body) s fun _ s' =>
      Mirrors outer start s' (r'.finish r.checkpoint k) ∧ s'.Tight start := by
  obtain ⟨a, s', hrun, hi, ht⟩ := hb
  refine ⟨a, _, ?_, h.leave hi ht rfl⟩
  rw [node_run, hrun]
  rfl

theorem since (h : Mirrors outer start s r) (h' : Mirrors outer start s' r')
    (hnew : s'.built = new ++ s.built) (hs : new = [] → s'.settled = true) :
    Mirrors r.skipTrivia.trees r.skipTrivia.feed { s' with built := new } r' := by
  refine ⟨?_, h'.ahead⟩
  have hwoven : s'.woven start = ((s.woven start).1 ++ (weaveAll new.reverse (s.woven start).2).1,
      (weaveAll new.reverse (s.woven start).2).2) := by
    rw [State.woven, hnew, List.reverse_append, Outline.weaveAll_append]
    rfl
  rw [h'.raw, h.skipTrivia_eq]
  simp only [State.raw, hwoven]
  cases hr : new.reverse with
  | nil =>
    obtain rfl := List.reverse_eq_nil_iff.mp hr
    simp [hs rfl, State.woven, weaveAll, Raw.skipTrivia_eq, Feed.trivia_trivia]
  | cons p ps => simp [State.woven, hr, weaveAll, Feed.trivia_trivia]

theorem wrap (h : Mirrors outer start s r) (h' : Mirrors outer start s' r')
    (hnew : s'.built = new ++ s.built) (hs : new = [] → s'.settled = true)
    (ht : State.Tight { s' with built := new } r.skipTrivia.feed) (k : Kind) :
    Ends (wrap k s.built.length) s' fun _ s₁ =>
      Mirrors outer start s₁ (r'.finish r.checkpoint k) ∧ s₁.Tight start := by
  refine ⟨(), _, rfl, h.leave (h.since h' hnew hs) ht ?_⟩
  simp [hnew]

theorem root (h : Mirrors [] ⟨0, tokens⟩ s r) (hs : s.ahead = []) (k : Kind) :
    .node k ⟨0, r.skipTrivia.feed.offset⟩ r.skipTrivia.trees =
      Outline.weaveRoot k s.built.reverse tokens := by
  obtain ⟨gap, ha, -⟩ := h.settle.ahead
  have hend : (s.woven ⟨0, tokens⟩).2.trivia.2.tokens = [] := by
    rcases (s.woven ⟨0, tokens⟩).2.trivia_tokens with he | ⟨t, ts, he, ht⟩
    · exact he
    · rw [State.settle_ahead, hs, h.skipTrivia_eq, he, wordsOf, if_neg (by simp [ht])] at ha
      cases ha
  have hrest : (weaveAll s.built.reverse ⟨0, tokens⟩).2.rest = _ := Feed.rest_of_trivia _ hend
  rw [h.skipTrivia_eq]
  simp only [Outline.weaveRoot, hrest]
  rfl

end Mirrors

end CppRefactor.Grammar
