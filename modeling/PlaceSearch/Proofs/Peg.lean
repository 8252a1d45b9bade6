import Mathlib.Data.List.Basic

/-!
# Parsing expressions

A grammar of parsing expressions reads a text from left to right, one character after the other.  A
choice tries its ways in order and keeps to the first one that succeeds, a repetition goes on for as
long as it can, and a look ahead takes nothing.  What is read is told by pairs: a rule, the text
that it has taken, and the pairs of the rules inside it.

In a plain rule blanks may stand between the parts of a sequence and of a repetition, without being
written down.  An atomic rule takes none, neither do the rules that it calls, and of these no pairs
are made; a compound rule takes none and makes the pairs.  A silent rule makes no pair of its own
and is read as the rule that calls it.

What an expression does is a relation between a text and an outcome, a success or a failure.  A text
has at most one outcome, since each way to go on is taken only where those before it fail.
-/

namespace PlaceSearch.Peg

/-- How a rule is read. -/
inductive Kind where
  | plain
  | silent
  | atomic
  | compound
deriving DecidableEq

/-- Whether blanks are taken and pairs are made: both in a plain rule, neither in an atomic one, and
only pairs in a compound one. -/
inductive Mode where
  | plain
  | atomic
  | compound
deriving DecidableEq

/-- A parsing expression: `one` takes a single character of a class, `word` a word in any letter
case, `rule` what a rule takes.  `again a` goes on with a repetition of `a` that has begun. -/
inductive Exp (R : Type) where
  | empty
  | start
  | finish
  | one (p : Char → Bool)
  | word (w : List Char)
  | rule (r : R)
  | seq (a b : Exp R)
  | choice (a b : Exp R)
  | star (a : Exp R)
  | again (a : Exp R)
  | not (a : Exp R)

/-- What a rule has taken, with the pairs of the rules inside it. -/
inductive Pair (R : Type) where
  | mk (rule : R) (text : List Char) (inner : List (Pair R))

/-- The rules of a grammar, and the one that takes a blank. -/
structure Grammar (R : Type) where
  kind : R → Kind
  body : R → Exp R
  blank : R

variable {R : Type}

namespace Exp

/-- A certain character. -/
def char (c : Char) : Exp R :=
  .one (· == c)

/-- One or more of an expression. -/
def plus (a : Exp R) : Exp R :=
  .seq a (.star a)

end Exp

/-- How the body of a rule is read that is called in some mode. -/
def Kind.mode : Kind → Mode → Mode
  | .plain, m => m
  | .silent, m => m
  | .atomic, _ => .atomic
  | .compound, _ => .compound

/-- Whether a rule makes a pair that is called in some mode. -/
def Kind.shows : Kind → Mode → Bool
  | .silent, _ => false
  | .compound, _ => true
  | _, m => m != .atomic

namespace Grammar

variable (g : Grammar R)

/-- The pairs of a rule that has taken a text. -/
def pairs (m : Mode) (r : R) (text : List Char) (inner : List (Pair R)) : List (Pair R) :=
  if (g.kind r).shows m then [.mk r text inner] else inner

/-- What may stand between two parts: blanks in a plain rule. -/
def skip : Mode → Exp R
  | .plain => .star (.rule g.blank)
  | _ => .empty

end Grammar

/-- A failure, or the pairs of what was taken and the text behind it. -/
abbrev Outcome (R : Type) := Option (List (Pair R) × List Char)

/-- What an expression does in the text `s`, from the rest `cs` on. -/
inductive Yields (g : Grammar R) (s : List Char) :
    Mode → Exp R → List Char → Outcome R → Prop where
  | empty {m cs} : Yields g s m .empty cs (some ([], cs))
  | start {m cs} (h : cs = s) : Yields g s m .start cs (some ([], cs))
  | start_fail {m cs} (h : cs ≠ s) : Yields g s m .start cs none
  | finish {m} : Yields g s m .finish [] (some ([], []))
  | finish_fail {m c cs} : Yields g s m .finish (c :: cs) none
  | one {m p c cs} (h : p c = true) : Yields g s m (.one p) (c :: cs) (some ([], cs))
  | one_fail {m p cs} (h : ∀ c ∈ cs.head?, p c = false) : Yields g s m (.one p) cs none
  | word {m v w cs cs'} (hcs : cs = v ++ cs') (h : v.map Char.toLower = w) :
    Yields g s m (.word w) cs (some ([], cs'))
  | word_fail {m w cs} (h : (cs.take w.length).map Char.toLower ≠ w) :
    Yields g s m (.word w) cs none
  | rule {m r text ps cs cs'} (hcs : cs = text ++ cs')
      (h : Yields g s ((g.kind r).mode m) (g.body r) cs (some (ps, cs'))) :
    Yields g s m (.rule r) cs (some (g.pairs m r text ps, cs'))
  | rule_fail {m r cs} (h : Yields g s ((g.kind r).mode m) (g.body r) cs none) :
    Yields g s m (.rule r) cs none
  | seq {m a b cs cs₁ cs₂ cs₃ ps qs rs} (ha : Yields g s m a cs (some (ps, cs₁)))
      (hskip : Yields g s .atomic (g.skip m) cs₁ (some (qs, cs₂)))
      (hb : Yields g s m b cs₂ (some (rs, cs₃))) :
    Yields g s m (.seq a b) cs (some (ps ++ rs, cs₃))
  | seq_fail_left {m a b cs} (ha : Yields g s m a cs none) : Yields g s m (.seq a b) cs none
  | seq_fail_right {m a b cs cs₁ cs₂ ps qs} (ha : Yields g s m a cs (some (ps, cs₁)))
      (hskip : Yields g s .atomic (g.skip m) cs₁ (some (qs, cs₂)))
      (hb : Yields g s m b cs₂ none) :
    Yields g s m (.seq a b) cs none
  | choice_left {m a b cs r} (ha : Yields g s m a cs (some r)) :
    Yields g s m (.choice a b) cs (some r)
  | choice_right {m a b cs o} (ha : Yields g s m a cs none) (hb : Yields g s m b cs o) :
    Yields g s m (.choice a b) cs o
  | star_none {m a cs} (ha : Yields g s m a cs none) : Yields g s m (.star a) cs (some ([], cs))
  | star_some {m a cs cs₁ cs₂ ps qs} (ha : Yields g s m a cs (some (ps, cs₁)))
      (hagain : Yields g s m (.again a) cs₁ (some (qs, cs₂))) :
    Yields g s m (.star a) cs (some (ps ++ qs, cs₂))
  | again_none {m a cs cs₁ qs} (hskip : Yields g s .atomic (g.skip m) cs (some (qs, cs₁)))
      (ha : Yields g s m a cs₁ none) :
    Yields g s m (.again a) cs (some ([], cs))
  | again_some {m a cs cs₁ cs₂ cs₃ ps qs rs}
      (hskip : Yields g s .atomic (g.skip m) cs (some (qs, cs₁)))
      (ha : Yields g s m a cs₁ (some (ps, cs₂)))
      (hagain : Yields g s m (.again a) cs₂ (some (rs, cs₃))) :
    Yields g s m (.again a) cs (some (ps ++ rs, cs₃))
  | not {m a cs} (ha : Yields g s m a cs none) : Yields g s m (.not a) cs (some ([], cs))
  | not_fail {m a cs r} (ha : Yields g s m a cs (some r)) : Yields g s m (.not a) cs none

namespace Yields

variable {g : Grammar R} {s : List Char} {m : Mode} {e a b : Exp R} {cs cs' : List Char}
  {ps : List (Pair R)} {o o' : Outcome R}

theorem word_unique {v v' w cs₁ cs₂ : List Char} (hcs : v ++ cs₁ = v' ++ cs₂)
    (h : v.map Char.toLower = w) (h' : v'.map Char.toLower = w) : cs₁ = cs₂ := by
  have hlength : v.length = v'.length := by
    rw [← List.length_map (f := Char.toLower), h, ← h', List.length_map]
  exact (List.append_inj hcs hlength).2

theorem not_word_fail {v w : List Char} (h : v.map Char.toLower = w) (cs : List Char) :
    ((v ++ cs).take w.length).map Char.toLower = w := by
  rw [← h, List.length_map, List.take_left']
  rfl

/-- A text has at most one outcome. -/
theorem unique (h : Yields g s m e cs o) (h' : Yields g s m e cs o') : o = o' := by
  induction h generalizing o' with
  | empty =>
    cases h'
    rfl
  | start h =>
    cases h' with
    | start => rfl
    | start_fail hne => exact absurd h hne
  | start_fail hne =>
    cases h' with
    | start h => exact absurd h hne
    | start_fail => rfl
  | finish =>
    cases h'
    rfl
  | finish_fail =>
    cases h'
    rfl
  | one h =>
    cases h' with
    | one => rfl
    | one_fail hnone =>
      rw [hnone _ rfl] at h
      cases h
  | one_fail hnone =>
    cases h' with
    | one h =>
      rw [hnone _ rfl] at h
      cases h
    | one_fail => rfl
  | word hcs h =>
    subst hcs
    cases h' with
    | word hcs' h' => rw [word_unique hcs' h h']
    | word_fail hne => exact absurd (not_word_fail h _) hne
  | word_fail hne =>
    cases h' with
    | word hcs h =>
      subst hcs
      exact absurd (not_word_fail h _) hne
    | word_fail => rfl
  | rule hcs _ ih =>
    cases h' with
    | rule hcs' h' =>
      obtain ⟨rfl, rfl⟩ := Prod.mk.inj (Option.some.inj (ih h'))
      rw [List.append_cancel_right (hcs.symm.trans hcs')]
    | rule_fail h' => cases ih h'
  | rule_fail _ ih =>
    cases h' with
    | rule _ h' => cases ih h'
    | rule_fail => rfl
  | seq _ _ _ iha ihskip ihb =>
    cases h' with
    | seq ha hskip hb =>
      obtain ⟨rfl, rfl⟩ := Prod.mk.inj (Option.some.inj (iha ha))
      obtain ⟨-, rfl⟩ := Prod.mk.inj (Option.some.inj (ihskip hskip))
      obtain ⟨rfl, rfl⟩ := Prod.mk.inj (Option.some.inj (ihb hb))
      rfl
    | seq_fail_left ha => cases iha ha
    | seq_fail_right ha hskip hb =>
      obtain ⟨-, rfl⟩ := Prod.mk.inj (Option.some.inj (iha ha))
      obtain ⟨-, rfl⟩ := Prod.mk.inj (Option.some.inj (ihskip hskip))
      cases ihb hb
  | seq_fail_left _ iha =>
    cases h' with
    | seq ha => cases iha ha
    | seq_fail_left => rfl
    | seq_fail_right => rfl
  | seq_fail_right _ _ _ iha ihskip ihb =>
    cases h' with
    | seq ha hskip hb =>
      obtain ⟨-, rfl⟩ := Prod.mk.inj (Option.some.inj (iha ha))
      obtain ⟨-, rfl⟩ := Prod.mk.inj (Option.some.inj (ihskip hskip))
      cases ihb hb
    | seq_fail_left => rfl
    | seq_fail_right => rfl
  | choice_left _ iha =>
    cases h' with
    | choice_left ha => exact iha ha
    | choice_right ha => cases iha ha
  | choice_right _ _ iha ihb =>
    cases h' with
    | choice_left ha => cases iha ha
    | choice_right _ hb => exact ihb hb
  | star_none _ iha =>
    cases h' with
    | star_none => rfl
    | star_some ha => cases iha ha
  | star_some _ _ iha ihagain =>
    cases h' with
    | star_none ha => cases iha ha
    | star_some ha hagain =>
      obtain ⟨rfl, rfl⟩ := Prod.mk.inj (Option.some.inj (iha ha))
      obtain ⟨rfl, rfl⟩ := Prod.mk.inj (Option.some.inj (ihagain hagain))
      rfl
  | again_none _ _ ihskip iha =>
    cases h' with
    | again_none => rfl
    | again_some hskip ha =>
      obtain ⟨-, rfl⟩ := Prod.mk.inj (Option.some.inj (ihskip hskip))
      cases iha ha
  | again_some _ _ _ ihskip iha ihagain =>
    cases h' with
    | again_none hskip ha =>
      obtain ⟨-, rfl⟩ := Prod.mk.inj (Option.some.inj (ihskip hskip))
      cases iha ha
    | again_some hskip ha hagain =>
      obtain ⟨-, rfl⟩ := Prod.mk.inj (Option.some.inj (ihskip hskip))
      obtain ⟨rfl, rfl⟩ := Prod.mk.inj (Option.some.inj (iha ha))
      obtain ⟨rfl, rfl⟩ := Prod.mk.inj (Option.some.inj (ihagain hagain))
      rfl
  | not _ ih =>
    cases h' with
    | not => rfl
    | not_fail ha => cases ih ha
  | not_fail _ ih =>
    cases h' with
    | not ha => cases ih ha
    | not_fail => rfl

/-- What is left is the end of the text. -/
theorem suffix (h : Yields g s m e cs (some (ps, cs'))) : cs' <:+ cs := by
  generalize ho : some (ps, cs') = o at h
  induction h generalizing ps cs' with
  | start_fail | finish_fail | one_fail | word_fail | rule_fail | seq_fail_left | seq_fail_right
    | not_fail => cases ho
  | empty | start | finish | star_none | again_none | not =>
    cases ho
    exact List.suffix_refl _
  | one =>
    cases ho
    exact List.suffix_cons _ _
  | word hcs =>
    cases ho
    exact hcs ▸ List.suffix_append _ _
  | rule hcs =>
    cases ho
    exact hcs ▸ List.suffix_append _ _
  | seq _ _ _ iha ihskip ihb =>
    cases ho
    exact (ihb rfl).trans ((ihskip rfl).trans (iha rfl))
  | choice_left _ iha => exact iha ho
  | choice_right _ _ _ ihb => exact ihb ho
  | star_some _ _ iha ihagain =>
    cases ho
    exact (ihagain rfl).trans (iha rfl)
  | again_some _ _ _ ihskip iha ihagain =>
    cases ho
    exact (ihagain rfl).trans ((iha rfl).trans (ihskip rfl))

/-- A repetition that has begun goes on by one part after the other, until one fails. -/
theorem again_induction {motive : List Char → List (Pair R) → List Char → Prop}
    (stop : ∀ {cs cs₁ qs}, Yields g s .atomic (g.skip m) cs (some (qs, cs₁)) →
      Yields g s m a cs₁ none → motive cs [] cs)
    (next : ∀ {cs cs₁ cs₂ cs₃ ps qs rs}, Yields g s .atomic (g.skip m) cs (some (qs, cs₁)) →
      Yields g s m a cs₁ (some (ps, cs₂)) → motive cs₂ rs cs₃ → motive cs (ps ++ rs) cs₃)
    (h : Yields g s m (.again a) cs (some (ps, cs'))) : motive cs ps cs' := by
  generalize ho : some (ps, cs') = o at h
  generalize he : Exp.again a = e at h
  induction h generalizing ps cs' with
  | again_none hskip ha =>
    cases ho
    cases he
    exact stop hskip ha
  | again_some hskip ha _ _ _ ih =>
    cases ho
    cases he
    exact next hskip ha (ih stop next rfl rfl)
  | _ => cases he

/-! ## Characters of a class -/

theorem char (m : Mode) (c : Char) (cs : List Char) :
    Yields g s m (.char c) (c :: cs) (some ([], cs)) :=
  .one (beq_self_eq_true c)

theorem char_fail (m : Mode) {c : Char} (h : ∀ d ∈ cs.head?, d ≠ c) :
    Yields g s m (.char c) cs none :=
  .one_fail fun d hd => beq_false_of_ne (h d hd)

variable {p : Char → Bool}

/-- A repetition of a single character takes all characters of its class. -/
theorem star_of_class (htake : ∀ c cs, p c = true → Yields g s .atomic a (c :: cs) (some ([], cs)))
    (hstop : ∀ cs : List Char, (∀ c ∈ cs.head?, p c = false) → Yields g s .atomic a cs none)
    (cs : List Char) : Yields g s .atomic (.star a) cs (some ([], cs.dropWhile p)) := by
  have hagain : ∀ cs, Yields g s .atomic (.again a) cs (some ([], cs.dropWhile p)) := by
    intro cs
    induction cs with
    | nil => exact .again_none .empty (hstop [] nofun)
    | cons c cs ih =>
      cases hc : p c with
      | true =>
        rw [List.dropWhile_cons_of_pos hc]
        exact .again_some .empty (htake c cs hc) ih
      | false =>
        rw [List.dropWhile_cons_of_neg (by simp [hc])]
        exact .again_none .empty (hstop _ (by simpa using hc))
  cases cs with
  | nil => exact .star_none (hstop [] nofun)
  | cons c cs =>
    cases hc : p c with
    | true =>
      rw [List.dropWhile_cons_of_pos hc]
      exact .star_some (htake c cs hc) (hagain cs)
    | false =>
      rw [List.dropWhile_cons_of_neg (by simp [hc])]
      exact .star_none (hstop _ (by simpa using hc))

theorem plus_of_class (htake : ∀ c cs, p c = true → Yields g s .atomic a (c :: cs) (some ([], cs)))
    (hstop : ∀ cs : List Char, (∀ c ∈ cs.head?, p c = false) → Yields g s .atomic a cs none)
    {c : Char} (hc : p c = true) (cs : List Char) :
    Yields g s .atomic (.plus a) (c :: cs) (some ([], cs.dropWhile p)) :=
  .seq (htake c cs hc) .empty (star_of_class htake hstop cs)

end Yields

end PlaceSearch.Peg
