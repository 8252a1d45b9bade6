import PlaceSearch.Proofs.Query.Terms

/-!
# The grammar of queries

The grammar of queries over words has four nonterminals.  A disjunction is one or more conjunctions
with `OR` between them, a conjunction one or more negations with `AND` between them, a negation any
number of `NOT` in front of a primary, and a primary a term or a disjunction in parentheses.  With
every derivation comes the expression that it reads.

The parser never looks at the grammar.  It takes the words one after the other and keeps the
finished operands of the levels that it is inside of.  What it has taken is at every moment a
beginning of a derivation: the words of the finished operands with an operator behind each, and
the negations and parentheses that are still open.
-/

namespace PlaceSearch

/-- The nonterminals of the grammar of queries. -/
inductive Nonterminal where
  | disjunction
  | conjunction
  | negation
  | primary

/-- A nonterminal derives some words, which are read as an expression.  Of the negations in front
of a primary only the parity counts, and one operand stands for itself. -/
inductive Derives : Nonterminal → List Token → Expr → Prop where
  | term (t : Term) : Derives .primary [.term t] (.atom t)
  | group {ts : List Token} {e : Expr} (h : Derives .disjunction ts e) :
      Derives .primary (.lparen :: (ts ++ [.rparen])) e
  | negation {ts : List Token} {e : Expr} (n : Nat) (h : Derives .primary ts e) :
      Derives .negation (List.replicate n .not ++ ts) (if n % 2 = 1 then .not e else e)
  | conjunction {parts : List (List Token × Expr)} (hne : parts ≠ [])
      (h : ∀ x ∈ parts, Derives .negation x.1 x.2) :
      Derives .conjunction ([Token.and].intercalate (parts.map (·.1)))
        (.conjunction (parts.map (·.2)))
  | disjunction {parts : List (List Token × Expr)} (hne : parts ≠ [])
      (h : ∀ x ∈ parts, Derives .conjunction x.1 x.2) :
      Derives .disjunction ([Token.or].intercalate (parts.map (·.1)))
        (.disjunction (parts.map (·.2)))

/-- The words of some parts, with an operator behind each. -/
def wordsBefore (op : Token) (parts : List (List Token × Expr)) : List Token :=
  parts.flatMap fun x => x.1 ++ [op]

theorem wordsBefore_concat (op : Token) (parts : List (List Token × Expr))
    (x : List Token × Expr) :
    wordsBefore op (parts ++ [x]) = wordsBefore op parts ++ x.1 ++ [op] := by
  simp [wordsBefore]

/-- The words of some parts and one more, with an operator between them. -/
theorem intercalate_concat (op : Token) (parts : List (List Token × Expr))
    (x : List Token × Expr) :
    [op].intercalate ((parts ++ [x]).map (·.1)) = wordsBefore op parts ++ x.1 := by
  induction parts with
  | nil => exact List.intercalate_singleton
  | cons y parts ih =>
    have hne : (parts ++ [x]).map (·.1) ≠ [] := by simp
    rw [List.cons_append, List.map_cons, List.intercalate_cons_of_ne_nil hne, ih]
    simp [wordsBefore]

namespace Parser

theorem steps_append (p : Parser) (ts us : List Token) :
    p.steps (ts ++ us) = (p.steps ts).bind fun q => q.steps us :=
  List.foldlM_append

theorem steps_singleton (p : Parser) (t : Token) : p.steps [t] = p.step t := by
  rw [steps_cons]
  exact Option.bind_fun_some _

/-! ## Negations -/

/-- What may come next behind some negations. -/
def needAfter (n : Nat) : Need :=
  if n = 0 then .operand else .negated (n % 2 = 1)

theorem odd_needAfter (n : Nat) : (needAfter n).odd = decide (n % 2 = 1) := by
  unfold needAfter
  split
  · next h => simp [h, Need.odd]
  · rfl

theorem step_not (around : List (Level × Bool)) (l : Level) (n : Nat) :
    step ⟨around, l, needAfter n⟩ .not = some ⟨around, l, needAfter (n + 1)⟩ := by
  have hneed : needAfter (n + 1) = .negated (!(needAfter n).odd) := by
    rw [odd_needAfter, needAfter, if_neg (Nat.succ_ne_zero n)]
    congr 1
    rw [← decide_not, decide_eq_decide]
    omega
  rw [hneed]
  unfold needAfter
  split <;> rfl

theorem steps_nots (around : List (Level × Bool)) (l : Level) (n : Nat) :
    steps ⟨around, l, .operand⟩ (List.replicate n .not) = some ⟨around, l, needAfter n⟩ := by
  induction n with
  | zero => rfl
  | succ n ih =>
    rw [List.replicate_succ', steps_append, ih, Option.bind_some, steps_singleton, step_not]

theorem step_term (around : List (Level × Bool)) (l : Level) (n : Nat) (t : Term) :
    step ⟨around, l, needAfter n⟩ (.term t) =
      some ⟨around, l.push (if n % 2 = 1 then .not (.atom t) else .atom t), .operator⟩ := by
  have hstep : step ⟨around, l, needAfter n⟩ (.term t) =
      some (take ⟨around, l, needAfter n⟩ (Need.apply (needAfter n).odd (.atom t))) := by
    unfold needAfter
    split <;> rfl
  rw [hstep, odd_needAfter, Need.apply]
  simp only [take, decide_eq_true_eq]

theorem step_lparen (around : List (Level × Bool)) (l : Level) (n : Nat) :
    step ⟨around, l, needAfter n⟩ .lparen =
      some ⟨(l, decide (n % 2 = 1)) :: around, {}, .operand⟩ := by
  rw [← odd_needAfter]
  unfold needAfter
  split <;> rfl

theorem step_rparen (around : List (Level × Bool)) (outer l : Level) (n : Nat) :
    step ⟨(outer, decide (n % 2 = 1)) :: around, l, .operator⟩ .rparen =
      some ⟨around, outer.push (if n % 2 = 1 then .not l.close else l.close), .operator⟩ := by
  have hstep : step ⟨(outer, decide (n % 2 = 1)) :: around, l, .operator⟩ .rparen =
      some (take ⟨around, outer, .operand⟩ (Need.apply (n % 2 = 1) l.close)) := rfl
  rw [hstep, Need.apply]
  simp only [take, decide_eq_true_eq]

/-! ## The parser takes the words of a derivation -/

/-- What the parser does with the words that a nonterminal derives. -/
def Reads : Nonterminal → List Token → Expr → Prop
  | .primary, ts, e => ∀ around l n,
    steps ⟨around, l, needAfter n⟩ ts =
      some ⟨around, l.push (if n % 2 = 1 then .not e else e), .operator⟩
  | .negation, ts, e => ∀ around l,
    steps ⟨around, l, .operand⟩ ts = some ⟨around, l.push e, .operator⟩
  | .conjunction, ts, e => ∀ around es, ∃ l,
    steps ⟨around, ⟨es, []⟩, .operand⟩ ts = some ⟨around, l, .operator⟩ ∧ l.turn = ⟨e :: es, []⟩
  | .disjunction, ts, e => ∀ around, ∃ l,
    steps ⟨around, {}, .operand⟩ ts = some ⟨around, l, .operator⟩ ∧ l.close = e

/-- Operands with an operator behind each are taken one after the other. -/
theorem steps_wordsBefore {op : Token} {around : List (Level × Bool)} {level : List Expr → Level}
    {parts : List (List Token × Expr)}
    (h : ∀ x ∈ parts, ∀ es, steps ⟨around, level es, .operand⟩ (x.1 ++ [op]) =
      some ⟨around, level (x.2 :: es), .operand⟩) (es : List Expr) :
    steps ⟨around, level es, .operand⟩ (wordsBefore op parts) =
      some ⟨around, level ((parts.map (·.2)).reverse ++ es), .operand⟩ := by
  induction parts generalizing es with
  | nil => rfl
  | cons x parts ih =>
    obtain ⟨hx, hparts⟩ := List.forall_mem_cons.mp h
    rw [wordsBefore, List.flatMap_cons, steps_append, hx, Option.bind_some, ← wordsBefore,
      ih hparts, List.map_cons, List.reverse_cons, List.append_assoc, List.singleton_append]

/-- The parser takes the words of a derivation, and reads them as the derivation does. -/
theorem reads_of_derives {n : Nonterminal} {ts : List Token} {e : Expr} (h : Derives n ts e) :
    Reads n ts e := by
  induction h with
  | term t =>
    intro around l n
    rw [steps_singleton, step_term]
  | group _ ih =>
    intro around l n
    obtain ⟨l', hsteps, hclose⟩ := ih ((l, decide (n % 2 = 1)) :: around)
    rw [steps_cons, step_lparen, Option.bind_some, steps_append, hsteps, Option.bind_some,
      steps_singleton, step_rparen, hclose]
  | negation n _ ih =>
    intro around l
    rw [steps_append, steps_nots, Option.bind_some, ih]
  | @conjunction parts hne _ ih =>
    intro around es
    obtain ⟨init, x, rfl⟩ : ∃ init x, parts = init ++ [x] :=
      ⟨_, _, (List.dropLast_concat_getLast hne).symm⟩
    have hpush : ∀ y ∈ init, ∀ os, steps ⟨around, ⟨es, os⟩, .operand⟩ (y.1 ++ [Token.and]) =
        some ⟨around, ⟨es, y.2 :: os⟩, .operand⟩ := by
      intro y hy os
      rw [steps_append, ih y (List.mem_append_left _ hy), Option.bind_some, steps_singleton]
      rfl
    have hinit := steps_wordsBefore hpush []
    have hx := ih x (by simp) around
    rw [intercalate_concat, steps_append, hinit, Option.bind_some, hx]
    refine ⟨_, rfl, ?_⟩
    simp [Level.turn, Level.push]
  | @disjunction parts hne _ ih =>
    intro around
    obtain ⟨init, x, rfl⟩ : ∃ init x, parts = init ++ [x] :=
      ⟨_, _, (List.dropLast_concat_getLast hne).symm⟩
    have hturn : ∀ y ∈ init, ∀ es, steps ⟨around, ⟨es, []⟩, .operand⟩ (y.1 ++ [Token.or]) =
        some ⟨around, ⟨y.2 :: es, []⟩, .operand⟩ := by
      intro y hy es
      obtain ⟨l, hsteps, hl⟩ := ih y (List.mem_append_left _ hy) around es
      rw [steps_append, hsteps, Option.bind_some, steps_singleton, ← hl]
      rfl
    have hinit : steps ⟨around, {}, .operand⟩ (wordsBefore .or init) =
        some ⟨around, ⟨(init.map (·.2)).reverse ++ [], []⟩, .operand⟩ :=
      steps_wordsBefore hturn []
    obtain ⟨l, hsteps, hl⟩ := ih x (by simp) around ((init.map (·.2)).reverse ++ [])
    refine ⟨l, ?_, ?_⟩
    · rw [intercalate_concat, steps_append, hinit, Option.bind_some, hsteps]
    · rw [Level.close, hl]
      simp

end Parser

/-! ## What the parser takes begins a derivation -/

/-- The finished operands and one more make a conjunction. -/
theorem Derives.conjunction_concat {parts : List (List Token × Expr)} {ts : List Token} {e : Expr}
    (h : ∀ x ∈ parts, Derives .negation x.1 x.2) (he : Derives .negation ts e) :
    Derives .conjunction (wordsBefore .and parts ++ ts)
      (.conjunction (parts.map (·.2) ++ [e])) := by
  have hall : ∀ x ∈ parts ++ [(ts, e)], Derives .negation x.1 x.2 :=
    List.forall_mem_append.mpr ⟨h, List.forall_mem_singleton.mpr he⟩
  have hne : parts ++ [(ts, e)] ≠ [] := by simp
  have hderives := Derives.conjunction hne hall
  rwa [intercalate_concat, List.map_append] at hderives

/-- The finished alternatives and one more make a disjunction. -/
theorem Derives.disjunction_concat {parts : List (List Token × Expr)} {ts : List Token} {e : Expr}
    (h : ∀ x ∈ parts, Derives .conjunction x.1 x.2) (he : Derives .conjunction ts e) :
    Derives .disjunction (wordsBefore .or parts ++ ts)
      (.disjunction (parts.map (·.2) ++ [e])) := by
  have hall : ∀ x ∈ parts ++ [(ts, e)], Derives .conjunction x.1 x.2 :=
    List.forall_mem_append.mpr ⟨h, List.forall_mem_singleton.mpr he⟩
  have hne : parts ++ [(ts, e)] ≠ [] := by simp
  have hderives := Derives.disjunction hne hall
  rwa [intercalate_concat, List.map_append] at hderives

namespace Level

/-- The words of the finished operands of a level, with an operator behind each: first those of
the alternatives, then those of the conjunction that follows them. -/
def Holds (l : Level) (ts : List Token) : Prop :=
  ∃ as os : List (List Token × Expr),
    (∀ x ∈ as, Derives .conjunction x.1 x.2) ∧ (∀ x ∈ os, Derives .negation x.1 x.2) ∧
      l = ⟨(as.map (·.2)).reverse, (os.map (·.2)).reverse⟩ ∧
        ts = wordsBefore .or as ++ wordsBefore .and os

theorem holds_empty : Holds {} [] :=
  ⟨[], [], nofun, nofun, rfl, rfl⟩

variable {l : Level} {ts us : List Token} {e : Expr}

theorem Holds.push (h : l.Holds ts) (he : Derives .negation us e) :
    (l.push e).Holds (ts ++ us ++ [.and]) := by
  obtain ⟨as, os, has, hos, rfl, rfl⟩ := h
  refine ⟨as, os ++ [(us, e)], has, ?_, ?_, ?_⟩
  · exact List.forall_mem_append.mpr ⟨hos, List.forall_mem_singleton.mpr he⟩
  · simp [Level.push]
  · simp [wordsBefore_concat]

theorem Holds.turn (h : l.Holds ts) (he : Derives .negation us e) :
    (l.push e).turn.Holds (ts ++ us ++ [.or]) := by
  obtain ⟨as, os, has, hos, rfl, rfl⟩ := h
  have hconjunction := Derives.conjunction_concat hos he
  refine ⟨as ++ [(wordsBefore .and os ++ us, .conjunction (os.map (·.2) ++ [e]))], [], ?_, nofun,
    ?_, ?_⟩
  · exact List.forall_mem_append.mpr ⟨has, List.forall_mem_singleton.mpr hconjunction⟩
  · simp [Level.turn, Level.push]
  · simp [wordsBefore]

/-- A level that ends with an operand is a disjunction. -/
theorem Holds.close (h : l.Holds ts) (he : Derives .negation us e) :
    Derives .disjunction (ts ++ us) (l.push e).close := by
  obtain ⟨as, os, has, hos, rfl, rfl⟩ := h
  have hdisjunction := Derives.disjunction_concat has (Derives.conjunction_concat hos he)
  simpa [Level.close, Level.turn, Level.push] using hdisjunction

end Level

namespace Parser

/-- The words that the levels around the innermost one hold, each of them up to the parenthesis
that it is left by. -/
inductive Around : List (Level × Bool) → List Token → Prop where
  | nil : Around [] []
  | cons {around : List (Level × Bool)} {l : Level} {ts us : List Token} (n : Nat)
      (h : Around around ts) (hl : l.Holds us) :
      Around ((l, decide (n % 2 = 1)) :: around)
        (ts ++ us ++ (List.replicate n .not ++ [.lparen]))

/-- The words that a parser has taken: those of its levels, and then either some negations or a
finished operand. -/
inductive Reaches : List Token → Parser → Prop where
  | operand {around : List (Level × Bool)} {l : Level} {ts us : List Token} (n : Nat)
      (h : Around around ts) (hl : l.Holds us) :
      Reaches (ts ++ us ++ List.replicate n .not) ⟨around, l, needAfter n⟩
  | operator {around : List (Level × Bool)} {l : Level} {ts us vs : List Token} {e : Expr}
      (h : Around around ts) (hl : l.Holds us) (he : Derives .negation vs e) :
      Reaches (ts ++ us ++ vs) ⟨around, l.push e, .operator⟩

theorem reaches_empty : Reaches [] {} :=
  .operand 0 .nil Level.holds_empty

/-- Behind negations no operator can stand, and no closing parenthesis. -/
theorem step_needAfter_eq_none {around : List (Level × Bool)} {l : Level} {n : Nat} {t : Token}
    (ht : t = .and ∨ t = .or ∨ t = .rparen) : step ⟨around, l, needAfter n⟩ t = none := by
  unfold needAfter
  rcases ht with rfl | rfl | rfl <;> split <;> rfl

/-- One more word goes on with what was begun. -/
theorem Reaches.step {p q : Parser} {ts : List Token} {t : Token} (h : Reaches ts p)
    (hstep : p.step t = some q) : Reaches (ts ++ [t]) q := by
  cases h with
  | @operand around l ts us n h hl =>
    cases t with
    | term u =>
      rw [step_term] at hstep
      obtain rfl := Option.some.inj hstep
      rw [List.append_assoc]
      exact .operator h hl (.negation n (.term u))
    | not =>
      rw [step_not] at hstep
      obtain rfl := Option.some.inj hstep
      rw [List.append_assoc, ← List.replicate_succ']
      exact .operand (n + 1) h hl
    | lparen =>
      rw [step_lparen] at hstep
      obtain rfl := Option.some.inj hstep
      rw [List.append_assoc, ← List.append_nil (ts ++ us ++ _), ← List.append_nil (_ ++ [])]
      exact .operand 0 (.cons n h hl) Level.holds_empty
    | _ =>
      rw [step_needAfter_eq_none (by simp)] at hstep
      cases hstep
  | @operator around l ts us vs e h hl he =>
    cases t with
    | and =>
      obtain rfl := Option.some.inj hstep
      rw [List.append_assoc, List.append_assoc, ← List.append_assoc us, ← List.append_nil (ts ++ _)]
      exact .operand 0 h (hl.push he)
    | or =>
      obtain rfl := Option.some.inj hstep
      rw [List.append_assoc, List.append_assoc, ← List.append_assoc us, ← List.append_nil (ts ++ _)]
      exact .operand 0 h (hl.turn he)
    | rparen =>
      cases h with
      | nil => cases hstep
      | @cons around outer ts us' n h houter =>
        rw [step_rparen] at hstep
        obtain rfl := Option.some.inj hstep
        have hgroup := Derives.negation n (.group (hl.close he))
        have hwords : ts ++ us' ++ (List.replicate n .not ++ [.lparen]) ++ us ++ vs ++ [.rparen] =
            ts ++ us' ++ (List.replicate n .not ++ .lparen :: (us ++ vs ++ [.rparen])) := by
          simp
        rw [hwords]
        exact .operator h houter hgroup
    | _ => cases hstep

theorem Reaches.steps {p q : Parser} {ts us : List Token} (h : Reaches ts p)
    (hsteps : p.steps us = some q) : Reaches (ts ++ us) q := by
  induction us generalizing p ts with
  | nil =>
    obtain rfl := Option.some.inj hsteps
    rwa [List.append_nil]
  | cons u us ih =>
    rw [steps_cons] at hsteps
    obtain ⟨p', hstep, hrest⟩ := Option.bind_eq_some_iff.mp hsteps
    rw [← List.singleton_append, ← List.append_assoc]
    exact ih (h.step hstep) hrest

theorem Reaches.derives {p : Parser} {ts : List Token} {e : Expr} (h : Reaches ts p)
    (hfinish : p.finish? = some e) : Derives .disjunction ts e := by
  cases h with
  | operand n _ _ =>
    unfold needAfter at hfinish
    split at hfinish <;> cases hfinish
  | @operator around l ts us vs e' h hl he =>
    cases h with
    | nil =>
      obtain rfl := Option.some.inj hfinish
      exact hl.close he
    | cons => cases hfinish

/-- Words read an expression iff the grammar derives them and reads them so. -/
theorem read?_eq_some_iff {ts : List Token} {e : Expr} :
    read? ts = some e ↔ Derives .disjunction ts e := by
  constructor
  · intro h
    obtain ⟨p, hsteps, hfinish⟩ := Option.bind_eq_some_iff.mp h
    exact (reaches_empty.steps hsteps).derives hfinish
  · intro h
    obtain ⟨l, hsteps, rfl⟩ := reads_of_derives h []
    rw [read?, hsteps]
    rfl

end Parser

/-! ## Phrases of blanks only -/

theorem Token.isBlankPhrase_ofPhrase {w : List Char} :
    (ofPhrase w).isBlankPhrase = true ↔ ∀ c ∈ w, Text.isBlank c = true := by
  rw [ofPhrase, isBlankPhrase, Term.phrase, String.isEmpty_iff, Text.lower_eq_empty_iff,
    Text.trim_eq_empty_iff, String.toList_ofList]

end PlaceSearch
