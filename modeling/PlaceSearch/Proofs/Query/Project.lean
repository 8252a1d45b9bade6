import PlaceSearch.Proofs.Query.Parse

/-!
# Projecting a query

The projection of an expression to one kind of terms forgets the terms of the other kind, and
with them every negation, conjunction and disjunction that nothing is left of.  Pieces are read
as words are, with operands that may be removed.  Reading the pieces of a query gives the
projection of what the query reads, and on words alone both ways of reading agree.

## Main definitions

* `Expr.project kind e` — what is left of `e` for one kind of terms.
* `Parser.readPieces? ps` — what some pieces read.
-/

namespace PlaceSearch

namespace Expr

/-- The conjunction of the operands that are left, if any. -/
def conjunction? (es : List Expr) : Option Expr :=
  if es = [] then none else some (conjunction es)

/-- The disjunction of the operands that are left, if any. -/
def disjunction? (es : List Expr) : Option Expr :=
  if es = [] then none else some (disjunction es)

mutual

/-- What is left of an expression without the terms of the other kind: a negation goes with its
operand, one operand that is left stands for the list, and a list goes with its last operand. -/
def project (kind : TermKind) : Expr → Option Expr
  | .atom t => if t.kind = kind then some (.atom t) else none
  | .not e => (project kind e).map .not
  | .and es => conjunction? (projectAll kind es)
  | .or es => disjunction? (projectAll kind es)

/-- What is left of some operands. -/
def projectAll (kind : TermKind) : List Expr → List Expr
  | [] => []
  | e :: es => (project kind e).toList ++ projectAll kind es

end

theorem projectAll_eq (kind : TermKind) (es : List Expr) :
    projectAll kind es = es.filterMap (project kind) := by
  induction es with
  | nil => rfl
  | cons e es ih =>
    rw [projectAll, ih, List.filterMap_cons]
    cases project kind e <;> rfl

theorem project_conjunction (kind : TermKind) (es : List Expr) :
    (conjunction es).project kind = conjunction? (es.filterMap (project kind)) := by
  unfold conjunction
  split
  · next e =>
    rw [List.filterMap_cons]
    cases e.project kind <;> rfl
  · rw [project, projectAll_eq]

theorem project_disjunction (kind : TermKind) (es : List Expr) :
    (disjunction es).project kind = disjunction? (es.filterMap (project kind)) := by
  unfold disjunction
  split
  · next e =>
    rw [List.filterMap_cons]
    cases e.project kind <;> rfl
  · rw [project, projectAll_eq]

theorem project_apply (kind : TermKind) (odd : Bool) (e : Expr) :
    (Need.apply odd e).project kind = (e.project kind).map (Need.apply odd) := by
  cases odd with
  | false => exact Option.map_id'.symm
  | true => rfl

end Expr

/-! ## Reading pieces -/

namespace Level

/-- The level after its conjunction was finished, if anything is left of it. -/
def turn? (l : Level) : Level :=
  if l.operands = [] then l else l.turn

/-- What is left of a finished level. -/
def close? (l : Level) : Option Expr :=
  Expr.disjunction? l.turn?.alternatives.reverse

/-- The level with one more operand, if anything is left of it. -/
def push? (l : Level) : Option Expr → Level
  | some e => l.push e
  | none => l

/-- What is left of a level. -/
def project (kind : TermKind) (l : Level) : Level :=
  ⟨l.alternatives.filterMap (·.project kind), l.operands.filterMap (·.project kind)⟩

theorem project_push (kind : TermKind) (l : Level) (e : Expr) :
    (l.push e).project kind = (l.project kind).push? (e.project kind) := by
  rw [project, push, List.filterMap_cons]
  cases e.project kind <;> rfl

theorem project_turn (kind : TermKind) (l : Level) :
    l.turn.project kind = (l.project kind).turn? := by
  rw [project, turn, List.filterMap_cons, Expr.project_conjunction, List.filterMap_reverse, turn?,
    Expr.conjunction?]
  by_cases hnil : l.operands.filterMap (·.project kind) = []
  · simp [project, hnil]
  · rw [if_neg (mt List.reverse_eq_nil_iff.mp hnil), if_neg (by exact hnil)]
    rfl

theorem close?_project (kind : TermKind) (l : Level) :
    (l.project kind).close? = l.close.project kind := by
  rw [close?, ← project_turn, close, Expr.project_disjunction, List.filterMap_reverse]
  rfl

theorem turn?_eq_turn {l : Level} (h : l.operands ≠ []) : l.turn? = l.turn :=
  if_neg h

theorem close?_eq_close {l : Level} (h : l.operands ≠ []) : l.close? = some l.close := by
  rw [close?, turn?_eq_turn h, Expr.disjunction?, if_neg (by simp [turn]), close]

end Level

namespace Parser

/-- The parser after an operand of which something may be left. -/
def take? (p : Parser) (e : Option Expr) : Parser :=
  { p with level := p.level.push? e, need := .operator }

/-- The parser after one more piece, or nothing if the piece cannot stand here.  Removed
operands leave no trace in their level. -/
def stepPiece (p : Parser) : Piece → Option Parser
  | .removed => if p.need = .operator then none else some (p.take? none)
  | .word .or =>
    if p.need = .operator then some { p with level := p.level.turn?, need := .operand } else none
  | .word .rparen =>
    match p.need, p.around with
    | .operator, (l, odd) :: around =>
      some (take? ⟨around, l, .operand⟩ (p.level.close?.map (Need.apply odd)))
    | _, _ => none
  | .word t => p.step t

/-- The parser after some pieces, if each can stand where it does. -/
def stepPieces (p : Parser) (ps : List Piece) : Option Parser :=
  ps.foldlM stepPiece p

/-- What is left of a query that ends here. -/
def finishPieces? (p : Parser) : Option (Option Expr) :=
  match p.need, p.around with
  | .operator, [] => some p.level.close?
  | _, _ => none

/-- What a parser and some more pieces read: nothing if they are not built as a query is, else
what is left of it. -/
def readFrom? (p : Parser) (ps : List Piece) : Option (Option Expr) :=
  (p.stepPieces ps).bind finishPieces?

/-- What some pieces read. -/
def readPieces? (ps : List Piece) : Option (Option Expr) :=
  readFrom? {} ps

/-! ## The pieces of a query -/

/-- What is left of what a parser has read. -/
def project (kind : TermKind) (p : Parser) : Parser :=
  ⟨p.around.map fun (l, odd) => (l.project kind, odd), p.level.project kind, p.need⟩

theorem project_take (kind : TermKind) (p : Parser) (e : Expr) :
    (p.take e).project kind = (p.project kind).take? (e.project kind) := by
  simp only [project, take, take?, Level.project_push]

theorem stepPiece_removed (p : Parser) :
    p.stepPiece .removed = if p.need = .operator then none else some (p.take? none) :=
  rfl

theorem stepPiece_or (p : Parser) :
    p.stepPiece (.word .or) =
      if p.need = .operator then some { p with level := p.level.turn?, need := .operand }
      else none :=
  rfl

/-- Reading a piece keeps step with reading its word. -/
theorem stepPiece_keep (kind : TermKind) {p q : Parser} {t : Token} (h : p.step t = some q) :
    (p.project kind).stepPiece (.keep kind t) = some (q.project kind) := by
  obtain ⟨around, level, need⟩ := p
  cases t with
  | and =>
    cases need <;> simp only [step, reduceCtorEq, Option.some.injEq] at h
    subst h
    rfl
  | or =>
    cases need <;> simp only [step, reduceCtorEq, Option.some.injEq] at h
    subst h
    simp [Piece.keep, stepPiece_or, project, Level.project_turn]
  | not =>
    cases need <;> simp only [step, reduceCtorEq, Option.some.injEq] at h
    all_goals
      subst h
      rfl
  | lparen =>
    cases need <;> simp only [step, reduceCtorEq, Option.some.injEq] at h
    all_goals
      subst h
      rfl
  | rparen =>
    cases need <;> cases around <;> simp only [step, reduceCtorEq, Option.some.injEq] at h
    next outer around =>
      subst h
      rw [project_take, Expr.project_apply, ← Level.close?_project]
      rfl
  | term u =>
    have hneed : need ≠ .operator ∧
        q = take ⟨around, level, need⟩ (Need.apply need.odd (.atom u)) := by
      cases need <;> simp only [step, reduceCtorEq, Option.some.injEq] at h
      all_goals exact ⟨nofun, h.symm⟩
    obtain ⟨hneed, rfl⟩ := hneed
    rw [project_take, Expr.project_apply, Expr.project]
    by_cases hkind : u.kind = kind
    · rw [Piece.keep, if_pos hkind, if_pos hkind]
      cases need <;> first | rfl | exact absurd rfl hneed
    · rw [Piece.keep, if_neg hkind, if_neg hkind, stepPiece_removed, if_neg (by exact hneed)]
      rfl

theorem stepPieces_cons (p : Parser) (x : Piece) (ps : List Piece) :
    p.stepPieces (x :: ps) = (p.stepPiece x).bind fun p => p.stepPieces ps :=
  List.foldlM_cons

theorem stepPieces_append (p : Parser) (xs ys : List Piece) :
    p.stepPieces (xs ++ ys) = (p.stepPieces xs).bind fun p => p.stepPieces ys :=
  List.foldlM_append

theorem stepPieces_map_keep (kind : TermKind) {p q : Parser} {ts : List Token}
    (h : p.steps ts = some q) :
    (p.project kind).stepPieces (ts.map (.keep kind)) = some (q.project kind) := by
  induction ts generalizing p with
  | nil =>
    obtain rfl := Option.some.inj h
    rfl
  | cons t ts ih =>
    rw [steps_cons] at h
    obtain ⟨p', hstep, hsteps⟩ := Option.bind_eq_some_iff.mp h
    rw [List.map_cons, stepPieces_cons, stepPiece_keep kind hstep]
    exact ih hsteps

/-- The pieces of a query read the projection of what the query reads. -/
theorem readPieces?_map_keep (kind : TermKind) {ts : List Token} {e : Expr}
    (h : read? ts = some e) : readPieces? (ts.map (.keep kind)) = some (e.project kind) := by
  obtain ⟨p, hsteps, hfinish⟩ := Option.bind_eq_some_iff.mp h
  have hpieces := stepPieces_map_keep kind hsteps
  obtain ⟨around, level, need⟩ := p
  cases need <;> cases around <;> simp only [finish?, reduceCtorEq, Option.some.injEq] at hfinish
  subst hfinish
  rw [readPieces?, readFrom?, ← Level.close?_project]
  exact congrArg (·.bind finishPieces?) hpieces

/-! ## Pieces that are words -/

/-- Where an operator may stand, there is an operand in front of it. -/
def Filled (p : Parser) : Prop :=
  p.need = .operator → p.level.operands ≠ []

theorem filled_take (p : Parser) (e : Expr) : (p.take e).Filled :=
  fun _ => List.cons_ne_nil _ _

theorem filled_empty : Filled {} :=
  nofun

theorem filled_of_step {p q : Parser} {t : Token} (h : p.step t = some q) : q.Filled := by
  obtain ⟨around, level, need⟩ := p
  cases t with
  | term u =>
    cases need <;> simp only [step, reduceCtorEq, Option.some.injEq] at h
    all_goals exact h ▸ filled_take _ _
  | rparen =>
    cases need <;> cases around <;> simp only [step, reduceCtorEq, Option.some.injEq] at h
    exact h ▸ filled_take _ _
  | _ =>
    cases need <;> simp only [step, reduceCtorEq, Option.some.injEq] at h
    all_goals exact h ▸ nofun

theorem filled_of_steps {p q : Parser} (hp : p.Filled) {ts : List Token}
    (h : p.steps ts = some q) : q.Filled := by
  induction ts generalizing p with
  | nil => exact Option.some.inj h ▸ hp
  | cons t ts ih =>
    rw [steps_cons] at h
    obtain ⟨p', hstep, hsteps⟩ := Option.bind_eq_some_iff.mp h
    exact ih (filled_of_step hstep) hsteps

theorem stepPiece_word {p : Parser} (hp : p.Filled) (t : Token) :
    p.stepPiece (.word t) = p.step t := by
  obtain ⟨around, level, need⟩ := p
  cases t with
  | or =>
    cases need with
    | operator =>
      have hne : level.operands ≠ [] := hp rfl
      rw [stepPiece_or, if_pos rfl, Level.turn?_eq_turn hne]
      rfl
    | _ => rfl
  | rparen =>
    cases need with
    | operator =>
      cases around with
      | nil => rfl
      | cons outer around =>
        have hne : level.operands ≠ [] := hp rfl
        rw [stepPiece, Level.close?_eq_close hne]
        rfl
    | _ => rfl
  | _ => rfl

theorem stepPieces_map_word {p : Parser} (hp : p.Filled) (ts : List Token) :
    p.stepPieces (ts.map .word) = p.steps ts := by
  induction ts generalizing p with
  | nil => rfl
  | cons t ts ih =>
    rw [List.map_cons, stepPieces_cons, steps_cons, stepPiece_word hp]
    cases hstep : p.step t with
    | none => rfl
    | some q => exact ih (filled_of_step hstep)

theorem finishPieces?_of_filled {p : Parser} (hp : p.Filled) :
    p.finishPieces? = p.finish?.map some := by
  obtain ⟨around, level, need⟩ := p
  cases need with
  | operator =>
    cases around with
    | nil =>
      have hne : level.operands ≠ [] := hp rfl
      rw [finishPieces?, finish?, Level.close?_eq_close hne, Option.map_some]
    | cons outer around => rfl
  | _ => rfl

/-- Pieces that are words read what the words read. -/
theorem readPieces?_map_word (ts : List Token) :
    readPieces? (ts.map .word) = (read? ts).map some := by
  rw [readPieces?, readFrom?, read?, stepPieces_map_word filled_empty]
  cases hsteps : steps {} ts with
  | none => rfl
  | some p => exact finishPieces?_of_filled (filled_of_steps filled_empty hsteps)

end Parser

end PlaceSearch
