import PlaceSearch.Proofs.Query.Project

/-!
# Reductions keep what is read

Every reduction of the splitter takes out a piece of a text that still reads the same.  That a
removed operand may go with the operator beside it depends on the pieces around it: where the
next operand is awaited behind `OR` or at a beginning, the conjunction is empty so far, and
turning an empty conjunction into an alternative leaves no trace.

A text that can be read and not be reduced is one removed operand, or holds none.
-/

namespace PlaceSearch

/-! ## What the piece in front tells -/

namespace Parser

/-- What is known of a parser behind a piece, or at the beginning: what may come next, and that
only a conjunction sign leaves the operands of a conjunction waiting for another one. -/
structure FitsAfter (before : Option Piece) (p : Parser) : Prop where
  operator : p.need = .operator ↔ Piece.endsOperand before = true
  negated : p.need ≠ .operator → p.need ≠ .operand → before = some (.word .not)
  operands : p.need = .operand → before ≠ some (.word .and) → p.level.operands = []

theorem fitsAfter_empty : FitsAfter none {} :=
  ⟨by decide, fun _ h => absurd rfl h, fun _ _ => rfl⟩

theorem operands_turn? (l : Level) : l.turn?.operands = [] := by
  rw [Level.turn?]
  split
  · assumption
  · rfl

theorem fitsAfter_take? (p : Parser) (e : Option Expr) {x : Piece}
    (hx : Piece.endsOperand (some x) = true) : (p.take? e).FitsAfter (some x) :=
  ⟨iff_of_true rfl hx, fun h => absurd rfl h, nofun⟩

theorem fitsAfter_of_stepPiece {p q : Parser} {x : Piece} (h : p.stepPiece x = some q) :
    q.FitsAfter (some x) := by
  obtain ⟨around, level, need⟩ := p
  cases x with
  | removed =>
    rw [stepPiece_removed] at h
    split at h
    · cases h
    · exact Option.some.inj h ▸ fitsAfter_take? _ none rfl
  | word t =>
    cases t with
    | or =>
      rw [stepPiece_or] at h
      split at h
      · rw [← Option.some.inj h]
        exact ⟨iff_of_false (by simp) (by decide), fun _ h => absurd rfl h,
          fun _ _ => operands_turn? level⟩
      · cases h
    | rparen =>
      cases need <;> cases around <;>
        simp only [stepPiece, reduceCtorEq, Option.some.injEq] at h
      exact h ▸ fitsAfter_take? _ _ rfl
    | term u =>
      cases need <;> simp only [stepPiece, step, reduceCtorEq, Option.some.injEq] at h
      all_goals exact h ▸ fitsAfter_take? _ (some _) rfl
    | and =>
      cases need <;> simp only [stepPiece, step, reduceCtorEq, Option.some.injEq] at h
      exact h ▸ ⟨iff_of_false (by simp) (by decide), fun _ h => absurd rfl h,
        fun _ h => absurd rfl h⟩
    | not =>
      cases need <;> simp only [stepPiece, step, reduceCtorEq, Option.some.injEq] at h
      all_goals
        exact h ▸ ⟨iff_of_false (by simp) (by decide), fun _ _ => rfl, by simp⟩
    | lparen =>
      cases need <;> simp only [stepPiece, step, reduceCtorEq, Option.some.injEq] at h
      all_goals
        exact h ▸ ⟨iff_of_false (by simp) (by decide), fun _ h => absurd rfl h,
          fun _ _ => rfl⟩

theorem fitsAfter_of_stepPieces {ps : List Piece} {p : Parser} (h : stepPieces {} ps = some p) :
    p.FitsAfter ps.getLast? := by
  rcases List.eq_nil_or_concat ps with rfl | ⟨ps, x, rfl⟩
  · exact Option.some.inj h ▸ fitsAfter_empty
  · rw [List.concat_eq_append, stepPieces_append] at h
    obtain ⟨p', -, hlast⟩ := Option.bind_eq_some_iff.mp h
    rw [stepPieces_cons] at hlast
    obtain ⟨q, hstep, hq⟩ := Option.bind_eq_some_iff.mp hlast
    rw [List.concat_eq_append, List.getLast?_concat]
    exact Option.some.inj hq ▸ fitsAfter_of_stepPiece hstep

theorem readFrom?_append (p : Parser) (xs ys : List Piece) :
    p.readFrom? (xs ++ ys) = (p.stepPieces xs).bind fun p => p.readFrom? ys := by
  rw [readFrom?, stepPieces_append, Option.bind_assoc]
  rfl

theorem readFrom?_cons (p : Parser) (x : Piece) (ys : List Piece) :
    p.readFrom? (x :: ys) = (p.stepPiece x).bind fun p => p.readFrom? ys := by
  rw [readFrom?, stepPieces_cons, Option.bind_assoc]
  rfl

end Parser

/-! ## The steps of the splitter -/

/-- What is one piece instead of two or three, whatever stands around it. -/
inductive Contracts : List Piece → Piece → Prop where
  | negation : Contracts [.word .not, .removed] .removed
  | removed : Contracts [.word .lparen, .removed, .word .rparen] .removed
  | term (t : Term) :
      Contracts [.word .lparen, .word (.term t), .word .rparen] (.word (.term t))
  | nothing : Contracts [.word .lparen, .word .rparen] .removed
  | conjunction : Contracts [.removed, .word .and, .removed] .removed

/-- One step of the splitter, with what it looks at. -/
inductive Reduction : List Piece → List Piece → Prop where
  | contract (pre : List Piece) {xs : List Piece} {y : Piece} (h : Contracts xs y)
      (post : List Piece) : Reduction (pre ++ (xs ++ post)) (pre ++ y :: post)
  | disjunction (pre post : List Piece) (hand : pre.getLast? ≠ some (.word .and))
      (hnot : pre.getLast? ≠ some (.word .not)) :
      Reduction (pre ++ .removed :: .word .or :: .removed :: post) (pre ++ .removed :: post)
  | andBefore (pre post : List Piece) :
      Reduction (pre ++ .word .and :: .removed :: post) (pre ++ post)
  | andAfter (pre post : List Piece) (hnot : pre.getLast? ≠ some (.word .not)) :
      Reduction (pre ++ .removed :: .word .and :: post) (pre ++ post)
  | orBefore (pre post : List Piece) (hand : post.head? ≠ some (.word .and)) :
      Reduction (pre ++ .word .or :: .removed :: post) (pre ++ post)
  | orAfter (pre post : List Piece) (hand : pre.getLast? ≠ some (.word .and))
      (hnot : pre.getLast? ≠ some (.word .not)) :
      Reduction (pre ++ .removed :: .word .or :: post) (pre ++ post)
  | hangingBefore (pre : List Piece) (q : Piece) (post : List Piece) (hq : q.isBinary = true)
      (hpre : pre = [] ∨ pre.getLast? = some (.word .lparen)) :
      Reduction (pre ++ q :: post) (pre ++ post)
  | hangingAfter (pre : List Piece) (q : Piece) (post : List Piece) (hq : q.isOperator = true)
      (hpost : post = [] ∨ post.head? = some (.word .rparen)) :
      Reduction (pre ++ q :: post) (pre ++ post)

namespace Piece

theorem reduction_of_unwrap {ps qs : List Piece} (h : unwrap ps = some qs)
    (front : List Piece) : Reduction (front ++ ps) (front ++ qs) := by
  induction ps generalizing qs front with
  | nil => cases h
  | cons p r ih =>
    unfold unwrap at h
    split at h
    · next r' heq =>
      obtain ⟨rfl, rfl⟩ := List.cons.inj heq
      exact Option.some.inj h ▸ .contract front .negation r'
    · next r' heq =>
      obtain ⟨rfl, rfl⟩ := List.cons.inj heq
      exact Option.some.inj h ▸ .contract front .removed r'
    · next t r' heq =>
      obtain ⟨rfl, rfl⟩ := List.cons.inj heq
      exact Option.some.inj h ▸ .contract front (.term t) r'
    · next r' heq =>
      obtain ⟨rfl, rfl⟩ := List.cons.inj heq
      exact Option.some.inj h ▸ .contract front .nothing r'
    · next heq =>
      obtain ⟨rfl, rfl⟩ := List.cons.inj heq
      obtain ⟨qs', hqs', rfl⟩ := Option.map_eq_some_iff.mp h
      simpa using ih hqs' (front ++ [p])
    · cases h

theorem reduction_of_joinAnd {ps qs : List Piece} (h : joinAnd ps = some qs)
    (front : List Piece) : Reduction (front ++ ps) (front ++ qs) := by
  induction ps generalizing qs front with
  | nil => cases h
  | cons p r ih =>
    unfold joinAnd at h
    split at h
    · next r' heq =>
      obtain ⟨rfl, rfl⟩ := List.cons.inj heq
      exact Option.some.inj h ▸ .contract front .conjunction r'
    · next heq =>
      obtain ⟨rfl, rfl⟩ := List.cons.inj heq
      obtain ⟨qs', hqs', rfl⟩ := Option.map_eq_some_iff.mp h
      simpa using ih hqs' (front ++ [p])
    · cases h

theorem reduction_of_joinOr {ps qs front : List Piece}
    (h : joinOr front.getLast? ps = some qs) : Reduction (front ++ ps) (front ++ qs) := by
  induction ps generalizing qs front with
  | nil => cases h
  | cons p r ih =>
    have hfurther : ∀ {qs}, (joinOr (some p) r).map (p :: ·) = some qs →
        Reduction (front ++ p :: r) (front ++ qs) := by
      intro qs h
      obtain ⟨qs', hqs', rfl⟩ := Option.map_eq_some_iff.mp h
      have hlast : (front ++ [p]).getLast? = some p := List.getLast?_concat
      rw [← hlast] at hqs'
      simpa using ih hqs'
    unfold joinOr at h
    dsimp only at h
    split at h
    · next r' =>
      split at h
      · exact hfurther h
      · next hbefore =>
        rw [not_or, not_or] at hbefore
        exact Option.some.inj h ▸ .disjunction front r' hbefore.1 hbefore.2.1
    · exact hfurther h

theorem head?_ne_some {ps : List Piece} {x : Piece} (h : ∀ r, ps = x :: r → False) :
    ps.head? ≠ some x := by
  intro hhead
  obtain ⟨r, hr⟩ := List.head?_eq_some_iff.mp hhead
  exact h r hr

theorem reduction_of_detach {before ps qs : List Piece} (h : detach before ps = some qs) :
    Reduction (before.reverse ++ ps) qs := by
  induction ps generalizing before with
  | nil => cases h
  | cons p r ih =>
    have hfurther : detach (p :: before) r = some qs → Reduction (before.reverse ++ p :: r) qs := by
      intro h
      simpa using ih h
    unfold detach at h
    dsimp only at h
    split at h
    · exact hfurther h
    · next hp =>
      obtain rfl := Decidable.not_not.mp hp
      split at h
      · exact hfurther h
      · next before' =>
        have hred := Reduction.andBefore before'.reverse r
        rw [← Option.some.inj h, List.reverse_cons, List.append_assoc]
        exact hred
      · next r hnot _ =>
        have hlast := head?_ne_some hnot
        rw [← List.getLast?_reverse] at hlast
        exact Option.some.inj h ▸ .andAfter before.reverse r hlast
      · next before' hand =>
        split at h
        · have hred := Reduction.orBefore before'.reverse r (head?_ne_some hand)
          rw [← Option.some.inj h, List.reverse_cons, List.append_assoc]
          exact hred
        · split at h
          · next r =>
            have hlast : ∀ x, x ≠ Piece.word .or →
                (Piece.word .or :: before').reverse.getLast? ≠ some x := by
              intro x hx
              rw [List.getLast?_reverse, List.head?_cons]
              exact fun h => hx (Option.some.inj h).symm
            exact Option.some.inj h ▸ .orAfter _ r (hlast _ (by decide)) (hlast _ (by decide))
          · exact hfurther h
      · next r hnot hand _ =>
        have hlastNot := head?_ne_some hnot
        have hlastAnd := head?_ne_some hand
        rw [← List.getLast?_reverse] at hlastNot hlastAnd
        exact Option.some.inj h ▸ .orAfter before.reverse r hlastAnd hlastNot
      · exact hfurther h

theorem reduction_of_trimInner {ps qs : List Piece} (h : trimInner ps = some qs)
    (front : List Piece) : Reduction (front ++ ps) (front ++ qs) := by
  induction ps generalizing qs front with
  | nil => cases h
  | cons p r ih =>
    have hfurther : ∀ {qs}, (trimInner r).map (p :: ·) = some qs →
        Reduction (front ++ p :: r) (front ++ qs) := by
      intro qs h
      obtain ⟨qs', hqs', rfl⟩ := Option.map_eq_some_iff.mp h
      simpa using ih hqs' (front ++ [p])
    unfold trimInner at h
    dsimp only at h
    split at h
    · next q r' =>
      split at h
      · next hq =>
        have hlast : (front ++ [Piece.word .lparen]).getLast? = some (.word .lparen) :=
          List.getLast?_concat
        have hred := Reduction.hangingBefore (front ++ [Piece.word .lparen]) q r' hq (.inr hlast)
        rw [List.append_assoc, List.append_assoc] at hred
        exact Option.some.inj h ▸ hred
      · exact hfurther h
    · next r' =>
      split at h
      · next hp => exact Option.some.inj h ▸ .hangingAfter front p _ hp (.inr rfl)
      · exact hfurther h
    · exact hfurther h

theorem reduction_of_trimOuter {ps qs : List Piece} (h : trimOuter ps = some qs) :
    Reduction ps qs := by
  unfold trimOuter at h
  split at h
  · cases h
  · next p r =>
    split at h
    · next hp => exact Option.some.inj h ▸ .hangingBefore [] p r hp (.inl rfl)
    · split at h
      · next q hlast =>
        split at h
        · next hq =>
          obtain ⟨front, hfront⟩ := List.getLast?_eq_some_iff.mp hlast
          have hred := Reduction.hangingAfter front q [] hq (.inl rfl)
          rw [hfront, List.dropLast_concat] at h
          rw [hfront, ← Option.some.inj h]
          rwa [List.append_nil] at hred
        · exact reduction_of_trimInner h []
      · cases h

theorem reduction_of_reduce {ps qs : List Piece} (h : reduce ps = some qs) :
    Reduction ps qs := by
  simp only [reduce, Option.orElse_eq_or, Option.or_eq_some_iff] at h
  rcases h with h | ⟨-, h | ⟨-, h | ⟨-, h | ⟨-, h⟩⟩⟩⟩
  · exact reduction_of_unwrap h []
  · exact reduction_of_joinAnd h []
  · have hfront : joinOr ([] : List Piece).getLast? ps = some qs := h
    exact reduction_of_joinOr hfront
  · exact reduction_of_detach h
  · exact reduction_of_trimOuter h

end Piece

/-! ## What a step keeps -/

namespace Reduction

/-- A step takes a piece out. -/
theorem length_lt {ps qs : List Piece} (h : Reduction ps qs) : qs.length < ps.length := by
  cases h with
  | contract pre h post =>
    simp only [List.length_append]
    cases h <;> simp only [List.length_cons, List.length_nil] <;> omega
  | _ =>
    simp only [List.length_append, List.length_cons]
    omega

/-- A step brings in removed operands only. -/
theorem mem_of_mem {ps qs : List Piece} (h : Reduction ps qs) {x : Piece} (hx : x ∈ qs) :
    x ∈ ps ∨ x = .removed := by
  cases h with
  | contract pre h post => cases h <;> grind
  | _ => grind

end Reduction

namespace Parser

/-- What is one piece instead of two or three leads to the same parser. -/
theorem stepPieces_of_contracts {xs : List Piece} {y : Piece} (h : Contracts xs y)
    {p q : Parser} (hxs : p.stepPieces xs = some q) : p.stepPiece y = some q := by
  obtain ⟨around, level, need⟩ := p
  cases h with
  | term t =>
    cases need with
    | operator => cases hxs
    | operand => exact hxs
    | negated odd => exact hxs
  | _ =>
    cases need <;> first | exact hxs | cases hxs

theorem turn?_turn? (l : Level) : l.turn?.turn? = l.turn? :=
  if_pos (operands_turn? l)

/-- Turning a conjunction into an alternative leaves no trace in front of anything but a
conjunction sign. -/
theorem readFrom?_turn? {around : List (Level × Bool)} {level : Level} {ps : List Piece}
    (hps : ps.head? ≠ some (.word .and)) :
    readFrom? ⟨around, level.turn?, .operator⟩ ps = readFrom? ⟨around, level, .operator⟩ ps := by
  have hclose : level.turn?.close? = level.close? := by
    rw [Level.close?, Level.close?, turn?_turn?]
  cases ps with
  | nil =>
    cases around with
    | nil => exact congrArg some hclose
    | cons outer around => rfl
  | cons x ps =>
    cases x with
    | removed => rfl
    | word t =>
      cases t with
      | and => exact absurd rfl hps
      | or => rw [readFrom?_cons, readFrom?_cons, stepPiece_or, stepPiece_or, turn?_turn?]
      | rparen => rw [readFrom?_cons, readFrom?_cons, stepPiece, stepPiece, hclose]
      | _ => rfl

theorem readFrom?_removed_or {p : Parser} (hneed : p.need = .operand)
    (hops : p.level.operands = []) (ps : List Piece) :
    p.readFrom? (.removed :: .word .or :: ps) = p.readFrom? ps := by
  obtain ⟨around, level, need⟩ := p
  obtain rfl : need = .operand := hneed
  have hturn : level.turn? = level := if_pos hops
  have hread : readFrom? ⟨around, level, .operand⟩ (.removed :: .word .or :: ps) =
      readFrom? ⟨around, level.turn?, .operand⟩ ps := rfl
  rw [hread, hturn]

theorem readFrom?_removed_and {p : Parser} (hneed : p.need = .operand) (ps : List Piece) :
    p.readFrom? (.removed :: .word .and :: ps) = p.readFrom? ps := by
  obtain ⟨around, level, need⟩ := p
  obtain rfl : need = .operand := hneed
  rfl

theorem readFrom?_and_removed {p : Parser} {ps : List Piece} {e : Option Expr}
    (h : p.readFrom? (.word .and :: .removed :: ps) = some e) : p.readFrom? ps = some e := by
  obtain ⟨around, level, need⟩ := p
  cases need <;> first | exact h | cases h

theorem readFrom?_or_removed {p : Parser} {ps : List Piece} {e : Option Expr}
    (hps : ps.head? ≠ some (.word .and))
    (h : p.readFrom? (.word .or :: .removed :: ps) = some e) : p.readFrom? ps = some e := by
  obtain ⟨around, level, need⟩ := p
  cases need with
  | operator =>
    rw [← readFrom?_turn? hps]
    exact h
  | _ => cases h

/-- An operand is awaited behind anything but a negation, unless an operator is. -/
theorem FitsAfter.need_eq_operand {before : Option Piece} {p : Parser} (h : p.FitsAfter before)
    (hneed : p.need ≠ .operator) (hbefore : before ≠ some (.word .not)) : p.need = .operand :=
  Decidable.byContradiction fun hoperand => hbefore (h.negated hneed hoperand)

theorem need_ne_operator_of_removed {p : Parser} {ps : List Piece} {e : Option Expr}
    (h : p.readFrom? (.removed :: ps) = some e) : p.need ≠ .operator := by
  intro hneed
  rw [readFrom?_cons, stepPiece_removed, if_pos hneed] at h
  cases h

theorem need_eq_operator_of_isBinary {p : Parser} {q : Piece} (hq : q.isBinary = true)
    {ps : List Piece} {e : Option Expr} (h : p.readFrom? (q :: ps) = some e) :
    p.need = .operator := by
  obtain ⟨around, level, need⟩ := p
  unfold Piece.isBinary at hq
  split at hq
  · cases need <;> first | rfl | cases h
  · cases need <;> first | rfl | cases h
  · cases hq

theorem endsOperand_of_isOperator {q : Piece} (h : q.isOperator = true) :
    Piece.endsOperand (some q) = false := by
  unfold Piece.endsOperand
  split
  · rfl
  · next heq =>
    obtain rfl := Option.some.inj heq
    rw [h, Bool.not_true]
  · rfl

/-- Where an operand is awaited, nothing can end. -/
theorem readFrom?_of_hanging {p : Parser} {before : Option Piece} (hp : p.FitsAfter before)
    (hbefore : Piece.endsOperand before = false) {ps : List Piece}
    (hps : ps = [] ∨ ps.head? = some (.word .rparen)) : p.readFrom? ps = none := by
  have hneed : p.need ≠ .operator := by
    rw [Ne, hp.operator, hbefore]
    exact Bool.false_ne_true
  obtain ⟨around, level, need⟩ := p
  rcases hps with rfl | hps
  · cases need <;> first | rfl | exact absurd rfl hneed
  · obtain ⟨r, rfl⟩ := List.head?_eq_some_iff.mp hps
    cases need <;> first | rfl | exact absurd rfl hneed

/-- What comes behind some pieces may be replaced if every parser that fits there reads the
same. -/
theorem readPieces?_append_of {pre xs ys : List Piece} {e : Option Expr}
    (h : ∀ p : Parser, p.FitsAfter pre.getLast? → p.readFrom? xs = some e →
      p.readFrom? ys = some e)
    (hread : readPieces? (pre ++ xs) = some e) : readPieces? (pre ++ ys) = some e := by
  rw [readPieces?, readFrom?_append] at hread ⊢
  obtain ⟨p, hp, hxs⟩ := Option.bind_eq_some_iff.mp hread
  rw [hp]
  exact h p (fitsAfter_of_stepPieces hp) hxs

end Parser

open PlaceSearch.Parser in
/-- A step keeps what is read. -/
theorem Reduction.readPieces?_eq {ps qs : List Piece} (h : Reduction ps qs) {e : Option Expr}
    (hread : readPieces? ps = some e) : readPieces? qs = some e := by
  cases h with
  | contract pre h post =>
    refine readPieces?_append_of (fun p _ hp => ?_) hread
    rw [readFrom?_append] at hp
    obtain ⟨q, hq, hpost⟩ := Option.bind_eq_some_iff.mp hp
    rw [readFrom?_cons, stepPieces_of_contracts h hq]
    exact hpost
  | disjunction pre post hand hnot =>
    refine readPieces?_append_of (fun p hfit hp => ?_) hread
    have hneed := hfit.need_eq_operand (need_ne_operator_of_removed hp) hnot
    rwa [readFrom?_removed_or hneed (hfit.operands hneed hand)] at hp
  | andBefore pre post => exact readPieces?_append_of (fun p _ => readFrom?_and_removed) hread
  | andAfter pre post hnot =>
    refine readPieces?_append_of (fun p hfit hp => ?_) hread
    have hneed := hfit.need_eq_operand (need_ne_operator_of_removed hp) hnot
    rwa [readFrom?_removed_and hneed] at hp
  | orBefore pre post hand =>
    exact readPieces?_append_of (fun p _ => readFrom?_or_removed hand) hread
  | orAfter pre post hand hnot =>
    refine readPieces?_append_of (fun p hfit hp => ?_) hread
    have hneed := hfit.need_eq_operand (need_ne_operator_of_removed hp) hnot
    rwa [readFrom?_removed_or hneed (hfit.operands hneed hand)] at hp
  | hangingBefore pre q post hq hpre =>
    refine readPieces?_append_of (fun p hfit hp => ?_) hread
    have hneed := hfit.operator.mp (need_eq_operator_of_isBinary hq hp)
    rcases hpre with rfl | hlast
    · exact absurd hneed (by decide)
    · rw [hlast] at hneed
      exact absurd hneed (by decide)
  | hangingAfter pre q post hq hpost =>
    refine readPieces?_append_of (fun p _ hp => ?_) hread
    rw [readFrom?_cons] at hp
    obtain ⟨r, hr, hpost'⟩ := Option.bind_eq_some_iff.mp hp
    rw [readFrom?_of_hanging (fitsAfter_of_stepPiece hr) (endsOperand_of_isOperator hq) hpost]
      at hpost'
    cases hpost'

end PlaceSearch
