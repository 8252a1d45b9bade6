import PlaceSearch.Proofs.Query.Print
import PlaceSearch.Proofs.Query.Reduce

/-!
# The halves of a query

The half of a query over the terms of one kind is empty if nothing is left of the query for
that kind, and else a query that reads what is left.  Pieces that can be read and not be reduced
any further are one removed operand, or words, which is why the reductions lead there.
-/

namespace PlaceSearch

namespace Piece

/-! ## Where no reduction applies -/

theorem unwrap_of_append {pre ps : List Piece} (h : unwrap (pre ++ ps) = none) :
    unwrap ps = none := by
  induction pre with
  | nil => exact h
  | cons p pre ih =>
    rw [List.cons_append] at h
    unfold unwrap at h
    split at h
    case h_5 heq =>
      obtain ⟨rfl, rfl⟩ := List.cons.inj heq
      exact ih (Option.map_eq_none_iff.mp h)
    all_goals grind

theorem detach_tail {before ps : List Piece} {p : Piece} (h : detach before (p :: ps) = none) :
    detach (p :: before) ps = none := by
  unfold detach at h
  dsimp only at h
  split at h
  · exact h
  · split at h
    case h_4 =>
      split at h
      · cases h
      · split at h <;> first | exact h | cases h
    all_goals first | exact h | cases h

theorem detach_of_append {pre before ps : List Piece} (h : detach before (pre ++ ps) = none) :
    detach (pre.reverse ++ before) ps = none := by
  induction pre generalizing before with
  | nil => exact h
  | cons p pre ih =>
    rw [List.reverse_cons, List.append_assoc]
    exact ih (detach_tail h)

/-- No operator that could go stands beside a removed operand that stays and is not negated. -/
theorem beside_of_detach {before ps : List Piece} (h : detach before (.removed :: ps) = none)
    (hnot : before.head? ≠ some (.word .not)) :
    before.head? ≠ some (.word .and) ∧ ps.head? ≠ some (.word .and) ∧
      ps.head? ≠ some (.word .or) ∧
        ∀ before', before = .word .or :: before' → endsOperand before'.head? = false := by
  unfold detach at h
  rw [if_neg (by simp)] at h
  split at h
  · exact absurd rfl hnot
  · cases h
  · cases h
  · next hand =>
    split at h
    · cases h
    · next hends =>
      split at h
      · cases h
      · next hor =>
        refine ⟨by simp, head?_ne_some hand, head?_ne_some hor, ?_⟩
        intro before' heq
        rw [← (List.cons.inj heq).2]
        simpa using hends
  · cases h
  · next _ hand hbefore hand' hor' =>
    exact ⟨head?_ne_some hand, head?_ne_some hand', head?_ne_some hor',
      fun before' heq => absurd heq (hbefore before')⟩

end Piece

namespace Parser

/-- Behind an operand what is read ends, or goes on with a binary operator or a closing
parenthesis that was opened. -/
theorem cases_of_readFrom? {p : Parser} (hneed : p.need = .operator) {ps : List Piece}
    {e : Option Expr} (h : p.readFrom? ps = some e) :
    (ps = [] ∧ p.around = []) ∨ ps.head? = some (.word .and) ∨ ps.head? = some (.word .or) ∨
      ∃ r, ps = .word .rparen :: r ∧ p.around ≠ [] := by
  obtain ⟨around, level, need⟩ := p
  obtain rfl : need = .operator := hneed
  match ps with
  | [] =>
    cases around with
    | nil => exact .inl ⟨rfl, rfl⟩
    | cons outer around => cases h
  | .word .and :: ps => exact .inr (.inl rfl)
  | .word .or :: ps => exact .inr (.inr (.inl rfl))
  | .word .rparen :: ps =>
    cases around with
    | nil => cases h
    | cons outer around => exact .inr (.inr (.inr ⟨ps, rfl, List.cons_ne_nil _ _⟩))
  | .word .not :: ps => cases h
  | .word .lparen :: ps => cases h
  | .word (.term t) :: ps => cases h
  | .removed :: ps => cases h

/-- So it is behind a removed operand. -/
theorem cases_of_readFrom?_removed {p : Parser} {ps : List Piece} {e : Option Expr}
    (h : p.readFrom? (.removed :: ps) = some e) :
    p.need ≠ .operator ∧
      ((ps = [] ∧ p.around = []) ∨ ps.head? = some (.word .and) ∨ ps.head? = some (.word .or) ∨
        ∃ r, ps = .word .rparen :: r ∧ p.around ≠ []) := by
  have hneed := need_ne_operator_of_removed h
  rw [readFrom?_cons, stepPiece_removed, if_neg hneed] at h
  exact ⟨hneed, cases_of_readFrom? (p := p.take? none) rfl h⟩

theorem exists_stepPieces_of_concat {ps : List Piece} {x : Piece} {p : Parser}
    (h : stepPieces {} (ps ++ [x]) = some p) :
    ∃ q : Parser, q.FitsAfter ps.getLast? ∧ q.stepPiece x = some p := by
  rw [stepPieces_append] at h
  obtain ⟨q, hq, hx⟩ := Option.bind_eq_some_iff.mp h
  rw [stepPieces_cons] at hx
  obtain ⟨q', hstep, hq'⟩ := Option.bind_eq_some_iff.mp hx
  exact ⟨q, fitsAfter_of_stepPieces hq, Option.some.inj hq' ▸ hstep⟩

end Parser

namespace Piece

open PlaceSearch.Parser

/-- Nothing stands in front of a removed operand that no reduction takes out: not an operand,
since operands do not follow each other, no operator, since it would go, and no opening
parenthesis, since it would be closed right behind and go too. -/
theorem eq_nil_of_removed {pre post : List Piece} {p : Parser} {e : Option Expr}
    (hunwrap : unwrap (pre ++ .removed :: post) = none)
    (hdetach : detach pre.reverse (.removed :: post) = none)
    (hpre : stepPieces {} pre = some p) (hpost : p.readFrom? (.removed :: post) = some e) :
    pre = [] := by
  obtain ⟨hneed, hrest⟩ := cases_of_readFrom?_removed hpost
  rcases List.eq_nil_or_concat pre with rfl | ⟨pre, x, rfl⟩
  · rfl
  · exfalso
    rw [List.concat_eq_append] at hunwrap hdetach hpre
    obtain ⟨q, hfit, hstep⟩ := exists_stepPieces_of_concat hpre
    rw [List.reverse_append] at hdetach
    rw [List.append_assoc] at hunwrap
    have hgone := unwrap_of_append hunwrap
    cases x with
    | removed => exact hneed ((fitsAfter_of_stepPiece hstep).operator.mpr rfl)
    | word t =>
      cases t with
      | term t => exact hneed ((fitsAfter_of_stepPiece hstep).operator.mpr rfl)
      | rparen => exact hneed ((fitsAfter_of_stepPiece hstep).operator.mpr rfl)
      | not => cases hgone
      | and => exact (beside_of_detach hdetach (by simp)).1 rfl
      | or =>
        have hends := (beside_of_detach hdetach (by simp)).2.2.2 pre.reverse rfl
        rw [List.head?_reverse] at hends
        rw [stepPiece_or] at hstep
        split at hstep
        · next hqneed =>
          rw [hfit.operator.mp hqneed] at hends
          cases hends
        · cases hstep
      | lparen =>
        obtain ⟨-, hand, hor, -⟩ := beside_of_detach hdetach (by simp)
        rcases hrest with ⟨rfl, haround⟩ | h | h | ⟨r, rfl, -⟩
        · obtain ⟨around, level, need⟩ := q
          cases need <;> cases hstep <;> cases haround
        · exact hand h
        · exact hor h
        · cases hgone

/-- Pieces that can be read and that no reduction applies to are one removed operand, or hold
none: a removed operand could only stay between parentheses or the ends of the pieces, and
parentheses around it would go. -/
theorem eq_removed_or_not_mem {ps : List Piece} (hreduce : reduce ps = none) {e : Option Expr}
    (hread : readPieces? ps = some e) : ps = [.removed] ∨ .removed ∉ ps := by
  rw [Classical.or_iff_not_imp_right, Classical.not_not]
  intro hmem
  simp only [reduce, Option.orElse_eq_or, Option.or_eq_none_iff] at hreduce
  obtain ⟨hunwrap, -, -, hdetach, -⟩ := hreduce
  obtain ⟨pre, post, rfl⟩ := List.append_of_mem hmem
  have hbeside := detach_of_append hdetach
  rw [List.append_nil] at hbeside
  rw [readPieces?, readFrom?_append] at hread
  obtain ⟨p, hpre, hpost⟩ := Option.bind_eq_some_iff.mp hread
  obtain rfl := eq_nil_of_removed hunwrap hbeside hpre hpost
  obtain ⟨-, hand, hor, -⟩ := beside_of_detach hbeside (by simp)
  obtain rfl := Option.some.inj hpre
  obtain ⟨-, hrest⟩ := cases_of_readFrom?_removed hpost
  -- nothing in front: a parenthesis behind would close nothing
  rcases hrest with ⟨rfl, -⟩ | h | h | ⟨r, -, haround⟩
  · rfl
  · exact absurd h hand
  · exact absurd h hor
  · exact absurd rfl haround

/-! ## What the reductions lead to -/

/-- Reducing as often as there are pieces is reducing until no reduction applies. -/
theorem reduce_settleWithin {n : Nat} {ps : List Piece} (hn : ps.length ≤ n) :
    reduce (settleWithin n ps) = none := by
  induction n generalizing ps with
  | zero =>
    obtain rfl := List.eq_nil_of_length_eq_zero (Nat.le_zero.mp hn)
    rfl
  | succ n ih =>
    rw [settleWithin]
    cases hreduce : reduce ps with
    | none => exact hreduce
    | some qs =>
      have hlt := (reduction_of_reduce hreduce).length_lt
      exact ih (by omega)

theorem settleWithin_spec (n : Nat) {ps : List Piece} {e : Option Expr}
    (hread : readPieces? ps = some e) :
    readPieces? (settleWithin n ps) = some e ∧
      ∀ x ∈ settleWithin n ps, x ∈ ps ∨ x = .removed := by
  induction n generalizing ps with
  | zero => exact ⟨hread, fun x hx => .inl hx⟩
  | succ n ih =>
    rw [settleWithin]
    cases hreduce : reduce ps with
    | none => exact ⟨hread, fun x hx => .inl hx⟩
    | some qs =>
      have hred := reduction_of_reduce hreduce
      obtain ⟨hread', hmem⟩ := ih (hred.readPieces?_eq hread)
      refine ⟨hread', fun x hx => ?_⟩
      rcases hmem x hx with hx | rfl
      · exact hred.mem_of_mem hx
      · exact .inr rfl

theorem exists_map_word {ps : List Piece} (h : .removed ∉ ps) :
    ∃ ts : List Token, ps = ts.map .word := by
  induction ps with
  | nil => exact ⟨[], rfl⟩
  | cons p ps ih =>
    rw [List.mem_cons, not_or] at h
    obtain ⟨ts, rfl⟩ := ih h.2
    cases p with
    | word t => exact ⟨t :: ts, rfl⟩
    | removed => exact absurd rfl h.1

/-- Reducing keeps what is read, and leaves one removed operand or some of the words. -/
theorem settle_spec {ps : List Piece} {e : Option Expr} (h : readPieces? ps = some e) :
    readPieces? (settle ps) = some e ∧
      (settle ps = [.removed] ∨
        ∃ ts : List Token, settle ps = ts.map .word ∧ ∀ t ∈ ts, .word t ∈ ps) := by
  obtain ⟨hread, hmem⟩ := settleWithin_spec ps.length h
  have hreduce : reduce (settle ps) = none := reduce_settleWithin (Nat.le_refl ps.length)
  refine ⟨hread, ?_⟩
  rcases eq_removed_or_not_mem hreduce hread with heq | hnone
  · exact .inl heq
  · obtain ⟨ts, hts⟩ := exists_map_word hnone
    refine .inr ⟨ts, hts, fun t ht => ?_⟩
    have hword : Piece.word t ∈ settle ps := hts ▸ List.mem_map_of_mem ht
    exact (hmem _ hword).resolve_right nofun

/-! ## The halves -/

/-- Parentheses alone leave the parser waiting for an operand. -/
theorem need_of_steps_isEmpty {ts : List Token} (hts : (ts.map Piece.word).all isEmpty = true)
    {p q : Parser} (hp : p.need = .operand) (h : p.steps ts = some q) : q.need = .operand := by
  induction ts generalizing p with
  | nil => exact Option.some.inj h ▸ hp
  | cons t ts ih =>
    rw [List.map_cons, List.all_cons, Bool.and_eq_true] at hts
    rw [steps_cons] at h
    obtain ⟨p', hstep, hsteps⟩ := Option.bind_eq_some_iff.mp h
    obtain ⟨around, level, need⟩ := p
    obtain rfl : need = .operand := hp
    cases t with
    | lparen => exact ih hts.2 (Option.some.inj hstep ▸ rfl) hsteps
    | rparen => cases hstep
    | _ => cases hts.1

/-- What can be read is more than parentheses. -/
theorem all_isEmpty_of_read? {ts : List Token} {e : Expr} (h : read? ts = some e) :
    (ts.map Piece.word).all isEmpty = false := by
  rw [← Bool.not_eq_true]
  intro hall
  obtain ⟨p, hsteps, hfinish⟩ := Option.bind_eq_some_iff.mp h
  have hneed := need_of_steps_isEmpty hall rfl hsteps
  rw [finish?, hneed] at hfinish
  cases hfinish

theorem mem_of_word_mem_map_keep {kind : TermKind} {ts : List Token} {t : Token}
    (h : .word t ∈ ts.map (keep kind)) : t ∈ ts := by
  obtain ⟨t', ht', hkeep⟩ := List.mem_map.mp h
  unfold keep at hkeep
  split at hkeep
  · split at hkeep
    · exact Piece.word.inj hkeep ▸ ht'
    · cases hkeep
  · exact Piece.word.inj hkeep ▸ ht'

theorem parse_empty (e : Expr) : parse "" ≠ .ok e := by
  have hfault : parse "" = .error (.query (.unexpected .operand ⟨1, 1⟩)) := rfl
  rw [hfault]
  nofun

/-- The half of a query is empty if nothing is left of the query, and else reads what is
left. -/
theorem half_spec {s : String} {ts : List Token} {e : Expr} (hspells : Spells s.toList ts)
    (hread : read? ts = some e) (hblank : ∀ t ∈ ts, t.isBlankPhrase = false)
    (kind : TermKind) :
    (half kind ts = "" ↔ e.project kind = none) ∧
      ∀ e', e.project kind = some e' → parse (half kind ts) = .ok e' := by
  obtain ⟨hsettled, hremoved | ⟨us, hus, hmem⟩⟩ := settle_spec (readPieces?_map_keep kind hread)
  · rw [hremoved] at hsettled
    have hproject : e.project kind = none := (Option.some.inj hsettled).symm
    have hhalf : half kind ts = "" := by
      rw [half, hremoved]
      rfl
    rw [hproject]
    exact ⟨iff_of_true hhalf rfl, nofun⟩
  · rw [hus, readPieces?_map_word] at hsettled
    obtain ⟨e', he', hproject⟩ := Option.map_eq_some_iff.mp hsettled
    have hsub : ∀ t ∈ us, t ∈ ts := fun t ht => mem_of_word_mem_map_keep (hmem t ht)
    have hprintable : ∀ t ∈ us, t.Printable := fun t ht =>
      hspells.printable (hsub t ht) (hblank t (hsub t ht))
    have hparse : parse (half kind ts) = .ok e' := by
      rw [half, hus, parse_eq_ok_iff]
      exact ⟨us, spells_renderAll hprintable (all_isEmpty_of_read? he'), he',
        fun t ht => hblank t (hsub t ht)⟩
    have hne : half kind ts ≠ "" := fun hempty => parse_empty e' (hempty ▸ hparse)
    rw [← hproject]
    refine ⟨iff_of_false hne nofun, fun e'' he'' => ?_⟩
    rw [← Option.some.inj he'']
    exact hparse

end Piece

theorem splitQuery_eq_halves {s : String} {ts : List Token} {e : Expr}
    (h : parse s = .ok e) (hspells : Spells s.toList ts) :
    splitQuery s = .ok (Piece.half .category ts, Piece.half .phrase ts) := by
  rw [splitQuery, h, ← hspells.search]

/-- The half of a split query over the terms of one kind. -/
def sideOf (kind : TermKind) (halves : String × String) : String :=
  match kind with
  | .category => halves.1
  | .phrase => halves.2

/-- Splitting a query projects it: each half is empty if nothing is left of the query for its
kind, and else a query that reads exactly what is left. -/
theorem splitQuery_eq_project {s : String} {e : Expr} (h : parse s = .ok e) :
    ∃ halves, splitQuery s = .ok halves ∧ ∀ kind,
      (sideOf kind halves = "" ↔ e.project kind = none) ∧
        ∀ e', e.project kind = some e' → parse (sideOf kind halves) = .ok e' := by
  obtain ⟨ts, hspells, hread, hblank⟩ := parse_eq_ok_iff.mp h
  refine ⟨_, splitQuery_eq_halves h hspells, fun kind => ?_⟩
  have hhalf := Piece.half_spec hspells hread hblank kind
  cases kind <;> exact hhalf

/-- Parentheses that hold terms of both kinds, negated and not. -/
theorem splitQuery_eq_project_nested :
    let s := "(bar or @Live  Music@) & NOT (not @quiet@ AND (~cafe | @x@)) OR @y@"
    let bar : Expr := .atom (.category "bar")
    let cafe : Expr := .atom (.category "cafe")
    let phrase (text : String) : Expr := .atom (.phrase text)
    let e : Expr := .or [.and [.or [bar, phrase "live  music"],
      .not (.and [.not (phrase "quiet"), .or [.not cafe, phrase "x"]])], phrase "y"]
    parse s = .ok e ∧
      ∃ halves, splitQuery s = .ok halves ∧ ∀ kind,
        (sideOf kind halves = "" ↔ e.project kind = none) ∧
          ∀ e', e.project kind = some e' → parse (sideOf kind halves) = .ok e' :=
  ⟨rfl, splitQuery_eq_project rfl⟩

/-- Doubled parentheses stay where more than one piece was in them. -/
example : splitQuery "(bar or @Live  Music@) & NOT (not @quiet@ AND (~cafe | @x@)) OR @y@" =
    .ok ("bar AND NOT ((NOT cafe))", "@live  music@ AND NOT (NOT @quiet@ AND @x@) OR @y@") :=
  rfl

end PlaceSearch
