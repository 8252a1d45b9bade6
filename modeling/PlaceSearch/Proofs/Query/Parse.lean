import PlaceSearch.Proofs.Query.Spells

/-!
# What a query reads

A text is a query exactly if it spells words that the parser takes to the end, none of them a
phrase of blanks only.  Offsets and expectations matter to the wording of refusals alone.
-/

namespace PlaceSearch

namespace Parser

/-- The parser after some words, if each can stand where it does. -/
def steps (p : Parser) (ts : List Token) : Option Parser :=
  ts.foldlM step p

/-- The expression that some words read. -/
def read? (ts : List Token) : Option Expr :=
  (steps {} ts).bind finish?

theorem steps_cons (p : Parser) (t : Token) (ts : List Token) :
    p.steps (t :: ts) = (p.step t).bind fun p => p.steps ts :=
  List.foldlM_cons

theorem run_eq_ok_iff {p q : Parser} {ts : List (Token × Nat)} :
    run p ts = .ok q ↔ p.steps (ts.map (·.1)) = some q := by
  induction ts generalizing p with
  | nil => simp [run, steps]
  | cons t ts ih =>
    rw [run, List.map_cons, steps_cons]
    cases p.step t.1 with
    | none => simp
    | some p' => exact ih

theorem ofLexed_eq_ok_iff {r : Lexed} {e : Expr} :
    ofLexed r = .ok e ↔ r.stop = .finished ∧ read? r.words = some e := by
  rw [ofLexed, read?]
  cases hrun : run {} r.tokens with
  | error fault =>
    have hsteps : steps {} r.words = none := by
      rw [Option.eq_none_iff_forall_ne_some]
      intro q hq
      rw [run_eq_ok_iff.mpr hq] at hrun
      cases hrun
    simp [hsteps]
  | ok p =>
    rw [Lexed.words, run_eq_ok_iff.mp hrun, Option.bind_some]
    cases r.stop with
    | finished => cases hfinish : p.finish? <;> simp [hfinish]
    | stray => simp
    | emptyPhrase => by_cases hneed : p.need = .operator <;> simp [hneed]

end Parser

/-- A text reads an expression iff it spells words that read it, none of them a phrase of blanks
only. -/
theorem parse_eq_ok_iff {s : String} {e : Expr} :
    parse s = .ok e ↔
      ∃ ts, Spells s.toList ts ∧ Parser.read? ts = some e ∧
        ∀ t ∈ ts, t.isBlankPhrase = false := by
  have hwords : ((Lexed.ofText s).tokens.any fun t => t.1.isBlankPhrase) =
      (Lexed.ofText s).words.any (·.isBlankPhrase) := by
    rw [Lexed.words, List.any_map]
    rfl
  constructor
  · intro h
    rw [parse, hwords] at h
    cases hlexed : Parser.ofLexed (Lexed.ofText s) with
    | error fault => simp [hlexed] at h
    | ok e' =>
      obtain ⟨hstop, hread⟩ := Parser.ofLexed_eq_ok_iff.mp hlexed
      have hidle : Lexed.Mode.idle.Proper := trivial
      rw [hlexed] at h
      cases hblank : (Lexed.ofText s).words.any (·.isBlankPhrase) with
      | true => simp [hblank] at h
      | false =>
        simp only [hblank, Bool.false_eq_true, if_false, Except.ok.injEq] at h
        subst h
        refine ⟨(Lexed.ofText s).words, Lexed.spells_scan hidle hstop, hread, ?_⟩
        simpa using hblank
  · rintro ⟨ts, hspells, hread, hblank⟩
    obtain ⟨hstop, hts⟩ := hspells.scan 0
    have hlexed : Parser.ofLexed (Lexed.ofText s) = .ok e :=
      Parser.ofLexed_eq_ok_iff.mpr ⟨hstop, by rw [Lexed.ofText, hts]; exact hread⟩
    have hnone : (Lexed.ofText s).words.any (·.isBlankPhrase) = false := by
      rw [Lexed.ofText, hts]
      simpa using hblank
    rw [parse, hwords, hlexed]
    simp [hnone]

end PlaceSearch
