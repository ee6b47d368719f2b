import StyleLang.Proofs.Source.Members
import StyleLang.Proofs.Source.Soundness

/-!
# What is spelled is read

Every spelling of a sheet in which the keywords keep apart is read as that sheet. Together with
soundness this says which texts are parsed, and as what; the sheets that have spellings but cannot be
parsed are those in which a name stands where its keyword is looked for.
-/

namespace StyleLang.Source

namespace Reading

theorem reads_sheet {s : Sheet} (h : SheetForm Apart s) (qs : List Piece) :
    Reads start (piecesAll s.members) (standing [] s.members.reverse) qs := by
  have hmembers : Reads (standing [] []) (piecesAll s.members)
      (standing [] (s.members.reverse ++ [])) qs :=
    reads_members (fun n hn ns qs hf => reads_sheetMember (h.members n hn) hf qs) h.chain
      (by simp [MayFollow]) qs
  rwa [List.append_nil] at hmembers

theorem finish_standing (ns : List Node) : (standing [] ns).finish = .ok ns.reverse := by
  unfold standing
  split
  · rfl
  · rename_i heq
    cases heq
  · rfl

theorem overlong_standing (outer : List OpenBlock) (ns : List Node) :
    (standing outer ns).overlong = none := by
  unfold standing
  split <;> rfl

/-- Where only a gap is left, the text is read whole. -/
theorem readAll_gap {ns : List Node} {gap : List Char} (h : Gap gap) (last : List Char) :
    readAll (standing [] ns) last gap = .ok (ns.reverse, none) := by
  have hskip : skip gap = [] := by
    have := skip_gap h []
    rwa [List.append_nil, skip] at this
  rw [readAll]
  split
  · simp only [finish_standing, overlong_standing]
  · rename_i heq
    rw [hskip] at heq
    cases heq

end Reading

end StyleLang.Source

namespace StyleLang

open Source

theorem parse_of_spells {source : String} {s : Sheet} (h : SheetForm Apart s)
    (hsource : Spells (pieces s.node) source.toList) : parse source = .ok s := by
  obtain ⟨mark, members⟩ := s
  obtain rfl : mark = none := h.mark
  have hpieces : Spells (piecesAll members ++ []) source.toList := by
    rw [List.append_nil]
    exact hsource
  obtain ⟨gap, hleads, hgap⟩ := Reading.reads_sheet h [] source.toList hpieces
  cases hgap with
  | done hgap =>
    obtain ⟨last, hread⟩ := hleads source.toList
    rw [Reading.readAll_gap hgap, List.reverse_reverse] at hread
    simp only [parse, hread]

/-- A text is parsed as a sheet exactly if the sheet is one that the grammar describes, the keywords
keep apart in it, and the text is a spelling of it. -/
theorem parse_iff (source : String) (s : Sheet) :
    parse source = .ok s ↔ ParserForm s ∧ keywordsApart s.node = true ∧
      Spells (pieces s.node) source.toList := by
  rw [← and_assoc, ← sheetForm_apart_iff]
  constructor
  · exact spells_of_parse
  · intro h
    exact parse_of_spells h.1 h.2

/-- A rule for the tag `if`, where after an assignment the keyword is looked for. -/
def tagAfterAssignment : Sheet :=
  ⟨none, [.assignment none "X" (.literal none (.scalar 1)), .rule none [.tag "if"] []]⟩

/-- A property `else`, where after an if-clause the keyword is looked for. -/
def propertyAfterIf : Sheet :=
  ⟨none, [.rule none [.tag "p"] [.ifClause none (.literal none (.bool true)) [],
    .declaration none "else" (.literal none (.pixel 1))]]⟩

theorem parserForm_tagAfterAssignment : ParserForm tagAfterAssignment := by
  refine ⟨rfl, ?_, by simp [tagAfterAssignment]⟩
  intro n hn
  simp only [tagAfterAssignment, List.mem_cons, List.not_mem_nil, or_false] at hn
  rcases hn with rfl | rfl
  · exact .assignment (by decide) (.product (.atom (.scalar (by decide))))
  · refine .rule ⟨by decide, ?_⟩ ⟨by simp, .nil⟩
    intro s hs
    cases List.mem_singleton.mp hs
    exact .tag (by decide)

theorem parserForm_propertyAfterIf : ParserForm propertyAfterIf := by
  refine ⟨rfl, ?_, by simp [propertyAfterIf]⟩
  intro n hn
  cases List.mem_singleton.mp hn
  refine .rule ⟨by decide, ?_⟩ ⟨?_, by simp⟩
  · intro s hs
    cases List.mem_singleton.mp hs
    exact .tag (by decide)
  · intro n hn
    simp only [List.mem_cons, List.not_mem_nil, or_false] at hn
    rcases hn with rfl | rfl
    · exact .ifClause (.product (.atom (.bool true))) (by simp) .nil
    · exact .declaration (by decide) (by decide) (.product (.atom (.pixel (by decide))))

/-- Not every spelling of a sheet that the grammar describes is parsed: neither of the two places where
a name may stand but its keyword is looked for can be left out. -/
theorem spelled_not_parsed :
    (ParserForm tagAfterAssignment ∧
      Spells (pieces tagAfterAssignment.node) "X:=1;if\x7b\x7d".toList ∧
      parse "X:=1;if\x7b\x7d" ≠ .ok tagAfterAssignment) ∧
    (ParserForm propertyAfterIf ∧
      Spells (pieces propertyAfterIf.node) "p\x7bif[TRUE]\x7b\x7delse:1px;\x7d".toList ∧
      parse "p\x7bif[TRUE]\x7b\x7delse:1px;\x7d" ≠ .ok propertyAfterIf) := by
  have hone : Digits ['1'] := digits_of_all (by decide) (by decide) (by decide)
  refine ⟨⟨parserForm_tagAfterAssignment, ?_, ?_⟩, parserForm_propertyAfterIf, ?_, ?_⟩
  · refine Spells.cons_exact (Spells.cons_exact ?_)
    apply Spells.cons_number hone (by decide) []
    exact .cons_exact (.cons_exact (.cons_exact (.cons_exact (.done .nil))))
  · intro h
    have hapart := (sheetForm_apart_iff.mp (spells_of_parse h).1).2
    exact absurd hapart (by decide)
  · -- The tag, the brace, the condition, the empty body, the property and its colon.
    refine Spells.cons_exact (Spells.cons_exact ?_)
    refine Spells.cons_exact (Spells.cons_exact (Spells.cons_exact (Spells.cons_exact ?_)))
    refine Spells.cons_exact (Spells.cons_exact (Spells.cons_exact (Spells.cons_exact ?_)))
    apply Spells.cons_number hone (by decide) ['p', 'x']
    exact .cons_exact (.cons_exact (.done .nil))
  · intro h
    have hapart := (sheetForm_apart_iff.mp (spells_of_parse h).1).2
    exact absurd hapart (by decide)

end StyleLang
