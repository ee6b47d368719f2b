import StyleLang.Proofs.Source.Understood

/-!
# What is read is what is spelled

Each token that is accepted adds one piece to what a reading has understood, and its text is a spelling
of the piece; so a text spells the sheet that it is read as. That a text is accepted is not shown here.
-/

namespace StyleLang.Source

namespace Reading

theorem tried_body {r : Reading} (hp : r.point = .member) (h : r.outer ≠ []) :
    r.tried = bodyTerminals := by
  cases ho : r.outer with
  | nil => exact absurd ho h
  | cons b outer => simp only [tried, hp, memberTerminals, ho]

theorem tried_afterAssignment {r : Reading} (hp : r.point = .afterAssignment) :
    r.tried =
      [.ending, .className, .idName, .ifWord, .tagName, .closeBrace, .variableName] := by
  simp only [tried, hp]

/-- A selector that is no tag `if` may follow an assignment. -/
theorem mayFollow_rule {members : List Node} {s : Selector} (hs : s ≠ .tag "if")
    (h : MembersForm [] members) : MayFollow members (.rule none [s] []) := by
  intro a ha
  cases h.sheet rfl a (List.mem_of_mem_head? ha) with
  | assignment hx he => simpa [Apart, apart] using hs
  | rule hss hbody => rfl

theorem text_of_keyword {text : List Char} {word : String} (h : String.ofList text = word) :
    text = word.toList := by
  rw [← h, String.toList_ofList]

/-- A token before a member, in front of which no if-clause waits for its else-clause. -/
theorem understood_beginMember {r r' : Reading} {t : Token} (h : Understood r)
    (hp : r.point = .member ∨ r.point = .afterAssignment) (ht : Scanned r.tried t)
    (hb : r.beginMember t = some r') :
    Understood r' ∧ r'.consumed = r.consumed ++ [.exact t.text] := by
  obtain ⟨ho, hm, hpoint⟩ := h
  have hconsumed : r.consumed = r.memberPieces := by
    rcases hp with hp | hp <;> simp [consumed, hp, pointPieces]
  rw [hconsumed]
  refine understood_begin ho hm ht.lexeme ?_ ?_ hb
  · intro s hnil hs
    rcases hp with hp | hp <;> rw [hp] at hpoint
    · exact hpoint _
    · rw [hnil] at hm
      refine mayFollow_rule ?_ hm
      -- The name would be the keyword, which is tried after an assignment.
      intro h
      obtain rfl := h
      simp only [selector?] at hs
      split at hs
      · rename_i hterm
        simp only [Option.some.injEq, Selector.tag, Selector.mk.injEq, true_and] at hs
        have htext := text_of_keyword hs
        apply ht.plain .ifWord (by rw [hterm, htext]; rfl)
        rw [tried_afterAssignment hp]
        decide
      all_goals simp [Selector.tag, Selector.ofClass, Selector.ofId] at hs
  · intro hne hterm
    constructor
    · intro hif
      have htext := text_of_keyword hif
      apply ht.plain .ifWord (by rw [hterm, htext]; rfl)
      rcases hp with hp | hp
      · rw [tried_body hp hne]
        decide
      · rw [tried_afterAssignment hp]
        decide
    · rcases hp with hp | hp <;> rw [hp] at hpoint
      · exact hpoint _
      · exact hpoint _ _

/-- A token after an if-clause that is no `else`: the if-clause is complete. -/
theorem understood_afterIf {r r' : Reading} {t : Token} (h : Understood r) {c : Node}
    {body : List Node} (hp : r.point = .afterIf c body) (ht : Scanned r.tried t)
    (hb : (r.add (.ifClause none c body) .member).beginMember t = some r') :
    Understood r' ∧ r'.consumed = r.consumed ++ [.exact t.text] := by
  obtain ⟨ho, hm, hpoint⟩ := h
  rw [hp] at hpoint
  obtain ⟨hne, hc, hbody⟩ := hpoint
  have hmember : MemberForm Apart (.ifClause none c body) := .ifClause hc hbody.members hbody.chain
  have hfollow : MayFollow r.members (.ifClause none c body) := fun a _ =>
    apart_of_plain (by simp) (by simp) a
  have htried : r.tried = .elseWord :: bodyTerminals := by simp only [tried, hp]
  have hconsumed : r.consumed = (r.add (.ifClause none c body) .member).memberPieces := by
    rw [consumed, hp, pointPieces, memberPieces_add]
  rw [hconsumed]
  refine understood_begin ho (hm.cons_body hne hmember hfollow) ht.lexeme ?_ ?_ hb
  · intro s hnil
    exact absurd hnil hne
  · intro _ hterm
    constructor
    · intro hif
      have htext := text_of_keyword hif
      apply ht.plain .ifWord (by rw [hterm, htext]; rfl)
      rw [htried]
      decide
    · intro a ha
      cases ha
      refine decide_eq_true fun helse => ?_
      have htext := text_of_keyword helse
      apply ht.plain .elseWord (by rw [hterm, htext]; rfl)
      rw [htried]
      decide

/-- A token with one text that leads to another point of the same member. -/
theorem understood_goto {r : Reading} {t : Token} (h : Understood r) (ht : Scanned r.tried t)
    {u : Terminal} (hu : t.terminal = u) {text : List Char} (htext : u.text? = some text) {p : Point}
    (hform : PointForm r.outer r.members p)
    (hpieces : pointPieces p = pointPieces r.point ++ [.exact text]) :
    Understood (r.goto p) ∧ (r.goto p).consumed = r.consumed ++ [.exact t.text] := by
  refine ⟨⟨h.outer, h.members, hform⟩, ?_⟩
  rw [consumed_goto, hpieces, ht.text_eq hu htext, consumed, List.append_assoc]

/-- A selector behind a comma. -/
theorem understood_selector {r r' : Reading} {t : Token} (h : Understood r)
    (ht : Scanned r.tried t) {read : List Selector} (hp : r.point = .selector read)
    (hadv : r.advance t = .ok r') :
    Understood r' ∧ r'.consumed = r.consumed ++ [.exact t.text] := by
  have hpoint := h.point
  simp only [advance, hp, orWanted_eq_ok] at hadv
  rw [hp] at hpoint
  obtain ⟨hnil, hread, hf⟩ := hpoint
  obtain ⟨s, hs, rfl⟩ := Option.map_eq_some_iff.mp hadv
  obtain ⟨hform, htext⟩ := selector_of_token ht.lexeme hs
  refine ⟨⟨h.outer, h.members, hnil, ⟨by simp, ?_⟩, ?_⟩, ?_⟩
  · intro s' hs'
    rcases List.mem_append.mp hs' with hs' | hs'
    · exact hread.all s' hs'
    · rwa [List.mem_singleton.mp hs']
  · cases read with
    | nil => exact absurd rfl hread.ne_nil
    | cons s' read =>
      intro a ha
      rw [List.cons_append, Apart, apart_rule a none none s' _ read [] []]
      exact hf a ha
  · have hconsumed : r.consumed = r.memberPieces ++ pointPieces r.point := rfl
    rw [hconsumed, hp, consumed_goto, pointPieces, pointPieces,
      selectorPieces_snoc hread.ne_nil, htext]
    simp

/-- The brace that opens a block. -/
theorem understood_openBlock {r : Reading} {t : Token} (h : Understood r) (ht : Scanned r.tried t)
    (hu : t.terminal = .openBrace) {b : Block} (hb : BlockForm r.outer r.members b)
    (hpieces : openingPieces b = pointPieces r.point ++ [.exact ['\x7b']]) :
    Understood (r.openBlock b) ∧ (r.openBlock b).consumed = r.consumed ++ [.exact t.text] := by
  refine ⟨⟨⟨hb, h.members, h.outer⟩, ⟨by simp [openBlock], by simp [openBlock], .nil⟩,
    by simp [openBlock, PointForm, MayFollow]⟩, ?_⟩
  have hopened : (r.openBlock b).consumed = r.memberPieces ++ openingPieces b := by
    simp [openBlock, consumed, memberPieces, outerPieces, pointPieces, piecesAll]
  rw [hopened, hpieces, ht.text_eq hu rfl, consumed, List.append_assoc]

/-- An operand that is not too long. -/
theorem understood_operand {r : Reading} {t : Token} (h : Understood r) (ht : Scanned r.tried t)
    {purpose : Purpose} {sum : LeftOperand} {product : Option Node}
    (hp : r.point = .operand purpose sum product) {n : Node} (hn : operand? t = some n)
    (hlong : overlong? t = none) {o : Option Overlong} :
    Understood { r with point := .operator purpose sum (joinProduct product n), overlong := o } ∧
      ∃ p, p.Spelled t.text ∧ Reading.consumed { r with
        point := .operator purpose sum (joinProduct product n), overlong := o } =
          r.consumed ++ [p] := by
  have hpoint := h.point
  rw [hp] at hpoint
  obtain ⟨hpurpose, hsum, hproduct⟩ := hpoint
  have htried : r.tried = operandTerminals := by simp only [tried, hp]
  rw [htried] at ht
  obtain ⟨hatom, p, hspelled, hpieces⟩ := operand_of_token ht hn hlong
  refine ⟨⟨h.outer, h.members, hpurpose, hsum, joinProduct_form hproduct hatom⟩, p, hspelled, ?_⟩
  simp only [consumed, memberPieces, hp, pointPieces, pieces_joinProduct, hpieces,
    List.append_assoc]

/-- A token after an operand. -/
theorem understood_operator {r r' : Reading} {t : Token} (h : Understood r)
    (ht : Scanned r.tried t) {purpose : Purpose} {sum : LeftOperand} {product : Node}
    (hp : r.point = .operator purpose sum product) (hadv : r.advance t = .ok r') :
    Understood r' ∧ r'.consumed = r.consumed ++ [.exact t.text] := by
  have hpoint := h.point
  rw [hp] at hpoint
  obtain ⟨hpurpose, hsum, hproduct⟩ := hpoint
  have hjoin := joinSum_form hsum hproduct
  simp only [advance, hp] at hadv
  split at hadv
  · rename_i hu
    cases hadv
    refine understood_goto h ht hu rfl ⟨hpurpose, hsum, ?_⟩ ?_
    · intro l hl
      cases hl
      exact hproduct
    · simp [hp, pointPieces, productPieces]
  · rename_i hu
    cases hadv
    refine understood_goto h ht hu rfl ⟨hpurpose, ⟨by simp, hjoin⟩, by simp⟩ ?_
    simp [hp, pointPieces, sumPieces, productPieces, pieces_joinSum, Operator.symbol]
  · rename_i hu
    cases hadv
    refine understood_goto h ht hu rfl ⟨hpurpose, ⟨by simp, hjoin⟩, by simp⟩ ?_
    simp [hp, pointPieces, sumPieces, productPieces, pieces_joinSum, Operator.symbol]
  · split at hadv
    · rename_i hu
      cases hadv
      obtain ⟨hund, hpieces⟩ := understood_finishExpression h.outer h.members hpurpose hjoin
      refine ⟨hund, ?_⟩
      obtain ⟨text, htext⟩ : ∃ text, purpose.closing.text? = some text := by
        cases purpose <;> exact ⟨_, rfl⟩
      rw [hpieces text htext, ht.text_eq hu htext, consumed, hp, pointPieces, pieces_joinSum]
      simp
    · cases hadv

/-- A token that is accepted keeps what is understood, and its text spells the piece that it adds. -/
theorem understood_advance {r r' : Reading} {t : Token} (h : Understood r)
    (ht : Scanned r.tried t) (hadv : r.advance t = .ok r') (hlong : r'.overlong = none) :
    Understood r' ∧ ∃ p, p.Spelled t.text ∧ r'.consumed = r.consumed ++ [p] := by
  -- All pieces but those of operands are written in one way.
  have hexact : Understood r' ∧ r'.consumed = r.consumed ++ [.exact t.text] →
      Understood r' ∧ ∃ p, p.Spelled t.text ∧ r'.consumed = r.consumed ++ [p] :=
    fun h => ⟨h.1, _, .exact t.text, h.2⟩
  have hpoint := h.point
  cases hp : r.point with
  | member =>
    simp only [advance, hp, orWanted_eq_ok] at hadv
    exact hexact (understood_beginMember h (Or.inl hp) ht hadv)
  | afterAssignment =>
    simp only [advance, hp, orWanted_eq_ok] at hadv
    exact hexact (understood_beginMember h (Or.inr hp) ht hadv)
  | afterIf c body =>
    simp only [advance, hp] at hadv
    rw [hp] at hpoint
    split at hadv
    · rename_i hu
      cases hadv
      exact hexact (understood_goto h ht hu rfl hpoint (by rw [hp]; rfl))
    · rw [orWanted_eq_ok] at hadv
      exact hexact (understood_afterIf h hp ht hadv)
  | selector read => exact hexact (understood_selector h ht hp hadv)
  | selectorRead read =>
    simp only [advance, hp] at hadv
    rw [hp] at hpoint
    split at hadv
    · rename_i hu
      cases hadv
      exact hexact (understood_goto h ht hu rfl hpoint (by rw [hp]; rfl))
    · rename_i hu
      cases hadv
      exact hexact (understood_openBlock h ht hu hpoint (by rw [hp]; rfl))
    · cases hadv
  | assignSign x =>
    simp only [advance, hp] at hadv
    rw [hp] at hpoint
    split at hadv
    · rename_i hu
      cases hadv
      exact hexact (understood_goto h ht hu rfl ⟨hpoint, trivial, by simp⟩ (by rw [hp]; rfl))
    · cases hadv
  | propertyColon p =>
    simp only [advance, hp] at hadv
    rw [hp] at hpoint
    split at hadv
    · rename_i hu
      cases hadv
      exact hexact (understood_goto h ht hu rfl ⟨hpoint, trivial, by simp⟩ (by rw [hp]; rfl))
    · cases hadv
  | conditionBracket =>
    simp only [advance, hp] at hadv
    rw [hp] at hpoint
    split at hadv
    · rename_i hu
      cases hadv
      exact hexact (understood_goto h ht hu rfl ⟨hpoint, trivial, by simp⟩ (by rw [hp]; rfl))
    · cases hadv
  | operand purpose sum product =>
    simp only [advance, hp] at hadv
    split at hadv
    · rename_i n hn
      cases hadv
      have hshort : overlong? t = none := by
        cases ho : r.overlong <;> simp_all
      exact understood_operand h ht hp hn hshort
    · cases hadv
  | operator purpose sum product => exact hexact (understood_operator h ht hp hadv)
  | ifBrace c =>
    simp only [advance, hp] at hadv
    rw [hp] at hpoint
    split at hadv
    · rename_i hu
      cases hadv
      exact hexact (understood_openBlock h ht hu hpoint (by rw [hp]; rfl))
    · cases hadv
  | elseBrace c body =>
    simp only [advance, hp] at hadv
    rw [hp] at hpoint
    split at hadv
    · rename_i hu
      cases hadv
      exact hexact (understood_openBlock h ht hu hpoint (by
        rw [hp, openingPieces, pointPieces, List.append_assoc]
        rfl))
    · cases hadv

theorem overlong_beginMember {r r' : Reading} {t : Token} (h : r.beginMember t = some r') :
    r'.overlong = r.overlong := by
  simp only [beginMember] at h
  split at h
  · cases h
    rfl
  · obtain ⟨s, -, rfl⟩ := Option.map_eq_some_iff.mp h
    rfl
  · cases h
    rfl
  · cases h
    rfl
  · rename_i b outer _ _
    cases h
    obtain ⟨block, before⟩ := b
    cases block <;> rfl
  · cases h

/-- A token adds nothing to the record of overlong literals once there is one, and only as an operand. -/
theorem overlong_advance {r r' : Reading} {t : Token} (h : r.advance t = .ok r') :
    r'.overlong = r.overlong ∨ (r.overlong = none ∧ r'.overlong = overlong? t) := by
  cases hp : r.point with
  | member | afterAssignment =>
    simp only [advance, hp, orWanted_eq_ok] at h
    exact Or.inl (overlong_beginMember h)
  | afterIf c body =>
    simp only [advance, hp] at h
    split at h
    · cases h
      exact Or.inl rfl
    · rw [orWanted_eq_ok] at h
      have hsame := overlong_beginMember h
      exact Or.inl hsame
  | selector read =>
    simp only [advance, hp, orWanted_eq_ok] at h
    obtain ⟨s, -, rfl⟩ := Option.map_eq_some_iff.mp h
    exact Or.inl rfl
  | operand purpose sum product =>
    simp only [advance, hp] at h
    split at h
    · cases h
      cases ho : r.overlong with
      | none => exact Or.inr ⟨rfl, rfl⟩
      | some o => exact Or.inl rfl
    · cases h
  | operator purpose sum product =>
    simp only [advance, hp] at h
    split at h
    · cases h
      exact Or.inl rfl
    · cases h
      exact Or.inl rfl
    · cases h
      exact Or.inl rfl
    · split at h
      · cases h
        cases purpose <;> exact Or.inl rfl
      · cases h
  | selectorRead | assignSign | propertyColon | conditionBracket | ifBrace | elseBrace =>
    simp only [advance, hp] at h
    split at h <;> cases h <;> exact Or.inl rfl

/-- A literal with too many digits is not forgotten. -/
theorem overlong_of_advance {r r' : Reading} {t : Token} (h : r.advance t = .ok r')
    (hlong : r'.overlong = none) : r.overlong = none := by
  rcases overlong_advance h with hsame | ⟨hnone, -⟩
  · rw [← hsame, hlong]
  · exact hnone

theorem sheetForm_of_finish {r : Reading} (h : Understood r) {members : List Node}
    (hf : r.finish = .ok members) :
    SheetForm Apart ⟨none, members⟩ ∧ r.consumed = piecesAll members := by
  have hend : r.outer = [] → SheetForm Apart ⟨none, r.members.reverse⟩ := by
    intro hnil
    have hm := h.members
    refine ⟨rfl, fun n hn => hm.sheet hnil n (List.mem_reverse.mp hn), ?_⟩
    exact List.isChain_reverse.mpr hm.chain
  simp only [finish] at hf
  split at hf
  · rename_i hp hnil
    cases hf
    exact ⟨hend hnil, by simp [consumed, memberPieces, hp, hnil, outerPieces, pointPieces]⟩
  · rename_i hp hnil
    cases hf
    exact ⟨hend hnil, by simp [consumed, memberPieces, hp, hnil, outerPieces, pointPieces]⟩
  · cases hf

theorem overlong_of_readAll {r : Reading} {last cs : List Char} {members : List Node}
    (hr : readAll r last cs = .ok (members, none)) : r.overlong = none := by
  fun_induction readAll r last cs with
  | case1 r last cs hskip members' hf =>
    simp only [Except.ok.injEq, Prod.mk.injEq] at hr
    exact hr.2
  | case4 r last cs c rest hskip t rest' hscan r' hadv ih => exact overlong_of_advance hadv (ih hr)
  | case2 | case3 | case5 => cases hr

/-- What is left of a text spells what is left of the sheet that the text is read as. -/
theorem spells_of_readAll {r : Reading} {last cs : List Char} {members : List Node}
    (h : Understood r) (hr : readAll r last cs = .ok (members, none)) :
    SheetForm Apart ⟨none, members⟩ ∧
      ∃ ps, Spells ps cs ∧ piecesAll members = r.consumed ++ ps := by
  obtain ⟨gap, hgap, hcs⟩ := gap_skip cs
  fun_induction readAll r last cs generalizing gap with
  | case1 r last cs hskip members' hf =>
    simp only [Except.ok.injEq, Prod.mk.injEq] at hr
    obtain ⟨rfl, -⟩ := hr
    obtain ⟨hform, hpieces⟩ := sheetForm_of_finish h hf
    rw [hskip, List.append_nil] at hcs
    subst hcs
    exact ⟨hform, [], .done hgap, by rw [hpieces, List.append_nil]⟩
  | case4 r last cs c rest hskip t rest' hscan r' hadv ih =>
    obtain ⟨hund, p, hspelled, hconsumed⟩ :=
      understood_advance h (scanned_of_scan? hscan) hadv (overlong_of_readAll hr)
    obtain ⟨gap', hgap', hcs'⟩ := gap_skip rest'
    obtain ⟨hform, ps, hps, hpieces⟩ := ih hund hr gap' hgap' hcs'
    refine ⟨hform, p :: ps, ?_, ?_⟩
    · rw [hcs, hskip, ← (scan?_append hscan).1, ← List.append_assoc]
      exact .piece hgap hspelled hps
    · rw [hpieces, hconsumed, List.append_assoc, List.singleton_append]
  | case2 | case3 | case5 => cases hr

end Reading

end StyleLang.Source

namespace StyleLang

open Source

/-- A sheet that a text is read as has the form that the grammar asks for, and the text spells it. -/
theorem spells_of_parse {source : String} {s : Sheet} (h : parse source = .ok s) :
    SheetForm Apart s ∧ Spells (pieces s.node) source.toList := by
  simp only [parse] at h
  split at h
  · cases h
  · cases h
  · rename_i members hr
    cases h
    obtain ⟨hform, ps, hps, hpieces⟩ := Reading.spells_of_readAll Reading.understood_start hr
    refine ⟨hform, ?_⟩
    show Spells (piecesAll members) source.toList
    rw [hpieces]
    exact hps

end StyleLang
