import StyleLang.Proofs.Source.Derivation
import StyleLang.Proofs.Source.Understood

/-!
# What a reading may go on with

A reading has a sequence of symbols before it: the rest of its member, of every open block and of the
sheet. A token is accepted exactly if its terminal may come first in what these symbols derive, and the
text may end exactly if nothing at all is derived. So reading accepts, token by token, the language of the
grammar and no other.
-/

namespace StyleLang.Source

/-- The members of a sheet. -/
def sheetMembers : Symbol := .many [[.phrase .assignment], [.phrase .rule]]

/-- The members of a body. -/
def bodyMembers : Symbol :=
  .many [[.phrase .declaration], [.phrase .assignment], [.phrase .ifClause]]

def furtherSelectors : Symbol := .many [[.terminal .comma, .phrase .selector]]

def elsePart : Symbol := .optional [.phrase .elseClause]

/-- A body between its braces. -/
def bracedBody : List Symbol := [.terminal .openBrace, .phrase .body, .terminal .closeBrace]

/-- The rest of a member after its expression. -/
def Purpose.toCome : Purpose → List Symbol
  | .condition => .terminal .closeBracket :: bracedBody ++ [elsePart]
  | _ => [.terminal .semicolon]

/-- The rest of the member that is being read. -/
def Point.toCome : Point → List Symbol
  | .member => []
  | .afterAssignment => []
  | .afterIf _ _ => [elsePart]
  | .selector _ => .phrase .selector :: furtherSelectors :: bracedBody
  | .selectorRead _ => furtherSelectors :: bracedBody
  | .assignSign _ => [.terminal .assign, .phrase .expression, .terminal .semicolon]
  | .propertyColon _ => [.terminal .colon, .phrase .expression, .terminal .semicolon]
  | .conditionBracket =>
    .terminal .openBracket :: .phrase .expression :: .terminal .closeBracket :: bracedBody ++ [elsePart]
  | .operand purpose _ _ => .phrase .atom :: factors :: terms :: purpose.toCome
  | .operator purpose _ _ => factors :: terms :: purpose.toCome
  | .ifBrace _ => bracedBody ++ [elsePart]
  | .elseBrace _ _ => bracedBody

/-- What may come after the closing brace of a block that belongs to the same member. -/
def Block.toCome : Block → List Symbol
  | .ifBody _ => [elsePart]
  | _ => []

/-- The rest of the open blocks and of the sheet. -/
def outerToCome : List OpenBlock → List Symbol
  | [] => [sheetMembers]
  | b :: outer => bodyMembers :: .terminal .closeBrace :: (b.block.toCome ++ outerToCome outer)

/-- The points inside of an if-clause, up to the else-clause that it may go on with. -/
def Point.inBody : Point → Bool
  | .afterIf _ _ => true
  | .conditionBracket => true
  | .operand .condition _ _ => true
  | .operator .condition _ _ => true
  | .ifBrace _ => true
  | .elseBrace _ _ => true
  | _ => false

def Block.inBody : Block → Bool
  | .rule _ => false
  | _ => true

namespace Reading

def toCome (r : Reading) : List Symbol := r.point.toCome ++ outerToCome r.outer

section

variable {ss : List Symbol} {ts : List Terminal} {u : Terminal}

theorem derives_atom_iff : Derives (.phrase .atom :: ss) (u :: ts) ↔
    u ∈ operandTerminals ∧ Derives ss ts := by
  rw [derives_phrase_iff]
  cases u <;> simp [Phrase.productions, derives_terminal_iff, operandTerminals]

theorem derives_selector_iff : Derives (.phrase .selector :: ss) (u :: ts) ↔
    u ∈ [Terminal.className, .idName, .tagName] ∧ Derives ss ts := by
  rw [derives_phrase_iff]
  cases u <;> simp [Phrase.productions, derives_terminal_iff]

theorem derives_body_iff : Derives (.phrase .body :: ss) ts ↔ Derives (bodyMembers :: ss) ts := by
  simp [derives_phrase_iff, Phrase.productions, bodyMembers]

theorem derives_sheet_iff : Derives [.phrase .sheet] ts ↔ Derives [sheetMembers] ts := by
  simp [derives_phrase_iff, Phrase.productions, sheetMembers]

theorem derives_factors_iff : Derives (factors :: ss) (u :: ts) ↔
    u = .star ∧ Derives (.phrase .atom :: factors :: ss) ts ∨ Derives ss (u :: ts) := by
  rw [factors, derives_many_iff, or_comm]
  simp [derives_terminal_iff]

theorem derives_terms_iff : Derives (terms :: ss) (u :: ts) ↔
    (u = .plus ∨ u = .minus) ∧ Derives (.phrase .atom :: factors :: terms :: ss) ts ∨
      Derives ss (u :: ts) := by
  rw [terms, derives_many_iff, or_comm]
  simp only [List.mem_cons, List.not_mem_nil, or_false, exists_eq_or_imp, exists_eq_left,
    List.cons_append, List.nil_append, derives_terminal_iff, derives_product_iff]
  rw [or_and_right]

theorem derives_furtherSelectors_iff : Derives (furtherSelectors :: ss) (u :: ts) ↔
    u = .comma ∧ Derives (.phrase .selector :: furtherSelectors :: ss) ts ∨ Derives ss (u :: ts) := by
  rw [furtherSelectors, derives_many_iff, or_comm]
  simp [derives_terminal_iff]

theorem derives_elsePart_iff : Derives (elsePart :: ss) (u :: ts) ↔
    u = .elseWord ∧ Derives (bracedBody ++ ss) ts ∨ Derives ss (u :: ts) := by
  rw [elsePart, derives_optional_iff, or_comm]
  simp [derives_phrase_iff, Phrase.productions, derives_terminal_iff, bracedBody]

theorem derives_bracedBody_iff : Derives (bracedBody ++ ss) (u :: ts) ↔
    u = .openBrace ∧ Derives (bodyMembers :: .terminal .closeBrace :: ss) ts := by
  simp only [bracedBody, List.cons_append, List.nil_append, derives_terminal_iff, derives_body_iff]

theorem derives_assignment_iff : Derives (.phrase .assignment :: ss) (u :: ts) ↔
    u = .variableName ∧
      Derives (.terminal .assign :: .phrase .expression :: .terminal .semicolon :: ss) ts := by
  rw [derives_phrase_iff]
  simp [Phrase.productions, derives_terminal_iff]

/-- A sheet goes on with an assignment or a rule. -/
theorem derives_sheetMembers_iff : Derives [sheetMembers] (u :: ts) ↔
    u = .variableName ∧ Derives [.terminal .assign, .phrase .expression, .terminal .semicolon,
        sheetMembers] ts ∨
      u ∈ [Terminal.className, .idName, .tagName] ∧
        Derives (furtherSelectors :: bracedBody ++ [sheetMembers]) ts := by
  have hrule : Derives [.phrase .rule, sheetMembers] (u :: ts) ↔
      u ∈ [Terminal.className, .idName, .tagName] ∧
        Derives (furtherSelectors :: bracedBody ++ [sheetMembers]) ts := by
    rw [derives_phrase_iff, ← derives_selector_iff]
    simp [Phrase.productions, furtherSelectors, bracedBody]
  have hend : ¬ Derives [] (u :: ts) := by rintro ⟨⟩
  rw [← derives_assignment_iff, ← hrule, sheetMembers, derives_many_iff]
  simp [hend]

/-- A body goes on with a declaration, an assignment or an if-clause, or is at its end. -/
theorem derives_bodyMembers_iff : Derives (bodyMembers :: ss) (u :: ts) ↔
    u = .tagName ∧ Derives (.terminal .colon :: .phrase .expression :: .terminal .semicolon ::
        bodyMembers :: ss) ts ∨
      u = .variableName ∧ Derives (.terminal .assign :: .phrase .expression :: .terminal .semicolon ::
        bodyMembers :: ss) ts ∨
      u = .ifWord ∧ Derives (.terminal .openBracket :: .phrase .expression ::
        .terminal .closeBracket :: bracedBody ++ elsePart :: bodyMembers :: ss) ts ∨
      Derives ss (u :: ts) := by
  have hdeclaration : ∀ ss', Derives (.phrase .declaration :: ss') (u :: ts) ↔ u = .tagName ∧
      Derives (.terminal .colon :: .phrase .expression :: .terminal .semicolon :: ss') ts := by
    intro ss'
    rw [derives_phrase_iff]
    simp [Phrase.productions, derives_terminal_iff]
  have hifClause : ∀ ss', Derives (.phrase .ifClause :: ss') (u :: ts) ↔ u = .ifWord ∧
      Derives (.terminal .openBracket :: .phrase .expression :: .terminal .closeBracket ::
        bracedBody ++ elsePart :: ss') ts := by
    intro ss'
    rw [derives_phrase_iff]
    simp [Phrase.productions, derives_terminal_iff, bracedBody, elsePart]
  rw [← hdeclaration, ← derives_assignment_iff, ← hifClause, bodyMembers, derives_many_iff]
  simp only [List.mem_cons, List.not_mem_nil, or_false, exists_eq_or_imp, exists_eq_left,
    List.cons_append, List.nil_append]
  tauto

end

section

variable {r : Reading} {t : Token} {ts : List Terminal}

/-- A token is accepted, and what is then to come derives the terminals. -/
def GoesOn (ts : List Terminal) (next : Except (List Terminal) Reading) : Prop :=
  ∃ r', next = .ok r' ∧ Derives r'.toCome ts

@[simp] theorem goesOn_ok {r' : Reading} : GoesOn ts (.ok r') ↔ Derives r'.toCome ts := by
  simp [GoesOn]

@[simp] theorem not_goesOn_error {wanted : List Terminal} : ¬ GoesOn ts (.error wanted) := by
  simp [GoesOn]

@[simp] theorem goesOn_some {r' : Reading} :
    GoesOn ts (advance.orWanted r (some r')) ↔ Derives r'.toCome ts := goesOn_ok

@[simp] theorem not_goesOn_none : ¬ GoesOn ts (advance.orWanted r none) := not_goesOn_error

/-- What was wanted instead does not matter. -/
theorem goesOn_orWanted {r' : Reading} {next : Option Reading} :
    GoesOn ts (advance.orWanted r next) ↔ GoesOn ts (advance.orWanted r' next) := by
  cases next <;> simp

@[simp] theorem toCome_goto (p : Point) : (r.goto p).toCome = p.toCome ++ outerToCome r.outer := rfl

@[simp] theorem toCome_openBlock (b : Block) : (r.openBlock b).toCome =
    bodyMembers :: .terminal .closeBrace :: (b.toCome ++ outerToCome r.outer) := rfl

@[simp] theorem toCome_close (b : OpenBlock) (outer : List OpenBlock) :
    (r.close b outer).toCome = b.block.toCome ++ outerToCome outer := by
  obtain ⟨block, before⟩ := b
  cases block <;> rfl

theorem selector?_isSome :
    (selector? t).isSome ↔ t.terminal ∈ [Terminal.className, .idName, .tagName] := by
  obtain ⟨terminal, text⟩ := t
  cases terminal <;> simp [selector?]

theorem operand?_isSome : (operand? t).isSome ↔ t.terminal ∈ operandTerminals := by
  obtain ⟨terminal, text⟩ := t
  cases terminal <;> simp [operand?, operandTerminals]

/-- The terminal that ends an expression. -/
theorem derives_purpose_iff (purpose : Purpose) (e : Node) :
    Derives (purpose.toCome ++ outerToCome r.outer) (t.terminal :: ts) ↔
      t.terminal = purpose.closing ∧ Derives (r.finishExpression purpose e).toCome ts := by
  cases purpose <;>
    simp [Purpose.toCome, Purpose.closing, finishExpression, toCome, add, goto, Point.toCome,
      derives_terminal_iff]

/-- A token that begins a member of the innermost block, or closes it. -/
theorem goesOn_beginMember : Derives (outerToCome r.outer) (t.terminal :: ts) ↔
    GoesOn ts (advance.orWanted r (r.beginMember t)) := by
  obtain ⟨terminal, text⟩ := t
  cases ho : r.outer with
  | nil =>
    rw [outerToCome, derives_sheetMembers_iff]
    cases terminal <;> simp [beginMember, ho, selector?, Point.toCome, outerToCome]
  | cons b outer =>
    rw [outerToCome, derives_bodyMembers_iff, derives_terminal_iff]
    cases terminal <;> simp [beginMember, ho, Point.toCome, outerToCome]

/-- A token after an if-clause: the else-clause, or what follows a complete member. -/
theorem goesOn_afterIf {c : Node} {body : List Node} (hp : r.point = .afterIf c body) :
    Derives (elsePart :: outerToCome r.outer) (t.terminal :: ts) ↔ GoesOn ts (r.advance t) := by
  have hbegin : Derives (outerToCome r.outer) (t.terminal :: ts) ↔ GoesOn ts
      (advance.orWanted r ((r.add (.ifClause none c body) .member).beginMember t)) := by
    rw [← goesOn_orWanted (r := r.add (.ifClause none c body) .member)]
    exact goesOn_beginMember (r := r.add (.ifClause none c body) .member)
  rw [derives_elsePart_iff, hbegin]
  simp only [advance, hp]
  split
  · rename_i hu
    obtain ⟨terminal, text⟩ := t
    obtain rfl : terminal = .elseWord := hu
    cases ho : r.outer <;> simp [beginMember, add, ho, selector?, Point.toCome]
  · rename_i hu
    exact or_iff_right fun h => hu h.1

/-- A token after an operand: an operator, or the end of the expression. -/
theorem goesOn_operator {purpose : Purpose} {sum : LeftOperand} {product : Node}
    (hp : r.point = .operator purpose sum product) :
    Derives (factors :: terms :: (purpose.toCome ++ outerToCome r.outer)) (t.terminal :: ts) ↔
      GoesOn ts (r.advance t) := by
  rw [derives_factors_iff, derives_terms_iff, derives_purpose_iff purpose (joinSum sum product)]
  have hclosing : purpose.closing = .closeBracket ∨ purpose.closing = .semicolon := by
    cases purpose <;> simp [Purpose.closing]
  simp only [advance, hp]
  split
  · rename_i hu
    rcases hclosing with hc | hc <;> simp [hu, hc, Point.toCome]
  · rename_i hu
    rcases hclosing with hc | hc <;> simp [hu, hc, Point.toCome]
  · rename_i hu
    rcases hclosing with hc | hc <;> simp [hu, hc, Point.toCome]
  · split <;> simp_all

/-- A token is accepted exactly if its terminal may come next, and then it leaves to come what comes
after it. -/
theorem goesOn_advance : Derives r.toCome (t.terminal :: ts) ↔ GoesOn ts (r.advance t) := by
  cases hp : r.point with
  | member | afterAssignment =>
    simp only [toCome, hp, advance, Point.toCome, List.nil_append]
    exact goesOn_beginMember
  | afterIf c body =>
    rw [toCome, hp]
    exact goesOn_afterIf hp
  | operator purpose sum product =>
    rw [toCome, hp]
    exact goesOn_operator hp
  | selector read =>
    simp only [toCome, hp, advance, Point.toCome, List.cons_append]
    rw [derives_selector_iff, ← selector?_isSome]
    cases selector? t <;> simp [Point.toCome]
  | operand purpose sum product =>
    simp only [toCome, hp, advance, Point.toCome, List.cons_append]
    rw [derives_atom_iff, ← operand?_isSome]
    cases operand? t <;> simp [toCome, Point.toCome]
  | selectorRead read =>
    simp only [toCome, hp, advance, Point.toCome, List.cons_append]
    rw [derives_furtherSelectors_iff, derives_bracedBody_iff]
    split <;> simp_all [Point.toCome, Block.toCome]
  | assignSign | propertyColon | conditionBracket =>
    simp only [toCome, hp, advance, Point.toCome, List.cons_append, List.nil_append]
    rw [derives_terminal_iff, derives_expression_iff]
    split <;> simp_all [Point.toCome, Purpose.toCome]
  | ifBrace | elseBrace =>
    simp only [toCome, hp, advance, Point.toCome, List.append_assoc, List.singleton_append]
    rw [derives_bracedBody_iff]
    split <;> simp_all [Block.toCome]

end

section

variable {r r' : Reading} {t : Token}

/-- If-clauses are read inside a block only. -/
structure Nested (r : Reading) : Prop where
  point : r.point.inBody = true → r.outer ≠ []
  blocks : ∀ b outer, b :: outer <:+ r.outer → b.block.inBody = true → outer ≠ []

theorem nested_start : Nested .start :=
  ⟨nofun, fun _ _ h => absurd (List.suffix_nil.mp h) (List.cons_ne_nil _ _)⟩

theorem Nested.at_point (h : r.Nested) (ho : r'.outer = r.outer)
    (hp : r'.point.inBody = true → r.outer ≠ []) : r'.Nested :=
  ⟨ho ▸ hp, ho ▸ h.blocks⟩

theorem Nested.openBlock (h : r.Nested) {b : Block} (hb : b.inBody = true → r.outer ≠ []) :
    (r.openBlock b).Nested := by
  refine ⟨nofun, fun b' outer hsuffix hin => ?_⟩
  rcases List.suffix_cons_iff.mp hsuffix with heq | hsuffix
  · cases heq
    exact hb hin
  · exact h.blocks b' outer hsuffix hin

theorem Nested.close (h : r.Nested) {b : OpenBlock} {outer : List OpenBlock}
    (ho : r.outer = b :: outer) : (r.close b outer).Nested := by
  have hblocks : ∀ b' outer', b' :: outer' <:+ outer → b'.block.inBody = true → outer' ≠ [] :=
    fun b' outer' hsuffix => h.blocks b' outer' (ho ▸ hsuffix.trans (List.suffix_cons b outer))
  have hhere := h.blocks b outer (ho ▸ List.suffix_refl _)
  obtain ⟨block, before⟩ := b
  cases block with
  | rule | elseBody => exact ⟨nofun, hblocks⟩
  | ifBody => exact ⟨fun _ => hhere rfl, hblocks⟩

theorem Nested.beginMember (h : r.Nested) (hb : r.beginMember t = some r') : r'.Nested := by
  simp only [Reading.beginMember] at hb
  split at hb
  · cases hb
    exact h.at_point rfl (by rintro ⟨⟩)
  · obtain ⟨s, -, rfl⟩ := Option.map_eq_some_iff.mp hb
    exact h.at_point rfl (by rintro ⟨⟩)
  · rename_i ho _
    cases hb
    exact h.at_point rfl fun _ => by simp [ho]
  · cases hb
    exact h.at_point rfl (by rintro ⟨⟩)
  · rename_i ho _
    cases hb
    exact h.close ho
  · cases hb

theorem Nested.advance (h : r.Nested) (hadv : r.advance t = .ok r') : r'.Nested := by
  have hpoint := h.point
  cases hp : r.point with
  | member | afterAssignment =>
    simp only [Reading.advance, hp, orWanted_eq_ok] at hadv
    exact h.beginMember hadv
  | afterIf c body =>
    rw [hp] at hpoint
    simp only [Reading.advance, hp] at hadv
    split at hadv
    · cases hadv
      exact h.at_point rfl fun _ => hpoint rfl
    · rw [orWanted_eq_ok] at hadv
      have hadd : (r.add (.ifClause none c body) .member).Nested := h.at_point rfl nofun
      exact hadd.beginMember hadv
  | selector =>
    simp only [Reading.advance, hp, orWanted_eq_ok] at hadv
    obtain ⟨s, -, rfl⟩ := Option.map_eq_some_iff.mp hadv
    exact h.at_point rfl nofun
  | selectorRead =>
    simp only [Reading.advance, hp] at hadv
    split at hadv
    · cases hadv
      exact h.at_point rfl nofun
    · cases hadv
      exact h.openBlock nofun
    · cases hadv
  | assignSign | propertyColon | conditionBracket =>
    rw [hp] at hpoint
    simp only [Reading.advance, hp] at hadv
    split at hadv <;> cases hadv
    exact h.at_point rfl hpoint
  | operand purpose =>
    rw [hp] at hpoint
    simp only [Reading.advance, hp] at hadv
    split at hadv <;> cases hadv
    exact h.at_point rfl fun hin => hpoint (by cases purpose <;> exact hin)
  | operator purpose =>
    rw [hp] at hpoint
    have hoperand : ∀ sum product, (Point.operand purpose sum product).inBody = true → r.outer ≠ [] :=
      fun _ _ hin => hpoint (by cases purpose <;> exact hin)
    simp only [Reading.advance, hp] at hadv
    split at hadv
    · cases hadv
      exact h.at_point rfl (hoperand _ _)
    · cases hadv
      exact h.at_point rfl (hoperand _ _)
    · cases hadv
      exact h.at_point rfl (hoperand _ _)
    · split at hadv <;> cases hadv
      cases purpose with
      | assignment | declaration => exact h.at_point rfl nofun
      | condition => exact h.at_point rfl fun _ => hpoint rfl
  | ifBrace | elseBrace =>
    rw [hp] at hpoint
    simp only [Reading.advance, hp] at hadv
    split at hadv <;> cases hadv
    exact h.openBlock fun _ => hpoint rfl

/-- The text may end exactly if nothing more need come. -/
theorem derives_nil_iff (h : r.Nested) :
    Derives r.toCome [] ↔ ∃ members, r.finish = .ok members := by
  cases ho : r.outer with
  | cons b outer =>
    have hbrace : .terminal .closeBrace ∈ r.toCome := by
      rw [toCome, ho, outerToCome]
      simp
    refine iff_of_false (not_derives_nil hbrace) ?_
    cases hp : r.point <;> simp [finish, hp, ho]
  | nil =>
    have hsheet : Derives [sheetMembers] [] := .done .nil
    have hout : r.point.inBody = false := by
      rw [← Bool.not_eq_true]
      exact fun hin => h.point hin ho
    cases hp : r.point with
    | member | afterAssignment => simpa [toCome, finish, hp, ho, Point.toCome, outerToCome]
    | afterIf | conditionBracket | ifBrace | elseBrace =>
      rw [hp] at hout
      cases hout
    | selector | selectorRead =>
      refine iff_of_false (not_derives_nil (t := .openBrace) ?_) (by simp [finish, hp])
      simp [toCome, hp, Point.toCome, bracedBody]
    | assignSign | propertyColon =>
      refine iff_of_false (not_derives_nil (t := .semicolon) ?_) (by simp [finish, hp])
      simp [toCome, hp, Point.toCome]
    | operand purpose | operator purpose =>
      refine iff_of_false (not_derives_nil (t := purpose.closing) ?_) (by simp [finish, hp])
      cases purpose <;> simp [toCome, hp, Point.toCome, Purpose.toCome, Purpose.closing]

end

end Reading

end StyleLang.Source
