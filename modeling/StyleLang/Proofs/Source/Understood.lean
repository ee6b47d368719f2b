import StyleLang.Proofs.Source.Lexeme
import StyleLang.Source.Parse

/-!
# What a reading has understood

A reading stands for the pieces that have been read so far, and everything it holds has the form that
the grammar asks for. Here are the parts that tokens add to it: selectors, operands, operations and
members of blocks.
-/

namespace StyleLang.Source

namespace Reading

def purposePieces : Purpose → List Piece
  | .assignment x => [.exact x.toList, .exact [':', '=']]
  | .declaration p => [.exact p.toList, .exact [':']]
  | .condition => [.exact ['i', 'f'], .exact ['[']]

def sumPieces : LeftOperand → List Piece
  | none => []
  | some (op, l) => pieces l ++ [.exact op.symbol.toList]

def productPieces : Option Node → List Piece
  | none => []
  | some l => pieces l ++ [.exact ['*']]

/-- The pieces from the last complete member on. -/
def pointPieces : Point → List Piece
  | .member => []
  | .afterAssignment => []
  | .afterIf c body => pieces (.ifClause none c body)
  | .selector read => selectorPieces read ++ [.exact [',']]
  | .selectorRead read => selectorPieces read
  | .assignSign x => [.exact x.toList]
  | .propertyColon p => [.exact p.toList]
  | .conditionBracket => [.exact ['i', 'f']]
  | .operand purpose sum product => purposePieces purpose ++ sumPieces sum ++ productPieces product
  | .operator purpose sum product => purposePieces purpose ++ sumPieces sum ++ pieces product
  | .ifBrace c => conditionPieces (pieces c)
  | .elseBrace c body => pieces (.ifClause none c body) ++ [.exact ['e', 'l', 's', 'e']]

def openingPieces : Block → List Piece
  | .rule ss => selectorPieces ss ++ [.exact ['\x7b']]
  | .ifBody c => conditionPieces (pieces c) ++ [.exact ['\x7b']]
  | .elseBody c body =>
    pieces (.ifClause none c body) ++ [.exact ['e', 'l', 's', 'e'], .exact ['\x7b']]

def outerPieces : List OpenBlock → List Piece
  | [] => []
  | b :: outer => outerPieces outer ++ piecesAll b.before.reverse ++ openingPieces b.block

/-- The pieces of the complete members, and of the blocks that are open. -/
def memberPieces (r : Reading) : List Piece := outerPieces r.outer ++ piecesAll r.members.reverse

def consumed (r : Reading) : List Piece := r.memberPieces ++ pointPieces r.point

/-- The node may come next, after the members read so far, latest first. -/
def MayFollow (members : List Node) (n : Node) : Prop := ∀ a ∈ members.head?, Apart a n

/-- Members of a block that `outer` is open around, latest first. -/
structure MembersForm (outer : List OpenBlock) (members : List Node) : Prop where
  sheet : outer = [] → ∀ n ∈ members, SheetMemberForm Apart n
  body : outer ≠ [] → ∀ n ∈ members, MemberForm Apart n
  chain : members.IsChain fun b a => Apart a b

def BlockForm (outer : List OpenBlock) (before : List Node) : Block → Prop
  | .rule ss => outer = [] ∧ SelectorsForm ss ∧ MayFollow before (.rule none ss [])
  | .ifBody c => outer ≠ [] ∧ SumForm c
  | .elseBody c body => outer ≠ [] ∧ SumForm c ∧ BodyForm Apart body

def OuterForm : List OpenBlock → Prop
  | [] => True
  | b :: outer => BlockForm outer b.before b.block ∧ MembersForm outer b.before ∧ OuterForm outer

def PurposeForm (outer : List OpenBlock) (members : List Node) : Purpose → Prop
  | .assignment x => isVariableText x.toList = true
  | .declaration p => outer ≠ [] ∧ isTagText p.toList = true ∧ p ≠ "if" ∧
      MayFollow members (.declaration none p default)
  | .condition => outer ≠ []

def LeftForm : LeftOperand → Prop
  | none => True
  | some (op, l) => op ≠ .multiply ∧ SumForm l

def PointForm (outer : List OpenBlock) (members : List Node) : Point → Prop
  | .member => ∀ n, MayFollow members n
  | .afterAssignment => ∀ p e, MayFollow members (.declaration none p e)
  | .afterIf c body => outer ≠ [] ∧ SumForm c ∧ BodyForm Apart body
  | .selector read => outer = [] ∧ SelectorsForm read ∧ MayFollow members (.rule none read [])
  | .selectorRead read => outer = [] ∧ SelectorsForm read ∧ MayFollow members (.rule none read [])
  | .assignSign x => PurposeForm outer members (.assignment x)
  | .propertyColon p => PurposeForm outer members (.declaration p)
  | .conditionBracket => outer ≠ []
  | .operand purpose sum product =>
    PurposeForm outer members purpose ∧ LeftForm sum ∧ ∀ l ∈ product, ProductForm l
  | .operator purpose sum product =>
    PurposeForm outer members purpose ∧ LeftForm sum ∧ ProductForm product
  | .ifBrace c => outer ≠ [] ∧ SumForm c
  | .elseBrace c body => outer ≠ [] ∧ SumForm c ∧ BodyForm Apart body

structure Understood (r : Reading) : Prop where
  outer : OuterForm r.outer
  members : MembersForm r.outer r.members
  point : PointForm r.outer r.members r.point

theorem understood_start : Understood .start :=
  ⟨trivial, ⟨fun _ => by simp [start], fun _ => by simp [start], .nil⟩, by simp [PointForm, start,
    MayFollow]⟩

/-- Whether a rule may come next is said by its first selector. -/
theorem apart_rule (a : Node) (m m' : Mark) (s : Selector) (ss ss' : List Selector)
    (body body' : List Node) :
    apart a (.rule m (s :: ss) body) = apart a (.rule m' (s :: ss') body') := by
  cases a <;> rfl

theorem apart_declaration (a : Node) (m m' : Mark) (p : String) (e e' : Node) :
    apart a (.declaration m p e) = apart a (.declaration m' p e') := by
  cases a <;> rfl

theorem apart_of_plain {b : Node} (hr : ∀ m ss body, b ≠ .rule m ss body)
    (hd : ∀ m p e, b ≠ .declaration m p e) (a : Node) : Apart a b := by
  cases a <;> cases b <;> simp_all [Apart, apart]

/-- Everything may stand after what is neither an assignment nor an if-clause on its own. -/
theorem apart_after {a : Node} (hx : ∀ m x e, a ≠ .assignment m x e)
    (hi : ∀ m c body, a ≠ .ifClause m c body) (b : Node) : Apart a b := by
  cases a <;> cases b <;> simp_all [Apart, apart]

theorem MembersForm.cons_sheet {members : List Node} (h : MembersForm [] members) {n : Node}
    (hn : SheetMemberForm Apart n) (hf : MayFollow members n) : MembersForm [] (n :: members) := by
  refine ⟨fun ho m hm => ?_, fun ho => absurd rfl ho, List.isChain_cons.mpr ⟨hf, h.chain⟩⟩
  rcases List.mem_cons.mp hm with rfl | hm
  · exact hn
  · exact h.sheet ho m hm

theorem MembersForm.cons_body {outer : List OpenBlock} {members : List Node} (hne : outer ≠ [])
    (h : MembersForm outer members) {n : Node} (hn : MemberForm Apart n)
    (hf : MayFollow members n) : MembersForm outer (n :: members) := by
  refine ⟨fun ho => absurd ho hne, fun ho m hm => ?_, List.isChain_cons.mpr ⟨hf, h.chain⟩⟩
  rcases List.mem_cons.mp hm with rfl | hm
  · exact hn
  · exact h.body ho m hm

theorem MembersForm.bodyForm {outer : List OpenBlock} {members : List Node} (hne : outer ≠ [])
    (h : MembersForm outer members) : BodyForm Apart members.reverse := by
  refine ⟨fun n hn => h.body hne n (List.mem_reverse.mp hn), ?_⟩
  exact List.isChain_reverse.mpr h.chain

theorem orWanted_eq_ok {r r' : Reading} {next : Option Reading} :
    advance.orWanted r next = .ok r' ↔ next = some r' := by
  cases next <;> simp [advance.orWanted]

theorem selector_of_token {t : Token} {s : Selector} (hlex : Lexeme t.terminal t.text)
    (h : selector? t = some s) : SelectorForm s ∧ s.text.toList = t.text := by
  obtain ⟨terminal, text⟩ := t
  simp only [selector?] at h
  split at h
  · cases hlex with
    | tagName hw =>
      cases h
      refine ⟨.tag ?_, ?_⟩
      · rwa [String.toList_ofList]
      · simp [Selector.text, Selector.sign, Selector.tag]
    | fixed ht => cases ht
  · cases hlex with
    | className hw =>
      cases h
      refine ⟨.ofClass ?_, ?_⟩
      · rwa [String.toList_ofList]
      · simp [Selector.text, Selector.sign, Selector.ofClass]
    | fixed ht => cases ht
  · cases hlex with
    | idName hw =>
      cases h
      refine ⟨.ofId ?_, ?_⟩
      · rwa [String.toList_ofList]
      · simp [Selector.text, Selector.sign, Selector.ofId]
    | fixed ht => cases ht
  · cases h

theorem consumed_goto (r : Reading) (p : Point) :
    (r.goto p).consumed = r.memberPieces ++ pointPieces p := rfl

theorem memberPieces_add (r : Reading) (n : Node) (p : Point) :
    (r.add n p).memberPieces = r.memberPieces ++ pieces n := by
  simp only [memberPieces, add, List.reverse_cons, piecesAll_append, piecesAll, List.append_nil,
    List.append_assoc]

/-- Closing a block adds its last piece, whatever becomes of the block. -/
theorem consumed_close (r : Reading) {b : OpenBlock} {outer : List OpenBlock}
    (h : r.outer = b :: outer) :
    (r.close b outer).consumed = r.memberPieces ++ [.exact ['\x7d']] := by
  obtain ⟨block, before⟩ := b
  simp only [memberPieces, h, outerPieces]
  cases block <;>
    simp only [close, consumed, memberPieces, pointPieces, openingPieces, pieces, blockPieces,
      conditionPieces, List.reverse_cons, piecesAll_append, piecesAll, List.append_nil,
      List.append_assoc, List.cons_append, List.nil_append]

theorem understood_close {r : Reading} {b : OpenBlock} {outer : List OpenBlock}
    (h : r.outer = b :: outer) (ho : OuterForm r.outer) (hm : MembersForm r.outer r.members) :
    Understood (r.close b outer) := by
  have hne : r.outer ≠ [] := by
    rw [h]
    exact List.cons_ne_nil b outer
  have hbody := hm.bodyForm hne
  obtain ⟨block, before⟩ := b
  rw [h] at ho
  obtain ⟨hblock, hbefore, houter⟩ := ho
  cases block with
  | rule ss =>
    obtain ⟨rfl, hss, hf⟩ := hblock
    refine ⟨houter, hbefore.cons_sheet (.rule hss hbody) ?_, ?_⟩
    · intro a ha
      cases ss with
      | nil => exact absurd rfl hss.ne_nil
      | cons s ss =>
        rw [Apart, apart_rule a none none s ss ss r.members.reverse []]
        exact hf a ha
    · intro n a ha
      cases ha
      exact apart_after (by simp) (by simp) n
  | ifBody c => exact ⟨houter, hbefore, hblock.1, hblock.2, hbody⟩
  | elseBody c ibody =>
    obtain ⟨hne', hc, hibody⟩ := hblock
    have hmember : MemberForm Apart (.ifElse none c ibody none r.members.reverse) :=
      .ifElse hc hibody.members hibody.chain hbody.members hbody.chain
    refine ⟨houter, hbefore.cons_body hne' hmember ?_, ?_⟩
    · intro a ha
      exact apart_of_plain (by simp) (by simp) a
    · intro n a ha
      cases ha
      exact apart_after (by simp) (by simp) n

/-- A token that begins a member of the innermost block, or closes it. -/
theorem understood_begin {r r' : Reading} {t : Token} (ho : OuterForm r.outer)
    (hm : MembersForm r.outer r.members) (hlex : Lexeme t.terminal t.text)
    (hrule : ∀ s, r.outer = [] → selector? t = some s → MayFollow r.members (.rule none [s] []))
    (hdecl : r.outer ≠ [] → t.terminal = .tagName → String.ofList t.text ≠ "if" ∧
      MayFollow r.members (.declaration none (String.ofList t.text) default))
    (h : r.beginMember t = some r') :
    Understood r' ∧ r'.consumed = r.memberPieces ++ [.exact t.text] := by
  obtain ⟨terminal, text⟩ := t
  simp only [beginMember] at h
  split at h
  · cases h
    cases hlex with
    | variableName hw =>
      refine ⟨⟨ho, hm, ?_⟩, ?_⟩
      · simpa [goto, PointForm, PurposeForm] using hw
      · simp [consumed_goto, pointPieces]
    | fixed ht => cases ht
  · rename_i hnil _
    obtain ⟨s, hs, rfl⟩ := Option.map_eq_some_iff.mp h
    obtain ⟨hform, htext⟩ := selector_of_token hlex hs
    have hss : SelectorsForm [s] := ⟨by simp, by simpa using hform⟩
    refine ⟨⟨ho, hm, hnil, hss, hrule s hnil hs⟩, ?_⟩
    rw [consumed_goto, pointPieces, selectorPieces, htext]
  · rename_i hcons
    cases h
    have hne : r.outer ≠ [] := by simp [hcons]
    cases hlex with
    | fixed ht =>
      cases ht
      exact ⟨⟨ho, hm, hne⟩, rfl⟩
  · rename_i hcons
    cases h
    have hne : r.outer ≠ [] := by simp [hcons]
    obtain ⟨hif, hf⟩ := hdecl hne rfl
    cases hlex with
    | tagName hw =>
      refine ⟨⟨ho, hm, hne, ?_, hif, hf⟩, ?_⟩
      · rwa [String.toList_ofList]
      · simp [consumed_goto, pointPieces]
    | fixed ht => cases ht
  · rename_i b outer hcons
    cases h
    cases hlex with
    | fixed ht =>
      cases ht
      exact ⟨understood_close hcons ho hm, consumed_close r hcons⟩
  · cases h

/-- A number with its unit, unless its digits are too many. -/
theorem spelled_number {t : Terminal} {text unit : List Char} (hlex : Lexeme t text)
    (ht : (t, unit) ∈ units) (hlong : overlong? ⟨t, text⟩ = none) :
    0 ≤ numberIn text ∧ Piece.Spelled (.number (numberIn text) unit) text := by
  obtain ⟨ds, hds, rfl⟩ := hlex.digits ht
  have htake := takeWhile_unit hds ht
  have hlen : ds.length ≤ Text.maxDigits := by
    by_contra hlen
    simp only [overlong?, htake, if_neg hlen] at hlong
    simp only [units, List.mem_cons, List.not_mem_nil, or_false, Prod.mk.injEq] at ht
    rcases ht with ⟨rfl, -⟩ | ⟨rfl, -⟩ | ⟨rfl, -⟩ <;> cases hlong
  rw [numberIn, htake]
  obtain ⟨hne, hall⟩ := isDigit_of_text hds
  exact ⟨Int.natCast_nonneg _, .number ⟨hne, hall, hlen⟩ unit⟩

/-- A token that is an operand makes an atom, of which its text is a spelling. -/
theorem operand_of_token {t : Token} {n : Node} (ht : Scanned operandTerminals t)
    (h : operand? t = some n) (ho : overlong? t = none) :
    AtomForm n ∧ ∃ p, p.Spelled t.text ∧ pieces n = [p] := by
  obtain ⟨terminal, text⟩ := t
  obtain ⟨hlex, hmem, hplain⟩ := ht
  simp only [operand?] at h
  split at h
  · cases h
    obtain ⟨hnn, hsp⟩ := spelled_number hlex (List.mem_cons_self ..) ho
    exact ⟨.pixel hnn, _, hsp, rfl⟩
  · cases h
    obtain ⟨hnn, hsp⟩ := spelled_number hlex (.tail _ (List.mem_cons_self ..)) ho
    exact ⟨.percentage hnn, _, hsp, rfl⟩
  · cases h
    cases hlex with
    | color hw =>
      refine ⟨.color ?_, _, .exact text, ?_⟩
      · rwa [String.toList_ofList]
      · simp [pieces, literalPiece]
    | fixed ht => cases ht
  · cases h
    obtain ⟨hnn, hsp⟩ := spelled_number hlex (.tail _ (.tail _ (List.mem_cons_self ..))) ho
    exact ⟨.scalar hnn, _, hsp, rfl⟩
  · cases h
    cases hlex with
    | fixed ht => cases ht; exact ⟨.bool true, _, .exact _, rfl⟩
  · cases h
    cases hlex with
    | fixed ht => cases ht; exact ⟨.bool false, _, .exact _, rfl⟩
  · cases h
    cases hlex with
    | variableName hw =>
      refine ⟨.reference ?_ ?_ ?_, _, .exact text, ?_⟩
      · rwa [String.toList_ofList]
      · intro htrue
        obtain rfl : text = ['T', 'R', 'U', 'E'] := by
          rw [← String.toList_ofList (l := text), htrue]
          rfl
        exact hplain .trueWord rfl (by decide)
      · intro hfalse
        obtain rfl : text = ['F', 'A', 'L', 'S', 'E'] := by
          rw [← String.toList_ofList (l := text), hfalse]
          rfl
        exact hplain .falseWord rfl (by decide)
      · simp [pieces]
    | fixed ht => cases ht
  · cases h

theorem joinProduct_form {product : Option Node} {n : Node} (h : ∀ l ∈ product, ProductForm l)
    (hn : AtomForm n) : ProductForm (joinProduct product n) := by
  cases product with
  | none => exact .atom hn
  | some l => exact .times (h l rfl) hn

theorem pieces_joinProduct (product : Option Node) (n : Node) :
    pieces (joinProduct product n) = productPieces product ++ pieces n := by
  cases product with
  | none => rfl
  | some l =>
    rw [joinProduct, pieces, productPieces, List.append_assoc]
    rfl

theorem joinSum_form {sum : LeftOperand} {product : Node} (h : LeftForm sum)
    (hp : ProductForm product) : SumForm (joinSum sum product) := by
  cases sum with
  | none => exact .product hp
  | some left => exact .sum h.1 h.2 hp

theorem pieces_joinSum (sum : LeftOperand) (product : Node) :
    pieces (joinSum sum product) = sumPieces sum ++ pieces product := by
  cases sum with
  | none => rfl
  | some left =>
    rw [joinSum, pieces, sumPieces, List.append_assoc]
    rfl

/-- A finished expression stands where its purpose has it. -/
theorem understood_finishExpression {r : Reading} (ho : OuterForm r.outer)
    (hm : MembersForm r.outer r.members) {purpose : Purpose}
    (hp : PurposeForm r.outer r.members purpose) {e : Node} (he : SumForm e) :
    Understood (r.finishExpression purpose e) ∧ ∀ text, purpose.closing.text? = some text →
      (r.finishExpression purpose e).consumed =
        r.memberPieces ++ purposePieces purpose ++ pieces e ++ [.exact text] := by
  cases purpose with
  | assignment x =>
    have hfollow : MayFollow r.members (.assignment none x e) := fun a _ =>
      apart_of_plain (by simp) (by simp) a
    refine ⟨⟨ho, ?_, ?_⟩, ?_⟩
    · show MembersForm r.outer (.assignment none x e :: r.members)
      cases houter : r.outer with
      | nil =>
        rw [houter] at hm
        exact hm.cons_sheet (.assignment hp he) hfollow
      | cons b outer =>
        rw [houter] at hm
        exact hm.cons_body (List.cons_ne_nil b outer) (.assignment hp he) hfollow
    · intro p e' a ha
      cases ha
      rfl
    · intro text ht
      cases ht
      rw [consumed, finishExpression, memberPieces_add]
      simp [pointPieces, add, pieces, purposePieces]
  | declaration p =>
    obtain ⟨hne, htag, hif, hf⟩ := hp
    have hfollow : MayFollow r.members (.declaration none p e) := by
      intro a ha
      rw [Apart, apart_declaration a none none p e default]
      exact hf a ha
    refine ⟨⟨ho, hm.cons_body hne (.declaration htag hif he) hfollow, ?_⟩, ?_⟩
    · intro n a ha
      cases ha
      exact apart_after (by simp) (by simp) n
    · intro text ht
      cases ht
      rw [consumed, finishExpression, memberPieces_add]
      simp [pointPieces, add, pieces, purposePieces]
  | condition =>
    refine ⟨⟨ho, hm, hp, he⟩, ?_⟩
    intro text ht
    cases ht
    rw [finishExpression, consumed_goto]
    simp [pointPieces, conditionPieces, purposePieces]

end Reading

end StyleLang.Source
