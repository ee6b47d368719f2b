import StyleLang.Proofs.Css.Spelling
import StyleLang.Proofs.Source.Completeness
import StyleLang.Proofs.Tree.Walk

/-!
# CSS text reads back

The text of a sheet of rules whose names, colors and numbers can be spelled is parsed as the same sheet,
unless one of its numbers is negative: the grammar has no sign, so the text is rejected at the first
negative number.
-/

namespace StyleLang

open Source

/-- A literal that can be written, with a color that can be read. -/
def Literal.IsCss : Literal → Prop
  | color s => isColorText s.toList = true
  | v => ¬ v.IsTooLong

def Literal.isNegative (v : Literal) : Bool := v.number?.any (· < 0)

inductive CssMember : Node → Prop
  | declaration (m : Mark) {p : String} (m' : Mark) {v : Literal} (hp : isTagText p.toList = true)
      (hif : p ≠ "if") (hv : v.IsCss) : CssMember (.declaration m p (.literal m' v))

inductive CssRule : Node → Prop
  | rule (m : Mark) {ss : List Selector} {body : List Node} (hss : SelectorsForm ss)
      (hbody : ∀ n ∈ body, CssMember n) : CssRule (.rule m ss body)

/-- Rules with at least one selector, whose bodies hold only declarations of literals. -/
def Sheet.IsCss (s : Sheet) : Prop := ∀ n ∈ s.members, CssRule n

def NegativeMember (n : Node) : Prop :=
  ∃ m p m' v, n = .declaration m p (.literal m' v) ∧ v.isNegative = true

def NegativeRule (n : Node) : Prop :=
  ∃ m ss body, n = .rule m ss body ∧ ∃ d ∈ body, NegativeMember d

/-- Some declaration of the sheet holds a negative number. -/
def Sheet.HoldsNegative (s : Sheet) : Prop := ∃ n ∈ s.members, NegativeRule n

theorem CssMember.plain {n : Node} (h : CssMember n) : PlainMember n := by
  cases h with
  | declaration m m' hp hif hv => exact .declaration m _ m' _

theorem CssRule.plain {n : Node} (h : CssRule n) : PlainRule n ∧ n.selectors ≠ [] := by
  cases h with
  | rule m hss hbody => exact ⟨.rule m _ fun n hn => (hbody n hn).plain, hss.ne_nil⟩

theorem Literal.IsCss.not_tooLong {v : Literal} (h : v.IsCss) : ¬ v.IsTooLong := by
  cases v with
  | color s =>
    intro hlong
    obtain ⟨n, hn, -⟩ := hlong
    cases hn
  | pixel | percentage | scalar | bool => exact h

/-- A literal that is not negative is an atom of the grammar. -/
theorem atomForm_of_css {v : Literal} (h : v.IsCss) (hv : v.isNegative = false) :
    AtomForm (.literal none v) := by
  cases v with
  | color s => exact .color h
  | bool b => exact .bool b
  | pixel n =>
    have hn : 0 ≤ n := by simpa [Literal.isNegative, Literal.number?] using hv
    exact .pixel hn
  | percentage n =>
    have hn : 0 ≤ n := by simpa [Literal.isNegative, Literal.number?] using hv
    exact .percentage hn
  | scalar n =>
    have hn : 0 ≤ n := by simpa [Literal.isNegative, Literal.number?] using hv
    exact .scalar hn

theorem negative_piece {v : Literal} (h : v.isNegative = true) :
    ∃ n unit, n < 0 ∧ literalPiece v = .number n unit := by
  cases v with
  | pixel n => exact ⟨n, ['p', 'x'], by simpa [Literal.isNegative, Literal.number?] using h, rfl⟩
  | percentage n => exact ⟨n, ['%'], by simpa [Literal.isNegative, Literal.number?] using h, rfl⟩
  | scalar n => exact ⟨n, [], by simpa [Literal.isNegative, Literal.number?] using h, rfl⟩
  | color s => simp [Literal.isNegative, Literal.number?] at h
  | bool b => simp [Literal.isNegative, Literal.number?] at h

mutual

theorem pieces_unmarked (n : Node) : pieces n.unmarked = pieces n := by
  cases n with
  | literal | reference | foreign => rfl
  | operation m op l r => rw [Node.unmarked, pieces, pieces, pieces_unmarked l, pieces_unmarked r]
  | declaration m p e => rw [Node.unmarked, pieces, pieces, pieces_unmarked e]
  | assignment m x e => rw [Node.unmarked, pieces, pieces, pieces_unmarked e]
  | ifClause m c body =>
    rw [Node.unmarked, pieces, pieces, pieces_unmarked c, piecesAll_unmarkedAll body]
  | ifElse m c body em ebody =>
    rw [Node.unmarked, pieces, pieces, pieces_unmarked c, piecesAll_unmarkedAll body,
      piecesAll_unmarkedAll ebody]
  | elseClause m body => rw [Node.unmarked, pieces, pieces, piecesAll_unmarkedAll body]
  | rule m ss body => rw [Node.unmarked, pieces, pieces, piecesAll_unmarkedAll body]
  | sheet m members => rw [Node.unmarked, pieces, pieces, piecesAll_unmarkedAll members]

theorem piecesAll_unmarkedAll (ns : List Node) : piecesAll (Node.unmarkedAll ns) = piecesAll ns := by
  cases ns with
  | nil => rfl
  | cons n ns =>
    rw [Node.unmarkedAll, piecesAll, piecesAll, pieces_unmarked n, piecesAll_unmarkedAll ns]

end

theorem memberForm_of_css {n : Node} (h : CssMember n) (hn : ¬ NegativeMember n) :
    MemberForm Apart n.unmarked := by
  cases h with
  | @declaration m p m' v hp hif hv =>
    have hpos : v.isNegative = false := by
      rw [Bool.eq_false_iff]
      exact fun hneg => hn ⟨m, p, m', v, rfl, hneg⟩
    exact .declaration hp hif (.product (.atom (atomForm_of_css hv hpos)))

/-- Neither declarations nor rules keep anything from coming next. -/
theorem apart_unmarked {n : Node} (h : CssMember n ∨ CssRule n) (m : Node) : Apart n.unmarked m := by
  rcases h with h | h
  · cases h
    rfl
  · cases h
    rfl

theorem isChain_unmarkedAll {ns : List Node} (h : ∀ n ∈ ns, CssMember n ∨ CssRule n) :
    (Node.unmarkedAll ns).IsChain Apart := by
  refine List.Pairwise.isChain (List.pairwise_of_forall_mem_list fun a ha b _ => ?_)
  rw [Node.unmarkedAll_eq_map] at ha
  obtain ⟨n, hn, rfl⟩ := List.mem_map.mp ha
  exact apart_unmarked (h n hn) b

theorem sheetMemberForm_of_css {n : Node} (h : CssRule n) (hn : ¬ NegativeRule n) :
    SheetMemberForm Apart n.unmarked := by
  cases h with
  | @rule m ss body hss hbody =>
    have hpos : ∀ d ∈ body, ¬ NegativeMember d := fun d hd hneg => hn ⟨m, ss, body, rfl, d, hd, hneg⟩
    refine .rule hss ⟨?_, ?_⟩
    · rw [Node.unmarkedAll_eq_map]
      intro d hd
      obtain ⟨d', hd', rfl⟩ := List.mem_map.mp hd
      exact memberForm_of_css (hbody d' hd') (hpos d' hd')
    · exact isChain_unmarkedAll fun d hd => Or.inl (hbody d hd)

/-- Without negative numbers and without marks the sheet is one that the grammar describes. -/
theorem Sheet.IsCss.sheetForm {s : Sheet} (h : s.IsCss) (hn : ¬ s.HoldsNegative) :
    SheetForm Apart ⟨none, Node.unmarkedAll s.members⟩ := by
  refine ⟨rfl, ?_, isChain_unmarkedAll fun n hn => Or.inr (h n hn)⟩
  rw [Node.unmarkedAll_eq_map]
  intro n hmem
  obtain ⟨n', hn', rfl⟩ := List.mem_map.mp hmem
  exact sheetMemberForm_of_css (h n' hn') fun hneg => hn ⟨n', hn', hneg⟩

namespace Source.Reading

/-- No operand begins with a sign. -/
theorem scan?_minus (cs : List Char) : scan? operandTerminals ('-' :: cs) = none := by
  rw [scan?, List.findSome?_eq_none_iff]
  intro u hu
  by_cases hmem : u ∈ operandTerminals
  · have hgroup : ∀ u ∈ operandTerminals, group '-' ≠ u.group := by decide
    rw [if_pos hmem, spelled?_eq_none (hgroup u hmem)]
    rfl
  · exact if_neg hmem

theorem rejects_negative {r : Reading} {purpose : Purpose} {sum : LeftOperand}
    {product : Option Node} {v : Int} (hv : v < 0) (unit : List Char) (qs : List Piece) :
    Rejects (r.goto (.operand purpose sum product)) (.number v unit :: qs) := by
  intro cs hcs last
  cases hcs with
  | @piece gap text _ _ rest hgap hp hrest =>
    cases hp with
    | number hds => omega
    | @negative ds hds hpos _ =>
      have hskip : skip (gap ++ ('-' :: ds ++ unit) ++ rest) = '-' :: (ds ++ unit ++ rest) := by
        rw [List.append_assoc, skip_gap hgap]
        exact skip_of_solid (by decide) (by decide) _
      rw [readAll]
      split
      · rename_i heq
        rw [hskip] at heq
        cases heq
      · rename_i c cs' heq
        rw [hskip] at heq
        cases heq
        have hscan : scan? (r.goto (.operand purpose sum product)).tried
            ('-' :: (ds ++ unit ++ rest)) = none := scan?_minus _
        split
        · exact ⟨_, rfl⟩
        · rename_i heq'
          rw [hscan] at heq'
          cases heq'

/-- Anything may come next. -/
def Loose (ns : List Node) : Prop := ∀ n, MayFollow ns n

theorem loose_nil : Loose [] := by
  intro n a ha
  cases ha

theorem loose_cons {n : Node} (h : CssMember n ∨ CssRule n) (ns : List Node) :
    Loose (n.unmarked :: ns) := by
  intro m a ha
  cases ha
  exact apart_unmarked h m

/-- Members are rejected at the first bad one, if those before it can be read. -/
theorem rejects_first {outer : List OpenBlock} {bad : Node → Prop} {members : List Node}
    (hread : ∀ n ∈ members, ¬ bad n → ∀ ns qs, Loose ns → Loose (n.unmarked :: ns) ∧
      Reads (standing outer ns) (pieces n) (standing outer (n.unmarked :: ns)) qs)
    (hreject : ∀ n ∈ members, bad n → ∀ ns qs, Loose ns →
      Rejects (standing outer ns) (pieces n ++ qs))
    (hbad : ∃ n ∈ members, bad n) {ns : List Node} (hns : Loose ns) (qs : List Piece) :
    Rejects (standing outer ns) (piecesAll members ++ qs) := by
  induction members generalizing ns with
  | nil =>
    obtain ⟨n, hn, -⟩ := hbad
    cases hn
  | cons n members ih =>
    rw [piecesAll, List.append_assoc]
    by_cases hn : bad n
    · exact hreject n List.mem_cons_self hn ns (piecesAll members ++ qs) hns
    · obtain ⟨hloose, hreads⟩ :=
        hread n List.mem_cons_self hn ns (piecesAll members ++ qs) hns
      have hrest : ∃ m ∈ members, bad m := by
        obtain ⟨m, hm, hbad⟩ := hbad
        rcases List.mem_cons.mp hm with rfl | hm
        · exact absurd hbad hn
        · exact ⟨m, hm, hbad⟩
      exact hreads.rejects (ih (fun m hm => hread m (List.mem_cons_of_mem n hm))
        (fun m hm => hreject m (List.mem_cons_of_mem n hm)) hrest hloose)

theorem rejects_member {b : OpenBlock} {outer : List OpenBlock} {n : Node} (h : CssMember n)
    (hneg : NegativeMember n) {ns : List Node} (hns : Loose ns) (qs : List Piece) :
    Rejects (standing (b :: outer) ns) (pieces n ++ qs) := by
  obtain ⟨m, p, m', v, rfl, hv⟩ := hneg
  obtain ⟨k, unit, hk, hpiece⟩ := negative_piece hv
  cases h with
  | declaration _ _ hp hif _ =>
    have hname : Reads (standing (b :: outer) ns) [.exact p.toList]
        ((before (b :: outer) ns).goto (.propertyColon p))
        (.exact [':'] :: literalPiece v :: .exact [';'] :: qs) :=
      reads_property hp hif (hns (.declaration none p (.literal none v))) (beginsWith (by decide) _ _)
    have hcolon : Reads ((before (b :: outer) ns).goto (.propertyColon p)) [.exact [':']]
        ((before (b :: outer) ns).goto (.operand (.declaration p) none none))
        (literalPiece v :: .exact [';'] :: qs) :=
      reads_mark (u := .colon) rfl (by decide) (by decide : Alone [.colon] .colon) rfl
    have hvalue : Rejects ((before (b :: outer) ns).goto (.operand (.declaration p) none none))
        (literalPiece v :: .exact [';'] :: qs) := by
      rw [hpiece]
      exact rejects_negative hk unit _
    exact hname.rejects (hcolon.rejects hvalue)

theorem rejects_rule {n : Node} (h : CssRule n) (hneg : NegativeRule n) {ns : List Node}
    (hns : Loose ns) (qs : List Piece) : Rejects (standing [] ns) (pieces n ++ qs) := by
  obtain ⟨m, ss, body, rfl, hbad⟩ := hneg
  cases h with
  | rule _ hss hbody =>
    let inner := piecesAll body ++ (.exact ['\x7d'] :: qs)
    have hselectors : Reads (standing [] ns) (selectorPieces ss)
        ((before [] ns).goto (.selectorRead ss)) (.exact ['\x7b'] :: inner) :=
      reads_ruleSelectors hss (hns (.rule none ss body)) (beginsWith (by decide) _ _)
    have hbrace : Reads ((before [] ns).goto (.selectorRead ss)) [.exact ['\x7b']]
        (standing [⟨.rule ss, ns⟩] []) inner :=
      reads_mark (u := .openBrace) rfl (by decide)
        (by decide : Alone [.comma, .openBrace] .openBrace) rfl
    have hread : ∀ d ∈ body, ¬ NegativeMember d → ∀ ns' qs, Loose ns' →
        Loose (d.unmarked :: ns') ∧ Reads (standing [⟨.rule ss, ns⟩] ns') (pieces d)
          (standing [⟨.rule ss, ns⟩] (d.unmarked :: ns')) qs := by
      intro d hd hpos ns' qs hns'
      have hform := memberForm_of_css (hbody d hd) hpos
      have hreads := reads_member hform ⟨.rule ss, ns⟩ [] ns' qs (hns' d.unmarked)
      rw [pieces_unmarked] at hreads
      exact ⟨loose_cons (Or.inl (hbody d hd)) ns', hreads⟩
    have hinner : Rejects (standing [⟨.rule ss, ns⟩] []) inner :=
      rejects_first hread (fun d hd hneg ns' qs hns' => rejects_member (hbody d hd) hneg hns' qs)
        hbad loose_nil _
    have hpieces : pieces (.rule m ss body) ++ qs =
        selectorPieces ss ++ ([.exact ['\x7b']] ++ inner) := by
      simp [pieces, blockPieces, inner]
    rw [hpieces]
    exact hselectors.rejects (hbrace.rejects hinner)

/-- A sheet that holds a negative number is rejected there. -/
theorem rejects_sheet {s : Sheet} (h : s.IsCss) (hneg : s.HoldsNegative) :
    Rejects (standing [] []) (piecesAll s.members) := by
  have hread : ∀ n ∈ s.members, ¬ NegativeRule n → ∀ ns qs, Loose ns →
      Loose (n.unmarked :: ns) ∧
        Reads (standing [] ns) (pieces n) (standing [] (n.unmarked :: ns)) qs := by
    intro n hn hpos ns qs hns
    have hreads := reads_sheetMember (sheetMemberForm_of_css (h n hn) hpos) (hns n.unmarked) qs
    rw [pieces_unmarked] at hreads
    exact ⟨loose_cons (Or.inr (h n hn)) ns, hreads⟩
  have hrejects := rejects_first hread (fun n hn hneg ns qs hns => rejects_rule (h n hn) hneg hns qs)
    hneg loose_nil []
  rwa [List.append_nil] at hrejects

end Source.Reading

theorem Sheet.IsCss.not_tooLong {s : Sheet} (h : s.IsCss) {v : Literal} (hv : s.Declares v) :
    ¬ v.IsTooLong := by
  obtain ⟨m, ss, body, m', p, m'', hrule, hmember⟩ := hv
  cases h _ hrule with
  | rule _ hss hbody =>
    cases hbody _ hmember with
    | declaration _ _ hp hif hcss => exact hcss.not_tooLong

theorem parse_negative {s : Sheet} (h : s.IsCss) (hneg : s.HoldsNegative) {source : String}
    (hsource : Spells (pieces s.node) source.toList) : ∃ e, parse source = .error e := by
  obtain ⟨e, he⟩ : ∃ e, readAll .start source.toList source.toList = .error e :=
    Reading.rejects_sheet h hneg source.toList hsource source.toList
  refine ⟨.rejected (e.error source.toList), ?_⟩
  simp only [parse, he]

theorem parse_nonnegative {s : Sheet} (h : s.IsCss) (hneg : ¬ s.HoldsNegative) {source : String}
    (hsource : Spells (pieces s.node) source.toList) :
    parse source = .ok ⟨none, Node.unmarkedAll s.members⟩ := by
  apply parse_of_spells (h.sheetForm hneg)
  rwa [← pieces_unmarked] at hsource

/-- The text of a sheet of CSS is parsed exactly if the sheet holds no negative number, and then as the
same sheet, whatever blanks it is laid out with. -/
theorem css_reads_back (layout : Layout) (s : Sheet)
    (hindent : ∀ c ∈ layout.indent.text.toList, isBlank c = true)
    (hsep : ∀ c ∈ layout.separator.toList, isBlank c = true) (h : s.IsCss) :
    ∃ text, s.css layout = .ok text ∧ ((∃ t, parse text = .ok t) ↔ ¬ s.HoldsNegative) ∧
      ∀ t, parse text = .ok t → t.node.same s.node = true := by
  have hplain : s.IsPlain := fun n hn => (h n hn).plain.1
  have hselectors : ∀ n ∈ s.members, n.selectors ≠ [] := fun n hn => (h n hn).plain.2
  obtain ⟨text, htext⟩ : ∃ text, s.css layout = .ok text := by
    rcases Sheet.css_plain hplain layout with htext | htext
    · exact htext
    · obtain ⟨-, v, hdeclares, hlong⟩ := htext
      exact absurd hlong (h.not_tooLong hdeclares)
  have hspells := spells_css (.of_blanks hindent) (.of_blanks hsep) hplain hselectors htext
  refine ⟨text, htext, ?_, ?_⟩
  · constructor
    · intro hparse hneg
      obtain ⟨t, ht⟩ := hparse
      obtain ⟨e, he⟩ := parse_negative h hneg hspells
      rw [ht] at he
      cases he
    · intro hneg
      exact ⟨_, parse_nonnegative h hneg hspells⟩
  · intro t ht
    have hneg : ¬ s.HoldsNegative := by
      intro hneg
      obtain ⟨e, he⟩ := parse_negative h hneg hspells
      rw [ht] at he
      cases he
    rw [parse_nonnegative h hneg hspells] at ht
    cases ht
    rw [Node.same, decide_eq_true_iff]
    simp only [Sheet.node, Node.unmarked, Node.unmarkedAll_unmarkedAll]

/-- Names that look like keywords are read back; a sign is not. -/
theorem css_reads_back_signs :
    let s : Int → Sheet := fun n =>
      ⟨none, [.rule none [.tag "if"] [.declaration none "else" (.literal none (.pixel n))]]⟩
    (∃ text t, (s 12).css ⟨⟨"", 0⟩, ""⟩ = .ok text ∧ parse text = .ok t ∧
        t.node.same (s 12).node = true) ∧
      ∃ text, (s (-12)).css .standard = .ok text ∧ ¬ ∃ t, parse text = .ok t := by
  intro s
  have hcss : ∀ n, ¬ (Literal.pixel n).IsTooLong → (s n).IsCss := by
    intro n hn m hm
    cases List.mem_singleton.mp hm
    have hselector : SelectorForm (.tag "if") := .tag (by decide)
    have hmember : CssMember (.declaration none "else" (.literal none (.pixel n))) :=
      .declaration none none (by decide) (by decide) hn
    exact .rule none ⟨by decide, by simpa using hselector⟩ (by simpa using hmember)
  have hholds : ∀ n, (s n).HoldsNegative ↔ n < 0 := by
    intro n
    simp [s, Sheet.HoldsNegative, NegativeRule, NegativeMember, Literal.isNegative, Literal.number?]
  constructor
  · have hshort : ¬ (Literal.pixel 12).IsTooLong := by
      intro hlong
      obtain ⟨n, hn, hlen⟩ := hlong
      cases hn
      exact absurd hlen (by decide)
    obtain ⟨text, htext, hparse, hsame⟩ :=
      css_reads_back ⟨⟨"", 0⟩, ""⟩ (s 12) (List.all_eq_true.mp (by decide))
        (List.all_eq_true.mp (by decide)) (hcss 12 hshort)
    obtain ⟨t, ht⟩ := hparse.mpr (by rw [hholds]; decide)
    exact ⟨text, t, htext, ht, hsame t ht⟩
  · have hshort : ¬ (Literal.pixel (-12)).IsTooLong := by
      intro hlong
      obtain ⟨n, hn, hlen⟩ := hlong
      cases hn
      exact absurd hlen (by decide)
    obtain ⟨text, htext, hparse, -⟩ :=
      css_reads_back .standard (s (-12)) (List.all_eq_true.mp (by decide))
        (List.all_eq_true.mp (by decide)) (hcss (-12) hshort)
    refine ⟨text, htext, fun ht => hparse.mp ht ?_⟩
    rw [hholds]
    decide

end StyleLang
