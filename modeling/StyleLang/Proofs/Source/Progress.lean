import StyleLang.Proofs.Source.Scanning
import StyleLang.Source.Parse

/-!
# Reading on past a spelling

Where pieces are spelled, reading on passes them one by one. What is said here of tokens and of
expressions holds wherever they stand, for every spelling of them and of the pieces that come after.
The piece that comes next matters for names and numbers only: it must not be taken into the token.
-/

namespace StyleLang.Source

/-- What may begin the piece after a name. -/
def nameMarks : List Char := [',', '\x7b', ':', '[']

/-- What may begin the piece after an operand. -/
def operandMarks : List Char := ['+', '-', '*', ';', ']']

/-- The first piece is written in one way, which begins with one of the characters. -/
def BeginsWith (marks : List Char) : List Piece → Prop
  | .exact (x :: _) :: _ => x ∈ marks
  | _ => False

theorem beginsWith {marks : List Char} {x : Char} (h : x ∈ marks) (xs : List Char)
    (qs : List Piece) : BeginsWith marks (.exact (x :: xs) :: qs) := h

theorem BeginsWith.append {marks : List Char} {ps : List Piece} (h : BeginsWith marks ps)
    (qs : List Piece) : BeginsWith marks (ps ++ qs) := by
  unfold BeginsWith at h
  split at h
  · exact h
  · exact absurd h id

theorem BeginsWith.breaks {marks : List Char} {qs : List Piece} (h : BeginsWith marks qs)
    {rest : List Char} (hrest : Spells qs rest) : Breaks marks rest := by
  unfold BeginsWith at h
  split at h
  · exact hrest.breaks h
  · exact absurd h id

theorem found_mark {u : Terminal} {text : List Char} (h : u.text? = some text)
    (hu : u ∈ Terminal.spelled) (rest : List Char) :
    u.spelled? (text ++ rest) = some (text, rest) := by
  cases u with
  | assign =>
    cases h
    exact followedBy?_iff.mpr ⟨[':'], '=' :: rest, ['='], char?_iff.mpr ⟨rfl, rfl⟩,
      char?_iff.mpr ⟨rfl, rfl⟩, rfl⟩
  | colon | comma | openBrace | closeBrace | openBracket | closeBracket | plus | minus | star
  | semicolon =>
    cases h
    simp [Terminal.spelled?, char?]
  | pixel | percentage | color | className | idName | variableName | tagName | scalar => cases h
  | ifWord | elseWord | trueWord | falseWord | ending => exact absurd hu (by decide)

theorem found_name {u : Terminal} {text rest : List Char} (h : Lexeme u text)
    (hu : u ∈ [Terminal.className, .idName, .tagName, .variableName])
    (hrest : Breaks nameMarks rest) : u.spelled? (text ++ rest) = some (text, rest) := by
  have hname : Stops isNameChar rest := hrest.stops (by decide)
  cases h with
  | className hw =>
    exact followedBy?_iff.mpr ⟨['.'], _, _, char?_iff.mpr ⟨rfl, rfl⟩,
      run?_iff.mpr ⟨hw, rfl, hname⟩, rfl⟩
  | idName hw =>
    exact followedBy?_iff.mpr ⟨['#'], _, _, char?_iff.mpr ⟨rfl, rfl⟩,
      run?_iff.mpr ⟨hw, rfl, hname⟩, rfl⟩
  | variableName hw => exact run?_iff.mpr ⟨hw, rfl, hrest.stops (by decide)⟩
  | tagName hw => exact run?_iff.mpr ⟨hw, rfl, hrest.stops (by decide)⟩
  | pixel | percentage | scalar | color => exact absurd hu (by decide)
  | fixed ht =>
    simp only [List.mem_cons, List.not_mem_nil, or_false] at hu
    rcases hu with rfl | rfl | rfl | rfl <;> cases ht

theorem found_variable {text rest : List Char} (h : isVariableText text = true)
    (hrest : Breaks operandMarks rest) :
    Terminal.variableName.spelled? (text ++ rest) = some (text, rest) :=
  run?_iff.mpr ⟨h, rfl, hrest.stops (by decide)⟩

theorem found_color {text rest : List Char} (h : isColorText text = true)
    (hrest : Breaks operandMarks rest) :
    Terminal.color.spelled? (text ++ rest) = some (text, rest) := by
  have hword : Stops Text.isWordChar rest := hrest.stops (by decide)
  unfold isColorText at h
  split at h
  · rename_i ds
    simp only [Bool.and_eq_true, Bool.or_eq_true, decide_eq_true_eq] at h
    exact followedBy?_iff.mpr ⟨['#'], _, ds, char?_iff.mpr ⟨rfl, rfl⟩,
      colorDigits?_iff.mpr ⟨h, rfl, hword⟩, rfl⟩
  · cases h

theorem spelled?_eq_none {u : Terminal} {c : Char} (h : group c ≠ u.group) (cs : List Char) :
    u.spelled? (c :: cs) = none := by
  cases hs : u.spelled? (c :: cs) with
  | none => rfl
  | some m => exact absurd (group_of_spelled? hs) h

theorem char?_eq_none {x : Char} {rest : List Char} (h : x ∉ rest.head?) :
    char? x rest = none := by
  cases rest with
  | nil => rfl
  | cons c rest =>
    have hne : c ≠ x := fun hc => h (by rw [hc]; rfl)
    exact if_neg hne

/-- Digits are no number with a unit if the unit does not follow them. -/
theorem followedBy?_digits_eq_none {ds rest : List Char} (hds : isDigitsText ds = true)
    (hrest : Stops Text.isDigit rest) {g : List Char → Option Match} (hg : g rest = none) :
    followedBy? (run? Text.isDigit Text.isDigit) g (ds ++ rest) = none := by
  have hrun : run? Text.isDigit Text.isDigit (ds ++ rest) = some (ds, rest) :=
    run?_iff.mpr ⟨hds, rfl, hrest⟩
  simp only [followedBy?, hrun, hg]

theorem pixel_eq_none {ds rest : List Char} (hds : isDigitsText ds = true)
    (hrest : Stops Text.isDigit rest) (hp : 'p' ∉ rest.head?) :
    Terminal.pixel.spelled? (ds ++ rest) = none := by
  refine followedBy?_digits_eq_none hds hrest ?_
  simp only [followedBy?, char?_eq_none hp]

theorem scan_number {t : Terminal} {ds unit rest : List Char} (hds : isDigitsText ds = true)
    (ht : (t, unit) ∈ units) (hrest : Breaks operandMarks rest) :
    scan? Reading.operandTerminals (ds ++ unit ++ rest) = some (⟨t, ds ++ unit⟩, rest) := by
  simp only [units, List.mem_cons, List.not_mem_nil, or_false, Prod.mk.injEq] at ht
  rw [List.append_assoc]
  rcases ht with ht | ht | ht
  · obtain ⟨rfl, rfl⟩ := ht
    refine scan?_of_first [] _ rfl (by decide) (by simp) ?_
    exact followedBy?_iff.mpr ⟨ds, _, ['p', 'x'],
      run?_iff.mpr ⟨hds, rfl, stops_cons (by decide) _⟩,
      followedBy?_iff.mpr ⟨['p'], _, ['x'], char?_iff.mpr ⟨rfl, rfl⟩, char?_iff.mpr ⟨rfl, rfl⟩,
        rfl⟩, rfl⟩
  · obtain ⟨rfl, rfl⟩ := ht
    refine scan?_of_first [.pixel] _ rfl (by decide) ?_ ?_
    · intro u hu _
      obtain rfl := List.mem_singleton.mp hu
      exact pixel_eq_none hds (stops_cons (by decide) _) (by simp)
    · exact followedBy?_iff.mpr ⟨ds, _, ['%'], run?_iff.mpr ⟨hds, rfl, stops_cons (by decide) _⟩,
        char?_iff.mpr ⟨rfl, rfl⟩, rfl⟩
  · obtain ⟨rfl, rfl⟩ := ht
    rw [List.nil_append, List.append_nil]
    have hstop : Stops Text.isDigit rest := hrest.stops (by decide)
    have habsent : ∀ x ∉ [' ', '\t', '\n', '\x0c', '\r', '/'] ++ operandMarks, x ∉ rest.head? :=
      fun x hx hmem => hx (hrest x hmem)
    refine scan?_of_first [.pixel, .percentage, .color, .className, .idName, .variableName, .tagName]
      _ rfl (by decide) ?_ (run?_iff.mpr ⟨hds, rfl, hstop⟩)
    intro u hu _
    -- The other two that begin with digits need a unit; the rest begin with no digit.
    by_cases hgroup : u.group = 0
    · have hunit : u = .pixel ∨ u = .percentage := by
        revert hgroup
        revert u
        decide
      rcases hunit with rfl | rfl
      · exact pixel_eq_none hds hstop (habsent 'p' (by decide))
      · exact followedBy?_digits_eq_none hds hstop (char?_eq_none (habsent '%' (by decide)))
    · cases ds with
      | nil => cases hds
      | cons d ds =>
        rw [isDigitsText, isWord, Bool.and_eq_true] at hds
        have hd : group d = 0 := if_pos hds.1
        exact spelled?_eq_none (by rw [hd]; exact Ne.symm hgroup) _

namespace Reading

/-- Reading on from `r` in front of `cs` comes to `r'` in front of `cs'`. -/
def Leads (r : Reading) (cs : List Char) (r' : Reading) (cs' : List Char) : Prop :=
  ∀ last, ∃ last', readAll r last cs = readAll r' last' cs'

theorem Leads.trans {r₁ r₂ r₃ : Reading} {cs₁ cs₂ cs₃ : List Char} (h : Leads r₁ cs₁ r₂ cs₂)
    (h' : Leads r₂ cs₂ r₃ cs₃) : Leads r₁ cs₁ r₃ cs₃ := by
  intro last
  obtain ⟨last', heq⟩ := h last
  obtain ⟨last'', heq'⟩ := h' last'
  exact ⟨last'', heq.trans heq'⟩

/-- A token that is scanned and accepted, with what may stand in front of it. -/
theorem leads_token {r r' : Reading} {gap cs rest : List Char} {t : Token} (hgap : Gap gap)
    (hscan : scan? r.tried cs = some (t, rest)) (hadv : r.advance t = .ok r') :
    Leads r (gap ++ cs) r' rest := by
  intro last
  have hskip : skip (gap ++ cs) = cs := by rw [skip_gap hgap, skip_of_scan? hscan]
  have hne : cs ≠ [] := by
    obtain ⟨happ, htext⟩ := scan?_append hscan
    rw [← happ]
    exact List.append_ne_nil_of_left_ne_nil htext rest
  refine ⟨cs, ?_⟩
  rw [readAll]
  split
  · rename_i heq
    exact absurd (hskip.symm.trans heq) hne
  · rename_i c cs' heq
    obtain rfl := hskip.symm.trans heq
    split
    · rename_i heq'
      rw [hscan] at heq'
      cases heq'
    · rename_i t' rest' heq'
      rw [hscan] at heq'
      cases heq'
      simp only [hadv]

/-- Whatever text spells the pieces `ps` and then `qs`, reading on from `r` passes a spelling of `ps`,
comes to `r'` and has a spelling of `qs` in front of it. -/
def Reads (r : Reading) (ps : List Piece) (r' : Reading) (qs : List Piece) : Prop :=
  ∀ cs, Spells (ps ++ qs) cs → ∃ cs', Leads r cs r' cs' ∧ Spells qs cs'

theorem Reads.nil (r : Reading) (qs : List Piece) : Reads r [] r qs :=
  fun cs h => ⟨cs, fun last => ⟨last, rfl⟩, h⟩

theorem Reads.append {r₁ r₂ r₃ : Reading} {ps ps' qs : List Piece}
    (h : Reads r₁ ps r₂ (ps' ++ qs)) (h' : Reads r₂ ps' r₃ qs) : Reads r₁ (ps ++ ps') r₃ qs := by
  intro cs hcs
  rw [List.append_assoc] at hcs
  obtain ⟨cs₂, hleads, hcs₂⟩ := h cs hcs
  obtain ⟨cs₃, hleads', hcs₃⟩ := h' cs₂ hcs₂
  exact ⟨cs₃, hleads.trans hleads', hcs₃⟩

theorem Reads.cons {r₁ r₂ r₃ : Reading} {p : Piece} {ps qs : List Piece}
    (h : Reads r₁ [p] r₂ (ps ++ qs)) (h' : Reads r₂ ps r₃ qs) : Reads r₁ (p :: ps) r₃ qs :=
  h.append h'

theorem reads_piece {r r' : Reading} {p : Piece} {qs : List Piece}
    (h : ∀ text rest, p.Spelled text → Spells qs rest →
      ∃ t, scan? r.tried (text ++ rest) = some (t, rest) ∧ r.advance t = .ok r') :
    Reads r [p] r' qs := by
  intro cs hcs
  cases hcs with
  | piece hgap hp hrest =>
    obtain ⟨t, hscan, hadv⟩ := h _ _ hp hrest
    rw [List.append_assoc]
    exact ⟨_, leads_token hgap hscan hadv, hrest⟩

/-- A piece that is written in one way is read as the token `k`, which is the terminal `u` or a keyword
that looks like it. -/
theorem reads_exact {r r' : Reading} {u k : Terminal} {text : List Char} {qs : List Piece}
    (hfound : ∀ rest, Spells qs rest → u.spelled? (text ++ rest) = some (text, rest))
    (halone : Alone r.tried u) (hk : classify r.tried u text = k)
    (hadv : r.advance ⟨k, text⟩ = .ok r') : Reads r [.exact text] r' qs := by
  refine reads_piece fun w rest hw hrest => ⟨⟨k, text⟩, ?_, hadv⟩
  cases hw
  rw [scan?_of_alone halone (hfound rest hrest), hk]

theorem reads_mark {r r' : Reading} {u : Terminal} {text : List Char} {qs : List Piece}
    (hu : u.text? = some text) (hspelled : u ∈ Terminal.spelled) (halone : Alone r.tried u)
    (hadv : r.advance ⟨u, text⟩ = .ok r') : Reads r [.exact text] r' qs := by
  refine reads_exact (fun rest _ => found_mark hu hspelled rest) halone (classify_name ?_) hadv
  intro k hk
  unfold keyword? at hk
  split at hk <;> first | cases hk; done | cases hu

/-- Every text that spells the pieces is rejected. -/
def Rejects (r : Reading) (ps : List Piece) : Prop :=
  ∀ cs, Spells ps cs → ∀ last, ∃ e, readAll r last cs = .error e

theorem Reads.rejects {r r' : Reading} {ps qs : List Piece} (h : Reads r ps r' qs)
    (h' : Rejects r' qs) : Rejects r (ps ++ qs) := by
  intro cs hcs last
  obtain ⟨cs', hleads, hcs'⟩ := h cs hcs
  obtain ⟨last', heq⟩ := hleads last
  obtain ⟨e, he⟩ := h' cs' hcs' last'
  exact ⟨e, heq.trans he⟩

section
variable {r : Reading} {purpose : Purpose} {sum : LeftOperand} {qs : List Piece}

theorem advance_operand (hr : r.overlong = none) {product : Option Node} {t : Token} {n : Node}
    (hn : operand? t = some n) (ho : overlong? t = none) :
    (r.goto (.operand purpose sum product)).advance t =
      .ok (r.goto (.operator purpose sum (joinProduct product n))) := by
  simp only [advance, goto, hn, ho, hr]
  rfl

theorem overlong?_word {t : Terminal} {text : List Char} (h : t ∉ units.map Prod.fst) :
    overlong? ⟨t, text⟩ = none := by
  simp only [overlong?]
  split
  · rfl
  · split <;> first | rfl | exact absurd (by decide) h

/-- A number in front of what may follow an operand. -/
theorem reads_number (hr : r.overlong = none) {product : Option Node} {t : Terminal}
    {unit : List Char} {v : Int} (hv : 0 ≤ v) {n : Node} (ht : (t, unit) ∈ units)
    (hn : ∀ text, numberIn text = v → operand? ⟨t, text⟩ = some n)
    (hqs : BeginsWith operandMarks qs) :
    Reads (r.goto (.operand purpose sum product)) [.number v unit]
      (r.goto (.operator purpose sum (joinProduct product n))) qs := by
  refine reads_piece fun w rest hw hrest => ?_
  cases hw with
  | @number ds hds _ =>
    have htake := takeWhile_unit hds.text ht
    have hnumber : numberIn (ds ++ unit) = Text.numberOf ds := by rw [numberIn, htake]
    have hshort : overlong? ⟨t, ds ++ unit⟩ = none := by
      simp only [overlong?, htake, if_pos hds.length]
    refine ⟨_, scan_number hds.text ht (hqs.breaks hrest), ?_⟩
    exact advance_operand hr (hn _ hnumber) hshort
  | negative hds hpos => omega

/-- An atom in front of what may follow an operand. -/
theorem reads_atom (hr : r.overlong = none) {product : Option Node} {n : Node} (h : AtomForm n)
    (hqs : BeginsWith operandMarks qs) :
    Reads (r.goto (.operand purpose sum product)) (pieces n)
      (r.goto (.operator purpose sum (joinProduct product n))) qs := by
  have hword : ∀ text, isVariableText text = true → ∀ rest, Spells qs rest →
      Terminal.variableName.spelled? (text ++ rest) = some (text, rest) :=
    fun _ htext _ hrest => found_variable htext (hqs.breaks hrest)
  have halone : Alone operandTerminals .variableName := by decide
  cases h with
  | pixel hn =>
    exact reads_number (t := .pixel) hr hn (by decide) (fun text hv => by rw [operand?, hv]) hqs
  | percentage hn =>
    exact reads_number (t := .percentage) hr hn (by decide) (fun text hv => by rw [operand?, hv]) hqs
  | scalar hn =>
    exact reads_number (t := .scalar) hr hn (by decide) (fun text hv => by rw [operand?, hv]) hqs
  | @color s h =>
    refine reads_exact (k := .color) (fun rest hrest => found_color h (hqs.breaks hrest))
      (by decide : Alone operandTerminals .color) rfl (advance_operand hr ?_ ?_)
    · rw [operand?, String.ofList_toList]
    · exact overlong?_word (by decide)
  | bool b =>
    cases b with
    | true =>
      exact reads_exact (k := .trueWord) (hword _ (by decide)) halone rfl
        (advance_operand hr rfl (overlong?_word (by decide)))
    | false =>
      exact reads_exact (k := .falseWord) (hword _ (by decide)) halone rfl
        (advance_operand hr rfl (overlong?_word (by decide)))
  | @reference x h htrue hfalse =>
    refine reads_exact (hword _ h) halone (classify_name ?_) (advance_operand hr ?_ ?_)
    · intro k hk
      rcases keyword?_cases hk with h | h | h | h
      · cases h.1
      · cases h.1
      · exact absurd (String.toList_inj.mp h.2.2) htrue
      · exact absurd (String.toList_inj.mp h.2.2) hfalse
    · rw [operand?, String.ofList_toList]
    · exact overlong?_word (by decide)

/-- A product is read factor by factor; nothing else is left of the left factors. -/
theorem reads_product (hr : r.overlong = none) {n : Node} (h : ProductForm n)
    (hqs : BeginsWith operandMarks qs) :
    Reads (r.goto (.operand purpose sum none)) (pieces n) (r.goto (.operator purpose sum n)) qs := by
  induction h generalizing qs with
  | atom h => exact reads_atom hr h hqs
  | @times l m hl hm ih =>
    have hleft : Reads (r.goto (.operand purpose sum none)) (pieces l)
        (r.goto (.operator purpose sum l)) (.exact ['*'] :: pieces m ++ qs) :=
      ih (beginsWith (by decide) _ _)
    have hstar : Reads (r.goto (.operator purpose sum l)) [.exact ['*']]
        (r.goto (.operand purpose sum (some l))) (pieces m ++ qs) :=
      reads_mark (u := .star) rfl (by decide) (by decide : Alone operatorTerminals .star) rfl
    exact hleft.append (hstar.cons (reads_atom hr hm hqs))

/-- A sum is read product by product, and its last operation is joined only where it ends. -/
theorem reads_sum (hr : r.overlong = none) {n : Node} (h : SumForm n)
    (hqs : BeginsWith operandMarks qs) :
    ∃ sum product, joinSum sum product = n ∧
      Reads (r.goto (.operand purpose none none)) (pieces n)
        (r.goto (.operator purpose sum product)) qs := by
  induction h generalizing qs with
  | product h => exact ⟨none, _, rfl, reads_product hr h hqs⟩
  | @sum op l m hop hl hm ih =>
    have hsign : ∀ sum product, joinSum sum product = l →
        Reads (r.goto (.operator purpose sum product)) [.exact op.symbol.toList]
          (r.goto (.operand purpose (some (op, l)) none)) (pieces m ++ qs) := by
      intro sum product hjoin
      subst hjoin
      cases op with
      | multiply => exact absurd rfl hop
      | add =>
        exact reads_mark (u := .plus) rfl (by decide) (by decide : Alone operatorTerminals .plus)
          rfl
      | subtract =>
        exact reads_mark (u := .minus) rfl (by decide) (by decide : Alone operatorTerminals .minus)
          rfl
    have hmark : BeginsWith operandMarks (.exact op.symbol.toList :: pieces m ++ qs) := by
      cases op <;> exact beginsWith (by decide) _ _
    obtain ⟨sum, product, hjoin, hleft⟩ := ih hmark
    exact ⟨some (op, l), m, rfl,
      hleft.append ((hsign sum product hjoin).cons (reads_product hr hm hqs))⟩

/-- An expression up to the mark that ends it. -/
theorem reads_expression (purpose : Purpose) (hr : r.overlong = none) {e : Node} (h : SumForm e)
    {text : List Char} (htext : purpose.closing.text? = some text) :
    Reads (r.goto (.operand purpose none none)) (pieces e ++ [.exact text])
      (r.finishExpression purpose e) qs := by
  have hmark : BeginsWith operandMarks (.exact text :: qs) := by
    cases purpose <;> cases htext <;> exact beginsWith (by decide) _ _
  obtain ⟨sum, product, hjoin, hreads⟩ : ∃ sum product, joinSum sum product = e ∧
      Reads (r.goto (.operand purpose none none)) (pieces e)
        (r.goto (.operator purpose sum product)) (.exact text :: qs) := reads_sum hr h hmark
  have hclosing : Reads (r.goto (.operator purpose sum product)) [.exact text]
      (r.finishExpression purpose e) qs := by
    subst hjoin
    cases purpose with
    | assignment x =>
      exact reads_mark (u := .semicolon) htext (by decide)
        (by decide : Alone operatorTerminals .semicolon) rfl
    | declaration p =>
      exact reads_mark (u := .semicolon) htext (by decide)
        (by decide : Alone operatorTerminals .semicolon) rfl
    | condition =>
      exact reads_mark (u := .closeBracket) htext (by decide)
        (by decide : Alone operatorTerminals .closeBracket) rfl
  exact hreads.append hclosing

end

end Reading

end StyleLang.Source
