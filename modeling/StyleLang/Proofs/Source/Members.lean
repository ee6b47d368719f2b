import StyleLang.Proofs.Source.Progress
import StyleLang.Proofs.Source.Understood

/-!
# Reading on past members

Between two members a reading depends only on the members before and on the blocks that are open, so
each member is read by itself, and a block member by member. A member is read after any other after
which its first name is no keyword; what is read of it does not depend on what it comes after.
-/

namespace StyleLang.Source

namespace Reading

/-- In front of a member, when nothing is left open of the members `ns`, latest first. -/
def before (outer : List OpenBlock) (ns : List Node) : Reading := ⟨outer, ns, .member, none⟩

/-- In front of a member, after the members `ns`, latest first. Only in a body does an if-clause wait
for its else-clause. -/
def standing (outer : List OpenBlock) (ns : List Node) : Reading :=
  match outer, ns with
  | _, .assignment none _ _ :: _ => (before outer ns).goto .afterAssignment
  | _ :: _, .ifClause none c body :: ns => (before outer ns).goto (.afterIf c body)
  | _, _ => before outer ns

/-- The terminals tried after an assignment. -/
def afterAssignmentTerminals : List Terminal :=
  [.ending, .className, .idName, .ifWord, .tagName, .closeBrace, .variableName]

/-- What is tried in front of a member: the terminals of the block, unless an assignment or an
if-clause comes before. -/
theorem tried_standing (outer : List OpenBlock) (ns : List Node) :
    (standing outer ns).tried = (before outer ns).memberTerminals ∨
      ((standing outer ns).tried = afterAssignmentTerminals ∧
        ∃ x e, ns.head? = some (.assignment none x e)) ∨
      ((standing outer ns).tried = .elseWord :: bodyTerminals ∧ outer ≠ [] ∧
        ∃ c body, ns.head? = some (.ifClause none c body)) := by
  unfold standing
  split
  · exact Or.inr (Or.inl ⟨rfl, _, _, rfl⟩)
  · exact Or.inr (Or.inr ⟨rfl, List.cons_ne_nil _ _, _, _, rfl⟩)
  · exact Or.inl rfl

theorem tried_standing_sheet (ns : List Node) :
    (standing [] ns).tried = sheetTerminals ∨
      ((standing [] ns).tried = afterAssignmentTerminals ∧
        ∃ x e, ns.head? = some (.assignment none x e)) := by
  rcases tried_standing [] ns with h | h | h
  · exact Or.inl h
  · exact Or.inr h
  · exact absurd rfl h.2.1

theorem tried_standing_body (b : OpenBlock) (outer : List OpenBlock) (ns : List Node) :
    (standing (b :: outer) ns).tried ∈
      [bodyTerminals, afterAssignmentTerminals, .elseWord :: bodyTerminals] := by
  rcases tried_standing (b :: outer) ns with h | h | h
  · rw [h]
    exact List.mem_cons_self
  · rw [h.1]
    decide
  · rw [h.1]
    decide

theorem head_of_elseWord {b : OpenBlock} {outer : List OpenBlock} {ns : List Node}
    (h : .elseWord ∈ (standing (b :: outer) ns).tried) :
    ∃ c body, ns.head? = some (.ifClause none c body) := by
  rcases tried_standing (b :: outer) ns with h' | h' | h'
  · rw [h'] at h
    exact absurd h (by decide : Terminal.elseWord ∉ bodyTerminals)
  · rw [h'.1] at h
    exact absurd h (by decide)
  · exact h'.2.2

/-- How a member begins does not depend on what was left open before it. -/
theorem beginMember_goto (r : Reading) (p : Point) (t : Token) :
    (r.goto p).beginMember t = r.beginMember t := by
  obtain ⟨outer, members, point, overlong⟩ := r
  obtain ⟨terminal, text⟩ := t
  cases outer with
  | nil => cases terminal <;> rfl
  | cons b outer =>
    obtain ⟨block, before⟩ := b
    cases terminal <;> rfl

theorem advance_standing {outer : List OpenBlock} {ns : List Node} {t : Token} {r : Reading}
    (ht : t.terminal ≠ .elseWord) (h : (before outer ns).beginMember t = some r) :
    (standing outer ns).advance t = .ok r := by
  unfold standing
  split
  · simp only [advance, goto, orWanted_eq_ok]
    exact (beginMember_goto _ .afterAssignment t).trans h
  · simp only [advance, goto, orWanted_eq_ok]
    exact h
  · exact orWanted_eq_ok.mpr h

section
variable {outer : List OpenBlock} {ns : List Node} {qs : List Piece}

theorem reads_begin {r : Reading} {u k : Terminal} {text : List Char}
    (hfound : ∀ rest, Spells qs rest → u.spelled? (text ++ rest) = some (text, rest))
    (halone : Alone (standing outer ns).tried u) (hk : classify (standing outer ns).tried u text = k)
    (helse : k ≠ .elseWord) (hb : (before outer ns).beginMember ⟨k, text⟩ = some r) :
    Reads (standing outer ns) [.exact text] r qs :=
  reads_exact hfound halone hk (advance_standing helse hb)

theorem reads_variable {x : String} (hx : isVariableText x.toList = true)
    (hqs : BeginsWith nameMarks qs) :
    Reads (standing outer ns) [.exact x.toList] ((before outer ns).goto (.assignSign x)) qs := by
  have hlists : ∀ tried ∈ [sheetTerminals, bodyTerminals, afterAssignmentTerminals,
      .elseWord :: bodyTerminals], Alone tried .variableName ∧ Terminal.trueWord ∉ tried ∧
        Terminal.falseWord ∉ tried := by decide
  have hmem : (standing outer ns).tried ∈ [sheetTerminals, bodyTerminals, afterAssignmentTerminals,
      .elseWord :: bodyTerminals] := by
    rcases tried_standing outer ns with h | h | h
    · rw [h]
      cases outer with
      | nil => exact List.mem_cons_self
      | cons b outer => exact .tail _ List.mem_cons_self
    · rw [h.1]
      decide
    · rw [h.1]
      decide
  obtain ⟨halone, htrue, hfalse⟩ := hlists _ hmem
  refine reads_begin (k := .variableName) (fun rest hrest =>
    found_name (.variableName hx) (by decide) (hqs.breaks hrest)) halone (classify_name ?_)
    (by decide) ?_
  · intro k hk
    rcases keyword?_cases hk with h | h | h | h
    · cases h.1
    · cases h.1
    · rwa [h.2.1]
    · rwa [h.2.1]
  · cases outer <;> simp only [before, beginMember, String.ofList_toList]

theorem reads_property {b : OpenBlock} {p : String} (hp : isTagText p.toList = true) (hif : p ≠ "if")
    {e : Node} (hf : MayFollow ns (.declaration none p e)) (hqs : BeginsWith nameMarks qs) :
    Reads (standing (b :: outer) ns) [.exact p.toList]
      ((before (b :: outer) ns).goto (.propertyColon p)) qs := by
  have hlists : ∀ tried ∈ [bodyTerminals, afterAssignmentTerminals, .elseWord :: bodyTerminals],
      Alone tried .tagName := by decide
  refine reads_begin (k := .tagName) (fun rest hrest =>
    found_name (.tagName hp) (by decide) (hqs.breaks hrest))
    (hlists _ (tried_standing_body b outer ns)) (classify_name ?_) (by decide) ?_
  · intro k hk hmem
    rcases keyword?_cases hk with h | h | h | h
    · exact hif (String.toList_inj.mp h.2.2)
    · rw [h.2.1] at hmem
      obtain ⟨c, body, hhead⟩ := head_of_elseWord hmem
      have helse : p ≠ "else" := of_decide_eq_true (hf _ hhead)
      exact helse (String.toList_inj.mp h.2.2)
    · cases h.1
    · cases h.1
  · simp only [before, beginMember, String.ofList_toList]

theorem reads_ifWord {b : OpenBlock} (hqs : BeginsWith nameMarks qs) :
    Reads (standing (b :: outer) ns) [.exact ['i', 'f']]
      ((before (b :: outer) ns).goto .conditionBracket) qs := by
  have hlists : ∀ tried ∈ [bodyTerminals, afterAssignmentTerminals, .elseWord :: bodyTerminals],
      Alone tried .tagName ∧ Terminal.ifWord ∈ tried := by decide
  obtain ⟨halone, hif⟩ := hlists _ (tried_standing_body b outer ns)
  exact reads_begin (k := .ifWord) (fun rest hrest =>
    found_name (.tagName (by decide)) (by decide) (hqs.breaks hrest)) halone
    (classify_keyword rfl hif) (by decide) rfl

theorem reads_elseWord {b : OpenBlock} {c : Node} {body : List Node}
    (hqs : BeginsWith nameMarks qs) :
    Reads (standing (b :: outer) (.ifClause none c body :: ns)) [.exact ['e', 'l', 's', 'e']]
      ((before (b :: outer) ns).goto (.elseBrace c body)) qs :=
  reads_exact (u := .tagName) (k := .elseWord) (fun rest hrest =>
    found_name (.tagName (by decide)) (by decide) (hqs.breaks hrest))
    (by decide : Alone (.elseWord :: bodyTerminals) .tagName) rfl rfl

theorem reads_closeBrace (b : OpenBlock) :
    Reads (standing (b :: outer) ns) [.exact ['\x7d']] ((before (b :: outer) ns).close b outer) qs := by
  have hlists : ∀ tried ∈ [bodyTerminals, afterAssignmentTerminals, .elseWord :: bodyTerminals],
      Alone tried .closeBrace := by decide
  exact reads_begin (k := .closeBrace) (fun rest _ => found_mark rfl (by decide) rest)
    (hlists _ (tried_standing_body b outer ns)) rfl (by decide) rfl

theorem token_of_selector {s : Selector} (h : SelectorForm s) :
    ∃ u ∈ [Terminal.className, .idName, .tagName], selector? ⟨u, s.text.toList⟩ = some s ∧
      ∀ rest, Breaks nameMarks rest →
        u.spelled? (s.text.toList ++ rest) = some (s.text.toList, rest) := by
  cases h with
  | @tag v h =>
    have htext : (Selector.tag v).text.toList = v.toList := by
      simp [Selector.text, Selector.sign, Selector.tag]
    rw [htext]
    refine ⟨.tagName, by decide, ?_, fun rest hrest => found_name (.tagName h) (by decide) hrest⟩
    rw [selector?, String.ofList_toList]
  | @ofClass v h =>
    have htext : (Selector.ofClass v).text.toList = '.' :: v.toList := by
      simp [Selector.text, Selector.sign, Selector.ofClass]
    rw [htext]
    refine ⟨.className, by decide, ?_, fun rest hrest => found_name (.className h) (by decide) hrest⟩
    rw [selector?, List.tail_cons, String.ofList_toList]
  | @ofId v h =>
    have htext : (Selector.ofId v).text.toList = '#' :: v.toList := by
      simp [Selector.text, Selector.sign, Selector.ofId]
    rw [htext]
    refine ⟨.idName, by decide, ?_, fun rest hrest => found_name (.idName h) (by decide) hrest⟩
    rw [selector?, List.tail_cons, String.ofList_toList]

/-- The first selector of a rule in a sheet. -/
theorem reads_firstSelector {s : Selector} (hs : SelectorForm s) {ss : List Selector}
    {body : List Node} (hf : MayFollow ns (.rule none (s :: ss) body)) (hqs : BeginsWith nameMarks qs) :
    Reads (standing [] ns) [.exact s.text.toList] ((before [] ns).goto (.selectorRead [s])) qs := by
  obtain ⟨u, hu, hselector, hfound⟩ := token_of_selector hs
  have hlists : ∀ tried ∈ [sheetTerminals, afterAssignmentTerminals],
      (∀ u ∈ [Terminal.className, .idName, .tagName], Alone tried u) ∧
        Terminal.elseWord ∉ tried ∧ Terminal.trueWord ∉ tried ∧ Terminal.falseWord ∉ tried := by
    decide
  have htried := tried_standing_sheet ns
  have hmem : (standing [] ns).tried ∈ [sheetTerminals, afterAssignmentTerminals] := by
    rcases htried with h | h
    · rw [h]
      exact List.mem_cons_self
    · rw [h.1]
      exact .tail _ List.mem_cons_self
  obtain ⟨halone, helse, htrue, hfalse⟩ := hlists _ hmem
  refine reads_begin (fun rest hrest => hfound rest (hqs.breaks hrest)) (halone u hu)
    (classify_name ?_) ?_ ?_
  · intro k hk
    rcases keyword?_cases hk with h | h | h | h
    · obtain ⟨rfl, rfl, htext⟩ := h
      rw [htext] at hselector
      -- Only after an assignment is the keyword looked for, and there the tag does not stand.
      rcases htried with h | h
      · rw [h]
        decide
      · obtain ⟨x, e, hhead⟩ := h.2
        have hne : s ≠ .tag "if" := of_decide_eq_true (hf _ hhead)
        cases hselector
        exact absurd rfl hne
    · rwa [h.2.1]
    · rwa [h.2.1]
    · rwa [h.2.1]
  · intro h
    obtain rfl := h
    exact absurd hu (by decide)
  · simp only [List.mem_cons, List.not_mem_nil, or_false] at hu
    rcases hu with rfl | rfl | rfl <;> simp only [before, beginMember, hselector, Option.map_some]

theorem reads_selector {r : Reading} {read : List Selector} {s : Selector} (hs : SelectorForm s)
    (hqs : BeginsWith nameMarks qs) :
    Reads (r.goto (.selector read)) [.exact s.text.toList]
      (r.goto (.selectorRead (read ++ [s]))) qs := by
  obtain ⟨u, hu, hselector, hfound⟩ := token_of_selector hs
  have halone : ∀ u ∈ [Terminal.className, .idName, .tagName],
      Alone [.className, .idName, .tagName] u := by decide
  refine reads_exact (fun rest hrest => hfound rest (hqs.breaks hrest)) (halone u hu)
    (classify_name ?_) ?_
  · intro k hk
    have hlist : ∀ k ∈ [Terminal.ifWord, .elseWord, .trueWord, .falseWord],
        k ∉ [Terminal.className, .idName, .tagName] := by decide
    apply hlist k
    rcases keyword?_cases hk with h | h | h | h <;> simp [h.2.1]
  · simp only [advance, goto, hselector, Option.map_some]
    rfl

theorem reads_comma {r : Reading} {read : List Selector} :
    Reads (r.goto (.selectorRead read)) [.exact [',']] (r.goto (.selector read)) qs :=
  reads_mark (u := .comma) rfl (by decide) (by decide : Alone [.comma, .openBrace] .comma) rfl

/-- The selectors after a comma. -/
theorem reads_selectors {r : Reading} {ss : List Selector} (hss : SelectorsForm ss)
    (hqs : BeginsWith nameMarks qs) (read : List Selector) :
    Reads (r.goto (.selector read)) (selectorPieces ss) (r.goto (.selectorRead (read ++ ss))) qs := by
  obtain ⟨hne, hall⟩ := hss
  induction ss generalizing read with
  | nil => exact absurd rfl hne
  | cons s ss ih =>
    have hs := hall s List.mem_cons_self
    cases ss with
    | nil => exact reads_selector hs hqs
    | cons s' ss =>
      have htail := ih (read ++ [s]) (List.cons_ne_nil s' ss)
        fun t ht => hall t (List.mem_cons_of_mem s ht)
      rw [List.append_assoc] at htail
      exact (reads_selector hs (beginsWith (by decide) _ _)).cons (reads_comma.cons htail)

/-- The selectors of a rule in a sheet. -/
theorem reads_ruleSelectors {ss : List Selector}
    (hss : SelectorsForm ss) {body : List Node} (hf : MayFollow ns (.rule none ss body))
    (hqs : BeginsWith nameMarks qs) :
    Reads (standing [] ns) (selectorPieces ss) ((before [] ns).goto (.selectorRead ss)) qs := by
  obtain ⟨hne, hall⟩ := hss
  cases ss with
  | nil => exact absurd rfl hne
  | cons s ss =>
    have hs := hall s List.mem_cons_self
    cases ss with
    | nil => exact reads_firstSelector hs hf hqs
    | cons s' ss =>
      have hform : SelectorsForm (s' :: ss) :=
        ⟨List.cons_ne_nil s' ss, fun t ht => hall t (List.mem_cons_of_mem s ht)⟩
      have htail := reads_selectors (r := before [] ns) hform hqs [s]
      exact (reads_firstSelector hs hf (beginsWith (by decide) _ _)).cons
        (reads_comma.cons htail)

/-- Members are read one after another if each of them is read after any that it may follow. -/
theorem reads_members {members : List Node}
    (hstep : ∀ n ∈ members, ∀ ns qs, MayFollow ns n →
      Reads (standing outer ns) (pieces n) (standing outer (n :: ns)) qs)
    (hchain : members.IsChain Apart) (hfirst : ∀ n ∈ members.head?, MayFollow ns n)
    (qs : List Piece) :
    Reads (standing outer ns) (piecesAll members) (standing outer (members.reverse ++ ns)) qs := by
  induction members generalizing ns with
  | nil => exact Reads.nil _ qs
  | cons n members ih =>
    obtain ⟨hnext, hchain⟩ := List.isChain_cons.mp hchain
    have hn := hstep n List.mem_cons_self ns (piecesAll members ++ qs) (hfirst n rfl)
    have hrest : Reads (standing outer (n :: ns)) (piecesAll members)
        (standing outer (members.reverse ++ n :: ns)) qs := by
      apply ih (fun m hm => hstep m (List.mem_cons_of_mem n hm)) hchain
      intro m hm a ha
      cases ha
      exact hnext m hm
    rw [List.reverse_cons, List.append_assoc]
    exact hn.append hrest

theorem reads_assignment {x : String} (hx : isVariableText x.toList = true) {e : Node}
    (he : SumForm e) (qs : List Piece) :
    Reads (standing outer ns) (pieces (.assignment none x e))
      (standing outer (.assignment none x e :: ns)) qs := by
  have hsign : Reads ((before outer ns).goto (.assignSign x)) [.exact [':', '=']]
      ((before outer ns).goto (.operand (.assignment x) none none))
      (pieces e ++ [.exact [';']] ++ qs) :=
    reads_mark (u := .assign) rfl (by decide) (by decide : Alone [.assign] .assign) rfl
  have hvalue : Reads ((before outer ns).goto (.operand (.assignment x) none none))
      (pieces e ++ [.exact [';']]) (standing outer (.assignment none x e :: ns)) qs :=
    reads_expression (.assignment x) rfl he rfl
  exact (reads_variable hx (beginsWith (by decide) _ _)).cons (hsign.cons hvalue)

theorem reads_declaration {b : OpenBlock} {p : String} (hp : isTagText p.toList = true)
    (hif : p ≠ "if") {e : Node} (he : SumForm e) (hf : MayFollow ns (.declaration none p e))
    (qs : List Piece) :
    Reads (standing (b :: outer) ns) (pieces (.declaration none p e))
      (standing (b :: outer) (.declaration none p e :: ns)) qs := by
  have hcolon : Reads ((before (b :: outer) ns).goto (.propertyColon p)) [.exact [':']]
      ((before (b :: outer) ns).goto (.operand (.declaration p) none none))
      (pieces e ++ [.exact [';']] ++ qs) :=
    reads_mark (u := .colon) rfl (by decide) (by decide : Alone [.colon] .colon) rfl
  have hvalue : Reads ((before (b :: outer) ns).goto (.operand (.declaration p) none none))
      (pieces e ++ [.exact [';']]) (standing (b :: outer) (.declaration none p e :: ns)) qs :=
    reads_expression (.declaration p) rfl he rfl
  exact (reads_property hp hif hf (beginsWith (by decide) _ _)).cons (hcolon.cons hvalue)

/-- The condition of an if-clause, from the keyword on. -/
theorem reads_condition {b : OpenBlock} {c : Node} (hc : SumForm c) (qs : List Piece) :
    Reads (standing (b :: outer) ns) (conditionPieces (pieces c))
      ((before (b :: outer) ns).goto (.ifBrace c)) qs := by
  have hbracket : Reads ((before (b :: outer) ns).goto .conditionBracket) [.exact ['[']]
      ((before (b :: outer) ns).goto (.operand .condition none none))
      (pieces c ++ [.exact [']']] ++ qs) :=
    reads_mark (u := .openBracket) rfl (by decide) (by decide : Alone [.openBracket] .openBracket)
      rfl
  have hvalue : Reads ((before (b :: outer) ns).goto (.operand .condition none none))
      (pieces c ++ [.exact [']']]) ((before (b :: outer) ns).goto (.ifBrace c)) qs :=
    reads_expression .condition rfl hc rfl
  exact (reads_ifWord (beginsWith (by decide) _ _)).cons (hbracket.cons hvalue)

/-- The node is read after any that it may follow, in whatever body. -/
def ReadsInBody (n : Node) : Prop :=
  ∀ b outer ns qs, MayFollow ns n →
    Reads (standing (b :: outer) ns) (pieces n) (standing (b :: outer) (n :: ns)) qs

/-- A block, from the brace that opens it to the brace that closes it. -/
theorem reads_block {r r' : Reading} {b : OpenBlock} {body : List Node}
    (halone : Alone r.tried .openBrace)
    (hopen : r.advance ⟨.openBrace, ['\x7b']⟩ = .ok (before (b :: outer) []))
    (hstep : ∀ n ∈ body, ReadsInBody n) (hchain : body.IsChain Apart)
    (hclose : (before (b :: outer) body.reverse).close b outer = r') :
    Reads r (blockPieces (piecesAll body)) r' qs := by
  subst hclose
  have hbrace : Reads r [.exact ['\x7b']] (standing (b :: outer) [])
      (piecesAll body ++ [.exact ['\x7d']] ++ qs) :=
    reads_mark (u := .openBrace) rfl (by decide) halone hopen
  have hbody : Reads (standing (b :: outer) []) (piecesAll body)
      (standing (b :: outer) (body.reverse ++ [])) (.exact ['\x7d'] :: qs) :=
    reads_members (fun n hn ns qs hf => hstep n hn b outer ns qs hf) hchain (by simp [MayFollow]) _
  rw [List.append_nil] at hbody
  exact hbrace.cons (hbody.append (reads_closeBrace b))

theorem reads_ifClause {b : OpenBlock} {c : Node} (hc : SumForm c) {body : List Node}
    (hstep : ∀ n ∈ body, ReadsInBody n) (hchain : body.IsChain Apart) (qs : List Piece) :
    Reads (standing (b :: outer) ns) (pieces (.ifClause none c body))
      (standing (b :: outer) (.ifClause none c body :: ns)) qs := by
  have hclose : (before (⟨.ifBody c, ns⟩ :: b :: outer) body.reverse).close ⟨.ifBody c, ns⟩
      (b :: outer) = standing (b :: outer) (.ifClause none c body :: ns) := by
    simp only [close, before, List.reverse_reverse]
    rfl
  have hblock : Reads ((before (b :: outer) ns).goto (.ifBrace c)) (blockPieces (piecesAll body))
      (standing (b :: outer) (.ifClause none c body :: ns)) qs :=
    reads_block (by decide : Alone [.openBrace] .openBrace) rfl hstep hchain hclose
  exact (reads_condition hc _).append hblock

theorem reads_ifElse {b : OpenBlock} {c : Node} (hc : SumForm c) {body ebody : List Node}
    (hstep : ∀ n ∈ body, ReadsInBody n) (hchain : body.IsChain Apart)
    (hestep : ∀ n ∈ ebody, ReadsInBody n) (hechain : ebody.IsChain Apart) (qs : List Piece) :
    Reads (standing (b :: outer) ns) (pieces (.ifElse none c body none ebody))
      (standing (b :: outer) (.ifElse none c body none ebody :: ns)) qs := by
  have hclose : (before (⟨.elseBody c body, ns⟩ :: b :: outer) ebody.reverse).close
      ⟨.elseBody c body, ns⟩ (b :: outer) =
        standing (b :: outer) (.ifElse none c body none ebody :: ns) := by
    simp only [close, before, List.reverse_reverse]
    rfl
  have hblock : Reads ((before (b :: outer) ns).goto (.elseBrace c body))
      (blockPieces (piecesAll ebody))
      (standing (b :: outer) (.ifElse none c body none ebody :: ns)) qs :=
    reads_block (by decide : Alone [.openBrace] .openBrace) rfl hestep hechain hclose
  have helse : Reads (standing (b :: outer) (.ifClause none c body :: ns))
      [.exact ['e', 'l', 's', 'e']] ((before (b :: outer) ns).goto (.elseBrace c body))
      (blockPieces (piecesAll ebody) ++ qs) := reads_elseWord (beginsWith (by decide) _ _)
  exact (reads_ifClause hc hstep hchain _).append (helse.cons hblock)

/-- A member of a body is read after any that it may follow. -/
theorem reads_member {n : Node} (h : MemberForm Apart n) : ReadsInBody n := by
  induction h with
  | declaration hp hif he => exact fun b outer ns qs hf => reads_declaration hp hif he hf qs
  | assignment hx he => exact fun b outer ns qs _ => reads_assignment hx he qs
  | ifClause hc hbody hchain ih => exact fun b outer ns qs _ => reads_ifClause hc ih hchain qs
  | ifElse hc hbody hchain hebody hechain ih ihe =>
    exact fun b outer ns qs _ => reads_ifElse hc ih hchain ihe hechain qs

theorem reads_sheetMember {n : Node} (h : SheetMemberForm Apart n) (hf : MayFollow ns n)
    (qs : List Piece) : Reads (standing [] ns) (pieces n) (standing [] (n :: ns)) qs := by
  cases h with
  | assignment hx he => exact reads_assignment hx he qs
  | @rule ss body hss hbody =>
    have hstep : ∀ n ∈ body, ReadsInBody n := fun n hn => reads_member (hbody.members n hn)
    have hclose : (before [⟨.rule ss, ns⟩] body.reverse).close ⟨.rule ss, ns⟩ [] =
        standing [] (.rule none ss body :: ns) := by
      simp only [close, before, List.reverse_reverse]
      rfl
    have hblock : Reads ((before [] ns).goto (.selectorRead ss)) (blockPieces (piecesAll body))
        (standing [] (.rule none ss body :: ns)) qs :=
      reads_block (by decide : Alone [.comma, .openBrace] .openBrace) rfl hstep hbody.chain hclose
    exact (reads_ruleSelectors hss hf (beginsWith (by decide) _ _)).append hblock

end

end Reading

end StyleLang.Source
