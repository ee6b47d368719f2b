import StyleLang.Node.Equality
import StyleLang.Proofs.Source.Completeness

/-!
# One text after another

Two texts of sheets, one after the other, are the text of the sheet with the members of both, unless an
assignment at the end of the first meets the tag `if` at the beginning of the second. There the keyword
is looked for, because an assignment in a body may be followed by an if-clause, and the text is rejected.
-/

namespace StyleLang.Source

/-- The first members end with an assignment, and the second begin with a rule for the tag `if`. -/
def MeetAtKeyword (first second : List Node) : Prop :=
  (∃ m x e, first.getLast? = some (.assignment m x e)) ∧
    ∃ m ss body, second.head? = some (.rule m (.tag "if" :: ss) body)

theorem apart_of_sheetMembers {a b : Node} (ha : SheetMemberForm Apart a) (hb : SheetMemberForm Apart b)
    (h : ¬ ((∃ m x e, a = .assignment m x e) ∧ ∃ m ss body, b = .rule m (.tag "if" :: ss) body)) :
    Apart a b := by
  cases ha with
  | rule hss hbody => rfl
  | assignment hx he =>
    cases hb with
    | assignment hx' he' => rfl
    | @rule ss body hss hbody =>
      cases ss with
      | nil => rfl
      | cons s ss =>
        refine decide_eq_true fun hs => h ⟨⟨_, _, _, rfl⟩, none, ss, body, ?_⟩
        rw [hs]

/-- The sheet with the members of both. -/
theorem SheetForm.append {s t : Sheet} (hs : SheetForm Apart s) (ht : SheetForm Apart t)
    (hmeet : ¬ MeetAtKeyword s.members t.members) :
    SheetForm Apart ⟨none, s.members ++ t.members⟩ := by
  refine ⟨rfl, fun n hn => ?_, List.isChain_append.mpr ⟨hs.chain, ht.chain, fun a ha b hb => ?_⟩⟩
  · rcases List.mem_append.mp hn with hn | hn
    · exact hs.members n hn
    · exact ht.members n hn
  · refine apart_of_sheetMembers (hs.members a (List.mem_of_mem_getLast? ha))
      (ht.members b (List.mem_of_mem_head? hb)) fun hboth => hmeet ?_
    obtain ⟨⟨m, x, e, rfl⟩, m', ss, body, rfl⟩ := hboth
    exact ⟨⟨m, x, e, ha⟩, m', ss, body, hb⟩

namespace Reading

/-- A token that is scanned and not accepted. -/
theorem rejects_token {r : Reading} {gap cs rest : List Char} {t : Token} {wanted : List Terminal}
    (hgap : Gap gap) (hscan : scan? r.tried cs = some (t, rest)) (hadv : r.advance t = .error wanted)
    (last : List Char) : ∃ e, readAll r last (gap ++ cs) = .error e := by
  have hskip : skip (gap ++ cs) = cs := by rw [skip_gap hgap, skip_of_scan? hscan]
  rw [readAll]
  split
  · rename_i heq
    obtain ⟨happ, htext⟩ := scan?_append hscan
    have hnil : t.text ++ rest = [] := by rw [happ, ← hskip, heq]
    exact absurd (List.append_eq_nil_iff.mp hnil).1 htext
  · rename_i c cs' heq
    obtain rfl := hskip.symm.trans heq
    split
    · exact ⟨_, rfl⟩
    · rename_i t' rest' heq'
      rw [hscan] at heq'
      cases heq'
      simp only [hadv]
      exact ⟨_, rfl⟩

/-- After an assignment in a sheet the tag `if` is taken for the keyword, which has no place there. -/
theorem rejects_ifTag {x : String} {e : Node} {ns : List Node} {qs : List Piece}
    (hqs : BeginsWith nameMarks qs) :
    Rejects (standing [] (.assignment none x e :: ns)) (.exact ['i', 'f'] :: qs) := by
  intro cs hcs last
  cases hcs with
  | @piece gap text _ _ rest hgap hp hrest =>
    cases hp
    have hfound : Terminal.tagName.spelled? (['i', 'f'] ++ rest) = some (['i', 'f'], rest) :=
      found_name (.tagName (by decide)) (by decide) (hqs.breaks hrest)
    have hscan : scan? (standing [] (.assignment none x e :: ns)).tried (['i', 'f'] ++ rest) =
        some (⟨.ifWord, ['i', 'f']⟩, rest) :=
      scan?_of_alone (by decide : Alone afterAssignmentTerminals .tagName) hfound
    rw [List.append_assoc]
    exact rejects_token hgap hscan rfl last

theorem pieces_ifTag (m : Mark) (ss : List Selector) (body : List Node) :
    ∃ qs, pieces (.rule m (.tag "if" :: ss) body) = .exact ['i', 'f'] :: qs ∧
      BeginsWith nameMarks qs := by
  cases ss with
  | nil => exact ⟨_, rfl, beginsWith (by decide) _ _⟩
  | cons s ss => exact ⟨_, rfl, beginsWith (by decide) _ _⟩

end Reading

end StyleLang.Source

namespace StyleLang

open Source Reading

/-- The text that comes of two texts of sheets is rejected if an assignment meets the tag `if`, and is
otherwise parsed as the sheet with the members of both. -/
theorem parse_append {source source' : String} {s t : Sheet} (hs : parse source = .ok s)
    (ht : parse source' = .ok t) :
    (MeetAtKeyword s.members t.members → ∃ e, parse (source ++ source') = .error (.rejected e)) ∧
      (¬ MeetAtKeyword s.members t.members →
        parse (source ++ source') = .ok ⟨none, s.members ++ t.members⟩) := by
  obtain ⟨hsform, hsspells⟩ := spells_of_parse hs
  obtain ⟨htform, htspells⟩ := spells_of_parse ht
  have hspells : Spells (piecesAll s.members ++ piecesAll t.members) (source ++ source').toList := by
    rw [String.toList_append]
    exact hsspells.append htspells
  constructor
  · intro hmeet
    obtain ⟨⟨m, x, e, hlast⟩, m', ss, body, hhead⟩ := hmeet
    obtain ⟨before, hbefore⟩ := List.getLast?_eq_some_iff.mp hlast
    obtain ⟨after, hafter⟩ := List.head?_eq_some_iff.mp hhead
    obtain rfl : m = none := by
      cases hsform.members _ (List.mem_of_getLast? hlast)
      rfl
    obtain ⟨qs, hpieces, hqs⟩ := pieces_ifTag m' ss body
    have hsecond : piecesAll t.members = .exact ['i', 'f'] :: (qs ++ piecesAll after) := by
      rw [hafter, piecesAll, hpieces, List.cons_append]
    have hreverse : s.members.reverse = .assignment none x e :: before.reverse := by
      rw [hbefore, List.reverse_append, List.reverse_singleton, List.singleton_append]
    have hreads := reads_sheet hsform (.exact ['i', 'f'] :: (qs ++ piecesAll after))
    rw [hreverse] at hreads
    rw [hsecond] at hspells
    obtain ⟨r, hr⟩ := hreads.rejects (rejects_ifTag (hqs.append _)) _ hspells _
    refine ⟨r.error (source ++ source').toList, ?_⟩
    simp only [parse]
    rw [hr]
  · intro hmeet
    refine parse_of_spells (hsform.append htform hmeet) ?_
    show Spells (piecesAll (s.members ++ t.members)) _
    rwa [piecesAll_append]

/-- Each of the two texts is parsed, but not the one that comes of them. -/
theorem parse_append_ifTag :
    (∃ s, parse "X:=1;" = .ok s) ∧ (∃ t, parse "if\x7b\x7d" = .ok t) ∧
      ¬ ∃ u, parse ("X:=1;" ++ "if\x7b\x7d") = .ok u := by
  have hrejected : parse ("X:=1;" ++ "if\x7b\x7d") = .error (.rejected
      ⟨"unexpected 'if'; expected one of: $END, CLASS_IDENT, ID_IDENT, LOWER_IDENT, VARIABLE",
        some 1, some 6⟩) := by
    decide +kernel
  refine ⟨⟨⟨none, [.assignment none "X" (.literal none (.scalar 1))]⟩, by decide +kernel⟩,
    ⟨⟨none, [.rule none [.tag "if"] []]⟩, by decide +kernel⟩, ?_⟩
  rintro ⟨u, hu⟩
  cases hrejected.symm.trans hu

/-- The other way round the two texts make one. -/
theorem parse_append_assignment :
    parse ("if\x7b\x7d" ++ "X:=1;") = .ok ⟨none, [.rule none [.tag "if"] [],
      .assignment none "X" (.literal none (.scalar 1))]⟩ := by
  have hfirst : parse "if\x7b\x7d" = .ok ⟨none, [.rule none [.tag "if"] []]⟩ := by decide +kernel
  have hsecond : parse "X:=1;" = .ok ⟨none, [.assignment none "X" (.literal none (.scalar 1))]⟩ := by
    decide +kernel
  refine (parse_append hfirst hsecond).2 ?_
  rintro ⟨⟨m, x, e, hlast⟩, -⟩
  cases hlast

end StyleLang
