import StyleLang.Node.Equality
import StyleLang.Proofs.Source.Continuation
import StyleLang.Proofs.Source.Progress

/-!
# The place of an error

Where a text is rejected. The terminals of the tokens that a reading passes begin a sequence that the
grammar derives; the place of an error is the first token with which they no longer do, or the first
character that no token begins with. If the text ends too early the place is its last token. The line
counts the line feeds before the place, whatever they stand in.
-/

namespace StyleLang

namespace Text

/-- The offset just after the last line feed of a text, or zero. -/
structure IsLineStart (before : List Char) (start : Nat) : Prop where
  after : start = 0 ∨ ∃ i, start = i + 1 ∧ before[i]? = some '\n'
  last : ∀ i, start ≤ i → before[i]? ≠ some '\n'

theorem exists_lineStart (before : List Char) : ∃ start, IsLineStart before start ∧
    placeAfter before = ⟨1 + before.count '\n', before.length - start + 1⟩ := by
  -- what stands on the last line, and the lines before it
  let current := (before.reverse.takeWhile (· ≠ '\n')).reverse
  let earlier := (before.reverse.dropWhile (· ≠ '\n')).reverse
  have hsplit : before = earlier ++ current := by
    rw [← List.reverse_append, List.takeWhile_append_dropWhile, List.reverse_reverse]
  have hcurrent : '\n' ∉ current := fun hmem => by
    simpa using List.all_eq_true.mp List.all_takeWhile _ (List.mem_reverse.mp hmem)
  refine ⟨earlier.length, ⟨?_, fun i hi hfeed => hcurrent ?_⟩, ?_⟩
  · cases hlines : before.reverse.dropWhile (· ≠ '\n') with
    | nil =>
      refine Or.inl ?_
      show (before.reverse.dropWhile _).reverse.length = 0
      rw [hlines]
      rfl
    | cons c lines =>
      have hc := List.head?_dropWhile_not (· ≠ '\n') before.reverse
      have hearlier : earlier = lines.reverse ++ [c] := by
        show (before.reverse.dropWhile _).reverse = _
        rw [hlines, List.reverse_cons]
      rw [hlines] at hc
      obtain rfl : c = '\n' := by simpa using hc
      refine Or.inr ⟨lines.length, by simp [hearlier], ?_⟩
      rw [hsplit, hearlier]
      simp
  · rw [hsplit, List.getElem?_append_right hi] at hfeed
    exact List.mem_of_getElem? hfeed
  · have hlength : before.length - earlier.length = current.length := by simp [hsplit]
    rw [hlength, placeAfter, Nat.add_comm 1 (List.length _)]
    simp [current]

end Text

namespace Source

def kinds (ts : List Token) : List Terminal := ts.map Token.terminal

namespace Reading

/-- Reading on from `r` passes the tokens, with gaps between them, and comes to `r'` before `cs'`. -/
inductive Passes : Reading → List Char → List Token → Reading → List Char → Prop
  | done (r : Reading) (cs : List Char) : Passes r cs [] r cs
  | token {r r₁ r' : Reading} {gap cs rest cs' : List Char} {t : Token} {ts : List Token}
      (hgap : Gap gap) (hscan : scan? r.tried cs = some (t, rest)) (hadv : r.advance t = .ok r₁)
      (h : Passes r₁ rest ts r' cs') : Passes r (gap ++ cs) (t :: ts) r' cs'

section

variable {r r' : Reading} {cs cs' : List Char} {ts : List Token} {us : List Terminal}

theorem Passes.suffix (h : Passes r cs ts r' cs') : cs' <:+ cs := by
  induction h with
  | done => exact List.suffix_refl _
  | @token _ _ _ gap _ _ _ _ _ _ hscan _ _ ih =>
    obtain ⟨happ, -⟩ := scan?_append hscan
    rw [← happ]
    exact (ih.trans (List.suffix_append _ _)).trans (List.suffix_append gap _)

theorem Passes.nested (h : Passes r cs ts r' cs') (hr : r.Nested) : r'.Nested := by
  induction h with
  | done => exact hr
  | token _ _ hadv _ ih => exact ih (hr.advance hadv)

/-- What is to come after the tokens is what was to come, less the tokens. -/
theorem Passes.derives_iff (h : Passes r cs ts r' cs') :
    Derives r.toCome (kinds ts ++ us) ↔ Derives r'.toCome us := by
  induction h with
  | done => exact Iff.rfl
  | token _ _ hadv _ ih =>
    show Derives _ (_ :: (kinds _ ++ us)) ↔ _
    rw [goesOn_advance, hadv, goesOn_ok, ih]

theorem derives_start_iff : Derives [.phrase .sheet] us ↔ Derives start.toCome us := by
  rw [derives_sheet_iff]
  rfl

/-- The terminals of the tokens may go on with others exactly if these may come next. -/
theorem Passes.viable_iff (h : Passes .start cs ts r' cs') :
    Viable (kinds ts ++ us) ↔ ∃ vs, Derives r'.toCome (us ++ vs) := by
  simp only [Viable, List.append_assoc, derives_start_iff, h.derives_iff]

theorem Passes.viable (h : Passes .start cs ts r' cs') : Viable (kinds ts) := by
  obtain ⟨vs, hvs⟩ := exists_derives r'.toCome
  rw [← List.append_nil (kinds ts), h.viable_iff]
  exact ⟨vs, hvs⟩

end

section

variable {r r' : Reading} {t : Token} {cs rest : List Char}

theorem mem_of_selector? {s : Selector} (h : selector? t = some s) :
    t.terminal ∈ [Terminal.className, .idName, .tagName] := by
  rw [← selector?_isSome, h]
  rfl

theorem mem_memberTerminals_of_beginMember (h : r.beginMember t = some r') :
    t.terminal ∈ r.memberTerminals := by
  obtain ⟨terminal, text⟩ := t
  cases ho : r.outer <;> cases terminal <;>
    simp_all [beginMember, selector?, memberTerminals, sheetTerminals, bodyTerminals]

/-- A token that is accepted has one of the terminals that are tried. -/
theorem mem_tried_of_advance (hr : r.Nested) (h : r.advance t = .ok r') : t.terminal ∈ r.tried := by
  cases hp : r.point with
  | member =>
    simp only [advance, hp, orWanted_eq_ok] at h
    simpa only [tried, hp] using mem_memberTerminals_of_beginMember h
  | afterAssignment =>
    simp only [advance, hp, orWanted_eq_ok] at h
    have hsubset : r.memberTerminals ⊆ r.tried := by
      cases ho : r.outer <;> simp [tried, hp, memberTerminals, ho, sheetTerminals, bodyTerminals]
    exact hsubset (mem_memberTerminals_of_beginMember h)
  | afterIf c body =>
    have ho : r.outer ≠ [] := hr.point (by rw [hp]; rfl)
    simp only [advance, hp] at h
    simp only [tried, hp]
    split at h
    · simp_all
    · rw [orWanted_eq_ok] at h
      have hmem := mem_memberTerminals_of_beginMember h
      have hbody : (r.add (.ifClause none c body) .member).memberTerminals = bodyTerminals := by
        obtain ⟨b, outer, hcons⟩ := List.exists_cons_of_ne_nil ho
        simp [memberTerminals, add, hcons]
      rw [hbody] at hmem
      exact List.mem_cons_of_mem _ hmem
  | selector =>
    simp only [advance, hp, orWanted_eq_ok] at h
    obtain ⟨s, hs, -⟩ := Option.map_eq_some_iff.mp h
    simpa only [tried, hp] using mem_of_selector? hs
  | operand =>
    simp only [advance, hp] at h
    split at h
    · rename_i hn
      simp only [tried, hp]
      rw [← operand?_isSome, hn]
      rfl
    · cases h
  | operator purpose =>
    simp only [advance, hp] at h
    simp only [tried, hp]
    split at h
    · simp_all [operatorTerminals]
    · simp_all [operatorTerminals]
    · simp_all [operatorTerminals]
    · split at h
      · rename_i hclosing
        cases purpose <;> simp [hclosing, Purpose.closing, operatorTerminals]
      · cases h
  | selectorRead | assignSign | propertyColon | conditionBracket | ifBrace | elseBrace =>
    simp only [advance, hp] at h
    split at h <;> simp_all [tried, orWanted_eq_ok]

/-- Where a keyword is tried, so is the name that looks like it. -/
theorem mem_tried_of_keyword? {u k : Terminal} {w : List Char} (hk : keyword? u w = some k)
    (h : k ∈ r.tried) : u ∈ r.tried := by
  have hname : (u = .tagName ∧ (k = .ifWord ∨ k = .elseWord)) ∨
      (u = .variableName ∧ (k = .trueWord ∨ k = .falseWord)) := by
    rcases keyword?_cases hk with h | h | h | h <;> simp [h.1, h.2.1]
  simp only [tried, memberTerminals] at h ⊢
  rcases hname with ⟨rfl, rfl | rfl⟩ | ⟨rfl, rfl | rfl⟩ <;> split at h <;>
    simp_all [sheetTerminals, bodyTerminals, operandTerminals, operatorTerminals] <;>
    split at h <;> simp_all

/-- If none of the terminals that are tried has a lexeme, no token at all can be accepted. -/
theorem not_mem_tried_of_scan? {tried : List Terminal} (hnone : scan? r.tried cs = none)
    (h : scan? tried cs = some (t, rest)) : t.terminal ∉ r.tried := by
  obtain ⟨u, hu, hfound⟩ := List.exists_of_findSome?_eq_some h
  have hskip := List.findSome?_eq_none_iff.mp hnone u hu
  split at hfound
  · obtain ⟨⟨w, rest'⟩, hw, heq⟩ := Option.map_eq_some_iff.mp hfound
    cases heq
    have hu : u ∉ r.tried := fun hmem => by simp [hmem, hw] at hskip
    rw [classify]
    split
    · rename_i k hk
      split
      · exact fun hmem => hu (mem_tried_of_keyword? hk hmem)
      · exact hu
    · exact hu
  · cases hfound

end

/-- The text from the last of the tokens on, if `after` follows them. -/
def fromLast (last : List Char) (ts : List Token) (after : List Char) : List Char :=
  match ts.getLast? with
  | some t => t.text ++ after
  | none => last

theorem fromLast_cons (last after : List Char) (t : Token) (ts : List Token) :
    fromLast last (t :: ts) after = fromLast (t.text ++ after) ts after := by
  cases hlast : ts.getLast? <;> simp [fromLast, List.getLast?_cons, hlast]

/-- What a reading has in front of it where a text is rejected, and what the rejection says. -/
inductive Stuck (r : Reading) : List Char → List Char → Rejection → Prop
  | ending {last : List Char} {wanted : List Terminal} (h : r.finish = .error wanted) :
      Stuck r last [] ⟨.ending wanted, last⟩
  | misfit {last : List Char} {c : Char} {cs : List Char} (h : scan? r.tried (c :: cs) = none) :
      Stuck r last (c :: cs) ⟨misfit r c cs, c :: cs⟩
  | token {last cs rest : List Char} {t : Token} {wanted : List Terminal}
      (h : scan? r.tried cs = some (t, rest)) (hadv : r.advance t = .error wanted) :
      Stuck r last cs ⟨.token t.text wanted, cs⟩

theorem Passes.fromLast_suffix {r r' : Reading} {cs cs' : List Char} {ts : List Token}
    (h : Passes r cs ts r' cs') : fromLast cs ts cs' <:+ cs := by
  induction h with
  | done => exact List.suffix_refl _
  | @token _ _ _ gap cs rest cs' t ts _ hscan _ h ih =>
    have happ := (scan?_append hscan).1
    rw [fromLast_cons]
    cases ts with
    | nil =>
      cases h
      rw [fromLast, List.getLast?_nil, happ]
      exact List.suffix_append gap cs
    | cons u ts =>
      rw [fromLast_cons] at ih ⊢
      simp only [← happ] at *
      exact (ih.trans (List.suffix_append _ _)).trans (List.suffix_append gap _)

theorem skip_skip (cs : List Char) : skip (skip cs) = skip cs := by
  obtain ⟨gap, hgap, hcs⟩ := gap_skip cs
  calc skip (skip cs) = skip (gap ++ skip cs) := (skip_gap hgap _).symm
    _ = skip cs := by rw [← hcs]

/-- A rejected text is read up to where a reading is stuck. -/
theorem passes_of_readAll {r : Reading} {last cs : List Char} {e : Rejection}
    (h : readAll r last cs = .error e) :
    ∃ ts r' gap rest, Passes r cs ts r' (gap ++ rest) ∧ Gap gap ∧ skip rest = rest ∧
      r'.Stuck (fromLast last ts (gap ++ rest)) rest e := by
  fun_induction readAll r last cs with
  | case1 => cases h
  | case2 r last cs hskip wanted hf =>
    cases h
    obtain ⟨gap, hgap, hcs⟩ := gap_skip cs
    rw [hskip] at hcs
    refine ⟨[], r, gap, [], ?_, hgap, by rw [skip], .ending hf⟩
    rw [← hcs]
    exact .done r cs
  | case3 r last cs c rest hskip hscan =>
    cases h
    obtain ⟨gap, hgap, hcs⟩ := gap_skip cs
    rw [hskip] at hcs
    exact ⟨[], r, gap, c :: rest, hcs ▸ .done r cs, hgap, hskip ▸ skip_skip cs, .misfit hscan⟩
  | case4 r last cs c rest hskip t rest' hscan r₁ hadv ih =>
    obtain ⟨ts, r', gap', rest'', hpasses, hgap', hsolid, hstuck⟩ := ih h
    obtain ⟨gap, hgap, hcs⟩ := gap_skip cs
    rw [hskip] at hcs
    refine ⟨t :: ts, r', gap', rest'', ?_, hgap', hsolid, ?_⟩
    · rw [hcs]
      exact .token hgap hscan hadv hpasses
    · rw [fromLast_cons]
      cases ts with
      | cons => exact hstuck
      | nil =>
        obtain rfl : rest' = gap' ++ rest'' := by cases hpasses; rfl
        rw [(scan?_append hscan).1]
        exact hstuck
  | case5 r last cs c rest hskip t rest' hscan wanted hadv =>
    cases h
    obtain ⟨gap, hgap, hcs⟩ := gap_skip cs
    rw [hskip] at hcs
    exact ⟨[], r, gap, c :: rest, hcs ▸ .done r cs, hgap, hskip ▸ skip_skip cs, .token hscan hadv⟩

end Reading

/-- The text ends too early after its tokens, the last of which stands at the front of `rest`. -/
structure EndsEarly (source before rest : List Char) : Prop where
  text : source = before ++ rest
  tokens : ∃ ts t r gap, Reading.Passes .start source (ts ++ [t]) r gap ∧ Gap gap ∧
    rest = t.text ++ gap ∧ Viable (kinds (ts ++ [t])) ∧
    ¬ Derives [.phrase .sheet] (kinds (ts ++ [t]))

/-- The tokens before `rest` may go on, but not with a token that stands at the front of `rest`. If no
terminal that is tried has a lexeme there, this is said of the tokens that may be scanned for others. -/
structure GoesWrong (source before rest : List Char) : Prop where
  text : source = before ++ rest
  ne_nil : rest ≠ []
  solid : ∀ gap rest', Gap gap → rest = gap ++ rest' → gap = []
  tokens : ∃ ts r gap, Reading.Passes .start source ts r (gap ++ rest) ∧ Gap gap ∧
    (∀ us, us <+: kinds ts → Viable us) ∧
    match scan? r.tried rest with
    | some (t, _) => ¬ Viable (kinds ts ++ [t.terminal])
    | none => ∀ tried t rest', scan? tried rest = some (t, rest') → ¬ Viable (kinds ts ++ [t.terminal])

section

variable {source : List Char} {ts : List Token} {r : Reading} {cs' : List Char}

/-- A token that is not accepted is one that the grammar does not go on with. -/
theorem not_viable_of_advance (h : Reading.Passes .start source ts r cs') {t : Token}
    (hadv : ∀ r', r.advance t ≠ .ok r') : ¬ Viable (kinds ts ++ [t.terminal]) := by
  rw [h.viable_iff]
  rintro ⟨vs, hvs⟩
  rw [List.singleton_append, Reading.goesOn_advance] at hvs
  obtain ⟨r', hok, -⟩ := hvs
  exact hadv r' hok

/-- The text may end after the tokens exactly if the grammar derives their terminals. -/
theorem derives_iff_finish (h : Reading.Passes .start source ts r cs') :
    Derives [.phrase .sheet] (kinds ts) ↔ ∃ members, r.finish = .ok members := by
  rw [← Reading.derives_nil_iff (h.nested Reading.nested_start), ← h.derives_iff,
    List.append_nil, Reading.derives_start_iff]

theorem endsEarly_of_finish {gap : List Char} (h : Reading.Passes .start source ts r gap)
    (hgap : Gap gap) {wanted : List Terminal} (hf : r.finish = .error wanted) :
    ∃ before, EndsEarly source before (Reading.fromLast source ts gap) := by
  rcases List.eq_nil_or_concat' ts with rfl | ⟨ts, t, rfl⟩
  · cases h
    cases hf
  · obtain ⟨before, htext⟩ := h.fromLast_suffix
    have hlast : Reading.fromLast source (ts ++ [t]) gap = t.text ++ gap := by
      simp [Reading.fromLast]
    refine ⟨before, htext.symm, ts, t, r, gap, h, hgap, hlast, h.viable, ?_⟩
    rw [derives_iff_finish h, hf]
    rintro ⟨members, hok⟩
    cases hok

theorem goesWrong_of_stuck {gap rest : List Char} (h : Reading.Passes .start source ts r (gap ++ rest))
    (hgap : Gap gap) (hsolid : skip rest = rest) (hne : rest ≠ [])
    (hstuck : ∀ t rest', scan? r.tried rest = some (t, rest') → ∀ r', r.advance t ≠ .ok r') :
    ∃ before, GoesWrong source before rest := by
  obtain ⟨before, htext⟩ := (List.suffix_append gap rest).trans h.suffix
  refine ⟨before, htext.symm, hne, ?_, ts, r, gap, h, hgap, fun us hus => h.viable.of_prefix hus, ?_⟩
  · rintro gap' rest' hgap' rfl
    rw [skip_gap hgap'] at hsolid
    have hlength := skip_length rest'
    rw [hsolid, List.length_append] at hlength
    exact List.length_eq_zero_iff.mp (by omega)
  · split
    · rename_i hscan
      exact not_viable_of_advance h (hstuck _ _ hscan)
    · rename_i hscan
      intro tried t rest' hscan'
      refine not_viable_of_advance h fun r' hok => ?_
      exact Reading.not_mem_tried_of_scan? hscan hscan'
        (Reading.mem_tried_of_advance (h.nested Reading.nested_start) hok)

end

theorem quoteFor_ne (cs : List Char) : Text.quoteFor cs ≠ 'e' := by
  unfold Text.quoteFor
  split <;> decide

/-- What is said of a text that ends too early is said of no other. -/
theorem Cause.reason_iff (c : Cause) :
    "unexpected end of input".toList <+: c.reason.toList ↔ ∃ wanted, c = .ending wanted := by
  constructor
  · rintro ⟨cs, hcs⟩
    -- reasons differ in the twelfth character
    have hchar : c.reason.toList[11]? = some 'e' := by
      rw [← hcs, List.getElem?_append_left (by decide)]
      rfl
    cases c with
    | ending wanted => exact ⟨wanted, rfl⟩
    | character x =>
      have htwelfth : (Cause.character x).reason.toList[11]? = some 'c' := by
        show ("unexpected character " ++ Text.quoted (String.singleton x)).toList[11]? = some 'c'
        rw [String.toList_append, List.getElem?_append_left (by decide)]
        rfl
      rw [htwelfth] at hchar
      exact absurd (Option.some.inj hchar) (by decide)
    | token found wanted =>
      have htwelfth : (Cause.token found wanted).reason.toList[11]? = some (Text.quoteFor found) := by
        show ("unexpected " ++ Text.quoted (String.ofList found) ++ wantedText wanted).toList[11]? = _
        rw [String.toList_append, String.toList_append, List.append_assoc,
          List.getElem?_append_right (by decide), Text.quoted, String.toList_ofList,
          String.toList_ofList]
        rfl
      rw [htwelfth] at hchar
      exact absurd (Option.some.inj hchar) (quoteFor_ne _)
  · rintro ⟨wanted, rfl⟩
    exact ⟨(wantedText wanted).toList, String.toList_append.symm⟩

/-- The error of a rejection stands at the place after what is not left of the text. -/
theorem Rejection.error_place {source before : List Char} {r : Rejection}
    (h : source = before ++ r.rest) : (r.error source).reason = r.cause.reason ∧
      (r.error source).line = some ((Text.placeAfter before).line : Int) ∧
      (r.error source).column = some ((Text.placeAfter before).column : Int) := by
  have htake : source.take (source.length - r.rest.length) = before := by simp [h]
  have hline : ¬ ((Text.placeAfter before).line : Int) < 1 := by
    simp only [Text.placeAfter]
    omega
  simp only [Rejection.error, htake, ParseError.make, if_neg hline, and_self]

/-- Where and why a text is rejected: it ends too early, or goes wrong. -/
theorem place_of_readAll {source : List Char} {e : Rejection}
    (h : readAll .start source source = .error e) : ∃ before,
      if "unexpected end of input".toList <+: e.cause.reason.toList
      then EndsEarly source before e.rest else GoesWrong source before e.rest := by
  obtain ⟨ts, r, gap, rest, hpasses, hgap, hsolid, hstuck⟩ := Reading.passes_of_readAll h
  cases hstuck with
  | ending hf =>
    rw [List.append_nil] at hpasses ⊢
    obtain ⟨before, hearly⟩ := endsEarly_of_finish hpasses hgap hf
    refine ⟨before, ?_⟩
    rw [if_pos ((Cause.reason_iff _).mpr ⟨_, rfl⟩)]
    exact hearly
  | @misfit c cs hscan =>
    obtain ⟨before, hwrong⟩ := goesWrong_of_stuck hpasses hgap hsolid (List.cons_ne_nil c cs)
      fun t rest' hscan' => by rw [hscan] at hscan'; cases hscan'
    refine ⟨before, ?_⟩
    rw [if_neg fun hend => ?_]
    · exact hwrong
    · obtain ⟨wanted, hcause⟩ := (Cause.reason_iff _).mp hend
      simp only [misfit] at hcause
      split at hcause <;> cases hcause
  | @token rest _ t wanted hscan hadv =>
    have hne : rest ≠ [] := by
      rintro rfl
      have hlength := scan?_length_lt hscan
      simp at hlength
    have hstuck : ∀ t' rest', scan? r.tried rest = some (t', rest') → ∀ r', r.advance t' ≠ .ok r' := by
      intro t' rest' hscan' r' hok
      rw [hscan] at hscan'
      cases hscan'
      rw [hadv] at hok
      cases hok
    obtain ⟨before, hwrong⟩ := goesWrong_of_stuck hpasses hgap hsolid hne hstuck
    refine ⟨before, ?_⟩
    rw [if_neg fun hend => ?_]
    · exact hwrong
    · obtain ⟨wanted, hcause⟩ := (Cause.reason_iff _).mp hend
      cases hcause

end Source

namespace Source.ParseError

/-- The error stands at the last token of the text if the text ends too early, else where it goes wrong.
Its line and column are those of the place after `before`. -/
def IsPlacedIn (e : ParseError) (source : String) : Prop :=
  ∃ (before rest : List Char) (start line column : Nat),
    e.line = some (line : Int) ∧ e.column = some (column : Int) ∧ 1 ≤ line ∧ 1 ≤ column ∧
    Text.IsLineStart before start ∧ line = 1 + before.count '\n' ∧
    column = before.length - start + 1 ∧
    if "unexpected end of input".toList <+: e.reason.toList
    then EndsEarly source.toList before rest
    else GoesWrong source.toList before rest

end Source.ParseError

/-- The place of an error is where the text can no longer become a sheet. -/
theorem parse_error_place {source : String} {e : Source.ParseError}
    (h : parse source = .error (.rejected e)) : e.IsPlacedIn source := by
  simp only [parse] at h
  split at h
  · rename_i r hread
    cases h
    obtain ⟨before, hplace⟩ := Source.place_of_readAll hread
    have htext : source.toList = before ++ r.rest := by
      split at hplace
      · exact hplace.text
      · exact hplace.text
    obtain ⟨start, hstart, hafter⟩ := Text.exists_lineStart before
    obtain ⟨hreason, hline, hcolumn⟩ := Source.Rejection.error_place htext
    rw [hafter] at hline hcolumn
    refine ⟨before, r.rest, start, _, _, hline, hcolumn, by simp, by simp, hstart, rfl, rfl, ?_⟩
    rw [hreason]
    exact hplace
  · cases h
  · cases h

/-- A brace that closes nothing, after a comment of two lines. -/
theorem parse_error_place_comment :
    let e : Source.ParseError :=
      ⟨"unexpected '\x7d'; expected one of: $END, CLASS_IDENT, ID_IDENT, LOWER_IDENT, VARIABLE",
        some 2, some 4⟩
    parse "X:=1;/*\n*/ \x7d" = .error (.rejected e) ∧ e.IsPlacedIn "X:=1;/*\n*/ \x7d" := by
  have hparse : parse "X:=1;/*\n*/ \x7d" = .error (.rejected
      ⟨"unexpected '\x7d'; expected one of: $END, CLASS_IDENT, ID_IDENT, LOWER_IDENT, VARIABLE",
        some 2, some 4⟩) := by decide +kernel
  exact ⟨hparse, parse_error_place hparse⟩

end StyleLang
