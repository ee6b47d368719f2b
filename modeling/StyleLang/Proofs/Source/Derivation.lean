import StyleLang.Source.Terminal

/-!
# Sequences of terminals that the grammar derives

The grammar as it is written down, with repetitions and options, and the sequences of terminals that come
of it. Neither texts nor trees come in, nor how anything is read. Sums and products are left recursive; a
sequence can also be taken from the left, as a first operand and a repetition.
-/

namespace StyleLang.Source

inductive Phrase where
  | sheet
  | assignment
  | rule
  | selector
  | body
  | declaration
  | ifClause
  | elseClause
  | expression
  | sum
  | product
  | atom

/-- What a phrase is made of. -/
inductive Symbol where
  | terminal (t : Terminal)
  | phrase (p : Phrase)
  /-- Any number of times one of the sequences. -/
  | many (choices : List (List Symbol))
  | optional (content : List Symbol)

namespace Phrase

/-- The sequences of symbols that a phrase may consist of. -/
def productions : Phrase → List (List Symbol)
  | sheet => [[.many [[.phrase assignment], [.phrase rule]]]]
  | assignment =>
    [[.terminal .variableName, .terminal .assign, .phrase expression, .terminal .semicolon]]
  | rule =>
    [[.phrase selector, .many [[.terminal .comma, .phrase selector]], .terminal .openBrace,
      .phrase body, .terminal .closeBrace]]
  | selector => [[.terminal .tagName], [.terminal .className], [.terminal .idName]]
  | body => [[.many [[.phrase declaration], [.phrase assignment], [.phrase ifClause]]]]
  | declaration => [[.terminal .tagName, .terminal .colon, .phrase expression, .terminal .semicolon]]
  | ifClause =>
    [[.terminal .ifWord, .terminal .openBracket, .phrase expression, .terminal .closeBracket,
      .terminal .openBrace, .phrase body, .terminal .closeBrace, .optional [.phrase elseClause]]]
  | elseClause =>
    [[.terminal .elseWord, .terminal .openBrace, .phrase body, .terminal .closeBrace]]
  | expression => [[.phrase sum]]
  | sum =>
    [[.phrase product], [.phrase sum, .terminal .plus, .phrase product],
      [.phrase sum, .terminal .minus, .phrase product]]
  | product => [[.phrase atom], [.phrase product, .terminal .star, .phrase atom]]
  | atom =>
    [[.terminal .pixel], [.terminal .percentage], [.terminal .color], [.terminal .scalar],
      [.terminal .trueWord], [.terminal .falseWord], [.terminal .variableName]]

end Phrase

/-- The sequences of terminals that come of a sequence of symbols. -/
inductive Derives : List Symbol → List Terminal → Prop
  | nil : Derives [] []
  | terminal {t ss ts} (h : Derives ss ts) : Derives (.terminal t :: ss) (t :: ts)
  | phrase {p content ss ts us} (hp : content ∈ Phrase.productions p) (hc : Derives content ts)
      (h : Derives ss us) : Derives (.phrase p :: ss) (ts ++ us)
  | done {choices ss ts} (h : Derives ss ts) : Derives (.many choices :: ss) ts
  | more {choices content ss ts us} (hm : content ∈ choices) (hc : Derives content ts)
      (h : Derives (.many choices :: ss) us) : Derives (.many choices :: ss) (ts ++ us)
  | absent {content ss ts} (h : Derives ss ts) : Derives (.optional content :: ss) ts
  | present {content ss ts us} (hc : Derives content ts) (h : Derives ss us) :
      Derives (.optional content :: ss) (ts ++ us)

/-- The sequence is the beginning of one that the grammar derives. -/
def Viable (ts : List Terminal) : Prop := ∃ us, Derives [.phrase .sheet] (ts ++ us)

theorem Viable.of_prefix {ts us : List Terminal} (h : Viable us) (hp : ts <+: us) : Viable ts := by
  obtain ⟨vs, rfl⟩ := hp
  obtain ⟨ws, hws⟩ := h
  exact ⟨vs ++ ws, by rwa [← List.append_assoc]⟩

theorem Derives.append {as bs : List Symbol} {ts us : List Terminal} (ha : Derives as ts)
    (hb : Derives bs us) : Derives (as ++ bs) (ts ++ us) := by
  induction ha with
  | nil => exact hb
  | terminal _ ih => exact .terminal ih
  | phrase hp hc _ _ ih =>
    rw [List.append_assoc]
    exact .phrase hp hc ih
  | done _ ih => exact .done ih
  | more hm hc _ _ ih =>
    rw [List.append_assoc]
    exact .more hm hc ih
  | absent _ ih => exact .absent ih
  | present hc _ _ ih =>
    rw [List.append_assoc]
    exact .present hc ih

theorem Derives.singleton_phrase {p : Phrase} {content : List Symbol} {ts : List Terminal}
    (hp : content ∈ p.productions) (hc : Derives content ts) : Derives [.phrase p] ts := by
  have h := Derives.phrase hp hc .nil
  rwa [List.append_nil] at h

theorem Derives.split_head {a : Symbol} {ss : List Symbol} {ts : List Terminal}
    (h : Derives (a :: ss) ts) : ∃ us vs, ts = us ++ vs ∧ Derives [a] us ∧ Derives ss vs := by
  generalize hsymbols : a :: ss = symbols at h
  induction h with
  | nil => cases hsymbols
  | terminal h =>
    cases hsymbols
    exact ⟨_, _, rfl, .terminal .nil, h⟩
  | phrase hp hc h =>
    cases hsymbols
    exact ⟨_, _, rfl, .singleton_phrase hp hc, h⟩
  | done h =>
    cases hsymbols
    exact ⟨[], _, rfl, .done .nil, h⟩
  | more hm hc h _ ih =>
    cases hsymbols
    obtain ⟨us, vs, rfl, hhead, hrest⟩ := ih rfl
    exact ⟨_, vs, (List.append_assoc ..).symm, .more hm hc hhead, hrest⟩
  | absent h =>
    cases hsymbols
    exact ⟨[], _, rfl, .absent .nil, h⟩
  | @present content ss ts us hc h =>
    cases hsymbols
    refine ⟨ts, us, rfl, ?_, h⟩
    have hp := Derives.present hc .nil
    rwa [List.append_nil] at hp

theorem Derives.split {as bs : List Symbol} {ts : List Terminal} (h : Derives (as ++ bs) ts) :
    ∃ us vs, ts = us ++ vs ∧ Derives as us ∧ Derives bs vs := by
  induction as generalizing ts with
  | nil => exact ⟨[], ts, rfl, .nil, h⟩
  | cons a as ih =>
    obtain ⟨us, vs, rfl, ha, h⟩ := h.split_head
    obtain ⟨us', vs', rfl, has, hbs⟩ := ih h
    exact ⟨us ++ us', vs', (List.append_assoc ..).symm, ha.append has, hbs⟩

section

variable {ss : List Symbol} {ts : List Terminal}

theorem derives_terminal_iff {t u : Terminal} :
    Derives (.terminal t :: ss) (u :: ts) ↔ u = t ∧ Derives ss ts := by
  constructor
  · intro h
    cases h with
    | terminal h => exact ⟨rfl, h⟩
  · rintro ⟨rfl, h⟩
    exact .terminal h

theorem derives_phrase_iff {p : Phrase} :
    Derives (.phrase p :: ss) ts ↔ ∃ content ∈ p.productions, Derives (content ++ ss) ts := by
  constructor
  · intro h
    cases h with
    | phrase hp hc h => exact ⟨_, hp, hc.append h⟩
  · rintro ⟨content, hp, h⟩
    obtain ⟨us, vs, rfl, hc, h⟩ := h.split
    exact .phrase hp hc h

theorem derives_many_iff {choices : List (List Symbol)} :
    Derives (.many choices :: ss) ts ↔
      Derives ss ts ∨ ∃ content ∈ choices, Derives (content ++ .many choices :: ss) ts := by
  constructor
  · intro h
    cases h with
    | done h => exact Or.inl h
    | more hm hc h => exact Or.inr ⟨_, hm, hc.append h⟩
  · rintro (h | ⟨content, hm, h⟩)
    · exact .done h
    · obtain ⟨us, vs, rfl, hc, h⟩ := h.split
      exact .more hm hc h

theorem derives_optional_iff {content : List Symbol} :
    Derives (.optional content :: ss) ts ↔ Derives ss ts ∨ Derives (content ++ ss) ts := by
  constructor
  · intro h
    cases h with
    | absent h => exact Or.inl h
    | present hc h => exact Or.inr (hc.append h)
  · rintro (h | h)
    · exact .absent h
    · obtain ⟨us, vs, rfl, hc, h⟩ := h.split
      exact .present hc h

/-- Nothing at all does not come of a sequence that asks for a terminal. -/
theorem not_derives_nil {t : Terminal} (ht : .terminal t ∈ ss) : ¬ Derives ss [] := by
  intro h
  obtain ⟨as, bs, rfl⟩ := List.append_of_mem ht
  obtain ⟨us, vs, hnil, -, hb⟩ := h.split
  obtain ⟨-, rfl⟩ := List.append_eq_nil_iff.mp hnil.symm
  cases hb

end

section

variable {p : Phrase} {base : List Symbol} {tails : List (List Symbol)} {ss : List Symbol}
  {ts us : List Terminal}

/-- A repetition may go once more. -/
theorem Derives.many_snoc {tail : List Symbol} (ht : tail ∈ tails)
    (h : Derives (.many tails :: tail) ts) (hs : Derives ss us) :
    Derives (.many tails :: ss) (ts ++ us) := by
  generalize hsymbols : Symbol.many tails :: tail = symbols at h
  induction h with
  | done h =>
    cases hsymbols
    exact .more ht h (.done hs)
  | more hm hc _ _ ih =>
    cases hsymbols
    rw [List.append_assoc]
    exact .more hm hc (ih rfl)
  | nil | terminal | phrase | absent | present => cases hsymbols

/-- What a phrase may go on with after itself. -/
theorem Derives.phrase_many (hp : ∀ tail ∈ tails, .phrase p :: tail ∈ p.productions)
    (h : Derives (.many tails :: ss) us) (ht : Derives [.phrase p] ts) :
    Derives (.phrase p :: ss) (ts ++ us) := by
  generalize hsymbols : Symbol.many tails :: ss = symbols at h
  induction h generalizing ts with
  | done h =>
    cases hsymbols
    exact ht.append h
  | more hm hc _ _ ih =>
    cases hsymbols
    rw [← List.append_assoc]
    exact ih (.singleton_phrase (hp _ hm) (ht.append hc)) rfl
  | nil | terminal | phrase | absent | present => cases hsymbols

/-- A left recursive phrase is what it begins with and a repetition. -/
theorem derives_leftRecursive_iff (base : List Symbol)
    (hp : p.productions = base :: tails.map fun tail => .phrase p :: tail) :
    Derives (.phrase p :: ss) ts ↔ Derives (base ++ .many tails :: ss) ts := by
  constructor
  · intro h
    generalize hsymbols : Symbol.phrase p :: ss = symbols at h
    induction h generalizing ss with
    | phrase hcontent hc h ihc _ =>
      cases hsymbols
      rw [hp, List.mem_cons, List.mem_map] at hcontent
      rcases hcontent with rfl | ⟨tail, htail, rfl⟩
      · exact hc.append (.done h)
      · obtain ⟨us, vs, rfl, hbase, hrest⟩ := (ihc rfl).split
        rw [List.append_assoc]
        exact hbase.append (hrest.many_snoc htail h)
    | nil | terminal | done | more | absent | present => cases hsymbols
  · intro h
    obtain ⟨us, vs, rfl, hbase, hrest⟩ := h.split
    have hone : Derives [.phrase p] us :=
      .singleton_phrase (by rw [hp]; exact List.mem_cons_self) hbase
    refine hrest.phrase_many (fun tail htail => ?_) hone
    rw [hp]
    exact List.mem_cons_of_mem _ (List.mem_map_of_mem htail)

end

/-- What may follow the first factor of a product. -/
def factors : Symbol := .many [[.terminal .star, .phrase .atom]]

/-- What may follow the first product of a sum. -/
def terms : Symbol :=
  .many [[.terminal .plus, .phrase .product], [.terminal .minus, .phrase .product]]

section

variable {ss : List Symbol} {ts : List Terminal}

theorem derives_product_iff :
    Derives (.phrase .product :: ss) ts ↔ Derives (.phrase .atom :: factors :: ss) ts :=
  derives_leftRecursive_iff [.phrase .atom] rfl

theorem derives_expression_iff : Derives (.phrase .expression :: ss) ts ↔
    Derives (.phrase .atom :: factors :: terms :: ss) ts := by
  have hsum : Derives (.phrase .sum :: ss) ts ↔ Derives (.phrase .product :: terms :: ss) ts :=
    derives_leftRecursive_iff [.phrase .product] rfl
  rw [derives_phrase_iff, ← derives_product_iff, ← hsum]
  simp [Phrase.productions]

end

/-- Something comes of each phrase. -/
theorem exists_derives_phrase (p : Phrase) : ∃ ts, Derives [.phrase p] ts := by
  have hatom : Derives [.phrase .atom] [.scalar] :=
    .singleton_phrase (by simp [Phrase.productions] : [.terminal .scalar] ∈ _) (.terminal .nil)
  have hproduct : Derives [.phrase .product] [.scalar] :=
    derives_product_iff.mpr (hatom.append (.done .nil))
  have hsum : Derives [.phrase .sum] [.scalar] :=
    .singleton_phrase (by simp [Phrase.productions] : [.phrase .product] ∈ _) hproduct
  have hexpression : Derives [.phrase .expression] [.scalar] :=
    .singleton_phrase (List.mem_singleton.mpr rfl) hsum
  have hselector : Derives [.phrase .selector] [.tagName] :=
    .singleton_phrase (by simp [Phrase.productions] : [.terminal .tagName] ∈ _)
      (.terminal .nil)
  have hbody : Derives [.phrase .body] [] :=
    .singleton_phrase (List.mem_singleton.mpr rfl) (.done .nil)
  -- the phrases with one production, from the front of it to its end
  have hone : ∀ {content ts}, p.productions = [content] → Derives content ts →
      ∃ ts, Derives [.phrase p] ts := fun hp hc =>
    ⟨_, .singleton_phrase (by rw [hp]; exact List.mem_singleton.mpr rfl) hc⟩
  cases p with
  | atom => exact ⟨_, hatom⟩
  | product => exact ⟨_, hproduct⟩
  | sum => exact ⟨_, hsum⟩
  | expression => exact ⟨_, hexpression⟩
  | selector => exact ⟨_, hselector⟩
  | body => exact ⟨_, hbody⟩
  | sheet => exact hone rfl (.done .nil)
  | assignment | declaration =>
    exact hone rfl (.terminal (.terminal (hexpression.append (.terminal .nil))))
  | rule => exact hone rfl (hselector.append (.done (.terminal (hbody.append (.terminal .nil)))))
  | elseClause => exact hone rfl (.terminal (.terminal (hbody.append (.terminal .nil))))
  | ifClause =>
    exact hone rfl (.terminal (.terminal (hexpression.append
      (.terminal (.terminal (hbody.append (.terminal (.absent .nil))))))))

theorem exists_derives (ss : List Symbol) : ∃ ts, Derives ss ts := by
  induction ss with
  | nil => exact ⟨[], .nil⟩
  | cons s ss ih =>
    obtain ⟨ts, h⟩ := ih
    cases s with
    | terminal t => exact ⟨t :: ts, .terminal h⟩
    | many => exact ⟨ts, .done h⟩
    | optional => exact ⟨ts, .absent h⟩
    | phrase p =>
      obtain ⟨us, hp⟩ := exists_derives_phrase p
      exact ⟨us ++ ts, hp.append h⟩

end StyleLang.Source
