import Mathlib.Data.List.Chain
import StyleLang.Node
import StyleLang.Proofs.Source.Spelling

/-!
# The trees that have spellings, and their pieces

Which trees a text can spell, with all slots empty: the names and colors in them are lexemes, no
number is negative, and operations stand as the precedence and the left associativity of their
operators have it. Blocks are described for a relation between neighbours: two keywords are also
names, and where a keyword is looked for the name cannot stand.
-/

namespace StyleLang

namespace Source

def isWord (first next : Char → Bool) : List Char → Bool
  | [] => false
  | c :: cs => first c && cs.all next

def isTagText : List Char → Bool := isWord isLower isTagChar

def isNameText : List Char → Bool := isWord isNameStart isNameChar

def isVariableText : List Char → Bool := isWord isUpper isVariableChar

def isColorText : List Char → Bool
  | '#' :: ds => (ds.length = 3 || ds.length = 6) && ds.all isHex
  | _ => false

def selectorPieces : List Selector → List Piece
  | [] => []
  | [s] => [.exact s.text.toList]
  | s :: ss => .exact s.text.toList :: .exact [','] :: selectorPieces ss

def literalPiece : Literal → Piece
  | .pixel n => .number n ['p', 'x']
  | .percentage n => .number n ['%']
  | .scalar n => .number n []
  | .color s => .exact s.toList
  | .bool true => .exact ['T', 'R', 'U', 'E']
  | .bool false => .exact ['F', 'A', 'L', 'S', 'E']

/-- The pieces of a condition, from the keyword on. -/
def conditionPieces (condition : List Piece) : List Piece :=
  .exact ['i', 'f'] :: .exact ['['] :: condition ++ [.exact [']']]

/-- The pieces of a block. -/
def blockPieces (members : List Piece) : List Piece :=
  .exact ['\x7b'] :: members ++ [.exact ['\x7d']]

mutual

/-- What a spelling of the tree is made of, in order. -/
def pieces : Node → List Piece
  | .literal _ v => [literalPiece v]
  | .reference _ x => [.exact x.toList]
  | .operation _ op l r => pieces l ++ .exact op.symbol.toList :: pieces r
  | .declaration _ p e => .exact p.toList :: .exact [':'] :: pieces e ++ [.exact [';']]
  | .assignment _ x e => .exact x.toList :: .exact [':', '='] :: pieces e ++ [.exact [';']]
  | .ifClause _ c body => conditionPieces (pieces c) ++ blockPieces (piecesAll body)
  | .ifElse _ c body _ ebody =>
    conditionPieces (pieces c) ++ blockPieces (piecesAll body) ++
      .exact ['e', 'l', 's', 'e'] :: blockPieces (piecesAll ebody)
  | .elseClause _ body => .exact ['e', 'l', 's', 'e'] :: blockPieces (piecesAll body)
  | .rule _ ss body => selectorPieces ss ++ blockPieces (piecesAll body)
  | .sheet _ members => piecesAll members
  | .foreign _ => []

def piecesAll : List Node → List Piece
  | [] => []
  | n :: ns => pieces n ++ piecesAll ns

end

theorem piecesAll_append (ms ns : List Node) :
    piecesAll (ms ++ ns) = piecesAll ms ++ piecesAll ns := by
  induction ms with
  | nil => rfl
  | cons m ms ih => rw [List.cons_append, piecesAll, piecesAll, ih, List.append_assoc]

theorem selectorPieces_snoc {ss : List Selector} (h : ss ≠ []) (s : Selector) :
    selectorPieces (ss ++ [s]) = selectorPieces ss ++ [.exact [','], .exact s.text.toList] := by
  induction ss with
  | nil => exact absurd rfl h
  | cons t ss ih =>
    cases ss with
    | nil => rfl
    | cons u ss =>
      have hne : u :: ss ≠ [] := List.cons_ne_nil u ss
      have htail : selectorPieces (t :: (u :: ss ++ [s])) =
          .exact t.text.toList :: .exact [','] :: selectorPieces (u :: ss ++ [s]) := rfl
      rw [List.cons_append, htail, ih hne]
      rfl

inductive SelectorForm : Selector → Prop
  | tag {v : String} (h : isTagText v.toList = true) : SelectorForm (.tag v)
  | ofClass {v : String} (h : isNameText v.toList = true) : SelectorForm (.ofClass v)
  | ofId {v : String} (h : isNameText v.toList = true) : SelectorForm (.ofId v)

inductive AtomForm : Node → Prop
  | pixel {n : Int} (h : 0 ≤ n) : AtomForm (.literal none (.pixel n))
  | percentage {n : Int} (h : 0 ≤ n) : AtomForm (.literal none (.percentage n))
  | scalar {n : Int} (h : 0 ≤ n) : AtomForm (.literal none (.scalar n))
  | color {s : String} (h : isColorText s.toList = true) : AtomForm (.literal none (.color s))
  | bool (b : Bool) : AtomForm (.literal none (.bool b))
  | reference {x : String} (h : isVariableText x.toList = true) (htrue : x ≠ "TRUE")
      (hfalse : x ≠ "FALSE") : AtomForm (.reference none x)

inductive ProductForm : Node → Prop
  | atom {n} (h : AtomForm n) : ProductForm n
  | times {l r} (hl : ProductForm l) (hr : AtomForm r) :
      ProductForm (.operation none .multiply l r)

inductive SumForm : Node → Prop
  | product {n} (h : ProductForm n) : SumForm n
  | sum {op l r} (hop : op ≠ .multiply) (hl : SumForm l) (hr : ProductForm r) :
      SumForm (.operation none op l r)

/-- Members of bodies in which neighbours are related by `R`. -/
inductive MemberForm (R : Node → Node → Prop) : Node → Prop
  | declaration {p e} (hp : isTagText p.toList = true) (hif : p ≠ "if") (he : SumForm e) :
      MemberForm R (.declaration none p e)
  | assignment {x e} (hx : isVariableText x.toList = true) (he : SumForm e) :
      MemberForm R (.assignment none x e)
  | ifClause {c body} (hc : SumForm c) (hbody : ∀ n ∈ body, MemberForm R n)
      (hchain : body.IsChain R) : MemberForm R (.ifClause none c body)
  | ifElse {c body ebody} (hc : SumForm c) (hbody : ∀ n ∈ body, MemberForm R n)
      (hchain : body.IsChain R) (hebody : ∀ n ∈ ebody, MemberForm R n) (hechain : ebody.IsChain R) :
      MemberForm R (.ifElse none c body none ebody)

structure BodyForm (R : Node → Node → Prop) (body : List Node) : Prop where
  members : ∀ n ∈ body, MemberForm R n
  chain : body.IsChain R

structure SelectorsForm (ss : List Selector) : Prop where
  ne_nil : ss ≠ []
  all : ∀ s ∈ ss, SelectorForm s

inductive SheetMemberForm (R : Node → Node → Prop) : Node → Prop
  | assignment {x e} (hx : isVariableText x.toList = true) (he : SumForm e) :
      SheetMemberForm R (.assignment none x e)
  | rule {ss body} (hss : SelectorsForm ss) (hbody : BodyForm R body) :
      SheetMemberForm R (.rule none ss body)

structure SheetForm (R : Node → Node → Prop) (s : Sheet) : Prop where
  mark : s.mark = none
  members : ∀ n ∈ s.members, SheetMemberForm R n
  chain : s.members.IsChain R

/-- Whether the second node may stand right after the first one. After an assignment a rule must not
begin with the tag `if`, and after an if-clause that has no else-clause a declaration must not be of the
property `else`. -/
def apart : Node → Node → Bool
  | .assignment _ _ _, .rule _ (s :: _) _ => s ≠ .tag "if"
  | .ifClause _ _ _, .declaration _ p _ => p ≠ "else"
  | _, _ => true

abbrev Apart (a b : Node) : Prop := apart a b = true

mutual

/-- Whether neighbours may stand side by side in all blocks of the tree. -/
def keywordsApart : Node → Bool
  | .ifClause _ _ body => keywordsApartAll body
  | .ifElse _ _ body _ ebody => keywordsApartAll body && keywordsApartAll ebody
  | .elseClause _ body => keywordsApartAll body
  | .rule _ _ body => keywordsApartAll body
  | .sheet _ members => keywordsApartAll members
  | _ => true

def keywordsApartAll : List Node → Bool
  | [] => true
  | n :: ns => keywordsApart n && ns.head?.all (apart n) && keywordsApartAll ns

end

/-- Whatever stands side by side: the trees that the grammar alone describes. -/
abbrev ParserForm (s : Sheet) : Prop := SheetForm (fun _ _ => True) s

theorem keywordsApartAll_iff {ns : List Node} :
    keywordsApartAll ns = true ↔ (∀ n ∈ ns, keywordsApart n = true) ∧ ns.IsChain Apart := by
  induction ns with
  | nil => simp [keywordsApartAll]
  | cons n ns ih =>
    rw [keywordsApartAll, Bool.and_eq_true, Bool.and_eq_true, ih, List.isChain_cons]
    cases ns <;> simp [and_assoc, and_left_comm]

theorem memberForm_apart_iff {n : Node} :
    MemberForm Apart n ↔ MemberForm (fun _ _ => True) n ∧ keywordsApart n = true := by
  constructor
  · intro h
    induction h with
    | declaration hp hif he => exact ⟨.declaration hp hif he, rfl⟩
    | assignment hx he => exact ⟨.assignment hx he, rfl⟩
    | ifClause hc hbody hchain ih =>
      refine ⟨.ifClause hc (fun n hn => (ih n hn).1) (hchain.imp fun _ _ _ => trivial), ?_⟩
      exact keywordsApartAll_iff.mpr ⟨fun n hn => (ih n hn).2, hchain⟩
    | ifElse hc hbody hchain hebody hechain ih ihe =>
      refine ⟨.ifElse hc (fun n hn => (ih n hn).1) (hchain.imp fun _ _ _ => trivial)
        (fun n hn => (ihe n hn).1) (hechain.imp fun _ _ _ => trivial), ?_⟩
      rw [keywordsApart, Bool.and_eq_true]
      exact ⟨keywordsApartAll_iff.mpr ⟨fun n hn => (ih n hn).2, hchain⟩,
        keywordsApartAll_iff.mpr ⟨fun n hn => (ihe n hn).2, hechain⟩⟩
  · intro h
    obtain ⟨h, hk⟩ := h
    induction h with
    | declaration hp hif he => exact .declaration hp hif he
    | assignment hx he => exact .assignment hx he
    | ifClause hc hbody hchain ih =>
      obtain ⟨hall, hapart⟩ := keywordsApartAll_iff.mp hk
      exact .ifClause hc (fun n hn => ih n hn (hall n hn)) hapart
    | ifElse hc hbody hchain hebody hechain ih ihe =>
      rw [keywordsApart, Bool.and_eq_true] at hk
      obtain ⟨hall, hapart⟩ := keywordsApartAll_iff.mp hk.1
      obtain ⟨hall', hapart'⟩ := keywordsApartAll_iff.mp hk.2
      exact .ifElse hc (fun n hn => ih n hn (hall n hn)) hapart
        (fun n hn => ihe n hn (hall' n hn)) hapart'

theorem sheetMemberForm_apart_iff {n : Node} :
    SheetMemberForm Apart n ↔ SheetMemberForm (fun _ _ => True) n ∧ keywordsApart n = true := by
  constructor
  · intro h
    cases h with
    | assignment hx he => exact ⟨.assignment hx he, rfl⟩
    | rule hss hbody =>
      refine ⟨.rule hss ⟨fun n hn => (memberForm_apart_iff.mp (hbody.members n hn)).1,
        hbody.chain.imp fun _ _ _ => trivial⟩, ?_⟩
      exact keywordsApartAll_iff.mpr
        ⟨fun n hn => (memberForm_apart_iff.mp (hbody.members n hn)).2, hbody.chain⟩
  · intro h
    obtain ⟨h, hk⟩ := h
    cases h with
    | assignment hx he => exact .assignment hx he
    | rule hss hbody =>
      obtain ⟨hall, hapart⟩ := keywordsApartAll_iff.mp hk
      exact .rule hss
        ⟨fun n hn => memberForm_apart_iff.mpr ⟨hbody.members n hn, hall n hn⟩, hapart⟩

theorem sheetForm_apart_iff {s : Sheet} :
    SheetForm Apart s ↔ ParserForm s ∧ keywordsApart s.node = true := by
  have hnode : keywordsApart s.node = true ↔
      (∀ n ∈ s.members, keywordsApart n = true) ∧ s.members.IsChain Apart := keywordsApartAll_iff
  rw [hnode]
  constructor
  · intro h
    have hsplit := fun n hn => sheetMemberForm_apart_iff.mp (h.members n hn)
    exact ⟨⟨h.mark, fun n hn => (hsplit n hn).1, h.chain.imp fun _ _ _ => trivial⟩,
      fun n hn => (hsplit n hn).2, h.chain⟩
  · intro h
    obtain ⟨hform, hall, hapart⟩ := h
    exact ⟨hform.mark,
      fun n hn => sheetMemberForm_apart_iff.mpr ⟨hform.members n hn, hall n hn⟩, hapart⟩

end Source

end StyleLang
