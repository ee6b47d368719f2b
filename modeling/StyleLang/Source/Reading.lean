import StyleLang.Node
import StyleLang.Source.Scan
import StyleLang.Text.Decimal

/-!
# Reading a sheet token by token

A reading is what has been understood of a text so far: the blocks that are open, the members of the
innermost one, and the point inside a member. Each point says which terminals the next token is
scanned for (`tried`). A token moves the reading on, or is rejected with the terminals that were
wanted instead. After an assignment the next token is scanned for more terminals than are wanted,
because the same list serves assignments in a sheet and in a body; `if` is a keyword there.
Lists of terminals stand in the order of their names.
-/

namespace StyleLang.Source

/-- What an expression is read for. -/
inductive Purpose where
  | assignment (name : String)
  | declaration (property : String)
  | condition

/-- The terminal that ends an expression. -/
def Purpose.closing : Purpose → Terminal
  | .condition => .closeBracket
  | _ => .semicolon

/-- The left operand of a sum or difference whose right operand is being read. -/
abbrev LeftOperand := Option (Operator × Node)

/-- Where a reading stands inside the innermost block. -/
inductive Point where
  /-- Before a member or the end of the block. -/
  | member
  /-- The same, just after an assignment. -/
  | afterAssignment
  /-- The same, just after an if-clause, which may go on with an else-clause. -/
  | afterIf (condition : Node) (body : List Node)
  /-- After a comma between the selectors of a rule. -/
  | selector (read : List Selector)
  /-- After a selector of a rule. -/
  | selectorRead (read : List Selector)
  | assignSign (name : String)
  | propertyColon (property : String)
  | conditionBracket
  /-- Before an operand; `product` is the left factor if the operand is a factor. -/
  | operand (purpose : Purpose) (sum : LeftOperand) (product : Option Node)
  /-- After an operand, which has become part of `product`. -/
  | operator (purpose : Purpose) (sum : LeftOperand) (product : Node)
  | ifBrace (condition : Node)
  | elseBrace (condition : Node) (body : List Node)

/-- A block that is open. -/
inductive Block where
  | rule (selectors : List Selector)
  | ifBody (condition : Node)
  | elseBody (condition : Node) (body : List Node)

/-- An open block, with the members read before it in the block around it, latest first. -/
structure OpenBlock where
  block : Block
  before : List Node

/-- A literal whose digits are too many. -/
structure Overlong where
  terminal : Terminal
  digits : Nat
  deriving DecidableEq

structure Reading where
  /-- The open blocks, innermost first. -/
  outer : List OpenBlock
  /-- The members read in the innermost block, latest first. -/
  members : List Node
  point : Point
  /-- The first literal with too many digits. -/
  overlong : Option Overlong

namespace Reading

def start : Reading := ⟨[], [], .member, none⟩

/-- What may come in a sheet before a member. -/
def sheetTerminals : List Terminal := [.ending, .className, .idName, .tagName, .variableName]

/-- What may come in a body before a member. -/
def bodyTerminals : List Terminal := [.ifWord, .tagName, .closeBrace, .variableName]

def operandTerminals : List Terminal :=
  [.color, .falseWord, .percentage, .pixel, .scalar, .trueWord, .variableName]

def operatorTerminals : List Terminal := [.minus, .plus, .closeBracket, .semicolon, .star]

/-- The terminals that may come before a member of the innermost block. -/
def memberTerminals (r : Reading) : List Terminal :=
  match r.outer with
  | [] => sheetTerminals
  | _ :: _ => bodyTerminals

/-- The terminals that the next token is scanned for. -/
def tried (r : Reading) : List Terminal :=
  match r.point with
  | .member => r.memberTerminals
  | .afterAssignment => [.ending, .className, .idName, .ifWord, .tagName, .closeBrace, .variableName]
  | .afterIf _ _ => .elseWord :: bodyTerminals
  | .selector _ => [.className, .idName, .tagName]
  | .selectorRead _ => [.comma, .openBrace]
  | .assignSign _ => [.assign]
  | .propertyColon _ => [.colon]
  | .conditionBracket => [.openBracket]
  | .operand _ _ _ => operandTerminals
  | .operator _ _ _ => operatorTerminals
  | .ifBrace _ => [.openBrace]
  | .elseBrace _ _ => [.openBrace]

/-- The terminals that are wanted where a token or the end of the text is rejected. -/
def wanted (r : Reading) : List Terminal :=
  match r.point with
  | .afterAssignment => r.memberTerminals
  | _ => r.tried

/-- A selector from the text of its token. -/
def selector? (t : Token) : Option Selector :=
  match t.terminal with
  | .tagName => some (.tag (String.ofList t.text))
  | .className => some (.ofClass (String.ofList t.text.tail))
  | .idName => some (.ofId (String.ofList t.text.tail))
  | _ => none

/-- The number at the front of a token. -/
def numberIn (text : List Char) : Int := Text.numberOf (text.takeWhile Text.isDigit)

/-- An operand from the text of its token. -/
def operand? (t : Token) : Option Node :=
  match t.terminal with
  | .pixel => some (.literal none (.pixel (numberIn t.text)))
  | .percentage => some (.literal none (.percentage (numberIn t.text)))
  | .color => some (.literal none (.color (String.ofList t.text)))
  | .scalar => some (.literal none (.scalar (numberIn t.text)))
  | .trueWord => some (.literal none (.bool true))
  | .falseWord => some (.literal none (.bool false))
  | .variableName => some (.reference none (String.ofList t.text))
  | _ => none

/-- What a token adds to the record of overlong literals. -/
def overlong? (t : Token) : Option Overlong :=
  let digits := (t.text.takeWhile Text.isDigit).length
  if digits ≤ Text.maxDigits then none
  else
    match t.terminal with
    | .pixel => some ⟨.pixel, digits⟩
    | .percentage => some ⟨.percentage, digits⟩
    | .scalar => some ⟨.scalar, digits⟩
    | _ => none

/-- Joins a factor to the factors before it. -/
def joinProduct (product : Option Node) (factor : Node) : Node :=
  match product with
  | none => factor
  | some left => .operation none .multiply left factor

/-- Joins a product to the sum or difference before it. -/
def joinSum (sum : LeftOperand) (product : Node) : Node :=
  match sum with
  | none => product
  | some (op, left) => .operation none op left product

/-- The same reading at another point. -/
def goto (r : Reading) (p : Point) : Reading := { r with point := p }

/-- Adds a member to the innermost block. -/
def add (r : Reading) (n : Node) (p : Point) : Reading :=
  { r with members := n :: r.members, point := p }

/-- Opens a block. -/
def openBlock (r : Reading) (b : Block) : Reading :=
  { r with outer := ⟨b, r.members⟩ :: r.outer, members := [], point := .member }

/-- Closes a block around which `outer` is open. -/
def close (r : Reading) (b : OpenBlock) (outer : List OpenBlock) : Reading :=
  let body := r.members.reverse
  match b.block with
  | .rule ss => { r with outer, members := .rule none ss body :: b.before, point := .member }
  | .ifBody c => { r with outer, members := b.before, point := .afterIf c body }
  | .elseBody c ibody =>
    { r with outer, members := .ifElse none c ibody none body :: b.before, point := .member }

/-- Begins a member of the innermost block, or closes it. -/
def beginMember (r : Reading) (t : Token) : Option Reading :=
  match r.outer, t.terminal with
  | _, .variableName => some (r.goto (.assignSign (String.ofList t.text)))
  | [], _ => (selector? t).map fun s => r.goto (.selectorRead [s])
  | _ :: _, .ifWord => some (r.goto .conditionBracket)
  | _ :: _, .tagName => some (r.goto (.propertyColon (String.ofList t.text)))
  | b :: outer, .closeBrace => some (r.close b outer)
  | _, _ => none

/-- Ends an expression. -/
def finishExpression (r : Reading) (purpose : Purpose) (e : Node) : Reading :=
  match purpose with
  | .assignment x => r.add (.assignment none x e) .afterAssignment
  | .declaration p => r.add (.declaration none p e) .member
  | .condition => r.goto (.ifBrace e)

/-- Moves on past a token, unless the token is rejected, with the terminals wanted instead. -/
def advance (r : Reading) (t : Token) : Except (List Terminal) Reading :=
  match r.point with
  | .member | .afterAssignment => orWanted (r.beginMember t)
  | .afterIf c body =>
    match t.terminal with
    | .elseWord => .ok (r.goto (.elseBrace c body))
    | _ => orWanted ((r.add (.ifClause none c body) .member).beginMember t)
  | .selector read => orWanted ((selector? t).map fun s => r.goto (.selectorRead (read ++ [s])))
  | .selectorRead read =>
    match t.terminal with
    | .comma => .ok (r.goto (.selector read))
    | .openBrace => .ok (r.openBlock (.rule read))
    | _ => orWanted none
  | .assignSign x =>
    match t.terminal with
    | .assign => .ok (r.goto (.operand (.assignment x) none none))
    | _ => orWanted none
  | .propertyColon p =>
    match t.terminal with
    | .colon => .ok (r.goto (.operand (.declaration p) none none))
    | _ => orWanted none
  | .conditionBracket =>
    match t.terminal with
    | .openBracket => .ok (r.goto (.operand .condition none none))
    | _ => orWanted none
  | .operand purpose sum product =>
    match operand? t with
    | some n =>
      .ok { r with
        point := .operator purpose sum (joinProduct product n)
        overlong := r.overlong.orElse fun _ => overlong? t }
    | none => orWanted none
  | .operator purpose sum product =>
    match t.terminal with
    | .star => .ok (r.goto (.operand purpose sum (some product)))
    | .plus => .ok (r.goto (.operand purpose (some (.add, joinSum sum product)) none))
    | .minus => .ok (r.goto (.operand purpose (some (.subtract, joinSum sum product)) none))
    | other =>
      if other = purpose.closing then
        .ok (r.finishExpression purpose (joinSum sum product))
      else .error [purpose.closing]
  | .ifBrace c =>
    match t.terminal with
    | .openBrace => .ok (r.openBlock (.ifBody c))
    | _ => orWanted none
  | .elseBrace c body =>
    match t.terminal with
    | .openBrace => .ok (r.openBlock (.elseBody c body))
    | _ => orWanted none
where
  orWanted (next : Option Reading) : Except (List Terminal) Reading :=
    match next with
    | some r' => .ok r'
    | none => .error r.wanted

/-- The members of the sheet, if the text may end here; else the terminals wanted. -/
def finish (r : Reading) : Except (List Terminal) (List Node) :=
  match r.point, r.outer with
  | .member, [] => .ok r.members.reverse
  | .afterAssignment, [] => .ok r.members.reverse
  | _, _ => .error r.wanted

end Reading

end StyleLang.Source
