import Montage.Script.Expr
import Montage.Script.Value
import Montage.Script.Token

/-!
# The grammar of the preset language

Which runs of tokens are a preset function, and which function. The rules speak of the kinds of
tokens, not of the places where they stand, and say nothing about how a function is read:
`Derives part ks tree` is the least relation that is closed under them.

The operators with two operands have levels, from the tightest at 0 to the loosest. An operand of
level `n + 1` is operands of level `n` joined by the operators of level `n`, to the left first; one
of level 0 is a chain of members, indices and arguments with operators in front.
-/

namespace Montage.Script

abbrev Kinds := List Token.Kind

/-! ## Tokens -/

inductive Literal : Token.Kind → Json → Prop
  | number (x : Float) : Literal (.number x) (ofFloat x)
  | text (s : String) : Literal (.text s) (.string s)
  | trueWord : Literal (.word .trueWord) (.bool true)
  | falseWord : Literal (.word .falseWord) (.bool false)
  | nullWord : Literal (.word .nullWord) .null

/-- The tokens that name a property behind a dot. -/
inductive PropertyName : Token.Kind → String → Prop
  | name (x : String) : PropertyName (.name x) x
  | word (w : Word) : PropertyName (.word w) w.asName

inductive ObjectKey : Token.Kind → String → Prop
  | name (x : String) : ObjectKey (.name x) x
  | text (s : String) : ObjectKey (.text s) s
  | number (x : Float) : ObjectKey (.number x) (ofFloat x).compact
  | word (w : Word) : ObjectKey (.word w) w.asName

inductive Dot : Token.Kind → Bool → Prop
  | plain : Dot (.sign .dot) false
  | optional : Dot (.sign .optionalDot) true

inductive Prefix : Token.Kind → UnaryOp → Prop
  | minus : Prefix (.sign .minus) .neg
  | bang : Prefix (.sign .bang) .not

/-- The operators between two operands, with their levels. -/
inductive Infix : Nat → Token.Kind → BinaryOp → Prop
  | star : Infix 0 (.sign .star) .mul
  | slash : Infix 0 (.sign .slash) .div
  | percent : Infix 0 (.sign .percent) .mod
  | plus : Infix 1 (.sign .plus) .add
  | minus : Infix 1 (.sign .minus) .sub
  | less : Infix 2 (.sign .less) .lt
  | lessEqual : Infix 2 (.sign .lessEqual) .le
  | greater : Infix 2 (.sign .greater) .gt
  | greaterEqual : Infix 2 (.sign .greaterEqual) .ge
  | equal : Infix 3 (.sign .equal) .eq
  | notEqual : Infix 3 (.sign .notEqual) .ne
  | both : Infix 4 (.sign .both) .and
  | either : Infix 5 (.sign .either) .or

/-- The level of the operands of a condition: all operators with two operands are tighter. -/
def loosest : Nat := 6

/-! ## Parameters -/

inductive Names : Kinds → List String → Prop
  | one (x : String) : Names [.name x] [x]
  | more (x : String) {ks : Kinds} {xs : List String} (h : Names ks xs) :
    Names (.name x :: .sign .comma :: ks) (x :: xs)

/-- Parameters without their parentheses: no name comes twice. -/
inductive Params : Kinds → List String → Prop
  | none : Params [] []
  | some {ks : Kinds} {xs : List String} (h : Names ks xs) (hdistinct : xs.Nodup) : Params ks xs

/-- What stands in front of the body of an arrow function. -/
inductive Header : Kinds → List String → Prop
  | name (x : String) : Header [.name x, .sign .arrow] [x]
  | params {ks : Kinds} {xs : List String} (h : Params ks xs) :
    Header (.sign .openParen :: (ks ++ [.sign .closeParen, .sign .arrow])) xs

/-! ## Expressions -/

/-- What comes in a row with commas between: the arguments of a call, the elements of a list, the
members of an object. -/
inductive Element
  | argument | item | entry

@[reducible] def Element.Tree : Element → Type
  | argument => Expr
  | item => Item
  | entry => Entry

def Element.closing : Element → Sign
  | argument => .closeParen
  | item => .closeBracket
  | entry => .closeBrace

inductive Part
  | expression
  | operand (level : Nat)
  | chain
  | primary
  | element (e : Element)
  | elements (e : Element)

@[reducible] def Part.Tree : Part → Type
  | expression | operand _ | chain | primary => Expr
  | element e => e.Tree
  | elements e => List e.Tree

/-- The tokens of a part of an expression, and what they are read as. -/
inductive Derives : (p : Part) → Kinds → p.Tree → Prop
  -- expressions
  | arrow {hs ks : Kinds} {xs : List String} {body : Expr} (hheader : Header hs xs)
    (hbody : Derives .expression ks body) : Derives .expression (hs ++ ks) (.arrow xs body)
  | ternary {cs ys ns : Kinds} {condition yes no : Expr}
    (hcondition : Derives (.operand loosest) cs condition) (hyes : Derives .expression ys yes)
    (hno : Derives .expression ns no) :
    Derives .expression (cs ++ .sign .question :: (ys ++ .sign .colon :: ns))
      (.ternary condition yes no)
  | operand {ks : Kinds} {e : Expr} (h : Derives (.operand loosest) ks e) :
    Derives .expression ks e
  -- operators
  | tighter {level : Nat} {ks : Kinds} {e : Expr} (h : Derives (.operand level) ks e) :
    Derives (.operand (level + 1)) ks e
  | binary {level : Nat} {ls rs : Kinds} {k : Token.Kind} {op : BinaryOp} {left right : Expr}
    (hleft : Derives (.operand (level + 1)) ls left) (hop : Infix level k op)
    (hright : Derives (.operand level) rs right) :
    Derives (.operand (level + 1)) (ls ++ k :: rs) (.binary op left right)
  | unary {k : Token.Kind} {ks : Kinds} {op : UnaryOp} {e : Expr} (hop : Prefix k op)
    (h : Derives (.operand 0) ks e) : Derives (.operand 0) (k :: ks) (.unary op e)
  | chain {ks : Kinds} {e : Expr} (h : Derives .chain ks e) : Derives (.operand 0) ks e
  -- chains
  | primary {ks : Kinds} {e : Expr} (h : Derives .primary ks e) : Derives .chain ks e
  | member {ks : Kinds} {base : Expr} {d k : Token.Kind} {isOptional : Bool} {x : String}
    (hbase : Derives .chain ks base) (hdot : Dot d isOptional) (hname : PropertyName k x) :
    Derives .chain (ks ++ [d, k]) (.member base x isOptional)
  | index {ks is : Kinds} {base index : Expr} (hbase : Derives .chain ks base)
    (hindex : Derives .expression is index) :
    Derives .chain (ks ++ .sign .openBracket :: (is ++ [.sign .closeBracket])) (.index base index)
  | call {ks as : Kinds} {function : String} {args : List Expr}
    (hfunction : Derives .chain ks (.name function))
    (hargs : Derives (.elements .argument) as args) :
    Derives .chain (ks ++ .sign .openParen :: (as ++ [.sign .closeParen])) (.call function args)
  -- primary expressions
  | literal {k : Token.Kind} {v : Json} (h : Literal k v) : Derives .primary [k] (.literal v)
  | name (x : String) : Derives .primary [.name x] (.name x)
  | parenthesized {ks : Kinds} {e : Expr} (h : Derives .expression ks e) :
    Derives .primary (.sign .openParen :: (ks ++ [.sign .closeParen])) e
  | array {ks : Kinds} {items : List Item} (h : Derives (.elements .item) ks items) :
    Derives .primary (.sign .openBracket :: (ks ++ [.sign .closeBracket])) (.array items)
  | object {ks : Kinds} {entries : List Entry} (h : Derives (.elements .entry) ks entries) :
    Derives .primary (.sign .openBrace :: (ks ++ [.sign .closeBrace])) (.object entries)
  -- elements
  | argument {ks : Kinds} {e : Expr} (h : Derives .expression ks e) :
    Derives (.element .argument) ks e
  | item {ks : Kinds} {e : Expr} (h : Derives .expression ks e) :
    Derives (.element .item) ks (.one e)
  | spreadItem {ks : Kinds} {e : Expr} (h : Derives .expression ks e) :
    Derives (.element .item) (.sign .ellipsis :: ks) (.spread e)
  | shorthand (x : String) : Derives (.element .entry) [.name x] (.field x (.name x))
  | field {k : Token.Kind} {ks : Kinds} {key : String} {e : Expr} (hkey : ObjectKey k key)
    (h : Derives .expression ks e) :
    Derives (.element .entry) (k :: .sign .colon :: ks) (.field key e)
  | spreadEntry {ks : Kinds} {e : Expr} (h : Derives .expression ks e) :
    Derives (.element .entry) (.sign .ellipsis :: ks) (.spread e)
  -- elements with commas between them; there may be one more comma behind the last
  | empty {e : Element} : Derives (.elements e) [] []
  | last {e : Element} {ks : Kinds} {t : e.Tree} (h : Derives (.element e) ks t) :
    Derives (.elements e) ks [t]
  | more {e : Element} {ks rest : Kinds} {t : e.Tree} {ts : List e.Tree}
    (h : Derives (.element e) ks t) (hrest : Derives (.elements e) rest ts) :
    Derives (.elements e) (ks ++ .sign .comma :: rest) (t :: ts)

theorem Derives.expression {ks : Kinds} {e : Expr} (h : Derives (.operand 0) ks e) :
    Derives .expression ks e :=
  .operand (.tighter (.tighter (.tighter (.tighter (.tighter (.tighter h))))))

/-! ## Functions -/

/-- A semicolon that may be missing. -/
def Semicolon (ks : Kinds) : Prop := ks = [] ∨ ks = [.sign .semicolon]

inductive Bindings : Kinds → List (String × Expr) → Prop
  | none : Bindings [] []
  | more (x : String) {ks ss rest : Kinds} {e : Expr} {bindings : List (String × Expr)}
    (h : Derives .expression ks e) (hs : Semicolon ss) (hrest : Bindings rest bindings) :
    Bindings (.word .letWord :: .name x :: .sign .assign :: (ks ++ (ss ++ rest)))
      ((x, e) :: bindings)

inductive Block : Kinds → List (String × Expr) → Expr → Prop
  | mk {bs ks ss : Kinds} {bindings : List (String × Expr)} {result : Expr}
    (hbindings : Bindings bs bindings) (h : Derives .expression ks result) (hs : Semicolon ss) :
    Block (.sign .openBrace :: (bs ++ .word .returnWord :: (ks ++ (ss ++ [.sign .closeBrace]))))
      bindings result

/-- A brace behind which a block goes on, and not an object: with a binding or a result. -/
inductive OpensBlock : Kinds → Prop
  | binding (ks : Kinds) : OpensBlock (.sign .openBrace :: .word .letWord :: ks)
  | result (ks : Kinds) : OpensBlock (.sign .openBrace :: .word .returnWord :: ks)

/-- A function, written with the word `function` or with an arrow. The word is no name here, so it
never stands in front of an arrow. -/
inductive IsFunction : Kinds → Function → Prop
  | word {ps bs : Kinds} {xs : List String} {bindings : List (String × Expr)} {result : Expr}
    (hparams : Params ps xs) (hblock : Block bs bindings result) :
    IsFunction (.name "function" :: .sign .openParen :: (ps ++ .sign .closeParen :: bs))
      ⟨xs, bindings, result⟩
  | arrowBlock {hs bs : Kinds} {xs : List String} {bindings : List (String × Expr)} {result : Expr}
    (hheader : Header hs xs) (hname : hs.head? ≠ some (.name "function"))
    (hblock : Block bs bindings result) : IsFunction (hs ++ bs) ⟨xs, bindings, result⟩
  | arrow {hs ks : Kinds} {xs : List String} {result : Expr} (hheader : Header hs xs)
    (hname : hs.head? ≠ some (.name "function")) (h : Derives .expression ks result)
    (hbody : ¬ OpensBlock ks) : IsFunction (hs ++ ks) ⟨xs, [], result⟩

/-- A preset function as a whole, with a semicolon behind it or not. -/
def IsPreset (ks : Kinds) (f : Function) : Prop :=
  ∃ fs ss, ks = fs ++ ss ∧ IsFunction fs f ∧ Semicolon ss

end Montage.Script
