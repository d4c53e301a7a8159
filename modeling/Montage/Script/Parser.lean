import Montage.Script.Lexer
import Montage.Script.Expr
import Montage.Script.Value

/-!
# Parsing a preset function

Every production takes a list of tokens and yields a tree and the tokens that are left, with the
proof that these are fewer, or in the tail of a production at least not more. So the parser ends,
and it never looks beyond the end of its tokens. The end of the source stands at byte `stop`.
-/

namespace Montage.Script

/-- What a production yields: a tree and the tokens left, fewer than there were. -/
structure Parsed (α : Type) (ts : List Token) where
  tree : α
  rest : List Token
  shorter : rest.length < ts.length

/-- What the tail of a production yields: a tree and the tokens left, not more than there were. -/
structure Continued (α : Type) (ts : List Token) where
  tree : α
  rest : List Token
  notLonger : rest.length ≤ ts.length

/-- The result of parsing. -/
abbrev Parsing := Except SyntaxError

section

variable {α β : Type} {ts : List Token}

/-- A tail that takes no token. -/
def Continued.nothing (tree : α) : Continued α ts := ⟨tree, ts, Nat.le_refl _⟩

/-- A tail and another one behind it, whose tree counts. -/
def Continued.andTail (p : Continued α ts) (q : Continued β p.rest) : Continued β ts :=
  ⟨q.tree, q.rest, Nat.le_trans q.notLonger p.notLonger⟩

namespace Parsed

def token {t : Token} (tree : α) : Parsed α (t :: ts) := ⟨tree, ts, Nat.lt_succ_self _⟩

def behind {t : Token} (p : Parsed α ts) : Parsed α (t :: ts) :=
  ⟨p.tree, p.rest, Nat.lt_succ_of_lt p.shorter⟩

def map (f : α → β) (p : Parsed α ts) : Parsed β ts := ⟨f p.tree, p.rest, p.shorter⟩

/-- A production and another one behind it, whose tree counts. -/
def andThen (p : Parsed α ts) (q : Parsed β p.rest) : Parsed β ts :=
  ⟨q.tree, q.rest, Nat.lt_trans q.shorter p.shorter⟩

/-- A production whose tree counts, and another one behind it. -/
def closedBy (p : Parsed α ts) (q : Parsed β p.rest) : Parsed α ts :=
  ⟨p.tree, q.rest, Nat.lt_trans q.shorter p.shorter⟩

/-- A production and a tail behind it, whose tree counts. -/
def andTail (p : Parsed α ts) (q : Continued β p.rest) : Parsed β ts :=
  ⟨q.tree, q.rest, Nat.lt_of_le_of_lt q.notLonger p.shorter⟩

def toContinued (p : Parsed α ts) : Continued α ts := ⟨p.tree, p.rest, Nat.le_of_lt p.shorter⟩

end Parsed

end

/-! ## Single tokens -/

def next? (ts : List Token) : Option Token.Kind := ts.head?.map Token.kind

def offset (stop : Nat) (ts : List Token) : Nat := (ts.head?.map Token.start).getD stop

/-- The error `cause` at the next token. -/
def failAt {α : Type} (stop : Nat) (ts : List Token) (cause : SyntaxError.Cause) : Parsing α :=
  .error ⟨offset stop ts, cause⟩

/-- Takes the wanted token if it comes next. -/
def take? (wanted : Token.Kind) : (ts : List Token) → Option (Parsed Unit ts)
  | [] => none
  | t :: _ => if t.kind = wanted then some (.token ()) else none

def expect (stop : Nat) (wanted : Token.Kind) (ts : List Token) : Parsing (Parsed Unit ts) :=
  match take? wanted ts with
  | some p => .ok p
  | none => failAt stop ts (.expected (some wanted) (next? ts))

def skipSemicolon (ts : List Token) : Continued Unit ts :=
  match take? (.sign .semicolon) ts with
  | some p => p.toContinued
  | none => .nothing ()

def expectName (stop : Nat) (role : NameRole) (ts : List Token) : Parsing (Parsed String ts) :=
  match ts with
  | ⟨.name s, _, _⟩ :: _ => .ok (.token s)
  | ts => failAt stop ts (.expectedName role (next? ts))

/-! ## Parameters -/

/-- The parameters after an opening parenthesis of which those in `seen` have been read, at least
one more, and the closing parenthesis. -/
def paramsFrom (stop : Nat) (seen : List String) (ts : List Token) :
    Parsing (Parsed (List String) ts) := do
  let p ← expectName stop .parameter ts
  if p.tree ∈ seen then failAt stop ts (.duplicateParameter p.tree)
  else
    match take? (.sign .comma) p.rest with
    | some comma =>
      have := p.shorter
      have := comma.shorter
      let more ← paramsFrom stop (seen ++ [p.tree]) comma.rest
      return p.andThen (comma.andThen more)
    | none =>
      let close ← expect stop (.sign .closeParen) p.rest
      return (p.closedBy close).map fun name => seen ++ [name]
termination_by ts.length

/-- The parameters after an opening parenthesis, and the closing one. -/
def params (stop : Nat) (ts : List Token) : Parsing (Parsed (List String) ts) :=
  match take? (.sign .closeParen) ts with
  | some close => .ok (close.map fun _ => [])
  | none => paramsFrom stop [] ts

/-- Whether names follow that are separated by commas, then a closing parenthesis and `=>`. -/
def looksLikeParams : List Token → Bool
  | ⟨.name _, _, _⟩ :: ⟨.sign .comma, _, _⟩ :: rest => looksLikeParams rest
  | ⟨.name _, _, _⟩ :: ⟨.sign .closeParen, _, _⟩ :: ⟨.sign .arrow, _, _⟩ :: _ => true
  | _ => false

/-- Whether the tokens after an opening parenthesis are parameters of an arrow function. -/
def looksLikeArrow : List Token → Bool
  | ⟨.sign .closeParen, _, _⟩ :: ⟨.sign .arrow, _, _⟩ :: _ => true
  | ts => looksLikeParams ts

/-- The parameters of an arrow function and its `=>`, if one begins here. -/
def arrowParams? (stop : Nat) (ts : List Token) : Parsing (Option (Parsed (List String) ts)) :=
  match ts with
  | ⟨.name s, _, _⟩ :: ⟨.sign .arrow, _, _⟩ :: _ => .ok (some (Parsed.token [s]).behind)
  | ⟨.sign .openParen, _, _⟩ :: rest =>
    if looksLikeArrow rest then do
      let p ← params stop rest
      let arrow ← expect stop (.sign .arrow) p.rest
      return some (p.closedBy arrow).behind
    else .ok none
  | _ => .ok none

/-! ## Operators -/

/-- The operator that a sign is among those of one level, from the tightest to the loosest. -/
def operatorAt? : Nat → Sign → Option BinaryOp
  | 0, .star => some .mul
  | 0, .slash => some .div
  | 0, .percent => some .mod
  | 1, .plus => some .add
  | 1, .minus => some .sub
  | 2, .less => some .lt
  | 2, .lessEqual => some .le
  | 2, .greater => some .gt
  | 2, .greaterEqual => some .ge
  | 3, .equal => some .eq
  | 3, .notEqual => some .ne
  | 4, .both => some .and
  | 5, .either => some .or
  | _, _ => none

def levels : Nat := 6

/-- The operator of a level that comes next, and the tokens behind it. -/
def nextOperator? (level : Nat) (ts : List Token) : Option (Parsed BinaryOp ts) :=
  match ts with
  | ⟨.sign s, _, _⟩ :: _ => (operatorAt? level s).map Parsed.token
  | _ => none

/-- The operator in front of its operand that comes next, and the tokens behind it. -/
def nextUnary? (ts : List Token) : Option (Parsed UnaryOp ts) :=
  match ts with
  | ⟨.sign .minus, _, _⟩ :: _ => some (.token .neg)
  | ⟨.sign .bang, _, _⟩ :: _ => some (.token .not)
  | _ => none

/-! ## Names of members -/

/-- The name of a property behind a dot; reserved words are names here. -/
def propertyName (stop : Nat) (ts : List Token) : Parsing (Parsed String ts) :=
  match ts with
  | ⟨.name s, _, _⟩ :: _ => .ok (.token s)
  | ⟨.word w, _, _⟩ :: _ => .ok (.token w.asName)
  | ts => failAt stop ts (.propertyName (next? ts))

/-- The key of a member of an object, and whether it may stand without a value. -/
def objectKey (stop : Nat) (ts : List Token) : Parsing (Parsed (String × Bool) ts) :=
  match ts with
  | ⟨.name s, _, _⟩ :: _ => .ok (.token (s, true))
  | ⟨.text s, _, _⟩ :: _ => .ok (.token (s, false))
  | ⟨.number x, _, _⟩ :: _ => .ok (.token ((ofFloat x).compact, false))
  | ⟨.word w, _, _⟩ :: _ => .ok (.token (w.asName, false))
  | ts => failAt stop ts (.objectKey (next? ts))

/-- Whether a comma or a closing brace comes next. -/
def endsMember (ts : List Token) : Bool :=
  next? ts = some (.sign .comma) ∨ next? ts = some (.sign .closeBrace)

/-! ## Expressions -/

mutual

/-- An expression: a callback, or a condition with two branches, or an operand of the loosest
level. -/
def expr (stop : Nat) (ts : List Token) : Parsing (Parsed Expr ts) := do
  match ← arrowParams? stop ts with
  | some p =>
    have := p.shorter
    let body ← expr stop p.rest
    return (p.andThen body).map (.arrow p.tree ·)
  | none =>
    let condition ← operand stop levels ts
    match take? (.sign .question) condition.rest with
    | some question =>
      have := condition.shorter
      have := question.shorter
      let yes ← expr stop question.rest
      have := yes.shorter
      let colon ← expect stop (.sign .colon) yes.rest
      have := colon.shorter
      let no ← expr stop colon.rest
      let branches := question.andThen (yes.andThen (colon.andThen no))
      return (condition.andThen branches).map (.ternary condition.tree yes.tree ·)
    | none => return condition
termination_by (ts.length, levels + 3)

/-- An operand of a level: operands of the next tighter one joined by the operators of this one, to
the left first; the tightest operands carry the operators with one operand. -/
def operand (stop : Nat) : (level : Nat) → (ts : List Token) → Parsing (Parsed Expr ts)
  | 0, ts =>
    match nextUnary? ts with
    | some op => do
      have := op.shorter
      let e ← operand stop 0 op.rest
      return (op.andThen e).map (.unary op.tree ·)
    | none => do
      let e ← primary stop ts
      have := e.shorter
      let whole ← postfixes stop e.tree e.rest
      return e.andTail whole
  | level + 1, ts => do
    let left ← operand stop level ts
    have := left.shorter
    let whole ← operators stop level left.tree left.rest
    return left.andTail whole
termination_by level ts => (ts.length, level + 2)

/-- The operators of a level and their right operands, after the left operand. -/
def operators (stop : Nat) (level : Nat) (left : Expr) (ts : List Token) :
    Parsing (Continued Expr ts) :=
  match nextOperator? level ts with
  | some op => do
    have := op.shorter
    let right ← operand stop level op.rest
    have := right.shorter
    let whole ← operators stop level (.binary op.tree left right.tree) right.rest
    return (op.andThen (right.andTail whole)).toContinued
  | none => .ok (.nothing left)
termination_by (ts.length, 0)

/-- Members, indices and arguments behind an expression. -/
def postfixes (stop : Nat) (e : Expr) (ts : List Token) : Parsing (Continued Expr ts) :=
  match ts with
  | ⟨.sign .dot, _, _⟩ :: rest => do
    let name ← propertyName stop rest
    have := name.shorter
    let whole ← postfixes stop (.member e name.tree false) name.rest
    return (name.andTail whole).behind.toContinued
  | ⟨.sign .optionalDot, _, _⟩ :: rest => do
    let name ← propertyName stop rest
    have := name.shorter
    let whole ← postfixes stop (.member e name.tree true) name.rest
    return (name.andTail whole).behind.toContinued
  | ⟨.sign .openBracket, _, _⟩ :: rest => do
    let index ← expr stop rest
    have := index.shorter
    let close ← expect stop (.sign .closeBracket) index.rest
    have := close.shorter
    let whole ← postfixes stop (.index e index.tree) close.rest
    return (index.andThen (close.andTail whole)).behind.toContinued
  | ⟨.sign .openParen, start, _⟩ :: rest => do
    let args ← arguments stop rest
    have := args.shorter
    match e with
    | .name function =>
      let whole ← postfixes stop (.call function args.tree) args.rest
      return (args.andTail whole).behind.toContinued
    | _ => throw ⟨start, .callTarget⟩
  | _ => .ok (.nothing e)
termination_by (ts.length, 0)

/-- A literal, a name, a list, an object, or an expression in parentheses. -/
def primary (stop : Nat) (ts : List Token) : Parsing (Parsed Expr ts) :=
  match ts with
  | ⟨.number x, _, _⟩ :: _ => .ok (.token (.literal (ofFloat x)))
  | ⟨.text s, _, _⟩ :: _ => .ok (.token (.literal (.string s)))
  | ⟨.word .trueWord, _, _⟩ :: _ => .ok (.token (.literal (.bool true)))
  | ⟨.word .falseWord, _, _⟩ :: _ => .ok (.token (.literal (.bool false)))
  | ⟨.word .nullWord, _, _⟩ :: _ => .ok (.token (.literal .null))
  | ⟨.name s, _, _⟩ :: _ => .ok (.token (.name s))
  | ⟨.sign .openParen, _, _⟩ :: rest => do
    let e ← expr stop rest
    let close ← expect stop (.sign .closeParen) e.rest
    return (e.closedBy close).behind
  | ⟨.sign .openBracket, _, _⟩ :: rest => do
    let items ← listItems stop rest
    return (items.map .array).behind
  | ⟨.sign .openBrace, _, _⟩ :: rest => do
    let entries ← objectEntries stop rest
    return (entries.map .object).behind
  | ts => failAt stop ts (.unexpected (next? ts))
termination_by (ts.length, 1)

/-- Arguments and the closing parenthesis; a comma may stand before it. -/
def arguments (stop : Nat) (ts : List Token) : Parsing (Parsed (List Expr) ts) :=
  match take? (.sign .closeParen) ts with
  | some close => .ok (close.map fun _ => [])
  | none => do
    let e ← expr stop ts
    have := e.shorter
    match take? (.sign .comma) e.rest with
    | some comma =>
      have := comma.shorter
      let more ← arguments stop comma.rest
      return (e.andThen (comma.andThen more)).map (e.tree :: ·)
    | none =>
      let close ← expect stop (.sign .closeParen) e.rest
      return (e.closedBy close).map ([·])
termination_by (ts.length, levels + 4)

/-- The elements of a list and the closing bracket; a comma may stand before it. -/
def listItems (stop : Nat) (ts : List Token) : Parsing (Parsed (List Item) ts) :=
  match take? (.sign .closeBracket) ts with
  | some close => .ok (close.map fun _ => [])
  | none => do
    let item ← listItem stop ts
    have := item.shorter
    match take? (.sign .comma) item.rest with
    | some comma =>
      have := comma.shorter
      let more ← listItems stop comma.rest
      return (item.andThen (comma.andThen more)).map (item.tree :: ·)
    | none =>
      let close ← expect stop (.sign .closeBracket) item.rest
      return (item.closedBy close).map ([·])
termination_by (ts.length, levels + 5)

def listItem (stop : Nat) (ts : List Token) : Parsing (Parsed Item ts) :=
  match take? (.sign .ellipsis) ts with
  | some dots => do
    have := dots.shorter
    let e ← expr stop dots.rest
    return (dots.andThen e).map .spread
  | none => do
    let e ← expr stop ts
    return e.map .one
termination_by (ts.length, levels + 4)

/-- The members of an object and the closing brace; a comma may stand before it. -/
def objectEntries (stop : Nat) (ts : List Token) : Parsing (Parsed (List Entry) ts) :=
  match take? (.sign .closeBrace) ts with
  | some close => .ok (close.map fun _ => [])
  | none => do
    let entry ← objectEntry stop ts
    have := entry.shorter
    match take? (.sign .comma) entry.rest with
    | some comma =>
      have := comma.shorter
      let more ← objectEntries stop comma.rest
      return (entry.andThen (comma.andThen more)).map (entry.tree :: ·)
    | none =>
      let close ← expect stop (.sign .closeBrace) entry.rest
      return (entry.closedBy close).map ([·])
termination_by (ts.length, levels + 5)

/-- One member of an object; a name alone stands for the member of that name with its value. -/
def objectEntry (stop : Nat) (ts : List Token) : Parsing (Parsed Entry ts) :=
  match take? (.sign .ellipsis) ts with
  | some dots => do
    have := dots.shorter
    let e ← expr stop dots.rest
    return (dots.andThen e).map .spread
  | none => do
    let key ← objectKey stop ts
    have := key.shorter
    if key.tree.2 && endsMember key.rest then
      return key.map fun (name, _) => .field name (.name name)
    else
      let colon ← expect stop (.sign .colon) key.rest
      have := colon.shorter
      let e ← expr stop colon.rest
      return (key.andThen (colon.andThen e)).map (.field key.tree.1 ·)
termination_by (ts.length, levels + 4)

end

/-! ## Functions -/

/-- The bindings of a block, up to what is no binding. -/
def bindings (stop : Nat) (ts : List Token) : Parsing (Continued (List (String × Expr)) ts) :=
  match take? (.word .letWord) ts with
  | some word => do
    have := word.shorter
    let name ← expectName stop .binding word.rest
    have := name.shorter
    let assign ← expect stop (.sign .assign) name.rest
    have := assign.shorter
    let value ← expr stop assign.rest
    have := value.shorter
    have := (skipSemicolon value.rest).notLonger
    let more ← bindings stop (skipSemicolon value.rest).rest
    let others := (skipSemicolon value.rest).andTail more
    let binding := name.andThen (assign.andThen (value.andTail others))
    return ((word.andThen binding).map ((name.tree, value.tree) :: ·)).toContinued
  | none => .ok (.nothing [])
termination_by ts.length

/-- A block: bindings and a result in braces, and the tokens behind it. -/
def block (stop : Nat) (ts : List Token) :
    Parsing ((List (String × Expr) × Expr) × List Token) := do
  let «open» ← expect stop (.sign .openBrace) ts
  let lets ← bindings stop «open».rest
  let word ← expect stop (.word .returnWord) lets.rest
  let result ← expr stop word.rest
  let close ← expect stop (.sign .closeBrace) (skipSemicolon result.rest).rest
  return ((lets.tree, result.tree), close.rest)

/-- Whether a block begins here rather than an object: a brace, then a binding or a result. -/
def startsBlock : List Token → Bool
  | ⟨.sign .openBrace, _, _⟩ :: ⟨.word .letWord, _, _⟩ :: _ => true
  | ⟨.sign .openBrace, _, _⟩ :: ⟨.word .returnWord, _, _⟩ :: _ => true
  | _ => false

/-- A function, written with the word `function` or with an arrow, and the tokens behind it. -/
def functionHead (stop : Nat) (ts : List Token) : Parsing (Function × List Token) :=
  match ts with
  | ⟨.name "function", _, _⟩ :: rest => do
    let «open» ← expect stop (.sign .openParen) rest
    let names ← params stop «open».rest
    if next? names.rest = some (.sign .openBrace) then
      let ((lets, result), rest) ← block stop names.rest
      return (⟨names.tree, lets, result⟩, rest)
    else failAt stop names.rest .functionBody
  | ts => do
    match ← arrowParams? stop ts with
    | none => failAt stop ts .notFunction
    | some names =>
      if startsBlock names.rest then
        let ((lets, result), rest) ← block stop names.rest
        return (⟨names.tree, lets, result⟩, rest)
      else
        let result ← expr stop names.rest
        return (⟨names.tree, [], result.tree⟩, result.rest)

/-- The function that the tokens are, with nothing behind it but a semicolon. -/
def parseTokens (stop : Nat) (ts : List Token) : Parsing Function := do
  let (f, rest) ← functionHead stop ts
  match (skipSemicolon rest).rest with
  | [] => return f
  | t :: rest => failAt stop (t :: rest) (.expected none (some t.kind))

/-- The preset function that a source is. -/
def parse (source : String) : Parsing Function := do
  parseTokens source.utf8ByteSize (← lex source)

end Montage.Script
