import Montage.Proofs.Script.Grammar.Basic
import Montage.Script.Parser

/-!
# Parsing with a cursor

A parser may keep its tokens in one list, the end of the source behind them as the last, and go
through them with a cursor, an index into the list. Such a parser can go wrong where one that is
handed the tokens left cannot. An index may be no place of the list. Taking the end of the source
does not move the cursor, so a loop may turn on it for ever; and a sub-expression may begin where
the one around it began, which may go on for ever too. Here is that parser, with every read checked.
Nothing in it says that its loops and descents end: a call leaves one unit of `fuel` less to the
calls inside of it, and a call without fuel has no outcome.

A computation leaves a record: where the cursor has gone, each turn of a loop after which there is
another one, and each sub-expression that begins inside of another one.
-/

namespace Montage.Script

namespace Cursor

/-! ## Computations -/

/-- A token where the cursor may stand; the end of the source counts as one. -/
structure Mark where
  kind : Option Token.Kind
  start : Nat

/-- The tokens with the end of the source, at byte `stop`, behind them. -/
def marksOf (stop : Nat) (ts : List Token) : List Mark :=
  ts.map (fun t => ⟨some t.kind, t.start⟩) ++ [⟨none, stop⟩]

/-- The sorts of expressions by what they are made of. -/
inductive Level
  | primary | chain
  | operand (level : Nat)
  | ternary | expression
  /-- A function, around all its expressions. -/
  | function

/-- How loose a sort of expressions is: what is tighter counts less. -/
def Level.looseness : Level → Nat
  | primary => 0
  | chain => 1
  | operand level => level + 2
  | ternary => levels + 3
  | expression => levels + 4
  | function => levels + 5

/-- An expression that is being read, by its sort and the index at which it begins. -/
structure Frame where
  level : Level
  start : Nat

/-- One expression begins behind the start of the other, or at it if it is of a tighter sort. -/
def Frame.Inside (inner outer : Frame) : Prop :=
  outer.start < inner.start ∨
    outer.start = inner.start ∧ inner.level.looseness < outer.level.looseness

inductive Event
  /-- The cursor has gone to an index. -/
  | moved (index : Nat)
  /-- A loop has made a turn from one index to the other, and makes another one. -/
  | turned (start stop : Nat)
  /-- Inside of an expression another one has begun. -/
  | descended (outer inner : Frame)

/-- Among `count` tokens the cursor stays inside, a turn of a loop that is not the last takes a
token, and an expression that begins where the one around it began is of a tighter sort. -/
def Event.Advances (count : Nat) : Event → Prop
  | .moved index => index < count
  | .turned start stop => start < stop
  | .descended outer inner => inner.Inside outer

/-- The cursor, and what has been done so far, the latest first. -/
structure State where
  index : Nat
  events : List Event

inductive Failure
  | refused (e : SyntaxError)
  /-- There is no token of this index. -/
  | outside (index : Nat)

abbrev Move := ExceptT Failure (StateT State Option)

/-- The outcome of a computation and the state it leaves; `none` where the fuel is used up. -/
def Move.exec {α : Type} (x : Move α) (s : State) : Option (Except Failure α × State) :=
  (ExceptT.run x).run s

def exhausted {α : Type} : Move α := liftM (none : Option α)

/-! ## Single tokens -/

def index : Move Nat := do return (← get).index

def note (e : Event) : Move Unit := modify fun s => { s with events := e :: s.events }

def moveTo (i : Nat) : Move Unit := modify fun s => ⟨i, .moved i :: s.events⟩

/-- Notes a turn of a loop that has begun at `start`. -/
def turned (start : Nat) : Move Unit := do note (.turned start (← index))

/-- Notes that an expression begins here, inside of another one. -/
def descend (outer : Frame) (level : Level) : Move Frame := do
  let inner : Frame := ⟨level, ← index⟩
  note (.descended outer inner)
  return inner

def refuse {α : Type} (m : Mark) (cause : SyntaxError.Cause) : Move α :=
  throw (.refused ⟨m.start, cause⟩)

variable (marks : List Mark)

/-- The token of an index, which must be there. -/
def markAt (i : Nat) : Move Mark :=
  match marks[i]? with
  | some m => return m
  | none => throw (.outside i)

def peek : Move Mark := do markAt marks (← index)

/-- The kind of the token that is `n` tokens ahead, at most that of the last one. -/
def peekAhead (n : Nat) : Move (Option Token.Kind) := do
  let m ← markAt marks (Nat.min ((← index) + n) (marks.length - 1))
  return m.kind

/-- Takes the next token; the cursor stays at the last one. -/
def bump : Move Mark := do
  let m ← peek marks
  let i ← index
  if i + 1 < marks.length then moveTo (i + 1)
  return m

/-- Takes the wanted token, or the end of the source. -/
def expect (wanted : Option Token.Kind) : Move Unit := do
  let m ← peek marks
  if m.kind = wanted then
    let _ ← bump marks
    return ()
  else refuse m (.expected wanted m.kind)

def consume (wanted : Token.Kind) : Move Bool := do
  let m ← peek marks
  if m.kind = some wanted then
    let _ ← bump marks
    return true
  else return false

def expectName (role : NameRole) : Move String := do
  let m ← bump marks
  match m.kind with
  | some (.name s) => return s
  | found => refuse m (.expectedName role found)

/-! ## Parameters -/

/-- The loop over parameters of which those in `seen` have been read. -/
def parameters : (fuel : Nat) → (seen : List String) → Move (List String)
  | 0, _ => exhausted
  | fuel + 1, seen => do
    let start ← index
    let m ← peek marks
    let name ← expectName marks .parameter
    if name ∈ seen then refuse m (.duplicateParameter name)
    else if ← consume marks (.sign .comma) then
      turned start
      parameters fuel (seen ++ [name])
    else
      expect marks (some (.sign .closeParen))
      return seen ++ [name]

def parameterList (fuel : Nat) : Move (List String) := do
  if ← consume marks (.sign .closeParen) then return []
  else parameters marks fuel []

/-- Whether names follow from `n` tokens ahead on that are separated by commas, then a closing
parenthesis and `=>`. -/
def looksLikeParams : (fuel n : Nat) → Move Bool
  | 0, _ => exhausted
  | fuel + 1, n => do
    match ← peekAhead marks n with
    | some (.name _) =>
      match ← peekAhead marks (n + 1) with
      | some (.sign .comma) => looksLikeParams fuel (n + 2)
      | some (.sign .closeParen) => return (← peekAhead marks (n + 2)) = some (.sign .arrow)
      | _ => return false
    | _ => return false

/-- Whether the tokens behind the opening parenthesis at the cursor are parameters of an arrow
function. -/
def looksLikeArrow (fuel : Nat) : Move Bool := do
  match ← peekAhead marks 1 with
  | some (.sign .closeParen) => return (← peekAhead marks 2) = some (.sign .arrow)
  | _ => looksLikeParams marks fuel 1

def arrowParams? (fuel : Nat) : Move (Option (List String)) := do
  let m ← peek marks
  match m.kind with
  | some (.name s) =>
    if (← peekAhead marks 1) = some (.sign .arrow) then
      let _ ← bump marks
      let _ ← bump marks
      return some [s]
    else return none
  | some (.sign .openParen) =>
    if ← looksLikeArrow marks fuel then
      let _ ← bump marks
      let names ← parameterList marks fuel
      expect marks (some (.sign .arrow))
      return some names
    else return none
  | _ => return none

/-! ## Expressions -/

def operator? (level : Nat) : Move (Option BinaryOp) := do
  let m ← peek marks
  match m.kind with
  | some (.sign s) =>
    match operatorAt? level s with
    | some op =>
      let _ ← bump marks
      return some op
    | none => return none
  | _ => return none

def propertyName : Move String := do
  let m ← bump marks
  match m.kind with
  | some (.name s) => return s
  | some (.word w) => return w.asName
  | found => refuse m (.propertyName found)

/-- The key of a member of an object, and whether it may stand without a value. -/
def objectKey : Move (String × Bool) := do
  let m ← bump marks
  match m.kind with
  | some (.name s) => return (s, true)
  | some (.text s) => return (s, false)
  | some (.number x) => return ((ofFloat x).compact, false)
  | some (.word w) => return (w.asName, false)
  | found => refuse m (.objectKey found)

mutual

def expression : (fuel : Nat) → (outer : Frame) → Move Expr
  | 0, _ => exhausted
  | fuel + 1, outer => do
    let here ← descend outer .expression
    match ← arrowParams? marks fuel with
    | some names => return .arrow names (← expression fuel here)
    | none => ternary fuel here

def ternary : (fuel : Nat) → (outer : Frame) → Move Expr
  | 0, _ => exhausted
  | fuel + 1, outer => do
    let here ← descend outer .ternary
    let condition ← operand fuel here levels
    if ← consume marks (.sign .question) then
      let yes ← expression fuel here
      expect marks (some (.sign .colon))
      return .ternary condition yes (← expression fuel here)
    else return condition

/-- An operand of a level; the tightest operands carry the operators with one operand. -/
def operand : (fuel : Nat) → (outer : Frame) → (level : Nat) → Move Expr
  | 0, _, _ => exhausted
  | fuel + 1, outer, 0 => do
    let here ← descend outer (.operand 0)
    if ← consume marks (.sign .minus) then return .unary .neg (← operand fuel here 0)
    else if ← consume marks (.sign .bang) then return .unary .not (← operand fuel here 0)
    else chain fuel here
  | fuel + 1, outer, level + 1 => do
    let here ← descend outer (.operand (level + 1))
    operators fuel here level (← operand fuel here level)

def operators : (fuel : Nat) → (here : Frame) → (level : Nat) → (left : Expr) → Move Expr
  | 0, _, _, _ => exhausted
  | fuel + 1, here, level, left => do
    let start ← index
    match ← operator? marks level with
    | some op =>
      let right ← operand fuel here level
      turned start
      operators fuel here level (.binary op left right)
    | none => return left

/-- A primary expression with members, indices and arguments behind it. -/
def chain : (fuel : Nat) → (outer : Frame) → Move Expr
  | 0, _ => exhausted
  | fuel + 1, outer => do
    let here ← descend outer .chain
    links fuel here (← primary fuel here)

def links : (fuel : Nat) → (here : Frame) → (e : Expr) → Move Expr
  | 0, _, _ => exhausted
  | fuel + 1, here, e => do
    let start ← index
    if ← consume marks (.sign .dot) then
      let name ← propertyName marks
      turned start
      links fuel here (.member e name false)
    else if ← consume marks (.sign .optionalDot) then
      let name ← propertyName marks
      turned start
      links fuel here (.member e name true)
    else if ← consume marks (.sign .openBracket) then
      let i ← expression fuel here
      expect marks (some (.sign .closeBracket))
      turned start
      links fuel here (.index e i)
    else
      let m ← peek marks
      if m.kind = some (.sign .openParen) then
        let _ ← bump marks
        let args ← elements fuel here .argument []
        match e with
        | .name function =>
          turned start
          links fuel here (.call function args)
        | _ => refuse m .callTarget
      else return e

/-- A literal, a name, a list, an object, or an expression in parentheses. -/
def primary : (fuel : Nat) → (outer : Frame) → Move Expr
  | 0, _ => exhausted
  | fuel + 1, outer => do
    let here ← descend outer .primary
    let m ← bump marks
    match m.kind with
    | some (.number x) => return .literal (ofFloat x)
    | some (.text s) => return .literal (.string s)
    | some (.word .trueWord) => return .literal (.bool true)
    | some (.word .falseWord) => return .literal (.bool false)
    | some (.word .nullWord) => return .literal .null
    | some (.name s) => return .name s
    | some (.sign .openParen) =>
      let e ← expression fuel here
      expect marks (some (.sign .closeParen))
      return e
    | some (.sign .openBracket) => return .array (← elements fuel here .item [])
    | some (.sign .openBrace) => return .object (← elements fuel here .entry [])
    | found => refuse m (.unexpected found)

/-- The loop over arguments, elements of a list or members of an object, of which those in `done`
have been read; a comma may stand before the closing sign. -/
def elements :
    (fuel : Nat) → (here : Frame) → (e : Element) → (done : List e.Tree) → Move (List e.Tree)
  | 0, _, _, _ => exhausted
  | fuel + 1, here, e, done => do
    let start ← index
    if ← consume marks (.sign e.closing) then return done
    else
      let next ← element fuel here e
      if ← consume marks (.sign .comma) then
        turned start
        elements fuel here e (done ++ [next])
      else
        expect marks (some (.sign e.closing))
        return done ++ [next]

def element : (fuel : Nat) → (here : Frame) → (e : Element) → Move e.Tree
  | 0, _, _ => exhausted
  | fuel + 1, here, .argument => expression fuel here
  | fuel + 1, here, .item => do
    if ← consume marks (.sign .ellipsis) then return .spread (← expression fuel here)
    else return .one (← expression fuel here)
  | fuel + 1, here, .entry => do
    if ← consume marks (.sign .ellipsis) then return .spread (← expression fuel here)
    else
      let (key, alone) ← objectKey marks
      let m ← peek marks
      if alone && (m.kind = some (.sign .comma) ∨ m.kind = some (.sign .closeBrace)) then
        return .field key (.name key)
      else
        expect marks (some (.sign .colon))
        return .field key (← expression fuel here)

end

/-! ## Functions -/

def wholeFunction : Frame := ⟨.function, 0⟩

/-- The loop over bindings, of which those in `done` have been read. -/
def bindings : (fuel : Nat) → (done : List (String × Expr)) → Move (List (String × Expr))
  | 0, _ => exhausted
  | fuel + 1, done => do
    let start ← index
    if ← consume marks (.word .letWord) then
      let name ← expectName marks .binding
      expect marks (some (.sign .assign))
      let value ← expression marks fuel wholeFunction
      let _ ← consume marks (.sign .semicolon)
      turned start
      bindings fuel (done ++ [(name, value)])
    else return done

def block (fuel : Nat) : Move (List (String × Expr) × Expr) := do
  expect marks (some (.sign .openBrace))
  let lets ← bindings marks fuel []
  expect marks (some (.word .returnWord))
  let result ← expression marks fuel wholeFunction
  let _ ← consume marks (.sign .semicolon)
  expect marks (some (.sign .closeBrace))
  return (lets, result)

/-- Whether a block begins here rather than an object. -/
def startsBlock : Move Bool := do
  let m ← peek marks
  let next ← peekAhead marks 1
  return m.kind = some (.sign .openBrace) ∧
    (next = some (.word .letWord) ∨ next = some (.word .returnWord))

def function (fuel : Nat) : Move Function := do
  let m ← peek marks
  if m.kind = some (.name "function") then
    let _ ← bump marks
    expect marks (some (.sign .openParen))
    let names ← parameterList marks fuel
    let body ← peek marks
    if body.kind = some (.sign .openBrace) then
      let (lets, result) ← block marks fuel
      return ⟨names, lets, result⟩
    else refuse body .functionBody
  else
    match ← arrowParams? marks fuel with
    | none => refuse m .notFunction
    | some names =>
      if ← startsBlock marks then
        let (lets, result) ← block marks fuel
        return ⟨names, lets, result⟩
      else return ⟨names, [], ← expression marks fuel wholeFunction⟩

/-- The function that the tokens are, with nothing behind it but a semicolon. -/
def preset (fuel : Nat) : Move Function := do
  let f ← function marks fuel
  let _ ← consume marks (.sign .semicolon)
  expect marks none
  return f

end Cursor

end Montage.Script
