import Montage.Proofs.Script.Grammar.Sound

/-!
# What is in the grammar, the parser reads

A derivation says nothing about what stands behind its tokens, but the parser looks there: a loop
over operators ends at the first token that does not go on. So a derivation is read to its end where
the next token is none that would be taken as well, and `rank` orders the tokens by the parts that
would take them.
-/

namespace Montage.Script

variable {stop : Nat} {ts mid rest : List Token} {ks ls : Kinds} {k : Token.Kind}

/-! ## What goes on behind a part -/

/-- The parts that a token can go on with: a chain at 0, operands of level `n` at `n`, a condition
behind all levels. An arrow goes on with a name, and what goes on with no expression comes last. -/
def Token.Kind.rank : Token.Kind → Nat
  | .sign .arrow | .sign .dot | .sign .optionalDot | .sign .openBracket | .sign .openParen => 0
  | .sign .star | .sign .slash | .sign .percent => 1
  | .sign .plus | .sign .minus => 2
  | .sign .less | .sign .lessEqual | .sign .greater | .sign .greaterEqual => 3
  | .sign .equal | .sign .notEqual => 4
  | .sign .both => 5
  | .sign .either => 6
  | .sign .question => loosest + 1
  | _ => loosest + 2

/-- Behind a part of rank `n`, none of the tokens goes on with it. -/
def Stops (n : Nat) (ts : List Token) : Prop := ∀ k, next? ts = some k → n < k.rank

theorem Infix.rank {level : Nat} {op : BinaryOp} (h : Infix level k op) : k.rank = level + 1 := by
  cases h <;> rfl

theorem Stops.mono {m n : Nat} (h : Stops n ts) (hle : m ≤ n) : Stops m ts :=
  fun k hk => Nat.lt_of_le_of_lt hle (h k hk)

theorem stops_nil (n : Nat) : Stops n [] := nofun

theorem stops_of_next? {n : Nat} (h : next? ts = some k) (hrank : n < k.rank) : Stops n ts := by
  rintro _ hk
  obtain rfl := Option.some.inj (h.symm.trans hk)
  exact hrank

theorem Stops.next?_ne {n : Nat} (h : Stops n ts) (hrank : k.rank ≤ n) : next? ts ≠ some k :=
  fun hk => Nat.not_lt.mpr hrank (h k hk)

theorem Stops.operators {level : Nat} (h : Stops (level + 1) ts) (left : Expr) :
    YieldsTail (operators stop level left ts) left ts := by
  have hnone : nextOperator? level ts = none := by
    exact nextOperator?_eq_none fun k op hk hinfix => h.next?_ne (Nat.le_of_eq hinfix.rank) hk
  rw [Script.operators, hnone]
  exact ⟨_, rfl⟩

theorem Stops.postfixes (h : Stops 0 ts) (e : Expr) :
    YieldsTail (postfixes stop e ts) e ts := by
  rw [postfixes.eq_def]
  split
  next => exact absurd (h _ rfl) (Nat.lt_irrefl 0)
  next => exact absurd (h _ rfl) (Nat.lt_irrefl 0)
  next => exact absurd (h _ rfl) (Nat.lt_irrefl 0)
  next => exact absurd (h _ rfl) (Nat.lt_irrefl 0)
  next => exact ⟨_, rfl⟩

/-! ## How a part begins -/

def Part.IsExpression : Part → Prop
  | element _ | elements _ => False
  | _ => True

/-- The parts that are tighter than a condition. -/
def Part.IsOperand : Part → Prop
  | operand _ | chain | primary => True
  | _ => False

/-- The parts that have no operator in front. -/
def Part.IsChain : Part → Prop
  | chain | primary => True
  | _ => False

/-- The first kinds of an expression: none that closes a list of elements and no `...`, and if a
name stands there, then neither a comma nor a closing parenthesis behind it. -/
def Begins (ks : Kinds) : Prop :=
  ∃ k tail, ks = k :: tail ∧ k ≠ .sign .ellipsis ∧ (∀ e : Element, k ≠ .sign e.closing) ∧
    ∀ x, k = .name x → tail.head? ≠ some (.sign .comma) ∧ tail.head? ≠ some (.sign .closeParen)

theorem Begins.append (h : Begins ls) (hcomma : k ≠ .sign .comma) (hclose : k ≠ .sign .closeParen)
    (ks : Kinds) : Begins (ls ++ k :: ks) := by
  obtain ⟨first, tail, rfl, hdots, hend, hname⟩ := h
  refine ⟨first, tail ++ k :: ks, rfl, hdots, hend, fun x hx => ?_⟩
  rcases tail with _ | ⟨l, tail⟩
  · exact ⟨fun h => hcomma (Option.some.inj h), fun h => hclose (Option.some.inj h)⟩
  · exact hname x hx

theorem begins_sign {s : Sign} (hdots : s ≠ .ellipsis) (hend : ∀ e : Element, s ≠ e.closing)
    (ks : Kinds) : Begins (.sign s :: ks) :=
  ⟨_, ks, rfl, fun h => hdots (Token.Kind.sign.inj h), fun e h => hend e (Token.Kind.sign.inj h),
    nofun⟩

theorem Derives.begins {p : Part} {t : p.Tree} (h : Derives p ks t) (hp : p.IsExpression) :
    Begins ks := by
  induction h with
  | arrow hheader =>
    cases hheader with
    | name x => exact ⟨_, _, rfl, nofun, nofun, fun _ _ => ⟨nofun, nofun⟩⟩
    | params => exact begins_sign (by nofun) (by nofun) _
  | ternary _ _ _ ih => exact (ih trivial).append (by nofun) (by nofun) _
  | operand _ ih => exact ih trivial
  | tighter _ ih => exact ih trivial
  | binary _ hop _ ih =>
    refine (ih trivial).append ?_ ?_ _ <;> rintro rfl <;> cases hop
  | unary hop => cases hop <;> exact begins_sign (by nofun) (by nofun) _
  | chain _ ih => exact ih trivial
  | primary _ ih => exact ih trivial
  | member _ hdot _ ih =>
    refine (ih trivial).append ?_ ?_ _ <;> rintro rfl <;> cases hdot
  | index _ _ ih => exact (ih trivial).append (by nofun) (by nofun) _
  | call _ _ ih => exact (ih trivial).append (by nofun) (by nofun) _
  | literal h => cases h <;> exact ⟨_, _, rfl, nofun, nofun, nofun⟩
  | name x => exact ⟨_, _, rfl, nofun, nofun, fun _ _ => ⟨nofun, nofun⟩⟩
  | parenthesized => exact begins_sign (by nofun) (by nofun) _
  | array => exact begins_sign (by nofun) (by nofun) _
  | object => exact begins_sign (by nofun) (by nofun) _
  | argument | item | spreadItem | shorthand | field | spreadEntry | empty | last | more =>
    exact hp.elim

theorem Derives.not_prefix {p : Part} {t : p.Tree} (h : Derives p ks t) (hp : p.IsChain) :
    ∃ k tail, ks = k :: tail ∧ ∀ op, ¬ Prefix k op := by
  induction h with
  | primary _ ih => exact ih trivial
  | member _ _ _ ih | index _ _ ih | call _ _ ih =>
    obtain ⟨k, tail, rfl, hk⟩ := ih trivial
    exact ⟨k, _, rfl, hk⟩
  | literal h => cases h <;> exact ⟨_, _, rfl, nofun⟩
  | name | parenthesized | array | object => exact ⟨_, _, rfl, nofun⟩
  | arrow | ternary | operand | tighter | binary | unary | chain => exact hp.elim
  | argument | item | spreadItem | shorthand | field | spreadEntry | empty | last | more =>
    exact hp.elim

/-- No arrow function begins with these kinds, unless an arrow stands behind them. -/
def NoHeader (ks : Kinds) : Prop :=
  ∀ ⦃ts rest : List Token⦄, Spells ts ks rest → next? rest ≠ some (.sign .arrow) →
    ∀ stop, arrowParams? stop ts = .ok none

theorem NoHeader.append (h : NoHeader ls) (harrow : k ≠ .sign .arrow) (ks : Kinds) :
    NoHeader (ls ++ k :: ks) := by
  intro ts rest hts _ stop
  obtain ⟨mid, hls, hmid⟩ := spells_append.mp hts
  refine h hls ?_ stop
  rw [hmid.next?]
  exact fun heq => harrow (Option.some.inj heq)

theorem arrowParams?_eq_none
    (hname : ∀ x start last tail, ts = ⟨.name x, start, last⟩ :: tail →
      next? tail ≠ some (.sign .arrow))
    (hparen : ∀ start last tail, ts = ⟨.sign .openParen, start, last⟩ :: tail →
      looksLikeArrow tail = false) : arrowParams? stop ts = .ok none := by
  unfold arrowParams?
  split
  next => exact absurd rfl (hname _ _ _ _ rfl)
  next => rw [hparen _ _ _ rfl, if_neg Bool.false_ne_true]
  next => rfl

theorem noHeader_cons (hname : ∀ x, k ≠ .name x) (hparen : k ≠ .sign .openParen) (ks : Kinds) :
    NoHeader (k :: ks) := by
  intro ts rest hts _ stop
  obtain ⟨_, _, _, rfl, _⟩ := spells_cons.mp hts
  refine arrowParams?_eq_none ?_ ?_
  · rintro x _ _ _ ⟨⟩
    exact absurd rfl (hname x)
  · rintro _ _ _ ⟨⟩
    exact absurd rfl hparen

theorem noHeader_name (x : String) : NoHeader [.name x] := by
  intro ts rest hts harrow stop
  obtain ⟨_, _, _, rfl, hrest⟩ := spells_cons.mp hts
  obtain rfl := spells_nil.mp hrest
  refine arrowParams?_eq_none ?_ nofun
  rintro _ _ _ _ ⟨⟩
  exact harrow

theorem looksLikeArrow_eq_false (hks : Begins ks)
    (hts : Spells ts (ks ++ [.sign .closeParen]) rest) (harrow : next? rest ≠ some (.sign .arrow)) :
    looksLikeArrow ts = false := by
  obtain ⟨k, tail, rfl, -, hend, hname⟩ := hks
  have hfirst : k ≠ .sign .closeParen := hend .argument
  unfold looksLikeArrow
  split
  next => exact absurd (Option.some.inj hts.next?).symm hfirst
  next =>
    unfold looksLikeParams
    split
    next =>
      obtain ⟨rfl, hbehind⟩ := spells_cons_cons.mp hts
      rcases tail with _ | ⟨l, tail⟩
      · cases (spells_cons_cons.mp hbehind).1
      · exact absurd (congrArg some (spells_cons_cons.mp hbehind).1.symm) (hname _ rfl).1
    next =>
      obtain ⟨rfl, hbehind⟩ := spells_cons_cons.mp hts
      rcases tail with _ | ⟨l, tail⟩
      · obtain rfl := spells_nil.mp (spells_cons_cons.mp hbehind).2
        exact absurd rfl harrow
      · exact absurd (congrArg some (spells_cons_cons.mp hbehind).1.symm) (hname _ rfl).2
    next => rfl

theorem noHeader_parenthesized (h : Begins ks) :
    NoHeader (.sign .openParen :: (ks ++ [.sign .closeParen])) := by
  intro ts rest hts harrow stop
  obtain ⟨_, _, mid, rfl, hmid⟩ := spells_cons.mp hts
  refine arrowParams?_eq_none nofun ?_
  rintro _ _ _ ⟨⟩
  exact looksLikeArrow_eq_false h hmid harrow

theorem Derives.noHeader {p : Part} {t : p.Tree} (h : Derives p ks t) (hp : p.IsOperand) :
    NoHeader ks := by
  induction h with
  | arrow | ternary | operand => exact hp.elim
  | tighter _ ih => exact ih trivial
  | binary _ hop _ ih =>
    refine (ih trivial).append ?_ _
    rintro rfl
    cases hop
  | unary hop => cases hop <;> exact noHeader_cons (by nofun) (by nofun) _
  | chain _ ih => exact ih trivial
  | primary _ ih => exact ih trivial
  | member _ hdot _ ih =>
    refine (ih trivial).append ?_ _
    rintro rfl
    cases hdot
  | index _ _ ih => exact (ih trivial).append (by nofun) _
  | call _ _ ih => exact (ih trivial).append (by nofun) _
  | literal h => cases h <;> exact noHeader_cons (by nofun) (by nofun) _
  | name x => exact noHeader_name x
  | parenthesized h => exact noHeader_parenthesized (h.begins trivial)
  | array => exact noHeader_cons (by nofun) (by nofun) _
  | object => exact noHeader_cons (by nofun) (by nofun) _
  | argument | item | spreadItem | shorthand | field | spreadEntry | empty | last | more =>
    exact hp.elim

/-! ## Parts of expressions -/

/-- The parser reads the tokens of a part. For the parts that are read by a loop, an operand of a
level and a chain, this says that the loop comes to the point where the part has been read; whether
it ends there depends on the tokens behind. -/
def Accepts (stop : Nat) : (p : Part) → Kinds → p.Tree → Prop
  | .expression, ks, e => ∀ ⦃ts rest : List Token⦄, Spells ts ks rest →
    Stops (loosest + 1) rest → Yields (expr stop ts) e rest
  | .operand 0, ks, e => ∀ ⦃ts rest : List Token⦄, Spells ts ks rest → Stops 0 rest →
    Yields (operand stop 0 ts) e rest
  | .operand (level + 1), ks, e => ∀ ⦃ts mid : List Token⦄, Spells ts ks mid → Stops level mid →
    ∃ left : Parsed Expr ts, operand stop level ts = .ok left ∧
      ∀ ⦃whole rest⦄, YieldsTail (operators stop level e mid) whole rest →
        YieldsTail (operators stop level left.tree left.rest) whole rest
  | .chain, ks, e => ∀ ⦃ts mid : List Token⦄, Spells ts ks mid →
    ∃ first : Parsed Expr ts, primary stop ts = .ok first ∧
      ∀ ⦃whole rest⦄, YieldsTail (postfixes stop e mid) whole rest →
        YieldsTail (postfixes stop first.tree first.rest) whole rest
  | .primary, ks, e => ∀ ⦃ts rest : List Token⦄, Spells ts ks rest →
    Yields (primary stop ts) e rest
  | .element e, ks, t => ∀ ⦃ts rest : List Token⦄, Spells ts ks rest →
    (next? rest = some (.sign .comma) ∨ next? rest = some (.sign e.closing)) →
    Yields (e.parse stop ts) t rest
  | .elements e, ks, t => ∀ ⦃ts rest : List Token⦄, Spells ts (ks ++ [.sign e.closing]) rest →
    Yields (e.parseAll stop ts) t rest

section

variable {e : Expr}

theorem Accepts.operand {level : Nat} (h : Accepts stop (.operand level) ks e)
    (hts : Spells ts ks rest) (hstops : Stops level rest) :
    Yields (operand stop level ts) e rest := by
  cases level with
  | zero => exact h hts hstops
  | succ level =>
    obtain ⟨left, hleft, hwhole⟩ := h hts (hstops.mono (Nat.le_succ _))
    rw [Script.operand, hleft]
    exact (hwhole (hstops.operators e)).bind fun _ => ⟨_, rfl⟩

theorem accepts_tighter {level : Nat} (h : Accepts stop (.operand level) ks e) :
    Accepts stop (.operand (level + 1)) ks e := by
  intro ts mid hts hstops
  obtain ⟨hlt, hread⟩ := h.operand hts hstops
  exact ⟨⟨e, mid, hlt⟩, hread, fun _ _ hwhole => hwhole⟩

theorem accepts_binary {level : Nat} {op : BinaryOp} {right : Expr}
    (hleft : Accepts stop (.operand (level + 1)) ks e) (hop : Infix level k op)
    (hright : Accepts stop (.operand level) ls right) :
    Accepts stop (.operand (level + 1)) (ks ++ k :: ls) (.binary op e right) := by
  intro ts mid hts hstops
  obtain ⟨_, hks, hoperator⟩ := spells_append.mp hts
  obtain ⟨_, _, _, rfl, hls⟩ := spells_cons.mp hoperator
  have hbefore : Stops level (_ :: _) := stops_of_next? hoperator.next? (by rw [hop.rank]; omega)
  obtain ⟨first, hfirst, hgoes⟩ := hleft hks hbefore
  refine ⟨first, hfirst, fun whole rest hwhole => hgoes ?_⟩
  rw [operators, nextOperator?_complete hop]
  exact (hright.operand hls hstops).bindTail fun _ => hwhole.bindTail fun _ => ⟨_, rfl⟩

theorem accepts_unary {op : UnaryOp} (hop : Prefix k op) (h : Accepts stop (.operand 0) ks e) :
    Accepts stop (.operand 0) (k :: ks) (.unary op e) := by
  intro ts rest hts hstops
  obtain ⟨_, _, _, rfl, hks⟩ := spells_cons.mp hts
  rw [operand, nextUnary?_complete hop]
  exact (h hks hstops).bind fun _ => ⟨_, rfl⟩

theorem accepts_chain (h : Derives .chain ks e) (hread : Accepts stop .chain ks e) :
    Accepts stop (.operand 0) ks e := by
  intro ts rest hts hstops
  obtain ⟨k, tail, rfl, hprefix⟩ := h.not_prefix trivial
  have hnone : nextUnary? ts = none := by
    refine nextUnary?_eq_none fun k' op hk' => ?_
    obtain rfl := Option.some.inj (hts.next?.symm.trans hk')
    exact hprefix op
  obtain ⟨first, hfirst, hgoes⟩ := hread hts
  rw [operand, hnone]
  simp only [hfirst, ok_bind]
  exact (hgoes (hstops.postfixes e)).bind fun _ => ⟨_, rfl⟩

theorem accepts_primary (h : Accepts stop .primary ks e) : Accepts stop .chain ks e := by
  intro ts mid hts
  obtain ⟨hlt, hread⟩ := h hts
  exact ⟨⟨e, mid, hlt⟩, hread, fun _ _ hwhole => hwhole⟩

theorem Accepts.link {e' : Expr} (h : Accepts stop .chain ks e)
    (hlink : ∀ ⦃mid mid' : List Token⦄, Spells mid ls mid' → ∀ ⦃whole rest⦄,
      YieldsTail (postfixes stop e' mid') whole rest →
        YieldsTail (postfixes stop e mid) whole rest) :
    Accepts stop .chain (ks ++ ls) e' := by
  intro ts mid' hts
  obtain ⟨mid, hks, hls⟩ := spells_append.mp hts
  obtain ⟨first, hfirst, hgoes⟩ := h hks
  exact ⟨first, hfirst, fun _ _ hwhole => hgoes (hlink hls hwhole)⟩

theorem accepts_member {d : Token.Kind} {isOptional : Bool} {x : String}
    (h : Accepts stop .chain ks e) (hdot : Dot d isOptional) (hname : PropertyName k x) :
    Accepts stop .chain (ks ++ [d, k]) (.member e x isOptional) := by
  refine h.link fun mid mid' hmid whole rest hwhole => ?_
  obtain ⟨_, _, _, rfl, hkind⟩ := spells_cons.mp hmid
  obtain ⟨_, _, _, rfl, hrest⟩ := spells_cons.mp hkind
  obtain rfl := spells_nil.mp hrest
  cases hdot <;>
    rw [postfixes] <;>
    exact (propertyName_complete hname ..).bindTail fun _ => hwhole.bindTail fun _ => ⟨_, rfl⟩

theorem accepts_index {index : Expr} (h : Accepts stop .chain ks e)
    (hindex : Accepts stop .expression ls index) :
    Accepts stop .chain (ks ++ .sign .openBracket :: (ls ++ [.sign .closeBracket]))
      (.index e index) := by
  refine h.link fun mid mid' hmid whole rest hwhole => ?_
  obtain ⟨_, _, _, rfl, hinside⟩ := spells_cons.mp hmid
  obtain ⟨_, hls, hclose⟩ := spells_append.mp hinside
  obtain ⟨_, _, _, rfl, hrest⟩ := spells_cons.mp hclose
  obtain rfl := spells_nil.mp hrest
  rw [postfixes]
  refine (hindex hls (stops_of_next? hclose.next? (by decide))).bindTail fun _ => ?_
  exact (expect_self ..).bindTail fun _ => hwhole.bindTail fun _ => ⟨_, rfl⟩

theorem accepts_call {function : String} {args : List Expr}
    (h : Accepts stop .chain ks (.name function))
    (hargs : Accepts stop (.elements .argument) ls args) :
    Accepts stop .chain (ks ++ .sign .openParen :: (ls ++ [.sign .closeParen]))
      (.call function args) := by
  refine h.link fun mid mid' hmid whole rest hwhole => ?_
  obtain ⟨_, _, _, rfl, hinside⟩ := spells_cons.mp hmid
  rw [postfixes]
  have hargs : Yields (arguments stop _) args mid' := hargs hinside
  exact hargs.bindTail fun _ => hwhole.bindTail fun _ => ⟨_, rfl⟩

theorem accepts_literal {v : Json} (h : Literal k v) :
    Accepts stop .primary [k] (.literal v) := by
  intro ts rest hts
  obtain ⟨_, _, _, rfl, hrest⟩ := spells_cons.mp hts
  obtain rfl := spells_nil.mp hrest
  cases h <;> rw [primary] <;> exact ⟨_, rfl⟩

theorem accepts_name (x : String) : Accepts stop .primary [.name x] (.name x) := by
  intro ts rest hts
  obtain ⟨_, _, _, rfl, hrest⟩ := spells_cons.mp hts
  obtain rfl := spells_nil.mp hrest
  rw [primary]
  exact ⟨_, rfl⟩

theorem accepts_parenthesized (h : Accepts stop .expression ks e) :
    Accepts stop .primary (.sign .openParen :: (ks ++ [.sign .closeParen])) e := by
  intro ts rest hts
  obtain ⟨_, _, _, rfl, hinside⟩ := spells_cons.mp hts
  obtain ⟨_, hks, hclose⟩ := spells_append.mp hinside
  have hstops : Stops (loosest + 1) _ := stops_of_next? hclose.next? (by decide)
  obtain ⟨_, _, _, rfl, hrest⟩ := spells_cons.mp hclose
  obtain rfl := spells_nil.mp hrest
  rw [primary]
  exact (h hks hstops).bind fun _ => (expect_self ..).bind fun _ => ⟨_, rfl⟩

theorem accepts_array {items : List Item} (h : Accepts stop (.elements .item) ks items) :
    Accepts stop .primary (.sign .openBracket :: (ks ++ [.sign .closeBracket])) (.array items) := by
  intro ts rest hts
  obtain ⟨_, _, _, rfl, hinside⟩ := spells_cons.mp hts
  rw [primary]
  have hitems : Yields (listItems stop _) items rest := h hinside
  exact hitems.bind fun _ => ⟨_, rfl⟩

theorem accepts_object {entries : List Entry} (h : Accepts stop (.elements .entry) ks entries) :
    Accepts stop .primary (.sign .openBrace :: (ks ++ [.sign .closeBrace])) (.object entries) := by
  intro ts rest hts
  obtain ⟨_, _, _, rfl, hinside⟩ := spells_cons.mp hts
  rw [primary]
  have hentries : Yields (objectEntries stop _) entries rest := h hinside
  exact hentries.bind fun _ => ⟨_, rfl⟩

/-! ## Expressions -/

theorem accepts_arrow {xs : List String} (hheader : Header ks xs)
    (h : Accepts stop .expression ls e) : Accepts stop .expression (ks ++ ls) (.arrow xs e) := by
  intro ts rest hts hstops
  obtain ⟨mid, hks, hls⟩ := spells_append.mp hts
  obtain ⟨_, hnames⟩ : ∃ hlt, arrowParams? stop ts = .ok (some ⟨xs, mid, hlt⟩) :=
    arrowParams?_complete hheader hks
  rw [expr, hnames]
  exact (h hls hstops).bind fun _ => ⟨_, rfl⟩

theorem accepts_operand (h : Derives (.operand loosest) ks e)
    (hread : Accepts stop (.operand loosest) ks e) : Accepts stop .expression ks e := by
  intro ts rest hts hstops
  have hnone := h.noHeader trivial hts (hstops.next?_ne (by decide)) stop
  rw [expr, hnone]
  refine (hread.operand hts (hstops.mono (by decide))).bind fun _ => ?_
  simp only [take?_eq_none (hstops.next?_ne (k := .sign .question) (by decide))]
  exact ⟨_, rfl⟩

theorem accepts_ternary {ys ns : Kinds} {yes no : Expr} (h : Derives (.operand loosest) ks e)
    (hread : Accepts stop (.operand loosest) ks e) (hyes : Accepts stop .expression ys yes)
    (hno : Accepts stop .expression ns no) :
    Accepts stop .expression (ks ++ .sign .question :: (ys ++ .sign .colon :: ns))
      (.ternary e yes no) := by
  intro ts rest hts hstops
  obtain ⟨_, hks, hquestion⟩ := spells_append.mp hts
  have hcondition : Stops loosest _ := stops_of_next? hquestion.next? (by decide)
  have hnone := h.noHeader trivial hks (hcondition.next?_ne (by decide)) stop
  have hread := hread.operand hks hcondition
  obtain ⟨_, _, _, rfl, hbranches⟩ := spells_cons.mp hquestion
  obtain ⟨_, hys, hcolon⟩ := spells_append.mp hbranches
  have hyes := hyes hys (stops_of_next? hcolon.next? (by decide))
  obtain ⟨_, _, _, rfl, hns⟩ := spells_cons.mp hcolon
  rw [expr, hnone]
  refine hread.bind fun _ => ?_
  simp only [take?_self]
  refine hyes.bind fun _ => (expect_self ..).bind fun _ => ?_
  exact (hno hns hstops).bind fun _ => ⟨_, rfl⟩

/-! ## Elements -/

theorem stops_of_element {el : Element}
    (h : next? ts = some (.sign .comma) ∨ next? ts = some (.sign el.closing)) :
    Stops (loosest + 1) ts := by
  rcases h with h | h
  · exact stops_of_next? h (by decide)
  · exact stops_of_next? h (by cases el <;> decide)

theorem accepts_argument (h : Accepts stop .expression ks e) :
    Accepts stop (.element .argument) ks e :=
  fun _ _ hts hnext => h hts (stops_of_element hnext)

theorem next?_ne_ellipsis (h : Begins ks) (hts : Spells ts ks rest) :
    next? ts ≠ some (.sign .ellipsis) := by
  obtain ⟨k, tail, rfl, hdots, -⟩ := h
  exact fun hk => hdots (Option.some.inj (hts.next?.symm.trans hk))

theorem accepts_item (h : Derives .expression ks e) (hread : Accepts stop .expression ks e) :
    Accepts stop (.element .item) ks (.one e) := by
  intro ts rest hts hnext
  rw [Element.parse, listItem, take?_eq_none (next?_ne_ellipsis (h.begins trivial) hts)]
  exact (hread hts (stops_of_element hnext)).bind fun _ => ⟨_, rfl⟩

theorem accepts_spreadItem (h : Accepts stop .expression ks e) :
    Accepts stop (.element .item) (.sign .ellipsis :: ks) (.spread e) := by
  intro ts rest hts hnext
  obtain ⟨_, _, _, rfl, hks⟩ := spells_cons.mp hts
  rw [Element.parse, listItem, take?_self]
  exact (h hks (stops_of_element hnext)).bind fun _ => ⟨_, rfl⟩

theorem accepts_spreadEntry (h : Accepts stop .expression ks e) :
    Accepts stop (.element .entry) (.sign .ellipsis :: ks) (.spread e) := by
  intro ts rest hts hnext
  obtain ⟨_, _, _, rfl, hks⟩ := spells_cons.mp hts
  rw [Element.parse, objectEntry, take?_self]
  exact (h hks (stops_of_element hnext)).bind fun _ => ⟨_, rfl⟩

theorem accepts_shorthand (x : String) :
    Accepts stop (.element .entry) [.name x] (.field x (.name x)) := by
  intro ts rest hts hnext
  obtain ⟨start, last, tail, rfl, hrest⟩ := spells_cons.mp hts
  obtain rfl := spells_nil.mp hrest
  have hkey : Yields (objectKey stop (⟨.name x, start, last⟩ :: tail)) (x, true) tail := ⟨_, rfl⟩
  have hends : endsMember tail = true := decide_eq_true hnext
  rw [Element.parse, objectEntry, take?_eq_none (by simp)]
  refine hkey.bind fun _ => ?_
  simp only [hends, Bool.and_self, if_true]
  exact ⟨_, rfl⟩

theorem accepts_field {key : String} (hkey : ObjectKey k key) (h : Accepts stop .expression ks e) :
    Accepts stop (.element .entry) (k :: .sign .colon :: ks) (.field key e) := by
  intro ts rest hts hnext
  obtain ⟨start, last, behind, rfl, hcolon⟩ := spells_cons.mp hts
  have hdots : next? (⟨k, start, last⟩ :: behind) ≠ some (.sign .ellipsis) := by
    rintro ⟨⟩
    cases hkey
  have hends : endsMember behind = false := by
    rw [endsMember, hcolon.next?]
    rfl
  obtain ⟨alone, hread⟩ :
      ∃ alone, Yields (objectKey stop (⟨k, start, last⟩ :: behind)) (key, alone) behind :=
    objectKey_complete hkey ..
  obtain ⟨_, _, _, rfl, hks⟩ := spells_cons.mp hcolon
  rw [Element.parse, objectEntry, take?_eq_none hdots]
  refine hread.bind fun _ => ?_
  simp only [hends, Bool.and_false, Bool.false_eq_true, if_false]
  exact (expect_self ..).bind fun _ => (h hks (stops_of_element hnext)).bind fun _ => ⟨_, rfl⟩

theorem Derives.next?_ne_closing {el : Element} {t : el.Tree} (h : Derives (.element el) ks t)
    (hts : Spells ts ks rest) : next? ts ≠ some (.sign el.closing) := by
  have hexpression (hks : Begins ks) : next? ts ≠ some (.sign el.closing) := by
    obtain ⟨k, tail, rfl, -, hend, -⟩ := hks
    exact fun hk => hend el (Option.some.inj (hts.next?.symm.trans hk))
  cases h with
  | argument h => exact hexpression (h.begins trivial)
  | item h => exact hexpression (h.begins trivial)
  | spreadItem | shorthand | spreadEntry =>
    rw [hts.next?]
    nofun
  | field hkey =>
    rw [hts.next?]
    rintro ⟨⟩
    cases hkey

theorem accepts_empty {el : Element} : Accepts stop (.elements el) [] [] := by
  intro ts rest hts
  obtain ⟨_, _, _, rfl, hrest⟩ := spells_cons.mp hts
  obtain rfl := spells_nil.mp hrest
  rw [Element.parseAll_eq, take?_self]
  exact ⟨_, rfl⟩

theorem accepts_last {el : Element} {t : el.Tree} (h : Derives (.element el) ks t)
    (hread : Accepts stop (.element el) ks t) : Accepts stop (.elements el) ks [t] := by
  intro ts rest hts
  obtain ⟨_, hks, hclose⟩ := spells_append.mp hts
  have hread := hread hks (.inr hclose.next?)
  obtain ⟨start, last, tail, rfl, hrest⟩ := spells_cons.mp hclose
  obtain rfl := spells_nil.mp hrest
  have hcomma : next? (⟨.sign el.closing, start, last⟩ :: tail) ≠ some (.sign .comma) := by
    cases el <;> exact nofun
  rw [Element.parseAll_eq, take?_eq_none (h.next?_ne_closing hks)]
  refine hread.bind fun _ => ?_
  simp only [take?_eq_none hcomma]
  exact (expect_self ..).bind fun _ => ⟨_, rfl⟩

theorem accepts_more {el : Element} {t : el.Tree} {trees : List el.Tree}
    (h : Derives (.element el) ks t) (hread : Accepts stop (.element el) ks t)
    (hmore : Accepts stop (.elements el) ls trees) :
    Accepts stop (.elements el) (ks ++ .sign .comma :: ls) (t :: trees) := by
  intro ts rest hts
  rw [List.append_assoc, List.cons_append] at hts
  obtain ⟨_, hks, hcomma⟩ := spells_append.mp hts
  have hread := hread hks (.inl hcomma.next?)
  obtain ⟨_, _, _, rfl, hls⟩ := spells_cons.mp hcomma
  rw [Element.parseAll_eq, take?_eq_none (h.next?_ne_closing hks)]
  refine hread.bind fun _ => ?_
  simp only [take?_self]
  exact (hmore hls).bind fun _ => ⟨_, rfl⟩

end

/-- **The tokens of a part of an expression are read as the part.** -/
theorem Derives.accepts {p : Part} {t : p.Tree} (h : Derives p ks t) (stop : Nat) :
    Accepts stop p ks t := by
  induction h with
  | arrow hheader _ ih => exact accepts_arrow hheader ih
  | ternary h _ _ ih ihyes ihno => exact accepts_ternary h ih ihyes ihno
  | operand h ih => exact accepts_operand h ih
  | tighter _ ih => exact accepts_tighter ih
  | binary _ hop _ ih ihright => exact accepts_binary ih hop ihright
  | unary hop _ ih => exact accepts_unary hop ih
  | chain h ih => exact accepts_chain h ih
  | primary _ ih => exact accepts_primary ih
  | member _ hdot hname ih => exact accepts_member ih hdot hname
  | index _ _ ih ihindex => exact accepts_index ih ihindex
  | call _ _ ih ihargs => exact accepts_call ih ihargs
  | literal h => exact accepts_literal h
  | name x => exact accepts_name x
  | parenthesized _ ih => exact accepts_parenthesized ih
  | array _ ih => exact accepts_array ih
  | object _ ih => exact accepts_object ih
  | argument _ ih => exact accepts_argument ih
  | item h ih => exact accepts_item h ih
  | spreadItem _ ih => exact accepts_spreadItem ih
  | shorthand x => exact accepts_shorthand x
  | field hkey _ ih => exact accepts_field hkey ih
  | spreadEntry _ ih => exact accepts_spreadEntry ih
  | empty => exact accepts_empty
  | last h ih => exact accepts_last h ih
  | more h _ ih ihmore => exact accepts_more h ih ihmore

theorem Derives.expr {e : Expr} (h : Derives .expression ks e) (hts : Spells ts ks rest)
    (hstops : Stops (loosest + 1) rest) : Yields (expr stop ts) e rest :=
  h.accepts stop hts hstops

/-! ## Functions -/

theorem next?_block {lets : List (String × Expr)} {result : Expr} (h : Block ks lets result)
    (hts : Spells ts ks rest) : next? ts = some (.sign .openBrace) := by
  cases h
  exact hts.next?

theorem stops_of_semicolon (hs : Semicolon ks) (hts : Spells ts ks rest)
    (hrest : Stops (loosest + 1) rest) : Stops (loosest + 1) ts := by
  rcases hs with rfl | rfl
  · exact spells_nil.mp hts ▸ hrest
  · exact stops_of_next? hts.next? (by decide)

theorem next?_bindings {lets : List (String × Expr)} (h : Bindings ks lets)
    (hts : Spells ts ks rest) (hnext : next? rest = some (.word .returnWord)) :
    ∃ w, next? ts = some (.word w) := by
  cases h with
  | none => exact ⟨_, spells_nil.mp hts ▸ hnext⟩
  | more => exact ⟨_, hts.next?⟩

theorem bindings_complete {lets : List (String × Expr)} (h : Bindings ks lets)
    (hts : Spells ts ks rest) (hnext : next? rest = some (.word .returnWord)) :
    YieldsTail (bindings stop ts) lets rest := by
  induction h generalizing ts with
  | none =>
    obtain rfl := spells_nil.mp hts
    have hlet : next? ts ≠ some (.word .letWord) := by
      rw [hnext]
      decide
    rw [bindings, take?_eq_none hlet]
    exact ⟨_, rfl⟩
  | @more x ks ss ls e lets h hs hmore ih =>
    obtain ⟨_, _, _, rfl, hname⟩ := spells_cons.mp hts
    obtain ⟨_, _, _, rfl, hassign⟩ := spells_cons.mp hname
    obtain ⟨_, _, _, rfl, hvalue⟩ := spells_cons.mp hassign
    obtain ⟨mid, hks, hbehind⟩ := spells_append.mp hvalue
    obtain ⟨mid', hss, hls⟩ := spells_append.mp hbehind
    obtain ⟨w, hw⟩ := next?_bindings hmore hls hnext
    have hstops : Stops (loosest + 1) mid' := stops_of_next? hw (Nat.lt_succ_self _)
    have hskip : (skipSemicolon mid).rest = mid' := by
      refine skipSemicolon_rest hs hss fun hsemicolon => ?_
      rw [hw] at hsemicolon
      cases hsemicolon
    rw [bindings, take?_self]
    refine (expectName_self ..).bindTail fun _ => (expect_self ..).bindTail fun _ => ?_
    refine (h.expr hks (stops_of_semicolon hs hss hstops)).bindTail fun _ => ?_
    rw [← hskip] at hls
    exact (ih hls).bindTail fun _ => ⟨_, rfl⟩

theorem block_complete {lets : List (String × Expr)} {result : Expr} (h : Block ks lets result)
    (hts : Spells ts ks rest) : block stop ts = .ok ((lets, result), rest) := by
  cases h with
  | @mk bs ks ss _ _ hlets hresult hs =>
    obtain ⟨_, _, mid, rfl, hbody⟩ := spells_cons.mp hts
    obtain ⟨behind, hbs, hword⟩ := spells_append.mp hbody
    have hlets : YieldsTail (bindings stop mid) lets behind :=
      bindings_complete hlets hbs hword.next?
    obtain ⟨_, _, mid', rfl, hresults⟩ := spells_cons.mp hword
    obtain ⟨mid'', hks, hend⟩ := spells_append.mp hresults
    obtain ⟨closing, hss, hclose⟩ := spells_append.mp hend
    have hstops : Stops (loosest + 1) closing := stops_of_next? hclose.next? (by decide)
    have hresult : Yields (expr stop mid') result mid'' :=
      hresult.expr hks (stops_of_semicolon hs hss hstops)
    have hbrace : Yields (expect stop (.sign .closeBrace) (skipSemicolon mid'').rest) () rest := by
      rw [skipSemicolon_rest hs hss (hclose.next? ▸ nofun)]
      obtain ⟨_, _, _, rfl, hrest⟩ := spells_cons.mp hclose
      obtain rfl := spells_nil.mp hrest
      exact expect_self ..
    rw [block]
    refine (expect_self ..).bind_eq fun _ => hlets.bind_eq fun _ => ?_
    refine (expect_self ..).bind_eq fun _ => hresult.bind_eq fun _ => ?_
    exact hbrace.bind_eq fun _ => rfl

theorem startsBlock_of_block {lets : List (String × Expr)} {result : Expr}
    (h : Block ks lets result) (hts : Spells ts ks rest) : startsBlock ts := by
  cases h with
  | mk hlets =>
    cases hlets with
    | none => exact startsBlock_of_opensBlock (.result _) hts
    | more => exact startsBlock_of_opensBlock (.binding _) hts

theorem startsBlock_eq_false (hks : ks ≠ []) (hbody : ¬ OpensBlock ks) (hts : Spells ts ks rest)
    (hrest : ∀ w, next? rest ≠ some (.word w)) : startsBlock ts = false := by
  unfold startsBlock
  obtain ⟨k, ks, rfl⟩ := List.exists_cons_of_ne_nil hks
  split
  next =>
    obtain ⟨rfl, hbehind⟩ := spells_cons_cons.mp hts
    rcases ks with _ | ⟨k, ks⟩
    · obtain rfl := spells_nil.mp hbehind
      exact absurd rfl (hrest _)
    · obtain ⟨rfl, -⟩ := spells_cons_cons.mp hbehind
      exact absurd (.binding ks) hbody
  next =>
    obtain ⟨rfl, hbehind⟩ := spells_cons_cons.mp hts
    rcases ks with _ | ⟨k, ks⟩
    · obtain rfl := spells_nil.mp hbehind
      exact absurd rfl (hrest _)
    · obtain ⟨rfl, -⟩ := spells_cons_cons.mp hbehind
      exact absurd (.result ks) hbody
  next => rfl

theorem functionHead_arrow {xs : List String} {mid : List Token} (hheader : Header ks xs)
    (hname : ks.head? ≠ some (.name "function")) (hts : Spells ts ks mid) :
    functionHead stop ts =
      if startsBlock mid then do
        let ((lets, result), rest) ← block stop mid
        return (⟨xs, lets, result⟩, rest)
      else do
        let result ← expr stop mid
        return (⟨xs, [], result.tree⟩, result.rest) := by
  have hfirst : ∀ start last tail, ts = ⟨.name "function", start, last⟩ :: tail → False := by
    rintro _ _ _ rfl
    obtain ⟨k, ks, rfl⟩ : ∃ k tail, ks = k :: tail := by cases hheader <;> exact ⟨_, _, rfl⟩
    exact hname (congrArg some (spells_cons_cons.mp hts).1.symm)
  obtain ⟨_, hnames⟩ : ∃ hlt, arrowParams? stop ts = .ok (some ⟨xs, mid, hlt⟩) :=
    arrowParams?_complete hheader hts
  rw [functionHead.eq_2 stop ts hfirst, hnames, ok_bind]

theorem functionHead_complete {f : Function} (h : IsFunction ks f) (hts : Spells ts ks rest)
    (hstops : Stops (loosest + 1) rest) (hrest : ∀ w, next? rest ≠ some (.word w)) :
    functionHead stop ts = .ok (f, rest) := by
  cases h with
  | word hparams hblock =>
    obtain ⟨_, _, _, rfl, hparen⟩ := spells_cons.mp hts
    obtain ⟨_, _, _, rfl, hbody⟩ := spells_cons.mp hparen
    rw [List.append_cons] at hbody
    obtain ⟨mid, hps, hbs⟩ := spells_append.mp hbody
    rw [functionHead]
    refine (expect_self ..).bind_eq fun _ => (params_complete hparams hps).bind_eq fun _ => ?_
    rw [if_pos (next?_block hblock hbs), block_complete hblock hbs]
    rfl
  | arrowBlock hheader hname hblock =>
    obtain ⟨mid, hhs, hbs⟩ := spells_append.mp hts
    rw [functionHead_arrow hheader hname hhs, if_pos (startsBlock_of_block hblock hbs),
      block_complete hblock hbs]
    rfl
  | @arrow hs ks _ _ hheader hname hresult hbody =>
    obtain ⟨mid, hhs, hks⟩ := spells_append.mp hts
    have hnonempty : ks ≠ [] := by
      obtain ⟨_, _, rfl, -⟩ := hresult.begins trivial
      exact List.cons_ne_nil _ _
    rw [functionHead_arrow hheader hname hhs, startsBlock_eq_false hnonempty hbody hks hrest,
      if_neg Bool.false_ne_true]
    exact (hresult.expr hks hstops).bind_eq fun _ => rfl

theorem parseTokens_complete {f : Function} (h : IsPreset (ts.map Token.kind) f) :
    parseTokens stop ts = .ok f := by
  obtain ⟨ks, ss, hks, hf, hs⟩ := h
  obtain ⟨rest, hts, hend⟩ := spells_append.mp (spells_end.mpr hks)
  have hstops : Stops (loosest + 1) rest := stops_of_semicolon hs hend (stops_nil _)
  have hrest : ∀ w, next? rest ≠ some (.word w) := by
    rcases hs with rfl | rfl
    · obtain rfl := spells_nil.mp hend
      exact nofun
    · rw [hend.next?]
      exact nofun
  rw [parseTokens, functionHead_complete hf hts hstops hrest, ok_bind]
  dsimp only
  rw [skipSemicolon_rest hs hend nofun]
  rfl

/-- The grammar is not ambiguous: no kinds in a row are two functions. -/
theorem IsPreset.unique {f g : Function} (hf : IsPreset ks f) (hg : IsPreset ks g) : f = g := by
  obtain ⟨ts, rfl⟩ : ∃ ts : List Token, ts.map Token.kind = ks :=
    ⟨ks.map fun k => ⟨k, 0, 0⟩, by simp [Function.comp_def]⟩
  have hread : parseTokens 0 ts = .ok f := parseTokens_complete hf
  exact Except.ok.inj (hread.symm.trans (parseTokens_complete hg))

/-- **The parser reads exactly the presets of the grammar**, each as the function that it is, and
wherever the source ends. -/
theorem parseTokens_eq_ok_iff (stop : Nat) (ts : List Token) (f : Function) :
    parseTokens stop ts = .ok f ↔ IsPreset (ts.map Token.kind) f :=
  ⟨parseTokens_sound, parseTokens_complete⟩

end Montage.Script
