import Montage.Proofs.Script.Grammar.Tokens

/-!
# What the parser reads is in the grammar

Each production is followed through its code, by recursion on the tokens as the parser itself
recurs. The two loops, over operators and over the links of a chain, start with an expression read
already, so about them the statement is what they make of the tokens of that expression.
-/

namespace Montage.Script

/-- The tokens in front of `rest` derive the tree as the given part of an expression. -/
def Reads (part : Part) (ts : List Token) (tree : part.Tree) (rest : List Token) : Prop :=
  ∃ ks, Spells ts ks rest ∧ Derives part ks tree

/-- The tokens in front of `rest` go on with the part: from one tree to the other. -/
def GoesOn (part : Part) (ts : List Token) (tree tree' : part.Tree) (rest : List Token) : Prop :=
  ∃ ks, Spells ts ks rest ∧ ∀ ls, Derives part ls tree → Derives part (ls ++ ks) tree'

variable {stop : Nat} {mid rest : List Token}

theorem GoesOn.nothing {part : Part} {tree : part.Tree} (ts : List Token) :
    GoesOn part ts tree tree ts :=
  ⟨[], .nil ts, fun _ h => (List.append_nil _).symm ▸ h⟩

theorem Reads.goesOn {part : Part} {ts : List Token} {tree tree' : part.Tree}
    (h : Reads part ts tree mid) (h' : GoesOn part mid tree tree' rest) :
    Reads part ts tree' rest := by
  obtain ⟨ks, hks, hderives⟩ := h
  obtain ⟨ls, hls, hgoes⟩ := h'
  exact ⟨_, hks.append hls, hgoes ks hderives⟩

theorem GoesOn.step {part : Part} {ts : List Token} {tree tree' tree'' : part.Tree}
    (h : GoesOn part ts tree tree' mid) (h' : GoesOn part mid tree' tree'' rest) :
    GoesOn part ts tree tree'' rest := by
  obtain ⟨ks, hks, hgoes⟩ := h
  obtain ⟨ls, hls, hgoes'⟩ := h'
  refine ⟨_, hks.append hls, fun is his => ?_⟩
  rw [← List.append_assoc]
  exact hgoes' _ (hgoes is his)

def Element.parse (stop : Nat) : (e : Element) → (ts : List Token) → Parsing (Parsed e.Tree ts)
  | .argument, ts => expr stop ts
  | .item, ts => listItem stop ts
  | .entry, ts => objectEntry stop ts

def Element.parseAll (stop : Nat) :
    (e : Element) → (ts : List Token) → Parsing (Parsed (List e.Tree) ts)
  | .argument, ts => arguments stop ts
  | .item, ts => listItems stop ts
  | .entry, ts => objectEntries stop ts

theorem Element.parseAll_eq (e : Element) (ts : List Token) :
    e.parseAll stop ts =
      match take? (.sign e.closing) ts with
      | some close => .ok (close.map fun _ => [])
      | none => do
        let first ← e.parse stop ts
        match take? (.sign .comma) first.rest with
        | some comma =>
          let more ← e.parseAll stop comma.rest
          return (first.andThen (comma.andThen more)).map (first.tree :: ·)
        | none =>
          let close ← expect stop (.sign e.closing) first.rest
          return (first.closedBy close).map ([·]) := by
  cases e <;> simp only [closing, parse, parseAll]
  all_goals
    first | rw [arguments] | rw [listItems] | rw [objectEntries]
    generalize take? (.sign _) ts = close
    rcases close with _ | close
    · refine congrArg (Bind.bind _) (funext fun first => ?_)
      dsimp only
      generalize take? (.sign .comma) first.rest = comma
      rcases comma with _ | comma <;> rfl
    · rfl

mutual

theorem expr_sound {ts : List Token} {p : Parsed Expr ts} (h : expr stop ts = .ok p) :
    Reads .expression ts p.tree p.rest := by
  rw [expr] at h
  obtain ⟨header, hheader, h⟩ := eq_ok_of_bind h
  cases header with
  | some names =>
    have := names.shorter
    obtain ⟨body, hbody, h⟩ := eq_ok_of_bind h
    cases h
    obtain ⟨hs, hhs, hnames⟩ := arrowParams?_sound hheader
    obtain ⟨ks, hks, hbody⟩ := expr_sound hbody
    exact ⟨_, hhs.append hks, .arrow hnames hbody⟩
  | none =>
    obtain ⟨condition, hcondition, h⟩ := eq_ok_of_bind h
    obtain ⟨cs, hcs, hcondition⟩ := operand_sound hcondition
    split at h
    next question hquestion =>
      have := condition.shorter
      have := question.shorter
      obtain ⟨yes, hyes, h⟩ := eq_ok_of_bind h
      have := yes.shorter
      obtain ⟨colon, hcolon, h⟩ := eq_ok_of_bind h
      have := colon.shorter
      obtain ⟨no, hno, h⟩ := eq_ok_of_bind h
      cases h
      obtain ⟨ys, hys, hyes⟩ := expr_sound hyes
      obtain ⟨ns, hns, hno⟩ := expr_sound hno
      have hbranches := hys.append ((spells_of_expect hcolon).append hns)
      exact ⟨_, hcs.append ((spells_of_take? hquestion).append hbranches),
        .ternary hcondition hyes hno⟩
    next =>
      cases h
      exact ⟨cs, hcs, .operand hcondition⟩
termination_by (ts.length, levels + 3)

theorem operand_sound {level : Nat} {ts : List Token} {p : Parsed Expr ts}
    (h : operand stop level ts = .ok p) : Reads (.operand level) ts p.tree p.rest := by
  cases level with
  | zero =>
    rw [operand] at h
    split at h
    next op hop =>
      have := op.shorter
      obtain ⟨e, he, h⟩ := eq_ok_of_bind h
      cases h
      obtain ⟨k, hprefix, hk⟩ := nextUnary?_sound hop
      obtain ⟨ks, hks, he⟩ := operand_sound he
      exact ⟨_, hk.append hks, .unary hprefix he⟩
    next =>
      obtain ⟨e, he, h⟩ := eq_ok_of_bind h
      have := e.shorter
      obtain ⟨whole, hwhole, h⟩ := eq_ok_of_bind h
      cases h
      obtain ⟨ks, hks, he⟩ := primary_sound rfl he
      have hchain : Reads .chain ts e.tree e.rest := ⟨ks, hks, .primary he⟩
      obtain ⟨ls, hls, hwhole⟩ := hchain.goesOn (postfixes_sound rfl hwhole)
      exact ⟨ls, hls, .chain hwhole⟩
  | succ level =>
    rw [operand] at h
    obtain ⟨left, hleft, h⟩ := eq_ok_of_bind h
    have := left.shorter
    obtain ⟨whole, hwhole, h⟩ := eq_ok_of_bind h
    cases h
    obtain ⟨ks, hks, hleft⟩ := operand_sound hleft
    have hreads : Reads (.operand (level + 1)) ts left.tree left.rest := ⟨ks, hks, .tighter hleft⟩
    exact hreads.goesOn (operators_sound hwhole)
termination_by (ts.length, level + 2)

theorem operators_sound {level : Nat} {left : Expr} {ts : List Token} {p : Continued Expr ts}
    (h : operators stop level left ts = .ok p) :
    GoesOn (.operand (level + 1)) ts left p.tree p.rest := by
  rw [operators] at h
  split at h
  next op hop =>
    have := op.shorter
    obtain ⟨right, hright, h⟩ := eq_ok_of_bind h
    have := right.shorter
    obtain ⟨whole, hwhole, h⟩ := eq_ok_of_bind h
    cases h
    obtain ⟨k, hinfix, hk⟩ := nextOperator?_sound hop
    obtain ⟨rs, hrs, hright⟩ := operand_sound hright
    have hstep :
        GoesOn (.operand (level + 1)) ts left (.binary op.tree left right.tree) right.rest :=
      ⟨_, hk.append hrs, fun _ hleft => .binary hleft hinfix hright⟩
    exact hstep.step (operators_sound hwhole)
  next =>
    cases h
    exact .nothing ts
termination_by (ts.length, 0)

-- the number of tokens has a name here and in the next statement, because the case split on the
-- tokens hides from the termination check which list it has split
theorem postfixes_sound {e : Expr} {ts : List Token} {n : Nat} (hn : ts.length = n)
    {p : Continued Expr ts} (h : postfixes stop e ts = .ok p) :
    GoesOn .chain ts e p.tree p.rest := by
  rw [postfixes.eq_def] at h
  split at h
  next start last tail =>
    have hn : tail.length + 1 = n := hn
    obtain ⟨name, hname, h⟩ := eq_ok_of_bind h
    have := name.shorter
    obtain ⟨whole, hwhole, h⟩ := eq_ok_of_bind h
    cases h
    obtain ⟨k, hproperty, hk⟩ := propertyName_sound hname
    have hlink : GoesOn .chain (⟨.sign .dot, start, last⟩ :: tail) e
        (.member e name.tree false) name.rest :=
      ⟨_, .cons rfl hk, fun _ he => .member he .plain hproperty⟩
    exact hlink.step (postfixes_sound rfl hwhole)
  next start last tail =>
    have hn : tail.length + 1 = n := hn
    obtain ⟨name, hname, h⟩ := eq_ok_of_bind h
    have := name.shorter
    obtain ⟨whole, hwhole, h⟩ := eq_ok_of_bind h
    cases h
    obtain ⟨k, hproperty, hk⟩ := propertyName_sound hname
    have hlink : GoesOn .chain (⟨.sign .optionalDot, start, last⟩ :: tail) e
        (.member e name.tree true) name.rest :=
      ⟨_, .cons rfl hk, fun _ he => .member he .optional hproperty⟩
    exact hlink.step (postfixes_sound rfl hwhole)
  next start last tail =>
    have hn : tail.length + 1 = n := hn
    obtain ⟨index, hindex, h⟩ := eq_ok_of_bind h
    have := index.shorter
    obtain ⟨close, hclose, h⟩ := eq_ok_of_bind h
    have := close.shorter
    obtain ⟨whole, hwhole, h⟩ := eq_ok_of_bind h
    cases h
    obtain ⟨is, his, hindex⟩ := expr_sound hindex
    have hlink : GoesOn .chain (⟨.sign .openBracket, start, last⟩ :: tail) e
        (.index e index.tree) close.rest :=
      ⟨_, .cons rfl (his.append (spells_of_expect hclose)), fun _ he => .index he hindex⟩
    exact hlink.step (postfixes_sound rfl hwhole)
  next start last tail =>
    have hn : tail.length + 1 = n := hn
    obtain ⟨args, hargs, h⟩ := eq_ok_of_bind h
    have := args.shorter
    split at h
    next function _ =>
      obtain ⟨whole, hwhole, h⟩ := eq_ok_of_bind h
      cases h
      obtain ⟨as, has, hargs⟩ := elements_sound (e := .argument) hargs
      have hlink : GoesOn .chain (⟨.sign .openParen, start, last⟩ :: tail) (.name function)
          (.call function args.tree) args.rest :=
        ⟨_, .cons rfl has, fun _ he => .call he hargs⟩
      exact hlink.step (postfixes_sound rfl hwhole)
    next => cases h
  next =>
    cases h
    exact .nothing ts
termination_by (n, 0)

theorem primary_sound {ts : List Token} {n : Nat} (hn : ts.length = n) {p : Parsed Expr ts}
    (h : primary stop ts = .ok p) : Reads .primary ts p.tree p.rest := by
  rw [primary.eq_def] at h
  split at h
  next x _ _ rest =>
    cases h
    exact ⟨_, .cons rfl (.nil rest), .literal (.number x)⟩
  next s _ _ rest =>
    cases h
    exact ⟨_, .cons rfl (.nil rest), .literal (.text s)⟩
  next rest =>
    cases h
    exact ⟨_, .cons rfl (.nil rest), .literal .trueWord⟩
  next rest =>
    cases h
    exact ⟨_, .cons rfl (.nil rest), .literal .falseWord⟩
  next rest =>
    cases h
    exact ⟨_, .cons rfl (.nil rest), .literal .nullWord⟩
  next s _ _ rest =>
    cases h
    exact ⟨_, .cons rfl (.nil rest), .name s⟩
  next tail =>
    have hn : tail.length + 1 = n := hn
    obtain ⟨e, he, h⟩ := eq_ok_of_bind h
    obtain ⟨close, hclose, h⟩ := eq_ok_of_bind h
    cases h
    obtain ⟨ks, hks, he⟩ := expr_sound he
    exact ⟨_, .cons rfl (hks.append (spells_of_expect hclose)), .parenthesized he⟩
  next tail =>
    have hn : tail.length + 1 = n := hn
    obtain ⟨items, hitems, h⟩ := eq_ok_of_bind h
    cases h
    obtain ⟨ks, hks, hitems⟩ := elements_sound (e := .item) hitems
    exact ⟨_, .cons rfl hks, .array hitems⟩
  next tail =>
    have hn : tail.length + 1 = n := hn
    obtain ⟨entries, hentries, h⟩ := eq_ok_of_bind h
    cases h
    obtain ⟨ks, hks, hentries⟩ := elements_sound (e := .entry) hentries
    exact ⟨_, .cons rfl hks, .object hentries⟩
  next => cases h
termination_by (n, 1)

theorem element_sound {e : Element} {ts : List Token} {p : Parsed e.Tree ts}
    (h : e.parse stop ts = .ok p) : Reads (.element e) ts p.tree p.rest := by
  cases e with
  | argument =>
    obtain ⟨ks, hks, he⟩ := expr_sound h
    exact ⟨ks, hks, .argument he⟩
  | item =>
    rw [Element.parse, listItem] at h
    split at h
    next dots hdots =>
      have := dots.shorter
      obtain ⟨e, he, h⟩ := eq_ok_of_bind h
      cases h
      obtain ⟨ks, hks, he⟩ := expr_sound he
      exact ⟨_, (spells_of_take? hdots).append hks, .spreadItem he⟩
    next =>
      obtain ⟨e, he, h⟩ := eq_ok_of_bind h
      cases h
      obtain ⟨ks, hks, he⟩ := expr_sound he
      exact ⟨ks, hks, .item he⟩
  | entry =>
    rw [Element.parse, objectEntry] at h
    split at h
    next dots hdots =>
      have := dots.shorter
      obtain ⟨e, he, h⟩ := eq_ok_of_bind h
      cases h
      obtain ⟨ks, hks, he⟩ := expr_sound he
      exact ⟨_, (spells_of_take? hdots).append hks, .spreadEntry he⟩
    next =>
      obtain ⟨key, hkey, h⟩ := eq_ok_of_bind h
      obtain ⟨k, hkind, hk, halone⟩ := objectKey_sound hkey
      split at h
      next hends =>
        cases h
        obtain rfl := halone (Bool.and_eq_true_iff.mp hends).1
        exact ⟨_, hk, .shorthand _⟩
      next =>
        have := key.shorter
        obtain ⟨colon, hcolon, h⟩ := eq_ok_of_bind h
        have := colon.shorter
        obtain ⟨e, he, h⟩ := eq_ok_of_bind h
        cases h
        obtain ⟨ks, hks, he⟩ := expr_sound he
        exact ⟨_, hk.append ((spells_of_expect hcolon).append hks), .field hkind he⟩
termination_by (ts.length, levels + 4)

theorem elements_sound {e : Element} {ts : List Token} {p : Parsed (List e.Tree) ts}
    (h : e.parseAll stop ts = .ok p) :
    ∃ ks, Spells ts (ks ++ [.sign e.closing]) p.rest ∧ Derives (.elements e) ks p.tree := by
  rw [Element.parseAll_eq] at h
  split at h
  next close hclose =>
    cases h
    exact ⟨[], spells_of_take? hclose, .empty⟩
  next =>
    obtain ⟨first, hfirst, h⟩ := eq_ok_of_bind h
    obtain ⟨ks, hks, hfirst⟩ := element_sound hfirst
    have := first.shorter
    split at h
    next comma hcomma =>
      have := comma.shorter
      obtain ⟨more, hmore, h⟩ := eq_ok_of_bind h
      cases h
      obtain ⟨ls, hls, hmore⟩ := elements_sound hmore
      refine ⟨_, ?_, .more hfirst hmore⟩
      rw [List.append_assoc]
      exact hks.append ((spells_of_take? hcomma).append hls)
    next =>
      obtain ⟨close, hclose, h⟩ := eq_ok_of_bind h
      cases h
      exact ⟨ks, hks.append (spells_of_expect hclose), .last hfirst⟩
termination_by (ts.length, levels + 5)

end

/-! ## Functions -/

theorem bindings_sound {ts : List Token} {p : Continued (List (String × Expr)) ts}
    (h : bindings stop ts = .ok p) : ∃ ks, Spells ts ks p.rest ∧ Bindings ks p.tree := by
  rw [bindings] at h
  split at h
  next word hword =>
    have := word.shorter
    obtain ⟨name, hname, h⟩ := eq_ok_of_bind h
    have := name.shorter
    obtain ⟨assign, hassign, h⟩ := eq_ok_of_bind h
    have := assign.shorter
    obtain ⟨value, hvalue, h⟩ := eq_ok_of_bind h
    have := value.shorter
    have := (skipSemicolon value.rest).notLonger
    obtain ⟨more, hmore, h⟩ := eq_ok_of_bind h
    cases h
    have hlet := (spells_of_take? hword).append
      ((spells_of_expectName hname).append (spells_of_expect hassign))
    obtain ⟨ks, hks, hvalue⟩ := expr_sound hvalue
    obtain ⟨ss, hss, hsemicolon⟩ := spells_of_skipSemicolon value.rest
    obtain ⟨ls, hls, hmore⟩ := bindings_sound hmore
    exact ⟨.word .letWord :: .name name.tree :: .sign .assign :: (ks ++ (ss ++ ls)),
      hlet.append (hks.append (hsemicolon.append hls)), .more _ hvalue hss hmore⟩
  next =>
    cases h
    exact ⟨[], .nil ts, .none⟩
termination_by ts.length

variable {ts : List Token}

theorem block_sound {lets : List (String × Expr)} {result : Expr}
    (h : block stop ts = .ok ((lets, result), rest)) :
    ∃ ks, Spells ts ks rest ∧ Block ks lets result := by
  obtain ⟨brace, hbrace, h⟩ := eq_ok_of_bind h
  obtain ⟨lets, hlets, h⟩ := eq_ok_of_bind h
  obtain ⟨word, hword, h⟩ := eq_ok_of_bind h
  obtain ⟨result, hresult, h⟩ := eq_ok_of_bind h
  obtain ⟨close, hclose, h⟩ := eq_ok_of_bind h
  cases h
  obtain ⟨bs, hbs, hlets⟩ := bindings_sound hlets
  obtain ⟨ks, hks, hresult⟩ := expr_sound hresult
  obtain ⟨ss, hss, hsemicolon⟩ := spells_of_skipSemicolon result.rest
  have hbody := hks.append (hsemicolon.append (spells_of_expect hclose))
  exact ⟨_, (spells_of_expect hbrace).append (hbs.append ((spells_of_expect hword).append hbody)),
    .mk hlets hresult hss⟩

theorem startsBlock_of_opensBlock {ks : Kinds} (h : OpensBlock ks) (hks : Spells ts ks rest) :
    startsBlock ts := by
  cases h <;>
    obtain ⟨_, _, _, rfl, hword⟩ := spells_cons.mp hks <;>
    obtain ⟨_, _, _, rfl, _⟩ := spells_cons.mp hword <;>
    rfl

theorem functionHead_sound {f : Function} (h : functionHead stop ts = .ok (f, rest)) :
    ∃ ks, Spells ts ks rest ∧ IsFunction ks f := by
  unfold functionHead at h
  split at h
  next =>
    obtain ⟨paren, hparen, h⟩ := eq_ok_of_bind h
    obtain ⟨names, hnames, h⟩ := eq_ok_of_bind h
    split at h
    next =>
      obtain ⟨⟨⟨lets, result⟩, _⟩, hblock, h⟩ := eq_ok_of_bind h
      cases h
      obtain ⟨ps, hps, hparams⟩ := params_sound hnames
      obtain ⟨bs, hbs, hblock⟩ := block_sound hblock
      have hbody := hps.append hbs
      rw [List.append_assoc] at hbody
      exact ⟨_, .cons rfl ((spells_of_expect hparen).append hbody), .word hparams hblock⟩
    next => cases h
  next hfirst =>
    obtain ⟨names, hnames, h⟩ := eq_ok_of_bind h
    split at h
    next => cases h
    next names =>
      obtain ⟨hs, hhs, hheader⟩ := arrowParams?_sound hnames
      have hname : hs.head? ≠ some (.name "function") := by
        intro hhead
        obtain ⟨_, rfl⟩ := List.head?_eq_some_iff.mp hhead
        obtain ⟨_, _, _, rfl, _⟩ := spells_cons.mp hhs
        exact hfirst _ _ _ rfl
      split at h
      next =>
        obtain ⟨⟨⟨lets, result⟩, _⟩, hblock, h⟩ := eq_ok_of_bind h
        cases h
        obtain ⟨bs, hbs, hblock⟩ := block_sound hblock
        exact ⟨_, hhs.append hbs, .arrowBlock hheader hname hblock⟩
      next hbody =>
        obtain ⟨result, hresult, h⟩ := eq_ok_of_bind h
        cases h
        obtain ⟨ks, hks, hresult⟩ := expr_sound hresult
        exact ⟨_, hhs.append hks,
          .arrow hheader hname hresult fun h => hbody (startsBlock_of_opensBlock h hks)⟩

theorem parseTokens_sound {f : Function} (h : parseTokens stop ts = .ok f) :
    IsPreset (ts.map Token.kind) f := by
  obtain ⟨⟨f', rest⟩, hhead, h⟩ := eq_ok_of_bind h
  dsimp only at h
  split at h
  next hrest =>
    cases h
    obtain ⟨ks, hks, hf⟩ := functionHead_sound hhead
    obtain ⟨ss, hss, hsemicolon⟩ := spells_of_skipSemicolon rest
    rw [hrest] at hsemicolon
    exact ⟨ks, ss, spells_end.mp (hks.append hsemicolon), hf, hss⟩
  next => cases h

end Montage.Script
