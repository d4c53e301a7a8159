import Montage.Script.Compile
import Montage.Proofs.Script.Closed
import Montage.Proofs.Script.Grammar.Complete
import Montage.Proofs.Script.JsonText.Tokens

/-!
# JSON values as preset functions

A function whose body is the text of a JSON value gives that value back, whatever it is called with:
equal for the language, and with the keys of each object in their order. The texts that compile are
those of the values without a backspace and a form feed.
-/

namespace Montage

/-! ## Shape -/

mutual

/-- The value with `null` in place of all that is neither a list nor an object. -/
def Json.skeleton : Json → Json
  | .array items => .array (skeletonItems items)
  | .object fields => .object (skeletonFields fields)
  | .null | .bool _ | .number _ | .string _ => .null

def skeletonItems : List Json → List Json
  | [] => []
  | v :: rest => v.skeleton :: skeletonItems rest

def skeletonFields : Fields → Fields
  | [] => []
  | (k, v) :: rest => (k, v.skeleton) :: skeletonFields rest

end

theorem length_skeletonFields (fields : Fields) :
    (skeletonFields fields).length = fields.length := by
  induction fields with
  | nil => rfl
  | cons field rest ih => rw [skeletonFields, List.length_cons, ih, List.length_cons]

namespace Script

/-! ## Expressions -/

mutual

/-- The expression that the text of a value is read as. -/
def Expr.ofJson : Json → Expr
  | .array items => .array (itemsOfJson items)
  | .object fields => .object (entriesOfJson fields)
  | .number n =>
    if n.isMinus then .unary .neg (.literal (ofFloat n.magnitude))
    else .literal (ofFloat n.magnitude)
  | .null => .literal .null
  | .bool b => .literal (.bool b)
  | .string s => .literal (.string s)

def itemsOfJson : List Json → List Item
  | [] => []
  | v :: rest => .one (.ofJson v) :: itemsOfJson rest

def entriesOfJson : Fields → List Entry
  | [] => []
  | (k, v) :: rest => .field k (.ofJson v) :: entriesOfJson rest

end

theorem derives_literal {k : Token.Kind} {v : Json} (h : Literal k v) :
    Derives (.operand 0) [k] (.literal v) :=
  .chain (.primary (.literal h))

mutual

theorem derives_tokens : ∀ v : Json, Derives (.operand 0) (tokens v) (.ofJson v)
  | .array items => by
    rw [tokens, Expr.ofJson]
    exact .chain (.primary (.array (derives_itemTokens items)))
  | .object fields => by
    rw [tokens, Expr.ofJson]
    exact .chain (.primary (.object (derives_fieldTokens fields)))
  | .number n => by
    rw [tokens, Expr.ofJson]
    have hliteral := derives_literal (.number n.magnitude)
    split
    next => exact .unary .minus hliteral
    next => exact hliteral
  | .null => by
    rw [tokens, Expr.ofJson]
    exact derives_literal .nullWord
  | .bool true => by
    rw [tokens, Expr.ofJson]
    exact derives_literal .trueWord
  | .bool false => by
    rw [tokens, Expr.ofJson]
    exact derives_literal .falseWord
  | .string s => by
    rw [tokens, Expr.ofJson]
    exact derives_literal (.text s)

theorem derives_itemTokens : ∀ items : List Json,
    Derives (.elements .item) (itemTokens [] items) (itemsOfJson items)
  | [] => by
    rw [itemTokens, itemsOfJson]
    exact .empty
  | [v] => by
    have h : Derives (.element .item) (tokens v) (.one (.ofJson v)) :=
      .item (derives_tokens v).expression
    simpa [itemTokens, itemsOfJson] using Derives.last h
  | v :: w :: rest => by
    have h : Derives (.element .item) (tokens v) (.one (.ofJson v)) :=
      .item (derives_tokens v).expression
    simpa [itemTokens, itemsOfJson] using Derives.more h (derives_itemTokens (w :: rest))

theorem derives_fieldTokens : ∀ fields : Fields,
    Derives (.elements .entry) (fieldTokens [] fields) (entriesOfJson fields)
  | [] => by
    rw [fieldTokens, entriesOfJson]
    exact .empty
  | [(k, v)] => by
    have h : Derives (.element .entry) (.text k :: .sign .colon :: tokens v)
      (.field k (.ofJson v)) := .field (.text k) (derives_tokens v).expression
    simpa [fieldTokens, entriesOfJson] using Derives.last h
  | (k, v) :: field :: rest => by
    have h : Derives (.element .entry) (.text k :: .sign .colon :: tokens v)
      (.field k (.ofJson v)) := .field (.text k) (derives_tokens v).expression
    simpa [fieldTokens, entriesOfJson] using Derives.more h (derives_fieldTokens (field :: rest))

end

mutual

theorem closed_ofJson (names : List String) : ∀ v : Json, (Expr.ofJson v).Closed names
  | .array items => by
    rw [Expr.ofJson]
    exact .of_operands trivial rfl (closed_itemsOfJson names items)
  | .object fields => by
    rw [Expr.ofJson]
    exact .of_operands trivial rfl (closed_entriesOfJson names fields)
  | .number n => by
    have hliteral : (Expr.literal (ofFloat n.magnitude)).Closed names :=
      .of_operands trivial rfl nofun
    rw [Expr.ofJson]
    split
    next =>
      refine .of_operands trivial rfl fun o ho => ?_
      rwa [List.mem_singleton.mp ho]
    next => exact hliteral
  | .null | .bool _ | .string _ => by
    rw [Expr.ofJson]
    exact .of_operands trivial rfl nofun

theorem closed_itemsOfJson (names : List String) : ∀ items : List Json,
    ∀ o ∈ (itemsOfJson items).map Item.expr, o.Closed names
  | [] => nofun
  | v :: rest => by
    rw [itemsOfJson, List.map_cons, List.forall_mem_cons]
    exact ⟨closed_ofJson names v, closed_itemsOfJson names rest⟩

theorem closed_entriesOfJson (names : List String) : ∀ fields : Fields,
    ∀ o ∈ (entriesOfJson fields).map Entry.expr, o.Closed names
  | [] => nofun
  | (k, v) :: rest => by
    rw [entriesOfJson, List.map_cons, List.forall_mem_cons]
    exact ⟨closed_ofJson names v, closed_entriesOfJson names rest⟩

end

/-! ## Values -/

/-- What a value comes back as: equal for the language, and of the same shape. -/
structure Echoes (w v : Json) : Prop where
  looselyEqual : looseEq w v = true
  sameShape : w.skeleton = v.skeleton

theorem echoes_number {w n : Number} (h : Decimal.Alike w.toFloat.toModel.unpack
    n.toFloat.toModel.unpack) : Echoes (.number w) (.number n) :=
  ⟨by rw [looseEq]; exact h.beq, rfl⟩

theorem evaluate_number {n : Number} (hn : n.WellFormed) :
    ∃ w, Echoes w (.number n) ∧
      ∀ fetch env, evaluate fetch env (.ofJson (.number n)) = pure w := by
  have hfinite := Number.isFinite_magnitude hn
  obtain ⟨m, hm, halike⟩ := exists_ofFloat_eq hfinite
  have hmagnitude := Number.magnitude_alike hn
  rw [Expr.ofJson, hm]
  split at hmagnitude
  next hminus =>
    rw [if_pos hminus]
    have hneg : (-m.toFloat).toModel.unpack = m.toFloat.toModel.unpack.neg :=
      Decimal.unpack_neg halike.isFinite
    have hnegFinite : (-m.toFloat).toModel.unpack.isFinite = true := by
      rw [hneg]
      exact (halike.neg.trans hmagnitude).isFinite
    obtain ⟨w, hw, hwalike⟩ := exists_ofFloat_eq hnegFinite
    rw [hneg] at hwalike
    refine ⟨.number w, echoes_number (hwalike.trans (halike.neg.trans hmagnitude)), ?_⟩
    intro fetch env
    rw [evaluate, evaluate, pure_bind, UnaryOp.apply, toNumber?]
    dsimp only
    rw [hw]
    rfl
  next hminus =>
    rw [if_neg hminus]
    refine ⟨.number m, echoes_number (halike.trans hmagnitude), ?_⟩
    intro fetch env
    rw [evaluate]

mutual

theorem evaluate_ofJson : ∀ v : Json, v.WellFormed →
    ∃ w, Echoes w v ∧ ∀ fetch env, evaluate fetch env (.ofJson v) = pure w
  | .null, _ => ⟨.null, ⟨rfl, rfl⟩, fun _ _ => by rw [Expr.ofJson, evaluate]⟩
  | .bool b, _ => ⟨.bool b, ⟨by rw [looseEq, beq_self_eq_true], rfl⟩,
      fun _ _ => by rw [Expr.ofJson, evaluate]⟩
  | .string s, _ => ⟨.string s, ⟨by rw [looseEq, beq_self_eq_true], rfl⟩,
      fun _ _ => by rw [Expr.ofJson, evaluate]⟩
  | .number n, hn => evaluate_number hn
  | .array items, h => by
    obtain ⟨ws, hequal, hshape, heval⟩ := evaluateItems_ofJson items h
    refine ⟨.array ws, ⟨?_, ?_⟩, fun fetch env => ?_⟩
    · rwa [looseEq]
    · rw [Json.skeleton, Json.skeleton, hshape]
    · rw [Expr.ofJson, evaluate, heval, pure_bind]
  | .object fields, h => by
    obtain ⟨hdistinct, hfields⟩ := h
    obtain ⟨ws, hequal, hshape, heval⟩ := evaluateEntries_ofJson fields hfields
    have hlength : ws.length = fields.length := by
      rw [← length_skeletonFields ws, hshape, length_skeletonFields]
    refine ⟨.object ws, ⟨?_, ?_⟩, fun fetch env => ?_⟩
    · rw [looseEq, hlength, beq_self_eq_true, Bool.true_and]
      exact hequal fields fun _ hmember => Fields.get?_of_mem hdistinct hmember
    · rw [Json.skeleton, Json.skeleton, hshape]
    · rw [Expr.ofJson, evaluate, heval fetch env [] hdistinct, pure_bind, List.nil_append]

theorem evaluateItems_ofJson : ∀ items : List Json, itemsWellFormed items →
    ∃ ws, looseEqItems ws items = true ∧ skeletonItems ws = skeletonItems items ∧
      ∀ fetch env, evaluateItems fetch env (itemsOfJson items) = pure ws
  | [], _ => ⟨[], rfl, rfl, fun _ _ => by rw [itemsOfJson, evaluateItems]⟩
  | v :: rest, h => by
    obtain ⟨hv, hrest⟩ := h
    obtain ⟨w, hw, heval⟩ := evaluate_ofJson v hv
    obtain ⟨ws, hequal, hshape, hevals⟩ := evaluateItems_ofJson rest hrest
    refine ⟨w :: ws, ?_, ?_, fun fetch env => ?_⟩
    · rw [looseEqItems, hw.looselyEqual, hequal, Bool.and_self]
    · rw [skeletonItems, skeletonItems, hw.sameShape, hshape]
    · rw [itemsOfJson, evaluateItems, heval, pure_bind, hevals, pure_bind]

/-- The members are written one after another behind those before, as no key comes twice. -/
theorem evaluateEntries_ofJson : ∀ fields : Fields, fieldsWellFormed fields →
    ∃ ws, (∀ gs, (∀ member ∈ fields, Fields.get? gs member.1 = some member.2) →
        looseEqFields ws gs = true) ∧
      skeletonFields ws = skeletonFields fields ∧
      ∀ fetch env before, (Fields.keys before ++ Fields.keys fields).Nodup →
        evaluateEntries fetch env before (entriesOfJson fields) = pure (before ++ ws)
  | [], _ => by
    refine ⟨[], fun _ _ => rfl, rfl, fun fetch env before _ => ?_⟩
    rw [entriesOfJson, evaluateEntries, List.append_nil]
  | (k, v) :: rest, h => by
    obtain ⟨hv, hrest⟩ := h
    obtain ⟨w, hw, heval⟩ := evaluate_ofJson v hv
    obtain ⟨ws, hequal, hshape, hevals⟩ := evaluateEntries_ofJson rest hrest
    refine ⟨(k, w) :: ws, fun gs hgs => ?_, ?_, fun fetch env before hdistinct => ?_⟩
    · rw [List.forall_mem_cons] at hgs
      rw [looseEqFields, hgs.1, hequal gs hgs.2, Bool.and_true]
      exact hw.looselyEqual
    · rw [skeletonFields, skeletonFields, hw.sameShape, hshape]
    · have hnew : k ∉ Fields.keys before := by
        intro hmem
        exact (List.nodup_append.mp hdistinct).2.2 k hmem k (by simp [Fields.keys]) rfl
      have hdistinct' : (Fields.keys (before ++ [(k, w)]) ++ Fields.keys rest).Nodup := by
        rwa [Fields.keys_append, List.append_assoc]
      rw [entriesOfJson, evaluateEntries, heval, pure_bind, Fields.insert_of_not_mem w hnew,
        hevals fetch env _ hdistinct', List.append_assoc, List.singleton_append]

end

/-! ## Functions -/

/-- The source of a function that gives a value, whatever it is called with. -/
def jsonSource (v : Json) : String := "() => (" ++ v.compact ++ ")"

def jsonFunction (v : Json) : Function := ⟨[], [], .ofJson v⟩

def jsonSourceTokens (v : Json) : Kinds :=
  .sign .openParen :: .sign .closeParen :: .sign .arrow :: .sign .openParen ::
    (tokens v ++ [.sign .closeParen])

theorem toList_jsonSource (v : Json) : (jsonSource v).toList =
    '(' :: ')' :: ' ' :: (['=', '>'] ++ (' ' :: '(' :: (v.chars ++ [')']))) := by
  rw [jsonSource, String.toList_append, String.toList_append, Json.toList_compact]
  rfl

theorem lexesAs_jsonSource (v : Json) :
    LexesAs (Readable v) (jsonSource v).toList (jsonSourceTokens v) := by
  have hclose : LexesAs True [')'] [.sign .closeParen] := lexesAs_nil.cons fun _ _ => rfl
  have harrow : LexesAs True ['=', '>'] [.sign .arrow] :=
    lexesAs_token (fun _ _ _ _ => rfl) (fun h => absurd trivial h)
  have hvalue := (lexesAs_chars v).append hclose fun _ _ => ends_cons rfl (by decide)
  have hbody := (hvalue.cons (s := .openParen) (c := '(') fun _ _ => rfl).gap (c := ' ')
    fun _ _ => rfl
  have harrowBody := harrow.append hbody fun _ _ => ends_cons rfl (by decide)
  have hsource := ((harrowBody.gap (c := ' ') fun _ _ => rfl).cons (s := .closeParen) (c := ')')
    fun _ _ => rfl).cons (s := .openParen) (c := '(') fun _ _ => rfl
  rw [toList_jsonSource]
  refine hsource.of_iff ?_
  simp only [true_and, and_true]

theorem isPreset_jsonSource (v : Json) : IsPreset (jsonSourceTokens v) (jsonFunction v) := by
  have hbody : Derives .expression (.sign .openParen :: (tokens v ++ [.sign .closeParen]))
      (.ofJson v) :=
    Derives.expression (.chain (.primary (.parenthesized (derives_tokens v).expression)))
  have h := IsFunction.arrow (.params .none) (by decide) hbody (fun h => nomatch h)
  exact ⟨_, [], (List.append_nil _).symm, h, .inl rfl⟩

theorem closed_jsonFunction (v : Json) : (jsonFunction v).Closed where
  paramCount := Nat.zero_le 2
  distinct := List.nodup_nil
  bindings := fun before x e after h => by cases before <;> cases h
  result := closed_ofJson _ v

theorem trim_jsonSource (v : Json) : Text.trim (jsonSource v) = jsonSource v := by
  have hends (cs : List Char) : Text.trimmed ('(' :: (cs ++ [')'])) = '(' :: (cs ++ [')']) := by
    have hopen : Text.isBlank '(' = false := rfl
    have hclose : Text.isBlank ')' = false := rfl
    rw [Text.trimmed, List.dropWhile_cons_of_neg (by rw [hopen]; decide), List.reverse_cons,
      List.reverse_append, List.reverse_singleton, List.singleton_append, List.cons_append,
      List.dropWhile_cons_of_neg (by rw [hclose]; decide)]
    simp
  have hchars : (jsonSource v).toList =
      '(' :: (')' :: ' ' :: (['=', '>'] ++ (' ' :: '(' :: v.chars)) ++ [')']) := by
    rw [toList_jsonSource]
    simp
  rw [Text.trim, hchars, hends, ← hchars, String.ofList_toList]

theorem parse_jsonSource {v : Json} (hv : Readable v) :
    parse (jsonSource v) = .ok (jsonFunction v) := by
  obtain ⟨ts, stop, hkinds, hlex⟩ := (lexesAs_jsonSource v 0 [] ends_nil).1 hv
  rw [List.append_nil] at hlex
  have hlex' : lex (jsonSource v) = .ok ts := by
    rw [lex, hlex, lexFrom]
    simp [Except.map]
  rw [parse, hlex', ok_bind]
  exact parseTokens_complete (hkinds ▸ isPreset_jsonSource v)

theorem parse_jsonSource_error {v : Json} (hv : ¬ Readable v) :
    ∃ e, parse (jsonSource v) = .error e := by
  obtain ⟨e, he⟩ := (lexesAs_jsonSource v 0 [] ends_nil).2 hv
  rw [List.append_nil] at he
  exact ⟨e, by rw [parse, lex, he]; rfl⟩

theorem call_jsonFunction {v : Json} (hv : v.WellFormed) {p : Program}
    (h : bind (jsonFunction v) = .ok p) : ∃ w, Echoes w v ∧
      ∀ fetch args, p.call fetch args = .ok w := by
  obtain ⟨w, hw, heval⟩ := evaluate_ofJson v hv
  refine ⟨w, hw, fun fetch args => ?_⟩
  have hmeaning : ((jsonFunction v).meaning fetch args).1 = .ok w := by
    rw [Function.meaning, Function.body, jsonFunction, evaluateBindings, pure_bind, heval]
    rfl
  have hsame := (run_sameOutcome h fetch args).1
  rw [hmeaning] at hsame
  exact hsame.unique (.ok rfl)

/-- The text of a value as the body of a function compiles exactly if no text in the value has a
backspace or a form feed, and then the function gives the value back, whatever it is called with. -/
theorem compile_jsonSource {v : Json} (hv : v.WellFormed) :
    ((∃ p, compile (jsonSource v) = .ok p) ↔ Readable v) ∧
    ∀ p, compile (jsonSource v) = .ok p → ∃ w, looseEq w v = true ∧ w.skeleton = v.skeleton ∧
      ∀ fetch args, p.call fetch args = .ok w := by
  by_cases hreadable : Readable v
  · obtain ⟨p, hp⟩ := (closed_jsonFunction v).binds
    have hcompile : compile (jsonSource v) = .ok p := by
      rw [compile, trim_jsonSource, parse_jsonSource hreadable]
      change (bind (jsonFunction v)).mapError CompileError.binding = .ok p
      rw [hp]
      rfl
    refine ⟨⟨fun _ => hreadable, fun _ => ⟨p, hcompile⟩⟩, fun p' hp' => ?_⟩
    obtain rfl : p = p' := Except.ok.inj (hcompile.symm.trans hp')
    obtain ⟨w, hw, hcall⟩ := call_jsonFunction hv hp
    exact ⟨w, hw.looselyEqual, hw.sameShape, hcall⟩
  · obtain ⟨e, he⟩ := parse_jsonSource_error hreadable
    have hcompile : compile (jsonSource v) = .error (.parsing e) := by
      rw [compile, trim_jsonSource, he]
      rfl
    rw [hcompile]
    exact ⟨⟨fun ⟨_, h⟩ => (nomatch h), fun h => absurd h hreadable⟩, nofun⟩

/-- An object whose keys are not in the order of the alphabet. -/
def nested : Json :=
  .object [("b", .number (.int (-5))), ("a", .array [.null, .string "\t\"", .bool true])]

theorem compile_jsonSource_nested : nested.WellFormed ∧ Json.WellFormed (.string "\x08") ∧
    (∃ p, compile (jsonSource nested) = .ok p ∧ ∃ w, looseEq w nested = true ∧
      w.skeleton = .object [("b", .null), ("a", .array [.null, .null, .null])] ∧
      ∀ fetch args, p.call fetch args = .ok w) ∧
    ¬ ∃ p, compile (jsonSource (.string "\x08")) = .ok p := by
  have hnested : nested.WellFormed := by simp [nested, Fields.keys, count64]
  have hreadable : Readable nested := by
    simp [nested, Readable, FieldsReadable, ItemsReadable, ReadableText]
  have hcompile := compile_jsonSource hnested
  obtain ⟨p, hp⟩ := hcompile.1.mpr hreadable
  have hbackspace : Json.WellFormed (.string "\x08") := trivial
  refine ⟨hnested, hbackspace, ⟨p, hp, hcompile.2 p hp⟩, fun h => ?_⟩
  exact ((compile_jsonSource hbackspace).1.mp h).1 (by decide)

end Script

end Montage
