import Montage.Proofs.Script.Binding

/-!
# The form of a bound function

What the evaluator relies on and never checks: slots lie within the frame, no two declarations share
one, functions are called with as many arguments as they take, and callbacks stand where `map` and
`filter` take them and nowhere else. Binding makes only functions of this form, since it hands out
slots one after another: the slots that a function declares are, in the order of the declarations,
the numbers below the size of its frame.
-/

namespace Montage.Script

/-! ## Form -/

def CodeItem.code : CodeItem → Code
  | .one e | .spread e => e

def CodeEntry.code : CodeEntry → Code
  | .field _ e | .spread e => e

/-- An expression that can be run on a frame of the given size: it reads and writes slots of the
frame only, every call has a number of arguments that the function takes, and a callback has one or
two parameters and is the second argument of `map` or `filter`. -/
inductive Code.Fits (size : Nat) : Code → Prop
  | literal (v : Json) : Fits size (.literal v)
  | slot {n : Nat} (h : n < size) : Fits size (.slot n)
  | array {items : List CodeItem} (h : ∀ item ∈ items, Fits size item.code) :
    Fits size (.array items)
  | object {entries : List CodeEntry} (h : ∀ entry ∈ entries, Fits size entry.code) :
    Fits size (.object entries)
  | member {base : Code} (h : Fits size base) (name : String) (isOptional : Bool) :
    Fits size (.member base name isOptional)
  | index {base index : Code} (hbase : Fits size base) (hindex : Fits size index) :
    Fits size (.index base index)
  | unary (op : UnaryOp) {e : Code} (h : Fits size e) : Fits size (.unary op e)
  | binary (op : BinaryOp) {left right : Code} (hleft : Fits size left)
    (hright : Fits size right) : Fits size (.binary op left right)
  | ternary {condition yes no : Code} (hcondition : Fits size condition) (hyes : Fits size yes)
    (hno : Fits size no) : Fits size (.ternary condition yes no)
  | call {b : Builtin} {args : List Code} (hplain : b.takesCallback = false)
    (hcount : b.takes args.length = true) (h : ∀ e ∈ args, Fits size e) : Fits size (.call b args)
  | callback {b : Builtin} {list body : Code} {slots : List Nat} (hcallback : b.takesCallback = true)
    (hcount : b.takes 2 = true) (hlist : Fits size list)
    (hparams : slots.length = 1 ∨ slots.length = 2) (hslots : ∀ n ∈ slots, n < size)
    (hbody : Fits size body) : Fits size (.call b [list, .arrow slots body])

mutual

/-- The slots of the parameters of all callbacks in an expression, from left to right. -/
def Code.declared : Code → List Nat
  | .literal _ | .slot _ => []
  | .array items => declaredItems items
  | .object entries => declaredEntries entries
  | .member base _ _ => base.declared
  | .index base index => base.declared ++ index.declared
  | .unary _ e => e.declared
  | .binary _ left right => left.declared ++ right.declared
  | .ternary condition yes no => condition.declared ++ (yes.declared ++ no.declared)
  | .call _ args => declaredArgs args
  | .arrow slots body => slots ++ body.declared

def declaredArgs : List Code → List Nat
  | [] => []
  | e :: rest => e.declared ++ declaredArgs rest

def declaredItems : List CodeItem → List Nat
  | [] => []
  | .one e :: rest | .spread e :: rest => e.declared ++ declaredItems rest

def declaredEntries : List CodeEntry → List Nat
  | [] => []
  | .field _ e :: rest | .spread e :: rest => e.declared ++ declaredEntries rest

end

/-- The slots of all declarations of a bound function: the parameters, the bindings, each behind the
callbacks in its value, and the callbacks in the result. -/
def Program.declared (p : Program) : List Nat :=
  p.paramSlots ++ (p.bindings.flatMap (fun (slot, e) => e.declared ++ [slot]) ++ p.result.declared)

/-- A bound function as the evaluator expects it. That no name is left in it is in its type. -/
structure Program.WellFormed (p : Program) : Prop where
  distinct : p.declared.Nodup
  below : ∀ n ∈ p.declared, n < p.frameSize
  bindings : ∀ binding ∈ p.bindings, binding.2.Fits p.frameSize
  result : p.result.Fits p.frameSize

/-! ## Slots handed out -/

/-- The slots are the ones from `lo` up to, not including, `hi`, in order. -/
def Allots (lo hi : Nat) (slots : List Nat) : Prop :=
  lo ≤ hi ∧ slots = List.range' lo (hi - lo)

section

variable {lo mid hi : Nat} {xs ys : List Nat}

theorem Allots.nil (lo : Nat) : Allots lo lo [] :=
  ⟨Nat.le_refl lo, by rw [Nat.sub_self]; rfl⟩

theorem Allots.next (lo : Nat) : Allots lo (lo + 1) [lo] :=
  ⟨Nat.le_succ lo, by rw [Nat.add_sub_cancel_left]; rfl⟩

theorem Allots.append (hx : Allots lo mid xs) (hy : Allots mid hi ys) : Allots lo hi (xs ++ ys) := by
  obtain ⟨hlo, rfl⟩ := hx
  obtain ⟨hmid, rfl⟩ := hy
  refine ⟨Nat.le_trans hlo hmid, ?_⟩
  have hstart : mid = lo + (mid - lo) := by omega
  have hcount : hi - lo = (mid - lo) + (hi - mid) := by omega
  rw [hcount, ← List.range'_append_1, ← hstart]

theorem Allots.lt (h : Allots lo hi xs) {n : Nat} (hn : n ∈ xs) : n < hi := by
  obtain ⟨hle, rfl⟩ := h
  have := List.mem_range'_1.mp hn
  omega

theorem Allots.nodup (h : Allots lo hi xs) : xs.Nodup := by
  rw [h.2]
  exact List.nodup_range'

end

def Scope.Below (scope : Scope) (n : Nat) : Prop :=
  ∀ x slot, Fields.get? scope x = some slot → slot < n

theorem Scope.Below.mono {scope : Scope} {m n : Nat} (h : scope.Below m) (hle : m ≤ n) :
    scope.Below n :=
  fun x slot hx => Nat.lt_of_lt_of_le (h x slot hx) hle

theorem Scope.Below.cons {scope : Scope} {n : Nat} (h : scope.Below n) (x : String) :
    Scope.Below ((x, n) :: scope) (n + 1) := by
  intro y slot hy
  rw [Fields.get?] at hy
  split at hy
  · cases hy
    exact Nat.lt_succ_self n
  · exact Nat.lt_succ_of_lt (h y slot hy)

theorem declareAll_allots {names : List String} :
    ∀ {inner inner' scope : Scope} {lo hi : Nat} {slots : List Nat},
      (declareAll inner names).run lo = .ok ((slots, inner'), hi) →
      Scope.Below (inner ++ scope) lo →
      Allots lo hi slots ∧ slots.length = names.length ∧ Scope.Below (inner' ++ scope) hi := by
  induction names with
  | nil =>
    intro inner inner' scope lo hi slots h hscope
    cases h
    exact ⟨.nil lo, rfl, hscope⟩
  | cons x names ih =>
    intro inner inner' scope lo hi slots h hscope
    obtain ⟨_, mid, hx, h⟩ := bind_binds h
    obtain ⟨rfl, rfl⟩ := declare_binds hx
    obtain ⟨⟨rest, _⟩, _, hrest, h⟩ := bind_binds h
    cases h
    obtain ⟨hslots, hlen, hscope'⟩ := ih hrest (hscope.cons x)
    exact ⟨(Allots.next lo).append hslots, congrArg (· + 1) hlen, hscope'⟩

/-! ## What binding makes of expressions -/

/-- Expressions one behind the other declare the slots from `lo` to `hi`, and all of them fit a frame
that has these. -/
structure Parts (lo hi : Nat) (cs : List Code) : Prop where
  allots : Allots lo hi (cs.flatMap Code.declared)
  fits : ∀ ⦃size⦄, hi ≤ size → ∀ c ∈ cs, c.Fits size

namespace Parts

variable {lo mid hi : Nat} {c : Code} {cs : List Code}

theorem nil (lo : Nat) : Parts lo lo [] := ⟨.nil lo, fun _ _ => nofun⟩

theorem cons (h : Parts lo mid [c]) (hrest : Parts mid hi cs) : Parts lo hi (c :: cs) := by
  have hc : Allots lo mid c.declared := by
    have := h.allots
    rwa [List.flatMap_singleton] at this
  refine ⟨?_, fun size hle => ?_⟩
  · rw [List.flatMap_cons]
    exact hc.append hrest.allots
  · rw [List.forall_mem_cons]
    have hmid : mid ≤ size := Nat.le_trans hrest.allots.1 hle
    exact ⟨h.fits hmid c (List.mem_singleton_self c), hrest.fits hle⟩

theorem le (h : Parts lo hi cs) : lo ≤ hi := h.allots.1

theorem whole (h : Parts lo hi cs) (hdeclared : c.declared = cs.flatMap Code.declared)
    (hfits : ∀ {size}, (∀ part ∈ cs, part.Fits size) → c.Fits size) : Parts lo hi [c] := by
  refine ⟨?_, fun size hle => ?_⟩
  · rw [List.flatMap_singleton, hdeclared]
    exact h.allots
  · rw [List.forall_mem_singleton]
    exact hfits (h.fits hle)

end Parts

theorem declaredArgs_eq (cs : List Code) : declaredArgs cs = cs.flatMap Code.declared := by
  induction cs with
  | nil => rfl
  | cons c cs ih => rw [declaredArgs, ih, List.flatMap_cons]

theorem declaredItems_eq (items : List CodeItem) :
    declaredItems items = (items.map CodeItem.code).flatMap Code.declared := by
  induction items with
  | nil => rfl
  | cons item items ih =>
    cases item <;> rw [declaredItems, ih, List.map_cons, List.flatMap_cons] <;> rfl

theorem declaredEntries_eq (entries : List CodeEntry) :
    declaredEntries entries = (entries.map CodeEntry.code).flatMap Code.declared := by
  induction entries with
  | nil => rfl
  | cons entry entries ih =>
    cases entry <;> rw [declaredEntries, ih, List.map_cons, List.flatMap_cons] <;> rfl

theorem bindArgs_length {scope : Scope} {args : List Expr} :
    ∀ {lo hi : Nat} {cs : List Code}, (bindArgs scope args).run lo = .ok (cs, hi) →
      cs.length = args.length := by
  induction args with
  | nil =>
    intro lo hi cs h
    cases h
    rfl
  | cons e args ih =>
    intro lo hi cs h
    obtain ⟨c, _, _, h⟩ := bind_binds h
    obtain ⟨cs, _, hargs, h⟩ := bind_binds h
    cases h
    exact congrArg (· + 1) (ih hargs)

theorem callback_parts {b : Builtin} {lo mid mid' hi : Nat} {list body : Code} {slots : List Nat}
    (hb : b.takesCallback = true) (hcount : b.takes 2 = true) (hlist : Parts lo mid [list])
    (hslots : Allots mid mid' slots) (hparams : slots.length = 1 ∨ slots.length = 2)
    (hbody : Parts mid' hi [body]) : Parts lo hi [.call b [list, .arrow slots body]] := by
  have hl := hlist.allots
  have hr := hbody.allots
  rw [List.flatMap_singleton] at hl hr
  refine ⟨?_, fun size hle => ?_⟩
  · rw [List.flatMap_singleton, Code.declared, declaredArgs, declaredArgs, declaredArgs,
      List.append_nil, Code.declared]
    exact hl.append (hslots.append hr)
  · rw [List.forall_mem_singleton]
    have hmid : mid ≤ size := Nat.le_trans (Nat.le_trans hslots.1 hbody.le) hle
    refine .callback hb hcount (hlist.fits hmid list (List.mem_singleton_self list)) hparams ?_
      (hbody.fits hle body (List.mem_singleton_self body))
    intro n hn
    exact Nat.lt_of_lt_of_le (hslots.lt hn) (Nat.le_trans hbody.le hle)

mutual

theorem bindExpr_parts :
    ∀ {e : Expr} {scope : Scope} {lo hi : Nat} {c : Code},
      (bindExpr scope e).run lo = .ok (c, hi) → scope.Below lo → Parts lo hi [c]
  | .literal v, _, lo, _, _, h, _ => by
    cases h
    exact (Parts.nil lo).whole rfl fun _ => .literal v
  | .name x, scope, lo, _, _, h, hscope => by
    rw [bindExpr] at h
    split at h
    next slot hx =>
      cases h
      refine ⟨.nil lo, fun size hle => ?_⟩
      rw [List.forall_mem_singleton]
      exact .slot (Nat.lt_of_lt_of_le (hscope x slot hx) hle)
    next => cases h
  | .array items, _, _, _, _, h, hscope => by
    obtain ⟨cs, _, hitems, h⟩ := bind_binds h
    cases h
    refine (bindItems_parts hitems hscope).whole (declaredItems_eq cs) fun hfits => .array ?_
    rwa [List.forall_mem_map] at hfits
  | .object entries, _, _, _, _, h, hscope => by
    obtain ⟨cs, _, hentries, h⟩ := bind_binds h
    cases h
    refine (bindEntries_parts hentries hscope).whole (declaredEntries_eq cs) fun hfits => .object ?_
    rwa [List.forall_mem_map] at hfits
  | .member base name isOptional, _, _, _, _, h, hscope => by
    obtain ⟨c, _, hbase, h⟩ := bind_binds h
    cases h
    refine (bindExpr_parts hbase hscope).whole (List.flatMap_singleton ..).symm fun hfits => ?_
    exact .member (List.forall_mem_singleton.mp hfits) name isOptional
  | .index base index, _, _, _, _, h, hscope => by
    obtain ⟨cb, mid, hbase, h⟩ := bind_binds h
    obtain ⟨ci, _, hindex, h⟩ := bind_binds h
    cases h
    have hb := bindExpr_parts hbase hscope
    have hi := bindExpr_parts hindex (hscope.mono hb.le)
    refine (hb.cons hi).whole (by simp [Code.declared]) fun hfits => ?_
    exact .index (hfits _ (by simp)) (hfits _ (by simp))
  | .unary op e, _, _, _, _, h, hscope => by
    obtain ⟨c, _, he, h⟩ := bind_binds h
    cases h
    refine (bindExpr_parts he hscope).whole (List.flatMap_singleton ..).symm fun hfits => ?_
    exact .unary op (List.forall_mem_singleton.mp hfits)
  | .binary op left right, _, _, _, _, h, hscope => by
    obtain ⟨cl, mid, hleft, h⟩ := bind_binds h
    obtain ⟨cr, _, hright, h⟩ := bind_binds h
    cases h
    have hl := bindExpr_parts hleft hscope
    have hr := bindExpr_parts hright (hscope.mono hl.le)
    refine (hl.cons hr).whole (by simp [Code.declared]) fun hfits => ?_
    exact .binary op (hfits _ (by simp)) (hfits _ (by simp))
  | .ternary condition yes no, _, _, _, _, h, hscope => by
    obtain ⟨cc, mid, hcondition, h⟩ := bind_binds h
    obtain ⟨cy, mid', hyes, h⟩ := bind_binds h
    obtain ⟨cn, _, hno, h⟩ := bind_binds h
    cases h
    have hc := bindExpr_parts hcondition hscope
    have hy := bindExpr_parts hyes (hscope.mono hc.le)
    have hn := bindExpr_parts hno (hscope.mono (Nat.le_trans hc.le hy.le))
    refine (hc.cons (hy.cons hn)).whole (by simp [Code.declared]) fun hfits => ?_
    exact .ternary (hfits _ (by simp)) (hfits _ (by simp)) (hfits _ (by simp))
  | .call function args, scope, lo, hi, c, h, hscope => by
    obtain ⟨b, cs, hb, hcount, rfl, hargs⟩ := call_binds h
    split at hargs
    next hcallback => exact bindCallbackArgs_parts hcallback hcount hargs hscope
    next hplain =>
      refine (bindArgs_parts hargs hscope).whole (declaredArgs_eq cs) fun hfits => ?_
      rw [← bindArgs_length hargs] at hcount
      exact .call (Bool.not_eq_true _ ▸ hplain) hcount hfits
  | .arrow _ _, _, _, _, _, h, _ => by
    cases h

theorem bindArgs_parts :
    ∀ {args : List Expr} {scope : Scope} {lo hi : Nat} {cs : List Code},
      (bindArgs scope args).run lo = .ok (cs, hi) → scope.Below lo → Parts lo hi cs
  | [], _, lo, _, _, h, _ => by
    cases h
    exact .nil lo
  | e :: args, _, _, _, _, h, hscope => by
    obtain ⟨c, _, he, h⟩ := bind_binds h
    obtain ⟨cs, _, hargs, h⟩ := bind_binds h
    cases h
    have hc := bindExpr_parts he hscope
    exact hc.cons (bindArgs_parts hargs (hscope.mono hc.le))

theorem bindCallbackArgs_parts :
    ∀ {args : List Expr} {scope : Scope} {b : Builtin} {lo hi : Nat} {cs : List Code},
      b.takesCallback = true → b.takes args.length = true →
      (bindCallbackArgs scope b args).run lo = .ok (cs, hi) → scope.Below lo →
      Parts lo hi [.call b cs]
  | list :: callback :: rest, scope, b, _, _, _, hb, hcount, h, hscope => by
    obtain ⟨_, params, _, codeList, slots, codeBody, inner, mid, mid', heq, rfl, hparams, hlist,
      hdeclare, hbody⟩ := callbackArgs_bind hb hcount h
    cases callback with
    | arrow params body =>
      cases heq
      have hl := bindExpr_parts hlist hscope
      have hscope' : Scope.Below ([] ++ scope) mid := hscope.mono hl.le
      obtain ⟨hslots, hlen, hinner⟩ := declareAll_allots hdeclare hscope'
      rw [← hlen] at hparams
      exact callback_parts hb hcount hl hslots hparams (bindExpr_parts hbody hinner)
    | _ => cases heq
  | [], _, _, _, _, _, hb, hcount, h, _ => by
    obtain ⟨_, _, _, _, _, _, _, _, _, heq, _⟩ := callbackArgs_bind hb hcount h
    cases heq
  | [list], _, _, _, _, _, hb, hcount, h, _ => by
    obtain ⟨_, _, _, _, _, _, _, _, _, heq, _⟩ := callbackArgs_bind hb hcount h
    cases heq

theorem bindItems_parts :
    ∀ {items : List Item} {scope : Scope} {lo hi : Nat} {cs : List CodeItem},
      (bindItems scope items).run lo = .ok (cs, hi) → scope.Below lo →
      Parts lo hi (cs.map CodeItem.code)
  | [], _, lo, _, _, h, _ => by
    cases h
    exact .nil lo
  | .one e :: items, _, _, _, _, h, hscope | .spread e :: items, _, _, _, _, h, hscope => by
    obtain ⟨c, _, he, h⟩ := bind_binds h
    obtain ⟨cs, _, hitems, h⟩ := bind_binds h
    cases h
    have hc := bindExpr_parts he hscope
    exact hc.cons (bindItems_parts hitems (hscope.mono hc.le))

theorem bindEntries_parts :
    ∀ {entries : List Entry} {scope : Scope} {lo hi : Nat} {cs : List CodeEntry},
      (bindEntries scope entries).run lo = .ok (cs, hi) → scope.Below lo →
      Parts lo hi (cs.map CodeEntry.code)
  | [], _, lo, _, _, h, _ => by
    cases h
    exact .nil lo
  | .field _ e :: entries, _, _, _, _, h, hscope | .spread e :: entries, _, _, _, _, h, hscope => by
    obtain ⟨c, _, he, h⟩ := bind_binds h
    obtain ⟨cs, _, hentries, h⟩ := bind_binds h
    cases h
    have hc := bindExpr_parts he hscope
    exact hc.cons (bindEntries_parts hentries (hscope.mono hc.le))

end

/-! ## Functions -/

theorem bindBindings_parts {bindings : List (String × Expr)} :
    ∀ {scope scope' : Scope} {lo hi : Nat} {cs : List (Nat × Code)},
      (bindBindings scope bindings).run lo = .ok ((cs, scope'), hi) → scope.Below lo →
      Allots lo hi (cs.flatMap fun (slot, e) => e.declared ++ [slot]) ∧ scope'.Below hi ∧
        ∀ ⦃size⦄, hi ≤ size → ∀ binding ∈ cs, binding.2.Fits size := by
  induction bindings with
  | nil =>
    intro scope scope' lo hi cs h hscope
    cases h
    exact ⟨.nil lo, hscope, fun _ _ => nofun⟩
  | cons binding bindings ih =>
    obtain ⟨name, e⟩ := binding
    intro scope scope' lo hi cs h hscope
    obtain ⟨c, mid, he, h⟩ := bind_binds h
    obtain ⟨_, _, hname, h⟩ := bind_binds h
    obtain ⟨rfl, rfl⟩ := declare_binds hname
    obtain ⟨⟨cs, _⟩, _, hrest, h⟩ := bind_binds h
    cases h
    have hc := bindExpr_parts he hscope
    obtain ⟨hslots, hscope', hfits⟩ := ih hrest ((hscope.mono hc.le).cons name)
    have hvalue := hc.allots
    rw [List.flatMap_singleton] at hvalue
    refine ⟨?_, hscope', fun size hle => ?_⟩
    · rw [List.flatMap_cons]
      exact (hvalue.append (.next mid)).append hslots
    · rw [List.forall_mem_cons]
      have hmid : mid ≤ size := Nat.le_trans (Nat.le_of_succ_le hslots.1) hle
      exact ⟨hc.fits hmid c (List.mem_singleton_self c), hfits hle⟩

theorem declared_of_bind {f : Function} {p : Program} (h : bind f = .ok p) :
    Allots 0 p.frameSize p.declared ∧ (∀ binding ∈ p.bindings, binding.2.Fits p.frameSize) ∧
      p.result.Fits p.frameSize := by
  obtain ⟨mid, mid', scope, scope', hparams, hbindings, hresult⟩ := bind_binds_all h
  have hempty : Scope.Below ([] ++ []) 0 := nofun
  obtain ⟨hslots, _, hscope⟩ := declareAll_allots hparams hempty
  rw [List.append_nil] at hscope
  obtain ⟨hlets, hscope', hfits⟩ := bindBindings_parts hbindings hscope
  have hr := bindExpr_parts hresult hscope'
  have hlast := hr.allots
  rw [List.flatMap_singleton] at hlast
  exact ⟨hslots.append (hlets.append hlast), hfits hr.le,
    hr.fits (Nat.le_refl _) _ (List.mem_singleton_self _)⟩

theorem wellFormed_of_bind {f : Function} {p : Program} (h : bind f = .ok p) : p.WellFormed := by
  obtain ⟨hslots, hbindings, hresult⟩ := declared_of_bind h
  exact ⟨hslots.nodup, fun n hn => hslots.lt hn, hbindings, hresult⟩

end Montage.Script
