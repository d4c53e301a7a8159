import Montage.Proofs.Stateful
import Montage.Script.Eval

/-!
# Optional chains

A chain is an expression with members and indices behind it. Once a part of a chain is `null` behind
a `?.`, all that follows is `null`, whatever it is: this is what a chain with `b?.n` in it means if
`b` is `null`. But the indices that stand in it are evaluated all the same, one after another, and
only then left unused. So such a chain makes the requests of its indices and fails if one of them
fails, and it comes to `null` at once exactly if the indices run without an error and without a
trace.
-/

namespace Montage.Script

open Montage.Stateful

/-! ## Chains -/

/-- A link of a chain: `.name`, `?.name`, or `[index]`. -/
inductive Link
  | member (name : String) (isOptional : Bool)
  | index (e : Code)

def Link.behind (base : Code) : Link → Code
  | member name isOptional => .member base name isOptional
  | index e => .index base e

def Code.chain (base : Code) (links : List Link) : Code := links.foldl Link.behind base

def Link.index? : Link → Option Code
  | member _ _ => none
  | index e => some e

def indices (links : List Link) : List Code := links.filterMap Link.index?

/-- The indices of a chain are evaluated, and the value is `null`. -/
def discardIndices (fetch : Fetcher) (links : List Link) : Run Json := do
  let _ ← evalArgs fetch (indices links)
  return .null

/-! ## Evaluation -/

section
variable {fetch : Fetcher} {base : Code} {m m' : Machine}

theorem discardIndices_nil : exec (discardIndices fetch []) m = (.ok .null, m) := by
  unfold discardIndices indices
  rw [List.filterMap_nil, evalArgs]
  rfl

theorem discardIndices_member (name : String) (isOptional : Bool) (links : List Link) :
    discardIndices fetch (.member name isOptional :: links) = discardIndices fetch links := rfl

theorem discardIndices_index (e : Code) (links : List Link) :
    exec (discardIndices fetch (.index e :: links)) m =
      match exec (eval fetch e) m with
      | (.ok _, m') => exec (discardIndices fetch links) m'
      | (.error err, m') => (.error err, m') := by
  have hindices : indices (.index e :: links) = e :: indices links := rfl
  rw [discardIndices, hindices, evalArgs, bind_assoc, exec_bind]
  rcases exec (eval fetch e) m with ⟨err | v, m'⟩
  · rfl
  · simp only [discardIndices, bind_assoc, pure_bind]

theorem eval_behind_error {err : EvalError} (link : Link)
    (h : exec (eval fetch base) m = (.error err, m')) :
    exec (eval fetch (link.behind base)) m = (.error err, m') := by
  cases link with
  | member name isOptional =>
    rw [Link.behind, eval]
    exact exec_bind_error h
  | index e =>
    rw [Link.behind, eval]
    exact exec_bind_error h

theorem eval_chain_error {err : EvalError} (links : List Link)
    (h : exec (eval fetch base) m = (.error err, m')) :
    exec (eval fetch (base.chain links)) m = (.error err, m') := by
  induction links generalizing base with
  | nil => exact h
  | cons link links ih => exact ih (eval_behind_error link h)

theorem eval_member_null {name : String} {isOptional : Bool}
    (hoptional : (isOptional || base.inOptionalChain) = true)
    (h : exec (eval fetch base) m = (.ok .null, m')) :
    exec (eval fetch (.member base name isOptional)) m = (.ok .null, m') := by
  rw [eval, exec_bind_ok h]
  dsimp only
  rw [if_pos hoptional]
  rfl

theorem eval_index_null (hoptional : base.inOptionalChain = true) (e : Code)
    (h : exec (eval fetch base) m = (.ok .null, m')) :
    exec (eval fetch (.index base e)) m =
      match exec (eval fetch e) m' with
      | (.ok _, m'') => (.ok .null, m'')
      | (.error err, m'') => (.error err, m'') := by
  rw [eval, exec_bind_ok h, exec_bind]
  rcases exec (eval fetch e) m' with ⟨err | i, m''⟩
  · rfl
  · dsimp only
    rw [if_pos hoptional]
    rfl

/-- What is `null` behind a question mark stays `null` along the chain, while its indices are
evaluated. -/
theorem eval_chain_null (links : List Link) (hoptional : base.inOptionalChain = true)
    (h : exec (eval fetch base) m = (.ok .null, m')) :
    exec (eval fetch (base.chain links)) m = exec (discardIndices fetch links) m' := by
  induction links generalizing base m' with
  | nil => rw [discardIndices_nil, ← h]; rfl
  | cons link links ih =>
    cases link with
    | member name isOptional =>
      have hmember : (isOptional || base.inOptionalChain) = true := by
        rw [hoptional, Bool.or_true]
      rw [discardIndices_member]
      exact ih hmember (eval_member_null hmember h)
    | index e =>
      have hindex := eval_index_null hoptional e h
      rw [discardIndices_index]
      rcases hrun : exec (eval fetch e) m' with ⟨err | i, m''⟩
      · rw [hrun] at hindex
        exact eval_chain_error links hindex
      · rw [hrun] at hindex
        exact ih hoptional hindex

/-- **A chain behind `b?.n` where `b` is `null`** evaluates its indices and comes to `null`. So it
comes to `null` at once, without a request or an error, exactly if its indices run without an error
and leave everything as it is. -/
theorem eval_optionalChain (name : String) (links : List Link)
    (h : exec (eval fetch base) m = (.ok .null, m')) :
    exec (eval fetch ((Code.member base name true).chain links)) m =
        exec (do let _ ← evalArgs fetch (indices links); return .null) m' ∧
      (exec (eval fetch ((Code.member base name true).chain links)) m = (.ok .null, m') ↔
        ∃ vs, exec (evalArgs fetch (indices links)) m' = (.ok vs, m')) := by
  have hchain : exec (eval fetch ((Code.member base name true).chain links)) m =
      exec (discardIndices fetch links) m' :=
    eval_chain_null links (Bool.true_or _) (eval_member_null (Bool.true_or _) h)
  refine ⟨hchain, ?_⟩
  rw [hchain, discardIndices, exec_bind]
  rcases exec (evalArgs fetch (indices links)) m' with ⟨err | vs, m''⟩
  · simp
  · constructor
    · intro h
      cases h
      exact ⟨vs, rfl⟩
    · rintro ⟨vs, h⟩
      cases h
      rfl

end

/-- `null?.a[fetch("u")].c` asks the data source, and fails with it. -/
theorem eval_optionalChain_fetch :
    exec (eval .absent (.literal .null)) ⟨[], []⟩ = (.ok .null, ⟨[], []⟩) ∧
    exec (eval .absent (.member (.index (.member (.literal .null) "a" true)
        (.call .fetch [.literal (.string "u")])) "c" false)) ⟨[], []⟩ =
      (.error (.fetchFailed "u" ⟨.fetch, "no fetcher configured for 'u'"⟩),
        ⟨[], [⟨"u", .null⟩]⟩) := by
  have hnull : exec (eval .absent (.literal .null)) ⟨[], []⟩ = (.ok .null, ⟨[], []⟩) := rfl
  have hchain := (eval_optionalChain "a"
    [.index (.call .fetch [.literal (.string "u")]), .member "c" false] hnull).1
  exact ⟨hnull, hchain.trans rfl⟩

end Montage.Script
