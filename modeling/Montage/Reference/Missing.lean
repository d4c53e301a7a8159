import Montage.Reference.Pool
import Montage.Reference.Token

/-!
# Missing references

The keys that a value refers to and the pool does not have.
-/

namespace Montage.Reference

mutual

/-- The keys of the tokens in the texts of a value, from first to last. -/
def keysIn : Json → List String
  | .string s => (scan s).map (·.token.key)
  | .array items => keysInItems items
  | .object fields => keysInFields fields
  | _ => []

def keysInItems : List Json → List String
  | [] => []
  | v :: rest => keysIn v ++ keysInItems rest

def keysInFields : Fields → List String
  | [] => []
  | (_, v) :: rest => keysIn v ++ keysInFields rest

end

/-- The keys that are missing, each where it is first used. -/
def missing (pool : Pool) (v : Json) : List String :=
  ((keysIn v).filter (!pool.contains ·)).eraseDups

end Montage.Reference
