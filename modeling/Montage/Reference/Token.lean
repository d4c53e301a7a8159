import Montage.Text.Blank
import Montage.Text.Octets

/-!
# Tokens in texts

A token points at a value of the pool: the word `data:`, a key in brackets, and then perhaps a range
in brackets of its own. What stands in the brackets holds no bracket and at least one character; a
blank at either end of it does not count.

A text falls apart into pieces, which are tokens and the characters between them. The pieces hold
everything that the text holds, so what is true of a text is said of its pieces.
-/

namespace Montage.Reference

/-- A token, with its key and its range as they are written. -/
structure Token where
  keyText : List Char
  rangeText : Option (List Char)
  deriving DecidableEq, Repr

namespace Token

/-- The key of the value that is meant. -/
def key (t : Token) : String := .ofList (Text.trimmed t.keyText)

/-- The part of the value that is meant. -/
def range (t : Token) : Option String := t.rangeText.map fun cs => .ofList (Text.trimmed cs)

def written (t : Token) : List Char :=
  ['d', 'a', 't', 'a', ':', '['] ++ t.keyText ++ [']'] ++
    match t.rangeText with
    | some cs => ['['] ++ cs ++ [']']
    | none => []

end Token

def isBracket (c : Char) : Bool := c == '[' || c == ']'

/-- What stands in brackets at the start, and what follows. -/
def bracketed? : List Char → Option (List Char × List Char)
  | '[' :: cs =>
    match cs.takeWhile (!isBracket ·), cs.dropWhile (!isBracket ·) with
    | c :: inside, ']' :: rest => some (c :: inside, rest)
    | _, _ => none
  | _ => none

/-- The token at the start, and what follows it. -/
def token? : List Char → Option (Token × List Char)
  | 'd' :: 'a' :: 't' :: 'a' :: ':' :: cs =>
    match bracketed? cs with
    | some (key, rest) =>
      match bracketed? rest with
      | some (range, rest) => some (⟨key, some range⟩, rest)
      | none => some (⟨key, none⟩, rest)
    | none => none
  | _ => none

theorem eq_append_of_bracketed? {cs inside rest : List Char}
    (h : bracketed? cs = some (inside, rest)) : cs = ['['] ++ inside ++ [']'] ++ rest := by
  unfold bracketed? at h
  split at h
  · split at h
    · rename_i cs _ _ c inside' rest' h1 h2
      have happ : cs.takeWhile (!isBracket ·) ++ cs.dropWhile (!isBracket ·) = cs :=
        List.takeWhile_append_dropWhile
      rw [h1, h2] at happ
      simp only [Option.some.injEq, Prod.mk.injEq] at h
      obtain ⟨rfl, rfl⟩ := h
      simp [← happ]
    · simp at h
  · simp at h

/-- A token and what follows it make up the text. -/
theorem eq_append_of_token? {cs rest : List Char} {t : Token} (h : token? cs = some (t, rest)) :
    cs = t.written ++ rest := by
  unfold token? at h
  split at h
  · split at h
    · rename_i key rest' hkey
      have e1 := eq_append_of_bracketed? hkey
      split at h
      · rename_i range rest'' hrange
        have e2 := eq_append_of_bracketed? hrange
        simp only [Option.some.injEq, Prod.mk.injEq] at h
        obtain ⟨rfl, rfl⟩ := h
        simp [Token.written, e1, e2]
      · simp only [Option.some.injEq, Prod.mk.injEq] at h
        obtain ⟨rfl, rfl⟩ := h
        simp [Token.written, e1]
    · simp at h
  · simp at h

theorem length_lt_of_token? {cs rest : List Char} {t : Token} (h : token? cs = some (t, rest)) :
    rest.length < cs.length := by
  simp only [eq_append_of_token? h, Token.written, List.length_append, List.length_cons]
  omega

/-! ## Pieces -/

/-- A piece of a text. -/
inductive Piece
  | char (c : Char)
  | token (t : Token)
  deriving DecidableEq, Repr

def Piece.written : Piece → List Char
  | .char c => [c]
  | .token t => t.written

/-- The pieces of a text. A token is taken wherever one starts, from left to right. -/
def pieces (cs : List Char) : List Piece :=
  match _h : token? cs with
  | some (t, rest) => .token t :: pieces rest
  | none =>
    match cs with
    | [] => []
    | c :: rest => .char c :: pieces rest
termination_by cs.length
decreasing_by
  · exact length_lt_of_token? (by assumption)
  · simp

/-- The pieces of a text, written one after another, are the text. -/
theorem flatMap_written_pieces (cs : List Char) : (pieces cs).flatMap Piece.written = cs := by
  fun_induction pieces cs with
  | case1 cs t rest h ih => simp [Piece.written, ih, ← eq_append_of_token? h]
  | case2 => rfl
  | case3 c rest h ih => simp [Piece.written, ih]

/-! ## Tokens of a text -/

/-- A token with the octets of the text that it takes up: from `start` up to, not including,
`stop`. -/
structure Located where
  token : Token
  start : Nat
  stop : Nat

/-- The tokens among pieces that start at an octet. -/
def locate (start : Nat) : List Piece → List Located
  | [] => []
  | .char c :: rest => locate (start + c.utf8Size) rest
  | .token t :: rest =>
    let stop := start + Text.octets t.written
    ⟨t, start, stop⟩ :: locate stop rest

/-- The tokens of a text, from left to right. -/
def scan (s : String) : List Located := locate 0 (pieces s.toList)

/-- The token that makes up the whole text. -/
def soleToken? (s : String) : Option Token :=
  match token? s.toList with
  | some (t, []) => some t
  | _ => none

/-- Whether a token starts somewhere in the characters. -/
def containsToken : List Char → Bool
  | [] => false
  | c :: rest => (token? (c :: rest)).isSome || containsToken rest

end Montage.Reference
