import Montage.Proofs.Script.Bytes.Reads

/-!
# Signs by byte index

The signs of three and of two bytes are looked up in tables. As all of them are ASCII, bytes are
found in a table exactly if the characters that begin there are, though the last bytes that are
looked up may be some of a longer character.
-/

namespace Montage.Script.ByteWalk

open Montage.Text (isAsciiDigit octets octets_append octets_eq_length)

section
variable {source : String} {i : Nat} {c : Char} {cs rest : List Char}

theorem take_bytesOf_eq_iff {text : List Char} (htext : ∀ d ∈ text, d ≤ '\x7f') (cs : List Char) :
    (bytesOf cs).take text.length = text ↔ cs.take text.length = text := by
  induction text generalizing cs with
  | nil => rw [List.length_nil, List.take_zero, List.take_zero]
  | cons d text ih =>
    obtain ⟨hd, htext⟩ := List.forall_mem_cons.mp htext
    rcases cs with _ | ⟨c, cs⟩
    · exact Iff.rfl
    obtain hc | hc := le_or_gt c '\x7f'
    · rw [bytesOf_cons, charBytes_ascii hc, List.singleton_append, List.length_cons,
        List.take_succ_cons, List.take_succ_cons, List.cons.injEq, List.cons.injEq, ih htext]
    · obtain ⟨b, more, hbytes⟩ := List.exists_cons_of_ne_nil (charBytes_ne_nil c)
      have hb : '\x7f' < b := lt_of_mem_charBytes hc (by rw [hbytes]; exact List.mem_cons_self)
      rw [bytesOf_cons, hbytes, List.cons_append, List.length_cons, List.take_succ_cons,
        List.take_succ_cons, List.cons.injEq, List.cons.injEq]
      exact iff_of_false (fun heq => absurd hd (not_le.mpr (heq.1 ▸ hb)))
        fun heq => absurd hd (not_le.mpr (heq.1 ▸ hc))

/-- The texts of a table of signs have `n` characters, all ASCII. -/
def IsTable (n : Nat) (table : List (List Char × Sign)) : Prop :=
  ∀ entry ∈ table, entry.1.length = n ∧ ∀ d ∈ entry.1, d ≤ '\x7f'

theorem isTable_triples : IsTable 3 triples := by simp [IsTable, triples]

theorem isTable_pairs : IsTable 2 pairs := by simp [IsTable, pairs]

theorem IsTable.lookup_bytes {n : Nat} {table : List (List Char × Sign)} (h : IsTable n table)
    (cs : List Char) : table.lookup ((bytesOf cs).take n) = table.lookup (cs.take n) := by
  induction table with
  | nil => rfl
  | cons entry table ih =>
    obtain ⟨⟨hlength, htext⟩, htable⟩ := List.forall_mem_cons.mp h
    have hsame : ((bytesOf cs).take n == entry.1) = (cs.take n == entry.1) := by
      rw [Bool.eq_iff_iff, beq_iff_eq, beq_iff_eq, ← hlength, take_bytesOf_eq_iff htext]
    rw [List.lookup_cons, List.lookup_cons, hsame, ih htable]

theorem longSign?_eq {last : Nat} {table : List (List Char × Sign)} (h : At source i cs)
    (htable : IsTable (last + 1) table) :
    longSign? source table last i = .ok (table.lookup (cs.take (last + 1))) := by
  have hsize := h.size
  rw [longSign?]
  split
  · rw [Nat.add_assoc, window_eq h (by omega), ← htable.lookup_bytes]
    rfl
  · rw [← htable.lookup_bytes]
    -- there are too few bytes for any text of the table
    refine congrArg Except.ok (List.lookup_eq_none_iff.mpr fun entry hentry => ?_).symm
    refine bne_iff_ne.mpr fun heq => ?_
    have hlength := congrArg List.length heq
    rw [(htable entry hentry).1, List.length_take, length_bytesOf] at hlength
    omega

theorem lookup_take_eq_none {n : Nat} {table : List (List Char × Sign)}
    (hnone : ∀ entry ∈ table, ∀ tail, cs ≠ entry.1 ++ tail) : table.lookup (cs.take n) = none := by
  refine List.lookup_eq_none_iff.mpr fun entry hentry => bne_iff_ne.mpr fun heq => ?_
  exact hnone entry hentry (cs.drop n) (by rw [← heq, List.take_append_drop])

theorem lookup_triples_eq_none (hellipsis : ∀ tail, cs ≠ '.' :: '.' :: '.' :: tail)
    (hequal : ∀ tail, cs ≠ '=' :: '=' :: '=' :: tail)
    (hnotEqual : ∀ tail, cs ≠ '!' :: '=' :: '=' :: tail) : triples.lookup (cs.take 3) = none := by
  refine lookup_take_eq_none fun entry hentry tail heq => ?_
  simp only [triples, List.mem_cons, List.not_mem_nil, or_false] at hentry
  obtain rfl | rfl | rfl := hentry
  · exact hellipsis tail heq
  · exact hequal tail heq
  · exact hnotEqual tail heq

/-- The sign of two characters in front of a text; `?.` is none before a digit. -/
def pairOf? (cs : List Char) : Option Sign :=
  match pairs.lookup (cs.take 2) with
  | some .optionalDot =>
    if (cs.drop 2).head?.any isAsciiDigit then none else some .optionalDot
  | s => s

theorem getD_map_head? (kind : Char → Bool) (cs : List Char) :
    (cs.head?.map kind).getD false = cs.head?.any kind := by cases cs <;> rfl

/-- The lexer takes the sign that the tables give for the most characters. -/
theorem scanSign?_eq (c : Char) (cs : List Char) :
    scanSign? c cs =
      match triples.lookup ((c :: cs).take 3) with
      | some s => some (s, 2)
      | none =>
        match pairOf? (c :: cs) with
        | some s => some (s, 1)
        | none => (scanSign?.single? c).map (·, 0) := by
  fun_cases scanSign? c cs
  case case6 tail htail =>
    have htriple : triples.lookup (('=' :: '=' :: tail).take 3) = none :=
      lookup_triples_eq_none (by simp) (fun more heq => by cases heq; exact htail more rfl)
        (by simp)
    rw [htriple]
    rfl
  case case7 tail htail =>
    have htriple : triples.lookup (('!' :: '=' :: tail).take 3) = none :=
      lookup_triples_eq_none (by simp) (by simp) fun more heq => by cases heq; exact htail more rfl
    rw [htriple]
    rfl
  case case11 rest hdigit =>
    have htriple : triples.lookup (('?' :: '.' :: rest).take 3) = none :=
      lookup_triples_eq_none (by simp) (by simp) (by simp)
    have hpair : pairOf? ('?' :: '.' :: rest) = none := by
      rw [getD_map_head?] at hdigit
      exact if_pos hdigit
    rw [htriple, hpair]
    rfl
  case case12 rest hdigit =>
    have htriple : triples.lookup (('?' :: '.' :: rest).take 3) = none :=
      lookup_triples_eq_none (by simp) (by simp) (by simp)
    have hpair : pairOf? ('?' :: '.' :: rest) = some .optionalDot := by
      rw [getD_map_head?] at hdigit
      exact if_neg hdigit
    rw [htriple, hpair]
  case case13 hellipsis hequal hnotEqual hboth heither hequal' hnotEqual' hless hgreater harrow
      hdot =>
    have htriple : triples.lookup ((c :: cs).take 3) = none := by
      refine lookup_triples_eq_none (fun tail heq => ?_) (fun tail heq => ?_) fun tail heq => ?_
      · cases heq
        exact hellipsis tail rfl rfl
      · cases heq
        exact hequal tail rfl rfl
      · cases heq
        exact hnotEqual tail rfl rfl
    have hpair : pairs.lookup ((c :: cs).take 2) = none := by
      refine lookup_take_eq_none fun entry hentry tail heq => ?_
      simp only [pairs, List.mem_cons, List.not_mem_nil, or_false] at hentry
      obtain rfl | rfl | rfl | rfl | rfl | rfl | rfl | rfl := hentry <;> cases heq
      · exact hboth tail rfl rfl
      · exact heither tail rfl rfl
      · exact hequal' tail rfl rfl
      · exact hnotEqual' tail rfl rfl
      · exact hless tail rfl rfl
      · exact hgreater tail rfl rfl
      · exact harrow tail rfl rfl
      · exact hdot tail rfl rfl
    rw [htriple, pairOf?, hpair]
  all_goals rfl

theorem lookup_pairs_optionalDot (h : pairs.lookup (cs.take 2) = some .optionalDot) :
    ∃ rest, cs = '?' :: '.' :: rest := by
  obtain ⟨before, after, hpairs, -⟩ := List.lookup_eq_some_iff.mp h
  have hmem : (cs.take 2, Sign.optionalDot) ∈ pairs := by rw [hpairs]; simp
  simp only [pairs, List.mem_cons, Prod.mk.injEq, reduceCtorEq, and_false, List.not_mem_nil,
    or_false, false_or, and_true] at hmem
  exact ⟨cs.drop 2, by rw [← List.take_append_drop 2 cs, hmem]; rfl⟩

theorem pair?_eq (h : At source i cs) : pair? source i = .ok (pairOf? cs) := by
  have hlong : longSign? source pairs 1 i = .ok (pairs.lookup (cs.take 2)) :=
    longSign?_eq h isTable_pairs
  rw [pair?, hlong, ok_bind, pairOf?]
  by_cases hfound : pairs.lookup (cs.take 2) = some .optionalDot
  · obtain ⟨rest, rfl⟩ := lookup_pairs_optionalDot hfound
    rw [hfound]
    dsimp only
    rw [byteIs_eq ((h.next rfl).next rfl) bytewise_isAsciiDigit, ok_bind]
    exact (apply_ite Except.ok _ none _).symm
  · generalize pairs.lookup (cs.take 2) = found at hfound ⊢
    rcases found with _ | s
    · rfl
    · cases s <;> first | rfl | exact absurd rfl hfound

theorem single?_eq_none {c : Char} (h : '\x7f' < c) : scanSign?.single? c = none := by
  rw [← Option.not_isSome_iff_eq_none]
  intro hsome
  refine absurd h (not_lt.mpr ?_)
  unfold scanSign?.single? at hsome
  split at hsome <;> first | decide | cases hsome

theorem single?_lead (c : Char) : scanSign?.single? (lead c) = scanSign?.single? c := by
  obtain hc | hc := le_or_gt c '\x7f'
  · rw [lead_ascii hc]
  · rw [single?_eq_none hc, single?_eq_none (lt_lead hc)]

theorem IsTable.octets_take {n : Nat} {table : List (List Char × Sign)} {s : Sign}
    (h : IsTable n table) (hs : table.lookup (cs.take n) = some s) : octets (cs.take n) = n := by
  obtain ⟨before, after, htable, -⟩ := List.lookup_eq_some_iff.mp hs
  obtain ⟨hlength, htext⟩ := h (cs.take n, s) (by rw [htable]; simp)
  rw [octets_eq_length fun d hd => Char.utf8Size_eq_one_iff.mpr (htext d hd), hlength]

theorem octets_take_of_pairOf? {s : Sign} (h : pairOf? cs = some s) : octets (cs.take 2) = 2 := by
  cases hpair : pairs.lookup (cs.take 2) with
  | some s => exact isTable_pairs.octets_take hpair
  | none =>
    rw [pairOf?, hpair] at h
    cases h

theorem sign_eq (h : At source i (c :: cs)) :
    sign source i (lead c) =
      match scanSign? c cs with
      | some (s, n) => .ok (.sign s, i + octets (c :: cs.take n))
      | none => .error (.refused ⟨i, .character c⟩) := by
  rw [sign, longSign?_eq h isTable_triples, ok_bind, pair?_eq h, scanSign?_eq, single?_lead]
  cases htriple : triples.lookup ((c :: cs).take 3) with
  | some s =>
    have hstop : octets (c :: cs.take 2) = 3 := isTable_triples.octets_take htriple
    dsimp only
    rw [hstop]
    rfl
  | none =>
    dsimp only
    rw [ok_bind]
    cases hpair : pairOf? (c :: cs) with
    | some s =>
      have hstop : octets (c :: cs.take 1) = 2 := octets_take_of_pairOf? hpair
      dsimp only
      rw [hstop]
      rfl
    | none =>
      dsimp only
      cases hsingle : scanSign?.single? c with
      | some s =>
        have hone : c.utf8Size = 1 := Char.utf8Size_eq_one_iff.mpr (not_lt.mp fun hc => by
          rw [single?_eq_none hc] at hsingle
          cases hsingle)
        rw [Option.map_some]
        dsimp only
        rw [List.take_zero, octets, hone]
        rfl
      | none =>
        dsimp only
        rw [textFrom_eq h]
        rfl

end

end Montage.Script.ByteWalk
