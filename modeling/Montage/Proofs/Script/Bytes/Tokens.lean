import Montage.Proofs.Script.Bytes.Reads

/-!
# Comments, numbers, texts and names by byte index

Each of these is found at the byte where it begins as the lexer finds it there, and its end is the
byte behind the characters that the lexer takes.
-/

namespace Montage.Script.ByteWalk

open Montage.Text (eq_nil_of_octets isAsciiDigit octets octets_append octets_eq_length)

section
variable {source : String} {i : Nat} {c : Char} {cs rest : List Char}

theorem take_length_takeWhile (kind : Char → Bool) (cs : List Char) :
    cs.take (cs.takeWhile kind).length = cs.takeWhile kind :=
  (List.prefix_iff_eq_take.mp (List.takeWhile_prefix kind)).symm

/-! ## Comments -/

theorem findClose?_eq (cs : List Char) :
    (findClose? cs).map (· + 2) = (commentEnd? cs).map fun n => octets (cs.take n) := by
  induction cs using commentEnd?.induct with
  | case1 rest => rfl
  | case2 c rest hopen ih =>
    rw [findClose?, commentEnd?]
    · rcases hclose : findClose? rest with _ | k <;> rcases hend : commentEnd? rest with _ | n <;>
        rw [hclose, hend] at ih
      · rfl
      · cases ih
      · cases ih
      · have hk : k + 2 = octets (rest.take n) := Option.some.inj ih
        refine congrArg some ?_
        dsimp only
        rw [List.take_succ_cons, octets, ← hk, Nat.add_assoc]
    · exact hopen
    · exact hopen
  | case3 => rfl

theorem bytewise_notLineBreak : Bytewise (· ≠ '\n') := by
  have h := (bytewise_char (d := '\n') (by decide)).not
  refine fun c b hb => ?_
  simpa using h c b hb

theorem comment?_line (h : At source i ('/' :: '/' :: cs)) :
    comment? source i = .ok (some (i + octets ('/' :: '/' :: cs.takeWhile (· ≠ '\n')))) := by
  rw [comment?, byteIs_eq (h.next rfl) (bytewise_char (by decide)),
    skipWhile_eq h bytewise_notLineBreak]
  rfl

theorem comment?_block (h : At source i ('/' :: '*' :: cs)) :
    comment? source i =
      match commentEnd? cs with
      | some n => .ok (some (i + octets ('/' :: '*' :: cs.take n)))
      | none => .error (.refused ⟨i, .openComment⟩) := by
  have hclose := findClose?_eq cs
  rw [comment?, byteIs_eq (h.next rfl) (bytewise_char (by decide)),
    byteIs_eq (h.next rfl) (bytewise_char (by decide)), textFrom_eq ((h.next rfl).next rfl)]
  rcases hend : commentEnd? cs with _ | n <;> rw [hend] at hclose
  · rw [Option.map_none, Option.map_eq_none_iff] at hclose
    rw [ok_bind, ok_bind, ok_bind, hclose]
    rfl
  · obtain ⟨k, hk, hoctets⟩ := Option.map_eq_some_iff.mp hclose
    replace hoctets : k + 2 = octets (cs.take n) := hoctets
    rw [ok_bind, ok_bind, ok_bind, hk]
    dsimp only
    rw [octets, octets, ← hoctets]
    refine congrArg (fun stop => Except.ok (some stop)) ?_
    change i + 2 + k + 2 = i + (1 + (1 + (k + 2)))
    omega

theorem any_head?_eq_false {d : Char} (h : cs.head? ≠ some d) :
    cs.head?.any (· == d) = false := by
  cases cs with
  | nil => rfl
  | cons c cs => exact beq_false_of_ne fun heq => h (congrArg some heq)

theorem comment?_none (h : At source i ('/' :: cs)) (hbegins : BeginsToken '/' cs) :
    comment? source i = .ok none := by
  rw [comment?, byteIs_eq (h.next rfl) (bytewise_char (by decide)),
    byteIs_eq (h.next rfl) (bytewise_char (by decide))]
  rw [any_head?_eq_false fun hhead => hbegins.line ⟨rfl, hhead⟩,
    any_head?_eq_false fun hhead => hbegins.block ⟨rfl, hhead⟩]
  rfl

/-! ## Numbers -/

theorem octets_digits {ds : List Char} (h : Decimal.AreDigits ds) : octets ds = ds.length :=
  octets_eq_length fun c hc => Char.utf8Size_eq_one_iff.mpr (le_of_isAsciiDigit (h c hc))

theorem afterSign_eq (h : At source i rest) :
    ∃ sign, rest = sign ++ (Decimal.signOf rest).2 ∧ octets sign = sign.length ∧
      afterSign source i = .ok (i + octets sign) := by
  have hkind : Bytewise fun b => b == '+' || b == '-' :=
    (bytewise_char (by decide)).or (bytewise_char (by decide))
  rw [afterSign, byteIs_eq h hkind, ok_bind]
  unfold Decimal.signOf
  split
  next rest => exact ⟨['-'], rfl, rfl, rfl⟩
  next rest => exact ⟨['+'], rfl, rfl, rfl⟩
  next hminus hplus =>
    refine ⟨[], rfl, rfl, ?_⟩
    have hnone : rest.head?.any (fun b => b == '+' || b == '-') = false := by
      cases rest with
      | nil => rfl
      | cons c rest =>
        simp only [List.head?_cons, Option.any_some, Bool.or_eq_false_iff, beq_eq_false_iff_ne]
        exact ⟨fun hc => hplus rest (by rw [hc]), fun hc => hminus rest (by rw [hc])⟩
    rw [hnone]
    rfl

theorem exponent_eq (h : At source i rest) :
    exponent source i =
      match scanExponent rest with
      | some (_, n) => .ok (i + octets (rest.take n))
      | none => .error (.refused ⟨i, .exponentDigits⟩) := by
  have hkind : Bytewise fun b => b == 'e' || b == 'E' :=
    (bytewise_char (by decide)).or (bytewise_char (by decide))
  rw [exponent, byteIs_eq h hkind, ok_bind]
  rcases rest with _ | ⟨c, rest⟩
  · rfl
  by_cases hmark : c = 'e' ∨ c = 'E'
  · have hone : c.utf8Size = 1 := by obtain rfl | rfl := hmark <;> rfl
    have hany : (c == 'e' || c == 'E') = true := by simpa using hmark
    obtain ⟨sign, hrest, hsign, hafter⟩ := afterSign_eq (h.next hone)
    have hdigits := At.behind sign (hrest ▸ h.next hone)
    rw [List.head?_cons, Option.any_some, if_pos hany, hafter, ok_bind,
      skipWhile_eq hdigits bytewise_isAsciiDigit, ok_bind, scanExponent, if_pos hmark]
    dsimp only
    generalize (Decimal.signOf rest).1 = negative
    generalize (Decimal.signOf rest).2 = tail at hrest
    subst hrest
    have htake := take_length_takeWhile isAsciiDigit tail
    split
    next heq =>
      have hnone : tail.takeWhile isAsciiDigit = [] := eq_nil_of_octets (by omega)
      rw [hnone]
      rfl
    next hne =>
      have hsome : (tail.takeWhile isAsciiDigit).isEmpty = false := by
        rw [List.isEmpty_eq_false_iff]
        intro hnone
        rw [hnone] at hne
        exact hne rfl
      have hlength : 1 + ((sign ++ tail).length - tail.length) +
          (tail.takeWhile isAsciiDigit).length =
          sign.length + (tail.takeWhile isAsciiDigit).length + 1 := by
        rw [List.length_append]
        omega
      rw [hsome, hlength, if_neg Bool.false_ne_true]
      dsimp only
      rw [List.take_succ_cons, List.take_length_add_append, htake, octets, octets_append, hone]
      exact congrArg Except.ok (by omega)
  · have hany : (c == 'e' || c == 'E') = false := by simpa using hmark
    rw [List.head?_cons, Option.any_some, if_neg (by rw [hany]; exact Bool.false_ne_true),
      scanExponent, if_neg hmark]
    rfl

theorem takeWhile_dropWhile (kind : Char → Bool) (cs : List Char) :
    (cs.dropWhile kind).takeWhile kind = [] := by
  induction cs with
  | nil => rfl
  | cons c cs ih =>
    by_cases hc : kind c = true
    · rw [List.dropWhile_cons_of_pos hc, ih]
    · rw [List.dropWhile_cons_of_neg hc, List.takeWhile_cons_of_neg hc]

theorem octets_pointed (fraction : List Char) :
    octets (Decimal.pointed fraction) =
      if fraction.isEmpty then 0 else 1 + octets fraction := by
  rw [Decimal.pointed]
  split <;> rfl

theorem octets_mantissa {whole fraction : List Char} (hwhole : Decimal.AreDigits whole)
    (hfraction : Decimal.AreDigits fraction) :
    octets (whole ++ Decimal.pointed fraction) = (whole ++ Decimal.pointed fraction).length := by
  rw [octets_append, List.length_append, octets_digits hwhole, octets_pointed,
    octets_digits hfraction, Decimal.pointed]
  split
  · rfl
  · rw [List.length_cons, Nat.add_comm 1]

theorem mantissa_eq (h : At source i (c :: cs)) (hstart : startsNumber c cs = true) :
    fractionStart source i c >>= skipWhile source isAsciiDigit = .ok (i +
      octets ((c :: cs).takeWhile isAsciiDigit) +
      octets (Decimal.pointed (Decimal.fractionRun ((c :: cs).dropWhile isAsciiDigit)))) := by
  by_cases hdot : c = '.'
  · subst hdot
    have hne : isAsciiDigit '.' ≠ true := by decide
    obtain ⟨d, cs, rfl⟩ : ∃ d ds, cs = d :: ds := List.exists_cons_of_ne_nil (by
      rintro rfl
      cases hstart)
    have hd : isAsciiDigit d = true := hstart
    rw [fractionStart, if_pos rfl, pure_bind, skipWhile_eq (h.next rfl) bytewise_isAsciiDigit,
      List.takeWhile_cons_of_neg hne, List.dropWhile_cons_of_neg hne, Decimal.fractionRun,
      octets_pointed, List.takeWhile_cons_of_pos hd]
    exact congrArg Except.ok (Nat.add_assoc i 1 _)
  · have hc : isAsciiDigit c = true := by simpa [startsNumber, hdot] using hstart
    have hsplit : (c :: cs).takeWhile isAsciiDigit ++ (c :: cs).dropWhile isAsciiDigit = c :: cs :=
      List.takeWhile_append_dropWhile
    have hrest := At.behind ((c :: cs).takeWhile isAsciiDigit) (hsplit.symm ▸ h)
    have hnone := takeWhile_dropWhile isAsciiDigit (c :: cs)
    rw [fractionStart, if_neg hdot, skipWhile_eq h bytewise_isAsciiDigit, ok_bind,
      byteIs_eq hrest (bytewise_char (by decide))]
    generalize i + octets ((c :: cs).takeWhile isAsciiDigit) = j at hrest
    generalize (c :: cs).dropWhile isAsciiDigit = tail at hrest hnone ⊢
    have hstay : skipWhile source isAsciiDigit j = .ok j := by
      rw [skipWhile_eq hrest bytewise_isAsciiDigit, hnone]
      rfl
    unfold Decimal.fractionRun
    split
    next more =>
      have hmore := hrest.next rfl
      rw [ok_bind, List.head?_cons, Option.any_some, if_pos (beq_self_eq_true '.'),
        byteIs_eq hmore bytewise_isAsciiDigit, ok_bind, octets_pointed]
      rcases more with _ | ⟨d, more⟩
      · exact hstay
      · cases hd : isAsciiDigit d with
        | true =>
          rw [List.head?_cons, Option.any_some, hd, if_pos rfl, pure_bind,
            skipWhile_eq hmore bytewise_isAsciiDigit, List.takeWhile_cons_of_pos hd]
          exact congrArg Except.ok (Nat.add_assoc j 1 _)
        | false =>
          rw [List.head?_cons, Option.any_some, hd, if_neg Bool.false_ne_true, pure_bind, hstay,
            List.takeWhile_cons_of_neg (by rw [hd]; exact Bool.false_ne_true)]
          rfl
    next hpoint =>
      have hhead : tail.head? ≠ some '.' := fun hhead => by
        obtain ⟨more, hmore⟩ := List.head?_eq_some_iff.mp hhead
        exact hpoint more hmore
      rw [ok_bind, any_head?_eq_false hhead, if_neg Bool.false_ne_true, pure_bind, hstay]
      rfl

theorem number_eq (h : At source i (c :: cs)) (hstart : startsNumber c cs = true) :
    number source i c =
      match scanNumber (c :: cs) with
      | .ok (x, n) => .ok (.number x, i + octets ((c :: cs).take n))
      | .error n => .error (.refused ⟨i + n, .exponentDigits⟩) := by
  obtain ⟨whole, fraction, tail, hcs, hwhole, hfraction, htake, hrun⟩ :=
    Decimal.exists_mantissa (c :: cs)
  have hmantissa := mantissa_eq h hstart
  rw [htake, hrun, Nat.add_assoc, ← octets_append] at hmantissa
  have htail : At source (i + octets (whole ++ Decimal.pointed fraction)) tail := by
    rw [hcs, ← List.append_assoc] at h
    exact h.behind (whole ++ Decimal.pointed fraction)
  have hscan := Decimal.scanNumber_def htake rfl hrun
  rw [← List.length_append] at hscan
  have hdrop : (c :: cs).drop (whole ++ Decimal.pointed fraction).length = tail := by
    rw [hcs, ← List.append_assoc, List.drop_left]
  rw [hdrop] at hscan
  rw [number, ← bind_assoc, hmantissa, ok_bind, exponent_eq htail]
  cases hexponent : scanExponent tail with
  | none =>
    rw [hexponent] at hscan
    rw [hscan, octets_mantissa hwhole hfraction]
    rfl
  | some found =>
    obtain ⟨e, k⟩ := found
    rw [hexponent] at hscan
    dsimp only at hscan
    obtain ⟨own, rest, rfl, hlength, -, halone⟩ := Decimal.scanNumber_alone hstart hscan
    have hown : (c :: (own ++ rest)).take (own.length + 1) = c :: own := by
      rw [List.take_succ_cons, List.take_left]
    have hstop : octets (whole ++ Decimal.pointed fraction) + octets (tail.take k) =
        octets (c :: own) := by
      rw [← octets_append, ← List.take_length_add_append, List.append_assoc, ← hcs, ← hlength, hown]
    have htext : textBetween source i (i + octets (c :: own)) = .ok (c :: own) :=
      textBetween_eq (c :: own) rest h
    dsimp only
    rw [ok_bind, Nat.add_assoc, hstop, htext, ok_bind, halone, hscan]
    dsimp only
    rw [if_pos (hlength.symm.trans List.length_cons.symm), ← hlength, hown]
    rfl

/-! ## Texts -/

theorem map_charIndices (offset : Nat) (cs : List Char) :
    (charIndices offset cs).map Prod.snd = cs := by
  induction cs generalizing offset with
  | nil => rfl
  | cons c cs ih => rw [charIndices, List.map_cons, ih]

/-- Where a text ends whose characters are counted from `count` on and stand at byte `pos`. -/
def textEnd (pos count : Nat) (cs : List Char) (found : String × Nat) : String × Nat :=
  (found.1, pos + octets (cs.take (found.2 - count)))

theorem map_textEnd_append {quote : Char} {start pos pos' count count' : Nat} {taken cs : List Char}
    (front : List Char) (hpos : pos' = pos + octets front)
    (hcount : count' = count + front.length) :
    (scanText quote start pos' count' taken cs).map (textEnd pos' count' cs) =
      (scanText quote start pos' count' taken cs).map (textEnd pos count (front ++ cs)) := by
  rcases hscan : scanText quote start pos' count' taken cs with e | ⟨s, n⟩
  · rfl
  · obtain ⟨own, rest, rfl, rfl, -⟩ := scanText_alone hscan
    have hbehind : count' + own.length - count' = own.length := by omega
    have hall : count' + own.length - count = front.length + own.length := by omega
    refine congrArg (fun stop => Except.ok (s, stop)) ?_
    dsimp only
    rw [hbehind, hall, List.take_length_add_append, octets_append, hpos, Nat.add_assoc]

theorem readText_eq {quote : Char} {start : Nat} (offset pos count : Nat) (taken cs : List Char)
    (hpos : pos = start + offset) :
    readText quote start taken (charIndices offset cs) =
      (scanText quote start pos count taken cs).map (textEnd pos count cs) := by
  induction pos, count, taken, cs using scanText_induction quote
    generalizing offset with
  | finish =>
    rw [charIndices, readText]
    rfl
  | closing pos count taken rest =>
    rw [scanText_quote, charIndices, readText.eq_def, hpos]
    dsimp only
    rw [if_pos rfl]
    refine congrArg (fun stop => Except.ok (_, stop)) ?_
    dsimp only
    rw [Nat.add_sub_cancel_left]
    rfl
  | line pos count taken rest hquote =>
    rw [scanText_line hquote, charIndices, readText.eq_def, hpos]
    dsimp only
    rw [if_neg hquote, if_pos rfl]
    rfl
  | plain pos count taken c cs hquote hline hescape ih =>
    rw [scanText_plain hquote hline hescape, charIndices, readText.eq_def]
    dsimp only
    rw [if_neg hquote, if_neg hline, if_neg hescape,
      ih (offset + c.utf8Size) (by rw [hpos, Nat.add_assoc])]
    exact map_textEnd_append [c] rfl rfl
  | unfinished pos count taken hquote =>
    rw [scanText_open hquote, charIndices, charIndices, readText, if_neg hquote, if_neg (by decide),
      if_pos rfl]
    rfl
  | escape pos count taken c x cs hquote hc hx ih =>
    rw [scanText_escape hquote hc hx, charIndices, charIndices, readText, if_neg hquote,
      if_neg (by decide), if_pos rfl]
    simp only [if_neg hc, hx]
    have hindex : start + (offset + '\\'.utf8Size + c.utf8Size) = pos + octets ['\\', c] := by
      rw [hpos, octets, octets, octets]
      omega
    rw [octets_escape hx] at hindex
    rw [ih _ hindex.symm]
    exact map_textEnd_append ['\\', c] (congrArg _ (octets_escape hx).symm) rfl
  | noEscape pos count taken c rest hquote hc hx =>
    rw [scanText_noEscape hquote hc hx, charIndices, charIndices, readText, if_neg hquote,
      if_neg (by decide), if_pos rfl]
    simp only [if_neg hc, hx, hpos]
    rfl
  | code pos count taken a b c d x code cs hquote hcode hone hx ih =>
    have hfour : [a, b, c, d].length = 4 := rfl
    have hcode' : scanCode 4 0 (a :: b :: c :: d :: cs) = .ok code :=
      (scanCode_append 0 cs hfour).trans hcode
    rw [scanText_code hquote hcode hx, charIndices, charIndices, readText, if_neg hquote,
      if_neg (by decide), if_pos rfl]
    simp only [if_true, map_charIndices, hcode', hx]
    simp only [charIndices, List.drop_succ_cons, List.drop_zero]
    have hindex : start + (offset + '\\'.utf8Size + 'u'.utf8Size + a.utf8Size + b.utf8Size +
        c.utf8Size + d.utf8Size) = pos + octets ['\\', 'u', a, b, c, d] := by
      simp only [hpos, octets]
      omega
    rw [octets_code hone] at hindex
    rw [ih _ hindex.symm]
    exact map_textEnd_append ['\\', 'u', a, b, c, d] (congrArg _ (octets_code hone).symm) rfl
  | noCode pos count taken cause rest hquote hcode =>
    rw [scanText_noCode hquote hcode, charIndices, charIndices, readText, if_neg hquote,
      if_neg (by decide), if_pos rfl]
    simp only [if_true, map_charIndices, hcode, hpos]
    rfl
  | noChar pos count taken code rest hquote hcode hx =>
    rw [scanText_noChar hquote hcode hx, charIndices, charIndices, readText, if_neg hquote,
      if_neg (by decide), if_pos rfl]
    simp only [if_true, map_charIndices, hcode, hx, hpos]
    rfl

theorem quoted_eq (h : At source i (c :: cs)) (hone : c.utf8Size = 1) :
    quoted source i =
      match scanText c i (i + 1) 0 [] cs with
      | .ok (s, n) => .ok (.text s, i + octets (c :: cs.take n))
      | .error e => .error (.refused e) := by
  rw [quoted, textFrom_eq h, ok_bind, charIndices]
  dsimp only
  rw [readText_eq _ (i + 1) 0 [] cs (by rw [hone, Nat.zero_add])]
  rcases scanText c i (i + 1) 0 [] cs with e | ⟨s, n⟩
  · rfl
  · refine congrArg (fun stop => Except.ok (_, stop)) ?_
    dsimp only [textEnd]
    rw [Nat.sub_zero, octets, hone, Nat.add_assoc]

/-! ## Names -/

theorem bytewise_continuesName : Bytewise continuesName :=
  bytewise_startsName.or bytewise_isAsciiDigit

theorem name_eq (h : At source i (c :: cs)) (hone : c.utf8Size = 1) :
    name source i = .ok (lettersKind (String.ofList (c :: cs.takeWhile continuesName)),
      i + octets (c :: cs.takeWhile continuesName)) := by
  have hsplit : cs.takeWhile continuesName ++ cs.dropWhile continuesName = cs :=
    List.takeWhile_append_dropWhile
  have hstop : i + 1 + octets (cs.takeWhile continuesName) =
      i + octets (c :: cs.takeWhile continuesName) := by
    rw [octets, hone, Nat.add_assoc]
  have htext : textBetween source i (i + octets (c :: cs.takeWhile continuesName)) =
      .ok (c :: cs.takeWhile continuesName) := by
    refine textBetween_eq (c :: cs.takeWhile continuesName) (cs.dropWhile continuesName) ?_
    rwa [List.cons_append, hsplit]
  rw [name, skipWhile_eq (h.next hone) bytewise_continuesName, ok_bind, hstop, htext]
  rfl

end

end Montage.Script.ByteWalk
