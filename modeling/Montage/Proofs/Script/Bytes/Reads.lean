import Montage.Proofs.Script.Bytes.Walk

/-!
# Reads and cuts by byte index

In UTF-8 a character of one byte is that byte, and all bytes of a longer one lie behind the ASCII
characters. So a read at the byte where a character begins tells which character that is if it is
ASCII, and a run of characters of a kind that ASCII decides is a run of bytes of the kind.
-/

namespace Montage.Script.ByteWalk

open Montage.Text (eq_nil_of_octets isAsciiDigit octets octets_append octets_pos)

/-! ## The bytes of characters -/

/-- The bytes of a character, each as the character of its code. -/
def charBytes (c : Char) : List Char :=
  (String.utf8EncodeChar c).map fun b => Char.ofNat b.toNat

def bytesOf (cs : List Char) : List Char := cs.flatMap charBytes

theorem bytes_eq (source : String) : bytes source = bytesOf source.toList := by
  rw [bytes, ← String.utf8Encode_toList, List.utf8Encode, List.toList_data_toByteArray, bytesOf,
    List.map_flatMap]
  rfl

theorem length_charBytes (c : Char) : (charBytes c).length = c.utf8Size := by
  rw [charBytes, List.length_map, String.length_utf8EncodeChar]

theorem bytesOf_cons (c : Char) (cs : List Char) : bytesOf (c :: cs) = charBytes c ++ bytesOf cs :=
  List.flatMap_cons

theorem bytesOf_append (cs more : List Char) : bytesOf (cs ++ more) = bytesOf cs ++ bytesOf more :=
  List.flatMap_append

theorem length_bytesOf (cs : List Char) : (bytesOf cs).length = octets cs := by
  induction cs with
  | nil => rfl
  | cons c cs ih => rw [bytesOf_cons, List.length_append, length_charBytes, ih, octets]

theorem charBytes_ascii {c : Char} (h : c ≤ '\x7f') : charBytes c = [c] := by
  have hcode : c.toNat < 256 := Nat.lt_of_le_of_lt (UInt32.le_iff_toNat_le.mp h) (by decide)
  have hbyte : c.val.toUInt8.toNat = c.toNat := by
    rw [UInt32.toNat_toUInt8]
    exact Nat.mod_eq_of_lt hcode
  rw [charBytes, String.utf8EncodeChar_eq_singleton (Char.utf8Size_eq_one_iff.mpr h),
    List.map_singleton, hbyte, Char.ofNat_toNat]

theorem lt_ofNat_of_or {x mark : UInt8} (hmark : 128 ≤ mark.toNat) :
    '\x7f' < Char.ofNat (x ||| mark).toNat := by
  have hlow : 128 ≤ (x ||| mark).toNat := by
    rw [UInt8.toNat_or]
    exact Nat.le_trans hmark Nat.right_le_or
  have hhigh : (x ||| mark).toNat < 256 := UInt8.toNat_lt _
  have hcode : (Char.ofNat (x ||| mark).toNat).toNat = (x ||| mark).toNat := by
    rw [Char.toNat_ofNat, if_pos (.inl (by omega))]
  refine UInt32.lt_iff_toNat_lt.mpr ?_
  change 127 < (Char.ofNat (x ||| mark).toNat).toNat
  omega

theorem lt_of_mem_charBytes {c b : Char} (h : '\x7f' < c) (hb : b ∈ charBytes c) : '\x7f' < b := by
  have hone : c.utf8Size ≠ 1 := fun hone => absurd (Char.utf8Size_eq_one_iff.mp hone) (not_le.mpr h)
  rw [charBytes, List.mem_map] at hb
  obtain ⟨byte, hbyte, rfl⟩ := hb
  suffices hor : ∃ x mark : UInt8, byte = x ||| mark ∧ 128 ≤ mark.toNat by
    obtain ⟨x, mark, rfl, hmark⟩ := hor
    exact lt_ofNat_of_or hmark
  obtain hsize | hsize | hsize | hsize := c.utf8Size_eq
  · exact absurd hsize hone
  · rw [String.utf8EncodeChar_eq_cons_cons hsize] at hbyte
    simp only [List.mem_cons, List.not_mem_nil, or_false] at hbyte
    obtain rfl | rfl := hbyte <;> exact ⟨_, _, rfl, by decide⟩
  · rw [String.utf8EncodeChar_eq_cons_cons_cons hsize] at hbyte
    simp only [List.mem_cons, List.not_mem_nil, or_false] at hbyte
    obtain rfl | rfl | rfl := hbyte <;> exact ⟨_, _, rfl, by decide⟩
  · rw [String.utf8EncodeChar_eq_cons_cons_cons_cons hsize] at hbyte
    simp only [List.mem_cons, List.not_mem_nil, or_false] at hbyte
    obtain rfl | rfl | rfl | rfl := hbyte <;> exact ⟨_, _, rfl, by decide⟩

theorem charBytes_ne_nil (c : Char) : charBytes c ≠ [] := by
  rw [← List.length_pos_iff, length_charBytes]
  exact c.utf8Size_pos

def lead (c : Char) : Char := (charBytes c).head (charBytes_ne_nil c)

theorem lead_ascii {c : Char} (h : c ≤ '\x7f') : lead c = c := by
  simp only [lead, charBytes_ascii h, List.head_cons]

theorem lt_lead {c : Char} (h : '\x7f' < c) : '\x7f' < lead c :=
  lt_of_mem_charBytes h (List.head_mem _)

theorem head?_bytesOf (cs : List Char) : (bytesOf cs).head? = cs.head?.map lead := by
  cases cs with
  | nil => rfl
  | cons c cs =>
    rw [bytesOf_cons, List.head?_append, List.head?_eq_some_head (charBytes_ne_nil c)]
    rfl

/-! ## Kinds of characters -/

/-- The bytes of a character are of the kind exactly if the character is. -/
def Bytewise (kind : Char → Bool) : Prop := ∀ c, ∀ b ∈ charBytes c, kind b = kind c

theorem bytewise_of_ascii {kind : Char → Bool} (h : ∀ c, kind c = true → c ≤ '\x7f') :
    Bytewise kind := by
  intro c b hb
  obtain hc | hc := le_or_gt c '\x7f'
  · rw [charBytes_ascii hc, List.mem_singleton] at hb
    rw [hb]
  · have hnot : ∀ d : Char, '\x7f' < d → kind d = false := fun d hd =>
      Bool.eq_false_iff.mpr fun hkind => absurd (h d hkind) (not_le.mpr hd)
    rw [hnot c hc, hnot b (lt_of_mem_charBytes hc hb)]

section
variable {kind : Char → Bool}

theorem Bytewise.lead (h : Bytewise kind) (c : Char) : kind (lead c) = kind c :=
  h c _ (List.head_mem _)

theorem Bytewise.takeWhile (h : Bytewise kind) (cs : List Char) :
    (bytesOf cs).takeWhile kind = bytesOf (cs.takeWhile kind) := by
  induction cs with
  | nil => rfl
  | cons c cs ih =>
    cases hc : kind c with
    | true =>
      have hall : ∀ b ∈ charBytes c, kind b = true := fun b hb => (h c b hb).trans hc
      rw [bytesOf_cons, List.takeWhile_append_of_pos hall, ih, List.takeWhile_cons_of_pos hc,
        bytesOf_cons]
    | false =>
      obtain ⟨b, more, hbytes⟩ := List.exists_cons_of_ne_nil (charBytes_ne_nil c)
      have hb : ¬ kind b = true := by
        rw [h c b (by rw [hbytes]; exact List.mem_cons_self), hc]
        exact Bool.false_ne_true
      rw [bytesOf_cons, hbytes, List.cons_append, List.takeWhile_cons_of_neg hb,
        List.takeWhile_cons_of_neg (by rw [hc]; exact Bool.false_ne_true)]
      rfl

end

theorem bytewise_char {d : Char} (hd : d ≤ '\x7f') : Bytewise (· == d) :=
  bytewise_of_ascii fun c hc => by rwa [beq_iff_eq.mp hc]

theorem le_of_isAsciiDigit {c : Char} (h : isAsciiDigit c = true) : c ≤ '\x7f' :=
  Char.le_trans (Decimal.isAsciiDigit_iff.mp h).2 (by decide)

theorem bytewise_isAsciiDigit : Bytewise isAsciiDigit :=
  bytewise_of_ascii fun _ hc => le_of_isAsciiDigit hc

theorem le_of_startsName {c : Char} (h : startsName c = true) : c ≤ '\x7f' := by
  simp only [startsName, Char.isAlpha, Char.isUpper, Char.isLower, Bool.or_eq_true,
    Bool.and_eq_true, decide_eq_true_eq, beq_iff_eq] at h
  obtain ((⟨-, hupper⟩ | ⟨-, hlower⟩) | rfl) | rfl := h
  · exact Char.le_trans hupper (by decide : 'Z' ≤ '\x7f')
  · exact Char.le_trans hlower (by decide : 'z' ≤ '\x7f')
  · decide
  · decide

theorem bytewise_startsName : Bytewise startsName :=
  bytewise_of_ascii fun _ hc => le_of_startsName hc

theorem Bytewise.or {kind kind' : Char → Bool} (h : Bytewise kind) (h' : Bytewise kind') :
    Bytewise fun c => kind c || kind' c := fun c b hb => congrArg₂ Bool.or (h c b hb) (h' c b hb)

theorem Bytewise.not {kind : Char → Bool} (h : Bytewise kind) : Bytewise fun c => !kind c :=
  fun c b hb => congrArg Bool.not (h c b hb)

/-! ## Reads -/

/-- The characters `rest` begin at byte `i` of the source and go on to its end. -/
def At (source : String) (i : Nat) (rest : List Char) : Prop :=
  ∃ before, source.toList = before ++ rest ∧ octets before = i

section
variable {source : String} {i n : Nat} {c : Char} {own rest : List Char} {kind : Char → Bool}

theorem At.behind (own : List Char) (h : At source i (own ++ rest)) :
    At source (i + octets own) rest := by
  obtain ⟨before, hsource, rfl⟩ := h
  exact ⟨before ++ own, by rw [hsource, List.append_assoc], octets_append before own⟩

theorem At.next (h : At source i (c :: rest)) (hc : c.utf8Size = 1) : At source (i + 1) rest :=
  hc ▸ At.behind [c] h

theorem At.size (h : At source i rest) : i + octets rest = source.utf8ByteSize := by
  obtain ⟨before, hsource, rfl⟩ := h
  rw [← octets_append, ← hsource, ← Text.utf8ByteSize_ofList, String.ofList_toList]

theorem At.bytes (h : At source i rest) : (bytes source).drop i = bytesOf rest := by
  obtain ⟨before, hsource, rfl⟩ := h
  rw [bytes_eq, hsource, bytesOf_append, ← length_bytesOf, List.drop_left]

theorem At.lt (h : At source i (c :: rest)) : i < source.utf8ByteSize := by
  have hpos := octets_pos (List.cons_ne_nil c rest)
  have hsize := h.size
  omega

theorem byteAt_eq (h : At source i (c :: rest)) : byteAt source i = .ok (lead c) := by
  have hbyte : (ByteWalk.bytes source)[i]? = some (lead c) := by
    rw [← List.head?_drop, h.bytes, head?_bytesOf]
    rfl
  rw [byteAt, hbyte]

theorem byteIs_eq (h : At source i rest) (hkind : Bytewise kind) :
    byteIs source kind i = .ok (rest.head?.any kind) := by
  cases rest with
  | nil =>
    have hsize := h.size
    rw [octets, Nat.add_zero] at hsize
    rw [byteIs, if_neg (by omega)]
    rfl
  | cons c rest =>
    rw [byteIs, if_pos h.lt, byteAt_eq h]
    exact congrArg Except.ok (hkind.lead c)

theorem window_eq (h : At source i rest) (hn : n ≤ octets rest) :
    window source i (i + n) = .ok ((bytesOf rest).take n) := by
  have hsize := h.size
  rw [window, if_pos ⟨by omega, by omega⟩, h.bytes, Nat.add_sub_cancel_left]

theorem skipWhile_def (source : String) (kind : Char → Bool) (i : Nat) :
    skipWhile source kind i =
      .ok (i + (((ByteWalk.bytes source).drop i).takeWhile kind).length) := by
  have hlength : (ByteWalk.bytes source).length = source.utf8ByteSize := by
    rw [bytes_eq, length_bytesOf, ← Text.utf8ByteSize_ofList, String.ofList_toList]
  induction hleft : source.utf8ByteSize - i generalizing i with
  | zero =>
    rw [skipWhile, if_neg (by omega), List.drop_eq_nil_of_le (by omega)]
    rfl
  | succ left ih =>
    have hi : i < (ByteWalk.bytes source).length := by omega
    rw [skipWhile, if_pos (by omega), byteAt, List.getElem?_eq_getElem hi, ok_bind,
      List.drop_eq_getElem_cons hi]
    cases hkind : kind (ByteWalk.bytes source)[i] with
    | true =>
      rw [if_pos rfl, ih (i + 1) (by omega), List.takeWhile_cons_of_pos hkind, List.length_cons,
        Nat.add_assoc, Nat.add_comm 1]
    | false =>
      rw [List.takeWhile_cons_of_neg (by rw [hkind]; exact Bool.false_ne_true)]
      rfl

theorem skipWhile_eq (h : At source i rest) (hkind : Bytewise kind) :
    skipWhile source kind i = .ok (i + octets (rest.takeWhile kind)) := by
  rw [skipWhile_def, h.bytes, hkind.takeWhile, length_bytesOf]

/-! ## Cuts -/

theorem splitBytes?_eq_some_iff {cs before : List Char} :
    splitBytes? n cs = some (before, rest) ↔ cs = before ++ rest ∧ octets before = n := by
  induction n, cs using splitBytes?.induct generalizing before with
  | case1 cs =>
    rw [splitBytes?]
    constructor
    · intro h
      cases h
      exact ⟨rfl, rfl⟩
    · rintro ⟨rfl, hzero⟩
      rw [eq_nil_of_octets hzero, List.nil_append]
  | case2 n =>
    rw [splitBytes?]
    refine iff_of_false (fun h => by cases h) ?_
    rintro ⟨hnil, hoctets⟩
    rw [(List.append_eq_nil_iff.mp hnil.symm).1] at hoctets
    cases hoctets
  | case3 n c cs hle ih =>
    rw [splitBytes?, if_pos hle, Option.map_eq_some_iff]
    constructor
    · rintro ⟨⟨front, tail⟩, hsplit, heq⟩
      cases heq
      obtain ⟨rfl, hoctets⟩ := ih.mp hsplit
      refine ⟨rfl, ?_⟩
      rw [octets]
      omega
    · rintro ⟨hcs, hoctets⟩
      rcases before with _ | ⟨d, front⟩
      · cases hoctets
      · cases hcs
        rw [octets] at hoctets
        exact ⟨(front, rest), ih.mpr ⟨rfl, by omega⟩, rfl⟩
  | case4 n c cs hlt =>
    rw [splitBytes?, if_neg hlt]
    refine iff_of_false (fun h => by cases h) ?_
    rintro ⟨hcs, hoctets⟩
    rcases before with _ | ⟨d, front⟩
    · cases hoctets
    · cases hcs
      rw [octets] at hoctets
      omega

theorem textFrom_eq (h : At source i rest) : textFrom source i = .ok rest := by
  obtain ⟨before, hsource, hi⟩ := h
  rw [textFrom, splitBytes?_eq_some_iff.mpr ⟨hsource, hi⟩]

theorem textBetween_eq (own rest : List Char) (h : At source i (own ++ rest)) :
    textBetween source i (i + octets own) = .ok own := by
  rw [textBetween, if_pos (Nat.le_add_right _ _), textFrom_eq h, Nat.add_sub_cancel_left, ok_bind,
    splitBytes?_eq_some_iff.mpr ⟨rfl, rfl⟩]

end

end Montage.Script.ByteWalk
