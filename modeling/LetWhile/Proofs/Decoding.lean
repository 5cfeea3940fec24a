import LetWhile.Text.Utf8

/-!
# Decoding piece by piece

A text without stray bytes is read in the same way whatever stands behind it: the last of its
characters is complete, so no byte that follows can become part of it. That is false of a text that
ends inside a character. The first byte of such a character is stray when the text is read alone,
and not when the rest of the character follows.

Reading and encoding are inverse to each other: what was encoded is read back, and the units that
are read stand for the bytes that there were.
-/

namespace LetWhile.Glyph

/-- Whether a unit is a character. -/
def IsChar : Glyph → Prop
  | .char _ => True
  | .stray _ => False

/-- Continuation bytes are read in the same way whatever stands behind them. -/
theorem continuation?_append {count acc code : Nat} {bs : List UInt8}
    (h : continuation? count acc bs = some code) (more : List UInt8) :
    continuation? count acc (bs ++ more) = some code ∧ count ≤ bs.length := by
  induction count generalizing acc bs with
  | zero => exact ⟨by rw [continuation?] at h ⊢; exact h, Nat.zero_le _⟩
  | succ count ih =>
      cases bs with
      | nil => rw [continuation?] at h; cases h
      | cons b bs =>
          rw [continuation?] at h
          split at h
          · next hb =>
            obtain ⟨hcont, hlen⟩ := ih h
            refine ⟨?_, ?_⟩
            · rw [List.cons_append, continuation?, if_pos hb, hcont]
            · rw [List.length_cons]; omega
          · cases h

/-- A code point and a number of bytes are those of at most one character. -/
theorem ofCode?_eq_some {code size : Nat} {c : Char} :
    ofCode? code size = some c ↔ c.toNat = code ∧ c.utf8Size = size := by
  constructor
  · intro h
    unfold ofCode? at h
    by_cases hvalid : code.isValidChar
    · rw [dif_pos hvalid] at h
      by_cases hsize : (Char.ofNatAux code hvalid).utf8Size = size
      · have h : some (Char.ofNatAux code hvalid) = some c := (if_pos hsize).symm.trans h
        cases h
        exact ⟨rfl, hsize⟩
      · have h : none = some c := (if_neg hsize).symm.trans h
        cases h
    · rw [dif_neg hvalid] at h
      cases h
  · rintro ⟨rfl, rfl⟩
    have hvalid : c.toNat.isValidChar := c.valid
    have hofNat : Char.ofNatAux c.toNat hvalid = c := Char.toNat_inj.mp rfl
    rw [ofCode?, dif_pos hvalid, hofNat]
    exact if_pos rfl

/-- A character with `count` continuation bytes is read in the same way whatever stands behind it,
and it has all of these bytes. -/
theorem multibyte_append {count acc : Nat} {bs : List UInt8} {c : Char}
    (h : (continuation? count acc bs).bind (ofCode? · (count + 1)) = some c) (more : List UInt8) :
    (continuation? count acc (bs ++ more)).bind (ofCode? · (count + 1)) = some c ∧
      c.utf8Size ≤ bs.length + 1 := by
  obtain ⟨code, hcode, hc⟩ := Option.bind_eq_some_iff.mp h
  obtain ⟨hcont, hlen⟩ := continuation?_append hcode more
  refine ⟨Option.bind_eq_some_iff.mpr ⟨code, hcont, hc⟩, ?_⟩
  rw [(ofCode?_eq_some.mp hc).2]
  omega

theorem leading?_append {b : UInt8} {bs : List UInt8} {c : Char} (h : leading? (b :: bs) = some c)
    (more : List UInt8) :
    leading? (b :: bs ++ more) = some c ∧ c.utf8Size ≤ bs.length + 1 := by
  rw [leading?] at h
  rw [List.cons_append, leading?]
  -- the number of bytes is told by the first one, which is the same on both sides
  split at h
  · next h₁ =>
    rw [if_pos h₁]
    refine ⟨h, ?_⟩
    rw [(ofCode?_eq_some.mp h).2]
    omega
  next h₁ =>
  split at h
  · cases h
  next h₂ =>
  rw [if_neg h₁, if_neg h₂]
  split at h
  · next h₃ => rw [if_pos h₃]; exact multibyte_append h more
  next h₃ =>
  rw [if_neg h₃]
  split at h
  · next h₄ => rw [if_pos h₄]; exact multibyte_append h more
  next h₄ =>
  rw [if_neg h₄]
  split at h
  · next h₅ => rw [if_pos h₅]; exact multibyte_append h more
  · cases h

/-- **A text without stray bytes is read by itself.** -/
theorem decode_append {bs : List UInt8} (h : ∀ g ∈ decode bs, g.IsChar) (more : List UInt8) :
    decode (bs ++ more) = decode bs ++ decode more := by
  induction bs using decode.induct with
  | case1 => rw [List.nil_append, decode, List.nil_append]
  | case2 b bs c hc ih =>
      -- the bytes of the character are all in front of `more`
      obtain ⟨hlead, hsize⟩ := leading?_append hc more
      rw [decode, hc] at h ⊢
      rw [List.cons_append] at hlead
      rw [List.cons_append, decode, hlead]
      dsimp only at h ⊢
      have hdrop : (bs ++ more).drop (c.utf8Size - 1) = bs.drop (c.utf8Size - 1) ++ more :=
        List.drop_append_of_le_length (by omega)
      rw [hdrop, ih fun g hg => h g (List.mem_cons_of_mem _ hg), List.cons_append]
  | case3 b bs hb ih =>
      rw [decode, hb] at h
      exact absurd (h (.stray b) List.mem_cons_self) id

/-- An ASCII byte is a character by itself. -/
theorem decode_ascii {b : UInt8} {c : Char} (hb : b.toNat < 0x80) (hc : c.toNat = b.toNat)
    (bs : List UInt8) : decode (b :: bs) = .char c :: decode bs := by
  have hsize : c.utf8Size = 1 := by
    have hle : c.toNat ≤ 0x7F := by omega
    exact Char.utf8Size_eq_one_iff.mpr (UInt32.le_iff_toNat_le.mpr hle)
  have hlead : leading? (b :: bs) = some c := by
    rw [leading?, if_pos hb]
    exact ofCode?_eq_some.mpr ⟨hc, hsize⟩
  rw [decode, hlead]
  dsimp only
  rw [hsize, Nat.sub_self, List.drop_zero]

/-! ## Cutting in front of an ASCII byte

An ASCII byte continues no character. Whatever stands in front of it, stray bytes or not, is read
by itself. -/

theorem continuation?_append_ascii {b : UInt8} (hb : b.toNat < 0x80) (count acc : Nat)
    (bs more : List UInt8) :
    continuation? count acc (bs ++ b :: more) = continuation? count acc bs := by
  induction count generalizing acc bs with
  | zero => rw [continuation?, continuation?]
  | succ count ih =>
      cases bs with
      | nil =>
          have hstop : b.toNat / 64 ≠ 2 := by omega
          rw [List.nil_append, continuation?, continuation?, if_neg hstop]
      | cons a bs => rw [List.cons_append, continuation?, continuation?, ih]

theorem leading?_append_ascii {b : UInt8} (hb : b.toNat < 0x80) (a : UInt8)
    (bs more : List UInt8) : leading? (a :: (bs ++ b :: more)) = leading? (a :: bs) := by
  simp only [leading?, continuation?_append_ascii hb]

/-- **A text is read by itself where an ASCII byte follows it.** -/
theorem decode_append_ascii {b : UInt8} (hb : b.toNat < 0x80) (bs more : List UInt8) :
    decode (bs ++ b :: more) = decode bs ++ decode (b :: more) := by
  induction bs using decode.induct with
  | case1 => rw [decode.eq_1, List.nil_append, List.nil_append]
  | case2 a bs c hc ih =>
      have hsize : c.utf8Size ≤ bs.length + 1 := (leading?_append hc []).2
      have hdrop : (bs ++ b :: more).drop (c.utf8Size - 1) =
          bs.drop (c.utf8Size - 1) ++ b :: more :=
        List.drop_append_of_le_length (by omega)
      rw [List.cons_append, decode, leading?_append_ascii hb, decode.eq_2 a bs, hc]
      dsimp only
      rw [hdrop, ih, List.cons_append]
  | case3 a bs hnone ih =>
      rw [List.cons_append, decode, leading?_append_ascii hb, decode.eq_2 a bs, hnone]
      dsimp only
      rw [ih, List.cons_append]

/-! ## Bytes and characters

The encoding of a character is read back as the character, and a character that is read stands for
the bytes that it was read from. Both are shown by the number of bytes, in arithmetic on the code
point. -/

theorem continuation?_succ_eq_some {count acc code : Nat} {bs : List UInt8}
    (h : continuation? (count + 1) acc bs = some code) :
    ∃ b more, bs = b :: more ∧ b.toNat / 64 = 2 ∧
      continuation? count (acc * 64 + b.toNat % 64) more = some code := by
  cases bs with
  | nil => rw [continuation?] at h; cases h
  | cons b more =>
      rw [continuation?] at h
      split at h
      · next hb => exact ⟨b, more, rfl, hb, h⟩
      · cases h

section Encoding

variable {c : Char}

theorem encode_one (h : c.utf8Size = 1) :
    c.toNat < 0x80 ∧ String.utf8EncodeChar c = [.ofNat c.toNat] := by
  have hc : c.toNat ≤ 0x7F := UInt32.le_iff_toNat_le.mp (Char.utf8Size_eq_one_iff.mp h)
  exact ⟨by omega, if_pos hc⟩

theorem encode_two (h : c.utf8Size = 2) :
    0x80 ≤ c.toNat ∧ c.toNat < 0x800 ∧
      String.utf8EncodeChar c = [.ofNat (c.toNat / 64 + 0xC0), .ofNat (c.toNat % 64 + 0x80)] := by
  obtain ⟨hlow, hhigh⟩ := Char.utf8Size_eq_two_iff.mp h
  have hlow : 0x7F < c.toNat := UInt32.lt_iff_toNat_lt.mp hlow
  have hhigh : c.toNat ≤ 0x7FF := UInt32.le_iff_toNat_le.mp hhigh
  refine ⟨by omega, by omega, ?_⟩
  rw [← Nat.mod_eq_of_lt (by omega : c.toNat / 64 < 32)]
  exact (if_neg (by omega : ¬ c.toNat ≤ 0x7F)).trans (if_pos hhigh)

theorem encode_three (h : c.utf8Size = 3) :
    0x800 ≤ c.toNat ∧ c.toNat < 0x10000 ∧
      String.utf8EncodeChar c = [.ofNat (c.toNat / 4096 + 0xE0), .ofNat (c.toNat / 64 % 64 + 0x80),
        .ofNat (c.toNat % 64 + 0x80)] := by
  obtain ⟨hlow, hhigh⟩ := Char.utf8Size_eq_three_iff.mp h
  have hlow : 0x7FF < c.toNat := UInt32.lt_iff_toNat_lt.mp hlow
  have hhigh : c.toNat ≤ 0xFFFF := UInt32.le_iff_toNat_le.mp hhigh
  refine ⟨by omega, by omega, ?_⟩
  rw [← Nat.mod_eq_of_lt (by omega : c.toNat / 4096 < 16)]
  exact (if_neg (by omega : ¬ c.toNat ≤ 0x7F)).trans
    ((if_neg (by omega : ¬ c.toNat ≤ 0x7FF)).trans (if_pos hhigh))

theorem encode_four (h : c.utf8Size = 4) :
    0x10000 ≤ c.toNat ∧ c.toNat < 0x110000 ∧
      String.utf8EncodeChar c = [.ofNat (c.toNat / 262144 + 0xF0),
        .ofNat (c.toNat / 4096 % 64 + 0x80), .ofNat (c.toNat / 64 % 64 + 0x80),
        .ofNat (c.toNat % 64 + 0x80)] := by
  have hlow : 0xFFFF < c.toNat := UInt32.lt_iff_toNat_lt.mp (Char.utf8Size_eq_four_iff.mp h)
  have hhigh : c.toNat < 0x110000 := by
    have hvalid : c.toNat < 0xD800 ∨ 0xDFFF < c.toNat ∧ c.toNat < 0x110000 := c.valid
    omega
  refine ⟨by omega, hhigh, ?_⟩
  rw [← Nat.mod_eq_of_lt (by omega : c.toNat / 262144 < 8)]
  exact (if_neg (by omega : ¬ c.toNat ≤ 0x7F)).trans
    ((if_neg (by omega : ¬ c.toNat ≤ 0x7FF)).trans (if_neg (by omega : ¬ c.toNat ≤ 0xFFFF)))

end Encoding

theorem toNat_ofNat {n : Nat} (h : n < 256) : (UInt8.ofNat n).toNat = n :=
  Nat.mod_eq_of_lt h

/-- **What was encoded is read back**, whatever stands behind it. -/
theorem leading?_encode (c : Char) (more : List UInt8) :
    leading? (String.utf8EncodeChar c ++ more) = some c := by
  rcases c.utf8Size_eq with hs | hs | hs | hs
  · obtain ⟨h, he⟩ := encode_one hs
    rw [he, List.cons_append, leading?, toNat_ofNat (by omega), if_pos h]
    exact ofCode?_eq_some.mpr ⟨rfl, hs⟩
  · obtain ⟨hlow, hhigh, he⟩ := encode_two hs
    rw [he, List.cons_append, leading?, toNat_ofNat (by omega), if_neg (by omega),
      if_neg (by omega), if_pos (by omega), List.cons_append, continuation?,
      toNat_ofNat (by omega), if_pos (by omega), continuation?]
    exact ofCode?_eq_some.mpr ⟨by omega, hs⟩
  · obtain ⟨hlow, hhigh, he⟩ := encode_three hs
    rw [he, List.cons_append, leading?, toNat_ofNat (by omega), if_neg (by omega),
      if_neg (by omega), if_neg (by omega), if_pos (by omega), List.cons_append, continuation?,
      toNat_ofNat (by omega), if_pos (by omega), List.cons_append, continuation?,
      toNat_ofNat (by omega), if_pos (by omega), continuation?]
    exact ofCode?_eq_some.mpr ⟨by omega, hs⟩
  · obtain ⟨hlow, hhigh, he⟩ := encode_four hs
    rw [he, List.cons_append, leading?, toNat_ofNat (by omega), if_neg (by omega),
      if_neg (by omega), if_neg (by omega), if_neg (by omega), if_pos (by omega), List.cons_append,
      continuation?, toNat_ofNat (by omega), if_pos (by omega), List.cons_append, continuation?,
      toNat_ofNat (by omega), if_pos (by omega), List.cons_append, continuation?,
      toNat_ofNat (by omega), if_pos (by omega), continuation?]
    exact ofCode?_eq_some.mpr ⟨by omega, hs⟩

theorem ofNat_eq {n : Nat} {b : UInt8} (h : n = b.toNat) : UInt8.ofNat n = b := by
  rw [h, UInt8.ofNat_toNat]

/-- **A character stands for the bytes that it was read from.** -/
theorem encode_of_leading? {bs : List UInt8} {c : Char} (h : leading? bs = some c) :
    ∃ more, bs = String.utf8EncodeChar c ++ more := by
  cases bs with
  | nil => cases h
  | cons b bs =>
    have hb := b.toNat_lt
    rw [leading?] at h
    split at h
    · obtain ⟨hc, hs⟩ := ofCode?_eq_some.mp h
      exact ⟨bs, by rw [(encode_one hs).2, ofNat_eq hc]; rfl⟩
    split at h
    · cases h
    split at h
    · obtain ⟨code, hcode, hc⟩ := Option.bind_eq_some_iff.mp h
      obtain ⟨b₁, more, rfl, hb₁, hcode⟩ := continuation?_succ_eq_some hcode
      cases hcode
      obtain ⟨hc, hs⟩ := ofCode?_eq_some.mp hc
      obtain ⟨-, -, he⟩ := encode_two hs
      refine ⟨more, ?_⟩
      rw [he, ofNat_eq (b := b) (by omega), ofNat_eq (b := b₁) (by omega)]
      rfl
    split at h
    · obtain ⟨code, hcode, hc⟩ := Option.bind_eq_some_iff.mp h
      obtain ⟨b₁, more, rfl, hb₁, hcode⟩ := continuation?_succ_eq_some hcode
      obtain ⟨b₂, more, rfl, hb₂, hcode⟩ := continuation?_succ_eq_some hcode
      cases hcode
      obtain ⟨hc, hs⟩ := ofCode?_eq_some.mp hc
      obtain ⟨-, -, he⟩ := encode_three hs
      refine ⟨more, ?_⟩
      rw [he, ofNat_eq (b := b) (by omega), ofNat_eq (b := b₁) (by omega),
        ofNat_eq (b := b₂) (by omega)]
      rfl
    split at h
    · obtain ⟨code, hcode, hc⟩ := Option.bind_eq_some_iff.mp h
      obtain ⟨b₁, more, rfl, hb₁, hcode⟩ := continuation?_succ_eq_some hcode
      obtain ⟨b₂, more, rfl, hb₂, hcode⟩ := continuation?_succ_eq_some hcode
      obtain ⟨b₃, more, rfl, hb₃, hcode⟩ := continuation?_succ_eq_some hcode
      cases hcode
      obtain ⟨hc, hs⟩ := ofCode?_eq_some.mp hc
      obtain ⟨-, -, he⟩ := encode_four hs
      refine ⟨more, ?_⟩
      rw [he, ofNat_eq (b := b) (by omega), ofNat_eq (b := b₁) (by omega),
        ofNat_eq (b := b₂) (by omega), ofNat_eq (b := b₃) (by omega)]
      rfl
    · cases h

theorem decode_encode_append (c : Char) (bs : List UInt8) :
    decode (String.utf8EncodeChar c ++ bs) = .char c :: decode bs := by
  have hlead := leading?_encode c bs
  have hlen := String.length_utf8EncodeChar c
  cases henc : String.utf8EncodeChar c with
  | nil => exact absurd henc String.utf8EncodeChar_ne_nil
  | cons b rest =>
      rw [henc, List.length_cons] at hlen
      rw [henc, List.cons_append] at hlead
      rw [List.cons_append, decode, hlead]
      dsimp only
      rw [← hlen, Nat.add_sub_cancel, List.drop_left]

/-- **The encoding of characters is read as these characters.** -/
theorem decode_encode (cs : List Char) :
    decode (cs.flatMap String.utf8EncodeChar) = cs.map Glyph.char := by
  induction cs with
  | nil => rw [List.flatMap_nil, decode]; rfl
  | cons c cs ih => rw [List.flatMap_cons, decode_encode_append, ih, List.map_cons]

/-- **Decoding loses no byte.** -/
theorem bytes_decode (bs : List UInt8) : (decode bs).flatMap Glyph.bytes = bs := by
  induction bs using decode.induct with
  | case1 => rw [decode]; rfl
  | case2 b bs c hc ih =>
      obtain ⟨more, hmore⟩ := encode_of_leading? hc
      have hdrop : bs.drop (c.utf8Size - 1) = more := by
        have := congrArg (List.drop c.utf8Size) hmore
        rw [← String.length_utf8EncodeChar, List.drop_left, String.length_utf8EncodeChar] at this
        have hpos := c.utf8Size_pos
        rw [← this, show c.utf8Size = c.utf8Size - 1 + 1 by omega, List.drop_succ_cons]
        rfl
      rw [decode, hc]
      dsimp only
      rw [List.flatMap_cons, ih, hdrop, hmore]
      rfl
  | case3 b bs hb ih =>
      rw [decode, hb]
      dsimp only
      rw [List.flatMap_cons, ih]
      rfl

theorem toList_loop (bs : ByteArray) (i : Nat) (acc : List UInt8) :
    ByteArray.toList.loop bs i acc = acc.reverse ++ bs.data.toList.drop i := by
  fun_induction ByteArray.toList.loop bs i acc with
  | case1 i acc h ih =>
      have hi : i < bs.data.toList.length := h
      rw [ih, List.drop_eq_getElem_cons hi, List.reverse_cons, List.append_assoc]
      have hget : bs.get! i = bs.data.toList[i] := by
        simp [ByteArray.get!, h]
      rw [hget]
      rfl
  | case2 i acc h =>
      rw [List.drop_eq_nil_of_le (Nat.not_lt.mp h), List.append_nil]

theorem utf8Bytes_eq (s : String) : utf8Bytes s = s.toList.flatMap String.utf8EncodeChar := by
  have h : s.toByteArray = (s.toList.flatMap String.utf8EncodeChar).toByteArray :=
    String.utf8Encode_toList.symm
  rw [utf8Bytes, String.toUTF8_eq_toByteArray, h, ByteArray.toList, toList_loop]
  simp

/-- The bytes of a text are read as its characters. -/
theorem decode_utf8Bytes (s : String) : decode (utf8Bytes s) = s.toList.map Glyph.char := by
  rw [utf8Bytes_eq, decode_encode]

/-- The bytes of a text are shown as the text. -/
theorem shownText_utf8Bytes (s : String) : shownText (utf8Bytes s) = s := by
  rw [shownText, decode_utf8Bytes, List.map_map]
  show String.ofList (s.toList.map id) = s
  rw [List.map_id, String.ofList_toList]

/-- The bytes of a text have no stray byte among them. -/
theorem hasStray_utf8Bytes (s : String) : hasStray (utf8Bytes s) = false := by
  rw [hasStray, decode_utf8Bytes, List.any_map, List.any_eq_false]
  intro c _
  exact Bool.false_ne_true

end LetWhile.Glyph
