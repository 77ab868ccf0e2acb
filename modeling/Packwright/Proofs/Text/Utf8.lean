import Packwright.Text.Utf8

/-!
# Reading what was written in UTF-8

The bytes of a text are read as that text, and a place between two characters is known by the
number of bytes before it.

* `readUnit_encode` is the fact about one character; `decodeLenient_encodeChars` and
  `decodeChars_encodeChars` follow by induction.
* `newline_mem_encodeChars_iff`: a newline is the only character whose bytes hold a newline.
* `prefix_of_size_le`: of two beginnings of a text the one with fewer bytes begins the other.
-/

namespace Packwright.Text.Utf8

/-! ## One character

Bytes are compared as numbers: `first` and what follows are written by arithmetic on the code
point. -/

/-- Comparing a computed byte with a bound is comparing numbers. -/
theorem ofNat_lt_iff {n : Nat} {b : UInt8} (h : n < 256) : UInt8.ofNat n < b ↔ n < b.toNat := by
  rw [UInt8.lt_iff_toNat_lt, UInt8.toNat_ofNat', Nat.mod_eq_of_lt h]

theorem ofNat_le_iff {n : Nat} {b : UInt8} (h : n < 256) : UInt8.ofNat n ≤ b ↔ n ≤ b.toNat := by
  rw [UInt8.le_iff_toNat_le, UInt8.toNat_ofNat', Nat.mod_eq_of_lt h]

theorem le_ofNat_iff {n : Nat} {b : UInt8} (h : n < 256) : b ≤ UInt8.ofNat n ↔ b.toNat ≤ n := by
  rw [UInt8.le_iff_toNat_le, UInt8.toNat_ofNat', Nat.mod_eq_of_lt h]

/-- A computed byte is the number it was computed from, if that is small enough. -/
theorem toNat_ofNat_of_lt {n : Nat} (h : n < 256) : (UInt8.ofNat n).toNat = n := by
  rw [UInt8.toNat_ofNat', Nat.mod_eq_of_lt h]

/-- How many bytes follow a first byte that is given by a number. -/
theorem followers?_ofNat {n : Nat} (h : n < 256) :
    followers? (UInt8.ofNat n) =
      if n < 0x80 then some 0
      else if n < 0xc2 then none
      else if n < 0xe0 then some 1
      else if n < 0xf0 then some 2
      else if n < 0xf5 then some 3
      else none := by
  unfold followers?
  simp only [ofNat_lt_iff h]
  rfl

/-- The second byte after a first byte that is given by a number. -/
theorem secondRange_ofNat {n : Nat} (h : n < 256) :
    (secondRange (UInt8.ofNat n)).1.toNat =
      (if n = 0xe0 then 0xa0 else if n = 0xf0 then 0x90 else 0x80) ∧
    (secondRange (UInt8.ofNat n)).2.toNat =
      (if n = 0xed then 0x9f else if n = 0xf4 then 0x8f else 0xbf) := by
  have table : ∀ n : Fin 256,
      (secondRange (UInt8.ofNat n)).1.toNat =
        (if n.val = 0xe0 then 0xa0 else if n.val = 0xf0 then 0x90 else 0x80) ∧
      (secondRange (UInt8.ofNat n)).2.toNat =
        (if n.val = 0xed then 0x9f else if n.val = 0xf4 then 0x8f else 0xbf) := by decide +kernel
  exact table ⟨n, h⟩

/-- A byte in range that follows adds its six bits. -/
theorem readFollowers_ofNat {lo hi : UInt8} {code width n m : Nat} (rest : List UInt8)
    (hm : m < 64) (hlo : lo.toNat ≤ m + 0x80) (hhi : m + 0x80 ≤ hi.toNat) :
    readFollowers lo hi code width (n + 1) (UInt8.ofNat (m + 0x80) :: rest) =
      readFollowers 0x80 0xbf (code * 64 + m) (width + 1) n rest := by
  have hlt : m + 0x80 < 256 := by omega
  have hrange : (lo ≤ UInt8.ofNat (m + 0x80) && UInt8.ofNat (m + 0x80) ≤ hi) = true := by
    simp only [Bool.and_eq_true, decide_eq_true_eq]
    exact ⟨(le_ofNat_iff hlt).mpr hlo, (ofNat_le_iff hlt).mpr hhi⟩
  rw [readFollowers, if_pos hrange, toNat_ofNat_of_lt hlt, Nat.add_sub_cancel]

/-- The last byte that follows. -/
theorem readFollowers_last {code width m : Nat} (rest : List UInt8) (hm : m < 64) :
    readFollowers 0x80 0xbf code width 1 (UInt8.ofNat (m + 0x80) :: rest) =
      .char (Char.ofNat (code * 64 + m)) (width + 1) := by
  have hlo : (0x80 : UInt8).toNat = 0x80 := rfl
  have hhi : (0xbf : UInt8).toNat = 0xbf := rfl
  rw [readFollowers_ofNat rest hm (by omega) (by omega)]
  rfl

/-- A code point that is written as one byte. -/
theorem readUnit_one {n : Nat} (hn : n ≤ 0x7f) (tail : List UInt8) :
    readUnit (UInt8.ofNat n) tail = .char (Char.ofNat n) 1 := by
  have hlt : n < 256 := by omega
  simp only [readUnit, followers?_ofNat hlt]
  rw [if_pos (by omega)]
  simp only [if_true, readFollowers, toNat_ofNat_of_lt hlt]

/-- A code point that is written as two bytes. -/
theorem readUnit_two {n : Nat} (hmore : 0x7f < n) (hn : n ≤ 0x7ff) (tail : List UInt8) :
    readUnit (UInt8.ofNat (n / 64 % 32 + 0xc0)) (UInt8.ofNat (n % 64 + 0x80) :: tail) =
      .char (Char.ofNat n) 2 := by
  have hlt : n / 64 % 32 + 0xc0 < 256 := by omega
  obtain ⟨hlo, hhi⟩ := secondRange_ofNat hlt
  rw [if_neg (by omega), if_neg (by omega)] at hlo hhi
  have hcode : (n / 64 % 32 + 0xc0) % 2 ^ (6 - 1) * 64 + n % 64 = n := by omega
  simp only [readUnit, followers?_ofNat hlt]
  rw [if_neg (by omega), if_neg (by omega), if_pos (by omega)]
  simp only
  rw [if_neg (by decide), readFollowers_ofNat _ (by omega) (by omega) (by omega), readFollowers,
    toNat_ofNat_of_lt hlt, hcode]

/-- A code point that is written as three bytes. The range of the second byte excludes overlong forms
and surrogates. -/
theorem readUnit_three {n : Nat} (hmore : 0x7ff < n) (hn : n ≤ 0xffff)
    (hvalid : n < 0xd800 ∨ 0xdfff < n) (tail : List UInt8) :
    readUnit (UInt8.ofNat (n / 4096 % 16 + 0xe0))
        (UInt8.ofNat (n / 64 % 64 + 0x80) :: UInt8.ofNat (n % 64 + 0x80) :: tail) =
      .char (Char.ofNat n) 3 := by
  have hlt : n / 4096 % 16 + 0xe0 < 256 := by omega
  obtain ⟨hlo, hhi⟩ := secondRange_ofNat hlt
  -- the second byte is restricted after some first bytes, which excludes short forms and surrogates
  have hleast : (secondRange (UInt8.ofNat (n / 4096 % 16 + 0xe0))).1.toNat ≤
      n / 64 % 64 + 0x80 := by
    rw [hlo]
    split
    · omega
    · split <;> omega
  have hmost : n / 64 % 64 + 0x80 ≤
      (secondRange (UInt8.ofNat (n / 4096 % 16 + 0xe0))).2.toNat := by
    rw [hhi]
    split
    · omega
    · split <;> omega
  -- the bits put together again
  have hcode : ((n / 4096 % 16 + 0xe0) % 2 ^ (6 - 2) * 64 + n / 64 % 64) * 64 + n % 64 = n := by
    omega
  simp only [readUnit, followers?_ofNat hlt]
  rw [if_neg (by omega), if_neg (by omega), if_neg (by omega), if_pos (by omega)]
  simp only
  rw [if_neg (by decide), readFollowers_ofNat _ (by omega) hleast hmost,
    readFollowers_last _ (by omega), toNat_ofNat_of_lt hlt, hcode]

/-- A code point that is written as four bytes. The range of the second byte excludes overlong forms
and what lies beyond the last code point. -/
theorem readUnit_four {n : Nat} (hmore : 0xffff < n) (hn : n < 0x110000) (tail : List UInt8) :
    readUnit (UInt8.ofNat (n / 262144 % 8 + 0xf0))
        (UInt8.ofNat (n / 4096 % 64 + 0x80) :: UInt8.ofNat (n / 64 % 64 + 0x80) ::
          UInt8.ofNat (n % 64 + 0x80) :: tail) =
      .char (Char.ofNat n) 4 := by
  have hlt : n / 262144 % 8 + 0xf0 < 256 := by omega
  obtain ⟨hlo, hhi⟩ := secondRange_ofNat hlt
  -- the second byte is restricted here as well, by the last plane
  have hleast : (secondRange (UInt8.ofNat (n / 262144 % 8 + 0xf0))).1.toNat ≤
      n / 4096 % 64 + 0x80 := by
    rw [hlo]
    split
    · omega
    · split <;> omega
  have hmost : n / 4096 % 64 + 0x80 ≤
      (secondRange (UInt8.ofNat (n / 262144 % 8 + 0xf0))).2.toNat := by
    rw [hhi]
    split
    · omega
    · split <;> omega
  have hlow : (0x80 : UInt8).toNat = 0x80 := rfl
  have hhigh : (0xbf : UInt8).toNat = 0xbf := rfl
  have hcode : (((n / 262144 % 8 + 0xf0) % 2 ^ (6 - 3) * 64 + n / 4096 % 64) * 64 +
      n / 64 % 64) * 64 + n % 64 = n := by omega
  simp only [readUnit, followers?_ofNat hlt]
  rw [if_neg (by omega), if_neg (by omega), if_neg (by omega), if_neg (by omega),
    if_pos (by omega)]
  simp only
  rw [if_neg (by decide), readFollowers_ofNat _ (by omega) hleast hmost,
    readFollowers_ofNat _ (by omega) (by omega) (by omega), readFollowers_last _ (by omega),
    toNat_ofNat_of_lt hlt, hcode]

theorem char_valid (c : Char) : c.toNat < 0xd800 ∨ 0xdfff < c.toNat ∧ c.toNat < 0x110000 := c.valid

/-- **The bytes of a character are read as that character**, whatever follows. -/
theorem readUnit_encode (c : Char) (tail : List UInt8) :
    ∃ first rest, String.utf8EncodeChar c = first :: rest ∧
      readUnit first (rest ++ tail) = .char c (rest.length + 1) := by
  have hvalid := char_valid c
  have hv : c.val.toNat = c.toNat := rfl
  have hchar : Char.ofNat c.toNat = c := Char.ofNat_toNat c
  generalize hn : c.toNat = n at *
  subst hchar
  unfold String.utf8EncodeChar
  simp only [hv]
  -- the encoder and the decoder distinguish the same four ranges
  by_cases h1 : n ≤ 0x7f
  · rw [if_pos h1]
    exact ⟨_, [], rfl, readUnit_one h1 tail⟩
  rw [if_neg h1]
  by_cases h2 : n ≤ 0x7ff
  · rw [if_pos h2]
    exact ⟨_, [_], rfl, readUnit_two (Nat.lt_of_not_le h1) h2 tail⟩
  rw [if_neg h2]
  by_cases h3 : n ≤ 0xffff
  · rw [if_pos h3]
    exact ⟨_, [_, _], rfl, readUnit_three (Nat.lt_of_not_le h2) h3 (by omega) tail⟩
  · rw [if_neg h3]
    have hlast : n < 0x110000 := by omega
    exact ⟨_, [_, _, _], rfl, readUnit_four (Nat.lt_of_not_le h3) hlast tail⟩

/-! ## A text -/

@[simp] theorem encodeChars_nil : encodeChars [] = [] := rfl

@[simp] theorem encodeChars_cons (c : Char) (s : List Char) :
    encodeChars (c :: s) = String.utf8EncodeChar c ++ encodeChars s := List.flatMap_cons

@[simp] theorem encodeChars_append (s t : List Char) :
    encodeChars (s ++ t) = encodeChars s ++ encodeChars t := List.flatMap_append

@[simp] theorem size_nil : size [] = 0 := rfl

@[simp] theorem size_cons (c : Char) (s : List Char) : size (c :: s) = c.utf8Size + size s := by
  simp [size]

@[simp] theorem size_append (s t : List Char) : size (s ++ t) = size s + size t := by
  simp [size]

/-- The lenient decoder gives the characters back, and so replaces none of them. -/
theorem decodeLenientFrom_encodeChars (s : List Char) (fuel : Nat) (h : size s ≤ fuel) :
    decodeLenientFrom fuel (encodeChars s) = s := by
  induction s generalizing fuel with
  | nil => cases fuel <;> rfl
  | cons c s ih =>
    obtain ⟨first, rest, hbytes, hread⟩ := readUnit_encode c (encodeChars s)
    have hpos := c.utf8Size_pos
    rw [size_cons] at h
    cases fuel with
    | zero => omega
    | succ fuel =>
      rw [encodeChars_cons, hbytes, List.cons_append, decodeLenientFrom, hread]
      simp only [Nat.add_sub_cancel, List.drop_left]
      rw [ih fuel (by omega)]

@[simp] theorem decodeLenient_encodeChars (s : List Char) : decodeLenient (encodeChars s) = s :=
  decodeLenientFrom_encodeChars s _ (Nat.le_of_eq (length_encodeChars s).symm)

/-- So does the strict one, from any offset: it finds no fault. -/
theorem decodeFrom_encodeChars (s : List Char) (fuel offset : Nat) (h : size s ≤ fuel) :
    decodeFrom fuel offset (encodeChars s) = .ok s := by
  induction s generalizing fuel offset with
  | nil => cases fuel <;> rfl
  | cons c s ih =>
    obtain ⟨first, rest, hbytes, hread⟩ := readUnit_encode c (encodeChars s)
    -- one unit of fuel is spent on a character, which has a byte at least
    have hpos := c.utf8Size_pos
    rw [size_cons] at h
    cases fuel with
    | zero => omega
    | succ fuel =>
      rw [encodeChars_cons, hbytes, List.cons_append, decodeFrom, hread]
      simp only [Nat.add_sub_cancel, List.drop_left]
      rw [ih fuel _ (by omega)]
      rfl

@[simp] theorem decodeChars_encodeChars (s : List Char) : decodeChars (encodeChars s) = .ok s :=
  decodeFrom_encodeChars s _ 0 (Nat.le_of_eq (length_encodeChars s).symm)

/-- **Decoding an encoded text gives it back.** -/
@[simp] theorem decode_encode (s : String) : decode (encode s) = .ok s := by
  unfold decode encode
  rw [decodeChars_encodeChars]
  exact congrArg Except.ok String.ofList_toList

/-- A character beyond the first 128 is written with bytes beyond them. -/
theorem high_of_mem {c : Char} (hc : 0x7f < c.toNat) {b : UInt8}
    (hb : b ∈ String.utf8EncodeChar c) : 0x80 ≤ b.toNat := by
  have hv : c.val.toNat = c.toNat := rfl
  unfold String.utf8EncodeChar at hb
  simp only [hv] at hb
  generalize c.toNat = n at *
  rw [if_neg (by omega)] at hb
  -- every byte of a longer form has its highest bit set
  split at hb
  · simp only [List.mem_cons, List.not_mem_nil, or_false] at hb
    rcases hb with rfl | rfl <;> rw [toNat_ofNat_of_lt (by omega)] <;> omega
  · split at hb
    · simp only [List.mem_cons, List.not_mem_nil, or_false] at hb
      rcases hb with rfl | rfl | rfl <;> rw [toNat_ofNat_of_lt (by omega)] <;> omega
    · simp only [List.mem_cons, List.not_mem_nil, or_false] at hb
      rcases hb with rfl | rfl | rfl | rfl <;> rw [toNat_ofNat_of_lt (by omega)] <;> omega

/-- One of the first 128 characters is written as one byte. -/
theorem utf8EncodeChar_of_le {c : Char} (hc : c.toNat ≤ 0x7f) :
    String.utf8EncodeChar c = [UInt8.ofNat c.toNat] := by
  unfold String.utf8EncodeChar
  exact if_pos hc

/-- Only a newline is written with the byte of a newline. -/
theorem newline_mem_utf8EncodeChar {c : Char} (h : (0x0a : UInt8) ∈ String.utf8EncodeChar c) :
    c = '\n' := by
  by_cases hc : c.toNat ≤ 0x7f
  · rw [utf8EncodeChar_of_le hc] at h
    have hten := congrArg UInt8.toNat (List.mem_singleton.mp h)
    rw [toNat_ofNat_of_lt (by omega)] at hten
    rw [← Char.ofNat_toNat c, ← hten]
    rfl
  · have hhigh := high_of_mem (Nat.lt_of_not_le hc) h
    exact absurd hhigh (by decide)

/-- A newline byte comes from a newline: the bytes of longer characters are all high. -/
theorem newline_mem_encodeChars_iff (s : List Char) :
    (0x0a : UInt8) ∈ encodeChars s ↔ '\n' ∈ s := by
  unfold encodeChars
  rw [List.mem_flatMap]
  constructor
  · rintro ⟨c, hc, hmem⟩
    rw [newline_mem_utf8EncodeChar hmem] at hc
    exact hc
  · exact fun hmem => ⟨'\n', hmem, by decide⟩

/-! ## Places between characters -/

/-- The first bytes, as many as the first characters have, encode those. -/
theorem take_encodeChars (s t : List Char) : (encodeChars (s ++ t)).take (size s) = encodeChars s := by
  rw [encodeChars_append, ← length_encodeChars, List.take_left]

theorem drop_encodeChars (s t : List Char) : (encodeChars (s ++ t)).drop (size s) = encodeChars t := by
  rw [encodeChars_append, ← length_encodeChars, List.drop_left]

/-- Every character has a byte. -/
theorem eq_nil_of_size_eq_zero {s : List Char} (h : size s = 0) : s = [] := by
  cases s with
  | nil => rfl
  | cons c s =>
    have hpos := c.utf8Size_pos
    rw [size_cons] at h
    omega

/-- A byte of ASCII is that of a character, which stands where the byte does. -/
theorem exists_char_of_getElem? {s : List Char} {i : Nat} {b : UInt8} (hb : b.toNat < 0x80)
    (h : (encodeChars s)[i]? = some b) :
    ∃ before c after, s = before ++ c :: after ∧ i = size before ∧ c.toNat = b.toNat := by
  induction s generalizing i with
  | nil => exact absurd h (by simp)
  | cons c rest ih =>
    rw [encodeChars_cons] at h
    by_cases hlt : i < (String.utf8EncodeChar c).length
    · rw [List.getElem?_append_left hlt] at h
      by_cases hc : c.toNat ≤ 0x7f
      · rw [utf8EncodeChar_of_le hc] at h hlt
        obtain rfl : i = 0 := Nat.lt_one_iff.mp hlt
        have hbyte : UInt8.ofNat c.toNat = b := Option.some.inj h
        refine ⟨[], c, rest, rfl, rfl, ?_⟩
        rw [← hbyte, toNat_ofNat_of_lt (by omega)]
      · -- the bytes of any other character are beyond ASCII
        have hhigh := high_of_mem (Nat.lt_of_not_le hc) (List.mem_of_getElem? h)
        omega
    · rw [List.getElem?_append_right (by omega)] at h
      obtain ⟨before, d, after, rfl, hi, hd⟩ := ih h
      have hsize := String.length_utf8EncodeChar c
      refine ⟨c :: before, d, after, rfl, ?_, hd⟩
      rw [size_cons]
      omega

/-- **Of two beginnings of a text the one with fewer bytes begins the other.** -/
theorem prefix_of_size_le {a x b y : List Char} (h : a ++ x = b ++ y) (hsize : size a ≤ size b) :
    ∃ middle, b = a ++ middle ∧ x = middle ++ y := by
  rcases List.append_eq_append_iff.mp h with ⟨middle, hb, hx⟩ | ⟨middle, ha, hy⟩
  · exact ⟨middle, hb, hx⟩
  · have hzero : size middle = 0 := by
      rw [ha, size_append] at hsize
      omega
    rw [eq_nil_of_size_eq_zero hzero] at ha hy
    refine ⟨[], ?_, ?_⟩
    · simpa using ha.symm
    · simpa using hy.symm

end Packwright.Text.Utf8
