import Zucrypt.RValues

/-! # Bytes as hexadecimal text

`zucrypt_hex` and `crypt_hex`.  The loop fills a buffer two characters at a time; what it leaves
there is read back by `unhex`, which no function of the package has.

`cryptHex_exact` is of any raw vector and any contents of the buffer before: a vector whose text
would not have an `int` for a length is refused, and any other has a text of twice its length, of
the sixteen digits, which is the one text that `unhex` reads as the vector's bytes.  So the text is
neither wrong in a digit nor one of several.  `hexLoop_eq` is the invariant of the loop: the text of
what it has gone past, and behind it the buffer as it was. -/
namespace Zucrypt
open ByteMemory

/-! ### The loop -/

/-- `digits`. -/
def hexDigits : List Char :=
  ['0', '1', '2', '3', '4', '5', '6', '7', '8', '9', 'a', 'b', 'c', 'd', 'e', 'f']

def hexDigit (d : Byte) : Char := hexDigits.getD d.toNat '0'

/-- The loop of `zucrypt_hex`, from byte `i` on. -/
def hexLoop (m : Memory) (inp n i : Nat) (buf : List Char) : List Char :=
  if i < n then
    let b := m (inp + i)
    hexLoop m inp n (i + 1)
      ((buf.set (2 * i) (hexDigit (b >>> 4))).set (2 * i + 1) (hexDigit (b &&& 0x0f)))
  else
    buf
termination_by n - i

/-- `zucrypt_hex`; `buf` is what `R_alloc` left in the buffer. -/
def zucryptHex (m : Memory) (data : Sexp) (buf : List Char) : String :=
  let n := data.XLENGTH
  let buf := (hexLoop m data.RAW n 0 buf).set (2 * n) '\x00'
  String.ofList (buf.take (2 * n))

/-- `crypt_hex`. -/
def cryptHex (m : Memory) (x : Sexp) (buf : List Char) : Except Condition String := do
  checkRaw x "x" none
  if 1073741823 < x.XLENGTH then
    throw (zucryptAbort "zucrypt_invalid_argument"
      ("`x` is too long to encode as a single hex string " ++ "(the limit is 2^30 - 1 bytes).")
      none none)
  else
    return zucryptHex m x buf

/-! ### What the text says -/

/-- The value of a digit. -/
def hexValue (c : Char) : Option Nat := hexDigits.findIdx? (· == c)

/-- The bytes of a text of digits. -/
def unhex : List Char → Option (List Byte)
  | [] => some []
  | c :: d :: cs => do
    let hi ← hexValue c
    let lo ← hexValue d
    let bs ← unhex cs
    return UInt8.ofNat (16 * hi + lo) :: bs
  | [_] => none

/-- The two digits of a byte. -/
def hexPair (b : Byte) : List Char := [hexDigit (b >>> 4), hexDigit (b &&& 0x0f)]

/-- The text of a list of bytes. -/
def hexText (bs : List Byte) : List Char := bs.flatMap hexPair

/-- The text has two characters for each byte. -/
@[simp] theorem length_hexText (bs : List Byte) : (hexText bs).length = 2 * bs.length := by
  induction bs with
  | nil => rfl
  | cons b bs ih =>
    show (hexText bs).length + 2 = _
    rw [ih, List.length_cons]
    omega

/-- The text of two parts is that of each. -/
theorem hexText_append (bs cs : List Byte) : hexText (bs ++ cs) = hexText bs ++ hexText cs :=
  List.flatMap_append

/-- Two characters after the text are replaced. -/
theorem set_pair (cs rest : List Char) (c d x y : Char) :
    ((cs ++ c :: d :: rest).set cs.length x).set (cs.length + 1) y = cs ++ x :: y :: rest := by
  induction cs with
  | nil => rfl
  | cons c' cs ih =>
    simp only [List.cons_append, List.length_cons, List.set_cons_succ, ih]

/-- The loop leaves the text of what it has gone past, and the rest of the buffer. -/
theorem hexLoop_eq (m : Memory) (inp n i : Nat) (rest : List Char) (hi : i ≤ n)
    (hrest : 2 * (n - i) ≤ rest.length) :
    hexLoop m inp n i (hexText (read m inp i) ++ rest) =
      hexText (read m inp n) ++ rest.drop (2 * (n - i)) := by
  induction hn : n - i generalizing i rest with
  | zero =>
    obtain rfl : i = n := by omega
    unfold hexLoop
    rw [if_neg (Nat.lt_irrefl i), Nat.mul_zero, List.drop_zero]
  | succ k ih =>
    obtain ⟨c, d, rest, rfl⟩ : ∃ c d rest', rest = c :: d :: rest' := by
      match rest, hrest with
      | [], h => exact absurd h (by simp only [List.length_nil]; omega)
      | [c], h => exact absurd h (by simp only [List.length_cons, List.length_nil]; omega)
      | c :: d :: rest', _ => exact ⟨c, d, rest', rfl⟩
    have hlength : (hexText (read m inp i)).length = 2 * i := by
      rw [length_hexText, length_read]
    have hsucc : read m inp (i + 1) = read m inp i ++ [m (inp + i)] := by
      rw [read_add]
      rfl
    -- a round writes two digits, over what was in the buffer
    have hnext : ((hexText (read m inp i) ++ c :: d :: rest).set (2 * i)
        (hexDigit (m (inp + i) >>> 4))).set (2 * i + 1) (hexDigit (m (inp + i) &&& 0x0f)) =
          hexText (read m inp (i + 1)) ++ rest := by
      rw [← hlength, set_pair, hsucc, hexText_append, List.append_assoc]
      rfl
    unfold hexLoop
    rw [if_pos (by omega)]
    dsimp only
    rw [hnext, ih (i + 1) rest (by omega) (by simp only [List.length_cons] at hrest; omega) (by omega)]
    have hdrop : 2 * (k + 1) = 2 * k + 1 + 1 := by omega
    rw [hdrop, List.drop_succ_cons, List.drop_succ_cons]

/-- The string is the text of the vector's bytes, whatever was in the buffer. -/
theorem zucryptHex_eq (m : Memory) (data : Sexp) (buf : List Char)
    (hbuf : buf.length = 2 * data.XLENGTH + 1) :
    zucryptHex m data buf = String.ofList (hexText (data.bytes m)) := by
  have hloop := hexLoop_eq m data.RAW data.XLENGTH 0 buf (Nat.zero_le _) (by omega)
  have hlength : (hexText (data.bytes m)).length = 2 * data.XLENGTH := by
    rw [length_hexText, Sexp.bytes, length_read]
  have hstart : hexText (read m data.RAW 0) ++ buf = buf := rfl
  rw [hstart] at hloop
  unfold zucryptHex
  dsimp only
  rw [hloop, List.take_set_of_le (Nat.le_refl _)]
  congr 1
  exact List.take_left' hlength

/-! ### Reading it back -/

theorem hexValue_hexDigit {d : Byte} (hd : d.toNat < 16) : hexValue (hexDigit d) = some d.toNat := by
  have hall : ∀ n < 16, hexValue (hexDigits.getD n '0') = some n := by decide
  exact hall d.toNat hd

/-- A character with a value is the digit of that value. -/
theorem hexDigit_of_hexValue {c : Char} {v : Nat} (h : hexValue c = some v) :
    v < 16 ∧ hexDigits.getD v '0' = c := by
  unfold hexValue at h
  obtain ⟨hlt, heq, -⟩ := List.findIdx?_eq_some_iff_getElem.mp h
  refine ⟨hlt, ?_⟩
  have hc : hexDigits[v] = c := by simpa using heq
  rw [← hc]
  simp [hlt]

/-- The high half of a byte, -/
theorem toNat_high (b : Byte) : (b >>> 4).toNat = b.toNat / 16 := by
  rw [UInt8.toNat_shiftRight, Nat.shiftRight_eq_div_pow]
  rfl

/-- and the low half. -/
theorem toNat_low (b : Byte) : (b &&& 0x0f).toNat = b.toNat % 16 := by
  rw [UInt8.toNat_and]
  exact Nat.and_two_pow_sub_one_eq_mod b.toNat 4

/-- The text reads back as the bytes. -/
theorem unhex_hexText (bs : List Byte) : unhex (hexText bs) = some bs := by
  induction bs with
  | nil => rfl
  | cons b bs ih =>
    have hb := b.toNat_lt
    have hhigh := hexValue_hexDigit (d := b >>> 4) (by rw [toNat_high]; omega)
    have hlow := hexValue_hexDigit (d := b &&& 0x0f) (by rw [toNat_low]; omega)
    show unhex (hexDigit (b >>> 4) :: hexDigit (b &&& 0x0f) :: hexText bs) = some (b :: bs)
    rw [unhex, hhigh, hlow, ih, toNat_high, toNat_low]
    have hval : 16 * (b.toNat / 16) + b.toNat % 16 = b.toNat := by omega
    show some (UInt8.ofNat (16 * (b.toNat / 16) + b.toNat % 16) :: bs) = some (b :: bs)
    rw [hval, UInt8.ofNat_toNat]

/-- And a text that can be read is the text of what it says. -/
theorem hexText_of_unhex {cs : List Char} {bs : List Byte} (h : unhex cs = some bs) :
    hexText bs = cs := by
  induction cs using unhex.induct generalizing bs with
  | case1 =>
    cases h
    rfl
  | case2 c d cs ih =>
    rw [unhex] at h
    obtain ⟨hi, hhi, h⟩ := Option.bind_eq_some_iff.mp h
    obtain ⟨lo, hlo, h⟩ := Option.bind_eq_some_iff.mp h
    obtain ⟨rest, hrest, h⟩ := Option.bind_eq_some_iff.mp h
    cases h
    obtain ⟨hhi16, hc⟩ := hexDigit_of_hexValue hhi
    obtain ⟨hlo16, hd⟩ := hexDigit_of_hexValue hlo
    have hval : (UInt8.ofNat (16 * hi + lo)).toNat = 16 * hi + lo := by
      rw [UInt8.toNat_ofNat']
      omega
    show hexDigit _ :: hexDigit _ :: hexText rest = _
    rw [ih hrest, hexDigit, hexDigit, toNat_high, toNat_low, hval]
    have hquot : (16 * hi + lo) / 16 = hi := by omega
    have hrem : (16 * hi + lo) % 16 = lo := by omega
    rw [hquot, hrem, hc, hd]
  | case3 c => cases h

/-- Every character is one of the sixteen digits. -/
theorem mem_hexText {bs : List Byte} {c : Char} (h : c ∈ hexText bs) : c ∈ hexDigits := by
  have hall : ∀ n < 16, hexDigits.getD n '0' ∈ hexDigits := by decide
  obtain ⟨b, -, hc⟩ := List.mem_flatMap.mp h
  have hb := b.toNat_lt
  simp only [hexPair, List.mem_cons, List.not_mem_nil, or_false] at hc
  rcases hc with rfl | rfl
  · exact hall _ (by rw [toNat_high]; omega)
  · exact hall _ (by rw [toNat_low]; omega)

/-- The text of a vector is the only one that reads as its bytes, and its length is an
`int`; a longer vector is refused. -/
theorem cryptHex_exact (m : Memory) {x : Sexp} (buf : List Char) (hx : x.isRaw = true)
    (hbuf : buf.length = 2 * x.XLENGTH + 1) :
    (2 ^ 30 ≤ x.XLENGTH →
      ∃ c, cryptHex m x buf = .error c ∧ c.cls = "zucrypt_invalid_argument") ∧
    (x.XLENGTH < 2 ^ 30 →
      ∃ text, cryptHex m x buf = .ok text ∧
        text.length = 2 * x.XLENGTH ∧ text.length < 2 ^ 31 ∧
        (∀ c ∈ text.toList, c ∈ hexDigits) ∧
        ∀ t : String, t = text ↔ unhex t.toList = some (x.bytes m)) := by
  have hrun : cryptHex m x buf =
      if 1073741823 < x.XLENGTH then
        .error (zucryptAbort "zucrypt_invalid_argument"
          ("`x` is too long to encode as a single hex string " ++ "(the limit is 2^30 - 1 bytes).")
          none none)
      else .ok (zucryptHex m x buf) := by
    unfold cryptHex
    rw [checkRaw_ok hx]
    rfl
  constructor
  · intro hlong
    rw [hrun, if_pos (by omega)]
    exact ⟨_, rfl, rfl⟩
  · intro hshort
    rw [hrun, if_neg (by omega), zucryptHex_eq m x buf hbuf]
    have hlength : (String.ofList (hexText (x.bytes m))).length = 2 * x.XLENGTH := by
      rw [String.length_ofList, length_hexText, Sexp.bytes, length_read]
    refine ⟨_, rfl, hlength, by omega, ?_, ?_⟩
    · intro c hc
      rw [String.toList_ofList] at hc
      exact mem_hexText hc
    · intro t
      -- no two texts of digits read as the same bytes
      constructor
      · rintro rfl
        rw [String.toList_ofList]
        exact unhex_hexText _
      · intro ht
        rw [hexText_of_unhex ht, String.ofList_toList]

/-- The vector `0f a0`, over a buffer of other characters. -/
theorem cryptHex_exact_two :
    let m : Memory := write (fun _ => 0) 16 [0x0f, 0xa0]
    ∃ text, cryptHex m (.raw 16 2 []) ['x', 'x', 'x', 'x', 'x'] = .ok text ∧
      text.length = 4 ∧ text.length < 2 ^ 31 ∧
      (∀ c ∈ text.toList, c ∈ hexDigits) ∧
      ∀ t : String, t = text ↔ unhex t.toList = some ((Sexp.raw 16 2 []).bytes m) :=
  (cryptHex_exact _ ['x', 'x', 'x', 'x', 'x'] rfl rfl).2 (by decide)

end Zucrypt
