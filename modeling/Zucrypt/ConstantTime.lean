import Mathlib.Data.List.Perm.Basic
import Zucrypt.RValues

/-! # Comparison in constant time

`zuc_equal`, with the backend's `mbedtls_ct_memcmp` below it and `crypt_equal` above.  What a
comparison shows to somebody who watches it is which bytes it loads, in which order and how many at
a time; so each function returns its loads too.

`cryptEqual_exact` is of any two vectors, in any memory: the result says whether their bytes are the
same; the loads are the same in every other memory, so they depend on the addresses and the lengths
alone; and where the lengths are the same every byte of both is loaded, exactly once.  Vectors of
different lengths are told apart without a load.

`mbedtls_ct_memcmp` compares words where the platform allows it, and the rest by bytes; the results
hold of both ways (`words`).  Each loop has a lemma of what it finds (`ctWords_eq_zero`,
`ctBytes_eq_zero`), one of its loads in another memory, and one of the addresses it goes past. -/
namespace Zucrypt
open Effects ByteMemory

/-- A load of so many bytes at once. -/
structure Load where
  addr : Nat
  width : Nat
  deriving DecidableEq, Repr

def Load.addresses (l : Load) : List Nat := List.range' l.addr l.width

/-- A value, and what was loaded for it. -/
structure Observed (α : Type) where
  result : α
  loads : List Load

/-! ### The backend's comparison -/

/-- `unsigned char x = A[i]`. -/
def byteAt (m : Memory) (p : Nat) : BitVec 32 := BitVec.ofNat 32 (m p).toNat

/-- `mbedtls_get_unaligned_volatile_uint32`. -/
def wordAt (m : Memory) (p : Nat) : BitVec 32 :=
  BitVec.ofNat 32 ((m p).toNat + 2 ^ 8 * (m (p + 1)).toNat + 2 ^ 16 * (m (p + 2)).toNat +
    2 ^ 24 * (m (p + 3)).toNat)

/-- The loop over words, where the processor loads them from any address. -/
def ctWords (m : Memory) (a b n i : Nat) (diff : BitVec 32) : Nat × Observed (BitVec 32) :=
  if i + 4 ≤ n then
    let rest := ctWords m a b n (i + 4) (diff ||| (wordAt m (a + i) ^^^ wordAt m (b + i)))
    (rest.1, ⟨rest.2.result, ⟨a + i, 4⟩ :: ⟨b + i, 4⟩ :: rest.2.loads⟩)
  else
    (i, ⟨diff, []⟩)
termination_by n - i

/-- The loop over bytes. -/
def ctBytes (m : Memory) (a b n i : Nat) (diff : BitVec 32) : Observed (BitVec 32) :=
  if i < n then
    let rest := ctBytes m a b n (i + 1) (diff ||| (byteAt m (a + i) ^^^ byteAt m (b + i)))
    ⟨rest.result, ⟨a + i, 1⟩ :: ⟨b + i, 1⟩ :: rest.loads⟩
  else
    ⟨diff, []⟩
termination_by n - i

/-- `mbedtls_ct_memcmp`; `words` is `MBEDTLS_EFFICIENT_UNALIGNED_VOLATILE_ACCESS`. -/
def mbedtlsCtMemcmp (words : Bool) (m : Memory) (a b n : Nat) : Observed (BitVec 32) :=
  let start := if words then ctWords m a b n 0 0 else (0, ⟨0, []⟩)
  let rest := ctBytes m a b n start.1 start.2.result
  ⟨(rest.result &&& 0xffff) ||| (rest.result >>> 16), start.2.loads ++ rest.loads⟩

/-! ### `zuc_equal`, and R -/

/-- `zuc_equal`. -/
def zucEqual (words : Bool) (m : Memory) (a b len : Nat) : Observed Bool :=
  if len = 0 then
    ⟨true, []⟩
  else if a = NULL ∨ b = NULL then
    ⟨false, []⟩
  else
    let r := mbedtlsCtMemcmp words m a b len
    ⟨decide (r.result = 0), r.loads⟩

/-- `zucrypt_equal`. -/
def zucryptEqual (words : Bool) (m : Memory) (x y : Sexp) : Observed Bool :=
  zucEqual words m x.RAW y.RAW x.XLENGTH

/-- `crypt_equal`. -/
def cryptEqual (words : Bool) (m : Memory) (x y : Sexp) : Except Condition (Observed Bool) := do
  checkRaw x "x" none
  checkRaw y "y" none
  if x.XLENGTH ≠ y.XLENGTH then
    return ⟨false, []⟩
  else
    return zucryptEqual words m x y

/-! ### What is compared -/

section
variable {m : Memory} {a b n : Nat}

/-- A difference that is found is kept. -/
theorem or_xor_eq_zero (d x y : BitVec 32) : d ||| (x ^^^ y) = 0 ↔ d = 0 ∧ x = y := by
  refine BitVec.or_eq_zero_iff.trans ?_
  refine and_congr_right fun _ => ?_
  constructor
  · intro h
    calc x = x ^^^ 0#32 := BitVec.xor_zero.symm
      _ = x ^^^ (x ^^^ y) := by rw [h]
      _ = y := by rw [← BitVec.xor_assoc, BitVec.xor_self, BitVec.zero_xor]
  · rintro rfl
    exact BitVec.xor_self

/-- Bytes are loaded whole. -/
theorem byteAt_inj {p q : Nat} : byteAt m p = byteAt m q ↔ m p = m q := by
  constructor
  · intro h
    have hval := congrArg BitVec.toNat h
    have hp := (m p).toNat_lt
    have hq := (m q).toNat_lt
    simp only [byteAt, BitVec.toNat_ofNat] at hval
    exact UInt8.toNat_inj.mp (by omega)
  · intro h
    rw [byteAt, byteAt, h]

/-- A word has the bytes it was loaded from. -/
theorem wordAt_inj {p q : Nat} : wordAt m p = wordAt m q ↔ ∀ j < 4, m (p + j) = m (q + j) := by
  have hlt : ∀ p : Nat, (m p).toNat < 2 ^ 8 := fun p => (m p).toNat_lt
  constructor
  · intro h
    have hval := congrArg BitVec.toNat h
    simp only [wordAt, BitVec.toNat_ofNat] at hval
    have hp := hlt p
    have hp₁ := hlt (p + 1)
    have hp₂ := hlt (p + 2)
    have hp₃ := hlt (p + 3)
    have hq := hlt q
    have hq₁ := hlt (q + 1)
    have hq₂ := hlt (q + 2)
    have hq₃ := hlt (q + 3)
    intro j hj
    have hcase : j = 0 ∨ j = 1 ∨ j = 2 ∨ j = 3 := by omega
    rcases hcase with rfl | rfl | rfl | rfl
    · exact UInt8.toNat_inj.mp (by rw [Nat.add_zero, Nat.add_zero]; omega)
    · exact UInt8.toNat_inj.mp (by omega)
    · exact UInt8.toNat_inj.mp (by omega)
    · exact UInt8.toNat_inj.mp (by omega)
  · intro h
    have h₀ : m p = m q := h 0 (by omega)
    rw [wordAt, wordAt, h₀, h 1 (by omega), h 2 (by omega), h 3 (by omega)]

/-- The folding of the high half onto the low one loses nothing, and fits an `int`. -/
theorem fold_eq_zero (d : BitVec 32) : (d &&& 0xffff) ||| (d >>> 16) = 0 ↔ d = 0 := by
  refine BitVec.or_eq_zero_iff.trans ?_
  constructor
  · rintro ⟨hlow, hhigh⟩
    have hlow' : d.toNat &&& 65535 = 0 := congrArg BitVec.toNat hlow
    have hhigh' : d.toNat >>> 16 = 0 := congrArg BitVec.toNat hhigh
    have hmask : d.toNat &&& 65535 = d.toNat % 65536 := Nat.and_two_pow_sub_one_eq_mod d.toNat 16
    rw [Nat.shiftRight_eq_div_pow] at hhigh'
    refine BitVec.eq_of_toNat_eq ?_
    show d.toNat = 0
    omega
  · rintro rfl
    exact ⟨rfl, rfl⟩

/-- The byte loop finds every difference there is. -/
theorem ctBytes_eq_zero (i : Nat) (diff : BitVec 32) :
    (ctBytes m a b n i diff).result = 0 ↔ diff = 0 ∧ ∀ j, i ≤ j → j < n → m (a + j) = m (b + j) := by
  induction hn : n - i using Nat.strongRecOn generalizing i diff with
  | _ k ih =>
    unfold ctBytes
    split
    · rename_i hlt
      rw [ih (n - (i + 1)) (by omega) (i + 1) _ rfl, or_xor_eq_zero, byteAt_inj]
      constructor
      · rintro ⟨⟨hdiff, hhere⟩, hrest⟩
        refine ⟨hdiff, fun j hij hjn => ?_⟩
        rcases Nat.eq_or_lt_of_le hij with rfl | hlt'
        · exact hhere
        · exact hrest j hlt' hjn
      · rintro ⟨hdiff, hall⟩
        exact ⟨⟨hdiff, hall i (Nat.le_refl i) hlt⟩, fun j hij hjn => hall j (by omega) hjn⟩
    · rename_i hge
      refine ⟨fun h => ⟨h, fun j hij hjn => absurd hjn (by omega)⟩, fun h => h.1⟩

/-- The word loop finds them as far as it goes. -/
theorem ctWords_eq_zero (i : Nat) (diff : BitVec 32) (hi : i ≤ n) :
    i ≤ (ctWords m a b n i diff).1 ∧ (ctWords m a b n i diff).1 ≤ n ∧
    ((ctWords m a b n i diff).2.result = 0 ↔
      diff = 0 ∧ ∀ j, i ≤ j → j < (ctWords m a b n i diff).1 → m (a + j) = m (b + j)) := by
  induction hn : n - i using Nat.strongRecOn generalizing i diff with
  | _ k ih =>
    unfold ctWords
    split
    · rename_i hlt
      obtain ⟨hle, hend, hiff⟩ := ih (n - (i + 4)) (by omega) (i + 4)
        (diff ||| (wordAt m (a + i) ^^^ wordAt m (b + i))) hlt rfl
      refine ⟨by dsimp only; omega, hend, ?_⟩
      dsimp only
      rw [hiff, or_xor_eq_zero, wordAt_inj]
      constructor
      · rintro ⟨⟨hdiff, hhere⟩, hrest⟩
        refine ⟨hdiff, fun j hij hjn => ?_⟩
        rcases Nat.lt_or_ge j (i + 4) with hlt' | hge
        · have hword := hhere (j - i) (by omega)
          rwa [Nat.add_assoc, Nat.add_assoc, Nat.add_sub_cancel' hij] at hword
        · exact hrest j hge hjn
      · rintro ⟨hdiff, hall⟩
        refine ⟨⟨hdiff, fun j hj => ?_⟩, fun j hij hjn => hall j (by omega) hjn⟩
        rw [Nat.add_assoc, Nat.add_assoc]
        exact hall (i + j) (by omega) (by omega)
    · refine ⟨Nat.le_refl i, hi, fun h => ⟨h, fun j hij hjn => absurd hjn (by dsimp only; omega)⟩,
        fun h => h.1⟩

/-- Buffers are equal if each byte is. -/
theorem read_eq_iff : read m a n = read m b n ↔ ∀ j < n, m (a + j) = m (b + j) := by
  constructor
  · intro h j hj
    have hget : (read m a n)[j]? = (read m b n)[j]? := by rw [h]
    rw [getElem?_read, getElem?_read, if_pos hj, if_pos hj] at hget
    exact Option.some.inj hget
  · intro h
    exact List.map_congr_left fun j hj => h j (List.mem_range.mp hj)

/-- Whether words are compared or bytes, the result is zero for equal buffers only. -/
theorem mbedtlsCtMemcmp_eq_zero (words : Bool) :
    (mbedtlsCtMemcmp words m a b n).result = 0 ↔ read m a n = read m b n := by
  rw [read_eq_iff, mbedtlsCtMemcmp, fold_eq_zero, ctBytes_eq_zero]
  cases words with
  | false =>
    simp only [Bool.false_eq_true, if_false]
    exact ⟨fun h j hj => h.2 j (Nat.zero_le j) hj, fun h => ⟨trivial, fun j _ hj => h j hj⟩⟩
  | true =>
    simp only [if_true]
    obtain ⟨-, hend, hiff⟩ := ctWords_eq_zero (m := m) (a := a) (b := b) 0 0 (Nat.zero_le n)
    rw [hiff]
    constructor
    · rintro ⟨⟨-, hwords⟩, hbytes⟩ j hj
      rcases Nat.lt_or_ge j (ctWords m a b n 0 0).1 with hlt | hge
      · exact hwords j (Nat.zero_le j) hlt
      · exact hbytes j hge hj
    · intro h
      exact ⟨⟨rfl, fun j _ hj => h j (by omega)⟩, fun j _ hj => h j hj⟩

end

/-! ### What is loaded -/

section
variable {m m' : Memory} {a b n : Nat}

/-- Which loads there are depends on the addresses and the length only. -/
theorem ctBytes_loads (i : Nat) (diff diff' : BitVec 32) :
    (ctBytes m a b n i diff).loads = (ctBytes m' a b n i diff').loads := by
  induction hn : n - i using Nat.strongRecOn generalizing i diff diff' with
  | _ k ih =>
    unfold ctBytes
    split
    · have hrest := ih (n - (i + 1)) (by omega) (i + 1)
        (diff ||| (byteAt m (a + i) ^^^ byteAt m (b + i)))
        (diff' ||| (byteAt m' (a + i) ^^^ byteAt m' (b + i))) rfl
      dsimp only
      rw [hrest]
    · rfl

/-- So it is with the word loop, which also ends at the same place. -/
theorem ctWords_loads (i : Nat) (diff diff' : BitVec 32) :
    (ctWords m a b n i diff).1 = (ctWords m' a b n i diff').1 ∧
      (ctWords m a b n i diff).2.loads = (ctWords m' a b n i diff').2.loads := by
  induction hn : n - i using Nat.strongRecOn generalizing i diff diff' with
  | _ k ih =>
    unfold ctWords
    split
    · obtain ⟨hend, hloads⟩ := ih (n - (i + 4)) (by omega) (i + 4)
        (diff ||| (wordAt m (a + i) ^^^ wordAt m (b + i)))
        (diff' ||| (wordAt m' (a + i) ^^^ wordAt m' (b + i))) rfl
      refine ⟨hend, ?_⟩
      dsimp only
      rw [hloads]
    · exact ⟨rfl, rfl⟩

/-- And with both, one after the other. -/
theorem mbedtlsCtMemcmp_loads (words : Bool) :
    (mbedtlsCtMemcmp words m a b n).loads = (mbedtlsCtMemcmp words m' a b n).loads := by
  have hstart : ∀ m m' : Memory, (if words then ctWords m a b n 0 0 else (0, ⟨0, []⟩)).1 =
      (if words then ctWords m' a b n 0 0 else (0, ⟨0, []⟩)).1 ∧
      (if words then ctWords m a b n 0 0 else (0, ⟨0, []⟩)).2.loads =
      (if words then ctWords m' a b n 0 0 else (0, ⟨0, []⟩)).2.loads := by
    intro m m'
    cases words with
    | false => exact ⟨rfl, rfl⟩
    | true => exact ctWords_loads 0 0 0
  obtain ⟨hend, hloads⟩ := hstart m m'
  show _ ++ _ = _ ++ _
  rw [hloads, hend]
  exact congrArg _ (ctBytes_loads _ _ _)

/-- The bytes of both buffers from `i` up to `j`. -/
def bothRanges (a b i j : Nat) : List Nat := List.range' (a + i) (j - i) ++ List.range' (b + i) (j - i)

/-- One step of a loop loads what it goes past, of both buffers. -/
theorem bothRanges_step {i j k : Nat} (hij : i ≤ j) (hjk : j ≤ k) :
    (List.range' (a + i) (j - i) ++ (List.range' (b + i) (j - i) ++ bothRanges a b j k)).Perm
      (bothRanges a b i k) := by
  have hsplit : ∀ p : Nat, List.range' (p + i) (k - i) =
      List.range' (p + i) (j - i) ++ List.range' (p + j) (k - j) := by
    intro p
    have hlen : k - i = (j - i) + (k - j) := by omega
    have hstart : p + j = p + i + (j - i) := by omega
    rw [hlen, hstart, List.range'_append_1]
  rw [bothRanges, bothRanges, hsplit a, hsplit b, List.append_assoc]
  refine List.Perm.append_left _ ?_
  rw [← List.append_assoc, ← List.append_assoc]
  exact List.Perm.append_right _ List.perm_append_comm

/-- The byte loop loads what is left, once. -/
theorem ctBytes_addresses (i : Nat) (diff : BitVec 32) :
    ((ctBytes m a b n i diff).loads.flatMap Load.addresses).Perm (bothRanges a b i n) := by
  induction hn : n - i using Nat.strongRecOn generalizing i diff with
  | _ k ih =>
    unfold ctBytes
    split
    · rename_i hlt
      rw [List.flatMap_cons, List.flatMap_cons]
      have hrest := ih (n - (i + 1)) (by omega) (i + 1)
        (diff ||| (byteAt m (a + i) ^^^ byteAt m (b + i))) rfl
      refine ((hrest.append_left _).append_left _).trans ?_
      have hstep := bothRanges_step (a := a) (b := b) (Nat.le_succ i) hlt
      rwa [Nat.succ_eq_add_one, Nat.add_sub_cancel_left] at hstep
    · rename_i hge
      rw [bothRanges, Nat.sub_eq_zero_of_le (by omega)]
      exact List.Perm.nil

/-- The word loop loads what it goes past, once. -/
theorem ctWords_addresses (i : Nat) (diff : BitVec 32) (hi : i ≤ n) :
    ((ctWords m a b n i diff).2.loads.flatMap Load.addresses).Perm
      (bothRanges a b i (ctWords m a b n i diff).1) := by
  induction hn : n - i using Nat.strongRecOn generalizing i diff with
  | _ k ih =>
    unfold ctWords
    split
    · rename_i hlt
      obtain ⟨hle, -, -⟩ := ctWords_eq_zero (m := m) (a := a) (b := b) (i + 4)
        (diff ||| (wordAt m (a + i) ^^^ wordAt m (b + i))) hlt
      rw [List.flatMap_cons, List.flatMap_cons]
      have hrest := ih (n - (i + 4)) (by omega) (i + 4)
        (diff ||| (wordAt m (a + i) ^^^ wordAt m (b + i))) hlt rfl
      refine ((hrest.append_left _).append_left _).trans ?_
      have hstep := bothRanges_step (a := a) (b := b) (Nat.le_add_right i 4) hle
      rwa [Nat.add_sub_cancel_left] at hstep
    · dsimp only
      rw [bothRanges, Nat.sub_self]
      exact List.Perm.nil

/-- Every byte of both buffers is loaded, once. -/
theorem mbedtlsCtMemcmp_addresses (words : Bool) :
    ((mbedtlsCtMemcmp words m a b n).loads.flatMap Load.addresses).Perm
      (List.range' a n ++ List.range' b n) := by
  have hall : bothRanges a b 0 n = List.range' a n ++ List.range' b n := by
    rw [bothRanges, Nat.sub_zero, Nat.add_zero, Nat.add_zero]
  rw [← hall]
  cases words with
  | false => exact ctBytes_addresses 0 0
  | true =>
    have hwords := ctWords_addresses (m := m) (a := a) (b := b) 0 0 (Nat.zero_le n)
    obtain ⟨-, hend, -⟩ := ctWords_eq_zero (m := m) (a := a) (b := b) 0 0 (Nat.zero_le n)
    have hbytes := ctBytes_addresses (m := m) (a := a) (b := b) (n := n) (ctWords m a b n 0 0).1
      (ctWords m a b n 0 0).2.result
    show ((ctWords m a b n 0 0).2.loads ++ _).flatMap Load.addresses |>.Perm _
    rw [List.flatMap_append]
    refine (hwords.append hbytes).trans ?_
    have hstep := bothRanges_step (a := a) (b := b) (Nat.zero_le (ctWords m a b n 0 0).1) hend
    rw [← List.append_assoc] at hstep
    exact hstep

end

/-! ### The functions -/

section
variable {m : Memory}

/-- `zuc_equal` tells equal buffers, and what it loads does not depend on what they hold: every
byte of both, once. -/
theorem zucEqual_exact (words : Bool) (a b len : Nat) :
    ((zucEqual words m a b len).result = true ↔
      len = 0 ∨ (a ≠ NULL ∧ b ≠ NULL ∧ read m a len = read m b len)) ∧
    (∀ m', (zucEqual words m' a b len).loads = (zucEqual words m a b len).loads) ∧
    ((zucEqual words m a b len).loads.flatMap Load.addresses).Perm
      (if len = 0 ∨ a = NULL ∨ b = NULL then [] else List.range' a len ++ List.range' b len) := by
  unfold zucEqual
  by_cases hlen : len = 0
  · simp [hlen]
  · by_cases hnull : a = NULL ∨ b = NULL
    · simp only [if_neg hlen, if_pos hnull]
      refine ⟨⟨by simp, ?_⟩, by simp, ?_⟩
      · rintro (h | ⟨ha, hb, -⟩)
        · exact absurd h hlen
        · exact absurd hnull (by simp [ha, hb])
      · rw [if_pos (Or.inr hnull)]
        exact List.Perm.nil
    · simp only [if_neg hlen, if_neg hnull]
      obtain ⟨ha, hb⟩ := not_or.mp hnull
      refine ⟨?_, fun m' => mbedtlsCtMemcmp_loads words, ?_⟩
      · rw [decide_eq_true_eq, mbedtlsCtMemcmp_eq_zero]
        exact ⟨fun h => .inr ⟨ha, hb, h⟩, fun h => h.elim (fun h => absurd h hlen) fun h => h.2.2⟩
      · rw [if_neg (by simp [hlen, ha, hb])]
        exact mbedtlsCtMemcmp_addresses words

/-- A raw vector as R has them: one with bytes is somewhere. -/
structure Sexp.IsVector (x : Sexp) : Prop where
  raw : x.isRaw = true
  ne_null : x.XLENGTH ≠ 0 → x.RAW ≠ NULL

/-- `crypt_equal` is equality of the bytes; of what they are it shows nothing, and of their
lengths only whether they are the same. -/
theorem cryptEqual_exact (words : Bool) {x y : Sexp} (hx : x.IsVector) (hy : y.IsVector) :
    ∃ r, cryptEqual words m x y = .ok r ∧ (r.result = true ↔ x.bytes m = y.bytes m) ∧
      (∀ m', ∃ r', cryptEqual words m' x y = .ok r' ∧ r'.loads = r.loads) ∧
      (r.loads.flatMap Load.addresses).Perm
        (if x.XLENGTH = y.XLENGTH then
          List.range' x.RAW x.XLENGTH ++ List.range' y.RAW y.XLENGTH else []) := by
  have hrun : ∀ m', cryptEqual words m' x y =
      if x.XLENGTH ≠ y.XLENGTH then .ok ⟨false, []⟩ else .ok (zucryptEqual words m' x y) := by
    intro m'
    unfold cryptEqual
    rw [checkRaw_ok hx.raw, checkRaw_ok hy.raw]
    rfl
  -- vectors of different lengths are not looked into
  by_cases hlen : x.XLENGTH = y.XLENGTH
  · obtain ⟨hresult, hloads, haddresses⟩ := zucEqual_exact (m := m) words x.RAW y.RAW x.XLENGTH
    simp only [hrun, if_neg (not_not_intro hlen)]
    refine ⟨_, rfl, ?_, fun m' => ⟨_, rfl, hloads m'⟩, ?_⟩
    · unfold zucryptEqual Sexp.bytes
      rw [hresult, ← hlen]
      constructor
      · rintro (h | ⟨-, -, h⟩)
        · rw [h]
          rfl
        · exact h
      · intro h
        by_cases hzero : x.XLENGTH = 0
        · exact .inl hzero
        · exact .inr ⟨hx.ne_null hzero, hy.ne_null (hlen ▸ hzero), h⟩
    · rw [if_pos hlen, ← hlen]
      unfold zucryptEqual
      refine haddresses.trans ?_
      by_cases hzero : x.XLENGTH = 0
      · simp [hzero]
      · rw [if_neg (by simp [hzero, hx.ne_null hzero, hy.ne_null (hlen ▸ hzero)])]
  · simp only [hrun, if_pos hlen, if_neg hlen]
    refine ⟨_, rfl, ?_, fun m' => ⟨_, rfl, rfl⟩, List.Perm.nil⟩
    refine ⟨by simp, fun h => absurd ?_ hlen⟩
    have hlengths := congrArg List.length h
    simpa [Sexp.bytes] using hlengths

/-- A tag of five bytes against another that differs in the last. -/
theorem cryptEqual_exact_tags :
    let m : Memory := write (write (fun _ => 0) 16 [1, 2, 3, 4, 5]) 32 [1, 2, 3, 4, 6]
    ∃ r, cryptEqual true m (.raw 16 5 []) (.raw 32 5 []) = .ok r ∧
      (r.result = true ↔ (Sexp.raw 16 5 []).bytes m = (Sexp.raw 32 5 []).bytes m) ∧
      (∀ m', ∃ r', cryptEqual true m' (.raw 16 5 []) (.raw 32 5 []) = .ok r' ∧ r'.loads = r.loads) ∧
      (r.loads.flatMap Load.addresses).Perm
        (if 5 = 5 then List.range' 16 5 ++ List.range' 32 5 else []) :=
  cryptEqual_exact true ⟨rfl, by decide⟩ ⟨rfl, by decide⟩

end

end Zucrypt
