import Mathlib.Data.List.Basic

/-! # Cipher block chaining

CBC over blocks of any type with an exclusive or, and over byte strings cut into blocks of `n`
bytes.  What a pass leaves behind for the next one is the last ciphertext block (`chainAfter`),
which is on the output side of an encryption and on the input side of a decryption; a pass over a
message is then the same as two passes over its parts (`cbc_append`), and a decryption undoes an
encryption (`cbc_decrypt_encrypt`), with the same block left behind by both.

Each is proved over blocks first, by induction on the message.  The versions over bytes are the same
facts once a string whose length is a multiple of `n` is the bytes of its blocks (`exists_blocks`),
and it is these that an implementation is held against.  A block is a list with its length, so that
no lemma has to ask for it. -/
namespace BlockChaining

/-- A permutation of blocks, as a block cipher is under one key. -/
structure BlockCipher (β : Type) where
  encrypt : β → β
  decrypt : β → β
  decrypt_encrypt : ∀ b, decrypt (encrypt b) = b

/-- Mixing a block in twice leaves no trace of it. -/
class CancelXor (β : Type) [XorOp β] : Prop where
  xor_xor_cancel : ∀ a b : β, (a ^^^ b) ^^^ b = a

inductive Direction where
  | encrypt
  | decrypt
  deriving DecidableEq, Repr

section
variable {β : Type} [XorOp β] (C : BlockCipher β)

/-- `cᵢ = E (pᵢ ⊕ cᵢ₋₁)`. -/
def cbcEncrypt : β → List β → List β
  | _, [] => []
  | iv, p :: ps => C.encrypt (p ^^^ iv) :: cbcEncrypt (C.encrypt (p ^^^ iv)) ps

/-- `pᵢ = D cᵢ ⊕ cᵢ₋₁`. -/
def cbcDecrypt : β → List β → List β
  | _, [] => []
  | iv, c :: cs => (C.decrypt c ^^^ iv) :: cbcDecrypt c cs

/-- One pass, in either direction. -/
def cbc : Direction → β → List β → List β
  | .encrypt => cbcEncrypt C
  | .decrypt => cbcDecrypt C

/-- The chaining value a pass leaves. -/
def chainAfter : Direction → β → List β → β
  | .encrypt, iv, ps => (cbcEncrypt C iv ps).getLastD iv
  | .decrypt, iv, cs => cs.getLastD iv

@[simp] theorem cbc_nil (dir : Direction) (iv : β) : cbc C dir iv [] = [] := by
  cases dir <;> rfl

@[simp] theorem chainAfter_nil (dir : Direction) (iv : β) : chainAfter C dir iv [] = iv := by
  cases dir <;> rfl

@[simp] theorem length_cbc (dir : Direction) (iv : β) (bs : List β) :
    (cbc C dir iv bs).length = bs.length := by
  induction bs generalizing iv with
  | nil => simp
  | cons b bs ih =>
    cases dir with
    | encrypt => exact congrArg (· + 1) (ih _)
    | decrypt => exact congrArg (· + 1) (ih _)

omit [XorOp β] in
theorem getLastD_cons (b iv : β) (bs : List β) : (b :: bs).getLastD iv = bs.getLastD b := by
  cases bs <;> rfl

/-- One block, and what is left to do from there. -/
theorem cbc_cons (dir : Direction) (iv b : β) (bs : List β) :
    cbc C dir iv (b :: bs) = cbc C dir iv [b] ++ cbc C dir (chainAfter C dir iv [b]) bs := by
  cases dir <;> rfl

theorem chainAfter_cons (dir : Direction) (iv b : β) (bs : List β) :
    chainAfter C dir iv (b :: bs) = chainAfter C dir (chainAfter C dir iv [b]) bs := by
  cases dir with
  | encrypt => exact getLastD_cons _ iv _
  | decrypt => exact getLastD_cons _ iv _

/-- Chaining: the first part's last ciphertext block starts the second. -/
theorem cbc_append (dir : Direction) (iv : β) (as bs : List β) :
    cbc C dir iv (as ++ bs) = cbc C dir iv as ++ cbc C dir (chainAfter C dir iv as) bs := by
  induction as generalizing iv with
  | nil => simp
  | cons a as ih =>
    rw [List.cons_append, cbc_cons, ih, cbc_cons C dir iv a as, chainAfter_cons C dir iv a as,
      List.append_assoc]

theorem chainAfter_append (dir : Direction) (iv : β) (as bs : List β) :
    chainAfter C dir iv (as ++ bs) = chainAfter C dir (chainAfter C dir iv as) bs := by
  induction as generalizing iv with
  | nil => simp
  | cons a as ih => rw [List.cons_append, chainAfter_cons, ih, chainAfter_cons C dir iv a as]

theorem cbc_decrypt_encrypt [CancelXor β] (iv : β) (ps : List β) :
    cbc C .decrypt iv (cbc C .encrypt iv ps) = ps := by
  induction ps generalizing iv with
  | nil => rfl
  | cons p ps ih =>
    have hblock : C.decrypt (C.encrypt (p ^^^ iv)) ^^^ iv = p := by
      rw [C.decrypt_encrypt, CancelXor.xor_xor_cancel]
    exact congrArg₂ List.cons hblock (ih _)

/-- Decryption leaves the chaining value that encryption did. -/
theorem chainAfter_decrypt_encrypt (iv : β) (ps : List β) :
    chainAfter C .decrypt iv (cbc C .encrypt iv ps) = chainAfter C .encrypt iv ps := rfl

end

/-! ### Byte strings as blocks -/

/-- `n` bytes. -/
def Block (n : Nat) : Type := { b : List UInt8 // b.length = n }

namespace Block
variable {n : Nat}

instance : DecidableEq (Block n) := inferInstanceAs (DecidableEq { b : List UInt8 // b.length = n })

instance : XorOp (Block n) where
  xor a b := ⟨List.zipWith (· ^^^ ·) a.1 b.1, by simp [a.2, b.2]⟩

theorem xor_val (a b : Block n) : (a ^^^ b).1 = List.zipWith (· ^^^ ·) a.1 b.1 := rfl

theorem zipWith_xor_cancel (as bs : List UInt8) (h : as.length = bs.length) :
    List.zipWith (· ^^^ ·) (List.zipWith (· ^^^ ·) as bs) bs = as := by
  induction as generalizing bs with
  | nil => rfl
  | cons a as ih =>
    cases bs with
    | nil => simp at h
    | cons b bs =>
      have hbyte : (a ^^^ b) ^^^ b = a := by
        rw [UInt8.xor_assoc, UInt8.xor_self, UInt8.xor_zero]
      exact congrArg₂ List.cons hbyte (ih bs (Nat.succ.inj h))

instance : CancelXor (Block n) where
  xor_xor_cancel a b := by
    apply Subtype.ext
    rw [xor_val, xor_val]
    exact zipWith_xor_cancel a.1 b.1 (a.2.trans b.2.symm)

/-- The first `n` bytes, with zeros for what is missing. -/
def ofBytes (bs : List UInt8) : Block n :=
  ⟨(bs ++ List.replicate n 0).take n, by simp⟩

theorem ofBytes_append (b : Block n) (bs : List UInt8) : ofBytes (b.1 ++ bs) = b := by
  apply Subtype.ext
  simp only [ofBytes, List.append_assoc]
  exact List.take_left' b.2

theorem ofBytes_val (b : Block n) : ofBytes b.1 = b := by
  have := ofBytes_append b []
  rwa [List.append_nil] at this

theorem val_ofBytes {bs : List UInt8} (h : n ≤ bs.length) :
    (ofBytes bs : Block n).1 = bs.take n := by
  simp only [ofBytes]
  exact List.take_append_of_le_length h

end Block

section
variable {n : Nat}

/-- The bytes of a sequence of blocks. -/
def bytesOf (bs : List (Block n)) : List UInt8 := bs.flatMap Subtype.val

/-- The first `k` blocks of a byte string. -/
def blocks : Nat → List UInt8 → List (Block n)
  | 0, _ => []
  | k + 1, bs => Block.ofBytes bs :: blocks k (bs.drop n)

@[simp] theorem bytesOf_nil : bytesOf ([] : List (Block n)) = [] := rfl

theorem bytesOf_cons (b : Block n) (bs : List (Block n)) :
    bytesOf (b :: bs) = b.1 ++ bytesOf bs := rfl

theorem bytesOf_append (as bs : List (Block n)) : bytesOf (as ++ bs) = bytesOf as ++ bytesOf bs :=
  List.flatMap_append

theorem length_bytesOf (bs : List (Block n)) : (bytesOf bs).length = n * bs.length := by
  induction bs with
  | nil => rfl
  | cons b bs ih =>
    rw [bytesOf_cons, List.length_append, b.2, ih, List.length_cons, Nat.mul_succ, Nat.add_comm]

/-- Cutting the bytes of blocks gives the blocks back. -/
theorem blocks_bytesOf_append (bs : List (Block n)) (k : Nat) (rest : List UInt8) :
    (blocks (bs.length + k) (bytesOf bs ++ rest) : List (Block n)) = bs ++ blocks k rest := by
  induction bs with
  | nil => simp
  | cons b bs ih =>
    rw [List.length_cons, Nat.succ_add, blocks, bytesOf_cons, List.append_assoc,
      Block.ofBytes_append, List.drop_left' b.2, ih, List.cons_append]

theorem blocks_bytesOf (bs : List (Block n)) :
    (blocks bs.length (bytesOf bs) : List (Block n)) = bs := by
  have := blocks_bytesOf_append bs 0 []
  rwa [List.append_nil, Nat.add_zero, blocks, List.append_nil] at this

/-- A byte string of a whole number of blocks is their bytes. -/
theorem bytesOf_blocks {k : Nat} {bs : List UInt8} (h : bs.length = n * k) :
    bytesOf (blocks k bs : List (Block n)) = bs := by
  induction k generalizing bs with
  | zero =>
    rw [Nat.mul_zero] at h
    rw [List.length_eq_zero_iff.mp h]
    rfl
  | succ k ih =>
    rw [Nat.mul_succ] at h
    have hfirst : (Block.ofBytes bs : Block n).1 = bs.take n := Block.val_ofBytes (by omega)
    have hrest : (bs.drop n).length = n * k := by
      rw [List.length_drop]
      omega
    rw [blocks, bytesOf_cons, ih hrest, hfirst, List.take_append_drop]

variable (C : BlockCipher (Block n))

/-- CBC of a byte string. -/
def cbcBytes (dir : Direction) (iv : Block n) (bs : List UInt8) : List UInt8 :=
  bytesOf (cbc C dir iv (blocks (bs.length / n) bs))

/-- The chaining value it leaves. -/
def chainBytes (dir : Direction) (iv : Block n) (bs : List UInt8) : Block n :=
  chainAfter C dir iv (blocks (bs.length / n) bs)

variable {C}

/-- A byte string of whole blocks is the bytes of some. -/
theorem exists_blocks {bs : List UInt8} (h : bs.length % n = 0) :
    ∃ ls : List (Block n), bs = bytesOf ls :=
  ⟨_, (bytesOf_blocks (Nat.mul_div_cancel' (Nat.dvd_of_mod_eq_zero h)).symm).symm⟩

theorem blocks_of_bytesOf (hn : 0 < n) (ls : List (Block n)) :
    (blocks ((bytesOf ls).length / n) (bytesOf ls) : List (Block n)) = ls := by
  rw [length_bytesOf, Nat.mul_div_cancel_left _ hn, blocks_bytesOf]

theorem cbcBytes_bytesOf (hn : 0 < n) (dir : Direction) (iv : Block n) (ls : List (Block n)) :
    cbcBytes C dir iv (bytesOf ls) = bytesOf (cbc C dir iv ls) := by
  rw [cbcBytes, blocks_of_bytesOf hn]

theorem chainBytes_bytesOf (hn : 0 < n) (dir : Direction) (iv : Block n) (ls : List (Block n)) :
    chainBytes C dir iv (bytesOf ls) = chainAfter C dir iv ls := by
  rw [chainBytes, blocks_of_bytesOf hn]

theorem length_cbcBytes (hn : 0 < n) (dir : Direction) (iv : Block n) {bs : List UInt8}
    (h : bs.length % n = 0) : (cbcBytes C dir iv bs).length = bs.length := by
  obtain ⟨ls, rfl⟩ := exists_blocks h
  rw [cbcBytes_bytesOf hn, length_bytesOf, length_cbc, length_bytesOf]

@[simp] theorem cbcBytes_nil (dir : Direction) (iv : Block n) : cbcBytes C dir iv [] = [] := by
  simp [cbcBytes, blocks]

@[simp] theorem chainBytes_nil (dir : Direction) (iv : Block n) : chainBytes C dir iv [] = iv := by
  simp [chainBytes, blocks]

theorem cbcBytes_append (hn : 0 < n) (dir : Direction) (iv : Block n) {as bs : List UInt8}
    (ha : as.length % n = 0) (hb : bs.length % n = 0) :
    cbcBytes C dir iv (as ++ bs) =
      cbcBytes C dir iv as ++ cbcBytes C dir (chainBytes C dir iv as) bs := by
  obtain ⟨ks, rfl⟩ := exists_blocks ha
  obtain ⟨ls, rfl⟩ := exists_blocks hb
  rw [← bytesOf_append, cbcBytes_bytesOf hn, cbcBytes_bytesOf hn, cbcBytes_bytesOf hn,
    chainBytes_bytesOf hn, cbc_append, bytesOf_append]

theorem chainBytes_append (hn : 0 < n) (dir : Direction) (iv : Block n) {as bs : List UInt8}
    (ha : as.length % n = 0) (hb : bs.length % n = 0) :
    chainBytes C dir iv (as ++ bs) = chainBytes C dir (chainBytes C dir iv as) bs := by
  obtain ⟨ks, rfl⟩ := exists_blocks ha
  obtain ⟨ls, rfl⟩ := exists_blocks hb
  rw [← bytesOf_append, chainBytes_bytesOf hn, chainBytes_bytesOf hn, chainBytes_bytesOf hn,
    chainAfter_append]

theorem cbcBytes_decrypt_encrypt (hn : 0 < n) (iv : Block n) {bs : List UInt8}
    (h : bs.length % n = 0) : cbcBytes C .decrypt iv (cbcBytes C .encrypt iv bs) = bs := by
  obtain ⟨ls, rfl⟩ := exists_blocks h
  rw [cbcBytes_bytesOf hn, cbcBytes_bytesOf hn, cbc_decrypt_encrypt]

theorem chainBytes_decrypt_encrypt (hn : 0 < n) (iv : Block n) {bs : List UInt8}
    (h : bs.length % n = 0) :
    chainBytes C .decrypt iv (cbcBytes C .encrypt iv bs) = chainBytes C .encrypt iv bs := by
  obtain ⟨ls, rfl⟩ := exists_blocks h
  rw [cbcBytes_bytesOf hn, chainBytes_bytesOf hn, chainBytes_bytesOf hn,
    chainAfter_decrypt_encrypt]

/-- The last of a nonempty sequence of blocks is the last `n` bytes. -/
theorem getLastD_eq_ofBytes (iv : Block n) {ls : List (Block n)} (h : ls ≠ []) :
    ls.getLastD iv = Block.ofBytes ((bytesOf ls).drop ((bytesOf ls).length - n)) := by
  obtain ⟨init, b, rfl⟩ := (List.eq_nil_or_concat ls).resolve_left h
  rw [List.concat_eq_append]
  have hdrop : ((bytesOf (init ++ [b])).length - n) = (bytesOf init).length := by
    rw [bytesOf_append, List.length_append]
    have hlast : (bytesOf [b]).length = n * 1 := length_bytesOf [b]
    omega
  have hb : bytesOf [b] = b.1 := List.append_nil _
  rw [hdrop, bytesOf_append, List.drop_left, hb, Block.ofBytes_val, List.getLastD_concat]

/-- What is left is the last ciphertext block: in the output of an encryption. -/
theorem chainBytes_encrypt (hn : 0 < n) (iv : Block n) {bs : List UInt8} (h : bs.length % n = 0)
    (hne : bs ≠ []) :
    chainBytes C .encrypt iv bs =
      Block.ofBytes ((cbcBytes C .encrypt iv bs).drop (bs.length - n)) := by
  rw [← length_cbcBytes (C := C) hn .encrypt iv h]
  obtain ⟨ls, rfl⟩ := exists_blocks h
  have hls : cbc C .encrypt iv ls ≠ [] := by
    rintro hnil
    have hlen := congrArg List.length hnil
    rw [length_cbc, List.length_nil] at hlen
    exact hne (by rw [List.length_eq_zero_iff.mp hlen]; rfl)
  rw [chainBytes_bytesOf hn, cbcBytes_bytesOf hn]
  exact getLastD_eq_ofBytes iv hls

/-- And in the input of a decryption. -/
theorem chainBytes_decrypt (hn : 0 < n) (iv : Block n) {bs : List UInt8} (h : bs.length % n = 0)
    (hne : bs ≠ []) :
    chainBytes C .decrypt iv bs = Block.ofBytes (bs.drop (bs.length - n)) := by
  obtain ⟨ls, rfl⟩ := exists_blocks h
  have hls : ls ≠ [] := by
    rintro rfl
    exact hne rfl
  rw [chainBytes_bytesOf hn]
  exact getLastD_eq_ofBytes iv hls

end

end BlockChaining
