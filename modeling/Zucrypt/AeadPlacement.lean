import Zucrypt.AeadLaws

/-! # Where the buffers of an AEAD call may be

Every buffer is read before the first byte of the result is stored, all but the tag: an encryption
stores it last, and a decryption reads it after the plaintext.  The checks compare input with output
only.  So a call is correct wherever its buffers are, unless the tag shares a byte with the output,
and then a right answer is overwritten, or the wrong tag is verified.

`SealsAt` and `OpensAt` say that a placement is correct, for every memory and every backend that
computes some scheme correctly; `aead_placement_iff` is that both hold of exactly those placements
that the checks refuse or that keep the tag apart from the output (`TagApart`).

That apart is enough follows from what a correct backend's pass leaves (`sealsAt_of_apart`,
`opensAt_of_apart`).  For the converse a scheme is needed at which a wrong byte shows, whichever
byte it is: `constantPrimitives` has the tag all zeros and the keystream all ones, so that the
shared byte cannot be both (`not_sealsAt_of_shared`, `not_opensAt_of_shared`).

The backend is asked to be a stream mode (`AeadLaws.Streams`), as GCM is: it emits the bytes as it
is given them.  One that kept all back until the end would read the tag first. -/
namespace Zucrypt
open Effects ByteMemory BlockChaining AuthenticatedEncryption

variable {O : Objects} {σ : Type}

/-- Where the buffers of a call are, and how long; each may overlap any other.  The tag
has its full length. -/
structure AeadPlacement where
  key : Nat
  keyLen : Nat
  nonce : Nat
  nonceLen : Nat
  aad : Nat
  aadLen : Nat
  inp : Nat
  len : Nat
  out : Nat
  tag : Nat
  inp_end : inp + len < sizeMax1
  out_end : out + len < sizeMax1

namespace AeadPlacement

/-- The checks let the call through. -/
def Accepted (B : AeadPlacement) : Prop :=
  AeadArgs true .aesGcm B.key B.keyLen B.nonce B.nonceLen B.aad B.aadLen B.inp B.len B.out B.tag
    ZUC_GCM_TAG_SIZE

/-- The tag shares no byte with the output. -/
def TagApart (B : AeadPlacement) : Prop := Apart B.out B.len B.tag ZUC_GCM_TAG_SIZE

/-- Lengths that fit the address space fit a `size_t`. -/
theorem size (B : AeadPlacement) : B.len < sizeMax1 := by
  have := B.out_end
  omega

/-- `zuc_aead_encrypt`, with its buffers placed so. -/
def encrypt (B : AeadPlacement) (alg : ZucAlg) : Adapter O ZucStatus :=
  zucAeadEncrypt alg B.key B.keyLen B.nonce B.nonceLen B.aad B.aadLen B.inp B.len B.out B.tag
    ZUC_GCM_TAG_SIZE

/-- `zuc_aead_decrypt`, with its buffers placed so. -/
def decrypt (B : AeadPlacement) (alg : ZucAlg) : Adapter O ZucStatus :=
  zucAeadDecrypt alg B.key B.keyLen B.nonce B.nonceLen B.aad B.aadLen B.inp B.len B.tag
    ZUC_GCM_TAG_SIZE B.out

/-- What encrypting the bytes in `m` gives. -/
def sealed (B : AeadPlacement) (G : Scheme ZUC_GCM_TAG_SIZE) (m : Memory) : List Byte × List Byte :=
  G.encrypt (read m B.key B.keyLen) (read m B.nonce B.nonceLen) (read m B.aad B.aadLen)
    (read m B.inp B.len)

/-- What decrypting the bytes in `m` gives, under the tag in `m'`. -/
def opened (B : AeadPlacement) (G : Scheme ZUC_GCM_TAG_SIZE) (m m' : Memory) :
    Option (List Byte) :=
  G.decrypt (read m B.key B.keyLen) (read m B.nonce B.nonceLen) (read m B.aad B.aadLen)
    (read m B.inp B.len) (read m' B.tag ZUC_GCM_TAG_SIZE)

end AeadPlacement

/-- GCM is a stream mode: the update emits every byte, before the tag is looked at. -/
def AeadLaws.Streams {h : Handler (Call O) σ} {G : Scheme ZUC_GCM_TAG_SIZE} (L : AeadLaws h G) :
    Prop :=
  ∀ s op dir K N A X size, L.begun op dir K N A [] [] → X ≠ [] → X.length ≤ size →
    (answer h (.aeadUpdate op X size) s).2.2.len = X.length

/-- Encryption at this placement is correct: whatever the memory holds and whatever
correct backend computes it, it returns an error or leaves the ciphertext and the tag
of the bytes there on entry. -/
def SealsAt (B : AeadPlacement) : Prop :=
  ∀ (O : Objects) (σ : Type) (h : Handler (Call O) σ) (G : Scheme ZUC_GCM_TAG_SIZE)
    (L : AeadLaws h G), L.Streams → ∀ (alg : ZucAlg) (w : World) (s : σ),
      let r := (B.encrypt alg).exec h w s
      r.value = .ok → read r.world.mem B.out B.len = (B.sealed G w.mem).1 ∧
        read r.world.mem B.tag ZUC_GCM_TAG_SIZE = (B.sealed G w.mem).2

/-- Decryption at this placement is correct: a call the checks let through succeeds
exactly when the bytes there on entry authenticate, and leaves their plaintext. -/
def OpensAt (B : AeadPlacement) : Prop :=
  ∀ (O : Objects) (σ : Type) (h : Handler (Call O) σ) (G : Scheme ZUC_GCM_TAG_SIZE)
    (L : AeadLaws h G), L.Streams → ∀ (alg : ZucAlg) (w : World) (s : σ),
      let r := (B.decrypt alg).exec h w s
      aeadArgs (decide (0 < w.refcount)) .decrypt alg B.key B.keyLen B.nonce B.nonceLen B.aad
        B.aadLen B.inp B.len B.out B.tag ZUC_GCM_TAG_SIZE = .ok →
      match B.opened G w.mem w.mem with
      | some P => r.value = .ok ∧ read r.world.mem B.out B.len = P
      | none => r.value ≠ .ok

/-! ### Where the tag is apart -/

section
variable {B : AeadPlacement} {h : Handler (Call O) σ} {w : World} {s : σ} {alg : ZucAlg}

/-- An encryption that succeeds passed the checks. -/
theorem args_of_encrypt_ok (hok : ((B.encrypt alg).exec h w s).value = .ok) :
    AeadArgs (decide (0 < w.refcount)) alg B.key B.keyLen B.nonce B.nonceLen B.aad B.aadLen B.inp
      B.len B.out B.tag ZUC_GCM_TAG_SIZE := by
  by_contra hrefused
  have hargs : aeadArgs (decide (0 < w.refcount)) .encrypt alg B.key B.keyLen B.nonce B.nonceLen
      B.aad B.aadLen B.inp B.len B.out B.tag ZUC_GCM_TAG_SIZE ≠ .ok :=
    fun hargs => hrefused (aeadArgs_eq_ok.mp hargs)
  simp only [AeadPlacement.encrypt, zucAeadEncrypt, checkAeadArgs, Proc.exec_bind, exec_zucIntReady,
    Proc.exec_pure, ne_eq, hargs, not_false_eq_true, if_true] at hok

/-- Arguments that pass are an accepted placement. -/
theorem accepted_of_args {ready : Bool} (hargs : AeadArgs ready alg B.key B.keyLen B.nonce B.nonceLen
    B.aad B.aadLen B.inp B.len B.out B.tag ZUC_GCM_TAG_SIZE) : B.Accepted := by
  have hready := hargs.ready
  have halg := hargs.alg
  subst hready halg
  exact hargs

end

/-- Where the tag is apart, what was stored is still there after the tag is. -/
theorem sealsAt_of_apart {B : AeadPlacement} (happart : B.Accepted → B.TagApart) : SealsAt B := by
  intro O σ h G L _ alg w s r hok
  have hargs := args_of_encrypt_ok hok
  obtain ⟨-, ⟨m', bs, hout, hbs, hmem⟩, htag⟩ := exec_zucAeadEncrypt_seal L hargs B.size s
  refine ⟨?_, htag⟩
  have haway : Apart B.tag bs.length B.out B.len := by
    have := happart (accepted_of_args hargs)
    unfold AeadPlacement.TagApart Apart at this
    unfold Apart
    omega
  have hmem : r.world.mem = write m' B.tag bs := hmem
  rw [hmem, read_write_apart _ haway]
  exact hout

/-- Where it is apart, the tag that is verified is the one that was there on entry. -/
theorem opensAt_of_apart {B : AeadPlacement} (happart : B.Accepted → B.TagApart) : OpensAt B := by
  intro O σ h G L _ alg w s r hok
  have hargs := aeadArgs_eq_ok.mp hok
  obtain ⟨D, a, w', hdata, hend⟩ := exec_zucAeadDecrypt_open L hargs B.size s
  rw [hdata.tag_kept L (happart (accepted_of_args hargs))] at hend
  have hend : match B.opened G w.mem w.mem with
    | some P => r.value = .ok ∧ read r.world.mem B.out B.len = P
    | none => r.value = .errAuth := hend
  cases hopen : B.opened G w.mem w.mem with
  | some P =>
    rw [hopen] at hend
    exact hend
  | none =>
    rw [hopen] at hend
    have hauth : r.value = .errAuth := hend
    simp [hauth]

/-! ### A backend that streams -/

/-- A keystream and a tag over the ciphertext. -/
structure StreamPrimitives where
  stream : List Byte → List Byte → Nat → List Byte
  tag : List Byte → List Byte → List Byte → List Byte → List Byte
  length_stream : ∀ K N n, (stream K N n).length = n
  length_tag : ∀ K N A C, (tag K N A C).length = ZUC_GCM_TAG_SIZE

/-- The scheme they make. -/
def StreamPrimitives.scheme (P : StreamPrimitives) : Scheme ZUC_GCM_TAG_SIZE :=
  .ofStream P.stream P.tag P.length_stream P.length_tag

/-- An AEAD operation that has emitted all it was given, of which it keeps the
ciphertext. -/
inductive StreamAead where
  | idle
  | ready (dir : Direction) (K : List Byte)
  | begun (dir : Direction) (K N A C : List Byte)

def streamObjects : Objects := { referenceObjects with Aead := StreamAead, aeadInit := .idle }

/-- Masking gives the ciphertext of a message and the message of a ciphertext. -/
def StreamPrimitives.ciphertext (P : StreamPrimitives) (dir : Direction) (K N X : List Byte) :
    List Byte :=
  match dir with
  | .encrypt => mask (P.stream K N) X
  | .decrypt => X

/-- The backend's functions; its keys are numbered as they are imported. -/
def streamPsa (P : StreamPrimitives) :
    {α : Type} → PsaCall streamObjects α → List (List Byte) → α × List (List Byte)
  | _, .importKey _ K, s => ((.success, s.length), s ++ [K])
  | _, .aeadEncryptSetup _ id .gcm, s =>
    match s[id]? with
    | some K => ((.success, .ready .encrypt K), s)
    | none => ((.errorInvalidArgument, .idle), s)
  | _, .aeadDecryptSetup _ id .gcm, s =>
    match s[id]? with
    | some K => ((.success, .ready .decrypt K), s)
    | none => ((.errorInvalidArgument, .idle), s)
  | _, .aeadSetNonce (.ready dir K) N, s => ((.success, .begun dir K N [] []), s)
  | _, .aeadUpdateAd (.begun dir K N A []) bs, s => ((.success, .begun dir K N (A ++ bs) []), s)
  | _, .aeadUpdate (.begun dir K N A []) X _, s =>
    ((.success, .begun dir K N A (P.ciphertext dir K N X), .full (mask (P.stream K N) X)), s)
  | _, .aeadFinish (.begun .encrypt K N A C) _ _, s =>
    ((.success, .idle, .full [], .full (P.tag K N A C)), s)
  | _, .aeadVerify (.begun .decrypt K N A C) _ T, s =>
    match P.scheme.decrypt K N A C T with
    | some _ => ((.success, .idle, .full []), s)
    | none => ((.errorInvalidSignature, .begun .decrypt K N A C, .full []), s)
  | _, .aeadAbort _, s => (.idle, s)
  | _, c, s => (refusal c, s)

/-- The backend; it has no memory to give. -/
def streamBackend (P : StreamPrimitives) : Handler (Call streamObjects) (List (List Byte))
  | _, .psa c, s => (⟨(streamPsa P c s).1, false⟩, (streamPsa P c s).2)
  | _, .calloc _, s => (none, s)
  | _, .malloc _, s => (none, s)
  | _, .freeRecord .., s => ((), s)
  | _, .freeBytes _, s => ((), s)
  | _, .dropLocal _, s => ((), s)
  | _, .allocRaw _, s => (NULL, s)

/-- It computes the scheme. -/
def streamLaws (P : StreamPrimitives) : AeadLaws (streamBackend P) P.scheme where
  keyAt s id K := s[id]? = some K
  ready op dir K := op = .ready dir K
  begun op dir K N A X D :=
    op = .begun dir K N A (P.ciphertext dir K N X) ∧ D = mask (P.stream K N) X
  importKey s K _ := ⟨rfl, by simp [next, answer, streamBackend, streamPsa]⟩
  setup s dir id K hkey := by
    cases dir with
    | encrypt =>
      simp only [answer, aeadSetup, streamBackend, streamPsa, hkey]
      exact ⟨trivial, rfl⟩
    | decrypt =>
      simp only [answer, aeadSetup, streamBackend, streamPsa, hkey]
      exact ⟨trivial, rfl⟩
  setNonce s op dir K N hop _ := by
    subst hop
    refine ⟨rfl, ?_, rfl⟩
    cases dir <;> rfl
  updateAd s op dir K N A hop _ := by
    obtain ⟨rfl, -⟩ := hop
    cases dir <;> exact ⟨rfl, rfl, rfl⟩
  update s op dir K N A X size hop _ _ := by
    obtain ⟨rfl, -⟩ := hop
    have hlen := length_mask (P.length_stream K N) X
    cases dir <;>
      exact ⟨rfl, _, Nat.le_of_eq hlen, Output.full_delivers _, rfl, rfl⟩
  finish s op K N A X D size hop _ := by
    obtain ⟨rfl, rfl⟩ := hop
    exact ⟨rfl, ⟨[], List.append_nil _, Output.full_delivers _⟩, Output.full_delivers _⟩
  accept s op K N A X D size T bs hop _ hdec := by
    obtain ⟨rfl, rfl⟩ := hop
    have hplain : mask (P.stream K N) X = bs := by
      have hX : mask (P.stream K N) bs = X :=
        congrArg Prod.fst ((P.scheme.decrypt_eq_some K N A X T bs).mp hdec)
      rw [← hX, mask_mask (P.length_stream K N)]
    simp only [answer, streamBackend, streamPsa, StreamPrimitives.ciphertext, hdec]
    exact ⟨trivial, [], (List.append_nil _).trans hplain, Output.full_delivers _⟩
  refuse s op K N A X D size T hop _ hdec := by
    obtain ⟨rfl, rfl⟩ := hop
    simp only [answer, streamBackend, streamPsa, StreamPrimitives.ciphertext, hdec]

/-- The backend emits all it is given. -/
theorem streamLaws_streams (P : StreamPrimitives) : (streamLaws P).Streams := by
  intro s op dir K N A X size hop _ _
  obtain ⟨rfl, -⟩ := hop
  have hlen := length_mask (P.length_stream K N) X
  cases dir <;> exact hlen

/-! ### Where the tag shares a byte with the output -/

/-- Every keystream byte is 255, and every tag is zero. -/
def constantPrimitives : StreamPrimitives where
  stream _ _ n := List.replicate n 0xff
  tag _ _ _ _ := List.replicate ZUC_GCM_TAG_SIZE 0
  length_stream _ _ _ := List.length_replicate
  length_tag _ _ _ _ := List.length_replicate

/-- Its memory is all zeros. -/
theorem read_readyWorld (p n : Nat) : read readyWorld.mem p n = List.replicate n 0 := by
  simp [ByteMemory.read, readyWorld]

/-- The ciphertext of zeros is the keystream. -/
theorem mask_zeros (K N : List Byte) (n : Nat) :
    mask (constantPrimitives.stream K N) (List.replicate n 0) = List.replicate n 0xff := by
  simp [mask, constantPrimitives]

/-- A byte of a range that reads as `n` times the same. -/
theorem apply_of_read {m : Memory} {p n x : Nat} {b : Byte} (h : read m p n = List.replicate n b)
    (hle : p ≤ x) (hlt : x < p + n) : m x = b := by
  obtain ⟨i, rfl⟩ := Nat.exists_eq_add_of_le hle
  have hi : i < n := by omega
  have hget := getElem?_read m p n i
  rw [h, if_pos hi, List.getElem?_replicate, if_pos hi] at hget
  exact (Option.some.inj hget).symm

/-- A byte the tag shares with the output. -/
theorem AeadPlacement.exists_shared {B : AeadPlacement} (h : ¬ B.TagApart) :
    ∃ x, (B.out ≤ x ∧ x < B.out + B.len) ∧ B.tag ≤ x ∧ x < B.tag + ZUC_GCM_TAG_SIZE := by
  unfold TagApart Apart at h
  refine ⟨max B.out B.tag, ?_, ?_⟩
  all_goals omega

section
variable {B : AeadPlacement} {m m' : Memory}

/-- A tag of zeros is right, for any ciphertext. -/
theorem opened_constant (h : read m' B.tag ZUC_GCM_TAG_SIZE = List.replicate ZUC_GCM_TAG_SIZE 0) :
    ∃ P, B.opened constantPrimitives.scheme m m' = some P :=
  ⟨_, if_pos h.symm⟩

/-- And no other is. -/
theorem opened_constant_none
    (h : read m' B.tag ZUC_GCM_TAG_SIZE ≠ List.replicate ZUC_GCM_TAG_SIZE 0) :
    B.opened constantPrimitives.scheme m m' = none :=
  if_neg (Ne.symm h)

end

/-- The tag is stored over the ciphertext. -/
theorem not_sealsAt_of_shared {B : AeadPlacement} (hB : B.Accepted) (h : ¬ B.TagApart) :
    ¬ SealsAt B := by
  intro hseals
  obtain ⟨x, ⟨hout, hout'⟩, htag, htag'⟩ := AeadPlacement.exists_shared h
  let L := streamLaws constantPrimitives
  obtain ⟨hok, -, hread⟩ := exec_zucAeadEncrypt_seal (w := readyWorld) L hB B.size []
  obtain ⟨hciphertext, -⟩ := hseals _ _ _ _ L (streamLaws_streams _) .aesGcm readyWorld [] hok
  have hmasked : (B.sealed constantPrimitives.scheme readyWorld.mem).1 =
      List.replicate B.len 0xff := by
    show mask _ (read readyWorld.mem B.inp B.len) = _
    rw [read_readyWorld B.inp]
    exact mask_zeros _ _ _
  have hx := apply_of_read (hciphertext.trans hmasked) hout hout'
  have hx' := apply_of_read (b := 0) hread htag htag'
  exact absurd (hx.symm.trans hx') (by decide)

/-- The plaintext is stored over the tag, which is then verified. -/
theorem not_opensAt_of_shared {B : AeadPlacement} (hB : B.Accepted) (h : ¬ B.TagApart) :
    ¬ OpensAt B := by
  intro hopens
  obtain ⟨x, ⟨hout, hout'⟩, htag, htag'⟩ := AeadPlacement.exists_shared h
  let L := streamLaws constantPrimitives
  have hspec := hopens _ _ _ _ L (streamLaws_streams _) .aesGcm readyWorld []
    (aeadArgs_eq_ok.mpr hB)
  obtain ⟨D, a, w', hdata, hend⟩ := exec_zucAeadDecrypt_open (w := readyWorld) L hB B.size []
  -- the bytes there on entry authenticate
  have hopen := opened_constant (B := B) (m := readyWorld.mem) (read_readyWorld B.tag ZUC_GCM_TAG_SIZE)
  -- those there after the data do not
  have hD : D = List.replicate B.len 0xff := by
    rw [hdata.begun.2, read_readyWorld B.inp]
    exact mask_zeros _ _ _
  have hx : w'.mem x = 0xff := by
    have hread := hdata.output
    rw [hD, List.length_replicate] at hread
    exact apply_of_read hread hout hout'
  have hrefused : B.opened constantPrimitives.scheme readyWorld.mem w'.mem = none := by
    refine opened_constant_none fun hsame => ?_
    have hx' := apply_of_read hsame htag htag'
    exact absurd (hx.symm.trans hx') (by decide)
  obtain ⟨P, hP⟩ := hopen
  rw [hP] at hspec
  have hend : match B.opened constantPrimitives.scheme readyWorld.mem w'.mem with
    | some P => ((B.decrypt .aesGcm).exec (streamBackend constantPrimitives) readyWorld []).value =
        .ok ∧ read ((B.decrypt .aesGcm).exec (streamBackend constantPrimitives) readyWorld
          []).world.mem B.out B.len = P
    | none => ((B.decrypt .aesGcm).exec (streamBackend constantPrimitives) readyWorld []).value =
        .errAuth := hend
  rw [hrefused] at hend
  exact absurd (hspec.1.symm.trans hend) (by decide)

/-! ### The verdict -/

/-- AEAD calls are correct at exactly those placements that are refused or keep the tag
apart from the output. -/
theorem aead_placement_iff (B : AeadPlacement) :
    (SealsAt B ↔ (B.Accepted → B.TagApart)) ∧ (OpensAt B ↔ (B.Accepted → B.TagApart)) := by
  refine ⟨⟨?_, sealsAt_of_apart⟩, ⟨?_, opensAt_of_apart⟩⟩
  · intro hseals hB
    by_contra h
    exact not_sealsAt_of_shared hB h hseals
  · intro hopens hB
    by_contra h
    exact not_opensAt_of_shared hB h hopens

/-- Two blocks of data at 4096, encrypted in place, with the tag over the second. -/
def tagOverOutput : AeadPlacement where
  key := 1024
  keyLen := 16
  nonce := 2048
  nonceLen := 12
  aad := NULL
  aadLen := 0
  inp := 4096
  len := 32
  out := 4096
  tag := 4112
  inp_end := by decide
  out_end := by decide

/-- The checks let it through, and neither direction is correct there. -/
theorem tagOverOutput_incorrect :
    tagOverOutput.Accepted ∧ ¬ SealsAt tagOverOutput ∧ ¬ OpensAt tagOverOutput := by
  have hB : tagOverOutput.Accepted := by
    constructor <;> decide
  have hshared : ¬ tagOverOutput.TagApart := by
    unfold AeadPlacement.TagApart Apart
    decide
  exact ⟨hB, not_sealsAt_of_shared hB hshared, not_opensAt_of_shared hB hshared⟩

end Zucrypt
