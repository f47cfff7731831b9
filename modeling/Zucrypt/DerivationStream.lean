import Zucrypt.PsaDerivation

/-! # What a derivation gives out

Where the driver's digests and MACs are right when they succeed (`DriverDigests`), the blocks an
operation generates are those of PBKDF2, and a read gives the bytes that come next
(`pbkdf2ReadLoop_gives`), whatever it has left of the last block.

The vendored operation keeps the last block it generated, its number, and how much of it has been
given out.  `GivesFrom` is what that stands for: a place in the endless stream of
`PasswordDerivation`.  A round adds a link (`pbkdf2Rounds_adds`), the rounds make a block
(`pbkdf2GenerateBlock_block`), and a read takes from the block what is left and generates the next.
The key of the MACs is the password, or its hash where it is longer than a block (`KeyFor`), and RFC
2104 does not tell them apart. -/
namespace Zucrypt
open Effects ByteMemory KeyedHash Machines PasswordDerivation

variable {δ HC MC : Type}

/-- The driver's digests compute `F`, and its MACs HMAC over `F`, where they succeed. -/
structure DriverDigests (D : OneShotDriver δ HC MC) (F : PsaAlg → List Byte → List Byte) where
  /-- what a MAC was set up with, and has been given so far -/
  absorbed : MC → PsaAlg → List Byte → List Byte → Prop
  length : ∀ alg m, alg.isHash = true → (F alg m).length = psaHashLength alg
  hashCompute : ∀ s alg m size, alg.isHash = true → (D.hashCompute alg m size s).1.1 = .success →
    (D.hashCompute alg m size s).1.2.Delivers (F alg m)
  macSetup : ∀ s attr alg K, 0 < K.length → K.length ≤ psaHashBlockLength alg →
    (D.macSignSetup attr K (.hmac alg) s).1.1 = .success →
    absorbed (D.macSignSetup attr K (.hmac alg) s).1.2 alg K []
  macUpdate : ∀ s c alg K m bs, absorbed c alg K m → (D.macUpdate c bs s).1.1 = .success →
    absorbed (D.macUpdate c bs s).1.2 alg K (m ++ bs)
  macFinish : ∀ s c alg K m size, absorbed c alg K m → (D.macSignFinish c size s).1.1 = .success →
    (D.macSignFinish c size s).1.2.Delivers (hmacOf F alg K m)
  macCompute : ∀ s attr alg K m size, 0 < K.length → K.length ≤ psaHashBlockLength alg →
    (D.macCompute attr K (.hmac alg) m size s).1.1 = .success →
    (D.macCompute attr K (.hmac alg) m size s).1.2.Delivers (hmacOf F alg K m)

/-- A driver over a given hash, which does not fail. -/
def steadyDriver (F : PsaAlg → List Byte → List Byte) :
    OneShotDriver Nat (PsaAlg × List Byte) (PsaAlg × List Byte × List Byte) where
  hashCtx := (.none, [])
  macCtx := (.none, [], [])
  alloc s := (false, s)
  failedBetween _ _ := false
  hashSetup alg s := ((.success, (alg, [])), s)
  hashUpdate c bs s := ((.success, (c.1, c.2 ++ bs)), s)
  hashFinish c _ s := ((.success, .full (F c.1 c.2)), s)
  hashAbort _ s := s
  lockKey _ _ _ s := ((.errorInvalidArgument, {}, []), s)
  unlockKey _ s := (.success, s)
  macSignSetup _ K alg s :=
    match alg with
    | .hmac alg => ((.success, (alg, K, [])), s)
    | _ => ((.errorNotSupported, (alg, K, [])), s)
  macUpdate c bs s := ((.success, (c.1, c.2.1, c.2.2 ++ bs)), s)
  macSignFinish c _ s := ((.success, .full (hmacOf F c.1 c.2.1 c.2.2)), s)
  macAbort _ s := (.success, s)
  hashCompute alg input _ s := ((.success, .full (F alg input)), s)
  macCompute _ K alg input _ s :=
    match alg with
    | .hmac alg => ((.success, .full (hmacOf F alg K input)), s)
    | _ => ((.errorNotSupported, ⟨[], 0⟩), s)

def steadyDigests {F : PsaAlg → List Byte → List Byte}
    (hF : ∀ alg m, alg.isHash = true → (F alg m).length = psaHashLength alg) :
    DriverDigests (steadyDriver F) F where
  absorbed c alg K m := c = (alg, K, m)
  length := hF
  hashCompute _ _ _ _ _ _ := Output.full_delivers _
  macSetup _ _ _ _ _ _ _ := rfl
  macUpdate s c alg K m bs hc _ := by
    subst hc
    rfl
  macFinish s c alg K m size hc _ := by
    subst hc
    exact Output.full_delivers _
  macCompute _ _ _ _ _ _ _ _ _ := Output.full_delivers _

/-! ### A block -/

section
variable {D : OneShotDriver δ HC MC} {F : PsaAlg → List Byte → List Byte} {halg : PsaAlg}

/-- To store in an array does not change its length. -/
theorem length_overwrite {array bs : List Byte} : (overwrite array bs).length = array.length := by
  rw [overwrite, List.length_append, List.length_take, List.length_drop]
  omega

/-- What was stored is what is found. -/
theorem take_overwrite {array bs d : List Byte} (hd : d <+: bs) (hlen : d.length ≤ array.length) :
    (overwrite array bs).take d.length = d := by
  rw [overwrite, List.take_append_of_le_length (by rw [List.length_take]; have := hd.length_le; omega),
    List.take_take, Nat.min_eq_left hlen]
  exact (List.prefix_iff_eq_take.mp hd).symm

/-- An update that succeeds adds its bytes to the message. -/
theorem psaMacUpdate_absorbs (L : DriverDigests D F) (op : PsaMacOperation MC) (bs : List Byte)
    (s : δ) {K m : List Byte} (hop : L.absorbed op.ctx halg K m)
    (hok : (psaMacUpdate D.toDriver op bs s).1.1 = .success) :
    L.absorbed (psaMacUpdate D.toDriver op bs s).1.2.ctx halg K (m ++ bs) := by
  unfold psaMacUpdate at hok ⊢
  by_cases hid : op.id = 0
  · rw [if_pos hid] at hok
    cases hok
  rw [if_neg hid] at hok ⊢
  by_cases hlen : bs.length = 0
  · rw [if_pos hlen, List.eq_nil_of_length_eq_zero hlen, List.append_nil]
    exact hop
  rw [if_neg hlen] at hok ⊢
  dsimp only at hok ⊢
  by_cases hcopy : (localAlloc D.toDriver bs.length s).1 = .success
  · rw [if_neg (not_not.mpr hcopy)] at hok ⊢
    by_cases hdriver : (D.macUpdate op.ctx bs (localAlloc D.toDriver bs.length s).2).1.1 = .success
    · rw [if_neg (not_not.mpr hdriver)]
      exact L.macUpdate _ _ _ _ _ _ hop hdriver
    · rw [if_pos hdriver] at hok
      exact absurd hok hdriver
  · rw [if_pos hcopy] at hok
    exact absurd hok hcopy

/-- A finish that succeeds delivers the MAC. -/
theorem psaMacSignFinish_delivers (L : DriverDigests D F) {op : PsaMacOperation MC} {K m : List Byte}
    {s : δ} (hop : L.absorbed op.ctx halg K m)
    (hok : (psaMacSignFinish D.toDriver op PSA_MAC_MAX_SIZE s).1.1 = .success) :
    (psaMacSignFinish D.toDriver op PSA_MAC_MAX_SIZE s).1.2.2.Delivers (hmacOf F halg K m) := by
  have hexit : ∀ {copied : Bool} {status : PsaStatus} {o : Output} {s : δ},
      (psaMacSignFinishExit D.toDriver op PSA_MAC_MAX_SIZE copied status o s).1.1 = .success →
      status = .success := by
    intro copied status o s h
    by_contra hne
    exact psaMacSignFinishExit_failed D.toDriver hne h
  unfold psaMacSignFinish at hok ⊢
  dsimp only at hok ⊢
  by_cases hcopy : (localAlloc D.toDriver PSA_MAC_MAX_SIZE s).1 = .success
  · rw [if_neg (not_not.mpr hcopy)] at hok ⊢
    split at hok
    · cases hexit hok
    · rename_i hstate
      rw [if_neg hstate]
      split at hok
      · cases hexit hok
      · rename_i hsize
        rw [if_neg hsize]
        have hdriver := hexit hok
        obtain ⟨hlen, hprefix⟩ := L.macFinish _ _ _ _ _ op.macSize hop hdriver
        have hreported := Output.Delivers.reported ⟨hlen, hprefix⟩
        unfold psaMacSignFinishExit psaWipeTagOutputBuffer
        simp only [hdriver, ne_eq, not_true_eq_false, if_false, if_true]
        refine ⟨hlen, ?_⟩
        show _ <+: Output.reported _ ++ _
        rw [hreported]
        exact List.prefix_append _ _
  · rw [if_pos hcopy] at hok
    exact absurd (hexit hok) hcopy

/-- `password[0 .. password_length]`. -/
def PsaPbkdf2.key (ctx : PsaPbkdf2) : List Byte := ctx.password.take ctx.passwordLength

/-- A key the driver takes, and the password it stands for. -/
structure KeyFor (F : PsaAlg → List Byte → List Byte) (halg : PsaAlg) (K password : List Byte) :
    Prop where
  pos : 0 < K.length
  le : K.length ≤ psaHashBlockLength halg
  same : hmacOf F halg K = hmacOf F halg password

/-- A MAC has the length of a digest. -/
theorem hmacOf_length_driver (L : DriverDigests D F) (hhash : halg.isHash = true) (K m : List Byte) :
    (hmacOf F halg K m).length = psaHashLength halg := L.length _ _ hhash

/-- The rounds add one link after another. -/
theorem pbkdf2Rounds_adds (L : DriverDigests D F) (hhash : halg.isHash = true)
    {attr : PsaKeyAttributes} {K salt : List Byte} {i : Nat} (hpos : 0 < K.length)
    (hle : K.length ≤ psaHashBlockLength halg) (n : Nat) {c : Nat} (hc : 0 < c) {u acc : List Byte}
    {s : δ} (hu : u = link (hmacOf F halg K) (salt ++ int32 i) (c - 1))
    (hsize : psaHashLength halg ≤ acc.length)
    (hacc : acc.take (psaHashLength halg) = block (hmacOf F halg K) salt c i)
    (hok : (pbkdf2Rounds D attr K (.hmac halg) (psaHashLength halg) n u acc s).1.1 = .success) :
    let r := (pbkdf2Rounds D attr K (.hmac halg) (psaHashLength halg) n u acc s).1.2
    r.length = acc.length ∧
      r.take (psaHashLength halg) = block (hmacOf F halg K) salt (c + n) i := by
  induction n generalizing c u acc s with
  | zero => exact ⟨rfl, hacc⟩
  | succ n ih =>
    unfold pbkdf2Rounds at hok ⊢
    dsimp only at hok ⊢
    by_cases hdriver : (D.macCompute attr K (.hmac halg) u (psaHashLength halg) s).1.1 = .success
    · rw [if_neg (not_not.mpr hdriver)] at hok ⊢
      obtain ⟨-, hprefix⟩ := L.macCompute s attr halg K u (psaHashLength halg) hpos hle hdriver
      generalize (D.macCompute attr K (.hmac halg) u (psaHashLength halg) s) = r at hok hprefix ⊢
      have hlengthPrf := hmacOf_length_driver L hhash K
      have hlengthU : u.length = psaHashLength halg := by rw [hu, length_link hlengthPrf]
      -- the next link takes the place of the last
      have hnext : overwrite u r.1.2.bytes = link (hmacOf F halg K) (salt ++ int32 i) c := by
        have htake := take_overwrite hprefix
          (Nat.le_of_eq ((hlengthPrf u).trans hlengthU.symm))
        rw [hlengthPrf, List.take_of_length_le (Nat.le_of_eq (length_overwrite.trans hlengthU))] at htake
        rw [htake, hu]
        obtain ⟨k, rfl⟩ : ∃ k, c = k + 1 := ⟨c - 1, by omega⟩
        rfl
      have hblockLength : (block (hmacOf F halg K) salt c i).length = psaHashLength halg :=
        length_block hlengthPrf i
      have hsum : xorBytes (acc.take (psaHashLength halg)) (overwrite u r.1.2.bytes) =
          block (hmacOf F halg K) salt (c + 1) i := by
        rw [hacc, hnext, block_succ hc]
      have hsumLength : (block (hmacOf F halg K) salt (c + 1) i).length = psaHashLength halg :=
        length_block hlengthPrf i
      rw [hsum] at hok ⊢
      have hstep := ih (Nat.succ_pos c) hnext (by rw [length_overwrite]; exact hsize) ?_ hok
      · rw [length_overwrite] at hstep
        rw [show c + (n + 1) = c + 1 + n by omega]
        exact hstep
      · have htake := take_overwrite (List.prefix_refl (block (hmacOf F halg K) salt (c + 1) i))
          (hsumLength ▸ hsize)
        rwa [hsumLength] at htake
    · rw [if_pos hdriver] at hok
      exact absurd hok hdriver

/-- A block that is generated is the block of its number. -/
theorem pbkdf2GenerateBlock_block (L : DriverDigests D F) (hhash : halg.isHash = true)
    (ctx : PsaPbkdf2) {password : List Byte} (hkey : KeyFor F halg ctx.key password)
    (hcost : 0 < ctx.inputCost) (hsize : psaHashLength halg ≤ ctx.outputBlock.length) {s : δ}
    (hok : (pbkdf2GenerateBlock D ctx halg (psaHashLength halg) s).1.1 = .success) :
    let r := (pbkdf2GenerateBlock D ctx halg (psaHashLength halg) s).1.2
    r.length = ctx.outputBlock.length ∧
      r.take (psaHashLength halg) =
        block (hmacOf F halg password) ctx.salt ctx.inputCost ctx.blockNumber.toNat := by
  unfold pbkdf2GenerateBlock at hok ⊢
  dsimp only at hok ⊢
  generalize hattr : (⟨.hmac, 8 * ctx.passwordLength, .none, [.signMessage]⟩ : PsaKeyAttributes) = attr
    at hok ⊢
  obtain ⟨hpos, hle, hK⟩ := hkey
  unfold PsaPbkdf2.key at hpos hle hK
  generalize ctx.password.take ctx.passwordLength = K at hok hK hpos hle ⊢
  have hlength := hmacOf_length_driver L hhash K
  -- a call that fails ends it, and `hok` says that none did
  by_cases hsetup : (D.macSignSetup attr K (.hmac halg) s).1.1 = .success
  · rw [if_neg (not_not.mpr hsetup)] at hok ⊢
    have hstart := L.macSetup s attr halg K hpos hle hsetup
    generalize D.macSignSetup attr K (.hmac halg) s = r at hok hstart ⊢
    have hsalt := psaMacUpdate_absorbs L
      ⟨PSA_CRYPTO_MBED_TLS_DRIVER_ID, psaHashLength halg, true, r.1.2⟩ ctx.salt r.2 hstart
    generalize psaMacUpdate D.toDriver
      ⟨PSA_CRYPTO_MBED_TLS_DRIVER_ID, psaHashLength halg, true, r.1.2⟩ ctx.salt r.2 = u at hok hsalt ⊢
    by_cases hu : u.1.1 = .success
    · rw [if_neg (not_not.mpr hu)] at hok ⊢
      have hcount := psaMacUpdate_absorbs L u.1.2 (int32 ctx.blockNumber.toNat) u.2 (hsalt hu)
      generalize psaMacUpdate D.toDriver u.1.2 (int32 ctx.blockNumber.toNat) u.2 = v at hok hcount ⊢
      by_cases hv : v.1.1 = .success
      · rw [if_neg (not_not.mpr hv)] at hok ⊢
        have hfirst := psaMacSignFinish_delivers L (s := v.2) (hcount hv)
        generalize psaMacSignFinish D.toDriver v.1.2 PSA_MAC_MAX_SIZE v.2 = f at hok hfirst ⊢
        by_cases hf : f.1.1 = .success
        · rw [if_neg (not_not.mpr hf)] at hok ⊢
          obtain ⟨hlen, hprefix⟩ := hfirst hf
          rw [hlength] at hlen
          rw [if_neg (not_not.mpr hlen)] at hok ⊢
          have htake : f.1.2.2.bytes.take (psaHashLength halg) =
              link (hmacOf F halg K) (ctx.salt ++ int32 ctx.blockNumber.toNat) 0 := by
            have hprefix := List.prefix_iff_eq_take.mp hprefix
            rw [hlength] at hprefix
            exact hprefix.symm
          rw [htake] at hok ⊢
          have hblock : block (hmacOf F halg K) ctx.salt 1 ctx.blockNumber.toNat =
              link (hmacOf F halg K) (ctx.salt ++ int32 ctx.blockNumber.toNat) 0 := rfl
          have hlink := length_link hlength (ctx.salt ++ int32 ctx.blockNumber.toNat) 0
          -- the first link is in the block, and the rounds add the others to it
          have hbegin := take_overwrite (List.prefix_refl
            (link (hmacOf F halg K) (ctx.salt ++ int32 ctx.blockNumber.toNat) 0)) (hlink ▸ hsize)
          rw [hlink] at hbegin
          have hrounds := pbkdf2Rounds_adds L hhash hpos hle (ctx.inputCost - 1) (c := 1) Nat.one_pos rfl
            (by rw [length_overwrite]; exact hsize) (hbegin.trans hblock.symm) hok
          rw [length_overwrite, show 1 + (ctx.inputCost - 1) = ctx.inputCost by omega] at hrounds
          rw [← hK]
          exact hrounds
        · rw [if_pos hf] at hok
          exact absurd hok hf
      · rw [if_pos hv] at hok
        exact absurd hok hv
    · rw [if_pos hu] at hok
      exact absurd hok hu
  · rw [if_pos hsetup] at hok
    exact absurd hok hsetup

/-! ### Reading -/

/-- Where an operation is in what it gives out. -/
structure GivesFrom (F : PsaAlg → List Byte → List Byte) (halg : PsaAlg) (password : List Byte)
    (ctx : PsaPbkdf2) (k : Nat) : Prop where
  key : KeyFor F halg ctx.key password
  cost : 0 < ctx.inputCost
  size : ctx.outputBlock.length = PSA_MAC_MAX_SIZE
  used : ctx.bytesUsed ≤ psaHashLength halg
  place : k + psaHashLength halg = ctx.blockNumber.toNat * psaHashLength halg + ctx.bytesUsed
  held : 0 < ctx.blockNumber.toNat → ctx.outputBlock.take (psaHashLength halg) =
    block (hmacOf F halg password) ctx.salt ctx.inputCost ctx.blockNumber.toNat

/-- Every digest fits the array for a block. -/
theorem psaHashLength_le (halg : PsaAlg) : psaHashLength halg ≤ PSA_MAC_MAX_SIZE := by
  unfold psaHashLength PSA_MAC_MAX_SIZE
  split <;> decide

/-- What is left of a block is what comes next. -/
theorem GivesFrom.rest (L : DriverDigests D F) (hhash : halg.isHash = true) {password : List Byte}
    {ctx : PsaPbkdf2} {k : Nat} (hg : GivesFrom F halg password ctx k) {n : Nat}
    (hn : n ≤ psaHashLength halg - ctx.bytesUsed) :
    (ctx.outputBlock.drop ctx.bytesUsed).take n =
      stretch (hmacOf F halg password) (psaHashLength halg) ctx.salt ctx.inputCost k n := by
  have hlength := hmacOf_length_driver L hhash password
  have hused := hg.used
  have hplace := hg.place
  rcases Nat.eq_zero_or_pos ctx.blockNumber.toNat with hzero | hpos
  · -- no block has been made yet
    rw [hzero, Nat.zero_mul] at hplace
    obtain rfl : n = 0 := by omega
    rfl
  · obtain ⟨i, hi⟩ : ∃ i, ctx.blockNumber.toNat = i + 1 := ⟨ctx.blockNumber.toNat - 1, by omega⟩
    have hk : k = i * psaHashLength halg + ctx.bytesUsed := by
      rw [hi, Nat.succ_mul] at hplace
      omega
    rw [hk, stretch_block hlength (by omega), ← hi, ← hg.held hpos, List.drop_take, List.take_take,
      Nat.min_eq_left hn]

/-- The loop gives out what comes next, as long as there are block numbers. -/
theorem pbkdf2ReadLoop_gives (L : DriverDigests D F) (hhash : halg.isHash = true)
    (hpos : 0 < psaHashLength halg) {password : List Byte} (outputLength : Nat) (ctx : PsaPbkdf2)
    (out : List Byte) (s : δ) {k : Nat} (hg : GivesFrom F halg password ctx k)
    (hroom : k + outputLength ≤ 4294967295 * psaHashLength halg)
    (hok : (pbkdf2ReadLoop D halg ⟨_, hpos⟩ outputLength ctx out s).1.1 = .success) :
    let r := (pbkdf2ReadLoop D halg ⟨_, hpos⟩ outputLength ctx out s).1
    r.2.2 = out ++ stretch (hmacOf F halg password) (psaHashLength halg) ctx.salt ctx.inputCost k
        outputLength ∧
      GivesFrom F halg password r.2.1 (k + outputLength) ∧ r.2.1.salt = ctx.salt ∧
      r.2.1.inputCost = ctx.inputCost ∧ r.2.1.state = ctx.state := by
  -- a round may give out nothing and only start a block: then it was used up before
  induction hmeasure : 2 * outputLength + (if psaHashLength halg ≤ ctx.bytesUsed then 1 else 0)
    using Nat.strongRecOn generalizing outputLength ctx out s k with
  | _ measure ih =>
  have hused := hg.used
  have hplace := hg.place
  unfold pbkdf2ReadLoop at hok ⊢
  dsimp only at hok ⊢
  by_cases hlast : outputLength ≤ psaHashLength halg - ctx.bytesUsed
  · rw [Nat.min_eq_right hlast, if_pos (Nat.sub_self _), hg.rest L hhash hlast]
    refine ⟨rfl, ⟨hg.key, hg.cost, hg.size, ?_, ?_, hg.held⟩, rfl, rfl, rfl⟩
    · show ctx.bytesUsed + outputLength ≤ _
      omega
    · show k + outputLength + psaHashLength halg =
        ctx.blockNumber.toNat * psaHashLength halg + (ctx.bytesUsed + outputLength)
      omega
  · -- the block is used up, and there is a next block number
    rw [Nat.min_eq_left (by omega)] at hok ⊢
    have hmore : ¬ outputLength - (psaHashLength halg - ctx.bytesUsed) = 0 := by omega
    rw [if_neg hmore] at hok ⊢
    have hnumber : (ctx.blockNumber + 1).toNat = ctx.blockNumber.toNat + 1 := by
      have hbelow : ctx.blockNumber.toNat < 4294967295 := by
        refine Nat.lt_of_mul_lt_mul_right (a := psaHashLength halg) ?_
        omega
      rw [UInt32.toNat_add, UInt32.toNat_one]
      exact Nat.mod_eq_of_lt (by omega)
    have hblock := pbkdf2GenerateBlock_block L (s := s) hhash
      { ctx with blockNumber := ctx.blockNumber + 1 } hg.key hg.cost (hg.size ▸ psaHashLength_le halg)
    dsimp only at hblock
    rw [hnumber] at hblock
    generalize pbkdf2GenerateBlock D { ctx with blockNumber := ctx.blockNumber + 1 } halg
      (psaHashLength halg) s = g at hok hblock ⊢
    by_cases hgenerated : g.1.1 = .success
    swap
    · rw [if_pos hgenerated] at hok
      exact absurd hok hgenerated
    rw [if_neg (not_not.mpr hgenerated)] at hok ⊢
    obtain ⟨hsize, hheld⟩ := hblock hgenerated
    -- after the rest of the old block it is at the start of the new one
    have hnext : GivesFrom F halg password
        { ctx with blockNumber := ctx.blockNumber + 1, outputBlock := g.1.2, bytesUsed := 0 }
        (k + (psaHashLength halg - ctx.bytesUsed)) := by
      refine ⟨hg.key, hg.cost, hsize.trans hg.size, Nat.zero_le _, ?_, fun _ => ?_⟩
      · show _ = (ctx.blockNumber + 1).toNat * _ + 0
        rw [hnumber, Nat.succ_mul]
        omega
      · show _ = block _ _ _ (ctx.blockNumber + 1).toNat
        rw [hnumber]
        exact hheld
    have hsmaller : 2 * (outputLength - (psaHashLength halg - ctx.bytesUsed)) +
        (if psaHashLength halg ≤ 0 then 1 else 0) < measure := by
      rw [if_neg (show ¬ psaHashLength halg ≤ 0 by omega), ← hmeasure]
      by_cases hfull : psaHashLength halg ≤ ctx.bytesUsed
      · rw [if_pos hfull]
        omega
      · rw [if_neg hfull]
        omega
    obtain ⟨hout, hgives, hsalt, hcost, hstate⟩ := ih _ hsmaller _ _ _ _ hnext (by omega) hok rfl
    have hlengths : outputLength = psaHashLength halg - ctx.bytesUsed +
        (outputLength - (psaHashLength halg - ctx.bytesUsed)) := by omega
    refine ⟨?_, ?_, hsalt, hcost, hstate⟩
    · rw [hout, List.append_assoc, hg.rest L hhash (Nat.le_refl _)]
      dsimp only
      rw [← stretch_add, ← hlengths]
    · have hend : k + outputLength = k + (psaHashLength halg - ctx.bytesUsed) +
          (outputLength - (psaHashLength halg - ctx.bytesUsed)) := by omega
      rw [hend]
      exact hgives

/-! ### Keys -/

theorem psaHashLength_le_block (hhash : halg.isHash = true) :
    0 < psaHashLength halg ∧ psaHashLength halg ≤ psaHashBlockLength halg ∧
      psaHashBlockLength halg ≤ PSA_HMAC_MAX_HASH_BLOCK_SIZE := by
  cases halg <;> first | decide | cases hhash

/-- The key that is made of a password stands for it. -/
theorem psaPbkdf2HmacSetPassword_key (L : DriverDigests D F) (hhash : halg.isHash = true)
    {ctx : PsaPbkdf2} (hzero : ctx.password = List.replicate PSA_HMAC_MAX_HASH_BLOCK_SIZE 0)
    {input : List Byte} {s : δ}
    (hok : (psaPbkdf2HmacSetPassword D halg ctx input s).1.1 = .success) :
    ∃ password passwordLength, (psaPbkdf2HmacSetPassword D halg ctx input s).1.2 =
        { ctx with password, passwordLength } ∧
      KeyFor F halg (password.take passwordLength) input := by
  obtain ⟨hpos, hlength, hblock⟩ := psaHashLength_le_block hhash
  have hsize : ctx.password.length = PSA_HMAC_MAX_HASH_BLOCK_SIZE := by
    rw [hzero, List.length_replicate]
  unfold psaPbkdf2HmacSetPassword at hok ⊢
  -- HMAC does the same to a key longer than a block, and to a shorter one
  by_cases hlong : psaHashBlockLength halg < input.length
  · rw [if_pos hlong] at hok ⊢
    dsimp only at hok ⊢
    refine ⟨_, _, rfl, ?_⟩
    unfold psaHashCompute at hok ⊢
    rw [if_neg (by simp [hhash])] at hok ⊢
    dsimp only at hok ⊢
    by_cases hcopies : (localAllocs D input.length PSA_HMAC_MAX_HASH_BLOCK_SIZE s).1 = .success
    · rw [if_neg (not_not.mpr hcopies)] at hok ⊢
      obtain ⟨hlen, hprefix⟩ := L.hashCompute _ _ _ _ hhash hok
      have hdigest := L.length halg input hhash
      have hkey := take_overwrite hprefix (by omega : (F halg input).length ≤ ctx.password.length)
      rw [hlen, hkey]
      refine ⟨hdigest ▸ hpos, hdigest ▸ hlength, funext fun m => ?_⟩
      have hreduced := hmac_reduced (H := F halg) (K := input) (hdigest ▸ hlength) m
      rwa [reduced_of_lt hlong] at hreduced
    · rw [if_pos hcopies] at hok
      exact absurd hok hcopies
  · rw [if_neg hlong] at hok ⊢
    refine ⟨_, _, rfl, ?_⟩
    have hkey : (overwrite ctx.password input).take (psaHashBlockLength halg) =
        input ++ List.replicate (psaHashBlockLength halg - input.length) 0 := by
      have hfits : input.take ctx.password.length = input := List.take_of_length_le (by omega)
      rw [overwrite, hfits, hzero, List.drop_replicate, List.take_append,
        List.take_of_length_le (by omega), List.take_replicate]
      congr 2
      omega
    rw [hkey]
    have hsum : input.length + (psaHashBlockLength halg - input.length) = psaHashBlockLength halg := by
      omega
    refine ⟨?_, ?_, funext fun m => hmac_append_zeros (Nat.le_of_eq hsum) m⟩
    · rw [List.length_append, List.length_replicate, hsum]
      omega
    · rw [List.length_append, List.length_replicate]
      exact Nat.le_of_eq hsum

end

end Zucrypt
