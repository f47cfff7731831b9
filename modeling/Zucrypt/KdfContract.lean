import Zucrypt.DerivationRuns

/-! # What a correct backend promises about key derivation

`KdfLaws` says that one backend's derivations, where they succeed, give out the key that PBKDF2
derives with a given hash; `KdfSucceeds` says that they do succeed.  The vendored derivation keeps
the first over any driver whose digests are right (`derivationKdfLaws`), and the second over one
that does not fail (`derivationKdfSucceeds`).

The two are apart because a result may be relied on whether or not there is memory for the next one.
The first rests on `DerivationRuns`, where an operation `Represents` what it was given.  The second
adds a lemma for each function of the operation, that it succeeds where its arguments are in range
and the driver and the allocator do (`DriverWorks`). -/
namespace Zucrypt
open Effects ByteMemory KeyedHash PasswordDerivation

section
variable {O : Objects} {σ : Type}

/-- The backend's derivations are PBKDF2 with HMAC over `F`, where they succeed. -/
structure KdfLaws (h : Handler (Call O) σ) (F : PsaAlg → List Byte → List Byte) where
  /-- what an operation has been given -/
  phase : O.Kdf → DerivationPhase → Prop
  length : ∀ halg m, halg.isHash = true → (F halg m).length = psaHashLength halg
  setup : ∀ s halg, (answer h (.kdfSetup O.kdfInit (.pbkdf2Hmac halg)) s).1 = .success →
    phase (answer h (.kdfSetup O.kdfInit (.pbkdf2Hmac halg)) s).2 (.started halg)
  inputInteger : ∀ s op ph step n, phase op ph →
    (answer h (.kdfInputInteger op step n) s).1 = .success →
    phase (answer h (.kdfInputInteger op step n) s).2 (ph.next (.inputInteger step n) [])
  inputBytes : ∀ s op ph step bs, phase op ph →
    (answer h (.kdfInputBytes op step bs) s).1 = .success →
    phase (answer h (.kdfInputBytes op step bs) s).2 (ph.next (.inputBytes step bs) [])
  outputBytes : ∀ s op halg cost salt password n, phase op (.ready halg cost salt password []) →
    (answer h (.kdfOutputBytes op n) s).1 = .success →
    (answer h (.kdfOutputBytes op n) s).2.2 =
      derived (hmacOf F halg password) (psaHashLength halg) salt cost n

/-- The backend's derivations do not fail. -/
structure KdfSucceeds {h : Handler (Call O) σ} {F : PsaAlg → List Byte → List Byte}
    (L : KdfLaws h F) : Prop where
  setup : ∀ s halg, halg.isHash = true →
    (answer h (.kdfSetup O.kdfInit (.pbkdf2Hmac halg)) s).1 = .success
  cost : ∀ s op halg n, L.phase op (.started halg) → 0 < n → n ≤ PSA_VENDOR_PBKDF2_MAX_ITERATIONS →
    (answer h (.kdfInputInteger op .cost n) s).1 = .success
  salt : ∀ s op halg cost bs, L.phase op (.costSet halg cost) →
    (answer h (.kdfInputBytes op .salt bs) s).1 = .success
  password : ∀ s op halg cost salt bs, L.phase op (.salted halg cost salt) →
    (answer h (.kdfInputBytes op .password bs) s).1 = .success
  outputBytes : ∀ s op halg cost salt password n, L.phase op (.ready halg cost salt password []) →
    n ≤ 4294967295 * psaHashLength halg → (answer h (.kdfOutputBytes op n) s).1 = .success

end

section
variable {δ HC MC : Type} {D : OneShotDriver δ HC MC} {F : PsaAlg → List Byte → List Byte}
  {halg : PsaAlg} {op : PsaKdfOperation} {s : δ}

/-- The driver does not fail, and there is memory for what the layer copies. -/
structure DriverWorks (L : DriverDigests D F) : Prop where
  alloc : ∀ s, (D.alloc s).1 = false
  hashSetup : ∀ s alg, alg.isHash = true → (D.hashSetup alg s).1.1 = .success
  hashCompute : ∀ s alg m size, alg.isHash = true → psaHashLength alg ≤ size →
    (D.hashCompute alg m size s).1.1 = .success
  macSetup : ∀ s attr alg K, alg.isHash = true → 0 < K.length → K.length ≤ psaHashBlockLength alg →
    (D.macSignSetup attr K (.hmac alg) s).1.1 = .success
  macUpdate : ∀ s c alg K m bs, L.absorbed c alg K m → (D.macUpdate c bs s).1.1 = .success
  macFinish : ∀ s c alg K m size, L.absorbed c alg K m → psaHashLength alg ≤ size →
    (D.macSignFinish c size s).1.1 = .success
  macAbort : ∀ s c, (D.macAbort c s).1 = .success
  macCompute : ∀ s attr alg K m size, alg.isHash = true → 0 < K.length →
    K.length ≤ psaHashBlockLength alg → psaHashLength alg ≤ size →
    (D.macCompute attr K (.hmac alg) m size s).1.1 = .success

variable {L : DriverDigests D F}

/-! ### Nothing fails -/

theorem localAlloc_works (W : DriverWorks L) (n : Nat) (s : δ) :
    (localAlloc D.toDriver n s).1 = .success := by
  unfold localAlloc
  by_cases hzero : n = 0
  · rw [if_pos hzero]
  · rw [if_neg hzero]
    dsimp only
    rw [W.alloc]
    rfl

theorem psaHashTrySupport_works (W : DriverWorks L) (hhash : halg.isHash = true) (s : δ) :
    (psaHashTrySupport D halg s).1 = .success := by
  unfold psaHashTrySupport psaHashSetup
  dsimp only
  rw [if_neg (by simp), if_neg (by simp [hhash]), if_pos (W.hashSetup s halg hhash)]

theorem psaKdfSetup_works (W : DriverWorks L) (hhash : halg.isHash = true) (s : δ) :
    (psaKdfSetup D {} (.pbkdf2Hmac halg) s).1.1 = .success := by
  have hpos := (psaHashLength_le_block hhash).1
  unfold psaKdfSetup
  dsimp only
  rw [if_neg (by simp), if_neg (by omega), if_neg (not_not.mpr (psaHashTrySupport_works W hhash s))]

theorem psaMacUpdate_works (W : DriverWorks L) (mac : PsaMacOperation MC) {K m : List Byte}
    (hid : mac.id ≠ 0) (habs : L.absorbed mac.ctx halg K m) (bs : List Byte) (s : δ) :
    (psaMacUpdate D.toDriver mac bs s).1.1 = .success ∧
      ∃ ctx, (psaMacUpdate D.toDriver mac bs s).1.2 = { mac with ctx } := by
  unfold psaMacUpdate
  rw [if_neg hid]
  by_cases hlen : bs.length = 0
  · rw [if_pos hlen]
    exact ⟨rfl, mac.ctx, rfl⟩
  · rw [if_neg hlen]
    dsimp only
    rw [if_neg (not_not.mpr (localAlloc_works W bs.length s)),
      if_neg (not_not.mpr (W.macUpdate _ _ _ _ _ _ habs))]
    exact ⟨rfl, _, rfl⟩

theorem psaMacSignFinish_works (W : DriverWorks L) (mac : PsaMacOperation MC) {K m : List Byte}
    (hid : mac.id ≠ 0) (hsign : mac.isSign = true) (hsize : mac.macSize = psaHashLength halg)
    (hpos : 0 < psaHashLength halg) (habs : L.absorbed mac.ctx halg K m) (s : δ) :
    (psaMacSignFinish D.toDriver mac PSA_MAC_MAX_SIZE s).1.1 = .success := by
  have hmax := psaHashLength_le halg
  unfold psaMacSignFinish
  dsimp only
  rw [if_neg (not_not.mpr (localAlloc_works W _ s)), if_neg (by rw [hsign]; simp [hid]; omega),
    if_neg (by omega)]
  have hdriver := W.macFinish (localAlloc D.toDriver PSA_MAC_MAX_SIZE s).2 _ _ _ _ mac.macSize habs
    (Nat.le_of_eq hsize.symm)
  unfold psaMacSignFinishExit psaMacAbort
  simp only [hdriver, ne_eq, not_true_eq_false, if_false, if_true, if_neg hid]
  exact W.macAbort _ _

theorem pbkdf2Rounds_works (W : DriverWorks L) (hhash : halg.isHash = true) {attr : PsaKeyAttributes}
    {K : List Byte} (hpos : 0 < K.length) (hle : K.length ≤ psaHashBlockLength halg) (n : Nat)
    (u acc : List Byte) (s : δ) :
    (pbkdf2Rounds D attr K (.hmac halg) (psaHashLength halg) n u acc s).1.1 = .success := by
  induction n generalizing u acc s with
  | zero => rfl
  | succ n ih =>
    unfold pbkdf2Rounds
    dsimp only
    rw [if_neg (not_not.mpr (W.macCompute s attr halg K u _ hhash hpos hle (Nat.le_refl _)))]
    exact ih _ _ _

theorem pbkdf2GenerateBlock_works (W : DriverWorks L) (hhash : halg.isHash = true) (ctx : PsaPbkdf2)
    {password : List Byte} (hkey : KeyFor F halg ctx.key password) (s : δ) :
    (pbkdf2GenerateBlock D ctx halg (psaHashLength halg) s).1.1 = .success := by
  have hlength := (psaHashLength_le_block hhash).1
  obtain ⟨hpos, hle, -⟩ := hkey
  unfold PsaPbkdf2.key at hpos hle
  unfold pbkdf2GenerateBlock
  dsimp only
  generalize (⟨.hmac, 8 * ctx.passwordLength, .none, [.signMessage]⟩ : PsaKeyAttributes) = attr
  generalize ctx.password.take ctx.passwordLength = K at hpos hle ⊢
  have hsetup := W.macSetup s attr halg K hhash hpos hle
  have hbegun := L.macSetup s attr halg K hpos hle hsetup
  rw [if_neg (not_not.mpr hsetup)]
  generalize D.macSignSetup attr K (.hmac halg) s = r at hbegun ⊢
  -- the salt, and then the number of the block
  obtain ⟨hsalt, c, hop⟩ := psaMacUpdate_works W
    ⟨PSA_CRYPTO_MBED_TLS_DRIVER_ID, psaHashLength halg, true, r.1.2⟩ Nat.one_ne_zero hbegun ctx.salt r.2
  have hsalted := psaMacUpdate_absorbs L _ ctx.salt r.2 hbegun hsalt
  rw [if_neg (not_not.mpr hsalt)]
  generalize psaMacUpdate D.toDriver
    ⟨PSA_CRYPTO_MBED_TLS_DRIVER_ID, psaHashLength halg, true, r.1.2⟩ ctx.salt r.2 = v at hop hsalted ⊢
  rw [hop] at hsalted ⊢
  obtain ⟨hcount, c', hop'⟩ := psaMacUpdate_works W
    ⟨PSA_CRYPTO_MBED_TLS_DRIVER_ID, psaHashLength halg, true, c⟩ Nat.one_ne_zero hsalted
    (int32 ctx.blockNumber.toNat) v.2
  have hcounted := psaMacUpdate_absorbs L _ (int32 ctx.blockNumber.toNat) v.2 hsalted hcount
  rw [if_neg (not_not.mpr hcount)]
  generalize psaMacUpdate D.toDriver ⟨PSA_CRYPTO_MBED_TLS_DRIVER_ID, psaHashLength halg, true, c⟩
    (int32 ctx.blockNumber.toNat) v.2 = x at hop' hcounted ⊢
  rw [hop'] at hcounted ⊢
  have hfinish := psaMacSignFinish_works W
    ⟨PSA_CRYPTO_MBED_TLS_DRIVER_ID, psaHashLength halg, true, c'⟩ Nat.one_ne_zero rfl rfl hlength
    hcounted x.2
  have hdelivers := (psaMacSignFinish_delivers L (s := x.2) hcounted hfinish).1
  rw [hmacOf_length_driver L hhash] at hdelivers
  rw [if_neg (not_not.mpr hfinish), if_neg (not_not.mpr hdelivers)]
  exact pbkdf2Rounds_works W hhash hpos hle _ _ _ _

theorem pbkdf2ReadLoop_works (W : DriverWorks L) (hhash : halg.isHash = true)
    (hpos : 0 < psaHashLength halg) {password : List Byte} (n : Nat) (ctx : PsaPbkdf2)
    (hkey : KeyFor F halg ctx.key password) (out : List Byte) (s : δ) :
    (pbkdf2ReadLoop D halg ⟨_, hpos⟩ n ctx out s).1.1 = .success := by
  induction hmeasure : 2 * n + (if psaHashLength halg ≤ ctx.bytesUsed then 1 else 0)
    using Nat.strongRecOn generalizing n ctx out s with
  | _ measure ih =>
  unfold pbkdf2ReadLoop
  dsimp only
  by_cases hlast : n - min (psaHashLength halg - ctx.bytesUsed) n = 0
  · rw [if_pos hlast]
  · have hblock := pbkdf2GenerateBlock_works W hhash { ctx with blockNumber := ctx.blockNumber + 1 }
      hkey s
    rw [if_neg hlast, if_neg (not_not.mpr hblock)]
    have hsmaller : 2 * (n - min (psaHashLength halg - ctx.bytesUsed) n) +
        (if psaHashLength halg ≤ 0 then 1 else 0) < measure := by
      rw [if_neg (show ¬ psaHashLength halg ≤ 0 by omega), ← hmeasure]
      by_cases hused : psaHashLength halg ≤ ctx.bytesUsed
      · rw [if_pos hused]
        omega
      · rw [if_neg hused]
        omega
    exact ih _ hsmaller _ { ctx with blockNumber := ctx.blockNumber + 1, outputBlock := _, bytesUsed := 0 }
      hkey _ _ rfl

theorem psaKdfInputInteger_works (h : Represents F op (.started halg)) {n : Nat} (hpos : 0 < n)
    (hmax : n ≤ PSA_VENDOR_PBKDF2_MAX_ITERATIONS) :
    (psaKdfInputInteger op .cost n).1 = .success := by
  have hset : (psaPbkdf2SetInputCost op.ctx .cost n).1 = .success := by
    unfold psaPbkdf2SetInputCost
    rw [if_neg (by simp), if_neg (by rw [h.2]; simp), if_neg (by omega), if_neg (by omega)]
  unfold psaKdfInputInteger
  rw [h.1.alg]
  dsimp only
  rw [if_neg (not_not.mpr hset)]

theorem psaKdfInputBytes_works (W : DriverWorks L) (step : PsaKdfStep) (bs : List Byte)
    (halgEq : op.alg = .pbkdf2Hmac halg)
    (hinput : ∀ s, (psaPbkdf2Input D halg op.ctx step bs s).1.1 = .success) (s : δ) :
    (psaKdfInputBytes D op step bs s).1.1 = .success := by
  unfold psaKdfInputBytes
  dsimp only
  rw [if_neg (not_not.mpr (localAlloc_works W bs.length s))]
  unfold psaKdfInputInternal
  rw [halgEq]
  dsimp only
  rw [if_neg (not_not.mpr (hinput _))]

theorem psaPbkdf2SetSalt_works (W : DriverWorks L) {ctx : PsaPbkdf2}
    (hstate : ctx.state = .inputCostSet) (bs : List Byte) (s : δ) :
    (psaPbkdf2SetSalt D ctx bs s).1.1 = .success := by
  unfold psaPbkdf2SetSalt
  rw [if_neg (by rw [hstate]; simp)]
  by_cases hempty : bs.length = 0
  · rw [if_pos hempty]
  · rw [if_neg hempty]
    dsimp only
    rw [if_neg (by rw [W.alloc]; simp)]

theorem psaPbkdf2SetPassword_works (W : DriverWorks L) (hhash : halg.isHash = true) {ctx : PsaPbkdf2}
    (hstate : ctx.state = .saltSet) (bs : List Byte) (s : δ) :
    (psaPbkdf2SetPassword D halg ctx bs s).1.1 = .success := by
  unfold psaPbkdf2SetPassword
  rw [if_neg (not_not.mpr hstate)]
  show (psaPbkdf2HmacSetPassword D halg ctx bs s).1.1 = .success
  unfold psaPbkdf2HmacSetPassword
  by_cases hlong : psaHashBlockLength halg < bs.length
  · rw [if_pos hlong]
    show (psaHashCompute D halg bs PSA_HMAC_MAX_HASH_BLOCK_SIZE s).1.1 = .success
    have hcopies : (localAllocs D bs.length PSA_HMAC_MAX_HASH_BLOCK_SIZE s).1 = .success := by
      unfold localAllocs
      dsimp only
      rw [if_neg (not_not.mpr (localAlloc_works W bs.length s))]
      exact localAlloc_works W _ _
    have hsize : psaHashLength halg ≤ PSA_HMAC_MAX_HASH_BLOCK_SIZE :=
      Nat.le_trans (psaHashLength_le halg) (by decide)
    unfold psaHashCompute
    dsimp only
    rw [if_neg (by simp [hhash]), if_neg (not_not.mpr hcopies)]
    exact W.hashCompute _ _ _ _ hhash hsize
  · rw [if_neg hlong]

theorem psaKdfOutputBytes_works (W : DriverWorks L) {cost : Nat} {salt password out : List Byte}
    (h : Streams F op halg cost salt password out) {n : Nat} (hn : 0 < op.capacity)
    (hroom : out.length + n ≤ 4294967295 * psaHashLength halg) (s : δ) :
    (psaKdfOutputBytes D op n s).1.1 = .success := by
  have hpos := (psaHashLength_le_block h.serves.hash).1
  have hcapacity := h.serves.capacity
  have hread : ∀ s, (psaPbkdf2Read D halg op.ctx n s).1.1 = .success := by
    intro s
    unfold psaPbkdf2Read
    rw [dif_pos hpos]
    -- the first output makes a block ready; the others go on in one
    rcases h.gives with ⟨hstate, -, hgives⟩ | ⟨hstate, hgives⟩
    · rw [hstate]
      dsimp only
      by_cases hzero : n = 0
      · rw [if_pos hzero]
      · rw [if_neg hzero]
        have hkey : KeyFor F halg op.ctx.key password := hgives.key
        exact pbkdf2ReadLoop_works W h.serves.hash hpos n { op.ctx with bytesUsed := _, state := .output }
          hkey _ _
    · rw [hstate]
      dsimp only
      by_cases hzero : n = 0
      · rw [if_pos hzero]
      · rw [if_neg hzero]
        exact pbkdf2ReadLoop_works W h.serves.hash hpos n _ hgives.key _ _
  unfold psaKdfOutputBytes
  rw [if_neg (by rw [h.serves.alg]; simp), if_neg (by omega)]
  dsimp only
  rw [if_neg (not_not.mpr (localAlloc_works W n s)), if_neg (by omega), h.serves.alg]
  dsimp only
  rw [if_neg (not_not.mpr (hread _))]

/-! ### The vendored derivation as a backend -/

/-- The operation objects of the vendored layers. -/
def derivationObjects (D : OneShotDriver δ HC MC) : Objects :=
  { multipartObjects D.toDriver with Kdf := PsaKdfOperation, kdfInit := {} }

/-- A backend with the vendored derivation on top of `D`; every other call is answered by
`rest`. -/
def derivationBackend (D : OneShotDriver δ HC MC) (rest : Handler (Call (derivationObjects D)) δ) :
    Handler (Call (derivationObjects D)) δ
  | _, .psa (.kdfSetup op alg), s =>
    let r := psaKdfSetup D op alg s
    (⟨r.1, D.failedBetween s r.2⟩, r.2)
  | _, .psa (.kdfInputInteger op step n), s => (⟨psaKdfInputInteger op step n, false⟩, s)
  | _, .psa (.kdfInputBytes op step bs), s =>
    let r := psaKdfInputBytes D op step bs s
    (⟨r.1, D.failedBetween s r.2⟩, r.2)
  | _, .psa (.kdfOutputBytes op n), s =>
    let r := psaKdfOutputBytes D op n s
    (⟨r.1, D.failedBetween s r.2⟩, r.2)
  | _, .psa (.kdfAbort op), s => (⟨psaKdfAbort op, false⟩, s)
  | β, c, s => rest β c s

/-- Whatever the driver fails at, what comes out is PBKDF2. -/
def derivationKdfLaws (L : DriverDigests D F) (rest : Handler (Call (derivationObjects D)) δ) :
    KdfLaws (derivationBackend D rest) F where
  phase := Represents F
  length := L.length
  setup s halg hok := by
    obtain ⟨hash, hhash, -, hserves, hctx⟩ := psaKdfSetup_ok hok
    obtain rfl : halg = hash := by injection hhash
    exact ⟨hserves, hctx⟩
  inputInteger s op ph step n h hok := (keeps_inputInteger h step n).1 hok
  inputBytes s op ph step bs h hok := (keeps_inputBytes L h step bs).1 hok
  outputBytes s op halg cost salt password n h hok := by
    obtain ⟨halg', cost', salt', password', out, hph, hbytes, -, hstreams⟩ :=
      streams_outputBytes L (.inl h) hok
    injection hph with h₁ h₂ h₃ h₄ h₅
    subst h₁ h₂ h₃ h₄ h₅
    have hpos := (psaHashLength_le_block hstreams.serves.hash).1
    rw [derived_eq_stretch (hmacOf_length_driver L hstreams.serves.hash password) hpos]
    exact hbytes

/-- A driver that does not fail is enough. -/
theorem derivationKdfSucceeds (W : DriverWorks L)
    (rest : Handler (Call (derivationObjects D)) δ) : KdfSucceeds (derivationKdfLaws L rest) where
  setup s halg hhash := psaKdfSetup_works W hhash s
  cost s op halg n h hpos hmax := psaKdfInputInteger_works (F := F) h hpos hmax
  salt s op halg cost bs h := by
    obtain ⟨hserves, -, hctx⟩ := h
    have hstate : op.ctx.state = .inputCostSet := by rw [hctx]
    exact psaKdfInputBytes_works W .salt bs hserves.alg (psaPbkdf2SetSalt_works W hstate bs) s
  password s op halg cost salt bs h := by
    obtain ⟨hserves, -, hctx⟩ := h
    have hstate : op.ctx.state = .saltSet := by rw [hctx]
    exact psaKdfInputBytes_works W .password bs hserves.alg
      (psaPbkdf2SetPassword_works W hserves.hash hstate bs) s
  outputBytes s op halg cost salt password n h hn := by
    have hserves : Serves op halg 0 := h.serves
    have hpos := (psaHashLength_le_block hserves.hash).1
    have hcapacity : op.capacity + 0 = 4294967295 * psaHashLength halg := hserves.capacity
    exact psaKdfOutputBytes_works W h (by omega) (by simpa using hn) s

end

end Zucrypt
