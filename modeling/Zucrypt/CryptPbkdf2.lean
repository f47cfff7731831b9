import Zucrypt.ChunkedCalls
import Zucrypt.ChunkedDrivers
import Zucrypt.KdfContract

/-! # Keys from passwords in R

`R/kdf.R` and the entry point below it: `crypt_pbkdf2` gives the key that PBKDF2 derives, of any
length and from a password of any length, or raises; and a shorter key is the beginning of a longer
one.

`crypt_pbkdf2_derives` has two cases.  Arguments that are wrong raise the condition of the first
that is, before anything is called (`pbkdf2Problem` says which).  Others are counts, and then a call
gives a vector of its own with the derived key, or raises with the status that says why; and it
gives the key where the library is ready and nothing fails.

The backend's operation is any that keeps `KdfLaws`: that what it gives out, when it succeeds, is
the key of what it was given.  The vendored operation does (`derivationKdfLaws` of `KdfContract`),
over any driver whose digests are right, and the run at the end is against that one.  Counts are R's
doubles: whole numbers in their range (`isCount_iff`), so that nothing is lost when they become C's
integers. -/
namespace Zucrypt
open Effects ByteMemory PasswordDerivation

variable {O : Objects} {σ : Type} {h : Handler (Call O) σ} {F : PsaAlg → List Byte → List Byte}

/-! ### Numbers -/

/-- What is passed where R expects a number: whether it is numeric, and its elements, of which
`none` stands for `NA`, `NaN` and the infinities. -/
structure RNumeric where
  numeric : Bool
  elements : List (Option Rat)

/-- `trunc`. -/
def rTrunc (q : Rat) : Int := if q < 0 then q.ceil else q.floor

/-- `is_count`. -/
def isCount (x : RNumeric) (lo hi : Rat) : Bool :=
  x.numeric && match x.elements with
    | [some q] => q == rTrunc q && decide (lo ≤ q) && decide (q ≤ hi)
    | _ => false

/-- `REAL(x)[0]`, of a number that is finite. -/
def RNumeric.first (x : RNumeric) : Rat := (x.elements.head?.bind id).getD 0

/-- The conversion of a double to `size_t` or `uint32_t`, of one that is not negative. -/
def toUnsigned (q : Rat) : Nat := q.floor.toNat

/-- A whole number is its own floor. -/
theorem floor_natCast (n : Nat) : (n : Rat).floor = n := Rat.floor_intCast n

/-- A count is a whole number in its range. -/
theorem isCount_iff {x : RNumeric} {lo hi : Nat} :
    isCount x lo hi = true ↔
      ∃ n : Nat, x.numeric = true ∧ x.elements = [some (n : Rat)] ∧ lo ≤ n ∧ n ≤ hi := by
  unfold isCount
  constructor
  · intro hx
    rw [Bool.and_eq_true] at hx
    obtain ⟨hnumeric, hx⟩ := hx
    split at hx
    · rename_i q hq
      simp only [Bool.and_eq_true, beq_iff_eq, decide_eq_true_eq] at hx
      obtain ⟨⟨hwhole, hlo⟩, hhi⟩ := hx
      -- the truncated number is not negative
      have hint : (lo : Int) ≤ rTrunc q := by
        rw [hwhole] at hlo
        exact_mod_cast hlo
      obtain ⟨n, hn⟩ := Int.eq_ofNat_of_zero_le (Int.le_trans (Int.natCast_nonneg lo) hint)
      rw [hn] at hwhole
      have hq' : q = (n : Rat) := by exact_mod_cast hwhole
      rw [hq'] at hlo hhi
      exact ⟨n, hnumeric, by rw [hq, hq'], by exact_mod_cast hlo, by exact_mod_cast hhi⟩
    · cases hx
  · rintro ⟨n, hnumeric, helements, hlo, hhi⟩
    have htrunc : rTrunc (n : Rat) = n := by
      unfold rTrunc
      rw [if_neg (by exact_mod_cast Nat.not_lt_zero n)]
      exact floor_natCast n
    rw [hnumeric, helements]
    simp only [Bool.true_and, Bool.and_eq_true, beq_iff_eq, decide_eq_true_eq, htrunc]
    exact ⟨⟨by norm_cast, by exact_mod_cast hlo⟩, by exact_mod_cast hhi⟩

/-! ### The functions -/

/-- `zucrypt_pbkdf2`. -/
def zucryptPbkdf2 (password salt : Sexp) (iterations size : Rat) (algorithm : String) :
    Entry O NativeResult := do
  let n := toUnsigned size
  let alg := zucAlgByName (some algorithm)
  let plen := password.XLENGTH
  let slen := salt.XLENGTH
  let out ← Entry.allocVector n
  let st ← Entry.native (zucPbkdf2Hmac alg (if plen ≠ 0 then password.RAW else NULL) plen
    (if slen ≠ 0 then salt.RAW else NULL) slen (UInt32.ofNat (toUnsigned iterations)) out n)
  Entry.result st (if st = .ok then .raw out n [] else .null)

/-- `crypt_pbkdf2`. -/
def cryptPbkdf2 (password salt : Sexp) (iterations length : RNumeric) (algorithm : Option String)
    (H : RHeap O) : RFun O Sexp := do
  RFun.check (checkRaw password "password" (some "pbkdf2"))
  RFun.check (checkRaw salt "salt" (some "pbkdf2"))
  let name ← RFun.check (checkAlgorithm algorithm)
  if isCount iterations 1 4294967295 = false then
    RFun.raise (zucryptAbort "zucrypt_invalid_argument"
      "`iterations` must be a single whole number from 1 to 4294967295." (some "pbkdf2") none)
  else if isCount length 1 (2 ^ 31 - 1) = false then
    RFun.raise (zucryptAbort "zucrypt_invalid_argument"
      "`length` must be a single whole number of bytes, at least 1." (some "pbkdf2") none)
  else
    let res ← RFun.entry (zucryptPbkdf2 password salt iterations.first length.first name) H
    if res.1.status ≠ .ok then
      RFun.raise (abortNative res.1.status (some "pbkdf2"))
    else
      return res.1.value

/-! ### What is refused -/

/-- The class of the condition that the first wrong argument raises. -/
def pbkdf2Problem (password salt : Sexp) (iterations length : RNumeric) (algorithm : Option String) :
    Option String :=
  if password.isRaw = false ∨ salt.isRaw = false ∨ algorithm = none then
    some "zucrypt_invalid_argument"
  else if availableAlgorithms.contains (algorithm.getD "") = false then
    some "zucrypt_unsupported_algorithm"
  else if isCount iterations 1 4294967295 = false ∨ isCount length 1 (2 ^ 31 - 1) = false then
    some "zucrypt_invalid_argument"
  else
    none

/-- Arguments that pass: a known digest, and two counts. -/
structure Pbkdf2Counts (iterations length : RNumeric) (algorithm : Option String) (name : String)
    (c n : Nat) : Prop where
  algorithm : algorithm = some name
  available : availableAlgorithms.contains name = true
  iterations : iterations.elements = [some (c : Rat)]
  length : length.elements = [some (n : Rat)]
  cost_pos : 0 < c
  cost_le : c ≤ 4294967295
  length_pos : 0 < n
  length_le : n ≤ 2147483647

section
variable {password salt : Sexp} {iterations length : RNumeric} {algorithm : Option String}

/-- The first argument that is wrong raises, before anything is called; if there is none, the
entry point is called with what they stand for. -/
theorem cryptPbkdf2_cases (password salt : Sexp) (iterations length : RNumeric)
    (algorithm : Option String) :
    (∃ c, pbkdf2Problem password salt iterations length algorithm = some c.cls ∧
      ∀ (H : RHeap O) st,
        cryptPbkdf2 password salt iterations length algorithm H st = pure (.error c, st)) ∨
    pbkdf2Problem password salt iterations length algorithm = none ∧
      ∃ name c n, Pbkdf2Counts iterations length algorithm name c n ∧ ∀ (H : RHeap O) st,
        cryptPbkdf2 password salt iterations length algorithm H st =
          (RFun.entry (zucryptPbkdf2 password salt c n name) H >>= fun res =>
            if res.1.status ≠ .ok then RFun.raise (abortNative res.1.status (some "pbkdf2"))
            else pure res.1.value) st := by
  have hraw : ∀ (x : Sexp) arg, x.isRaw = false →
      ∃ c, checkRaw x arg (some "pbkdf2") = .error c ∧ c.cls = "zucrypt_invalid_argument" :=
    fun x arg hx => ⟨_, if_pos hx, rfl⟩
  unfold pbkdf2Problem cryptPbkdf2
  -- the arguments are looked at in this order, and the first that is wrong raises
  cases hpassword : password.isRaw with
  | false =>
    obtain ⟨c, hc, hcls⟩ := hraw password "password" hpassword
    refine .inl ⟨c, (if_pos (Or.inl rfl)).trans (congrArg some hcls.symm), fun H st => ?_⟩
    rw [hc]
    rfl
  | true =>
  cases hsalt : salt.isRaw with
  | false =>
    obtain ⟨c, hc, hcls⟩ := hraw salt "salt" hsalt
    refine .inl ⟨c, (if_pos (Or.inr (Or.inl rfl))).trans (congrArg some hcls.symm), fun H st => ?_⟩
    rw [checkRaw_ok hpassword, hc]
    rfl
  | true =>
  simp only [checkRaw_ok hpassword, checkRaw_ok hsalt]
  cases algorithm with
  | none => exact .inl ⟨_, if_pos (Or.inr (Or.inr rfl)), fun H st => rfl⟩
  | some name =>
  rw [if_neg (by simp)]
  cases havailable : availableAlgorithms.contains name with
  | false =>
    obtain ⟨c, hc, hcls⟩ : ∃ c, checkAlgorithm (some name) = .error c ∧
        c.cls = "zucrypt_unsupported_algorithm" := ⟨_, if_pos havailable, rfl⟩
    refine .inl ⟨c, (if_pos havailable).trans (congrArg some hcls.symm), fun H st => ?_⟩
    rw [hc]
    rfl
  | true =>
  rw [if_neg (by simpa using havailable), checkAlgorithm_available havailable]
  cases hcost : isCount iterations 1 4294967295 with
  | false => exact .inl ⟨_, if_pos (Or.inl rfl), fun H st => rfl⟩
  | true =>
  cases hlength : isCount length 1 (2 ^ 31 - 1) with
  | false => exact .inl ⟨_, if_pos (Or.inr rfl), fun H st => rfl⟩
  | true =>
  obtain ⟨c, -, hc, hc₁, hc₂⟩ := isCount_iff.mp
    (show isCount iterations ((1 : Nat) : Rat) ((4294967295 : Nat) : Rat) = true by exact_mod_cast hcost)
  obtain ⟨n, -, hn, hn₁, hn₂⟩ := isCount_iff.mp
    (show isCount length ((1 : Nat) : Rat) ((2147483647 : Nat) : Rat) = true by
      rw [← hlength]; norm_num)
  refine .inr ⟨if_neg (by simp), name, c, n, ⟨rfl, havailable, hc, hn, hc₁, hc₂, hn₁, hn₂⟩,
    fun H st => ?_⟩
  have hfirst : iterations.first = c ∧ length.first = n := by
    unfold RNumeric.first
    rw [hc, hn]
    exact ⟨rfl, rfl⟩
  rw [hfirst.1, hfirst.2]
  rfl

end

/-! ### What is derived -/

section
variable {w : World} {s : σ}

/-- An operation in the course of `zuc_pbkdf2_hmac`: while nothing has failed, it has been given
what the phase says. -/
structure KdfAt (L : KdfLaws h F) (ph : DerivationPhase) (m : Memory)
    (r : Outcome (PsaStatus × O.Kdf) World σ) : Prop where
  mem : r.world.mem = m
  phase : r.value.1 = .success → L.phase r.value.2 ph
  works : KdfSucceeds L → r.value.1 = .success

/-- One input step. -/
theorem KdfAt.step {L : KdfLaws h F} {ph ph' : DerivationPhase} {m : Memory}
    {r : Outcome (PsaStatus × O.Kdf) World σ} (hr : KdfAt L ph m r)
    {call : O.Kdf → PsaCall O (PsaStatus × O.Kdf)}
    (hcall : ∀ s op, L.phase op ph → (answer h (call op) s).1 = .success →
      L.phase (answer h (call op) s).2 ph')
    (hworks : KdfSucceeds L → ∀ s op, L.phase op ph → (answer h (call op) s).1 = .success) :
    KdfAt L ph' m ((kdfStep call r.value).exec h r.world r.env) := by
  unfold kdfStep
  by_cases hok : r.value.1 = .success
  · rw [if_pos hok, exec_psa]
    exact ⟨hr.mem, hcall _ _ (hr.phase hok), fun hs => hworks hs _ _ (hr.phase hok)⟩
  · rw [if_neg hok, Proc.exec_pure]
    exact ⟨hr.mem, fun h => absurd h hok, fun hs => absurd (hr.works hs) hok⟩

/-- What a derivation into `out` leaves: `ok` says that it succeeded, and `may` that it was
given what it needs to. -/
structure LeavesKey (L : KdfLaws h F) (ok may : Prop) (out : Nat) (key : List Byte) (w w' : World) :
    Prop where
  bytes : ok → read w'.mem out key.length = key
  frame : ∀ a, a < out ∨ out + key.length ≤ a → w'.mem a = w.mem a
  works : KdfSucceeds L → may → ok

/-- The output step gives what comes next. -/
theorem exec_kdfOutput (L : KdfLaws h F) {halg : PsaAlg} (hhash : halg.isHash = true) {cost n : Nat}
    {salt password : List Byte} {r : Outcome (PsaStatus × O.Kdf) World σ}
    (hr : KdfAt L (.ready halg cost salt password []) w.mem r) (out : Nat)
    (hn : n ≤ 4294967295 * psaHashLength halg) :
    let r' := (kdfOutput out n r.value).exec h r.world r.env
    LeavesKey L (r'.value.1 = .success) True out
      (derived (hmacOf F halg password) (psaHashLength halg) salt cost n) w r'.world := by
  have hprf : ∀ m, (hmacOf F halg password m).length = psaHashLength halg := fun _ => L.length _ _ hhash
  have hlength : (derived (hmacOf F halg password) (psaHashLength halg) salt cost n).length = n := by
    rw [derived_eq_stretch hprf (psaHashLength_le_block hhash).1, length_stretch]
  unfold kdfOutput
  by_cases hok : r.value.1 = .success
  · rw [if_pos hok]
    simp only [Proc.exec_bind, exec_psa, exec_writeMem, Proc.exec_pure]
    refine ⟨fun hdone => ?_, fun a ha => ?_, 
      fun hs _ => hs.outputBytes _ _ _ _ _ _ _ (hr.phase hok) hn⟩
    · rw [L.outputBytes _ _ _ _ _ _ _ (hr.phase hok) hdone, List.take_of_length_le (by omega)]
      exact read_write_exact _ _ rfl
    · rw [hlength] at ha
      exact (write_take_outside _ _ ha).trans (congrFun hr.mem a)
  · rw [if_neg hok, Proc.exec_pure]
    exact ⟨fun h => absurd h hok, fun a _ => by rw [hr.mem], fun hs _ => hr.works hs⟩

/-- The whole operation: cost, salt, password, and then the key. -/
theorem exec_pbkdf2Run (L : KdfLaws h F) {halg : PsaAlg} (hhash : halg.isHash = true)
    (password passwordLen salt saltLen : Nat) {c : UInt32} (hc : 0 < c.toNat) (out : Nat) {n : Nat}
    (hn : n ≤ 4294967295 * psaHashLength halg) (w : World) (s : σ) :
    let r := (pbkdf2Run halg password passwordLen salt saltLen c out n : Adapter O _).exec h w s
    LeavesKey L (r.value = .success) True out (derived (hmacOf F halg (read w.mem password passwordLen))
      (psaHashLength halg) (read w.mem salt saltLen) c.toNat n) w r.world := by
  unfold pbkdf2Run
  simp only [Proc.exec_bind, exec_readMem]
  have hsetup : KdfAt L (.started halg) w.mem
      ((psa (.kdfSetup O.kdfInit (.pbkdf2Hmac halg))).exec h w s) :=
    ⟨rfl, L.setup s halg, fun hs => hs.setup s halg hhash⟩
  generalize (psa (.kdfSetup O.kdfInit (.pbkdf2Hmac halg))).exec h w s = r at hsetup ⊢
  have hcost : KdfAt L (.costSet halg c.toNat) w.mem
      ((kdfStep (.kdfInputInteger · .cost c.toNat) r.value).exec h r.world r.env) :=
    hsetup.step (fun s op hop => L.inputInteger s op _ .cost _ hop)
      fun hs s op hop => hs.cost s op halg _ hop hc (Nat.le_of_lt_succ c.toNat_lt)
  generalize (kdfStep (.kdfInputInteger · .cost c.toNat) r.value).exec h r.world r.env = r at hcost ⊢
  rw [hcost.mem]
  have hsalt : KdfAt L (.salted halg c.toNat (read w.mem salt saltLen)) w.mem
      ((kdfStep (.kdfInputBytes · .salt (read w.mem salt saltLen)) r.value).exec h r.world r.env) :=
    hcost.step (fun s op hop => L.inputBytes s op _ .salt _ hop)
      fun hs s op hop => hs.salt s op halg _ _ hop
  generalize (kdfStep (.kdfInputBytes · .salt (read w.mem salt saltLen)) r.value).exec h r.world r.env = r
    at hsalt ⊢
  rw [hsalt.mem]
  have hpassword : KdfAt L
      (.ready halg c.toNat (read w.mem salt saltLen) (read w.mem password passwordLen) []) w.mem
      ((kdfStep (.kdfInputBytes · .password (read w.mem password passwordLen)) r.value).exec h r.world
        r.env) :=
    hsalt.step (fun s op hop => L.inputBytes s op _ .password _ hop)
      fun hs s op hop => hs.password s op halg _ _ _ hop
  generalize (kdfStep (.kdfInputBytes · .password (read w.mem password passwordLen)) r.value).exec h
    r.world r.env = r at hpassword ⊢
  obtain ⟨hkey, hframe, hworks⟩ := exec_kdfOutput L hhash hpassword out hn
  generalize (kdfOutput out n r.value).exec h r.world r.env = r at hkey hframe hworks ⊢
  exact ⟨hkey, hframe, hworks⟩

/-- Arguments that pass have an iteration at least. -/
theorem pbkdf2Args_iterations {ready : Bool} {hash : ZucAlg} {password passwordLen salt saltLen : Nat}
    {iterations : UInt32} {out outLen : Nat}
    (hok : pbkdf2Args ready hash password passwordLen salt saltLen iterations out outLen = .ok) :
    0 < iterations.toNat := by
  refine Nat.pos_of_ne_zero fun hzero => ?_
  have hiterations : iterations = 0 := UInt32.toNat_inj.mp hzero
  unfold pbkdf2Args at hok
  rw [if_pos (Or.inr (Or.inr (Or.inr hiterations)))] at hok
  split at hok <;> cases hok

/-- `zuc_pbkdf2_hmac`, of arguments that pass its checks or do not. -/
theorem exec_zucPbkdf2Hmac (L : KdfLaws h F) {alg : ZucAlg} (halg : zucIntDigestAvailable alg = true)
    (password passwordLen salt saltLen out : Nat) {n : Nat} (c : UInt32)
    (hn : n ≤ 4294967295 * zucAlgSize alg) (w : World) (s : σ) :
    let r := (zucPbkdf2Hmac alg password passwordLen salt saltLen c out n : Adapter O _).exec h w s
    LeavesKey L (r.value = .ok) (pbkdf2Args (decide (0 < w.refcount)) alg password passwordLen salt
        saltLen c out n = .ok) out
      (derived (hmacOf F (zucIntPsaHash alg) (read w.mem password passwordLen)) (zucAlgSize alg)
        (read w.mem salt saltLen) c.toNat n) w r.world := by
  have hhash := (zucIntDigestAvailable_iff alg).mp halg
  unfold zucPbkdf2Hmac
  simp only [Proc.exec_bind, exec_zucIntReady]
  by_cases hargs : pbkdf2Args (decide (0 < w.refcount)) alg password passwordLen salt saltLen c out n = .ok
  swap
  · rw [if_pos hargs, Proc.exec_pure]
    exact ⟨fun hok => absurd hok hargs, fun _ _ => rfl, fun _ hok => absurd hok hargs⟩
  rw [if_neg (not_not.mpr hargs), Proc.exec_bind]
  have hrun := exec_pbkdf2Run L hhash password passwordLen salt saltLen (pbkdf2Args_iterations hargs)
    out (psaHashLength_eq halg ▸ hn) w s
  have hpsa : pbkdf2Hash alg = zucIntPsaHash alg := if_pos halg
  have hlength : (derived (hmacOf F (zucIntPsaHash alg) (read w.mem password passwordLen))
      (zucAlgSize alg) (read w.mem salt saltLen) c.toNat n).length = n := by
    have hprf : ∀ m, (hmacOf F (zucIntPsaHash alg) (read w.mem password passwordLen) m).length =
        psaHashLength (zucIntPsaHash alg) := fun _ => L.length _ _ hhash
    rw [← psaHashLength_eq halg, derived_eq_stretch hprf (psaHashLength_le_block hhash).1,
      length_stretch]
  rw [psaHashLength_eq halg] at hrun
  rw [hpsa]
  generalize (pbkdf2Run (zucIntPsaHash alg) password passwordLen salt saltLen c out n :
    Adapter O _).exec h w s = r at hrun ⊢
  obtain ⟨hkey, hframe, hworks⟩ := hrun
  unfold settlePbkdf2
  by_cases hps : r.value = .success
  · rw [if_neg (not_not.mpr hps), Proc.exec_pure]
    exact ⟨fun _ => hkey hps, hframe, fun _ _ => rfl⟩
  · -- what was written is wiped, in the same place
    rw [if_pos hps]
    simp only [Proc.exec_bind, exec_zucSecureZero, Proc.exec_pure, zucIntFromPsa_eq_ok]
    refine ⟨fun h => absurd h hps, fun a ha => ?_, fun hs _ => absurd (hworks hs trivial) hps⟩
    by_cases hnull : out = NULL
    · rw [if_pos hnull]
      exact hframe a ha
    · rw [if_neg hnull]
      refine (write_apply_outside _ ?_).trans (hframe a ha)
      rwa [List.length_replicate, ← hlength]

/-! ### From R -/

/-- What the functions are called with: R makes the vector of the key apart from the others, and
does not leave them. -/
structure Pbkdf2Call (h : Handler (Call O) σ) (H : RHeap O) (s : σ) (password salt : Sexp) (n : Nat) :
    Prop where
  still : H.jump = none
  valid : ValidBuffer (h _ (.allocRaw n) s).1 n
  buffers : ∀ x ∈ [password, salt], (x.XLENGTH ≠ 0 → x.RAW ≠ NULL) ∧
    Apart (h _ (.allocRaw n) s).1 n x.RAW x.XLENGTH

/-- An empty vector is passed as `NULL`, and has no bytes either way. -/
theorem read_orNull (m : Memory) (x : Sexp) :
    read m (if x.XLENGTH ≠ 0 then x.RAW else NULL) x.XLENGTH = x.bytes m := by
  by_cases hempty : x.XLENGTH = 0
  · rw [if_neg (not_not.mpr hempty), Sexp.bytes, hempty]
    rfl
  · rw [if_pos hempty, Sexp.bytes]

/-- What `crypt_pbkdf2` does with arguments that pass. -/
theorem exec_cryptPbkdf2 (L : KdfLaws h F) {password salt : Sexp} {iterations length : RNumeric}
    {algorithm : Option String} {name : String} {c n : Nat} {H : RHeap O} {w : World} {s : σ}
    (hcounts : Pbkdf2Counts iterations length algorithm name c n)
    (hcall : Pbkdf2Call h H s password salt n) (st : RState) :
    let alg := zucAlgByName (some name)
    let key := derived (hmacOf F (zucIntPsaHash alg) (password.bytes w.mem)) (zucAlgSize alg)
      (salt.bytes w.mem) c n
    let r := (RFun.entry (zucryptPbkdf2 password salt c n name) H st).exec h w s
    ∃ status w' s', r = ⟨(.ok (nativeResult status (if status = .ok then .raw (h _ (.allocRaw n) s).1 n []
        else .null), H), st), w', s'⟩ ∧
      LeavesKey L (status = .ok) (0 < w.refcount) (h _ (.allocRaw n) s).1 key w w' := by
  intro alg key r
  have halg := digestAvailable_of_mem hcounts.available
  have hsize : 20 ≤ zucAlgSize alg := by
    have hany : ∀ a, zucIntDigestAvailable a = true → 20 ≤ zucAlgSize a := by
      intro a
      cases a <;> simp [zucIntDigestAvailable, zucIntPsaHash, zucAlgSize]
    exact hany _ halg
  have hle := hcounts.length_le
  -- both counts fit, so the conversions from `double` keep them
  have hcost : (UInt32.ofNat c).toNat = c := by
    rw [UInt32.toNat_ofNat']
    exact Nat.mod_eq_of_lt (by have := hcounts.cost_le; omega)
  have hrun := exec_zucPbkdf2Hmac L halg (if password.XLENGTH ≠ 0 then password.RAW else NULL)
    password.XLENGTH (if salt.XLENGTH ≠ 0 then salt.RAW else NULL) salt.XLENGTH
    (h _ (.allocRaw n) s).1 (UInt32.ofNat c) (by omega : n ≤ 4294967295 * zucAlgSize alg) w
    (h _ (.allocRaw n) s).2
  rw [read_orNull, read_orNull, hcost] at hrun
  have hunsigned : ∀ k : Nat, toUnsigned (k : Rat) = k := by
    intro k
    unfold toUnsigned
    rw [floor_natCast]
    rfl
  generalize hrest : (zucPbkdf2Hmac alg (if password.XLENGTH ≠ 0 then password.RAW else NULL)
    password.XLENGTH (if salt.XLENGTH ≠ 0 then salt.RAW else NULL) salt.XLENGTH (UInt32.ofNat c)
    (h _ (.allocRaw n) s).1 n : Adapter O _).exec h w (h _ (.allocRaw n) s).2 = done at hrun
  refine ⟨done.value, done.world, done.env, ?_, hrun.bytes, hrun.frame, fun hs hready => hrun.works hs ?_⟩
  · unfold r RFun.entry zucryptPbkdf2
    simp only [hunsigned]
    rw [Proc.exec_bind, Entry.exec_bind (exec_allocVector hcall.still n), Entry.exec_bind (Entry.exec_native _),
      hrest, exec_result hcall.still]
    rfl
  · have hbuffers := hcall.buffers
    simp only [List.mem_cons, List.not_mem_nil, or_false, forall_eq_or_imp, forall_eq] at hbuffers
    obtain ⟨⟨hpassword, -⟩, hsalt, -⟩ := hbuffers
    have hpos := hcounts.length_pos
    have hcpos := hcounts.cost_pos
    have hnull : ∀ x : Sexp, (x.XLENGTH ≠ 0 → x.RAW ≠ NULL) →
        ¬ ((if x.XLENGTH ≠ 0 then x.RAW else NULL) = NULL ∧ x.XLENGTH ≠ 0) := by
      intro x hx hbad
      rw [if_pos hbad.2] at hbad
      exact hx hbad.2 hbad.1
    -- none of the checks in C refuses what R let pass
    unfold pbkdf2Args
    rw [if_neg (by rw [decide_eq_true hready]; simp), if_neg, if_neg (by omega), if_neg]
    · rw [show pbkdf2Hash alg = zucIntPsaHash alg from if_pos halg]
      intro hnone
      have hhash := (zucIntDigestAvailable_iff alg).mp halg
      rw [hnone] at hhash
      cases hhash
    · rintro (hout | hbad | hbad | hzero)
      · exact hcall.valid.1 hout
      · exact hnull password hpassword hbad
      · exact hnull salt hsalt hbad
      · rw [hzero] at hcost
        exact absurd hcost (by simpa using (Nat.ne_of_lt hcpos))

end

/-- **R's PBKDF2 gives the derived key.**  Arguments that are wrong are refused before anything is
called.  Others give a vector of its own with exactly the bytes PBKDF2 derives, which are also the
first bytes of every longer key of the same password, salt, cost and digest, or else raise with the
status that says why; password and salt are left alone either way.  A library that is ready, over a
backend that does not fail, gives the key. -/
theorem crypt_pbkdf2_derives (L : KdfLaws h F) (password salt : Sexp) (iterations length : RNumeric)
    (algorithm : Option String) :
    (∃ c, pbkdf2Problem password salt iterations length algorithm = some c.cls ∧
      ∀ (H : RHeap O) st w s, (cryptPbkdf2 password salt iterations length algorithm H st).exec h w s =
        ⟨(.error c, st), w, s⟩) ∨
    pbkdf2Problem password salt iterations length algorithm = none ∧
      ∃ name c n, Pbkdf2Counts iterations length algorithm name c n ∧
        ∀ (H : RHeap O) st w s, Pbkdf2Call h H s password salt n →
          let alg := zucAlgByName (some name)
          let key := derived (hmacOf F (zucIntPsaHash alg) (password.bytes w.mem)) (zucAlgSize alg)
            (salt.bytes w.mem) c
          let r := (cryptPbkdf2 password salt iterations length algorithm H st).exec h w s
          let out := (h _ (.allocRaw n) s).1
          ((r.value = (.ok (.raw out n []), st) ∧
              ∀ m, n ≤ m → read r.world.mem out n = (key m).take n) ∨
            ∃ status, status ≠ .ok ∧ r.value = (.error (abortNative status (some "pbkdf2")), st)) ∧
          (∀ x ∈ [password, salt], x.bytes r.world.mem = x.bytes w.mem) ∧
          (KdfSucceeds L → 0 < w.refcount → r.value = (.ok (.raw out n []), st)) := by
  rcases cryptPbkdf2_cases (O := O) password salt iterations length algorithm with
    ⟨c, hc, hrun⟩ | ⟨hnone, name, c, n, hcounts, hrun⟩
  · refine .inl ⟨c, hc, fun H st w s => ?_⟩
    rw [hrun, Proc.exec_pure]
  refine .inr ⟨hnone, name, c, n, hcounts, fun H st w s hcall => ?_⟩
  intro alg key r out
  obtain ⟨status, w', s', hentry, hleaves⟩ := exec_cryptPbkdf2 L hcounts hcall st
  have halg := digestAvailable_of_mem hcounts.available
  have hhash := (zucIntDigestAvailable_iff alg).mp halg
  have hprf : ∀ m, (hmacOf F (zucIntPsaHash alg) (password.bytes w.mem) m).length = zucAlgSize alg :=
    fun m => (L.length _ _ hhash).trans (psaHashLength_eq halg)
  have hpos : 0 < zucAlgSize alg := psaHashLength_eq halg ▸ (psaHashLength_le_block hhash).1
  have hlength : (key n).length = n := by
    unfold key
    rw [derived_eq_stretch hprf hpos, length_stretch]
  have hr : r = ⟨(if status = .ok then .ok (.raw out n []) else .error (abortNative status (some "pbkdf2")), st),
      w', s'⟩ := by
    unfold r
    rw [hrun]
    show (RFun.seq (RFun.entry (zucryptPbkdf2 password salt c n name) H) _ st).exec h w s = _
    unfold RFun.seq
    rw [Proc.exec_bind, hentry]
    by_cases hok : status = .ok
    · subst hok
      rfl
    · have hraise : (nativeResult status (if status = .ok then .raw (h _ (.allocRaw n) s).1 n []
          else .null)).status ≠ .ok := hok
      dsimp only
      rw [if_pos hraise, if_neg hok, if_neg hok]
      rfl
  rw [hr]
  refine ⟨?_, fun x hx => ?_, fun hs hready => ?_⟩
  · by_cases hok : status = .ok
    · refine .inl ⟨by rw [if_pos hok], fun m hm => ?_⟩
      have hread := hleaves.bytes hok
      rw [hlength] at hread
      rw [hread]
      exact (derived_shorter hprf hpos hm).symm
    · exact .inr ⟨status, hok, by rw [if_neg hok]⟩
  · -- the key is written apart from both
    have hapart := (hcall.buffers x hx).2
    refine read_congr fun a ha ha' => hleaves.frame a ?_
    rw [hlength]
    unfold Apart at hapart
    omega
  · rw [if_pos (hleaves.works hs hready)]

/-! ### A published key -/

/-- Nothing of it fails. -/
theorem steadyWorks {F : PsaAlg → List Byte → List Byte}
    (hF : ∀ alg m, alg.isHash = true → (F alg m).length = psaHashLength alg) :
    DriverWorks (steadyDigests hF) where
  alloc _ := rfl
  hashSetup _ _ _ := rfl
  hashCompute _ _ _ _ _ _ := rfl
  macSetup _ _ _ _ _ _ _ := rfl
  macUpdate _ _ _ _ _ _ _ := rfl
  macFinish _ _ _ _ _ _ _ _ := rfl
  macAbort _ _ := rfl
  macCompute _ _ _ _ _ _ _ _ _ _ := rfl

/-- The rest of a backend over it: R makes its vectors one after another. -/
def steadyRest (F : PsaAlg → List Byte → List Byte) : Handler (Call (derivationObjects (steadyDriver F))) Nat
  | _, .psa c, s => (⟨refusal c, false⟩, s)
  | _, .calloc _, s => (none, s)
  | _, .malloc _, s => (none, s)
  | _, .freeRecord .., s => ((), s)
  | _, .freeBytes _, s => ((), s)
  | _, .dropLocal _, s => ((), s)
  | _, .allocRaw n, s => (0x10000 + s, s + n)

/-- The password at 0x100, and the salt at 0x200. -/
def pbkdf2KnownWorld : World :=
  (⟨fun _ => 0, 1, 0, false⟩ : World).store 0x100 [0x70, 0x61, 0x73, 0x73, 0x77, 0x6f, 0x72, 0x64]
    |>.store 0x200 [0x73, 0x61, 0x6c, 0x74]

/-- `crypt_pbkdf2` of the published password and salt. -/
def pbkdf2KnownRun : Outcome (Except Condition Sexp × RState) World Nat :=
  (cryptPbkdf2 (.raw 0x100 8 []) (.raw 0x200 4 []) ⟨true, [some 2]⟩ ⟨true, [some 32]⟩ (some "sha256")
    ⟨[], none⟩ noConnections).exec (derivationBackend (steadyDriver pbkdf2KnownHash)
      (steadyRest pbkdf2KnownHash)) pbkdf2KnownWorld 0

/-- It gives the published key. -/
theorem crypt_pbkdf2_derives_known :
    pbkdf2KnownRun.value = (.ok (.raw 0x10000 32 []), noConnections) ∧
      read pbkdf2KnownRun.world.mem 0x10000 32 = pbkdf2KnownKey := by
  have hF : ∀ alg m, alg.isHash = true → (pbkdf2KnownHash alg m).length = psaHashLength alg :=
    fun alg m _ => pbkdf2KnownHash_length alg m
  let L := derivationKdfLaws (steadyDigests hF) (steadyRest pbkdf2KnownHash)
  have hsucceeds : KdfSucceeds L := derivationKdfSucceeds (steadyWorks hF) _
  rcases crypt_pbkdf2_derives L (.raw 0x100 8 []) (.raw 0x200 4 []) ⟨true, [some 2]⟩ ⟨true, [some 32]⟩
    (some "sha256") with ⟨c, hc, -⟩ | ⟨-, name, c, n, hcounts, hall⟩
  · rw [show pbkdf2Problem (.raw 0x100 8 []) (.raw 0x200 4 []) ⟨true, [some 2]⟩ ⟨true, [some 32]⟩
      (some "sha256") = none by decide +kernel] at hc
    cases hc
  obtain rfl : "sha256" = name := Option.some.inj hcounts.algorithm
  obtain rfl : c = 2 := by
    have hc := hcounts.iterations
    simp only [List.cons.injEq, Option.some.injEq, and_true] at hc
    exact_mod_cast hc.symm
  obtain rfl : n = 32 := by
    have hn := hcounts.length
    simp only [List.cons.injEq, Option.some.injEq, and_true] at hn
    exact_mod_cast hn.symm
  have hcall : Pbkdf2Call (derivationBackend (steadyDriver pbkdf2KnownHash) (steadyRest pbkdf2KnownHash))
      ⟨[], none⟩ 0 (.raw 0x100 8 []) (.raw 0x200 4 []) 32 := by
    refine ⟨rfl, ⟨by decide, by decide⟩, fun x hx => ?_⟩
    simp only [List.mem_cons, List.not_mem_nil, or_false] at hx
    rcases hx with rfl | rfl
    · exact ⟨fun _ => by decide, .inr (.inl (by decide))⟩
    · exact ⟨fun _ => by decide, .inr (.inl (by decide))⟩
  obtain ⟨hresult, -, hworks⟩ := hall ⟨[], none⟩ noConnections pbkdf2KnownWorld 0 hcall
  have hvalue : pbkdf2KnownRun.value = (.ok (.raw 0x10000 32 []), noConnections) :=
    hworks hsucceeds (by decide)
  refine ⟨hvalue, ?_⟩
  rcases hresult with ⟨-, hkey⟩ | ⟨status, -, hraised⟩
  · have hread : read pbkdf2KnownRun.world.mem 0x10000 32 = _ := hkey 32 (Nat.le_refl _)
    rw [hread]
    decide +kernel
  · have hraised : pbkdf2KnownRun.value = _ := hraised
    rw [hvalue] at hraised
    cases congrArg Prod.fst hraised

end Zucrypt
