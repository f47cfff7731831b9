import Zucrypt.KeyVectors
import Zucrypt.PublicHalf
import Zucrypt.ReferenceCurves

/-! # Key agreement in R

`agree` of `R/ec.R` and the two functions over it.  What they give is told by one's own key and the
public half of the peer's alone, so a peer may be given as either; and the two sides of an agreement
get the same.

`crypt_agreement_symmetric` takes any two private handles on curves that were made, and says that
there is one value `v` between them, a secret or an error: whichever side calls, with its own key
and the peer in whatever form, gets that.  Keys of two curves have an error; keys of one family have
the secret, but for X25519 keys whose secret would be all zeros, which is an error too.

The laws are those of the key store and its operations (`hL`, `hF`).  `AgreementTheory` is what is
asked of the curves: that the secret is the same from both sides, as it is a multiple of the base
point by both scalars, and that it fits the buffer.  The library is ready and no allocation fails:
an agreement that runs out of memory gives neither side anything. -/
namespace Zucrypt
open Effects ByteMemory

variable {O : Objects}

/-! ### The functions -/

/-- `zucrypt_pkey_agree`. -/
def zucryptPkeyAgree (handle peer : Option ZucPkey) : Adapter O NativeResult := do
  let cap := 128
  let buf ← allocRaw cap
  match handle, peer with
  | some key, some other =>
    let r ← zucPkeyAgree (some key) (some other) buf cap (some 0)
    trimmed r.1 buf cap (r.2.getD 0)
  | _, _ => trimmed .errInvalidArgument buf cap 0

/-- The condition `agree` makes of a status. -/
def agreeCondition (status : ZucStatus) : Condition :=
  match status with
  | .errInvalidArgument =>
    zucryptAbort "zucrypt_invalid_argument"
      ("Key agreement needs a private key and a peer on the same " ++
        "curve, and a peer point that yields a usable secret.") none none
  | status => abortNative status (some "ecdh")

/-- `agree`. -/
def agree (key peer : KeyObject) : RFun O Sexp := do
  let res ← RFun.native (zucryptPkeyAgree key.handle peer.handle)
  if res.status ≠ .ok then
    RFun.raise (agreeCondition res.status)
  else
    return res.value

/-- The body of both functions, for the keys of one family. -/
def agreeWithin (family message : String) (key peer : KeyArgument) : RFun O Sexp := do
  let key ← cryptReadKey key .null
  let peer ← cryptReadPubkey peer
  if key.inherits family = false ∨ peer.inherits family = false then
    RFun.raise (zucryptAbort "zucrypt_invalid_argument" message none none)
  else
    agree key peer

/-- `crypt_ec_dh`. -/
def cryptEcDh (key peerkey : KeyArgument) (password : Sexp) : RFun O Sexp := do
  RFun.check (noPassword password)
  agreeWithin "crypt_ecdsa" "`key` and `peerkey` must be keys on P-256, P-384 or P-521." key peerkey

/-- `crypt_x25519_diffie_hellman`. -/
def cryptX25519DiffieHellman (key pubkey : KeyArgument) : RFun O Sexp :=
  agreeWithin "crypt_x25519" "`key` and `pubkey` must be X25519 keys." key pubkey

/-! ### What is agreed on -/

/-- What a backend's key agreement promises. -/
structure AgreementTheory (T : KeyTheory O) (F : KeyOperations) : Prop where
  /-- a point is no longer than the buffer for points of its curve -/
  fits : ∀ {key}, T.Genuine key → key.type.isRsa = false → (T.publicHalf key).Fits
  /-- a secret is in the buffer it was asked for in -/
  within : ∀ key alg point size, (F.agree key alg point size).1 = .success →
    (F.agree key alg point size).2.len ≤ size ∧
      (F.agree key alg point size).2.len ≤ (F.agree key alg point size).2.bytes.length
  /-- two keys on one curve come to the same from both sides -/
  symm : ∀ {key key'}, T.Genuine key → T.Genuine key' → key.type.isKeyPair = true →
    key'.type.isKeyPair = true → algOfPsa key.type key.bits = algOfPsa key'.type key'.bits →
    ∀ size, F.agree key .ecdh (T.publicHalf key').material size =
      F.agree key' .ecdh (T.publicHalf key).material size

/-- What a key and a public one agree on: a secret, or a status. -/
def agreedSecret (F : KeyOperations) (own half : RefKey) : Except ZucStatus (List Byte) :=
  let type := algOfPsa own.type own.bits
  if algOfPsa half.type half.bits ≠ type then
    .error .errInvalidArgument
  else
    let r := F.agree own .ecdh half.material 128
    let st := agreeStatus type r.1 r.2.reported
    if st = .ok then .ok r.2.reported else .error st

section
variable {T : KeyTheory O} {F : KeyOperations} {key key' : RefKey}

/-- Both halves are of one algorithm. -/
theorem algOfPsa_publicHalf (T : KeyTheory O) (key : RefKey) :
    algOfPsa (T.publicHalf key).type (T.publicHalf key).bits = algOfPsa key.type key.bits := by
  rw [T.publicHalf_type, T.publicHalf_bits, algOfPsa_publicKey]

/-- Both sides agree on the same. -/
theorem agreedSecret_symm (hA : AgreementTheory T F) (hkey : T.Genuine key) (hkey' : T.Genuine key')
    (hpair : key.type.isKeyPair = true) (hpair' : key'.type.isKeyPair = true) :
    agreedSecret F key (T.publicHalf key') = agreedSecret F key' (T.publicHalf key) := by
  unfold agreedSecret
  simp only [algOfPsa_publicHalf]
  by_cases hcurve : algOfPsa key.type key.bits = algOfPsa key'.type key'.bits
  · rw [if_neg (not_not.mpr hcurve.symm), if_neg (not_not.mpr hcurve),
      hA.symm hkey hkey' hpair hpair' hcurve 128, hcurve]
  · rw [if_pos (Ne.symm hcurve), if_pos hcurve]

/-- An X25519 secret is not all zeros. -/
theorem agreedSecret_nonzero {half : RefKey} {bs : List Byte}
    (hbs : agreedSecret F key half = .ok bs) (hx : algOfPsa key.type key.bits = .x25519) :
    ∃ b ∈ bs, b ≠ 0 := by
  unfold agreedSecret at hbs
  simp only [hx] at hbs
  split at hbs
  · cases hbs
  · split at hbs
    · rename_i hst
      obtain rfl := Except.ok.inj hbs
      by_contra hzero
      have hall : ∀ b ∈ (F.agree key .ecdh half.material 128).2.reported, b = 0 :=
        fun b hb => by_contra fun hne => hzero ⟨b, hb, hne⟩
      refine absurd hst ?_
      unfold agreeStatus
      by_cases hok : (F.agree key .ecdh half.material 128).1 = .success
      · rw [if_pos hok, if_pos ⟨rfl, rfl, hall⟩]
        simp
      · simp only [if_neg hok]
        split <;> simp
    · cases hbs

end

/-! ### The entry point -/

section
variable {T : KeyTheory O} {L : StoreLaw O StoredKey} {F : KeyOperations} {live : List (Nat × Nat)}
  {w : World} {S : KeyStore StoredKey} {own peer : ZucPkey} {key key' : RefKey}

/-- `zuc_pkey_agree` into a buffer of the entry point's size. -/
theorem agreeOutcome_buffer (hA : AgreementTheory T F) (hown : Loads T own key)
    (hpeer : Loads T peer key') (hprivate : own.isPrivate = true) (hec : own.type ≠ .rsa) {buf : Nat}
    (hbuf : buf ≠ NULL) (m : Memory) :
    match agreedSecret F key (T.publicHalf key') with
    | .ok bs => bs.length ≤ 128 ∧ ∃ m', read m' buf bs.length = bs ∧
        agreeOutcome F own key (T.publicHalf key') buf 128 (some 0) m = ((.ok, some bs.length), m')
    | .error st => st ≠ .ok ∧ ∃ m',
        agreeOutcome F own key (T.publicHalf key') buf 128 (some 0) m = ((st, some 0), m') := by
  have hrsa : key.type.isRsa = false := by
    cases hrsa : key.type.isRsa with
    | false => rfl
    | true => exact absurd (hown.type.trans (algOfPsa_eq_rsa.mpr hrsa)) hec
  have hroom : ¬ 128 < ecBytes own := by
    have hbits := bits_le_of_algOfPsa (hown.type ▸ hown.known) hrsa
    unfold ecBytes
    rw [hown.bits]
    omega
  have hcell : ¬ (buf = NULL ∨ SizeCell.store (some 0) 0 = none) := by
    rintro (hnull | hnone)
    · exact hbuf hnull
    · cases hnone
  have havailable : ¬ (own.type = .rsa ∨ zucAlgAvailable .ecdh = false) := by
    rintro (htype | habsent)
    · exact hec htype
    · cases habsent
  unfold agreeOutcome
  simp only [if_neg hcell, if_neg havailable]
  unfold agreedSecret
  simp only [algOfPsa_publicHalf]
  by_cases hcurve : algOfPsa key'.type key'.bits = algOfPsa key.type key.bits
  swap
  · have hother : own.isPrivate = false ∨ (T.publicHalf key').asHandle.type ≠ own.type := by
      refine .inr ?_
      rw [← hpeer.type_asHandle, hpeer.type, hown.type]
      exact hcurve
    rw [if_pos hcurve, if_pos hother]
    exact ⟨by simp, m, rfl⟩
  have hsame : ¬ (own.isPrivate = false ∨ (T.publicHalf key').asHandle.type ≠ own.type) := by
    rw [← hpeer.type_asHandle, hpeer.type, hown.type, hprivate]
    simpa using hcurve
  have hrsa' : key'.type.isRsa = false := by
    cases hrsa' : key'.type.isRsa with
    | false => rfl
    | true => exact absurd (hown.type.trans (hcurve.symm.trans (algOfPsa_eq_rsa.mpr hrsa'))) hec
  rw [if_neg (not_not.mpr hcurve), if_neg hsame, if_neg hroom, RefKey.exported,
    if_pos (hA.fits hpeer.genuine hrsa'), ← hown.type]
  dsimp only
  have hwithin := hA.within key .ecdh (T.publicHalf key').material 128
  generalize F.agree key .ecdh (T.publicHalf key').material 128 = r at hwithin ⊢
  by_cases hok : r.1 = .success
  · obtain ⟨hsize, hbytes⟩ := hwithin hok
    -- the reported bytes are what is found in the buffer
    have hread : read (write m buf (r.2.bytes.take 128)) buf r.2.len = r.2.reported := by
      have hlen : (r.2.bytes.take r.2.len).length = r.2.len := by
        rw [List.length_take]
        omega
      have hprefix : r.2.bytes.take r.2.len <+: r.2.bytes.take 128 := List.take_prefix_take_left hsize
      have hfound := read_write_prefix m buf hprefix
      rwa [hlen] at hfound
    have hlen : r.2.reported.length = r.2.len := by
      rw [Output.reported, List.length_take]
      omega
    rw [hread]
    by_cases hst : agreeStatus own.type r.1 r.2.reported = .ok
    · rw [if_pos hst, if_neg (not_not.mpr hst)]
      exact ⟨by rw [hlen]; exact hsize, _, by rw [hlen]; exact hread, by rw [hlen]; rfl⟩
    · rw [if_neg hst, if_pos hst]
      exact ⟨hst, _, rfl⟩
  · -- the status does not depend on what is in the buffer
    have hstatus : ∀ secret, agreeStatus own.type r.1 secret =
        if r.1 = .errorInsufficientMemory then .errMemory else .errInvalidArgument := by
      intro secret
      unfold agreeStatus
      rw [if_neg hok]
      split <;> simp
    have hne : (if r.1 = .errorInsufficientMemory then ZucStatus.errMemory else .errInvalidArgument) ≠
        .ok := by split <;> simp
    rw [hstatus, hstatus, if_neg hne, if_pos hne]
    exact ⟨hne, _, rfl⟩

/-- What R gets: a vector of the secret, or nothing. -/
def GivesSecret (v : Except ZucStatus (List Byte)) (live : List (Nat × Nat)) (m : Memory)
    (r : Except Condition Sexp) : Prop :=
  match v with
  | .ok bs => ∃ x, r = .ok x ∧ HoldsVector live m x bs
  | .error st => r = .error (agreeCondition st)

/-- `agree`, of a private key and any key. -/
theorem rmeets_agree (hL : L.Implies T.law) (hF : L.Implies (F.law T)) (hA : AgreementTheory T F)
    (hown : Loads T own key) (hpeer : Holds T peer key') (hprivate : own.isPrivate = true)
    (hec : own.type ≠ .rsa) (hready : 0 < w.refcount) (st : RState) :
    RMeets L live w S (agree (objectOf own) (objectOf peer) st) fun r w' _ live' =>
      r.2 = st ∧ GivesSecret (agreedSecret F key (T.publicHalf key')) live' w'.mem r.1 := by
  have hmax : 128 ≤ R.VECTOR_MAX := by decide
  show RMeets L live w S ((RFun.native (zucryptPkeyAgree (some own) (some peer)) >>= _) st) _
  rw [RFun.native_bind]
  refine RMeets.andThen (R := fun r w' _ live' =>
    match agreedSecret F key (T.publicHalf key') with
    | .ok bs => GivesVector live' w'.mem .ok bs r
    | .error st => st ≠ .ok ∧ r = ⟨st, .null⟩) ?_ ?_
  · refine RMeets.bind (rmeets_allocRaw hmax fun buf hbuf _ => ?_)
    refine RMeets.bind (RMeets.of_meets
      (meets_zucPkeyAgree hL hF hown hpeer hready buf 128 (some 0)) ?_)
    intro r w' S' live' hr hlive
    -- the secret is in the buffer of 128 bytes, or the call failed
    have hcases := agreeOutcome_buffer hA hown hpeer.toLoads hprivate hec hbuf.1 w.mem
    rw [← hr] at hcases
    cases hsecret : agreedSecret F key (T.publicHalf key') with
    | ok bs =>
      rw [hsecret] at hcases
      obtain ⟨hlen, m', hread, houtcome⟩ := hcases
      obtain ⟨rfl, rfl⟩ := Prod.mk.inj houtcome
      refine (rmeets_trimmed (hlive _ List.mem_cons_self) (fun _ => hlen) hmax).mono ?_
      rintro r' w'' S'' live'' ⟨-, -, hgives⟩
      have hread : read w'.mem buf bs.length = bs := hread
      simp only [hread] at hgives
      exact hgives
    | error status =>
      rw [hsecret] at hcases
      obtain ⟨hne, m', houtcome⟩ := hcases
      obtain ⟨rfl, -⟩ := Prod.mk.inj houtcome
      refine (rmeets_trimmed (hlive _ List.mem_cons_self) (fun hok => absurd hok hne) hmax).mono ?_
      rintro r' w'' S'' live'' ⟨-, -, hgives⟩
      unfold GivesVector at hgives
      rw [if_neg hne] at hgives
      exact ⟨hne, hgives⟩
  · -- R hands the vector out, or raises the status
    intro r w' S' live' hr
    cases hsecret : agreedSecret F key (T.publicHalf key') with
    | ok bs =>
      rw [hsecret] at hr
      obtain ⟨x, rfl, hx⟩ : ∃ x, r = ⟨.ok, x⟩ ∧ HoldsVector live' w'.mem x bs := by
        simpa [GivesVector] using hr
      exact RMeets.pure ⟨rfl, x, rfl, hx⟩
    | error status =>
      rw [hsecret] at hr
      obtain ⟨hne, rfl⟩ := hr
      rw [if_pos hne]
      exact RMeets.pure ⟨rfl, rfl⟩

/-- A private key is used as it is. -/
theorem cryptReadKey_private {handle : ZucPkey} (h : handle.isPrivate = true) (password : Sexp) :
    (cryptReadKey (.object (objectOf handle)) password : RFun O KeyObject) = pure (objectOf handle) :=
  if_pos ((inherits_key handle).mpr h)

/-- A class that a key may have besides the one of its half. -/
def IsFamily (family : String) : Prop :=
  family ≠ "crypt_key" ∧ family ≠ "crypt_pubkey" ∧ family ≠ "crypt_rsa"

/-- What the class says of the handle's family. -/
theorem inherits_family {handle : ZucPkey} {family : String} (hfamily : IsFamily family) :
    (objectOf handle).inherits family = true ↔ keyFamilies handle.type = family := by
  obtain ⟨hkey, hpubkey, -⟩ := hfamily
  unfold KeyObject.inherits objectOf
  cases handle.isPrivate <;> simp [hkey, hpubkey, eq_comm]

/-- What R gets of two keys that need not be of the family asked for. -/
def Agrees (family message : String) (own peer : ZucPkey) (v : Except ZucStatus (List Byte))
    (live : List (Nat × Nat)) (m : Memory) (r : Except Condition Sexp) : Prop :=
  if keyFamilies own.type = family ∧ keyFamilies peer.type = family then
    GivesSecret v live m r
  else
    r = .error (zucryptAbort "zucrypt_invalid_argument" message none none)

/-- The two classes are asked for, of keys that have been read. -/
theorem rmeets_agree_checked (hL : L.Implies T.law) (hF : L.Implies (F.law T)) (hA : AgreementTheory T F)
    (hown : Loads T own key) (hpeer : Holds T peer key') (hprivate : own.isPrivate = true)
    {family : String} (hfamily : IsFamily family) (message : String) (hready : 0 < w.refcount)
    (st : RState) :
    RMeets L live w S ((if (objectOf own).inherits family = false ∨
          (objectOf peer).inherits family = false then
        RFun.raise (zucryptAbort "zucrypt_invalid_argument" message none none)
      else agree (objectOf own) (objectOf peer) : RFun O Sexp) st) fun r w' _ live' =>
        r.2 = st ∧
          Agrees family message own peer (agreedSecret F key (T.publicHalf key')) live' w'.mem r.1 := by
  unfold Agrees
  -- R asks for the family of both keys before it calls anything
  by_cases hboth : keyFamilies own.type = family ∧ keyFamilies peer.type = family
  · have hnone : ¬ ((objectOf own).inherits family = false ∨ (objectOf peer).inherits family = false) := by
      rw [(inherits_family hfamily).mpr hboth.1, (inherits_family hfamily).mpr hboth.2]
      simp
    have hec : own.type ≠ .rsa := by
      intro hrsa
      have hname := hboth.1
      rw [hrsa] at hname
      exact hfamily.2.2 hname.symm
    rw [if_neg hnone]
    simp only [if_pos hboth]
    exact rmeets_agree hL hF hA hown hpeer hprivate hec hready st
  · have hone : (objectOf own).inherits family = false ∨ (objectOf peer).inherits family = false := by
      by_contra hneither
      obtain ⟨hfirst, hsecond⟩ := not_or.mp hneither
      exact hboth ⟨(inherits_family hfamily).mp (Bool.eq_true_of_not_eq_false hfirst),
        (inherits_family hfamily).mp (Bool.eq_true_of_not_eq_false hsecond)⟩
    rw [if_pos hone]
    simp only [if_neg hboth]
    exact RMeets.pure ⟨rfl, rfl⟩

/-- The peer may be given as a private key or as a public one. -/
theorem rmeets_agreeWithin (hL : L.Implies T.law) (hF : L.Implies (F.law T)) (hA : AgreementTheory T F)
    (hown : Loads T own key) (hpeer : Holds T peer key') (hprivate : own.isPrivate = true)
    (hec : peer.type ≠ .rsa) {family : String} (hfamily : IsFamily family) (message : String)
    (hready : 0 < w.refcount) (st : RState) :
    RMeets L live w S (agreeWithin family message (.object (objectOf own)) (.object (objectOf peer)) st)
      fun r w' _ live' => r.2 = st ∧
        Agrees family message own peer (agreedSecret F key (T.publicHalf key')) live' w'.mem r.1 := by
  unfold agreeWithin
  rw [cryptReadKey_private hprivate, RFun.pure_bind]
  cases hpublic : peer.isPrivate with
  | false =>
    rw [cryptReadPubkey_public hpublic, RFun.pure_bind]
    exact rmeets_agree_checked hL hF hA hown hpeer hprivate hfamily message hready st
  | true =>
    have hrsa : key'.type.isRsa = false := by
      cases hrsa : key'.type.isRsa with
      | false => rfl
      | true => exact absurd (hpeer.type.trans (algOfPsa_eq_rsa.mpr hrsa)) hec
    have hfits := hA.fits hpeer.genuine hrsa
    rw [cryptReadPubkey_private hpublic]
    refine RMeets.seq (rmeets_publicOf hL hpeer.toLoads hready st) ?_
    rintro r w' S' live' ⟨-, hcount, -, hr⟩
    rw [if_pos hfits] at hr
    obtain ⟨pub, rfl, hpub⟩ := hr
    have htype : pub.type = peer.type := by
      rw [hpub.type, hpeer.type, algOfPsa_publicHalf]
    have hholds : Holds T pub (T.publicHalf key') := ⟨hpub, hfits⟩
    have hchecked : RMeets L live' w' S' _ _ :=
      rmeets_agree_checked hL hF hA hown hholds hprivate hfamily message (hcount ▸ hready) st
    unfold Agrees at hchecked ⊢
    rw [publicHalf_publicHalf, htype] at hchecked
    exact hchecked

/-- The families of curves, by their classes. -/
theorem isFamily_ecdsa : IsFamily "crypt_ecdsa" := by
  unfold IsFamily
  decide

/-- And that of X25519. -/
theorem isFamily_x25519 : IsFamily "crypt_x25519" := by
  unfold IsFamily
  decide

/-- A key and one of the peer's halves, on either side of an agreement of `a` and `b`. -/
def Sides (T : KeyTheory O) (a b own other : ZucPkey) : Prop :=
  (own = a ∧ SamePublicHalf T other b) ∨ (own = b ∧ SamePublicHalf T other a)

/-- Two keys on curves have one secret between them, or one error.  Both functions give it to
either side, from one's own key and the peer's in any form: the private key, or any public one
of the same public half. -/
theorem crypt_agreement_symmetric (hL : L.Implies T.law) (hF : L.Implies (F.law T))
    (hA : AgreementTheory T F) {a b : ZucPkey} (ha : Made L a) (hb : Made L b)
    (hprivate : a.isPrivate = true) (hprivate' : b.isPrivate = true) (hec : a.type ≠ .rsa)
    (hec' : b.type ≠ .rsa) :
    ∃ key key', Loads T a key ∧ Loads T b key' ∧ ∃ v, v = agreedSecret F key (T.publicHalf key') ∧
      (a.type ≠ b.type → v = .error .errInvalidArgument) ∧
      (∀ bs, v = .ok bs → a.type = .x25519 → ∃ byte ∈ bs, byte ≠ 0) ∧
      ∀ own other, Sides T a b own other → Made L other →
        ∀ live w S st, 0 < w.refcount →
          (RMeets L live w S (cryptEcDh (.object (objectOf own)) (.object (objectOf other)) .null st)
            fun r w' _ live' => r.2 = st ∧
              Agrees "crypt_ecdsa" "`key` and `peerkey` must be keys on P-256, P-384 or P-521." own other
                v live' w'.mem r.1) ∧
          RMeets L live w S
            (cryptX25519DiffieHellman (.object (objectOf own)) (.object (objectOf other)) st)
            fun r w' _ live' => r.2 = st ∧
              Agrees "crypt_x25519" "`key` and `pubkey` must be X25519 keys." own other
                v live' w'.mem r.1 := by
  obtain ⟨key, hkey⟩ := ha.holds hL
  obtain ⟨key', hkey'⟩ := hb.holds hL
  have hpair : key.type.isKeyPair = true := hkey.kind ▸ hprivate
  have hpair' : key'.type.isKeyPair = true := hkey'.kind ▸ hprivate'
  refine ⟨key, key', hkey.toLoads, hkey'.toLoads, _, rfl, fun hcurves => ?_, fun bs hbs hx => ?_, ?_⟩
  · unfold agreedSecret
    rw [algOfPsa_publicHalf, if_pos fun hsame => hcurves (hkey.type.trans (hsame.symm.trans hkey'.type.symm))]
  · exact agreedSecret_nonzero hbs (hkey.type ▸ hx)
  intro own other hsides hother live w S st hready
  obtain ⟨otherKey, hotherKey⟩ := hother.holds hL
  -- the side of it this is, and the secret that this side comes to
  obtain ⟨ownKey, hown, hpriv, hsecret, hotherEc⟩ : ∃ ownKey, Loads T own ownKey ∧ own.isPrivate = true ∧
      agreedSecret F ownKey (T.publicHalf otherKey) = agreedSecret F key (T.publicHalf key') ∧
      other.type ≠ .rsa := by
    rcases hsides with ⟨rfl, hhalf⟩ | ⟨rfl, hhalf⟩
    · have hhalf := hhalf _ _ hotherKey.toLoads hkey'.toLoads
      refine ⟨key, hkey.toLoads, hprivate, by rw [hhalf], ?_⟩
      rw [hotherKey.type, ← algOfPsa_publicHalf T, hhalf, algOfPsa_publicHalf, ← hkey'.type]
      exact hec'
    · have hhalf := hhalf _ _ hotherKey.toLoads hkey.toLoads
      refine ⟨key', hkey'.toLoads, hprivate', ?_, ?_⟩
      · rw [hhalf, agreedSecret_symm hA hkey.genuine hkey'.genuine hpair hpair']
      · rw [hotherKey.type, ← algOfPsa_publicHalf T, hhalf, algOfPsa_publicHalf, ← hkey.type]
        exact hec
  rw [← hsecret]
  constructor
  · exact rmeets_agreeWithin hL hF hA hown hotherKey hpriv hotherEc isFamily_ecdsa _ hready st
  · exact rmeets_agreeWithin hL hF hA hown hotherKey hpriv hotherEc isFamily_x25519 _ hready st

end

/-! ### Two scalars -/

/-- The point of a scalar on P-256. -/
def scalarPoint (d : Nat) : List Byte := NistCurve.p256.point (basePoint .p256 d).1 (basePoint .p256 d).2

/-- What the scalars 2 and 3 agree on. -/
def scalarSecret : List Byte := Der.fixed 32 (basePoint .p256 6).1

/-- A backend's agreement of these two. -/
def scalarOperations : KeyOperations :=
  { KeyOperations.refused with
    agree key _ point size :=
      let half := (ecPublicHalf key).material
      if 32 ≤ size ∧ ((half = scalarPoint 2 ∧ point = scalarPoint 3) ∨
          (half = scalarPoint 3 ∧ point = scalarPoint 2)) then
        (.success, .full scalarSecret)
      else
        (.errorInvalidArgument, ⟨[], 0⟩) }

/-- A backend that keeps EC keys and agrees on secrets. -/
def scalarLaw : StoreLaw keyObjects StoredKey := keyLaw curveTheory scalarOperations []

/-- The law of the reference curves says what keys are, -/
theorem scalarLaw_theory : scalarLaw.Implies curveTheory.law :=
  (StoreLaw.and_left _ _).trans (StoreLaw.and_left _ _)

/-- and how they agree. -/
theorem scalarLaw_operations : scalarLaw.Implies (scalarOperations.law curveTheory) :=
  (StoreLaw.and_left _ _).trans (StoreLaw.and_right _ _)

theorem length_scalarSecret : scalarSecret.length = 32 := by decide +kernel

/-- The scalar 2 and the threefold base point agree on the sixfold one. -/
theorem scalarOperations_agree {key : RefKey} {size : Nat} (hsize : 32 ≤ size)
    (hkey : (ecPublicHalf key).material = scalarPoint 2) :
    scalarOperations.agree key .ecdh (scalarPoint 3) size = (.success, .full scalarSecret) :=
  if_pos ⟨hsize, Or.inl ⟨hkey, rfl⟩⟩

theorem full_len (bs : List Byte) : (Output.full bs).len = bs.length := rfl

theorem full_within (bs : List Byte) : (Output.full bs).len ≤ (Output.full bs).bytes.length := Nat.le_refl _

theorem full_reported (bs : List Byte) : (Output.full bs).reported = bs := List.take_length

/-- These operations are symmetric: for other keys they have no secret. -/
theorem scalar_agreementTheory : AgreementTheory curveTheory scalarOperations where
  fits {key} hkey _ := by
    have hhalf := curveTheory.publicHalf_read hkey
    obtain ⟨c, x, y, hon, -, h⟩ | ⟨c, d, hin, -, h⟩ := of_readEc hhalf
    · rw [h]
      exact (ecRef_public hon).fits
    · rw [h]
      exact (ecRef_private hin).fits
  within key alg point size h := by
    have hagree : scalarOperations.agree key alg point size = if _ then _ else _ := rfl
    rw [hagree] at h ⊢
    by_cases hcond : 32 ≤ size ∧
        (((ecPublicHalf key).material = scalarPoint 2 ∧ point = scalarPoint 3) ∨
          ((ecPublicHalf key).material = scalarPoint 3 ∧ point = scalarPoint 2))
    · rw [if_pos hcond]
      refine ⟨?_, full_within scalarSecret⟩
      simp only [full_len, length_scalarSecret]
      exact hcond.1
    · rw [if_neg hcond] at h
      cases h
  symm {key key'} _ _ _ _ _ size := by
    have hcond : ((ecPublicHalf key).material = scalarPoint 2 ∧ (ecPublicHalf key').material = scalarPoint 3 ∨
          (ecPublicHalf key).material = scalarPoint 3 ∧ (ecPublicHalf key').material = scalarPoint 2) ↔
        ((ecPublicHalf key').material = scalarPoint 2 ∧ (ecPublicHalf key).material = scalarPoint 3 ∨
          (ecPublicHalf key').material = scalarPoint 3 ∧ (ecPublicHalf key).material = scalarPoint 2) := by
      rw [or_comm, and_comm, and_comm (a := (ecPublicHalf key).material = scalarPoint 2)]
    exact if_congr (and_congr_right' hcond) rfl rfl

/-- The handle of a scalar. -/
theorem exists_scalar_handle {d : Nat} (hin : Ec.p256.InRange d) :
    ∃ handle, Made scalarLaw handle ∧ Loads curveTheory handle (ecPrivateRef .p256 d) := by
  have hread : curveTheory.read (ecImportType true)
      (read (loadedWorld (ecPrivateRef .p256 d).material).mem 0x1000
        (ecPrivateRef .p256 d).material.length) = some (ecPrivateRef .p256 d) := by
    rw [read_loadedWorld]
    exact curveTheory_ec.private_iff.mpr ⟨.p256, d, hin, rfl, rfl⟩
  have hlen : (ecPrivateRef .p256 d).material.length = 32 := Der.length_fixed (InRange.lt (c := .p256) hin)
  obtain ⟨r, w', S', hran⟩ := exists_ran (T := curveTheory) (F := scalarOperations) (fun _ => rfl) noVectors_below
    (zucPkeyImport NistCurve.p256.alg true 0x1000 (ecPrivateRef .p256 d).material.length true)
    (loadedWorld (ecPrivateRef .p256 d).material) .initial
  have hmeets := meets_zucPkeyImport_ec (c := .p256) (S := KeyState.initial.store) scalarLaw_theory
    (loadedWorld_ready _) (by decide) (by rw [hlen]; decide) hread fun key hkey => by
      obtain rfl := Option.some.inj hkey
      rfl
  obtain ⟨-, -, hr⟩ := hmeets.of_ran hran
  obtain ⟨handle, rfl, hloads, -⟩ := hr.holds (ecRef_private (c := .p256) hin)
  exact ⟨handle, .imported ⟨_, _, _, _, _, hran⟩, hloads⟩

/-- The public half of a scalar is its point. -/
theorem publicHalf_scalar {d : Nat} (hin : Ec.p256.InRange d) :
    (curveTheory.publicHalf (ecPrivateRef .p256 d)).material = scalarPoint d := by
  have hhalf := ecPublicHalf_private (c := .p256) hin
  exact congrArg RefKey.material hhalf

/-- So the scalars 2 and 3 have a secret. -/
theorem agreedSecret_scalars :
    agreedSecret scalarOperations (ecPrivateRef .p256 2)
      (curveTheory.publicHalf (ecPrivateRef .p256 3)) = .ok scalarSecret := by
  have htwo : (ecPublicHalf (ecPrivateRef .p256 2)).material = scalarPoint 2 :=
    publicHalf_scalar (by decide +kernel)
  have hthree : (curveTheory.publicHalf (ecPrivateRef .p256 3)).material = scalarPoint 3 :=
    publicHalf_scalar (by decide +kernel)
  have hagree : scalarOperations.agree (ecPrivateRef .p256 2) .ecdh
      (curveTheory.publicHalf (ecPrivateRef .p256 3)).material 128 = (.success, .full scalarSecret) := by
    rw [hthree]
    exact scalarOperations_agree (by decide) htwo
  unfold agreedSecret
  rw [if_neg (by rw [algOfPsa_publicHalf]; decide), hagree]
  simp only [full_reported]
  generalize scalarSecret = secret
  exact if_pos rfl

/-- The scalars 2 and 3 agree on the sixfold base point. -/
theorem crypt_agreement_symmetric_known : ∃ a b, Made scalarLaw a ∧ Made scalarLaw b ∧
    Loads curveTheory a (ecPrivateRef .p256 2) ∧ Loads curveTheory b (ecPrivateRef .p256 3) ∧
    ∀ st, RMeets scalarLaw [] readyWorld KeyState.initial.store
      (cryptEcDh (.object (objectOf a)) (.object (objectOf b)) .null st)
      (fun r w' _ live' => ∃ x, r.1 = .ok x ∧ HoldsVector live' w'.mem x scalarSecret) ∧
    RMeets scalarLaw [] readyWorld KeyState.initial.store
      (cryptEcDh (.object (objectOf b)) (.object (objectOf a)) .null st)
      (fun r w' _ live' => ∃ x, r.1 = .ok x ∧ HoldsVector live' w'.mem x scalarSecret) := by
  obtain ⟨a, ha, hkey⟩ := exists_scalar_handle (d := 2) (by decide +kernel)
  obtain ⟨b, hb, hkey'⟩ := exists_scalar_handle (d := 3) (by decide +kernel)
  have htype : a.type = .ecP256 := hkey.type
  have htype' : b.type = .ecP256 := hkey'.type
  obtain ⟨_, _, hloads, hloads', v, hv, -, -, hsides⟩ := crypt_agreement_symmetric scalarLaw_theory
    scalarLaw_operations scalar_agreementTheory ha hb hkey.kind hkey'.kind
    (by rw [htype]; decide) (by rw [htype']; decide)
  obtain rfl := hloads.unique hkey
  obtain rfl := hloads'.unique hkey'
  obtain rfl := hv.trans agreedSecret_scalars
  -- both are on P-256
  have hgives : ∀ own other : ZucPkey, own.type = .ecP256 → other.type = .ecP256 →
      ∀ live m r, Agrees "crypt_ecdsa" "`key` and `peerkey` must be keys on P-256, P-384 or P-521." own
        other (.ok scalarSecret) live m r → ∃ x, r = .ok x ∧ HoldsVector live m x scalarSecret := by
    intro own other hown hother live m r h
    unfold Agrees at h
    rwa [if_pos ⟨by rw [hown]; rfl, by rw [hother]; rfl⟩] at h
  have hsame : ∀ c, SamePublicHalf curveTheory c c := by
    intro c k k' hk hk'
    rw [hk.unique hk']
  refine ⟨a, b, ha, hb, hkey, hkey', fun st => ⟨?_, ?_⟩⟩
  · exact (hsides a b (.inl ⟨rfl, hsame b⟩) hb [] readyWorld _ st (by decide)).1.mono
      fun r w' _ live' h => hgives a b htype htype' live' w'.mem r.1 h.2
  · exact (hsides b a (.inr ⟨rfl, hsame a⟩) ha [] readyWorld _ st (by decide)).1.mono
      fun r w' _ live' h => hgives b a htype' htype live' w'.mem r.1 h.2

end Zucrypt
