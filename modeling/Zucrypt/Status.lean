import Mathlib.Data.List.Basic

/-! # Status codes and algorithm identifiers

The two enumerations of `zucrypt.h`, the backend's status and algorithm values
the adapter looks at, and the translations between them in `zuc_status.c`.

A C enumeration can hold a number that is not an enumerator, and a caller can
pass one; `ZucAlg.other` is such a value.  A backend status the adapter does not
recognise is `PsaStatus.other`.  The build enables every algorithm of
`zuc_crypto_config.h`, so every `#if defined(PSA_WANT_...)` branch is taken. -/
namespace Zucrypt

/-- `zuc_status`. -/
inductive ZucStatus where
  | ok
  | errInvalidArgument
  | errUnsupported
  | errBadLength
  | errOverlap
  | errMemory
  | errBackend
  | errAbi
  | errInternal
  | errNotReady
  | errEntropy
  | errAuth
  deriving DecidableEq, Repr

/-- `zuc_alg`. -/
inductive ZucAlg where
  | none
  | sha1
  | sha256
  | sha384
  | sha512
  | aesGcm
  | rsaOaep
  | rsaPkcs1v15Crypt
  | rsa
  | ecP256
  | ecP384
  | ecP521
  | x25519
  | ecdh
  | rsaPkcs1v15Sign
  | rsaPss
  | ecdsa
  | ecdsaDeterministic
  | other (value : Int)
  deriving DecidableEq, Repr

/-- `psa_status_t`, and the `int` the backend's key-file layer returns, which
shares its values. -/
inductive PsaStatus where
  | success
  | errorNotSupported
  | errorInvalidArgument
  | errorBufferTooSmall
  | errorInsufficientMemory
  | errorBadState
  | errorInsufficientEntropy
  | errorInvalidSignature
  | errPkUnknownPkAlg
  | errPkFeatureUnavailable
  | errPkUnknownNamedCurve
  | other (value : Int)
  deriving DecidableEq, Repr

/-- `psa_algorithm_t`, of which `none` is 0. -/
inductive PsaAlg where
  | none
  | sha1
  | sha256
  | sha384
  | sha512
  | hmac (hash : PsaAlg)
  | cbcNoPadding
  | gcm
  | pbkdf2Hmac (hash : PsaAlg)
  | rsaPkcs1v15Sign (hash : PsaAlg)
  | rsaPss (hash : PsaAlg)
  | ecdsa (hash : PsaAlg)
  | deterministicEcdsa (hash : PsaAlg)
  | rsaOaep (hash : PsaAlg)
  | rsaPkcs1v15Crypt
  | ecdh
  deriving DecidableEq, Repr

def ZUC_MAX_DIGEST_SIZE : Nat := 64
def ZUC_AES_BLOCK_SIZE : Nat := 16
def ZUC_AES_KEY_SIZE_128 : Nat := 16
def ZUC_AES_KEY_SIZE_192 : Nat := 24
def ZUC_AES_KEY_SIZE_256 : Nat := 32
def ZUC_GCM_NONCE_SIZE : Nat := 12
def ZUC_GCM_TAG_SIZE : Nat := 16
def ZUC_PKEY_MAX_WRITE_SIZE : Nat := 8192

/-- `zuc_int_from_psa`. -/
def zucIntFromPsa : PsaStatus → ZucStatus
  | .success => .ok
  | .errorNotSupported => .errUnsupported
  | .errorInvalidArgument => .errInvalidArgument
  | .errorBufferTooSmall => .errBadLength
  | .errorInsufficientMemory => .errMemory
  | .errorBadState => .errInternal
  | .errorInsufficientEntropy => .errEntropy
  | _ => .errBackend

/-- `zuc_int_psa_hash`. -/
def zucIntPsaHash : ZucAlg → PsaAlg
  | .sha1 => .sha1
  | .sha256 => .sha256
  | .sha384 => .sha384
  | .sha512 => .sha512
  | _ => .none

/-- `zuc_alg_size`. -/
def zucAlgSize : ZucAlg → Nat
  | .sha1 => 20
  | .sha256 => 32
  | .sha384 => 48
  | .sha512 => 64
  | _ => 0

/-- `zuc_alg_available`, in the build `zuc_crypto_config.h` configures. -/
def zucAlgAvailable : ZucAlg → Bool
  | .none => false
  | .other _ => false
  | _ => true

/-- `zuc_int_digest_available`. -/
def zucIntDigestAvailable (alg : ZucAlg) : Bool :=
  zucIntPsaHash alg != .none && zucAlgAvailable alg

/-- `zuc_alg_name`. -/
def zucAlgName : ZucAlg → Option String
  | .sha1 => some "sha1"
  | .sha256 => some "sha256"
  | .sha384 => some "sha384"
  | .sha512 => some "sha512"
  | .aesGcm => some "aes-gcm"
  | .rsaOaep => some "rsa-oaep"
  | .rsaPkcs1v15Crypt => some "rsa-pkcs1v15-crypt"
  | .rsa => some "rsa"
  | .rsaPkcs1v15Sign => some "rsa-pkcs1v15-sign"
  | .rsaPss => some "rsa-pss"
  | .ecP256 => some "p256"
  | .ecP384 => some "p384"
  | .ecP521 => some "p521"
  | .x25519 => some "x25519"
  | .ecdh => some "ecdh"
  | .ecdsa => some "ecdsa"
  | .ecdsaDeterministic => some "ecdsa-deterministic"
  | .none => none
  | .other _ => none

/-- The table `zuc_alg_by_name` searches, in its order. -/
def zucAlgTable : List ZucAlg :=
  [.sha1, .sha256, .sha384, .sha512, .aesGcm, .rsaOaep, .rsaPkcs1v15Crypt, .rsa,
    .rsaPkcs1v15Sign, .rsaPss, .ecP256, .ecP384, .ecP521, .x25519, .ecdh, .ecdsa,
    .ecdsaDeterministic]

/-- `zuc_alg_by_name`: the first entry of the table with that name. -/
def zucAlgByName (name : Option String) : ZucAlg :=
  match name with
  | none => .none
  | some s => (zucAlgTable.find? (fun a => zucAlgName a == some s)).getD .none

/-- `PSA_HASH_BLOCK_LENGTH`. -/
def psaHashBlockLength : PsaAlg → Nat
  | .sha1 => 64
  | .sha256 => 64
  | .sha384 => 128
  | .sha512 => 128
  | _ => 0

/-- `PSA_ALG_IS_HASH`, of the values the adapter passes. -/
def PsaAlg.isHash : PsaAlg → Bool
  | .sha1 => true
  | .sha256 => true
  | .sha384 => true
  | .sha512 => true
  | _ => false

@[simp] theorem zucIntFromPsa_success : zucIntFromPsa .success = .ok := rfl

/-- No failure of the backend becomes a success. -/
@[simp] theorem zucIntFromPsa_eq_ok {s : PsaStatus} : zucIntFromPsa s = .ok ↔ s = .success := by
  cases s <;> simp [zucIntFromPsa]

/-- The translation never reports a failure the adapter gives a meaning of its
own: not ready, overlap, ABI, authentication. -/
theorem zucIntFromPsa_ne (s : PsaStatus) :
    zucIntFromPsa s ≠ .errNotReady ∧ zucIntFromPsa s ≠ .errOverlap ∧
      zucIntFromPsa s ≠ .errAbi ∧ zucIntFromPsa s ≠ .errAuth := by
  cases s <;> simp [zucIntFromPsa]

/-- The digests are exactly the algorithms the hash functions accept. -/
theorem zucIntDigestAvailable_iff (alg : ZucAlg) :
    zucIntDigestAvailable alg = true ↔ (zucIntPsaHash alg).isHash = true := by
  cases alg <;> simp [zucIntDigestAvailable, zucIntPsaHash, zucAlgAvailable, PsaAlg.isHash]

/-- A digest is at most as long as its block, so a key replaced by its digest
fits the block. -/
theorem zucAlgSize_le_block (alg : ZucAlg) :
    zucAlgSize alg ≤ psaHashBlockLength (zucIntPsaHash alg) := by
  cases alg <;> simp [zucAlgSize, psaHashBlockLength, zucIntPsaHash]

theorem zucAlgSize_le_max (alg : ZucAlg) : zucAlgSize alg ≤ ZUC_MAX_DIGEST_SIZE := by
  cases alg <;> simp [zucAlgSize, ZUC_MAX_DIGEST_SIZE]

/-- Looking a name up gives back the algorithm it names. -/
theorem zucAlgByName_zucAlgName {alg : ZucAlg} {s : String} (h : zucAlgName alg = some s) :
    zucAlgByName (zucAlgName alg) = alg := by
  cases alg <;> first | rfl | simp [zucAlgName] at h

end Zucrypt
