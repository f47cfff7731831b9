import Zucrypt.RsaTheory

/-! # RSA schemes

The signature and encryption schemes of RFC 8017, as far as they need no private key, over any hash
`H` with digests of `h` octets; and the backend operations that compute them.

They are there for `rsaOperations`, so that a theorem about public operations can be applied to ones
that do what their name says, at values that another implementation has computed.

Encryption is for one draw of the randomness, of ones. -/
namespace Rsa

variable (H : List UInt8 → List UInt8) (h : Nat)

/-- The length of the modulus in octets. -/
def PublicKey.octets (k : PublicKey) : Nat := (k.n.size + 7) / 8

/-- `RSAVP1` and `RSAEP`, on octets. -/
def PublicKey.raised (k : PublicKey) (m : List UInt8) : List UInt8 :=
  Der.fixed k.octets (powMod (Der.value m) k.n k.e.size k.e)

/-- `MGF1`. -/
def mgf1 (seed : List UInt8) (len : Nat) : List UInt8 :=
  ((List.range (len / h + 1)).flatMap fun i => H (seed ++ Der.fixed 4 i)).take len

def xored (a b : List UInt8) : List UInt8 := List.zipWith (· ^^^ ·) a b

/-- `EMSA-PKCS1-v1_5`, of a `DigestInfo`. -/
def emsaPkcs1v15 (len : Nat) (info : List UInt8) : Option (List UInt8) :=
  if len < info.length + 11 then none
  else some ([0x00, 0x01] ++ List.replicate (len - info.length - 3) 0xff ++ [0x00] ++ info)

/-- `DigestInfo`. -/
def digestInfo (oid digest : List UInt8) : List UInt8 :=
  Der.element 0x30 (Der.element 0x30 (Der.element 0x06 oid ++ Der.element 0x05 []) ++
    Der.element 0x04 digest)

/-- `RSASSA-PKCS1-V1_5-VERIFY`. -/
def verifyPkcs1v15 (k : PublicKey) (oid digest sig : List UInt8) : Bool :=
  sig.length = k.octets ∧ Der.value sig < k.n ∧
    emsaPkcs1v15 k.octets (digestInfo oid digest) = some (k.raised sig)

/-- `EMSA-PSS-VERIFY`, for a modulus of whole octets and a salt as long as the digest. -/
def emsaPssVerify (digest em : List UInt8) : Bool :=
  let maskedDb := em.take (em.length - h - 1)
  let hash := (em.drop (em.length - h - 1)).take h
  let db := (xored maskedDb (mgf1 H h hash maskedDb.length)).modifyHead (· &&& 0x7f)
  let salt := db.drop (db.length - h)
  2 * h + 2 ≤ em.length ∧ em.getLast? = some 0xbc ∧ (em.headD 0).toNat < 128 ∧
    db = List.replicate (db.length - h - 1) 0 ++ [0x01] ++ salt ∧
    hash = H (List.replicate 8 0 ++ digest ++ salt)

/-- `RSASSA-PSS-VERIFY`. -/
def verifyPss (k : PublicKey) (digest sig : List UInt8) : Bool :=
  sig.length = k.octets ∧ Der.value sig < k.n ∧ emsaPssVerify H h digest (k.raised sig)

/-- `RSAES-PKCS1-V1_5-ENCRYPT`. -/
def encryptPkcs1v15 (k : PublicKey) (m : List UInt8) : Option (List UInt8) :=
  if k.octets < m.length + 11 then none
  else some (k.raised ([0x00, 0x02] ++ List.replicate (k.octets - m.length - 3) 0x01 ++ [0x00] ++ m))

/-- `RSAES-OAEP-ENCRYPT`, with the empty label. -/
def encryptOaep (k : PublicKey) (m : List UInt8) : Option (List UInt8) :=
  if k.octets < m.length + 2 * h + 2 then none
  else
    let seed := List.replicate h 0x01
    let db := H [] ++ List.replicate (k.octets - m.length - 2 * h - 2) 0 ++ [0x01] ++ m
    let maskedDb := xored db (mgf1 H h seed db.length)
    some (k.raised ([0x00] ++ xored seed (mgf1 H h maskedDb h) ++ maskedDb))

/-- `SubjectPublicKeyInfo`. -/
def PublicKey.info (k : PublicKey) : Der.Octets :=
  Der.element 0x30
    (Der.element 0x30 (Der.element 0x06 [0x2a, 0x86, 0x48, 0x86, 0xf7, 0x0d, 0x01, 0x01, 0x01] ++
      Der.element 0x05 []) ++ Der.element 0x03 (0x00 :: k.der))

end Rsa

namespace Zucrypt
open Effects ByteMemory

/-- The object identifier of a digest. -/
def digestOid : PsaAlg → List Byte
  | .sha1 => [0x2b, 0x0e, 0x03, 0x02, 0x1a]
  | .sha256 => [0x60, 0x86, 0x48, 0x01, 0x65, 0x03, 0x04, 0x02, 0x01]
  | .sha384 => [0x60, 0x86, 0x48, 0x01, 0x65, 0x03, 0x04, 0x02, 0x02]
  | .sha512 => [0x60, 0x86, 0x48, 0x01, 0x65, 0x03, 0x04, 0x02, 0x03]
  | _ => []

/-- Base64, four characters for three octets. -/
def base64Digit (n : Nat) : Byte :=
  UInt8.ofNat (if n < 26 then 65 + n else if n < 52 then 71 + n else if n < 62 then n - 4
    else if n = 62 then 43 else 47)

def base64 : List Byte → List Byte
  | a :: b :: c :: rest =>
    let n := a.toNat * 65536 + b.toNat * 256 + c.toNat
    base64Digit (n / 262144) :: base64Digit (n / 4096 % 64) :: base64Digit (n / 64 % 64) ::
      base64Digit (n % 64) :: base64 rest
  | [a, b] =>
    let n := a.toNat * 65536 + b.toNat * 256
    [base64Digit (n / 262144), base64Digit (n / 4096 % 64), base64Digit (n / 64 % 64), 61]
  | [a] => [base64Digit (a.toNat / 4), base64Digit (a.toNat % 4 * 16), 61, 61]
  | [] => []

/-- Lines of 64 characters. -/
def base64Lines (bs : List Byte) : List Byte :=
  (bs.toChunks 48).flatMap fun line => base64 line ++ [10]

/-- What is between two lines of text, with the NUL that ends it. -/
def pemText (header footer : String) (der : List Byte) : List Byte :=
  let octets (s : String) : List Byte := s.toList.map fun c => UInt8.ofNat c.toNat
  octets header ++ base64Lines der ++ octets footer ++ [0]

/-- What RSA keys are good for. -/
def rsaOperations (P : Primitives) : KeyOperations where
  verify key alg digest signature :=
    match Rsa.PublicKey.read key.material with
    | none => .errorInvalidArgument
    | some k =>
      if k.n ≤ Der.value signature then .errorInvalidArgument
      else
        let good := match alg with
          | .rsaPkcs1v15Sign hash => Rsa.verifyPkcs1v15 k (digestOid hash) digest signature
          | .rsaPss hash => Rsa.verifyPss (P.hash hash) (psaHashLength hash) k digest signature
          | _ => false
        if good then .success else .errorInvalidSignature
  encrypt key alg input size :=
    match Rsa.PublicKey.read key.material with
    | none => (.errorInvalidArgument, ⟨[], 0⟩)
    | some k =>
      let made := match alg with
        | .rsaPkcs1v15Crypt => Rsa.encryptPkcs1v15 k input
        | .rsaOaep hash => Rsa.encryptOaep (P.hash hash) (psaHashLength hash) k input
        | _ => none
      match made with
      | none => (.errorInvalidArgument, ⟨[], 0⟩)
      | some c => exportTo c size
  agree _ _ _ _ := (.errorInvalidArgument, ⟨[], 0⟩)
  publicInfo key size :=
    match Rsa.PublicKey.read key.material with
    | none => .error .errorInvalidArgument
    | some k => if k.info.length ≤ size then .ok k.info else .error .errorBufferTooSmall
  pem header footer der size := exportTo (pemText header footer der) size
  publicInfo_le {key size der} h := by
    cases hread : Rsa.PublicKey.read key.material with
    | none =>
      rw [hread] at h
      cases h
    | some k =>
      rw [hread] at h
      simp only at h
      split at h
      · rename_i hsize
        cases h
        exact hsize
      · cases h

end Zucrypt
