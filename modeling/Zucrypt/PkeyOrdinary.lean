import Zucrypt.Ordinary

/-! # What the key functions are made of

The functions of `zuc_pkey.c`, up to the wrappers that set the allocation watch, are ordinary
functions of the adapter, those that call one another included; so is every command of a caller but
those that start and stop the backend, and those that run under the watch are an ordinary function
between the two ends of it.

What follows from that is said once, in `Ordinary`: that the reference count is left alone, what the
result may depend on, and what the watch has recorded.  The functions that make and encode keys
store nothing in their caller's memory, and those that sign, verify, encrypt and decrypt free no
block of bytes, which is what statements about buffers and about wiping use of them. -/
namespace Zucrypt
open Effects ByteMemory

variable {O : Objects} {α : Type}

/-! ### Constructors -/

theorem silent_zucPkeyFree (key : Option ZucPkey) : Silent (zucPkeyFree key : Adapter O _) := by
  cases key with
  | none => exact .pure _
  | some k =>
    have hdestroy : Silent (pkeyDestroy k : Adapter O _) :=
      .bind (silent_freeBytes _) fun _ => silent_freeRecord _ _
    exact .bind hdestroy fun _ => .count _

theorem silent_pkeyFromPsa (id : KeyId) (wantPrivate : Bool) :
    Silent (pkeyFromPsa id wantPrivate : Adapter O _) := by
  refine .bind (.psa trivial) fun attr => ?_
  refine .ite (fun _ => .pure _) fun _ => .ite (fun _ => .pure _) fun _ => ?_
  refine .bind (silent_callocRecord _) fun self => .bind (silent_mallocBytes _) fun buf => ?_
  have hfail : Silent (do
      freeIf (freeRecord .zucPkey) self
      freeIf freeBytes buf
      return (.errMemory, none) : Adapter O (ZucStatus × Option ZucPkey)) := by
    refine .bind (silent_freeIf (silent_freeRecord _) self) fun _ => ?_
    exact .bind (silent_freeIf silent_freeBytes buf) fun _ => .pure _
  cases self with
  | none => exact hfail
  | some self =>
    cases buf with
    | none => exact hfail
    | some buf =>
      have hexport : ∀ (b : Bool) (cap : Nat),
          Silent (psa (if b then .exportKey id cap else .exportPublicKey id cap : PsaCall O _)) := by
        intro b cap
        cases b <;> exact .psa trivial
      refine .bind (hexport _ _) fun r => .ite (fun _ => ?_) fun _ => ?_
      · exact .bind (silent_freeBytes _) fun _ => .bind (silent_freeRecord _ _) fun _ => .pure _
      · exact .bind (.count _) fun _ => .pure _

/-- A handle made of a key that is destroyed afterwards. -/
theorem silent_fromPsa {f : ZucStatus × Option ZucPkey → Adapter O (ZucStatus × Option ZucPkey)}
    (id : KeyId) (wantPrivate : Bool) (hf : ∀ key, Silent (f key)) :
    Silent (do
      let key ← pkeyFromPsa id wantPrivate
      psa (.destroyKey id)
      f key : Adapter O (ZucStatus × Option ZucPkey)) :=
  .bind (silent_pkeyFromPsa _ _) fun key => .bind (.psa trivial) fun _ => hf key

theorem silent_pkeyImport (key : ZucPkey) (alg : PsaAlg) (usage : PsaKeyUsage) :
    Silent (pkeyImport key alg usage : Adapter O _) := .bind (.psa trivial) fun _ => .pure _

theorem discreet_pkeyImport (key : ZucPkey) (alg : PsaAlg) (usage : PsaKeyUsage) :
    Discreet (pkeyImport key alg usage : Adapter O _) := .bind (.psa trivial) fun _ => .pure _

theorem silent_pkeyImportBytes (type : ZucAlg) (privateKey : Bool) (data : List Byte) :
    Silent (pkeyImportBytes type privateKey data : Adapter O _) := by
  refine .ite (fun _ => .pure _) fun _ => .bind (.psa trivial) fun r => ?_
  exact .ite (fun _ => .pure _) fun _ => silent_fromPsa _ _ fun _ => .pure _

theorem silent_pkeyImportImpl (type : ZucAlg) (privateKey : Bool) (data len : Nat) (out : Bool) :
    Silent (pkeyImportImpl type privateKey data len out : Adapter O _) := by
  refine .ite (fun _ => .pure _) fun _ => .bind silent_zucIntReady fun ready => ?_
  refine .ite (fun _ => .pure _) fun _ => .ite (fun _ => .pure _) fun _ => ?_
  exact .bind (silent_readMem _ _) fun bytes => silent_pkeyImportBytes _ _ _

theorem silent_pkeyGenerateImpl (type : ZucAlg) (bits : Nat) (out : Bool) :
    Silent (pkeyGenerateImpl type bits out : Adapter O _) := by
  refine .ite (fun _ => .pure _) fun _ => .bind silent_zucIntReady fun ready => ?_
  refine .ite (fun _ => .pure _) fun _ => .ite (fun _ => .pure _) fun _ => ?_
  refine .ite (fun _ => .pure _) fun _ => .ite (fun _ => .pure _) fun _ => ?_
  refine .ite (fun _ => .pure _) fun _ => .bind (.psa trivial) fun r => ?_
  exact .ite (fun _ => .pure _) fun _ => silent_fromPsa _ _ fun _ => .pure _

theorem silent_pkeyPublicImpl (key : Option ZucPkey) (out : Bool) :
    Silent (pkeyPublicImpl key out : Adapter O _) := by
  refine .ite (fun _ => .pure _) fun _ => ?_
  cases key with
  | none => exact .pure _
  | some k =>
    refine .bind silent_zucIntReady fun ready => .ite (fun _ => .pure _) fun _ => ?_
    refine .bind (silent_pkeyImport _ _ _) fun r => .ite (fun _ => .pure _) fun _ => ?_
    exact silent_fromPsa _ _ fun _ => .pure _

theorem silent_parseEither (src : List Byte) (privateKey : Bool) :
    Silent (parseEither src privateKey : Adapter O _) := by
  refine .bind (.psa trivial) fun r => .ite (fun _ => .pure _) fun _ => ?_
  refine .ite (fun _ => .pure _) fun _ => .bind (.psa trivial) fun _ => ?_
  exact .bind (.psa trivial) fun r' => .ite (fun _ => .pure _) fun _ => .pure _

theorem silent_parseImport (pk : O.Pk) (attr : PsaKeyAttributes) (isPair privateKey : Bool) :
    Silent (parseImport pk attr isPair privateKey) := by
  refine .bind (.psa trivial) fun r => .bind (.psa trivial) fun _ => ?_
  refine .ite (fun _ => .pure _) fun _ => silent_fromPsa _ _ fun key => ?_
  obtain ⟨st, key⟩ := key
  cases key with
  | none => cases st <;> exact .pure _
  | some k =>
    cases st with
    | ok => exact .ite (fun _ => .bind (silent_zucPkeyFree _) fun _ => .pure _) fun _ => .pure _
    | _ => exact .pure _

theorem silent_parseDescribe (pk : O.Pk) (isPair privateKey : Bool) :
    Silent (parseDescribe pk isPair privateKey) := by
  have hattr : Silent (parseAttributes pk isPair) :=
    .bind (.psa trivial) fun r => .ite (fun _ => .psa trivial) fun _ => .pure _
  refine .bind hattr fun attr => .ite (fun _ => silent_parseImport _ _ _ _) fun _ => ?_
  have hx25519 : Silent (if isPair then return false else do
      let bits ← psa (.pkGetBitlen pk)
      return decide (bits = 255) : Adapter O Bool) :=
    .ite (fun _ => .pure _) fun _ => .bind (.psa trivial) fun _ => .pure _
  refine .bind hx25519 fun x25519 => .ite (fun _ => ?_) fun _ => .bind (.psa trivial) fun _ => .pure _
  refine .bind (.psa trivial) fun raw => .bind (.psa trivial) fun _ => ?_
  exact .ite (fun _ => .pure _) fun _ => silent_pkeyImportBytes _ _ _

theorem silent_parseSource (src : List Byte) (copy : Option HeapBytes) (privateKey : Bool) :
    Silent (parseSource src copy privateKey : Adapter O _) := by
  refine .bind (silent_parseEither _ _) fun r => ?_
  refine .bind (silent_freeIf (fun _ => silent_freeBytes _) copy) fun _ => ?_
  refine .ite (fun _ => ?_) fun _ => silent_parseDescribe _ _ _
  exact .bind (.psa trivial) fun _ => .pure _

theorem silent_pkeyParseImpl (inp len : Nat) (privateKey out : Bool) :
    Silent (pkeyParseImpl inp len privateKey out : Adapter O _) := by
  refine .ite (fun _ => .pure _) fun _ => .bind silent_zucIntReady fun ready => ?_
  refine .ite (fun _ => .pure _) fun _ => .ite (fun _ => .pure _) fun _ => ?_
  refine .bind (silent_readMem _ _) fun bytes => ?_
  refine .ite (fun _ => ?_) fun _ => silent_parseSource _ _ _
  refine .ite (fun _ => .pure _) fun _ => .bind (silent_mallocBytes _) fun copy => ?_
  cases copy with
  | none => exact .pure _
  | some copy => exact silent_parseSource _ _ _

/-! ### Writing -/

theorem silent_publicDer (key : ZucPkey) : Silent (publicDer key : Adapter O _) := by
  refine .ite (fun _ => .bind (silent_mallocBytes _) fun buf => ?_) fun _ => ?_
  · cases buf with
    | none => exact .pure _
    | some buf => exact .pure _
  · refine .bind (silent_pkeyPublicImpl _ _) fun r => .ite (fun _ => .pure _) fun _ => ?_
    cases r.2 with
    | none => exact .pure _
    | some pub => exact .bind (silent_freeRecord _ _) fun _ => .bind (.count _) fun _ => .pure _

theorem silent_pkcs8Wrap (pkcs1 : List Byte) : Silent (pkcs8Wrap pkcs1 : Adapter O _) := by
  refine .ite (fun _ => .pure _) fun _ => .bind (silent_mallocBytes _) fun p => ?_
  cases p with
  | none => exact .pure _
  | some p => exact .pure _

theorem silent_spkiDer (key : ZucPkey) : Silent (spkiDer key : Adapter O _) := by
  refine .bind (silent_pkeyImport _ _ _) fun k => .ite (fun _ => .pure _) fun _ => ?_
  refine .bind (.psa trivial) fun r => .bind (.psa trivial) fun _ => ?_
  refine .ite (fun _ => .bind (.psa trivial) fun _ => .pure _) fun _ => ?_
  refine .bind (silent_mallocBytes _) fun buf => ?_
  cases buf with
  | none => exact .bind (.psa trivial) fun _ => .pure _
  | some buf =>
    refine .bind (.psa trivial) fun der => .bind (.psa trivial) fun _ => ?_
    have hfree : ∀ st, Silent (do
        freeBytes buf
        return .error st : Adapter O (Except ZucStatus HeapBytes)) :=
      fun st => .bind (silent_freeBytes _) fun _ => .pure _
    cases der with
    | error ps => exact hfree _
    | ok der => exact .ite (fun _ => hfree _) fun _ => .pure _

theorem silent_encodeInto (total : Nat) (write : Cursor → Cursor) :
    Silent (encodeInto total write : Adapter O _) :=
  .bind (silent_mallocBytes _) fun _ => .pure _

theorem silent_x25519Encode (key : ZucPkey) (pkcs1 : Bool) :
    Silent (x25519Encode key pkcs1 : Adapter O _) := by
  refine .ite (fun _ => .pure _) fun _ => .bind (silent_encodeInto _ _) fun p => ?_
  cases p with
  | none => exact .pure _
  | some der => exact .pure _

theorem silent_nistEncode (key : ZucPkey) (pkcs1 : Bool) :
    Silent (nistEncode key pkcs1 : Adapter O _) := by
  refine .bind (silent_publicDer key) fun point => ?_
  cases point with
  | error st => exact .pure _
  | ok point =>
    have hencode : Silent (if pkcs1 then
        encodeInto (ecSec1Size key.type key.der.bytes.length point.bytes.length true)
          (ecSec1 · key.type key.der.bytes point.bytes true)
      else
        encodeInto (tlvSize (ecInfoBody key.type key.der.bytes.length point.bytes.length))
          (ecInfoWrite · key.type key.der.bytes point.bytes) : Adapter O (Option HeapBytes)) :=
      .ite (fun _ => silent_encodeInto _ _) fun _ => silent_encodeInto _ _
    refine .bind hencode fun p => .bind (silent_freeBytes _) fun _ => ?_
    cases p with
    | none => exact .pure _
    | some der => exact .pure _

theorem silent_labelled {p : Adapter O (Except ZucStatus HeapBytes)} (label : String)
    (hp : Silent p) :
    Silent (do
      let der ← p
      return der.map (⟨·, label⟩) : Adapter O (Except ZucStatus Encoding)) :=
  .bind hp fun _ => .pure _

theorem silent_ecEncode (key : ZucPkey) (format : ZucPkeyFormat) (privateOut : Bool) :
    Silent (ecEncode key format privateOut : Adapter O _) := by
  cases format with
  | other v => exact .pure _
  | _ =>
    refine .ite (fun _ => .ite (fun _ => .pure _) fun _ => ?_) fun _ => ?_
    · exact silent_labelled _ (silent_spkiDer key)
    · exact .ite (fun _ => silent_x25519Encode _ _) fun _ => silent_nistEncode _ _

theorem silent_rsaEncode (key : ZucPkey) (format : ZucPkeyFormat) (privateOut : Bool) :
    Silent (rsaEncode key format privateOut : Adapter O _) := by
  have hcopy : Silent (rsaEncode key .pkcs1Der true : Adapter O _) := by
    refine .bind (silent_mallocBytes _) fun der => ?_
    cases der with
    | none => exact .pure _
    | some der => exact .pure _
  have hpublic := silent_labelled (O := O) "PUBLIC KEY" (silent_spkiDer key)
  have hrsa := silent_labelled (O := O) "RSA PUBLIC KEY" (silent_publicDer key)
  have hwrap := silent_labelled (O := O) "PRIVATE KEY" (silent_pkcs8Wrap key.der.bytes)
  cases format with
  | other v => exact .pure _
  | pkcs1Der => cases privateOut with
    | true => exact hcopy
    | false => exact hrsa
  | pkcs1Pem => cases privateOut with
    | true => exact hcopy
    | false => exact hrsa
  | infoDer => cases privateOut with
    | true => exact hwrap
    | false => exact hpublic
  | infoPem => cases privateOut with
    | true => exact hwrap
    | false => exact hpublic

theorem discreet_writeEncoding (e : Encoding) (format : ZucPkeyFormat) (out outSize : Nat) :
    Discreet (writeEncoding e format out outSize : Adapter O _) := by
  refine .ite (fun _ => .ite (fun _ => .pure _) fun _ => ?_) fun _ => ?_
  · exact .bind (.write _ _) fun _ => .pure _
  · refine .bind (.psa trivial) fun r => .bind (discreet_writeOutput _ _ _) fun _ => ?_
    exact .ite (fun _ => .pure _) fun _ => .ite (fun _ => .pure _) fun _ => .pure _

/-- A status, after wiping the output where it is a failure. -/
theorem discreet_settled {c : Prop} [Decidable c] (out outSize : Nat) (a b : α) :
    Discreet (if c then do
        zucSecureZero out outSize
        return a
      else return b : Adapter O α) :=
  .ite (fun _ => .bind (discreet_zucSecureZero _ _) fun _ => .pure _) fun _ => .pure _

theorem ordinary_pkeyWriteImpl (key : Option ZucPkey) (format : ZucPkeyFormat) (publicOnly : Bool)
    (out outSize : Nat) (outLen : SizeCell) :
    Ordinary (pkeyWriteImpl key format publicOnly out outSize outLen : Adapter O _) := by
  cases key with
  | none => exact .pure _
  | some k =>
    refine .ite (fun _ => .pure _) fun _ => .bind silent_zucIntReady.ordinary fun ready => ?_
    refine .ite (fun _ => .pure _) fun _ => ?_
    refine .ite (fun _ => .bind (silent_ecEncode _ _ _).ordinary ?_)
      fun _ => .bind (silent_rsaEncode _ _ _).ordinary ?_
    all_goals
      intro e
      cases e with
      | error st => exact .pure _
      | ok e =>
        refine .bind (discreet_writeEncoding _ _ _ _).ordinary fun r => ?_
        exact .bind (silent_freeBytes _).ordinary fun _ => (discreet_settled _ _ _ _).ordinary

/-! ### Using -/

theorem discreet_pkeySignHashImpl (key : Option ZucPkey) (scheme hash : ZucAlg)
    (digest digestLen sig sigSize : Nat) (sigLen : SizeCell) :
    Discreet (pkeySignHashImpl key scheme hash digest digestLen sig sigSize sigLen : Adapter O _) := by
  cases key with
  | none => exact .pure _
  | some k =>
    refine .ite (fun _ => .pure _) fun _ => .bind discreet_zucIntReady fun ready => ?_
    refine .ite (fun _ => .pure _) fun _ => .ite (fun _ => .pure _) fun _ => ?_
    refine .ite (fun _ => .pure _) fun _ => .ite (fun _ => .pure _) fun _ => ?_
    refine .ite (fun _ => .pure _) fun _ => .bind (discreet_pkeyImport _ _ _) fun id => ?_
    refine .ite (fun _ => .pure _) fun _ => .bind (discreet_readMem _ _) fun bytes => ?_
    refine .bind (.psa trivial) fun r => .bind (discreet_writeOutput _ _ _) fun _ => ?_
    exact .bind (.psa trivial) fun _ => discreet_settled _ _ _ _

theorem discreet_pkeyVerifyHashImpl (key : Option ZucPkey) (scheme hash : ZucAlg)
    (digest digestLen sig sigLen : Nat) :
    Discreet (pkeyVerifyHashImpl key scheme hash digest digestLen sig sigLen : Adapter O _) := by
  cases key with
  | none => exact .pure _
  | some k =>
    refine .ite (fun _ => .pure _) fun _ => .bind discreet_zucIntReady fun ready => ?_
    refine .ite (fun _ => .pure _) fun _ => .ite (fun _ => .pure _) fun _ => ?_
    refine .bind (discreet_pkeyImport _ _ _) fun id => .ite (fun _ => .pure _) fun _ => ?_
    refine .bind (discreet_readMem _ _) fun bytes => .bind (discreet_readMem _ _) fun signature => ?_
    exact .bind (.psa trivial) fun ps => .bind (.psa trivial) fun _ => .pure _

theorem discreet_pkeyEncryptImpl (key : Option ZucPkey) (scheme hash : ZucAlg)
    (inp len out outSize : Nat) (outLen : SizeCell) :
    Discreet (pkeyEncryptImpl key scheme hash inp len out outSize outLen : Adapter O _) := by
  cases key with
  | none => exact .pure _
  | some k =>
    refine .ite (fun _ => .pure _) fun _ => .bind discreet_zucIntReady fun ready => ?_
    refine .ite (fun _ => .pure _) fun _ => .ite (fun _ => .pure _) fun _ => ?_
    refine .ite (fun _ => .pure _) fun _ => .bind (discreet_pkeyImport _ _ _) fun id => ?_
    refine .ite (fun _ => .pure _) fun _ => .bind (discreet_readMem _ _) fun bytes => ?_
    refine .bind (.psa trivial) fun r => .bind (discreet_writeOutput _ _ _) fun _ => ?_
    exact .bind (.psa trivial) fun _ => discreet_settled _ _ _ _

theorem discreet_pkeyDecryptImpl (key : Option ZucPkey) (scheme hash : ZucAlg)
    (inp len out outSize : Nat) (outLen : SizeCell) :
    Discreet (pkeyDecryptImpl key scheme hash inp len out outSize outLen : Adapter O _) := by
  cases key with
  | none => exact .pure _
  | some k =>
    refine .ite (fun _ => .pure _) fun _ => .bind discreet_zucIntReady fun ready => ?_
    refine .ite (fun _ => .pure _) fun _ => .ite (fun _ => .pure _) fun _ => ?_
    refine .ite (fun _ => .pure _) fun _ => .bind (discreet_pkeyImport _ _ _) fun id => ?_
    refine .ite (fun _ => .pure _) fun _ => .bind (discreet_readMem _ _) fun bytes => ?_
    refine .bind (.psa trivial) fun r => .bind (discreet_writeOutput _ _ _) fun _ => ?_
    exact .bind (.psa trivial) fun _ => discreet_settled _ _ _ _

theorem ordinary_pkeyExportImpl (key : Option ZucPkey) (publicOnly : Bool) (out outSize : Nat)
    (outLen : SizeCell) :
    Ordinary (pkeyExportImpl key publicOnly out outSize outLen : Adapter O _) := by
  refine .bind silent_zucIntReady.ordinary fun ready => .ite (fun _ => .pure _) fun _ => ?_
  cases key with
  | none => exact .pure _
  | some k =>
    refine .ite (fun _ => .pure _) fun _ => .ite (fun _ => ?_) fun _ => ?_
    · exact .ite (fun _ => .pure _) fun _ => .bind (.write _ _) fun _ => .pure _
    · refine .bind (silent_publicDer k).ordinary fun der => ?_
      cases der with
      | error st => exact .pure _
      | ok der =>
        refine .ite (fun _ => .bind (silent_freeBytes _).ordinary fun _ => .pure _) fun _ => ?_
        exact .bind (.write _ _) fun _ => .bind (silent_freeBytes _).ordinary fun _ => .pure _

theorem discreet_agreeRun (key : ZucPkey) (point : List Byte) (out outSize : Nat) :
    Discreet (agreeRun key point out outSize : Adapter O _) := by
  refine .bind (discreet_pkeyImport _ _ _) fun id => .ite (fun _ => .pure _) fun _ => ?_
  refine .bind (.psa trivial) fun r => .bind (discreet_writeOutput _ _ _) fun _ => ?_
  exact .bind (.psa trivial) fun _ => .pure _

theorem ordinary_pkeyAgreeImpl (key peer : Option ZucPkey) (out outSize : Nat) (outLen : SizeCell) :
    Ordinary (pkeyAgreeImpl key peer out outSize outLen : Adapter O _) := by
  refine .bind silent_zucIntReady.ordinary fun ready => .ite (fun _ => .pure _) fun _ => ?_
  cases key with
  | none => exact .pure _
  | some k =>
    cases peer with
    | none => exact .pure _
    | some p =>
      refine .ite (fun _ => .pure _) fun _ => .ite (fun _ => .pure _) fun _ => ?_
      refine .ite (fun _ => .pure _) fun _ => .ite (fun _ => .pure _) fun _ => ?_
      refine .bind (silent_publicDer p).ordinary fun point => ?_
      cases point with
      | error st => exact .pure _
      | ok point =>
        refine .bind (discreet_agreeRun _ _ _ _).ordinary fun r => .bind (silent_freeBytes _).ordinary fun _ => ?_
        exact .bind (silent_readMem _ _).ordinary fun secret => (discreet_settled _ _ _ _).ordinary

end Zucrypt
