import Zucrypt.Accounts
import Zucrypt.PkeyResults

/-! # What the key functions hold

The account of `zuc_pkey.c`.  A function that loads a key of a handle into the backend destroys it
on every path; one that allocates an encoding frees it, or hands it to its caller; and a constructor
leaves behind what belongs to the handle it hands out.

There is one lemma for each function, in the order of the source, and its proof follows the function
by the rules of `Accounts`.  A context of the key-file layer is a resource as well:
`pkey_parse_impl` and `spki_der` free it whether or not a key was read into it.  The public
functions at the end are those under the watch, which changes no account (`accounts_watched`). -/
namespace Zucrypt
open Effects ByteMemory Resources

variable {O : Objects} {α β : Type}

/-! ### Handles -/

theorem accounts_pkeyImport (key : ZucPkey) (alg : PsaAlg) (usage : PsaKeyUsage) :
    Accounts (pkeyImport key alg usage : Adapter O _) 0 heldKey (fun _ => 0) :=
  (accounts_importKey _ _).then fun r => Accounts.pure (createdKey_eq r) rfl

theorem zucPkeyFree_frees (key : Option ZucPkey) : Frees .pkey key (zucPkeyFree key : Adapter O _) := by
  cases key with
  | none => exact Accounts.pure rfl rfl
  | some k =>
    have hdestroy : Accounts (pkeyDestroy k : Adapter O _) (LiveHandle.pkey k : LiveHandle O).resources
        (fun _ => 0) (fun _ => 0) := by
      refine (accounts_freeBytes _).seq (Multiset.add_comm _ _) fun _ => ?_
      rw [Multiset.zero_add]
      exact accounts_freeRecord _ _
    exact hdestroy.then fun _ => accounts_liveAdd_last _ _

theorem accounts_freeIf {γ : Type} {release : γ → Adapter O Unit} {held : γ → Multiset Resource}
    (h : ∀ c, Accounts (release c) (held c) (fun _ => 0) (fun _ => 0)) (p : Option γ) :
    Accounts (freeIf release p) ((p.map held).getD 0) (fun _ => 0) (fun _ => 0) := by
  cases p with
  | none => exact Accounts.pure rfl rfl
  | some c => exact h c

theorem allocatedBlock_eq (p : Option Nat) :
    allocatedBlock p = (p.map (fun p => ({.block p} : Multiset Resource))).getD 0 := by
  cases p <;> rfl

theorem bufBlock_eq (b : Option HeapBuf) :
    bufBlock b = (b.map (fun b => ({.block b.ptr} : Multiset Resource))).getD 0 := by
  cases b <;> rfl

/-- What belongs to the handle a constructor hands out, and whether there is one. -/
def handleOf (O : Objects) (r : ZucStatus × Option ZucPkey) : Option (LiveHandle O) :=
  r.2.map .pkey

/-- `pkey_from_psa` works with a key, and hands out a handle or frees what it allocated for
one. -/
theorem accounts_pkeyFromPsa (id : KeyId) (wantPrivate : Bool) :
    Accounts (pkeyFromPsa id wantPrivate : Adapter O _) {.key id}
      (fun r => slotResources (handleOf O r) + {.key id}) (fun r => slotCount (handleOf O r)) := by
  have hnone : ∀ st, Accounts (pure (st, none) : Adapter O (ZucStatus × Option ZucPkey)) {.key id}
      (fun r => slotResources (handleOf O r) + {.key id}) (fun r => slotCount (handleOf O r)) :=
    fun st => Accounts.pure (Multiset.zero_add _).symm rfl
  have hattr : Accounts (psa (.getKeyAttributes id : PsaCall O _)) {.key id} (fun _ => {.key id})
      (fun _ => 0) := accounts_use id fun _ => ⟨rfl, rfl⟩
  refine hattr.then fun attr => ?_
  refine Accounts.ite (fun _ => hnone _) fun _ => ?_
  refine Accounts.ite (fun _ => hnone _) fun _ => ?_
  refine (accounts_callocRecord _).seq (Multiset.zero_add _).symm fun self => ?_
  refine (accounts_mallocBytes _).seq (Multiset.zero_add _).symm fun buf => ?_
  -- one of the two is not there, and the other is given back
  have hfail : Accounts (do
      freeIf (freeRecord .zucPkey) self
      freeIf freeBytes buf
      return (.errMemory, none) : Adapter O (ZucStatus × Option ZucPkey))
      (bufBlock buf + (allocatedBlock self + {.key id}))
      (fun r => slotResources (handleOf O r) + {.key id}) (fun r => slotCount (handleOf O r)) := by
    rw [allocatedBlock_eq, bufBlock_eq, ← Multiset.add_assoc, Multiset.add_comm (Option.getD _ _),
      Multiset.add_assoc]
    refine (accounts_freeIf (accounts_freeRecord .zucPkey) self).seq rfl fun _ => ?_
    rw [Multiset.zero_add]
    refine (accounts_freeIf accounts_freeBytes buf).seq rfl fun _ => ?_
    exact Accounts.pure rfl rfl
  cases self with
  | none => exact hfail
  | some self =>
    cases buf with
    | none => exact hfail
    | some buf =>
      have hexport : ∀ (b : Bool) (cap : Nat),
          Accounts (psa (if b then .exportKey id cap else .exportPublicKey id cap : PsaCall O _))
            {.key id} (fun _ => {.key id}) (fun _ => 0) := by
        intro b cap
        cases b <;> exact accounts_use id fun _ => ⟨rfl, rfl⟩
      show Accounts _ (({.block buf.ptr} : Multiset Resource) + ({.block self} + {.key id})) _ _
      rw [← Multiset.add_assoc]
      refine (hexport _ _).seq (Multiset.add_comm _ _) fun r => ?_
      refine Accounts.ite (fun _ => ?_) (fun _ => ?_)
      · rw [Multiset.add_comm, Multiset.add_assoc]
        refine (accounts_freeBytes _).seq rfl fun _ => ?_
        rw [Multiset.zero_add]
        refine (accounts_freeRecord _ _).seq rfl fun _ => ?_
        exact Accounts.pure rfl rfl
      · refine accounts_zucIntLiveAdd (Accounts.pure ?_ rfl)
        rw [Multiset.add_comm, Multiset.add_comm ({.block buf.ptr} : Multiset Resource)]
        rfl

/-- A handle made of a key that is destroyed afterwards. -/
theorem accounts_fromPsa {f : ZucStatus × Option ZucPkey → Adapter O (ZucStatus × Option ZucPkey)}
    (id : KeyId) (wantPrivate : Bool)
    (hf : ∀ key, Accounts (f key) (slotResources (handleOf O key))
      (fun r => slotResources (handleOf O r))
      (fun r => slotCount (handleOf O r) - slotCount (handleOf O key))) :
    Accounts (do
        let key ← pkeyFromPsa id wantPrivate
        psa (.destroyKey id)
        f key : Adapter O (ZucStatus × Option ZucPkey)) {.key id}
      (fun r => slotResources (handleOf O r)) (fun r => slotCount (handleOf O r)) := by
  refine (accounts_pkeyFromPsa id wantPrivate).bind fun key => ?_
  refine (accounts_destroyKey id).seq (Multiset.add_comm _ _) fun _ => ?_
  rw [Multiset.zero_add]
  exact hf key

/-- The handle is the result. -/
theorem accounts_fromPsa_pure (id : KeyId) (wantPrivate : Bool) :
    Accounts (do
        let key ← pkeyFromPsa id wantPrivate
        psa (.destroyKey id)
        return key : Adapter O (ZucStatus × Option ZucPkey)) {.key id}
      (fun r => slotResources (handleOf O r)) (fun r => slotCount (handleOf O r)) :=
  accounts_fromPsa id wantPrivate fun _ => Accounts.pure rfl (Int.sub_self _)

theorem createdKey_of_success {r : PsaStatus × KeyId} (h : ¬ r.1 ≠ .success) :
    createdKey r = {.key r.2} := if_pos (not_not.mp h)

theorem createdKey_of_failure {r : PsaStatus × KeyId} (h : r.1 ≠ .success) : createdKey r = 0 :=
  if_neg h

theorem pkeyImportBytes_constructs (type : ZucAlg) (privateKey : Bool) (data : List Byte) :
    Constructs .pkey (pkeyImportBytes type privateKey data : Adapter O _) := by
  refine Accounts.ite (fun _ => Constructs.none _) fun _ => ?_
  refine (accounts_importKey _ _).then fun r => ?_
  refine Accounts.ite (fun hr => Accounts.pure (createdKey_of_failure hr) rfl) fun hr => ?_
  rw [createdKey_of_success hr]
  exact accounts_fromPsa_pure r.2 privateKey

theorem pkeyImportImpl_constructs (type : ZucAlg) (privateKey : Bool) (data len : Nat) (out : Bool) :
    Constructs .pkey (pkeyImportImpl type privateKey data len out : Adapter O _) := by
  refine Accounts.ite (fun _ => Constructs.none _) fun _ => ?_
  refine neutral_zucIntReady.then fun ready => ?_
  refine Accounts.ite (fun _ => Constructs.none _) fun _ => ?_
  refine Accounts.ite (fun _ => Constructs.none _) fun _ => ?_
  exact (neutral_readMem _ _).then fun bytes => pkeyImportBytes_constructs _ _ _

theorem pkeyGenerateImpl_constructs (type : ZucAlg) (bits : Nat) (out : Bool) :
    Constructs .pkey (pkeyGenerateImpl type bits out : Adapter O _) := by
  refine Accounts.ite (fun _ => Constructs.none _) fun _ => ?_
  refine neutral_zucIntReady.then fun ready => ?_
  refine Accounts.ite (fun _ => Constructs.none _) fun _ => ?_
  refine Accounts.ite (fun _ => Constructs.none _) fun _ => ?_
  refine Accounts.ite (fun _ => Constructs.none _) fun _ => ?_
  refine Accounts.ite (fun _ => Constructs.none _) fun _ => ?_
  refine Accounts.ite (fun _ => Constructs.none _) fun _ => ?_
  have hgenerate : ∀ attr : PsaKeyAttributes,
      Accounts (psa (.generateKey attr : PsaCall O _)) 0 createdKey (fun _ => 0) :=
    fun attr => accounts_psa fun _ _ => ⟨rfl, rfl⟩
  refine (hgenerate _).then fun r => ?_
  refine Accounts.ite (fun hr => Accounts.pure (createdKey_of_failure hr) rfl) fun hr => ?_
  rw [createdKey_of_success hr]
  exact accounts_fromPsa_pure r.2 true

theorem pkeyPublicImpl_constructs (key : Option ZucPkey) (out : Bool) :
    Constructs .pkey (pkeyPublicImpl key out : Adapter O _) := by
  refine Accounts.ite (fun _ => Constructs.none _) fun _ => ?_
  cases key with
  | none => exact Constructs.none _
  | some k =>
    refine neutral_zucIntReady.then fun ready => ?_
    refine Accounts.ite (fun _ => Constructs.none _) fun _ => ?_
    refine (accounts_pkeyImport _ _ _).then fun r => ?_
    refine Accounts.ite (fun hr => Accounts.pure (heldKey_of_ne hr) rfl) fun hr => ?_
    rw [heldKey_of_ok hr]
    exact accounts_fromPsa_pure r.2 false

/-! ### Reading -/

theorem accounts_parseEither (src : List Byte) (privateKey : Bool) :
    Accounts (parseEither src privateKey : Adapter O _) 0 (fun _ => {.pkContext}) (fun _ => 0) := by
  have hparse : Accounts (psa (.pkParseKey O.pkInit src)) 0 (fun _ => {.pkContext}) (fun _ => 0) :=
    accounts_psa fun _ _ => ⟨rfl, rfl⟩
  refine hparse.then fun r => ?_
  refine Accounts.ite (fun _ => Accounts.pure rfl rfl) fun _ => ?_
  refine Accounts.ite (fun _ => Accounts.pure rfl rfl) fun _ => ?_
  refine (accounts_pkFree _).then fun _ => ?_
  have hpublic : Accounts (psa (.pkParsePublicKey O.pkInit src)) 0 (fun _ => {.pkContext})
      (fun _ => 0) := accounts_psa fun _ _ => ⟨rfl, rfl⟩
  refine hpublic.then fun r' => ?_
  exact Accounts.ite (fun _ => Accounts.pure rfl rfl) fun _ => Accounts.pure rfl rfl

theorem neutral_parseAttributes (pk : O.Pk) (isPair : Bool) : Neutral (parseAttributes pk isPair) := by
  have hcall : ∀ usage, Neutral (psa (.pkGetPsaAttributes pk usage)) :=
    fun usage => neutral_psa fun _ => ⟨rfl, rfl⟩
  refine (hcall _).then fun r => ?_
  exact Accounts.ite (fun _ => hcall _) fun _ => neutral_pure _

/-- The context is freed, and a handle of the wrong kind too. -/
theorem accounts_parseImport (pk : O.Pk) (attr : PsaKeyAttributes) (isPair privateKey : Bool) :
    Accounts (parseImport pk attr isPair privateKey) {.pkContext}
      (fun r => slotResources (handleOf O r)) (fun r => slotCount (handleOf O r)) := by
  have himport : ∀ attr, Accounts (psa (.pkImportIntoPsa pk attr)) 0 createdKey (fun _ => 0) :=
    fun attr => accounts_psa fun _ _ => ⟨rfl, rfl⟩
  refine (himport _).seq (Multiset.zero_add _).symm fun r => ?_
  refine (accounts_pkFree _).seq (Multiset.add_comm _ _) fun _ => ?_
  rw [Multiset.zero_add]
  refine Accounts.ite (fun hr => Accounts.pure (createdKey_of_failure hr) rfl) fun hr => ?_
  rw [createdKey_of_success hr]
  refine accounts_fromPsa r.2 _ fun key => ?_
  obtain ⟨st, key⟩ := key
  cases key with
  | none =>
    cases st <;> exact Accounts.pure rfl rfl
  | some k =>
    have hsame : ∀ st, Accounts (pure (st, some k) : Adapter O (ZucStatus × Option ZucPkey))
        (slotResources (handleOf O (st, some k))) (fun r => slotResources (handleOf O r))
        (fun r => slotCount (handleOf O r) - slotCount (handleOf O (st, some k))) :=
      fun st => Accounts.pure rfl (Int.sub_self _)
    cases st with
    | ok =>
      refine Accounts.ite (fun _ => ?_) fun _ => hsame .ok
      refine (zucPkeyFree_frees (some k)).bind fun _ => ?_
      exact Accounts.pure rfl rfl
    | _ => exact hsame _

theorem accounts_parseDescribe (pk : O.Pk) (isPair privateKey : Bool) :
    Accounts (parseDescribe pk isPair privateKey) {.pkContext}
      (fun r => slotResources (handleOf O r)) (fun r => slotCount (handleOf O r)) := by
  refine (neutral_parseAttributes _ _).then fun attr => ?_
  refine Accounts.ite (fun _ => accounts_parseImport _ _ _ _) fun _ => ?_
  have hx25519 : Neutral (if isPair then return false else do
      let bits ← psa (.pkGetBitlen pk)
      return decide (bits = 255) : Adapter O Bool) := by
    refine Accounts.ite (fun _ => neutral_pure _) fun _ => ?_
    have hbits : Neutral (psa (.pkGetBitlen pk)) := neutral_psa fun _ => ⟨rfl, rfl⟩
    exact hbits.then fun _ => neutral_pure _
  refine hx25519.then fun x25519 => ?_
  refine Accounts.ite (fun _ => ?_) fun _ => ?_
  · have hwrite : Neutral (psa (.pkWritePubkeyPsa pk 32)) := neutral_psa fun _ => ⟨rfl, rfl⟩
    refine hwrite.then fun raw => ?_
    refine (accounts_pkFree _).then fun _ => ?_
    exact Accounts.ite (fun _ => Accounts.pure rfl rfl) fun _ => pkeyImportBytes_constructs _ _ _
  · exact (accounts_pkFree _).then fun _ => Accounts.pure rfl rfl

/-- What belongs to the copy of a PEM text. -/
def copyResources (copy : Option HeapBytes) : Multiset Resource :=
  (copy.map (fun c => ({.block c.buf.ptr} : Multiset Resource))).getD 0

theorem accounts_parseSource (src : List Byte) (copy : Option HeapBytes) (privateKey : Bool) :
    Accounts (parseSource src copy privateKey : Adapter O _) (copyResources copy)
      (fun r => slotResources (handleOf O r)) (fun r => slotCount (handleOf O r)) := by
  refine (accounts_parseEither _ _).seq (Multiset.zero_add _).symm fun r => ?_
  have hfree : Accounts (freeIf (fun c => freeBytes (c.buf.wipe c.len)) copy : Adapter O Unit)
      (copyResources copy) (fun _ => 0) (fun _ => 0) :=
    accounts_freeIf (fun c => accounts_freeBytes (c.buf.wipe c.len)) copy
  refine hfree.seq (Multiset.add_comm _ _) fun _ => ?_
  rw [Multiset.zero_add]
  refine Accounts.ite (fun _ => ?_) fun _ => accounts_parseDescribe _ _ _
  exact (accounts_pkFree _).then fun _ => Accounts.pure rfl rfl

theorem pkeyParseImpl_constructs (inp len : Nat) (privateKey out : Bool) :
    Constructs .pkey (pkeyParseImpl inp len privateKey out : Adapter O _) := by
  refine Accounts.ite (fun _ => Constructs.none _) fun _ => ?_
  refine neutral_zucIntReady.then fun ready => ?_
  refine Accounts.ite (fun _ => Constructs.none _) fun _ => ?_
  refine Accounts.ite (fun _ => Constructs.none _) fun _ => ?_
  refine (neutral_readMem _ _).then fun bytes => ?_
  refine Accounts.ite (fun _ => ?_) fun _ => accounts_parseSource bytes none privateKey
  refine Accounts.ite (fun _ => Constructs.none _) fun _ => ?_
  refine (accounts_mallocBytes _).then fun copy => ?_
  cases copy with
  | none => exact Accounts.pure rfl rfl
  | some copy => exact accounts_parseSource _ (some _) privateKey

/-! ### Writing -/

/-- What belongs to an encoding, or public material, that a function hands to its
caller. -/
def bytesResources (r : Except ZucStatus HeapBytes) : Multiset Resource :=
  match r with
  | .error _ => 0
  | .ok b => {.block b.buf.ptr}

def encodingResources (r : Except ZucStatus Encoding) : Multiset Resource :=
  match r with
  | .error _ => 0
  | .ok e => {.block e.der.buf.ptr}

/-- Writing through a cursor stays in its block. -/
@[simp] theorem Cursor.put_ptr (c : Cursor) (bs : List Byte) : (c.put bs).buf.ptr = c.buf.ptr := rfl

@[simp] theorem tlvHead_ptr (c : Cursor) (tag : Byte) (n : Nat) :
    (tlvHead c tag n).buf.ptr = c.buf.ptr := rfl

@[simp] theorem tlv_ptr (c : Cursor) (tag : Byte) (v : List Byte) :
    (tlv c tag v).buf.ptr = c.buf.ptr := rfl

@[simp] theorem pkcs8Write_ptr (c : Cursor) (pkcs1 : List Byte) :
    (pkcs8Write c pkcs1).buf.ptr = c.buf.ptr := by
  simp only [pkcs8Write, Cursor.put_ptr]

@[simp] theorem ecSec1_ptr (c : Cursor) (type : ZucAlg) (d point : List Byte) (params : Bool) :
    (ecSec1 c type d point params).buf.ptr = c.buf.ptr := by
  unfold ecSec1
  cases params with
  | true => simp only [if_true, Cursor.put_ptr, tlvHead_ptr, tlv_ptr]
  | false => simp only [Bool.false_eq_true, if_false, Cursor.put_ptr, tlvHead_ptr, tlv_ptr]

@[simp] theorem x25519Write_ptr (c : Cursor) (k : List Byte) :
    (x25519Write c k).buf.ptr = c.buf.ptr := by
  unfold x25519Write
  rw [tlv_ptr, tlvHead_ptr, tlv_ptr, Cursor.put_ptr, tlvHead_ptr]

@[simp] theorem ecInfoWrite_ptr (c : Cursor) (type : ZucAlg) (d point : List Byte) :
    (ecInfoWrite c type d point).buf.ptr = c.buf.ptr := by
  simp only [ecInfoWrite, ecSec1_ptr, tlvHead_ptr, Cursor.put_ptr]

/-- The material of a temporary handle moves to the caller, and the rest of it is freed. -/
theorem accounts_publicDer (key : ZucPkey) :
    Accounts (publicDer key : Adapter O _) 0 bytesResources (fun _ => 0) := by
  refine Accounts.ite (fun _ => ?_) fun _ => ?_
  · refine (accounts_mallocBytes _).then fun buf => ?_
    cases buf with
    | none => exact Accounts.pure rfl rfl
    | some buf => exact Accounts.pure rfl rfl
  · refine Accounts.bindYields (pkeyPublicImpl_constructs (some key) true)
      (pkeyPublicImpl_handsOut (some key) true) fun r hr => ?_
    refine Accounts.ite (fun hst => ?_) fun hst => ?_
    · rw [hr.eq_none hst]
      exact Accounts.pure rfl rfl
    · obtain ⟨pub, hpub⟩ := hr.exists_eq (not_not.mp hst)
      rw [hpub]
      refine (accounts_freeRecord _ _).seq rfl fun _ => ?_
      rw [Multiset.zero_add]
      exact accounts_zucIntLiveAdd (Accounts.pure rfl rfl)

theorem accounts_pkcs8Wrap (pkcs1 : List Byte) :
    Accounts (pkcs8Wrap pkcs1 : Adapter O _) 0 bytesResources (fun _ => 0) := by
  refine Accounts.ite (fun _ => Accounts.pure rfl rfl) fun _ => ?_
  refine (accounts_mallocBytes _).then fun p => ?_
  cases p with
  | none => exact Accounts.pure rfl rfl
  | some p =>
    refine Accounts.pure ?_ rfl
    show bufBlock (some p) = ({.block (pkcs8Write ⟨p, 0⟩ pkcs1).buf.ptr} : Multiset Resource)
    rw [pkcs8Write_ptr]
    rfl

theorem accounts_spkiDer (key : ZucPkey) :
    Accounts (spkiDer key : Adapter O _) 0 bytesResources (fun _ => 0) := by
  refine (accounts_pkeyImport _ _ _).then fun k => ?_
  refine Accounts.ite (fun hk => Accounts.pure (heldKey_of_ne hk) rfl) fun hk => ?_
  rw [heldKey_of_ok hk]
  have hcopy : Accounts (psa (.pkCopyPublicFromPsa k.2 O.pkInit)) {.key k.2}
      (fun _ => {.key k.2} + {.pkContext}) (fun _ => 0) := accounts_psa fun _ _ => ⟨rfl, rfl⟩
  refine hcopy.then fun r => ?_
  refine (accounts_destroyKey _).seq rfl fun _ => ?_
  rw [Multiset.zero_add]
  refine Accounts.ite (fun _ => ?_) fun _ => ?_
  · exact (accounts_pkFree _).then fun _ => Accounts.pure rfl rfl
  · refine (accounts_mallocBytes _).seq (Multiset.zero_add _).symm fun buf => ?_
    cases buf with
    | none =>
      refine (accounts_pkFree r.2).seq (Multiset.add_comm _ _) fun _ => ?_
      exact Accounts.pure rfl rfl
    | some buf =>
      have hwrite : Neutral (psa (.pkWritePubkeyDer r.2 ZUC_PKEY_MAX_WRITE_SIZE)) :=
        neutral_psa fun _ => ⟨rfl, rfl⟩
      refine hwrite.then fun der => ?_
      refine (accounts_pkFree r.2).seq (Multiset.add_comm _ _) fun _ => ?_
      rw [Multiset.zero_add]
      have hfree : ∀ st, Accounts (do
          freeBytes buf
          return .error st : Adapter O (Except ZucStatus HeapBytes)) (bufBlock (some buf))
          bytesResources (fun _ => 0) :=
        fun st => (accounts_freeBytes buf).then fun _ => Accounts.pure rfl rfl
      cases der with
      | error ps => exact hfree _
      | ok der => exact Accounts.ite (fun _ => hfree _) fun _ => Accounts.pure rfl rfl

theorem accounts_encodeInto (total : Nat) {write : Cursor → Cursor}
    (hwrite : ∀ c, (write c).buf.ptr = c.buf.ptr) :
    Accounts (encodeInto total write : Adapter O _) 0 copyResources (fun _ => 0) := by
  refine (accounts_mallocBytes _).then fun p => ?_
  refine Accounts.pure ?_ rfl
  cases p with
  | none => rfl
  | some p =>
    show bufBlock (some p) = ({.block (write ⟨p, 0⟩).buf.ptr} : Multiset Resource)
    rw [hwrite]
    rfl

theorem accounts_x25519Encode (key : ZucPkey) (pkcs1 : Bool) :
    Accounts (x25519Encode key pkcs1 : Adapter O _) 0 encodingResources (fun _ => 0) := by
  refine Accounts.ite (fun _ => Accounts.pure rfl rfl) fun _ => ?_
  refine (accounts_encodeInto _ fun c => x25519Write_ptr c _).then fun p => ?_
  cases p with
  | none => exact Accounts.pure rfl rfl
  | some der => exact Accounts.pure rfl rfl

/-- The point is freed before the encoding is handed on. -/
theorem accounts_nistEncode (key : ZucPkey) (pkcs1 : Bool) :
    Accounts (nistEncode key pkcs1 : Adapter O _) 0 encodingResources (fun _ => 0) := by
  refine (accounts_publicDer key).then fun point => ?_
  cases point with
  | error st => exact Accounts.pure rfl rfl
  | ok point =>
    have hencode : Accounts (if pkcs1 then
        encodeInto (ecSec1Size key.type key.der.bytes.length point.bytes.length true)
          (ecSec1 · key.type key.der.bytes point.bytes true)
      else
        encodeInto (tlvSize (ecInfoBody key.type key.der.bytes.length point.bytes.length))
          (ecInfoWrite · key.type key.der.bytes point.bytes) : Adapter O (Option HeapBytes))
        0 copyResources (fun _ => 0) :=
      Accounts.ite (fun _ => accounts_encodeInto _ fun c => ecSec1_ptr c _ _ _ _)
        fun _ => accounts_encodeInto _ fun c => ecInfoWrite_ptr c _ _ _
    refine hencode.seq (Multiset.zero_add _).symm fun p => ?_
    refine (accounts_freeBytes _).seq (Multiset.add_comm _ _) fun _ => ?_
    cases p with
    | none => exact Accounts.pure rfl rfl
    | some der => exact Accounts.pure (Multiset.zero_add _) rfl

theorem accounts_labelled {p : Adapter O (Except ZucStatus HeapBytes)} (label : String)
    (hp : Accounts p 0 bytesResources (fun _ => 0)) :
    Accounts (do
      let der ← p
      return der.map (⟨·, label⟩) : Adapter O (Except ZucStatus Encoding)) 0 encodingResources
      (fun _ => 0) := by
  refine hp.then fun der => ?_
  cases der with
  | error st => exact Accounts.pure rfl rfl
  | ok der => exact Accounts.pure rfl rfl

theorem accounts_ecEncode (key : ZucPkey) (format : ZucPkeyFormat) (privateOut : Bool) :
    Accounts (ecEncode key format privateOut : Adapter O _) 0 encodingResources (fun _ => 0) := by
  cases format with
  | other v => exact Accounts.pure rfl rfl
  | _ =>
    refine Accounts.ite (fun _ => ?_) fun _ => ?_
    · refine Accounts.ite (fun _ => Accounts.pure rfl rfl) fun _ => ?_
      exact accounts_labelled _ (accounts_spkiDer key)
    · exact Accounts.ite (fun _ => accounts_x25519Encode _ _) fun _ => accounts_nistEncode _ _

theorem accounts_rsaEncode (key : ZucPkey) (format : ZucPkeyFormat) (privateOut : Bool) :
    Accounts (rsaEncode key format privateOut : Adapter O _) 0 encodingResources (fun _ => 0) := by
  have hcopy : Accounts (rsaEncode key .pkcs1Der true : Adapter O _) 0 encodingResources (fun _ => 0) := by
    refine (accounts_mallocBytes _).then fun der => ?_
    cases der with
    | none => exact Accounts.pure rfl rfl
    | some der => exact Accounts.pure rfl rfl
  have hpublic := accounts_labelled (O := O) "PUBLIC KEY" (accounts_spkiDer key)
  have hrsa := accounts_labelled (O := O) "RSA PUBLIC KEY" (accounts_publicDer key)
  have hwrap := accounts_labelled (O := O) "PRIVATE KEY" (accounts_pkcs8Wrap key.der.bytes)
  cases format with
  | other v => exact Accounts.pure rfl rfl
  | pkcs1Der => cases privateOut with
    | true => exact hcopy
    | false => exact hrsa
  | pkcs1Pem => cases privateOut with
    | true => exact hcopy
    | false => exact hrsa
  | infoDer => cases privateOut with
    | true => exact hwrap
    | false => exact hpublic
  | infoPem => cases privateOut with
    | true => exact hwrap
    | false => exact hpublic

theorem neutral_writeEncoding (e : Encoding) (format : ZucPkeyFormat) (out outSize : Nat) :
    Neutral (writeEncoding e format out outSize : Adapter O _) := by
  refine Accounts.ite (fun _ => ?_) fun _ => ?_
  · refine Accounts.ite (fun _ => neutral_pure _) fun _ => ?_
    exact (neutral_writeMem _ _).then fun _ => neutral_pure _
  · have hpem : Neutral (psa (.pemWriteBuffer ("-----BEGIN " ++ e.label ++ "-----\n")
        ("-----END " ++ e.label ++ "-----\n") e.der.bytes outSize) : Adapter O _) :=
      neutral_psa fun _ => ⟨rfl, rfl⟩
    refine hpem.then fun r => ?_
    refine (neutral_writeOutput _ _ _).then fun _ => ?_
    refine Accounts.ite (fun _ => neutral_pure _) fun _ => ?_
    exact Accounts.ite (fun _ => neutral_pure _) fun _ => neutral_pure _

theorem neutral_pkeyWriteImpl (key : Option ZucPkey) (format : ZucPkeyFormat) (publicOnly : Bool)
    (out outSize : Nat) (outLen : SizeCell) :
    Neutral (pkeyWriteImpl key format publicOnly out outSize outLen : Adapter O _) := by
  cases key with
  | none => exact neutral_pure _
  | some k =>
    refine Accounts.ite (fun _ => neutral_pure _) fun _ => ?_
    refine neutral_zucIntReady.then fun ready => ?_
    refine Accounts.ite (fun _ => neutral_pure _) fun _ => ?_
    have hencoded : ∀ e, Accounts (match e with
        | .error st => return (st, outLen.store 0)
        | .ok e => do
          let r ← writeEncoding e format out outSize
          freeBytes (e.der.buf.wipe e.der.len)
          if r.1 ≠ .ok then
            zucSecureZero out outSize
            return (r.1, outLen.store 0)
          else
            return (.ok, (outLen.store 0).store r.2) : Adapter O (ZucStatus × SizeCell))
        (encodingResources e) (fun _ => 0) (fun _ => 0) := by
      intro e
      cases e with
      | error st => exact Accounts.pure rfl rfl
      | ok e =>
        refine (neutral_writeEncoding _ _ _ _).then fun r => ?_
        have hfree : Accounts (freeBytes (e.der.buf.wipe e.der.len) : Adapter O _)
            (encodingResources (.ok e)) (fun _ => 0) (fun _ => 0) := accounts_freeBytes _
        refine hfree.then fun _ => ?_
        refine Accounts.ite (fun _ => ?_) fun _ => neutral_pure _
        exact (neutral_zucSecureZero _ _).then fun _ => neutral_pure _
    refine Accounts.ite (fun _ => ?_) fun _ => ?_
    · exact (accounts_ecEncode _ _ _).then hencoded
    · exact (accounts_rsaEncode _ _ _).then hencoded

/-! ### Using -/

/-- A key that was loaded is used once and destroyed. -/
theorem accounts_whenLoaded {γ : Type} {id : ZucStatus × KeyId} {failed : γ} {use : Adapter O γ}
    (huse : Accounts use {.key id.2} (fun _ => 0) (fun _ => 0)) :
    Accounts (if id.1 ≠ .ok then return failed else use : Adapter O γ) (heldKey id) (fun _ => 0)
      (fun _ => 0) := by
  refine Accounts.ite (fun hid => Accounts.pure (heldKey_of_ne hid) rfl) fun hid => ?_
  rw [heldKey_of_ok hid]
  exact huse

theorem neutral_pkeySignHashImpl (key : Option ZucPkey) (scheme hash : ZucAlg)
    (digest digestLen sig sigSize : Nat) (sigLen : SizeCell) :
    Neutral (pkeySignHashImpl key scheme hash digest digestLen sig sigSize sigLen : Adapter O _) := by
  cases key with
  | none => exact neutral_pure _
  | some k =>
    refine Accounts.ite (fun _ => neutral_pure _) fun _ => ?_
    refine neutral_zucIntReady.then fun ready => ?_
    refine Accounts.ite (fun _ => neutral_pure _) fun _ => ?_
    refine Accounts.ite (fun _ => neutral_pure _) fun _ => ?_
    refine Accounts.ite (fun _ => neutral_pure _) fun _ => ?_
    refine Accounts.ite (fun _ => neutral_pure _) fun _ => ?_
    refine Accounts.ite (fun _ => neutral_pure _) fun _ => ?_
    refine (accounts_pkeyImport _ _ _).then fun id => accounts_whenLoaded ?_
    refine (neutral_readMem _ _).then fun bytes => ?_
    have hsign : Accounts (psa (.signHash id.2 (signAlg scheme hash) bytes sigSize) : Adapter O _)
        {.key id.2} (fun _ => {.key id.2}) (fun _ => 0) := accounts_use id.2 fun _ => ⟨rfl, rfl⟩
    refine hsign.then fun r => ?_
    refine (neutral_writeOutput _ _ _).then fun _ => ?_
    refine (accounts_destroyKey _).then fun _ => ?_
    refine Accounts.ite (fun _ => ?_) fun _ => neutral_pure _
    exact (neutral_zucSecureZero _ _).then fun _ => neutral_pure _

theorem neutral_pkeyVerifyHashImpl (key : Option ZucPkey) (scheme hash : ZucAlg)
    (digest digestLen sig sigLen : Nat) :
    Neutral (pkeyVerifyHashImpl key scheme hash digest digestLen sig sigLen : Adapter O _) := by
  cases key with
  | none => exact neutral_pure _
  | some k =>
    refine Accounts.ite (fun _ => neutral_pure _) fun _ => ?_
    refine neutral_zucIntReady.then fun ready => ?_
    refine Accounts.ite (fun _ => neutral_pure _) fun _ => ?_
    refine Accounts.ite (fun _ => neutral_pure _) fun _ => ?_
    refine (accounts_pkeyImport _ _ _).then fun id => accounts_whenLoaded ?_
    refine (neutral_readMem _ _).then fun bytes => ?_
    refine (neutral_readMem _ _).then fun signature => ?_
    have hverify : Accounts (psa (.verifyHash id.2 (signAlg scheme hash) bytes signature) : Adapter O _)
        {.key id.2} (fun _ => {.key id.2}) (fun _ => 0) := accounts_use id.2 fun _ => ⟨rfl, rfl⟩
    refine hverify.then fun ps => ?_
    exact (accounts_destroyKey _).then fun _ => neutral_pure _

theorem neutral_pkeyEncryptImpl (key : Option ZucPkey) (scheme hash : ZucAlg)
    (inp len out outSize : Nat) (outLen : SizeCell) :
    Neutral (pkeyEncryptImpl key scheme hash inp len out outSize outLen : Adapter O _) := by
  cases key with
  | none => exact neutral_pure _
  | some k =>
    refine Accounts.ite (fun _ => neutral_pure _) fun _ => ?_
    refine neutral_zucIntReady.then fun ready => ?_
    refine Accounts.ite (fun _ => neutral_pure _) fun _ => ?_
    refine Accounts.ite (fun _ => neutral_pure _) fun _ => ?_
    refine Accounts.ite (fun _ => neutral_pure _) fun _ => ?_
    refine (accounts_pkeyImport _ _ _).then fun id => accounts_whenLoaded ?_
    refine (neutral_readMem _ _).then fun bytes => ?_
    have hencrypt : Accounts (psa (.asymmetricEncrypt id.2 (cryptAlg scheme hash) bytes outSize) : Adapter O _)
        {.key id.2} (fun _ => {.key id.2}) (fun _ => 0) := accounts_use id.2 fun _ => ⟨rfl, rfl⟩
    refine hencrypt.then fun r => ?_
    refine (neutral_writeOutput _ _ _).then fun _ => ?_
    refine (accounts_destroyKey _).then fun _ => ?_
    refine Accounts.ite (fun _ => ?_) fun _ => neutral_pure _
    exact (neutral_zucSecureZero _ _).then fun _ => neutral_pure _

theorem neutral_pkeyDecryptImpl (key : Option ZucPkey) (scheme hash : ZucAlg)
    (inp len out outSize : Nat) (outLen : SizeCell) :
    Neutral (pkeyDecryptImpl key scheme hash inp len out outSize outLen : Adapter O _) := by
  cases key with
  | none => exact neutral_pure _
  | some k =>
    refine Accounts.ite (fun _ => neutral_pure _) fun _ => ?_
    refine neutral_zucIntReady.then fun ready => ?_
    refine Accounts.ite (fun _ => neutral_pure _) fun _ => ?_
    refine Accounts.ite (fun _ => neutral_pure _) fun _ => ?_
    refine Accounts.ite (fun _ => neutral_pure _) fun _ => ?_
    refine (accounts_pkeyImport _ _ _).then fun id => accounts_whenLoaded ?_
    refine (neutral_readMem _ _).then fun bytes => ?_
    have hdecrypt : Accounts (psa (.asymmetricDecrypt id.2 (cryptAlg scheme hash) bytes outSize) : Adapter O _)
        {.key id.2} (fun _ => {.key id.2}) (fun _ => 0) := accounts_use id.2 fun _ => ⟨rfl, rfl⟩
    refine hdecrypt.then fun r => ?_
    refine (neutral_writeOutput _ _ _).then fun _ => ?_
    refine (accounts_destroyKey _).then fun _ => ?_
    refine Accounts.ite (fun _ => ?_) fun _ => neutral_pure _
    exact (neutral_zucSecureZero _ _).then fun _ => neutral_pure _

theorem neutral_pkeyExportImpl (key : Option ZucPkey) (publicOnly : Bool) (out outSize : Nat)
    (outLen : SizeCell) :
    Neutral (pkeyExportImpl key publicOnly out outSize outLen : Adapter O _) := by
  refine neutral_zucIntReady.then fun ready => ?_
  refine Accounts.ite (fun _ => neutral_pure _) fun _ => ?_
  cases key with
  | none => exact neutral_pure _
  | some k =>
    refine Accounts.ite (fun _ => neutral_pure _) fun _ => ?_
    refine Accounts.ite (fun _ => ?_) fun _ => ?_
    · refine Accounts.ite (fun _ => neutral_pure _) fun _ => ?_
      exact (neutral_writeMem _ _).then fun _ => neutral_pure _
    · refine (accounts_publicDer k).then fun der => ?_
      cases der with
      | error st => exact Accounts.pure rfl rfl
      | ok der =>
        have hfree : Accounts (freeBytes der.buf : Adapter O _) (bytesResources (.ok der))
            (fun _ => 0) (fun _ => 0) := accounts_freeBytes _
        refine Accounts.ite (fun _ => hfree.then fun _ => neutral_pure _) fun _ => ?_
        refine (neutral_writeMem _ _).then fun _ => ?_
        exact hfree.then fun _ => neutral_pure _

theorem neutral_agreeRun (key : ZucPkey) (point : List Byte) (out outSize : Nat) :
    Neutral (agreeRun key point out outSize : Adapter O _) := by
  refine (accounts_pkeyImport _ _ _).then fun id => accounts_whenLoaded ?_
  have hagree : Accounts (psa (.rawKeyAgreement .ecdh id.2 point outSize) : Adapter O _)
      {.key id.2} (fun _ => {.key id.2}) (fun _ => 0) := accounts_use id.2 fun _ => ⟨rfl, rfl⟩
  refine hagree.then fun r => ?_
  refine (neutral_writeOutput _ _ _).then fun _ => ?_
  exact (accounts_destroyKey _).then fun _ => neutral_pure _

theorem neutral_pkeyAgreeImpl (key peer : Option ZucPkey) (out outSize : Nat) (outLen : SizeCell) :
    Neutral (pkeyAgreeImpl key peer out outSize outLen : Adapter O _) := by
  refine neutral_zucIntReady.then fun ready => ?_
  refine Accounts.ite (fun _ => neutral_pure _) fun _ => ?_
  cases key with
  | none => exact neutral_pure _
  | some k =>
    cases peer with
    | none => exact neutral_pure _
    | some p =>
      refine Accounts.ite (fun _ => neutral_pure _) fun _ => ?_
      refine Accounts.ite (fun _ => neutral_pure _) fun _ => ?_
      refine Accounts.ite (fun _ => neutral_pure _) fun _ => ?_
      refine Accounts.ite (fun _ => neutral_pure _) fun _ => ?_
      refine (accounts_publicDer p).then fun point => ?_
      cases point with
      | error st => exact Accounts.pure rfl rfl
      | ok point =>
        have hfree : Accounts (freeBytes point.buf : Adapter O _) (bytesResources (.ok point))
            (fun _ => 0) (fun _ => 0) := accounts_freeBytes _
        refine (neutral_agreeRun _ _ _ _).then fun r => ?_
        refine hfree.then fun _ => ?_
        refine (neutral_readMem _ _).then fun secret => ?_
        refine Accounts.ite (fun _ => ?_) fun _ => neutral_pure _
        exact (neutral_zucSecureZero _ _).then fun _ => neutral_pure _

/-! ### The public entry points -/

/-- The watch changes the status, and nothing that is held. -/
theorem accounts_watched {α : Type} {impl : Adapter O (ZucStatus × α)} (held : α → Multiset Resource)
    (delta : α → Int) (h : Accounts impl 0 (fun r => held r.2) (fun r => delta r.2)) :
    Accounts (watched impl) 0 (fun r => held r.2) (fun r => delta r.2) := by
  refine neutral_zucIntAllocWatch.then fun _ => ?_
  refine h.bind fun r => ?_
  refine (neutral_zucIntMemoryOr r.1).then fun st => ?_
  exact Accounts.pure rfl (Int.sub_self _)

theorem neutral_zucPkeyVerifyHash (key : Option ZucPkey) (scheme hash : ZucAlg)
    (digest digestLen sig sigLen : Nat) :
    Neutral (zucPkeyVerifyHash key scheme hash digest digestLen sig sigLen : Adapter O _) := by
  refine neutral_zucIntAllocWatch.then fun _ => ?_
  refine (neutral_pkeyVerifyHashImpl _ _ _ _ _ _ _).then fun st => ?_
  exact neutral_zucIntMemoryOr st

end Zucrypt
