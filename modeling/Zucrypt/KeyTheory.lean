import Zucrypt.CalmRuns
import Zucrypt.PkeyInvariant

/-! # What a backend knows about keys

`KeyTheory` is what a backend takes for a key: which bytes are the material of one, for which type,
and what the public half of a key is.  `KeyTheory.law` is what it then promises: it takes exactly
those keys, and exports them as they are, if the buffer is large enough.

A handle `Loads` a key if its material is the key's.  Every handle that a constructor hands out
does, and what the functions on handles do is told here in terms of the key.

`pkey_from_psa` is where a handle comes from, for each of the constructors: it asks for the
attributes, exports through a buffer whose size it computes from type and bits, and keeps what was
exported.  `meets_pkeyFromPsa` says what it hands out: the half of the key that was asked for, if it
fits that buffer, and `ZUC_ERR_BAD_LENGTH` if it does not. -/
namespace Zucrypt
open Effects ByteMemory

variable {O : Objects}

/-- A key: its type, its size, and its material in the format it is exported in. -/
structure RefKey where
  type : PsaKeyType
  bits : Nat
  material : List Byte
  deriving DecidableEq, Repr

/-- What a backend takes for keys. -/
structure KeyTheory (O : Objects) where
  /-- the key bytes are the material of, for a type -/
  read : PsaKeyType → List Byte → Option RefKey
  publicHalf : RefKey → RefKey
  /-- the key in a key file -/
  readFile : List Byte → Option RefKey
  /-- the key in a context of the key-file layer -/
  held : O.Pk → Option RefKey
  read_type : ∀ {type data key}, read type data = some key → key.type = type
  read_material : ∀ {type data key}, read type data = some key → read type key.material = some key
  publicHalf_type : ∀ key, (publicHalf key).type = key.type.publicKey
  publicHalf_bits : ∀ key, (publicHalf key).bits = key.bits
  publicHalf_read : ∀ {key}, read key.type key.material = some key →
    read (publicHalf key).type (publicHalf key).material = some (publicHalf key)
  publicHalf_public : ∀ {key}, key.type.isKeyPair = false → publicHalf key = key

/-- A key in the store, and what it may be used for. -/
structure StoredKey where
  key : RefKey
  alg : PsaAlg
  usage : List PsaKeyUsage
  deriving DecidableEq, Repr

/-- The material is exported whole, or refused for want of room. -/
def Exports (material : List Byte) (size : Nat) (r : PsaStatus × Output) : Prop :=
  if material.length ≤ size then
    r.1 = .success ∧ r.2.reported = material ∧ r.2.len = material.length
  else
    r.1 = .errorBufferTooSmall

namespace KeyTheory

variable (T : KeyTheory O)

/-- The backend takes the key for what it is. -/
def Genuine (key : RefKey) : Prop := T.read key.type key.material = some key

theorem Genuine.publicHalf {T : KeyTheory O} {key : RefKey} (h : T.Genuine key) :
    T.Genuine (T.publicHalf key) := T.publicHalf_read h

/-- The key file holds a key pair, or not. -/
def readKind (pair : Bool) (src : List Byte) : Option RefKey :=
  (T.readFile src).filter (fun key => key.type.isKeyPair = pair)

/-- The key that is in the file is in the context, or the file is refused. -/
def ReadsAs (found : Option RefKey) (r : PsaStatus × O.Pk) : Prop :=
  match found with
  | some key => r.1 = .success ∧ T.held r.2 = some key
  | none => r.1 ≠ .success

/-- The backend imports what it can read, a key of the size asked for; exports keys whole;
and reads key files as the theory says. -/
def law : StoreLaw O StoredKey where
  makes
    | ⟨.psa (.importKey attr data), _⟩, m =>
      T.read attr.type data = some m.key ∧ m.alg = attr.alg ∧ m.usage = attr.usage
    | ⟨.psa (.generateKey attr), _⟩, m =>
      T.Genuine m.key ∧ m.key.type = attr.type ∧ m.alg = attr.alg ∧ m.usage = attr.usage
    | ⟨.psa (.pkImportIntoPsa pk attr), _⟩, m =>
      T.Genuine m.key ∧ m.key.type = attr.type ∧ m.alg = attr.alg ∧ m.usage = attr.usage ∧
        ∀ key, T.held pk = some key → key.type = attr.type → m.key = key
    | _, _ => True
  allows
    | ⟨.psa (.getKeyAttributes _), r⟩, m =>
      r.answer.1 = .success ∧ r.answer.2.type = m.key.type ∧ r.answer.2.bits = m.key.bits
    | ⟨.psa (.exportKey _ size), r⟩, m =>
      .exportable ∈ m.usage → Exports m.key.material size r.answer
    | ⟨.psa (.exportPublicKey _ size), r⟩, m => Exports (T.publicHalf m.key).material size r.answer
    | _, _ => True
  elsewhere
    | ⟨.psa (.importKey attr data), _⟩ =>
      ∀ key, T.read attr.type data = some key → attr.bits ≠ 0 ∧ attr.bits ≠ key.bits
    | ⟨.psa (.pkImportIntoPsa pk attr), _⟩ =>
      ∀ key, T.held pk = some key → key.type = attr.type → ¬ T.Genuine key
    | ⟨.psa (.pkParseKey _ src), r⟩ => T.ReadsAs (T.readKind true src) r.answer
    | ⟨.psa (.pkParsePublicKey _ src), r⟩ => T.ReadsAs (T.readKind false src) r.answer
    | ⟨.psa (.pkGetPsaAttributes pk usage), r⟩ =>
      ∀ key, T.held pk = some key →
        (r.answer.1 = .success → r.answer.2.type = key.type) ∧
        (key.type.isRsa → usage = (if key.type.isKeyPair then .signHash else .verifyHash) →
          r.answer.1 = .success)
    | ⟨.psa (.pkWritePubkeyPsa pk size), r⟩ =>
      ∀ key, T.held pk = some key → Exports (T.publicHalf key).material size r.answer
    | _ => True

end KeyTheory

/-! ### Handles -/

/-- The handle is on this key. -/
structure Loads (T : KeyTheory O) (handle : ZucPkey) (key : RefKey) : Prop where
  genuine : T.Genuine key
  ptype : handle.ptype = key.type
  type : handle.type = algOfPsa key.type key.bits
  known : handle.type ≠ .none
  kind : handle.isPrivate = key.type.isKeyPair
  bits : handle.bits = key.bits
  material : handle.der.bytes = key.material
  length : handle.der.len = key.material.length

/-- The half of a key that is asked for: the pair, if there is one and it is asked for. -/
def KeyTheory.half (T : KeyTheory O) (key : RefKey) (wantPrivate : Bool) : RefKey :=
  if key.type.isKeyPair && wantPrivate then key else T.publicHalf key

/-- The size of the buffer `pkey_from_psa` exports a key into. -/
def exportSize (key : RefKey) : Nat :=
  if key.type.isKeyPair then psaExportKeyOutputSize key.type key.bits
  else psaExportPublicKeyOutputSize key.type key.bits

/-- The key is no longer than that buffer. -/
def RefKey.Fits (key : RefKey) : Prop := key.material.length ≤ exportSize key

instance (key : RefKey) : Decidable key.Fits := inferInstanceAs (Decidable (_ ≤ _))

/-- A handle on the key, or a refusal, and that exactly if the key is longer than the
buffer it is exported into. -/
def HandsKey (T : KeyTheory O) (key : RefKey) (r : ZucStatus × Option ZucPkey) : Prop :=
  if key.Fits then
    ∃ handle, r = (.ok, some handle) ∧ Loads T handle key
  else
    r = (.errBadLength, none)

/-- A handle on the half that is asked for, of a key of a type the adapter knows. -/
def HandsHalf (T : KeyTheory O) (key : RefKey) (wantPrivate : Bool)
    (r : ZucStatus × Option ZucPkey) : Prop :=
  if algOfPsa key.type key.bits = .none then
    r = (.errUnsupported, none)
  else
    HandsKey T (T.half key wantPrivate) r

/-- A handle is on a key, and on one that fits. -/
def HandsSound (T : KeyTheory O) (r : ZucStatus × Option ZucPkey) : Prop :=
  ∀ handle, r.2 = some handle → ∃ key, Loads T handle key ∧ key.Fits

theorem handsSound_none {T : KeyTheory O} {st : ZucStatus} : HandsSound T (st, none) := nofun

theorem HandsKey.sound {T : KeyTheory O} {key : RefKey} {r : ZucStatus × Option ZucPkey}
    (h : HandsKey T key r) : HandsSound T r := by
  unfold HandsKey at h
  split at h
  · rename_i hfits
    obtain ⟨handle, rfl, hloads⟩ := h
    rintro _ ⟨⟩
    exact ⟨key, hloads, hfits⟩
  · rw [h]
    exact handsSound_none

theorem HandsHalf.sound {T : KeyTheory O} {key : RefKey} {wantPrivate : Bool}
    {r : ZucStatus × Option ZucPkey} (h : HandsHalf T key wantPrivate r) : HandsSound T r := by
  unfold HandsHalf at h
  split at h
  · rw [h]
    exact handsSound_none
  · exact h.sound

/-- What changes is the number of live handles. -/
structure SameButCount (w w' : World) : Prop where
  mem : w'.mem = w.mem
  refcount : w'.refcount = w.refcount
  allocFailed : w'.allocFailed = w.allocFailed

theorem SameButCount.refl (w : World) : SameButCount w w := ⟨rfl, rfl, rfl⟩

theorem half_type (T : KeyTheory O) (key : RefKey) (wantPrivate : Bool) :
    (T.half key wantPrivate).type.isKeyPair = (key.type.isKeyPair && wantPrivate) := by
  unfold KeyTheory.half
  cases hpair : key.type.isKeyPair && wantPrivate with
  | true => exact (Bool.and_eq_true_iff.mp hpair).1
  | false => simp [T.publicHalf_type, isKeyPair_publicKey]

theorem half_algOfPsa (T : KeyTheory O) (key : RefKey) (wantPrivate : Bool) :
    algOfPsa (T.half key wantPrivate).type (T.half key wantPrivate).bits =
      algOfPsa key.type key.bits := by
  unfold KeyTheory.half
  split
  · rfl
  · rw [T.publicHalf_type, T.publicHalf_bits, algOfPsa_publicKey]

theorem KeyTheory.Genuine.half {T : KeyTheory O} {key : RefKey} (h : T.Genuine key)
    (wantPrivate : Bool) : T.Genuine (T.half key wantPrivate) := by
  unfold KeyTheory.half
  split
  · exact h
  · exact h.publicHalf

/-! ### Loading a key, and making a handle on one -/

variable {T : KeyTheory O} {L : StoreLaw O StoredKey} {w : World} {S : KeyStore StoredKey}

/-- A handle's key can be loaded again. -/
theorem meets_pkeyImport (hL : L.Implies T.law) {handle : ZucPkey} {key : RefKey}
    (h : Loads T handle key) (alg : PsaAlg) (usage : PsaKeyUsage) :
    Meets L w S (pkeyImport handle alg usage) fun r w' S' =>
      r.1 = .ok ∧ w' = w ∧ S' r.2 = some ⟨key, alg, [usage]⟩ := by
  have hread : T.read (pkeyAttributes handle alg usage).type handle.der.bytes = some key := by
    show T.read handle.ptype handle.der.bytes = some key
    rw [h.ptype, h.material]
    exact h.genuine
  refine Meets.bind (Meets.create (fun _ => rfl) (fun r m hr hm => ?_) fun r hr helse => ?_)
  · obtain ⟨hkey, halg, husage⟩ := hL.makes _ _ hm
    obtain rfl : m.key = key := Option.some.inj (hkey.symm.trans hread)
    refine Meets.pure ⟨by rw [hr]; rfl, rfl, ?_⟩
    rw [Function.update_self, ← show m.alg = alg from halg, ← show m.usage = [usage] from husage]
  · exact absurd rfl (hL.elsewhere _ helse key hread).1

/-- What a handle has of the key it was made of. -/
theorem loads_made {self p size : Nat} {key : RefKey} {wantPrivate : Bool} {o : Output}
    (hkey : T.Genuine key) (hknown : algOfPsa key.type key.bits ≠ .none)
    (hreported : o.reported = (T.half key wantPrivate).material)
    (hlen : o.len = (T.half key wantPrivate).material.length)
    (hsize : (T.half key wantPrivate).material.length ≤ size) :
    Loads T
      { self, type := algOfPsa key.type key.bits,
        ptype := if key.type.isKeyPair && wantPrivate then key.type else key.type.publicKey,
        isPrivate := key.type.isKeyPair && wantPrivate, bits := key.bits,
        der := ⟨(HeapBuf.fresh p size).store 0 (o.bytes.take size), o.len⟩ }
      (T.half key wantPrivate) := by
  have hbytes : o.len ≤ o.bytes.length := by
    have htake : o.reported.length = min o.len o.bytes.length := List.length_take
    rw [hreported, ← hlen] at htake
    omega
  -- the half that was exported: the key itself, or its public one
  constructor
  case genuine => exact hkey.half wantPrivate
  case ptype =>
    show (if _ then _ else _) = _
    unfold KeyTheory.half
    split
    · rfl
    · exact (T.publicHalf_type key).symm
  case type => exact (half_algOfPsa T key wantPrivate).symm
  case known => exact hknown
  case kind => exact (half_type T key wantPrivate).symm
  case bits =>
    show key.bits = _
    unfold KeyTheory.half
    split
    · rfl
    · exact (T.publicHalf_bits key).symm
  case material => exact (bytes_stored p hbytes (hlen ▸ hsize)).trans hreported
  case length => exact hlen

theorem psaExportPublicKeyOutputSize_publicKey (type : PsaKeyType) (bits : Nat) :
    psaExportPublicKeyOutputSize type.publicKey bits = psaExportPublicKeyOutputSize type bits := by
  cases type <;> rfl

theorem exportSize_publicHalf (T : KeyTheory O) (key : RefKey) :
    exportSize (T.publicHalf key) = psaExportPublicKeyOutputSize key.type key.bits := by
  have hpublic : ¬ (T.publicHalf key).type.isKeyPair = true := by
    rw [T.publicHalf_type, isKeyPair_publicKey]
    simp
  rw [exportSize, if_neg hpublic, T.publicHalf_type, T.publicHalf_bits,
    psaExportPublicKeyOutputSize_publicKey]

/-- A handle is made of the half of a key that is asked for. -/
theorem meets_pkeyFromPsa (hL : L.Implies T.law) {id : KeyId} {m : StoredKey} (hS : S id = some m)
    (hkey : T.Genuine m.key) (husage : .exportable ∈ m.usage) (wantPrivate : Bool) :
    Meets L w S (pkeyFromPsa id wantPrivate) fun r w' _ =>
      SameButCount w w' ∧ HandsHalf T m.key wantPrivate r := by
  obtain ⟨key, alg, usage⟩ := m
  refine Meets.bind (Meets.use hS (fun _ => rfl) fun attr hattr => ?_)
  obtain ⟨hsuccess, htype, hbits⟩ := hL.allows _ _ hattr
  refine Meets.neg (not_not.mpr hsuccess) ?_
  simp only [htype, hbits]
  unfold HandsHalf
  refine Meets.ite (fun hnone => Meets.pure ⟨SameButCount.refl w, ?_⟩) fun hknown => ?_
  · rw [if_pos hnone]
  simp only [if_neg hknown]
  refine Meets.bind (Meets.callocRecord fun self => Meets.bind (Meets.mallocBytes fun p => ?_))
  -- the buffer has room for what the backend exports, or the backend says that it has not
  have hrest : ∀ (c : PsaCall O (PsaStatus × Output)) (size : Nat),
      size = exportSize (T.half key wantPrivate) → (∀ r, role ⟨.psa c, r⟩ = .uses id) →
      (∀ r : Reply (PsaStatus × Output), L.allows ⟨.psa c, r⟩ ⟨key, alg, usage⟩ →
        Exports (T.half key wantPrivate).material size r.answer) →
      Meets L w S (do
        let r ← psa c
        if r.1 ≠ .success then
          freeBytes (((HeapBuf.fresh p size).store 0 (r.2.bytes.take size)).wipe size)
          freeRecord .zucPkey self
          return (zucIntFromPsa r.1, none)
        else
          zucIntLiveAdd 1
          return (.ok, some
            { self, type := algOfPsa key.type key.bits,
              ptype := if key.type.isKeyPair && wantPrivate then key.type else key.type.publicKey,
              isPrivate := key.type.isKeyPair && wantPrivate, bits := key.bits,
              der := ⟨(HeapBuf.fresh p size).store 0 (r.2.bytes.take size), r.2.len⟩ }) :
        Adapter O (ZucStatus × Option ZucPkey)) fun r w' _ =>
          SameButCount w w' ∧ HandsKey T (T.half key wantPrivate) r := by
    rintro c size hsize hrole hexports
    refine Meets.bind (Meets.use hS hrole fun r hr => ?_)
    have hr := hexports r hr
    unfold Exports at hr
    split at hr
    · rename_i hfits
      obtain ⟨hok, hreported, hlen⟩ := hr
      refine Meets.neg (not_not.mpr hok) (Meets.bind (Meets.liveAdd (Meets.pure ?_)))
      refine ⟨⟨rfl, rfl, rfl⟩, ?_⟩
      subst hsize
      rw [HandsKey, if_pos (show (T.half key wantPrivate).Fits from hfits)]
      exact ⟨_, rfl, loads_made hkey hknown hreported hlen hfits⟩
    · rename_i hfits
      refine Meets.pos (by rw [hr]; simp) ?_
      refine Meets.bind (Meets.freeBytes (Meets.bind (Meets.freeRecord (Meets.pure ?_))))
      refine ⟨SameButCount.refl w, ?_⟩
      subst hsize
      rw [HandsKey, if_neg (show ¬ (T.half key wantPrivate).Fits from hfits), hr]
      rfl
  cases hpair : key.type.isKeyPair && wantPrivate with
  | true =>
    have hhalf : T.half key wantPrivate = key := by rw [KeyTheory.half, if_pos hpair]
    have hkind := (Bool.and_eq_true_iff.mp hpair).1
    rw [hpair] at hrest
    refine hrest (.exportKey id _) _ ?_ (fun _ => rfl) fun r hr => ?_
    · rw [hhalf, exportSize, if_pos hkind, if_pos rfl]
    · rw [hhalf]
      exact hL.allows _ _ hr husage
  | false =>
    have hhalf : T.half key wantPrivate = T.publicHalf key := by
      rw [KeyTheory.half, if_neg (by simp [hpair])]
    rw [hpair] at hrest
    refine hrest (.exportPublicKey id _) _ ?_ (fun _ => rfl) fun r hr => ?_
    · rw [hhalf, exportSize_publicHalf, if_neg (by simp)]
    · rw [hhalf]
      exact hL.allows _ _ hr

/-- The key is destroyed when the handle is made. -/
theorem meets_fromPsa (hL : L.Implies T.law) {id : KeyId} {m : StoredKey} (hS : S id = some m)
    (hkey : T.Genuine m.key) (husage : .exportable ∈ m.usage) (wantPrivate : Bool)
    {f : ZucStatus × Option ZucPkey → Adapter O (ZucStatus × Option ZucPkey)}
    {Q : ZucStatus × Option ZucPkey → World → KeyStore StoredKey → Prop}
    (hf : ∀ r w' S', SameButCount w w' → HandsHalf T m.key wantPrivate r → Meets L w' S' (f r) Q) :
    Meets L w S (do
      let key ← pkeyFromPsa id wantPrivate
      psa (.destroyKey id)
      f key) Q :=
  (meets_pkeyFromPsa hL hS hkey husage wantPrivate).andThen fun r w' _ hr =>
    Meets.bind (Meets.destroy (hf r w' _ hr.1 hr.2))

end Zucrypt
