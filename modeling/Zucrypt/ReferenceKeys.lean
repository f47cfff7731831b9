import Zucrypt.CalmVectors
import Zucrypt.MadeKeys
import Zucrypt.ReferenceBackend

/-! # A backend that keeps keys

`keyBackend` answers as a theory of keys and the operations on them say, and refuses what neither
speaks of; no allocation fails in it.  So there is a run of every function, from any keys
(`exists_ran`), and the laws the proofs assume of a backend are kept by one.

`keyLaw` is all of these laws in one, of the keys and of R's vectors, with the theory and the
operations as parameters; the modules on keys each take the case they need.  Keys are numbered in
the order they are made, and no number is given twice. -/
namespace Zucrypt
open Effects ByteMemory

/-- A context of the key-file layer is a key, or nothing yet. -/
def keyObjects : Objects := { referenceObjects with Pk := Option RefKey, pkInit := none }

/-- The keys, and the next number of one. -/
structure KeyState where
  store : KeyStore StoredKey
  next : KeyId
  fresh : ∀ id, next ≤ id → store id = none

namespace KeyState

def initial : KeyState := ⟨fun _ => none, 1, fun _ _ => rfl⟩

/-- A new key. -/
def insert (s : KeyState) (m : StoredKey) : KeyState where
  store := Function.update s.store s.next (some m)
  next := s.next + 1
  fresh id hid := by
    have hid : s.next < id := hid
    rw [Function.update_of_ne (Nat.ne_of_gt hid)]
    exact s.fresh id (Nat.le_of_lt hid)

/-- The key is gone. -/
def remove (s : KeyState) (id : KeyId) : KeyState where
  store := Function.update s.store id none
  next := s.next
  fresh id' hid' := by
    by_cases h : id' = id
    · rw [h, Function.update_self]
    · rw [Function.update_of_ne h]
      exact s.fresh id' hid'

/-- What is answered with a key that there is. -/
def given {α : Type} (s : KeyState) (id : KeyId) (refused : α) (f : StoredKey → α) : α :=
  match s.store id with
  | some m => f m
  | none => refused

theorem given_some {α : Type} {s : KeyState} {id : KeyId} {m : StoredKey} (h : s.store id = some m)
    (refused : α) (f : StoredKey → α) : s.given id refused f = f m := by
  rw [given, h]

end KeyState

/-- Operations that there are none of. -/
def KeyOperations.refused : KeyOperations where
  verify _ _ _ _ := .errorNotSupported
  encrypt _ _ _ _ := (.errorNotSupported, ⟨[], 0⟩)
  agree _ _ _ _ := (.errorNotSupported, ⟨[], 0⟩)
  publicInfo _ _ := .error .errorNotSupported
  pem _ _ _ _ := (.errorNotSupported, ⟨[], 0⟩)
  publicInfo_le := nofun

/-- The material, if there is room for it. -/
def exportTo (material : List Byte) (size : Nat) : PsaStatus × Output :=
  if material.length ≤ size then (.success, .full material) else (.errorBufferTooSmall, ⟨[], 0⟩)

theorem exports_exportTo (material : List Byte) (size : Nat) :
    Exports material size (exportTo material size) := by
  unfold Exports exportTo
  split
  · exact ⟨rfl, List.take_length, rfl⟩
  · rfl

section
variable (T : KeyTheory keyObjects) (F : KeyOperations)

/-- The key in the bytes is a new one. -/
def keyImport (attr : PsaKeyAttributes) (data : List Byte) (s : KeyState) :
    (PsaStatus × KeyId) × KeyState :=
  match T.read attr.type data with
  | some key =>
    if attr.bits = 0 ∨ attr.bits = key.bits then
      ((.success, s.next), s.insert ⟨key, attr.alg, attr.usage⟩)
    else
      ((.errorInvalidArgument, 0), s)
  | none => ((.errorInvalidArgument, 0), s)

/-- So is the key of a context. -/
def keyImportPk (pk : Option RefKey) (attr : PsaKeyAttributes) (s : KeyState) :
    (PsaStatus × KeyId) × KeyState :=
  match pk with
  | some key =>
    if key.type = attr.type ∧ T.read key.type key.material = some key then
      ((.success, s.next), s.insert ⟨key, attr.alg, attr.usage⟩)
    else
      ((.errorInvalidArgument, 0), s)
  | none => ((.errorInvalidArgument, 0), s)

/-- The key a file is found to hold. -/
def keyContext (found : Option RefKey) : PsaStatus × Option RefKey :=
  if found = none then (.errorInvalidArgument, none) else (.success, found)

/-- The backend's functions. -/
def keyPsa : {α : Type} → PsaCall keyObjects α → KeyState → α × KeyState
  | _, .importKey attr data, s => keyImport T attr data s
  | _, .destroyKey id, s => ((), s.remove id)
  | _, .getKeyAttributes id, s =>
    (s.given id (.errorInvalidArgument, {}) fun m =>
      (.success, { type := m.key.type, bits := m.key.bits, alg := m.alg, usage := m.usage }), s)
  | _, .exportKey id size, s =>
    (s.given id (.errorInvalidArgument, ⟨[], 0⟩) fun m => exportTo m.key.material size, s)
  | _, .exportPublicKey id size, s =>
    (s.given id (.errorInvalidArgument, ⟨[], 0⟩) fun m =>
      exportTo (T.publicHalf m.key).material size, s)
  | _, .verifyHash id alg hash signature, s =>
    (s.given id .errorInvalidArgument fun m => F.verify (T.publicHalf m.key) alg hash signature, s)
  | _, .asymmetricEncrypt id alg input size, s =>
    (s.given id (.errorInvalidArgument, ⟨[], 0⟩) fun m =>
      F.encrypt (T.publicHalf m.key) alg input size, s)
  | _, .rawKeyAgreement alg id peer size, s =>
    (s.given id (.errorInvalidArgument, ⟨[], 0⟩) fun m => F.agree m.key alg peer size, s)
  | _, .pkParseKey _ src, s => (keyContext (T.readKind true src), s)
  | _, .pkParsePublicKey _ src, s => (keyContext (T.readKind false src), s)
  | _, .pkGetPsaAttributes pk usage, s =>
    ((keyContext pk).map id fun pk : Option RefKey =>
      { type := (pk.map RefKey.type).getD .none, bits := (pk.map RefKey.bits).getD 0, usage := [usage] }, s)
  | _, .pkGetBitlen pk, s => ((Option.map RefKey.bits pk).getD 0, s)
  | _, .pkWritePubkeyPsa pk size, s =>
    (exportTo ((Option.map (fun key => (T.publicHalf key).material) pk).getD []) size, s)
  | _, .pkImportIntoPsa pk attr, s => keyImportPk T pk attr s
  | _, .pkCopyPublicFromPsa id _, s =>
    (s.given id (.errorInvalidArgument, none) fun m => (.success, some (T.publicHalf m.key)), s)
  | _, .pkWritePubkeyDer pk size, s =>
    ((Option.map (F.publicInfo · size) pk).getD (.error .errorInvalidArgument), s)
  | _, .pemWriteBuffer header footer der size, s => (F.pem header footer der size, s)
  | _, c, s => (refusal c, s)

/-- Where the backend of these proofs has R put its vectors. -/
def vectorBase : Nat := 2 ^ 53

/-- The backend. -/
def keyBackend : Handler (Call keyObjects) KeyState
  | _, .psa c, s => (⟨(keyPsa T F c s).1, false⟩, (keyPsa T F c s).2)
  | _, .calloc _, s => (some 0x10000, s)
  | _, .malloc _, s => (some 0x20000, s)
  | _, .freeRecord .., s => ((), s)
  | _, .freeBytes _, s => ((), s)
  | _, .dropLocal _, s => ((), s)
  | _, .allocRaw _, s => (vectorBase, s)

variable {T F}

/-- Everything the proofs assume of a backend that keeps keys, and of R. -/
def keyLaw (T : KeyTheory keyObjects) (F : KeyOperations) (live : List (Nat × Nat)) :
    StoreLaw keyObjects StoredKey := (T.law.and (F.law T)).and (vectorLaw live)

variable {live : List (Nat × Nat)} {s : KeyState} {α : Type}

theorem keyStep_elsewhere {e : Event (Call keyObjects)} (he : role e = .nothing)
    (hT : T.law.elsewhere e) (hF : (F.law T).elsewhere e)
    (hV : (vectorLaw live : StoreLaw keyObjects StoredKey).elsewhere e) :
    (keyLaw T F live).Step s.store e s.store :=
  (Meets.step_nothing he).mpr ⟨⟨⟨hT, hF⟩, hV⟩, rfl⟩

theorem keyStep_uses {e : Event (Call keyObjects)} {id : KeyId} (he : role e = .uses id)
    (hT : ∀ m, s.store id = some m → T.law.allows e m)
    (hF : ∀ m, s.store id = some m → (F.law T).allows e m) :
    (keyLaw T F live).Step s.store e s.store :=
  (StoreLaw.step_uses he).mpr ⟨fun m hm => ⟨⟨hT m hm, hF m hm⟩, trivial⟩, rfl⟩

theorem keyStep_creates {e : Event (Call keyObjects)} (he : role e = .creates s.next) {m : StoredKey}
    (hT : T.law.makes e m) : (keyLaw T F live).Step s.store e (s.insert m).store :=
  (StoreLaw.step_creates he).mpr
    ⟨s.fresh _ (Nat.le_refl _), m, ⟨⟨hT, trivial⟩, trivial⟩, rfl⟩

theorem keyImport_step (attr : PsaKeyAttributes) (data : List Byte) :
    (keyLaw T F live).Step s.store ⟨.psa (.importKey attr data), ⟨(keyImport T attr data s).1, false⟩⟩
      (keyImport T attr data s).2.store := by
  unfold keyImport
  cases hread : T.read attr.type data with
  | none =>
    refine keyStep_elsewhere rfl (fun key hkey => ?_) trivial trivial
    exact absurd (hread.symm.trans hkey) (by simp)
  | some key =>
    by_cases hbits : attr.bits = 0 ∨ attr.bits = key.bits
    · simp only [if_pos hbits]
      exact keyStep_creates rfl ⟨hread, rfl, rfl⟩
    · simp only [if_neg hbits]
      refine keyStep_elsewhere rfl (fun key' hkey' => ?_) trivial trivial
      obtain rfl := Option.some.inj (hread.symm.trans hkey')
      exact not_or.mp hbits

theorem keyImportPk_step (hheld : ∀ pk, T.held pk = pk) (pk : Option RefKey) (attr : PsaKeyAttributes) :
    (keyLaw T F live).Step s.store ⟨.psa (.pkImportIntoPsa pk attr), ⟨(keyImportPk T pk attr s).1, false⟩⟩
      (keyImportPk T pk attr s).2.store := by
  cases pk with
  | none =>
    refine keyStep_elsewhere rfl (fun key hkey => ?_) trivial trivial
    exact absurd ((hheld none).symm.trans hkey) (by simp)
  | some key =>
    unfold keyImportPk
    by_cases hkey : key.type = attr.type ∧ T.read key.type key.material = some key
    · simp only [if_pos hkey]
      refine keyStep_creates rfl ⟨hkey.2, hkey.1, rfl, rfl, fun key' hkey' _ => ?_⟩
      exact Option.some.inj ((hheld (some key)).symm.trans hkey')
    · simp only [if_neg hkey]
      refine keyStep_elsewhere rfl (fun key' hkey' htype hread => ?_) trivial trivial
      obtain rfl := Option.some.inj ((hheld (some key)).symm.trans hkey')
      exact hkey ⟨htype, hread⟩

theorem readsAs_keyContext (hheld : ∀ pk, T.held pk = pk) (found : Option RefKey) :
    T.ReadsAs found (keyContext found) := by
  cases found with
  | none => exact nofun
  | some key => exact ⟨rfl, hheld _⟩

/-- What a call to the backend is answered keeps the law. -/
theorem keyPsa_step (hheld : ∀ pk, T.held pk = pk) (c : PsaCall keyObjects α) :
    (keyLaw T F live).Step s.store ⟨.psa c, ⟨(keyPsa T F c s).1, false⟩⟩ (keyPsa T F c s).2.store := by
  have hsome : ∀ {pk : keyObjects.Pk} {key : RefKey}, T.held pk = some key → pk = some key :=
    fun h => (hheld _).symm.trans h
  cases c with
  -- the calls that make or destroy a key change the store; the others only look at it
  | importKey attr data => exact keyImport_step attr data
  | pkImportIntoPsa pk attr => exact keyImportPk_step hheld pk attr
  | destroyKey id => rfl
  | getKeyAttributes id =>
    refine keyStep_uses rfl (fun m hm => ?_) fun _ _ => trivial
    simp only [keyPsa, KeyState.given_some hm]
    exact ⟨rfl, rfl, rfl⟩
  | exportKey id size =>
    refine keyStep_uses rfl (fun m hm _ => ?_) fun _ _ => trivial
    simp only [keyPsa, KeyState.given_some hm]
    exact exports_exportTo _ _
  | exportPublicKey id size =>
    refine keyStep_uses rfl (fun m hm => ?_) fun _ _ => trivial
    simp only [keyPsa, KeyState.given_some hm]
    exact exports_exportTo _ _
  | verifyHash id alg hash signature =>
    exact keyStep_uses rfl (fun _ _ => trivial) fun m hm _ => KeyState.given_some hm _ _
  | asymmetricEncrypt id alg input size =>
    exact keyStep_uses rfl (fun _ _ => trivial) fun m hm _ => KeyState.given_some hm _ _
  | rawKeyAgreement alg id peer size =>
    exact keyStep_uses rfl (fun _ _ => trivial) fun m hm _ => KeyState.given_some hm _ _
  | pkCopyPublicFromPsa id pk =>
    refine keyStep_uses rfl (fun _ _ => trivial) fun m hm _ => ?_
    simp only [keyPsa, KeyState.given_some hm]
    exact ⟨trivial, hheld _⟩
  | pkParseKey pk src => exact keyStep_elsewhere rfl (readsAs_keyContext hheld _) trivial trivial
  | pkParsePublicKey pk src => exact keyStep_elsewhere rfl (readsAs_keyContext hheld _) trivial trivial
  | pkGetPsaAttributes pk usage =>
    refine keyStep_elsewhere rfl (fun key hkey => ?_) trivial trivial
    obtain rfl := hsome hkey
    exact ⟨fun _ => rfl, fun _ _ => rfl⟩
  | pkWritePubkeyPsa pk size =>
    refine keyStep_elsewhere rfl (fun key hkey => ?_) trivial trivial
    obtain rfl := hsome hkey
    exact exports_exportTo _ _
  | pkWritePubkeyDer pk size =>
    refine keyStep_elsewhere rfl trivial (fun key hkey => ?_) trivial
    obtain rfl := hsome hkey
    rfl
  | pemWriteBuffer header footer der size => exact keyStep_elsewhere rfl trivial rfl trivial
  | macSignSetup => exact keyStep_uses rfl (fun _ _ => trivial) fun _ _ => trivial
  | macCompute => exact keyStep_uses rfl (fun _ _ => trivial) fun _ _ => trivial
  | cipherEncryptSetup => exact keyStep_uses rfl (fun _ _ => trivial) fun _ _ => trivial
  | cipherDecryptSetup => exact keyStep_uses rfl (fun _ _ => trivial) fun _ _ => trivial
  | aeadEncryptSetup => exact keyStep_uses rfl (fun _ _ => trivial) fun _ _ => trivial
  | aeadDecryptSetup => exact keyStep_uses rfl (fun _ _ => trivial) fun _ _ => trivial
  | signHash => exact keyStep_uses rfl (fun _ _ => trivial) fun _ _ => trivial
  | asymmetricDecrypt => exact keyStep_uses rfl (fun _ _ => trivial) fun _ _ => trivial
  | _ => exact keyStep_elsewhere rfl trivial trivial trivial

/-- So does every answer, of the allocators too. -/
theorem keyBackend_step (hheld : ∀ pk, T.held pk = pk) (hlive : ∀ v ∈ live, v.1 + v.2 ≤ vectorBase)
    (op : Call keyObjects α) :
    Calm ⟨op, (keyBackend T F _ op s).1⟩ ∧
      (keyLaw T F live).Step s.store ⟨op, (keyBackend T F _ op s).1⟩ (keyBackend T F _ op s).2.store := by
  cases op with
  | psa c => exact ⟨rfl, keyPsa_step hheld c⟩
  | calloc what => exact ⟨nofun, keyStep_elsewhere rfl trivial trivial trivial⟩
  | malloc n => exact ⟨nofun, keyStep_elsewhere rfl trivial trivial trivial⟩
  | freeRecord what p => exact ⟨trivial, keyStep_elsewhere rfl trivial trivial trivial⟩
  | freeBytes b => exact ⟨trivial, keyStep_elsewhere rfl trivial trivial trivial⟩
  | dropLocal bs => exact ⟨trivial, keyStep_elsewhere rfl trivial trivial trivial⟩
  | allocRaw n =>
    refine ⟨trivial, keyStep_elsewhere rfl trivial trivial fun hn => ⟨⟨?_, ?_⟩, ?_⟩⟩
    · show vectorBase ≠ NULL
      decide
    · show vectorBase + n < sizeMax1
      unfold vectorBase sizeMax1 R.VECTOR_MAX at *
      omega
    · intro v hv
      exact Or.inr (Or.inl (hlive v hv))

theorem keyBackend_calm (hheld : ∀ pk, T.held pk = pk) (hlive : ∀ v ∈ live, v.1 + v.2 ≤ vectorBase) :
    CalmBackend (keyLaw T F live) (keyBackend T F) KeyState.store :=
  fun _ op _ => keyBackend_step hheld hlive op

/-- Where R has put no vectors, no vector is in the way. -/
theorem noVectors_below : ∀ v ∈ ([] : List (Nat × Nat)), v.1 + v.2 ≤ vectorBase := by
  simp

/-- Every function has a run against it, -/
theorem exists_ran_state (hheld : ∀ pk, T.held pk = pk)
    (hlive : ∀ v ∈ live, v.1 + v.2 ≤ vectorBase) (p : Adapter keyObjects α) (w : World) (s : KeyState) :
    ∃ a w' s', Ran (keyLaw T F live) w s.store p a w' (KeyState.store s') :=
  (keyBackend_calm (F := F) hheld hlive).exists_ran p w s

/-- from any state of it. -/
theorem exists_ran (hheld : ∀ pk, T.held pk = pk) (hlive : ∀ v ∈ live, v.1 + v.2 ≤ vectorBase)
    (p : Adapter keyObjects α) (w : World) (s : KeyState) :
    ∃ a w' S', Ran (keyLaw T F live) w s.store p a w' S' := by
  obtain ⟨a, w', s', hran⟩ := exists_ran_state (F := F) hheld hlive p w s
  exact ⟨a, w', s'.store, hran⟩

end

end Zucrypt
