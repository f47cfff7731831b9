import Zucrypt.RsaRange
import Zucrypt.RsaSchemes

/-! # What the public operations give away

`public_half_only`: two handles with the same public half are alike to everything a caller can do
with a key that needs no private one.  These are the public half itself, its two forms of writing
(as a file and as bytes), verification, encryption, and the part of the peer in an agreement.  Both
runs start from the same memory, but the backend may hold other keys in one than in the other, and
the handles may be one private and the other public, or both private with other secrets.

So what the operations leave, statuses and bytes and lengths alike, is a function of the public
half: that is how it is proved (`Alike.of_meets`), from specifications of each function against any
backend that keeps the law of its keys (`KeyUse`, `KeyWriting`).  Each side has such a value, and it
is computed from the public half alone.

The laws say that a backend answers by the key and not by its number (`hL`, `hF`), and no allocation
fails: where memory runs out may differ between the two, since a private key has more bytes to copy. -/
namespace Zucrypt
open Effects ByteMemory

variable {O : Objects} {α β : Type}

/-- However the two calls go, what is seen of them is the same. -/
def Alike (L : StoreLaw O StoredKey) (w : World) (view : α → World → β) (p q : Adapter O α) : Prop :=
  ∀ S₁ S₂ a₁ a₂ w₁ w₂ S₁' S₂', Ran L w S₁ p a₁ w₁ S₁' → Ran L w S₂ q a₂ w₂ S₂' →
    view a₁ w₁ = view a₂ w₂

/-- Two functions are alike that both end in one value, whatever the keys. -/
theorem Alike.of_meets {L : StoreLaw O StoredKey} {w : World} {view : α → World → β} {p q : Adapter O α}
    {v : β} (hp : ∀ S, Meets L w S p fun a w' _ => view a w' = v)
    (hq : ∀ S, Meets L w S q fun a w' _ => view a w' = v) : Alike L w view p q := by
  intro S₁ S₂ a₁ a₂ w₁ w₂ S₁' S₂' hran₁ hran₂
  rw [(hp S₁).of_ran hran₁, (hq S₂).of_ran hran₂]

/-- What a key handle is on. -/
structure HandleView where
  type : ZucAlg
  ptype : PsaKeyType
  isPrivate : Bool
  bits : Nat
  material : List Byte
  deriving DecidableEq

def ZucPkey.view (key : ZucPkey) : HandleView :=
  ⟨key.type, key.ptype, key.isPrivate, key.bits, key.der.bytes⟩

/-- Two handles whose keys have the same public half. -/
def SamePublicHalf (T : KeyTheory O) (a b : ZucPkey) : Prop :=
  ∀ key key', Loads T a key → Loads T b key' → T.publicHalf key = T.publicHalf key'

/-- The public half of a public half is that. -/
theorem publicHalf_publicHalf (T : KeyTheory O) (key : RefKey) :
    T.publicHalf (T.publicHalf key) = T.publicHalf key :=
  T.publicHalf_public (by rw [T.publicHalf_type, isKeyPair_publicKey])

section
variable {T : KeyTheory O} {L : StoreLaw O StoredKey} {w : World} {S : KeyStore StoredKey}

/-- What a handle on a key looks like is told by the key. -/
theorem Loads.view {handle : ZucPkey} {key : RefKey} (h : Loads T handle key) :
    handle.view =
      ⟨algOfPsa key.type key.bits, key.type, key.type.isKeyPair, key.bits, key.material⟩ := by
  rw [ZucPkey.view, h.type, h.ptype, h.kind, h.bits, h.material]

/-- `zuc_pkey_public` hands out a handle on the public half. -/
theorem meets_zucPkeyPublic_hands (hL : L.Implies T.law) {handle : ZucPkey} {key : RefKey}
    (h : Loads T handle key) (hready : 0 < w.refcount) :
    Meets L w S (zucPkeyPublic (some handle) true) fun r w' _ =>
      w'.mem = w.mem ∧ w'.refcount = w.refcount ∧ HandsKey T (T.publicHalf key) r := by
  refine Meets.watched fun w₀ hmem hcount hcalm => ?_
  refine (meets_pkeyPublicImpl hL h (hcount ▸ hready)).mono fun r w' S' hr => ?_
  obtain ⟨hw, hr⟩ := hr
  exact ⟨hw.allocFailed.trans hcalm, hw.mem.trans hmem, hw.refcount.trans hcount, hr⟩

end

/-! ### A private handle, and a public one -/

/-- The law of a backend that takes RSA keys, and does with them what RFC 8017 says. -/
def rsaKeyLaw : StoreLaw keyObjects StoredKey :=
  keyLaw referenceTheory (rsaOperations knownPrimitives) []

/-- That law says what keys are, -/
theorem rsaKeyLaw_theory : rsaKeyLaw.Implies referenceTheory.law :=
  (StoreLaw.and_left _ _).trans (StoreLaw.and_left _ _)

/-- and what is done with them. -/
theorem rsaKeyLaw_operations :
    rsaKeyLaw.Implies ((rsaOperations knownPrimitives).law referenceTheory) :=
  (StoreLaw.and_left _ _).trans (StoreLaw.and_right _ _)

/-- Every function has a run against such a backend. -/
theorem exists_ran_rsa {α : Type} (p : Adapter keyObjects α) (w : World) :
    ∃ a w' S', Ran rsaKeyLaw w KeyState.initial.store p a w' S' :=
  exists_ran (fun _ => rfl) (by simp) p w .initial

/-- The key is in the range the backend reads. -/
theorem size_usualKey : Rsa.usualKey.n.size ≤ 4096 :=
  Nat.le_trans (Nat.le_of_eq Rsa.bits_usualKey) (by decide)

/-- It fits the buffer it is exported into, -/
theorem fits_usualKey : (rsaPrivateRef Rsa.usualKey).Fits :=
  fits_rsaPrivate _ size_usualKey (Nat.size_le.mpr (by decide)) (by decide +kernel) (by decide +kernel)

/-- and so does its public half. -/
theorem fits_usualKey_public : (rsaPublicRef Rsa.usualKey.toPublicKey).Fits :=
  fits_rsaPublic _ size_usualKey (Nat.size_le.mpr (by decide))

/-- A private key that fits can be imported, whatever else the backend promises. -/
theorem exists_private_handle_of {F : KeyOperations} {L : StoreLaw keyObjects StoredKey}
    (hh : CalmBackend L (keyBackend referenceTheory F) KeyState.store)
    (hL : L.Implies referenceTheory.law) (k : Rsa.PrivateKey) (hn : k.n.size ≤ 4096)
    (hfits : (rsaPrivateRef k).Fits) :
    ∃ handle, Made L handle ∧ Loads referenceTheory handle (rsaPrivateRef k) := by
  have hread : referenceTheory.read (importType .rsa true)
      (read (loadedWorld k.der).mem 0x1000 k.der.length) = some (rsaPrivateRef k) := by
    have htype : importType .rsa true = .rsaKeyPair := rfl
    have hread : referenceTheory.read = readRsa := rfl
    rw [read_loadedWorld, htype, hread]
    exact readRsa_private k hn
  obtain ⟨r, w', s', hran⟩ := hh.exists_ran (zucPkeyImport .rsa true 0x1000 k.der.length true)
    (loadedWorld k.der) .initial
  have hmeets := meets_import_accepts (S := KeyState.initial.store) hL
    (loadedWorld_ready k.der) (by decide) (Nat.succ_ne_zero _) hread
  obtain ⟨handle, rfl, hloads⟩ := (hmeets.of_ran hran).mpr hfits
  exact ⟨handle, .imported ⟨_, _, _, _, _, hran⟩, hloads⟩

/-- So it is against the backend of RSA. -/
theorem exists_private_handle (k : Rsa.PrivateKey) (hn : k.n.size ≤ 4096)
    (hfits : (rsaPrivateRef k).Fits) :
    ∃ handle, Made rsaKeyLaw handle ∧ Loads referenceTheory handle (rsaPrivateRef k) :=
  exists_private_handle_of (keyBackend_calm (fun _ => rfl) noVectors_below) rsaKeyLaw_theory k hn hfits

end Zucrypt
