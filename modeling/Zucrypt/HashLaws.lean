import Zucrypt.Hash
import Zucrypt.KeyedHash
import Zucrypt.ReferenceBackend

/-! # What a correct backend promises about digests and MACs

`HashLaws` and `MacLaws` say that one backend's hash and MAC operations compute a given hash `H`,
and HMAC over it, and do not fail.  They speak of the documented behaviour of each function; what an
operation object has absorbed so far, and which key an identifier stands for, are relations the
backend supplies.

`StreamLaws` is what the two have in common, in the terms of `StreamOps`: it is what the handle
functions are proved from.

The laws of MACs ask for keys of one byte up to a block only, as the adapter passes no others: an
empty key and one longer than a block are its own affair. -/
namespace Zucrypt
open Effects ByteMemory KeyedHash

variable {O : Objects} {σ : Type}

/-- The call produced `d`, and reported its length. -/
def Output.Delivers (o : Output) (d : List Byte) : Prop := o.len = d.length ∧ d <+: o.bytes

/-- What a caller finds in its buffer, when that has room for `d`. -/
theorem Output.Delivers.read_store {o : Output} {d : List Byte} (h : o.Delivers d) (w : World)
    (p : Nat) {size : Nat} (hsize : d.length ≤ size) :
    read (w.store p (o.bytes.take size)).mem p d.length = d :=
  read_write_prefix w.mem p (List.prefix_take_iff.mpr ⟨h.2, hsize⟩)

theorem Output.Delivers.reported {o : Output} {d : List Byte} (h : o.Delivers d) :
    o.reported = d := by
  rw [Output.reported, h.1]
  exact (List.prefix_iff_eq_take.mp h.2).symm

/-- The backend's digests compute `H`, and do not fail. -/
structure HashLaws (h : Handler (Call O) σ) (H : PsaAlg → List Byte → List Byte) where
  /-- what an operation has been given so far -/
  absorbed : O.Hash → PsaAlg → List Byte → Prop
  length : ∀ alg m, zucIntDigestAvailable alg = true →
    (H (zucIntPsaHash alg) m).length = zucAlgSize alg
  compute : ∀ s alg m size, alg.isHash = true → (H alg m).length ≤ size →
    (answer h (.hashCompute alg m size) s).1 = .success ∧
      (answer h (.hashCompute alg m size) s).2.Delivers (H alg m)
  setup : ∀ s alg, alg.isHash = true →
    (answer h (.hashSetup O.hashInit alg) s).1 = .success ∧
      absorbed (answer h (.hashSetup O.hashInit alg) s).2 alg []
  update : ∀ s op alg m bs, absorbed op alg m →
    (answer h (.hashUpdate op bs) s).1 = .success ∧
      absorbed (answer h (.hashUpdate op bs) s).2 alg (m ++ bs)
  finish : ∀ s op alg m size, absorbed op alg m → (H alg m).length ≤ size →
    (answer h (.hashFinish op size) s).1 = .success ∧
      (answer h (.hashFinish op size) s).2.2.Delivers (H alg m)

/-- `PSA_ALG_HMAC` over a digest. -/
def hmacOf (H : PsaAlg → List Byte → List Byte) (alg : PsaAlg) : List Byte → List Byte → List Byte :=
  hmac (H alg) (psaHashBlockLength alg)

/-- The attributes an HMAC key is imported with. -/
def hmacKeyAttributes (palg : PsaAlg) : PsaKeyAttributes :=
  { type := .hmac, alg := palg, usage := [.signMessage] }

/-- The backend accepts HMAC keys of 1 byte up to a block, its MACs under them
are HMAC over `H`, and they do not fail. -/
structure MacLaws (h : Handler (Call O) σ) (H : PsaAlg → List Byte → List Byte) where
  /-- the key an identifier stands for -/
  keyAt : σ → KeyId → PsaAlg → List Byte → Prop
  /-- what an operation was set up with, and has been given so far -/
  absorbed : O.Mac → PsaAlg → List Byte → List Byte → Prop
  importKey : ∀ s alg K, alg.isHash = true → 1 ≤ K.length → K.length ≤ psaHashBlockLength alg →
    (answer h (.importKey (hmacKeyAttributes (.hmac alg)) K) s).1 = .success ∧
      keyAt (next h (.importKey (hmacKeyAttributes (.hmac alg)) K) s)
        (answer h (.importKey (hmacKeyAttributes (.hmac alg)) K) s).2 alg K
  compute : ∀ s id alg K m size, keyAt s id alg K → (hmacOf H alg K m).length ≤ size →
    (answer h (.macCompute id (.hmac alg) m size) s).1 = .success ∧
      (answer h (.macCompute id (.hmac alg) m size) s).2.Delivers (hmacOf H alg K m)
  setup : ∀ s id alg K, keyAt s id alg K →
    (answer h (.macSignSetup O.macInit id (.hmac alg)) s).1 = .success ∧
      absorbed (answer h (.macSignSetup O.macInit id (.hmac alg)) s).2 alg K []
  update : ∀ s op alg K m bs, absorbed op alg K m →
    (answer h (.macUpdate op bs) s).1 = .success ∧
      absorbed (answer h (.macUpdate op bs) s).2 alg K (m ++ bs)
  finish : ∀ s op alg K m size, absorbed op alg K m → (hmacOf H alg K m).length ≤ size →
    (answer h (.macSignFinish op size) s).1 = .success ∧
      (answer h (.macSignFinish op size) s).2.2.Delivers (hmacOf H alg K m)
  /-- the operations leave the key store alone -/
  keep_setup : ∀ s id alg K op id' alg', keyAt s id alg K →
    keyAt (next h (.macSignSetup op id' alg') s) id alg K
  keep_update : ∀ s id alg K op bs, keyAt s id alg K → keyAt (next h (.macUpdate op bs) s) id alg K
  keep_finish : ∀ s id alg K op size, keyAt s id alg K →
    keyAt (next h (.macSignFinish op size) s) id alg K
  keep_abort : ∀ s id alg K op, keyAt s id alg K → keyAt (next h (.macAbort op) s) id alg K
  /-- and so does the end of a local array -/
  keep_dropLocal : ∀ s id alg K bs, keyAt s id alg K →
    keyAt (h _ (.dropLocal bs) s).2 id alg K

/-- One kind of operation, set up with one algorithm and key, computes `D` of
what it is given, and does not fail. -/
structure StreamLaws {κ Op : Type} (h : Handler (Call O) σ) (B : StreamOps O κ Op) (palg : PsaAlg)
    (key : κ) (D : List Byte → List Byte) where
  /-- the key is still there -/
  usable : σ → Prop
  absorbed : Op → List Byte → Prop
  setup : ∀ w s, usable s → ∃ op b s',
    (B.setup B.init key palg).exec h w s = ⟨(.success, op), w.noteAlloc b, s'⟩ ∧
      usable s' ∧ absorbed op []
  update : ∀ w s op m bs, usable s → absorbed op m → ∃ op' b s',
    (B.update op bs).exec h w s = ⟨(.success, op'), w.noteAlloc b, s'⟩ ∧
      usable s' ∧ absorbed op' (m ++ bs)
  finish : ∀ w s op m size, usable s → absorbed op m → (D m).length ≤ size → ∃ op' o b s',
    (B.finish op size).exec h w s = ⟨(.success, op', o), w.noteAlloc b, s'⟩ ∧
      usable s' ∧ o.Delivers (D m)
  abort : ∀ w s op, usable s → ∃ op' b s',
    (B.abort op).exec h w s = ⟨op', w.noteAlloc b, s'⟩ ∧ usable s'

variable {h : Handler (Call O) σ} {H : PsaAlg → List Byte → List Byte}

/-- Digest operations need no key. -/
def HashLaws.stream (L : HashLaws h H) {alg : PsaAlg} (halg : alg.isHash = true) :
    StreamLaws h hashOps alg () (H alg) where
  usable _ := True
  absorbed op m := L.absorbed op alg m
  setup w s _ := by
    obtain ⟨hok, habs⟩ := L.setup s alg halg
    exact ⟨_, _, _, Outcome.ext (Prod.ext hok rfl) rfl rfl, trivial, habs⟩
  update w s op m bs _ hop := by
    obtain ⟨hok, habs⟩ := L.update s op alg m bs hop
    exact ⟨_, _, _, Outcome.ext (Prod.ext hok rfl) rfl rfl, trivial, habs⟩
  finish w s op m size _ hop hsize := by
    obtain ⟨hok, hout⟩ := L.finish s op alg m size hop hsize
    exact ⟨_, _, _, _, Outcome.ext (Prod.ext hok rfl) rfl rfl, trivial, hout⟩
  abort w s op _ := ⟨_, _, _, rfl, trivial⟩

/-- MAC operations need the key they are set up with. -/
def MacLaws.stream (L : MacLaws h H) (alg : PsaAlg) (id : KeyId) (K : List Byte) :
    StreamLaws h macOps (.hmac alg) id (hmacOf H alg K) where
  usable s := L.keyAt s id alg K
  absorbed op m := L.absorbed op alg K m
  setup w s hs := by
    obtain ⟨hok, habs⟩ := L.setup s id alg K hs
    exact ⟨_, _, _, Outcome.ext (Prod.ext hok rfl) rfl rfl, L.keep_setup _ _ _ _ _ _ _ hs, habs⟩
  update w s op m bs hs hop := by
    obtain ⟨hok, habs⟩ := L.update s op alg K m bs hop
    exact ⟨_, _, _, Outcome.ext (Prod.ext hok rfl) rfl rfl, L.keep_update _ _ _ _ _ _ hs, habs⟩
  finish w s op m size hs hop hsize := by
    obtain ⟨hok, hout⟩ := L.finish s op alg K m size hop hsize
    exact ⟨_, _, _, _, Outcome.ext (Prod.ext hok rfl) rfl rfl, L.keep_finish _ _ _ _ _ _ hs, hout⟩
  abort w s op hs := ⟨_, _, _, rfl, L.keep_abort _ _ _ _ _ hs⟩

/-! ### The reference backend keeps them -/

theorem Output.full_delivers (d : List Byte) : (Output.full d).Delivers d :=
  ⟨rfl, List.prefix_rfl⟩

theorem psaHashLength_eq {alg : ZucAlg} (halg : zucIntDigestAvailable alg = true) :
    psaHashLength (zucIntPsaHash alg) = zucAlgSize alg := by
  cases alg <;> simp_all [zucIntDigestAvailable, zucIntPsaHash, psaHashLength, zucAlgSize]

def referenceHashLaws (P : Primitives) : HashLaws (referenceBackend P) P.hash where
  absorbed op alg m := op = some (alg, m)
  length alg m halg := (P.hash_length _ m).trans (psaHashLength_eq halg)
  compute s alg m size _ _ := ⟨rfl, Output.full_delivers _⟩
  setup s alg _ := ⟨rfl, rfl⟩
  update s op alg m bs hop := by
    subst hop
    exact ⟨rfl, rfl⟩
  finish s op alg m size hop _ := by
    subst hop
    exact ⟨rfl, Output.full_delivers _⟩

def referenceMacLaws (P : Primitives) : MacLaws (referenceBackend P) P.hash where
  keyAt s id alg K := s.find id = some (hmacKeyAttributes (.hmac alg), K)
  absorbed op alg K m := op = some (alg, K, m)
  importKey s alg K _ _ _ := by
    refine ⟨rfl, ?_⟩
    simp [next, answer, referenceBackend, referencePsa, ReferenceState.find]
  compute s id alg K m size hkey _ := by
    simp only [answer, referenceBackend, referencePsa, hkey]
    exact ⟨trivial, Output.full_delivers _⟩
  setup s id alg K hkey := by
    simp only [answer, referenceBackend, referencePsa, hkey]
    exact ⟨trivial, rfl⟩
  update s op alg K m bs hop := by
    subst hop
    exact ⟨rfl, rfl⟩
  finish s op alg K m size hop _ := by
    subst hop
    exact ⟨rfl, Output.full_delivers _⟩
  keep_setup s id alg K op id' alg' hkey := by
    cases alg' with
    | hmac halg =>
      simp only [next, referenceBackend, referencePsa]
      split <;> exact hkey
    | _ => exact hkey
  keep_update s id alg K op bs hkey := by
    cases op <;> exact hkey
  keep_finish s id alg K op size hkey := by
    cases op <;> exact hkey
  keep_abort s id alg K op hkey := hkey
  keep_dropLocal s id alg K bs hkey := hkey

end Zucrypt
