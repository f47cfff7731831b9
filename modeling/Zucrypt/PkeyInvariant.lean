import Zucrypt.KeyStore
import Zucrypt.NoLeak

/-! # The invariant of key handles

Every `zuc_pkey` that a constructor hands out is as `ValidPkey` says, and stays as it is until it is
freed.  The functions that use a handle rely on that without checking it: sizes of signatures and
encodings, and the type a key is imported with, are read off the handle.

`pkey_handles_invariant` is the invariant over sessions: after any calls, of any arguments, every
key handle is valid; and of the next call, that a constructor hands out a handle exactly when it
returns `ZUC_OK`, one of the kind it was asked for, whose material is the public half as the backend
exported it where that was asked; and that every other call leaves the key handles alone, but for
one it frees.

One call is `validPool_run`, by the kinds of calls: the constructors through `Lawfully`, which keeps
the keys of the backend beside the run, and the others by the shape of their commands (the lemmas
named `samePkeys_`).  `validPool_session` is the induction.

Of the backend it is assumed that a key has the type it was created with, and that it is exported in
the format of its type and size (`exportLaw`).  It may fail at any call, and so may every
allocation: a constructor that fails hands out nothing. -/
namespace Zucrypt
open Effects ByteMemory

variable {O : Objects}

/-! ### What the backend exports -/

/-- The length of the PSA format of a key, where the type and the size give one. -/
def materialLength : PsaKeyType → Nat → Option Nat
  | .eccKeyPair _, bits => some ((bits + 7) / 8)
  | .eccPublicKey .montgomery, bits => some ((bits + 7) / 8)
  | .eccPublicKey .secpR1, bits => some (1 + 2 * ((bits + 7) / 8))
  | _, _ => none

/-- An answer to a request for a key's material, into a buffer of `size` bytes. -/
def Exported (type : PsaKeyType) (bits size : Nat) (r : PsaStatus × Output) : Prop :=
  r.1 = .success →
    r.2.len ≤ r.2.bytes.length ∧ r.2.len ≤ size ∧
      ∀ n, materialLength type bits = some n → r.2.len = n

/-- A key has the type it was created with and a size, and is exported in their format. -/
def exportLaw : StoreLaw O (PsaKeyType × Nat) where
  makes
    | ⟨.psa (.importKey attr _), _⟩, m => m.1 = attr.type
    | ⟨.psa (.generateKey attr), _⟩, m => m.1 = attr.type
    | ⟨.psa (.pkImportIntoPsa _ attr), _⟩, m => m.1 = attr.type
    | _, _ => True
  allows
    | ⟨.psa (.getKeyAttributes _), r⟩, m =>
      r.answer.1 = .success → r.answer.2.type = m.1 ∧ r.answer.2.bits = m.2
    | ⟨.psa (.exportKey _ size), r⟩, m => Exported m.1 m.2 size r.answer
    | ⟨.psa (.exportPublicKey _ size), r⟩, m => Exported m.1.publicKey m.2 size r.answer
    | _, _ => True
  elsewhere _ := True

/-! ### Valid handles -/

/-- What every function of `zuc_pkey.c` relies on. -/
structure ValidPkey (key : ZucPkey) : Prop where
  type_eq : key.type = algOfPsa key.ptype key.bits
  type_ne : key.type ≠ .none
  private_iff : key.isPrivate = true ↔ key.ptype.isKeyPair = true
  private_length : key.isPrivate = true → key.type ≠ .rsa → key.der.len = (key.bits + 7) / 8
  public_length : key.isPrivate = false → isNistCurve key.type = true →
    key.der.len = 1 + 2 * ((key.bits + 7) / 8)
  x25519_length : key.type = .x25519 → key.der.len = 32
  filled : key.der.bytes.length = key.der.len

/-- A public half is not a pair. -/
theorem isKeyPair_publicKey (type : PsaKeyType) : type.publicKey.isKeyPair = false := by
  cases type <;> rfl

/-- Both halves of a pair are of one algorithm. -/
theorem algOfPsa_publicKey (type : PsaKeyType) (bits : Nat) :
    algOfPsa type.publicKey bits = algOfPsa type bits := by
  cases type <;> rfl

/-- What is neither RSA nor unknown is a curve's. -/
theorem algOfPsa_ecc {type : PsaKeyType} {bits : Nat} (hrsa : algOfPsa type bits ≠ .rsa)
    (hnone : algOfPsa type bits ≠ .none) :
    ∃ family, type = .eccKeyPair family ∨ type = .eccPublicKey family := by
  cases type with
  | eccKeyPair family => exact ⟨family, .inl rfl⟩
  | eccPublicKey family => exact ⟨family, .inr rfl⟩
  | rsaKeyPair => exact (hrsa rfl).elim
  | rsaPublicKey => exact (hrsa rfl).elim
  | _ => exact (hnone rfl).elim

/-- The curves of `secpR1` are the NIST curves. -/
theorem family_of_nist {type : PsaKeyType} {bits : Nat}
    (h : isNistCurve (algOfPsa type bits) = true) : type.eccFamily = some .secpR1 := by
  unfold algOfPsa at h
  split at h
  · cases h
  · split at h
    · assumption
    · split at h <;> cases h
    · cases h

/-- X25519 keys are of Montgomery's family, and have 255 bits. -/
theorem family_of_x25519 {type : PsaKeyType} {bits : Nat} (h : algOfPsa type bits = .x25519) :
    type.eccFamily = some .montgomery ∧ bits = 255 := by
  unfold algOfPsa at h
  split at h
  · cases h
  · split at h
    · repeat' split at h
      all_goals cases h
    · split at h
      · exact ⟨by assumption, by assumption⟩
      · cases h
    · cases h

/-- What a buffer holds that an answer was stored in. -/
theorem bytes_stored (p : Nat) {size : Nat} {o : Output} (hbytes : o.len ≤ o.bytes.length)
    (hsize : o.len ≤ size) :
    (HeapBytes.bytes ⟨(HeapBuf.fresh p size).store 0 (o.bytes.take size), o.len⟩) = o.reported := by
  apply List.ext_getElem?
  intro i
  simp only [HeapBytes.bytes, HeapBuf.bytes, HeapBuf.store, HeapBuf.fresh, List.take_zero,
    List.nil_append, List.length_replicate, Nat.sub_zero, Output.reported, List.getElem?_map]
  by_cases hi : i < o.len
  · have hlt : i < (List.take size (List.map some (List.take size o.bytes))).length := by
      simp
      omega
    rw [List.getElem?_take_of_lt hi, List.getElem?_take_of_lt hi, List.getElem?_append_left hlt,
      List.getElem?_take_of_lt (by omega), List.getElem?_map, List.getElem?_take_of_lt (by omega)]
    cases o.bytes[i]? <;> rfl
  · rw [List.getElem?_eq_none (by simp; omega), List.getElem?_eq_none (by simp; omega)]
    rfl

/-- The handle that `pkey_from_psa` makes of a key and of what it exported. -/
theorem validPkey_made {self p size bits : Nat} {type : PsaKeyType} (isPair : Bool) {o : Output}
    (hpair : isPair = true → type.isKeyPair = true) (hnone : algOfPsa type bits ≠ .none)
    (ho : Exported (if isPair then type else type.publicKey) bits size (.success, o)) :
    ValidPkey
      { self, type := algOfPsa type bits, ptype := if isPair then type else type.publicKey,
        isPrivate := isPair, bits,
        der := ⟨(HeapBuf.fresh p size).store 0 (o.bytes.take size), o.len⟩ } := by
  obtain ⟨hbytes, hsize, hlength⟩ : o.len ≤ o.bytes.length ∧ o.len ≤ size ∧
    ∀ n, materialLength (if isPair then type else type.publicKey) bits = some n → o.len = n := ho rfl
  have hreported : o.reported.length = o.len := by
    rw [Output.reported, List.length_take]
    omega
  -- one goal for each field: what kind of key it is, then how long its material is
  constructor
  · cases isPair with
    | true => rfl
    | false => exact (algOfPsa_publicKey type bits).symm
  · exact hnone
  · cases isPair with
    | true => exact iff_of_true rfl (hpair rfl)
    | false => exact iff_of_false (by simp) (by simp [isKeyPair_publicKey])
  · intro hprivate hrsa
    obtain rfl : isPair = true := hprivate
    obtain ⟨family, rfl | rfl⟩ := algOfPsa_ecc hrsa hnone
    · exact hlength _ rfl
    · exact absurd (hpair rfl) (by simp [PsaKeyType.isKeyPair])
  · intro hpublic hnist
    obtain rfl : isPair = false := hpublic
    have hfamily := family_of_nist hnist
    obtain ⟨family, rfl | rfl⟩ := algOfPsa_ecc (fun h => by simp [h, isNistCurve] at hnist) hnone
    · obtain rfl : family = .secpR1 := Option.some.inj hfamily
      exact hlength _ rfl
    · obtain rfl : family = .secpR1 := Option.some.inj hfamily
      exact hlength _ rfl
  · intro hx25519
    have hx : algOfPsa type bits = .x25519 := hx25519
    obtain ⟨hfamily, rfl⟩ := family_of_x25519 hx
    obtain ⟨family, rfl | rfl⟩ := algOfPsa_ecc (fun h => by simp [hx] at h) hnone
    · obtain rfl : family = .montgomery := Option.some.inj hfamily
      cases isPair with
      | true => exact hlength 32 rfl
      | false => exact hlength 32 rfl
    · obtain rfl : family = .montgomery := Option.some.inj hfamily
      cases isPair with
      | true => exact hlength 32 rfl
      | false => exact hlength 32 rfl
  · show (HeapBytes.bytes _).length = o.len
    rw [bytes_stored p hbytes hsize, hreported]

/-! ### Constructors -/

/-- The material is what the backend exported of the public half of a key. -/
def OfPublicHalf (t : List (Event (Call O))) (key : ZucPkey) : Prop :=
  ∃ id size r, (⟨.psa (.exportPublicKey id size), r⟩ : Event (Call O)) ∈ t ∧
    r.answer.1 = .success ∧ key.der.bytes = r.answer.2.reported

/-- A handle as it was asked for. -/
structure MadeAs (isPrivate : Bool) (t : List (Event (Call O))) (key : ZucPkey) : Prop where
  valid : ValidPkey key
  kind : key.isPrivate = isPrivate
  material : isPrivate = false → OfPublicHalf t key

/-- It stays as it was asked for, whatever is called next. -/
theorem MadeAs.mono {isPrivate : Bool} {t t' : List (Event (Call O))} {key : ZucPkey}
    (h : MadeAs isPrivate t key) (ht : ∀ e ∈ t, e ∈ t') : MadeAs isPrivate t' key where
  valid := h.valid
  kind := h.kind
  material hpublic := by
    obtain ⟨id, size, r, hmem, hr⟩ := h.material hpublic
    exact ⟨id, size, r, ht _ hmem, hr⟩

/-- What a constructor hands out, if anything. -/
def HandsAs (isPrivate : Bool) (t : List (Event (Call O))) (r : ZucStatus × Option ZucPkey)
    (_ : KeyStore (PsaKeyType × Nat)) : Prop := ∀ key, r.2 = some key → MadeAs isPrivate t key

/-- A constructor that fails hands out nothing. -/
theorem handsAs_none {isPrivate : Bool} {t : List (Event (Call O))} {st : ZucStatus}
    {S : KeyStore (PsaKeyType × Nat)} : HandsAs isPrivate t (st, none) S := nofun

/-- What was called before does not matter. -/
theorem HandsAs.after {isPrivate : Bool} {t₀ t : List (Event (Call O))}
    {r : ZucStatus × Option ZucPkey} {S : KeyStore (PsaKeyType × Nat)} (h : HandsAs isPrivate t r S) :
    HandsAs isPrivate (t₀ ++ t) r S :=
  fun key hkey => (h key hkey).mono fun _ he => List.mem_append_right _ he

section
variable {S : KeyStore (PsaKeyType × Nat)}

/-- A new block has the length that was asked for. -/
theorem lawfully_mallocBytes (n : Nat) :
    Lawfully exportLaw S (mallocBytes n : Adapter O _) fun _ buf S' =>
      S' = S ∧ ∀ b, buf = some b → ∃ p, b = .fresh p n := by
  have hcall : Keyless (Proc.perform (.malloc n) : Adapter O _) := .perform fun _ => rfl
  refine hcall.then fun t p => Lawfully.pure ⟨rfl, fun b hb => ?_⟩
  obtain ⟨q, -, hq⟩ := Option.map_eq_some_iff.mp hb
  exact ⟨q, hq.symm⟩

/-- A handle made of a key is a private one if a pair was asked for and is there. -/
theorem lawfully_pkeyFromPsa {id : KeyId} {m : PsaKeyType × Nat} (hS : S id = some m)
    (wantPrivate : Bool) :
    Lawfully exportLaw S (pkeyFromPsa id wantPrivate : Adapter O _)
      (HandsAs (m.1.isKeyPair && wantPrivate)) := by
  refine Lawfully.bind (Lawfully.use hS fun _ => rfl) fun t₁ attr S₁ hattr => ?_
  obtain ⟨rfl, r₁, rfl, rfl, hallows⟩ := hattr
  refine Lawfully.ite (fun _ => Lawfully.pure handsAs_none) fun hsuccess => ?_
  obtain ⟨htype, hbits⟩ := hallows (not_not.mp hsuccess)
  refine Lawfully.ite (fun _ => Lawfully.pure handsAs_none) fun hnone => ?_
  simp only [htype, hbits] at hnone ⊢
  have hrecord : Keyless (callocRecord .zucPkey : Adapter O _) := .perform fun _ => rfl
  refine hrecord.then fun t₂ self => Lawfully.bind (lawfully_mallocBytes _) fun t₃ buf S' hbuf => ?_
  obtain ⟨rfl, hfresh⟩ := hbuf
  -- without the record or the buffer, whatever there is of them is given back
  have hfail : ∀ g : List (Event (Call O)) → List (Event (Call O)), Lawfully exportLaw S' (do
      freeIf (freeRecord .zucPkey) self
      freeIf freeBytes buf
      return (.errMemory, none) : Adapter O (ZucStatus × Option ZucPkey))
      (fun t r S'' => HandsAs (m.1.isKeyPair && wantPrivate) (g t) r S'') := by
    intro g
    have hself : Keyless (freeIf (freeRecord .zucPkey) self : Adapter O _) :=
      .freeIf (fun _ => .perform fun _ => rfl) _
    have hbuf : Keyless (freeIf freeBytes buf : Adapter O _) :=
      .freeIf (fun _ => .perform fun _ => rfl) _
    exact hself.then fun _ _ => hbuf.then fun _ _ => Lawfully.pure handsAs_none
  cases self with
  | none => exact hfail _
  | some self =>
    cases buf with
    | none => exact hfail _
    | some buf =>
      obtain ⟨p, rfl⟩ := hfresh buf rfl
      have hrelease : ∀ b : HeapBuf, Keyless (freeBytes b : Adapter O _) :=
        fun _ => .perform fun _ => rfl
      have hself : Keyless (freeRecord .zucPkey self : Adapter O _) := .perform fun _ => rfl
      -- which of the two exports was asked for
      cases hpair : (m.1.isKeyPair && wantPrivate) with
      | true =>
        simp only [if_true]
        refine Lawfully.bind (Lawfully.use hS fun _ => rfl) fun t₄ r S'' hexport => ?_
        obtain ⟨rfl, r₄, rfl, rfl, hexported⟩ := hexport
        refine Lawfully.ite (fun _ => ?_) fun hok => ?_
        · exact (hrelease _).then fun _ _ => hself.then fun _ _ => Lawfully.pure handsAs_none
        · refine (Keyless.count 1).then fun t₅ _ => Lawfully.pure fun key hkey => ?_
          cases hkey
          have ho : Exported m.1 m.2 (psaExportKeyOutputSize m.1 m.2) (.success, r₄.answer.2) := by
            rw [← not_not.mp hok]
            exact hexported
          exact ⟨validPkey_made true (fun _ => (Bool.and_eq_true_iff.mp hpair).1) hnone ho, rfl, nofun⟩
      | false =>
        simp only [Bool.false_eq_true, if_false]
        refine Lawfully.bind (Lawfully.use hS fun _ => rfl) fun t₄ r S'' hexport => ?_
        obtain ⟨rfl, r₄, rfl, rfl, hexported⟩ := hexport
        refine Lawfully.ite (fun _ => ?_) fun hok => ?_
        · exact (hrelease _).then fun _ _ => hself.then fun _ _ => Lawfully.pure handsAs_none
        · refine (Keyless.count 1).then fun t₅ _ => Lawfully.pure fun key hkey => ?_
          cases hkey
          have hsuccess := not_not.mp hok
          have ho : Exported m.1.publicKey m.2 (psaExportPublicKeyOutputSize m.1 m.2)
              (.success, r₄.answer.2) := by
            rw [← hsuccess]
            exact hexported
          have hmaterial := bytes_stored p (ho rfl).1 (ho rfl).2.1
          refine ⟨validPkey_made false nofun hnone ho, rfl, fun _ => ?_⟩
          exact ⟨id, psaExportPublicKeyOutputSize m.1 m.2, r₄, by simp, hsuccess, hmaterial⟩

/-- The key is destroyed when the handle is made. -/
theorem lawfully_fromPsa {f : ZucStatus × Option ZucPkey → Adapter O (ZucStatus × Option ZucPkey)}
    {Q : List (Event (Call O)) → ZucStatus × Option ZucPkey → KeyStore (PsaKeyType × Nat) → Prop}
    {id : KeyId} {m : PsaKeyType × Nat} (hS : S id = some m) (wantPrivate : Bool)
    (hf : ∀ t r S₁, HandsAs (m.1.isKeyPair && wantPrivate) t r S₁ → HandsOut r →
      Lawfully exportLaw S₁ (f r) fun t' r' S' => Q (t ++ t') r' S') :
    Lawfully exportLaw S (do
      let key ← pkeyFromPsa id wantPrivate
      psa (.destroyKey id)
      f key : Adapter O (ZucStatus × Option ZucPkey)) Q := by
  refine Lawfully.bind ((lawfully_pkeyFromPsa hS wantPrivate).yields (pkeyFromPsa_handsOut id _))
    fun t₁ r S₁ hr => ?_
  refine Lawfully.bind (R := fun t _ _ => HandsAs (m.1.isKeyPair && wantPrivate) (t₁ ++ t) r S₁)
    (Lawfully.psa fun r' S' _ => fun key hkey => ?_) fun t₂ _ S₂ hr₂ => ?_
  · exact (hr.1 key hkey).mono fun _ he => List.mem_append_left _ he
  · exact (hf (t₁ ++ t₂) r S₂ hr₂ hr.2).mono fun t r' S' h => by simpa using h

/-- And the handle is the result. -/
theorem lawfully_fromPsa_pure {id : KeyId} {m : PsaKeyType × Nat} (hS : S id = some m)
    (wantPrivate : Bool) :
    Lawfully exportLaw S (do
      let key ← pkeyFromPsa id wantPrivate
      psa (.destroyKey id)
      return key : Adapter O (ZucStatus × Option ZucPkey))
      (HandsAs (m.1.isKeyPair && wantPrivate)) := by
  refine lawfully_fromPsa hS wantPrivate fun t r S₁ hr _ => Lawfully.pure ?_
  rw [List.append_nil]
  exact hr

/-- The types of pairs on curves are pairs. -/
theorem ecPairType_isKeyPair {type : ZucAlg} (h : (ecPairType type).1 ≠ .none) :
    (ecPairType type).1.isKeyPair = true := by
  cases type with
  | ecP256 => rfl
  | ecP384 => rfl
  | ecP521 => rfl
  | x25519 => rfl
  | _ => exact (h rfl).elim

/-- The type a key is imported or generated with as a pair. -/
theorem pairType_isKeyPair {type : ZucAlg} {bits : Nat} {pt : PsaKeyType × Nat}
    (hpt : pt = if type = .rsa then (.rsaKeyPair, bits) else ecPairType type) (h : pt.1 ≠ .none) :
    pt.1.isKeyPair = true := by
  by_cases hrsa : type = .rsa
  · rw [hpt, if_pos hrsa]
    rfl
  · rw [if_neg hrsa] at hpt
    rw [hpt] at h ⊢
    exact ecPairType_isKeyPair h

/-- A handle made of imported bytes is one of the kind that was imported. -/
theorem lawfully_pkeyImportBytes (type : ZucAlg) (privateKey : Bool) (data : List Byte) :
    Lawfully exportLaw S (pkeyImportBytes type privateKey data : Adapter O _)
      (HandsAs privateKey) := by
  refine Lawfully.ite (fun _ => Lawfully.pure handsAs_none) fun hargs => ?_
  refine Lawfully.bind (Lawfully.create fun _ => rfl) fun t r S₁ hcreate => ?_
  refine Lawfully.ite (fun _ => Lawfully.pure handsAs_none) fun hsuccess => ?_
  obtain ⟨m, r, hS₁, -, hm⟩ := hcreate (not_not.mp hsuccess)
  have htype : m.1 = _ := hm
  have hkind : (m.1.isKeyPair && privateKey) = privateKey := by
    cases privateKey with
    | false => exact Bool.and_false _
    | true =>
      rw [htype, Bool.and_true]
      exact pairType_isKeyPair rfl (not_or.mp hargs).2
  have hmade := lawfully_fromPsa_pure (O := O) hS₁ privateKey
  rw [hkind] at hmade
  exact hmade.mono fun t' r' S' h => h.after

/-- `zuc_pkey_import`. -/
theorem lawfully_pkeyImportImpl (type : ZucAlg) (privateKey : Bool) (data len : Nat) (out : Bool) :
    Lawfully exportLaw S (pkeyImportImpl type privateKey data len out : Adapter O _)
      (HandsAs privateKey) := by
  refine Lawfully.ite (fun _ => Lawfully.pure handsAs_none) fun _ => ?_
  refine Keyless.ready.then fun t ready => ?_
  refine Lawfully.ite (fun _ => Lawfully.pure handsAs_none) fun _ => ?_
  refine Lawfully.ite (fun _ => Lawfully.pure handsAs_none) fun _ => ?_
  refine (Keyless.readMem _ _).then fun t' bytes => ?_
  exact (lawfully_pkeyImportBytes _ _ _).mono fun _ _ _ h => h.after.after

/-- `zuc_pkey_generate`, whose handles are private. -/
theorem lawfully_pkeyGenerateImpl (type : ZucAlg) (bits : Nat) (out : Bool) :
    Lawfully exportLaw S (pkeyGenerateImpl type bits out : Adapter O _) (HandsAs true) := by
  refine Lawfully.ite (fun _ => Lawfully.pure handsAs_none) fun _ => ?_
  refine Keyless.ready.then fun t ready => ?_
  refine Lawfully.ite (fun _ => Lawfully.pure handsAs_none) fun _ => ?_
  refine Lawfully.ite (fun _ => Lawfully.pure handsAs_none) fun _ => ?_
  refine Lawfully.ite (fun _ => Lawfully.pure handsAs_none) fun _ => ?_
  refine Lawfully.ite (fun _ => Lawfully.pure handsAs_none) fun hnone => ?_
  refine Lawfully.ite (fun _ => Lawfully.pure handsAs_none) fun _ => ?_
  refine Lawfully.bind (Lawfully.create fun _ => rfl) fun t' r S₁ hcreate => ?_
  refine Lawfully.ite (fun _ => Lawfully.pure handsAs_none) fun hsuccess => ?_
  obtain ⟨m, r, hS₁, -, hm⟩ := hcreate (not_not.mp hsuccess)
  have htype : m.1 = _ := hm
  have hkind : (m.1.isKeyPair && true) = true := by
    rw [htype, Bool.and_true]
    exact pairType_isKeyPair rfl hnone
  have hmade := lawfully_fromPsa_pure (O := O) hS₁ true
  rw [hkind] at hmade
  exact hmade.mono fun _ _ _ h => h.after.after

/-- To use a handle is to import its key, with the handle's type. -/
theorem lawfully_pkeyImport (key : ZucPkey) (alg : PsaAlg) (usage : PsaKeyUsage) :
    Lawfully exportLaw S (pkeyImport key alg usage : Adapter O _) fun _ r S' =>
      r.1 = .ok → ∃ m, S' r.2 = some m ∧ m.1 = key.ptype := by
  refine Lawfully.bind (Lawfully.create fun _ => rfl) fun t r S₁ hcreate => Lawfully.pure fun hok => ?_
  obtain ⟨m, r', hS₁, -, hm⟩ := hcreate (zucIntFromPsa_eq_ok.mp hok)
  exact ⟨m, hS₁, hm⟩

/-- `zuc_pkey_public`, whose handles are public. -/
theorem lawfully_pkeyPublicImpl (key : Option ZucPkey) (out : Bool) :
    Lawfully exportLaw S (pkeyPublicImpl key out : Adapter O _) (HandsAs false) := by
  refine Lawfully.ite (fun _ => Lawfully.pure handsAs_none) fun _ => ?_
  cases key with
  | none => exact Lawfully.pure handsAs_none
  | some k =>
    refine Keyless.ready.then fun t ready => ?_
    refine Lawfully.ite (fun _ => Lawfully.pure handsAs_none) fun _ => ?_
    refine Lawfully.bind (lawfully_pkeyImport k .none .exportable) fun t' r S₁ himport => ?_
    refine Lawfully.ite (fun _ => Lawfully.pure handsAs_none) fun hok => ?_
    obtain ⟨m, hS₁, -⟩ := himport (not_not.mp hok)
    have hmade := lawfully_fromPsa_pure (O := O) hS₁ false
    rw [Bool.and_false] at hmade
    exact hmade.mono fun _ _ _ h => h.after.after

/-- What is read as a pair is kept as one where that is asked for, and a handle of the
wrong kind is freed. -/
theorem lawfully_parseImport (pk : O.Pk) (attr : PsaKeyAttributes) (isPair privateKey : Bool) :
    Lawfully exportLaw S (parseImport pk attr isPair privateKey) (HandsAs privateKey) := by
  refine Lawfully.bind (Lawfully.create fun _ => rfl) fun t r S₁ hcreate => ?_
  have hfree : Keyless (psa (.pkFree pk)) := .psa fun _ => rfl
  refine hfree.then fun t' _ => ?_
  refine Lawfully.ite (fun _ => Lawfully.pure handsAs_none) fun hsuccess => ?_
  obtain ⟨m, r, hS₁, -, -⟩ := hcreate (not_not.mp hsuccess)
  refine lawfully_fromPsa hS₁ _ fun t₁ key S₂ hkey hout => ?_
  obtain ⟨st, key⟩ := key
  cases key with
  | none => cases st <;> exact Lawfully.pure handsAs_none
  | some k =>
    have hmade := hkey k rfl
    have hkind : k.isPrivate = (m.1.isKeyPair && (privateKey && isPair)) := hmade.kind
    -- a handle that is kept is of the kind that was asked for
    have hkept : ¬ (privateKey = true ∧ k.isPrivate = false) → MadeAs privateKey t₁ k := by
      intro hnot
      have hsame : (m.1.isKeyPair && (privateKey && isPair)) = privateKey := by
        cases privateKey with
        | false => simp
        | true =>
          rw [← hkind]
          exact Bool.not_eq_false _ ▸ fun h => hnot ⟨rfl, h⟩
      rw [hsame] at hmade
      exact hmade
    cases st with
    | ok =>
      refine Lawfully.ite (fun _ => ?_) fun hnot => Lawfully.pure ?_
      · have hdestroy : Keyless (zucPkeyFree (some k) : Adapter O _) :=
          .bind (.bind (.perform fun _ => rfl) fun _ => .perform fun _ => rfl) fun _ => .count _
        exact hdestroy.then fun _ _ => Lawfully.pure handsAs_none
      · rintro key hk
        cases hk
        exact (hkept hnot).mono fun e he => by simp [he]
    | _ => cases hout.mpr rfl

/-- A reader that was asked for a private key, and succeeds, has read a pair. -/
theorem parseEither_isPair (src : List Byte) (privateKey : Bool) :
    Yields (parseEither src privateKey : Adapter O _) fun r =>
      r.1 = .success → privateKey = true → r.2.2 = true := by
  refine Yields.after fun r => Yields.ite (fun _ => Yields.pure fun _ _ => rfl) fun hr => ?_
  refine Yields.ite (fun _ => Yields.pure fun h => (hr h).elim) fun hpublic => ?_
  refine Yields.after fun _ => Yields.after fun r' => ?_
  exact Yields.ite (fun _ => Yields.pure fun _ h => (hpublic h).elim)
    fun _ => Yields.pure fun _ h => (hpublic h).elim

/-- What was parsed is imported by its type, and the parser's context freed. -/
theorem lawfully_parseDescribe (pk : O.Pk) (isPair privateKey : Bool)
    (hpair : privateKey = true → isPair = true) :
    Lawfully exportLaw S (parseDescribe pk isPair privateKey) (HandsAs privateKey) := by
  have hattr : Keyless (parseAttributes pk isPair) :=
    .bind (.psa fun _ => rfl) fun r => .ite (fun _ => .psa fun _ => rfl) fun _ => .pure _
  have hfree : Keyless (psa (.pkFree pk)) := .psa fun _ => rfl
  refine hattr.then fun t attr => Lawfully.ite (fun _ => ?_) fun _ => ?_
  · exact (lawfully_parseImport _ _ _ _).mono fun _ _ _ h => h.after
  cases isPair with
  | true =>
    show Lawfully exportLaw S (do
      psa (.pkFree pk)
      return (.errUnsupported, none) : Adapter O (ZucStatus × Option ZucPkey)) _
    exact hfree.then fun _ _ => Lawfully.pure handsAs_none
  | false =>
    -- what is not a pair is taken only where a public key was asked for
    obtain rfl : privateKey = false := Bool.eq_false_iff.mpr fun h => Bool.noConfusion (hpair h)
    have hbits : Keyless (psa (.pkGetBitlen pk)) := .psa fun _ => rfl
    have hx25519 : Keyless (do
        let bits ← psa (.pkGetBitlen pk)
        return decide (bits = 255) : Adapter O Bool) := hbits.bind fun _ => .pure _
    have hwrite : Keyless (psa (.pkWritePubkeyPsa pk 32)) := .psa fun _ => rfl
    refine hx25519.then fun t' x25519 => Lawfully.ite (fun _ => ?_) fun _ => ?_
    · refine hwrite.then fun t₂ raw => hfree.then fun t₃ _ => ?_
      refine Lawfully.ite (fun _ => Lawfully.pure handsAs_none) fun _ => ?_
      exact (lawfully_pkeyImportBytes _ _ _).mono fun _ _ _ h => h.after.after.after.after
    · exact hfree.then fun _ _ => Lawfully.pure handsAs_none

/-- Parsing, of a text or of DER. -/
theorem lawfully_parseSource (src : List Byte) (copy : Option HeapBytes) (privateKey : Bool) :
    Lawfully exportLaw S (parseSource src copy privateKey : Adapter O _) (HandsAs privateKey) := by
  have hread : Lawfully exportLaw S (parseEither src privateKey : Adapter O _) fun _ r _ =>
      r.1 = .success → privateKey = true → r.2.2 = true :=
    fun w => (parseEither_isPair src privateKey w).mono fun _ _ _ h _ _ => h
  have hcopy : Keyless (freeIf (fun c => freeBytes (c.buf.wipe c.len)) copy : Adapter O _) :=
    .freeIf (fun _ => .perform fun _ => rfl) copy
  refine hread.bind fun t r S₁ hr => hcopy.then fun t' _ => Lawfully.ite (fun _ => ?_) fun hok => ?_
  · have hfree : Keyless (psa (.pkFree r.2.1)) := .psa fun _ => rfl
    exact hfree.then fun _ _ => Lawfully.pure handsAs_none
  · refine (lawfully_parseDescribe _ _ _ (hr (not_not.mp hok))).mono fun _ _ _ h => h.after.after

/-- `zuc_pkey_parse`. -/
theorem lawfully_pkeyParseImpl (inp len : Nat) (privateKey out : Bool) :
    Lawfully exportLaw S (pkeyParseImpl inp len privateKey out : Adapter O _)
      (HandsAs privateKey) := by
  refine Lawfully.ite (fun _ => Lawfully.pure handsAs_none) fun _ => ?_
  refine Keyless.ready.then fun t ready => ?_
  refine Lawfully.ite (fun _ => Lawfully.pure handsAs_none) fun _ => ?_
  refine Lawfully.ite (fun _ => Lawfully.pure handsAs_none) fun _ => ?_
  refine (Keyless.readMem _ _).then fun t' bytes => Lawfully.ite (fun _ => ?_) fun _ => ?_
  · refine Lawfully.ite (fun _ => Lawfully.pure handsAs_none) fun _ => ?_
    refine (Keyless.mallocBytes _).then fun t₂ copy => ?_
    cases copy with
    | none => exact Lawfully.pure handsAs_none
    | some copy =>
      exact (lawfully_parseSource _ _ _).mono fun _ _ _ h => h.after.after.after
  · exact (lawfully_parseSource _ _ _).mono fun _ _ _ h => h.after.after

/-- The watch hands on what the implementation made. -/
theorem lawfully_watched {impl : Adapter O (ZucStatus × Option ZucPkey)} {isPrivate : Bool}
    (h : Lawfully exportLaw S impl (HandsAs isPrivate)) :
    Lawfully exportLaw S (watched impl) (HandsAs isPrivate) := by
  have hwatch : Keyless (zucIntAllocWatch : Adapter O _) := fun _ => Ensures.update_iff.mpr (by simp)
  have hmemory : ∀ st, Keyless (zucIntMemoryOr st : Adapter O _) :=
    fun st _ => Ensures.bind_iff.mpr (Ensures.read_iff.mpr (Ensures.pure_iff.mpr (by simp)))
  refine hwatch.then fun t _ => h.bind fun t' r S₁ hr => (hmemory r.1).then fun t₂ st => ?_
  exact Lawfully.pure fun key hkey => (hr key hkey).mono fun e he => by simp [he]

end

/-! ### Handles of a caller -/

/-- The kind of key that a constructor of keys is asked for. -/
def Command.makesPkey : Command → Option Bool
  | .pkeyParse _ _ privateKey _ => some privateKey
  | .pkeyGenerate .. => some true
  | .pkeyImport _ privateKey .. => some privateKey
  | .pkeyPublic .. => some false
  | _ => none

section
variable {pool : Pool O} {i j : Nat}

/-- Handles keep their places. -/
theorem Pool.pkey_append_left {key : ZucPkey} (h : pool.pkey i = some key)
    (slot : Option (LiveHandle O)) : Pool.pkey (pool ++ [slot]) i = some key := by
  have hhandle := Pool.handle_of_pkey key h
  have hlt : i < pool.length := by
    by_contra hge
    rw [Pool.handle, List.getElem?_eq_none (by omega)] at hhandle
    cases hhandle
  unfold Pool.pkey Pool.handle at h ⊢
  rw [List.getElem?_append_left hlt]
  exact h

/-- A new place holds what was put there. -/
theorem Pool.pkey_append {key : ZucPkey} {slot : Option (LiveHandle O)}
    (h : Pool.pkey (pool ++ [slot]) i = some key) :
    pool.pkey i = some key ∨ slot = some (.pkey key) := by
  have hhandle := Pool.handle_of_pkey key h
  rcases Nat.lt_or_ge i pool.length with hlt | hge
  · left
    unfold Pool.pkey Pool.handle at h ⊢
    rw [List.getElem?_append_left hlt] at h
    exact h
  · right
    unfold Pool.handle at hhandle
    rw [List.getElem?_append_right hge] at hhandle
    cases hsub : i - pool.length with
    | zero =>
      rw [hsub] at hhandle
      exact hhandle
    | succ n =>
      rw [hsub] at hhandle
      cases hhandle

/-- A change of one place is not seen at another. -/
theorem Pool.pkey_set_ne (h : j ≠ i) (slot : Option (LiveHandle O)) :
    Pool.pkey (List.set pool j slot) i = pool.pkey i := by
  unfold Pool.pkey Pool.handle
  rw [List.getElem?_set_ne h]

/-- At a place that does not hold a key, and is given nothing that does. -/
theorem Pool.pkey_set {slot : Option (LiveHandle O)} (hpool : pool.pkey j = none)
    (hslot : ∀ key, slot ≠ some (.pkey key)) : Pool.pkey (List.set pool j slot) i = pool.pkey i := by
  by_cases h : j = i
  · subst h
    rw [hpool]
    cases hkey : Pool.pkey (List.set pool j slot) j with
    | none => rfl
    | some key =>
      have hhandle := Pool.handle_of_pkey key hkey
      unfold Pool.handle at hhandle
      rw [List.getElem?_set_self'] at hhandle
      cases hget : pool[j]? with
      | none => rw [hget] at hhandle; cases hhandle
      | some old =>
        rw [hget] at hhandle
        exact (hslot key hhandle).elim
  · exact Pool.pkey_set_ne h slot

/-- A place that holds a handle of another kind holds no key. -/
theorem Pool.pkey_of_handle {h : LiveHandle O} (hi : pool.handle i = some h)
    (hh : ∀ key, h ≠ .pkey key) : pool.pkey i = none := by
  cases hkey : pool.pkey i with
  | none => rfl
  | some key =>
    have hhandle := Pool.handle_of_pkey key hkey
    rw [hi] at hhandle
    exact (hh key (Option.some.inj hhandle)).elim

end

/-- The key handles are the same, but for one that is freed. -/
def SamePkeys (pool : Pool O) (c : Command) (r : CallResult × Pool O) : Prop :=
  ∀ i, r.2.pkey i = pool.pkey i ∨ (c = .pkeyFree i ∧ r.2.pkey i = none)

section
variable {α : Type} {kind : α → LiveHandle O} {pool : Pool O} {c : Command} {i : Nat} {h : Option α}

/-- A function that is given no handle. -/
theorem samePkeys_plain {p : Adapter O ZucStatus} :
    Yields (Command.plain pool p) (SamePkeys pool c) :=
  Yields.after fun _ => Yields.pure fun _ => .inl rfl

/-- The same, with a length to report. -/
theorem samePkeys_plainCell {p : Adapter O (ZucStatus × SizeCell)} :
    Yields (Command.plainCell pool p) (SamePkeys pool c) :=
  Yields.after fun _ => Yields.pure fun _ => .inl rfl

/-- A constructor of another kind. -/
theorem samePkeys_constructor {p : Adapter O (ZucStatus × Option α)}
    (hkind : ∀ a key, kind a ≠ .pkey key) :
    Yields (Command.constructor kind pool p) (SamePkeys pool c) := by
  refine Yields.after fun r => Yields.pure fun j => .inl ?_
  cases hkey : pool.pkey j with
  | some key => exact Pool.pkey_append_left hkey _
  | none =>
    cases hnew : Pool.pkey (pool ++ [r.2.map kind]) j with
    | none => rfl
    | some key =>
      rcases Pool.pkey_append hnew with hold | hslot
      · rw [hkey] at hold
        cases hold
      · obtain ⟨a, -, ha⟩ := Option.map_eq_some_iff.mp hslot
        exact (hkind a key ha).elim

/-- A function that changes a handle of another kind. -/
theorem samePkeys_put {β : Type} {p : Adapter O β} {handle : β → Option α} {result : β → CallResult}
    (hkind : ∀ a key, kind a ≠ .pkey key)
    (hpool : ∀ a, h = some a → pool.handle i = some (kind a)) (hkeeps : Keeps h p handle) :
    Yields (do
      let r ← p
      return (result r, pool.put i ((handle r).map kind)) : Adapter O (CallResult × Pool O))
      (SamePkeys pool c) := by
  refine hkeeps.bind fun r hr => Yields.pure fun j => .inl ?_
  cases hhandle : handle r with
  | none => rfl
  | some b =>
    obtain ⟨a, ha⟩ := Option.isSome_iff_exists.mp (hr.symm.trans (by rw [hhandle]; rfl))
    have hnone : pool.pkey i = none := Pool.pkey_of_handle (hpool a ha) (hkind a)
    exact Pool.pkey_set hnone fun key hslot => hkind b key (Option.some.inj hslot)

/-- A function that frees a handle of another kind. -/
theorem samePkeys_free {p : Adapter O Unit} (hkind : ∀ a key, kind a ≠ .pkey key)
    (hpool : ∀ a, h = some a → pool.handle i = some (kind a)) :
    Yields (Command.free pool i h p) (SamePkeys pool c) := by
  refine Yields.after fun _ => Yields.pure fun j => .inl ?_
  cases h with
  | none => rfl
  | some a =>
    have hnone : pool.pkey i = none := Pool.pkey_of_handle (hpool a rfl) (hkind a)
    exact Pool.pkey_set hnone nofun

/-- Freeing a key takes that place's handle away. -/
theorem samePkeys_pkeyFree {p : Adapter O Unit} :
    Yields (Command.free pool i (pool.pkey i) p) (SamePkeys pool (.pkeyFree i)) := by
  refine Yields.after fun _ => Yields.pure fun j => ?_
  cases hkey : pool.pkey i with
  | none => exact .inl rfl
  | some key =>
    by_cases hij : i = j
    · subst hij
      refine .inr ⟨rfl, ?_⟩
      show Pool.pkey (List.set pool i none) i = none
      unfold Pool.pkey Pool.handle
      rw [List.getElem?_set_self']
      cases pool[i]? <;> rfl
    · exact .inl (Pool.pkey_set_ne hij none)

theorem hash_ne_pkey (h : ZucHash O) (key : ZucPkey) : LiveHandle.hash h ≠ .pkey key := nofun

theorem hmac_ne_pkey (h : ZucHmac O) (key : ZucPkey) : LiveHandle.hmac h ≠ .pkey key := nofun

theorem aes_ne_pkey (a : ZucAes) (key : ZucPkey) :
    (LiveHandle.aes a : LiveHandle O) ≠ .pkey key := nofun

/-- A command that makes no key handle leaves those there are. -/
theorem samePkeys_run (hc : c.makesPkey = none) : Yields (c.run pool) (SamePkeys pool c) := by
  cases c with
  | init => exact samePkeys_plain
  | shutdown => exact samePkeys_plain
  | store p bs => exact Yields.after fun _ => Yields.pure fun _ => .inl rfl
  | hashCompute => exact samePkeys_plainCell
  | hashNew => exact samePkeys_constructor hash_ne_pkey
  | hashUpdate => exact samePkeys_put hash_ne_pkey Pool.handle_of_hash (streamUpdate_keeps _ _ _ _)
  | hashFinish => exact samePkeys_put hash_ne_pkey Pool.handle_of_hash (streamFinish_keeps _ _ _ _ _)
  | hashReset => exact samePkeys_put hash_ne_pkey Pool.handle_of_hash (streamReset_keeps _ _)
  | hashFree => exact samePkeys_free hash_ne_pkey Pool.handle_of_hash
  | hmacCompute => exact samePkeys_plainCell
  | hmacNew => exact samePkeys_constructor hmac_ne_pkey
  | hmacUpdate => exact samePkeys_put hmac_ne_pkey Pool.handle_of_hmac (streamUpdate_keeps _ _ _ _)
  | hmacFinish => exact samePkeys_put hmac_ne_pkey Pool.handle_of_hmac (streamFinish_keeps _ _ _ _ _)
  | hmacReset => exact samePkeys_put hmac_ne_pkey Pool.handle_of_hmac (streamReset_keeps _ _)
  | hmacFree => exact samePkeys_free hmac_ne_pkey Pool.handle_of_hmac
  | aesNew => exact samePkeys_constructor aes_ne_pkey
  | aesSetState => exact samePkeys_put aes_ne_pkey Pool.handle_of_aes (zucAesCbcSetState_keeps _ _)
  | aesGetState => exact samePkeys_plain
  | aesCbcEncrypt => exact samePkeys_put aes_ne_pkey Pool.handle_of_aes (zucAesCbcEncrypt_keeps _ _ _ _)
  | aesCbcDecrypt => exact samePkeys_put aes_ne_pkey Pool.handle_of_aes (zucAesCbcDecrypt_keeps _ _ _ _)
  | aesFree => exact samePkeys_free aes_ne_pkey Pool.handle_of_aes
  | aeadEncrypt => exact samePkeys_plain
  | aeadDecrypt => exact samePkeys_plain
  | pbkdf2Hmac => exact samePkeys_plain
  | pkeyWrite => exact samePkeys_plainCell
  | pkeySignHash => exact samePkeys_plainCell
  | pkeyVerifyHash => exact samePkeys_plain
  | pkeyEncrypt => exact samePkeys_plainCell
  | pkeyDecrypt => exact samePkeys_plainCell
  | pkeyExport => exact samePkeys_plainCell
  | pkeyAgree => exact samePkeys_plainCell
  | pkeyFree i => exact samePkeys_pkeyFree
  | _ => cases hc

end

/-- A constructor adds the handle it was asked for, or `NULL`. -/
def HandsPkey (pool : Pool O) (isPrivate : Bool) (t : List (Event (Call O)))
    (r : CallResult × Pool O) : Prop :=
  ∃ slot : Option ZucPkey, r.2 = pool ++ [slot.map .pkey] ∧ HandsOut (r.1.status, slot) ∧
    ∀ key, slot = some key → MadeAs isPrivate t key

/-- A constructor's handle is put at a new place. -/
theorem handsPkey_constructor {S : KeyStore (PsaKeyType × Nat)} {pool : Pool O} {isPrivate : Bool}
    {p : Adapter O (ZucStatus × Option ZucPkey)} (hp : Lawfully exportLaw S p (HandsAs isPrivate))
    (hout : Yields p HandsOut) :
    Lawfully exportLaw S (Command.constructor .pkey pool p)
      fun t r _ => HandsPkey pool isPrivate t r := by
  refine (hp.yields hout).bind fun t r S₁ hr => Lawfully.pure ⟨r.2, rfl, hr.2, fun key hkey => ?_⟩
  rw [List.append_nil]
  exact hr.1 key hkey

/-- So it is with each constructor of keys. -/
theorem handsPkey_run {S : KeyStore (PsaKeyType × Nat)} {pool : Pool O} {c : Command}
    {isPrivate : Bool} (hc : c.makesPkey = some isPrivate) :
    Lawfully exportLaw S (c.run pool) fun t r _ => HandsPkey pool isPrivate t r := by
  cases c with
  | pkeyParse =>
    cases hc
    exact handsPkey_constructor (lawfully_watched (lawfully_pkeyParseImpl _ _ _ _))
      (watched_handsOut (pkeyParseImpl_handsOut _ _ _ _))
  | pkeyGenerate =>
    cases hc
    exact handsPkey_constructor (lawfully_watched (lawfully_pkeyGenerateImpl _ _ _))
      (watched_handsOut (pkeyGenerateImpl_handsOut _ _ _))
  | pkeyImport =>
    cases hc
    exact handsPkey_constructor (lawfully_watched (lawfully_pkeyImportImpl _ _ _ _ _))
      (watched_handsOut (pkeyImportImpl_handsOut _ _ _ _ _))
  | pkeyPublic =>
    cases hc
    exact handsPkey_constructor (lawfully_watched (lawfully_pkeyPublicImpl _ _))
      (watched_handsOut (pkeyPublicImpl_handsOut _ _))
  | _ => cases hc

/-- Every key handle is valid. -/
def ValidPool (pool : Pool O) : Prop := ∀ i key, pool.pkey i = some key → ValidPkey key

/-- One call keeps them so. -/
theorem validPool_run {S : KeyStore (PsaKeyType × Nat)} {pool : Pool O} (hpool : ValidPool pool)
    (c : Command) : Lawfully exportLaw S (c.run pool) fun _ r _ => ValidPool r.2 := by
  cases hc : c.makesPkey with
  | none =>
    refine fun w => (samePkeys_run hc w).mono fun t r _ hr S' _ i key hkey => ?_
    rcases hr i with hsame | ⟨-, hnone⟩
    · exact hpool i key (hsame ▸ hkey)
    · rw [hnone] at hkey
      cases hkey
  | some isPrivate =>
    refine (handsPkey_run hc).mono fun t r S' hr i key hkey => ?_
    obtain ⟨slot, hslot, -, hmade⟩ := hr
    rw [hslot] at hkey
    rcases Pool.pkey_append hkey with hold | hnew
    · exact hpool i key hold
    · obtain ⟨key', hkey', heq⟩ := Option.map_eq_some_iff.mp hnew
      cases heq
      exact (hmade _ hkey').valid

/-- One call after another keeps them so. -/
theorem validPool_session {S : KeyStore (PsaKeyType × Nat)} {pool : Pool O} (hpool : ValidPool pool)
    (cmds : List Command) :
    Lawfully exportLaw S (session pool cmds) fun _ r _ => ValidPool r.2 := by
  induction cmds generalizing pool S with
  | nil => exact Lawfully.pure hpool
  | cons c cmds ih =>
    refine (validPool_run hpool c).bind fun t r S₁ hr => ?_
    exact (ih hr).bind fun t' rs S₂ hrs => Lawfully.pure hrs

/-- In every session, every key handle is valid, a constructor hands out the handle it was
asked for exactly when it returns `ZUC_OK`, and every other call leaves the handles as
they are, but for one it frees. -/
theorem pkey_handles_invariant (S : KeyStore (PsaKeyType × Nat)) (cmds : List Command) :
    Lawfully exportLaw S (session ([] : Pool O) cmds) fun _ rs S₁ =>
      ValidPool rs.2 ∧ ∀ c : Command,
        (∀ isPrivate, c.makesPkey = some isPrivate →
          Lawfully exportLaw S₁ (c.run rs.2) fun t r _ => HandsPkey rs.2 isPrivate t r) ∧
        (c.makesPkey = none → Yields (c.run rs.2) (SamePkeys rs.2 c)) := by
  have hempty : ValidPool ([] : Pool O) := by
    intro i key hkey
    cases Pool.handle_of_pkey key hkey
  refine (validPool_session hempty cmds).mono fun t rs S₁ hvalid => ⟨hvalid, fun c => ⟨?_, ?_⟩⟩
  · exact fun isPrivate hc => handsPkey_run hc
  · exact fun hc => samePkeys_run hc

end Zucrypt
