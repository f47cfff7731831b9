import Zucrypt.KeyTheory
import Zucrypt.PkeyEncoding

/-! # The constructors, in terms of keys

Whatever a constructor hands out loads a key (`HandsSound`).  Of an RSA key, the importer and the
reader hand out exactly that key, or refuse it for being longer than the buffer it is exported into
(`HandsHalf`); the public half of any key is made in the same way.

Both are needed.  The first is of every handle a caller can have, whatever it was made from, and is
what the invariant of handles rests on.  The second says when a key is taken, and so it is asked
only where the bytes are an RSA key's: from there the range of RSA keys is read off. -/
namespace Zucrypt
open Effects ByteMemory

variable {O : Objects} {T : KeyTheory O} {L : StoreLaw O StoredKey} {w : World}
  {S : KeyStore StoredKey}

/-- A constructor that only hands out handles that load a key. -/
def Sound (T : KeyTheory O) (w : World) (r : ZucStatus × Option ZucPkey) (w' : World)
    (_ : KeyStore StoredKey) : Prop := SameButCount w w' ∧ HandsSound T r

theorem sound_none {st : ZucStatus} : Sound T w (st, none) w S := ⟨.refl w, handsSound_none⟩

/-! ### Import and generation -/

/-- What `pkey_import_bytes` asks for. -/
def importType (type : ZucAlg) (privateKey : Bool) : PsaKeyType :=
  if privateKey then (if type = .rsa then .rsaKeyPair else (ecPairType type).1)
  else (if type = .rsa then PsaKeyType.rsaKeyPair else (ecPairType type).1).publicKey

theorem meets_pkeyImportBytes_sound (hL : L.Implies T.law) (type : ZucAlg) (privateKey : Bool)
    (data : List Byte) : Meets L w S (pkeyImportBytes type privateKey data) (Sound T w) := by
  refine Meets.ite (fun _ => Meets.pure sound_none) fun _ => ?_
  refine Meets.bind (Meets.create (fun _ => rfl) (fun r m hr hm => ?_) fun r hr _ => ?_)
  · obtain ⟨hread, -, husage⟩ := hL.makes _ _ hm
    have hkey : T.Genuine m.key := by
      rw [KeyTheory.Genuine, T.read_type hread]
      exact T.read_material hread
    refine Meets.neg (not_not.mpr hr) ?_
    refine meets_fromPsa hL (Function.update_self _ _ _) hkey (by simp [husage]) privateKey ?_
    exact fun r' w' S' hw hr' => Meets.pure ⟨hw, hr'.sound⟩
  · exact Meets.pos hr (Meets.pure sound_none)

theorem meets_pkeyImportImpl_sound (hL : L.Implies T.law) (type : ZucAlg) (privateKey : Bool)
    (data len : Nat) (out : Bool) :
    Meets L w S (pkeyImportImpl type privateKey data len out) (Sound T w) := by
  refine Meets.ite (fun _ => Meets.pure sound_none) fun _ => Meets.bind (Meets.ready ?_)
  refine Meets.ite (fun _ => Meets.pure sound_none) fun _ => ?_
  refine Meets.ite (fun _ => Meets.pure sound_none) fun _ => Meets.bind (Meets.readMem ?_)
  exact meets_pkeyImportBytes_sound hL type privateKey _

theorem meets_pkeyGenerateImpl_sound (hL : L.Implies T.law) (type : ZucAlg) (bits : Nat) (out : Bool) :
    Meets L w S (pkeyGenerateImpl type bits out) (Sound T w) := by
  refine Meets.ite (fun _ => Meets.pure sound_none) fun _ => Meets.bind (Meets.ready ?_)
  refine Meets.ite (fun _ => Meets.pure sound_none) fun _ => ?_
  refine Meets.ite (fun _ => Meets.pure sound_none) fun _ => ?_
  refine Meets.ite (fun _ => Meets.pure sound_none) fun _ => ?_
  refine Meets.ite (fun _ => Meets.pure sound_none) fun _ => ?_
  refine Meets.ite (fun _ => Meets.pure sound_none) fun _ => ?_
  refine Meets.bind (Meets.create (fun _ => rfl) (fun r m hr hm => ?_) fun r hr _ => ?_)
  · obtain ⟨hkey, -, -, husage⟩ := hL.makes _ _ hm
    refine Meets.neg (not_not.mpr hr) ?_
    refine meets_fromPsa hL (Function.update_self _ _ _) hkey (by simp [husage]) true ?_
    exact fun r' w' S' hw hr' => Meets.pure ⟨hw, hr'.sound⟩
  · exact Meets.pos hr (Meets.pure sound_none)

/-- An RSA key is imported as it is, whole or not at all. -/
theorem meets_pkeyImportImpl_rsa (hL : L.Implies T.law) {privateKey : Bool} {data len : Nat}
    {key : RefKey} (hready : 0 < w.refcount) (hdata : data ≠ NULL) (hlen : len ≠ 0)
    (hread : T.read (importType .rsa privateKey) (read w.mem data len) = some key) :
    Meets L w S (pkeyImportImpl .rsa privateKey data len true) fun r w' _ =>
      SameButCount w w' ∧ HandsHalf T key privateKey r := by
  refine Meets.neg (by simp) (Meets.bind (Meets.ready ?_))
  refine Meets.neg (by simp [hready]) (Meets.neg (by simp [hdata, hlen]) ?_)
  have havailable : ¬ (zucAlgAvailable .rsa = false ∨ PsaKeyType.rsaKeyPair = .none) := by decide
  refine Meets.bind (Meets.readMem ?_)
  simp only [pkeyImportBytes, if_true]
  refine Meets.neg havailable ?_
  have hkey : T.Genuine key := by
    rw [KeyTheory.Genuine, T.read_type hread]
    exact T.read_material hread
  refine Meets.bind (Meets.create (fun _ => rfl) (fun r m hr hm => ?_) fun r hr helse => ?_)
  · obtain ⟨hread', -, husage⟩ := hL.makes _ _ hm
    obtain rfl : m.key = key := Option.some.inj (hread'.symm.trans hread)
    refine Meets.neg (not_not.mpr hr) ?_
    refine meets_fromPsa hL (Function.update_self _ _ _) hkey (by simp [husage]) privateKey ?_
    exact fun r' w' S' hw hr' => Meets.pure ⟨hw, hr'⟩
  · exact absurd rfl (hL.elsewhere _ helse key hread).1

/-! ### The public half -/

theorem half_false (T : KeyTheory O) (key : RefKey) : T.half key false = T.publicHalf key := by
  rw [KeyTheory.half, Bool.and_false, if_neg (by simp)]

/-- The public half of a handle's key. -/
theorem meets_pkeyPublicImpl (hL : L.Implies T.law) {handle : ZucPkey} {key : RefKey}
    (h : Loads T handle key) (hready : 0 < w.refcount) :
    Meets L w S (pkeyPublicImpl (some handle) true) fun r w' _ =>
      SameButCount w w' ∧ HandsKey T (T.publicHalf key) r := by
  refine Meets.neg (by simp) (Meets.bind (Meets.ready ?_))
  refine Meets.neg (by simp [hready]) ?_
  refine (meets_pkeyImport hL h .none .exportable).andThen fun r w' S' hr => ?_
  obtain ⟨hok, rfl, hS⟩ := hr
  refine Meets.neg (not_not.mpr hok) ?_
  refine meets_fromPsa hL hS h.genuine (by simp) false fun r' w' S' hw hr' => Meets.pure ⟨hw, ?_⟩
  have hknown : algOfPsa key.type key.bits ≠ .none := h.type ▸ h.known
  rw [HandsHalf, if_neg hknown, half_false] at hr'
  exact hr'

theorem meets_pkeyPublicImpl_sound (hL : L.Implies T.law) {handle : ZucPkey} {key : RefKey}
    (h : Loads T handle key) (out : Bool) :
    Meets L w S (pkeyPublicImpl (some handle) out) (Sound T w) := by
  cases out with
  | false => exact Meets.pos rfl (Meets.pure sound_none)
  | true =>
    by_cases hready : 0 < w.refcount
    · exact (meets_pkeyPublicImpl hL h hready).mono fun r w' S' hr => ⟨hr.1, hr.2.sound⟩
    · refine Meets.neg (by simp) (Meets.bind (Meets.ready ?_))
      exact Meets.pos (by simp [hready]) (Meets.pure sound_none)

/-! ### Key files -/

theorem meets_parseImport_sound (hL : L.Implies T.law) (pk : O.Pk) (attr : PsaKeyAttributes)
    (isPair privateKey : Bool) : Meets L w S (parseImport pk attr isPair privateKey) (Sound T w) := by
  refine Meets.bind (Meets.create (fun _ => rfl) (fun r m hr hm => ?_) fun r hr _ => ?_)
  · obtain ⟨hkey, -, -, husage, -⟩ := hL.makes _ _ hm
    refine Meets.bind (Meets.elsewhere (fun _ => rfl) fun _ _ => Meets.neg (not_not.mpr hr) ?_)
    refine meets_fromPsa hL (Function.update_self _ _ _) hkey (by simp [husage]) _ ?_
    intro r' w' S' hw hr'
    obtain ⟨st, made⟩ := r'
    have hsound : Sound T w (st, made) w' S' := ⟨hw, hr'.sound⟩
    cases made with
    | none => cases st <;> exact Meets.pure hsound
    | some k =>
      cases st with
      | ok =>
        refine Meets.ite (fun _ => ?_) fun _ => Meets.pure hsound
        refine Meets.bind (Meets.bind (Meets.bind (Meets.freeBytes (Meets.freeRecord ?_))))
        refine Meets.liveAdd (Meets.pure ⟨⟨hw.mem, hw.refcount, hw.allocFailed⟩, handsSound_none⟩)
      | _ => exact Meets.pure hsound
  · refine Meets.bind (Meets.elsewhere (fun _ => rfl) fun _ _ => ?_)
    exact Meets.pos hr (Meets.pure sound_none)

theorem meets_parseAttributes (pk : O.Pk) (isPair : Bool)
    {Q : PsaStatus × PsaKeyAttributes → World → KeyStore StoredKey → Prop} (h : ∀ r, Q r w S) :
    Meets L w S (parseAttributes pk isPair) Q := by
  refine Meets.bind (Meets.elsewhere (fun _ => rfl) fun r _ => ?_)
  exact Meets.ite (fun _ => Meets.elsewhere (fun _ => rfl) fun r' _ => h _) fun _ => Meets.pure (h _)

theorem meets_parseDescribe_sound (hL : L.Implies T.law) (pk : O.Pk) (isPair privateKey : Bool) :
    Meets L w S (parseDescribe pk isPair privateKey) (Sound T w) := by
  refine Meets.bind (meets_parseAttributes pk isPair fun r => ?_)
  refine Meets.ite (fun _ => meets_parseImport_sound hL pk _ _ _) fun _ => ?_
  have hrest : ∀ x25519 : Bool, Meets L w S (if x25519 = true then do
        let raw ← psa (.pkWritePubkeyPsa pk 32)
        psa (.pkFree pk)
        if raw.1 ≠ .success ∨ raw.2.len ≠ 32 then
          return (.errUnsupported, none)
        else
          pkeyImportBytes .x25519 false (raw.2.bytes.take 32)
      else do
        psa (.pkFree pk)
        return (.errUnsupported, none) : Adapter O (ZucStatus × Option ZucPkey)) (Sound T w) := by
    intro x25519
    refine Meets.ite (fun _ => ?_) fun _ => ?_
    · refine Meets.bind (Meets.elsewhere (fun _ => rfl) fun raw _ => ?_)
      refine Meets.bind (Meets.elsewhere (fun _ => rfl) fun _ _ => ?_)
      refine Meets.ite (fun _ => Meets.pure sound_none) fun _ => ?_
      exact meets_pkeyImportBytes_sound hL _ _ _
    · refine Meets.bind (Meets.elsewhere (fun _ => rfl) fun _ _ => Meets.pure sound_none)
  cases isPair with
  | true => exact Meets.bind (Meets.pos rfl (Meets.pure (hrest false)))
  | false =>
    refine Meets.bind (Meets.neg (by simp) (Meets.bind ?_))
    exact Meets.elsewhere (fun _ => rfl) fun bits _ => Meets.pure (hrest _)

theorem meets_parseEither_sound (src : List Byte) (privateKey : Bool) :
    Meets L w S (parseEither src privateKey) fun _ w' S' => w' = w ∧ S' = S := by
  refine Meets.bind (Meets.elsewhere (fun _ => rfl) fun r _ => ?_)
  refine Meets.ite (fun _ => Meets.pure ⟨rfl, rfl⟩) fun _ => ?_
  refine Meets.ite (fun _ => Meets.pure ⟨rfl, rfl⟩) fun _ => ?_
  refine Meets.bind (Meets.elsewhere (fun _ => rfl) fun _ _ => ?_)
  refine Meets.bind (Meets.elsewhere (fun _ => rfl) fun r' _ => ?_)
  exact Meets.ite (fun _ => Meets.pure ⟨rfl, rfl⟩) fun _ => Meets.pure ⟨rfl, rfl⟩

theorem meets_freeCopy (copy : Option HeapBytes) {Q : Unit → World → KeyStore StoredKey → Prop}
    (h : Q () w S) :
    Meets L w S (freeIf (fun c : HeapBytes => freeBytes (c.buf.wipe c.len)) copy) Q := by
  cases copy with
  | none => exact Meets.pure h
  | some c => exact Meets.freeBytes h

theorem meets_parseSource_sound (hL : L.Implies T.law) (src : List Byte) (copy : Option HeapBytes)
    (privateKey : Bool) : Meets L w S (parseSource src copy privateKey) (Sound T w) := by
  refine (meets_parseEither_sound src privateKey).andThen fun r w₁ S₁ hsame => ?_
  obtain ⟨rfl, rfl⟩ := hsame
  refine Meets.bind (meets_freeCopy copy (Meets.ite (fun _ => ?_) fun _ => ?_))
  · exact Meets.bind (Meets.elsewhere (fun _ => rfl) fun _ _ => Meets.pure sound_none)
  · exact meets_parseDescribe_sound hL _ _ _

theorem meets_pkeyParseImpl_sound (hL : L.Implies T.law) (inp len : Nat) (privateKey out : Bool) :
    Meets L w S (pkeyParseImpl inp len privateKey out) (Sound T w) := by
  refine Meets.ite (fun _ => Meets.pure sound_none) fun _ => Meets.bind (Meets.ready ?_)
  refine Meets.ite (fun _ => Meets.pure sound_none) fun _ => ?_
  refine Meets.ite (fun _ => Meets.pure sound_none) fun _ => Meets.bind (Meets.readMem ?_)
  refine Meets.ite (fun _ => ?_) fun _ => meets_parseSource_sound hL _ _ _
  refine Meets.ite (fun _ => Meets.pure sound_none) fun _ => ?_
  exact Meets.bind (Meets.mallocBytes fun p => meets_parseSource_sound hL _ _ _)

/-! ### Key files of RSA keys -/

/-- The reader finds the key in the file, as what it is. -/
theorem meets_parseEither (hL : L.Implies T.law) {src : List Byte} {key : RefKey} {privateKey : Bool}
    (hfile : T.readFile src = some key) (hkind : privateKey = true → key.type.isKeyPair = true) :
    Meets L w S (parseEither src privateKey) fun r w' S' =>
      w' = w ∧ S' = S ∧ r.1 = .success ∧ T.held r.2.1 = some key ∧ r.2.2 = key.type.isKeyPair := by
  have hread : ∀ pair, T.readKind pair src = if key.type.isKeyPair = pair then some key else none := by
    intro pair
    rw [KeyTheory.readKind, hfile, Option.filter_some]
    simp
  refine Meets.bind (Meets.elsewhere (fun _ => rfl) fun r hr => ?_)
  have hr : T.ReadsAs (T.readKind true src) r.answer := hL.elsewhere _ hr
  rw [hread] at hr
  by_cases hpair : key.type.isKeyPair = true
  · rw [if_pos hpair] at hr
    exact Meets.pos hr.1 (Meets.pure ⟨rfl, rfl, hr.1, hr.2, hpair.symm⟩)
  · rw [if_neg hpair] at hr
    refine Meets.neg hr (Meets.neg (fun hprivate => hpair (hkind hprivate)) ?_)
    refine Meets.bind (Meets.elsewhere (fun _ => rfl) fun _ _ => ?_)
    refine Meets.bind (Meets.elsewhere (fun _ => rfl) fun r' hr' => ?_)
    have hr' : T.ReadsAs (T.readKind false src) r'.answer := hL.elsewhere _ hr'
    rw [hread, if_pos (Bool.not_eq_true _ ▸ hpair)] at hr'
    refine Meets.neg (fun hfail => hfail.1 hr'.1) (Meets.pure ⟨rfl, rfl, hr'.1, hr'.2, ?_⟩)
    simpa using hpair

theorem meets_parseAttributes_rsa (hL : L.Implies T.law) {pk : O.Pk} {key : RefKey}
    (hheld : T.held pk = some key) (hrsa : key.type.isRsa = true) :
    Meets L w S (parseAttributes pk key.type.isKeyPair) fun r w' S' =>
      w' = w ∧ S' = S ∧ r.1 = .success ∧ r.2.type = key.type := by
  refine Meets.bind (Meets.elsewhere (fun _ => rfl) fun r hr => ?_)
  obtain ⟨htype, hok⟩ := hL.elsewhere _ hr key hheld
  have hsuccess := hok hrsa rfl
  refine Meets.neg (fun hretry => hretry.1 hsuccess) (Meets.pure ?_)
  exact ⟨rfl, rfl, hsuccess, htype hsuccess⟩

theorem half_and (T : KeyTheory O) (key : RefKey) (wantPrivate : Bool) :
    T.half key (wantPrivate && key.type.isKeyPair) = T.half key wantPrivate := by
  unfold KeyTheory.half
  cases key.type.isKeyPair <;> simp

theorem meets_parseImport_rsa (hL : L.Implies T.law) {pk : O.Pk} {key : RefKey} {privateKey : Bool}
    {attr : PsaKeyAttributes} (hheld : T.held pk = some key) (hkey : T.Genuine key)
    (hattr : attr.type = key.type) (hkind : privateKey = true → key.type.isKeyPair = true) :
    Meets L w S (parseImport pk attr key.type.isKeyPair privateKey) fun r w' _ =>
      SameButCount w w' ∧ HandsHalf T key privateKey r := by
  refine Meets.bind (Meets.create (fun _ => rfl) (fun r m hr hm => ?_) fun r hr helse => ?_)
  · obtain ⟨-, -, -, husage, hsame⟩ := hL.makes _ _ hm
    obtain rfl : m.key = key := hsame key hheld hattr.symm
    refine Meets.bind (Meets.elsewhere (fun _ => rfl) fun _ _ => Meets.neg (not_not.mpr hr) ?_)
    refine meets_fromPsa hL (Function.update_self _ _ _) hkey (by simp [husage]) _ ?_
    intro r' w' S' hw hr'
    rw [HandsHalf, half_and] at hr'
    have hresult : SameButCount w w' ∧ HandsHalf T m.key privateKey r' := ⟨hw, hr'⟩
    unfold HandsKey at hr'
    split at hr'
    · rw [hr'] at hresult ⊢
      exact Meets.pure hresult
    · split at hr'
      · obtain ⟨handle, rfl, hloads⟩ := hr'
        refine Meets.neg ?_ (Meets.pure hresult)
        rintro ⟨hprivate, hpublic⟩
        have hhandle := hloads.kind
        rw [half_type, hkind hprivate, hprivate, hpublic] at hhandle
        exact absurd hhandle (by simp)
      · rw [hr'] at hresult ⊢
        exact Meets.pure hresult
  · exact absurd hkey (hL.elsewhere _ helse key hheld hattr.symm)

theorem meets_parseSource_rsa (hL : L.Implies T.law) {src : List Byte} {key : RefKey}
    {privateKey : Bool} (copy : Option HeapBytes) (hfile : T.readFile src = some key)
    (hkey : T.Genuine key) (hrsa : key.type.isRsa = true)
    (hkind : privateKey = true → key.type.isKeyPair = true) :
    Meets L w S (parseSource src copy privateKey) fun r w' _ =>
      SameButCount w w' ∧ HandsHalf T key privateKey r := by
  refine (meets_parseEither hL hfile hkind).andThen fun r w₁ S₁ hr => ?_
  obtain ⟨rfl, rfl, hsuccess, hheld, hpair⟩ := hr
  refine Meets.bind (meets_freeCopy copy (Meets.neg (not_not.mpr hsuccess) ?_))
  rw [hpair]
  refine (meets_parseAttributes_rsa hL hheld hrsa).andThen fun attr w₂ S₂ hattr => ?_
  obtain ⟨rfl, rfl, hdescribed, htype⟩ := hattr
  exact Meets.pos hdescribed (meets_parseImport_rsa hL hheld hkey htype hkind)

/-- What the reader is given: PEM with a NUL behind it, and DER as it is. -/
def readerInput (bytes : List Byte) : List Byte :=
  if looksLikePem bytes then bytes ++ [0] else bytes

theorem pemCopy_bytes (p : Nat) {bytes : List Byte} {len : Nat} (hlen : bytes.length = len) :
    HeapBytes.bytes ⟨((HeapBuf.fresh p (len + 1)).store 0 bytes).store len [0], len + 1⟩ =
      bytes ++ [0] := by
  subst hlen
  have hwrites := ((Writes.put bytes).andThen (Writes.put [0])).fresh p
  rw [List.length_append] at hwrites
  have hbuf := congrArg Cursor.buf hwrites
  simp only [Cursor.put, Nat.zero_add] at hbuf
  have hcopy : (⟨((HeapBuf.fresh p (bytes.length + 1)).store 0 bytes).store bytes.length [0],
      bytes.length + 1⟩ : HeapBytes) = HeapBytes.holding p (bytes ++ [0]) := by
    rw [HeapBytes.holding, HeapBytes.mk.injEq]
    exact ⟨hbuf, by simp⟩
  rw [hcopy, HeapBytes.bytes_holding]

/-- The key in a file is read as it is, whole or not at all. -/
theorem meets_pkeyParseImpl_rsa (hL : L.Implies T.law) {inp len : Nat} {key : RefKey}
    {privateKey : Bool} (hready : 0 < w.refcount) (hinp : inp ≠ NULL) (hlen : len ≠ 0)
    (hnul : looksLikePem (read w.mem inp len) = true → (0 : Byte) ∉ read w.mem inp len)
    (hfile : T.readFile (readerInput (read w.mem inp len)) = some key) (hkey : T.Genuine key)
    (hrsa : key.type.isRsa = true) (hkind : privateKey = true → key.type.isKeyPair = true) :
    Meets L w S (pkeyParseImpl inp len privateKey true) fun r w' _ =>
      SameButCount w w' ∧ HandsHalf T key privateKey r := by
  refine Meets.neg (by simp) (Meets.bind (Meets.ready ?_))
  refine Meets.neg (by simp [hready]) (Meets.neg (by simp [hinp, hlen]) ?_)
  refine Meets.bind (Meets.readMem ?_)
  by_cases hpem : looksLikePem (read w.mem inp len) = true
  · rw [readerInput, if_pos hpem] at hfile
    refine Meets.pos hpem (Meets.neg (hnul hpem) (Meets.bind (Meets.mallocBytes fun p => ?_)))
    refine meets_parseSource_rsa hL _ ?_ hkey hrsa hkind
    rw [pemCopy_bytes p (length_read _ _ _)]
    exact hfile
  · rw [readerInput, if_neg hpem] at hfile
    exact Meets.neg hpem (meets_parseSource_rsa hL none hfile hkey hrsa hkind)

end Zucrypt
