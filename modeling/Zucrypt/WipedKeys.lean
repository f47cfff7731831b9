import Zucrypt.PkeyEncoding
import Zucrypt.MemoryReports
import Zucrypt.NoLeak
import Zucrypt.Wiping

/-! # Key material is wiped before it is released

Private key bytes pass through a handle's material, the copy of a PEM text, the buffers the private
encodings are built in, and the hash of an HMAC key.  Each of them is all zero when it is freed or
goes out of scope, on every path: `tidy_session` is that for any calls, with a backend that may fail
anywhere.  A handle that is alive is `SafeKey`: to wipe its length is to wipe its block.

`private_material_wiped` says of the trace of a session that every `free` of a block of bytes is of
one that is all zero, or of a `PublicBlock`: one that holds nothing but what the backend exported as
a public half, and what was computed from that.  Which of the two a block is goes by where its bytes
came from in this trace, not by what they are.  Arrays of the adapter that go out of scope are all
zero.  Its second part is of the caller's buffer after a `zuc_pkey_write` that failed: each byte is
what it was, or zero.

Blocks are wiped at the length that was exported, and freed at the length they were allocated with.
So something has to be known of what lies between, and that is `ExportsPadded`: `psa_export_key`
fills the rest of the buffer with zeros, as `psa_crypto.c` does when it succeeds.  Nothing else is
assumed, of the backend or of the allocator. -/
namespace Zucrypt
open Effects ByteMemory

variable {O : Objects} {T : List (Event (Call O))}

/-! ### Handles -/

/-- What the functions rely on when they release a handle's material, or copy it. -/
structure SafeKey (T : List (Event (Call O))) (key : ZucPkey) : Prop where
  held : key.isPrivate = true → key.der.ZeroPast
  shown : key.isPrivate = false → PublicBlock T key.der.buf

/-- A key that has been wiped is released as zeros, or was public. -/
theorem SafeKey.released {key : ZucPkey} (h : SafeKey T key) :
    (key.der.buf.wipe key.der.len).Wiped ∨ PublicBlock T (key.der.buf.wipe key.der.len) := by
  cases hprivate : key.isPrivate with
  | true => exact .inl (h.held hprivate).wiped
  | false => exact .inr ((h.shown hprivate).wipe _)

/-- A result that holds a handle, if any, that is safe. -/
def SafeResult (T : List (Event (Call O))) (r : ZucStatus × Option ZucPkey) : Prop :=
  ∀ k, r.2 = some k → SafeKey T k

/-- No handle is a safe one. -/
theorem safeResult_none (st : ZucStatus) : SafeResult T (st, none) := nofun

/-- Freeing a handle wipes its material first. -/
theorem tidy_zucPkeyFree {key : Option ZucPkey} (h : ∀ k, key = some k → SafeKey T k) :
    Tidy T (zucPkeyFree key : Adapter O _) fun _ => True := by
  cases key with
  | none => exact .pure trivial
  | some k =>
    refine .after (.after (.freeBytes (h k rfl).released) fun _ => ?_) fun _ => (Discreet.count _).tidy
    exact (discreet_freeRecord _ _).tidy

/-- A fresh block, and what was exported into it. -/
theorem zeroPast_exported {p cap len : Nat} {bytes : List Byte}
    (hpad : ∀ b ∈ (bytes.take cap).drop len, b = 0) :
    HeapBytes.ZeroPast ⟨(HeapBuf.fresh p cap).store 0 (bytes.take cap), len⟩ := by
  intro c hc
  have hcells : ((HeapBuf.fresh p cap).store 0 (bytes.take cap)).cells =
      (bytes.take cap).map some ++ (List.replicate cap none).drop (bytes.take cap).length := by
    have hlen : ((bytes.take cap).map some).length ≤ cap := by
      rw [List.length_map, List.length_take]
      omega
    simp only [HeapBuf.store, HeapBuf.fresh, List.take_zero, List.nil_append, List.length_replicate,
      Nat.sub_zero, Nat.zero_add, List.take_of_length_le hlen]
  rw [hcells, List.drop_append, List.mem_append] at hc
  rcases hc with hc | hc
  · rw [← List.map_drop] at hc
    obtain ⟨b, hb, rfl⟩ := List.mem_map.mp hc
    exact .inr (congrArg some (hpad b hb))
  · exact .inl (List.eq_of_mem_replicate (List.mem_of_mem_drop (List.mem_of_mem_drop hc)))

/-- The result of `pkey_from_psa`: only a private handle is made where one is wanted. -/
def MadeSafe (T : List (Event (Call O))) (wantPrivate : Bool) (r : ZucStatus × Option ZucPkey) : Prop :=
  ∀ k, r.2 = some k → SafeKey T k ∧ (wantPrivate = false → k.isPrivate = false)

/-- A handle that was not made is safe. -/
theorem madeSafe_none (wantPrivate : Bool) (st : ZucStatus) : MadeSafe T wantPrivate (st, none) := by
  intro k hk
  cases hk

/-- The block a key is exported into becomes a handle's, or is wiped and freed. -/
theorem tidy_pkeyFromPsa (id : KeyId) (wantPrivate : Bool) :
    Tidy T (pkeyFromPsa id wantPrivate : Adapter O _) (MadeSafe T wantPrivate) := by
  have hnone := madeSafe_none (T := T) wantPrivate
  refine .after (.psa fun _ _ _ => trivial) fun attr => ?_
  refine .ite (fun _ => .pure (hnone _)) fun _ => .ite (fun _ => .pure (hnone _)) fun _ => ?_
  dsimp only
  generalize hpair : (attr.2.type.isKeyPair && wantPrivate) = isPair
  generalize (if isPair = true then psaExportKeyOutputSize attr.2.type attr.2.bits
    else psaExportPublicKeyOutputSize attr.2.type attr.2.bits) = cap
  refine .after (discreet_callocRecord _).tidy fun self => .bind (.mallocBytes cap) fun buf hbuf => ?_
  have hfresh : ∀ b, buf = some b → b.Wiped := fun b hb => by
    obtain ⟨p, rfl⟩ := hbuf b hb
    exact HeapBuf.wiped_fresh p cap
  have hfreeBuf : Tidy T (freeIf freeBytes buf : Adapter O _) fun _ => True := by
    cases buf with
    | none => exact .pure trivial
    | some b => exact .freeBytes (.inl (hfresh b rfl))
  cases self with
  | none => exact .after (.pure trivial) fun _ => .after hfreeBuf fun _ => .pure (hnone _)
  | some self =>
    cases buf with
    | none =>
      exact .after (discreet_freeRecord _ _).tidy fun _ => .after hfreeBuf fun _ => .pure (hnone _)
    | some buf =>
      obtain ⟨p, rfl⟩ := hbuf buf rfl
      -- the wipe of a failed export covers the block, whatever is in it
      have hfailed : ∀ r : PsaStatus × Output, Tidy T (do
          freeBytes (((HeapBuf.fresh p cap).store 0 (r.2.bytes.take cap)).wipe cap)
          freeRecord .zucPkey self
          return (zucIntFromPsa r.1, none) : Adapter O _) (MadeSafe T wantPrivate) := fun r => by
        have hsize : ((HeapBuf.fresh p cap).store 0 (r.2.bytes.take cap)).size ≤ cap :=
          Nat.le_trans (HeapBuf.size_store_le _ _ _) (Nat.le_of_eq (HeapBuf.size_fresh p cap))
        refine .after (.freeBytes (.inl ?_)) fun _ => .after (discreet_freeRecord _ _).tidy fun _ =>
          .pure (hnone _)
        exact (HeapBytes.zeroPast_of_size_le (d := ⟨_, cap⟩) hsize).wiped
      cases isPair with
      | true =>
        rw [if_pos rfl]
        have hexport : Tidy T (psa (.exportKey id cap)) fun r =>
            r.1 = .success → ∀ b ∈ (r.2.bytes.take cap).drop r.2.len, b = 0 :=
          .psa fun r _ hpad => hpad
        refine hexport.bind fun r hpad => ?_
        refine .ite (fun _ => hfailed r) fun hsuccess => .after (Discreet.count _).tidy fun _ => ?_
        refine .pure ?_
        rintro k ⟨⟩
        refine ⟨⟨fun _ => zeroPast_exported (hpad (not_not.mp hsuccess)), nofun⟩, fun hwant => ?_⟩
        rw [hwant, Bool.and_false] at hpair
        exact nomatch hpair
      | false =>
        rw [if_neg nofun]
        have hexport : Tidy T (psa (.exportPublicKey id cap)) fun r =>
            PublicData T (r.2.bytes.take cap) :=
          .psa fun r hr _ => .exported id cap r hr
        refine hexport.bind fun r hpublic => ?_
        refine .ite (fun _ => hfailed r) fun _ => .after (Discreet.count _).tidy fun _ => ?_
        refine .pure ?_
        rintro k ⟨⟩
        exact ⟨⟨nofun, fun _ => .store _ _ _ (.fresh _ _) hpublic⟩, fun _ => rfl⟩

/-- A handle of a key in the store, which is destroyed there. -/
theorem tidy_handle (id : KeyId) (wantPrivate : Bool) :
    Tidy T (do
      let key ← pkeyFromPsa id wantPrivate
      psa (.destroyKey id)
      return key : Adapter O _) (MadeSafe T wantPrivate) :=
  .bind (tidy_pkeyFromPsa id wantPrivate) fun _ hkey =>
    .after (.psa fun _ _ _ => trivial) fun _ => .pure hkey

/-- A handle made of the key that was asked for is safe. -/
theorem MadeSafe.safe {wantPrivate : Bool} {r : ZucStatus × Option ZucPkey}
    (h : MadeSafe T wantPrivate r) : SafeResult T r := fun k hk => (h k hk).1

/-! ### Making handles -/

theorem tidy_pkeyImportBytes (type : ZucAlg) (privateKey : Bool) (data : List Byte) :
    Tidy T (pkeyImportBytes type privateKey data : Adapter O _) (SafeResult T) := by
  refine .ite (fun _ => .pure (safeResult_none _)) fun _ => ?_
  refine .after (.psa fun _ _ _ => trivial) fun r => .ite (fun _ => .pure (safeResult_none _)) fun _ => ?_
  exact (tidy_handle _ _).mono fun _ => MadeSafe.safe

/-- `zuc_pkey_import`. -/
theorem tidy_pkeyImportImpl (type : ZucAlg) (privateKey : Bool) (data len : Nat) (out : Bool) :
    Tidy T (pkeyImportImpl type privateKey data len out : Adapter O _) (SafeResult T) := by
  refine .ite (fun _ => .pure (safeResult_none _)) fun _ => .after discreet_zucIntReady.tidy fun _ => ?_
  refine .ite (fun _ => .pure (safeResult_none _)) fun _ =>
    .ite (fun _ => .pure (safeResult_none _)) fun _ => ?_
  exact .after (discreet_readMem _ _).tidy fun _ => tidy_pkeyImportBytes _ _ _

/-- `zuc_pkey_generate`. -/
theorem tidy_pkeyGenerateImpl (type : ZucAlg) (bits : Nat) (out : Bool) :
    Tidy T (pkeyGenerateImpl type bits out : Adapter O _) (SafeResult T) := by
  refine .ite (fun _ => .pure (safeResult_none _)) fun _ => .after discreet_zucIntReady.tidy fun _ => ?_
  refine .ite (fun _ => .pure (safeResult_none _)) fun _ =>
    .ite (fun _ => .pure (safeResult_none _)) fun _ => ?_
  refine .ite (fun _ => .pure (safeResult_none _)) fun _ =>
    .ite (fun _ => .pure (safeResult_none _)) fun _ => ?_
  refine .ite (fun _ => .pure (safeResult_none _)) fun _ => .after (.psa fun _ _ _ => trivial) fun r => ?_
  refine .ite (fun _ => .pure (safeResult_none _)) fun _ => ?_
  exact (tidy_handle _ _).mono fun _ => MadeSafe.safe

/-- `zuc_pkey_public`, whose handle is on public bytes. -/
theorem tidy_pkeyPublicImpl (key : Option ZucPkey) (out : Bool) :
    Tidy T (pkeyPublicImpl key out : Adapter O _) (MadeSafe T false) := by
  have hnone := madeSafe_none (T := T) false
  refine .ite (fun _ => .pure (hnone _)) fun _ => ?_
  cases key with
  | none => exact .pure (hnone _)
  | some k =>
    refine .after discreet_zucIntReady.tidy fun _ => .ite (fun _ => .pure (hnone _)) fun _ => ?_
    refine .after (discreet_pkeyImport _ _ _).tidy fun r => .ite (fun _ => .pure (hnone _)) fun _ => ?_
    exact tidy_handle _ _

/-- The readers of key files keep nothing. -/
theorem tidy_parseEither (src : List Byte) (privateKey : Bool) :
    Tidy T (parseEither src privateKey : Adapter O _) fun _ => True := by
  refine .after (.psa fun _ _ _ => trivial) fun r => .ite (fun _ => .pure trivial) fun _ => ?_
  refine .ite (fun _ => .pure trivial) fun _ => .after (.psa fun _ _ _ => trivial) fun _ => ?_
  refine .after (.psa fun _ _ _ => trivial) fun r' => ?_
  exact .ite (fun _ => .pure trivial) fun _ => .pure trivial

/-- What was parsed becomes a handle, and one of the wrong kind is freed. -/
theorem tidy_parseImport (pk : O.Pk) (attr : PsaKeyAttributes) (isPair privateKey : Bool) :
    Tidy T (parseImport pk attr isPair privateKey) (SafeResult T) := by
  refine .after (.psa fun _ _ _ => trivial) fun r => .after (.psa fun _ _ _ => trivial) fun _ => ?_
  refine .ite (fun _ => .pure (safeResult_none _)) fun _ => ?_
  refine .bind (tidy_pkeyFromPsa _ _) fun key hkey => .after (.psa fun _ _ _ => trivial) fun _ => ?_
  obtain ⟨st, key⟩ := key
  cases key with
  | none => cases st <;> exact .pure (safeResult_none _)
  | some k =>
    cases st with
    | ok =>
      refine .ite (fun _ => ?_) fun _ => .pure hkey.safe
      refine .after (tidy_zucPkeyFree ?_) fun _ => .pure (safeResult_none _)
      rintro k ⟨⟩
      exact hkey.safe k rfl
    | _ => exact .pure hkey.safe

/-- The parser's context is freed. -/
theorem tidy_parseDescribe (pk : O.Pk) (isPair privateKey : Bool) :
    Tidy T (parseDescribe pk isPair privateKey) (SafeResult T) := by
  have hpsa : ∀ {γ : Type} (c : PsaCall O γ), Tidy T (psa c) fun _ => True :=
    fun _ => .psa fun _ _ _ => trivial
  have hattr : Tidy T (parseAttributes pk isPair) fun _ => True :=
    .after (hpsa _) fun r => .ite (fun _ => hpsa _) fun _ => .pure trivial
  refine .after hattr fun attr => .ite (fun _ => tidy_parseImport _ _ _ _) fun _ => ?_
  have hx25519 : Tidy T (if isPair then return false else do
      let bits ← psa (.pkGetBitlen pk)
      return decide (bits = 255) : Adapter O Bool) fun _ => True :=
    .ite (fun _ => .pure trivial) fun _ => .after (hpsa _) fun _ => .pure trivial
  refine .after hx25519 fun x25519 => .ite (fun _ => ?_) fun _ =>
    .after (hpsa _) fun _ => .pure (safeResult_none _)
  refine .after (hpsa _) fun raw => .after (hpsa _) fun _ => ?_
  exact .ite (fun _ => .pure (safeResult_none _)) fun _ => tidy_pkeyImportBytes _ _ _

/-- The copy of a PEM text is wiped and freed. -/
theorem tidy_parseSource (src : List Byte) (privateKey : Bool) {copy : Option HeapBytes}
    (hcopy : ∀ c, copy = some c → c.ZeroPast) :
    Tidy T (parseSource src copy privateKey : Adapter O _) (SafeResult T) := by
  have hfree : Tidy T (freeIf (fun c : HeapBytes => freeBytes (c.buf.wipe c.len)) copy : Adapter O _)
      fun _ => True := by
    cases copy with
    | none => exact .pure trivial
    | some c => exact .freeBytes (.inl (hcopy c rfl).wiped)
  refine .after (tidy_parseEither _ _) fun r => .after hfree fun _ => .ite (fun _ => ?_) fun _ => ?_
  · exact .after (.psa fun _ _ _ => trivial) fun _ => .pure (safeResult_none _)
  · exact tidy_parseDescribe _ _ _

/-- `zuc_pkey_parse`. -/
theorem tidy_pkeyParseImpl (inp len : Nat) (privateKey out : Bool) :
    Tidy T (pkeyParseImpl inp len privateKey out : Adapter O _) (SafeResult T) := by
  refine .ite (fun _ => .pure (safeResult_none _)) fun _ => .after discreet_zucIntReady.tidy fun _ => ?_
  refine .ite (fun _ => .pure (safeResult_none _)) fun _ =>
    .ite (fun _ => .pure (safeResult_none _)) fun _ => ?_
  refine .after (discreet_readMem _ _).tidy fun bytes => ?_
  refine .ite (fun _ => ?_) fun _ => tidy_parseSource _ _ nofun
  refine .ite (fun _ => .pure (safeResult_none _)) fun _ => .bind (.mallocBytes _) fun copy hcopy => ?_
  cases copy with
  | none => exact .pure (safeResult_none _)
  | some buf =>
    obtain ⟨p, rfl⟩ := hcopy buf rfl
    refine tidy_parseSource _ _ ?_
    rintro c ⟨⟩
    -- the copy fills its block, so the wipe does
    apply HeapBytes.zeroPast_of_size_le
    calc (((HeapBuf.fresh p (len + 1)).store 0 bytes).store len [0]).size
        ≤ ((HeapBuf.fresh p (len + 1)).store 0 bytes).size := HeapBuf.size_store_le _ _ _
      _ ≤ (HeapBuf.fresh p (len + 1)).size := HeapBuf.size_store_le _ _ _
      _ = len + 1 := HeapBuf.size_fresh p (len + 1)

/-! ### Writing -/

/-- The end of what has been written: nothing has been stored past it. -/
def Cursor.AtEnd (c : Cursor) : Prop := ∀ x ∈ c.buf.cells.drop c.pos, x = none

namespace Cursor.AtEnd

theorem start (p n : Nat) : AtEnd ⟨HeapBuf.fresh p n, 0⟩ := fun _ hx => List.eq_of_mem_replicate hx

variable {c : Cursor}

theorem put (h : c.AtEnd) (bs : List Byte) : (c.put bs).AtEnd := by
  intro x hx
  have hdrop : x ∈ c.buf.cells.drop (c.pos + bs.length) := HeapBuf.mem_drop_store (Nat.le_refl _) hx
  rw [← List.drop_drop] at hdrop
  exact h x (List.mem_of_mem_drop hdrop)

theorem tlvHead (h : c.AtEnd) (tag : Byte) (n : Nat) : (Zucrypt.tlvHead c tag n).AtEnd :=
  (h.put _).put _

theorem tlv (h : c.AtEnd) (tag : Byte) (v : List Byte) : (Zucrypt.tlv c tag v).AtEnd :=
  (h.tlvHead _ _).put _

theorem ecSec1 (h : c.AtEnd) (type : ZucAlg) (d point : List Byte) (params : Bool) :
    (Zucrypt.ecSec1 c type d point params).AtEnd := by
  cases params with
  | true => exact ((((((h.tlvHead _ _).put _).tlv _ _).tlv _ _).tlvHead _ _).tlvHead _ _ |>.put _).put _
  | false => exact (((((h.tlvHead _ _).put _).tlv _ _).tlvHead _ _).tlvHead _ _ |>.put _).put _

theorem x25519Write (h : c.AtEnd) (k : List Byte) : (Zucrypt.x25519Write c k).AtEnd :=
  ((((h.tlvHead _ _).put _).tlv _ _).tlvHead _ _).tlv _ _

theorem ecInfoWrite (h : c.AtEnd) (type : ZucAlg) (d point : List Byte) :
    (Zucrypt.ecInfoWrite c type d point).AtEnd :=
  ((((((h.tlvHead _ _).put _).tlvHead _ _).put _).put _).tlvHead _ _).ecSec1 _ _ _ _

end Cursor.AtEnd

/-- An encoding that its length wipes, or a public one. -/
def SafeBytes (T : List (Event (Call O))) (d : HeapBytes) : Prop := d.ZeroPast ∨ PublicBlock T d.buf

/-- A result that holds bytes, if any, that are safe. -/
def SafeDer (T : List (Event (Call O))) (r : Except ZucStatus HeapBytes) : Prop :=
  ∀ d, r = .ok d → SafeBytes T d

def SafeEncoding (T : List (Event (Call O))) (r : Except ZucStatus Encoding) : Prop :=
  ∀ e, r = .ok e → SafeBytes T e.der

/-- A result that holds bytes, if any, that are public. -/
def PublicDer (T : List (Event (Call O))) (r : Except ZucStatus HeapBytes) : Prop :=
  ∀ d, r = .ok d → PublicBlock T d.buf

/-- Where there is no encoding it is public. -/
theorem publicDer_error (st : ZucStatus) : PublicDer T (.error st) := nofun

/-- And safe. -/
theorem safeEncoding_error (st : ZucStatus) : SafeEncoding T (.error st) := nofun

/-- A label says nothing of the key. -/
theorem safeEncoding_ok {d : HeapBytes} (label : String) (h : SafeBytes T d) :
    SafeEncoding T (.ok ⟨d, label⟩) := by
  rintro e ⟨⟩
  exact h

/-- The public half is exported and copied, and the key destroyed. -/
theorem tidy_publicDer {key : ZucPkey} (hkey : SafeKey T key) :
    Tidy T (publicDer key : Adapter O _) (PublicDer T) := by
  refine .ite (fun hpublic => .bind (.mallocBytes _) fun buf hbuf => ?_) fun _ => ?_
  · cases buf with
    | none => exact .pure (publicDer_error _)
    | some buf =>
      obtain ⟨p, rfl⟩ := hbuf buf rfl
      refine .pure ?_
      rintro d ⟨⟩
      exact .store _ _ _ (.fresh _ _) (.held _ _ (hkey.shown hpublic))
  · refine .bind (tidy_pkeyPublicImpl _ _) fun r hr => .ite (fun _ => .pure (publicDer_error _)) fun _ => ?_
    obtain ⟨st, pub⟩ := r
    cases pub with
    | none => exact .pure (publicDer_error _)
    | some pub =>
      obtain ⟨hsafe, hpublic⟩ := hr pub rfl
      refine .after (discreet_freeRecord _ _).tidy fun _ => .after (Discreet.count _).tidy fun _ => ?_
      refine .pure ?_
      rintro d ⟨⟩
      exact hsafe.shown (hpublic rfl)

/-- An RSA key is wrapped in a block that is filled to its end. -/
theorem tidy_pkcs8Wrap (pkcs1 : List Byte) : Tidy T (pkcs8Wrap pkcs1 : Adapter O _) (SafeDer T) := by
  refine .ite (fun _ => .pure nofun) fun _ => .bind (.mallocBytes _) fun p hp => ?_
  cases p with
  | none => exact .pure nofun
  | some buf =>
    obtain ⟨p, rfl⟩ := hp buf rfl
    refine .pure ?_
    rintro d ⟨⟩
    -- the length is that of the block
    left
    apply HeapBytes.zeroPast_of_size_le
    have hput : ∀ (c : Cursor) (bs : List Byte), (c.put bs).buf.size ≤ c.buf.size :=
      fun c bs => HeapBuf.size_store_le _ _ _
    calc (pkcs8Write ⟨HeapBuf.fresh p _, 0⟩ pkcs1).buf.size
        ≤ (HeapBuf.fresh p (pkcs8Total pkcs1.length)).size :=
          Nat.le_trans (hput _ _) <| Nat.le_trans (hput _ _) <| Nat.le_trans (hput _ _) <|
            Nat.le_trans (hput _ _) <| Nat.le_trans (hput _ _) (hput _ _)
      _ = pkcs8Total pkcs1.length := HeapBuf.size_fresh _ _

/-- The public encoding is built of public bytes. -/
theorem tidy_spkiDer (key : ZucPkey) : Tidy T (spkiDer key : Adapter O _) (PublicDer T) := by
  have hpsa : ∀ {γ : Type} (c : PsaCall O γ), Tidy T (psa c) fun _ => True :=
    fun _ => .psa fun _ _ _ => trivial
  refine .after (discreet_pkeyImport _ _ _).tidy fun k => .ite (fun _ => .pure (publicDer_error _)) fun _ => ?_
  refine .after (hpsa _) fun r => .after (hpsa _) fun _ => ?_
  refine .ite (fun _ => .after (hpsa _) fun _ => .pure (publicDer_error _)) fun _ => ?_
  refine .bind (.mallocBytes _) fun buf hbuf => ?_
  cases buf with
  | none => exact .after (hpsa _) fun _ => .pure (publicDer_error _)
  | some buf =>
    obtain ⟨p, rfl⟩ := hbuf buf rfl
    have hwritten : Tidy T (psa (.pkWritePubkeyDer r.2 ZUC_PKEY_MAX_WRITE_SIZE)) fun r =>
        ∀ der, r = .ok der → PublicData T der :=
      .psa fun r hr _ der hder => .written _ _ r der hder hr
    refine hwritten.bind fun der hder => .after (hpsa _) fun _ => ?_
    have hfree : ∀ st, Tidy T (do
        freeBytes (HeapBuf.fresh p ZUC_PKEY_MAX_WRITE_SIZE)
        return .error st : Adapter O (Except ZucStatus HeapBytes)) (PublicDer T) := fun st =>
      .after (.freeBytes (.inl (HeapBuf.wiped_fresh _ _))) fun _ => .pure (publicDer_error _)
    cases der with
    | error ps => exact hfree _
    | ok der =>
      refine .ite (fun _ => hfree _) fun _ => .pure ?_
      rintro d ⟨⟩
      exact .store _ _ _ (.store _ _ _ (.fresh _ _) (hder der rfl)) (hder der rfl)

/-- A writer that writes to the end of its block, or not at all, leaves nothing past it. -/
theorem tidy_encodeInto (total : Nat) {write : Cursor → Cursor}
    (hwrite : ∀ c : Cursor, c.AtEnd → (write c).AtEnd) :
    Tidy T (encodeInto total write : Adapter O _) fun r => ∀ d, r = some d → d.ZeroPast := by
  refine .bind (.mallocBytes _) fun p hp => .pure fun d hd => ?_
  obtain ⟨buf, rfl, rfl⟩ := Option.map_eq_some_iff.mp hd
  obtain ⟨p, rfl⟩ := hp buf rfl
  exact fun c hc => .inl (hwrite _ (Cursor.AtEnd.start p total) c hc)

/-- The encoding of an X25519 key. -/
theorem tidy_x25519Encode (key : ZucPkey) (pkcs1 : Bool) :
    Tidy T (x25519Encode key pkcs1 : Adapter O _) (SafeEncoding T) := by
  refine .ite (fun _ => .pure (safeEncoding_error _)) fun _ => ?_
  refine .bind (tidy_encodeInto _ fun c hc => hc.x25519Write _) fun p hp => ?_
  cases p with
  | none => exact .pure (safeEncoding_error _)
  | some der => exact .pure (safeEncoding_ok _ (.inl (hp der rfl)))

/-- The encodings of a key on a NIST curve, whose point is freed. -/
theorem tidy_nistEncode {key : ZucPkey} (hkey : SafeKey T key) (pkcs1 : Bool) :
    Tidy T (nistEncode key pkcs1 : Adapter O _) (SafeEncoding T) := by
  refine .bind (tidy_publicDer hkey) fun point hpoint => ?_
  cases point with
  | error st => exact .pure (safeEncoding_error _)
  | ok point =>
    have hencode : Tidy T (if pkcs1 then
        encodeInto (ecSec1Size key.type key.der.bytes.length point.bytes.length true)
          (ecSec1 · key.type key.der.bytes point.bytes true)
      else
        encodeInto (tlvSize (ecInfoBody key.type key.der.bytes.length point.bytes.length))
          (ecInfoWrite · key.type key.der.bytes point.bytes) : Adapter O (Option HeapBytes))
        fun r => ∀ d, r = some d → d.ZeroPast :=
      .ite (fun _ => tidy_encodeInto _ fun c hc => hc.ecSec1 _ _ _ _) fun _ =>
        tidy_encodeInto _ fun c hc => hc.ecInfoWrite _ _ _
    refine hencode.bind fun p hp => .after (.freeBytes (.inr ((hpoint point rfl).wipe _))) fun _ => ?_
    cases p with
    | none => exact .pure (safeEncoding_error _)
    | some der => exact .pure (safeEncoding_ok _ (.inl (hp der rfl)))

/-- An encoding with its label. -/
theorem tidy_labelled {p : Adapter O (Except ZucStatus HeapBytes)} (label : String)
    (hp : Tidy T p (SafeDer T)) :
    Tidy T (do
      let der ← p
      return der.map (⟨·, label⟩) : Adapter O (Except ZucStatus Encoding)) (SafeEncoding T) := by
  refine hp.bind fun der hder => .pure ?_
  cases der with
  | error st => exact safeEncoding_error _
  | ok der => exact safeEncoding_ok _ (hder der rfl)

/-- What is public is safe. -/
theorem PublicDer.safe {r : Except ZucStatus HeapBytes} (h : PublicDer T r) : SafeDer T r :=
  fun d hd => .inr (h d hd)

/-- All encodings of an EC key, -/
theorem tidy_ecEncode {key : ZucPkey} (hkey : SafeKey T key) (format : ZucPkeyFormat)
    (privateOut : Bool) : Tidy T (ecEncode key format privateOut : Adapter O _) (SafeEncoding T) := by
  cases format with
  | other v => exact .pure (safeEncoding_error _)
  | _ =>
    refine .ite (fun _ => .ite (fun _ => .pure (safeEncoding_error _)) fun _ => ?_) fun _ => ?_
    · exact tidy_labelled _ ((tidy_spkiDer key).mono fun _ => PublicDer.safe)
    · exact .ite (fun _ => tidy_x25519Encode _ _) fun _ => tidy_nistEncode hkey _

/-- and of an RSA key. -/
theorem tidy_rsaEncode {key : ZucPkey} (hkey : SafeKey T key) (format : ZucPkeyFormat)
    (privateOut : Bool) : Tidy T (rsaEncode key format privateOut : Adapter O _) (SafeEncoding T) := by
  have hcopy : Tidy T (rsaEncode key .pkcs1Der true : Adapter O _) (SafeEncoding T) := by
    refine .bind (.mallocBytes _) fun der hder => ?_
    cases der with
    | none => exact .pure (safeEncoding_error _)
    | some der =>
      obtain ⟨p, rfl⟩ := hder der rfl
      refine .pure (safeEncoding_ok _ (.inl (HeapBytes.zeroPast_of_size_le ?_)))
      exact Nat.le_trans (HeapBuf.size_store_le _ _ _) (Nat.le_of_eq (HeapBuf.size_fresh _ _))
  have hpublic := tidy_labelled "PUBLIC KEY" ((tidy_spkiDer (T := T) key).mono fun _ => PublicDer.safe)
  have hrsa := tidy_labelled "RSA PUBLIC KEY" ((tidy_publicDer hkey).mono fun _ => PublicDer.safe)
  have hwrap := tidy_labelled "PRIVATE KEY" (tidy_pkcs8Wrap (T := T) key.der.bytes)
  cases format with
  | other v => exact .pure (safeEncoding_error _)
  | pkcs1Der => cases privateOut with
    | true => exact hcopy
    | false => exact hrsa
  | pkcs1Pem => cases privateOut with
    | true => exact hcopy
    | false => exact hrsa
  | infoDer => cases privateOut with
    | true => exact hwrap
    | false => exact hpublic
  | infoPem => cases privateOut with
    | true => exact hwrap
    | false => exact hpublic

/-- A safe block, once wiped, may be released. -/
theorem SafeBytes.released {d : HeapBytes} (h : SafeBytes T d) :
    (d.buf.wipe d.len).Wiped ∨ PublicBlock T (d.buf.wipe d.len) :=
  h.imp HeapBytes.ZeroPast.wiped fun h => h.wipe _

/-- `zuc_pkey_write`, where the encoding is wiped and freed. -/
theorem tidy_pkeyWriteImpl {key : Option ZucPkey} (hkey : ∀ k, key = some k → SafeKey T k)
    (format : ZucPkeyFormat) (publicOnly : Bool) (out outSize : Nat) (outLen : SizeCell) :
    Tidy T (pkeyWriteImpl key format publicOnly out outSize outLen : Adapter O _) fun _ => True := by
  cases key with
  | none => exact .pure trivial
  | some k =>
    refine .ite (fun _ => .pure trivial) fun _ => .after discreet_zucIntReady.tidy fun _ => ?_
    refine .ite (fun _ => .pure trivial) fun _ => ?_
    refine .ite (fun _ => .bind (tidy_ecEncode (hkey k rfl) _ _) ?_)
      fun _ => .bind (tidy_rsaEncode (hkey k rfl) _ _) ?_
    all_goals
      intro e he
      cases e with
      | error st => exact .pure trivial
      | ok e =>
        refine .after (discreet_writeEncoding _ _ _ _).tidy fun r => ?_
        exact .after (.freeBytes (he e rfl).released) fun _ => (discreet_settled _ _ _ _).tidy

/-! ### Raw material, and agreement -/

theorem tidy_pkeyExportImpl {key : Option ZucPkey} (hkey : ∀ k, key = some k → SafeKey T k)
    (publicOnly : Bool) (out outSize : Nat) (outLen : SizeCell) :
    Tidy T (pkeyExportImpl key publicOnly out outSize outLen : Adapter O _) fun _ => True := by
  refine .after discreet_zucIntReady.tidy fun _ => .ite (fun _ => .pure trivial) fun _ => ?_
  cases key with
  | none => exact .pure trivial
  | some k =>
    refine .ite (fun _ => .pure trivial) fun _ => .ite (fun _ => ?_) fun _ => ?_
    · exact .ite (fun _ => .pure trivial) fun _ => .after (.update _) fun _ => .pure trivial
    · refine .bind (tidy_publicDer (hkey k rfl)) fun der hder => ?_
      cases der with
      | error st => exact .pure trivial
      | ok der =>
        have hfree : Tidy T (freeBytes der.buf : Adapter O _) fun _ => True :=
          .freeBytes (.inr (hder der rfl))
        refine .ite (fun _ => .after hfree fun _ => .pure trivial) fun _ => ?_
        exact .after (.update _) fun _ => .after hfree fun _ => .pure trivial

/-- `zuc_pkey_agree`, where the public half of the peer is. -/
theorem tidy_pkeyAgreeImpl (key : Option ZucPkey) {peer : Option ZucPkey}
    (hpeer : ∀ k, peer = some k → SafeKey T k) (out outSize : Nat) (outLen : SizeCell) :
    Tidy T (pkeyAgreeImpl key peer out outSize outLen : Adapter O _) fun _ => True := by
  refine .after discreet_zucIntReady.tidy fun _ => .ite (fun _ => .pure trivial) fun _ => ?_
  cases key with
  | none => exact .pure trivial
  | some k =>
    cases peer with
    | none => exact .pure trivial
    | some p =>
      refine .ite (fun _ => .pure trivial) fun _ => .ite (fun _ => .pure trivial) fun _ => ?_
      refine .ite (fun _ => .pure trivial) fun _ => .ite (fun _ => .pure trivial) fun _ => ?_
      refine .bind (tidy_publicDer (hpeer p rfl)) fun point hpoint => ?_
      cases point with
      | error st => exact .pure trivial
      | ok point =>
        refine .after (discreet_agreeRun _ _ _ _).tidy fun r => ?_
        refine .after (.freeBytes (.inr (hpoint point rfl))) fun _ => ?_
        exact .after (discreet_readMem _ _).tidy fun secret => (discreet_settled _ _ _ _).tidy

/-! ### Any calls -/

/-- Handles that hold key material are safe. -/
def LiveHandle.Safe (T : List (Event (Call O))) : LiveHandle O → Prop
  | .pkey k => SafeKey T k
  | _ => True

def SafePool (T : List (Event (Call O))) (pool : Pool O) : Prop := ∀ h, some h ∈ pool → h.Safe T

/-- A handle of the pool is safe. -/
theorem SafePool.pkey {pool : Pool O} (h : SafePool T pool) (i : Nat) (k : ZucPkey)
    (hk : pool.pkey i = some k) : SafeKey T k := by
  have hslot : pool[i]? = some (some (.pkey k)) :=
    Option.join_eq_some_iff.mp (Pool.handle_of_pkey k hk)
  exact h _ (List.mem_of_getElem? hslot)

/-- And so it stays, if what is put there is. -/
theorem SafePool.set {pool : Pool O} (hpool : SafePool T pool) (i : Nat) {slot : Option (LiveHandle O)}
    (hslot : ∀ h, slot = some h → h.Safe T) : SafePool T (pool.set i slot) := by
  intro h hh
  rcases List.mem_or_eq_of_mem_set hh with hh | hh
  · exact hpool h hh
  · exact hslot h hh.symm

section
variable {α : Type} {kind : α → LiveHandle O} {pool : Pool O} {i : Nat}

/-- A constructor's handle is put into the pool. -/
theorem tidy_constructor {p : Adapter O (ZucStatus × Option α)} (hpool : SafePool T pool)
    (hp : Tidy T p fun r => ∀ a, r.2 = some a → (kind a).Safe T) :
    Tidy T (Command.constructor kind pool p) fun r => SafePool T r.2 := by
  refine hp.bind fun r hr => .pure fun h hh => ?_
  rcases List.mem_append.mp hh with hh | hh
  · exact hpool h hh
  · obtain ⟨a, ha, rfl⟩ := Option.map_eq_some_iff.mp (List.mem_singleton.mp hh).symm
    exact hr a ha

/-- Handles of other kinds are always safe. -/
theorem SafePool.put {h : Option α} (hpool : SafePool T pool) (hkind : ∀ a, (kind a).Safe T) :
    SafePool T (pool.put i (h.map kind)) := by
  cases h with
  | none => exact hpool
  | some a =>
    refine hpool.set i ?_
    rintro h ⟨⟩
    exact hkind a

/-- A function that changes a handle, -/
theorem tidy_change {p : Adapter O (ZucStatus × Option α)} (hpool : SafePool T pool)
    (hkind : ∀ a, (kind a).Safe T) (hp : Discreet p) :
    Tidy T (Command.change kind pool i p) fun r => SafePool T r.2 :=
  .after hp.tidy fun _ => .pure (hpool.put hkind)

/-- and one that reports a length too. -/
theorem tidy_changeCell {p : Adapter O (ZucStatus × Option α × SizeCell)} (hpool : SafePool T pool)
    (hkind : ∀ a, (kind a).Safe T) (hp : Discreet p) :
    Tidy T (Command.changeCell kind pool i p) fun r => SafePool T r.2 :=
  .after hp.tidy fun _ => .pure (hpool.put hkind)

/-- A function that frees one. -/
theorem tidy_free {h : Option α} {p : Adapter O Unit} (hpool : SafePool T pool)
    (hp : Tidy T p fun _ => True) :
    Tidy T (Command.free pool i h p) fun r => SafePool T r.2 := by
  refine .after hp fun _ => .pure ?_
  cases h with
  | none => exact hpool
  | some a => exact hpool.set i nofun

/-- A function without a handle, -/
theorem tidy_plain {p : Adapter O ZucStatus} (hpool : SafePool T pool)
    (hp : Tidy T p fun _ => True) :
    Tidy T (Command.plain pool p) fun r => SafePool T r.2 :=
  .after hp fun _ => .pure hpool

/-- and one that reports a length. -/
theorem tidy_plainCell {p : Adapter O (ZucStatus × SizeCell)} (hpool : SafePool T pool)
    (hp : Tidy T p fun _ => True) :
    Tidy T (Command.plainCell pool p) fun r => SafePool T r.2 :=
  .after hp fun _ => .pure hpool

end

/-- The watch releases nothing. -/
theorem tidy_underWatch {p : Adapter O (CallResult × Pool O)}
    (hp : Tidy T p fun r => SafePool T r.2) :
    Tidy T (Command.underWatch p) fun r => SafePool T r.2 :=
  .after (.update _) fun _ => hp.bind fun _ hr =>
    .after (.after .read fun _ => .pure trivial) fun _ => .pure hr

/-- The implementations that run under the watch. -/
theorem tidy_impl {pool : Pool O} (hpool : SafePool T pool) {c : Command}
    {p : Adapter O (CallResult × Pool O)} (hc : c.impl pool = some p) :
    Tidy T p fun r => SafePool T r.2 := by
  have hmake : ∀ {p : Adapter O (ZucStatus × Option ZucPkey)}, Tidy T p (SafeResult T) →
      Tidy T (Command.constructor .pkey pool p) fun r => SafePool T r.2 :=
    fun hp => tidy_constructor hpool hp
  cases c with
  | pkeyParse => cases hc; exact hmake (tidy_pkeyParseImpl _ _ _ _)
  | pkeyGenerate => cases hc; exact hmake (tidy_pkeyGenerateImpl _ _ _)
  | pkeyImport => cases hc; exact hmake (tidy_pkeyImportImpl _ _ _ _ _)
  | pkeyPublic => cases hc; exact hmake ((tidy_pkeyPublicImpl _ _).mono fun _ => MadeSafe.safe)
  | pkeyWrite => cases hc; exact tidy_plainCell hpool (tidy_pkeyWriteImpl (hpool.pkey _) _ _ _ _ _)
  | pkeySignHash =>
    cases hc; exact tidy_plainCell hpool (discreet_pkeySignHashImpl _ _ _ _ _ _ _ _).tidy
  | pkeyVerifyHash => cases hc; exact tidy_plain hpool (discreet_pkeyVerifyHashImpl _ _ _ _ _ _ _).tidy
  | pkeyEncrypt => cases hc; exact tidy_plainCell hpool (discreet_pkeyEncryptImpl _ _ _ _ _ _ _ _).tidy
  | pkeyDecrypt => cases hc; exact tidy_plainCell hpool (discreet_pkeyDecryptImpl _ _ _ _ _ _ _ _).tidy
  | pkeyExport => cases hc; exact tidy_plainCell hpool (tidy_pkeyExportImpl (hpool.pkey _) _ _ _ _)
  | pkeyAgree => cases hc; exact tidy_plainCell hpool (tidy_pkeyAgreeImpl _ (hpool.pkey _) _ _ _)
  | _ => cases hc

/-- `zuc_init` releases nothing, -/
theorem tidy_zucInit : Tidy T (zucInit : Adapter O _) fun _ => True := by
  refine .after .read fun w => .ite (fun _ => .ite (fun _ => .pure trivial) fun _ => ?_) fun _ => ?_
  · exact .after (.update _) fun _ => .pure trivial
  · refine .after (.psa fun _ _ _ => trivial) fun _ => .ite (fun _ => .pure trivial) fun _ => ?_
    exact .after (.update _) fun _ => .pure trivial

/-- nor does `zuc_shutdown`. -/
theorem tidy_zucShutdown : Tidy T (zucShutdown : Adapter O _) fun _ => True := by
  refine .after .read fun w => .ite (fun _ => .pure trivial) fun _ => .after (.update _) fun _ => ?_
  refine .after .read fun w => .ite (fun _ => ?_) fun _ => .pure trivial
  exact .after (.psa fun _ _ _ => trivial) fun _ => .pure trivial

/-- Each call releases only what may be, and leaves safe handles. -/
theorem tidy_run {pool : Pool O} (hpool : SafePool T pool) (c : Command) :
    Tidy T (c.run pool) fun r => SafePool T r.2 := by
  have hhash : ∀ h : ZucHash O, (LiveHandle.hash h).Safe T := fun _ => trivial
  have hhmac : ∀ h : ZucHmac O, (LiveHandle.hmac h).Safe T := fun _ => trivial
  have haes : ∀ a : ZucAes, (LiveHandle.aes a : LiveHandle O).Safe T := fun _ => trivial
  -- only the functions of `zuc_pkey.c` have material to wipe
  cases himpl : c.impl pool with
  | some p =>
    rw [Command.run_eq_underWatch himpl]
    exact tidy_underWatch (tidy_impl hpool himpl)
  | none =>
    cases c with
    | init => exact tidy_plain hpool tidy_zucInit
    | shutdown => exact tidy_plain hpool tidy_zucShutdown
    | store p bs => exact .after (.update _) fun _ => .pure hpool
    | hashCompute => exact tidy_plainCell hpool (discreet_zucHashCompute _ _ _ _ _ _).tidy
    | hashNew =>
      exact tidy_constructor hpool ((discreet_zucHashNew _ _).tidy.mono fun _ _ a _ => hhash a)
    | hashUpdate => exact tidy_change hpool hhash (discreet_streamUpdate discreet_hashOps _ _ _)
    | hashFinish => exact tidy_changeCell hpool hhash (discreet_streamFinish discreet_hashOps _ _ _ _)
    | hashReset => exact tidy_change hpool hhash (discreet_streamReset discreet_hashOps _)
    | hashFree => exact tidy_free hpool (discreet_zucHashFree _).tidy
    | hmacCompute => exact tidy_plainCell hpool (discreet_zucHmacCompute _ _ _ _ _ _ _ _).tidy
    | hmacNew =>
      exact tidy_constructor hpool ((discreet_zucHmacNew _ _ _ _).tidy.mono fun _ _ a _ => hhmac a)
    | hmacUpdate => exact tidy_change hpool hhmac (discreet_streamUpdate discreet_macOps _ _ _)
    | hmacFinish => exact tidy_changeCell hpool hhmac (discreet_streamFinish discreet_macOps _ _ _ _)
    | hmacReset => exact tidy_change hpool hhmac (discreet_streamReset discreet_macOps _)
    | hmacFree => exact tidy_free hpool (discreet_zucHmacFree _).tidy
    | aesNew =>
      exact tidy_constructor hpool ((discreet_zucAesNew _ _ _).tidy.mono fun _ _ a _ => haes a)
    | aesSetState => exact tidy_change hpool haes (discreet_zucAesCbcSetState _ _)
    | aesGetState => exact tidy_plain hpool (discreet_zucAesCbcGetState _ _).tidy
    | aesCbcEncrypt => exact tidy_change hpool haes (discreet_zucAesCbcEncrypt _ _ _ _)
    | aesCbcDecrypt => exact tidy_change hpool haes (discreet_zucAesCbcDecrypt _ _ _ _)
    | aesFree => exact tidy_free hpool (discreet_zucAesFree _).tidy
    | aeadEncrypt => exact tidy_plain hpool (discreet_zucAeadEncrypt _ _ _ _ _ _ _ _ _ _ _ _).tidy
    | aeadDecrypt => exact tidy_plain hpool (discreet_zucAeadDecrypt _ _ _ _ _ _ _ _ _ _ _ _).tidy
    | pbkdf2Hmac => exact tidy_plain hpool (discreet_zucPbkdf2Hmac _ _ _ _ _ _ _ _).tidy
    | pkeyFree => exact tidy_free hpool (tidy_zucPkeyFree (hpool.pkey _))
    | _ => cases himpl

/-- So do all of them. -/
theorem tidy_session {pool : Pool O} (hpool : SafePool T pool) (cmds : List Command) :
    Tidy T (session pool cmds) fun r => SafePool T r.2 := by
  induction cmds generalizing pool with
  | nil => exact .pure hpool
  | cons c cs ih => exact (tidy_run hpool c).bind fun r hr => (ih hr).bind fun rs hrs => .pure hrs

/-! ### A key that could not be written -/

/-- The caller's memory is as it was, or its buffer is all zero. -/
def LeftClean (m : Memory) (out outSize : Nat) (m' : Memory) : Prop :=
  m' = m ∨ m' = write m out (List.replicate outSize 0)

/-- What is written to the caller's buffer stays inside it. -/
theorem writeEncoding_within (e : Encoding) (format : ZucPkeyFormat) (out outSize : Nat) (w : World) :
    Ensures (fun _ => True) (writeEncoding e format out outSize : Adapter O _) w fun _ _ w' =>
      ∃ bs : List Byte, bs.length ≤ outSize ∧ w'.mem = write w.mem out bs := by
  refine Ensures.ite (fun _ => Ensures.ite (fun _ => ?_) fun hfits => ?_) fun _ => ?_
  · exact Ensures.pure_iff.mpr ⟨[], Nat.zero_le _, (write_nil _ _).symm⟩
  · refine Ensures.bind_iff.mpr (ensures_writeMem.mpr (Ensures.pure_iff.mpr ⟨e.der.bytes, ?_, rfl⟩))
    have hlen : e.der.bytes.length ≤ e.der.len := by
      simp only [HeapBytes.bytes, HeapBuf.bytes, List.length_map, List.length_take]
      omega
    omega
  · refine Ensures.bind_iff.mpr (ensures_psa.mpr fun r _ => Ensures.bind_iff.mpr
      (ensures_writeOutput.mpr ?_))
    have hsame : ∀ v : ZucStatus × Nat, Ensures (fun _ => True) (pure v : Adapter O _)
        ((w.noteAlloc r.allocFailed).store out (r.answer.2.bytes.take outSize)) fun _ _ w' =>
          ∃ bs : List Byte, bs.length ≤ outSize ∧ w'.mem = write w.mem out bs := fun v =>
      Ensures.pure_iff.mpr ⟨_, List.length_take_le _ _, rfl⟩
    exact Ensures.ite (fun _ => hsame _) fun _ => Ensures.ite (fun _ => hsame _) fun _ => hsame _

/-- A `zuc_pkey_write` that fails leaves nothing of the key in its caller's buffer. -/
theorem pkeyWriteImpl_clean (key : Option ZucPkey) (format : ZucPkeyFormat) (publicOnly : Bool)
    (out outSize : Nat) (outLen : SizeCell) (w : World) :
    Ensures (fun _ => True) (pkeyWriteImpl key format publicOnly out outSize outLen : Adapter O _) w
      fun _ r w' => r.1 ≠ .ok → LeftClean w.mem out outSize w'.mem := by
  have hsame : ∀ v : ZucStatus × SizeCell, Ensures (fun _ => True) (pure v : Adapter O _) w
      fun _ r w' => r.1 ≠ .ok → LeftClean w.mem out outSize w'.mem :=
    fun _ => Ensures.pure_iff.mpr fun _ => .inl rfl
  cases key with
  | none => exact hsame _
  | some k =>
    refine Ensures.ite (fun _ => hsame _) fun hargs => ?_
    refine Ensures.bind_iff.mpr (Ensures.bind_iff.mpr (Ensures.read_iff.mpr (Ensures.pure_iff.mpr ?_)))
    refine Ensures.ite (fun _ => hsame _) fun _ => ?_
    refine Ensures.ite
      (fun _ => Ensures.bind_iff.mpr (((silent_ecEncode _ _ _).mem w).mono fun _ => ?_))
      fun _ => Ensures.bind_iff.mpr (((silent_rsaEncode _ _ _).mem w).mono fun _ => ?_)
    all_goals
      intro e w₁ hw₁
      cases e with
      | error st => exact Ensures.pure_iff.mpr fun _ => .inl hw₁
      | ok e =>
        refine Ensures.bind_iff.mpr ((writeEncoding_within e format out outSize w₁).mono ?_)
        rintro t r w₂ ⟨bs, hbs, hw₂⟩
        refine Ensures.bind_iff.mpr (Ensures.perform_iff.mpr fun _ _ => ?_)
        refine Ensures.ite (fun _ => ?_) fun _ => Ensures.pure_iff.mpr fun hne => absurd rfl hne
        refine Ensures.bind_iff.mpr ((Ensures.of_done (zucSecureZero_apply out outSize w₂)).mpr
          (Ensures.pure_iff.mpr fun _ => .inr ?_))
        -- what had been written is inside what is wiped
        rw [if_neg fun hnull => hargs (.inl hnull), World.store_mem, hw₂, hw₁]
        apply write_write_cover
        rwa [List.length_replicate]

/-- The allocation watch makes no success a failure. -/
theorem watched_clean {impl : Adapter O (ZucStatus × SizeCell)} {out outSize : Nat} {w : World}
    (h : ∀ w, Ensures (fun _ => True) impl w fun _ r w' =>
      r.1 ≠ .ok → LeftClean w.mem out outSize w'.mem) :
    Ensures (fun _ => True) (watched impl) w fun _ r w' =>
      r.1 ≠ .ok → LeftClean w.mem out outSize w'.mem := by
  refine Ensures.bind_iff.mpr (Ensures.update_iff.mpr (Ensures.bind_iff.mpr ((h _).mono ?_)))
  intro t r w₁ hclean
  refine Ensures.bind_iff.mpr (Ensures.bind_iff.mpr (Ensures.read_iff.mpr
    (Ensures.pure_iff.mpr (Ensures.pure_iff.mpr fun hne => hclean fun hok => ?_))))
  have hst : (if r.1 ≠ .ok ∧ w₁.allocFailed = true then ZucStatus.errMemory else r.1) = .ok := by
    rw [hok]
    exact if_neg fun hfail => hfail.1 rfl
  exact hne hst

/-! ### A backend that pads -/

/-- Every answer of `unitBackend` is padded. -/
theorem exportsPadded_unitBackend {α : Type} (c : Call referenceObjects α) (s : Nat) :
    ExportsPadded ⟨c, (unitBackend α c s).1⟩ := by
  cases c with
  | psa c =>
    cases c with
    | exportKey id size =>
      intro _ b hb
      have hlength : (Der.fixed 66 1).length = 66 := Der.length_fixed (by decide)
      have hb : b ∈ ((Der.fixed 66 1 ++ List.replicate (size - 66) 0).take size).drop 66 := hb
      rw [List.drop_take] at hb
      have hpad := List.mem_of_mem_take hb
      rw [List.drop_left' hlength] at hpad
      exact List.eq_of_mem_replicate hpad
    | _ => trivial
  | _ => trivial

/-- A private key has been exported. -/
def exportsKey : Event (Call referenceObjects) → Bool
  | ⟨.psa (.exportKey ..), r⟩ => r.answer.1 = .success
  | _ => false

/-! ### The whole library -/

/-- In any calls, with a backend and an allocator that may fail anywhere, every block that
is freed and every array that goes out of scope is all zero, or never held anything but
public data; and what a failed `zuc_pkey_write` leaves in its caller's buffer is what was
there, or zeros. -/
theorem private_material_wiped (w : World) (cmds : List Command) :
    Ensures ExportsPadded (session ([] : Pool O) cmds) w (fun t _ _ => ∀ e ∈ t, Releases t e) ∧
      ∀ (key : Option ZucPkey) (format : ZucPkeyFormat) (publicOnly : Bool) (out outSize : Nat)
        (outLen : SizeCell),
        Ensures (fun _ => True)
          (zucPkeyWrite key format publicOnly out outSize outLen : Adapter O _) w
          fun _ r w' => r.1 ≠ .ok → LeftClean w.mem out outSize w'.mem := by
  constructor
  · intro t rs w' hrun hok
    have hempty : SafePool t ([] : Pool O) := fun _ hh => nomatch hh
    exact (tidy_session hempty cmds w t rs w' hrun hok fun e he => he).1
  · exact fun key format publicOnly out outSize outLen =>
      watched_clean fun w₀ => pkeyWriteImpl_clean key format publicOnly out outSize outLen w₀

/-- A key is imported, written and freed: its private half is exported on the way, and nothing of it
is left in what is released. -/
theorem private_material_wiped_p521 :
    let cmds : List Command := [.store 0x100 (Der.fixed 66 1), .pkeyImport .ecP521 true 0x100 66 true,
      .pkeyWrite 0 .pkcs1Der false 0x200 0x100 (some 0), .pkeyFree 0]
    let r := (session ([] : Pool referenceObjects) cmds).exec unitBackend readyWorld 0x1000
    let t := (session ([] : Pool referenceObjects) cmds readyWorld).trace unitBackend 0x1000
    r.value.1.map (·.status) = [.ok, .ok, .ok, .ok] ∧ t.any exportsKey = true ∧ ∀ e ∈ t, Releases t e := by
  intro cmds r t
  obtain ⟨hreleases, -⟩ := private_material_wiped (O := referenceObjects) readyWorld cmds
  refine ⟨by decide +kernel, by decide +kernel, ?_⟩
  exact hreleases.exec unitBackend 0x1000 (Program.trace_forall exportsPadded_unitBackend _ _)

end Zucrypt
