import Zucrypt.DigestContract

/-! # HMAC for every key

One-shot and incremental HMAC give RFC 2104's MAC for a key of any length: the three regimes of
`import_hmac_key` all import a key with the caller's key block.

PSA refuses an HMAC key of length 0, and takes no part in shortening a long one, so the adapter does
both: a key longer than a block is replaced by its hash, and the empty key by one zero byte.
`hmac_every_key` is that neither can be seen.  It states the MAC in RFC 2104's own terms (`hmac` of
`KeyedHash`, at the block length of the algorithm), and then

* the one-shot function succeeds and delivers it;
* a handle can be created whenever `calloc` succeeds;
* from creation or from any reset, whatever came before, the handle delivers it for a message fed
  in any parts;
* a long key and its hash, and the empty key and a zero byte, have the same MACs;
* a key of exactly a block is imported as it is, without a call to the backend's hash.

The hypotheses are those of `digest_handles_contract`; the last clause needs none of them, being
about the calls that are made. -/
namespace Zucrypt
open Effects ByteMemory Machines KeyedHash

variable {O : Objects} {σ κ Op : Type} {h : Handler (Call O) σ}
  {H : PsaAlg → List Byte → List Byte}

/-! ### One-shot -/

/-- Arguments `check_digest_args` accepts. -/
structure DigestArgs (w : World) (alg : ZucAlg) (data dataLen out outSize : Nat) : Prop where
  ready : 0 < w.refcount
  available : zucIntDigestAvailable alg = true
  data : ¬ (data = NULL ∧ dataLen ≠ 0)
  out : out ≠ NULL
  size : zucAlgSize alg ≤ outSize

/-- The checks pass, and change nothing. -/
theorem exec_checkDigestArgs {w : World} {s : σ} {alg : ZucAlg} {data dataLen out outSize len : Nat}
    (ha : DigestArgs w alg data dataLen out outSize) :
    (checkDigestArgs alg data dataLen out outSize (some len)).exec h w s = ⟨.ok, w, s⟩ := by
  have hready : decide (0 < w.refcount) = true := decide_eq_true ha.ready
  simp only [checkDigestArgs, Proc.exec_bind, exec_zucIntReady, hready, Bool.true_eq_false, if_false,
    ha.out, reduceCtorEq, or_self, ha.data, ha.available, Nat.not_lt.mpr ha.size, Proc.exec_pure]

/-- A MAC has the digest's size. -/
theorem hmacOf_length (LH : HashLaws h H) {alg : ZucAlg} (halg : zucIntDigestAvailable alg = true)
    (K m : List Byte) : (hmacOf H (zucIntPsaHash alg) K m).length = zucAlgSize alg :=
  LH.length alg _ halg

/-- `zuc_hmac_compute` succeeds, and delivers the MAC. -/
theorem exec_zucHmacCompute (LH : HashLaws h H) (LM : MacLaws h H) {w : World} {alg : ZucAlg}
    {key keyLen data dataLen out outSize : Nat} (ha : DigestArgs w alg data dataLen out outSize)
    (hkey : ¬ (key = NULL ∧ keyLen ≠ 0)) (s : σ) (len : Nat) :
    ((zucHmacCompute alg key keyLen data dataLen out outSize (some len)).exec h w s).value =
        (.ok, some (zucAlgSize alg)) ∧
      read ((zucHmacCompute alg key keyLen data dataLen out outSize (some len)).exec h w s).world.mem
          out (zucAlgSize alg) =
        hmacOf H (zucIntPsaHash alg) (read w.mem key keyLen) (read w.mem data dataLen) := by
  obtain ⟨id, b, s', himport, hkeyAt⟩ := exec_importHmacKey LH LM ha.available w s key keyLen
  have hsize : ∀ K m, (hmacOf H (zucIntPsaHash alg) K m).length ≤ outSize :=
    fun K m => hmacOf_length LH ha.available K m ▸ ha.size
  obtain ⟨hok, hout⟩ :=
    LM.compute s' id _ _ (read w.mem data dataLen) outSize hkeyAt (hsize _ _)
  rw [hmacOf_importedKey LH ha.available] at hout
  have hlen := hmacOf_length LH ha.available (read w.mem key keyLen) (read w.mem data dataLen)
  have hread := hout.read_store ((w.noteAlloc b).noteAlloc (allocFails h
    (.macCompute id (.hmac (zucIntPsaHash alg)) (read w.mem data dataLen) outSize) s')) out
    (hsize _ _)
  rw [hlen] at hread
  simp only [zucHmacCompute, Proc.exec_bind, exec_checkDigestArgs ha, ne_eq, not_true_eq_false,
    if_false, if_neg hkey, himport, exec_readMem, exec_psa, exec_writeOutput, Proc.exec_pure, hok,
    zucIntFromPsa_success, World.noteAlloc_mem, hout.1, hlen]
  exact ⟨rfl, hread⟩

/-! ### Incremental -/

/-- `zuc_hmac_new` succeeds where its structure can be allocated. -/
theorem exec_zucHmacNew (LH : HashLaws h H) (LM : MacLaws h H) {w : World} {alg : ZucAlg}
    {key keyLen self : Nat} (hready : 0 < w.refcount) (halg : zucIntDigestAvailable alg = true)
    (hkey : ¬ (key = NULL ∧ keyLen ≠ 0)) {s : σ} (hself : (h _ (.calloc .zucHmac) s).1 = some self) :
    ∃ hd, ((zucHmacNew alg key keyLen true).exec h w s).value = (.ok, some hd) := by
  obtain ⟨id, b, s₁, himport, hkeyAt⟩ :=
    exec_importHmacKey LH LM halg w (h _ (.calloc .zucHmac) s).2 key keyLen
  obtain ⟨hok, -⟩ := LM.setup s₁ id (zucIntPsaHash alg) _ hkeyAt
  have hready : decide (0 < w.refcount) = true := decide_eq_true hready
  simp only [zucHmacNew, Proc.exec_bind, exec_zucIntReady, hready, Bool.true_eq_false, if_false,
    if_neg hkey, halg, exec_callocRecord, hself, himport, ne_eq, not_true_eq_false, exec_psa, hok,
    exec_zucIntLiveAdd, Proc.exec_pure]
  exact ⟨_, rfl⟩

/-- A part of a message: where it is, how long, and the memory it is in. -/
structure Chunk where
  mem : Memory
  data : Nat
  len : Nat
  valid : ¬ (data = NULL ∧ len ≠ 0)

namespace Chunk

def bytes (c : Chunk) : List Byte := read c.mem c.data c.len

/-- The update that feeds the part. -/
def update (c : Chunk) : StreamStep := ⟨c.mem, .update c.data c.len⟩

end Chunk

section
variable {size : Nat} {D : List Byte → List Byte}

/-- An update with a valid part is accepted. -/
theorem accumulator_update (m : List Byte) (c : Chunk) :
    (accumulator size D).step (some m) c.update = (⟨.ok, none, []⟩, some (m ++ c.bytes)) := by
  simp only [accumulator, Chunk.update, if_neg c.valid, Chunk.bytes]

/-- Fed in any parts, the accumulator accepts them all and holds their concatenation. -/
theorem accumulator_updates (size : Nat) (D : List Byte → List Byte) (m : List Byte)
    (chunks : List Chunk) :
    (accumulator size D).after (some m) (chunks.map Chunk.update) =
        some (m ++ chunks.flatMap Chunk.bytes) ∧
      ∀ e ∈ (accumulator size D).log (some m) (chunks.map Chunk.update), e.2.status = .ok := by
  induction chunks generalizing m with
  | nil => simp
  | cons c chunks ih =>
    obtain ⟨hafter, hlog⟩ := ih (m ++ c.bytes)
    simp only [List.map_cons, Machine.after_cons, Machine.log_cons, accumulator_update,
      List.flatMap_cons, hafter, List.append_assoc, List.mem_cons]
    refine ⟨trivial, ?_⟩
    rintro e (rfl | he)
    · rfl
    · exact hlog e he

/-- From a state that answers as the empty accumulator: parts, then a finish with
room for the digest. -/
theorem stream_chunks {B : StreamOps O κ Op} {st : StreamState κ Op σ}
    (hst : Machine.Indistinguishable (streamMachine h B) st (accumulator size D) (some []))
    (chunks : List Chunk) (mem : Memory) {out outSize : Nat} (hout : out ≠ NULL)
    (hsize : size ≤ outSize) (len : Nat) :
    (∀ e ∈ (streamMachine h B).log st (chunks.map Chunk.update), e.2.status = .ok) ∧
      let r := (streamMachine h B).step ((streamMachine h B).after st (chunks.map Chunk.update))
        ⟨mem, .finish out outSize (some len)⟩
      r.1.status = .ok ∧ r.1.outLen = some size ∧
        read r.2.world.mem out size = D (chunks.flatMap Chunk.bytes) := by
  obtain ⟨hafter, hlog⟩ := accumulator_updates size D [] chunks
  exact ⟨hst _ ▸ hlog, finish_delivers hst hafter mem hout hsize len⟩

end

/-! ### Every key -/

/-- A key that fits a block is imported as it is, and nothing is hashed. -/
theorem importHmacKey_trace {w : World} {s : σ} {alg : ZucAlg} {key keyLen : Nat} {palg : PsaAlg}
    (hone : 1 ≤ keyLen) (hblock : keyLen ≤ psaHashBlockLength (zucIntPsaHash alg)) :
    ((importHmacKey alg key keyLen palg w).trace h s).map Event.call =
      [⟨_, .psa (.importKey (hmacKeyAttributes palg) (read w.mem key keyLen))⟩,
        ⟨_, .dropLocal []⟩] := by
  have hlen : (read w.mem key keyLen).length ≠ 0 := by simpa using Nat.ne_of_gt hone
  simp only [importHmacKey, Proc.bind_apply, readMem, Proc.read_apply, Program.done_bind,
    Proc.pure_apply, if_neg (Nat.not_lt.mpr hblock), importReducedKey, if_neg hlen]
  rfl

/-- The handle has just been created, or reset. -/
def AtStart (steps : List StreamStep) : Prop :=
  steps = [] ∨ ∃ before mem, steps = before ++ [⟨mem, .reset⟩]

/-- **HMAC is RFC 2104's for every key.**  With `mac` the MAC of RFC 2104 over `H`:
one-shot HMAC succeeds and delivers it; a handle can be created, and from creation
or any later reset delivers it for the message fed in any parts; a key longer than
a block and its hash give the same MAC, and so do the empty key and a zero byte;
and a key of exactly a block is imported without being hashed. -/
theorem hmac_every_key (LH : HashLaws h H) (LM : MacLaws h H) (alg : ZucAlg)
    (halg : zucIntDigestAvailable alg = true) :
    let B := psaHashBlockLength (zucIntPsaHash alg)
    let mac := hmac (H (zucIntPsaHash alg)) B
    (∀ w s key keyLen data dataLen out outSize len,
      DigestArgs w alg data dataLen out outSize → ¬ (key = NULL ∧ keyLen ≠ 0) →
        let r := (zucHmacCompute alg key keyLen data dataLen out outSize (some len)).exec h w s
        r.value = (.ok, some (zucAlgSize alg)) ∧
          read r.world.mem out (zucAlgSize alg) =
            mac (read w.mem key keyLen) (read w.mem data dataLen)) ∧
    (∀ w s key keyLen, 0 < w.refcount → ¬ (key = NULL ∧ keyLen ≠ 0) →
      (h _ (.calloc .zucHmac) s).1 ≠ none →
        ∃ hd, ((zucHmacNew alg key keyLen true).exec h w s).value = (.ok, some hd)) ∧
    (∀ K st before (chunks : List Chunk) mem out outSize len, HmacCreated h alg K st → AtStart before →
      out ≠ NULL → zucAlgSize alg ≤ outSize →
        let M := streamMachine h macOps
        let st₁ := M.after st before
        let r := M.step (M.after st₁ (chunks.map Chunk.update)) ⟨mem, .finish out outSize (some len)⟩
        (∀ e ∈ M.log st₁ (chunks.map Chunk.update), e.2.status = .ok) ∧ r.1.status = .ok ∧
          r.1.outLen = some (zucAlgSize alg) ∧
          read r.2.world.mem out (zucAlgSize alg) = mac K (chunks.flatMap Chunk.bytes)) ∧
    (∀ K m, B < K.length → mac (H (zucIntPsaHash alg) K) m = mac K m) ∧
    (∀ m, mac [0] m = mac [] m) ∧
    (∀ w s key palg, ((importHmacKey alg key B palg w).trace h s).map Event.call =
        [⟨_, .psa (.importKey (hmacKeyAttributes palg) (read w.mem key B))⟩,
          ⟨_, .dropLocal []⟩]) := by
  intro B mac
  refine ⟨?compute, ?new, ?stream, ?long, ?empty, ?block⟩
  case compute =>
    intro w s key keyLen data dataLen out outSize len ha hkey
    exact exec_zucHmacCompute LH LM ha hkey s len
  case new =>
    intro w s key keyLen hready hkey hself
    obtain ⟨self, hself⟩ := Option.ne_none_iff_exists'.mp hself
    exact exec_zucHmacNew LH LM hready halg hkey hself
  case stream =>
    intro K st before chunks mem out outSize len hst hbefore hout hsize
    have hc : StreamContract h macOps (HmacCreated h alg K) (zucAlgSize alg) (mac K) :=
      streamContract_of_tracks (fun m => LH.length alg _ halg)
        (fun st hst => ⟨_, _, hst.tracks LH LM⟩)
    refine stream_chunks ?_ chunks mem hout hsize len
    -- a handle starts new, or was reset after whatever was done with it
    rcases hbefore with rfl | ⟨before, mem', rfl⟩
    · exact hc.refines st hst
    · rw [Machine.after_append]
      exact (hc.reset st before mem' st hst hst).2.trans (hc.refines st hst)
  case long =>
    intro K m hK
    have := hmac_reduced (H := H (zucIntPsaHash alg)) (B := B) (hashLength_le_block LH halg K) m
    rwa [reduced_of_lt hK] at this
  case empty => exact hmac_append_zeros (K := []) (n := 1) (by simpa using block_pos halg)
  case block =>
    intro w s key palg
    exact importHmacKey_trace (block_pos halg) (Nat.le_refl B)

/-- The same at a published key of 131 bytes: one-shot, and over a handle that is used, reset
and fed the message in two parts; the key's hash gives the same MAC. -/
theorem hmac_every_key_known :
    let h := referenceBackend knownPrimitives
    let mem := write (write readyWorld.mem 0x300 longKeyMessage) 0x400 longKey
    let w : World := { readyWorld with mem }
    let before : List StreamStep := [⟨mem, .update 0x300 7⟩, ⟨mem, .reset⟩]
    let chunks : List Chunk := [⟨mem, 0x300, 20, by decide⟩, ⟨mem, 0x314, 34, by decide⟩]
    (((zucHmacCompute .sha256 0x400 131 0x300 54 0x100 32 (some 0)).exec h w .initial).value =
        (.ok, some 32) ∧
      read ((zucHmacCompute .sha256 0x400 131 0x300 54 0x100 32 (some 0)).exec h w .initial).world.mem
        0x100 32 = longKeyMac) ∧
    (∃ st, HmacCreated h .sha256 longKey st ∧
      read ((streamMachine h macOps).step ((streamMachine h macOps).after
        ((streamMachine h macOps).after st before) (chunks.map Chunk.update))
          ⟨mem, .finish 0x100 32 (some 0)⟩).2.world.mem 0x100 32 = longKeyMac) ∧
    hmacOf knownHash .sha256 longKeyDigest longKeyMessage = longKeyMac := by
  intro h mem w before chunks
  obtain ⟨hcompute, -, hstream, hlong, -⟩ := hmac_every_key (h := h) (referenceHashLaws knownPrimitives)
    (referenceMacLaws knownPrimitives) .sha256 (by decide)
  have hsize : zucAlgSize .sha256 = 32 := rfl
  have hkey : read mem 0x400 131 = longKey := read_write_self _ _ _
  have hmessage : read mem 0x300 54 = longKeyMessage := by decide +kernel
  have hmac : hmac (knownPrimitives.hash (zucIntPsaHash .sha256)) 64 longKey longKeyMessage = longKeyMac := by
    decide +kernel
  refine ⟨?_, ?_, ?_⟩
  · have hargs : DigestArgs w .sha256 0x300 54 0x100 32 :=
      ⟨by decide, by decide, by decide, by decide, by decide⟩
    obtain ⟨hst, hdelivered⟩ := hcompute w .initial 0x400 131 0x300 54 0x100 32 0 hargs (by decide)
    rw [show w.mem = mem from rfl, hkey, hmessage, hsize] at hdelivered
    rw [hsize] at hst
    exact ⟨hst, hdelivered.trans hmac⟩
  · obtain ⟨st, hst⟩ : ∃ st, HmacCreated h .sha256 longKey st :=
      exists_hmacCreated (w := w) (s := .initial) 0x400 longKey hkey (by decide +kernel) (by decide +kernel)
    obtain ⟨-, -, -, hdelivered⟩ := hstream longKey st before chunks mem 0x100 32 0 hst
      (.inr ⟨[⟨mem, .update 0x300 7⟩], mem, rfl⟩) (by decide) (by decide)
    have hfed : chunks.flatMap Chunk.bytes = longKeyMessage := by decide +kernel
    rw [hfed, hsize] at hdelivered
    exact ⟨st, hst, hdelivered.trans hmac⟩
  · have hdigest : knownPrimitives.hash (zucIntPsaHash .sha256) longKey = longKeyDigest := by decide +kernel
    have hreduced := hlong longKey longKeyMessage (by rw [longKey, List.length_replicate]; decide)
    rw [hdigest] at hreduced
    exact hreduced.trans hmac

end Zucrypt
