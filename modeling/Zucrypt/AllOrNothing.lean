import Zucrypt.Aead
import Zucrypt.Custody
import Zucrypt.Kdf
import Zucrypt.ReferenceBackend

/-! # One-shot secret operations are all or nothing

Authenticated encryption and decryption, and key derivation, fill a buffer of the caller step by
step while the backend can fail at any of them.  `AllOrNothing` is what the caller may rely on
whatever the backend does:

* arguments that are refused leave its memory as it was, and nothing is called;
* any later failure leaves zeros in the whole of the buffer;
* a success leaves a buffer every byte of which the backend reported;
* the key and the operation are given back in the end, whichever way it was.

The three functions are alike: checks, a run, and a wipe on failure.  `allOrNothing_of_run` proves
the law of that shape once, from what a run does with what it borrowed (the lemmas named `_custody`)
and from what it has put into the buffer when it succeeds (`aeadRun_complete` and
`pbkdf2Run_complete`).

The backend is any at all, and so is every answer it gives.  The third point alone needs
`SaneReport`: that a call does not report to have written more than it was given room for, which the
adapter has no way to check. -/
namespace Zucrypt
open Effects ByteMemory BlockChaining

variable {O : Objects}

/-- A buffer of the caller, and what of a trace belongs in it. -/
structure OutputBuffer (O : Objects) where
  ptr : Nat
  len : Nat
  source : List (Event (Call O)) → List Byte

/-- The procedure `p`, whose checks give `verdict`, fills `outputs` or nothing. -/
structure AllOrNothing (w : World) (verdict : ZucStatus) (p : Adapter O ZucStatus)
    (outputs : List (OutputBuffer O)) : Prop where
  /-- refused arguments: nothing is called, and nothing is written -/
  refused : verdict ≠ .ok → p w = .done (verdict, w)
  /-- any later failure: zeros -/
  wiped : verdict = .ok → Ensures (fun _ => True) p w fun _ st w' =>
    st ≠ .ok → ∀ o ∈ outputs, read w'.mem o.ptr o.len = List.replicate o.len 0
  /-- success: what the backend reported, all of it -/
  complete : verdict = .ok → Ensures SaneReport p w fun t st w' =>
    st = .ok → ∀ o ∈ outputs, read w'.mem o.ptr o.len = o.source t
  /-- on every path, keys that were imported are destroyed and operations ended -/
  custody : Ensures (fun _ => True) p w fun t _ _ =>
    ∀ c : Custody, c.aead = false → c.kdf = false → c.after t = c

/-! ### The backend's side of `aead_run` -/

section
variable {w : World} {a : AeadProgress O}

/-- Setting the nonce takes nothing and gives nothing back. -/
theorem aeadNonce_custody (nonce nonceLen : Nat) :
    Ensures (fun _ => True) (aeadNonce nonce nonceLen a) w
      fun t _ _ => ∀ c : Custody, c.after t = c := by
  refine Ensures.ite (fun _ => ?_) (fun _ => ?_)
  · simp only [Ensures.bind_iff, ensures_readMem, ensures_psa, Ensures.pure_iff]
    exact fun r _ c => rfl
  · exact Ensures.pure_iff.mpr (fun c => rfl)

/-- Nor does the associated data. -/
theorem aeadAd_custody (aad aadLen : Nat) :
    Ensures (fun _ => True) (aeadAd aad aadLen a) w
      fun t _ _ => ∀ c : Custody, c.after t = c := by
  refine Ensures.ite (fun _ => ?_) (fun _ => ?_)
  · simp only [Ensures.bind_iff, ensures_readMem, ensures_psa, Ensures.pure_iff]
    exact fun r _ c => rfl
  · exact Ensures.pure_iff.mpr (fun c => rfl)

/-- Nor the data. -/
theorem aeadData_custody (inp len out : Nat) :
    Ensures (fun _ => True) (aeadData inp len out a) w
      fun t _ _ => ∀ c : Custody, c.after t = c := by
  refine Ensures.ite (fun _ => ?_) (fun _ => ?_)
  · simp only [Ensures.bind_iff, ensures_readMem, ensures_psa, ensures_writeOutput,
      Ensures.pure_iff]
    exact fun r _ c => rfl
  · exact Ensures.pure_iff.mpr (fun c => rfl)

/-- The last step ends the operation, if it succeeds. -/
theorem aeadLast_custody (dir : Direction) (len out tag tagLen : Nat) :
    Ensures (fun _ => True) (aeadLast dir len out tag tagLen a) w
      fun t a' _ => ∀ c : Custody, c.aead = true →
        c.after t = { c with aead := decide (a'.ps ≠ .success) } := by
  refine Ensures.ite (fun _ => ?_) (fun hps => ?_)
  · cases dir with
    | encrypt =>
      simp only [Ensures.bind_iff, ensures_psa, ensures_writeOutput, Ensures.pure_iff]
      intro r _ c hc
      by_cases hr : r.answer.1 = .success
      · simp [Custody.event, hr]
      · simp [Custody.event, hr, ← hc]
    | decrypt =>
      simp only [Ensures.bind_iff, ensures_readMem, ensures_psa, ensures_writeOutput,
        Ensures.pure_iff]
      intro r _ c hc
      by_cases hr : r.answer.1 = .success
      · simp [Custody.event, hr]
      · simp [Custody.event, hr, ← hc]
  · refine Ensures.pure_iff.mpr (fun c hc => ?_)
    simp [hps, ← hc]

/-- The end destroys the key, and aborts an operation that did not end. -/
theorem aeadEnd_custody (dir : Direction) (len tagLen : Nat) (k : KeyId) :
    Ensures (fun _ => True) (aeadEnd dir len tagLen k a) w
      fun t _ _ => ∀ c : Custody, c.aead = decide (a.ps ≠ .success) →
        c.after t = { c with keys := c.keys.erase k, aead := false } := by
  refine Ensures.ite (fun hps => ?_) (fun hps => ?_)
  · simp only [Ensures.bind_iff, ensures_psa, Ensures.pure_iff]
    exact fun r _ r' _ c _ => rfl
  · simp only [Ensures.bind_iff, ensures_psa, Ensures.pure_iff]
    intro r _ c hc
    rw [decide_eq_false hps] at hc
    simp [Custody.event, ← hc]

/-- A pass gives back what it takes: its key, and the operation it began. -/
theorem aeadRun_custody (dir : Direction) (alg : ZucAlg)
    (key keyLen nonce nonceLen aad aadLen inp len out tag tagLen : Nat) :
    Ensures (fun _ => True)
      (aeadRun dir alg key keyLen nonce nonceLen aad aadLen inp len out tag tagLen : Adapter O _) w
      fun t _ _ => ∀ c : Custody, c.aead = false → c.after t = c := by
  simp only [aeadRun, importAeadKey, Ensures.bind_iff, ensures_readMem, ensures_psa,
    Ensures.pure_iff]
  intro k _
  refine Ensures.ite (fun hk => ?_) (fun hk => ?_)
  · refine Ensures.pure_iff.mpr (fun c hc => ?_)
    have hfail : k.answer.1 ≠ .success := fun h => hk (by rw [h]; rfl)
    simp [Custody.event, Custody.withKey, hfail]
  · have hok : k.answer.1 = .success := zucIntFromPsa_eq_ok.mp (not_not.mp hk)
    simp only [Ensures.bind_iff, ensures_psa]
    intro setup _
    refine (aeadNonce_custody nonce nonceLen).mono (fun t₁ a₁ w₁ h₁ => ?_)
    refine (aeadAd_custody aad aadLen).mono (fun t₂ a₂ w₂ h₂ => ?_)
    refine (aeadData_custody inp len out).mono (fun t₃ a₃ w₃ h₃ => ?_)
    refine (aeadLast_custody dir len out tag tagLen).mono (fun t₄ a₄ w₄ h₄ => ?_)
    refine (aeadEnd_custody dir len tagLen k.answer.2).mono (fun t₅ st w₅ h₅ c hc => ?_)
    have hsetup : ∀ c : Custody,
        c.event ⟨.psa (aeadSetup dir O.aeadInit k.answer.2 (psaAeadAlg alg)), setup⟩ =
          { c with aead := true } := by
      cases dir <;> exact fun c => rfl
    simp only [Custody.after_append, Custody.after_cons, Custody.after_nil, hsetup, h₁, h₂, h₃]
    rw [h₄ _ rfl, h₅ _ rfl]
    simp [Custody.event, Custody.withKey, hok, ← hc]

end

/-! ### What `aead_run` delivers -/

section
variable {w w' : World} {a : AeadProgress O}

/-- A step that produces nothing. -/
structure Idle (a : AeadProgress O) (w : World) (t : List (Event (Call O)))
    (a' : AeadProgress O) (w' : World) : Prop where
  mem : w'.mem = w.mem
  produced : a'.produced = a.produced
  data : reportedData t = []
  tag : reportedTag t = []

/-- Setting the nonce writes nothing. -/
theorem aeadNonce_idle (nonce nonceLen : Nat) :
    Ensures SaneReport (aeadNonce nonce nonceLen a) w (Idle a w) := by
  refine Ensures.ite (fun _ => ?_) (fun _ => ?_)
  · simp only [Ensures.bind_iff, ensures_readMem, ensures_psa, Ensures.pure_iff]
    exact fun r _ => ⟨rfl, rfl, rfl, rfl⟩
  · exact Ensures.pure_iff.mpr ⟨rfl, rfl, rfl, rfl⟩

/-- Nor does the associated data. -/
theorem aeadAd_idle (aad aadLen : Nat) :
    Ensures SaneReport (aeadAd aad aadLen a) w (Idle a w) := by
  refine Ensures.ite (fun _ => ?_) (fun _ => ?_)
  · simp only [Ensures.bind_iff, ensures_readMem, ensures_psa, Ensures.pure_iff]
    exact fun r _ => ⟨rfl, rfl, rfl, rfl⟩
  · exact Ensures.pure_iff.mpr ⟨rfl, rfl, rfl, rfl⟩

/-- The buffer holds what has been reported so far. -/
structure Filled (len out : Nat) (data : List Byte) (a : AeadProgress O) (w : World) : Prop where
  room : a.produced ≤ len
  data : read w.mem out a.produced = data

/-- What the data writes is at the front of the output, and is what the backend reported. -/
theorem aeadData_filled (inp len out : Nat) (hnone : a.produced = 0) :
    Ensures SaneReport (aeadData inp len out a) w fun t a' w' =>
      reportedTag t = [] ∧ (a'.ps = .success → Filled len out (reportedData t) a' w') := by
  refine Ensures.ite (fun _ => ?_) (fun _ => ?_)
  · simp only [Ensures.bind_iff, ensures_readMem, ensures_psa, ensures_writeOutput,
      Ensures.pure_iff]
    intro r hr
    refine ⟨rfl, fun hok => ?_⟩
    have hfits : r.answer.2.2.Fits len := hr hok
    have hread := read_write_prefix (w.noteAlloc r.allocFailed).mem out hfits.stored
    rw [hfits.length_reported] at hread
    refine ⟨hfits.1, hread.trans ?_⟩
    simp [reportedData, eventData]
  · refine Ensures.pure_iff.mpr ⟨rfl, fun _ => ⟨?_, ?_⟩⟩
    · omega
    · rw [hnone]
      rfl

/-- More is put after what is there. -/
theorem read_write_more (m : Memory) {out p f : Nat} {ds bs : List Byte} {o : Output} {size : Nat}
    (hread : read m out p = ds) (hfits : o.Fits size) (hf : f = o.len) (hbs : bs = o.reported) :
    read (write m (out + p) (o.bytes.take size)) out (p + f) = ds ++ bs := by
  have hmore := read_write_prefix m (out + p) hfits.stored
  rw [hfits.length_reported] at hmore
  rw [read_add, read_write_apart _ (by unfold Apart; omega), hread, hf, hmore, hbs]

/-- The last step writes the rest behind it. -/
theorem aeadLast_filled (dir : Direction) {len out tag tagLen : Nat} {data : List Byte}
    (hfilled : a.ps = .success → Filled len out data a w)
    (htag : dir = .encrypt → Apart out len tag tagLen) :
    Ensures SaneReport (aeadLast dir len out tag tagLen a) w fun t a' w' => a'.ps = .success →
      a'.produced + a'.finished ≤ len ∧
        read w'.mem out (a'.produced + a'.finished) = data ++ reportedData t ∧
        (dir = .encrypt → a'.tagOut ≤ tagLen ∧ read w'.mem tag a'.tagOut = reportedTag t) := by
  refine Ensures.ite (fun hps => ?_) (fun hps => ?_)
  · obtain ⟨hroom, hdata⟩ := hfilled hps
    have hsub := sizeSub_le hroom
    rw [rest_eq hroom]
    cases dir with
    | encrypt =>
      simp only [Ensures.bind_iff, ensures_psa, ensures_writeOutput, Ensures.pure_iff]
      intro r hr hok
      obtain ⟨hdataFits, htagFits⟩ :
        r.answer.2.2.1.Fits (sizeSub len a.produced) ∧ r.answer.2.2.2.Fits tagLen := hr hok
      have hspace := hdataFits.1
      refine ⟨by show a.produced + r.answer.2.2.1.len ≤ len; omega, ?_, fun _ => ⟨htagFits.1, ?_⟩⟩
      · -- the tag is stored away from the data
        have hapart : Apart tag (r.answer.2.2.2.bytes.take tagLen).length out
            (a.produced + r.answer.2.2.1.len) := by
          have hlen : (r.answer.2.2.2.bytes.take tagLen).length ≤ tagLen := List.length_take_le _ _
          have := htag rfl
          unfold Apart at this ⊢
          omega
        refine (read_write_apart _ hapart).trans (read_write_more _ hdata hdataFits rfl ?_)
        simp [reportedData, eventData]
      · have hread := read_write_prefix (((w.noteAlloc r.allocFailed).store (out + a.produced)
          (r.answer.2.2.1.bytes.take (sizeSub len a.produced))).mem) tag htagFits.stored
        rw [htagFits.length_reported] at hread
        refine hread.trans ?_
        simp [reportedTag, eventTag]
    | decrypt =>
      simp only [Ensures.bind_iff, ensures_readMem, ensures_psa, ensures_writeOutput,
        Ensures.pure_iff]
      intro r hr hok
      have hfits : r.answer.2.2.Fits (sizeSub len a.produced) := hr hok
      have hspace := hfits.1
      refine ⟨by show a.produced + r.answer.2.2.len ≤ len; omega, ?_, by simp⟩
      refine read_write_more _ hdata hfits rfl ?_
      simp [reportedData, eventData]
  · exact Ensures.pure_iff.mpr (fun hok => absurd hok hps)

/-- The end succeeds only where the lengths the backend reported are those of the output and the
tag. -/
theorem aeadEnd_complete (dir : Direction) (len tagLen : Nat) (k : KeyId) :
    Ensures SaneReport (aeadEnd dir len tagLen k a) w fun t st w' =>
      w'.mem = w.mem ∧ reportedData t = [] ∧ reportedTag t = [] ∧
        (st = .ok → a.ps = .success ∧ sizeAdd a.produced a.finished = len ∧
          (dir = .encrypt → a.tagOut = tagLen)) := by
  refine Ensures.ite (fun hps => ?_) (fun hps => ?_)
  · simp only [Ensures.bind_iff, ensures_psa, Ensures.pure_iff]
    intro r _ r' _
    refine ⟨rfl, rfl, rfl, fun hok => ?_⟩
    split at hok
    · simp at hok
    · exact absurd (zucIntFromPsa_eq_ok.mp hok) hps
  · simp only [Ensures.bind_iff, ensures_psa, Ensures.pure_iff]
    intro r _
    refine ⟨rfl, rfl, rfl, fun hok => ?_⟩
    split at hok
    · simp at hok
    · rename_i hcomplete
      obtain ⟨hlen, htag⟩ := not_or.mp hcomplete
      exact ⟨not_not.mp hps, not_not.mp hlen, fun h => not_not.mp fun hne => htag ⟨h, hne⟩⟩

/-- A pass that succeeds has delivered all of its output. -/
theorem aeadRun_complete (dir : Direction) (alg : ZucAlg)
    (key keyLen nonce nonceLen aad aadLen inp : Nat) {len out tag tagLen : Nat}
    (htag : dir = .encrypt → Apart out len tag tagLen) :
    Ensures SaneReport
      (aeadRun dir alg key keyLen nonce nonceLen aad aadLen inp len out tag tagLen : Adapter O _) w
      fun t st w' => st = .ok →
        read w'.mem out len = reportedData t ∧
          (dir = .encrypt → read w'.mem tag tagLen = reportedTag t) := by
  simp only [aeadRun, importAeadKey, Ensures.bind_iff, ensures_readMem, ensures_psa,
    Ensures.pure_iff]
  intro k _
  refine Ensures.ite (fun hk => ?_) (fun _ => ?_)
  · exact Ensures.pure_iff.mpr (fun hok => absurd hok hk)
  simp only [Ensures.bind_iff, ensures_psa]
  intro setup _
  refine (aeadNonce_idle nonce nonceLen).mono (fun t₁ a₁ w₁ h₁ => ?_)
  refine (aeadAd_idle aad aadLen).mono (fun t₂ a₂ w₂ h₂ => ?_)
  have hnone : a₂.produced = 0 := h₂.produced.trans h₁.produced
  refine (aeadData_filled inp len out hnone).mono (fun t₃ a₃ w₃ h₃ => ?_)
  refine (aeadLast_filled dir h₃.2 htag).mono (fun t₄ a₄ w₄ h₄ => ?_)
  refine (aeadEnd_complete dir len tagLen k.answer.2).mono (fun t₅ st w₅ h₅ hok => ?_)
  obtain ⟨hmem, hdata₅, htag₅, hend⟩ := h₅
  obtain ⟨hps, hlen, htagLen⟩ := hend hok
  obtain ⟨hfits, hread, hreadTag⟩ := h₄ hps
  -- the sum is taken in a `size_t`, and is not more than one
  have htotal : a₄.produced + a₄.finished = len := by
    unfold sizeAdd at hlen
    have := Nat.mod_le (a₄.produced + a₄.finished) sizeMax1
    omega
  have hsetup : reportedData [⟨.psa (aeadSetup dir O.aeadInit k.answer.2 (psaAeadAlg alg)), setup⟩] =
      [] ∧ reportedTag [⟨.psa (aeadSetup dir O.aeadInit k.answer.2 (psaAeadAlg alg)), setup⟩] =
      [] := by
    cases dir <;> exact ⟨rfl, rfl⟩
  rw [htotal] at hread
  refine ⟨?_, fun henc => ?_⟩
  · simp only [reportedData_append, hsetup, h₁.data, h₂.data, hdata₅, hmem, hread]
    simp [reportedData, eventData]
  · rw [hmem, ← htagLen henc, (hreadTag henc).2]
    simp only [reportedTag_append, hsetup, h₁.tag, h₂.tag, h₃.1, htag₅]
    simp [reportedTag, eventTag]

end

/-! ### The three operations -/

section
variable {w : World}

/-- What the three have in common: checks, then a run, then wiping on failure. -/
theorem allOrNothing_of_run {β : Type} {verdict : ZucStatus} {p : Adapter O ZucStatus}
    {outputs : List (OutputBuffer O)} {run : Adapter O β} (settle : β → Adapter O ZucStatus)
    (value : β → ZucStatus) (hrefused : verdict ≠ .ok → p w = .done (verdict, w))
    (hrun : verdict = .ok → p w = (run >>= settle) w)
    (hsettle : ∀ b w', ∃ w'', settle b w' = .done (value b, w'') ∧
      (value b = .ok → w'' = w') ∧
      (verdict = .ok → value b ≠ .ok → ∀ o ∈ outputs,
        read w''.mem o.ptr o.len = List.replicate o.len 0))
    (hcomplete : Ensures SaneReport run w fun t b w' => value b = .ok →
      ∀ o ∈ outputs, read w'.mem o.ptr o.len = o.source t)
    (hcustody : Ensures (fun _ => True) run w fun t _ _ =>
      ∀ c : Custody, c.aead = false → c.kdf = false → c.after t = c) :
    AllOrNothing w verdict p outputs := by
  -- once the checks have passed the function is its run and what settles it
  have hunfold : verdict = .ok → ∀ ok Q, Ensures ok (run >>= settle) w Q → Ensures ok p w Q := by
    intro hok ok Q h
    unfold Ensures
    rw [hrun hok]
    exact h
  constructor
  case refused => exact hrefused
  case wiped =>
    intro hok
    refine hunfold hok _ _ (Ensures.bind_iff.mpr (hcustody.mono fun t b w' _ => ?_))
    obtain ⟨w'', hdone, -, hzero⟩ := hsettle b w'
    exact (Ensures.of_done hdone).mpr (hzero hok)
  case complete =>
    intro hok
    refine hunfold hok _ _ (Ensures.bind_iff.mpr (hcomplete.mono fun t b w' hdata => ?_))
    obtain ⟨w'', hdone, hsame, -⟩ := hsettle b w'
    refine (Ensures.of_done hdone).mpr (fun hst o ho => ?_)
    rw [hsame hst, List.append_nil]
    exact hdata hst o ho
  case custody =>
    by_cases hok : verdict = .ok
    · refine hunfold hok _ _ (Ensures.bind_iff.mpr (hcustody.mono fun t b w' hc => ?_))
      obtain ⟨w'', hdone, -, -⟩ := hsettle b w'
      refine (Ensures.of_done hdone).mpr ?_
      rwa [List.append_nil]
    · exact (Ensures.of_done (hrefused hok)).mpr (fun c _ _ => rfl)

/-- What was filled with zeros reads as zeros. -/
theorem read_zeros (m : Memory) (p n : Nat) :
    read (write m p (List.replicate n 0)) p n = List.replicate n 0 :=
  read_write_exact m p List.length_replicate

/-- Wiping a buffer, with or without the test that there is anything to wipe. -/
theorem wipe_apply (p n : Nat) (w : World) : ∃ w',
    ((if n ≠ 0 then zucSecureZero p n else pure () : Adapter O Unit) w) = .done ((), w') ∧
      ((n ≠ 0 → p ≠ NULL) → w'.mem = write w.mem p (List.replicate n 0)) := by
  rw [Proc.ite_apply, zucSecureZero_apply]
  by_cases hn : n ≠ 0
  · rw [if_pos hn]
    refine ⟨_, rfl, fun hp => ?_⟩
    rw [if_neg (hp hn)]
    rfl
  · rw [if_neg hn]
    refine ⟨w, rfl, fun _ => ?_⟩
    rw [not_not.mp hn, List.replicate_zero, write_nil]

/-- `zuc_aead_encrypt`; the tag has a buffer of its own, so it must not be over the ciphertext. -/
theorem zucAeadEncrypt_allOrNothing (alg : ZucAlg)
    (key keyLen nonce nonceLen aad aadLen plaintext : Nat) {len ciphertext tag tagLen : Nat}
    (htag : Apart ciphertext len tag tagLen) :
    AllOrNothing w
      (aeadArgs (decide (0 < w.refcount)) .encrypt alg key keyLen nonce nonceLen aad aadLen plaintext
        len ciphertext tag tagLen)
      (zucAeadEncrypt alg key keyLen nonce nonceLen aad aadLen plaintext len ciphertext tag tagLen :
        Adapter O _)
      [⟨ciphertext, len, reportedData⟩, ⟨tag, tagLen, reportedTag⟩] := by
  refine allOrNothing_of_run (settleEncrypt len ciphertext tag tagLen) id
    ?refused ?run ?settle
    ((aeadRun_complete .encrypt alg key keyLen nonce nonceLen aad aadLen plaintext
      fun _ => htag).mono fun t st w' h hok => ?complete)
    ((aeadRun_custody .encrypt alg key keyLen nonce nonceLen aad aadLen plaintext len ciphertext tag
      tagLen).mono fun t _ _ h c haead _ => h c haead)
  case refused =>
    intro hst
    rw [zucAeadEncrypt, Proc.bind_apply, checkAeadArgs_apply, Program.done_bind, if_pos hst]
    rfl
  case run =>
    intro hst
    rw [zucAeadEncrypt, Proc.bind_apply, checkAeadArgs_apply, Program.done_bind,
      if_neg (not_not.mpr hst)]
  case complete =>
    obtain ⟨hdata, htagData⟩ := h hok
    simp [hdata, htagData]
  case settle =>
    intro st w'
    by_cases hst : st ≠ .ok
    · obtain ⟨w₁, hwipe, hmem⟩ := wipe_apply (O := O) ciphertext len w'
      refine ⟨if tag = NULL then w₁ else w₁.store tag (List.replicate tagLen 0), ?_,
        fun h => absurd h hst, fun hok _ => ?_⟩
      · rw [settleEncrypt, if_pos hst, Proc.bind_apply, hwipe, Program.done_bind, Proc.bind_apply,
          zucSecureZero_apply]
        rfl
      · have hargs := aeadArgs_eq_ok.mp hok
        have hdata := hmem (fun hlen => (hargs.data hlen).2)
        -- the tag is wiped last, and is elsewhere
        have hapart : Apart tag (List.replicate tagLen (0 : Byte)).length ciphertext len := by
          rw [List.length_replicate]
          exact htag.symm
        have hout : read (write w₁.mem tag (List.replicate tagLen 0)) ciphertext len =
            List.replicate len 0 := by
          rw [read_write_apart _ hapart, hdata]
          exact read_zeros w'.mem ciphertext len
        rw [if_neg hargs.tag]
        simp [hout, read_zeros w₁.mem tag tagLen]
    · rw [settleEncrypt, if_neg hst]
      exact ⟨w', rfl, fun _ => rfl, fun _ h => absurd h hst⟩

/-- `zuc_aead_decrypt`, for which there is no such condition: it writes one buffer. -/
theorem zucAeadDecrypt_allOrNothing (alg : ZucAlg)
    (key keyLen nonce nonceLen aad aadLen ciphertext len tag tagLen plaintext : Nat) :
    AllOrNothing w
      (aeadArgs (decide (0 < w.refcount)) .decrypt alg key keyLen nonce nonceLen aad aadLen ciphertext
        len plaintext tag tagLen)
      (zucAeadDecrypt alg key keyLen nonce nonceLen aad aadLen ciphertext len tag tagLen plaintext :
        Adapter O _)
      [⟨plaintext, len, reportedData⟩] := by
  refine allOrNothing_of_run (settleDecrypt len plaintext) id ?refused ?run ?settle
    ((aeadRun_complete .decrypt alg key keyLen nonce nonceLen aad aadLen ciphertext
      fun h => absurd h (by simp)).mono fun t st w' h hok => ?complete)
    ((aeadRun_custody .decrypt alg key keyLen nonce nonceLen aad aadLen ciphertext len plaintext tag
      tagLen).mono fun t _ _ h c haead _ => h c haead)
  case refused =>
    intro hst
    rw [zucAeadDecrypt, Proc.bind_apply, checkAeadArgs_apply, Program.done_bind, if_pos hst]
    rfl
  case run =>
    intro hst
    rw [zucAeadDecrypt, Proc.bind_apply, checkAeadArgs_apply, Program.done_bind,
      if_neg (not_not.mpr hst)]
  case complete =>
    simp [(h hok).1]
  case settle =>
    intro st w'
    by_cases hst : st ≠ .ok ∧ len ≠ 0
    · refine ⟨if plaintext = NULL then w' else w'.store plaintext (List.replicate len 0), ?_,
        fun h => absurd h hst.1, fun hok _ => ?_⟩
      · rw [settleDecrypt, if_pos hst, Proc.bind_apply, zucSecureZero_apply]
        rfl
      · have hargs := aeadArgs_eq_ok.mp hok
        rw [if_neg (hargs.data hst.2).2]
        simp [read_zeros w'.mem plaintext len]
    · rw [settleDecrypt, if_neg hst]
      refine ⟨w', rfl, fun _ => rfl, fun _ h => ?_⟩
      -- a failure that wipes nothing had nothing to wipe
      have hlen : len = 0 := not_not.mp fun hne => hst ⟨h, hne⟩
      simp [hlen]

/-! ### Key derivation -/

theorem kdfStep_custody (call : O.Kdf → PsaCall O (PsaStatus × O.Kdf)) (r : PsaStatus × O.Kdf)
    (hcall : ∀ op x (c : Custody), c.event ⟨.psa (call op), x⟩ = c) :
    Ensures (fun _ => True) (kdfStep call r) w fun t _ _ => ∀ c : Custody, c.after t = c := by
  refine Ensures.ite (fun _ => ?_) (fun _ => ?_)
  · exact ensures_psa.mpr (fun x _ c => hcall _ x c)
  · exact Ensures.pure_iff.mpr (fun c => rfl)

/-- The output takes nothing and gives nothing back. -/
theorem kdfOutput_custody (out outLen : Nat) (r : PsaStatus × O.Kdf) :
    Ensures (fun _ => True) (kdfOutput out outLen r) w fun t _ _ => ∀ c : Custody, c.after t = c := by
  refine Ensures.ite (fun _ => ?_) (fun _ => ?_)
  · simp only [Ensures.bind_iff, ensures_psa, ensures_writeMem, Ensures.pure_iff]
    exact fun x _ c => rfl
  · exact Ensures.pure_iff.mpr (fun c => rfl)

/-- A derivation ends its operation, whichever way it goes. -/
theorem pbkdf2Run_custody (halg : PsaAlg) (password passwordLen salt saltLen : Nat)
    (iterations : UInt32) (out outLen : Nat) :
    Ensures (fun _ => True)
      (pbkdf2Run halg password passwordLen salt saltLen iterations out outLen : Adapter O _) w
      fun t _ _ => ∀ c : Custody, c.kdf = false → c.after t = c := by
  simp only [pbkdf2Run, Ensures.bind_iff, ensures_psa, ensures_readMem, Ensures.pure_iff]
  intro setup _
  refine (kdfStep_custody (.kdfInputInteger · .cost iterations.toNat) setup.answer
    (fun _ _ _ => rfl)).mono (fun t₁ r₁ w₁ h₁ => ?_)
  refine (kdfStep_custody (.kdfInputBytes · .salt (read w₁.mem salt saltLen)) r₁
    (fun _ _ _ => rfl)).mono (fun t₂ r₂ w₂ h₂ => ?_)
  refine (kdfStep_custody (.kdfInputBytes · .password (read w₂.mem password passwordLen)) r₂
    (fun _ _ _ => rfl)).mono (fun t₃ r₃ w₃ h₃ => ?_)
  refine (kdfOutput_custody out outLen r₃).mono (fun t₄ r₄ w₄ h₄ => ?_)
  intro x _ c hc
  simp only [Custody.after_append, Custody.after_cons, Custody.after_nil, h₁, h₂, h₃, h₄]
  simp [Custody.event, ← hc]

/-- An input step reports no data. -/
theorem kdfStep_data (call : O.Kdf → PsaCall O (PsaStatus × O.Kdf)) (r : PsaStatus × O.Kdf)
    (hcall : ∀ op x, eventData (O := O) ⟨.psa (call op), x⟩ = []) :
    Ensures SaneReport (kdfStep call r) w fun t _ _ => reportedData t = [] := by
  refine Ensures.ite (fun _ => ?_) (fun _ => ?_)
  · refine ensures_psa.mpr (fun x _ => ?_)
    simp [reportedData, hcall]
  · exact Ensures.pure_iff.mpr rfl

/-- An output that succeeds is what the backend reported, all of it. -/
theorem kdfOutput_data (out outLen : Nat) (r : PsaStatus × O.Kdf) :
    Ensures SaneReport (kdfOutput out outLen r) w fun t r' w' =>
      r'.1 = .success → read w'.mem out outLen = reportedData t := by
  refine Ensures.ite (fun _ => ?_) (fun hr => ?_)
  · simp only [Ensures.bind_iff, ensures_psa, ensures_writeMem, Ensures.pure_iff]
    intro x hx hok
    have hlen : x.answer.2.2.length = outLen := hx hok
    have htake : x.answer.2.2.take outLen = x.answer.2.2 := List.take_of_length_le (by omega)
    refine (read_write_exact _ _ ?_).trans ?_
    · rw [htake, hlen]
    · simp [reportedData, eventData, htake]
  · exact Ensures.pure_iff.mpr (fun hok => absurd hok hr)

/-- A derivation that succeeds has delivered all of its key. -/
theorem pbkdf2Run_complete (halg : PsaAlg) (password passwordLen salt saltLen : Nat)
    (iterations : UInt32) (out outLen : Nat) :
    Ensures SaneReport
      (pbkdf2Run halg password passwordLen salt saltLen iterations out outLen : Adapter O _) w
      fun t ps w' => ps = .success → read w'.mem out outLen = reportedData t := by
  simp only [pbkdf2Run, Ensures.bind_iff, ensures_psa, ensures_readMem, Ensures.pure_iff]
  intro setup _
  refine (kdfStep_data (.kdfInputInteger · .cost iterations.toNat) setup.answer
    (fun _ _ => rfl)).mono (fun t₁ r₁ w₁ h₁ => ?_)
  refine (kdfStep_data (.kdfInputBytes · .salt (read w₁.mem salt saltLen)) r₁
    (fun _ _ => rfl)).mono (fun t₂ r₂ w₂ h₂ => ?_)
  refine (kdfStep_data (.kdfInputBytes · .password (read w₂.mem password passwordLen)) r₂
    (fun _ _ => rfl)).mono (fun t₃ r₃ w₃ h₃ => ?_)
  refine (kdfOutput_data out outLen r₃).mono (fun t₄ r₄ w₄ h₄ => ?_)
  intro x _ hok
  refine (h₄ hok).trans ?_
  simp only [reportedData_append, h₁, h₂, h₃]
  simp [reportedData, eventData]

/-- `zuc_pbkdf2_hmac`, for any number of iterations and any length. -/
theorem zucPbkdf2Hmac_allOrNothing (hash : ZucAlg) (password passwordLen salt saltLen : Nat)
    (iterations : UInt32) (out outLen : Nat) :
    AllOrNothing w
      (pbkdf2Args (decide (0 < w.refcount)) hash password passwordLen salt saltLen iterations out
        outLen)
      (zucPbkdf2Hmac hash password passwordLen salt saltLen iterations out outLen : Adapter O _)
      [⟨out, outLen, reportedData⟩] := by
  refine allOrNothing_of_run (settlePbkdf2 out outLen) zucIntFromPsa ?refused ?run ?settle
    ((pbkdf2Run_complete (pbkdf2Hash hash) password passwordLen salt saltLen iterations out
      outLen).mono fun t ps w' h hok => ?complete)
    ((pbkdf2Run_custody (pbkdf2Hash hash) password passwordLen salt saltLen iterations out
      outLen).mono fun t _ _ h c _ hkdf => h c hkdf)
  case refused =>
    intro hst
    rw [zucPbkdf2Hmac_apply, if_pos hst]
  case run =>
    intro hst
    rw [zucPbkdf2Hmac_apply, if_neg (not_not.mpr hst)]
  case complete =>
    simp [h (zucIntFromPsa_eq_ok.mp hok)]
  case settle =>
    intro ps w'
    by_cases hps : ps ≠ .success
    · refine ⟨if out = NULL then w' else w'.store out (List.replicate outLen 0), ?_,
        fun h => absurd (zucIntFromPsa_eq_ok.mp h) hps, fun hok _ => ?_⟩
      · rw [settlePbkdf2, if_pos hps, Proc.bind_apply, zucSecureZero_apply]
        rfl
      · rw [if_neg (pbkdf2Args_out hok)]
        simp [read_zeros w'.mem out outLen]
    · rw [settlePbkdf2, if_neg hps, not_not.mp hps]
      exact ⟨w', rfl, fun _ => rfl, fun _ h => absurd rfl h⟩

end

/-! ### All three -/

/-- **The one-shot operations are all or nothing**, for any arguments and whatever the
backend answers at each step.  The tag of an encryption is an output of its own, and
has to be apart from the ciphertext. -/
theorem oneShots_allOrNothing (w : World) :
    (∀ alg key keyLen nonce nonceLen aad aadLen plaintext len ciphertext tag tagLen,
      Apart ciphertext len tag tagLen →
        AllOrNothing w
          (aeadArgs (decide (0 < w.refcount)) .encrypt alg key keyLen nonce nonceLen aad aadLen
            plaintext len ciphertext tag tagLen)
          (zucAeadEncrypt alg key keyLen nonce nonceLen aad aadLen plaintext len ciphertext tag
            tagLen : Adapter O _)
          [⟨ciphertext, len, reportedData⟩, ⟨tag, tagLen, reportedTag⟩]) ∧
    (∀ alg key keyLen nonce nonceLen aad aadLen ciphertext len tag tagLen plaintext,
      AllOrNothing w
        (aeadArgs (decide (0 < w.refcount)) .decrypt alg key keyLen nonce nonceLen aad aadLen
          ciphertext len plaintext tag tagLen)
        (zucAeadDecrypt alg key keyLen nonce nonceLen aad aadLen ciphertext len tag tagLen
          plaintext : Adapter O _)
        [⟨plaintext, len, reportedData⟩]) ∧
    (∀ hash password passwordLen salt saltLen iterations out outLen,
      AllOrNothing w
        (pbkdf2Args (decide (0 < w.refcount)) hash password passwordLen salt saltLen iterations
          out outLen)
        (zucPbkdf2Hmac hash password passwordLen salt saltLen iterations out outLen : Adapter O _)
        [⟨out, outLen, reportedData⟩]) := by
  refine ⟨?encrypt, ?decrypt, ?derive⟩
  case encrypt =>
    intro alg key keyLen nonce nonceLen aad aadLen plaintext len ciphertext tag tagLen htag
    exact zucAeadEncrypt_allOrNothing alg key keyLen nonce nonceLen aad aadLen plaintext htag
  case decrypt =>
    intro alg key keyLen nonce nonceLen aad aadLen ciphertext len tag tagLen plaintext
    exact zucAeadDecrypt_allOrNothing alg key keyLen nonce nonceLen aad aadLen ciphertext len tag
      tagLen plaintext
  case derive =>
    intro hash password passwordLen salt saltLen iterations out outLen
    exact zucPbkdf2Hmac_allOrNothing hash password passwordLen salt saltLen iterations out outLen

/-- A ciphertext whose first block of data has a tag of zeros: it is not authentic, and
where the plaintext would be there are zeros.  The same ciphertext in the place of a
plaintext is encrypted, and the key it was encrypted under is gone. -/
theorem oneShots_allOrNothing_known :
    let h := referenceBackend knownPrimitives
    let w : World := readyWorld.store 0x300 gcmKnownBlock
    let p : Adapter referenceObjects ZucStatus :=
      zucAeadDecrypt .aesGcm 0x100 16 0x200 12 NULL 0 0x300 16 0x400 16 0x300
    let q : Adapter referenceObjects ZucStatus :=
      zucAeadEncrypt .aesGcm 0x100 16 0x200 12 NULL 0 0x300 16 0x300 0x400 16
    (p.exec h w .initial).value = .errAuth ∧
      read (p.exec h w .initial).world.mem 0x300 16 = List.replicate 16 0 ∧
      (q.exec h w .initial).value = .ok ∧
      ((⟨[], false, false⟩ : Custody).after ((q w).trace h .initial)).keys = [] := by
  intro h w p q
  obtain ⟨hencrypt, hdecrypt, -⟩ := oneShots_allOrNothing (O := referenceObjects) w
  have hp := hdecrypt .aesGcm 0x100 16 0x200 12 NULL 0 0x300 16 0x400 16 0x300
  have hq := hencrypt .aesGcm 0x100 16 0x200 12 NULL 0 0x300 16 0x300 0x400 16
    (Or.inl (by decide))
  have hauth : (p.exec h w .initial).value = .errAuth := by decide +kernel
  have hzero := (hp.wiped (by decide)).exec h .initial (fun _ _ => trivial)
  have hcustody := hq.custody.exec h .initial (fun _ _ => trivial)
  refine ⟨hauth, ?_, by decide +kernel, ?_⟩
  · refine hzero ?_ ⟨0x300, 16, reportedData⟩ (List.mem_singleton_self _)
    show (p.exec h w .initial).value ≠ .ok
    rw [hauth]
    simp
  · rw [hcustody _ rfl rfl]

end Zucrypt
