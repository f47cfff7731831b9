import Zucrypt.Lifetime

/-! # Random bytes

`zuc_random.c`, and `zucrypt_rand_bytes`: the operating system's source is asked until all of a
buffer is filled, and two callers see to it that a part of one is never handed out.

The source may give fewer bytes than it was asked for, be interrupted, or fail, at any call.  Only
`getrandom` may go on without progress, so the loop around it has fuel.

`random_all_or_nothing_iff` follows the bytes up through the four functions, for each of the sources
the file can be compiled with:

* `os_random` reports success of a full buffer only, and writes nothing outside it;
* `zuc_random_bytes` leaves all zeros otherwise, and `mbedtls_psa_external_get_random` a length of
  0;
* `zucrypt_rand_bytes` hands out a vector whose every byte was drawn, or wipes what it drew,
  unless a chunk has failed and an interrupt is found before the wipe: it asks for interrupts after
  each chunk, and looks at the chunk's status only then (`LeavesDrawn`).  That is an equivalence;
* it is left by a jump exactly if an interrupt was found, and a loop that does not end has been
  interrupted by the source as often as it has fuel, but for the bytes that came.

The runs are those of any source that conforms to its manual (`Conforms`): no call gives more than
it was asked for, and `arc4random_buf` never less.  `interrupted_failure_left` is a run of the third
kind, with a source that fills the first chunk and gives up the second. -/
namespace Zucrypt
open Effects ByteMemory

/-- What the preprocessor chose for `os_random`. -/
inductive RandomSource where
  | randS
  | arc4random
  | getrandom
  | devUrandom
  deriving DecidableEq, Repr

/-- What `getrandom` returns: so many bytes, or -1 and `errno`.  A call that fails may have
left something in the buffer. -/
inductive Getrandom where
  | read (bs : List Byte)
  | interrupted (left : List Byte)
  | failed (left : List Byte)

/-- The calls to the operating system, and those to R around them. -/
inductive OsCall : Type → Type where
  | randS : OsCall (Option UInt32)
  | arc4randomBuf (out len : Nat) : OsCall (List Byte)
  | getrandom (out len : Nat) : OsCall Getrandom
  | fopen : OsCall Bool
  | fread (out len : Nat) : OsCall (List Byte)
  | fclose : OsCall Unit
  /-- `Rf_allocVector(RAWSXP, n)`, answered by where the vector's bytes are -/
  | allocVector (n : Nat) : OsCall Nat
  /-- `R_CheckUserInterrupt`; if there is one, the entry point is left by a jump -/
  | checkUserInterrupt : OsCall Bool

/-- The adapter's state, and the switch of the tests. -/
structure RandomWorld extends World where
  randomFailing : Bool

abbrev Os : Type → Type 1 := Proc OsCall RandomWorld

/-- Bytes that arrive in the caller's memory. -/
def storeBytes (p : Nat) (bs : List Byte) : Os Unit :=
  Proc.update fun w => { w with mem := write w.mem p bs }

/-- `zuc_secure_zero`. -/
def wipeBytes (p n : Nat) : Os Unit :=
  if p = NULL ∨ n = 0 then return ()
  else storeBytes p (List.replicate n 0)

/-- An `unsigned int` in memory. -/
def wordBytes (v : UInt32) : List Byte :=
  [v.toUInt8, (v >>> 8).toUInt8, (v >>> 16).toUInt8, (v >>> 24).toUInt8]

/-- A word less remains to be filled. -/
theorem word_shrinks {len : Nat} (h : 0 < len) : len - (if len < 4 then len else 4) < len := by
  split <;> omega

/-- The loop around `rand_s`. -/
def randSLoop (out len : Nat) : Os (Option Nat) :=
  if 0 < len then do
    let n := if len < 4 then len else 4
    match ← Proc.perform .randS with
    | none => return some 1
    | some v =>
      storeBytes out ((wordBytes v).take n)
      randSLoop (out + n) (len - n)
  else
    return some 0
termination_by len
decreasing_by exact word_shrinks ‹0 < len›

/-- The loop around `getrandom`. -/
def getrandomLoop (fuel out len : Nat) : Os (Option Nat) :=
  match fuel with
  | 0 => return none
  | fuel + 1 =>
    if 0 < len then do
      match ← Proc.perform (.getrandom out len) with
      | .interrupted left =>
        storeBytes out (left.take len)
        getrandomLoop fuel out len
      | .failed left =>
        storeBytes out (left.take len)
        return some 1
      | .read bs =>
        storeBytes out bs
        getrandomLoop fuel (out + bs.length) (len - bs.length)
    else
      return some 0

/-- `os_random`: 0 once `out` is full, 1 on a failure, nothing if the fuel was not enough. -/
def osRandom (source : RandomSource) (fuel out len : Nat) : Os (Option Nat) := do
  let w ← Proc.read
  if w.randomFailing then
    return some 1
  else
    match source with
    | .randS => randSLoop out len
    | .arc4random =>
      let bs ← Proc.perform (.arc4randomBuf out len)
      storeBytes out bs
      return some 0
    | .getrandom => getrandomLoop fuel out len
    | .devUrandom =>
      if ← Proc.perform .fopen then
        let bs ← Proc.perform (.fread out len)
        storeBytes out bs
        Proc.perform .fclose
        return some (if bs.length ≠ len then 1 else 0)
      else
        return some 1

/-- `mbedtls_psa_external_get_random`, and `*output_length`. -/
def mbedtlsPsaExternalGetRandom (source : RandomSource) (fuel output outputSize : Nat) :
    Os (Option (PsaStatus × Nat)) := do
  match ← osRandom source fuel output outputSize with
  | none => return none
  | some r =>
    if r ≠ 0 then return some (.errorInsufficientEntropy, 0)
    else return some (.success, outputSize)

/-- `zuc_random_bytes`. -/
def zucRandomBytes (source : RandomSource) (fuel out len : Nat) : Os (Option ZucStatus) := do
  if len = 0 then
    return some .ok
  else if out = NULL then
    return some .errInvalidArgument
  else
    let w ← Proc.read
    if ¬ 0 < w.refcount then
      wipeBytes out len
      return some .errNotReady
    else
      match ← osRandom source fuel out len with
      | none => return none
      | some r =>
        if r ≠ 0 then
          wipeBytes out len
          return some .errEntropy
        else
          return some .ok

/-- `ZUCRYPT_CHUNK`. -/
def ZUCRYPT_CHUNK : Nat := 1024 * 1024

/-- A chunk less remains to be asked for. -/
theorem chunk_shrinks {len offset : Nat} (h : offset < len) :
    len - (offset + if ZUCRYPT_CHUNK < len - offset then ZUCRYPT_CHUNK else len - offset) <
      len - offset := by
  unfold ZUCRYPT_CHUNK
  split <;> omega

/-- How an entry point ends: it returns, is left by a jump, or has not ended yet. -/
inductive CallEnd (α : Type) where
  | returned (a : α)
  | jumped
  | stalled

/-- The loop of `zucrypt_rand_bytes`. -/
def randBytesLoop (source : RandomSource) (fuel bytes len offset : Nat) : Os (CallEnd ZucStatus) :=
  if offset < len then do
    let chunk := if ZUCRYPT_CHUNK < len - offset then ZUCRYPT_CHUNK else len - offset
    match ← zucRandomBytes source fuel (bytes + offset) chunk with
    | none => return .stalled
    | some st =>
      if ← Proc.perform .checkUserInterrupt then
        return .jumped
      else if st = .ok then
        randBytesLoop source fuel bytes len (offset + chunk)
      else
        return .returned st
  else
    return .returned .ok
termination_by len - offset
decreasing_by exact chunk_shrinks ‹offset < len›

/-- `zucrypt_rand_bytes`: the status, and where the vector's bytes are. -/
def zucryptRandBytes (source : RandomSource) (fuel total : Nat) :
    Os (CallEnd (ZucStatus × Option Nat)) := do
  let bytes ← Proc.perform (.allocVector total)
  match ← randBytesLoop source fuel bytes total 0 with
  | .stalled => return .stalled
  | .jumped => return .jumped
  | .returned st =>
    if st ≠ .ok then
      wipeBytes bytes total
      return .returned (st, none)
    else
      return .returned (st, some bytes)

/-! ### What the source drawn -/

/-- The bytes of one call that was answered with some. -/
def drawnBy : Event OsCall → List Byte
  | ⟨.randS, some v⟩ => wordBytes v
  | ⟨.arc4randomBuf _ _, bs⟩ => bs
  | ⟨.getrandom _ _, .read bs⟩ => bs
  | ⟨.fread _ _, bs⟩ => bs
  | _ => []

/-- All of them, in order. -/
def drawn (t : List (Event OsCall)) : List Byte := t.flatMap drawnBy

/-- `getrandom` returned without a byte, and is called again. -/
def Stalls : Event OsCall → Bool
  | ⟨.getrandom _ _, .interrupted _⟩ => true
  | ⟨.getrandom _ _, .read bs⟩ => bs.isEmpty
  | _ => false

/-- How often it did. -/
def stalls (t : List (Event OsCall)) : Nat := t.countP Stalls

/-- A call that the source gives up. -/
def GivesUp : Event OsCall → Prop
  | ⟨.randS, none⟩ => True
  | ⟨.getrandom _ _, .failed _⟩ => True
  | ⟨.fopen, false⟩ => True
  | ⟨.fread _ len, bs⟩ => bs.length ≠ len
  | _ => False

/-- Nothing is to be had of the source: the tests have switched it off, or it gave a call up. -/
def SourceFails (w : RandomWorld) (t : List (Event OsCall)) : Prop :=
  w.randomFailing = true ∨ ∃ e ∈ t, GivesUp e

/-- A chunk fails: there is one, and the library is not ready or the source switched off; or the
source gives a call up. -/
def ChunkFails (len : Nat) (w : RandomWorld) (t : List (Event OsCall)) : Prop :=
  0 < len ∧ (¬ 0 < w.refcount ∨ w.randomFailing = true) ∨ ∃ e ∈ t, GivesUp e

/-- `R_CheckUserInterrupt` was called. -/
def IsCheck : Event OsCall → Bool
  | ⟨.checkUserInterrupt, _⟩ => true
  | _ => false

/-- `R_CheckUserInterrupt` found an interrupt. -/
def Interrupted (t : List (Event OsCall)) : Prop := ⟨.checkUserInterrupt, true⟩ ∈ t

/-- The chunks that were asked for: after each there is a check. -/
def chunksAsked (t : List (Event OsCall)) : Nat := t.countP IsCheck

/-- What was drawn for the chunks before the last one. -/
def drawnBefore (t : List (Event OsCall)) : List Byte :=
  (drawn t).take (ZUCRYPT_CHUNK * (chunksAsked t - 1))

/-- An interrupt is pending when a chunk has failed, and what the chunks before it drew is not
all zeros. -/
def LeavesDrawn (len : Nat) (w : RandomWorld) (t : List (Event OsCall)) : Prop :=
  Interrupted t ∧ ChunkFails len w t ∧ ∃ b ∈ drawnBefore t, b ≠ 0

/-- What the manuals promise: no call gives more than it was asked for, `arc4random_buf`
never less, and a vector is somewhere. -/
def Conforms : Event OsCall → Prop
  | ⟨.arc4randomBuf _ len, bs⟩ => bs.length = len
  | ⟨.getrandom _ len, .read bs⟩ => bs.length ≤ len
  | ⟨.fread _ len, bs⟩ => bs.length ≤ len
  | ⟨.allocVector _, p⟩ => p ≠ NULL
  | _ => True

/-- What two stretches drew, together. -/
@[simp] theorem drawn_append (t t' : List (Event OsCall)) :
    drawn (t ++ t') = drawn t ++ drawn t' :=
  List.flatMap_append

/-- What a call drew, and what the later ones did. -/
@[simp] theorem drawn_cons (e : Event OsCall) (t : List (Event OsCall)) :
    drawn (e :: t) = drawnBy e ++ drawn t :=
  List.flatMap_cons

@[simp] theorem stalls_append (t t' : List (Event OsCall)) : stalls (t ++ t') = stalls t + stalls t' :=
  List.countP_append

@[simp] theorem chunksAsked_append (t t' : List (Event OsCall)) :
    chunksAsked (t ++ t') = chunksAsked t + chunksAsked t' :=
  List.countP_append

/-- Between two checks there is none. -/
theorem chunksAsked_eq_zero {t : List (Event OsCall)} (h : ∀ e ∈ t, IsCheck e = false) :
    chunksAsked t = 0 :=
  List.countP_eq_zero.mpr fun e he => by simp [h e he]

/-- An interrupt is found by a check. -/
theorem Interrupted.chunksAsked_pos {t : List (Event OsCall)} (h : Interrupted t) : 0 < chunksAsked t :=
  List.countP_pos_iff.mpr ⟨_, h, rfl⟩

/-- Without a check no interrupt is found. -/
theorem not_interrupted {t : List (Event OsCall)} (h : ∀ e ∈ t, IsCheck e = false) : ¬ Interrupted t :=
  fun hin => Bool.noConfusion (h _ hin)

theorem stalls_cons (e : Event OsCall) (t : List (Event OsCall)) :
    stalls (e :: t) = stalls t + if Stalls e then 1 else 0 :=
  List.countP_cons

/-- Of the last word of `rand_s`, what there was no room for. -/
def surplusOf (source : RandomSource) (len : Nat) : Nat :=
  if source = .randS then (4 - len % 4) % 4 else 0

/-- The buffer holds what was drawn: every byte once, and in order. -/
def Arrived (source : RandomSource) (out len : Nat) (t : List (Event OsCall)) (m : Memory) : Prop :=
  ∃ surplus, drawn t = read m out len ++ surplus ∧ surplus.length = surplusOf source len

/-- An empty buffer is full. -/
theorem arrived_nil (source : RandomSource) (out : Nat) (m : Memory) : Arrived source out 0 [] m :=
  ⟨[], rfl, by unfold surplusOf; split <;> rfl⟩

/-- What was drawn stays where it arrived, if nobody writes there. -/
theorem Arrived.congr {source : RandomSource} {out len : Nat} {t : List (Event OsCall)} {m m' : Memory}
    (h : Arrived source out len t m) (hm : ∀ a, out ≤ a → a < out + len → m' a = m a) :
    Arrived source out len t m' := by
  unfold Arrived at *
  rwa [read_congr hm]

/-- Two buffers that touch are one. -/
theorem Arrived.append {source : RandomSource} {out n k : Nat} {t t' : List (Event OsCall)} {m : Memory}
    (h : Arrived source out n t m) (h' : Arrived source (out + n) k t' m)
    (hwhole : surplusOf source n = 0 ∨ k = 0) : Arrived source out (n + k) (t ++ t') m := by
  obtain ⟨surplus, ht, hlen⟩ := h
  obtain ⟨surplus', ht', hlen'⟩ := h'
  rw [Arrived, drawn_append, ht, ht', read_add]
  rcases hwhole with hwhole | rfl
  · obtain rfl : surplus = [] := List.eq_nil_of_length_eq_zero (hlen.trans hwhole)
    refine ⟨surplus', by simp, ?_⟩
    rw [hlen']
    unfold surplusOf at *
    split at hwhole
    · rename_i hs
      rw [if_pos hs, if_pos hs]
      omega
    · rename_i hs
      rw [if_neg hs, if_neg hs]
  · have hnone : surplusOf source 0 = 0 := by
      unfold surplusOf
      split <;> rfl
    obtain rfl : surplus' = [] := List.eq_nil_of_length_eq_zero (hlen'.trans hnone)
    exact ⟨surplus, by simp, hlen⟩

/-! ### The source -/

/-- How a call that fills a buffer goes. -/
structure Fills (source : RandomSource) (fuel out len : Nat) (w : RandomWorld)
    (t : List (Event OsCall)) (r : Option Nat) (w' : RandomWorld) : Prop where
  world : w' = { w with mem := w'.mem }
  outside : ∀ a, a < out ∨ out + len ≤ a → w'.mem a = w.mem a
  filled : r = some 0 → Arrived source out len t w'.mem
  failed : ∀ c, r = some c → (c ≠ 0 ↔ SourceFails w t)
  unchecked : ∀ e ∈ t, IsCheck e = false
  ends : r = none → fuel ≤ len + stalls t

variable {source : RandomSource} {fuel out len : Nat} {w : RandomWorld}

/-- To store bytes changes the memory and calls nothing. -/
theorem ensures_storeBytes {ok : Event OsCall → Prop} {p : Nat} {bs : List Byte}
    {Q : List (Event OsCall) → Unit → RandomWorld → Prop} :
    Ensures ok (storeBytes p bs) w Q ↔ Q [] () { w with mem := write w.mem p bs } :=
  Ensures.update_iff

/-- A source that was not asked has not failed, unless it is told to. -/
theorem not_sourceFails_nil (hw : w.randomFailing = false) : ¬ SourceFails w [] := by
  rintro (hon | ⟨e, he, -⟩)
  · rw [hw] at hon
    cases hon
  · cases he

/-- A call that is not given up leaves it to the later ones. -/
theorem sourceFails_cons {e : Event OsCall} {t : List (Event OsCall)} (he : ¬ GivesUp e) (m : Memory) :
    SourceFails { w with mem := m } t ↔ SourceFails w (e :: t) := by
  unfold SourceFails
  rw [List.exists_mem_cons_iff, or_iff_right he]

/-- Some of the buffer is filled, and then the rest. -/
theorem Fills.step {n k : Nat} {bs : List Byte} {e : Event OsCall} {t : List (Event OsCall)}
    {r : Option Nat} {w' : RandomWorld} (hn : n = bs.length) (hlen : n + k = len)
    (he : ¬ GivesUp e) (hcheck : IsCheck e = false)
    (hfirst : Arrived source out n [e] (write w.mem out bs))
    (hwhole : surplusOf source n = 0 ∨ k = 0)
    (h : Fills source fuel (out + n) k { w with mem := write w.mem out bs } t r w') :
    Fills source (fuel + n) out len w (e :: t) r w' := by
  subst hlen
  refine ⟨h.world, fun a ha => ?_, fun hr => ?_, fun c hc => ?_, ?_, fun hr => ?_⟩
  · rw [h.outside a (by omega)]
    exact write_apply_outside _ (by omega)
  · have hkeep : Arrived source out n [e] w'.mem :=
      hfirst.congr fun a _ ha => h.outside a (.inl ha)
    exact hkeep.append (h.filled hr) hwhole
  · exact (h.failed c hc).trans (sourceFails_cons he _)
  · exact List.forall_mem_cons.mpr ⟨hcheck, h.unchecked⟩
  · have hrest := h.ends hr
    rw [stalls_cons]
    omega

/-- What holds with less fuel holds with more, for what ends. -/
theorem Fills.mono {fuel' : Nat} {t : List (Event OsCall)} {r : Option Nat} {w' : RandomWorld}
    (h : Fills source fuel' out len w t r w') (hfuel : fuel ≤ fuel') :
    Fills source fuel out len w t r w' :=
  ⟨h.world, h.outside, h.filled, h.failed, h.unchecked, fun hr => Nat.le_trans hfuel (h.ends hr)⟩

/-- Nothing is left to fill. -/
theorem Fills.empty (hw : w.randomFailing = false) : Fills source fuel out 0 w [] (some 0) w := by
  refine ⟨rfl, fun _ _ => rfl, fun _ => arrived_nil _ _ _, ?_, by simp, by simp⟩
  rintro c ⟨⟩
  exact iff_of_false (by simp) (not_sourceFails_nil hw)

/-- The source gave the call up. -/
theorem Fills.givenUp {e : Event OsCall} {w' : RandomWorld} (he : GivesUp e) (hcheck : IsCheck e = false)
    (hworld : w' = { w with mem := w'.mem })
    (houtside : ∀ a, a < out ∨ out + len ≤ a → w'.mem a = w.mem a) :
    Fills source fuel out len w [e] (some 1) w' := by
  refine ⟨hworld, houtside, by simp, ?_, by simpa using hcheck, by simp⟩
  rintro c ⟨⟩
  exact iff_of_true (by decide) (.inr ⟨e, List.mem_singleton_self e, he⟩)

theorem length_wordBytes (v : UInt32) : (wordBytes v).length = 4 := rfl

/-- A word, or of the last one as much as there is room for. -/
theorem arrived_word {n : Nat} (v : UInt32) (hn : n = 4 ∨ n < 4 ∧ 0 < n) (m : Memory) :
    Arrived .randS out n [⟨.randS, some v⟩] (write m out ((wordBytes v).take n)) := by
  have hlength : ((wordBytes v).take n).length = n := by
    rw [List.length_take, length_wordBytes]
    omega
  refine ⟨(wordBytes v).drop n, ?_, ?_⟩
  · rw [read_write_exact _ _ hlength, List.take_append_drop]
    simp [drawn, drawnBy]
  · rw [List.length_drop, length_wordBytes, surplusOf, if_pos rfl]
    omega

/-- `rand_s` gives a word at a time, and fails with one. -/
theorem ensures_randSLoop (hw : w.randomFailing = false) :
    Ensures Conforms (randSLoop out len) w (Fills .randS fuel out len w) := by
  induction len using Nat.strongRecOn generalizing out w with
  | _ len ih =>
    rw [randSLoop]
    refine Ensures.ite (fun hlen => ?_) fun hnone => ?_
    · refine Ensures.bind_iff.mpr (Ensures.perform_iff.mpr fun v _ => ?_)
      cases v with
      | none => exact Ensures.pure_iff.mpr (Fills.givenUp trivial rfl rfl fun _ _ => rfl)
      | some v =>
        refine Ensures.bind_iff.mpr (ensures_storeBytes.mpr ?_)
        have hn : (if len < 4 then len else 4) = min len 4 := by split <;> omega
        rw [hn]
        have hlength : min len 4 = ((wordBytes v).take (min len 4)).length := by
          rw [List.length_take, length_wordBytes]
          omega
        have hwhole : surplusOf .randS (min len 4) = 0 ∨ len - min len 4 = 0 := by
          unfold surplusOf
          rw [if_pos rfl]
          omega
        refine (ih (len - min len 4) (by omega) (by exact hw)).mono fun t r w' ht => ?_
        have hgiven : ¬ GivesUp ⟨.randS, some v⟩ := not_false
        exact (Fills.step hlength (by omega) hgiven rfl (arrived_word v (by omega) w.mem) hwhole
          ht).mono (Nat.le_add_right _ _)
    · obtain rfl : len = 0 := Nat.eq_zero_of_not_pos hnone
      exact Ensures.pure_iff.mpr (Fills.empty hw)

/-- A failed call may spoil the rest of the buffer, no more. -/
theorem Fills.spoilt (left : List Byte) {fuel : Nat} {e : Event OsCall} {t : List (Event OsCall)}
    {r : Option Nat} {w' : RandomWorld} (hnone : drawnBy e = []) (hstall : Stalls e = true)
    (he : ¬ GivesUp e) (hcheck : IsCheck e = false)
    (h : Fills source fuel out len { w with mem := write w.mem out (left.take len) } t r w') :
    Fills source (fuel + 1) out len w (e :: t) r w' := by
  refine ⟨h.world, fun a ha => ?_, fun hr => ?_, fun c hc => ?_, ?_, fun hr => ?_⟩
  · rw [h.outside a ha]
    exact write_take_outside _ _ ha
  · obtain ⟨surplus, ht, hlen⟩ := h.filled hr
    exact ⟨surplus, by rw [drawn_cons, hnone, List.nil_append, ht], hlen⟩
  · exact (h.failed c hc).trans (sourceFails_cons he _)
  · exact List.forall_mem_cons.mpr ⟨hcheck, h.unchecked⟩
  · have hrest := h.ends hr
    rw [stalls_cons, if_pos hstall]
    omega

/-- `getrandom` may give less than it was asked for, or nothing for now. -/
theorem ensures_getrandomLoop (hw : w.randomFailing = false) :
    Ensures Conforms (getrandomLoop fuel out len) w (Fills .getrandom fuel out len w) := by
  induction fuel generalizing out len w with
  | zero =>
    exact Ensures.pure_iff.mpr ⟨rfl, fun _ _ => rfl, by simp, by simp, by simp, fun _ => Nat.zero_le _⟩
  | succ fuel ih =>
    unfold getrandomLoop
    refine Ensures.ite (fun hlen => ?_) fun hnone => ?_
    · refine Ensures.bind_iff.mpr (Ensures.perform_iff.mpr fun reply hreply => ?_)
      cases reply with
      -- what it left in the buffer is written over by the next call
      | interrupted left =>
        refine Ensures.bind_iff.mpr (ensures_storeBytes.mpr
          ((ih (by exact hw)).mono fun t r w' ht => ?_))
        exact Fills.spoilt _ rfl rfl not_false rfl ht
      | failed left =>
        refine Ensures.bind_iff.mpr (ensures_storeBytes.mpr (Ensures.pure_iff.mpr ?_))
        exact Fills.givenUp trivial rfl rfl fun a ha => write_take_outside _ _ ha
      | read bs =>
        have hbs : bs.length ≤ len := hreply
        refine Ensures.bind_iff.mpr (ensures_storeBytes.mpr
          ((ih (by exact hw)).mono fun t r w' ht => ?_))
        by_cases hempty : bs = []
        · -- a call that gave nothing is as good as an interrupted one
          subst hempty
          exact Fills.spoilt [] rfl rfl not_false rfl (by simpa using ht)
        · have hpos := List.length_pos_of_ne_nil hempty
          have hfirst : Arrived .getrandom out bs.length [⟨.getrandom out len, .read bs⟩]
              (write w.mem out bs) := ⟨[], by simp [drawn, drawnBy], rfl⟩
          have hgiven : ¬ GivesUp ⟨.getrandom out len, .read bs⟩ := not_false
          exact (Fills.step rfl (Nat.add_sub_cancel' hbs) hgiven rfl hfirst (.inl rfl) ht).mono
            (by omega)
    · obtain rfl : len = 0 := Nat.eq_zero_of_not_pos hnone
      exact Ensures.pure_iff.mpr (Fills.empty hw)

/-- `os_random` reports success of a full buffer only. -/
theorem ensures_osRandom :
    Ensures Conforms (osRandom source fuel out len) w (Fills source fuel out len w) := by
  refine Ensures.bind_iff.mpr (Ensures.read_iff.mpr ?_)
  refine Ensures.ite (fun hon => Ensures.pure_iff.mpr ?_) fun hoff => ?_
  · refine ⟨rfl, fun _ _ => rfl, by simp, ?_, by simp, by simp⟩
    rintro c ⟨⟩
    exact iff_of_true (by decide) (.inl hon)
  have hw : w.randomFailing = false := by simpa using hoff
  cases source with
  | randS => exact ensures_randSLoop hw
  | arc4random =>
    refine Ensures.bind_iff.mpr (Ensures.perform_iff.mpr fun bs hbs => ?_)
    have hbs : bs.length = len := hbs
    refine Ensures.bind_iff.mpr (ensures_storeBytes.mpr (Ensures.pure_iff.mpr ?_))
    have harrived : Arrived .arc4random out bs.length [⟨.arc4randomBuf out len, bs⟩]
        (write w.mem out bs) := ⟨[], by simp [drawn, drawnBy], rfl⟩
    exact (Fills.step (e := ⟨.arc4randomBuf out len, bs⟩) rfl hbs not_false rfl harrived (.inl rfl)
      (Fills.empty hw)).mono (Nat.le_add_right _ _)
  | getrandom => exact ensures_getrandomLoop hw
  | devUrandom =>
    refine Ensures.bind_iff.mpr (Ensures.perform_iff.mpr fun opened _ => ?_)
    cases opened with
    | false => exact Ensures.pure_iff.mpr (Fills.givenUp trivial rfl rfl fun _ _ => rfl)
    | true =>
      refine Ensures.bind_iff.mpr (Ensures.perform_iff.mpr fun bs hbs => ?_)
      have hbs : bs.length ≤ len := hbs
      refine Ensures.bind_iff.mpr (ensures_storeBytes.mpr ?_)
      refine Ensures.bind_iff.mpr (Ensures.perform_iff.mpr fun _ _ => Ensures.pure_iff.mpr ?_)
      refine ⟨rfl, fun a ha => write_apply_outside _ (by omega), fun hr => ⟨[], ?_, rfl⟩, ?_, ?_, by simp⟩
      · have hfull : bs.length = len := by simpa using hr
        rw [read_write_exact _ _ hfull]
        simp [drawn, drawnBy]
      · rintro c ⟨⟩
        by_cases hfull : bs.length = len
        · refine iff_of_false (by simp [hfull]) ?_
          rintro (hon | ⟨e, he, hgive⟩)
          · exact absurd (hw.symm.trans hon) Bool.false_ne_true
          · simp only [List.nil_append, List.cons_append, List.mem_cons, List.not_mem_nil, or_false] at he
            rcases he with rfl | rfl | rfl
            · exact hgive
            · exact hgive hfull
            · exact hgive
        · exact iff_of_true (by simp [hfull]) (.inr ⟨⟨.fread out len, bs⟩, by simp, hfull⟩)
      · simp [IsCheck]

/-! ### All or nothing -/

/-- A zeroed buffer. -/
def Zeroed (m : Memory) (p n : Nat) : Prop := read m p n = List.replicate n 0

/-- Wiping leaves zeros, and calls nothing. -/
theorem ensures_wipeBytes {p n : Nat} (hp : p ≠ NULL) :
    Ensures Conforms (wipeBytes p n) w fun t _ w' =>
      t = [] ∧ w' = { w with mem := w'.mem } ∧ Zeroed w'.mem p n ∧
        ∀ a, a < p ∨ p + n ≤ a → w'.mem a = w.mem a := by
  unfold wipeBytes Zeroed
  refine Ensures.ite (fun hnone => ?_) fun _ => ?_
  · obtain rfl : n = 0 := hnone.resolve_left hp
    exact Ensures.pure_iff.mpr ⟨rfl, rfl, rfl, fun _ _ => rfl⟩
  · refine ensures_storeBytes.mpr ⟨rfl, rfl, ?_, fun a ha => ?_⟩
    · exact read_write_exact _ _ List.length_replicate
    · exact write_apply_outside _ (by rwa [List.length_replicate])

/-- What `zuc_random_bytes` promises: all of the buffer, or zeros. -/
structure AllOrZeros (source : RandomSource) (fuel out len : Nat) (w : RandomWorld)
    (t : List (Event OsCall)) (r : Option ZucStatus) (w' : RandomWorld) : Prop where
  world : w' = { w with mem := w'.mem }
  outside : ∀ a, a < out ∨ out + len ≤ a → w'.mem a = w.mem a
  filled : r = some .ok → Arrived source out len t w'.mem
  zeroed : ∀ st, r = some st → st ≠ .ok → out ≠ NULL → Zeroed w'.mem out len
  failed : out ≠ NULL → ∀ st, r = some st → (st ≠ .ok ↔ ChunkFails len w t)
  unchecked : ∀ e ∈ t, IsCheck e = false
  ends : r = none → fuel ≤ len + stalls t

/-- A source that is asked at all: the library is ready, and there is something to fill. -/
theorem chunkFails_iff_sourceFails (hlen : 0 < len) (hready : 0 < w.refcount) (t : List (Event OsCall)) :
    ChunkFails len w t ↔ SourceFails w t := by
  unfold ChunkFails SourceFails
  rw [and_iff_right hlen, or_iff_right (not_not.mpr hready)]

/-- `zuc_random_bytes` fills the buffer, or leaves it all zeros. -/
theorem ensures_zucRandomBytes :
    Ensures Conforms (zucRandomBytes source fuel out len) w (AllOrZeros source fuel out len w) := by
  unfold zucRandomBytes
  refine Ensures.ite (fun hlen => ?_) fun hlen => ?_
  · subst hlen
    refine Ensures.pure_iff.mpr ⟨rfl, fun _ _ => rfl, fun _ => arrived_nil _ _ _, ?_, ?_, by simp, by simp⟩
    · rintro st hst hne
      exact absurd (Option.some.inj hst).symm hne
    · rintro - st ⟨⟩
      simp [ChunkFails]
  have hpos : 0 < len := Nat.pos_of_ne_zero hlen
  refine Ensures.ite (fun hout => ?_) fun hout => ?_
  · exact Ensures.pure_iff.mpr ⟨rfl, fun _ _ => rfl, by simp, fun _ _ _ hne => absurd hout hne,
      fun hne => absurd hout hne, by simp, by simp⟩
  refine Ensures.bind_iff.mpr (Ensures.read_iff.mpr ?_)
  refine Ensures.ite (fun hclosed => ?_) fun hopen => ?_
  · refine Ensures.bind_iff.mpr ((ensures_wipeBytes hout).mono fun t _ w' hw => ?_)
    obtain ⟨rfl, hworld, hzero, houtside⟩ := hw
    refine Ensures.pure_iff.mpr ⟨hworld, houtside, by simp, fun _ _ _ _ => hzero, ?_, by simp, by simp⟩
    rintro - st ⟨⟩
    exact iff_of_true (by decide) (.inl ⟨hpos, .inl hclosed⟩)
  · have hsource := chunkFails_iff_sourceFails hpos (not_not.mp hopen)
    refine Ensures.bind_iff.mpr (ensures_osRandom.mono fun t r w₁ hr => ?_)
    cases r with
    -- the fuel was not enough, and the buffer is part filled
    | none =>
      refine Ensures.pure_iff.mpr ⟨hr.world, hr.outside, by simp, by simp, by simp, ?_, fun _ => ?_⟩
      · rw [List.append_nil]
        exact hr.unchecked
      · rw [List.append_nil]
        exact hr.ends rfl
    | some r =>
      refine Ensures.ite (fun hfailed => ?_) fun hok => ?_
      · refine Ensures.bind_iff.mpr ((ensures_wipeBytes hout).mono fun t' _ w' hw => ?_)
        obtain ⟨rfl, hworld, hzero, houtside⟩ := hw
        refine Ensures.pure_iff.mpr ⟨?_, fun a ha => ?_, by simp, fun _ _ _ _ => hzero, ?_, ?_, by simp⟩
        · rw [hworld, hr.world]
        · exact (houtside a ha).trans (hr.outside a ha)
        · rintro - st ⟨⟩
          rw [List.append_nil, List.append_nil, hsource]
          exact iff_of_true (by decide) ((hr.failed r rfl).mp hfailed)
        · rw [List.append_nil, List.append_nil]
          exact hr.unchecked
      · obtain rfl : r = 0 := not_not.mp hok
        refine Ensures.pure_iff.mpr ⟨hr.world, hr.outside, fun _ => ?_, ?_, ?_, ?_, by simp⟩
        · rw [List.append_nil]
          exact hr.filled rfl
        · rintro st hst hne
          exact absurd (Option.some.inj hst).symm hne
        · rintro - st ⟨⟩
          rw [List.append_nil, hsource]
          exact iff_of_false (by simp) (mt (hr.failed 0 rfl).mpr hok)
        · rw [List.append_nil]
          exact hr.unchecked

/-- The backend's own source reports the whole length or none. -/
theorem ensures_mbedtlsPsaExternalGetRandom :
    Ensures Conforms (mbedtlsPsaExternalGetRandom source fuel out len) w fun t r w' =>
      (∀ n, r = some (.success, n) → n = len ∧ Arrived source out len t w'.mem) ∧
      (∀ st n, r = some (st, n) → st ≠ .success → n = 0) ∧
      (r = none → fuel ≤ len + stalls t) := by
  refine Ensures.bind_iff.mpr (ensures_osRandom.mono fun t r w' hr => ?_)
  cases r with
  | none =>
    refine Ensures.pure_iff.mpr ⟨by simp, by simp, fun _ => ?_⟩
    rw [List.append_nil]
    exact hr.ends rfl
  | some r =>
    refine Ensures.ite (fun _ => Ensures.pure_iff.mpr ⟨by simp, by simp, by simp⟩) fun hok => ?_
    obtain rfl : r = 0 := not_not.mp hok
    refine Ensures.pure_iff.mpr ⟨fun n hn => ?_, fun st n hn hst => ?_, by simp⟩
    · rw [List.append_nil]
      simp only [Option.some.injEq, Prod.mk.injEq, true_and] at hn
      exact ⟨hn.symm, hr.filled rfl⟩
    · simp only [Option.some.injEq, Prod.mk.injEq] at hn
      exact absurd hn.1.symm hst

/-- How the chunks go, from one that starts at `out` to the end of the vector. -/
structure FillsChunks (source : RandomSource) (fuel out len : Nat) (w : RandomWorld)
    (t : List (Event OsCall)) (r : CallEnd ZucStatus) (w' : RandomWorld) : Prop where
  world : w' = { w with mem := w'.mem }
  outside : ∀ a, a < out ∨ out + len ≤ a → w'.mem a = w.mem a
  filled : r = .returned .ok → Arrived source out len t w'.mem
  failed : ∀ st, r = .returned st → (st ≠ .ok ↔ ChunkFails len w t)
  jumped : r = .jumped ↔ Interrupted t
  left : r = .jumped → ChunkFails len w t →
    (Zeroed w'.mem out (min len (ZUCRYPT_CHUNK * chunksAsked t)) ↔ ∀ b ∈ drawnBefore t, b = 0)
  ends : r = .stalled → fuel ≤ ZUCRYPT_CHUNK + stalls t

/-- No chunk is left to ask for. -/
theorem FillsChunks.empty : FillsChunks source fuel out 0 w [] (.returned .ok) w := by
  refine ⟨rfl, fun _ _ => rfl, fun _ => arrived_nil _ _ _, ?_, ?_, by simp, by simp⟩
  · rintro st ⟨⟩
    simp [ChunkFails]
  · simp [Interrupted]

/-- A check is not a call of the source. -/
theorem chunkFails_checked {n k : Nat} (hn : 0 < n) (hk : 0 < k) (t : List (Event OsCall))
    (interrupted : Bool) :
    ChunkFails n w (t ++ [⟨.checkUserInterrupt, interrupted⟩]) ↔ ChunkFails k w t := by
  unfold ChunkFails
  rw [and_iff_right hn, and_iff_right hk]
  refine or_congr Iff.rfl ⟨?_, ?_⟩
  · rintro ⟨e, he, hgive⟩
    rcases List.mem_append.mp he with he | he
    · exact ⟨e, he, hgive⟩
    · obtain rfl := List.mem_singleton.mp he
      exact hgive.elim
  · rintro ⟨e, he, hgive⟩
    exact ⟨e, List.mem_append_left _ he, hgive⟩

/-- After a chunk that was drawn it is a later one that fails. -/
theorem chunkFails_later {n k len : Nat} (hn : 0 < n) {t : List (Event OsCall)} (h : ¬ ChunkFails n w t)
    (m : Memory) (interrupted : Bool) (t' : List (Event OsCall)) :
    ChunkFails len w (t ++ ⟨.checkUserInterrupt, interrupted⟩ :: t') ↔
      ChunkFails k { w with mem := m } t' := by
  obtain ⟨hready, hgood⟩ := not_or.mp h
  have hnone : ¬ (¬ 0 < w.refcount ∨ w.randomFailing = true) := fun hor => hready ⟨hn, hor⟩
  unfold ChunkFails
  rw [or_iff_right fun hand => hnone hand.2, or_iff_right fun hand => hnone hand.2]
  constructor
  · rintro ⟨e, he, hgive⟩
    rcases List.mem_append.mp he with he | he
    · exact (hgood ⟨e, he, hgive⟩).elim
    · rcases List.mem_cons.mp he with rfl | he
      · exact hgive.elim
      · exact ⟨e, he, hgive⟩
  · rintro ⟨e, he, hgive⟩
    exact ⟨e, List.mem_append_right _ (List.mem_cons_of_mem _ he), hgive⟩

/-- After a check that found nothing it is a later one that finds an interrupt. -/
theorem interrupted_later {t t' : List (Event OsCall)} (h : ∀ e ∈ t, IsCheck e = false) :
    Interrupted (t ++ ⟨.checkUserInterrupt, false⟩ :: t') ↔ Interrupted t' := by
  have hnone : ⟨.checkUserInterrupt, true⟩ ∉ t := not_interrupted h
  unfold Interrupted
  rw [List.mem_append, or_iff_right hnone, List.mem_cons, or_iff_right]
  rintro ⟨⟩

/-- A chunk with its check is one more. -/
theorem chunksAsked_later {t : List (Event OsCall)} (h : ∀ e ∈ t, IsCheck e = false) (interrupted : Bool)
    (t' : List (Event OsCall)) :
    chunksAsked (t ++ ⟨.checkUserInterrupt, interrupted⟩ :: t') = chunksAsked t' + 1 := by
  rw [chunksAsked_append, chunksAsked_eq_zero h, Nat.zero_add]
  exact List.countP_cons_of_pos rfl

/-- A chunk that is all of a mebibyte leaves nothing of a word over. -/
theorem surplusOf_chunk (source : RandomSource) : surplusOf source ZUCRYPT_CHUNK = 0 := by
  cases source <;> rfl

/-- A stretch is zero if both its parts are. -/
theorem zeroed_add {m : Memory} {p n k : Nat} :
    Zeroed m p (n + k) ↔ Zeroed m p n ∧ Zeroed m (p + n) k := by
  unfold Zeroed
  rw [read_add, List.replicate_add]
  refine ⟨fun h => List.append_inj h (by simp), fun h => ?_⟩
  rw [h.1, h.2]

/-- It is zero if the bytes that are read there are. -/
theorem zeroed_iff {m : Memory} {p n : Nat} {bs : List Byte} (h : read m p n = bs) :
    Zeroed m p n ↔ ∀ b ∈ bs, b = 0 := by
  subst h
  unfold Zeroed
  rw [List.eq_replicate_iff, and_iff_right (length_read m p n)]

/-- What was drawn before a later chunk. -/
theorem drawnBefore_later {t t' : List (Event OsCall)} (h : ∀ e ∈ t, IsCheck e = false)
    (hlength : (drawn t).length = ZUCRYPT_CHUNK) (hasked : 0 < chunksAsked t') (interrupted : Bool) :
    drawnBefore (t ++ ⟨.checkUserInterrupt, interrupted⟩ :: t') = drawn t ++ drawnBefore t' := by
  have hplaces : ZUCRYPT_CHUNK * chunksAsked t' =
      (drawn t).length + ZUCRYPT_CHUNK * (chunksAsked t' - 1) := by
    rw [hlength, Nat.mul_sub_one, Nat.add_sub_cancel' (Nat.le_mul_of_pos_right _ hasked)]
  unfold drawnBefore
  rw [chunksAsked_later h, Nat.add_sub_cancel, hplaces, drawn_append, List.take_length_add_append]
  rfl

/-- A chunk, and an interrupt after it. -/
theorem FillsChunks.off {n : Nat} {st : ZucStatus} {t : List (Event OsCall)} {w₁ : RandomWorld}
    (hn : n = min len ZUCRYPT_CHUNK) (hpos : 0 < n) (hout : out ≠ NULL)
    (h : AllOrZeros source fuel out n w t (some st) w₁) :
    FillsChunks source fuel out len w (t ++ [⟨.checkUserInterrupt, true⟩]) .jumped w₁ := by
  refine ⟨h.world, fun a ha => h.outside a (by omega), by simp, by simp, ?_, fun _ hfails => ?_, by simp⟩
  · exact iff_of_true rfl (List.mem_append_right _ (List.mem_singleton_self _))
  · have hasked : chunksAsked (t ++ [⟨.checkUserInterrupt, true⟩]) = 1 := chunksAsked_later h.unchecked _ []
    have hbad : st ≠ .ok := (h.failed hout st rfl).mpr
      ((chunkFails_checked (by omega) hpos t true).mp hfails)
    unfold drawnBefore
    rw [hasked, Nat.mul_one, ← hn, Nat.sub_self, Nat.mul_zero, List.take_zero]
    exact iff_of_true (h.zeroed st rfl hbad hout) (by simp)

/-- A chunk that fails ends the loop. -/
theorem FillsChunks.ended {n : Nat} {st : ZucStatus} {t : List (Event OsCall)} {w₁ : RandomWorld}
    (hn : n ≤ len) (hpos : 0 < n) (hout : out ≠ NULL) (hbad : st ≠ .ok)
    (h : AllOrZeros source fuel out n w t (some st) w₁) :
    FillsChunks source fuel out len w (t ++ [⟨.checkUserInterrupt, false⟩]) (.returned st) w₁ := by
  refine ⟨h.world, fun a ha => h.outside a (by omega), ?_, ?_, ?_, by simp, by simp⟩
  · rintro ⟨⟩
    exact absurd rfl hbad
  · rintro st ⟨⟩
    rw [chunkFails_checked (by omega) hpos]
    exact h.failed hout st rfl
  · rw [interrupted_later h.unchecked]
    simp [Interrupted]

/-- A chunk that is drawn, and then the rest. -/
theorem FillsChunks.step {n k : Nat} {t t' : List (Event OsCall)} {r : CallEnd ZucStatus}
    {w₁ w' : RandomWorld} (hlen : n + k = len) (hpos : 0 < n) (hout : out ≠ NULL)
    (hmore : n = ZUCRYPT_CHUNK ∨ k = 0 ∧ r ≠ .jumped)
    (h : AllOrZeros source fuel out n w t (some .ok) w₁)
    (h' : FillsChunks source fuel (out + n) k w₁ t' r w') :
    FillsChunks source fuel out len w (t ++ ⟨.checkUserInterrupt, false⟩ :: t') r w' := by
  subst hlen
  have hgood : ¬ ChunkFails n w t := fun hfails => (h.failed hout .ok rfl).mpr hfails rfl
  have hlater : ChunkFails (n + k) w (t ++ ⟨.checkUserInterrupt, false⟩ :: t') ↔ ChunkFails k w₁ t' := by
    rw [h.world]
    exact chunkFails_later hpos hgood _ _ _
  have hfirst : Arrived source out n t w'.mem :=
    (h.filled rfl).congr fun a _ ha => h'.outside a (.inl ha)
  refine ⟨?_, fun a ha => ?_, fun hr => ?_, fun st hr => ?_, ?_, fun hr hfails => ?_, fun hr => ?_⟩
  · rw [h'.world, h.world]
  · rw [h'.outside a (by omega), h.outside a (by omega)]
  · -- only the last chunk may end inside a word
    have hwhole : surplusOf source n = 0 ∨ k = 0 :=
      hmore.imp (fun hn => (congrArg _ hn).trans (surplusOf_chunk source)) And.left
    have hboth := hfirst.append (h'.filled hr) hwhole
    rwa [Arrived, drawn_append] at hboth ⊢
  · exact (h'.failed st hr).trans hlater.symm
  · exact h'.jumped.trans (interrupted_later h.unchecked).symm
  · obtain rfl : n = ZUCRYPT_CHUNK := hmore.resolve_right fun hlast => hlast.2 hr
    obtain ⟨surplus, hdrawn, hsurplus⟩ := hfirst
    obtain rfl := List.eq_nil_of_length_eq_zero (hsurplus.trans (surplusOf_chunk source))
    rw [List.append_nil] at hdrawn
    have hlength : (drawn t).length = ZUCRYPT_CHUNK := by
      rw [hdrawn, length_read]
    have hasked : 0 < chunksAsked t' := (h'.jumped.mp hr).chunksAsked_pos
    rw [chunksAsked_later h.unchecked, Nat.mul_succ, Nat.add_comm (ZUCRYPT_CHUNK * _),
      Nat.add_min_add_left, zeroed_add, zeroed_iff hdrawn.symm, h'.left hr (hlater.mp hfails),
      drawnBefore_later h.unchecked hlength hasked, List.forall_mem_append]
  · have hends := h'.ends hr
    rw [stalls_append, stalls_cons]
    omega

/-- The loop over the chunks, from any chunk on. -/
theorem ensures_randBytesLoop {bytes offset : Nat} (hbytes : bytes ≠ NULL) (hoffset : offset ≤ len) :
    Ensures Conforms (randBytesLoop source fuel bytes len offset) w
      (FillsChunks source fuel (bytes + offset) (len - offset) w) := by
  -- on what is left: each round fills a chunk, and a chunk is not empty
  induction hk : len - offset using Nat.strongRecOn generalizing offset w with
  | _ k ih =>
    subst hk
    have hout : bytes + offset ≠ NULL := fun hnull => hbytes (Nat.eq_zero_of_add_eq_zero_right hnull)
    rw [randBytesLoop]
    refine Ensures.ite (fun hless => ?_) fun hnone => ?_
    · generalize hchunk : (if ZUCRYPT_CHUNK < len - offset then ZUCRYPT_CHUNK else len - offset) = chunk
      have hmin : chunk = min (len - offset) ZUCRYPT_CHUNK := by
        split at hchunk <;> omega
      have hpos : 0 < chunk := by
        unfold ZUCRYPT_CHUNK at hmin
        omega
      refine Ensures.bind_iff.mpr (ensures_zucRandomBytes.mono fun t r w₁ hr => ?_)
      cases r with
      | none =>
        have hends := hr.ends rfl
        rw [← List.append_nil t] at hends
        refine Ensures.pure_iff.mpr ⟨hr.world, fun a ha => hr.outside a (by omega), by simp, by simp, ?_,
          by simp, fun _ => by omega⟩
        rw [List.append_nil]
        exact iff_of_false (by simp) (not_interrupted hr.unchecked)
      | some st =>
        refine Ensures.bind_iff.mpr (Ensures.perform_iff.mpr fun interrupted _ => ?_)
        refine Ensures.ite (fun hjump => ?_) fun hno => ?_
        · obtain rfl : interrupted = true := hjump
          exact Ensures.pure_iff.mpr (FillsChunks.off hmin hpos hout hr)
        obtain rfl : interrupted = false := by simpa using hno
        refine Ensures.ite (fun hok => ?_) fun hbad =>
          Ensures.pure_iff.mpr (FillsChunks.ended (by omega) hpos hout hbad hr)
        subst hok
        have hlens : chunk + (len - (offset + chunk)) = len - offset := by omega
        by_cases hlast : offset + chunk < len
        · have hfull : chunk = ZUCRYPT_CHUNK := by omega
          refine (ih (len - (offset + chunk)) (by omega) (by omega) rfl).mono fun t' r w' hr' => ?_
          rw [← Nat.add_assoc] at hr'
          exact FillsChunks.step hlens hpos hout (.inl hfull) hr hr'
        · have hzero : len - (offset + chunk) = 0 := by omega
          rw [randBytesLoop, if_neg hlast]
          rw [hzero] at hlens
          exact Ensures.pure_iff.mpr (FillsChunks.step hlens hpos hout (.inr ⟨rfl, by simp⟩) hr .empty)
    · have hzero : len - offset = 0 := by omega
      rw [hzero]
      exact Ensures.pure_iff.mpr FillsChunks.empty

/-- How a run of `zucrypt_rand_bytes` ends that has its vector at `bytes`: the vector is handed
out full; or a chunk failed, and it is wiped and dropped; or an interrupt was found, and nothing
that was drawn is left if a chunk had failed. -/
structure FullOrWiped (source : RandomSource) (total bytes : Nat) (w : RandomWorld)
    (t : List (Event OsCall)) (r : CallEnd (ZucStatus × Option Nat)) (w' : RandomWorld) : Prop where
  full : ∀ value, r = .returned (.ok, value) →
    value = some bytes ∧ Arrived source bytes total t w'.mem ∧ ¬ ChunkFails total w t
  wiped : ∀ st value, r = .returned (st, value) → st ≠ .ok →
    value = none ∧ Zeroed w'.mem bytes total ∧ ChunkFails total w t
  left : r = .jumped → Interrupted t ∧
    (ChunkFails total w t → Zeroed w'.mem bytes (min total (ZUCRYPT_CHUNK * chunksAsked t)))

/-- The vector is made before any chunk is asked for, -/
theorem chunkFails_alloc {n p : Nat} {t : List (Event OsCall)} :
    ChunkFails len w (⟨.allocVector n, p⟩ :: t) ↔ ChunkFails len w t := by
  have hgiven : ¬ GivesUp ⟨.allocVector n, p⟩ := not_false
  unfold ChunkFails
  rw [List.exists_mem_cons_iff, or_iff_right hgiven]

/-- and before any check. -/
theorem interrupted_alloc {n p : Nat} {t : List (Event OsCall)} :
    Interrupted (⟨.allocVector n, p⟩ :: t) ↔ Interrupted t := by
  unfold Interrupted
  rw [List.mem_cons, or_iff_right]
  exact fun heq => Bool.noConfusion (congrArg IsCheck heq)

/-- A loop that is not left has found no interrupt. -/
theorem FillsChunks.calm {t : List (Event OsCall)} {r : CallEnd ZucStatus} {w' : RandomWorld}
    (h : FillsChunks source fuel out len w t r w') (hr : r ≠ .jumped) (n p : Nat) :
    ¬ Interrupted (⟨.allocVector n, p⟩ :: t) := by
  rw [interrupted_alloc, ← h.jumped]
  exact hr

/-- Of a loop that is left, something is left in the vector exactly if the chunks before the one that
failed drew something. -/
theorem FillsChunks.jumped_iff {t : List (Event OsCall)} {w' : RandomWorld}
    (h : FillsChunks source fuel out len w t .jumped w') (n p : Nat) :
    FullOrWiped source len out w (⟨.allocVector n, p⟩ :: t) .jumped w' ↔
      ¬ LeavesDrawn len w (⟨.allocVector n, p⟩ :: t) := by
  have hleft := h.left rfl
  constructor
  · rintro hall ⟨-, hfails, b, hb, hne⟩
    exact hne ((hleft (chunkFails_alloc.mp hfails)).mp ((hall.left rfl).2 hfails) b hb)
  · have hin : Interrupted (⟨.allocVector n, p⟩ :: t) := interrupted_alloc.mpr (h.jumped.mp rfl)
    refine fun hnone => ⟨nofun, nofun, fun _ => ⟨hin, fun hfails => ?_⟩⟩
    refine (hleft (chunkFails_alloc.mp hfails)).mpr fun b hb => ?_
    by_contra hne
    exact hnone ⟨hin, hfails, b, hb, hne⟩

/-- An interrupt after a failed chunk is the one thing that leaves bytes that were drawn. -/
theorem ensures_zucryptRandBytes {total : Nat} :
    Ensures Conforms (zucryptRandBytes source fuel total) w fun t r w' =>
      (∃ bytes t', t = ⟨.allocVector total, bytes⟩ :: t' ∧
        (FullOrWiped source total bytes w t r w' ↔ ¬ LeavesDrawn total w t)) ∧
      (r = .jumped ↔ Interrupted t) ∧ (r = .stalled → fuel ≤ ZUCRYPT_CHUNK + stalls t) := by
  refine Ensures.bind_iff.mpr (Ensures.perform_iff.mpr fun bytes hbytes => ?_)
  have hloop : Ensures Conforms (randBytesLoop source fuel bytes total 0) w
      (FillsChunks source fuel (bytes + 0) (total - 0) w) :=
    ensures_randBytesLoop hbytes (Nat.zero_le total)
  refine Ensures.bind_iff.mpr (hloop.mono fun t r w₁ hr => ?_)
  cases r with
  | stalled =>
    have hcalm := hr.calm nofun total bytes
    have hends := hr.ends rfl
    refine Ensures.pure_iff.mpr ?_
    rw [List.append_nil, List.singleton_append]
    refine ⟨⟨bytes, t, rfl, iff_of_true ⟨nofun, nofun, nofun⟩ fun hleaves => hcalm hleaves.1⟩,
      iff_of_false (by simp) hcalm, fun _ => ?_⟩
    rw [stalls_cons]
    omega
  | jumped =>
    refine Ensures.pure_iff.mpr ?_
    rw [List.append_nil, List.singleton_append]
    exact ⟨⟨bytes, t, rfl, hr.jumped_iff total bytes⟩,
      iff_of_true rfl (interrupted_alloc.mpr (hr.jumped.mp rfl)), nofun⟩
  | returned st =>
    have hcalm := hr.calm nofun total bytes
    have hfails : st ≠ .ok ↔ ChunkFails total w (⟨.allocVector total, bytes⟩ :: t) :=
      (hr.failed st rfl).trans chunkFails_alloc.symm
    refine Ensures.ite (fun hbad => ?_) fun hok => ?_
    · refine Ensures.bind_iff.mpr ((ensures_wipeBytes hbytes).mono fun t' _ w' hw => ?_)
      obtain ⟨rfl, -, hzero, -⟩ := hw
      refine Ensures.pure_iff.mpr ?_
      rw [List.append_nil, List.append_nil, List.singleton_append]
      refine ⟨⟨bytes, t, rfl, iff_of_true ⟨?_, ?_, nofun⟩ fun hleaves => hcalm hleaves.1⟩,
        iff_of_false (by simp) hcalm, nofun⟩
      · rintro value ⟨⟩
        exact absurd rfl hbad
      · rintro _ _ ⟨⟩ -
        exact ⟨rfl, hzero, hfails.mp hbad⟩
    · obtain rfl : st = .ok := not_not.mp hok
      refine Ensures.pure_iff.mpr ?_
      rw [List.append_nil, List.singleton_append]
      refine ⟨⟨bytes, t, rfl, iff_of_true ⟨?_, ?_, nofun⟩ fun hleaves => hcalm hleaves.1⟩,
        iff_of_false (by simp) hcalm, nofun⟩
      · rintro _ ⟨⟩
        exact ⟨rfl, hr.filled rfl, mt hfails.mpr hok⟩
      · rintro _ _ ⟨⟩ hne
        exact absurd rfl hne

/-- A source that is called for `getrandom` only, and answers from a list. -/
def scripted : Handler OsCall (List Getrandom)
  | _, .getrandom _ _, reply :: rest => (reply, rest)
  | _, .getrandom _ _, [] => (.failed [], [])
  | _, .randS, s => (none, s)
  | _, .arc4randomBuf _ _, s => ([], s)
  | _, .fopen, s => (false, s)
  | _, .fread _ _, s => ([], s)
  | _, .fclose, s => ((), s)
  | _, .allocVector _, s => (1, s)
  | _, .checkUserInterrupt, s => (false, s)

/-- Three bytes, after an interruption and in two parts. -/
example :
    let w : RandomWorld := ⟨⟨fun _ => 0, 1, 0, false⟩, false⟩
    let r := (zucRandomBytes .getrandom 4 0x100 3).exec scripted w [.interrupted [9], .read [1], .read [2, 3]]
    r.value = some .ok ∧ read r.world.mem 0xff 5 = [0, 1, 2, 3, 0] := by
  decide

/-! ### An interrupt after a chunk that failed -/

/-- What `zuc_random_bytes` makes of the answer, once it asks the source. -/
theorem runs_zucRandomBytes {r : Nat} {t : List (Event OsCall)} {w₁ : RandomWorld} (hlen : 0 < len)
    (hout : out ≠ NULL) (hready : 0 < w.refcount)
    (h : Runs (osRandom source fuel out len w) t (some r, w₁)) :
    Runs (zucRandomBytes source fuel out len w) t
      (if r ≠ 0 then (some .errEntropy, { w₁ with mem := write w₁.mem out (List.replicate len 0) })
        else (some .ok, w₁)) := by
  unfold zucRandomBytes
  rw [if_neg (Nat.ne_of_gt hlen), if_neg hout, Proc.bind_apply, Proc.read_apply, Program.done_bind,
    if_neg (not_not.mpr hready)]
  refine Runs.bind_iff.mpr ⟨t, (some r, w₁), [], (List.append_nil t).symm, h, ?_⟩
  by_cases hfailed : r ≠ 0
  · simp only [if_pos hfailed]
    unfold wipeBytes
    rw [if_neg (not_or.mpr ⟨hout, Nat.ne_of_gt hlen⟩)]
    exact .done _
  · simp only [if_neg hfailed]
    exact .done _

/-- A chunk that `getrandom` fills in one call. -/
theorem runs_filled {bs : List Byte} (hbs : bs.length = len) (hlen : 0 < len) (hout : out ≠ NULL)
    (hready : 0 < w.refcount) (hw : w.randomFailing = false) :
    Runs (zucRandomBytes .getrandom 2 out len w) [⟨.getrandom out len, .read bs⟩]
      (some .ok, { w with mem := write w.mem out bs }) := by
  refine runs_zucRandomBytes (r := 0) hlen hout hready ?_
  unfold osRandom
  rw [Proc.bind_apply, Proc.read_apply, Program.done_bind, if_neg (by simp [hw])]
  unfold getrandomLoop
  rw [if_pos hlen]
  refine .call (Getrandom.read bs) ?_
  show Runs (getrandomLoop 1 (out + bs.length) (len - bs.length)
    { w with mem := write w.mem out bs }) [] _
  unfold getrandomLoop
  have hnone : ¬ 0 < len - bs.length := by omega
  rw [if_neg hnone]
  exact .done _

/-- A chunk that `getrandom` gives up. -/
theorem runs_refused (hlen : 0 < len) (hout : out ≠ NULL) (hready : 0 < w.refcount)
    (hw : w.randomFailing = false) :
    Runs (zucRandomBytes .getrandom 2 out len w) [⟨.getrandom out len, .failed []⟩]
      (some .errEntropy, { w with mem := write w.mem out (List.replicate len 0) }) := by
  have hsource : Runs (osRandom .getrandom 2 out len w) [⟨.getrandom out len, .failed []⟩]
      (some 1, { w with mem := write w.mem out ([].take len) }) := by
    unfold osRandom
    rw [Proc.bind_apply, Proc.read_apply, Program.done_bind, if_neg (by simp [hw])]
    unfold getrandomLoop
    rw [if_pos hlen]
    exact .call (Getrandom.failed []) (.done _)
  rw [List.take_nil, write_nil] at hsource
  exact runs_zucRandomBytes hlen hout hready hsource

/-- One round of the loop, with the check after it. -/
theorem runs_randBytesLoop {bytes offset n : Nat} {w₁ w' : RandomWorld} {t t' : List (Event OsCall)}
    {st : ZucStatus} {r : CallEnd ZucStatus} (hless : offset < len) (interrupted : Bool)
    (hn : (if ZUCRYPT_CHUNK < len - offset then ZUCRYPT_CHUNK else len - offset) = n)
    (hchunk : Runs (zucRandomBytes source fuel (bytes + offset) n w) t (some st, w₁))
    (hrest : Runs ((if interrupted then return .jumped
      else if st = .ok then randBytesLoop source fuel bytes len (offset + n)
      else return .returned st : Os (CallEnd ZucStatus)) w₁) t' (r, w')) :
    Runs (randBytesLoop source fuel bytes len offset w)
      (t ++ ⟨.checkUserInterrupt, interrupted⟩ :: t') (r, w') := by
  subst hn
  rw [randBytesLoop, if_pos hless]
  exact Runs.bind_iff.mpr ⟨t, (some st, w₁), _, rfl, hchunk, .call interrupted hrest⟩

/-- Two chunks are asked for: the first gives `bs`, the second is given up, and there is an
interrupt. -/
def interruptedDraw (bs : List Byte) : List (Event OsCall) :=
  [⟨.allocVector (ZUCRYPT_CHUNK + 1), 1⟩, ⟨.getrandom 1 ZUCRYPT_CHUNK, .read bs⟩,
    ⟨.checkUserInterrupt, false⟩, ⟨.getrandom (1 + ZUCRYPT_CHUNK) 1, .failed []⟩,
    ⟨.checkUserInterrupt, true⟩]

/-- `zucrypt_rand_bytes` is left, and the first chunk is in its vector. -/
theorem runs_interruptedDraw {bs : List Byte} (hbs : bs.length = ZUCRYPT_CHUNK)
    (hready : 0 < w.refcount) (hw : w.randomFailing = false) :
    Runs (zucryptRandBytes .getrandom 2 (ZUCRYPT_CHUNK + 1) w) (interruptedDraw bs)
      (.jumped, { w with mem := write (write w.mem 1 bs) (1 + ZUCRYPT_CHUNK) [0] }) := by
  have hpos : 0 < ZUCRYPT_CHUNK := by decide
  have hfirst : Runs (zucRandomBytes .getrandom 2 1 ZUCRYPT_CHUNK w) _ _ :=
    runs_filled hbs hpos (by decide) hready hw
  have hout : 1 + (0 + ZUCRYPT_CHUNK) ≠ NULL := by unfold NULL; omega
  have hsecond : Runs (zucRandomBytes .getrandom 2 (1 + (0 + ZUCRYPT_CHUNK)) 1
      { w with mem := write w.mem 1 bs }) _ _ := runs_refused Nat.one_pos hout hready hw
  have hless : 0 + ZUCRYPT_CHUNK < ZUCRYPT_CHUNK + 1 := by omega
  -- the second chunk is the one byte that is left
  have hlast : (if ZUCRYPT_CHUNK < ZUCRYPT_CHUNK + 1 - (0 + ZUCRYPT_CHUNK) then ZUCRYPT_CHUNK
      else ZUCRYPT_CHUNK + 1 - (0 + ZUCRYPT_CHUNK)) = 1 := by
    rw [if_neg (by omega)]
    omega
  have hloop := runs_randBytesLoop (Nat.succ_pos ZUCRYPT_CHUNK) false (if_pos (Nat.lt_succ_self _)) hfirst
    (runs_randBytesLoop hless true hlast hsecond (.done _))
  rw [Nat.zero_add] at hloop
  refine .call (1 : Nat) ?_
  exact (Runs.bind_iff (p := randBytesLoop .getrandom 2 1 (ZUCRYPT_CHUNK + 1) 0 w)).mpr
    ⟨_, _, [], (List.append_nil _).symm, hloop, .done _⟩

/-- However the operating system's source behaves, no part of a buffer is passed off as all
of it, and the loops end unless the source goes on interrupting them.  What `zucrypt_rand_bytes`
has drawn is handed out whole or wiped exactly if no interrupt is found when a chunk has failed,
after chunks that drew something but zeros. -/
theorem random_all_or_nothing_iff (source : RandomSource) (fuel : Nat) (w : RandomWorld) :
    (∀ out len, Ensures Conforms (osRandom source fuel out len) w (Fills source fuel out len w)) ∧
    (∀ out len, Ensures Conforms (zucRandomBytes source fuel out len) w
      (AllOrZeros source fuel out len w)) ∧
    (∀ out len, Ensures Conforms (mbedtlsPsaExternalGetRandom source fuel out len) w fun t r w' =>
      (∀ n, r = some (.success, n) → n = len ∧ Arrived source out len t w'.mem) ∧
      (∀ st n, r = some (st, n) → st ≠ .success → n = 0) ∧
      (r = none → fuel ≤ len + stalls t)) ∧
    (∀ total, Ensures Conforms (zucryptRandBytes source fuel total) w fun t r w' =>
      (∃ bytes t', t = ⟨.allocVector total, bytes⟩ :: t' ∧
        (FullOrWiped source total bytes w t r w' ↔ ¬ LeavesDrawn total w t)) ∧
      (r = .jumped ↔ Interrupted t) ∧ (r = .stalled → fuel ≤ ZUCRYPT_CHUNK + stalls t)) :=
  ⟨fun _ _ => ensures_osRandom, fun _ _ => ensures_zucRandomBytes,
    fun _ _ => ensures_mbedtlsPsaExternalGetRandom, fun _ => ensures_zucryptRandBytes⟩

/-- The byte that the first chunk drew is still there. -/
theorem interrupted_failure_left :
    let w : RandomWorld := ⟨⟨fun _ => 0, 1, 0, false⟩, false⟩
    let t := interruptedDraw (List.replicate ZUCRYPT_CHUNK 1)
    ∃ w', Runs (zucryptRandBytes .getrandom 2 (ZUCRYPT_CHUNK + 1) w) t (.jumped, w') ∧
      (∀ e ∈ t, Conforms e) ∧ ¬ FullOrWiped .getrandom (ZUCRYPT_CHUNK + 1) 1 w t .jumped w' := by
  intro w t
  have hpos : 0 < ZUCRYPT_CHUNK := by decide
  have hlength : (List.replicate ZUCRYPT_CHUNK (1 : Byte)).length = ZUCRYPT_CHUNK := List.length_replicate
  refine ⟨_, runs_interruptedDraw hlength (by decide) rfl, ?_, fun h => ?_⟩
  · intro e he
    simp only [t, interruptedDraw, List.mem_cons, List.not_mem_nil, or_false] at he
    rcases he with rfl | rfl | rfl | rfl | rfl
    · exact Nat.one_ne_zero
    · exact Nat.le_of_eq hlength
    · trivial
    · trivial
    · trivial
  · have hgiven : GivesUp ⟨.getrandom (1 + ZUCRYPT_CHUNK) 1, .failed []⟩ := trivial
    have hfails : ChunkFails (ZUCRYPT_CHUNK + 1) w t := .inr ⟨_, by simp [t, interruptedDraw], hgiven⟩
    have hasked : chunksAsked t = 2 := rfl
    have hzero := (h.left rfl).2 hfails
    rw [hasked, show min (ZUCRYPT_CHUNK + 1) (ZUCRYPT_CHUNK * 2) = ZUCRYPT_CHUNK + 1 by omega] at hzero
    have hfirst : write (write w.mem 1 (List.replicate ZUCRYPT_CHUNK 1)) (1 + ZUCRYPT_CHUNK) [0] 1 = 0 :=
      (zeroed_iff rfl).mp hzero _ (by rw [read_succ]; exact List.mem_cons_self)
    rw [write_apply_outside _ (.inl (by omega))] at hfirst
    have hkept : write w.mem 1 (List.replicate ZUCRYPT_CHUNK 1) (1 + 0) = 1 := by
      rw [write_apply_inside _ (by rw [hlength]; exact hpos)]
      exact List.getElem_replicate _
    exact absurd (hkept.symm.trans hfirst) (by decide)

end Zucrypt
