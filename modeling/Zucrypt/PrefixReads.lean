import Zucrypt.ConnectionEnds
import Zucrypt.PkeyWiping

/-! # A prefix taken for the whole

`digest_connection` asks, when a read finds nothing, whether that was the end.  `key_input` does
not: what a connection that is not blocking has so far is signed, verified or parsed as if it were
all.  `NeverPrefix` says of a connection and of a function that this does not happen, and when it
does is told by the connection alone.

`prefix_processed_iff` goes through the nine arguments that may be a connection (`PrefixExact`).
The data of `crypt_hash` and `crypt_hmac` is never a prefix.  The data and the signature of the
signature functions are exactly if `key_input` can read the connection and there is more to come
(`Cut`); and what is read as a key exactly if, besides, the bytes so far are a key by themselves
(`Parseable`), for otherwise they are refused for what they are.  Two more parts are unconditional:
what is processed is all that the connection has yielded, and no connection is left open that was
not, nor closed that was open.

`NeverPrefix` quantifies over all backends.  That nothing is lost needs only a look at what has been
read when a call succeeds (`neverPrefix_of_complete` and the lemmas named `_needs`).  That something
is needs a backend that goes along: `acceptingBackend` takes anything for a key and for a signature,
and the lemmas named `accepting_` and `_takes` run the functions against it. -/
namespace Zucrypt
open Effects ByteMemory RFun

variable {O : Objects} {σ α β : Type} {h : Handler (Call O) σ} {w w' : World} {s s' : σ}
  {st st' st₁ : RState} {i : Nat}

/-! ### Connections are left as they were -/

/-- A digest function leaves R's connections alone. -/
def HashArgument.Quiet (hash : HashArgument O) : Prop :=
  ∀ f, hash = .function f → ∀ x {σ : Type} (h : Handler (Call O) σ) (w : World) (s : σ) (st : RState),
    ((f x st).exec h w s).value.2 = st

/-- A hash function of the caller's leaves the connections as they are. -/
theorem leavesOpen_applyHash {data : RFun O Sexp} (hdata : data.LeavesOpen) {hash : HashArgument O}
    (hquiet : hash.Quiet) : (applyHash data hash).LeavesOpen := by
  cases hash with
  | null => exact hdata
  | other => exact leaves_raise _
  | function f =>
    have hf : ∀ x, (f x).LeavesOpen := fun x => ⟨fun h w s st j _ => by rw [hquiet f rfl x h w s st]⟩
    exact Leaves.bind hdata fun x => (hf x).bind fun md => leaves_pure _

/-- So does making the digest. -/
theorem leavesOpen_signatureDigest (data : Source) {hash : HashArgument O} (hquiet : hash.Quiet) :
    (signatureDigest data hash).LeavesOpen :=
  Leaves.bind (leavesOpen_applyHash (leavesOpen_keyInput data "data") hquiet) fun _ =>
    (leaves_check _).bind fun _ => leaves_pure _

/-- Parsing touches no connection. -/
theorem leavesOpen_parseKey (bytes : Sexp) (isPrivate : Bool) :
    (parseKey bytes isPrivate : RFun O KeyObject).LeavesOpen :=
  Leaves.bind (leaves_native _) fun _ => (leaves_raise _).ite (leaves_check _)

/-- `crypt_read_key` closes what it opened. -/
theorem leavesOpen_cryptReadKey (file : KeyArgument) (password : Sexp) :
    (cryptReadKey file password : RFun O KeyObject).LeavesOpen := by
  have hread : ∀ src, ((do
      RFun.check (noPassword password)
      let bytes ← keyInput src "file"
      parseKey bytes true : RFun O KeyObject)).LeavesOpen := fun src =>
    Leaves.bind (leaves_check _) fun _ =>
      Leaves.bind (leavesOpen_keyInput src "file") fun _ => leavesOpen_parseKey _ _
  cases file with
  | source file => exact hread file
  | object x => exact Leaves.ite (leaves_pure x) (hread _)

/-- So does `crypt_read_pubkey`. -/
theorem leavesOpen_cryptReadPubkey (file : KeyArgument) :
    (cryptReadPubkey file : RFun O KeyObject).LeavesOpen := by
  have hread : ∀ src, ((do
      let bytes ← keyInput src "file"
      parseKey bytes false : RFun O KeyObject)).LeavesOpen := fun src =>
    Leaves.bind (leavesOpen_keyInput src "file") fun _ => leavesOpen_parseKey _ _
  cases file with
  | source file => exact hread file
  | object x =>
    refine Leaves.ite (leaves_pure x) (Leaves.ite ?_ (hread _))
    exact Leaves.bind (leaves_check _) fun _ => Leaves.bind (leaves_native _) fun _ =>
      (leaves_raise _).ite (leaves_check _)

/-- `crypt_signature_create`, of which two arguments may be connections. -/
theorem leavesOpen_cryptSignatureCreate (data : Source) {hash : HashArgument O} (hquiet : hash.Quiet)
    (key : KeyArgument) (password : Sexp) (pss deterministic : Option Bool) :
    (cryptSignatureCreate data hash key password pss deterministic).LeavesOpen := by
  refine Leaves.bind (leaves_check _) fun _ => Leaves.bind (leaves_check _) fun _ => ?_
  refine Leaves.bind (leavesOpen_signatureDigest data hquiet) fun _ => ?_
  refine Leaves.bind (leaves_check _) fun _ => ?_
  refine Leaves.bind (leavesOpen_cryptReadKey key .null) fun key => ?_
  refine Leaves.bind (leaves_check _) fun _ => Leaves.bind (leaves_check _) fun _ => ?_
  refine Leaves.bind (leaves_native _) fun _ => Leaves.ite (leaves_raise _) (Leaves.ite ?_ (leaves_pure _))
  exact Leaves.bind (leaves_native _) fun _ => leaves_native _

/-- `crypt_signature_verify`, of which three may be. -/
theorem leavesOpen_cryptSignatureVerify (data sig : Source) {hash : HashArgument O}
    (hquiet : hash.Quiet) (pubkey : KeyArgument) (pss : Option Bool) :
    (cryptSignatureVerify data sig hash pubkey pss).LeavesOpen := by
  refine Leaves.bind (leaves_check _) fun _ => ?_
  refine Leaves.bind (leavesOpen_signatureDigest data hquiet) fun _ => ?_
  refine Leaves.bind (leavesOpen_keyInput sig "sig") fun sig => ?_
  refine Leaves.bind (leavesOpen_cryptReadPubkey pubkey) fun pubkey => ?_
  refine Leaves.bind (leaves_check _) fun info => Leaves.bind (leaves_check _) fun _ => ?_
  refine Leaves.bind ?_ fun _ => Leaves.bind (leaves_native _) fun _ => Leaves.ite (leaves_raise _) (leaves_pure _)
  refine Leaves.ite ?_ (leaves_pure _)
  split
  · exact leaves_raise _
  · refine Leaves.bind (leaves_native _) fun w => ?_
    split
    · exact leaves_raise _
    · exact leaves_native _

/-- `crypt_hash` closes what it opened, also where it fails. -/
theorem leavesOpen_cryptHash (data : Source) (algorithm : Option String) (H : RHeap O) :
    (cryptHash data algorithm H).LeavesOpen := by
  have hraw : ∀ data : Source, ((do
      RFun.check (checkRawOrConnection data.argument "data")
      let algorithm ← RFun.check (checkAlgorithm algorithm)
      let res ← RFun.entry (zucryptHash data.argument algorithm) H
      digestValue algorithm res.1 : RFun O Sexp)).LeavesOpen := fun data =>
    Leaves.bind (leaves_check _) fun _ => Leaves.bind (leaves_check _) fun _ =>
      Leaves.bind (leaves_entry _ _) fun _ => Leaves.ite (leaves_raise _) (leaves_pure _)
  cases data with
  | connection i =>
    exact Leaves.bind (leaves_check _) fun _ => leavesOpen_digestConnection _ _ _ _
  | sexp x => exact hraw (.sexp x)
  | pemText bytes => exact hraw (.pemText bytes)
  | path contents => exact hraw (.path contents)

/-- So does `crypt_hmac`. -/
theorem leavesOpen_cryptHmac (data : Source) (key : Sexp) (algorithm : Option String) (H : RHeap O) :
    (cryptHmac data key algorithm H).LeavesOpen := by
  have hraw : ∀ data : Source, ((do
      RFun.check (checkRawOrConnection data.argument "data")
      RFun.check (checkRaw key "key" none)
      let algorithm ← RFun.check (checkAlgorithm algorithm)
      let res ← RFun.entry (zucryptHmac data.argument key algorithm) H
      digestValue algorithm res.1 : RFun O Sexp)).LeavesOpen := fun data =>
    Leaves.bind (leaves_check _) fun _ => Leaves.bind (leaves_check _) fun _ =>
      Leaves.bind (leaves_check _) fun _ => Leaves.bind (leaves_entry _ _) fun _ =>
        Leaves.ite (leaves_raise _) (leaves_pure _)
  cases data with
  | connection i =>
    exact Leaves.bind (leaves_check _) fun _ => Leaves.bind (leaves_check _) fun _ =>
      leavesOpen_digestConnection _ _ _ _
  | sexp x => exact hraw (.sexp x)
  | pemText bytes => exact hraw (.pemText bytes)
  | path contents => exact hraw (.path contents)

/-! ### What a success says of the connection -/

/-- What has been read of a source, if anything was. -/
def InputRead : Source → RState → RState → Prop
  | .connection i, st, st' => (st.connection i).Usable ∧
    st' = st.update i (if (st.connection i).isOpen then (st.connection i).drained
      else (st.connection i).opened.drained.closed)
  | _, st, st' => st' = st

/-- What `key_input` succeeded on was a connection it could read. -/
theorem keyInput_read {src : Source} {arg : String} {x : Sexp}
    (hrun : (keyInput src arg st).exec h w s = ⟨(.ok x, st'), w', s'⟩) : InputRead src st st' := by
  cases src with
  | connection i =>
    obtain ⟨husable, -, hst⟩ := keyInput_connection_ok hrun
    exact ⟨husable, hst⟩
  | sexp y =>
    cases y with
    | raw p n attrs => exact (RFun.exec_pure_ok hrun).2.1
    | _ => exact (RFun.exec_raise_ok hrun).elim
  | pemText bytes => exact (RFun.exec_native_ok hrun).2
  | path contents =>
    cases contents with
    | none => exact (RFun.exec_raise_ok hrun).elim
    | some contents => exact (RFun.exec_native_ok hrun).2

/-- So it is with the data of a signature. -/
theorem signatureDigest_read {data : Source} {hash : HashArgument O} (hquiet : hash.Quiet)
    {digest : Sexp × String}
    (hrun : (signatureDigest data hash st).exec h w s = ⟨(.ok digest, st'), w', s'⟩) :
    InputRead data st st' := by
  unfold signatureDigest at hrun
  obtain ⟨md, st₁, w₁, s₁, happly, hrest⟩ := RFun.exec_bind_ok hrun
  obtain ⟨name, st₂, w₂, s₂, hname, hrest₁⟩ := RFun.exec_bind_ok hrest
  obtain ⟨-, rfl, -, -⟩ := RFun.exec_check_ok hname
  obtain ⟨-, rfl, -, -⟩ := RFun.exec_pure_ok hrest₁
  cases hash with
  | null => exact keyInput_read happly
  | other => exact (RFun.exec_raise_ok happly).elim
  | function f =>
    obtain ⟨x, st₃, w₃, s₃, hdata, hrest₂⟩ := RFun.exec_bind_ok happly
    obtain ⟨y, st₄, w₄, s₄, hf, hrest₃⟩ := RFun.exec_bind_ok hrest₂
    obtain ⟨-, rfl, -, -⟩ := RFun.exec_pure_ok hrest₃
    have hsame := hquiet f rfl x h w₃ s₃ st₃
    rw [hf] at hsame
    obtain rfl : st' = st₃ := hsame
    exact keyInput_read hdata

/-- A connection that is read after something else was read could be read before. -/
theorem InputRead.usable {src : Source} (hread : InputRead src st st')
    (husable : (st'.connection i).Usable) : (st.connection i).Usable := by
  cases src with
  | connection j =>
    obtain ⟨hj, rfl⟩ := hread
    by_cases heq : i = j
    · rwa [heq]
    · rwa [RState.connection_update_ne _ heq] at husable
  | _ =>
    obtain rfl : st' = st := hread
    exact husable

/-- What `pkey_parse` does not refuse before the backend has seen it. -/
def Parseable (bs : List Byte) : Prop := bs ≠ [] ∧ ¬ (looksLikePem bs = true ∧ (0 : Byte) ∈ bs)

/-- It yields the same then; a second read finds nothing to parse. -/
theorem InputRead.parseable {src : Source} (hread : InputRead src st st')
    (husable : (st'.connection i).Usable) (hparse : Parseable (st'.connection i).chunks.flatten) :
    Parseable (st.connection i).chunks.flatten := by
  cases src with
  | connection j =>
    obtain ⟨hj, rfl⟩ := hread
    by_cases heq : i = j
    · subst heq
      rw [RState.connection_update] at husable hparse
      by_cases hopen : (st.connection i).isOpen = true
      · rw [if_pos hopen] at hparse
        exact absurd rfl hparse.1
      · rw [if_neg hopen] at husable
        exact absurd husable.valid (by simp [Connection.closed])
    · rwa [RState.connection_update_ne _ heq] at hparse
  | _ =>
    obtain rfl : st' = st := hread
    exact hparse

/-- What is not a key is refused, whatever the backend says. -/
theorem pkeyParseImpl_refused {inp len : Nat} (hparse : ¬ Parseable (read w.mem inp len))
    (privateKey : Bool) : ((pkeyParseImpl inp len privateKey true).exec h w s).value.1 ≠ .ok := by
  by_cases hready : 0 < w.refcount
  · by_cases hnull : inp = NULL ∨ len = 0
    · simp [pkeyParseImpl, Proc.exec_bind, hready, hnull]
    · have hne : read w.mem inp len ≠ [] := by
        intro hnil
        have hlen := length_read w.mem inp len
        rw [hnil] at hlen
        exact hnull (.inr hlen.symm)
      obtain ⟨hpem, hzero⟩ : looksLikePem (read w.mem inp len) = true ∧ (0 : Byte) ∈ read w.mem inp len :=
        not_not.mp fun hno => hparse ⟨hne, hno⟩
      simp [pkeyParseImpl, Proc.exec_bind, hready, hnull, hpem, hzero]
  · simp [pkeyParseImpl, Proc.exec_bind, hready]

/-- A key object was made of bytes that can be parsed. -/
theorem parseKey_parseable {bytes : Sexp} {isPrivate : Bool} {key : KeyObject}
    (hrun : (parseKey bytes isPrivate st).exec h w s = ⟨(.ok key, st'), w', s'⟩) :
    Parseable (bytes.bytes w.mem) := by
  unfold parseKey at hrun
  obtain ⟨⟨status, handle⟩, st₁, w₁, s₁, hnative, hrest⟩ := RFun.exec_bind_ok hrun
  obtain ⟨hparse, -⟩ := RFun.exec_native_ok hnative
  by_cases hst : status = .ok
  · by_contra hno
    have himpl : ((pkeyParseImpl bytes.RAW bytes.XLENGTH isPrivate true).exec h
        { w with allocFailed := false } s).value.1 ≠ .ok :=
      pkeyParseImpl_refused (w := { w with allocFailed := false }) hno isPrivate
    refine himpl ((exec_watched_ok h (pkeyParseImpl bytes.RAW bytes.XLENGTH isPrivate true) w s).1.mp ?_)
    show ((zucryptPkeyParse bytes isPrivate).exec h w s).value.1 = .ok
    rw [hparse]
    exact hst
  · rw [if_pos hst] at hrest
    exact (RFun.exec_raise_ok hrest).elim

/-- A new vector is filled with the bytes, -/
theorem exec_newRaw (bs : List Byte) :
    (newRaw bs).exec h w s = ⟨.raw (h _ (.allocRaw bs.length) s).1 bs.length [],
      w.store (h _ (.allocRaw bs.length) s).1 bs, (h _ (.allocRaw bs.length) s).2⟩ := (rfl)

/-- and then has them. -/
theorem newRaw_bytes {bs : List Byte} {x : Sexp}
    (hx : (newRaw bs).exec h w s = ⟨x, w', s'⟩) : x.bytes w'.mem = bs := by
  rw [exec_newRaw] at hx
  obtain ⟨rfl, rfl, -⟩ := Outcome.mk.inj hx
  exact read_write_self _ _ _

/-- A key that was read from a connection was in what that had yielded. -/
theorem readKey_connection {isPrivate : Bool} {key : KeyObject}
    (hrun : ((keyInput (.connection i) "file" >>= fun bytes => parseKey bytes isPrivate : RFun O KeyObject)
      st).exec h w s = ⟨(.ok key, st'), w', s'⟩) :
    (st.connection i).Usable ∧ Parseable (st.connection i).chunks.flatten := by
  obtain ⟨x, st₁, w₁, s₁, hinput, hrest⟩ := RFun.exec_bind_ok hrun
  obtain ⟨husable, hx, -⟩ := keyInput_connection_ok hinput
  refine ⟨husable, ?_⟩
  rw [← newRaw_bytes hx]
  exact parseKey_parseable hrest

/-- So it is with `crypt_read_key`. -/
theorem cryptReadKey_connection {password : Sexp} {key : KeyObject}
    (hrun : (cryptReadKey (.source (.connection i)) password st).exec h w s =
      ⟨(.ok key, st'), w', s'⟩) :
    (st.connection i).Usable ∧ Parseable (st.connection i).chunks.flatten := by
  obtain ⟨_, st₁, w₁, s₁, hcheck, hrest⟩ := RFun.exec_bind_ok hrun
  obtain ⟨-, rfl, rfl, rfl⟩ := RFun.exec_check_ok hcheck
  exact readKey_connection hrest

/-! ### Calls on a source -/

/-- There is a run of the function that reports success. -/
def Succeeds (p : RFun O α) (st : RState) : Prop :=
  ∃ (σ : Type) (h : Handler (Call O) σ) (w : World) (s : σ) (a : α) (st' : RState) (w' : World) (s' : σ),
    (p st).exec h w s = ⟨(.ok a, st'), w', s'⟩

/-- Calls of a function with a source in one of its arguments, whatever the others are. -/
def SourceCalls (α : Type) : Type 1 := (O : Objects) → Source → RFun O α → Prop

def hashCalls : SourceCalls Sexp := fun _ src p => ∃ algorithm H, p = cryptHash src algorithm H

def hmacCalls : SourceCalls Sexp := fun _ src p => ∃ key algorithm H, p = cryptHmac src key algorithm H

def readKeyCalls : SourceCalls KeyObject := fun _ src p =>
  ∃ password, p = cryptReadKey (.source src) password

def readPubkeyCalls : SourceCalls KeyObject := fun _ src p => p = cryptReadPubkey (.source src)

def signDataCalls : SourceCalls Sexp := fun _ src p => ∃ hash key password pss deterministic,
  hash.Quiet ∧ p = cryptSignatureCreate src hash key password pss deterministic

def signKeyCalls : SourceCalls Sexp := fun _ src p => ∃ data hash password pss deterministic,
  hash.Quiet ∧ p = cryptSignatureCreate data hash (.source src) password pss deterministic

def verifyDataCalls : SourceCalls Bool := fun _ src p => ∃ sig hash pubkey pss,
  hash.Quiet ∧ p = cryptSignatureVerify src sig hash pubkey pss

def verifySigCalls : SourceCalls Bool := fun _ src p => ∃ data hash pubkey pss,
  hash.Quiet ∧ p = cryptSignatureVerify data src hash pubkey pss

def verifyKeyCalls : SourceCalls Bool := fun _ src p => ∃ data sig hash pss,
  hash.Quiet ∧ p = cryptSignatureVerify data sig hash (.source src) pss

/-- Of this connection, no call reports success when there is more to come than it has read. -/
def NeverPrefix (calls : SourceCalls α) (c : Connection) : Prop :=
  ∀ O i (p : RFun O α) st, calls O (.connection i) p → st.connection i = c → Succeeds p st → c.Whole

/-- Every call leaves every connection open that was open, and no other. -/
def LeavesConnections (calls : SourceCalls α) : Prop :=
  ∀ O src (p : RFun O α), calls O src p → p.LeavesOpen

/-- A connection that has something for `key_input`, and more to come that it has not yet. -/
structure Connection.Cut (c : Connection) : Prop where
  usable : c.Usable
  notWhole : ¬ c.Whole

/-! ### Where nothing is lost -/

theorem neverPrefix_of_complete {c : Connection} (hc : c.ending = .complete) : c.Whole := by
  unfold Connection.Whole Connection.contents
  rw [hc]
  exact (List.append_nil _).symm

/-- `crypt_hash` never processes a prefix. -/
theorem hash_neverPrefix (c : Connection) : NeverPrefix hashCalls c := by
  rintro O i p st ⟨algorithm, H, rfl⟩ rfl ⟨σ, h, w, s, value, st', w', s', hrun⟩
  obtain ⟨_, st₁, w₁, s₁, hname, hrest⟩ := RFun.exec_bind_ok hrun
  obtain ⟨-, rfl, rfl, rfl⟩ := RFun.exec_check_ok hname
  exact neverPrefix_of_complete (digestConnection_run hrest).1

/-- Nor does `crypt_hmac`. -/
theorem hmac_neverPrefix (c : Connection) : NeverPrefix hmacCalls c := by
  rintro O i p st ⟨key, algorithm, H, rfl⟩ rfl ⟨σ, h, w, s, value, st', w', s', hrun⟩
  obtain ⟨_, st₁, w₁, s₁, hkey, hrest⟩ := RFun.exec_bind_ok hrun
  obtain ⟨_, st₂, w₂, s₂, hname, hrest₁⟩ := RFun.exec_bind_ok hrest
  obtain ⟨-, rfl, rfl, rfl⟩ := RFun.exec_check_ok hkey
  obtain ⟨-, rfl, rfl, rfl⟩ := RFun.exec_check_ok hname
  exact neverPrefix_of_complete (digestConnection_run hrest₁).1

/-- A call that succeeds could read the connection. -/
def NeedsUsable (calls : SourceCalls α) : Prop :=
  ∀ O i (p : RFun O α) st, calls O (.connection i) p → Succeeds p st → (st.connection i).Usable

/-- And could parse what it had yielded. -/
def NeedsParseable (calls : SourceCalls α) : Prop :=
  ∀ O i (p : RFun O α) st, calls O (.connection i) p → Succeeds p st →
    (st.connection i).Usable ∧ Parseable (st.connection i).chunks.flatten

/-- `crypt_read_key` needs a connection that can be read and parsed. -/
theorem readKey_needs : NeedsParseable readKeyCalls := by
  rintro O i p st ⟨password, rfl⟩ ⟨σ, h, w, s, key, st', w', s', hrun⟩
  exact cryptReadKey_connection hrun

/-- So does `crypt_read_pubkey`. -/
theorem readPubkey_needs : NeedsParseable readPubkeyCalls := by
  rintro O i p st rfl ⟨σ, h, w, s, key, st', w', s', hrun⟩
  exact readKey_connection hrun

/-- What `crypt_signature_create` has read before its key, and what that key is read from. -/
theorem cryptSignatureCreate_reads {data : Source} {hash : HashArgument O} (hquiet : hash.Quiet)
    {key : KeyArgument} {password : Sexp} {pss deterministic : Option Bool}
    (hrun : Succeeds (cryptSignatureCreate data hash key password pss deterministic) st) :
    ∃ st₁, InputRead data st st₁ ∧ Succeeds (cryptReadKey key .null : RFun O KeyObject) st₁ := by
  obtain ⟨σ, h, w, s, value, st', w', s', hrun⟩ := hrun
  obtain ⟨_, st₁, w₁, s₁, hpss, hrest⟩ := RFun.exec_bind_ok hrun
  obtain ⟨_, st₂, w₂, s₂, hdeterministic, hrest₁⟩ := RFun.exec_bind_ok hrest
  obtain ⟨digest, st₃, w₃, s₃, hdigest, hrest₂⟩ := RFun.exec_bind_ok hrest₁
  obtain ⟨_, st₄, w₄, s₄, hpassword, hrest₃⟩ := RFun.exec_bind_ok hrest₂
  obtain ⟨k, st₅, w₅, s₅, hkey, -⟩ := RFun.exec_bind_ok hrest₃
  obtain ⟨-, rfl, rfl, rfl⟩ := RFun.exec_check_ok hpss
  obtain ⟨-, rfl, rfl, rfl⟩ := RFun.exec_check_ok hdeterministic
  obtain ⟨-, rfl, rfl, rfl⟩ := RFun.exec_check_ok hpassword
  exact ⟨_, signatureDigest_read hquiet hdigest, σ, h, _, _, k, st₅, w₅, s₅, hkey⟩

/-- What `crypt_signature_verify` has read, and what its key is read from. -/
theorem cryptSignatureVerify_reads {data sig : Source} {hash : HashArgument O} (hquiet : hash.Quiet)
    {pubkey : KeyArgument} {pss : Option Bool}
    (hrun : Succeeds (cryptSignatureVerify data sig hash pubkey pss) st) :
    ∃ st₁ st₂, InputRead data st st₁ ∧ InputRead sig st₁ st₂ ∧
      Succeeds (cryptReadPubkey pubkey : RFun O KeyObject) st₂ := by
  obtain ⟨σ, h, w, s, value, st', w', s', hrun⟩ := hrun
  obtain ⟨_, st₁, w₁, s₁, hpss, hrest⟩ := RFun.exec_bind_ok hrun
  obtain ⟨digest, st₂, w₂, s₂, hdigest, hrest₁⟩ := RFun.exec_bind_ok hrest
  obtain ⟨x, st₃, w₃, s₃, hsig, hrest₂⟩ := RFun.exec_bind_ok hrest₁
  obtain ⟨k, st₄, w₄, s₄, hkey, -⟩ := RFun.exec_bind_ok hrest₂
  obtain ⟨-, rfl, rfl, rfl⟩ := RFun.exec_check_ok hpss
  exact ⟨_, _, signatureDigest_read hquiet hdigest, keyInput_read hsig, σ, h, _, _, k, st₄, w₄, s₄, hkey⟩

/-- The data to be signed can be read. -/
theorem signData_needs : NeedsUsable signDataCalls := by
  rintro O i p st ⟨hash, key, password, pss, deterministic, hquiet, rfl⟩ hrun
  obtain ⟨st₁, hdata, -⟩ := cryptSignatureCreate_reads hquiet hrun
  exact hdata.1

/-- The key it is signed with can be read and parsed. -/
theorem signKey_needs : NeedsParseable signKeyCalls := by
  rintro O i p st ⟨data, hash, password, pss, deterministic, hquiet, rfl⟩ hrun
  obtain ⟨st₁, hdata, hkey⟩ := cryptSignatureCreate_reads hquiet hrun
  obtain ⟨husable, hparse⟩ := readKey_needs O i _ st₁ ⟨.null, rfl⟩ hkey
  exact ⟨hdata.usable husable, hdata.parseable husable hparse⟩

/-- The data to be verified can be read, -/
theorem verifyData_needs : NeedsUsable verifyDataCalls := by
  rintro O i p st ⟨sig, hash, pubkey, pss, hquiet, rfl⟩ hrun
  obtain ⟨st₁, st₂, hdata, -, -⟩ := cryptSignatureVerify_reads hquiet hrun
  exact hdata.1

/-- and the signature. -/
theorem verifySig_needs : NeedsUsable verifySigCalls := by
  rintro O i p st ⟨data, hash, pubkey, pss, hquiet, rfl⟩ hrun
  obtain ⟨st₁, st₂, hdata, hsig, -⟩ := cryptSignatureVerify_reads hquiet hrun
  exact hdata.usable hsig.1

/-- The key it is verified with can be read and parsed. -/
theorem verifyKey_needs : NeedsParseable verifyKeyCalls := by
  rintro O i p st ⟨data, sig, hash, pss, hquiet, rfl⟩ hrun
  obtain ⟨st₁, st₂, hdata, hsig, hkey⟩ := cryptSignatureVerify_reads hquiet hrun
  obtain ⟨husable, hparse⟩ := readPubkey_needs O i _ st₂ rfl hkey
  have husable₁ := hsig.usable husable
  exact ⟨hdata.usable husable₁, hdata.parseable husable₁ (hsig.parseable husable hparse)⟩

/-! ### A backend that refuses nothing -/

/-- It reads a key of 2048 bits in anything, and calls every signature good. -/
def acceptingPsa : {α : Type} → PsaCall referenceObjects α → α
  | _, .importKey .. => (.success, 1)
  | _, .getKeyAttributes .. => (.success, { type := .rsaKeyPair, bits := 2048 })
  | _, .exportKey .. => (.success, ⟨[], 0⟩)
  | _, .exportPublicKey .. => (.success, ⟨[], 0⟩)
  | _, .signHash .. => (.success, ⟨[], 0⟩)
  | _, .verifyHash .. => .success
  | _, .pkParseKey pk .. => (.success, pk)
  | _, .pkGetPsaAttributes .. => (.success, { type := .rsaKeyPair, bits := 2048 })
  | _, .pkImportIntoPsa .. => (.success, 1)
  | _, c => refusal c

def acceptingBackend : Handler (Call referenceObjects) Unit
  | _, .psa c, _ => (⟨acceptingPsa c, false⟩, ())
  | _, .calloc _, _ => (some 1, ())
  | _, .malloc _, _ => (some 1, ())
  | _, .freeRecord .., _ => ((), ())
  | _, .freeBytes _, _ => ((), ())
  | _, .dropLocal _, _ => ((), ())
  | _, .allocRaw _, _ => (1, ())

/-- The input of a run against it, in a new vector. -/
theorem accepting_newRaw (bs : List Byte) :
    (newRaw bs).exec acceptingBackend readyWorld () =
      ⟨.raw 1 bs.length [], readyWorld.store 1 bs, ()⟩ := (rfl)

/-- A key it has read. -/
def acceptedKey (isPrivate : Bool) (bits : Nat) (der : HeapBytes) : ZucPkey where
  self := 1
  type := .rsa
  ptype := if isPrivate then .rsaKeyPair else .rsaPublicKey
  isPrivate := isPrivate
  bits := bits
  der := der

/-- The backend's answers, and no more. -/
theorem accepting_psa {α : Type} (c : PsaCall referenceObjects α) (w : World) :
    (psa c).exec acceptingBackend w () = ⟨acceptingPsa c, w, ()⟩ := by
  have hfails : allocFails acceptingBackend c () = false := rfl
  rw [exec_psa, hfails, World.noteAlloc_false]
  rfl

/-- Any key of this backend makes a handle. -/
theorem accepting_pkeyFromPsa (id : KeyId) (isPrivate : Bool) (w : World) : ∃ der,
    (pkeyFromPsa id isPrivate).exec acceptingBackend w () =
      ⟨(.ok, some (acceptedKey isPrivate 2048 der)), { w with live := w.live + 1 }, ()⟩ := by
  have halg : algOfPsa .rsaKeyPair 2048 = .rsa := by decide
  have hcalloc : ∀ w, (callocRecord .zucPkey : Adapter referenceObjects _).exec acceptingBackend w () =
      ⟨some 1, w, ()⟩ := fun _ => rfl
  have hmalloc : ∀ n w, (mallocBytes n : Adapter referenceObjects _).exec acceptingBackend w () =
      ⟨some (.fresh 1 n), w, ()⟩ := fun _ _ => rfl
  cases isPrivate with
  | true =>
    simp only [pkeyFromPsa, Proc.exec_bind, accepting_psa, acceptingPsa, ne_eq, not_true_eq_false,
      if_false, halg, reduceCtorEq, hcalloc, hmalloc, PsaKeyType.isKeyPair, Bool.and_true, if_true,
      exec_zucIntLiveAdd, Proc.exec_pure]
    exact ⟨_, rfl⟩
  | false =>
    simp only [pkeyFromPsa, Proc.exec_bind, accepting_psa, acceptingPsa, ne_eq, not_true_eq_false,
      if_false, halg, reduceCtorEq, hcalloc, hmalloc, Bool.and_false, Bool.false_eq_true,
      exec_zucIntLiveAdd, Proc.exec_pure]
    exact ⟨_, rfl⟩

/-- Whatever it is given to parse is a key. -/
theorem accepting_parseSource (src : List Byte) (copy : Option HeapBytes) (isPrivate : Bool)
    (w : World) : ∃ der,
    (parseSource src copy isPrivate).exec acceptingBackend w () =
        ⟨(.ok, some (acceptedKey isPrivate 2048 der)), { w with live := w.live + 1 }, ()⟩ := by
  obtain ⟨der, hkey⟩ := accepting_pkeyFromPsa 1 isPrivate w
  refine ⟨der, ?_⟩
  have hfree : ∀ c : Option HeapBytes, (freeIf (fun c => freeBytes (c.buf.wipe c.len)) c :
      Adapter referenceObjects _).exec acceptingBackend w () = ⟨(), w, ()⟩ := by
    intro c
    cases c <;> rfl
  have hprivate : ¬ (isPrivate = true ∧ (acceptedKey isPrivate 2048 der).isPrivate = false) := by
    cases isPrivate <;> simp [acceptedKey]
  simp only [parseSource, parseEither, Proc.exec_bind, accepting_psa, acceptingPsa, if_true,
    Proc.exec_pure, hfree, ne_eq, not_true_eq_false, if_false, parseDescribe, parseAttributes, false_and,
    parseImport, Bool.and_true, hkey, if_neg hprivate]

/-- So the entry point makes a handle of anything that is let through to the backend. -/
theorem accepting_parse {bs : List Byte} (hparse : Parseable bs) (isPrivate : Bool) : ∃ der w',
    (zucryptPkeyParse (.raw 1 bs.length []) isPrivate).exec acceptingBackend (readyWorld.store 1 bs) () =
      ⟨(.ok, some (acceptedKey isPrivate 2048 der)), w', ()⟩ ∧ w'.refcount = 1 := by
  have hbytes : read (readyWorld.store 1 bs).mem 1 bs.length = bs := read_write_self _ _ _
  have hlength : ¬ ((1 : Nat) = NULL ∨ bs.length = 0) := by
    simpa [NULL] using hparse.1
  have himpl : ∃ der w', (pkeyParseImpl 1 bs.length isPrivate true).exec acceptingBackend
      { readyWorld.store 1 bs with allocFailed := false } () =
        ⟨(.ok, some (acceptedKey isPrivate 2048 der)), w', ()⟩ ∧ w'.refcount = 1 := by
    have hready : decide (0 < (readyWorld.store 1 bs).refcount) = true := rfl
    by_cases hpem : looksLikePem bs = true
    · have hzero : ¬ (0 : Byte) ∈ bs := fun hmem => hparse.2 ⟨hpem, hmem⟩
      simp only [pkeyParseImpl, Proc.exec_bind, Bool.true_eq_false, if_false, exec_zucIntReady, hready,
        if_neg hlength, exec_readMem, hbytes, hpem, if_true, if_neg hzero]
      obtain ⟨der, hsource⟩ := accepting_parseSource _ _ isPrivate _
      exact ⟨der, _, hsource, rfl⟩
    · simp only [pkeyParseImpl, Proc.exec_bind, Bool.true_eq_false, if_false, exec_zucIntReady, hready,
        if_neg hlength, exec_readMem, hbytes, if_neg hpem]
      obtain ⟨der, hsource⟩ := accepting_parseSource bs none isPrivate
        { readyWorld.store 1 bs with allocFailed := false }
      exact ⟨der, _, hsource, rfl⟩
  obtain ⟨der, w', himpl, hrefcount⟩ := himpl
  obtain ⟨hok, hvalue, hworld⟩ := exec_watched_ok acceptingBackend
    (pkeyParseImpl 1 bs.length isPrivate true) (readyWorld.store 1 bs) ()
  rw [himpl] at hok hvalue hworld
  exact ⟨der, w', Outcome.ext (Prod.ext (hok.mpr rfl) hvalue) hworld rfl, hrefcount⟩

/-- A run of one expression after another. -/
theorem RFun.exec_bind_of_ok {p : RFun O α} {f : α → RFun O β} {a : α}
    (hp : (p st).exec h w s = ⟨(.ok a, st'), w', s'⟩) :
    ((p >>= f) st).exec h w s = (f a st').exec h w' s' := by
  show (RFun.seq p f st).exec h w s = _
  unfold RFun.seq
  rw [Proc.exec_bind, hp]

/-- A call that succeeds on what a cut connection has yielded. -/
def TakesPrefix (calls : SourceCalls α) (c : Connection) : Prop :=
  ∃ O i st, ∃ p : RFun O α, calls O (.connection i) p ∧ st.connection i = c ∧ Succeeds p st

/-- The connection by itself. -/
def only (c : Connection) : RState := ⟨fun _ => c⟩

/-- `key_input` reads what a connection has. -/
theorem accepting_keyInput {c : Connection} (hc : c.Usable) (arg : String) : ∃ st',
    (keyInput (.connection 0) arg (only c)).exec acceptingBackend readyWorld () =
      ⟨(.ok (.raw 1 c.chunks.flatten.length []), st'), readyWorld.store 1 c.chunks.flatten, ()⟩ :=
  @exec_keyInput_connection _ _ acceptingBackend readyWorld _ () _ (only c) 0 hc arg _ (accepting_newRaw _)

/-- The key that a cut connection is read as. -/
def acceptedObject (isPrivate : Bool) (bits : Nat) (der : HeapBytes) : KeyObject :=
  ⟨some (acceptedKey isPrivate bits der), [if isPrivate then "crypt_key" else "crypt_pubkey", "crypt_rsa"]⟩

/-- What it reads makes a key object. -/
theorem accepting_readKey {c : Connection} (hc : c.Usable) (hparse : Parseable c.chunks.flatten)
    (isPrivate : Bool) : ∃ der st' w',
    ((keyInput (.connection 0) "file" >>= fun bytes => parseKey bytes isPrivate :
      RFun referenceObjects KeyObject) (only c)).exec acceptingBackend readyWorld () =
      ⟨(.ok (acceptedObject isPrivate 2048 der), st'), w', ()⟩ ∧ w'.refcount = 1 := by
  obtain ⟨st', hinput⟩ := accepting_keyInput hc "file"
  obtain ⟨der, w', hnative, hready⟩ := accepting_parse hparse isPrivate
  have hparsed : (RFun.native (zucryptPkeyParse (.raw 1 c.chunks.flatten.length []) isPrivate) st').exec
      acceptingBackend (readyWorld.store 1 c.chunks.flatten) () =
        ⟨(.ok (.ok, some (acceptedKey isPrivate 2048 der)), st'), w', ()⟩ := by
    unfold RFun.native
    rw [Proc.exec_bind, hnative]
    rfl
  refine ⟨der, st', w', ?_, hready⟩
  rw [RFun.exec_bind_of_ok hinput]
  unfold parseKey
  rw [RFun.exec_bind_of_ok hparsed]
  rfl

/-- So `crypt_read_key` takes a prefix. -/
theorem readKey_takes {c : Connection} (hc : c.Usable) (hparse : Parseable c.chunks.flatten) :
    TakesPrefix readKeyCalls c := by
  obtain ⟨der, st', w', hrun, -⟩ := accepting_readKey hc hparse true
  exact ⟨referenceObjects, 0, only c, _, ⟨.null, rfl⟩, rfl, Unit, acceptingBackend, readyWorld, (), _,
    st', w', (), hrun⟩

/-- And `crypt_read_pubkey`. -/
theorem readPubkey_takes {c : Connection} (hc : c.Usable) (hparse : Parseable c.chunks.flatten) :
    TakesPrefix readPubkeyCalls c := by
  obtain ⟨der, st', w', hrun, -⟩ := accepting_readKey hc hparse false
  exact ⟨referenceObjects, 0, only c, _, rfl, rfl, Unit, acceptingBackend, readyWorld, (), _, st', w', (),
    hrun⟩

/-- A digest function that gives 32 bytes of anything. -/
def blankDigest : HashArgument referenceObjects :=
  .function fun _ => RFun.native (newRaw (List.replicate 32 0))

/-- That function has no eyes for connections. -/
theorem blankDigest_quiet : blankDigest.Quiet := by
  rintro f hf x σ h w s st
  obtain rfl := HashArgument.function.inj hf
  unfold RFun.native
  rw [Proc.exec_bind]
  rfl

/-! ### Runs against it -/

theorem accepting_import {key : ZucPkey} (alg : PsaAlg) (usage : PsaKeyUsage) (w : World) :
    (pkeyImport key alg usage).exec acceptingBackend w () = ⟨(.ok, 1), w, ()⟩ := by
  unfold pkeyImport
  rw [Proc.exec_bind, accepting_psa]
  rfl

theorem signAlg_known : signAlg .rsaPkcs1v15Sign .sha256 = .rsaPkcs1v15Sign .sha256 := (rfl)

/-- The key is an RSA key, -/
theorem acceptedKey_fits (isPrivate : Bool) (bits : Nat) (der : HeapBytes) :
    schemeFits (acceptedKey isPrivate bits der) .rsaPkcs1v15Sign = true := (rfl)

/-- and its signatures have the length of its modulus. -/
theorem acceptedKey_size (isPrivate : Bool) (bits : Nat) (der : HeapBytes) :
    signatureSize (acceptedKey isPrivate bits der) = bits / 8 := if_pos rfl

/-- It signs, -/
theorem accepting_signHash {w : World} (hready : 0 < w.refcount) (der : HeapBytes) : ∃ w',
    (zucPkeySignHash (some (acceptedKey true 2048 der)) .rsaPkcs1v15Sign .sha256 1 32 1 1024
      (some 0)).exec acceptingBackend w () = ⟨(.ok, some 0), w', ()⟩ := by
  have hready : decide (0 < w.refcount) = true := decide_eq_true hready
  have himpl : ∃ w', (pkeySignHashImpl (some (acceptedKey true 2048 der)) .rsaPkcs1v15Sign .sha256 1 32 1
      1024 (some 0)).exec acceptingBackend { w with allocFailed := false } () =
        ⟨(.ok, some 0), w', ()⟩ := by
    have hprivate : (acceptedKey true 2048 der).isPrivate = true := rfl
    simp [pkeySignHashImpl, Proc.exec_bind, hready, signAlg_known, acceptedKey_fits, acceptedKey_size,
      hprivate, accepting_import, NULL, zucAlgSize, SizeCell.store]
    exact ⟨_, rfl⟩
  obtain ⟨w', himpl⟩ := himpl
  refine ⟨w', ?_⟩
  simp only [zucPkeySignHash, watched, Proc.exec_bind, exec_zucIntAllocWatch, himpl,
    exec_zucIntMemoryOr, ne_eq, not_true_eq_false, false_and, if_false, Proc.exec_pure]

/-- and verifies a signature of that length, whatever its bytes. -/
theorem accepting_verifyHash {w : World} (hready : 0 < w.refcount) {n bits p : Nat} (hn : n = bits / 8)
    (hp : ¬ (p = NULL ∧ n ≠ 0)) (der : HeapBytes) : ∃ w',
    (zucPkeyVerifyHash (some (acceptedKey false bits der)) .rsaPkcs1v15Sign .sha256 1 32 p n).exec
      acceptingBackend w () = ⟨.ok, w', ()⟩ := by
  have hargs : verifyArgs (acceptedKey false bits der) .rsaPkcs1v15Sign .sha256 32 n = .ok := by
    simp [verifyArgs, signAlg_known, acceptedKey_fits, acceptedKey_size, hn, zucAlgSize]
  have hnull : ¬ ((1 : Nat) = NULL ∨ (p = NULL ∧ n ≠ 0)) := by
    rintro (hone | hsig)
    · exact absurd hone (by decide)
    · exact hp hsig
  have hready : decide (0 < w.refcount) = true := decide_eq_true hready
  have himpl : ∃ w', (pkeyVerifyHashImpl (some (acceptedKey false bits der)) .rsaPkcs1v15Sign .sha256 1 32
      p n).exec acceptingBackend { w with allocFailed := false } () = ⟨.ok, w', ()⟩ := by
    simp only [pkeyVerifyHashImpl, if_neg hnull, Proc.exec_bind, exec_zucIntReady, hready,
      Bool.true_eq_false, if_false, hargs, ne_eq, not_true_eq_false, accepting_import, exec_readMem,
      accepting_psa, Proc.exec_pure]
    exact ⟨_, rfl⟩
  obtain ⟨w', himpl⟩ := himpl
  refine ⟨w', ?_⟩
  simp only [zucPkeyVerifyHash, Proc.exec_bind, exec_zucIntAllocWatch, himpl, exec_zucIntMemoryOr, ne_eq,
    not_true_eq_false, false_and, if_false]

/-- A native call that ends well, in an R function. -/
theorem exec_native_ok {p : Adapter O α} {a : α} (hp : p.exec h w s = ⟨a, w', s'⟩) (st : RState) :
    (RFun.native p st).exec h w s = ⟨(.ok a, st), w', s'⟩ := by
  unfold RFun.native
  rw [Proc.exec_bind, hp]
  rfl

/-- So `crypt_signature_create` has a value, -/
theorem accepting_sign {w : World} (hready : 0 < w.refcount) (der : HeapBytes) (st : RState) : ∃ x w',
    (signDigest (.raw 1 32 []) "sha256" (acceptedObject true 2048 der) false false st).exec
      acceptingBackend w () = ⟨(.ok x, st), w', ()⟩ := by
  obtain ⟨w₁, hhash⟩ := accepting_signHash hready der
  have hsign : ∃ w', (zucryptPkeySign (some (acceptedKey true 2048 der)) "rsa-pkcs1v15-sign" "sha256"
      (.raw 1 32 [])).exec acceptingBackend w () = ⟨⟨.ok, .raw 1 0 []⟩, w', ()⟩ := by
    unfold zucryptPkeySign
    have halloc : (allocRaw 1024 : Adapter referenceObjects Nat).exec acceptingBackend w () =
        ⟨1, w, ()⟩ := rfl
    dsimp only
    rw [Proc.exec_bind, halloc, Proc.exec_bind]
    dsimp only [Sexp.RAW, Sexp.XLENGTH]
    have hscheme : zucAlgByName (some "rsa-pkcs1v15-sign") = .rsaPkcs1v15Sign := rfl
    have hname : zucAlgByName (some "sha256") = .sha256 := rfl
    rw [hscheme, hname, hhash]
    exact ⟨_, rfl⟩
  obtain ⟨w', hnative⟩ := hsign
  have hsign : (zucryptPkeySign (acceptedObject true 2048 der).handle "rsa-pkcs1v15-sign" "sha256"
      (.raw 1 32 [])).exec acceptingBackend w () = ⟨⟨.ok, .raw 1 0 []⟩, w', ()⟩ := hnative
  have hinfo : (RFun.check (pkeyInfo (acceptedObject true 2048 der).handle) st).exec acceptingBackend w () =
      ⟨(.ok ⟨.rsa, 2048, true⟩, st), w, ()⟩ := rfl
  have hscheme : (RFun.check (signatureScheme (acceptedObject true 2048 der) false false) st).exec
      acceptingBackend w () = ⟨(.ok "rsa-pkcs1v15-sign", st), w, ()⟩ := rfl
  unfold signDigest
  rw [RFun.exec_bind_of_ok hinfo, RFun.exec_bind_of_ok hscheme,
    RFun.exec_bind_of_ok (exec_native_ok hsign st)]
  exact ⟨_, w', rfl⟩

/-- and `crypt_signature_verify`. -/
theorem accepting_verify {w : World} (hready : 0 < w.refcount) {n bits : Nat} (hn : n = bits / 8)
    (der : HeapBytes) (st : RState) : ∃ w',
    (verifyDigest (.raw 1 32 []) "sha256" (.raw 1 n []) (acceptedObject false bits der) false st).exec
      acceptingBackend w () = ⟨(.ok true, st), w', ()⟩ := by
  have hp : ¬ ((if n ≠ 0 then 1 else NULL) = NULL ∧ n ≠ 0) := by
    rintro ⟨hnull, hne⟩
    rw [if_pos hne] at hnull
    exact absurd hnull (by decide)
  obtain ⟨w', hhash⟩ := accepting_verifyHash hready hn hp der
  have hverify : (zucryptPkeyVerify (acceptedObject false bits der).handle "rsa-pkcs1v15-sign" "sha256"
      (.raw 1 32 []) (.raw 1 n [])).exec acceptingBackend w () = ⟨.ok, w', ()⟩ := hhash
  have hinfo : (RFun.check (pkeyInfo (acceptedObject false bits der).handle) st).exec acceptingBackend w
      () = ⟨(.ok ⟨.rsa, bits, false⟩, st), w, ()⟩ := rfl
  have hscheme : (RFun.check (signatureScheme (acceptedObject false bits der) false false) st).exec
      acceptingBackend w () = ⟨(.ok "rsa-pkcs1v15-sign", st), w, ()⟩ := rfl
  have hinput : (signatureInput (O := referenceObjects) (acceptedObject false bits der) .rsa (.raw 1 n [])
      st).exec acceptingBackend w () = ⟨(.ok (.raw 1 n []), st), w, ()⟩ := rfl
  refine ⟨w', ?_⟩
  unfold verifyDigest
  rw [RFun.exec_bind_of_ok hinfo, RFun.exec_bind_of_ok hscheme, RFun.exec_bind_of_ok hinput,
    RFun.exec_bind_of_ok (exec_native_ok hverify st)]
  rfl

/-- A digest of what a connection has is made. -/
theorem accepting_digest {c : Connection} (hc : c.Usable) : ∃ st' w',
    (signatureDigest (.connection 0) blankDigest (only c)).exec acceptingBackend readyWorld () =
      ⟨(.ok (.raw 1 32 [], "sha256"), st'), w', ()⟩ ∧ 0 < w'.refcount := by
  obtain ⟨st', hinput⟩ := accepting_keyInput hc "data"
  have hready : 0 < readyWorld.refcount := by decide
  refine ⟨st', (readyWorld.store 1 c.chunks.flatten).store 1 (List.replicate 32 0), ?_, hready⟩
  have happly : (applyHash (keyInput (.connection 0) "data") blankDigest (only c)).exec acceptingBackend
      readyWorld () = ⟨(.ok (.raw 1 32 []), st'),
        (readyWorld.store 1 c.chunks.flatten).store 1 (List.replicate 32 0), ()⟩ := by
    unfold applyHash blankDigest
    dsimp only
    rw [RFun.exec_bind_of_ok hinput]
    rfl
  unfold signatureDigest
  rw [RFun.exec_bind_of_ok happly]
  rfl

/-- A digest that is there already. -/
theorem accepting_digest_raw (w : World) (st : RState) :
    (signatureDigest (O := referenceObjects) (.sexp (.raw 1 32 [])) .null st).exec acceptingBackend w () =
      ⟨(.ok (.raw 1 32 [], "sha256"), st), w, ()⟩ := (rfl)

/-- A key that was read before. -/
def knownObject (isPrivate : Bool) (bits : Nat) : KeyObject :=
  acceptedObject isPrivate bits ⟨⟨1, [], false⟩, 0⟩

theorem checkFlag_false (arg : String) : checkFlag (some false) arg = .ok false := (rfl)

theorem null_quiet : (HashArgument.null : HashArgument O).Quiet := nofun

/-- `crypt_signature_create` signs a prefix. -/
theorem signData_takes {c : Connection} (hc : c.Usable) : TakesPrefix signDataCalls c := by
  obtain ⟨st', w₁, hdigest, hready⟩ := accepting_digest hc
  obtain ⟨x, w', hsign⟩ := accepting_sign hready ⟨⟨1, [], false⟩, 0⟩ st'
  refine ⟨referenceObjects, 0, only c, _, ⟨blankDigest, .object (knownObject true 2048), .null,
    some false, some false, blankDigest_quiet, rfl⟩, rfl,
    Unit, acceptingBackend, readyWorld, (), x, st', w', (), ?_⟩
  unfold cryptSignatureCreate
  rw [checkFlag_false, RFun.check_ok_bind, checkFlag_false, RFun.check_ok_bind]
  rw [RFun.exec_bind_of_ok hdigest]
  exact hsign

/-- `crypt_signature_verify` verifies one, -/
theorem verifyData_takes {c : Connection} (hc : c.Usable) : TakesPrefix verifyDataCalls c := by
  obtain ⟨st', w₁, hdigest, hready⟩ := accepting_digest hc
  obtain ⟨w', hverify⟩ := accepting_verify hready (by decide : 256 = 2048 / 8) ⟨⟨1, [], false⟩, 0⟩ st'
  refine ⟨referenceObjects, 0, only c, _, ⟨.sexp (.raw 1 256 []), blankDigest,
    .object (knownObject false 2048), some false, blankDigest_quiet, rfl⟩, rfl,
    Unit, acceptingBackend, readyWorld, (), true, st', w', (), ?_⟩
  unfold cryptSignatureVerify
  rw [checkFlag_false, RFun.check_ok_bind]
  rw [RFun.exec_bind_of_ok hdigest]
  exact hverify

/-- or takes one for a signature. -/
theorem verifySig_takes {c : Connection} (hc : c.Usable) : TakesPrefix verifySigCalls c := by
  obtain ⟨st', hinput⟩ := accepting_keyInput hc "sig"
  obtain ⟨w', hverify⟩ := accepting_verify (w := readyWorld.store 1 c.chunks.flatten)
    (n := c.chunks.flatten.length) (show 0 < readyWorld.refcount by decide) (Nat.mul_div_cancel_left _ (by decide : 0 < 8)).symm
    ⟨⟨1, [], false⟩, 0⟩ st'
  refine ⟨referenceObjects, 0, only c, _, ⟨.sexp (.raw 1 32 []), .null,
    .object (knownObject false (8 * c.chunks.flatten.length)), some false, null_quiet, rfl⟩, rfl,
    Unit, acceptingBackend, readyWorld, (), true, st', w', (), ?_⟩
  unfold cryptSignatureVerify
  rw [checkFlag_false, RFun.check_ok_bind]
  rw [RFun.exec_bind_of_ok (accepting_digest_raw _ _), RFun.exec_bind_of_ok hinput]
  exact hverify

/-- A key read from a prefix signs, -/
theorem signKey_takes {c : Connection} (hc : c.Usable) (hparse : Parseable c.chunks.flatten) :
    TakesPrefix signKeyCalls c := by
  obtain ⟨der, st', w₁, hkey, hready⟩ := accepting_readKey hc hparse true
  obtain ⟨x, w', hsign⟩ := accepting_sign (w := w₁) (by rw [hready]; decide) der st'
  refine ⟨referenceObjects, 0, only c, _, ⟨.sexp (.raw 1 32 []), .null, .null, some false, some false,
    null_quiet, rfl⟩, rfl, Unit, acceptingBackend, readyWorld, (), x, st', w', (), ?_⟩
  have hread : (cryptReadKey (.source (.connection 0)) .null (only c)).exec acceptingBackend readyWorld () =
      ⟨(.ok (acceptedObject true 2048 der), st'), w₁, ()⟩ := hkey
  unfold cryptSignatureCreate
  rw [checkFlag_false, RFun.check_ok_bind, checkFlag_false, RFun.check_ok_bind]
  rw [RFun.exec_bind_of_ok (accepting_digest_raw _ _)]
  have hpassword : noPassword .null = .ok () := rfl
  rw [hpassword, RFun.check_ok_bind, RFun.exec_bind_of_ok hread]
  exact hsign

/-- and verifies. -/
theorem verifyKey_takes {c : Connection} (hc : c.Usable) (hparse : Parseable c.chunks.flatten) :
    TakesPrefix verifyKeyCalls c := by
  obtain ⟨der, st', w₁, hkey, hready⟩ := accepting_readKey hc hparse false
  obtain ⟨w', hverify⟩ := accepting_verify (w := w₁) (by rw [hready]; decide) (by decide : 256 = 2048 / 8)
    der st'
  refine ⟨referenceObjects, 0, only c, _, ⟨.sexp (.raw 1 32 []), .sexp (.raw 1 256 []), .null, some false,
    null_quiet, rfl⟩, rfl, Unit, acceptingBackend, readyWorld, (), true, st', w', (), ?_⟩
  have hread : (cryptReadPubkey (.source (.connection 0)) (only c)).exec acceptingBackend readyWorld () =
      ⟨(.ok (acceptedObject false 2048 der), st'), w₁, ()⟩ := hkey
  unfold cryptSignatureVerify
  rw [checkFlag_false, RFun.check_ok_bind]
  rw [RFun.exec_bind_of_ok (accepting_digest_raw _ _)]
  have hsig : (keyInput (.sexp (.raw 1 256 [])) "sig" : RFun referenceObjects Sexp) =
      pure (.raw 1 256 []) := rfl
  rw [hsig, RFun.pure_bind, RFun.exec_bind_of_ok hread]
  exact hverify

/-! ### When a prefix is taken for the whole -/

/-- For each argument that may be a connection: when no prefix of that one is processed. -/
structure PrefixExact (c : Connection) : Prop where
  hash : NeverPrefix hashCalls c
  hmac : NeverPrefix hmacCalls c
  signData : NeverPrefix signDataCalls c ↔ ¬ c.Cut
  verifyData : NeverPrefix verifyDataCalls c ↔ ¬ c.Cut
  verifySig : NeverPrefix verifySigCalls c ↔ ¬ c.Cut
  readKey : NeverPrefix readKeyCalls c ↔ ¬ (c.Cut ∧ Parseable c.chunks.flatten)
  readPubkey : NeverPrefix readPubkeyCalls c ↔ ¬ (c.Cut ∧ Parseable c.chunks.flatten)
  signKey : NeverPrefix signKeyCalls c ↔ ¬ (c.Cut ∧ Parseable c.chunks.flatten)
  verifyKey : NeverPrefix verifyKeyCalls c ↔ ¬ (c.Cut ∧ Parseable c.chunks.flatten)

/-- What is processed is all that the connection has yielded. -/
structure YieldProcessed : Prop where
  input : ∀ {O : Objects} {σ : Type} {h : Handler (Call O) σ} {w w' s s' i arg st st' x},
    (keyInput (.connection i) arg st).exec h w s = ⟨(.ok x, st'), w', s'⟩ →
    x.bytes w'.mem = (st.connection i).chunks.flatten
  digest : ∀ {O : Objects} {σ : Type} {h : Handler (Call O) σ} {w w' s s' i algorithm key H st st' x},
    (digestConnection i algorithm key H st).exec h w s = ⟨(.ok x, st'), w', s'⟩ →
    StreamRun h algorithm key (st.connection i) H w s x

/-- Connections are left as they were found, open or not, however a call ends. -/
structure ConnectionsLeft : Prop where
  hash : LeavesConnections hashCalls
  hmac : LeavesConnections hmacCalls
  signData : LeavesConnections signDataCalls
  verifyData : LeavesConnections verifyDataCalls
  verifySig : LeavesConnections verifySigCalls
  readKey : LeavesConnections readKeyCalls
  readPubkey : LeavesConnections readPubkeyCalls
  signKey : LeavesConnections signKeyCalls
  verifyKey : LeavesConnections verifyKeyCalls

/-- What is processed is what was yielded, to the last byte. -/
theorem yieldProcessed : YieldProcessed where
  input hrun := newRaw_bytes (keyInput_connection_ok hrun).2.1
  digest hrun := digestConnection_run hrun

/-- No call leaves a connection open that it opened. -/
theorem connectionsLeft : ConnectionsLeft where
  hash := by
    rintro O src p ⟨algorithm, H, rfl⟩
    exact leavesOpen_cryptHash src algorithm H
  hmac := by
    rintro O src p ⟨key, algorithm, H, rfl⟩
    exact leavesOpen_cryptHmac src key algorithm H
  signData := by
    rintro O src p ⟨hash, key, password, pss, deterministic, hquiet, rfl⟩
    exact leavesOpen_cryptSignatureCreate src hquiet key password pss deterministic
  verifyData := by
    rintro O src p ⟨sig, hash, pubkey, pss, hquiet, rfl⟩
    exact leavesOpen_cryptSignatureVerify src sig hquiet pubkey pss
  verifySig := by
    rintro O src p ⟨data, hash, pubkey, pss, hquiet, rfl⟩
    exact leavesOpen_cryptSignatureVerify data src hquiet pubkey pss
  readKey := by
    rintro O src p ⟨password, rfl⟩
    exact leavesOpen_cryptReadKey _ password
  readPubkey := by
    rintro O src p rfl
    exact leavesOpen_cryptReadPubkey _
  signKey := by
    rintro O src p ⟨data, hash, password, pss, deterministic, hquiet, rfl⟩
    exact leavesOpen_cryptSignatureCreate data hquiet _ password pss deterministic
  verifyKey := by
    rintro O src p ⟨data, sig, hash, pss, hquiet, rfl⟩
    exact leavesOpen_cryptSignatureVerify data sig hquiet _ pss

/-- A call that took a prefix is one that the property denies. -/
theorem TakesPrefix.not_never {calls : SourceCalls α} {c : Connection} (htakes : TakesPrefix calls c)
    (hc : ¬ c.Whole) : ¬ NeverPrefix calls c := by
  obtain ⟨O, i, st, p, hp, rfl, hrun⟩ := htakes
  exact fun hnever => hc (hnever O i p st hp rfl hrun)

/-- Where the bytes may be anything. -/
theorem neverPrefix_iff_usable {calls : SourceCalls α} {c : Connection} (hneeds : NeedsUsable calls)
    (htakes : c.Usable → TakesPrefix calls c) : NeverPrefix calls c ↔ ¬ c.Cut := by
  constructor
  · exact fun hnever hcut => (htakes hcut.usable).not_never hcut.notWhole hnever
  · rintro hcut O i p st hp rfl hrun
    by_contra hwhole
    exact hcut ⟨hneeds O i p st hp hrun, hwhole⟩

/-- Where they must be a key. -/
theorem neverPrefix_iff_parseable {calls : SourceCalls α} {c : Connection}
    (hneeds : NeedsParseable calls)
    (htakes : c.Usable → Parseable c.chunks.flatten → TakesPrefix calls c) :
    NeverPrefix calls c ↔ ¬ (c.Cut ∧ Parseable c.chunks.flatten) := by
  constructor
  · rintro hnever ⟨hcut, hparse⟩
    exact (htakes hcut.usable hparse).not_never hcut.notWhole hnever
  · rintro hcut O i p st hp rfl hrun
    by_contra hwhole
    obtain ⟨husable, hparse⟩ := hneeds O i p st hp hrun
    exact hcut ⟨⟨husable, hwhole⟩, hparse⟩

/-- **A prefix is processed as the whole exactly where `key_input` reads a connection that has
more to come**, and what it has so far is not refused for itself.  Digests of connections
never are of a prefix; no connection is left open that was not. -/
theorem prefix_processed_iff (c : Connection) : PrefixExact c ∧ YieldProcessed ∧ ConnectionsLeft :=
  ⟨{ hash := hash_neverPrefix c
     hmac := hmac_neverPrefix c
     signData := neverPrefix_iff_usable signData_needs signData_takes
     verifyData := neverPrefix_iff_usable verifyData_needs verifyData_takes
     verifySig := neverPrefix_iff_usable verifySig_needs verifySig_takes
     readKey := neverPrefix_iff_parseable readKey_needs readKey_takes
     readPubkey := neverPrefix_iff_parseable readPubkey_needs readPubkey_takes
     signKey := neverPrefix_iff_parseable signKey_needs signKey_takes
     verifyKey := neverPrefix_iff_parseable verifyKey_needs verifyKey_takes },
    yieldProcessed, connectionsLeft⟩

/-- A connection that is not blocking: it has one byte, and another is to come. -/
def pausedConnection : Connection where
  isOpen := true
  invalid := none
  opening := .works
  canRead := true
  binary := true
  chunks := [[0x61]]
  ending := .pending [0x62]
  chunks_ne := by decide

/-- The first byte of its two is signed. -/
theorem paused_connection_signed : ¬ NeverPrefix signDataCalls pausedConnection := by
  have husable : pausedConnection.Usable :=
    ⟨rfl, .inl rfl, rfl, rfl, fun _ => Ending.noConfusion⟩
  have hwhole : ¬ pausedConnection.Whole := by
    unfold Connection.Whole
    decide
  exact (signData_takes husable).not_never hwhole

end Zucrypt
