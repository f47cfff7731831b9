import Zucrypt.Resources
import Zucrypt.Session

/-! # What the library holds

The backend's keys and its key-file contexts, and the blocks of the C library's heap, are resources:
a call of the adapter puts one into its keeping, and another gives it back.  `tariff` says which,
and says that a key is created exactly when the call that creates one succeeds.

`Accounts p pre post delta` is what a function does to the account: it uses up `pre` and leaves
`post` of its result, on every path, and the number of live handles changes by `delta` of it.  This
module has the rules, and the functions of digests, ciphers and key derivation.

Most functions are of one of four kinds: they leave the account as it was (`Neutral`); they leave
behind what a handle holds, if they hand one out, and otherwise nothing (`Constructs`); they give a
handle back, with what it then holds (`Returns`); or they free one (`Frees`).  Whether the backend
succeeds, and whether there is memory, is not asked: a path on which something fails has to settle
its account as any other. -/
namespace Zucrypt
open Effects ByteMemory Resources

variable {O : Objects} {α β : Type}

/-- What the adapter can hold. -/
inductive Resource where
  | key (id : KeyId)
  | block (p : Nat)
  | pkContext
  deriving DecidableEq

/-- A key, if it was created. -/
def createdKey (r : PsaStatus × KeyId) : Multiset Resource :=
  if r.1 = .success then {.key r.2} else 0

/-- A block, if there was memory for it. -/
def allocatedBlock (p : Option Nat) : Multiset Resource :=
  match p with
  | none => 0
  | some p => {.block p}

/-- The key a call of the backend is given to work with. -/
def PsaCall.usedKey : PsaCall O α → Multiset Resource
  | .macSignSetup _ k _ => {.key k}
  | .macCompute k .. => {.key k}
  | .getKeyAttributes k => {.key k}
  | .exportKey k _ => {.key k}
  | .exportPublicKey k _ => {.key k}
  | .cipherEncryptSetup _ k _ => {.key k}
  | .cipherDecryptSetup _ k _ => {.key k}
  | .aeadEncryptSetup _ k _ => {.key k}
  | .aeadDecryptSetup _ k _ => {.key k}
  | .signHash k .. => {.key k}
  | .verifyHash k .. => {.key k}
  | .asymmetricEncrypt k .. => {.key k}
  | .asymmetricDecrypt k .. => {.key k}
  | .rawKeyAgreement _ k .. => {.key k}
  | .pkCopyPublicFromPsa k _ => {.key k}
  | _ => 0

/-- What each call of the adapter takes into keeping, and gives back.  A key that is used
has to be held, and is held afterwards; a context that the key-file reader was given has
to be freed whether it succeeded or not. -/
def tariff : Tariff (Call O) Resource where
  gains
    | ⟨.psa (.importKey ..), r⟩ => createdKey r.answer
    | ⟨.psa (.generateKey ..), r⟩ => createdKey r.answer
    | ⟨.psa (.pkImportIntoPsa ..), r⟩ => createdKey r.answer
    | ⟨.psa (.pkParseKey ..), _⟩ => {.pkContext}
    | ⟨.psa (.pkParsePublicKey ..), _⟩ => {.pkContext}
    | ⟨.psa (.pkCopyPublicFromPsa k _), _⟩ => {.key k} + {.pkContext}
    | ⟨.psa c, _⟩ => c.usedKey
    | ⟨.calloc _, p⟩ => allocatedBlock p
    | ⟨.malloc _, p⟩ => allocatedBlock p
    | _ => 0
  spends
    | ⟨.psa (.destroyKey id), _⟩ => {.key id}
    | ⟨.psa (.pkFree _), _⟩ => {.pkContext}
    | ⟨.psa c, _⟩ => c.usedKey
    | ⟨.freeRecord _ p, _⟩ => {.block p}
    | ⟨.freeBytes b, _⟩ => {.block b.ptr}
    | _ => 0

/-- The backend is not shut down. -/
def InWindow : Event (Call O) → Prop
  | ⟨.psa .cryptoFree, _⟩ => False
  | _ => True

/-- What `p` does to the account, whatever the world it runs in. -/
def Accounts (p : Adapter O α) (pre : Multiset Resource) (post : α → Multiset Resource)
    (delta : α → Int) : Prop :=
  ∀ w, Settles tariff InWindow p w pre fun a w' r => r = post a ∧ w'.live = w.live + delta a

/-- A function that leaves the account as it was. -/
def Neutral (p : Adapter O α) : Prop := Accounts p 0 (fun _ => 0) (fun _ => 0)

/-! ### Rules -/

section
variable {p : Adapter O α} {f : α → Adapter O β} {pre rest spent : Multiset Resource}
  {post : β → Multiset Resource} {mid : α → Multiset Resource} {delta : β → Int}

theorem Accounts.pure {b : β} (hpre : pre = post b) (hdelta : delta b = 0) :
    Accounts (pure b : Adapter O β) pre post delta := by
  intro w
  refine Settles.pure ⟨hpre, ?_⟩
  rw [hdelta, Int.add_zero]

theorem Accounts.ite {c : Prop} [Decidable c] {p q : Adapter O β}
    (hp : c → Accounts p pre post delta) (hq : ¬ c → Accounts q pre post delta) :
    Accounts (if c then p else q) pre post delta :=
  fun w => Settles.ite (fun hc => hp hc w) (fun hc => hq hc w)

/-- First one function and then, where something is known of its result, the others. -/
theorem Accounts.bindYields {d : α → Int} {Q : α → Prop} (hp : Accounts p pre mid d)
    (hQ : Yields p Q) (hf : ∀ a, Q a → Accounts (f a) (mid a) post (fun b => delta b - d a)) :
    Accounts (p >>= f) pre post delta := by
  intro w
  have hboth : Settles tariff InWindow p w pre fun a w' r =>
      (r = mid a ∧ w'.live = w.live + d a) ∧ Q a := by
    intro t a w' hrun hok
    obtain ⟨r, ht, hr⟩ := hp w t a w' hrun hok
    exact ⟨r, ht, hr, hQ w t a w' hrun (fun _ _ => trivial)⟩
  refine hboth.bind ?_
  rintro a w' r ⟨⟨rfl, hlive⟩, ha⟩
  refine (hf a ha w').mono ?_
  rintro b w'' r' ⟨hr', hlive'⟩
  have hlast : w''.live = w'.live + (delta b - d a) := hlive'
  exact ⟨hr', by omega⟩

theorem Accounts.bind {d : α → Int} (hp : Accounts p pre mid d)
    (hf : ∀ a, Accounts (f a) (mid a) post (fun b => delta b - d a)) :
    Accounts (p >>= f) pre post delta :=
  hp.bindYields (fun _ _ _ _ _ _ => trivial) fun a (_ : True) => hf a

theorem Accounts.frame {d : α → Int} (hp : Accounts p pre mid d) (rest : Multiset Resource) :
    Accounts p (pre + rest) (fun a => mid a + rest) d := by
  intro w
  refine ((hp w).frame rest).mono ?_
  rintro a w' r ⟨r', ⟨rfl, hlive⟩, rfl⟩
  exact ⟨rfl, hlive⟩

/-- First a function that uses up part of what is held, then the others. -/
theorem Accounts.seq (hp : Accounts p spent mid (fun _ => 0)) (hpre : pre = spent + rest)
    (hf : ∀ a, Accounts (f a) (mid a + rest) post delta) : Accounts (p >>= f) pre post delta := by
  subst hpre
  refine (hp.frame rest).bind fun a => ?_
  simpa using hf a

/-- First a function that uses up all that is held. -/
theorem Accounts.then (hp : Accounts p pre mid (fun _ => 0))
    (hf : ∀ a, Accounts (f a) (mid a) post delta) : Accounts (p >>= f) pre post delta := by
  refine hp.bind fun a => ?_
  simpa using hf a

/-- First a function that leaves the account as it was. -/
theorem Neutral.then (hp : Neutral p) (hf : ∀ a, Accounts (f a) pre post delta) :
    Accounts (p >>= f) pre post delta :=
  Accounts.seq hp (Multiset.zero_add pre).symm fun a => (Multiset.zero_add pre).symm ▸ hf a

end

/-! ### The steps functions are made of -/

theorem neutral_read : Neutral (Proc.read : Adapter O World) :=
  fun _ => Settles.read ⟨rfl, (Int.add_zero _).symm⟩

theorem neutral_update {f : World → World} (h : ∀ w, (f w).live = w.live) :
    Neutral (Proc.update f : Adapter O Unit) :=
  fun w => Settles.update ⟨rfl, (h w).trans (Int.add_zero _).symm⟩

theorem neutral_pure (a : α) : Neutral (pure a : Adapter O α) := Accounts.pure rfl rfl

theorem accounts_perform {op : Call O α} {pre : Multiset Resource} {post : α → Multiset Resource}
    (h : ∀ a, InWindow ⟨op, a⟩ → pre = tariff.spends ⟨op, a⟩ ∧ post a = tariff.gains ⟨op, a⟩) :
    Accounts (Proc.perform op : Adapter O α) pre post (fun _ => 0) := by
  intro w
  refine Settles.perform fun a ha => ⟨0, ?_, ?_⟩
  · rw [(h a ha).1, Multiset.add_zero]
  · rw [(h a ha).2, Multiset.add_zero]
    exact ⟨rfl, (Int.add_zero _).symm⟩

theorem accounts_psa {c : PsaCall O α} {pre : Multiset Resource} {post : α → Multiset Resource}
    (h : ∀ r, InWindow ⟨.psa c, r⟩ →
      pre = tariff.spends ⟨.psa c, r⟩ ∧ post r.answer = tariff.gains ⟨.psa c, r⟩) :
    Accounts (psa c) pre post (fun _ => 0) := by
  have hcall : Accounts (Proc.perform (.psa c) : Adapter O _) pre (fun r => post r.answer)
      (fun _ => 0) := accounts_perform h
  refine hcall.then fun r => ?_
  have hnote : Neutral (Proc.update (·.noteAlloc r.allocFailed) : Adapter O Unit) :=
    neutral_update fun w => rfl
  exact hnote.then fun _ => Accounts.pure rfl rfl

/-- A call of the backend that creates nothing and destroys nothing. -/
theorem neutral_psa {c : PsaCall O α}
    (h : ∀ r, tariff.spends ⟨.psa c, r⟩ = 0 ∧ tariff.gains ⟨.psa c, r⟩ = 0) : Neutral (psa c) :=
  accounts_psa fun r _ => ⟨(h r).1.symm, (h r).2.symm⟩

/-- A call of the backend that works with a key. -/
theorem accounts_use {c : PsaCall O α} (k : KeyId)
    (h : ∀ r, tariff.spends ⟨.psa c, r⟩ = {.key k} ∧ tariff.gains ⟨.psa c, r⟩ = {.key k}) :
    Accounts (psa c) {.key k} (fun _ => {.key k}) (fun _ => 0) :=
  accounts_psa fun r _ => ⟨(h r).1.symm, (h r).2.symm⟩

theorem accounts_importKey (attr : PsaKeyAttributes) (data : List Byte) :
    Accounts (psa (.importKey attr data : PsaCall O _)) 0 createdKey (fun _ => 0) :=
  accounts_psa fun _ _ => ⟨rfl, rfl⟩

theorem accounts_destroyKey (id : KeyId) :
    Accounts (psa (.destroyKey id : PsaCall O _)) {.key id} (fun _ => 0) (fun _ => 0) :=
  accounts_psa fun _ _ => ⟨rfl, rfl⟩

theorem accounts_pkFree (pk : O.Pk) :
    Accounts (psa (.pkFree pk)) {.pkContext} (fun _ => 0) (fun _ => 0) :=
  accounts_psa fun _ _ => ⟨rfl, rfl⟩

theorem accounts_callocRecord (what : Record) :
    Accounts (callocRecord what : Adapter O _) 0 allocatedBlock (fun _ => 0) :=
  accounts_perform fun _ _ => ⟨rfl, rfl⟩

theorem accounts_freeRecord (what : Record) (p : Nat) :
    Accounts (freeRecord what p : Adapter O _) {.block p} (fun _ => 0) (fun _ => 0) :=
  accounts_perform fun _ _ => ⟨rfl, rfl⟩

theorem accounts_freeBytes (b : HeapBuf) :
    Accounts (freeBytes b : Adapter O _) {.block b.ptr} (fun _ => 0) (fun _ => 0) :=
  accounts_perform fun _ _ => ⟨rfl, rfl⟩

/-- The block of an allocation. -/
def bufBlock (b : Option HeapBuf) : Multiset Resource := allocatedBlock (b.map HeapBuf.ptr)

theorem accounts_mallocBytes (n : Nat) :
    Accounts (mallocBytes n : Adapter O _) 0 bufBlock (fun _ => 0) := by
  have hcall : Accounts (Proc.perform (.malloc n) : Adapter O _) 0 allocatedBlock (fun _ => 0) :=
    accounts_perform fun _ _ => ⟨rfl, rfl⟩
  refine hcall.then fun p => ?_
  refine Accounts.pure ?_ rfl
  cases p with
  | none => rfl
  | some p => rfl

theorem neutral_readMem (p n : Nat) : Neutral (readMem p n : Adapter O _) :=
  neutral_read.then fun _ => Accounts.pure rfl rfl

theorem neutral_writeMem (p : Nat) (bs : List Byte) : Neutral (writeMem p bs : Adapter O _) :=
  neutral_update fun _ => rfl

theorem neutral_writeOutput (p size : Nat) (o : Output) :
    Neutral (writeOutput p size o : Adapter O _) := neutral_writeMem _ _

theorem neutral_dropLocal (bs : List Byte) : Neutral (dropLocal bs : Adapter O _) :=
  accounts_perform fun _ _ => ⟨rfl, rfl⟩

theorem neutral_zucIntReady : Neutral (zucIntReady : Adapter O _) :=
  neutral_read.then fun _ => Accounts.pure rfl rfl

theorem neutral_zucSecureZero (p n : Nat) : Neutral (zucSecureZero p n : Adapter O _) :=
  Accounts.ite (fun _ => neutral_pure ()) (fun _ => neutral_writeMem _ _)

theorem neutral_zucIntAllocWatch : Neutral (zucIntAllocWatch : Adapter O _) :=
  neutral_update fun _ => rfl

theorem neutral_zucIntMemoryOr (st : ZucStatus) : Neutral (zucIntMemoryOr st : Adapter O _) :=
  neutral_read.then fun _ => Accounts.pure rfl rfl

/-- The number of live handles changes. -/
theorem accounts_zucIntLiveAdd {β : Type} {f : Unit → Adapter O β} {d : Int}
    {pre : Multiset Resource} {post : β → Multiset Resource} {delta : β → Int}
    (hf : Accounts (f ()) pre post (fun b => delta b - d)) :
    Accounts (zucIntLiveAdd d >>= f) pre post delta := by
  intro w
  have hstep : Settles tariff InWindow (zucIntLiveAdd d : Adapter O _) w pre
      fun _ w' r => r = pre ∧ w'.live = w.live + d := Settles.update ⟨rfl, rfl⟩
  refine hstep.bind ?_
  rintro ⟨⟩ w' r ⟨rfl, hlive⟩
  refine (hf w').mono ?_
  rintro b w'' r' ⟨hr', hlive'⟩
  have hlast : w''.live = w'.live + (delta b - d) := hlive'
  exact ⟨hr', by omega⟩

theorem accounts_liveAdd_last (d : Int) (pre : Multiset Resource) :
    Accounts (zucIntLiveAdd d : Adapter O _) pre (fun _ => pre) (fun _ => d) :=
  fun _ => Settles.update ⟨rfl, rfl⟩

/-! ### Digests and HMAC -/

/-- What belongs to a handle. -/
def LiveHandle.resources : LiveHandle O → Multiset Resource
  | .hash h => {.block h.self}
  | .hmac h => {.block h.self} + {.key h.key}
  | .aes a => {.block a.self} + {.key a.key}
  | .pkey k => {.block k.self} + {.block k.der.buf.ptr}

/-- What belongs to what a constructor handed out, or a place holds. -/
def slotResources (slot : Option (LiveHandle O)) : Multiset Resource :=
  match slot with
  | none => 0
  | some h => h.resources

/-- And whether it counts as a live handle. -/
def slotCount (slot : Option (LiveHandle O)) : Int :=
  match slot with
  | none => 0
  | some _ => 1

/-- A constructor: what it hands out is all that it leaves behind. -/
def Constructs (kind : α → LiveHandle O) (p : Adapter O (ZucStatus × Option α)) : Prop :=
  Accounts p 0 (fun r => slotResources (r.2.map kind)) (fun r => slotCount (r.2.map kind))

/-- A function that is handed a handle and gives it back. -/
def Returns (kind : α → LiveHandle O) (h : Option α) (p : Adapter O β)
    (handle : β → Option α) : Prop :=
  Accounts p (slotResources (h.map kind)) (fun r => slotResources ((handle r).map kind))
    (fun _ => 0)

/-- A function that frees a handle. -/
def Frees (kind : α → LiveHandle O) (h : Option α) (p : Adapter O Unit) : Prop :=
  Accounts p (slotResources (h.map kind)) (fun _ => 0) (fun _ => - slotCount (h.map kind))

theorem Constructs.none {kind : α → LiveHandle O} (st : ZucStatus) :
    Constructs kind (Pure.pure (st, none) : Adapter O _) := Accounts.pure rfl rfl

/-- The backend's functions of a kind of operation create nothing and destroy nothing;
`held` is what its setup works with. -/
structure NeutralOps {κ Op : Type} (B : StreamOps O κ Op) (held : κ → Multiset Resource) : Prop where
  setup : ∀ op k alg, Accounts (B.setup op k alg) (held k) (fun _ => held k) (fun _ => 0)
  update : ∀ op bs, Neutral (B.update op bs)
  finish : ∀ op n, Neutral (B.finish op n)
  abort : ∀ op, Neutral (B.abort op)

theorem neutral_hashOps : NeutralOps (hashOps : StreamOps O _ _) (fun _ => 0) where
  setup _ _ _ := neutral_psa fun _ => ⟨rfl, rfl⟩
  update _ _ := neutral_psa fun _ => ⟨rfl, rfl⟩
  finish _ _ := neutral_psa fun _ => ⟨rfl, rfl⟩
  abort _ := neutral_psa fun _ => ⟨rfl, rfl⟩

theorem neutral_macOps : NeutralOps (macOps : StreamOps O _ _) (fun k => {.key k}) where
  setup _ k _ := accounts_use k fun _ => ⟨rfl, rfl⟩
  update _ _ := neutral_psa fun _ => ⟨rfl, rfl⟩
  finish _ _ := neutral_psa fun _ => ⟨rfl, rfl⟩
  abort _ := neutral_psa fun _ => ⟨rfl, rfl⟩

section
variable {κ Op : Type} {B : StreamOps O κ Op} {kind : StreamHandle κ Op → LiveHandle O}

/-- What belongs to a handle is its structure and what its setup works with, whatever its
operation. -/
def MadeOf (kind : StreamHandle κ Op → LiveHandle O) (held : κ → Multiset Resource) : Prop :=
  ∀ h, (kind h).resources = {.block h.self} + held h.key

theorem madeOf_hash : MadeOf (LiveHandle.hash : ZucHash O → LiveHandle O) (fun _ => 0) :=
  fun _ => (Multiset.add_zero _).symm

theorem madeOf_hmac : MadeOf (LiveHandle.hmac : ZucHmac O → LiveHandle O) (fun k => {.key k}) :=
  fun _ => rfl

variable {held : κ → Multiset Resource}

/-- It does not change with the operation. -/
theorem MadeOf.with_op (hkind : MadeOf kind held) (h : StreamHandle κ Op) (op : Op) (b : Bool) :
    (kind h).resources = (kind { h with op, active := b }).resources :=
  (hkind h).trans (hkind { h with op, active := b }).symm

theorem streamUpdate_returns (hB : NeutralOps B held) (hkind : MadeOf kind held)
    (h : Option (StreamHandle κ Op)) (data dataLen : Nat) :
    Returns kind h (streamUpdate B h data dataLen) Prod.snd := by
  cases h with
  | none => exact Accounts.pure rfl rfl
  | some h =>
    refine Accounts.ite (fun _ => Accounts.pure rfl rfl) fun _ => ?_
    refine Accounts.ite (fun _ => Accounts.pure rfl rfl) fun _ => ?_
    refine Accounts.ite (fun _ => Accounts.pure rfl rfl) fun _ => ?_
    refine (neutral_readMem _ _).then fun input => ?_
    refine (hB.update _ _).then fun r => ?_
    exact Accounts.pure (hkind.with_op h r.2 h.active) rfl

theorem streamFinish_returns (hB : NeutralOps B held) (hkind : MadeOf kind held)
    (h : Option (StreamHandle κ Op)) (out outSize : Nat) (outLen : SizeCell) :
    Returns kind h (streamFinish B h out outSize outLen) (fun r => r.2.1) := by
  cases h with
  | none => exact Accounts.pure rfl rfl
  | some h =>
    refine Accounts.ite (fun _ => Accounts.pure rfl rfl) fun _ => ?_
    refine Accounts.ite (fun _ => Accounts.pure rfl rfl) fun _ => ?_
    refine Accounts.ite (fun _ => Accounts.pure rfl rfl) fun _ => ?_
    refine (hB.finish _ _).then fun r => ?_
    refine (neutral_writeOutput _ _ _).then fun _ => ?_
    exact Accounts.pure (hkind.with_op h r.2.1 false) rfl

theorem streamReset_returns (hB : NeutralOps B held) (hkind : MadeOf kind held)
    (h : Option (StreamHandle κ Op)) : Returns kind h (streamReset B h) Prod.snd := by
  cases h with
  | none => exact Accounts.pure rfl rfl
  | some h =>
    have habort : Accounts (streamAbortActive B h) (kind h).resources
        (fun h' => (kind h').resources) (fun _ => 0) := by
      refine Accounts.ite (fun _ => ?_) (fun _ => Accounts.pure rfl rfl)
      refine (hB.abort _).then fun op => ?_
      exact Accounts.pure (hkind.with_op h op false) rfl
    refine habort.then fun h' => ?_
    rw [hkind h']
    refine (hB.setup _ _ _).seq (Multiset.add_comm _ _) fun r => ?_
    have hsame : ∀ op b, held h'.key + {.block h'.self} =
        (kind { h' with op, active := b }).resources :=
      fun op b => (Multiset.add_comm _ _).trans (hkind { h' with op, active := b }).symm
    refine Accounts.ite (fun _ => ?_) (fun _ => Accounts.pure (hsame r.2 true) rfl)
    refine (hB.abort _).then fun op => ?_
    exact Accounts.pure (hsame op h'.active) rfl

end

theorem neutral_checkDigestArgs (alg : ZucAlg) (data dataLen out outSize : Nat) (outLen : SizeCell) :
    Neutral (checkDigestArgs alg data dataLen out outSize outLen : Adapter O _) := by
  refine neutral_zucIntReady.then fun ready => ?_
  refine Accounts.ite (fun _ => neutral_pure _) fun _ => ?_
  refine Accounts.ite (fun _ => neutral_pure _) fun _ => ?_
  refine Accounts.ite (fun _ => neutral_pure _) fun _ => ?_
  refine Accounts.ite (fun _ => neutral_pure _) fun _ => ?_
  exact Accounts.ite (fun _ => neutral_pure _) fun _ => neutral_pure _

theorem neutral_zucHashCompute (alg : ZucAlg) (data dataLen out outSize : Nat) (outLen : SizeCell) :
    Neutral (zucHashCompute alg data dataLen out outSize outLen : Adapter O _) := by
  refine (neutral_checkDigestArgs _ _ _ _ _ _).then fun st => ?_
  refine Accounts.ite (fun _ => neutral_pure _) fun _ => ?_
  refine (neutral_readMem _ _).then fun input => ?_
  have hcompute : Neutral (psa (.hashCompute (zucIntPsaHash alg) input outSize : PsaCall O _)) :=
    neutral_psa fun _ => ⟨rfl, rfl⟩
  refine hcompute.then fun r => ?_
  exact (neutral_writeOutput _ _ _).then fun _ => neutral_pure _

theorem zucHashNew_constructs (alg : ZucAlg) (out : Bool) :
    Constructs .hash (zucHashNew alg out : Adapter O _) := by
  refine Accounts.ite (fun _ => Constructs.none _) fun _ => ?_
  refine neutral_zucIntReady.then fun ready => ?_
  refine Accounts.ite (fun _ => Constructs.none _) fun _ => ?_
  refine Accounts.ite (fun _ => Constructs.none _) fun _ => ?_
  refine (accounts_callocRecord _).then fun p => ?_
  cases p with
  | none => exact Accounts.pure rfl rfl
  | some self =>
    have hsetup : Neutral (psa (.hashSetup O.hashInit (zucIntPsaHash alg) : PsaCall O _)) :=
      neutral_psa fun _ => ⟨rfl, rfl⟩
    refine hsetup.then fun r => ?_
    refine Accounts.ite (fun _ => ?_) (fun _ => ?_)
    · have habort : Neutral (psa (.hashAbort r.2 : PsaCall O _)) := neutral_psa fun _ => ⟨rfl, rfl⟩
      refine habort.then fun _ => ?_
      exact (accounts_freeRecord _ _).then fun _ => Accounts.pure rfl rfl
    · exact accounts_zucIntLiveAdd (Accounts.pure rfl rfl)

theorem zucHashFree_frees (h : Option (ZucHash O)) : Frees .hash h (zucHashFree h) := by
  cases h with
  | none => exact Accounts.pure rfl rfl
  | some h =>
    have habort : Neutral (psa (.hashAbort h.op : PsaCall O _)) := neutral_psa fun _ => ⟨rfl, rfl⟩
    refine habort.then fun _ => ?_
    refine (accounts_freeRecord _ _).then fun _ => ?_
    exact accounts_liveAdd_last _ _

/-- A status, and a key if it is `ZUC_OK`. -/
def heldKey (k : ZucStatus × KeyId) : Multiset Resource :=
  if k.1 = .ok then {.key k.2} else 0

theorem createdKey_eq (r : PsaStatus × KeyId) : createdKey r = heldKey (zucIntFromPsa r.1, r.2) := by
  simp only [createdKey, heldKey, zucIntFromPsa_eq_ok]

theorem heldKey_of_ok {k : ZucStatus × KeyId} (h : ¬ k.1 ≠ .ok) : heldKey k = {.key k.2} :=
  if_pos (not_not.mp h)

theorem heldKey_of_ne {k : ZucStatus × KeyId} (h : k.1 ≠ .ok) : heldKey k = 0 := if_neg h

theorem accounts_importHmacKey (alg : ZucAlg) (key keyLen : Nat) (palg : PsaAlg) :
    Accounts (importHmacKey alg key keyLen palg : Adapter O _) 0 heldKey (fun _ => 0) := by
  have hreduced : ∀ reduced bytes : List Byte,
      Accounts (importReducedKey palg reduced bytes : Adapter O _) 0 heldKey (fun _ => 0) := by
    intro reduced bytes
    refine (accounts_importKey _ _).then fun r => ?_
    refine (neutral_dropLocal _).then fun _ => ?_
    exact Accounts.pure (createdKey_eq r) rfl
  refine (neutral_readMem _ _).then fun bytes => ?_
  refine Accounts.ite (fun _ => ?_) (fun _ => hreduced _ _)
  have hcompute : Neutral (psa (.hashCompute (zucIntPsaHash alg) bytes ZUC_MAX_DIGEST_SIZE :
    PsaCall O _)) := neutral_psa fun _ => ⟨rfl, rfl⟩
  refine hcompute.then fun r => ?_
  refine Accounts.ite (fun hr => ?_) (fun _ => hreduced _ _)
  refine (neutral_dropLocal _).then fun _ => ?_
  exact Accounts.pure (heldKey_of_ne fun h => hr (zucIntFromPsa_eq_ok.mp h)).symm rfl

theorem neutral_zucHmacCompute (alg : ZucAlg) (key keyLen data dataLen out outSize : Nat)
    (outLen : SizeCell) :
    Neutral (zucHmacCompute alg key keyLen data dataLen out outSize outLen : Adapter O _) := by
  refine (neutral_checkDigestArgs _ _ _ _ _ _).then fun st => ?_
  refine Accounts.ite (fun _ => neutral_pure _) fun _ => ?_
  refine Accounts.ite (fun _ => neutral_pure _) fun _ => ?_
  refine (accounts_importHmacKey _ _ _ _).then fun k => ?_
  refine Accounts.ite (fun hk => Accounts.pure (heldKey_of_ne hk) rfl) fun hk => ?_
  rw [heldKey_of_ok hk]
  refine (neutral_readMem _ _).then fun input => ?_
  have hcompute : Accounts (psa (.macCompute k.2 (.hmac (zucIntPsaHash alg)) input outSize :
    PsaCall O _)) {.key k.2} (fun _ => {.key k.2}) (fun _ => 0) := accounts_use k.2 fun _ => ⟨rfl, rfl⟩
  refine hcompute.then fun r => ?_
  refine (neutral_writeOutput _ _ _).then fun _ => ?_
  exact (accounts_destroyKey _).then fun _ => Accounts.pure rfl rfl

theorem zucHmacNew_constructs (alg : ZucAlg) (key keyLen : Nat) (out : Bool) :
    Constructs .hmac (zucHmacNew alg key keyLen out : Adapter O _) := by
  refine Accounts.ite (fun _ => Constructs.none _) fun _ => ?_
  refine neutral_zucIntReady.then fun ready => ?_
  refine Accounts.ite (fun _ => Constructs.none _) fun _ => ?_
  refine Accounts.ite (fun _ => Constructs.none _) fun _ => ?_
  refine Accounts.ite (fun _ => Constructs.none _) fun _ => ?_
  refine (accounts_callocRecord _).then fun p => ?_
  cases p with
  | none => exact Accounts.pure rfl rfl
  | some self =>
    refine (accounts_importHmacKey _ _ _ _).seq (Multiset.zero_add _).symm fun k => ?_
    refine Accounts.ite (fun hk => ?_) (fun hk => ?_)
    · rw [heldKey_of_ne hk, Multiset.zero_add]
      exact (accounts_freeRecord _ _).then fun _ => Accounts.pure rfl rfl
    · rw [heldKey_of_ok hk]
      have hsetup : Accounts (psa (.macSignSetup O.macInit k.2 (.hmac (zucIntPsaHash alg)) :
        PsaCall O _)) {.key k.2} (fun _ => {.key k.2}) (fun _ => 0) :=
        accounts_use k.2 fun _ => ⟨rfl, rfl⟩
      refine hsetup.seq rfl fun r => ?_
      refine Accounts.ite (fun _ => ?_) (fun _ => ?_)
      · have habort : Neutral (psa (.macAbort r.2 : PsaCall O _)) := neutral_psa fun _ => ⟨rfl, rfl⟩
        refine habort.then fun _ => ?_
        refine (accounts_destroyKey _).seq rfl fun _ => ?_
        rw [Multiset.zero_add]
        exact (accounts_freeRecord _ _).then fun _ => Accounts.pure rfl rfl
      · exact accounts_zucIntLiveAdd (Accounts.pure (Multiset.add_comm _ _) rfl)

theorem zucHmacFree_frees (h : Option (ZucHmac O)) : Frees .hmac h (zucHmacFree h) := by
  cases h with
  | none => exact Accounts.pure rfl rfl
  | some h =>
    have habort : Neutral (psa (.macAbort h.op : PsaCall O _)) := neutral_psa fun _ => ⟨rfl, rfl⟩
    refine habort.then fun _ => ?_
    refine (accounts_destroyKey _).seq (Multiset.add_comm _ _) fun _ => ?_
    rw [Multiset.zero_add]
    refine (accounts_freeRecord _ _).then fun _ => ?_
    exact accounts_liveAdd_last _ _

/-! ### Ciphers -/

theorem accounts_importAesKey (key keyLen : Nat) (alg : PsaAlg) :
    Accounts (importAesKey key keyLen alg : Adapter O _) 0 heldKey (fun _ => 0) := by
  refine (neutral_readMem _ _).then fun bytes => ?_
  exact (accounts_importKey _ _).then fun r => Accounts.pure (createdKey_eq r) rfl

theorem zucAesNew_constructs (key keyLen : Nat) (out : Bool) :
    Constructs .aes (zucAesNew key keyLen out : Adapter O _) := by
  refine Accounts.ite (fun _ => Constructs.none _) fun _ => ?_
  refine neutral_zucIntReady.then fun ready => ?_
  refine Accounts.ite (fun _ => Constructs.none _) fun _ => ?_
  refine Accounts.ite (fun _ => Constructs.none _) fun _ => ?_
  refine Accounts.ite (fun _ => Constructs.none _) fun _ => ?_
  refine (accounts_callocRecord _).then fun p => ?_
  cases p with
  | none => exact Accounts.pure rfl rfl
  | some self =>
    refine (accounts_importAesKey _ _ _).seq (Multiset.zero_add _).symm fun k => ?_
    refine Accounts.ite (fun hk => ?_) (fun hk => ?_)
    · rw [heldKey_of_ne hk, Multiset.zero_add]
      exact (accounts_freeRecord _ _).then fun _ => Accounts.pure rfl rfl
    · rw [heldKey_of_ok hk]
      exact accounts_zucIntLiveAdd (Accounts.pure (Multiset.add_comm _ _) rfl)

theorem zucAesFree_frees (a : Option ZucAes) : Frees .aes a (zucAesFree a : Adapter O _) := by
  cases a with
  | none => exact Accounts.pure rfl rfl
  | some a =>
    refine (accounts_destroyKey _).seq (Multiset.add_comm _ _) fun _ => ?_
    rw [Multiset.zero_add]
    refine (accounts_freeRecord _ _).then fun _ => ?_
    exact accounts_liveAdd_last _ _

theorem neutral_readBlock (p : Nat) : Neutral (readBlock p : Adapter O _) :=
  neutral_read.then fun _ => neutral_pure _

theorem zucAesCbcSetState_returns (a : Option ZucAes) (state : Nat) :
    Returns .aes a (zucAesCbcSetState a state : Adapter O _) Prod.snd := by
  cases a with
  | none => exact Accounts.pure rfl rfl
  | some a =>
    refine Accounts.ite (fun _ => Accounts.pure rfl rfl) fun _ => ?_
    exact (neutral_readBlock _).then fun _ => Accounts.pure rfl rfl

theorem neutral_zucAesCbcGetState (a : Option ZucAes) (state : Nat) :
    Neutral (zucAesCbcGetState a state : Adapter O _) := by
  cases a with
  | none => exact neutral_pure _
  | some a =>
    refine Accounts.ite (fun _ => neutral_pure _) fun _ => ?_
    exact (neutral_writeMem _ _).then fun _ => neutral_pure _

theorem neutral_checkBlockArgs (a : Option ZucAes) (inp len out : Nat) :
    Neutral (checkBlockArgs a inp len out : Adapter O _) := by
  cases a with
  | none => exact neutral_pure _
  | some a =>
    refine neutral_zucIntReady.then fun ready => ?_
    refine Accounts.ite (fun _ => neutral_pure _) fun _ => ?_
    refine Accounts.ite (fun _ => neutral_pure _) fun _ => ?_
    refine Accounts.ite (fun _ => neutral_pure _) fun _ => ?_
    refine Accounts.ite (fun _ => neutral_pure _) fun _ => ?_
    exact Accounts.ite (fun _ => neutral_pure _) fun _ => neutral_pure _

/-- One pass of a cipher works with the key of its handle. -/
theorem accounts_cipherRun (key : KeyId) (dir : BlockChaining.Direction) (iv : AesBlock)
    (inp len out : Nat) :
    Accounts (cipherRun key dir iv inp len out : Adapter O _) {.key key} (fun _ => {.key key})
      (fun _ => 0) := by
  have hsetup : Accounts (psa (cipherSetup dir O.cipherInit key .cbcNoPadding)) {.key key}
      (fun _ => {.key key}) (fun _ => 0) := by
    cases dir <;> exact accounts_use key fun _ => ⟨rfl, rfl⟩
  have hfail : ∀ (op : O.Cipher) ps, Accounts (cipherFail op ps) {.key key} (fun _ => {.key key})
      (fun _ => 0) := by
    intro op ps
    have habort : Neutral (psa (.cipherAbort op)) := neutral_psa fun _ => ⟨rfl, rfl⟩
    exact habort.then fun _ => Accounts.pure rfl rfl
  refine hsetup.then fun setup => ?_
  refine Accounts.ite (fun _ => hfail _ _) fun _ => ?_
  have hiv : Neutral (psa (.cipherSetIv setup.2 iv.1)) := neutral_psa fun _ => ⟨rfl, rfl⟩
  refine hiv.then fun start => ?_
  refine Accounts.ite (fun _ => hfail _ _) fun _ => ?_
  refine (neutral_readMem _ _).then fun input => ?_
  have hupdate : Neutral (psa (.cipherUpdate start.2 input len)) := neutral_psa fun _ => ⟨rfl, rfl⟩
  refine hupdate.then fun update => ?_
  refine (neutral_writeOutput _ _ _).then fun _ => ?_
  refine Accounts.ite (fun _ => hfail _ _) fun _ => ?_
  have hfinish : Neutral (psa (.cipherFinish update.2.1 (sizeSub len update.2.2.len))) :=
    neutral_psa fun _ => ⟨rfl, rfl⟩
  refine hfinish.then fun finish => ?_
  refine (neutral_writeOutput _ _ _).then fun _ => ?_
  refine Accounts.ite (fun _ => hfail _ _) fun _ => ?_
  refine Accounts.ite (fun _ => ?_) fun _ => Accounts.pure rfl rfl
  have habort : Neutral (psa (.cipherAbort finish.2.1)) := neutral_psa fun _ => ⟨rfl, rfl⟩
  exact habort.then fun _ => Accounts.pure rfl rfl

theorem zucAesCbcEncrypt_returns (a : Option ZucAes) (inp len out : Nat) :
    Returns .aes a (zucAesCbcEncrypt a inp len out : Adapter O _) Prod.snd := by
  refine (neutral_checkBlockArgs _ _ _ _).then fun st => ?_
  cases a with
  | none => exact Accounts.pure rfl rfl
  | some a =>
    refine Accounts.ite (fun _ => Accounts.pure rfl rfl) fun _ => ?_
    refine (accounts_cipherRun _ _ _ _ _ _).seq (Multiset.add_comm _ _) fun st => ?_
    refine Accounts.ite (fun _ => Accounts.pure (Multiset.add_comm _ _) rfl) fun _ => ?_
    exact (neutral_readBlock _).then fun _ => Accounts.pure (Multiset.add_comm _ _) rfl

theorem zucAesCbcDecrypt_returns (a : Option ZucAes) (inp len out : Nat) :
    Returns .aes a (zucAesCbcDecrypt a inp len out : Adapter O _) Prod.snd := by
  refine (neutral_checkBlockArgs _ _ _ _).then fun st => ?_
  cases a with
  | none => exact Accounts.pure rfl rfl
  | some a =>
    refine Accounts.ite (fun _ => Accounts.pure rfl rfl) fun _ => ?_
    refine (neutral_readBlock _).then fun next => ?_
    refine (accounts_cipherRun _ _ _ _ _ _).seq (Multiset.add_comm _ _) fun st => ?_
    refine (neutral_dropLocal _).then fun _ => ?_
    exact Accounts.ite (fun _ => Accounts.pure (Multiset.add_comm _ _) rfl)
      fun _ => Accounts.pure (Multiset.add_comm _ _) rfl

theorem neutral_checkAeadArgs (dir : BlockChaining.Direction) (alg : ZucAlg)
    (key keyLen nonce nonceLen aad aadLen inp len out tag tagLen : Nat) :
    Neutral (checkAeadArgs dir alg key keyLen nonce nonceLen aad aadLen inp len out tag tagLen :
      Adapter O _) :=
  neutral_zucIntReady.then fun _ => neutral_pure _

theorem neutral_aeadNonce (nonce nonceLen : Nat) (a : AeadProgress O) :
    Neutral (aeadNonce nonce nonceLen a) := by
  refine Accounts.ite (fun _ => ?_) fun _ => neutral_pure _
  refine (neutral_readMem _ _).then fun bytes => ?_
  have hcall : Neutral (psa (.aeadSetNonce a.op bytes)) := neutral_psa fun _ => ⟨rfl, rfl⟩
  exact hcall.then fun _ => neutral_pure _

theorem neutral_aeadAd (aad aadLen : Nat) (a : AeadProgress O) : Neutral (aeadAd aad aadLen a) := by
  refine Accounts.ite (fun _ => ?_) fun _ => neutral_pure _
  refine (neutral_readMem _ _).then fun bytes => ?_
  have hcall : Neutral (psa (.aeadUpdateAd a.op bytes)) := neutral_psa fun _ => ⟨rfl, rfl⟩
  exact hcall.then fun _ => neutral_pure _

theorem neutral_aeadData (inp len out : Nat) (a : AeadProgress O) :
    Neutral (aeadData inp len out a) := by
  refine Accounts.ite (fun _ => ?_) fun _ => neutral_pure _
  refine (neutral_readMem _ _).then fun bytes => ?_
  have hcall : Neutral (psa (.aeadUpdate a.op bytes len)) := neutral_psa fun _ => ⟨rfl, rfl⟩
  refine hcall.then fun r => ?_
  exact (neutral_writeOutput _ _ _).then fun _ => neutral_pure _

theorem neutral_aeadLast (dir : BlockChaining.Direction) (len out tag tagLen : Nat)
    (a : AeadProgress O) : Neutral (aeadLast dir len out tag tagLen a) := by
  refine Accounts.ite (fun _ => ?_) fun _ => neutral_pure _
  cases dir with
  | encrypt =>
    have hcall : Neutral (psa (.aeadFinish a.op (sizeSub len a.produced) tagLen)) :=
      neutral_psa fun _ => ⟨rfl, rfl⟩
    refine hcall.then fun r => ?_
    refine (neutral_writeOutput _ _ _).then fun _ => ?_
    exact (neutral_writeOutput _ _ _).then fun _ => neutral_pure _
  | decrypt =>
    refine (neutral_readMem _ _).then fun bytes => ?_
    have hcall : Neutral (psa (.aeadVerify a.op (sizeSub len a.produced) bytes)) :=
      neutral_psa fun _ => ⟨rfl, rfl⟩
    refine hcall.then fun r => ?_
    exact (neutral_writeOutput _ _ _).then fun _ => neutral_pure _

/-- The end of a pass destroys its key. -/
theorem accounts_aeadEnd (dir : BlockChaining.Direction) (len tagLen : Nat) (k : KeyId)
    (a : AeadProgress O) :
    Accounts (aeadEnd dir len tagLen k a) {.key k} (fun _ => 0) (fun _ => 0) := by
  refine Accounts.ite (fun _ => ?_) fun _ => ?_
  · have habort : Neutral (psa (.aeadAbort a.op)) := neutral_psa fun _ => ⟨rfl, rfl⟩
    refine habort.then fun _ => ?_
    exact (accounts_destroyKey _).then fun _ => Accounts.pure rfl rfl
  · exact (accounts_destroyKey _).then fun _ => Accounts.pure rfl rfl

theorem neutral_aeadRun (dir : BlockChaining.Direction) (alg : ZucAlg)
    (key keyLen nonce nonceLen aad aadLen inp len out tag tagLen : Nat) :
    Neutral (aeadRun dir alg key keyLen nonce nonceLen aad aadLen inp len out tag tagLen :
      Adapter O _) := by
  have himport : Accounts (importAeadKey key keyLen (psaAeadAlg alg) : Adapter O _) 0 heldKey
      (fun _ => 0) := by
    refine (neutral_readMem _ _).then fun bytes => ?_
    exact (accounts_importKey _ _).then fun r => Accounts.pure (createdKey_eq r) rfl
  refine himport.then fun k => ?_
  refine Accounts.ite (fun hk => Accounts.pure (heldKey_of_ne hk) rfl) fun hk => ?_
  rw [heldKey_of_ok hk]
  have hsetup : Accounts (psa (aeadSetup dir O.aeadInit k.2 (psaAeadAlg alg))) {.key k.2}
      (fun _ => {.key k.2}) (fun _ => 0) := by
    cases dir <;> exact accounts_use k.2 fun _ => ⟨rfl, rfl⟩
  refine hsetup.then fun setup => ?_
  refine (neutral_aeadNonce _ _ _).then fun a => ?_
  refine (neutral_aeadAd _ _ _).then fun a => ?_
  refine (neutral_aeadData _ _ _ _).then fun a => ?_
  refine (neutral_aeadLast _ _ _ _ _ _).then fun a => ?_
  exact accounts_aeadEnd _ _ _ _ _

theorem neutral_zucAeadEncrypt (alg : ZucAlg) (key keyLen nonce nonceLen aad aadLen plaintext len
    ciphertext tag tagLen : Nat) :
    Neutral (zucAeadEncrypt alg key keyLen nonce nonceLen aad aadLen plaintext len ciphertext tag
      tagLen : Adapter O _) := by
  refine (neutral_checkAeadArgs _ _ _ _ _ _ _ _ _ _ _ _ _).then fun st => ?_
  refine Accounts.ite (fun _ => neutral_pure _) fun _ => ?_
  refine (neutral_aeadRun _ _ _ _ _ _ _ _ _ _ _ _ _).then fun st => ?_
  refine Accounts.ite (fun _ => ?_) fun _ => neutral_pure _
  have hdata : Neutral (if len ≠ 0 then zucSecureZero ciphertext len else pure () : Adapter O Unit) :=
    Accounts.ite (fun _ => neutral_zucSecureZero _ _) fun _ => neutral_pure _
  refine hdata.then fun _ => ?_
  exact (neutral_zucSecureZero _ _).then fun _ => neutral_pure _

theorem neutral_zucAeadDecrypt (alg : ZucAlg) (key keyLen nonce nonceLen aad aadLen ciphertext len
    tag tagLen plaintext : Nat) :
    Neutral (zucAeadDecrypt alg key keyLen nonce nonceLen aad aadLen ciphertext len tag tagLen
      plaintext : Adapter O _) := by
  refine (neutral_checkAeadArgs _ _ _ _ _ _ _ _ _ _ _ _ _).then fun st => ?_
  refine Accounts.ite (fun _ => neutral_pure _) fun _ => ?_
  refine (neutral_aeadRun _ _ _ _ _ _ _ _ _ _ _ _ _).then fun st => ?_
  refine Accounts.ite (fun _ => ?_) fun _ => neutral_pure _
  exact (neutral_zucSecureZero _ _).then fun _ => neutral_pure _

/-! ### Key derivation -/

theorem neutral_kdfStep {call : O.Kdf → PsaCall O (PsaStatus × O.Kdf)}
    (hcall : ∀ op, Neutral (psa (call op))) (r : PsaStatus × O.Kdf) : Neutral (kdfStep call r) :=
  Accounts.ite (fun _ => hcall _) fun _ => neutral_pure _

theorem neutral_pbkdf2Run (halg : PsaAlg) (password passwordLen salt saltLen : Nat)
    (iterations : UInt32) (out outLen : Nat) :
    Neutral (pbkdf2Run halg password passwordLen salt saltLen iterations out outLen : Adapter O _) := by
  have hsetup : Neutral (psa (.kdfSetup O.kdfInit (.pbkdf2Hmac halg))) :=
    neutral_psa fun _ => ⟨rfl, rfl⟩
  have hinteger : ∀ op : O.Kdf, Neutral (psa (.kdfInputInteger op .cost iterations.toNat)) :=
    fun op => neutral_psa fun _ => ⟨rfl, rfl⟩
  have hbytes : ∀ (op : O.Kdf) step bytes, Neutral (psa (.kdfInputBytes op step bytes)) :=
    fun op step bytes => neutral_psa fun _ => ⟨rfl, rfl⟩
  refine hsetup.then fun r => ?_
  refine (neutral_kdfStep hinteger r).then fun r => ?_
  refine (neutral_readMem _ _).then fun saltBytes => ?_
  refine (neutral_kdfStep (fun op => hbytes op .salt saltBytes) r).then fun r => ?_
  refine (neutral_readMem _ _).then fun passwordBytes => ?_
  refine (neutral_kdfStep (fun op => hbytes op .password passwordBytes) r).then fun r => ?_
  have houtput : Neutral (kdfOutput out outLen r) := by
    refine Accounts.ite (fun _ => ?_) fun _ => neutral_pure _
    have hcall : Neutral (psa (.kdfOutputBytes r.2 outLen)) := neutral_psa fun _ => ⟨rfl, rfl⟩
    refine hcall.then fun r => ?_
    exact (neutral_writeMem _ _).then fun _ => neutral_pure _
  refine houtput.then fun r => ?_
  have habort : Neutral (psa (.kdfAbort r.2)) := neutral_psa fun _ => ⟨rfl, rfl⟩
  exact habort.then fun _ => neutral_pure _

theorem neutral_zucPbkdf2Hmac (hash : ZucAlg) (password passwordLen salt saltLen : Nat)
    (iterations : UInt32) (out outLen : Nat) :
    Neutral (zucPbkdf2Hmac hash password passwordLen salt saltLen iterations out outLen :
      Adapter O _) := by
  refine neutral_zucIntReady.then fun ready => ?_
  refine Accounts.ite (fun _ => neutral_pure _) fun _ => ?_
  refine (neutral_pbkdf2Run _ _ _ _ _ _ _ _).then fun ps => ?_
  refine Accounts.ite (fun _ => ?_) fun _ => neutral_pure _
  exact (neutral_zucSecureZero _ _).then fun _ => neutral_pure _

end Zucrypt
