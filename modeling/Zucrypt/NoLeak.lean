import Mathlib.Data.Multiset.Filter
import Zucrypt.PkeyAccounts

/-! # Nothing leaks

The account of a whole session: after any calls, the backend has the keys of the caller's `zuc_aes`
and `zuc_hmac` handles and no others, the heap has the blocks that the caller's handles are made of
and no others, and the number of live handles is how many the caller has.

`nothing_leaks` states it of the trace: what all the calls took and gave back (`settle tariff`)
comes to exactly the keys and blocks of the pool that is left.  `settle` is partial, being `none` as
soon as something is given back that is not there, so the equation also says that nothing is freed
twice or destroyed that was never made.  The second part is of one constructor that fails, and says
that it adds nothing at all.

Each command is accounted for by what it does to one place of the caller's pool: a constructor adds
a place (`balanced_constructor`), a call on a handle puts it back (`balanced_put`), a free empties
the place (`balanced_free`).  `balanced_run` goes through the public functions, and
`balanced_session` is the induction.

Nothing is assumed of the backend's answers or of the allocations.  The session is within one window
(`InWindow`): when the last reference is given up the backend drops its keys without being asked to,
and the account of that is in `StaleHandles`. -/
namespace Zucrypt
open Effects ByteMemory Resources

variable {O : Objects}

/-! ### What constructors return, and what other functions keep -/

theorem zucHashNew_handsOut (alg : ZucAlg) (out : Bool) :
    Yields (zucHashNew alg out : Adapter O _) HandsOut := by
  refine Yields.ite (fun _ => Yields.pure (handsOut_none (by decide))) fun _ => ?_
  refine Yields.after fun ready => ?_
  refine Yields.ite (fun _ => Yields.pure (handsOut_none (by decide))) fun _ => ?_
  refine Yields.ite (fun _ => Yields.pure (handsOut_none (by decide))) fun _ => ?_
  refine Yields.after fun p => ?_
  cases p with
  | none => exact Yields.pure (handsOut_none (by decide))
  | some self =>
    refine Yields.after fun r => ?_
    refine Yields.ite (fun hr => ?_) fun _ => Yields.after fun _ => Yields.pure (handsOut_some _)
    refine Yields.after fun _ => Yields.after fun _ => ?_
    exact Yields.pure (handsOut_none (zucIntFromPsa_ne_ok hr))

/-- `zuc_hmac_new` hands out a handle exactly when it returns `ZUC_OK`. -/
theorem zucHmacNew_handsOut (alg : ZucAlg) (key keyLen : Nat) (out : Bool) :
    Yields (zucHmacNew alg key keyLen out : Adapter O _) HandsOut := by
  refine Yields.ite (fun _ => Yields.pure (handsOut_none (by decide))) fun _ => ?_
  refine Yields.after fun ready => ?_
  refine Yields.ite (fun _ => Yields.pure (handsOut_none (by decide))) fun _ => ?_
  refine Yields.ite (fun _ => Yields.pure (handsOut_none (by decide))) fun _ => ?_
  refine Yields.ite (fun _ => Yields.pure (handsOut_none (by decide))) fun _ => ?_
  refine Yields.after fun p => ?_
  cases p with
  | none => exact Yields.pure (handsOut_none (by decide))
  | some self =>
    refine Yields.after fun k => ?_
    refine Yields.ite (fun hk => Yields.after fun _ => Yields.pure (handsOut_none hk)) fun _ => ?_
    refine Yields.after fun r => ?_
    refine Yields.ite (fun hr => ?_) fun _ => Yields.after fun _ => Yields.pure (handsOut_some _)
    refine Yields.after fun _ => Yields.after fun _ => Yields.after fun _ => ?_
    exact Yields.pure (handsOut_none (zucIntFromPsa_ne_ok hr))

/-- So does `zuc_aes_new`. -/
theorem zucAesNew_handsOut (key keyLen : Nat) (out : Bool) :
    Yields (zucAesNew key keyLen out : Adapter O _) HandsOut := by
  refine Yields.ite (fun _ => Yields.pure (handsOut_none (by decide))) fun _ => ?_
  refine Yields.after fun ready => ?_
  refine Yields.ite (fun _ => Yields.pure (handsOut_none (by decide))) fun _ => ?_
  refine Yields.ite (fun _ => Yields.pure (handsOut_none (by decide))) fun _ => ?_
  refine Yields.ite (fun _ => Yields.pure (handsOut_none (by decide))) fun _ => ?_
  refine Yields.after fun p => ?_
  cases p with
  | none => exact Yields.pure (handsOut_none (by decide))
  | some self =>
    refine Yields.after fun k => ?_
    refine Yields.ite (fun hk => Yields.after fun _ => Yields.pure (handsOut_none hk)) fun _ => ?_
    exact Yields.after fun _ => Yields.pure (handsOut_some _)

/-- A function that is given a handle gives one back, and one that is not does not. -/
def Keeps {α β : Type} (h : Option α) (p : Adapter O β) (handle : β → Option α) : Prop :=
  Yields p fun r => (handle r).isSome = h.isSome

section
variable {κ Op : Type} (B : StreamOps O κ Op) (h : Option (StreamHandle κ Op))

/-- An update gives the handle back, with its block and its key. -/
theorem streamUpdate_keeps (data dataLen : Nat) :
    Keeps h (streamUpdate B h data dataLen) Prod.snd := by
  cases h with
  | none => exact Yields.pure rfl
  | some h =>
    refine Yields.ite (fun _ => Yields.pure rfl) fun _ => ?_
    refine Yields.ite (fun _ => Yields.pure rfl) fun _ => ?_
    refine Yields.ite (fun _ => Yields.pure rfl) fun _ => ?_
    exact Yields.after fun _ => Yields.after fun _ => Yields.pure rfl

/-- So does a finish, -/
theorem streamFinish_keeps (out outSize : Nat) (outLen : SizeCell) :
    Keeps h (streamFinish B h out outSize outLen) (fun r => r.2.1) := by
  cases h with
  | none => exact Yields.pure rfl
  | some h =>
    refine Yields.ite (fun _ => Yields.pure rfl) fun _ => ?_
    refine Yields.ite (fun _ => Yields.pure rfl) fun _ => ?_
    refine Yields.ite (fun _ => Yields.pure rfl) fun _ => ?_
    exact Yields.after fun _ => Yields.after fun _ => Yields.pure rfl

/-- and a reset. -/
theorem streamReset_keeps : Keeps h (streamReset B h) Prod.snd := by
  cases h with
  | none => exact Yields.pure rfl
  | some h =>
    refine Yields.after fun h' => Yields.after fun r => ?_
    exact Yields.ite (fun _ => Yields.after fun _ => Yields.pure rfl) fun _ => Yields.pure rfl

end

/-- Setting the chaining value gives the handle back. -/
theorem zucAesCbcSetState_keeps (a : Option ZucAes) (state : Nat) :
    Keeps a (zucAesCbcSetState a state : Adapter O _) Prod.snd := by
  cases a with
  | none => exact Yields.pure rfl
  | some a =>
    refine Yields.ite (fun _ => Yields.pure rfl) fun _ => ?_
    exact Yields.after fun _ => Yields.pure rfl

/-- So does encryption, -/
theorem zucAesCbcEncrypt_keeps (a : Option ZucAes) (inp len out : Nat) :
    Keeps a (zucAesCbcEncrypt a inp len out : Adapter O _) Prod.snd := by
  refine Yields.after fun st => ?_
  cases a with
  | none => exact Yields.pure rfl
  | some a =>
    refine Yields.ite (fun _ => Yields.pure rfl) fun _ => Yields.after fun _ => ?_
    refine Yields.ite (fun _ => Yields.pure rfl) fun _ => ?_
    exact Yields.after fun _ => Yields.pure rfl

/-- and decryption. -/
theorem zucAesCbcDecrypt_keeps (a : Option ZucAes) (inp len out : Nat) :
    Keeps a (zucAesCbcDecrypt a inp len out : Adapter O _) Prod.snd := by
  refine Yields.after fun st => ?_
  cases a with
  | none => exact Yields.pure rfl
  | some a =>
    refine Yields.ite (fun _ => Yields.pure rfl) fun _ => ?_
    refine Yields.after fun _ => Yields.after fun _ => Yields.after fun _ => ?_
    exact Yields.ite (fun _ => Yields.pure rfl) fun _ => Yields.pure rfl

/-! ### Pools -/

/-- The backend's keys that belong to a handle. -/
def LiveHandle.keys : LiveHandle O → Multiset KeyId
  | .hash _ => 0
  | .hmac h => {h.key}
  | .aes a => {a.key}
  | .pkey _ => 0

/-- The heap's blocks that belong to a handle. -/
def LiveHandle.blocks : LiveHandle O → Multiset Nat
  | .hash h => {h.self}
  | .hmac h => {h.self}
  | .aes a => {a.self}
  | .pkey k => {k.self} + {k.der.buf.ptr}

namespace Pool

/-- The handles the caller has, not yet freed. -/
def handles (pool : Pool O) : List (LiveHandle O) := pool.filterMap id

/-- The backend's keys that belong to them. -/
def keys (pool : Pool O) : Multiset KeyId := (pool.handles.map LiveHandle.keys).foldr (· + ·) 0

/-- The heap's blocks that belong to them. -/
def blocks (pool : Pool O) : Multiset Nat := (pool.handles.map LiveHandle.blocks).foldr (· + ·) 0

/-- What belongs to the places of a pool. -/
def resources : Pool O → Multiset Resource
  | [] => 0
  | slot :: pool => slotResources slot + resources pool

/-- How many of them hold a handle. -/
def count : Pool O → Int
  | [] => 0
  | slot :: pool => slotCount slot + count pool

/-- The count is the number of handles. -/
theorem count_eq (pool : Pool O) : pool.count = pool.handles.length := by
  induction pool with
  | nil => rfl
  | cons slot pool ih =>
    show slotCount slot + count pool = _
    rw [ih]
    cases slot with
    | none => exact Int.zero_add _
    | some h => exact Int.add_comm _ _

/-- A pool owns the keys and the blocks of its handles. -/
theorem resources_eq (pool : Pool O) :
    pool.resources = pool.keys.map .key + pool.blocks.map .block := by
  induction pool with
  | nil => rfl
  | cons slot pool ih =>
    show slotResources slot + resources pool = _
    rw [ih]
    cases slot with
    | none => exact Multiset.zero_add _
    | some h =>
      have hhandle : h.resources = h.keys.map .key + h.blocks.map .block := by
        cases h with
        | hash => rfl
        | hmac => exact Multiset.add_comm _ _
        | aes => exact Multiset.add_comm _ _
        | pkey => rfl
      have hkeys : keys (some h :: pool) = h.keys + keys pool := rfl
      have hblocks : blocks (some h :: pool) = h.blocks + blocks pool := rfl
      rw [hkeys, hblocks, Multiset.map_add, Multiset.map_add]
      show h.resources + _ = _
      rw [hhandle, Multiset.add_assoc, ← Multiset.add_assoc (h.blocks.map Resource.block),
        Multiset.add_comm (h.blocks.map Resource.block), Multiset.add_assoc, ← Multiset.add_assoc]

/-- What a pool owns is what its parts own. -/
theorem resources_append (pool pool' : Pool O) :
    resources (pool ++ pool') = pool.resources + pool'.resources := by
  induction pool with
  | nil => exact (Multiset.zero_add _).symm
  | cons slot pool ih =>
    show slotResources slot + resources (pool ++ pool') = _
    rw [ih, ← Multiset.add_assoc]
    rfl

/-- The handles of a pool are those of its parts. -/
theorem count_append (pool pool' : Pool O) : count (pool ++ pool') = pool.count + pool'.count := by
  induction pool with
  | nil => exact (Int.zero_add _).symm
  | cons slot pool ih =>
    show slotCount slot + count (pool ++ pool') = _
    rw [ih, ← Int.add_assoc]
    rfl

/-- The pool around a place that holds a handle. -/
theorem split {pool : Pool O} {i : Nat} {h : LiveHandle O} (hi : pool.handle i = some h) :
    ∃ before after : Pool O, pool = before ++ some h :: after ∧ before.length = i := by
  have hget : pool[i]? = some (some h) := by
    unfold handle at hi
    cases hslot : pool[i]? with
    | none => rw [hslot] at hi; cases hi
    | some slot => rw [hslot] at hi; exact congrArg some hi
  obtain ⟨hlt, hval⟩ := List.getElem?_eq_some_iff.mp hget
  refine ⟨List.take i pool, List.drop (i + 1) pool, ?_, ?_⟩
  · rw [← hval, List.getElem_cons_drop, List.take_append_drop]
  · rw [List.length_take]
    omega

/-- To change a place is to leave what is around it. -/
theorem set_split {before after : Pool O} {slot slot' : Option (LiveHandle O)} {i : Nat}
    (hi : before.length = i) :
    (before ++ slot :: after).set i slot' = before ++ slot' :: after := by
  subst hi
  rw [List.set_append_right _ _ (Nat.le_refl _), Nat.sub_self, List.set_cons_zero]

/-- What a pool is made of, with one place put first. -/
theorem resources_around (before after : Pool O) (slot : Option (LiveHandle O)) :
    resources (before ++ slot :: after) =
      slotResources slot + (before.resources + after.resources) := by
  rw [resources_append]
  show before.resources + (slotResources slot + after.resources) = _
  rw [← Multiset.add_assoc, Multiset.add_comm before.resources, Multiset.add_assoc]

/-- The handles of a pool, with one place put first. -/
theorem count_around (before after : Pool O) (slot : Option (LiveHandle O)) :
    count (before ++ slot :: after) = slotCount slot + (before.count + after.count) := by
  rw [count_append]
  show before.count + (slotCount slot + after.count) = _
  omega

end Pool

/-! ### One command -/

/-- A call of a public function does to the account what it does to the pool. -/
def Balanced (pool : Pool O) (p : Adapter O (CallResult × Pool O)) : Prop :=
  Accounts p pool.resources (fun r => r.2.resources) (fun r => r.2.count - pool.count)

section
variable {α : Type} {kind : α → LiveHandle O} {pool : Pool O} {i : Nat} {h : Option α}

/-- A constructor adds what its handle owns, if there is one. -/
theorem balanced_constructor {p : Adapter O (ZucStatus × Option α)} (hp : Constructs kind p) :
    Balanced pool (Command.constructor kind pool p) := by
  have hframe := Accounts.frame hp pool.resources
  rw [Multiset.zero_add] at hframe
  refine hframe.bind fun r => Accounts.pure ?_ ?_
  · rw [Pool.resources_append, Multiset.add_comm]
    exact congrArg _ (Multiset.add_zero _).symm
  · show (Pool.count (pool ++ [r.2.map kind]) - pool.count) - slotCount (r.2.map kind) = 0
    rw [Pool.count_append]
    show pool.count + (slotCount (r.2.map kind) + 0) - pool.count - slotCount (r.2.map kind) = 0
    omega

/-- A function without a handle changes nothing. -/
theorem balanced_plain {p : Adapter O ZucStatus} (hp : Neutral p) :
    Balanced pool (Command.plain pool p) :=
  hp.then fun _ => Accounts.pure rfl (Int.sub_self _)

/-- Nor does one that reports a length. -/
theorem balanced_plainCell {p : Adapter O (ZucStatus × SizeCell)} (hp : Neutral p) :
    Balanced pool (Command.plainCell pool p) :=
  hp.then fun _ => Accounts.pure rfl (Int.sub_self _)

/-- A function that was given the handle at `i` puts it back as it left it. -/
theorem balanced_put {β : Type} {p : Adapter O β} {handle : β → Option α} {result : β → CallResult}
    (hpool : ∀ a, h = some a → pool.handle i = some (kind a)) (hp : Returns kind h p handle)
    (hkeeps : Keeps h p handle) :
    Balanced pool (do
      let r ← p
      return (result r, pool.put i ((handle r).map kind)) : Adapter O (CallResult × Pool O)) := by
  cases h with
  | none =>
    have hframe := Accounts.frame hp pool.resources
    rw [show slotResources (Option.map kind none) = 0 from rfl, Multiset.zero_add] at hframe
    refine hframe.bindYields hkeeps fun r hr => ?_
    have hnone : handle r = none := Option.not_isSome_iff_eq_none.mp (by simp [hr])
    rw [hnone]
    exact Accounts.pure (Multiset.zero_add _) (by simp [Pool.put])
  | some a =>
    obtain ⟨before, after, rfl, hlength⟩ := Pool.split (hpool a rfl)
    have hframe := Accounts.frame hp (before.resources + after.resources)
    rw [show slotResources (Option.map kind (some a)) + (before.resources + after.resources) =
      _ from (Pool.resources_around before after _).symm] at hframe
    refine hframe.bindYields hkeeps fun r hr => ?_
    obtain ⟨b, hb⟩ := Option.isSome_iff_exists.mp hr
    have hput : Pool.put (before ++ some (kind a) :: after) i (some (kind b)) =
        before ++ some (kind b) :: after := Pool.set_split hlength
    rw [hb]
    refine Accounts.pure ?_ ?_
    · show _ = Pool.resources (Pool.put _ i (some (kind b)))
      rw [hput, Pool.resources_around]
      rfl
    · show Pool.count (Pool.put _ i (some (kind b))) - _ - 0 = 0
      rw [hput, Pool.count_around, Pool.count_around]
      show 1 + _ - (1 + _) - 0 = (0 : Int)
      omega

/-- A function that frees the handle at `i`. -/
theorem balanced_free {p : Adapter O Unit} (hpool : ∀ a, h = some a → pool.handle i = some (kind a))
    (hp : Frees kind h p) : Balanced pool (Command.free pool i h p) := by
  cases h with
  | none =>
    have hframe := Accounts.frame hp pool.resources
    rw [show slotResources (Option.map kind none) = 0 from rfl, Multiset.zero_add] at hframe
    refine hframe.bind fun _ => ?_
    refine Accounts.pure rfl ?_
    show pool.count - pool.count - -0 = 0
    omega
  | some a =>
    obtain ⟨before, after, rfl, hlength⟩ := Pool.split (hpool a rfl)
    have hframe := Accounts.frame hp (before.resources + after.resources)
    rw [show slotResources (Option.map kind (some a)) + (before.resources + after.resources) =
      _ from (Pool.resources_around before after _).symm] at hframe
    refine hframe.bind fun _ => ?_
    have hdrop : Pool.drop (before ++ some (kind a) :: after) i (some a) =
        before ++ none :: after := Pool.set_split hlength
    refine Accounts.pure ?_ ?_
    · show _ = Pool.resources (Pool.drop _ i (some a))
      rw [hdrop, Pool.resources_around]
      rfl
    · show Pool.count (Pool.drop _ i (some a)) - _ - _ = 0
      rw [hdrop, Pool.count_around, Pool.count_around]
      show 0 + _ - (1 + _) - -1 = (0 : Int)
      omega

end

/-- `zuc_init` takes nothing. -/
theorem neutral_zucInit : Neutral (zucInit : Adapter O _) := by
  refine neutral_read.then fun w => ?_
  refine Accounts.ite (fun _ => ?_) fun _ => ?_
  · refine Accounts.ite (fun _ => neutral_pure _) fun _ => ?_
    have hupdate : Neutral (Proc.update (fun w => { w with refcount := w.refcount + 1 }) :
        Adapter O Unit) := neutral_update fun _ => rfl
    exact hupdate.then fun _ => neutral_pure _
  · have hcall : Neutral (psa .cryptoInit : Adapter O _) := neutral_psa fun _ => ⟨rfl, rfl⟩
    refine hcall.then fun status => ?_
    refine Accounts.ite (fun _ => neutral_pure _) fun _ => ?_
    have hupdate : Neutral (Proc.update (fun w => { w with refcount := 1 }) : Adapter O Unit) :=
      neutral_update fun _ => rfl
    exact hupdate.then fun _ => neutral_pure _

/-- Nor does `zuc_shutdown`, within the window. -/
theorem neutral_zucShutdown : Neutral (zucShutdown : Adapter O _) := by
  refine neutral_read.then fun w => ?_
  refine Accounts.ite (fun _ => neutral_pure _) fun _ => ?_
  have hupdate : Neutral (Proc.update (fun w => { w with refcount := w.refcount - 1 }) :
      Adapter O Unit) := neutral_update fun _ => rfl
  refine hupdate.then fun _ => neutral_read.then fun w => ?_
  refine Accounts.ite (fun _ => ?_) fun _ => neutral_pure _
  have hcall : Neutral (psa .cryptoFree : Adapter O _) := neutral_psa fun _ => ⟨rfl, rfl⟩
  exact hcall.then fun _ => neutral_pure _

section
variable {pool : Pool O} {i : Nat}

/-- A place with a digest handle holds that handle. -/
theorem Pool.handle_of_hash (h : ZucHash O) (hi : pool.hash i = some h) :
    pool.handle i = some (.hash h) := by
  unfold Pool.hash at hi
  split at hi
  · cases hi; assumption
  · cases hi

/-- A place with an HMAC handle holds that handle. -/
theorem Pool.handle_of_hmac (h : ZucHmac O) (hi : pool.hmac i = some h) :
    pool.handle i = some (.hmac h) := by
  unfold Pool.hmac at hi
  split at hi
  · cases hi; assumption
  · cases hi

/-- A place with an AES handle holds that handle. -/
theorem Pool.handle_of_aes (a : ZucAes) (hi : pool.aes i = some a) :
    pool.handle i = some (.aes a) := by
  unfold Pool.aes at hi
  split at hi
  · cases hi; assumption
  · cases hi

/-- A place with a key holds that handle. -/
theorem Pool.handle_of_pkey (k : ZucPkey) (hi : pool.pkey i = some k) :
    pool.handle i = some (.pkey k) := by
  unfold Pool.pkey at hi
  split at hi
  · cases hi; assumption
  · cases hi

end

/-- Under the watch a constructor is what it was. -/
theorem zucPkeyConstructor_constructs {impl : Adapter O (ZucStatus × Option ZucPkey)}
    (h : Constructs .pkey impl) : Constructs .pkey (watched impl) :=
  accounts_watched (fun key => slotResources (Option.map LiveHandle.pkey key))
    (fun key => slotCount (Option.map LiveHandle.pkey key : Option (LiveHandle O))) h

/-- A neutral function is neutral under the watch. -/
theorem neutral_watched {impl : Adapter O (ZucStatus × SizeCell)} (h : Neutral impl) :
    Neutral (watched impl) :=
  accounts_watched (fun _ => 0) (fun _ => 0) h

/-- Every public function is accounted for. -/
theorem balanced_run (pool : Pool O) (c : Command) : Balanced pool (c.run pool) := by
  cases c with
  | init => exact balanced_plain neutral_zucInit
  | shutdown => exact balanced_plain neutral_zucShutdown
  | store p bs =>
    exact (neutral_writeMem p bs).then fun _ => Accounts.pure rfl (Int.sub_self _)
  | hashCompute => exact balanced_plainCell (neutral_zucHashCompute _ _ _ _ _ _)
  | hashNew => exact balanced_constructor (zucHashNew_constructs _ _)
  | hashUpdate i =>
    exact balanced_put Pool.handle_of_hash
      (streamUpdate_returns neutral_hashOps madeOf_hash _ _ _) (streamUpdate_keeps _ _ _ _)
  | hashFinish i =>
    exact balanced_put Pool.handle_of_hash
      (streamFinish_returns neutral_hashOps madeOf_hash _ _ _ _) (streamFinish_keeps _ _ _ _ _)
  | hashReset i =>
    exact balanced_put Pool.handle_of_hash
      (streamReset_returns neutral_hashOps madeOf_hash _) (streamReset_keeps _ _)
  | hashFree i => exact balanced_free Pool.handle_of_hash (zucHashFree_frees _)
  | hmacCompute => exact balanced_plainCell (neutral_zucHmacCompute _ _ _ _ _ _ _ _)
  | hmacNew => exact balanced_constructor (zucHmacNew_constructs _ _ _ _)
  | hmacUpdate i =>
    exact balanced_put Pool.handle_of_hmac
      (streamUpdate_returns neutral_macOps madeOf_hmac _ _ _) (streamUpdate_keeps _ _ _ _)
  | hmacFinish i =>
    exact balanced_put Pool.handle_of_hmac
      (streamFinish_returns neutral_macOps madeOf_hmac _ _ _ _) (streamFinish_keeps _ _ _ _ _)
  | hmacReset i =>
    exact balanced_put Pool.handle_of_hmac
      (streamReset_returns neutral_macOps madeOf_hmac _) (streamReset_keeps _ _)
  | hmacFree i => exact balanced_free Pool.handle_of_hmac (zucHmacFree_frees _)
  | aesNew => exact balanced_constructor (zucAesNew_constructs _ _ _)
  | aesSetState i =>
    exact balanced_put Pool.handle_of_aes (zucAesCbcSetState_returns _ _)
      (zucAesCbcSetState_keeps _ _)
  | aesGetState => exact balanced_plain (neutral_zucAesCbcGetState _ _)
  | aesCbcEncrypt i =>
    exact balanced_put Pool.handle_of_aes (zucAesCbcEncrypt_returns _ _ _ _)
      (zucAesCbcEncrypt_keeps _ _ _ _)
  | aesCbcDecrypt i =>
    exact balanced_put Pool.handle_of_aes (zucAesCbcDecrypt_returns _ _ _ _)
      (zucAesCbcDecrypt_keeps _ _ _ _)
  | aesFree i => exact balanced_free Pool.handle_of_aes (zucAesFree_frees _)
  | aeadEncrypt => exact balanced_plain (neutral_zucAeadEncrypt _ _ _ _ _ _ _ _ _ _ _ _)
  | aeadDecrypt => exact balanced_plain (neutral_zucAeadDecrypt _ _ _ _ _ _ _ _ _ _ _ _)
  | pbkdf2Hmac => exact balanced_plain (neutral_zucPbkdf2Hmac _ _ _ _ _ _ _ _)
  -- these run under the watch, which costs nothing
  | pkeyParse =>
    exact balanced_constructor (zucPkeyConstructor_constructs (pkeyParseImpl_constructs _ _ _ _))
  | pkeyGenerate =>
    exact balanced_constructor (zucPkeyConstructor_constructs (pkeyGenerateImpl_constructs _ _ _))
  | pkeyImport =>
    exact balanced_constructor (zucPkeyConstructor_constructs (pkeyImportImpl_constructs _ _ _ _ _))
  | pkeyPublic =>
    exact balanced_constructor (zucPkeyConstructor_constructs (pkeyPublicImpl_constructs _ _))
  | pkeyWrite => exact balanced_plainCell (neutral_watched (neutral_pkeyWriteImpl _ _ _ _ _ _))
  | pkeySignHash =>
    exact balanced_plainCell (neutral_watched (neutral_pkeySignHashImpl _ _ _ _ _ _ _ _))
  | pkeyVerifyHash => exact balanced_plain (neutral_zucPkeyVerifyHash _ _ _ _ _ _ _)
  | pkeyEncrypt =>
    exact balanced_plainCell (neutral_watched (neutral_pkeyEncryptImpl _ _ _ _ _ _ _ _))
  | pkeyDecrypt =>
    exact balanced_plainCell (neutral_watched (neutral_pkeyDecryptImpl _ _ _ _ _ _ _ _))
  | pkeyExport => exact balanced_plainCell (neutral_watched (neutral_pkeyExportImpl _ _ _ _ _))
  | pkeyAgree => exact balanced_plainCell (neutral_watched (neutral_pkeyAgreeImpl _ _ _ _ _))
  | pkeyFree i => exact balanced_free Pool.handle_of_pkey (zucPkeyFree_frees _)

/-! ### Whole sessions -/

/-- From one command to all of them. -/
theorem balanced_session (pool : Pool O) (cmds : List Command) :
    Accounts (session pool cmds) pool.resources (fun r => r.2.resources)
      (fun r => r.2.count - pool.count) := by
  induction cmds generalizing pool with
  | nil => exact Accounts.pure rfl (Int.sub_self _)
  | cons c cmds ih =>
    refine (balanced_run pool c).bind fun r => ?_
    refine (ih r.2).bind fun rs => Accounts.pure rfl ?_
    show (rs.2.count - pool.count) - (r.2.count - pool.count) - (rs.2.count - r.2.count) = 0
    omega

/-- The functions that hand out a handle. -/
def Command.constructs : Command → Bool
  | .hashNew .. => true
  | .hmacNew .. => true
  | .aesNew .. => true
  | .pkeyParse .. => true
  | .pkeyGenerate .. => true
  | .pkeyImport .. => true
  | .pkeyPublic .. => true
  | _ => false

/-- What a constructor that fails leaves behind: nothing. -/
def AddsNothing (pool : Pool O) (w : World) (t : List (Event (Call O)))
    (r : CallResult × Pool O) (w' : World) : Prop :=
  r.1.status ≠ .ok → Trades tariff 0 t 0 ∧ w'.live = w.live ∧ r.2 = pool ++ [none]

/-- A constructor that fails leaves the account as it was. -/
theorem addsNothing_constructor {α : Type} {kind : α → LiveHandle O}
    {p : Adapter O (ZucStatus × Option α)} (pool : Pool O) (w : World) (hp : Constructs kind p)
    (hout : Yields p HandsOut) :
    Ensures InWindow (Command.constructor kind pool p) w (AddsNothing pool w) := by
  refine Ensures.bind_iff.mpr ?_
  intro t r w' hrun hok
  obtain ⟨held, htrades, rfl, hlive⟩ := hp w t r w' hrun hok
  have hr : HandsOut r := hout w t r w' hrun fun _ _ => trivial
  refine Ensures.pure_iff.mpr fun hst => ?_
  obtain ⟨st, key⟩ := r
  obtain rfl : key = none := hr.eq_none hst
  refine ⟨?_, hlive.trans (Int.add_zero _), rfl⟩
  rw [List.append_nil]
  exact htrades

/-- So it is with each of them. -/
theorem constructor_addsNothing (pool : Pool O) (c : Command) (w : World)
    (hc : c.constructs = true) : Ensures InWindow (c.run pool) w (AddsNothing pool w) := by
  cases c with
  | hashNew =>
    exact addsNothing_constructor _ _ (zucHashNew_constructs _ _) (zucHashNew_handsOut _ _)
  | hmacNew =>
    exact addsNothing_constructor _ _ (zucHmacNew_constructs _ _ _ _) (zucHmacNew_handsOut _ _ _ _)
  | aesNew =>
    exact addsNothing_constructor _ _ (zucAesNew_constructs _ _ _) (zucAesNew_handsOut _ _ _)
  | pkeyParse =>
    exact addsNothing_constructor _ _ (zucPkeyConstructor_constructs (pkeyParseImpl_constructs _ _ _ _))
      (watched_handsOut (pkeyParseImpl_handsOut _ _ _ _))
  | pkeyGenerate =>
    exact addsNothing_constructor _ _ (zucPkeyConstructor_constructs (pkeyGenerateImpl_constructs _ _ _))
      (watched_handsOut (pkeyGenerateImpl_handsOut _ _ _))
  | pkeyImport =>
    exact addsNothing_constructor _ _
      (zucPkeyConstructor_constructs (pkeyImportImpl_constructs _ _ _ _ _))
      (watched_handsOut (pkeyImportImpl_handsOut _ _ _ _ _))
  | pkeyPublic =>
    exact addsNothing_constructor _ _ (zucPkeyConstructor_constructs (pkeyPublicImpl_constructs _ _))
      (watched_handsOut (pkeyPublicImpl_handsOut _ _))
  | _ => cases hc

/-- After every call of a session within one window, what the backend and the heap hold
is what belongs to the caller's handles, and a constructor that failed added nothing. -/
theorem nothing_leaks (w : World) :
    (∀ cmds, Ensures InWindow (session ([] : Pool O) cmds) w fun t r w' =>
      settle tariff 0 t = some (r.2.keys.map .key + r.2.blocks.map .block) ∧
        w'.live = w.live + r.2.handles.length) ∧
    ∀ (pool : Pool O) (c : Command), c.constructs = true →
      Ensures InWindow (c.run pool) w (AddsNothing pool w) := by
  refine ⟨fun cmds => ?_, fun pool c hc => constructor_addsNothing pool c w hc⟩
  intro t r w' hrun hok
  obtain ⟨held, htrades, rfl, hlive⟩ := balanced_session [] cmds w t r w' hrun hok
  refine ⟨?_, ?_⟩
  · rw [← Pool.resources_eq]
    exact htrades.settle_eq
  · rw [hlive, ← Pool.count_eq]
    show w.live + (r.2.count - 0) = _
    rw [Int.sub_zero]

end Zucrypt
