import Zucrypt.DerivationStream

/-! # Runs of a derivation

An operation is driven by calls in any order, any of which may fail.  From what its caller sees of
them follows what it has been given, the `DerivationPhase`; and whatever it gives out is the derived
key of that, byte after byte, however it is asked for.

`derivation_exact` reads the phase off the log of calls and replies, and says: what was given out
since the password was taken is the beginning of the key that PBKDF2 derives from salt, password and
cost (the salt may come in pieces), and no longer than there are block numbers for; and an output
that succeeds gives the bytes that come next, wherever in a block that is.

The invariant is that the operation represents the phase (`Represents`), or gives nothing any more
(`GivesNothing`): a failure may leave it idle, and then no output succeeds.  One call keeps it
(`step_represents`), with a lemma for each kind of call; that what is given out continues what was
is `step_exact`; and both go over the log by `Machine.log_invariant`.

The driver is any whose digests and MACs are right when they succeed (`DriverDigests`), and it may
fail at any call, as may the copies of the caller's buffers. -/
namespace Zucrypt
open Effects ByteMemory KeyedHash Machines PasswordDerivation

variable {δ HC MC : Type}

/-- A call on a derivation operation. -/
inductive KdfCall where
  | setup (alg : PsaAlg)
  | inputInteger (step : PsaKdfStep) (value : Nat)
  | inputBytes (step : PsaKdfStep) (data : List Byte)
  | outputBytes (outputLength : Nat)
  | abort

/-- What the caller gets: the status, and what is in its buffer. -/
structure KdfReply where
  status : PsaStatus
  bytes : List Byte := []

/-- An operation under a sequence of calls. -/
def derivationMachine (D : OneShotDriver δ HC MC) :
    Machine KdfCall KdfReply (PsaKdfOperation × δ) where
  step st c :=
    match c with
    | .setup alg =>
      let r := psaKdfSetup D st.1 alg st.2
      (⟨r.1.1, []⟩, (r.1.2, r.2))
    | .inputInteger step value =>
      let r := psaKdfInputInteger st.1 step value
      (⟨r.1, []⟩, (r.2, st.2))
    | .inputBytes step data =>
      let r := psaKdfInputBytes D st.1 step data st.2
      (⟨r.1.1, []⟩, (r.1.2, r.2))
    | .outputBytes outputLength =>
      let r := psaKdfOutputBytes D st.1 outputLength st.2
      (⟨r.1.1, r.1.2.2⟩, (r.1.2.1, r.2))
    | .abort => (⟨.success, []⟩, (psaKdfAbort st.1, st.2))

/-- What an operation has been given, and has given out since it has its password. -/
inductive DerivationPhase where
  | blank
  | started (halg : PsaAlg)
  | costSet (halg : PsaAlg) (cost : Nat)
  | salted (halg : PsaAlg) (cost : Nat) (salt : List Byte)
  | ready (halg : PsaAlg) (cost : Nat) (salt password out : List Byte)
  /-- an input was taken where there is no place for it -/
  | misused
deriving DecidableEq

/-- What a call that succeeded has changed. -/
def DerivationPhase.next (ph : DerivationPhase) (c : KdfCall) (bytes : List Byte) : DerivationPhase :=
  match ph, c with
  | _, .setup (.pbkdf2Hmac halg) => .started halg
  | .started halg, .inputInteger .cost cost => .costSet halg cost
  | .costSet halg cost, .inputBytes .salt data => .salted halg cost data
  | .salted halg cost salt, .inputBytes .salt data => .salted halg cost (salt ++ data)
  | .salted halg cost salt, .inputBytes .password data => .ready halg cost salt data []
  | .ready halg cost salt password out, .outputBytes _ => .ready halg cost salt password (out ++ bytes)
  | _, .abort => .blank
  | _, _ => .misused

/-- The same as the caller sees it; a call that failed counts for nothing. -/
def DerivationPhase.after (ph : DerivationPhase) (e : KdfCall × KdfReply) : DerivationPhase :=
  if e.2.status = .success then ph.next e.1 e.2.bytes else ph

/-- What follows from a whole log. -/
def derivationPhase (log : List (KdfCall × KdfReply)) : DerivationPhase :=
  log.foldl DerivationPhase.after .blank

/-! ### What a phase says of an operation -/

/-- An operation that derives with a hash and has given out so many bytes. -/
structure Serves (op : PsaKdfOperation) (halg : PsaAlg) (given : Nat) : Prop where
  alg : op.alg = .pbkdf2Hmac halg
  hash : halg.isHash = true
  capacity : op.capacity + given = 4294967295 * psaHashLength halg

section
variable (F : PsaAlg → List Byte → List Byte)

/-- An operation that has its inputs and is to give out bytes. -/
structure Streams (op : PsaKdfOperation) (halg : PsaAlg) (cost : Nat) (salt password out : List Byte) :
    Prop where
  serves : Serves op halg out.length
  salt : op.ctx.salt = salt
  inputCost : op.ctx.inputCost = cost
  gives : op.ctx.state = .passwordSet ∧ out = [] ∧
      GivesFrom F halg password { op.ctx with bytesUsed := psaHashLength halg } 0 ∨
    op.ctx.state = .output ∧ GivesFrom F halg password op.ctx out.length

/-- The operation is as the phase says. -/
def Represents (op : PsaKdfOperation) : DerivationPhase → Prop
  | .blank => op.alg = .none
  | .started halg => Serves op halg 0 ∧ op.ctx = {}
  | .costSet halg cost =>
    Serves op halg 0 ∧ 0 < cost ∧ op.ctx = { state := .inputCostSet, inputCost := cost }
  | .salted halg cost salt =>
    Serves op halg 0 ∧ 0 < cost ∧ op.ctx = { state := .saltSet, inputCost := cost, salt }
  | .ready halg cost salt password out => Streams F op halg cost salt password out
  | .misused => False

/-- An operation that gives out nothing: it is blank, or has failed. -/
def GivesNothing (op : PsaKdfOperation) : Prop := op.alg = .none ∨ op.capacity = 0

/-- What a phase has been given out is the derived key. -/
def DerivationPhase.Exact : DerivationPhase → Prop
  | .ready halg cost salt password out =>
    out = derived (hmacOf F halg password) (psaHashLength halg) salt cost out.length ∧
      out.length ≤ 4294967295 * psaHashLength halg
  | _ => True

end

section
variable {D : OneShotDriver δ HC MC} {F : PsaAlg → List Byte → List Byte} {op : PsaKdfOperation}
  {ph : DerivationPhase} {s : δ}

/-- An operation that was set up has its algorithm. -/
theorem Represents.alg (h : Represents F op ph) (hne : ph ≠ .blank) :
    ∃ halg, op.alg = .pbkdf2Hmac halg := by
  cases ph with
  | blank => exact absurd rfl hne
  | started halg => exact ⟨halg, h.1.alg⟩
  | costSet halg cost => exact ⟨halg, h.1.alg⟩
  | salted halg cost salt => exact ⟨halg, h.1.alg⟩
  | ready halg cost salt password out => exact ⟨halg, h.serves.alg⟩
  | misused => exact h.elim

/-- Every step of an operation keeps the phase of its caller, or makes it idle. -/
def KeepsPhase (F : PsaAlg → List Byte → List Byte) (ph ph' : DerivationPhase) (st : PsaStatus)
    (op : PsaKdfOperation) : Prop :=
  (st = .success → Represents F op ph') ∧ (st ≠ .success → Represents F op ph ∨ GivesNothing op)

/-! ### Setting up and giving inputs -/

theorem psaKdfSetup_ok {alg : PsaAlg} (hok : (psaKdfSetup D op alg s).1.1 = .success) :
    ∃ halg, alg = .pbkdf2Hmac halg ∧ op.alg = .none ∧
      Serves (psaKdfSetup D op alg s).1.2 halg 0 ∧ (psaKdfSetup D op alg s).1.2.ctx = {} := by
  unfold psaKdfSetup at hok ⊢
  by_cases halg : op.alg = .none
  swap
  · rw [if_pos halg] at hok
    cases hok
  rw [if_neg (not_not.mpr halg)] at hok ⊢
  cases alg with
  | pbkdf2Hmac hash =>
    dsimp only at hok ⊢
    by_cases hlength : psaHashLength hash = 0
    · rw [if_pos hlength] at hok
      cases hok
    rw [if_neg hlength] at hok ⊢
    by_cases hsupport : (psaHashTrySupport D hash s).1 = .success
    · rw [if_neg (not_not.mpr hsupport)]
      refine ⟨hash, rfl, halg, ⟨rfl, ?_, rfl⟩, rfl⟩
      cases hash <;> first | rfl | exact absurd rfl hlength
    · rw [if_pos hsupport] at hok
      exact absurd hok hsupport
  | _ => cases hok

/-- A setup that is refused leaves the operation what it can do. -/
theorem psaKdfSetup_failed {alg : PsaAlg} (hfailed : (psaKdfSetup D op alg s).1.1 ≠ .success) :
    (psaKdfSetup D op alg s).1.2.alg = op.alg ∧
      (psaKdfSetup D op alg s).1.2.capacity = op.capacity ∧
      (op.alg ≠ .none → (psaKdfSetup D op alg s).1.2 = op) := by
  unfold psaKdfSetup at hfailed ⊢
  by_cases halg : op.alg = .none
  swap
  · rw [if_pos halg]
    exact ⟨rfl, rfl, fun _ => rfl⟩
  rw [if_neg (not_not.mpr halg)] at hfailed ⊢
  cases alg with
  | pbkdf2Hmac hash =>
    dsimp only at hfailed ⊢
    by_cases hlength : psaHashLength hash = 0
    · rw [if_pos hlength]
      exact ⟨rfl, rfl, fun hne => absurd halg hne⟩
    rw [if_neg hlength] at hfailed ⊢
    by_cases hsupport : (psaHashTrySupport D hash s).1 = .success
    · rw [if_neg (not_not.mpr hsupport)] at hfailed
      exact absurd rfl hfailed
    · rw [if_pos hsupport]
      exact ⟨rfl, rfl, fun hne => absurd halg hne⟩
  | _ => exact ⟨rfl, rfl, fun _ => rfl⟩

/-- The cost is taken once, before the salt. -/
theorem psaPbkdf2SetInputCost_ok {ctx : PsaPbkdf2} {step : PsaKdfStep} {n : Nat}
    (hok : (psaPbkdf2SetInputCost ctx step n).1 = .success) :
    step = .cost ∧ ctx.state = .init ∧ 0 < n ∧
      (psaPbkdf2SetInputCost ctx step n).2 = { ctx with inputCost := n, state := .inputCostSet } := by
  unfold psaPbkdf2SetInputCost at hok ⊢
  by_cases hstep : step = .cost
  swap
  · rw [if_pos hstep] at hok
    cases hok
  rw [if_neg (not_not.mpr hstep)] at hok ⊢
  by_cases hstate : ctx.state = .init
  swap
  · rw [if_pos hstate] at hok
    cases hok
  rw [if_neg (not_not.mpr hstate)] at hok ⊢
  by_cases hmax : PSA_VENDOR_PBKDF2_MAX_ITERATIONS < n
  · rw [if_pos hmax] at hok
    cases hok
  rw [if_neg hmax] at hok ⊢
  by_cases hzero : n = 0
  · rw [if_pos hzero] at hok
    cases hok
  rw [if_neg hzero]
  exact ⟨hstep, hstate, Nat.pos_of_ne_zero hzero, rfl⟩

/-- The salt is taken after the cost, in any number of pieces. -/
theorem psaPbkdf2SetSalt_ok {ctx : PsaPbkdf2} {data : List Byte}
    (hok : (psaPbkdf2SetSalt D ctx data s).1.1 = .success) :
    (ctx.state = .inputCostSet ∨ ctx.state = .saltSet) ∧
      (psaPbkdf2SetSalt D ctx data s).1.2 = { ctx with state := .saltSet, salt := ctx.salt ++ data } := by
  unfold psaPbkdf2SetSalt at hok ⊢
  by_cases hstate : ctx.state ≠ .inputCostSet ∧ ctx.state ≠ .saltSet
  · rw [if_pos hstate] at hok
    cases hok
  rw [if_neg hstate] at hok ⊢
  refine ⟨by tauto, ?_⟩
  by_cases hempty : data.length = 0
  · rw [if_pos hempty, List.eq_nil_of_length_eq_zero hempty, List.append_nil]
  rw [if_neg hempty] at hok ⊢
  dsimp only at hok ⊢
  cases halloc : (D.alloc s).1 with
  | true =>
    rw [halloc, if_pos rfl] at hok
    cases hok
  | false => rfl

/-- A setup starts a new phase, or changes nothing. -/
theorem keeps_setup (h : Represents F op ph) (alg : PsaAlg) :
    KeepsPhase F ph (ph.next (.setup alg) []) (psaKdfSetup D op alg s).1.1 (psaKdfSetup D op alg s).1.2 := by
  constructor
  · intro hok
    obtain ⟨halg, rfl, -, hserves, hctx⟩ := psaKdfSetup_ok hok
    have hnext : ph.next (.setup (.pbkdf2Hmac halg)) [] = .started halg := by cases ph <;> rfl
    rw [hnext]
    exact ⟨hserves, hctx⟩
  · intro hfailed
    obtain ⟨halg, -, hsame⟩ := psaKdfSetup_failed hfailed
    by_cases hblank : op.alg = .none
    · exact .inr (.inl (halg.trans hblank))
    · rw [hsame hblank]
      exact .inl h

/-- An integer input. -/
theorem keeps_inputInteger (h : Represents F op ph) (step : PsaKdfStep) (n : Nat) :
    KeepsPhase F ph (ph.next (.inputInteger step n) []) (psaKdfInputInteger op step n).1
      (psaKdfInputInteger op step n).2 := by
  by_cases hph : ph = .blank
  · subst hph
    have hblank : op.alg = .none := h
    unfold psaKdfInputInteger
    rw [hblank]
    exact ⟨fun hok => PsaStatus.noConfusion hok, fun _ => .inr (.inl rfl)⟩
  obtain ⟨halg, halgEq⟩ := h.alg hph
  unfold psaKdfInputInteger
  rw [halgEq]
  dsimp only
  by_cases hok : (psaPbkdf2SetInputCost op.ctx step n).1 = .success
  swap
  · rw [if_pos hok]
    exact ⟨fun hok' => absurd hok' hok, fun _ => .inr (.inl rfl)⟩
  rw [if_neg (not_not.mpr hok)]
  refine ⟨fun _ => ?_, fun hne => absurd rfl hne⟩
  obtain ⟨rfl, hstate, hn, hctx⟩ := psaPbkdf2SetInputCost_ok hok
  rw [hctx]
  -- only an operation that has been given nothing is in this state
  cases ph with
  | blank => exact absurd rfl hph
  | started hash => exact ⟨⟨halgEq.symm.trans h.1.alg, h.1.hash, h.1.capacity⟩, hn, by rw [h.2]⟩
  | costSet hash cost =>
    rw [h.2.2] at hstate
    cases hstate
  | salted hash cost salt =>
    rw [h.2.2] at hstate
    cases hstate
  | ready hash cost salt password out =>
    rcases h.gives with ⟨hother, -⟩ | ⟨hother, -⟩ <;> cases hother.symm.trans hstate
  | misused => exact h.elim

/-- An input of bytes, which is copied first. -/
theorem keeps_inputBytes (L : DriverDigests D F) (h : Represents F op ph) (step : PsaKdfStep)
    (data : List Byte) :
    KeepsPhase F ph (ph.next (.inputBytes step data) []) (psaKdfInputBytes D op step data s).1.1
      (psaKdfInputBytes D op step data s).1.2 := by
  unfold psaKdfInputBytes
  dsimp only
  -- the input is copied first; without the copy the operation is as it was
  by_cases hcopy : (localAlloc D.toDriver data.length s).1 = .success
  swap
  · rw [if_pos hcopy]
    exact ⟨fun hok => absurd hok hcopy, fun _ => .inl h⟩
  rw [if_neg (not_not.mpr hcopy)]
  generalize (localAlloc D.toDriver data.length s).2 = s
  unfold psaKdfInputInternal
  by_cases hph : ph = .blank
  · subst hph
    have hblank : op.alg = .none := h
    rw [hblank]
    exact ⟨fun hok => PsaStatus.noConfusion hok, fun _ => .inr (.inl rfl)⟩
  obtain ⟨halg, halgEq⟩ := h.alg hph
  rw [halgEq]
  dsimp only
  by_cases hok : (psaPbkdf2Input D halg op.ctx step data s).1.1 = .success
  swap
  · rw [if_pos hok]
    exact ⟨fun hok' => absurd hok' hok, fun _ => .inr (.inl rfl)⟩
  rw [if_neg (not_not.mpr hok)]
  -- the step was taken, so the operation was in a state that takes it
  refine ⟨fun _ => ?_, fun hne => absurd rfl hne⟩
  cases step with
  | cost => cases hok
  | salt =>
    obtain ⟨hstate, hctx⟩ := psaPbkdf2SetSalt_ok hok
    show Represents F { op with alg := .pbkdf2Hmac halg, ctx := (psaPbkdf2SetSalt D op.ctx data s).1.2 }
      (ph.next (.inputBytes .salt data) [])
    rw [hctx]
    cases ph with
    | blank => exact absurd rfl hph
    | started hash =>
      rw [h.2] at hstate
      rcases hstate with hstate | hstate <;> cases hstate
    | costSet hash cost =>
      refine ⟨⟨halgEq.symm.trans h.1.alg, h.1.hash, h.1.capacity⟩, h.2.1, ?_⟩
      rw [h.2.2]
      rfl
    -- a second salt goes behind the first
    | salted hash cost salt =>
      refine ⟨⟨halgEq.symm.trans h.1.alg, h.1.hash, h.1.capacity⟩, h.2.1, ?_⟩
      rw [h.2.2]
    | ready hash cost salt password out =>
      rcases h.gives with ⟨hother, -⟩ | ⟨hother, -⟩ <;>
        rcases hstate with hstate | hstate <;> cases hother.symm.trans hstate
    | misused => exact h.elim
  | password =>
    have hok : (psaPbkdf2SetPassword D halg op.ctx data s).1.1 = .success := hok
    show Represents F { op with alg := .pbkdf2Hmac halg, ctx := (psaPbkdf2SetPassword D halg op.ctx data s).1.2 }
      (ph.next (.inputBytes .password data) [])
    unfold psaPbkdf2SetPassword at hok ⊢
    by_cases hstate : op.ctx.state = .saltSet
    swap
    · rw [if_pos hstate] at hok
      cases hok
    rw [if_neg (not_not.mpr hstate)] at hok ⊢
    cases ph with
    | blank => exact absurd rfl hph
    | started hash =>
      rw [h.2] at hstate
      cases hstate
    | costSet hash cost =>
      rw [h.2.2] at hstate
      cases hstate
    | salted hash cost salt =>
      obtain ⟨hserves, hcost, hctx⟩ := h
      obtain rfl : halg = hash := by
        have := halgEq.symm.trans hserves.alg
        injection this
      -- the only phase that takes a password
      obtain ⟨password, passwordLength, hset, hkey⟩ :=
        psaPbkdf2HmacSetPassword_key (D := D) L hserves.hash (by rw [hctx]) hok
      dsimp only
      rw [hset, hctx]
      refine ⟨⟨rfl, hserves.hash, hserves.capacity⟩, rfl, rfl, .inl ⟨rfl, rfl, ?_⟩⟩
      refine ⟨hkey, hcost, rfl, Nat.le_refl _, ?_, fun hpos => absurd hpos (Nat.lt_irrefl _)⟩
      show 0 + psaHashLength halg = 0 * psaHashLength halg + psaHashLength halg
      omega
    | ready hash cost salt password out =>
      rcases h.gives with ⟨hother, -⟩ | ⟨hother, -⟩ <;> cases hother.symm.trans hstate
    | misused => exact h.elim

/-! ### Giving out bytes -/

/-- An output that fails leaves the operation as it was, or idle; there are no other
derivations. -/
theorem psaKdfOutputBytes_failed {n : Nat} (hfailed : (psaKdfOutputBytes D op n s).1.1 ≠ .success) :
    (psaKdfOutputBytes D op n s).1.2.1 = op ∨ GivesNothing (psaKdfOutputBytes D op n s).1.2.1 ∨
      ¬ GivesNothing op ∧ ∀ halg, op.alg ≠ .pbkdf2Hmac halg := by
  unfold psaKdfOutputBytes psaKdfOutputFailed at hfailed ⊢
  by_cases hblank : op.alg = .none
  · rw [if_pos hblank]
    exact .inl rfl
  rw [if_neg hblank] at hfailed ⊢
  by_cases hend : n = 0 ∧ op.capacity = 0
  · rw [if_pos hend]
    exact .inl rfl
  rw [if_neg hend] at hfailed ⊢
  dsimp only at hfailed ⊢
  by_cases hcopy : (localAlloc D.toDriver n s).1 = .success
  swap
  · rw [if_pos hcopy]
    exact .inr (.inl (.inr rfl))
  rw [if_neg (not_not.mpr hcopy)] at hfailed ⊢
  by_cases hcapacity : op.capacity < n
  · rw [if_pos hcapacity]
    exact .inr (.inl (.inr rfl))
  rw [if_neg hcapacity] at hfailed ⊢
  cases halg : op.alg with
  | pbkdf2Hmac hash =>
    rw [halg] at hfailed
    dsimp only at hfailed ⊢
    by_cases hread : (psaPbkdf2Read D hash op.ctx n (localAlloc D.toDriver n s).2).1.1 = .success
    · rw [if_neg (not_not.mpr hread)] at hfailed
      exact absurd rfl hfailed
    · rw [if_pos hread]
      exact .inr (.inl (.inr rfl))
  | _ =>
    refine .inr (.inr ⟨?_, fun _ h => nomatch h⟩)
    rintro (hnone | hspent)
    · exact hblank hnone
    · omega

/-- What a successful output has needed, and what it has done. -/
theorem psaKdfOutputBytes_ok {n : Nat} (hok : (psaKdfOutputBytes D op n s).1.1 = .success) :
    ∃ halg s', op.alg = .pbkdf2Hmac halg ∧ n ≤ op.capacity ∧ op.capacity ≠ 0 ∧
      let r := psaPbkdf2Read D halg op.ctx n s'
      r.1.1 = .success ∧ (psaKdfOutputBytes D op n s).1.2 =
        ({ op with capacity := op.capacity - n, ctx := r.1.2.1 }, r.1.2.2) := by
  unfold psaKdfOutputBytes psaKdfOutputFailed at hok ⊢
  by_cases hblank : op.alg = .none
  · rw [if_pos hblank] at hok
    cases hok
  rw [if_neg hblank] at hok ⊢
  by_cases hend : n = 0 ∧ op.capacity = 0
  · rw [if_pos hend] at hok
    cases hok
  rw [if_neg hend] at hok ⊢
  dsimp only at hok ⊢
  -- `LOCAL_OUTPUT_ALLOC`
  by_cases hcopy : (localAlloc D.toDriver n s).1 = .success
  swap
  · rw [if_pos hcopy] at hok
    exact absurd hok hcopy
  rw [if_neg (not_not.mpr hcopy)] at hok ⊢
  by_cases hcapacity : op.capacity < n
  · rw [if_pos hcapacity] at hok
    cases hok
  rw [if_neg hcapacity] at hok ⊢
  cases halg : op.alg with
  | pbkdf2Hmac hash =>
    rw [halg] at hok
    dsimp only at hok ⊢
    by_cases hread : (psaPbkdf2Read D hash op.ctx n (localAlloc D.toDriver n s).2).1.1 = .success
    · rw [if_neg (not_not.mpr hread)]
      exact ⟨hash, _, rfl, Nat.not_lt.mp hcapacity, by omega, hread, rfl⟩
    · rw [if_pos hread] at hok
      exact absurd hok hread
  | _ =>
    rw [halg] at hok
    cases hok

/-- A read, of an operation in either state that has one. -/
theorem psaPbkdf2Read_gives (L : DriverDigests D F) {halg : PsaAlg} {cost : Nat}
    {salt password out : List Byte} (h : Streams F op halg cost salt password out) {n : Nat}
    (hroom : out.length + n ≤ 4294967295 * psaHashLength halg)
    (hok : (psaPbkdf2Read D halg op.ctx n s).1.1 = .success) :
    let r := (psaPbkdf2Read D halg op.ctx n s).1
    r.2.2 = stretch (hmacOf F halg password) (psaHashLength halg) salt cost out.length n ∧
      r.2.1.salt = salt ∧ r.2.1.inputCost = cost ∧ r.2.1.state = .output ∧
      GivesFrom F halg password r.2.1 (out.length + n) := by
  have hpos := (psaHashLength_le_block h.serves.hash).1
  -- the loop gives nothing where nothing is asked for
  have hloop : ∀ (ctx : PsaPbkdf2), GivesFrom F halg password ctx out.length → ctx.salt = salt →
      ctx.inputCost = cost → ctx.state = .output →
      (if n = 0 then ((.success, ctx, []), s) else pbkdf2ReadLoop D halg ⟨_, hpos⟩ n ctx [] s).1.1 =
        PsaStatus.success →
      let r := (if n = 0 then ((PsaStatus.success, ctx, []), s)
        else pbkdf2ReadLoop D halg ⟨_, hpos⟩ n ctx [] s).1
      r.2.2 = stretch (hmacOf F halg password) (psaHashLength halg) salt cost out.length n ∧
        r.2.1.salt = salt ∧ r.2.1.inputCost = cost ∧ r.2.1.state = .output ∧
        GivesFrom F halg password r.2.1 (out.length + n) := by
    rintro ctx hgives rfl rfl hstate hdone
    by_cases hzero : n = 0
    · subst hzero
      exact ⟨rfl, rfl, rfl, hstate, hgives⟩
    · rw [if_neg hzero] at hdone ⊢
      obtain ⟨hout, hnext, hsalt, hcost, hsame⟩ :=
        pbkdf2ReadLoop_gives L h.serves.hash hpos n ctx [] s hgives hroom hdone
      exact ⟨hout, hsalt, hcost, hsame.trans hstate, hnext⟩
  unfold psaPbkdf2Read at hok ⊢
  rw [dif_pos hpos] at hok ⊢
  rcases h.gives with ⟨hstate, rfl, hgives⟩ | ⟨hstate, hgives⟩
  · rw [hstate] at hok ⊢
    have hgives : GivesFrom F halg password
        { op.ctx with bytesUsed := psaHashLength halg, state := .output } 0 :=
      ⟨hgives.key, hgives.cost, hgives.size, hgives.used, hgives.place, hgives.held⟩
    exact hloop _ hgives h.salt h.inputCost rfl hok
  · rw [hstate] at hok ⊢
    exact hloop _ hgives h.salt h.inputCost hstate hok

/-- An output that succeeds gives what comes next. -/
theorem streams_outputBytes (L : DriverDigests D F) (h : Represents F op ph ∨ GivesNothing op) {n : Nat}
    (hok : (psaKdfOutputBytes D op n s).1.1 = .success) :
    ∃ halg cost salt password out, ph = .ready halg cost salt password out ∧
      (psaKdfOutputBytes D op n s).1.2.2 =
        stretch (hmacOf F halg password) (psaHashLength halg) salt cost out.length n ∧
      out.length + n ≤ 4294967295 * psaHashLength halg ∧
      Streams F (psaKdfOutputBytes D op n s).1.2.1 halg cost salt password
        (out ++ (psaKdfOutputBytes D op n s).1.2.2) := by
  obtain ⟨halg, s', halgEq, hn, hcapacity, hread, hresult⟩ := psaKdfOutputBytes_ok hok
  rw [hresult]
  rcases h with h | hnone | hspent
  · cases ph with
    | blank => exact absurd (halgEq.symm.trans h) (by simp)
    -- before the password there is nothing to read
    | started hash =>
      unfold psaPbkdf2Read at hread
      rw [h.2] at hread
      split at hread <;> cases hread
    | costSet hash cost =>
      unfold psaPbkdf2Read at hread
      rw [h.2.2] at hread
      split at hread <;> cases hread
    | salted hash cost salt =>
      unfold psaPbkdf2Read at hread
      rw [h.2.2] at hread
      split at hread <;> cases hread
    | ready hash cost salt password out =>
      obtain rfl : halg = hash := by
        have := halgEq.symm.trans h.serves.alg
        injection this
      have hserved := h.serves.capacity
      have hroom : out.length + n ≤ 4294967295 * psaHashLength halg := by omega
      obtain ⟨hout, hsalt, hcost, hstate, hgives⟩ := psaPbkdf2Read_gives L h hroom hread
      refine ⟨halg, cost, salt, password, out, rfl, hout, hroom, ?_⟩
      have hlength : (out ++ (psaPbkdf2Read D halg op.ctx n s').1.2.2).length = out.length + n := by
        rw [List.length_append, hout, length_stretch]
      refine ⟨⟨halgEq, h.serves.hash, ?_⟩, hsalt, hcost, .inr ⟨hstate, ?_⟩⟩
      · show op.capacity - n + _ = _
        rw [hlength]
        omega
      · rw [hlength]
        exact hgives
    | misused => exact h.elim
  · exact absurd (halgEq.symm.trans hnone) (by simp)
  · exact absurd hspent hcapacity

/-! ### Every call -/

theorem givesNothing_inputInteger (h : GivesNothing op) (step : PsaKdfStep) (n : Nat) :
    GivesNothing (psaKdfInputInteger op step n).2 := by
  unfold psaKdfInputInteger
  cases halg : op.alg with
  | pbkdf2Hmac hash =>
    dsimp only
    by_cases hok : (psaPbkdf2SetInputCost op.ctx step n).1 = .success
    · rw [if_neg (not_not.mpr hok)]
      rcases h with hnone | hspent
      · exact absurd (halg.symm.trans hnone) (by simp)
      · exact .inr hspent
    · rw [if_pos hok]
      exact .inl rfl
  | _ => exact .inl rfl

/-- So it is with an input of bytes. -/
theorem givesNothing_inputBytes (h : GivesNothing op) (step : PsaKdfStep) (data : List Byte) :
    GivesNothing (psaKdfInputBytes D op step data s).1.2 := by
  unfold psaKdfInputBytes
  dsimp only
  by_cases hcopy : (localAlloc D.toDriver data.length s).1 = .success
  swap
  · rw [if_pos hcopy]
    exact h
  rw [if_neg (not_not.mpr hcopy)]
  generalize (localAlloc D.toDriver data.length s).2 = s
  unfold psaKdfInputInternal
  cases halg : op.alg with
  | pbkdf2Hmac hash =>
    dsimp only
    by_cases hok : (psaPbkdf2Input D hash op.ctx step data s).1.1 = .success
    · rw [if_neg (not_not.mpr hok)]
      rcases h with hnone | hspent
      · exact absurd (halg.symm.trans hnone) (by simp)
      · exact .inr hspent
    · rw [if_pos hok]
      exact .inl rfl
  | _ => exact .inl rfl

/-- No call but an output has given out bytes. -/
theorem exact_next {c : KdfCall} (hc : ∀ n, c ≠ .outputBytes n) (ph : DerivationPhase)
    (bytes : List Byte) : (ph.next c bytes).Exact F := by
  cases c with
  | setup alg => cases alg <;> cases ph <;> trivial
  | inputInteger step n => cases step <;> cases ph <;> trivial
  | inputBytes step data =>
    cases ph with
    | salted halg cost salt =>
      cases step with
      | password => exact ⟨rfl, Nat.zero_le _⟩
      | salt => trivial
      | cost => trivial
    | _ => cases step <;> trivial
  | outputBytes n => exact absurd rfl (hc n)
  | abort => cases ph <;> trivial

/-- What a call leaves is as its caller must think, or idle. -/
theorem step_represents (L : DriverDigests D F) {st : PsaKdfOperation × δ}
    (h : Represents F st.1 ph ∨ GivesNothing st.1) (c : KdfCall) :
    let r := (derivationMachine D).step st c
    Represents F r.2.1 (ph.after (c, r.1)) ∨ GivesNothing r.2.1 := by
  -- where no bytes are given out
  have hkeeps : ∀ {reply : KdfReply} {op : PsaKdfOperation}, reply.bytes = [] →
      KeepsPhase F ph (ph.next c []) reply.status op →
      Represents F op (ph.after (c, reply)) ∨ GivesNothing op := by
    intro reply op hbytes hkeeps
    unfold DerivationPhase.after
    by_cases hok : reply.status = .success
    · rw [if_pos hok, hbytes]
      exact .inl (hkeeps.1 hok)
    · rw [if_neg hok]
      exact hkeeps.2 hok
  cases c with
  | setup alg =>
    refine hkeeps rfl ?_
    rcases h with h | h
    · exact keeps_setup h alg
    · refine ⟨fun hok => ?_, fun hfailed => .inr ?_⟩
      · obtain ⟨halg, rfl, -, hserves, hctx⟩ := psaKdfSetup_ok hok
        have hnext : ph.next (.setup (.pbkdf2Hmac halg)) [] = .started halg := by cases ph <;> rfl
        rw [hnext]
        exact ⟨hserves, hctx⟩
      · obtain ⟨halg, hcapacity, -⟩ := psaKdfSetup_failed hfailed
        exact h.imp halg.trans hcapacity.trans
  | inputInteger step n =>
    rcases h with h | h
    · exact hkeeps rfl (keeps_inputInteger h step n)
    · exact .inr (givesNothing_inputInteger h step n)
  | inputBytes step data =>
    rcases h with h | h
    · exact hkeeps rfl (keeps_inputBytes L h step data)
    · exact .inr (givesNothing_inputBytes h step data)
  | outputBytes n =>
    show Represents F _ (ph.after (_, ⟨(psaKdfOutputBytes D st.1 n st.2).1.1, _⟩)) ∨ _
    unfold DerivationPhase.after
    by_cases hok : (psaKdfOutputBytes D st.1 n st.2).1.1 = .success
    · rw [if_pos hok]
      obtain ⟨halg, cost, salt, password, out, rfl, -, -, hstreams⟩ := streams_outputBytes L h hok
      exact .inl hstreams
    · rw [if_neg hok]
      rcases psaKdfOutputBytes_failed hok with hsame | hidle | ⟨hidle, hother⟩
      · show Represents F (psaKdfOutputBytes D st.1 n st.2).1.2.1 ph ∨
          GivesNothing (psaKdfOutputBytes D st.1 n st.2).1.2.1
        rw [hsame]
        exact h
      · exact .inr hidle
      · have h := h.resolve_right hidle
        by_cases hph : ph = .blank
        · subst hph
          exact absurd (.inl h) hidle
        · obtain ⟨halg, halgEq⟩ := h.alg hph
          exact absurd halgEq (hother halg)
  | abort => exact .inr (.inl rfl)

/-- What is given out goes on from where it was. -/
theorem step_exact (L : DriverDigests D F) {st : PsaKdfOperation × δ}
    (h : Represents F st.1 ph ∨ GivesNothing st.1) (hexact : ph.Exact F) (c : KdfCall) :
    (ph.after (c, ((derivationMachine D).step st c).1)).Exact F := by
  unfold DerivationPhase.after
  by_cases hok : ((derivationMachine D).step st c).1.status = .success
  swap
  · rwa [if_neg hok]
  rw [if_pos hok]
  -- only an output adds to what was given out
  by_cases hc : ∀ n, c ≠ .outputBytes n
  · exact exact_next hc ph _
  obtain ⟨n, hc⟩ := not_forall.mp hc
  obtain rfl := not_not.mp hc
  obtain ⟨halg, cost, salt, password, out, rfl, hout, hroom, hstreams⟩ := streams_outputBytes L h hok
  have hlength : (psaKdfOutputBytes D st.1 n st.2).1.2.2.length = n := by rw [hout, length_stretch]
  have hprf := hmacOf_length_driver L hstreams.serves.hash password
  have hpos := (psaHashLength_le_block hstreams.serves.hash).1
  show out ++ (psaKdfOutputBytes D st.1 n st.2).1.2.2 =
      derived (hmacOf F halg password) (psaHashLength halg) salt cost
        (out ++ (psaKdfOutputBytes D st.1 n st.2).1.2.2).length ∧
    (out ++ (psaKdfOutputBytes D st.1 n st.2).1.2.2).length ≤ 4294967295 * psaHashLength halg
  rw [List.length_append, hlength]
  refine ⟨?_, hroom⟩
  obtain ⟨hbefore, -⟩ := hexact
  rw [derived_eq_stretch hprf hpos] at hbefore ⊢
  rw [stretch_add, ← hbefore, Nat.zero_add, ← hout]

end

/-! ### A published key -/

/-- The password `password`, padded for the inner and for the outer hash. -/
def pbkdf2InnerPad : List Byte :=
  [0x46, 0x57, 0x45, 0x45, 0x41, 0x59, 0x44, 0x52] ++ List.replicate 56 0x36

def pbkdf2OuterPad : List Byte :=
  [0x2c, 0x3d, 0x2f, 0x2f, 0x2b, 0x33, 0x2e, 0x38] ++ List.replicate 56 0x5c

/-- The values of SHA-256 that two blocks of two iterations take, with the salt `salt`. -/
def pbkdf2Sha256 : List (List Byte × List Byte) :=
 [(pbkdf2InnerPad ++
      [0x73, 0x61, 0x6c, 0x74, 0x00, 0x00, 0x00, 0x01],
    [0x33, 0xd6, 0xb3, 0x76, 0xf2, 0x3b, 0x38, 0xd9, 0x13, 0x91, 0xe4, 0xff, 0x8c, 0x67, 0x6d, 0xab,
     0xd2, 0xa6, 0x30, 0xd1, 0xac, 0x9f, 0x63, 0xe7, 0xb0, 0x9f, 0x35, 0xa2, 0x96, 0xf4, 0x46, 0x6e]),
  (pbkdf2OuterPad ++
      [0x33, 0xd6, 0xb3, 0x76, 0xf2, 0x3b, 0x38, 0xd9, 0x13, 0x91, 0xe4, 0xff, 0x8c, 0x67, 0x6d, 0xab,
       0xd2, 0xa6, 0x30, 0xd1, 0xac, 0x9f, 0x63, 0xe7, 0xb0, 0x9f, 0x35, 0xa2, 0x96, 0xf4, 0x46, 0x6e],
    [0x12, 0x0f, 0xb6, 0xcf, 0xfc, 0xf8, 0xb3, 0x2c, 0x43, 0xe7, 0x22, 0x52, 0x56, 0xc4, 0xf8, 0x37,
     0xa8, 0x65, 0x48, 0xc9, 0x2c, 0xcc, 0x35, 0x48, 0x08, 0x05, 0x98, 0x7c, 0xb7, 0x0b, 0xe1, 0x7b]),
  (pbkdf2InnerPad ++
      [0x12, 0x0f, 0xb6, 0xcf, 0xfc, 0xf8, 0xb3, 0x2c, 0x43, 0xe7, 0x22, 0x52, 0x56, 0xc4, 0xf8, 0x37,
       0xa8, 0x65, 0x48, 0xc9, 0x2c, 0xcc, 0x35, 0x48, 0x08, 0x05, 0x98, 0x7c, 0xb7, 0x0b, 0xe1, 0x7b],
    [0xb5, 0x1c, 0xfb, 0x3b, 0x0a, 0x84, 0x20, 0xca, 0x32, 0x6e, 0x7b, 0x49, 0x8d, 0x79, 0xbe, 0x1e,
     0x03, 0x00, 0x14, 0x31, 0xe7, 0x7d, 0xf1, 0xe7, 0x78, 0x76, 0xcd, 0x10, 0x9a, 0x2c, 0x95, 0xe0]),
  (pbkdf2OuterPad ++
      [0xb5, 0x1c, 0xfb, 0x3b, 0x0a, 0x84, 0x20, 0xca, 0x32, 0x6e, 0x7b, 0x49, 0x8d, 0x79, 0xbe, 0x1e,
       0x03, 0x00, 0x14, 0x31, 0xe7, 0x7d, 0xf1, 0xe7, 0x78, 0x76, 0xcd, 0x10, 0x9a, 0x2c, 0x95, 0xe0],
    [0xbc, 0x42, 0xba, 0x5a, 0x53, 0x93, 0xf5, 0xff, 0x6e, 0xed, 0xfd, 0xab, 0x7e, 0x34, 0x95, 0xe7,
     0x82, 0x55, 0x77, 0x47, 0xdf, 0x0e, 0x64, 0x97, 0xde, 0xe7, 0x40, 0x26, 0x22, 0x4c, 0xad, 0x38]),
  (pbkdf2InnerPad ++
      [0x73, 0x61, 0x6c, 0x74, 0x00, 0x00, 0x00, 0x02],
    [0x18, 0xa9, 0x49, 0xa2, 0xc3, 0x50, 0x96, 0xc6, 0xf9, 0x35, 0xdc, 0x6b, 0x53, 0x2a, 0x51, 0xea,
     0x36, 0x2d, 0x3b, 0x18, 0xdb, 0xf8, 0x8d, 0x3d, 0x22, 0x60, 0xc1, 0x41, 0x52, 0x1e, 0x20, 0xe5]),
  (pbkdf2OuterPad ++
      [0x18, 0xa9, 0x49, 0xa2, 0xc3, 0x50, 0x96, 0xc6, 0xf9, 0x35, 0xdc, 0x6b, 0x53, 0x2a, 0x51, 0xea,
       0x36, 0x2d, 0x3b, 0x18, 0xdb, 0xf8, 0x8d, 0x3d, 0x22, 0x60, 0xc1, 0x41, 0x52, 0x1e, 0x20, 0xe5],
    [0x4d, 0xbf, 0x3a, 0x2f, 0x3d, 0xad, 0x33, 0x77, 0x26, 0x4b, 0xb7, 0xb8, 0xe8, 0x33, 0x0d, 0x4e,
     0xfc, 0x74, 0x51, 0x41, 0x86, 0x17, 0xda, 0xbe, 0xf6, 0x83, 0x73, 0x53, 0x61, 0xcd, 0xc1, 0x8c]),
  (pbkdf2InnerPad ++
      [0x4d, 0xbf, 0x3a, 0x2f, 0x3d, 0xad, 0x33, 0x77, 0x26, 0x4b, 0xb7, 0xb8, 0xe8, 0x33, 0x0d, 0x4e,
       0xfc, 0x74, 0x51, 0x41, 0x86, 0x17, 0xda, 0xbe, 0xf6, 0x83, 0x73, 0x53, 0x61, 0xcd, 0xc1, 0x8c],
    [0x7b, 0x75, 0xfd, 0x73, 0x6b, 0x05, 0xa4, 0xc3, 0x32, 0x74, 0xb0, 0x7f, 0xa0, 0xca, 0x54, 0x7e,
     0xa5, 0xb4, 0xbb, 0xd1, 0xda, 0x78, 0x76, 0xac, 0xbf, 0x86, 0xf5, 0x16, 0x2d, 0x05, 0xae, 0x4a]),
  (pbkdf2OuterPad ++
      [0x7b, 0x75, 0xfd, 0x73, 0x6b, 0x05, 0xa4, 0xc3, 0x32, 0x74, 0xb0, 0x7f, 0xa0, 0xca, 0x54, 0x7e,
       0xa5, 0xb4, 0xbb, 0xd1, 0xda, 0x78, 0x76, 0xac, 0xbf, 0x86, 0xf5, 0x16, 0x2d, 0x05, 0xae, 0x4a],
    [0xce, 0xb9, 0x6b, 0x80, 0xf6, 0xf1, 0xb5, 0x58, 0x2d, 0x6f, 0x2c, 0x68, 0xd9, 0xc4, 0xab, 0x3b,
     0xdc, 0xa5, 0x67, 0x06, 0x89, 0x49, 0x18, 0xcf, 0x1a, 0x6a, 0x6f, 0x54, 0x16, 0xff, 0x92, 0x55])]

/-- A hash that agrees with SHA-256 there. -/
def pbkdf2KnownHash (alg : PsaAlg) (m : List Byte) : List Byte :=
  match alg, pbkdf2Sha256.find? (fun e => e.1 == m) with
  | .sha256, some e => e.2
  | _, _ => List.replicate (psaHashLength alg) 0

/-- It has the lengths of the digests. -/
theorem pbkdf2KnownHash_length (alg : PsaAlg) (m : List Byte) :
    (pbkdf2KnownHash alg m).length = psaHashLength alg := by
  have hknown : ∀ e ∈ pbkdf2Sha256, e.2.length = 32 := by decide
  unfold pbkdf2KnownHash
  split
  · rename_i e he
    exact hknown e (List.mem_of_find?_eq_some he)
  · exact List.length_replicate

/-- The published key of two iterations. -/
def pbkdf2KnownKey : List Byte :=
  [0xae, 0x4d, 0x0c, 0x95, 0xaf, 0x6b, 0x46, 0xd3, 0x2d, 0x0a, 0xdf, 0xf9, 0x28, 0xf0, 0x6d, 0xd0,
   0x2a, 0x30, 0x3f, 0x8e, 0xf3, 0xc2, 0x51, 0xdf, 0xd6, 0xe2, 0xd8, 0x5a, 0x95, 0x47, 0x4c, 0x43]

/-- The published password and salt, a setup that is refused among them; and the key's first
bytes are taken. -/
def pbkdf2KnownCalls : List KdfCall :=
  [.setup (.pbkdf2Hmac .sha256), .inputInteger .cost 2, .setup (.pbkdf2Hmac .sha512),
    .inputBytes .salt [0x73, 0x61, 0x6c, 0x74],
    .inputBytes .password [0x70, 0x61, 0x73, 0x73, 0x77, 0x6f, 0x72, 0x64], .outputBytes 20]

/-! ### Runs from a new operation -/

/-- **A derivation gives out the derived key.**  However an operation is driven, and whatever of
it fails: what it has given out since it took its password is the beginning of the key that PBKDF2
derives from what it was given, and an output that succeeds continues it. -/
theorem derivation_exact {D : OneShotDriver δ HC MC} {F : PsaAlg → List Byte → List Byte}
    (L : DriverDigests D F) (s : δ) (calls : List KdfCall) :
    let M := derivationMachine D
    let ph := derivationPhase (M.log ({}, s) calls)
    (∀ halg cost salt password out, ph = .ready halg cost salt password out →
      out = derived (hmacOf F halg password) (psaHashLength halg) salt cost out.length ∧
        out.length ≤ 4294967295 * psaHashLength halg) ∧
    ∀ n, (M.step (M.after ({}, s) calls) (.outputBytes n)).1.status = .success →
      ∃ halg cost salt password out, ph = .ready halg cost salt password out ∧
        (M.step (M.after ({}, s) calls) (.outputBytes n)).1.bytes =
          (derived (hmacOf F halg password) (psaHashLength halg) salt cost (out.length + n)).drop
            out.length := by
  intro M ph
  -- the phase that the calls lead to is the one the operation is in
  have hstep : ∀ log (st : PsaKdfOperation × δ) c,
      (Represents F st.1 (derivationPhase log) ∨ GivesNothing st.1) ∧ (derivationPhase log).Exact F →
      let log' := log ++ [(c, (M.step st c).1)]
      (Represents F (M.step st c).2.1 (derivationPhase log') ∨ GivesNothing (M.step st c).2.1) ∧
        (derivationPhase log').Exact F := by
    intro log st c hinv log'
    have hphase : derivationPhase log' =
        (derivationPhase log).after (c, (M.step st c).1) := by
      unfold log' derivationPhase
      rw [List.foldl_append]
      rfl
    rw [hphase]
    exact ⟨step_represents L hinv.1 c, step_exact L hinv.1 hinv.2 c⟩
  have hrun : (Represents F (M.after ({}, s) calls).1 ph ∨ GivesNothing (M.after ({}, s) calls).1) ∧
      ph.Exact F := M.log_invariant (s := ({}, s)) hstep ⟨.inl rfl, trivial⟩ calls
  obtain ⟨hrepresents, hexact⟩ := hrun
  refine ⟨fun halg cost salt password out hph => ?_, fun n hok => ?_⟩
  · rwa [hph] at hexact
  · obtain ⟨halg, cost, salt, password, out, hph, hout, hroom, hstreams⟩ :=
      streams_outputBytes L hrepresents hok
    refine ⟨halg, cost, salt, password, out, hph, hout.trans ?_⟩
    have hprf := hmacOf_length_driver L hstreams.serves.hash password
    rw [derived_eq_stretch hprf (psaHashLength_le_block hstreams.serves.hash).1, stretch_add,
      Nat.zero_add, List.drop_left' (length_stretch 0 _)]

/-- Twenty bytes of the published key, and the twenty that follow, of which eight are the next
block's. -/
theorem derivation_exact_known :
    ((derivationMachine (steadyDriver pbkdf2KnownHash)).log ({}, 0) pbkdf2KnownCalls).map
      (·.2.status) = [.success, .success, .errorBadState, .success, .success, .success] ∧
    pbkdf2KnownKey.take 20 = derived (hmacOf pbkdf2KnownHash .sha256 [0x70, 0x61, 0x73, 0x73, 0x77,
      0x6f, 0x72, 0x64]) 32 [0x73, 0x61, 0x6c, 0x74] 2 20 ∧
    ((derivationMachine (steadyDriver pbkdf2KnownHash)).step
      ((derivationMachine (steadyDriver pbkdf2KnownHash)).after ({}, 0) pbkdf2KnownCalls)
      (.outputBytes 20)).1.bytes =
        pbkdf2KnownKey.drop 20 ++ [0x83, 0x06, 0x51, 0xaf, 0xcb, 0x5c, 0x86, 0x2f] := by
  have hF : ∀ alg m, alg.isHash = true → (pbkdf2KnownHash alg m).length = psaHashLength alg :=
    fun alg m _ => pbkdf2KnownHash_length alg m
  obtain ⟨hout, hnext⟩ := derivation_exact (steadyDigests hF) 0 pbkdf2KnownCalls
  have hphase : derivationPhase
      ((derivationMachine (steadyDriver pbkdf2KnownHash)).log ({}, 0) pbkdf2KnownCalls) =
      .ready .sha256 2 [0x73, 0x61, 0x6c, 0x74] [0x70, 0x61, 0x73, 0x73, 0x77, 0x6f, 0x72, 0x64]
        (pbkdf2KnownKey.take 20) := by decide +kernel
  have hlength : (pbkdf2KnownKey.take 20).length = 20 := rfl
  have hsize : psaHashLength .sha256 = 32 := rfl
  have hfirst := (hout _ _ _ _ _ hphase).1
  rw [hlength, hsize] at hfirst
  obtain ⟨halg, cost, salt, password, out, hready, hbytes⟩ := hnext 20 (by decide +kernel)
  obtain ⟨rfl, rfl, rfl, rfl, rfl⟩ := DerivationPhase.ready.inj (hphase.symm.trans hready)
  rw [hlength, hsize] at hbytes
  exact ⟨by decide +kernel, hfirst, hbytes.trans (by decide +kernel)⟩

end Zucrypt
