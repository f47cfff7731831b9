import Zucrypt.RFunctions

/-! # The call of a condition

A condition holds the call it is raised from, and R prints it.  `redact_call` of `R/conditions.R`
reduces a call to its function's name before it is stored.

A call is a tree: a function position, arguments with their tags, and attributes, all of them any
objects.  `V` is whatever else there is: functions and vectors, as `do.call` puts them into a call.

`condition_calls_reduced` is for both functions that raise (`Abort`), and for every such tree.  What
is stored is a call without arguments or attributes, of the name the caller's call had in its
function position, which may be qualified by a package; or `NULL`, where there was something else
than a name (`Reduced`).  And two calls that differ in arguments and attributes only raise the same
condition, so that nothing of them can be read off it.  Each call gives a condition but the one of
the empty symbol, where R stops inside `redact_call` with an error of its own.

`abortNativeCall_eq` connects it with the rest: but for its call the condition is the one the entry
points are said to raise elsewhere. -/
namespace Zucrypt

variable {V : Type}

mutual

/-- An R object, as far as `redact_call` looks into it. -/
inductive RExpr (V : Type) where
  | null
  /-- the empty symbol, which stands for an argument that is not there -/
  | missingArg
  | symbol (name : String)
  | call (fn : RExpr V) (args attrs : Pairlist V)
  | value (v : V)

/-- Objects with tags. -/
inductive Pairlist (V : Type) where
  | nil
  | cons (tag : Option String) (value : RExpr V) (rest : Pairlist V)

end

/-- The objects, in order. -/
def Pairlist.values : Pairlist V → List (RExpr V)
  | .nil => []
  | .cons _ value rest => value :: rest.values

namespace RExpr

/-- `is.symbol`. -/
def isSymbol : RExpr V → Bool
  | .missingArg => true
  | .symbol _ => true
  | _ => false

/-- `identical(x, as.name(name))`. -/
def isName (name : String) : RExpr V → Bool
  | .symbol s => s = name
  | _ => false

/-- A call as a list: its function position, and its arguments. -/
def elements : RExpr V → List (RExpr V)
  | .call fn args _ => fn :: args.values
  | _ => []

/-- `as.call(list(fn))`. -/
def bareCall (fn : RExpr V) : RExpr V := .call fn .nil .nil

/-- `named` of `redact_call`: a plain name, or `pkg::name` or `pkg:::name`. -/
def named (fn : RExpr V) : Bool :=
  fn.isSymbol ||
    match fn.elements with
    | [op, pkg, name] => (op.isName "::" || op.isName ":::") && pkg.isSymbol && name.isSymbol
    | _ => false

end RExpr

/-- `redact_call`.  A variable that holds the empty symbol cannot be looked at. -/
def redactCall : RExpr V → Except Condition (RExpr V)
  | .call .missingArg _ _ =>
    .error (rError "argument \"fn\" is missing, with no default")
  | .call fn _ _ => .ok (if fn.named then fn.bareCall else .null)
  | _ => .ok .null

/-- A condition with its call. -/
structure CallCondition (V : Type) where
  cls : String
  message : String
  call : RExpr V
  algorithm : Option String
  nativeStatus : Option Int

/-- What is raised: the condition that was made, or one of R's own in making it. -/
inductive Raised (V : Type) where
  | made (cond : CallCondition V)
  | own (cond : Condition)

/-- `zucrypt_abort`, with its `call`. -/
def zucryptAbortCall (cls message : String) (algorithm : Option String) (nativeStatus : Option Int)
    (call : RExpr V) : Raised V :=
  match redactCall call with
  | .error cond => .own cond
  | .ok call => .made ⟨cls, message, call, algorithm, nativeStatus⟩

/-- The number of an enumerator. -/
def statusCode : ZucStatus → Int
  | .ok => 0
  | .errInvalidArgument => 1
  | .errUnsupported => 2
  | .errBadLength => 3
  | .errOverlap => 4
  | .errMemory => 5
  | .errBackend => 6
  | .errAbi => 7
  | .errInternal => 8
  | .errNotReady => 9
  | .errEntropy => 10
  | .errAuth => 11

/-- `zucrypt_status_codes`, without the names. -/
def statusCodes : List ZucStatus :=
  [.ok, .errInvalidArgument, .errUnsupported, .errBadLength, .errOverlap, .errMemory, .errBackend,
    .errAbi, .errInternal, .errNotReady, .errEntropy, .errAuth]

/-- `match(status, codes)`. -/
def matchStatus (status : Int) : Option ZucStatus := statusCodes.find? (fun st => statusCode st = status)

/-- `abort_native`, with its `call`. -/
def abortNativeCall (status : Int) (algorithm : Option String) (call : RExpr V) : Raised V :=
  let unmapped := zucryptAbortCall "zucrypt_internal_error"
    ("The native layer returned an unmapped status (" ++ toString status ++ ").") algorithm
    (some status) call
  match matchStatus status with
  | none => unmapped
  | some .ok => unmapped
  | some st =>
    zucryptAbortCall ((zucStatusClass st).getD "zucrypt_internal_error")
      ("The cryptographic backend reported " ++ statusName st ++ ".") algorithm (some status) call

/-- A call of one of the two, but for its `call`. -/
inductive Abort where
  | zucryptAbort (cls message : String) (algorithm : Option String) (nativeStatus : Option Int)
  | abortNative (status : Int) (algorithm : Option String)

/-- What it raises. -/
def Abort.raise : Abort → RExpr V → Raised V
  | .zucryptAbort cls message algorithm nativeStatus, call =>
    zucryptAbortCall cls message algorithm nativeStatus call
  | .abortNative status algorithm, call => abortNativeCall status algorithm call

/-! ### What is in a call -/

mutual

/-- An object is the other, or is somewhere in it. -/
inductive Occurs : RExpr V → RExpr V → Prop
  | self (x : RExpr V) : Occurs x x
  | fn {x fn : RExpr V} {args attrs : Pairlist V} (h : Occurs x fn) : Occurs x (.call fn args attrs)
  | args {x fn : RExpr V} {args attrs : Pairlist V} (h : OccursIn x args) :
      Occurs x (.call fn args attrs)
  | attrs {x fn : RExpr V} {args attrs : Pairlist V} (h : OccursIn x attrs) :
      Occurs x (.call fn args attrs)

/-- An object is somewhere in a list. -/
inductive OccursIn : RExpr V → Pairlist V → Prop
  | here {x value : RExpr V} {tag : Option String} {rest : Pairlist V} (h : Occurs x value) :
      OccursIn x (.cons tag value rest)
  | later {x value : RExpr V} {tag : Option String} {rest : Pairlist V} (h : OccursIn x rest) :
      OccursIn x (.cons tag value rest)

end

/-- In a call without arguments there is nothing but its function position. -/
theorem occurs_bareCall {x fn : RExpr V} : Occurs x fn.bareCall ↔ x = fn.bareCall ∨ Occurs x fn := by
  constructor
  · intro h
    cases h with
    | self => exact .inl rfl
    | fn h => exact .inr h
    | args h => nomatch h
    | attrs h => nomatch h
  · rintro (rfl | h)
    · exact .self _
    · exact .fn h

/-- In `NULL` there is nothing but itself. -/
theorem occurs_null {x : RExpr V} : Occurs x .null ↔ x = .null := by
  constructor
  · rintro ⟨⟩
    rfl
  · rintro rfl
    exact .self _

/-- A name, or a reference to one in a package. -/
inductive NameReference : RExpr V → Prop
  | plain {x : RExpr V} (h : x.isSymbol = true) : NameReference x
  | exported {pkg name : RExpr V} {t t' : Option String} {attrs : Pairlist V}
      (hpkg : pkg.isSymbol = true) (hname : name.isSymbol = true) :
      NameReference (.call (.symbol "::") (.cons t pkg (.cons t' name .nil)) attrs)
  | internal {pkg name : RExpr V} {t t' : Option String} {attrs : Pairlist V}
      (hpkg : pkg.isSymbol = true) (hname : name.isSymbol = true) :
      NameReference (.call (.symbol ":::") (.cons t pkg (.cons t' name .nil)) attrs)

/-- A name is told by its symbol. -/
theorem isName_iff {name : String} {x : RExpr V} : x.isName name = true ↔ x = .symbol name := by
  cases x with
  | symbol s => simp [RExpr.isName]
  | _ => simp [RExpr.isName]

/-- `named` is true of nothing else. -/
theorem RExpr.named_iff {fn : RExpr V} : fn.named = true ↔ NameReference fn := by
  constructor
  · intro h
    rcases Bool.or_eq_true_iff.mp h with hsymbol | hreference
    · exact .plain hsymbol
    · cases fn with
      | call op args attrs =>
        -- two operands, and no more
        cases args with
        | nil => exact nomatch hreference
        | cons tag pkg rest =>
          cases rest with
          | nil => exact nomatch hreference
          | cons tag' name rest =>
            cases rest with
            | cons => exact nomatch hreference
            | nil =>
              have hops : ((op.isName "::" || op.isName ":::") && pkg.isSymbol && name.isSymbol) = true :=
                hreference
              rw [Bool.and_eq_true, Bool.and_eq_true, Bool.or_eq_true] at hops
              obtain ⟨⟨hop, hpkg⟩, hname⟩ := hops
              rcases hop with hop | hop
              · obtain rfl := isName_iff.mp hop
                exact .exported hpkg hname
              · obtain rfl := isName_iff.mp hop
                exact .internal hpkg hname
      | _ => exact nomatch hreference
  · intro h
    cases h with
    | plain h => simp [RExpr.named, h]
    | exported hpkg hname => simp [RExpr.named, elements, Pairlist.values, isName, hpkg, hname]
    | internal hpkg hname => simp [RExpr.named, elements, Pairlist.values, isName, hpkg, hname]

/-! ### What is stored -/

/-- The call stored for `e` has no argument, and nothing of `e` but its function position;
to reduce it again changes nothing. -/
structure Reduced (e call : RExpr V) : Prop where
  bare : call = .null ∨ ∃ fn, NameReference fn ∧ call = fn.bareCall
  fromHead : ∀ x, Occurs x call → x = call ∨ ∃ fn args attrs, e = .call fn args attrs ∧ Occurs x fn
  again : redactCall call = .ok call

/-- `NULL` holds no argument. -/
theorem reduced_null (e : RExpr V) : Reduced e .null where
  bare := .inl rfl
  fromHead _ hx := .inl (occurs_null.mp hx)
  again := rfl

/-- What a call of `fn` is reduced to. -/
theorem redactCall_call {fn : RExpr V} (hfn : fn ≠ .missingArg) (args attrs : Pairlist V) :
    redactCall (.call fn args attrs) = .ok (if fn.named then fn.bareCall else .null) := by
  cases fn with
  | missingArg => exact absurd rfl hfn
  | _ => rfl

/-- What `redact_call` gives is reduced. -/
theorem reduced_redactCall {e call : RExpr V} (h : redactCall e = .ok call) : Reduced e call := by
  cases e with
  | call fn args attrs =>
    have hfn : fn ≠ .missingArg := by
      rintro rfl
      exact nomatch h
    rw [redactCall_call hfn] at h
    by_cases hnamed : fn.named = true
    · rw [if_pos hnamed] at h
      obtain rfl := Except.ok.inj h
      constructor
      case bare => exact .inr ⟨fn, RExpr.named_iff.mp hnamed, rfl⟩
      case fromHead =>
        intro x hx
        exact (occurs_bareCall.mp hx).imp id fun hx => ⟨fn, args, attrs, rfl, hx⟩
      case again =>
        -- the function position is the same, so it is kept again
        rw [RExpr.bareCall, redactCall_call hfn, if_pos hnamed]
        rfl
    · rw [if_neg hnamed] at h
      obtain rfl := Except.ok.inj h
      exact reduced_null _
  | _ =>
    obtain rfl := Except.ok.inj h
    exact reduced_null _

/-- A call is not reduced exactly if its function position is the empty symbol. -/
theorem redactCall_error {e : RExpr V} {cond : Condition} (h : redactCall e = .error cond) :
    ∃ args attrs, e = .call .missingArg args attrs := by
  cases e with
  | call fn args attrs =>
    cases fn with
    | missingArg => exact ⟨args, attrs, rfl⟩
    | _ => exact nomatch h
  | _ => exact nomatch h

/-- Either function does no more with its `call` than reduce it. -/
theorem Abort.raise_eq (a : Abort) : ∃ made : RExpr V → CallCondition V,
    (∀ call, (made call).call = call) ∧ ∀ e, a.raise e = match redactCall e with
      | .error cond => .own cond
      | .ok call => .made (made call) := by
  cases a with
  | zucryptAbort cls message algorithm nativeStatus =>
    exact ⟨fun call => ⟨cls, message, call, algorithm, nativeStatus⟩, fun _ => rfl, fun _ => rfl⟩
  | abortNative status algorithm =>
    simp only [Abort.raise, abortNativeCall]
    cases matchStatus status with
    | none => exact ⟨fun call => ⟨_, _, call, _, _⟩, fun _ => rfl, fun _ => rfl⟩
    | some st => cases st <;> exact ⟨fun call => ⟨_, _, call, _, _⟩, fun _ => rfl, fun _ => rfl⟩

/-- What `abort_native` raises for a status is, but for its call, what the entry points are
said to raise. -/
theorem abortNativeCall_eq (st : ZucStatus) (algorithm : Option String) {e call : RExpr V}
    (h : redactCall e = .ok call) :
    abortNativeCall (statusCode st) algorithm e =
      .made ⟨(abortNative st algorithm).cls, (abortNative st algorithm).message, call,
        (abortNative st algorithm).algorithm, some (statusCode st)⟩ := by
  have hmatch : matchStatus (statusCode st) = some st := by cases st <;> rfl
  simp only [abortNativeCall, hmatch]
  cases st <;> simp only [zucryptAbortCall, h] <;> rfl

/-- **No condition call carries an argument.**  Whatever the call is, what is stored of it
is its function's name at most; and two calls of one function raise the same condition,
whatever their arguments.  A condition is made of every call but one of the empty symbol. -/
theorem condition_calls_reduced (a : Abort) (e : RExpr V) :
    (∀ cond, a.raise e = .made cond → Reduced e cond.call) ∧
    (∀ fn args args' attrs attrs',
      (a.raise (.call fn args attrs) : Raised V) = a.raise (.call fn args' attrs')) ∧
    ((∃ cond, a.raise e = .made cond) ∨ ∃ args attrs, e = .call .missingArg args attrs) := by
  obtain ⟨made, hcall, hraise⟩ := a.raise_eq (V := V)
  refine ⟨fun cond h => ?_, fun fn args args' attrs attrs' => ?_, ?_⟩
  · rw [hraise] at h
    cases hreduced : redactCall e with
    | error c =>
      rw [hreduced] at h
      exact nomatch h
    | ok call =>
      rw [hreduced] at h
      cases h
      rw [hcall]
      exact reduced_redactCall hreduced
  · rw [hraise, hraise]
    cases fn <;> rfl
  · rw [hraise]
    cases hreduced : redactCall e with
    | error c => exact .inr (redactCall_error hreduced)
    | ok call => exact .inl ⟨made call, rfl⟩

end Zucrypt
