import Zucrypt.RValues

/-! # R functions, and connections

An R function works on R's state, of which the connections matter here, calls native code, and
returns a value or raises a condition.  `RFun` is such a function.

What a connection does is in the connection: what successive reads find, and how that ends.  A read
that finds nothing is at the end, or it is not: then the connection is not blocking, and has nothing
*yet*.  `isIncomplete` tells the two apart, for a function that asks.

`onExit` runs whatever happens before it, which is how the functions close what they have opened.
`key_input` is at the end: what it makes of a raw vector, a string or a connection is what the
readers of keys and signatures are given. -/
namespace Zucrypt
open Effects ByteMemory

variable {O : Objects} {α β : Type}

/-- How the reads of a connection end. -/
inductive Ending where
  | complete
  /-- nothing yet; `rest` is what is to come -/
  | pending (rest : List Byte)
  /-- reading fails -/
  | broken (message : String)
  deriving DecidableEq, Repr

/-- What comes of opening a connection. -/
inductive Opening where
  | works
  | warns (message : String)
  | fails (message : String)
  deriving DecidableEq, Repr

/-- A connection. -/
structure Connection where
  isOpen : Bool
  /-- what `isOpen` raises, of a connection that is no longer one -/
  invalid : Option String
  /-- what `open` does, of one that is not open -/
  opening : Opening
  /-- open for reading, once it is open -/
  canRead : Bool
  /-- in binary mode, once it is open -/
  binary : Bool
  /-- what successive reads find -/
  chunks : List (List Byte)
  ending : Ending
  chunks_ne : ∀ c ∈ chunks, c ≠ []

namespace Connection

/-- Everything the connection yields up to its end. -/
def contents (c : Connection) : List Byte :=
  c.chunks.flatten ++ match c.ending with
    | .pending rest => rest
    | _ => []

/-- `isIncomplete`, once a read has found nothing. -/
def isIncomplete (c : Connection) : Bool :=
  match c.ending with
  | .pending _ => true
  | _ => false

theorem isIncomplete_pending {c : Connection} {rest : List Byte} (h : c.ending = .pending rest) :
    c.isIncomplete = true := by
  rw [isIncomplete, h]

theorem isIncomplete_complete {c : Connection} (h : c.ending = .complete) : ¬ c.isIncomplete = true := by
  rw [isIncomplete, h]
  exact Bool.false_ne_true

/-- The connection once all has been read that there is. -/
def drained (c : Connection) : Connection := { c with chunks := [], chunks_ne := by simp }

def opened (c : Connection) : Connection := { c with isOpen := true }

/-- `close` destroys a connection. -/
def closed (c : Connection) : Connection := { c with isOpen := false, invalid := some "invalid connection" }

end Connection

/-- The connections of an R session. -/
structure RState where
  connection : Nat → Connection

/-- Change one connection. -/
def RState.update (st : RState) (i : Nat) (c : Connection) : RState :=
  ⟨fun j => if j = i then c else st.connection j⟩

theorem RState.connection_update (st : RState) (i : Nat) (c : Connection) :
    (st.update i c).connection i = c := if_pos rfl

theorem RState.connection_update_ne (st : RState) {i j : Nat} (hj : j ≠ i) (c : Connection) :
    (st.update i c).connection j = st.connection j := if_neg hj

theorem RState.update_update (st : RState) (i : Nat) (c d : Connection) :
    (st.update i c).update i d = st.update i d := by
  unfold RState.update
  congr 1
  funext j
  by_cases hj : j = i
  · rw [if_pos hj, if_pos hj]
  · rw [if_neg hj, if_neg hj]
    exact if_neg hj

/-- An R session without connections. -/
def noConnections : RState :=
  ⟨fun _ =>
    { isOpen := false, invalid := some "invalid connection", opening := .works, canRead := false,
      binary := false, chunks := [], ending := .complete, chunks_ne := by simp }⟩

/-- An R function. -/
def RFun (O : Objects) (α : Type) : Type 1 := RState → Adapter O (Except Condition α × RState)

namespace RFun

/-- The value of an expression. -/
def value (a : α) : RFun O α := fun st => pure (.ok a, st)

/-- `stop`. -/
def raise (c : Condition) : RFun O α := fun st => pure (.error c, st)

/-- One expression after another; a condition goes past the rest. -/
def seq (p : RFun O α) (f : α → RFun O β) : RFun O β := fun st => do
  let r ← p st
  match r.1 with
  | .error c => return (.error c, r.2)
  | .ok a => f a r.2

instance : Monad (RFun O) where
  pure := value
  bind := seq

/-- A check that calls nothing. -/
def check (e : Except Condition α) : RFun O α := fun st => pure (e, st)

/-- A call of native code. -/
def native (p : Adapter O α) : RFun O α := fun st => do
  let a ← p
  return (.ok a, st)

/-- Look at R's state. -/
def look (f : RState → α) : RFun O α := fun st => pure (.ok (f st), st)

/-- Change R's state. -/
def change (f : RState → RState) : RFun O Unit := fun st => pure (.ok (), f st)

/-- `on.exit`: however the function ends, the state is then changed. -/
def onExit (p : RFun O α) (f : RState → RState) : RFun O α := fun st => do
  let r ← p st
  return (r.1, f r.2)

end RFun

namespace RFun

variable (st : RState)

theorem pure_bind (a : α) (f : α → RFun O β) : (Pure.pure a >>= f : RFun O β) st = f a st := rfl

theorem check_ok_bind (a : α) (f : α → RFun O β) :
    (check (.ok a) >>= f : RFun O β) st = f a st := rfl

theorem look_bind (f : RState → α) (g : α → RFun O β) :
    (look f >>= g : RFun O β) st = g (f st) st := rfl

theorem change_bind (f : RState → RState) (g : Unit → RFun O β) :
    (change f >>= g : RFun O β) st = g () (f st) := rfl

theorem raise_bind (c : Condition) (f : α → RFun O β) :
    (raise c >>= f : RFun O β) st = Pure.pure (.error c, st) := rfl

theorem native_bind (p : Adapter O α) (f : α → RFun O β) :
    (native p >>= f : RFun O β) st = p >>= fun a => f a st := by
  funext w
  exact Program.bind_assoc _ _ _

theorem bind_assoc {γ : Type} (p : RFun O α) (f : α → RFun O β) (g : β → RFun O γ) :
    (p >>= f >>= g) st = (p >>= fun a => f a >>= g) st := by
  funext w
  refine (Program.bind_assoc _ _ _).trans (congrArg _ (funext fun r => ?_))
  obtain ⟨⟨r, st'⟩, w'⟩ := r
  cases r <;> rfl

end RFun

/-- An error of R's own. -/
def rError (message : String) : Condition := ⟨"simpleError", message, none, none⟩

/-- A new raw vector of these bytes. -/
def newRaw (bs : List Byte) : Adapter O Sexp := do
  let p ← allocRaw bs.length
  writeMem p bs
  return .raw p bs.length []

/-! ### Reading -/

/-- What a function takes as `file`, `data` or `sig`; strings are told apart by what
`key_input` does with them. -/
inductive Source where
  | sexp (x : Sexp)
  | connection (i : Nat)
  /-- a string with `-----BEGIN` in it -/
  | pemText (bytes : List Byte)
  /-- any other string, and the file of that name if there is one -/
  | path (contents : Option (List Byte))

/-- The loop of `key_input`: what it has read when a read finds nothing. -/
def readLoop (out : List Byte) : List (List Byte) → List Byte
  | [] => out
  | chunk :: chunks => readLoop (out ++ chunk) chunks

/-- `key_input`, of a connection that is open. -/
def readConnection (i : Nat) : RFun O Sexp := do
  let c ← RFun.look (·.connection i)
  if c.canRead = false then
    RFun.raise (rError "cannot read from this connection")
  else if c.binary = false then
    RFun.raise (rError "can only read from a binary connection")
  else
    RFun.change (·.update i c.drained)
    match c.ending with
    | .broken message => RFun.raise (rError message)
    | _ => RFun.native (newRaw (readLoop [] c.chunks))

/-- `key_input`. -/
def keyInput (file : Source) (arg : String) : RFun O Sexp := do
  match file with
  | .sexp (.raw ptr len attrs) => return .raw ptr len attrs
  | .connection i =>
    let c ← RFun.look (·.connection i)
    match c.invalid with
    | some message => RFun.raise (rError message)
    | none =>
      if c.isOpen then
        readConnection i
      else
        match c.opening with
        | .fails message => RFun.raise (rError message)
        | _ =>
          RFun.change (·.update i c.opened)
          RFun.onExit (readConnection i) fun st => st.update i (st.connection i).closed
  | .pemText bytes => RFun.native (newRaw bytes)
  | .path (some contents) => RFun.native (newRaw contents)
  | _ =>
    RFun.raise (zucryptAbort "zucrypt_invalid_argument"
      ("`" ++ arg ++ "` must be a raw vector, PEM text, the path of an existing file, " ++
        "or a connection.") none none)

end Zucrypt
