import Zucrypt.ChunkedCalls
import Zucrypt.RFunctions

/-! # Digests and HMAC in R

`R/hash.R`: `crypt_hash` and `crypt_hmac`, of a raw vector or of a connection, which
`digest_connection` reads to its end. -/
namespace Zucrypt
open Effects ByteMemory

variable {O : Objects} {α : Type}

/-! ### Arguments -/

/-- What an argument is to `is.raw` and to `class`; a string is of class `character`. -/
def Source.argument : Source → Sexp
  | .sexp x => x
  | .connection _ => .other "connection"
  | _ => .other "character"

/-- `check_raw`, where a connection is accepted too. -/
def checkRawOrConnection (x : Sexp) (arg : String) : Except Condition Unit :=
  if x.isRaw = false then
    .error (zucryptAbort "zucrypt_invalid_argument"
      ("`" ++ arg ++ "` must be a raw vector or a connection, not " ++ x.className ++ ". " ++
        "Use charToRaw() to convert a string deliberately; " ++
        "this package never guesses an encoding, and never " ++
        "treats a string as a file name (pass file(path) for a file).") none none)
  else
    .ok ()

/-- `available_algorithms`, from `zucrypt_algorithms`. -/
def availableAlgorithms : List String :=
  ["sha1", "sha256", "sha384", "sha512"].filter
    (fun name => zucIntDigestAvailable (zucAlgByName (some name)))

/-- A character as `encodeString` writes it between double quotes. -/
def encodeChar (c : Char) : List Char :=
  match c with
  | '"' => ['\\', '"']
  | '\\' => ['\\', '\\']
  | '\n' => ['\\', 'n']
  | '\r' => ['\\', 'r']
  | '\t' => ['\\', 't']
  | c => [c]

/-- `encodeString(x, quote = '"')`, of printable text. -/
def encodeString (s : String) : String := String.ofList ('"' :: s.toList.flatMap encodeChar ++ ['"'])

/-- `check_algorithm`; `none` is what is not a single string. -/
def checkAlgorithm (algorithm : Option String) : Except Condition String :=
  match algorithm with
  | none =>
    .error (zucryptAbort "zucrypt_invalid_argument"
      "`algorithm` must be a single, non-missing algorithm name." none none)
  | some name =>
    if availableAlgorithms.contains name = false then
      .error (zucryptAbort "zucrypt_unsupported_algorithm"
        ("Unknown algorithm " ++ encodeString name ++ ". Available: " ++
          ", ".intercalate availableAlgorithms ++ ".") (some name) none)
    else
      .ok name

/-! ### Connections -/

/-- What R makes of leaving an entry point. -/
def jumpCondition : Condition := ⟨"interrupt", "", none, none⟩

/-- A call of an entry point, on R's heap. -/
def RFun.entry (p : Entry O α) (H : RHeap O) : RFun O (α × RHeap O) := fun st => do
  let r ← p H
  match r.1 with
  | none => return (.error jumpCondition, st)
  | some a => return (.ok (a, r.2), st)

/-- A connection after its next read. -/
def Connection.advanced (c : Connection) : Connection :=
  { c with chunks := c.chunks.tail, chunks_ne := fun x hx => c.chunks_ne x (List.mem_of_mem_tail hx) }

/-- An error of `digest_connection`. -/
def connectionError (message algorithm : String) : Condition :=
  zucryptAbort "zucrypt_connection_error" message (some algorithm) none

/-- The loop of `digest_connection`, over what reading finds. -/
def feedLoop (i : Nat) (algorithm : String) (stream : Nat) (H : RHeap O) :
    List (List Byte) → RFun O (RHeap O)
  | [] => return H
  | chunk :: chunks => do
    RFun.change fun st => st.update i (st.connection i).advanced
    let x ← RFun.native (newRaw chunk)
    let r ← RFun.entry (zucryptStreamUpdate stream x) H
    if r.1 ≠ .ok then
      RFun.raise (abortNative r.1 (some algorithm))
    else
      feedLoop i algorithm stream r.2 chunks

/-- The stream `digest_connection` opens. -/
def digestStream (algorithm : String) (key : Option Sexp) : Entry O (ZucStatus × Option Nat) :=
  match key with
  | none => zucryptHashStreamNew algorithm
  | some key => zucryptHmacStreamNew key algorithm

/-- `digest_connection`, of a connection that is open. -/
def digestOpen (i : Nat) (algorithm : String) (key : Option Sexp) (H : RHeap O) : RFun O Sexp := do
  let c ← RFun.look (·.connection i)
  if c.canRead = false ∨ c.binary = false then
    RFun.raise (zucryptAbort "zucrypt_invalid_argument"
      ("The connection must be readable and in binary mode (\"rb\"). " ++
        "A text-mode connection may re-encode the bytes before they " ++
        "are hashed; open it with open = \"rb\", or pass it unopened.") (some algorithm) none)
  else
    let res ← RFun.entry (digestStream algorithm key) H
    match res.1 with
    | (.ok, some stream) =>
      let H ← feedLoop i algorithm stream res.2 c.chunks
      match c.ending with
      | .broken message => RFun.raise (rError message)
      | _ =>
        if c.isIncomplete then
          RFun.raise (connectionError
            ("The connection had no more data available before its end " ++
              "(is it non-blocking?); hashing a prefix would be wrong.") algorithm)
        else
          let res ← RFun.entry (zucryptStreamFinish stream) H
          if res.1.status ≠ .ok then
            RFun.raise (abortNative res.1.status (some algorithm))
          else
            return res.1.value
    | (status, _) => RFun.raise (abortNative status (some algorithm))

/-- `digest_connection`.  A connection that `open` has failed on is closed too. -/
def digestConnection (i : Nat) (algorithm : String) (key : Option Sexp) (H : RHeap O) :
    RFun O Sexp := do
  let c ← RFun.look (·.connection i)
  match c.invalid with
  | some message =>
    RFun.raise (connectionError ("Not a usable connection: " ++ message) algorithm)
  | none =>
    if c.isOpen then
      digestOpen i algorithm key H
    else
      let body : RFun O Sexp :=
        match c.opening with
        | .warns message | .fails message =>
          RFun.raise (connectionError
            ("Cannot open the connection for reading: " ++ message) algorithm)
        | .works => do
          RFun.change (·.update i c.opened)
          digestOpen i algorithm key H
      RFun.onExit body fun st => st.update i (st.connection i).closed

/-! ### The functions -/

/-- What a one-shot entry point returned. -/
def digestValue (algorithm : String) (res : NativeResult) : RFun O Sexp :=
  if res.status ≠ .ok then
    RFun.raise (abortNative res.status (some algorithm))
  else
    return res.value

/-- `crypt_hash`. -/
def cryptHash (data : Source) (algorithm : Option String) (H : RHeap O) : RFun O Sexp := do
  match data with
  | .connection i =>
    let algorithm ← RFun.check (checkAlgorithm algorithm)
    digestConnection i algorithm none H
  | data =>
    RFun.check (checkRawOrConnection data.argument "data")
    let algorithm ← RFun.check (checkAlgorithm algorithm)
    let res ← RFun.entry (zucryptHash data.argument algorithm) H
    digestValue algorithm res.1

/-- `crypt_hmac`. -/
def cryptHmac (data : Source) (key : Sexp) (algorithm : Option String) (H : RHeap O) :
    RFun O Sexp := do
  match data with
  | .connection i =>
    RFun.check (checkRaw key "key" none)
    let algorithm ← RFun.check (checkAlgorithm algorithm)
    digestConnection i algorithm (some key) H
  | data =>
    RFun.check (checkRawOrConnection data.argument "data")
    RFun.check (checkRaw key "key" none)
    let algorithm ← RFun.check (checkAlgorithm algorithm)
    let res ← RFun.entry (zucryptHmac data.argument key algorithm) H
    digestValue algorithm res.1

end Zucrypt
