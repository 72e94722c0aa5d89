import EasyWebServer.Lib.CString

/-!
# What the connection classes share

The two `http_conn.h` declare the same `CHECK_STATE`, `HTTP_CODE` and `LINE_STATUS`, and the
servers call the same system calls.  Their types are here, with the loop over `recv` that
`read_once` of the POST server and `read` of the GET server both are.

Undefined behaviour that the C++ code can reach is a `Fault`: a function that
would dereference a null pointer or leave an array answers a fault instead of a
state.
-/

namespace EasyWebServer

open CString

/-! ## Enumerations -/

/-- `CHECK_STATE`: the state of the main state machine. -/
inductive CheckState where
  | requestLine | header | content
  deriving DecidableEq, Repr

/-- `HTTP_CODE`: the outcomes of parsing a request. -/
inductive HttpCode where
  | noRequest | getRequest | badRequest | noResource | forbiddenRequest
  | fileRequest | internalError | closedConnection
  deriving DecidableEq, Repr

/-- The codes that a request can end with.  `INTERNAL_ERROR` is the `default`
case of the `switch` in `process_read`. -/
def FinalCode (code : HttpCode) : Prop :=
  code = .badRequest ∨ code = .noResource ∨ code = .forbiddenRequest ∨
    code = .fileRequest ∨ code = .internalError

instance (code : HttpCode) : Decidable (FinalCode code) :=
  inferInstanceAs (Decidable (_ ∨ _ ∨ _ ∨ _ ∨ _))

/-- `LINE_STATUS`: the outcomes of the line scanner. -/
inductive LineStatus where
  | lineOk | lineBad | lineOpen
  deriving DecidableEq, Repr

/-- The byte `'/'`. -/
def slash : UInt8 := 47

/-! ## Faults -/

/-- Undefined behaviour of the C++ code. -/
inductive Fault where
  /-- A null or uninitialised pointer is dereferenced. -/
  | nullPointer
  /-- An index leaves the array it is used on. -/
  | outOfBounds
  /-- The loop bound of the model ran out.  `ProcessRead` proves that it never
  does. -/
  | outOfFuel
  deriving DecidableEq, Repr

/-- Use a pointer that may be null. -/
def deref {α : Type} : Option α → Except Fault α
  | some a => .ok a
  | none => .error .nullPointer

theorem deref_eq_ok {α : Type} {pointer : Option α} {a : α} (h : deref pointer = .ok a) :
    pointer = some a := by
  cases pointer with
  | none => cases h
  | some b =>
    cases h
    rfl

/-- A fallible computation that succeeds has succeeded in its first step. -/
theorem bind_eq_ok {α β : Type} {x : Except Fault α} {f : α → Except Fault β}
    {r : β} (h : (x >>= f) = .ok r) : ∃ a, x = .ok a ∧ f a = .ok r := by
  cases x with
  | error e => cases h
  | ok a => exact ⟨a, rfl, h⟩

/-! ## The file that answers a request -/

/-- The members of `struct stat` that `do_request` reads. -/
structure FileStat where
  /-- `st_size`, not negative for a regular file. -/
  size : Nat
  /-- `st_mode & S_IROTH`. -/
  othersRead : Bool
  /-- `S_ISDIR(st_mode)`. -/
  isDir : Bool
  deriving DecidableEq, Repr

/-- `m_file_address`: null, `MAP_FAILED`, or the address of a mapping. -/
inductive FileAddress where
  | null
  | mapFailed
  | mapped (address : Nat)
  deriving DecidableEq, Repr

/-- What an `iov_base` points at: an offset from `m_write_buf` or from
`m_file_address`. -/
inductive IovBase where
  | writeBuf (offset : Int)
  | file (offset : Int)
  deriving DecidableEq, Repr

/-- `struct iovec`. -/
structure Iovec where
  base : IovBase
  len : Nat
  deriving DecidableEq, Repr

/-- The location `i` bytes behind another. -/
def IovBase.shift : IovBase → Nat → IovBase
  | .writeBuf offset, i => .writeBuf (offset + i)
  | .file offset, i => .file (offset + i)

/-- The locations that a vector describes. -/
def Iovec.locs (v : Iovec) : List IovBase := (List.range v.len).map v.base.shift

/-! ## recv -/

/-- What a call of `recv` returns. -/
inductive RecvOutcome where
  /-- `-1` with `EAGAIN` or `EWOULDBLOCK`. -/
  | again
  /-- `-1` with another `errno`. -/
  | error
  /-- `0`: the peer has closed the connection. -/
  | closed
  /-- A positive count, with the bytes. -/
  | data (d : Bytes)
  deriving DecidableEq, Repr

namespace Common

section

variable {χ : Type} (recv : χ → Bytes → χ)

/-- The loop of `read_once` and of `read` over the outcomes of its `recv` calls, `recv` being
what the connection does with received bytes.  The answer is `none` while the loop waits for
another outcome. -/
def readLoop (c : χ) : List RecvOutcome → Option (Bool × χ)
  | [] => none
  | .again :: _ => some (true, c)
  | .error :: _ => some (false, c)
  | .closed :: _ => some (false, c)
  | .data d :: rest => readLoop (recv c d) rest

variable {recv}

/-- What `recv` keeps, the loop keeps. -/
theorem readLoop_inv {inv : χ → Prop} (hrecv : ∀ c d, inv c → inv (recv c d))
    (os : List RecvOutcome) : ∀ {c c' : χ} {ok : Bool},
      inv c → readLoop recv c os = some (ok, c') → inv c' := by
  induction os with
  | nil =>
      intro c c' ok _ hr
      cases hr
  | cons o os ih =>
      intro c c' ok h hr
      cases o with
      | again =>
          cases hr
          exact h
      | error =>
          cases hr
          exact h
      | closed =>
          cases hr
          exact h
      | data d => exact ih (hrecv c d h) hr

end

end Common

end EasyWebServer
