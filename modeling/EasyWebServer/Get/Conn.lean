import EasyWebServer.Common.Conn
import EasyWebServer.Lib.CInt
import EasyWebServer.Lib.CharBuf

/-!
# The connection object of the GET server

`HttpConn` is `class http_conn` of `GET-WebServer/inc/http_conn.h`, modelled as the
one of the POST server.  What the two headers share is in `EasyWebServer.Common.Conn`.

The class has no `cgi` and no `m_string`, and `write` keeps its progress in local
variables.  `m_address` is absent: no modelled function reads it.
-/

namespace EasyWebServer.Get

open CString

/-- `METHOD`.  The parser sets `GET` only. -/
inductive Method where
  | get | post | head | put | delete | trace | options | connect | patch
  deriving DecidableEq, Repr

/-- `FILENAME_LEN`. -/
def FILENAME_LEN : Nat := 200
/-- `READ_BUFFER_SIZE`. -/
def READ_BUFFER_SIZE : Nat := 2048
/-- `WRITE_BUFFER_SIZE`. -/
def WRITE_BUFFER_SIZE : Nat := 1024

/-! ## The connection -/

/-- `class http_conn`. -/
structure HttpConn where
  /-- `m_sockfd`, with `none` for `-1`. -/
  sockfd : Option Nat
  readBuf : CharBuf READ_BUFFER_SIZE
  readIdx : Nat
  checkedIdx : Nat
  startLine : Nat
  writeBuf : CharBuf WRITE_BUFFER_SIZE
  writeIdx : Nat
  checkState : CheckState
  method : Method
  realFile : CharBuf FILENAME_LEN
  url : Option Nat
  version : Option Nat
  host : Option Nat
  contentLength : Int
  linger : Bool
  fileAddress : FileAddress
  fileStat : FileStat
  iv0 : Iovec
  iv1 : Iovec
  ivCount : Nat

namespace HttpConn

/-- The private `init()`.  `m_file_address`, `m_file_stat`, `m_iv` and `m_iv_count`
keep the values they have. -/
def init (c : HttpConn) : HttpConn :=
  { c with
    checkState := .requestLine
    linger := false
    method := .get
    url := none
    version := none
    contentLength := 0
    host := none
    startLine := 0
    checkedIdx := 0
    readIdx := 0
    writeIdx := 0
    readBuf := CharBuf.zero READ_BUFFER_SIZE
    writeBuf := CharBuf.zero WRITE_BUFFER_SIZE
    realFile := CharBuf.zero FILENAME_LEN }

/-- A connection object as `new http_conn[MAX_FD]` leaves it, with every
uninitialised member at zero. -/
def blank : HttpConn where
  sockfd := none
  readBuf := CharBuf.zero READ_BUFFER_SIZE
  readIdx := 0
  checkedIdx := 0
  startLine := 0
  writeBuf := CharBuf.zero WRITE_BUFFER_SIZE
  writeIdx := 0
  checkState := .requestLine
  method := .get
  realFile := CharBuf.zero FILENAME_LEN
  url := none
  version := none
  host := none
  contentLength := 0
  linger := false
  fileAddress := .null
  fileStat := ⟨0, false, false⟩
  iv0 := ⟨.writeBuf 0, 0⟩
  iv1 := ⟨.file 0, 0⟩
  ivCount := 0

/-- `get_line()`. -/
def getLine (c : HttpConn) : Nat := c.startLine

/-- The memory a pointer into `m_read_buf` points at. -/
def text (c : HttpConn) (i : Nat) : Bytes := c.readBuf.view i

/-- `m_read_buf[i] = b`. -/
def store (c : HttpConn) (i : Nat) (b : UInt8) : HttpConn :=
  { c with readBuf := c.readBuf.set i b }

/-- The effect of one `recv` of `read` that returns the bytes `d`. -/
def recv (c : HttpConn) (d : Bytes) : HttpConn :=
  { c with
    readBuf := c.readBuf.write c.readIdx d
    readIdx := c.readIdx + d.length }

end HttpConn

/-! ## read -/

/-- The loop of `read` over the outcomes of its `recv` calls.  The answer is `none`
while the loop waits for another outcome. -/
def readLoop (c : HttpConn) (outcomes : List RecvOutcome) : Option (Bool × HttpConn) :=
  Common.readLoop HttpConn.recv c outcomes

/-- `read`. -/
def read (c : HttpConn) (outcomes : List RecvOutcome) : Option (Bool × HttpConn) :=
  if READ_BUFFER_SIZE ≤ c.readIdx then some (false, c)
  else readLoop c outcomes

end EasyWebServer.Get
