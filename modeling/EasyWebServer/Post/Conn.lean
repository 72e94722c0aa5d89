import EasyWebServer.Common.Conn
import EasyWebServer.Lib.CharBuf
import EasyWebServer.Lib.CInt

/-!
# The connection object of the POST server

`HttpConn` is `class http_conn` of `inc/http_conn.h`.  The three character
arrays are `CharBuf`s, so their sizes are part of the type.  A `char *` member
that points into `m_read_buf` is the index it points at, and `none` is the null
pointer.  `m_iv[i].iov_base` points into `m_write_buf` or into the mapped file,
and `IovBase` is the pair of the object and the offset.

`m_address` and `mysql` are absent: no modelled function reads them.  The
worker that calls `process` sets `mysql`, and the outcome of a query made on it
is part of the environment of `do_request`.
-/

namespace EasyWebServer.Post

open CString CInt

/-- `METHOD`.  The parser sets the first two values only. -/
inductive Method where
  | get | post | head | put | delete | trace | options | connect | path
  deriving DecidableEq, Repr

/-- `FILENAME_LEN`. -/
def FILENAME_LEN : Nat := 200
/-- `READ_BUFFER_SIZE`. -/
def READ_BUFFER_SIZE : Nat := 2048
/-- `WRITE_BUFFER_SIZE`. -/
def WRITE_BUFFER_SIZE : Nat := 1024

/-! ## The connection -/

/-- `class http_conn`. -/
structure HttpConn where
  /-- `m_sockfd`, with `none` for `-1`. -/
  sockfd : Option Nat
  readBuf : CharBuf READ_BUFFER_SIZE
  readIdx : Nat
  checkedIdx : Nat
  startLine : Nat
  writeBuf : CharBuf WRITE_BUFFER_SIZE
  writeIdx : Nat
  checkState : CheckState
  method : Method
  realFile : CharBuf FILENAME_LEN
  url : Option Nat
  version : Option Nat
  host : Option Nat
  contentLength : Int
  linger : Bool
  fileAddress : FileAddress
  fileStat : FileStat
  iv0 : Iovec
  iv1 : Iovec
  ivCount : Nat
  cgi : Nat
  /-- `m_string`, the pointer to the request body. -/
  string : Option Nat
  bytesToSend : Int
  bytesHaveSend : Int

namespace HttpConn

/-- The private `init()`.  `m_string`, `m_file_address`, `m_file_stat`, `m_iv`
and `m_iv_count` keep the values they have. -/
def init (c : HttpConn) : HttpConn :=
  { c with
    bytesToSend := 0
    bytesHaveSend := 0
    cgi := 0
    checkState := .requestLine
    linger := false
    method := .get
    url := none
    version := none
    contentLength := 0
    host := none
    startLine := 0
    checkedIdx := 0
    readIdx := 0
    writeIdx := 0
    readBuf := CharBuf.zero READ_BUFFER_SIZE
    writeBuf := CharBuf.zero WRITE_BUFFER_SIZE
    realFile := CharBuf.zero FILENAME_LEN }

/-- The members of `init(sockfd, addr)`.  The registration in epoll and the
user count are steps of the server. -/
def initSockfd (c : HttpConn) (sockfd : Nat) : HttpConn :=
  init { c with sockfd := some sockfd }

/-- A connection object as `new http_conn[MAX_FD]` leaves it, with every
uninitialised member at zero. -/
def blank : HttpConn where
  sockfd := none
  readBuf := CharBuf.zero READ_BUFFER_SIZE
  readIdx := 0
  checkedIdx := 0
  startLine := 0
  writeBuf := CharBuf.zero WRITE_BUFFER_SIZE
  writeIdx := 0
  checkState := .requestLine
  method := .get
  realFile := CharBuf.zero FILENAME_LEN
  url := none
  version := none
  host := none
  contentLength := 0
  linger := false
  fileAddress := .null
  fileStat := ⟨0, false, false⟩
  iv0 := ⟨.writeBuf 0, 0⟩
  iv1 := ⟨.file 0, 0⟩
  ivCount := 0
  cgi := 0
  string := none
  bytesToSend := 0
  bytesHaveSend := 0

/-- `get_line()`. -/
def getLine (c : HttpConn) : Nat := c.startLine

/-- The memory a pointer into `m_read_buf` points at. -/
def text (c : HttpConn) (i : Nat) : Bytes := c.readBuf.view i

/-- `m_read_buf[i] = b`. -/
def store (c : HttpConn) (i : Nat) (b : UInt8) : HttpConn :=
  { c with readBuf := c.readBuf.set i b }

/-- The effect of one `recv` of `read_once` that returns the bytes `d`: they
are stored at `m_read_buf + m_read_idx`, and `m_read_idx` grows. -/
def recv (c : HttpConn) (d : Bytes) : HttpConn :=
  { c with
    readBuf := c.readBuf.write c.readIdx d
    readIdx := c.readIdx + d.length }

/-- The bytes received so far. -/
def received (c : HttpConn) : Bytes := c.readBuf.slice 0 c.readIdx

theorem recv_recv (c : HttpConn) (d e : Bytes) :
    (c.recv d).recv e = c.recv (d ++ e) := by
  simp only [recv, CharBuf.write_append, List.length_append, Nat.add_assoc]

end HttpConn

/-! ## read_once -/

/-- The loop of `read_once` over the outcomes of its `recv` calls. -/
def readLoop (c : HttpConn) (outcomes : List RecvOutcome) : Option (Bool × HttpConn) :=
  Common.readLoop HttpConn.recv c outcomes

/-- `read_once`. -/
def readOnce (c : HttpConn) (outcomes : List RecvOutcome) :
    Option (Bool × HttpConn) :=
  if READ_BUFFER_SIZE ≤ c.readIdx then some (false, c)
  else readLoop c outcomes

/-- A `read_once` that succeeds has received the bytes of its `recv` calls in
order, whatever their number. -/
theorem readLoop_data (c : HttpConn) (ds : List Bytes) (rest : List RecvOutcome) :
    readLoop c (ds.map .data ++ .again :: rest) =
      some (true, c.recv ds.flatten) := by
  induction ds generalizing c with
  | nil => rfl
  | cons d ds ih =>
      rw [List.map_cons, List.cons_append, List.flatten_cons, ← HttpConn.recv_recv]
      exact ih (c.recv d)

end EasyWebServer.Post
