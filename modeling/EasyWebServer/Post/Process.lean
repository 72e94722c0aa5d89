import EasyWebServer.Post.Sender

/-!
# process

`http_conn::process` is what a worker runs for a request.  Its effects outside
the connection are calls on the socket: `modfd` arms the descriptor in epoll for
one more event, and `close_conn` closes it.

`processOps` gives the calls from the two values that decide them, the code of
`process_read` and the answer of `process_write`, and `process_ops` shows that
`process` makes these calls and no others.  `WriteExit.ops` gives the calls of
`write`, which the main loop runs.
-/

namespace EasyWebServer.Post

/-- What `modfd` arms a descriptor for. -/
inductive Interest where
  /-- `EPOLLIN`. -/
  | input
  /-- `EPOLLOUT`. -/
  | output
  deriving DecidableEq, Repr

/-- A call on the socket of a connection, `m_sockfd`. -/
inductive SockOp where
  | modfd (ev : Interest)
  | closeConn
  deriving DecidableEq, Repr

/-- `process`, and the calls it makes. -/
def process (w : World) (c : HttpConn) :
    Except Fault (List SockOp × HttpConn × World) :=
  match processRead w c with
  | .error f => .error f
  | .ok (.noRequest, c, w) => .ok ([.modfd .input], c, w)
  | .ok (code, c, w) =>
      let r := processWrite c code
      .ok ((if r.1 then [] else [.closeConn]) ++ [.modfd .output], r.2, w)

/-- Whether `process` calls `close_conn`. -/
def closes (code : HttpCode) (writeRet : Bool) : Bool :=
  code != .noRequest && !writeRet

/-- The calls of `process`. -/
def processOps (code : HttpCode) (writeRet : Bool) : List SockOp :=
  if code = .noRequest then [.modfd .input]
  else (if closes code writeRet then [.closeConn] else []) ++ [.modfd .output]

/-- The calls that follow a code that is not `NO_REQUEST`. -/
theorem processOps_answer {code : HttpCode} (h : code ≠ .noRequest) (writeRet : Bool) :
    processOps code writeRet =
      (if writeRet then [] else [.closeConn]) ++ [.modfd .output] := by
  rw [processOps, if_neg h, closes]
  rcases writeRet with _ | _
  · simp [h]
  · simp

/-- The calls of `process` are those for its code and its answer. -/
theorem process_ops {w w' : World} {c c' : HttpConn} {ops : List SockOp}
    (h : process w c = .ok (ops, c', w')) :
    ∃ code writeRet, ops = processOps code writeRet := by
  rw [process] at h
  split at h
  · cases h
  · cases h
    exact ⟨.noRequest, true, rfl⟩
  · rename_i code d v hne hread
    have hne' : code ≠ .noRequest := fun hno => hne hno
    simp only [Except.ok.injEq, Prod.mk.injEq] at h
    obtain ⟨rfl, -, -⟩ := h
    exact ⟨code, (processWrite d code).1, (processOps_answer hne' _).symm⟩

/-- The calls of `write`. -/
def WriteExit.ops : WriteExit → List SockOp
  | .idle | .keepAlive | .close => [.modfd .input]
  | .again => [.modfd .output]
  | .error => []

end EasyWebServer.Post
