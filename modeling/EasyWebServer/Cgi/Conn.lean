import EasyWebServer.Common.Conn
import EasyWebServer.Lib.CharBuf
import EasyWebServer.Lib.CrlfLine

/-!
# The connection of the CGI server

`process` of `cgi_conn` reads a command line up to CRLF, tests whether a program of that
name exists, and runs it.  It starts with an empty buffer, reads until `recv` would block,
and closes the descriptor when the client, a test or `fork` says that there is nothing more
to do.

`process` gives the calls it makes, for the results that these calls meet (`Round`).
`readCommand` is the same up to the first complete line, on the received bytes alone, and
`processLoop_calls` connects the two.

* `closedOnce_iff` says when the descriptor is closed once and not used afterwards.
* `onlyCommand_iff` says for which arrivals of a command line its program is the one that
  is run.
-/

namespace EasyWebServer.Cgi

open CString CharBuf CrlfLine

/-- `BUFFER_SIZE`. -/
def BUFFER_SIZE : Nat := 1024

/-! ## process -/

/-- `class cgi_conn`, without `m_address`, which no function reads. -/
structure CgiConn where
  sockfd : Nat
  buf : CharBuf BUFFER_SIZE
  readIdx : Nat

/-- What `fork` returns: `-1`, the pid of the new process, or `0` in the new process. -/
inductive ForkResult where
  | failed
  | parent
  | child
  deriving DecidableEq, Repr

/-- The results that one iteration of the loop meets: of `recv`, and, if it comes to these
calls, whether the program exists and what `fork` returns. -/
structure Round where
  recv : RecvOutcome
  access : Bool
  fork : ForkResult
  deriving DecidableEq, Repr

/-- A call of `process`.  `recv` and `removefd` are for `m_sockfd`. -/
inductive Call where
  | recv
  | removefd
  | access (name : Bytes)
  | fork
  | execl (name : Bytes)
  deriving DecidableEq, Repr

/-- `recv` into a buffer with `room` bytes returns no more than these, and `0` when there
are none. -/
def recvWithin (room : Nat) : RecvOutcome → RecvOutcome
  | .data d => if d.take room = [] then .closed else .data (d.take room)
  | o => o

/-- The `for` loop for CRLF over the next `n` bytes. -/
def scan (buf : CharBuf BUFFER_SIZE) : Nat → Nat → Nat
  | 0, idx => idx
  | n + 1, idx =>
      if 1 ≤ idx ∧ buf.get (idx - 1) = CR ∧ buf.get idx = LF then idx
      else scan buf n (idx + 1)

/-- The `while` loop of `process`, with the calls it makes.  Behind the last result it is at
its next `recv`. -/
def processLoop (c : CgiConn) : List Round → CgiConn × List Call
  | [] => (c, [.recv])
  | r :: rest =>
      match recvWithin (BUFFER_SIZE - 1 - c.readIdx) r.recv with
      | .again => (c, [.recv])
      | .error => (c, [.recv, .removefd])
      | .closed => (c, [.recv, .removefd])
      | .data d =>
          let idx := c.readIdx
          let c := { c with buf := c.buf.write idx d, readIdx := idx + d.length }
          let idx := scan c.buf d.length idx
          if idx = c.readIdx then
            let (c, calls) := processLoop c rest
            (c, .recv :: calls)
          else
            let c := { c with buf := c.buf.set (idx - 1) NUL }
            let name := cstr c.buf.bytes
            if r.access = false then (c, [.recv, .access name, .removefd])
            else
              match r.fork with
              | .failed =>
                  let (c, calls) := processLoop c rest
                  (c, .recv :: .access name :: .fork :: .removefd :: calls)
              | .parent => (c, [.recv, .access name, .fork, .removefd])
              | .child => (c, [.recv, .access name, .fork, .execl name])

/-- `process`. -/
def process (c : CgiConn) (rounds : List Round) : CgiConn × List Call :=
  processLoop { c with buf := CharBuf.zero BUFFER_SIZE, readIdx := 0 } rounds

/-- `init`. -/
def CgiConn.init (c : CgiConn) (sockfd : Nat) : CgiConn :=
  { c with sockfd := sockfd, buf := CharBuf.zero BUFFER_SIZE }

/-- The connection is gone for the process that makes the call. -/
def Call.ends : Call → Bool
  | .removefd => true
  | .execl _ => true
  | _ => false

/-- The calls of `process` that `run_child` makes for the events of a connection, until the
connection is gone. -/
def serveConn (c : CgiConn) : List (List Round) → List Call
  | [] => []
  | rounds :: rest =>
      let (c, calls) := process c rounds
      if calls.any Call.ends then calls else calls ++ serveConn c rest

/-! ## The received bytes -/

/-- What the calls of `recv` come to. -/
inductive Ending where
  /-- There is nothing to read. -/
  | waiting
  /-- The client has closed, or `recv` has failed. -/
  | closed
  /-- A line is complete, with the result of `access` and `fork` for it and the results
  behind. -/
  | command (line : Bytes) (round : Round) (rest : List Round)

/-- The first complete line of the bytes that `recv` gives behind `got`. -/
def readCommand (got : Bytes) : List Round → Ending
  | [] => .waiting
  | r :: rest =>
      match recvWithin (BUFFER_SIZE - 1 - got.length) r.recv with
      | .again => .waiting
      | .error => .closed
      | .closed => .closed
      | .data d =>
          match crlfIndex (got ++ d) with
          | some k => .command ((got ++ d).take k) r rest
          | none => readCommand (got ++ d) rest

/-- The calls from the last `recv` on.  When `fork` fails the loop goes on. -/
inductive Ending.Calls : Ending → List Call → Prop where
  | waiting : Calls .waiting [.recv]
  | closed : Calls .closed [.recv, .removefd]
  | missing (line : Bytes) {r : Round} (rest : List Round) (haccess : r.access = false) :
      Calls (.command line r rest) [.recv, .access (cstr line), .removefd]
  | failed (line : Bytes) {r : Round} (rest : List Round) (haccess : r.access = true)
      (hfork : r.fork = .failed) (c : CgiConn) :
      Calls (.command line r rest)
        ([.recv, .access (cstr line), .fork, .removefd] ++ (processLoop c rest).2)
  | parent (line : Bytes) {r : Round} (rest : List Round) (haccess : r.access = true)
      (hfork : r.fork = .parent) :
      Calls (.command line r rest) [.recv, .access (cstr line), .fork, .removefd]
  | child (line : Bytes) {r : Round} (rest : List Round) (haccess : r.access = true)
      (hfork : r.fork = .child) :
      Calls (.command line r rest) [.recv, .access (cstr line), .fork, .execl (cstr line)]

/-- The buffer has the bytes `got`, and no complete line. -/
structure Holds (c : CgiConn) (got : Bytes) : Prop where
  buf : c.buf = (CharBuf.zero BUFFER_SIZE).write 0 got
  readIdx : c.readIdx = got.length
  room : got.length ≤ BUFFER_SIZE - 1
  noLine : crlfIndex got = none

/-- What `recv` gives fits into the buffer. -/
theorem recvWithin_data {room : Nat} {o : RecvOutcome} {d : Bytes}
    (h : recvWithin room o = .data d) : d ≠ [] ∧ d.length ≤ room := by
  rcases o with _ | _ | _ | d'
  · cases h
  · cases h
  · cases h
  · rw [recvWithin] at h
    split_ifs at h with hnil
    cases h
    refine ⟨hnil, ?_⟩
    rw [List.length_take]
    exact Nat.min_le_left _ _

/-! ## The loop for CRLF -/

/-- A CR behind the first byte, with an LF at `idx`. -/
def PairEnds (buf : CharBuf BUFFER_SIZE) (idx : Nat) : Prop :=
  1 ≤ idx ∧ buf.get (idx - 1) = CR ∧ buf.get idx = LF

/-- The loop stops at the first pair that ends in its range, or at the end of the range. -/
theorem scan_spec (buf : CharBuf BUFFER_SIZE) (n : Nat) : ∀ idx,
    idx ≤ scan buf n idx ∧ scan buf n idx ≤ idx + n ∧
      (∀ j, idx ≤ j → j < scan buf n idx → ¬ PairEnds buf j) ∧
      (scan buf n idx < idx + n → PairEnds buf (scan buf n idx)) := by
  induction n with
  | zero =>
      intro idx
      rw [scan]
      refine ⟨Nat.le_refl _, Nat.le_refl _, ?_, fun h => absurd h (Nat.lt_irrefl _)⟩
      intro j hle hlt
      omega
  | succ n ih =>
      intro idx
      rw [scan]
      split_ifs with hpair
      · exact ⟨Nat.le_refl _, Nat.le_add_right _ _, fun j hle hlt => by omega, fun _ => hpair⟩
      · obtain ⟨hle, hend, hnone, hfound⟩ := ih (idx + 1)
        refine ⟨by omega, by omega, ?_, fun h => hfound (by omega)⟩
        intro j hj hlt
        rcases Nat.eq_or_lt_of_le hj with rfl | hj
        · exact hpair
        · exact hnone j hj hlt

/-- The bytes of a buffer, as pairs of the received bytes. -/
theorem pairEnds_iff {got : Bytes} (hroom : got.length ≤ BUFFER_SIZE) {k : Nat}
    (hk : k + 1 < got.length) :
    PairEnds ((CharBuf.zero BUFFER_SIZE).write 0 got) (k + 1) ↔ CrlfAt got k := by
  have hget : ∀ j < got.length,
      ((CharBuf.zero BUFFER_SIZE).write 0 got).get j = got.getD j NUL := by
    intro j hj
    rw [get_write, if_pos ⟨Nat.zero_le j, by omega, by omega⟩, Nat.sub_zero]
  rw [PairEnds, CrlfAt, Nat.add_sub_cancel, hget k (by omega), hget (k + 1) hk,
    List.getD_eq_getElem _ _ (by omega), List.getD_eq_getElem _ _ hk,
    List.getElem?_eq_getElem (by omega), List.getElem?_eq_getElem hk, Option.some_inj,
    Option.some_inj]
  simp

/-- The loop over the new bytes finds the end of the first line. -/
theorem scan_eq {got d : Bytes} (hroom : (got ++ d).length ≤ BUFFER_SIZE)
    (hnone : crlfIndex got = none) :
    scan ((CharBuf.zero BUFFER_SIZE).write 0 (got ++ d)) d.length got.length =
      match crlfIndex (got ++ d) with
      | some k => k + 1
      | none => (got ++ d).length := by
  obtain ⟨hle, hend, hnot, hfound⟩ :=
    scan_spec ((CharBuf.zero BUFFER_SIZE).write 0 (got ++ d)) d.length got.length
  generalize scan ((CharBuf.zero BUFFER_SIZE).write 0 (got ++ d)) d.length got.length = idx at *
  rw [← List.length_append] at hend hfound
  -- a pair that ends in the old bytes would be a line that was complete before
  have hfirst : ∀ k, k + 1 < idx → ¬ CrlfAt (got ++ d) k := by
    intro k hk hat
    rcases Nat.lt_or_ge (k + 1) got.length with hold | hnew
    · exact crlfIndex_eq_none.mp hnone k (crlfAt_append hat hold)
    · exact hnot (k + 1) hnew hk ((pairEnds_iff hroom hat.lt).mpr hat)
  rcases Nat.eq_or_lt_of_le hend with hend | hlt
  · have hall : crlfIndex (got ++ d) = none := by
      rw [crlfIndex_eq_none]
      exact fun k hat => hfirst k (by rw [hend]; exact hat.lt) hat
    rw [hall]
    exact hend
  · have hpair := hfound hlt
    obtain ⟨k, rfl⟩ := Nat.exists_eq_succ_of_ne_zero (Nat.ne_zero_of_lt hpair.1)
    have hat := (pairEnds_iff hroom hlt).mp hpair
    have hindex : crlfIndex (got ++ d) = some k :=
      crlfIndex_eq_some.mpr ⟨hat, fun i hi => hfirst i (Nat.succ_lt_succ hi)⟩
    rw [hindex]

/-- The string in the buffer when the CR is replaced by a NUL. -/
theorem cstr_set_nul (got : Bytes) (hroom : got.length ≤ BUFFER_SIZE) {k : Nat}
    (hk : k < got.length) :
    cstr (((CharBuf.zero BUFFER_SIZE).write 0 got).set k NUL).bytes = cstr (got.take k) := by
  show cstr (((CharBuf.zero BUFFER_SIZE).write 0 got).bytes.set k NUL) = _
  rw [bytes_write_zero hroom, List.set_append_left _ _ hk, List.set_eq_take_append_cons_drop,
    if_pos hk, List.append_assoc, List.cons_append, cstr_append_nul]

/-! ## The calls -/

theorem Holds.recv {c : CgiConn} {got d : Bytes} (h : Holds c got)
    (hroom : (got ++ d).length ≤ BUFFER_SIZE - 1) (hnone : crlfIndex (got ++ d) = none) :
    Holds { c with buf := c.buf.write c.readIdx d, readIdx := c.readIdx + d.length }
      (got ++ d) where
  buf := by
    show c.buf.write c.readIdx d = _
    rw [h.buf, h.readIdx, write_append, Nat.zero_add]
  readIdx := by
    show c.readIdx + d.length = _
    rw [h.readIdx, List.length_append]
  room := hroom
  noLine := hnone

/-- The calls of `process` are those of `recv` until there is nothing to read, the client
has closed, or a line is complete, and then those for that ending. -/
theorem processLoop_calls (rounds : List Round) : ∀ {c : CgiConn} {got : Bytes}, Holds c got →
    ∃ n last, (processLoop c rounds).2 = List.replicate n .recv ++ last ∧
      (readCommand got rounds).Calls last := by
  induction rounds with
  | nil => exact fun _ => ⟨0, [.recv], rfl, .waiting⟩
  | cons r rest ih =>
      intro c got h
      rw [processLoop, readCommand, h.readIdx]
      rcases hrecv : recvWithin (BUFFER_SIZE - 1 - got.length) r.recv with _ | _ | _ | d
      · exact ⟨0, [.recv], rfl, .waiting⟩
      · exact ⟨0, [.recv, .removefd], rfl, .closed⟩
      · exact ⟨0, [.recv, .removefd], rfl, .closed⟩
      · have hd := (recvWithin_data hrecv).2
        have hroom : (got ++ d).length ≤ BUFFER_SIZE - 1 := by
          have := h.room
          rw [List.length_append]
          omega
        have hbuf : c.buf.write got.length d = (CharBuf.zero BUFFER_SIZE).write 0 (got ++ d) := by
          rw [h.buf, write_append, Nat.zero_add]
        have hscan := scan_eq (d := d) (hroom.trans (Nat.sub_le _ _)) h.noLine
        simp only [hbuf, hscan]
        rcases hindex : crlfIndex (got ++ d) with _ | k
        · have hnext := h.recv hroom hindex
          rw [h.readIdx, hbuf] at hnext
          obtain ⟨n, last, hcalls, hlast⟩ := ih hnext
          simp only [List.length_append, if_true]
          exact ⟨n + 1, last, by rw [hcalls]; rfl, hlast⟩
        · have hlt := (crlfIndex_eq_some.mp hindex).1.lt
          have hne : ¬ k + 1 = got.length + d.length := by
            rw [List.length_append] at hlt
            omega
          have hname := cstr_set_nul (got ++ d) (by omega) (Nat.lt_of_succ_lt hlt)
          simp only [if_neg hne, Nat.add_sub_cancel, hname]
          refine ⟨0, _, rfl, ?_⟩
          split_ifs with haccess
          · exact .missing _ _ haccess
          · rw [Bool.not_eq_false] at haccess
            split
            · rename_i hfork
              exact .failed _ _ haccess hfork _
            · rename_i hfork
              exact .parent _ _ haccess hfork
            · rename_i hfork
              exact .child _ _ haccess hfork

theorem holds_nil (c : CgiConn) :
    Holds { c with buf := CharBuf.zero BUFFER_SIZE, readIdx := 0 } [] where
  buf := rfl
  readIdx := rfl
  room := Nat.zero_le _
  noLine := rfl

/-- The calls of `process`. -/
theorem process_calls (c : CgiConn) (rounds : List Round) :
    ∃ n last, (process c rounds).2 = List.replicate n .recv ++ last ∧
      (readCommand [] rounds).Calls last := processLoop_calls rounds (holds_nil c)

/-- Every turn of the loop starts with `recv`. -/
theorem recv_mem_processLoop (c : CgiConn) (rounds : List Round) :
    .recv ∈ (processLoop c rounds).2 := by
  cases rounds with
  | nil => exact List.mem_singleton.mpr rfl
  | cons r rest =>
      rw [processLoop]
      split
      · exact List.mem_cons_self
      · exact List.mem_cons_self
      · exact List.mem_cons_self
      · simp only
        split_ifs
        · exact List.mem_cons_self
        · exact List.mem_cons_self
        · split <;> exact List.mem_cons_self

/-! ## The descriptor is closed once -/

/-- `removefd` is called once at most, and the descriptor is not used behind it. -/
structure ClosedOnce (calls : List Call) : Prop where
  once : calls.count .removefd ≤ 1
  last : ∀ before after, calls = before ++ .removefd :: after →
    .recv ∉ after ∧ .removefd ∉ after

/-- `fork` fails for the first complete line. -/
def Ending.ForkFails : Ending → Prop
  | .command _ r _ => r.access = true ∧ r.fork = .failed
  | _ => False

theorem ClosedOnce.of_open {calls : List Call} (h : .removefd ∉ calls) : ClosedOnce calls := by
  refine ⟨?_, ?_⟩
  · rw [List.count_eq_zero_of_not_mem h]
    exact Nat.zero_le 1
  · intro before after heq
    exact absurd (heq ▸ List.mem_append_right before List.mem_cons_self) h

/-- The calls end with `removefd`. -/
theorem ClosedOnce.of_closed {calls : List Call} (h : .removefd ∉ calls) :
    ClosedOnce (calls ++ [.removefd]) := by
  refine ⟨?_, ?_⟩
  · rw [List.count_append, List.count_eq_zero_of_not_mem h]
    exact Nat.le_refl 1
  · intro before after heq
    obtain ⟨-, -, rfl⟩ := (List.append_cons_inj_of_notMem h List.not_mem_nil).mp heq
    exact ⟨List.not_mem_nil, List.not_mem_nil⟩

/-- The descriptor is closed once, and not used afterwards, exactly when `fork` does not
fail for the first complete line. -/
theorem closedOnce_iff (c : CgiConn) (rounds : List Round) :
    ClosedOnce (process c rounds).2 ↔ ¬ (readCommand [] rounds).ForkFails := by
  obtain ⟨n, last, hcalls, hlast⟩ := process_calls c rounds
  rw [hcalls]
  have hopen : ∀ mid : List Call, .removefd ∉ mid → .removefd ∉ List.replicate n .recv ++ mid := by
    intro mid hmid hmem
    rcases List.mem_append.mp hmem with hmem | hmem
    · cases List.eq_of_mem_replicate hmem
    · exact hmid hmem
  have hclosed : ∀ mid : List Call, .removefd ∉ mid →
      ClosedOnce (List.replicate n .recv ++ (mid ++ [.removefd])) := by
    intro mid hmid
    rw [← List.append_assoc]
    exact .of_closed (hopen mid hmid)
  generalize readCommand [] rounds = ending at hlast
  cases hlast with
  | waiting => exact iff_of_true (.of_open (hopen [.recv] (by simp))) id
  | closed => exact iff_of_true (hclosed [.recv] (by simp)) id
  | missing line rest haccess =>
      refine iff_of_true (hclosed [.recv, .access (cstr line)] (by simp)) ?_
      rintro ⟨htrue, -⟩
      rw [haccess] at htrue
      cases htrue
  | failed line rest haccess hfork c =>
      refine iff_of_false ?_ (not_not.mpr ⟨haccess, hfork⟩)
      intro h
      refine (h.last (List.replicate n .recv ++ [.recv, .access (cstr line), .fork])
        (processLoop c rest).2 ?_).1 (recv_mem_processLoop c rest)
      rw [List.append_assoc]
      rfl
  | parent line rest haccess hfork =>
      refine iff_of_true (hclosed [.recv, .access (cstr line), .fork] (by simp)) ?_
      rintro ⟨-, hfail⟩
      rw [hfork] at hfail
      cases hfail
  | child line rest haccess hfork =>
      refine iff_of_true (.of_open (hopen _ (by simp))) ?_
      rintro ⟨-, hfail⟩
      rw [hfork] at hfail
      cases hfail

/-- `fork` fails for a complete line, and the loop goes on with the closed descriptor. -/
theorem not_closedOnce_forkFails :
    ¬ ∀ (c : CgiConn) (rounds : List Round), ClosedOnce (process c rounds).2 := by
  intro h
  have hcalls : (process ⟨5, CharBuf.zero BUFFER_SIZE, 0⟩
      [⟨.data (ascii "a\r\n"), true, .failed⟩, ⟨.error, true, .failed⟩]).2 =
      [.recv, .access (ascii "a"), .fork] ++ .removefd :: [.recv, .removefd] := by
    decide +kernel
  have hlast := (h _ _).last _ _ hcalls
  exact hlast.1 (by decide)

/-! ## The program of a command line -/

/-- What one `recv` gives of a command line, with the results of `access` and `fork`, if
the line is complete then. -/
structure Chunk where
  bytes : Bytes
  nonempty : bytes ≠ []
  access : Bool
  fork : ForkResult

def Chunk.round (chunk : Chunk) : Round := ⟨.data chunk.bytes, chunk.access, chunk.fork⟩

/-- The bytes that one call of `process` receives. -/
def received (chunks : List Chunk) : Bytes := (chunks.map Chunk.bytes).flatten

/-- The results that this call meets: behind the bytes `recv` would block. -/
def arrival (chunks : List Chunk) : List Round :=
  chunks.map Chunk.round ++ [⟨.again, true, .parent⟩]

/-- `line` is passed to `access`, and no other name to `access` or `execl`. -/
structure OnlyCommand (line : Bytes) (calls : List Call) : Prop where
  runs : .access line ∈ calls
  access : ∀ name, .access name ∈ calls → name = line
  execl : ∀ name, .execl name ∈ calls → name = line

/-- The bytes of a call of `process`, whatever their cut, are waited for or have a first
line.  When they end with it, nothing is behind. -/
theorem readCommand_arrival (chunks : List Chunk) : ∀ got : Bytes,
    (got ++ received chunks).length ≤ BUFFER_SIZE - 1 →
    (crlfIndex (got ++ received chunks) = none →
      readCommand got (arrival chunks) = .waiting) ∧
    ∀ line, crlfIndex got = none → crlfIndex line = none →
      got ++ received chunks = line ++ [CR, LF] →
      ∃ r, readCommand got (arrival chunks) = .command line r (arrival []) := by
  induction chunks with
  | nil =>
      intro got _
      refine ⟨fun _ => rfl, fun line hnone hline heq => ?_⟩
      rw [received, List.map_nil, List.flatten_nil, List.append_nil] at heq
      rw [heq, crlfIndex_line hline] at hnone
      cases hnone
  | cons chunk chunks ih =>
      intro got hroom
      have hreceived : got ++ received (chunk :: chunks) =
          (got ++ chunk.bytes) ++ received chunks := by
        rw [received, List.map_cons, List.flatten_cons, ← List.append_assoc, received]
      rw [hreceived] at hroom ⊢
      have hrecv : recvWithin (BUFFER_SIZE - 1 - got.length) (.data chunk.bytes) =
          .data chunk.bytes := by
        have htake : chunk.bytes.take (BUFFER_SIZE - 1 - got.length) = chunk.bytes := by
          rw [List.length_append, List.length_append] at hroom
          exact List.take_of_length_le (by omega)
        rw [recvWithin, htake, if_neg chunk.nonempty]
      have hread : readCommand got (arrival (chunk :: chunks)) =
          match crlfIndex (got ++ chunk.bytes) with
          | some k => .command ((got ++ chunk.bytes).take k) chunk.round (arrival chunks)
          | none => readCommand (got ++ chunk.bytes) (arrival chunks) := by
        rw [arrival, List.map_cons, List.cons_append, readCommand]
        show (match recvWithin _ (.data chunk.bytes) with
          | .again => _ | .error => _ | .closed => _ | .data d => _) = _
        rw [hrecv]
        rfl
      rw [hread]
      constructor
      · intro hnone
        rcases hindex : crlfIndex (got ++ chunk.bytes) with _ | k
        · exact (ih _ hroom).1 hnone
        · rw [crlfIndex_append hindex] at hnone
          cases hnone
      · intro line hnone hline heq
        rcases hindex : crlfIndex (got ++ chunk.bytes) with _ | k
        · exact (ih _ hroom).2 line hindex hline heq
        · -- the line is complete, so no chunk is left
          have hk : k = line.length := by
            have hwhole := crlfIndex_append hindex (received chunks)
            rw [heq, crlfIndex_line hline] at hwhole
            exact (Option.some.inj hwhole).symm
          have hlt := (crlfIndex_eq_some.mp hindex).1.lt
          have hlen := congrArg List.length heq
          simp only [List.length_append, List.length_cons, List.length_nil] at hlen hlt
          have hrest : received chunks = [] := List.length_eq_zero_iff.mp (by omega)
          have hchunks : chunks = [] := by
            rcases chunks with _ | ⟨next, chunks⟩
            · rfl
            · rw [received, List.map_cons, List.flatten_cons] at hrest
              exact absurd (List.append_eq_nil_iff.mp hrest).1 next.nonempty
          have hline : (got ++ chunk.bytes).take k = line := by
            rw [hrest, List.append_nil] at heq
            rw [heq, hk, List.take_left]
          rw [hchunks]
          exact ⟨chunk.round, by rw [← hline]⟩

/-- The names that are passed in a call of `process`. -/
theorem process_waiting (c : CgiConn) {chunks : List Chunk}
    (hroom : (received chunks).length ≤ BUFFER_SIZE - 1) (hnone : crlfIndex (received chunks) = none) :
    ∀ call ∈ (process c (arrival chunks)).2, call = .recv := by
  obtain ⟨n, last, hcalls, hlast⟩ := process_calls c (arrival chunks)
  have hread := (readCommand_arrival chunks [] hroom).1 hnone
  rw [hread] at hlast
  cases hlast
  rw [hcalls]
  intro call hmem
  rcases List.mem_append.mp hmem with hmem | hmem
  · exact List.eq_of_mem_replicate hmem
  · exact List.mem_singleton.mp hmem

theorem process_command (c : CgiConn) {chunks : List Chunk} {line : Bytes}
    (hroom : (received chunks).length ≤ BUFFER_SIZE - 1) (hline : crlfIndex line = none)
    (heq : received chunks = line ++ [CR, LF]) :
    OnlyCommand (cstr line) (process c (arrival chunks)).2 ∧
      (process c (arrival chunks)).2.any Call.ends = true := by
  obtain ⟨n, last, hcalls, hlast⟩ := process_calls c (arrival chunks)
  obtain ⟨r, hread⟩ := (readCommand_arrival chunks [] hroom).2 line rfl hline heq
  rw [hread] at hlast
  have hlast : OnlyCommand (cstr line) last ∧ last.any Call.ends = true := by
    cases hlast with
    | missing _ _ haccess => exact ⟨⟨by simp, by simp, by simp⟩, rfl⟩
    | failed _ _ haccess hfork c' =>
        -- behind the failure there is nothing to read
        have hrest : (processLoop c' (arrival [])).2 = [.recv] := rfl
        rw [hrest]
        exact ⟨⟨by simp, by simp, by simp⟩, rfl⟩
    | parent _ _ haccess hfork => exact ⟨⟨by simp, by simp, by simp⟩, rfl⟩
    | child _ _ haccess hfork => exact ⟨⟨by simp, by simp, by simp⟩, rfl⟩
  obtain ⟨hlast, hends⟩ := hlast
  rw [hcalls]
  refine ⟨⟨List.mem_append_right _ hlast.runs, ?_, ?_⟩, ?_⟩
  · intro name hmem
    rcases List.mem_append.mp hmem with hmem | hmem
    · cases List.eq_of_mem_replicate hmem
    · exact hlast.access name hmem
  · intro name hmem
    rcases List.mem_append.mp hmem with hmem | hmem
    · cases List.eq_of_mem_replicate hmem
    · exact hlast.execl name hmem
  · rw [List.any_append, hends, Bool.or_true]

/-! ### The calls for a connection -/

/-- What the calls of `process` come to, when they receive the end of a command line: the
line is not complete in any of them, or the one that receives its end passes the part of
the line that it has received. -/
def Served (line : Bytes) (calls : List (List Chunk)) (log : List Call) : Prop :=
  ((∀ chunks ∈ calls, crlfIndex (received chunks) = none) ∧ ∀ call ∈ log, call = .recv) ∨
    ∃ before tail, line = before ++ tail ∧ OnlyCommand (cstr tail) log ∧
      (∃ chunks ∈ calls, received chunks = tail ++ [CR, LF]) ∧
      ∀ chunks ∈ calls, crlfIndex (received chunks) ≠ none → received chunks = tail ++ [CR, LF]

theorem received_nil_of_flatten {calls : List (List Chunk)}
    (h : (calls.map received).flatten = []) : ∀ chunks ∈ calls, received chunks = [] := by
  intro chunks hmem
  rw [List.flatten_eq_nil_iff] at h
  exact h _ (List.mem_map_of_mem hmem)

theorem serveConn_served {line : Bytes} (hlen : line.length + 2 ≤ BUFFER_SIZE - 1)
    (hline : crlfIndex line = none) (calls : List (List Chunk)) : ∀ (c : CgiConn) (before : Bytes),
    before ++ (calls.map received).flatten = line ++ [CR, LF] →
    Served line calls (serveConn c (calls.map arrival)) := by
  induction calls with
  | nil =>
      intro c before _
      exact Or.inl ⟨nofun, nofun⟩
  | cons chunks calls ih =>
      intro c before harrive
      rw [List.map_cons, List.flatten_cons, ← List.append_assoc] at harrive
      have hroom : (received chunks).length ≤ BUFFER_SIZE - 1 := by
        have hsum := congrArg List.length harrive
        simp only [List.length_append, List.length_cons, List.length_nil] at hsum
        omega
      rw [List.map_cons, serveConn]
      rcases hcall : process c (arrival chunks) with ⟨c', log⟩
      simp only
      rcases crlfIndex_segment hline harrive with hnone | ⟨tail, hend, htail, hsplit, hrest⟩
      · have hrecv := process_waiting c hroom hnone
        rw [hcall] at hrecv
        have hopen : ¬ log.any Call.ends = true := by
          rw [List.any_eq_true]
          rintro ⟨call, hmem, hends⟩
          rw [hrecv call hmem] at hends
          cases hends
        rw [if_neg hopen]
        rcases ih c' _ harrive with ⟨hall, hlog⟩ | ⟨b, tail, hsplit, honly, hsome, hall⟩
        · refine Or.inl ⟨?_, ?_⟩
          · exact List.forall_mem_cons.mpr ⟨hnone, hall⟩
          · exact List.forall_mem_append.mpr ⟨hrecv, hlog⟩
        · refine Or.inr ⟨b, tail, hsplit, ⟨?_, ?_, ?_⟩, ?_, ?_⟩
          · exact List.mem_append_right _ honly.runs
          · intro name hmem
            rcases List.mem_append.mp hmem with hmem | hmem
            · cases hrecv _ hmem
            · exact honly.access name hmem
          · intro name hmem
            rcases List.mem_append.mp hmem with hmem | hmem
            · cases hrecv _ hmem
            · exact honly.execl name hmem
          · obtain ⟨last, hmem, hlast⟩ := hsome
            exact ⟨last, List.mem_cons_of_mem _ hmem, hlast⟩
          · exact List.forall_mem_cons.mpr ⟨fun hne => absurd hnone hne, hall⟩
      · obtain ⟨honly, hends⟩ := process_command c hroom htail hend
        rw [hcall] at honly hends
        rw [if_pos hends]
        refine Or.inr ⟨before, tail, hsplit, honly, ⟨chunks, List.mem_cons_self, hend⟩, ?_⟩
        refine List.forall_mem_cons.mpr ⟨fun _ => hend, fun later hmem hne => ?_⟩
        rw [received_nil_of_flatten hrest later hmem] at hne
        exact absurd rfl hne

/-- The program of a command line is the one that is run exactly when one call of `process`
receives the whole line, and the line is one string. -/
theorem onlyCommand_iff {line : Bytes} (hlen : line.length + 2 ≤ 1023)
    (hline : ¬ [CR, LF] <:+: line) (c : CgiConn) (calls : List (List Chunk))
    (harrive : (calls.map received).flatten = line ++ [CR, LF]) :
    OnlyCommand line (serveConn c (calls.map arrival)) ↔
      (∃ chunks ∈ calls, received chunks = line ++ [CR, LF]) ∧ NUL ∉ line := by
  have hnone : crlfIndex line = none := crlfIndex_none_iff.mpr hline
  have hwhole := crlfIndex_line hnone
  constructor
  · intro h
    rcases serveConn_served hlen hnone calls c [] harrive with
      ⟨-, hlog⟩ | ⟨before, tail, hsplit, honly, ⟨chunks, hmem, hlast⟩, -⟩
    · cases hlog _ h.runs
    · have hname : cstr tail = line := h.access _ honly.runs
      -- the line is not longer than the part of it that is passed
      have hstring : (cstr tail).length ≤ tail.length := (List.takeWhile_prefix _).length_le
      have hsum := congrArg List.length hsplit
      rw [List.length_append] at hsum
      rw [hname] at hstring
      have hbefore : before = [] := List.length_eq_zero_iff.mp (by omega)
      rw [hbefore, List.nil_append] at hsplit
      refine ⟨⟨chunks, hmem, by rw [hlast, hsplit]⟩, ?_⟩
      rw [← hname]
      exact nul_notMem_cstr tail
  · rintro ⟨⟨chunks, hmem, heq⟩, hnul⟩
    rcases serveConn_served hlen hnone calls c [] harrive with
      ⟨hall, -⟩ | ⟨before, tail, hsplit, honly, -, hall⟩
    · have hindex := hall chunks hmem
      rw [heq, hwhole] at hindex
      cases hindex
    · have hlast := hall chunks hmem (by rw [heq, hwhole]; exact nofun)
      rw [heq] at hlast
      have htail : line = tail := List.append_cancel_right hlast
      rw [← htail, cstr_eq_self hnul] at honly
      exact honly

/-- A line in two parts of one call. -/
def oneCall : List (List Chunk) :=
  [[⟨ascii "ls\r", by decide, true, .parent⟩, ⟨ascii "\n", by decide, true, .parent⟩]]

theorem onlyCommand_oneCall :
    OnlyCommand (ascii "ls") (serveConn ⟨5, CharBuf.zero BUFFER_SIZE, 0⟩ (oneCall.map arrival)) ↔
      (∃ chunks ∈ oneCall, received chunks = ascii "ls" ++ [CR, LF]) ∧ NUL ∉ ascii "ls" :=
  onlyCommand_iff (by decide) (by decide) _ oneCall (by decide)

/-- The same line in two calls. -/
def twoCalls : List (List Chunk) :=
  [[⟨ascii "l", by decide, true, .parent⟩], [⟨ascii "s\r\n", by decide, true, .parent⟩]]

/-- The second call starts with an empty buffer and runs the rest of the line. -/
theorem not_onlyCommand_twoCalls : ¬ ∀ (line : Bytes), line.length + 2 ≤ 1023 →
    ¬ [CR, LF] <:+: line → ∀ (c : CgiConn) (calls : List (List Chunk)),
      (calls.map received).flatten = line ++ [CR, LF] →
        OnlyCommand line (serveConn c (calls.map arrival)) := by
  intro h
  have honly := h (ascii "ls") (by decide) (by decide) ⟨5, CharBuf.zero BUFFER_SIZE, 0⟩ twoCalls
    (by decide)
  have hpassed : .access (ascii "s") ∈
      serveConn ⟨5, CharBuf.zero BUFFER_SIZE, 0⟩ (twoCalls.map arrival) := by decide +kernel
  exact absurd (honly.access _ hpassed) (by decide)

end EasyWebServer.Cgi
