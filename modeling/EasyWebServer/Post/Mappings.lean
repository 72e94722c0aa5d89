import EasyWebServer.Post.Frame
import EasyWebServer.Post.Process

/-!
# The file mappings of a slot

`do_request` maps the file of a request into `m_file_address`, and `write`
unmaps it through `unmap` when the response is sent or fails.  `close_conn`,
`cb_func` and `init` do not look at the mapping.

`MapSlot` is one `http_conn` object over any number of connections: the object,
whether its descriptor is open and what epoll is armed for, the number of its
requests in the work queue, and the calls of `mmap` and `munmap` made so far.

`ledgerStep` is the account that these calls must balance: at most one mapping
at a time, and `munmap` with the address and the length of that mapping.
`held` is the mapping that the object knows, and `Accounted` says that it is the
one in the account.
-/

namespace EasyWebServer.Post

open CString CInt HttpConn Transition

/-! ## The calls of mmap and munmap -/

/-- A call of `mmap`, with its result, or of `munmap`, and the length. -/
inductive MapCall where
  | mmap (result : FileAddress) (length : Nat)
  | munmap (address : FileAddress) (length : Nat)
  deriving DecidableEq, Repr

/-- The call of `unmap`. -/
def unmapCalls (c : HttpConn) : List MapCall :=
  if c.fileAddress = .null then [] else [.munmap c.fileAddress c.fileStat.size]

/-- The calls of one iteration of the loop of `write`. -/
def iterCalls (c : HttpConn) : WritevOutcome → List MapCall
  | .again => []
  | .error => unmapCalls c
  | .sent t =>
      let c := advance c (wrap32 t)
      if c.bytesToSend ≤ 0 then unmapCalls c else []

/-- The calls of the loop of `write`. -/
def loopCalls (c : HttpConn) : List WritevOutcome → List MapCall
  | [] => []
  | o :: os =>
      iterCalls c o ++
        match writeIter c o with
        | .inl c' => loopCalls c' os
        | .inr _ => []

/-- The calls of `write`. -/
def writeCalls (c : HttpConn) (os : List WritevOutcome) : List MapCall :=
  if c.bytesToSend = 0 then [] else loopCalls c os

/-- The calls of `process`: `do_request` returns `FILE_REQUEST` behind its call of
`mmap`, and nowhere else. -/
def processCalls (w : World) (c : HttpConn) : List MapCall :=
  match processRead w c with
  | .ok (code, c, _) =>
      if code = .fileRequest then [.mmap c.fileAddress c.fileStat.size] else []
  | .error _ => []

/-! ## The account -/

/-- A mapping of a file. -/
structure Mapping where
  address : Nat
  length : Nat
  deriving DecidableEq, Repr

/-- The effect of a call on the one mapping that may exist.  A mapping must not be
lost from `m_file_address`, and `munmap` must get a mapping as it is. -/
def ledgerStep : Option Mapping → MapCall → Option (Option Mapping)
  | none, .mmap (.mapped a) n => some (some ⟨a, n⟩)
  | none, .mmap _ _ => some none
  | some m, .munmap (.mapped a) n => if m = ⟨a, n⟩ then some none else none
  | _, _ => none

/-- The calls balance. -/
def LedgerOk (calls : List MapCall) : Prop := (exec ledgerStep none calls).isSome

instance (calls : List MapCall) : Decidable (LedgerOk calls) :=
  inferInstanceAs (Decidable (_ = true))

/-! ## A slot -/

/-- An `http_conn` object, over all its connections. -/
structure MapSlot where
  conn : HttpConn
  isOpen : Bool
  armed : Option Interest
  /-- The requests of the slot in the work queue. -/
  queued : Nat
  calls : List MapCall

/-- What happens to a slot. -/
inductive MapAction where
  /-- `accept` returns the descriptor of the slot. -/
  | accept (sockfd : Nat)
  /-- `EPOLLIN`: `read_once`, and the request goes to the work queue, unless the
  queue is full, or the connection is closed. -/
  | input (outcomes : List RecvOutcome) (append : Bool)
  /-- A worker runs `process` for a queued request. -/
  | work (w : World)
  /-- `EPOLLOUT`: `write`, and the connection is closed when it returns false. -/
  | output (outcomes : List WritevOutcome)
  /-- A hang-up or the timer closes the connection: `cb_func`. -/
  | hangup

namespace MapSlot

/-- `cb_func` closes the descriptor and does not touch the object. -/
def close (s : MapSlot) : MapSlot := { s with isOpen := false, armed := none }

/-- A call on the socket. -/
def runOp (s : MapSlot) : SockOp → MapSlot
  | .modfd ev =>
      if s.isOpen ∧ s.conn.sockfd ≠ none then { s with armed := some ev } else s
  | .closeConn =>
      if s.conn.sockfd = none then s
      else { s with conn := { s.conn with sockfd := none } }.close

end MapSlot

/-- One step of a slot.  `none` also stands for an undefined behaviour of
`process`. -/
def mapStep (s : MapSlot) : MapAction → Option MapSlot
  | .accept sockfd =>
      if s.isOpen then none
      else some { s with
        conn := s.conn.initSockfd sockfd
        isOpen := true
        armed := some .input }
  | .input os append =>
      if s.isOpen ∧ s.armed = some .input then
        match readOnce s.conn os with
        | none => none
        | some (true, c) =>
            some { s with
              conn := c
              armed := none
              queued := if append then s.queued + 1 else s.queued }
        | some (false, c) => some { s with conn := c }.close
      else none
  | .work w =>
      if s.queued = 0 then none
      else
        match process w s.conn with
        | .error _ => none
        | .ok (ops, c, _) =>
            some (ops.foldl MapSlot.runOp { s with
              conn := c
              queued := s.queued - 1
              calls := s.calls ++ processCalls w s.conn })
  | .output os =>
      if s.isOpen ∧ s.armed = some .output then
        match write s.conn os with
        | none => none
        | some (e, c) =>
            let s' := { s with conn := c, calls := s.calls ++ writeCalls s.conn os }
            if e.result then some (e.ops.foldl MapSlot.runOp { s' with armed := none })
            else some s'.close
      else none
  | .hangup => if s.isOpen then some s.close else none

/-- A slot before its first connection. -/
def newMapSlot (c : HttpConn) : MapSlot := ⟨c, false, none, 0, []⟩

/-! ## What a request does to the file -/

/-- The same `m_sockfd`, `m_file_address` and `m_file_stat`. -/
structure SameFile (c c' : HttpConn) : Prop where
  sockfd : c'.sockfd = c.sockfd
  address : c'.fileAddress = c.fileAddress
  stat : c'.fileStat = c.fileStat

theorem SameFile.refl (c : HttpConn) : SameFile c c := ⟨rfl, rfl, rfl⟩

theorem SameFile.trans {a b c : HttpConn} (h : SameFile a b) (h' : SameFile b c) :
    SameFile a c :=
  ⟨h'.sockfd.trans h.sockfd, h'.address.trans h.address, h'.stat.trans h.stat⟩

theorem sameFile_of_rest {c c' : HttpConn} (h : c'.rest = c.rest) : SameFile c c' :=
  ⟨congrArg Rest.sockfd h, congrArg Rest.fileAddress h, congrArg Rest.fileStat h⟩

theorem FileSelected.sameFile {c c' : HttpConn} (h : FileSelected c c') : SameFile c c' := by
  cases h
  exact ⟨rfl, rfl, rfl⟩

theorem ResponseWritten.sameFile {c c' : HttpConn} (h : ResponseWritten c c') :
    SameFile c c' := by
  cases h
  exact ⟨rfl, rfl, rfl⟩

/-- The path in `m_real_file` when `do_request` calls `stat`. -/
def statPath (w : World) (c : HttpConn) : Except Fault Bytes := do
  let c := { c with realFile := c.realFile.write 0 (docRoot ++ [NUL]) }
  let url ← deref c.url
  let p ← deref (strrchr (c.text url) slash)
  let (c, _) ← selectFile w c url (c.readBuf.get (url + p + 1))
  .ok (cstr c.realFile.bytes)

/-- The file that the request in the buffer asks for, when it is complete. -/
def askedFile (w : World) (c : HttpConn) : Option Bytes :=
  match processReadLoop c with
  | .ok (.request c) => (statPath w c).toOption
  | _ => none

/-- What a request does to the file.  `FILE_REQUEST` comes with the answers of
`stat` and `mmap` for the path that is asked for, and the other codes leave
`m_file_address` alone. -/
inductive RequestFile (w : World) (asked : Option Bytes) (c c' : HttpConn) : HttpCode → Prop where
  | keeps {code : HttpCode} (hcode : code ≠ .fileRequest) (hsock : c'.sockfd = c.sockfd)
      (haddr : c'.fileAddress = c.fileAddress) : RequestFile w asked c c' code
  | maps {path : Bytes} (hasked : path ∈ asked) (hsock : c'.sockfd = c.sockfd)
      (hstat : w.stat path = some c'.fileStat) (haddr : c'.fileAddress = w.mmap path) :
      RequestFile w asked c c' .fileRequest

/-- Neither `w` nor `c` need be the first of the request. -/
theorem RequestFile.of_same {w w₁ : World} {asked : Option Bytes} {c c₁ c' : HttpConn}
    {code : HttpCode} (h : RequestFile w₁ asked c₁ c' code) (hfile : SameFile c c₁)
    (hstat : w₁.stat = w.stat) (hmmap : w₁.mmap = w.mmap) : RequestFile w asked c c' code := by
  rcases h with ⟨hcode, hsock, haddr⟩ | ⟨hasked, hsock, hst, haddr⟩
  · exact .keeps hcode (hsock.trans hfile.sockfd) (haddr.trans hfile.address)
  · exact .maps hasked (hsock.trans hfile.sockfd) (hstat ▸ hst) (hmmap ▸ haddr)

theorem openFile_file {w : World} {c c' : HttpConn} {code : HttpCode}
    (h : openFile w c = .ok (code, c')) :
    RequestFile w (some (cstr c.realFile.bytes)) c c' code := by
  unfold openFile at h
  simp only at h
  split at h
  · split at h
    · cases h
      exact .keeps (by decide) rfl rfl
    · rename_i st hstat
      split_ifs at h <;> cases h
      · exact .keeps (by decide) rfl rfl
      · exact .keeps (by decide) rfl rfl
      · exact .maps rfl rfl hstat rfl
  · cases h

theorem doRequest_file {w w' : World} {c c' : HttpConn} {code : HttpCode}
    (h : doRequest w c = .ok (code, c', w')) :
    RequestFile w (statPath w c).toOption c c' code := by
  unfold doRequest at h
  simp only at h
  obtain ⟨url, hurl, h⟩ := bind_eq_ok h
  obtain ⟨p, hslash, h⟩ := bind_eq_ok h
  obtain ⟨⟨c₁, w₁⟩, hselect, h⟩ := bind_eq_ok h
  obtain ⟨⟨code₁, c₂⟩, hopen, h⟩ := bind_eq_ok h
  cases h
  have hpath : statPath w c = .ok (cstr c₁.realFile.bytes) := by
    unfold statPath
    simp only [bind, Except.bind, hurl, hslash, hselect]
  rw [hpath]
  obtain ⟨hselected, hstat, hmmap⟩ := selectFile_selected hselect
  have hfile := hselected.sameFile
  exact (openFile_file hopen).of_same ⟨hfile.sockfd, hfile.address, hfile.stat⟩ hstat hmmap

/-- What a call of `process_read` does to the file. -/
theorem processRead_file {w w' : World} {c c' : HttpConn} {code : HttpCode}
    (h : processRead w c = .ok (code, c', w')) : RequestFile w (askedFile w c) c c' code := by
  unfold processRead at h
  unfold askedFile
  rcases hloop : processReadLoop c with f | e
  · rw [hloop] at h
    cases h
  · rw [hloop] at h
    cases e with
    | returned code₁ d =>
        have hfile := sameFile_of_rest (returned_rest hloop)
        have hcode := processReadLoop_code hloop
        cases h
        exact .keeps (by rcases hcode with rfl | rfl <;> decide) hfile.sockfd hfile.address
    | request d =>
        have hrest := (request_rest hloop).1
        have hfile : SameFile c d := ⟨congrArg Rest.sockfd hrest,
          congrArg Rest.fileAddress hrest, congrArg Rest.fileStat hrest⟩
        exact (doRequest_file h).of_same hfile rfl rfl

/-- The calls of `process` on the socket behind `process_write`. -/
def answerOps (writeRet : Bool) : List SockOp :=
  (if writeRet then [] else [.closeConn]) ++ [.modfd .output]

/-- What `process` does to the file: its calls on the socket, and those of `mmap`. -/
inductive ProcessFile (w : World) (c c' : HttpConn) : List SockOp → List MapCall → Prop where
  /-- The request is not complete. -/
  | waits (haddr : c'.fileAddress = c.fileAddress) : ProcessFile w c c' [.modfd .input] []
  /-- The request is answered without a file, or not at all. -/
  | answers (writeRet : Bool) (haddr : c'.fileAddress = c.fileAddress) :
      ProcessFile w c c' (answerOps writeRet) []
  /-- The file that is asked for is mapped.  An empty file is not answered. -/
  | maps (writeRet : Bool) {path : Bytes} (hasked : path ∈ askedFile w c)
      (hstat : w.stat path = some c'.fileStat) (haddr : c'.fileAddress = w.mmap path)
      (hempty : c'.fileStat.size = 0 → writeRet = false) :
      ProcessFile w c c' (answerOps writeRet) [.mmap c'.fileAddress c'.fileStat.size]

/-- What `process` does to the file. -/
theorem process_file {w w' : World} {c c' : HttpConn} {ops : List SockOp}
    (h : process w c = .ok (ops, c', w')) :
    c'.sockfd = c.sockfd ∧ ProcessFile w c c' ops (processCalls w c) := by
  unfold process at h
  unfold processCalls
  split at h
  · cases h
  · rename_i hread
    cases h
    rw [hread]
    rcases processRead_file hread with ⟨-, hsock, haddr⟩
    exact ⟨hsock, .waits haddr⟩
  · rename_i code d v hne hread
    cases h
    have hfile := (processWrite_written d code).sameFile
    rw [hread]
    rcases processRead_file hread with ⟨hcode, hsock, haddr⟩ | ⟨hasked, hsock, hstat, haddr⟩
    · simp only [if_neg hcode]
      exact ⟨hfile.sockfd.trans hsock, .answers _ (hfile.address.trans haddr)⟩
    · have hmap : ProcessFile w c (processWrite d .fileRequest).2
          (answerOps (processWrite d .fileRequest).1) [.mmap _ _] :=
        .maps _ hasked (by rw [hfile.stat]; exact hstat) (by rw [hfile.address]; exact haddr)
          (fun hsize => fileResponse_empty (by rw [← hfile.stat]; exact hsize))
      rw [hfile.address, hfile.stat] at hmap
      exact ⟨hfile.sockfd.trans hsock, hmap⟩

/-! ## What write does to the file -/

theorem advance_sameFile (c : HttpConn) (temp : Int) : SameFile c (advance c temp) := by
  unfold advance
  simp only
  split_ifs <;> exact ⟨rfl, rfl, rfl⟩

theorem unmap_file (c : HttpConn) :
    (unmap c).sockfd = c.sockfd ∧ (unmap c).fileAddress = .null := by
  unfold unmap
  split_ifs with h
  · exact ⟨rfl, h⟩
  · exact ⟨rfl, rfl⟩

theorem unmapCalls_congr {c c' : HttpConn} (h : SameFile c c') :
    unmapCalls c' = unmapCalls c := by
  unfold unmapCalls
  rw [h.address, h.stat]

/-- What the loop of `write` does to the file, and its call of `munmap`. -/
inductive LoopFile (c c' : HttpConn) : WriteExit → List MapCall → Prop where
  | again (hfile : SameFile c c') : LoopFile c c' .again []
  | ends {e : WriteExit} (hend : e = .error ∨ e = .keepAlive ∨ e = .close)
      (hsock : c'.sockfd = c.sockfd) (haddr : c'.fileAddress = .null) :
      LoopFile c c' e (unmapCalls c)

/-- One iteration of the loop of `write`. -/
theorem writeIter_file (c : HttpConn) (o : WritevOutcome) :
    (∀ c', writeIter c o = .inl c' → SameFile c c' ∧ iterCalls c o = []) ∧
    ∀ e c', writeIter c o = .inr (e, c') → LoopFile c c' e (iterCalls c o) := by
  cases o with
  | again =>
      refine ⟨fun c' h => (by cases h), fun e c' h => ?_⟩
      cases h
      exact .again (.refl c)
  | error =>
      refine ⟨fun c' h => (by cases h), fun e c' h => ?_⟩
      cases h
      exact .ends (Or.inl rfl) (unmap_file c).1 (unmap_file c).2
  | sent t =>
      have hfile := advance_sameFile c (wrap32 t)
      unfold writeIter iterCalls
      simp only
      split_ifs with hend hlinger
      · refine ⟨fun c' h => (by cases h), fun e c' h => ?_⟩
        cases h
        rw [unmapCalls_congr hfile]
        exact .ends (Or.inr (Or.inl rfl)) ((unmap_file _).1.trans hfile.sockfd) (unmap_file _).2
      · refine ⟨fun c' h => (by cases h), fun e c' h => ?_⟩
        cases h
        rw [unmapCalls_congr hfile]
        exact .ends (Or.inr (Or.inr rfl)) ((unmap_file _).1.trans hfile.sockfd) (unmap_file _).2
      · refine ⟨fun c' h => ?_, fun e c' h => (by cases h)⟩
        cases h
        exact ⟨hfile, rfl⟩

/-- The loop unmaps the file of the connection it starts with, when it ends the
response. -/
theorem writeLoop_file (os : List WritevOutcome) : ∀ {c c' : HttpConn} {e : WriteExit},
    writeLoop c os = some (e, c') → LoopFile c c' e (loopCalls c os) := by
  induction os with
  | nil =>
      intro c c' e h
      cases h
  | cons o os ih =>
      intro c c' e h
      obtain ⟨hnext, hdone⟩ := writeIter_file c o
      rcases hiter : writeIter c o with c₁ | r
      · have hloop : writeLoop c (o :: os) = writeLoop c₁ os := by rw [writeLoop, hiter]
        have hall : loopCalls c (o :: os) = iterCalls c o ++ loopCalls c₁ os := by
          rw [loopCalls, hiter]
        obtain ⟨hfile, hcalls⟩ := hnext c₁ hiter
        rw [hloop] at h
        rw [hall, hcalls, List.nil_append]
        have hrest := ih h
        generalize loopCalls c₁ os = calls at hrest
        rcases hrest with hsame | ⟨hend, hsock, haddr⟩
        · exact .again (hfile.trans hsame)
        · rw [unmapCalls_congr hfile]
          exact .ends hend (hsock.trans hfile.sockfd) haddr
      · have hloop : writeLoop c (o :: os) = some r := by rw [writeLoop, hiter]
        have hall : loopCalls c (o :: os) = iterCalls c o := by
          rw [loopCalls, hiter, List.append_nil]
        rw [hloop] at h
        cases h
        rw [hall]
        exact hdone e c' hiter

theorem write_file {c c' : HttpConn} {os : List WritevOutcome} {e : WriteExit}
    (h : write c os = some (e, c')) :
    (e = .idle ∧ c.bytesToSend = 0 ∧ SameFile c c' ∧ writeCalls c os = []) ∨
      LoopFile c c' e (writeCalls c os) := by
  unfold write at h
  unfold writeCalls
  split at h
  · rename_i hzero
    cases h
    rw [if_pos hzero]
    exact Or.inl ⟨rfl, hzero, ⟨rfl, rfl, rfl⟩, rfl⟩
  · rename_i hzero
    rw [if_neg hzero]
    exact Or.inr (writeLoop_file os h)

/-! ## The steps of a slot -/

/-- What a step does: what it has found, what it does to the file, and the slot
behind it. -/
inductive MapMove (s : MapSlot) : MapAction → MapSlot → Prop where
  | accept (sockfd : Nat) :
      MapMove s (.accept sockfd) { s with
        conn := s.conn.initSockfd sockfd
        isOpen := true
        armed := some .input }
  | received {c : HttpConn} {os : List RecvOutcome} {append : Bool} (hopen : s.isOpen)
      (harmed : s.armed = some .input) (hsame : SameFile s.conn c) :
      MapMove s (.input os append) { s with
        conn := c
        armed := none
        queued := if append then s.queued + 1 else s.queued }
  | readFails {c : HttpConn} {os : List RecvOutcome} {append : Bool} (hopen : s.isOpen)
      (harmed : s.armed = some .input) (hsame : SameFile s.conn c) :
      MapMove s (.input os append) (MapSlot.close { s with conn := c })
  | work {w : World} {c : HttpConn} {ops : List SockOp} {calls : List MapCall}
      (hqueued : s.queued ≠ 0) (hsock : c.sockfd = s.conn.sockfd)
      (hfile : ProcessFile w s.conn c ops calls) :
      MapMove s (.work w) (ops.foldl MapSlot.runOp { s with
        conn := c
        queued := s.queued - 1
        calls := s.calls ++ calls })
  /-- `write` has nothing to send, or waits for room. -/
  | keeps {c : HttpConn} {os : List WritevOutcome} {ev : Interest} (hopen : s.isOpen)
      (harmed : s.armed = some .output) (hsame : SameFile s.conn c)
      (hev : ev = .input → s.conn.bytesToSend = 0) :
      MapMove s (.output os) (MapSlot.runOp { s with conn := c, armed := none } (.modfd ev))
  /-- The response is sent over a persistent connection. -/
  | keepAlive {c : HttpConn} {os : List WritevOutcome} (hopen : s.isOpen)
      (harmed : s.armed = some .output) (hsock : c.sockfd = s.conn.sockfd)
      (haddr : c.fileAddress = .null) :
      MapMove s (.output os) (MapSlot.runOp { s with
        conn := c
        armed := none
        calls := s.calls ++ unmapCalls s.conn } (.modfd .input))
  | writeEnds {c : HttpConn} {os : List WritevOutcome} (hopen : s.isOpen)
      (harmed : s.armed = some .output) (haddr : c.fileAddress = .null) :
      MapMove s (.output os) (MapSlot.close { s with
        conn := c
        calls := s.calls ++ unmapCalls s.conn })
  | hangup (hopen : s.isOpen) : MapMove s .hangup s.close

theorem mapStep_output {s s' : MapSlot} {os : List WritevOutcome}
    (hs : mapStep s (.output os) = some s') : MapMove s (.output os) s' := by
  unfold mapStep at hs
  simp only at hs
  split at hs
  · rename_i harmed
    split at hs
    · cases hs
    · rename_i e c hw
      have hfile := write_file hw
      generalize writeCalls s.conn os = calls at hfile hs
      rcases hfile with ⟨rfl, hzero, hsame, rfl⟩ | hsame | ⟨hend, hsock, haddr⟩
      · rw [List.append_nil] at hs
        cases hs
        exact .keeps harmed.1 harmed.2 hsame (fun _ => hzero)
      · rw [List.append_nil] at hs
        cases hs
        exact .keeps harmed.1 harmed.2 hsame (fun hev => by cases hev)
      · rcases hend with rfl | rfl | rfl
        · cases hs
          exact .writeEnds harmed.1 harmed.2 haddr
        · cases hs
          exact .keepAlive harmed.1 harmed.2 hsock haddr
        · cases hs
          exact .writeEnds harmed.1 harmed.2 haddr
  · cases hs

/-- Every step is one of these moves. -/
theorem mapStep_inv {s s' : MapSlot} {a : MapAction} (hs : mapStep s a = some s') :
    MapMove s a s' := by
  cases a with
  | output os => exact mapStep_output hs
  | accept sockfd =>
      unfold mapStep at hs
      simp only at hs
      split_ifs at hs
      cases hs
      exact .accept sockfd
  | input os append =>
      unfold mapStep at hs
      simp only at hs
      split at hs
      · rename_i harmed
        split at hs
        · cases hs
        · rename_i c hr
          cases hs
          exact .received harmed.1 harmed.2 (sameFile_of_rest (readOnce_rest hr))
        · rename_i c hr
          cases hs
          exact .readFails harmed.1 harmed.2 (sameFile_of_rest (readOnce_rest hr))
      · cases hs
  | work w =>
      unfold mapStep at hs
      simp only at hs
      split at hs
      · cases hs
      · rename_i hqueued
        split at hs
        · cases hs
        · rename_i ops c v hp
          obtain ⟨hsock, hfile⟩ := process_file hp
          cases hs
          exact .work hqueued hsock hfile
  | hangup =>
      unfold mapStep at hs
      simp only at hs
      split_ifs at hs with hopen
      cases hs
      exact .hangup hopen

/-! ## The invariant -/

/-- The mapping that the object knows. -/
def held (c : HttpConn) : Option Mapping :=
  match c.fileAddress with
  | .mapped a => some ⟨a, c.fileStat.size⟩
  | _ => none

theorem held_congr {c c' : HttpConn} (h : SameFile c c') : held c' = held c := by
  unfold held
  rw [h.address, h.stat]

theorem held_of_null {c : HttpConn} (h : c.fileAddress = .null) : held c = none := by
  unfold held
  rw [h]

/-- `mmap` does not fail for the file that is asked for, unless it is empty. -/
def MapsFile (w : World) (c : HttpConn) : Prop :=
  ∀ path ∈ askedFile w c, ∀ st, w.stat path = some st → st.size ≠ 0 →
    ∃ a, w.mmap path = .mapped a

/-- A worker that runs `process` finds `m_file_address` null, and `mmap` fails for the file that
is asked for only when it is empty. -/
def FileGuard (s : MapSlot) : MapAction → Prop
  | .work w => s.conn.fileAddress = .null ∧ MapsFile w s.conn
  | _ => True

/-- The account of the calls is the mapping that the object knows, and a response
is never sent from `MAP_FAILED`. -/
structure Accounted (s : MapSlot) : Prop where
  account : exec ledgerStep none s.calls = some (held s.conn)
  sockfd : s.isOpen → s.conn.sockfd ≠ none
  output : s.isOpen → s.armed = some .output → s.conn.fileAddress ≠ .mapFailed

theorem Accounted.ledgerOk {s : MapSlot} (h : Accounted s) : LedgerOk s.calls := by
  unfold LedgerOk
  rw [h.account]
  rfl

/-- A step that leaves the file and the calls alone, and does not arm a slot for
`EPOLLOUT`. -/
theorem Accounted.of_same {s s' : MapSlot} (h : Accounted s) (haddr : SameFile s.conn s'.conn)
    (hcalls : s'.calls = s.calls) (hopen : s'.isOpen → s'.conn.sockfd ≠ none)
    (harmed : s'.isOpen → s'.armed ≠ some .output) : Accounted s' :=
  ⟨by rw [hcalls, held_congr haddr]; exact h.account, hopen,
    fun ho ha => absurd ha (harmed ho)⟩

theorem Accounted.accept {s : MapSlot} (h : Accounted s) (sockfd : Nat) :
    Accounted { s with
      conn := s.conn.initSockfd sockfd
      isOpen := true
      armed := some .input } :=
  ⟨h.account, fun _ => Option.some_ne_none _, fun _ ha => by cases ha⟩

theorem Accounted.close {s : MapSlot} (h : Accounted s) : Accounted s.close :=
  ⟨h.account, fun ho => absurd ho Bool.false_ne_true, fun ho => absurd ho Bool.false_ne_true⟩

theorem Accounted.runOp_modfd {s : MapSlot} (ev : Interest)
    (haccount : exec ledgerStep none s.calls = some (held s.conn))
    (hsock : s.isOpen → s.conn.sockfd ≠ none)
    (hfile : ev = .output → s.conn.fileAddress ≠ .mapFailed) :
    Accounted (s.runOp (.modfd ev)) := by
  unfold MapSlot.runOp
  simp only
  split_ifs with hopen
  · exact ⟨haccount, hsock, fun _ ha => hfile (Option.some.inj ha)⟩
  · exact ⟨haccount, hsock, fun ho _ => absurd ⟨ho, hsock ho⟩ hopen⟩

theorem Accounted.runOp_closeConn {s : MapSlot}
    (haccount : exec ledgerStep none s.calls = some (held s.conn))
    (hsock : s.isOpen → s.conn.sockfd ≠ none) :
    Accounted (s.runOp .closeConn) ∧ ¬(s.runOp .closeConn).isOpen := by
  unfold MapSlot.runOp
  simp only
  split_ifs with hnone
  · have hclosed : ¬s.isOpen := fun ho => hsock ho hnone
    exact ⟨⟨haccount, hsock, fun ho => absurd ho hclosed⟩, hclosed⟩
  · exact ⟨⟨haccount, fun ho => absurd ho Bool.false_ne_true,
      fun ho => absurd ho Bool.false_ne_true⟩, Bool.false_ne_true⟩

theorem runOp_modfd_closed {s : MapSlot} (ev : Interest) (h : ¬s.isOpen) :
    s.runOp (.modfd ev) = s := by
  unfold MapSlot.runOp
  simp only
  rw [if_neg (fun hc => h hc.1)]

/-- The calls of `process` on the socket, when a response that is armed for does
not come from `MAP_FAILED`. -/
theorem Accounted.runOps {s : MapSlot} (writeRet : Bool)
    (haccount : exec ledgerStep none s.calls = some (held s.conn))
    (hsock : s.isOpen → s.conn.sockfd ≠ none)
    (hfile : writeRet = true → s.conn.fileAddress ≠ .mapFailed) :
    Accounted ((answerOps writeRet).foldl MapSlot.runOp s) := by
  cases writeRet with
  | true => exact runOp_modfd .output haccount hsock (fun _ => hfile rfl)
  | false =>
      obtain ⟨hbal, hclosed⟩ := runOp_closeConn haccount hsock
      have hlast := runOp_modfd_closed .output hclosed
      change Accounted ((s.runOp .closeConn).runOp (.modfd .output))
      rw [hlast]
      exact hbal

/-- The worker finds `m_file_address` null. -/
theorem Accounted.work {s : MapSlot} {w : World} {c : HttpConn} {ops : List SockOp}
    {calls : List MapCall} (h : Accounted s) (hnull : s.conn.fileAddress = .null)
    (hmaps : MapsFile w s.conn) (hsock : c.sockfd = s.conn.sockfd)
    (hfile : ProcessFile w s.conn c ops calls) :
    Accounted (ops.foldl MapSlot.runOp { s with
      conn := c
      queued := s.queued - 1
      calls := s.calls ++ calls }) := by
  have haccount := h.account
  rw [held_of_null hnull] at haccount
  have hopen : s.isOpen → c.sockfd ≠ none := fun ho => hsock ▸ h.sockfd ho
  generalize hm : { s with conn := c, queued := s.queued - 1, calls := s.calls ++ calls } = m
  have hmopen : m.isOpen → m.conn.sockfd ≠ none := by
    rw [← hm]
    exact hopen
  rcases hfile with haddr | ⟨writeRet, haddr⟩ | ⟨writeRet, hasked, hstat, haddr, hempty⟩
  · have hkept : m.conn.fileAddress = .null := by
      rw [← hm]
      exact haddr.trans hnull
    refine runOp_modfd .input ?_ hmopen (fun hev => by cases hev)
    rw [held_of_null hkept, ← hm, List.append_nil]
    exact haccount
  · have hkept : m.conn.fileAddress = .null := by
      rw [← hm]
      exact haddr.trans hnull
    refine runOps writeRet ?_ hmopen (fun _ => by rw [hkept]; decide)
    rw [held_of_null hkept, ← hm, List.append_nil]
    exact haccount
  · rw [← hm]
    rw [← hm] at hmopen
    refine runOps writeRet ?_ hmopen ?_
    · refine exec_append haccount ?_
      unfold held
      simp only
      cases c.fileAddress <;> rfl
    · intro hret
      obtain ⟨a, ha⟩ := hmaps _ hasked _ hstat (fun h0 => by
        rw [hempty h0] at hret
        cases hret)
      change c.fileAddress ≠ .mapFailed
      rw [haddr, ha]
      exact FileAddress.noConfusion

theorem exec_unmapCalls {c : HttpConn} (h : c.fileAddress ≠ .mapFailed) :
    exec ledgerStep (held c) (unmapCalls c) = some none := by
  unfold held unmapCalls
  rcases haddr : c.fileAddress with _ | _ | a
  · rfl
  · exact absurd haddr h
  · simp [exec, ledgerStep]

/-- The end of a response gives the mapping back. -/
theorem Accounted.unmapped {s : MapSlot} {c : HttpConn} (h : Accounted s) (hopen : s.isOpen)
    (harmed : s.armed = some .output) (haddr : c.fileAddress = .null) :
    exec ledgerStep none (s.calls ++ unmapCalls s.conn) = some (held c) := by
  rw [held_of_null haddr]
  exact exec_append h.account (exec_unmapCalls (h.output hopen harmed))

/-- A step under the guard keeps the account. -/
theorem Accounted.step {s s' : MapSlot} {a : MapAction} (h : Accounted s) (hg : FileGuard s a)
    (hs : mapStep s a = some s') : Accounted s' := by
  rcases mapStep_inv hs with sockfd | ⟨hopen, -, hsame⟩ | ⟨-, -, hsame⟩ | ⟨-, hsock, hfile⟩ |
    ⟨hopen, harmed, hsame, -⟩ | ⟨hopen, harmed, hsock, haddr⟩ | ⟨hopen, harmed, haddr⟩ | -
  case accept => exact h.accept sockfd
  case received =>
    exact h.of_same hsame rfl (fun ho => hsame.sockfd ▸ h.sockfd ho) (fun _ ha => by cases ha)
  case readFails =>
    exact h.of_same hsame rfl (fun ho => absurd ho Bool.false_ne_true)
      (fun ho => absurd ho Bool.false_ne_true)
  case work => exact h.work hg.1 hg.2 hsock hfile
  case keeps =>
    -- `init` leaves a mapping where it is
    refine runOp_modfd _ ?_ (fun _ => hsame.sockfd ▸ h.sockfd hopen)
      (fun _ => hsame.address ▸ h.output hopen harmed)
    rw [held_congr hsame]
    exact h.account
  case keepAlive =>
    exact runOp_modfd .input (h.unmapped hopen harmed haddr) (fun _ => hsock ▸ h.sockfd hopen)
      (fun hev => by cases hev)
  case writeEnds =>
    exact ⟨h.unmapped hopen harmed haddr, fun ho => absurd ho Bool.false_ne_true,
      fun ho => absurd ho Bool.false_ne_true⟩
  case hangup => exact h.close

/-! ## The account of a slot -/

theorem accounted_newMapSlot {c : HttpConn} (h : c.fileAddress = .null) :
    Accounted (newMapSlot c) :=
  ⟨by rw [newMapSlot, held_of_null h]; rfl, fun ho => absurd ho Bool.false_ne_true,
    fun ho => absurd ho Bool.false_ne_true⟩

/-- Over every run of a slot whose steps meet the guard, the calls of `mmap` and
`munmap` balance. -/
theorem always_ledgerOk {c : HttpConn} (h : c.fileAddress = .null) (as : List MapAction)
    (hall : AllSteps mapStep FileGuard (newMapSlot c) as) :
    Always mapStep (fun s => LedgerOk s.calls) (newMapSlot c) as :=
  always_of_invariant Accounted FileGuard (fun _ _ _ hb hg hs => hb.step hg hs)
    (fun _ hb => hb.ledgerOk) (accounted_newMapSlot h) hall

/-- A world with one file, readable by others, and the answer of `mmap` for it. -/
def oneFile (size : Nat) (address : FileAddress) : World :=
  ⟨UserMap.empty, fun _ => true, fun _ => some ⟨size, true, false⟩, fun _ => address⟩

/-- A connection that asks for a file, up to the worker. -/
def requestFile (w : World) : List MapAction :=
  [.accept 5, .input [.data (ascii "GET /a HTTP/1.1\r\n\r\n"), .again] true, .work w]

/-- The worker finds `m_file_address` null. -/
def NullGuard (s : MapSlot) : MapAction → Prop
  | .work _ => s.conn.fileAddress = .null
  | _ => True

instance (s : MapSlot) (a : MapAction) : Decidable (NullGuard s a) := by
  unfold NullGuard
  split <;> infer_instance

/-- A file that is sent in two parts. -/
def sentFile : List MapAction :=
  requestFile (oneFile 10 (.mapped 4096)) ++ [.output [.sent 60, .again], .output [.sent 6]]

theorem always_ledgerOk_sent :
    ∃ s : MapSlot, s.calls = [.mmap (.mapped 4096) 10, .munmap (.mapped 4096) 10] ∧
      LedgerOk s.calls := by
  have hnull : AllSteps mapStep NullGuard (newMapSlot HttpConn.blank) sentFile := by
    decide
  have hall : AllSteps mapStep FileGuard (newMapSlot HttpConn.blank) sentFile := by
    refine hnull.weaken ?_
    intro s a ha hg
    simp only [sentFile, requestFile, List.cons_append, List.nil_append, List.mem_cons,
      List.not_mem_nil, or_false] at ha
    rcases ha with rfl | rfl | rfl | rfl | rfl
    · trivial
    · trivial
    · exact ⟨hg, fun _ _ _ _ _ => ⟨4096, rfl⟩⟩
    · trivial
    · trivial
  exact (always_ledgerOk (c := HttpConn.blank) rfl sentFile hall).exists_last
    (fun s : MapSlot => s.calls = [.mmap (.mapped 4096) 10, .munmap (.mapped 4096) 10])
    (by decide)

/-- A hang-up before the response is sent loses a mapping, and the `MAP_FAILED` of
an empty file reaches `munmap` at the end of a later response. -/
theorem not_always_ledgerOk_hangup :
    ¬ Always mapStep (fun s => LedgerOk s.calls) (newMapSlot HttpConn.blank)
        (requestFile (oneFile 10 (.mapped 4096)) ++ [.hangup] ++
          requestFile (oneFile 10 (.mapped 8192))) ∧
    ¬ Always mapStep (fun s => LedgerOk s.calls) (newMapSlot HttpConn.blank)
        (requestFile (oneFile 0 .mapFailed) ++
          requestFile ⟨UserMap.empty, fun _ => true, fun _ => some ⟨10, false, false⟩,
            fun _ => .mapFailed⟩ ++ [.output [.sent 200]]) := by
  constructor
  · intro h
    obtain ⟨s, hcalls, hok⟩ := h.exists_last (fun s : MapSlot =>
      s.calls = [.mmap (.mapped 4096) 10, .mmap (.mapped 8192) 10]) (by decide +kernel)
    rw [hcalls] at hok
    exact absurd hok (by decide)
  · intro h
    obtain ⟨s, hcalls, hok⟩ := h.exists_last (fun s : MapSlot =>
      s.calls = [.mmap .mapFailed 0, .munmap .mapFailed 10]) (by decide +kernel)
    rw [hcalls] at hok
    exact absurd hok (by decide)

/-! ## When the guard holds -/

/-- A connection gets the slot when `m_file_address` is null and no request of the
slot is queued, `write` has bytes to send when a file is mapped, and `mmap` fails
for the file that is asked for only when it is empty. -/
def ReuseGuard (s : MapSlot) : MapAction → Prop
  | .accept _ => s.conn.fileAddress = .null ∧ s.queued = 0
  | .work w => MapsFile w s.conn
  | .output _ => s.conn.bytesToSend = 0 → s.conn.fileAddress = .null
  | _ => True

/-- One request of the slot is under way at a time, and `m_file_address` is set
while its response is sent. -/
structure OneRequest (s : MapSlot) : Prop where
  queue : s.queued ≤ 1
  waiting : s.queued = 1 → s.isOpen → s.armed = none
  file : s.conn.fileAddress ≠ .null →
    s.queued = 0 ∧ (s.isOpen → s.armed = some .output)
  sockfd : s.isOpen → s.conn.sockfd ≠ none

/-- The epoll descriptor is armed again, with no request queued. -/
theorem OneRequest.runOp_modfd {s : MapSlot} (ev : Interest) (hqueue : s.queued = 0)
    (hsock : s.isOpen → s.conn.sockfd ≠ none)
    (hfile : s.conn.fileAddress ≠ .null → ev = .output) : OneRequest (s.runOp (.modfd ev)) := by
  have hwait : ∀ armed : Option Interest, s.queued = 1 → s.isOpen → armed = none := by
    intro armed hq
    omega
  unfold MapSlot.runOp
  simp only
  split_ifs with hopen
  · exact ⟨by simp only; omega, hwait _, fun ha => ⟨hqueue, fun _ => by rw [hfile ha]⟩, hsock⟩
  · exact ⟨by omega, hwait _, fun ha => ⟨hqueue, fun ho => absurd ⟨ho, hsock ho⟩ hopen⟩, hsock⟩

theorem OneRequest.runOps {s : MapSlot} (writeRet : Bool) (hqueue : s.queued = 0)
    (hsock : s.isOpen → s.conn.sockfd ≠ none) :
    OneRequest ((answerOps writeRet).foldl MapSlot.runOp s) := by
  cases writeRet with
  | true => exact runOp_modfd .output hqueue hsock (fun _ => rfl)
  | false =>
      change OneRequest ((s.runOp .closeConn).runOp (.modfd .output))
      refine runOp_modfd .output ?_ ?_ (fun _ => rfl)
      · unfold MapSlot.runOp
        simp only
        split_ifs
        · exact hqueue
        · exact hqueue
      · intro ho
        unfold MapSlot.runOp at ho ⊢
        simp only at ho ⊢
        split_ifs at ho ⊢ with hnone
        · exact hsock ho
        · exact absurd ho Bool.false_ne_true

/-- A queued request finds `m_file_address` null. -/
theorem OneRequest.null_of_queued {s : MapSlot} (h : OneRequest s) (hq : s.queued ≠ 0) :
    s.conn.fileAddress = .null := by
  by_contra haddr
  exact hq (h.file haddr).1

/-- What is armed is not queued. -/
theorem OneRequest.queued_of_armed {s : MapSlot} (h : OneRequest s) (hopen : s.isOpen)
    {ev : Interest} (harmed : s.armed = some ev) : s.queued = 0 := by
  have hqueue := h.queue
  by_contra hq
  have hnone := h.waiting (by omega) hopen
  rw [harmed] at hnone
  cases hnone

/-- What is armed for `EPOLLIN` has no file. -/
theorem OneRequest.null_of_armed {s : MapSlot} (h : OneRequest s) (hopen : s.isOpen)
    (harmed : s.armed = some .input) : s.conn.fileAddress = .null := by
  by_contra hne
  have hout := (h.file hne).2 hopen
  rw [harmed] at hout
  cases hout

theorem OneRequest.close {s : MapSlot} (h : OneRequest s) {c : HttpConn} {calls : List MapCall}
    (hfile : c.fileAddress ≠ .null → s.queued = 0) :
    OneRequest (MapSlot.close { s with conn := c, calls := calls }) :=
  ⟨h.queue, fun _ ho => absurd ho Bool.false_ne_true,
    fun hne => ⟨hfile hne, fun ho => absurd ho Bool.false_ne_true⟩,
    fun ho => absurd ho Bool.false_ne_true⟩

theorem OneRequest.step {s s' : MapSlot} {a : MapAction} (h : OneRequest s)
    (hg : ReuseGuard s a) (hs : mapStep s a = some s') : OneRequest s' := by
  have hqueue := h.queue
  rcases mapStep_inv hs with sockfd | ⟨hopen, harmed, hsame⟩ | ⟨hopen, harmed, hsame⟩ |
    ⟨hqueued, hsock, hfile⟩ | ⟨hopen, harmed, hsame, hev⟩ | ⟨hopen, harmed, hsock, haddr⟩ |
    ⟨hopen, harmed, haddr⟩ | hopen
  case accept =>
    obtain ⟨hnull, hzero⟩ := hg
    exact ⟨h.queue, fun hq => absurd (hzero.symm.trans hq) Nat.zero_ne_one,
      fun hne => absurd hnull hne, fun _ => Option.some_ne_none _⟩
  case received =>
    have hnull := hsame.address.trans (h.null_of_armed hopen harmed)
    have hzero := h.queued_of_armed hopen harmed
    refine ⟨?_, fun _ _ => rfl, fun hne => absurd hnull hne,
      fun ho => hsame.sockfd ▸ h.sockfd ho⟩
    simp only
    split <;> omega
  case readFails => exact h.close (fun _ => h.queued_of_armed hopen harmed)
  case work =>
    have hzero : s.queued - 1 = 0 := by omega
    have hsockfd : s.isOpen → _ := fun ho => hsock ▸ h.sockfd ho
    rcases hfile with haddr | ⟨writeRet, -⟩ | ⟨writeRet, -, -, -, -⟩
    · exact runOp_modfd .input hzero hsockfd
        (fun hne => absurd (haddr.trans (h.null_of_queued hqueued)) hne)
    · exact runOps writeRet hzero hsockfd
    · exact runOps writeRet hzero hsockfd
  case keeps ev =>
    refine runOp_modfd ev (h.queued_of_armed hopen harmed)
      (fun _ => hsame.sockfd ▸ h.sockfd hopen) (fun hne => ?_)
    rcases ev with _ | _
    · exact absurd (hsame.address.trans (hg (hev rfl))) hne
    · rfl
  case keepAlive =>
    exact runOp_modfd .input (h.queued_of_armed hopen harmed) (fun _ => hsock ▸ h.sockfd hopen)
      (fun hne => absurd haddr hne)
  case writeEnds => exact h.close (fun hne => absurd haddr hne)
  case hangup => exact h.close (fun hne => (h.file hne).1)

/-- When the slot is reused only with `m_file_address` null and nothing queued,
every worker finds `m_file_address` null. -/
theorem fileGuard_of_reuseGuard {c : HttpConn} (h : c.fileAddress = .null)
    {as : List MapAction} {s' : MapSlot} (hall : AllSteps mapStep ReuseGuard (newMapSlot c) as)
    (hexec : exec mapStep (newMapSlot c) as = some s') :
    AllSteps mapStep FileGuard (newMapSlot c) as := by
  have hnew : OneRequest (newMapSlot c) :=
    ⟨Nat.zero_le _, fun hq => absurd hq Nat.zero_ne_one, fun hne => absurd h hne,
      fun ho => absurd ho Bool.false_ne_true⟩
  refine hall.of_invariant OneRequest (fun s a s' hinv hg hs => hinv.step hg hs) ?_ hnew hexec
  intro s a s' hinv hg hs
  cases a with
  | work w =>
      rcases mapStep_inv hs with _ | _ | _ | ⟨hqueued, -, -⟩
      exact ⟨hinv.null_of_queued hqueued, hg⟩
  | _ => trivial

end EasyWebServer.Post
