import EasyWebServer.Post.Mappings
import EasyWebServer.Post.OneShot

/-!
# The whole server

`Server` leaves open what a handler answers, and `MapSlot` is one connection
object without the others.  `WebServer` has both: the shared state, the array
`users` and the user map.  Its steps run `read_once`, `process` and `write` on
the object of the event, and what these answer decides how the step goes on.

The lemmas do two things:

* every run of the whole server is a run of `Server` (`webServer_refines`), so
  what holds of its runs holds here;
* the object of each slot goes through a run of `MapSlot` (`webServer_slot`), on
  what its own connections send and take, as long as `accept` gets no slot that
  still waits for a worker, or that a worker has taken.  The other slots, the
  timers and the pool change nothing of it.
-/

namespace EasyWebServer.Post

open CString HttpConn Server Transition

/-! ## The state and the steps -/

/-- The server with its connections.  `calls` records the calls of `mmap` and
`munmap` for each slot. -/
structure WebServer where
  server : Server
  users : Nat → HttpConn
  accounts : UserMap
  calls : Nat → List MapCall

/-- The start of `main`, with the accounts that `initmysql_result` has read. -/
def startWeb (accounts : UserMap) : WebServer where
  server := startServer
  users := fun _ => HttpConn.blank
  accounts := accounts
  calls := fun _ => []

/-- A step of the server.  What a socket, a file or the database answers belongs to it. -/
inductive WebAction where
  /-- A step that runs no member function of a connection. -/
  | loop (a : ServerAction)
  /-- `accept` returns a descriptor, and the connection is admitted. -/
  | accept (connfd : Nat)
  | readOnce (fd : Nat) (outcomes : List RecvOutcome)
  | write (fd : Nat) (outcomes : List WritevOutcome)
  /-- A worker runs `process`.  The user map of `w` is the one of the server. -/
  | process (fd : Nat) (w : World)

/-- No member function of a connection runs.  A connection that is refused gets none. -/
def ServerAction.plain (s : Server) : ServerAction → Bool
  | .accept => decide ((MAX_FD : Int) ≤ s.userCount)
  | .readOnce _ => false
  | .write _ => false
  | .process _ _ _ => false
  | _ => true

/-- `process` with the two values that decide its calls on the socket. -/
def runProcess (w : World) (c : HttpConn) :
    Except Fault (HttpCode × Bool × HttpConn × World) :=
  match processRead w c with
  | .error f => .error f
  | .ok (.noRequest, c, w) => .ok (.noRequest, true, c, w)
  | .ok (code, c, w) => .ok (code, (processWrite c code).1, (processWrite c code).2, w)

/-- `close_conn` takes the descriptor from the object. -/
def HttpConn.afterOps (c : HttpConn) (ops : List SockOp) : HttpConn :=
  if .closeConn ∈ ops then { c with sockfd := none } else c

/-- One step.  There is none behind an undefined behaviour of `process`. -/
def webStep (cfg : Config) (w : WebServer) : WebAction → Option WebServer
  | .loop a =>
      if a.plain w.server then
        (serverStep cfg w.server a).map (fun s => { w with server := s })
      else none
  | .accept connfd =>
      if w.server.userCount < MAX_FD ∧ connfd = w.server.lowestFree cfg then
        (serverStep cfg w.server .accept).map (fun s => { w with
          server := s
          users := Function.update w.users connfd ((w.users connfd).initSockfd connfd) })
      else none
  | .readOnce fd outcomes =>
      if w.server.pending.head? = some (.client fd .input) then
        match Post.readOnce (w.users fd) outcomes with
        | none => none
        | some (ok, c) =>
            (serverStep cfg w.server (.readOnce ok)).map (fun s => { w with
              server := s
              users := Function.update w.users fd c })
      else none
  | .write fd outcomes =>
      if w.server.pending.head? = some (.client fd .output) then
        match Post.write (w.users fd) outcomes with
        | none => none
        | some (exit, c) =>
            (serverStep cfg w.server (.write exit)).map (fun s => { w with
              server := s
              users := Function.update w.users fd c
              calls := Function.update w.calls fd
                (w.calls fd ++ writeCalls (w.users fd) outcomes) })
      else none
  | .process fd world =>
      match runProcess { world with users := w.accounts } (w.users fd) with
      | .error _ => none
      | .ok (code, writeRet, c, world') =>
          (serverStep cfg w.server (.process fd code writeRet)).map (fun s => { w with
            server := s
            users := Function.update w.users fd (c.afterOps (processOps code writeRet))
            accounts := world'.users
            calls := Function.update w.calls fd (w.calls fd ++
              processCalls { world with users := w.accounts } (w.users fd)) })

/-- What a step does. -/
inductive WebMove (cfg : Config) (w : WebServer) : WebAction → WebServer → Prop where
  | loop {a : ServerAction} {s : Server} (hplain : a.plain w.server = true)
      (hstep : serverStep cfg w.server a = some s) :
      WebMove cfg w (.loop a) { w with server := s }
  | accept {s : Server} (hroom : w.server.userCount < MAX_FD)
      (hstep : serverStep cfg w.server .accept = some s) :
      WebMove cfg w (.accept (w.server.lowestFree cfg)) { w with
        server := s
        users := Function.update w.users (w.server.lowestFree cfg)
          ((w.users (w.server.lowestFree cfg)).initSockfd (w.server.lowestFree cfg)) }
  | readOnce {fd : Nat} {outcomes : List RecvOutcome} {ok : Bool} {c : HttpConn} {s : Server}
      {rest : List Event} (hpending : w.server.pending = .client fd .input :: rest)
      (hread : Post.readOnce (w.users fd) outcomes = some (ok, c))
      (hstep : serverStep cfg w.server (.readOnce ok) = some s) :
      WebMove cfg w (.readOnce fd outcomes) { w with
        server := s
        users := Function.update w.users fd c }
  | write {fd : Nat} {outcomes : List WritevOutcome} {exit : WriteExit} {c : HttpConn} {s : Server}
      {rest : List Event} (hpending : w.server.pending = .client fd .output :: rest)
      (hwrite : Post.write (w.users fd) outcomes = some (exit, c))
      (hstep : serverStep cfg w.server (.write exit) = some s) :
      WebMove cfg w (.write fd outcomes) { w with
        server := s
        users := Function.update w.users fd c
        calls := Function.update w.calls fd (w.calls fd ++ writeCalls (w.users fd) outcomes) }
  | process {fd : Nat} {world world' : World} {code : HttpCode} {writeRet : Bool} {c : HttpConn}
      {s : Server}
      (hprocess : runProcess { world with users := w.accounts } (w.users fd) =
        .ok (code, writeRet, c, world'))
      (hstep : serverStep cfg w.server (.process fd code writeRet) = some s) :
      WebMove cfg w (.process fd world) { w with
        server := s
        users := Function.update w.users fd (c.afterOps (processOps code writeRet))
        accounts := world'.users
        calls := Function.update w.calls fd (w.calls fd ++
          processCalls { world with users := w.accounts } (w.users fd)) }

theorem webStep_inv {cfg : Config} {w w' : WebServer} {a : WebAction}
    (h : webStep cfg w a = some w') : WebMove cfg w a w' := by
  cases a with
  | loop a =>
      rw [webStep] at h
      split at h
      · obtain ⟨s, hstep, rfl⟩ := Option.map_eq_some_iff.mp h
        exact .loop ‹_› hstep
      · cases h
  | accept connfd =>
      rw [webStep] at h
      split at h
      · rename_i hcond
        obtain ⟨s, hstep, rfl⟩ := Option.map_eq_some_iff.mp h
        obtain ⟨hroom, rfl⟩ := hcond
        exact .accept hroom hstep
      · cases h
  | readOnce fd outcomes =>
      rw [webStep] at h
      split at h
      · rename_i hhead
        obtain ⟨rest, hpending⟩ := List.head?_eq_some_iff.mp hhead
        split at h
        · cases h
        · obtain ⟨s, hstep, rfl⟩ := Option.map_eq_some_iff.mp h
          exact .readOnce hpending ‹_› hstep
      · cases h
  | write fd outcomes =>
      rw [webStep] at h
      split at h
      · rename_i hhead
        obtain ⟨rest, hpending⟩ := List.head?_eq_some_iff.mp hhead
        split at h
        · cases h
        · obtain ⟨s, hstep, rfl⟩ := Option.map_eq_some_iff.mp h
          exact .write hpending ‹_› hstep
      · cases h
  | process fd world =>
      rw [webStep] at h
      split at h
      · cases h
      · obtain ⟨s, hstep, rfl⟩ := Option.map_eq_some_iff.mp h
        exact .process ‹_› hstep

/-- Every step of the whole server is, for its shared state, a step of `Server`. -/
theorem webStep_server {cfg : Config} {w w' : WebServer} {a : WebAction}
    (h : webStep cfg w a = some w') : ∃ b, serverStep cfg w.server b = some w'.server := by
  cases webStep_inv h with
  | loop _ hserver => exact ⟨_, hserver⟩
  | accept _ hserver => exact ⟨_, hserver⟩
  | readOnce _ _ hserver => exact ⟨_, hserver⟩
  | write _ _ hserver => exact ⟨_, hserver⟩
  | process _ hserver => exact ⟨_, hserver⟩

/-- Every run of the whole server is a run of `Server`. -/
theorem webServer_refines {cfg : Config} {accounts : UserMap} {as : List WebAction} {w : WebServer}
    (h : exec (webStep cfg) (startWeb accounts) as = some w) :
    Reachable (serverStep cfg) startServer w.server :=
  exec_reachable WebServer.server (fun _ _ _ hstep => .inr (webStep_server hstep)) h

/-- `process` makes the calls for its code and its answer. -/
theorem process_eq (w : World) (c : HttpConn) :
    process w c = (runProcess w c).map (fun r => (processOps r.1 r.2.1, r.2.2.1, r.2.2.2)) := by
  have hops : ∀ code ≠ HttpCode.noRequest, ∀ writeRet,
      processOps code writeRet = (if writeRet then [] else [.closeConn]) ++ [.modfd .output] := by
    intro code hcode writeRet
    rw [processOps, if_neg hcode, closes]
    cases writeRet <;> simp [hcode]
  rw [process, runProcess]
  rcases processRead w c with f | ⟨code, d, v⟩
  · rfl
  · rcases eq_or_ne code .noRequest with rfl | hcode
    · rfl
    · cases code <;> first | exact absurd rfl hcode | (simp only [Except.map]; rw [hops _ hcode])

theorem write_sockfd {c c' : HttpConn} {os : List WritevOutcome} {exit : WriteExit}
    (h : write c os = some (exit, c')) : c'.sockfd = c.sockfd := by
  have hfile := write_file h
  generalize writeCalls c os = calls at hfile
  rcases hfile with ⟨-, -, hsame, -⟩ | hsame | ⟨-, hsock, -⟩
  · exact hsame.sockfd
  · exact hsame.sockfd
  · exact hsock

/-! ## What a step of the server leaves of a slot -/

/-- The slot `fd` is where it was, or an event of it is reported or taken. -/
structure SlotKept (fd : Nat) (s s' : Server) : Prop where
  isOpen : fd ∈ s'.fds ↔ fd ∈ s.fds
  armed : ∀ ev, s'.armed fd = some ev → s.armed fd = some ev
  sockfd : (s'.slots fd).sockfd = (s.slots fd).sockfd
  places : s'.workqueue.count fd + s'.processing.count fd =
    s.workqueue.count fd + s.processing.count fd
  input : .client fd .input ∈ s'.pending →
    .client fd .input ∈ s.pending ∨ s.armed fd = some .input
  output : .client fd .output ∈ s'.pending →
    .client fd .output ∈ s.pending ∨ s.armed fd = some .output

/-- The connection of the slot `fd` is closed. -/
structure SlotClosed (fd : Nat) (s s' : Server) : Prop where
  closed : fd ∉ s'.fds
  armed : s'.armed fd = none
  sockfd : (s'.slots fd).sockfd = (s.slots fd).sockfd
  places : s'.workqueue.count fd + s'.processing.count fd =
    s.workqueue.count fd + s.processing.count fd
  pending : fd ∉ s'.pendingFds

/-- An event of a client is one of its descriptor. -/
theorem mem_pendingFds {s : Server} {fd : Nat} {kind : EventKind}
    (h : .client fd kind ∈ s.pending) : fd ∈ s.pendingFds := List.mem_filterMap.mpr ⟨_, h, rfl⟩

namespace SlotKept

variable {fd g : Nat} {s s₁ s' : Server}

/-- The steps that do not look at the slot. -/
theorem of_eq (hfds : s'.fds = s.fds) (harmed : s'.armed = s.armed) (hslots : s'.slots = s.slots)
    (hplaces : s'.workqueue.count fd + s'.processing.count fd =
      s.workqueue.count fd + s.processing.count fd)
    (hpending : ∀ e ∈ s'.pending, e ∈ s.pending) : SlotKept fd s s' where
  isOpen := by rw [hfds]
  armed := by
    rw [harmed]
    exact fun _ h => h
  sockfd := by rw [hslots]
  places := hplaces
  input := fun h => .inl (hpending _ h)
  output := fun h => .inl (hpending _ h)

theorem trans (h : SlotKept fd s s₁) (h' : SlotKept fd s₁ s') : SlotKept fd s s' where
  isOpen := h'.isOpen.trans h.isOpen
  armed := fun ev hev => h.armed ev (h'.armed ev hev)
  sockfd := h'.sockfd.trans h.sockfd
  places := h'.places.trans h.places
  input := fun hin => (h'.input hin).elim h.input (fun hev => .inr (h.armed _ hev))
  output := fun hout => (h'.output hout).elim h.output (fun hev => .inr (h.armed _ hev))

/-- An event is taken. -/
theorem takeEvent {e : Event} {rest : List Event} (hpending : s.pending = e :: rest) :
    SlotKept fd s { s with pending := rest } :=
  of_eq rfl rfl rfl rfl (fun e' he' => by rw [hpending]; exact List.mem_cons_of_mem e he')

/-- Another descriptor is closed. -/
theorem close (s : Server) (hne : fd ≠ g) : SlotKept fd s (s.close g) where
  isOpen := by
    show fd ∈ s.fds.erase g ↔ _
    rw [AList.mem_erase]
    exact ⟨And.right, fun hmem => ⟨hne, hmem⟩⟩
  armed := by
    intro ev hev
    rwa [close_armed, if_neg hne] at hev
  sockfd := rfl
  places := rfl
  input := .inl
  output := .inl

/-- Another descriptor is armed. -/
theorem arm (s : Server) (ev : Interest) (hne : fd ≠ g) : SlotKept fd s (s.arm g ev) := by
  rw [Server.arm]
  split
  · refine ⟨Iff.rfl, ?_, rfl, rfl, .inl, .inl⟩
    intro ev' hev'
    exact (Function.update_of_ne hne _ s.armed).symm.trans hev'
  · exact of_eq rfl rfl rfl rfl (fun _ h => h)

/-- A timer is moved, and the time of a connection. -/
theorem refresh (fd : Nat) (s : Server) (g : Nat) : SlotKept fd s ((s.touch g).renewTimer g) := by
  have hsame := refresh_same s g
  have hslots : ((s.touch g).renewTimer g).slots = s.slots := by
    rw [renewTimer]
    split
    · exact touch_slots s g
    · split <;> exact touch_slots s g
  exact of_eq hsame.fds hsame.armed hslots (by rw [hsame.workqueue, hsame.processing])
    (fun e he => hsame.pending ▸ he)

/-- The main loop closes another connection. -/
theorem closeEvent (hok : SlotsOk s) (htracks : Tracks s g) (hne : fd ≠ g) :
    SlotKept fd s (s.closeEvent g) := by
  obtain ⟨t, timers, -, -, heq⟩ := closeEvent_eq hok.live htracks
  have hclose := close s hne
  rw [heq]
  exact ⟨hclose.isOpen, hclose.armed, hclose.sockfd, hclose.places, hclose.input, hclose.output⟩

/-- A worker or `write` makes its calls on another socket. -/
theorem sockOps (hok : SlotsOk s) (hne : fd ≠ g) (ops : List SockOp) :
    SlotKept fd s (s.sockOps g ops) := by
  induction ops generalizing s with
  | nil => exact of_eq rfl rfl rfl rfl (fun _ h => h)
  | cons op ops ih =>
      refine trans ?_ (ih (hok.sockOp g op))
      rcases sockOp_eq (hok.sockfd g) op with ⟨-, heq⟩ | ⟨ev, -, heq⟩ | ⟨-, -, heq⟩
      · rw [heq]
        exact of_eq rfl rfl rfl rfl (fun _ h => h)
      · rw [heq]
        exact arm s ev hne
      · have hclose := close s hne
        rw [heq]
        refine ⟨hclose.isOpen, hclose.armed, ?_, hclose.places, hclose.input, hclose.output⟩
        show (Function.update s.slots g _ fd).sockfd = _
        rw [Function.update_of_ne hne]

/-- The main loop handles an input of another slot. -/
theorem handleInput (hok : SlotsOk s) (cfg : Config) (htracks : Tracks s g) (ok : Bool)
    (hne : fd ≠ g) : SlotKept fd s (s.handleInput cfg g ok) := by
  rw [Server.handleInput]
  split
  · refine trans ?_ (refresh fd _ g)
    refine of_eq (by rw [append_eq]) (by rw [append_eq]) (by rw [append_eq]) ?_
      (fun e he => by rw [append_eq] at he; exact he)
    rw [append_eq]
    show (if _ then s.workqueue else s.workqueue ++ [g]).count fd + _ = _
    split
    · rfl
    · rw [List.count_append, List.count_singleton, if_neg (by simpa using Ne.symm hne)]
      rfl
  · exact closeEvent hok htracks hne

/-- The main loop handles an output of another slot. -/
theorem handleOutput (hok : SlotsOk s) (htracks : Tracks s g) (exit : WriteExit) (hne : fd ≠ g) :
    SlotKept fd s (s.handleOutput g exit) := by
  have hops := sockOps hok hne exit.ops
  rw [Server.handleOutput]
  show SlotKept fd s (if exit.result then _ else _)
  split
  · exact hops.trans (refresh fd _ g)
  · exact hops.trans (closeEvent (hok.sockOps g exit.ops) (htracks.writeOps exit) hne)

/-- Another connection is admitted. -/
theorem newConn (s : Server) (hne : fd ≠ g) : SlotKept fd s (s.newConn g) where
  isOpen := by
    show fd ∈ s.fds.insert g s.nextConn ↔ _
    rw [AList.mem_insert]
    exact or_iff_right hne
  armed := by
    intro ev hev
    exact (Function.update_of_ne hne _ s.armed).symm.trans hev
  sockfd := by
    show (Function.update s.slots g _ fd).sockfd = _
    rw [Function.update_of_ne hne]
  places := rfl
  input := .inl
  output := .inl

end SlotKept

namespace SlotClosed

variable {fd : Nat} {s s₁ s' : Server}

/-- The main loop closes the connection. -/
theorem closeEvent (hok : SlotsOk s) (htracks : Tracks s fd) (hfd : fd ∉ s.pendingFds) :
    SlotClosed fd s (s.closeEvent fd) := by
  obtain ⟨t, timers, -, -, heq⟩ := closeEvent_eq hok.live htracks
  rw [heq]
  refine ⟨?_, ?_, rfl, rfl, hfd⟩
  · show fd ∉ s.fds.erase fd
    rw [AList.mem_erase]
    exact fun h => h.1 rfl
  · exact Function.update_self fd none s.armed

theorem of_kept (h : SlotKept fd s s₁) (h' : SlotClosed fd s₁ s') : SlotClosed fd s s' :=
  { h' with
    sockfd := h'.sockfd.trans h.sockfd
    places := h'.places.trans h.places }

/-- Nothing opens it again. -/
theorem kept (h : SlotClosed fd s s₁) (h' : SlotKept fd s₁ s') (hpending : s'.pending = []) :
    SlotClosed fd s s' where
  closed := fun hmem => h.closed (h'.isOpen.mp hmem)
  armed := by
    rcases harmed : s'.armed fd with _ | ev
    · rfl
    · have hev := h'.armed ev harmed
      rw [h.armed] at hev
      cases hev
  sockfd := h'.sockfd.trans h.sockfd
  places := h'.places.trans h.places
  pending := by
    rw [pendingFds, hpending]
    exact List.not_mem_nil

end SlotClosed

/-- `write` does not close the descriptor. -/
theorem writeOps_places (s : Server) (fd : Nat) (exit : WriteExit) :
    (s.sockOps fd exit.ops).workqueue.count fd + (s.sockOps fd exit.ops).processing.count fd =
        s.workqueue.count fd + s.processing.count fd ∧
      ((s.sockOps fd exit.ops).slots fd).sockfd = (s.slots fd).sockfd := by
  refine writeOps_rule (P := fun s' => s'.workqueue.count fd + s'.processing.count fd =
    s.workqueue.count fd + s.processing.count fd ∧ (s'.slots fd).sockfd = (s.slots fd).sockfd)
    fd exit ⟨rfl, rfl⟩ (fun g ev _ => ?_)
  rw [Server.arm]
  split <;> exact ⟨rfl, rfl⟩

/-- The end of a batch closes the connection of a slot, or leaves it. -/
theorem endBatch_slot {s : Server} (hok : SlotsOk s) (hpending : s.pending = []) (fd : Nat) :
    SlotKept fd s s.endBatch ∨ SlotClosed fd s s.endBatch := by
  refine (endBatch_rule (fun s' => SlotKept fd s s' ∨ SlotClosed fd s s') hok hpending
    (.inl (.of_eq rfl rfl rfl rfl (fun _ h => h))) ?_ ?_).2
  · rintro s' phase timeout (h | h)
    · exact .inl (h.trans (.of_eq rfl rfl rfl rfl (fun _ h => h)))
    · exact .inr ⟨h.closed, h.armed, h.sockfd, h.places, h.pending⟩
  · intro s' t rest u hok' hinv _ hpend hpq hu _
    obtain ⟨hfds, harmed, -, -⟩ := hok'.expireTop_fields hpq hu
    have hnone : (s'.expireTop t u).pending = [] := hpend
    by_cases hfd : fd = u.userData
    · have hclosed : SlotClosed fd s' (s'.expireTop t u) := by
        refine ⟨?_, ?_, rfl, rfl, ?_⟩
        · rw [hfds, hfd, AList.mem_erase]
          exact fun h => h.1 rfl
        · rw [harmed, hfd, Function.update_self]
        · rw [pendingFds, hnone]
          exact List.not_mem_nil
      rcases hinv with h | h
      · exact .inr (hclosed.of_kept h)
      · exact .inr { hclosed with
          sockfd := hclosed.sockfd.trans h.sockfd
          places := hclosed.places.trans h.places }
    · have hclose := SlotKept.close s' hfd
      have hkept : SlotKept fd s' (s'.expireTop t u) := by
        refine ⟨?_, ?_, rfl, rfl, .inl, .inl⟩
        · rw [hfds]
          exact hclose.isOpen
        · rw [harmed]
          exact hclose.armed
      exact hinv.imp (fun h => h.trans hkept) (fun h => h.kept hkept hnone)

/-- The steps that run no member function of a connection: the connection of a slot is closed,
or left. -/
theorem plainStep_slot {cfg : Config} {s s' : Server} {a : ServerAction} (hok : SlotsOk s)
    (hplain : a.plain s = true) (hstep : serverStep cfg s a = some s') (fd : Nat) :
    SlotKept fd s s' ∨ SlotClosed fd s s' := by
  rcases serverStep_inv hstep with _ | ⟨events, -, hbatch⟩ | _ | ⟨rest, hpending, -⟩ |
    ⟨rest, -, hroom⟩ | ⟨rest, hpending⟩ | ⟨rest, alarm, term, hpending⟩ | ⟨rest, g, hpending⟩ |
    _ | _ | ⟨-, hpending⟩ | ⟨rest, g, hqueue⟩ | _
  case advance => exact .inl (.of_eq rfl rfl rfl rfl (fun _ h => h))
  case epollWait =>
    have hreported : ∀ kind, .client fd kind ∈ events → s.Reportable (.client fd kind) :=
      fun kind hmem => hbatch.reportable _ hmem
    refine .inl ⟨Iff.rfl, ?_, rfl, rfl, fun h => .inr (hreported _ h), fun h => .inr (hreported _ h)⟩
    intro ev hev
    change (if fd ∈ events.filterMap Event.fd? then none else s.armed fd) = some ev at hev
    split at hev
    · cases hev
    · exact hev
  case epollFails => exact .inl (.of_eq rfl rfl rfl rfl (fun _ h => h))
  case refuse => exact .inl (.takeEvent hpending)
  case newConn =>
    have hfull := of_decide_eq_true hplain
    omega
  case acceptFails => exact .inl (.takeEvent hpending)
  case signals => exact .inl ((SlotKept.takeEvent hpending).trans
    (.of_eq rfl rfl rfl rfl (fun _ h => h)))
  case hangup =>
    obtain ⟨htracks, hrest⟩ := hok.takeEvent_client hpending
    have htake : SlotKept fd s { s with pending := rest } := .takeEvent hpending
    by_cases hfd : fd = g
    · subst hfd
      exact .inr ((SlotClosed.closeEvent (hok.takeEvent hpending) htracks hrest).of_kept htake)
    · exact .inl (htake.trans (.closeEvent (hok.takeEvent hpending) htracks hfd))
  case input => cases hplain
  case output => cases hplain
  case endBatch => exact endBatch_slot hok hpending fd
  case take =>
    refine .inl (.of_eq rfl rfl rfl ?_ (fun _ h => h))
    show rest.count fd + (s.processing ++ [g]).count fd = _
    rw [hqueue, List.count_append, List.count_cons (l := rest), List.count_singleton]
    omega
  case process => cases hplain

/-! ## A slot of the server and a slot alone -/

/-- The slot `fd` of the server is the slot `m`. -/
structure SlotSeen (fd : Nat) (s : Server) (m : MapSlot) : Prop where
  isOpen : m.isOpen = true ↔ fd ∈ s.fds
  sockfd : m.conn.sockfd = (s.slots fd).sockfd
  places : m.queued = s.workqueue.count fd + s.processing.count fd
  armed : ∀ ev, s.armed fd = some ev → m.armed = some ev
  input : .client fd .input ∈ s.pending → m.armed = some .input
  output : .client fd .output ∈ s.pending → m.armed = some .output

namespace SlotSeen

variable {fd : Nat} {s s' : Server} {m : MapSlot}

theorem kept (h : SlotSeen fd s m) (hkept : SlotKept fd s s') : SlotSeen fd s' m where
  isOpen := h.isOpen.trans hkept.isOpen.symm
  sockfd := h.sockfd.trans hkept.sockfd.symm
  places := h.places.trans hkept.places.symm
  armed := fun ev hev => h.armed ev (hkept.armed ev hev)
  input := fun hin => (hkept.input hin).elim h.input (h.armed _)
  output := fun hout => (hkept.output hout).elim h.output (h.armed _)

theorem closed (h : SlotSeen fd s m) (hclosed : SlotClosed fd s s') {c : HttpConn}
    (hsock : c.sockfd = m.conn.sockfd) (calls : List MapCall) :
    SlotSeen fd s' (MapSlot.close { m with conn := c, calls := calls }) where
  isOpen := iff_of_false Bool.false_ne_true hclosed.closed
  sockfd := (hsock.trans h.sockfd).trans hclosed.sockfd.symm
  places := h.places.trans hclosed.places.symm
  armed := by
    intro ev hev
    rw [hclosed.armed] at hev
    cases hev
  input := fun hmem => absurd (mem_pendingFds hmem) hclosed.pending
  output := fun hmem => absurd (mem_pendingFds hmem) hclosed.pending

/-- A slot that has no connection is closed again. -/
theorem closed_again (h : SlotSeen fd s m) (hclosed : SlotClosed fd s s')
    (hm : m.isOpen = false) : SlotSeen fd s' m where
  isOpen := by
    rw [hm]
    exact iff_of_false Bool.false_ne_true hclosed.closed
  sockfd := h.sockfd.trans hclosed.sockfd.symm
  places := h.places.trans hclosed.places.symm
  armed := by
    intro ev hev
    rw [hclosed.armed] at hev
    cases hev
  input := fun hmem => absurd (mem_pendingFds hmem) hclosed.pending
  output := fun hmem => absurd (mem_pendingFds hmem) hclosed.pending

/-- The main loop has taken the event of the slot. -/
theorem unarm (h : SlotSeen fd s m) (hunarmed : s.armed fd = none) (hidle : fd ∉ s.pendingFds)
    {c : HttpConn} (hsock : c.sockfd = m.conn.sockfd) (calls : List MapCall) :
    SlotSeen fd s { m with conn := c, armed := none, calls := calls } where
  isOpen := h.isOpen
  sockfd := hsock.trans h.sockfd
  places := h.places
  armed := by
    intro ev hev
    rw [hunarmed] at hev
    cases hev
  input := fun hmem => absurd (mem_pendingFds hmem) hidle
  output := fun hmem => absurd (mem_pendingFds hmem) hidle

/-- A request goes to the work queue, unless it is full. -/
theorem append (h : SlotSeen fd s m) (cfg : Config) (hunarmed : s.armed fd = none)
    (hidle : fd ∉ s.pendingFds) {c : HttpConn} (hsock : c.sockfd = m.conn.sockfd) :
    SlotSeen fd (s.append cfg fd).2 { m with
      conn := c
      armed := none
      queued := if (s.append cfg fd).1 then m.queued + 1 else m.queued } := by
  have hunarm := h.unarm hunarmed hidle hsock m.calls
  rw [Server.append]
  split
  · exact hunarm
  · refine { hunarm with places := ?_ }
    show m.queued + 1 = (s.workqueue ++ [fd]).count fd + s.processing.count fd
    rw [h.places, List.count_append, List.count_singleton_self]
    omega

/-- The same call on the socket, while no event of the slot waits. -/
theorem sockOp (h : SlotSeen fd s m) (hok : SlotsOk s) (hidle : fd ∉ s.pendingFds) (op : SockOp) :
    SlotSeen fd (Server.sockOp fd s op) (m.runOp op) ∧
      (Server.sockOp fd s op).pending = s.pending := by
  have hnever : ∀ {P : Prop} {kind}, Event.client fd kind ∈ s.pending → P :=
    fun hmem => absurd (mem_pendingFds hmem) hidle
  rcases hsock : (s.slots fd).sockfd with _ | g
  · -- `m_sockfd` is `-1`.
    have hm : m.conn.sockfd = none := h.sockfd.trans hsock
    have hserver : Server.sockOp fd s op = s := by cases op <;> rw [Server.sockOp, hsock]
    have hslot : m.runOp op = m := by
      cases op
      · exact if_neg (fun hc => hc.2 hm)
      · exact if_pos hm
    rw [hserver, hslot]
    exact ⟨h, rfl⟩
  · obtain rfl := hok.sockfd fd g hsock
    have hm : m.conn.sockfd ≠ none := by
      rw [h.sockfd, hsock]
      exact Option.some_ne_none _
    cases op with
    | modfd ev =>
        have hserver : Server.sockOp g s (.modfd ev) = s.arm g ev := by rw [Server.sockOp, hsock]
        rw [hserver, Server.arm]
        split
        · rename_i hopen
          have hslot : m.runOp (.modfd ev) = { m with armed := some ev } :=
            if_pos ⟨h.isOpen.mpr hopen, hm⟩
          rw [hslot]
          refine ⟨⟨h.isOpen, h.sockfd, h.places, ?_, hnever, hnever⟩, rfl⟩
          intro ev' hev'
          change Function.update s.armed g (some ev) g = some ev' at hev'
          rwa [Function.update_self] at hev'
        · rename_i hclosed
          have hslot : m.runOp (.modfd ev) = m := if_neg (fun hc => hclosed (h.isOpen.mp hc.1))
          rw [hslot]
          exact ⟨h, rfl⟩
    | closeConn =>
        have hserver : Server.sockOp g s .closeConn = s.closeConn g g := by
          rw [Server.sockOp, hsock]
        have hslot : m.runOp .closeConn =
            MapSlot.close { m with conn := { m.conn with sockfd := none } } := if_neg hm
        rw [hserver, hslot]
        refine ⟨⟨?_, ?_, h.places, ?_, hnever, hnever⟩, rfl⟩
        · refine iff_of_false Bool.false_ne_true ?_
          show g ∉ s.fds.erase g
          rw [AList.mem_erase]
          exact fun hmem => hmem.1 rfl
        · show none = (Function.update s.slots g { s.slots g with sockfd := none } g).sockfd
          rw [Function.update_self]
        · intro ev hev
          change Function.update s.armed g none g = some ev at hev
          rw [Function.update_self] at hev
          cases hev

/-- The calls of `process` or of `write`. -/
theorem sockOps (h : SlotSeen fd s m) (hok : SlotsOk s) (hidle : fd ∉ s.pendingFds)
    (ops : List SockOp) :
    SlotSeen fd (s.sockOps fd ops) (ops.foldl MapSlot.runOp m) ∧
      (s.sockOps fd ops).pending = s.pending := by
  induction ops generalizing s m with
  | nil => exact ⟨h, rfl⟩
  | cons op ops ih =>
      obtain ⟨h', hpending⟩ := h.sockOp hok hidle op
      have hidle' : fd ∉ (Server.sockOp fd s op).pendingFds := by
        rwa [pendingFds, hpending]
      obtain ⟨h'', hpending'⟩ := ih h' (hok.sockOp fd op) hidle'
      exact ⟨h'', hpending'.trans hpending⟩

end SlotSeen

/-- The object behind the calls on its socket. -/
theorem runOps_conn (m : MapSlot) (ops : List SockOp) :
    (ops.foldl MapSlot.runOp m).conn = m.conn.afterOps ops ∧
      (ops.foldl MapSlot.runOp m).calls = m.calls ∧
      (ops.foldl MapSlot.runOp m).queued = m.queued := by
  induction ops generalizing m with
  | nil => exact ⟨rfl, rfl, rfl⟩
  | cons op ops ih =>
      obtain ⟨hconn, hcalls, hqueued⟩ := ih (m.runOp op)
      rw [List.foldl_cons, hconn, hcalls, hqueued]
      cases op with
      | modfd ev =>
          have hsame : (m.runOp (.modfd ev)).conn = m.conn ∧
              (m.runOp (.modfd ev)).calls = m.calls ∧
              (m.runOp (.modfd ev)).queued = m.queued := by
            rw [MapSlot.runOp]
            split <;> exact ⟨rfl, rfl, rfl⟩
          rw [hsame.1, hsame.2.1, hsame.2.2]
          refine ⟨?_, rfl, rfl⟩
          rw [afterOps, afterOps]
          simp
      | closeConn =>
          have hsame : (m.runOp .closeConn).conn = { m.conn with sockfd := none } ∧
              (m.runOp .closeConn).calls = m.calls ∧
              (m.runOp .closeConn).queued = m.queued := by
            rw [MapSlot.runOp]
            split
            · rename_i hnone
              refine ⟨?_, rfl, rfl⟩
              rw [← hnone]
            · exact ⟨rfl, rfl, rfl⟩
          rw [hsame.1, hsame.2.1, hsame.2.2]
          refine ⟨?_, rfl, rfl⟩
          rw [afterOps, afterOps, if_pos List.mem_cons_self]
          split <;> rfl

/-! ## Every slot runs as it would alone -/

/-- What a slot gets from outside.  The user map is not part of it. -/
inductive SlotEvent where
  | accept
  | read (outcomes : List RecvOutcome)
  | work (w : World)
  | write (outcomes : List WritevOutcome)

/-- What a step of the server gives to the slot `fd`. -/
def WebAction.seenBy (fd : Nat) : WebAction → Option SlotEvent
  | .loop _ => none
  | .accept g => if g = fd then some .accept else none
  | .readOnce g outcomes => if g = fd then some (.read outcomes) else none
  | .write g outcomes => if g = fd then some (.write outcomes) else none
  | .process g w => if g = fd then some (.work { w with users := UserMap.empty }) else none

/-- What a step of a slot takes from outside. -/
def MapAction.seen : MapAction → Option SlotEvent
  | .accept _ => some .accept
  | .input outcomes _ => some (.read outcomes)
  | .work w => some (.work { w with users := UserMap.empty })
  | .output outcomes => some (.write outcomes)
  | .hangup => none

/-- A connection that is admitted gets no slot that waits for a worker, or that a worker has
taken. -/
def SlotReady (w : WebServer) : WebAction → Prop
  | .accept connfd => connfd ∉ w.server.workqueue ∧ connfd ∉ w.server.processing
  | _ => True

instance (w : WebServer) (a : WebAction) : Decidable (SlotReady w a) := by
  unfold SlotReady
  split <;> infer_instance

/-- What holds of the shared state. -/
structure WebOk (w : WebServer) : Prop where
  slots : SlotsOk w.server
  exclusive : Exclusive w.server

theorem startWeb_ok (accounts : UserMap) : WebOk (startWeb accounts) :=
  ⟨startServer_slotsOk, startServer_exclusive⟩

/-- A step that finds its slot ready is a step of `Server` that finds its slot free. -/
theorem webStep_free {cfg : Config} {w w' : WebServer} {a : WebAction} (hready : SlotReady w a)
    (hstep : webStep cfg w a = some w') :
    ∃ b, SlotFree cfg w.server b ∧ serverStep cfg w.server b = some w'.server := by
  cases webStep_inv hstep with
  | @loop b s hplain hserver =>
      refine ⟨b, ?_, hserver⟩
      cases b with
      | accept =>
          have hfull := of_decide_eq_true hplain
          exact fun _ hroom => absurd hfull (by omega)
      | _ => trivial
  | accept hroom hserver => exact ⟨.accept, fun _ _ => hready, hserver⟩
  | readOnce _ _ hserver => exact ⟨_, by exact trivial, hserver⟩
  | write _ _ hserver => exact ⟨_, by exact trivial, hserver⟩
  | process _ hserver => exact ⟨_, by exact trivial, hserver⟩

theorem WebOk.step {cfg : Config} {w w' : WebServer} {a : WebAction} (h : WebOk w)
    (hready : SlotReady w a) (hstep : webStep cfg w a = some w') : WebOk w' := by
  obtain ⟨b, hfree, hserver⟩ := webStep_free hready hstep
  exact ⟨serverStep_slotsOk h.slots hserver,
    serverStep_exclusive h.slots h.exclusive hfree hserver⟩

/-- The object and the calls of the slot `fd` are those of `m`. -/
structure SlotView (fd : Nat) (w : WebServer) (m : MapSlot) : Prop where
  conn : m.conn = w.users fd
  calls : m.calls = w.calls fd
  seen : SlotSeen fd w.server m

/-- What a step does to a slot: nothing, or a step of the slot alone, on what it gets.  A worker
reads the accounts of all slots. -/
def SlotSteps (fd : Nat) (accounts : UserMap) (w' : WebServer) (m : MapSlot)
    (event : Option SlotEvent) : Prop :=
  (SlotView fd w' m ∧ event = none) ∨
    ∃ b m', mapStep m b = some m' ∧ b.seen = event ∧ (∀ v, b = .work v → v.users = accounts) ∧
      SlotView fd w' m'

namespace SlotView

variable {cfg : Config} {fd : Nat} {w w' : WebServer} {m : MapSlot}

/-- A step that runs no member function closes the connection, or leaves the slot. -/
theorem plain (h : SlotView fd w m) (hok : WebOk w) {a : ServerAction} {s : Server}
    (hplain : a.plain w.server = true) (hstep : serverStep cfg w.server a = some s) :
    SlotSteps fd w.accounts { w with server := s } m none := by
  rcases plainStep_slot hok.slots hplain hstep fd with hkept | hclosed
  · exact .inl ⟨⟨h.conn, h.calls, h.seen.kept hkept⟩, rfl⟩
  · rcases hopen : m.isOpen with _ | _
    · exact .inl ⟨⟨h.conn, h.calls, h.seen.closed_again hclosed hopen⟩, rfl⟩
    · refine .inr ⟨.hangup, m.close, ?_, rfl, nofun, h.conn, h.calls, ?_⟩
      · rw [mapStep, if_pos hopen]
      · exact h.seen.closed hclosed rfl m.calls

/-- A step for another slot. -/
theorem other (h : SlotView fd w m) {g : Nat} (hne : fd ≠ g) {s : Server}
    (hkept : SlotKept fd w.server s) (c : HttpConn) (accounts : UserMap) (calls : List MapCall) :
    SlotView fd ⟨s, Function.update w.users g c, accounts, Function.update w.calls g calls⟩ m :=
  ⟨h.conn.trans (Function.update_of_ne hne c w.users).symm,
    h.calls.trans (Function.update_of_ne hne calls w.calls).symm, h.seen.kept hkept⟩

/-- A connection is admitted. -/
theorem accept (h : SlotView fd w m) (hok : WebOk w) {s : Server}
    (hroom : w.server.userCount < MAX_FD) (hstep : serverStep cfg w.server .accept = some s) :
    SlotSteps fd w.accounts { w with
      server := s
      users := Function.update w.users (w.server.lowestFree cfg)
        ((w.users (w.server.lowestFree cfg)).initSockfd (w.server.lowestFree cfg)) } m
      (WebAction.seenBy fd (.accept (w.server.lowestFree cfg))) := by
  have hs : s = w.server.newConn (w.server.lowestFree cfg) := by
    cases serverStep_inv hstep with
    | refuse rest _ hfull => omega
    | newConn rest _ _ => rfl
  have hclosed := lowestFree_not_open cfg w.server
  generalize w.server.lowestFree cfg = g at hclosed hs
  subst hs
  by_cases hfd : fd = g
  · subst hfd
    have hnever : ∀ {P : Prop} {kind}, Event.client fd kind ∈ w.server.pending → P :=
      fun hmem => absurd (hok.exclusive.pending_open fd (mem_pendingFds hmem)) hclosed
    have hopen : ¬ m.isOpen = true := fun ho => hclosed (h.seen.isOpen.mp ho)
    refine .inr ⟨.accept fd, _, if_neg hopen, (if_pos rfl).symm, nofun, ?_, h.calls, ?_⟩
    · show m.conn.initSockfd fd = Function.update w.users fd _ fd
      rw [Function.update_self, h.conn]
    · refine ⟨iff_of_true rfl ((AList.mem_insert _).mpr (.inl rfl)), ?_, h.seen.places, ?_, hnever,
        hnever⟩
      · show some fd = (Function.update w.server.slots fd _ fd).sockfd
        rw [Function.update_self]
      · intro ev hev
        change Function.update w.server.armed fd (some .input) fd = some ev at hev
        rwa [Function.update_self] at hev
  · refine .inl ⟨?_, if_neg (Ne.symm hfd)⟩
    have hother := h.other hfd (SlotKept.newConn w.server hfd) ((w.users g).initSockfd g) w.accounts
      (w.calls g)
    rwa [Function.update_eq_self] at hother

/-- What the main loop finds at an event of the slot. -/
theorem event (h : SlotView fd w m) (hok : WebOk w) {kind : EventKind} {rest : List Event}
    (hpending : w.server.pending = .client fd kind :: rest) :
    m.isOpen = true ∧ Tracks { w.server with pending := rest } fd ∧
      fd ∉ rest.filterMap Event.fd? ∧
      w.server.armed fd = none ∧ SlotSeen fd { w.server with pending := rest } m := by
  have hmem : .client fd kind ∈ w.server.pending := by
    rw [hpending]
    exact List.mem_cons_self
  have hopen := hok.exclusive.pending_open fd (mem_pendingFds hmem)
  obtain ⟨htracks, hrest⟩ := hok.slots.takeEvent_client hpending
  have hzero := (hok.exclusive.takeEvent hpending).2 fd rfl
  exact ⟨h.seen.isOpen.mpr hopen, htracks, hrest, (occupancy_eq_zero.mp hzero).1,
    h.seen.kept (.takeEvent hpending)⟩

/-- The main loop reads from the connection. -/
theorem readOnce_self (h : SlotView fd w m) (cfg : Config) (hok : WebOk w) {os : List RecvOutcome} {ok : Bool}
    {c : HttpConn} {rest : List Event} (hpending : w.server.pending = .client fd .input :: rest)
    (hread : Post.readOnce (w.users fd) os = some (ok, c)) :
    ∃ append m', mapStep m (.input os append) = some m' ∧
      SlotView fd { w with
        server := ({ w.server with pending := rest } : Server).handleInput cfg fd ok
        users := Function.update w.users fd c } m' := by
  obtain ⟨hopen, htracks, hrest, hunarmed, hseen⟩ := h.event hok hpending
  have harmed : m.armed = some .input := h.seen.input (by rw [hpending]; exact List.mem_cons_self)
  have hsock : c.sockfd = m.conn.sockfd := by
    rw [h.conn]
    exact (sameFile_of_rest (readOnce_rest hread)).sockfd
  have hconn : c = Function.update w.users fd c fd := (Function.update_self fd c w.users).symm
  rw [← h.conn] at hread
  rcases ok with _ | _
  · refine ⟨false, MapSlot.close { m with conn := c }, ?_, hconn, h.calls, ?_⟩
    · simp only [mapStep, if_pos (And.intro hopen harmed), hread]
    · exact hseen.closed (.closeEvent (hok.slots.takeEvent hpending) htracks hrest) hsock m.calls
  · have happend := (hseen.append cfg hunarmed hrest hsock).kept (.refresh fd _ fd)
    refine ⟨(({ w.server with pending := rest } : Server).append cfg fd).1, { m with
      conn := c
      armed := none
      queued := if (({ w.server with pending := rest } : Server).append cfg fd).1 then m.queued + 1
        else m.queued }, ?_, hconn, h.calls, happend⟩
    simp only [mapStep, if_pos (And.intro hopen harmed), hread]

/-- The main loop writes to the connection. -/
theorem write_self (h : SlotView fd w m) (hok : WebOk w) {os : List WritevOutcome}
    {exit : WriteExit} {c : HttpConn} {rest : List Event}
    (hpending : w.server.pending = .client fd .output :: rest)
    (hwrite : Post.write (w.users fd) os = some (exit, c)) :
    ∃ m', mapStep m (.output os) = some m' ∧
      SlotView fd { w with
        server := ({ w.server with pending := rest } : Server).handleOutput fd exit
        users := Function.update w.users fd c
        calls := Function.update w.calls fd (w.calls fd ++ writeCalls (w.users fd) os) } m' := by
  obtain ⟨hopen, htracks, hrest, hunarmed, hseen⟩ := h.event hok hpending
  have harmed : m.armed = some .output := h.seen.output (by rw [hpending]; exact List.mem_cons_self)
  have hslots := hok.slots.takeEvent hpending
  have hsock : c.sockfd = m.conn.sockfd := by
    rw [h.conn]
    exact write_sockfd hwrite
  have hcalls : m.calls ++ writeCalls m.conn os =
      Function.update w.calls fd (w.calls fd ++ writeCalls (w.users fd) os) fd := by
    rw [Function.update_self, h.calls, h.conn]
  have hconn : c = Function.update w.users fd c fd := (Function.update_self fd c w.users).symm
  have hops := ((hseen.unarm hunarmed hrest hsock (m.calls ++ writeCalls m.conn os)).sockOps hslots
    hrest exit.ops).1
  rw [← h.conn] at hwrite
  rw [Server.handleOutput]
  rcases hresult : exit.result with _ | _
  · refine ⟨MapSlot.close { m with conn := c, calls := m.calls ++ writeCalls m.conn os }, ?_, hconn,
      hcalls, hseen.closed ?_ hsock _⟩
    · simp only [mapStep, if_pos (And.intro hopen harmed), hwrite, hresult, Bool.false_eq_true,
        if_false]
    · have hclosed := SlotClosed.closeEvent (hslots.sockOps fd exit.ops) (htracks.writeOps exit)
        (by rw [writeOps_pendingFds]; exact hrest)
      obtain ⟨hplaces, hsockfd⟩ := writeOps_places { w.server with pending := rest } fd exit
      exact { hclosed with
        sockfd := hclosed.sockfd.trans hsockfd
        places := hclosed.places.trans hplaces }
  · obtain ⟨hm, hmcalls, -⟩ := runOps_conn { m with
      conn := c
      armed := none
      calls := m.calls ++ writeCalls m.conn os } exit.ops
    refine ⟨exit.ops.foldl MapSlot.runOp { m with
      conn := c
      armed := none
      calls := m.calls ++ writeCalls m.conn os }, ?_, ?_, hmcalls.trans hcalls,
      hops.kept (.refresh fd _ fd)⟩
    · simp only [mapStep, if_pos (And.intro hopen harmed), hwrite, hresult, if_true]
    · rw [hm, afterOps, if_neg (by cases exit <;> decide)]
      exact hconn

/-- A worker runs `process` for the connection. -/
theorem process_self (h : SlotView fd w m) (hok : WebOk w) {world world' : World}
    {code : HttpCode} {writeRet : Bool} {c : HttpConn} (hmem : fd ∈ w.server.processing)
    (hprocess : runProcess { world with users := w.accounts } (w.users fd) =
      .ok (code, writeRet, c, world')) :
    ∃ m', mapStep m (.work { world with users := w.accounts }) = some m' ∧
      SlotView fd { w with
        server := ({ w.server with processing := w.server.processing.erase fd } : Server).sockOps fd
          (processOps code writeRet)
        users := Function.update w.users fd (c.afterOps (processOps code writeRet))
        accounts := world'.users
        calls := Function.update w.calls fd (w.calls fd ++
          processCalls { world with users := w.accounts } (w.users fd)) } m' := by
  have hprocess' : process { world with users := w.accounts } m.conn =
      .ok (processOps code writeRet, c, world') := by
    rw [h.conn, process_eq, hprocess]
    rfl
  have hzero := (hok.exclusive.finish hmem).2
  have hslots : SlotsOk { w.server with processing := w.server.processing.erase fd } :=
    { hok.slots with }
  have hpos : 0 < w.server.processing.count fd := List.count_pos_iff.mpr hmem
  have hqueued : m.queued ≠ 0 := by
    rw [h.seen.places]
    omega
  have hseen : SlotSeen fd { w.server with processing := w.server.processing.erase fd } { m with
      conn := c
      queued := m.queued - 1
      calls := m.calls ++ processCalls { world with users := w.accounts } m.conn } :=
    { h.seen with
      sockfd := (process_file hprocess').1.trans h.seen.sockfd
      places := by
        show m.queued - 1 = w.server.workqueue.count fd + (w.server.processing.erase fd).count fd
        rw [h.seen.places, List.count_erase_self]
        omega }
  have hops := (hseen.sockOps hslots (occupancy_eq_zero.mp hzero).2.2.2
    (processOps code writeRet)).1
  obtain ⟨hm, hmcalls, -⟩ := runOps_conn { m with
    conn := c
    queued := m.queued - 1
    calls := m.calls ++ processCalls { world with users := w.accounts } m.conn }
    (processOps code writeRet)
  refine ⟨_, ?_, ?_, ?_, hops⟩
  · rw [mapStep, if_neg hqueued, hprocess']
  · rw [hm]
    exact (Function.update_self fd _ w.users).symm
  · rw [hmcalls, h.calls, h.conn]
    exact (Function.update_self fd _ w.calls).symm

/-- A step of the server is a step of the slot alone, or none. -/
theorem step (h : SlotView fd w m) (hok : WebOk w) {a : WebAction}
    (hstep : webStep cfg w a = some w') :
    SlotSteps fd w.accounts w' m (a.seenBy fd) := by
  cases webStep_inv hstep with
  | loop hplain hserver => exact h.plain hok hplain hserver
  | accept hroom hserver => exact h.accept hok hroom hserver
  | @readOnce g os ok c s rest hpending hread hserver =>
      have hs : s = ({ w.server with pending := rest } : Server).handleInput cfg g ok := by
        cases serverStep_inv hserver with
        | input rest' g' _ hpending' =>
            rw [hpending] at hpending'
            cases hpending'
            rfl
      subst hs
      by_cases hfd : fd = g
      · subst hfd
        obtain ⟨append, m', hm, hview⟩ := h.readOnce_self cfg hok hpending hread
        exact .inr ⟨_, m', hm, (if_pos rfl).symm, nofun, hview⟩
      · obtain ⟨htracks, -⟩ := hok.slots.takeEvent_client hpending
        have hother := h.other hfd ((SlotKept.takeEvent hpending).trans
          (.handleInput (hok.slots.takeEvent hpending) cfg htracks ok hfd)) c w.accounts (w.calls g)
        rw [Function.update_eq_self] at hother
        exact .inl ⟨hother, if_neg (Ne.symm hfd)⟩
  | @write g os exit c s rest hpending hwrite hserver =>
      have hs : s = ({ w.server with pending := rest } : Server).handleOutput g exit := by
        cases serverStep_inv hserver with
        | output rest' g' _ hpending' =>
            rw [hpending] at hpending'
            cases hpending'
            rfl
      subst hs
      by_cases hfd : fd = g
      · subst hfd
        obtain ⟨m', hm, hview⟩ := h.write_self hok hpending hwrite
        exact .inr ⟨_, m', hm, (if_pos rfl).symm, nofun, hview⟩
      · obtain ⟨htracks, -⟩ := hok.slots.takeEvent_client hpending
        exact .inl ⟨h.other hfd ((SlotKept.takeEvent hpending).trans
          (.handleOutput (hok.slots.takeEvent hpending) htracks exit hfd)) c w.accounts _,
          if_neg (Ne.symm hfd)⟩
  | @process g world world' code writeRet c s hprocess hserver =>
      obtain ⟨hmem, rfl⟩ : g ∈ w.server.processing ∧
          s = ({ w.server with processing := w.server.processing.erase g } : Server).sockOps g
            (processOps code writeRet) := by
        cases serverStep_inv hserver with
        | process _ _ _ hmem => exact ⟨hmem, rfl⟩
      by_cases hfd : fd = g
      · subst hfd
        obtain ⟨m', hm, hview⟩ := h.process_self hok hmem hprocess
        refine .inr ⟨_, m', hm, (if_pos rfl).symm, fun v hv => ?_, hview⟩
        cases hv
        rfl
      · have hslots : SlotsOk { w.server with processing := w.server.processing.erase g } :=
          { hok.slots with }
        have herase : SlotKept fd w.server
            { w.server with processing := w.server.processing.erase g } := by
          refine .of_eq rfl rfl rfl ?_ (fun _ he => he)
          show _ + (w.server.processing.erase g).count fd = _
          rw [List.count_erase_of_ne hfd]
        exact .inl ⟨h.other hfd (herase.trans (.sockOps hslots hfd _)) _ _ _,
          if_neg (Ne.symm hfd)⟩

end SlotView

theorem startWeb_view (accounts : UserMap) (fd : Nat) :
    SlotView fd (startWeb accounts) (newMapSlot HttpConn.blank) where
  conn := rfl
  calls := rfl
  seen := {
    isOpen := iff_of_false Bool.false_ne_true (AList.notMem_empty fd)
    sockfd := rfl
    places := rfl
    armed := fun _ hev => nomatch hev
    input := fun hmem => nomatch hmem
    output := fun hmem => nomatch hmem }

theorem webStep_simulated {cfg : Config} {fd : Nat} {w w' : WebServer} {m : MapSlot}
    {a : WebAction} (hok : WebOk w) (h : SlotView fd w m) (hready : SlotReady w a)
    (hstep : webStep cfg w a = some w') :
    ∃ bs m', exec mapStep m bs = some m' ∧
      bs.filterMap MapAction.seen = (a.seenBy fd).toList ∧ WebOk w' ∧ SlotView fd w' m' := by
  have hok' := hok.step hready hstep
  rcases h.step hok hstep with ⟨hview, hnone⟩ | ⟨b, m', hm, hb, -, hview⟩
  · exact ⟨[], m, rfl, by rw [hnone]; rfl, hok', hview⟩
  · refine ⟨[b], m', by rw [exec, hm]; rfl, ?_, hok', hview⟩
    rw [List.filterMap_cons, hb]
    cases a.seenBy fd <;> rfl

/-- In every run of the whole server in which `accept` gets no slot that waits for a worker or
that a worker has taken, each slot goes through a run of its own: on what its connections send and
take and on the answers of its workers, in their order, and on nothing of the other slots.  Only
the user map is shared, and the slot does not see why it is closed, nor why a request is not
queued. -/
theorem webServer_slot {cfg : Config} {accounts : UserMap} {as : List WebAction} {w : WebServer}
    (hexec : exec (webStep cfg) (startWeb accounts) as = some w)
    (hready : AllSteps (webStep cfg) SlotReady (startWeb accounts) as) (fd : Nat) :
    ∃ bs m, exec mapStep (newMapSlot HttpConn.blank) bs = some m ∧
      bs.filterMap MapAction.seen = as.filterMap (WebAction.seenBy fd) ∧
      m.conn = w.users fd ∧ m.calls = w.calls fd ∧ (m.isOpen = true ↔ fd ∈ w.server.fds) ∧
      m.queued = w.server.workqueue.count fd + w.server.processing.count fd := by
  obtain ⟨bs, m, hbs, hseen, -, hview⟩ := exec_simulated (WebAction.seenBy fd) MapAction.seen
    (fun _ _ _ _ h hguard hstep => webStep_simulated h.1 h.2 hguard hstep)
    ⟨startWeb_ok accounts, startWeb_view accounts fd⟩ hready hexec
  exact ⟨bs, m, hbs, hseen, hview.conn, hview.calls, hview.seen.isOpen, hview.seen.places⟩

/-! ## The mappings of all slots -/

/-- A worker finds `m_file_address` null, and `mmap` fails for the file that is asked for only
when it is empty. -/
def FileReady (w : WebServer) : WebAction → Prop
  | .process fd world => (w.users fd).fileAddress = .null ∧
      MapsFile { world with users := w.accounts } (w.users fd)
  | _ => True

/-- Only a worker gives a slot a world. -/
theorem seenBy_work {fd : Nat} {a : WebAction} {v : World}
    (h : a.seenBy fd = (MapAction.work v).seen) :
    ∃ world, a = .process fd world ∧ v = { world with users := v.users } := by
  cases a with
  | loop a => cases h
  | process g world =>
      rw [WebAction.seenBy, MapAction.seen] at h
      split at h
      · rename_i hg
        cases hg
        have hv := SlotEvent.work.inj (Option.some.inj h)
        exact ⟨world, rfl, congrArg (fun w : World => { w with users := v.users }) hv.symm⟩
      · cases h
  | accept g | readOnce g outcomes | write g outcomes =>
      rw [WebAction.seenBy, MapAction.seen] at h
      split at h <;> cases h

/-- In every run of the whole server in which `accept` gets no slot that waits for a worker or
that a worker has taken (`SlotReady`), and whose workers find `m_file_address` null and no failing
`mmap` of the file that is asked for, unless it is empty (`FileReady`): the calls of `mmap` and
`munmap` of every slot balance. -/
theorem always_ledgersOk (cfg : Config) (accounts : UserMap) (as : List WebAction)
    (hall : AllSteps (webStep cfg) (fun w a => SlotReady w a ∧ FileReady w a)
      (startWeb accounts) as) :
    Always (webStep cfg) (fun w => ∀ fd, LedgerOk (w.calls fd)) (startWeb accounts) as := by
  refine always_of_invariant
    (fun w => WebOk w ∧ ∀ fd, ∃ m, SlotView fd w m ∧ Accounted m)
    (fun w a => SlotReady w a ∧ FileReady w a) ?_ ?_
    ⟨startWeb_ok accounts, fun fd => ⟨_, startWeb_view accounts fd, accounted_newMapSlot rfl⟩⟩ hall
  · rintro w a w' ⟨hok, hslots⟩ ⟨hready, hfile⟩ hstep
    refine ⟨hok.step hready hstep, fun fd => ?_⟩
    obtain ⟨m, hview, haccounted⟩ := hslots fd
    rcases hview.step hok hstep with ⟨hview', -⟩ | ⟨b, m', hm, hb, husers, hview'⟩
    · exact ⟨m, hview', haccounted⟩
    · refine ⟨m', hview', haccounted.step ?_ hm⟩
      cases b with
      | work v =>
          obtain ⟨world, rfl, hv⟩ := seenBy_work hb.symm
          rw [husers v rfl] at hv
          rw [hv, FileGuard, hview.conn]
          exact hfile
      | _ => trivial
  · rintro w ⟨-, hslots⟩ fd
    obtain ⟨m, hview, haccounted⟩ := hslots fd
    rw [← hview.calls]
    exact haccounted.ledgerOk

/-- Two clients ask for the file of `w`, and the second is answered before the first. -/
def twoClients (w : World) : List WebAction :=
  [.loop (.epollWait [.listen]), .accept 5, .accept 6, .loop .acceptFails, .loop .endBatch,
    .loop (.epollWait [.client 5 .input, .client 6 .input]),
    .readOnce 5 [.data (ascii "GET /a HTTP/1.1\r\n\r\n"), .again],
    .readOnce 6 [.data (ascii "GET /b HTTP/1.1\r\n\r\n"), .again],
    .loop .endBatch, .loop .take, .loop .take, .process 6 w, .process 5 w,
    .loop (.epollWait [.client 6 .output]), .write 6 [.sent 66]]

theorem webServer_slot_two :
    ∃ w bs m, exec (webStep (mainConfig [0, 1, 2, 3, 4])) (startWeb UserMap.empty)
        (twoClients (oneFile 10 (.mapped 4096))) = some w ∧
      exec mapStep (newMapSlot HttpConn.blank) bs = some m ∧
      bs.filterMap MapAction.seen =
        (twoClients (oneFile 10 (.mapped 4096))).filterMap (WebAction.seenBy 6) ∧
      m.conn = w.users 6 := by
  have hsome : (exec (webStep (mainConfig [0, 1, 2, 3, 4])) (startWeb UserMap.empty)
      (twoClients (oneFile 10 (.mapped 4096)))).isSome = true := by decide +kernel
  obtain ⟨w, hw⟩ := Option.isSome_iff_exists.mp hsome
  obtain ⟨bs, m, hbs, hseen, hconn, -⟩ := webServer_slot hw (by decide +kernel) 6
  exact ⟨w, bs, m, hw, hbs, hseen, hconn⟩

/-- A worker finds `m_file_address` null. -/
def NullReady (w : WebServer) : WebAction → Prop
  | .process fd _ => (w.users fd).fileAddress = .null
  | _ => True

instance (w : WebServer) (a : WebAction) : Decidable (NullReady w a) := by
  unfold NullReady
  split <;> infer_instance

/-- The second client has got its file, and the first has a mapping. -/
theorem always_ledgersOk_two :
    ∃ w : WebServer, (w.calls 5 = [.mmap (.mapped 4096) 10] ∧
        w.calls 6 = [.mmap (.mapped 4096) 10, .munmap (.mapped 4096) 10]) ∧
      ∀ fd, LedgerOk (w.calls fd) := by
  have hnull : AllSteps (webStep (mainConfig [0, 1, 2, 3, 4]))
      (fun w a => SlotReady w a ∧ NullReady w a) (startWeb UserMap.empty)
      (twoClients (oneFile 10 (.mapped 4096))) := by
    decide +kernel
  have hall : AllSteps (webStep (mainConfig [0, 1, 2, 3, 4]))
      (fun w a => SlotReady w a ∧ FileReady w a) (startWeb UserMap.empty)
      (twoClients (oneFile 10 (.mapped 4096))) := by
    refine hnull.weaken ?_
    rintro w a ha ⟨hready, hfile⟩
    refine ⟨hready, ?_⟩
    cases a with
    | process fd world =>
        simp only [twoClients, List.mem_cons, List.not_mem_nil, reduceCtorEq,
          WebAction.process.injEq, false_or, or_false] at ha
        obtain rfl : world = oneFile 10 (.mapped 4096) := ha.elim And.right And.right
        exact ⟨hfile, fun _ _ _ _ _ => ⟨4096, rfl⟩⟩
    | _ => trivial
  exact (always_ledgersOk _ UserMap.empty _ hall).exists_last
    (fun w : WebServer => w.calls 5 = [.mmap (.mapped 4096) 10] ∧
      w.calls 6 = [.mmap (.mapped 4096) 10, .munmap (.mapped 4096) 10]) (by decide +kernel)

end EasyWebServer.Post
