import EasyWebServer.Post.Stranded

/-!
# The descriptors that are accepted

`users` and `users_timer` have `MAX_FD` elements, and the index is the descriptor.  The
admission check bounds `m_user_count`, which counts connections and not descriptors: the
descriptors of the server itself take numbers below `MAX_FD` too.

`allSteps_inTable_iff` says in which runs every admitted descriptor is an index of the
arrays.
-/

namespace EasyWebServer.Post

open Server Transition

/-! ## The property and the guard -/

/-- The next connection that `accept` returns passes the check. -/
def Server.Admits (s : Server) : Prop :=
  s.phase = .dispatching ∧ s.pending.head? = some .listen ∧ s.userCount < MAX_FD

instance (s : Server) : Decidable s.Admits := by
  unfold Server.Admits
  infer_instance

/-- An admitted descriptor is an index of `users` and `users_timer`. -/
def InTable (cfg : Config) (s : Server) : ServerAction → Prop
  | .accept => s.Admits → s.lowestFree cfg < MAX_FD
  | _ => True

/-- The descriptors of the server itself that are below `MAX_FD`. -/
def Config.low (cfg : Config) : List Nat := cfg.reserved.dedup.filter (fun fd => decide (fd < MAX_FD))

/-- A connection is admitted when the client descriptors that are open, with those of the
server itself, leave one of the numbers below `MAX_FD`. -/
def TableRoom (cfg : Config) (s : Server) : ServerAction → Prop
  | .accept => s.Admits → s.fds.keys.length + cfg.low.length < MAX_FD
  | _ => True

instance (cfg : Config) (s : Server) : ∀ a : ServerAction, Decidable (TableRoom cfg s a)
  | .accept => inferInstanceAs (Decidable (_ → _))
  | .advance _ | .epollWait _ | .epollFails | .acceptFails | .signals _ _ | .hangup
  | .readOnce _ | .write _ | .endBatch | .take | .process _ _ _ => .isTrue trivial

/-! ## The open descriptors -/

/-- The client descriptors are indices of the arrays, and none is the server's own. -/
def FdsBelow (cfg : Config) (s : Server) : Prop :=
  ∀ fd ∈ s.fds, fd < MAX_FD ∧ fd ∉ cfg.reserved

theorem FdsBelow.of_subset {cfg : Config} {s s' : Server} (h : FdsBelow cfg s)
    (hsub : ∀ fd ∈ s'.fds, fd ∈ s.fds) : FdsBelow cfg s' :=
  fun fd hfd => h fd (hsub fd hfd)

/-- The lowest free descriptor is below `MAX_FD` exactly when a number is left. -/
theorem FdsBelow.lowestFree_lt_iff {cfg : Config} {s : Server} (h : FdsBelow cfg s) :
    s.lowestFree cfg < MAX_FD ↔ s.fds.keys.length + cfg.low.length < MAX_FD := by
  have hlow : ∀ fd, fd ∈ cfg.low ↔ fd ∈ cfg.reserved ∧ fd < MAX_FD := by
    intro fd
    rw [Config.low, List.mem_filter, List.mem_dedup, decide_eq_true_iff]
  have hnodup : (s.fds.keys ++ cfg.low).Nodup := by
    rw [List.nodup_append]
    refine ⟨s.fds.nodupKeys, (List.nodup_dedup _).filter _, ?_⟩
    intro a ha b hb heq
    rw [heq] at ha
    exact (h b (AList.mem_keys.mpr ha)).2 ((hlow b).mp hb).1
  have hmem : ∀ fd, fd ∈ s.fds.keys ++ cfg.low ↔ fd ∈ s.usedFds cfg ∧ fd < MAX_FD := by
    intro fd
    rw [usedFds, List.mem_append, List.mem_append, hlow]
    constructor
    · rintro (hopen | ⟨hreserved, hlt⟩)
      · exact ⟨Or.inr hopen, (h fd (AList.mem_keys.mpr hopen)).1⟩
      · exact ⟨Or.inl hreserved, hlt⟩
    · rintro ⟨hreserved | hopen, hlt⟩
      · exact Or.inr ⟨hreserved, hlt⟩
      · exact Or.inl hopen
  rw [lowestFree_eq, Descriptors.lowest_lt_iff hnodup hmem, List.length_append]

theorem closeEvent_fds {s : Server} {fd : Nat} (hok : SlotsOk s) (htracks : Tracks s fd) :
    ∀ g ∈ (s.closeEvent fd).fds, g ∈ s.fds := by
  obtain ⟨t, timers, -, -, heq⟩ := closeEvent_eq hok.live htracks
  rw [heq]
  intro g hg
  exact ((mem_close s fd g).mp hg).2

theorem handleInput_fds {s : Server} {fd : Nat} (cfg : Config) (hok : SlotsOk s)
    (htracks : Tracks s fd) (ok : Bool) : ∀ g ∈ (s.handleInput cfg fd ok).fds, g ∈ s.fds := by
  rw [Server.handleInput]
  split
  · rw [(refresh_same _ fd).fds, append_eq]
    exact fun _ hg => hg
  · exact closeEvent_fds hok htracks

theorem handleOutput_fds {s : Server} {fd : Nat} (hok : SlotsOk s) (htracks : Tracks s fd)
    (exit : WriteExit) : ∀ g ∈ (s.handleOutput fd exit).fds, g ∈ s.fds := by
  have hops := writeOps_fds s fd exit
  rw [Server.handleOutput]
  show ∀ g ∈ (if exit.result then _ else _ : Server).fds, g ∈ s.fds
  split
  · rw [(refresh_same _ fd).fds, hops]
    exact fun _ hg => hg
  · intro g hg
    have hg' := closeEvent_fds (hok.sockOps fd exit.ops) (htracks.writeOps exit) g hg
    rw [hops] at hg'
    exact hg'

theorem endBatch_fds {s : Server} (hok : SlotsOk s) (hpending : s.pending = []) :
    ∀ g ∈ s.endBatch.fds, g ∈ s.fds := by
  apply (endBatch_rule (fun s' => ∀ g ∈ s'.fds, g ∈ s.fds) hok hpending (fun _ hg => hg)
    (fun _ _ _ h => h) ?_).2
  intro s₁ t rest u hok₁ h₁ _ _ hpq hu _ g hg
  rw [(hok₁.expireTop_fields hpq hu).1] at hg
  exact h₁ g (AList.mem_erase.mp hg).2

/-- A step opens no descriptor, or the lowest free one for a connection that is
admitted. -/
theorem serverStep_fds {cfg : Config} {s s' : Server} {a : ServerAction} (hok : SlotsOk s)
    (hstep : serverStep cfg s a = some s') :
    (∀ fd ∈ s'.fds, fd ∈ s.fds) ∨
      a = .accept ∧ s.Admits ∧ s' = s.newConn (s.lowestFree cfg) := by
  have hdispatching : ∀ {e rest}, s.pending = e :: rest → s.phase = .dispatching := by
    intro e rest hpending
    by_contra hphase
    rw [hok.pending_phase hphase] at hpending
    cases hpending
  rcases serverStep_inv hstep with _ | _ | _ | _ | ⟨rest, hpending, hroom⟩ | _ | _ |
    ⟨rest, fd, hpending⟩ | ⟨rest, fd, ok, hpending⟩ | ⟨rest, fd, exit, hpending⟩ |
    ⟨-, hpending⟩ | _ | ⟨fd, code, writeRet, -⟩
  case newConn =>
    refine .inr ⟨rfl, ⟨hdispatching hpending, ?_, hroom⟩, rfl⟩
    rw [hpending]
    rfl
  case hangup =>
    exact .inl (closeEvent_fds (hok.takeEvent hpending) (hok.takeEvent_client hpending).1)
  case input =>
    exact .inl (handleInput_fds cfg (hok.takeEvent hpending) (hok.takeEvent_client hpending).1 ok)
  case output =>
    exact .inl (handleOutput_fds (hok.takeEvent hpending) (hok.takeEvent_client hpending).1 exit)
  case endBatch => exact .inl (endBatch_fds hok hpending)
  case process =>
    left
    have hsock : ∀ g, (s.slots fd).sockfd = some g → g = fd := hok.sockfd fd
    rcases processOps_eq (s := { s with processing := s.processing.erase fd }) hsock code
      writeRet with ⟨-, heq⟩ | ⟨ev, heq⟩ | ⟨-, -, heq⟩
    · rw [heq]
      exact fun _ hg => hg
    · rw [heq, arm_fds]
      exact fun _ hg => hg
    · rw [heq]
      intro g hg
      exact ((mem_close s fd g).mp hg).2
  -- The other steps do not touch the descriptors.
  all_goals exact .inl (fun _ hg => hg)

/-! ## The runs -/

theorem startServer_fdsBelow (cfg : Config) : FdsBelow cfg startServer :=
  fun fd hfd => absurd hfd (AList.notMem_empty fd)

/-- An admitted descriptor that is an index of the arrays joins the others. -/
theorem FdsBelow.newConn {cfg : Config} {s : Server} (h : FdsBelow cfg s)
    (hlt : s.lowestFree cfg < MAX_FD) : FdsBelow cfg (s.newConn (s.lowestFree cfg)) := by
  intro fd hfd
  have hcases : fd = s.lowestFree cfg ∨ fd ∈ s.fds := (AList.mem_insert _).mp hfd
  rcases hcases with rfl | hold
  · refine ⟨hlt, fun hreserved => lowestFree_not_mem cfg s ?_⟩
    rw [usedFds]
    exact List.mem_append_left _ hreserved
  · exact h fd hold

theorem FdsBelow.step {cfg : Config} {s s' : Server} {a : ServerAction} (hok : SlotsOk s)
    (h : FdsBelow cfg s) (hguard : InTable cfg s a) (hstep : serverStep cfg s a = some s') :
    FdsBelow cfg s' := by
  rcases serverStep_fds hok hstep with hsub | ⟨rfl, hadmits, rfl⟩
  · exact h.of_subset hsub
  · exact h.newConn (hguard hadmits)

theorem inTable_iff {cfg : Config} {s : Server} (h : FdsBelow cfg s) (a : ServerAction) :
    InTable cfg s a ↔ TableRoom cfg s a := by
  rcases a with _ | _ | _ | _ | _ | _ | _ | _ | _ | _ | _ | _
  case accept => exact imp_congr_right (fun _ => h.lowestFree_lt_iff)
  all_goals exact Iff.rfl

/-- In a run, every descriptor that passes the admission check is an index of `users` and
`users_timer` exactly when every connection that passes it finds one of the numbers below
`MAX_FD` that neither the server itself nor another client has. -/
theorem allSteps_inTable_iff (cfg : Config) (as : List ServerAction) :
    AllSteps (serverStep cfg) (InTable cfg) startServer as ↔
      AllSteps (serverStep cfg) (TableRoom cfg) startServer as := by
  apply allSteps_congr (fun s => SlotsOk s ∧ FdsBelow cfg s)
  · rintro s a s' ⟨hok, h⟩ hguard hstep
    exact ⟨serverStep_slotsOk hok hstep, h.step hok hguard hstep⟩
  · rintro s a ⟨-, h⟩
    exact inTable_iff h a
  · exact ⟨startServer_slotsOk, startServer_fdsBelow cfg⟩

/-! ## A crowd that fills the table -/

/-- Behind the crowd, the next client gets the descriptor that is one too many. -/
theorem crowd_outside {n : Nat} (hn : n + 3 = MAX_FD) :
    ¬ AllSteps (serverStep (mainConfig [0, 1, 2])) (InTable (mainConfig [0, 1, 2])) startServer
      (crowd n ++ [.epollWait [.listen], .accept]) := by
  intro h
  obtain ⟨s, hexec, hs, -, -⟩ := exec_crowd n (by omega)
  have hdeliver : serverStep (mainConfig [0, 1, 2]) s (.epollWait [.listen]) =
      some (s.deliver [.listen]) := if_pos ⟨hs.phase, batch_listen s⟩
  have haccept := ((h.drop hexec).2 _ hdeliver).1
  have hadmits : (s.deliver [.listen]).Admits := by
    refine ⟨rfl, rfl, ?_⟩
    show s.userCount < MAX_FD
    rw [hs.userCount]
    omega
  have hlt : s.lowestFree (mainConfig [0, 1, 2]) < MAX_FD := haccept hadmits
  rw [hs.lowestFree] at hlt
  omega

/-- With the three standard descriptors open, the counter admits the client that gets
descriptor 65536. -/
theorem not_allSteps_inTable_crowd :
    ¬ AllSteps (serverStep (mainConfig [0, 1, 2])) (InTable (mainConfig [0, 1, 2])) startServer
      (crowd 65533 ++ [.epollWait [.listen], .accept]) :=
  crowd_outside rfl

end EasyWebServer.Post
